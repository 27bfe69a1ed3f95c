import SecOS.Proofs.TcpReceiving

/-! What a segment, a tick and a call leave as it is: the addresses of a block, its owner and its
generation while it is in use. -/

namespace SecOS.Tcp

structure Kept (c c' : Conn) : Prop where
  iss : c'.iss = c.iss
  remoteIp : c'.remoteIp = c.remoteIp
  localPort : c'.localPort = c.localPort
  remotePort : c'.remotePort = c.remotePort
  listener : c'.listener = c.listener
  accepted : c'.accepted = c.accepted
  orphan : c'.orphan = c.orphan
  backlog : c'.backlog = c.backlog
  generation : c'.generation = c.generation

def Unheld (c : Conn) : Prop := c.orphan = true ∨ c.listener.isSome = true ∧ c.accepted = false

def Live (c : Conn) : Prop := c.state ≠ .closed ∧ c.state ≠ .listen

/-- A turn of a block: it stays with its owner or is freed. -/
structure Turn (c c' : Conn) : Prop extends Kept c c' where
  used : c'.used = c.used ∨ c'.used = false ∧ c'.state = .closed ∧ Unheld c
  state : c'.state = .closed ∨ c'.state = c.state ∨ Live c ∧ Live c'

section
variable {c c' c'' : Conn}

private def fixed (c : Conn) := (c.iss, c.remoteIp, c.localPort, c.remotePort, c.listener, c.accepted, c.orphan, c.backlog, c.generation)

theorem Kept.of (same : fixed c' = fixed c) : Kept c c' := by
  simp only [fixed, Prod.mk.injEq] at same
  obtain ⟨iss, ip, port, remote, listener, accepted, orphan, backlog, generation⟩ := same
  exact ⟨iss, ip, port, remote, listener, accepted, orphan, backlog, generation⟩

theorem Kept.refl (c : Conn) : Kept c c := .of rfl

theorem Kept.trans (first : Kept c c') (second : Kept c' c'') : Kept c c'' :=
  ⟨second.iss.trans first.iss, second.remoteIp.trans first.remoteIp, second.localPort.trans first.localPort,
    second.remotePort.trans first.remotePort, second.listener.trans first.listener, second.accepted.trans first.accepted,
    second.orphan.trans first.orphan, second.backlog.trans first.backlog, second.generation.trans first.generation⟩

theorem Kept.unheld (kept : Kept c c') (unheld : Unheld c') : Unheld c := by
  unfold Unheld at *
  rw [kept.orphan, kept.listener, kept.accepted] at unheld
  exact unheld

theorem Turn.refl (c : Conn) : Turn c c := ⟨.refl c, .inl rfl, .inr (.inl rfl)⟩

theorem Turn.after (turn : Turn c' c'') (kept : Kept c c') (used : c'.used = c.used) (state : c'.state = c.state ∨ Live c ∧ Live c') : Turn c c'' := by
  refine ⟨kept.trans turn.toKept, ?_, ?_⟩
  · rcases turn.used with same | ⟨gone, closed, unheld⟩
    · exact .inl (same.trans used)
    · exact .inr ⟨gone, closed, kept.unheld unheld⟩
  · rcases turn.state with closed | same | ⟨before, after⟩
    · exact .inl closed
    · rcases state with equal | ⟨alive, alive'⟩
      · exact .inr (.inl (same.trans equal))
      · refine .inr (.inr ⟨alive, ?_⟩)
        unfold Live
        rw [same]
        exact alive'
    · rcases state with equal | ⟨alive, _⟩
      · refine .inr (.inr ⟨?_, after⟩)
        unfold Live at before ⊢
        rw [← equal]
        exact before
      · exact .inr (.inr ⟨alive, after⟩)

theorem connClosed_turn (c : Conn) : Turn c (connClosed c) := by
  unfold connClosed
  split
  next gone =>
    refine ⟨.of rfl, .inr ⟨rfl, rfl, ?_⟩, .inl rfl⟩
    rw [Bool.or_eq_true, Bool.and_eq_true, Bool.not_eq_true'] at gone
    exact gone
  · exact ⟨.of rfl, .inl rfl, .inl rfl⟩

theorem output_turn (now : Nat) (c : Conn) : Turn c (tcpOutput now c).1 := by
  obtain ⟨_, _, _, _, _, same, move, _⟩ := output_frame now c
  rw [same]
  refine ⟨.of rfl, .inl rfl, ?_⟩
  rcases move with equal | ⟨before, after⟩ | ⟨before, after⟩
  · exact .inr (.inl equal)
  · refine .inr (.inr ⟨?_, ?_⟩)
    · rw [Live, before]
      exact ⟨nofun, nofun⟩
    · simp only [Live, after]
      exact ⟨nofun, nofun⟩
  · refine .inr (.inr ⟨?_, ?_⟩)
    · rw [Live, before]
      exact ⟨nofun, nofun⟩
    · simp only [Live, after]
      exact ⟨nofun, nofun⟩

theorem write_turn (now : Nat) (data : List UInt8) (c : Conn) : Turn c (tcpWrite now data c).1 := by
  simp only [tcpWrite]
  split
  · exact .refl c
  · exact (output_turn now _).after (.of rfl) rfl (.inl rfl)

theorem read_turn (len : Nat) (c : Conn) : Turn c (tcpRead len c).1 := by
  simp only [tcpRead]
  split
  · split
    · exact .refl c
    · exact .refl c
  · exact ⟨.of rfl, .inl rfl, .inr (.inl rfl)⟩

theorem close_turn (now : Nat) (c : Conn) : Turn c (startClose now c).1 := by
  unfold startClose
  split
  · exact (output_turn now _).after (.of rfl) rfl (.inl rfl)
  split
  · exact ⟨.of rfl, .inl rfl, .inl rfl⟩
  · exact .refl c

theorem inputRst_turn (c : Conn) (s : Segment) : Turn c (inputRst c s).1 := by
  rcases inputRst_cases c s with gone | answer | none
  · rw [gone]
    exact (connClosed_turn _).after (.of rfl) rfl (.inl rfl)
  · rw [answer]
    exact .refl c
  · rw [none]
    exact .refl c

theorem inputSynSent_turn (now : Nat) (live : Live c) (s : Segment) : Turn c (inputSynSent now c s).1 := by
  rcases inputSynSent_cases now c s with none | ⟨_, _, _, _, _, answered⟩ | ⟨_, crossed⟩
  · rw [none]
    exact .refl c
  · rw [answered]
    exact ⟨.of rfl, .inl rfl, .inr (.inr ⟨live, nofun, nofun⟩)⟩
  · rw [crossed]
    exact ⟨.of rfl, .inl rfl, .inr (.inr ⟨live, nofun, nofun⟩)⟩

theorem applyAck_kept (now : Nat) (c : Conn) (ack : Seq) : Kept c (applyAck now c ack) ∧ (applyAck now c ack).used = c.used := by
  obtain ⟨_, _, same, _⟩ := applyAck_frame now c ack
  rw [same]
  exact ⟨.of rfl, rfl⟩

theorem inputAck_turn (now : Nat) (live : Live c) (s : Segment) : Turn c (inputAck now c s).1 := by
  obtain ⟨kept, used⟩ := applyAck_kept now c s.ack
  have state := applyAck_state now c s.ack
  have moves {c'' : Conn} (rest : Kept (applyAck now c s.ack) c'') (same : c''.used = (applyAck now c s.ack).used) (alive : Live c'') : Turn c c'' :=
    ⟨kept.trans rest, .inl (same.trans used), .inr (.inr ⟨live, alive⟩)⟩
  rcases inputAck_cases now c s with none | ⟨_, _, _, step⟩
  · rw [none]
    exact .refl c
  · generalize inputAck now c s = r at step ⊢
    cases step with
    | opens => exact moves (.of rfl) rfl ⟨nofun, nofun⟩
    | halfClosed => exact moves (.of rfl) rfl ⟨nofun, nofun⟩
    | waits => exact moves (.of rfl) rfl ⟨nofun, nofun⟩
    | closes => exact (connClosed_turn _).after kept used (.inl state)
    | stays => exact ⟨kept, .inl used, .inr (.inl state)⟩

theorem inputAck_live (now : Nat) (s : Segment) (live : Live c) (more : (inputAck now c s).2 = false) :
    (inputAck now c s).1.used = c.used ∧ Live (inputAck now c s).1 := by
  obtain ⟨_, used⟩ := applyAck_kept now c s.ack
  rcases inputAck_cases now c s with none | ⟨_, _, _, step⟩
  · rw [none]
    exact ⟨rfl, live⟩
  · generalize inputAck now c s = r at step more ⊢
    cases step with
    | opens => exact ⟨used, nofun, nofun⟩
    | halfClosed => exact ⟨used, nofun, nofun⟩
    | waits => exact ⟨used, nofun, nofun⟩
    | closes => cases more
    | stays =>
      refine ⟨used, ?_⟩
      rw [Live, applyAck_state]
      exact live

theorem receive_kept (now : Nat) (live : Live c) (s : Segment) :
    Kept c (inputFin now (inputData c s).1 s).1 ∧ (inputFin now (inputData c s).1 s).1.used = c.used ∧
      Live (inputFin now (inputData c s).1 s).1 := by
  obtain ⟨⟨rx, rcv, same, _⟩, _⟩ := inputData_frame c s
  rw [same]
  rcases inputFin_cases now { c with rx := rx, rcvNxt := rcv } s with none | ⟨_, _, state, tw, o, fin, move, _⟩
  · rw [none]
    exact ⟨.of rfl, rfl, live⟩
  · rw [fin]
    exact ⟨.of rfl, rfl, move.live live⟩

theorem connAbort_turn (orphan : c.orphan = true) : Turn c (connAbort c).1 :=
  ⟨.of rfl, .inr ⟨rfl, rfl, .inl orphan⟩, .inl rfl⟩

theorem input_turn (now : Nat) (live : Live c) (s : Segment) : Turn c (connInput now c s).1 := by
  have window : Kept c { c with sndWnd := s.wnd } := .of rfl
  unfold connInput
  split
  · exact inputRst_turn c s
  dsimp only
  split
  · exact (inputSynSent_turn (c := { c with sndWnd := s.wnd }) now live s).after window rfl (.inl rfl)
  have acked := (inputAck_turn (c := { c with sndWnd := s.wnd }) now live s).after window rfl (.inl rfl)
  have open_ := inputAck_live (c := { c with sndWnd := s.wnd }) now s live
  generalize inputAck now { c with sndWnd := s.wnd } s = r at acked open_ ⊢
  obtain ⟨c', closed⟩ := r
  cases closed with
  | true => exact acked
  | false =>
    obtain ⟨used, alive⟩ := open_ rfl
    dsimp only
    rw [if_neg Bool.false_ne_true]
    split
    next abandoned => exact (connAbort_turn abandoned.1).after acked.toKept used (.inr ⟨live, alive⟩)
    · obtain ⟨kept, same, final⟩ := receive_kept now alive s
      exact (output_turn now _).after (acked.toKept.trans kept) (same.trans used) (.inr ⟨live, final⟩)

theorem tick_turn (now : Nat) (leaves : Bool) (c : Conn) : Turn c (connTick now leaves c).1 := by
  unfold connTick
  split
  · exact .refl c
  split
  · dsimp only
    split
    · exact connClosed_turn c
    · exact .refl c
  split
  next due => exact ⟨.of rfl, .inr ⟨rfl, rfl, .inl due.1⟩, .inl rfl⟩
  split
  · exact .refl c
  split
  · split
    · dsimp only
      split
      · exact ⟨.of rfl, .inl rfl, .inr (.inl rfl)⟩
      · exact ⟨.of rfl, .inl rfl, .inr (.inl rfl)⟩
    · exact .refl c
  split
  · dsimp only
    split
    · exact (connClosed_turn _).after (.of rfl) rfl (.inl rfl)
    · exact ⟨.of rfl, .inl rfl, .inr (.inl rfl)⟩
  · exact .refl c

end
end SecOS.Tcp
