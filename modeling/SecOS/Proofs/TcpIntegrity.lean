import SecOS.Proofs.TcpStream

/-! Delivery. Both streams arrive in order and as a whole, whatever the network does with the
segments. -/

namespace SecOS.Tcp
open List

section
variable {p m c : Conn} {pos : Nat} {s : Segment}

theorem seq_near {a : Seq} {n k : Nat} (same : a + BitVec.ofNat 32 n = a + BitVec.ofNat 32 k) (below : n < k + 2 ^ 31) (above : k < n + 2 ^ 31) :
    n = k := by
  have parts : BitVec.ofNat 32 n = BitVec.ofNat 32 k := by
    rw [← seq_add_sub a n, same, seq_add_sub]
  have numbers := congrArg BitVec.toNat parts
  rw [BitVec.toNat_ofNat, BitVec.toNat_ofNat] at numbers
  omega

theorem near_place (close : near c pos = true) (same : p.iss + BitVec.ofNat 32 pos = p.iss + BitVec.ofNat 32 (rcvPosition c)) :
    pos = rcvPosition c := by
  simp only [near, Bool.and_eq_true, decide_eq_true_eq] at close
  exact seq_near same close.1 close.2

theorem rcvPosition_open (open_ : phase c.state = .greeted ∨ phase c.state = .receiving) : rcvPosition c = (got c).length + 1 := by
  unfold rcvPosition got
  rw [length_append]
  cases state : c.state <;> rw [state] at open_ <;> simp only [phase, reduceCtorEq, or_self] at open_

theorem rcvPosition_ended (ended : phase c.state = .ended) : rcvPosition c = (got c).length + 2 := by
  unfold rcvPosition got
  rw [length_append]
  cases state : c.state <;> rw [state] at ended <;> simp only [phase, reduceCtorEq] at ended

theorem applyAck_got (now : Nat) (c : Conn) (ack : Seq) :
    got (applyAck now c ack) = got c ∧ (applyAck now c ack).rcvNxt = c.rcvNxt ∧ (applyAck now c ack).opened = c.opened ∧
      (applyAck now c ack).reset = c.reset := by
  obtain ⟨_, _, same, _⟩ := applyAck_frame now c ack
  rw [same]
  exact ⟨rfl, rfl, rfl, rfl⟩

theorem inputAck_received (now : Nat) (s : Segment) (received : Received p m) :
    Received p (inputAck now m s).1 ∧ ((inputAck now m s).2 = false → rcvPosition (inputAck now m s).1 = rcvPosition m) := by
  obtain ⟨bytes, rcv, opened, reset⟩ := applyAck_got now m s.ack
  have state := applyAck_state now m s.ack
  rcases inputAck_cases now m s with none | ⟨_, _, _, step⟩
  · rw [none]
    exact ⟨received, fun _ => rfl⟩
  · generalize inputAck now m s = r at step ⊢
    cases step with
    | opens old =>
      rw [Received, old] at received
      obtain ⟨nothing, _, place⟩ := received
      have empty : got { applyAck now m s.ack with state := .established, opened := true } = [] := bytes.trans nothing
      refine ⟨⟨?_, ?_⟩, fun _ => ?_⟩
      · rw [empty]
        exact nil_prefix
      · rw [empty]
        exact rcv.trans place
      · rw [rcvPosition_open (.inr rfl), rcvPosition_open (.inl (by rw [old]; rfl)), empty, nothing]
    | halfClosed old =>
      refine ⟨received.quiet ⟨bytes, rcv, opened, .inl ⟨by rw [old]; rfl, reset⟩⟩, fun _ => ?_⟩
      rw [rcvPosition_open (.inr rfl), rcvPosition_open (.inr (by rw [old]; rfl))]
      exact congrArg (fun l => l.length + 1) bytes
    | waits old =>
      refine ⟨received.quiet ⟨bytes, rcv, opened, .inl ⟨by rw [old]; rfl, reset⟩⟩, fun _ => ?_⟩
      rw [rcvPosition_ended rfl, rcvPosition_ended (by rw [old]; rfl)]
      exact congrArg (fun l => l.length + 2) bytes
    | closes old =>
      obtain ⟨_, same⟩ := connClosed_frame (applyAck now m s.ack)
      rw [same]
      refine ⟨received.quiet ⟨bytes, rcv, opened, .inr ⟨rfl, by rw [old]; rintro ⟨⟩, fun unset => ⟨reset.symm.trans unset, .inl ?_⟩⟩⟩, (by rintro ⟨⟩)⟩
      rw [old]
      rfl
    | stays =>
      refine ⟨received.quiet ⟨bytes, rcv, opened, .inl ⟨by rw [state], reset⟩⟩, fun _ => ?_⟩
      obtain ⟨_, _, same, _⟩ := applyAck_frame now m s.ack
      rw [same]
      rfl

theorem prefix_continues {held more whole : List UInt8} (start : held <+: whole) (next : more <+: whole.drop held.length) : held ++ more <+: whole := by
  obtain ⟨rest, rfl⟩ := start
  rw [drop_left] at next
  exact (prefix_append_right_inj held).mpr next

theorem inputData_empty (none : s.data = []) : inputData c s = (c, []) := if_neg fun more => more.1 none

theorem inputData_received (received : Received p c) (close : near c pos = true)
    (seq : s.seq = p.iss + BitVec.ofNat 32 pos) (bytes : s.data <+: p.written.drop (pos - 1)) : Received p (inputData c s).1 := by
  unfold inputData
  split
  next ready =>
    have open_ : phase c.state = .receiving := by
      rcases ready.2 with state | state | state
      · rw [state]
        rfl
      · rw [state]
        rfl
      · rw [state]
        rfl
    dsimp only
    split
    next here =>
      have place := rcvPosition_open (.inr open_)
      rw [Received, open_] at received
      obtain ⟨start, rcv⟩ := received
      have exact_ : pos = (got c).length + 1 := by
        rw [← place]
        refine near_place (p := p) close ?_
        rw [← seq, here, rcv, place]
      rw [exact_, Nat.add_sub_cancel] at bytes
      have whole : got { (rxAccept c s.data).1 with rcvNxt := c.rcvNxt + BitVec.ofNat 32 (rxAccept c s.data).2 } =
          got c ++ s.data.take (rxBuf - c.rx.length) := (append_assoc ..).symm
      simp only [Received, rxAccept, open_]
      simp only [rxAccept] at whole
      rw [whole]
      refine ⟨prefix_continues start (( take_prefix _ _).trans bytes), ?_⟩
      rw [rcv, seq_add_add, length_append]
      congr 2
      omega
    · exact received
  · exact received

theorem phase_open (live : Live c) (heard : c.state ≠ .synSent) (greeted : c.state ≠ .synRcvd) :
    phase c.state = .receiving ∨ phase c.state = .ended := by
  unfold Live at live
  cases state : c.state <;> simp_all [phase]

theorem FinMove.ended {before after : TcpState} (move : FinMove before after) (open_ : phase before = .receiving) : phase after = .ended := by
  cases move with
  | passive => rfl
  | both => rfl
  | active => rfl
  | stays other =>
    cases before <;> simp only [phase, reduceCtorEq] at open_
    · exact absurd rfl other.1
    · exact absurd rfl other.2.1
    · exact absurd rfl other.2.2

theorem inputFin_received (now : Nat) (received : Received p c) (live : Live c) (heard : c.state ≠ .synSent) (greeted : c.state ≠ .synRcvd)
    (close : near c pos = true) (seq : s.seq = p.iss + BitVec.ofNat 32 pos) (none : s.data = []) (last : pos = p.written.length + 1)
    (sent : p.finSent = true) : Received p (inputFin now c s).1 := by
  rcases inputFin_cases now c s with skipped | ⟨_, here, state, tw, o, fin, move, _⟩
  · rw [skipped]
    exact received
  · have here : p.iss + BitVec.ofNat 32 pos = c.rcvNxt := by
      rw [← here, seq, none]
      exact (BitVec.add_zero _).symm
    rw [fin]
    rcases phase_open live heard greeted with open_ | excess
    · rw [Received, open_] at received
      obtain ⟨start, rcv⟩ := received
      have exact_ := near_place (p := p) close (by rw [here, rcv, rcvPosition_open (.inr open_)])
      rw [rcvPosition_open (.inr open_), last] at exact_
      have whole : got c = p.written := start.eq_of_length (by omega)
      have next : c.rcvNxt + 1 = p.iss + BitVec.ofNat 32 ((got c).length + 2) := by
        rw [rcv]
        exact seq_add_add p.iss ((got c).length + 1) 1
      simp only [Received, move.ended open_]
      exact ⟨⟨whole, sent⟩, next⟩
    · rw [Received, excess] at received
      obtain ⟨⟨whole, _⟩, rcv⟩ := received
      have exact_ := near_place (p := p) close (by rw [here, rcv, rcvPosition_ended excess])
      rw [rcvPosition_ended excess, last, whole] at exact_
      omega

variable {peer : Option Conn}

theorem receive_received (now : Nat) (received : Received p c) (live : Live c) (heard : c.state ≠ .synSent)
    (greeted : s.flags.fin = true → c.state ≠ .synRcvd) (close : near c pos = true) (told : Told p peer pos s) :
    Received p (inputFin now (inputData c s).1 s).1 := by
  by_cases none : s.data = []
  · rw [inputData_empty none]
    cases fin : s.flags.fin with
    | false =>
      rcases inputFin_cases now c s with skipped | ⟨set, _⟩
      · rw [skipped]
        exact received
      · rw [fin] at set
        cases set
    | true =>
      obtain ⟨seq, _, last, sent⟩ := told.fin fin
      exact inputFin_received now received live heard (greeted fin) close seq none last sent
  · obtain ⟨seq, _, bytes⟩ := told.data none
    rcases inputFin_cases now (inputData c s).1 s with skipped | ⟨set, _⟩
    · rw [skipped]
      exact inputData_received received close seq bytes
    · exact absurd (told.fin set).2.1 none

theorem syn_acked (now : Nat) (opening : Opening m) (state : m.state = .synRcvd) (flag : s.flags.ack = true) (ack : s.ack = m.iss + BitVec.ofNat 32 1) :
    (inputAck now m s).1.state = .established := by
  have step : s.ack - m.sndUna = 1 := by
    rw [ack, opening.una, seq_add_sub]
    rfl
  have level : s.ack - m.sndNxt = 0 := by
    rw [ack, opening.nxt]
    exact BitVec.sub_self _
  have above : seqGt s.ack m.sndUna = true := by
    rw [seqGt, step]
    decide
  have upto : seqLeq s.ack m.sndNxt = true := by
    rw [seqLeq, level]
    decide
  unfold inputAck
  rw [if_pos ⟨flag, above, upto⟩]
  dsimp only
  rw [applyAck_state, state]

theorem fin_opens {q : Nat} (now : Nat) (sending : Sending m) (flag : s.flags.ack = true) (ack : s.ack = m.iss + BitVec.ofNat 32 q) (positive : 0 < q)
    (upto : q ≤ extent m) : (inputAck now m s).1.state ≠ .synRcvd := by
  by_cases state : m.state = .synRcvd
  · have opening := sending
    simp only [Sending, state] at opening
    have one : q = 1 := by
      simp only [extent, opening.written, opening.fin, length_nil, Bool.false_eq_true, if_false] at upto
      omega
    rw [syn_acked now opening state flag (by rw [ack, one])]
    rintro ⟨⟩
  · rcases inputAck_cases now m s with none | ⟨_, _, _, step⟩
    · rw [none]
      exact state
    · generalize inputAck now m s = r at step ⊢
      cases step with
      | opens old => exact absurd old state
      | halfClosed => rintro ⟨⟩
      | waits => rintro ⟨⟩
      | closes =>
        rw [connClosed_state]
        rintro ⟨⟩
      | stays =>
        rw [applyAck_state]
        exact state

theorem inputAck_heard (now : Nat) (s : Segment) (heard : m.state ≠ .synSent) : (inputAck now m s).1.state ≠ .synSent := by
  rcases inputAck_cases now m s with none | ⟨_, _, _, step⟩
  · rw [none]
    exact heard
  · generalize inputAck now m s = r at step ⊢
    cases step with
    | opens => nofun
    | halfClosed => nofun
    | waits => nofun
    | closes =>
      rw [connClosed_state]
      nofun
    | stays =>
      rw [applyAck_state]
      exact heard

theorem near_congr (same : rcvPosition c = rcvPosition m) (close : near m pos = true) : near c pos = true := by
  unfold near at *
  rw [same]
  exact close

theorem synSent_received (now : Nat) (received : Received p m) (state : m.state = .synSent) (syn : s.flags.syn = true → s.seq = p.iss) :
    Received p (inputSynSent now m s).1 := by
  have first := received
  rw [Received, state] at first
  obtain ⟨nothing, unopened⟩ := first
  rcases inputSynSent_cases now m s with none | ⟨set, _, _, _, _, answered⟩ | ⟨set, crossed⟩
  · rw [none]
    exact received
  · rw [answered]
    have empty : got { m with rcvNxt := s.seq + 1, sndUna := s.ack, state := .established, opened := true, rtoDeadline := 0 } = [] := nothing
    refine ⟨?_, ?_⟩
    · rw [empty]
      exact nil_prefix
    · rw [empty]
      exact congrArg (· + 1) (syn set)
  · rw [crossed]
    exact ⟨nothing, unopened, congrArg (· + 1) (syn set)⟩

theorem rst_quiet (other : m.state ≠ .listen) (s : Segment) : Quiet m (inputRst m s).1 := by
  rcases inputRst_cases m s with gone | answer | none
  · obtain ⟨_, same⟩ := connClosed_frame { m with reset := true }
    rw [gone, same]
    exact ⟨rfl, rfl, rfl, .inr ⟨rfl, fun equal => other (phase_listening.mp equal), nofun⟩⟩
  · rw [answer]
    exact .refl m
  · rw [none]
    exact .refl m

theorem input_received (now : Nat) (sending : Sending m) (owned : m.orphan = false) (live : Live m) (received : Received p m)
    (close : near m pos = true) (told : Told p (some m) pos s) : Received p (connInput now m s).1 := by
  unfold connInput
  split
  · exact received.quiet (rst_quiet live.2 s)
  have window : Quiet m { m with sndWnd := s.wnd } := ⟨rfl, rfl, rfl, .inl ⟨rfl, rfl⟩⟩
  have same : SameSender m { m with sndWnd := s.wnd } := ⟨rfl, rfl, rfl, rfl, rfl, rfl, id⟩
  dsimp only
  split
  next state => exact synSent_received now (received.quiet window) state fun syn => (told.syn syn).1
  next heard =>
    obtain ⟨acked, place⟩ := inputAck_received now s (received.quiet window)
    have open_ := inputAck_live (c := { m with sndWnd := s.wnd }) now s live
    have kept : (inputAck now { m with sndWnd := s.wnd } s).1.orphan = false := by
      rw [(inputAck_turn (c := { m with sndWnd := s.wnd }) now live s).orphan]
      exact owned
    have heard' := inputAck_heard (m := { m with sndWnd := s.wnd }) now s heard
    have greeted : s.flags.fin = true → (inputAck now { m with sndWnd := s.wnd } s).1.state ≠ .synRcvd := by
      intro fin
      obtain ⟨flag, _, equal, q, ack, positive, upto⟩ := told.acks (.inr fin)
      cases equal
      exact fin_opens (m := { m with sndWnd := s.wnd }) now (same.sending rfl rfl sending) flag ack positive upto
    generalize inputAck now { m with sndWnd := s.wnd } s = r at acked place open_ kept heard' greeted ⊢
    obtain ⟨c, closed⟩ := r
    cases closed with
    | true => exact acked
    | false =>
      dsimp only at acked place open_ kept heard' greeted ⊢
      rw [if_neg Bool.false_ne_true, kept, if_neg fun abandoned => Bool.false_ne_true abandoned.1]
      have close' : near c pos = true := near_congr ((place rfl).trans rfl) close
      exact (receive_received now acked (open_ rfl).2 heard' greeted close' told).quiet (output_quiet now _)

def Met (peer : Option Conn) (m : Conn) : Prop :=
  match peer with
  | none => Received Conn.blank m ∧ (phase m.state = .calling ∨ phase m.state = .closed)
  | some p => Received p m

theorem Sending.busy (sending : Sending c) (live : Live c) (some_ : c.tx ≠ [] ∨ Finishing c) :
    Buffered c ∧ unaPosition c = c.written.length - c.tx.length + 1 ∧ (phase c.state = .receiving ∨ phase c.state = .ended) := by
  have opening (opening : Opening c) : False := by
    rcases some_ with data | finishing
    · exact data opening.tx
    · have fin := opening.fin
      rw [finishing.fin] at fin
      cases fin
  have finished (finished : Finished c) : False := by
    rcases some_ with data | finishing
    · exact data finished.tx
    · have sent := finishing.sent
      rw [inFlight_eq_zero.mpr finished.nxt.symm] at sent
      cases sent
  unfold Sending at sending
  unfold unaPosition
  split at sending
  next state => exact absurd state live.1
  next state => exact absurd state live.2
  · exact (opening sending).elim
  · exact (opening sending).elim
  next state => rw [state]; exact ⟨sending.toBuffered, rfl, .inl rfl⟩
  next state => rw [state]; exact ⟨sending.toBuffered, rfl, .inr rfl⟩
  next state => rw [state]; exact ⟨sending.toBuffered, rfl, .inl rfl⟩
  next state => rw [state]; exact ⟨sending.toBuffered, rfl, .inr rfl⟩
  next state => rw [state]; exact ⟨sending.toBuffered, rfl, .inr rfl⟩
  · exact (finished sending).elim
  · exact (finished sending).elim

theorem position_eq {off : Nat} (buffered : Buffered c) (una : unaPosition c = c.written.length - c.tx.length + 1) (within : off ≤ c.tx.length)
    (seq : s.seq = c.sndUna + BitVec.ofNat 32 off) :
    position c s = c.written.length - c.tx.length + off + 1 ∧ s.seq = c.iss + BitVec.ofNat 32 (position c s) := by
  have room := buffered.room
  unfold txBuf at room
  have place : position c s = c.written.length - c.tx.length + off + 1 := by
    rw [position, una, seq, seq_add_sub, BitVec.toNat_ofNat, Nat.mod_eq_of_lt (show off < 2 ^ 32 by omega)]
    omega
  refine ⟨place, ?_⟩
  have start : c.iss + 1 = c.iss + BitVec.ofNat 32 1 := rfl
  rw [place, seq, buffered.place, start, seq_add_add, seq_add_add]
  congr 2
  omega

theorem Met.acks (met : Met peer m) (open_ : phase m.state = .receiving ∨ phase m.state = .ended) :
    ∃ p, peer = some p ∧ ∃ q, m.rcvNxt = p.iss + BitVec.ofNat 32 q ∧ 0 < q ∧ q ≤ extent p := by
  cases peer with
  | none =>
    obtain ⟨_, calling | closed⟩ := met
    · rw [calling] at open_
      rcases open_ with impossible | impossible
      · cases impossible
      · cases impossible
    · rw [closed] at open_
      rcases open_ with impossible | impossible
      · cases impossible
      · cases impossible
  | some p =>
    have received : Received p m := met
    refine ⟨p, rfl, ?_⟩
    rcases open_ with receiving | ended
    · rw [Received, receiving] at received
      have length := received.1.length_le
      refine ⟨_, received.2, Nat.succ_pos _, ?_⟩
      unfold extent
      omega
    · rw [Received, ended] at received
      obtain ⟨⟨whole, sent⟩, rcv⟩ := received
      refine ⟨_, rcv, Nat.succ_pos _, ?_⟩
      rw [extent, whole, sent]
      exact Nat.le_refl _

theorem SentBy.told (sent : SentBy m s) (sending : Sending m) (met : Met peer m) : Told m peer (position m s) s := by
  refine ⟨fun some_ => ?_, fun fin => ?_, fun syn => (sent.syn syn).2, fun some_ => ?_⟩
  · obtain ⟨⟨off, seq, within, bytes⟩, _⟩ := sent.carries some_
    have length := List.length_pos_iff.mpr some_
    have data : m.tx ≠ [] := List.length_pos_iff.mp (by omega)
    obtain ⟨buffered, una, _⟩ := sending.busy (sent.live (.inl some_)) (.inl data)
    obtain ⟨place, here⟩ := position_eq buffered una (by omega) seq
    refine ⟨here, by omega, ?_⟩
    rw [place, Nat.add_sub_cancel, ← drop_drop, List.suffix_iff_eq_drop.mp buffered.suffix |>.symm, bytes]
    exact take_prefix _ _
  · obtain ⟨none, finishing, seq⟩ := sent.fin fin
    obtain ⟨buffered, una, _⟩ := sending.busy (sent.live (.inr fin)) (.inr finishing)
    obtain ⟨place, here⟩ := position_eq buffered una le_rfl seq
    have longer := buffered.suffix.length_le
    exact ⟨here, none, by omega, finishing.fin⟩
  · obtain ⟨flag, ack⟩ := sent.acks some_
    have busy : m.tx ≠ [] ∨ Finishing m := by
      rcases some_ with data | fin
      · obtain ⟨⟨off, _, within, _⟩, _⟩ := sent.carries data
        have length := List.length_pos_iff.mpr data
        exact .inl (List.length_pos_iff.mp (by omega))
      · exact .inr (sent.fin fin).2.1
    obtain ⟨_, _, open_⟩ := sending.busy (sent.live some_) busy
    rw [ack]
    exact ⟨flag, met.acks open_⟩

end
end SecOS.Tcp
