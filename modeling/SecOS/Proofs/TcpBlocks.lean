import SecOS.Proofs.TcpReceiving

/-! The control blocks under every sequence of calls, packets and ticks. An operation of the
table is a change of single blocks, and each of them leaves a block that is in order. -/

namespace SecOS.Tcp
open List

structure Sound (r : Table × List Segment) : Prop where
  blocks : ∀ i, (r.1.conns i).Ok
  segments : ∀ s ∈ r.2, ∃ i, SentBy (r.1.conns i) s

section
variable {t : Table} {i : Fin maxConn} {c : Conn}

@[simp] theorem Table.set_same (t : Table) (i : Fin maxConn) (c : Conn) : (t.set i c).conns i = c := Function.update_self ..

theorem Table.set_other {j : Fin maxConn} (t : Table) (c : Conn) (other : j ≠ i) : (t.set i c).conns j = t.conns j :=
  Function.update_of_ne other ..

theorem set_ok (ok : ∀ i, (t.conns i).Ok) (here : c.Ok) (j : Fin maxConn) : ((t.set i c).conns j).Ok := by
  by_cases same : j = i
  · rw [same, Table.set_same]
    exact here
  · rw [Table.set_other t c same]
    exact ok j

theorem Good.sound {r : Conn × List Segment} (good : Good r) (ok : ∀ i, (t.conns i).Ok) (i : Fin maxConn) : Sound (t.set i r.1, r.2) := by
  refine ⟨set_ok ok good.1, fun s held => ⟨i, ?_⟩⟩
  rw [Table.set_same]
  exact good.2 s held

theorem sound_quiet (ok : ∀ i, (t.conns i).Ok) : Sound (t, []) := ⟨ok, nofun⟩

theorem Fresh.ok (fresh : Fresh c) : c.Ok := ok_closed fresh.state (by rw [fresh.rx]; exact Nat.zero_le _)

theorem takeSlot_spec (memory : Bool) (ok : ∀ i, (t.conns i).Ok) (i : Fin maxConn) :
    (∀ j, ((takeSlot memory t i).1.conns j).Ok) ∧ ∀ j, (takeSlot memory t i).2 = some j → Fresh ((takeSlot memory t i).1.conns j) := by
  have fresh (used : Bool) : Fresh { Conn.blank with generation := (t.conns i).generation + 1, used := used } :=
    ⟨rfl, rfl, rfl, rfl, rfl, rfl, rfl⟩
  unfold takeSlot
  dsimp only
  split
  · refine ⟨set_ok ok (fresh true).ok, fun j taken => ?_⟩
    cases taken
    rw [Table.set_same]
    exact fresh true
  · exact ⟨set_ok ok (fresh false).ok, nofun⟩

theorem reclaim_ok (ok : ∀ i, (t.conns i).Ok) (j : Fin maxConn) : ((reclaimTimeWait t).1.conns j).Ok := by
  unfold reclaimTimeWait
  split
  · exact ok j
  next i _ => exact set_ok ok (connFree_ok (ok i).rx) j

theorem alloc_spec (memory : Bool) (ok : ∀ i, (t.conns i).Ok) :
    (∀ j, ((tcpAlloc memory t).1.conns j).Ok) ∧ ∀ j, (tcpAlloc memory t).2 = some j → Fresh ((tcpAlloc memory t).1.conns j) := by
  have ok' := reclaim_ok ok
  unfold tcpAlloc
  split
  next i _ => exact takeSlot_spec memory ok i
  split
  next t' i same =>
    rw [same] at ok'
    exact takeSlot_spec memory ok' i
  next t' same =>
    rw [same] at ok'
    exact ⟨ok', nofun⟩

theorem startConnect_sound (now : Nat) (leaves : Bool) (iss : Seq) (ip : BitVec 32) (port : Nat) (ok : ∀ i, (t.conns i).Ok)
    (fresh : Fresh (t.conns i)) : Sound (tcpStartConnect now leaves iss ip port t i) := by
  unfold tcpStartConnect
  generalize ephPort t ephRounds t.eph = picked
  obtain ⟨source, eph⟩ := picked
  have good := connect_good fresh now leaves iss source ip port
  exact good.sound (t := { t with eph := eph }) ok i

theorem startListen_ok (port backlog : Nat) (ok : ∀ i, (t.conns i).Ok) (fresh : Fresh (t.conns i)) {t' : Table}
    (started : tcpStartListen port backlog t i = some t') (j : Fin maxConn) : (t'.conns j).Ok := by
  unfold tcpStartListen at started
  split at started
  · cases started
  cases started
  apply set_ok ok
  refine ⟨fresh.una, .of_empty fresh.tx, ?_⟩
  simp only [fresh.rx]
  exact Nat.zero_le _

theorem accept_ok (ok : ∀ i, (t.conns i).Ok) (l j : Fin maxConn) : ((tcpAcceptReady t l).1.conns j).Ok := by
  unfold tcpAcceptReady
  split
  · exact ok j
  next i _ =>
    have same : SameSender (t.conns i) { t.conns i with accepted := true } := ⟨rfl, rfl, rfl, rfl, rfl, rfl, id⟩
    exact set_ok ok ⟨same.sending rfl rfl (ok i).sending, same.pushed rfl rfl (ok i).pushed, (ok i).rx⟩ j

theorem findConn_spec {ip : BitVec 32} {sport dport : Nat} (found : findConn t ip sport dport = some i) :
    matchesConn ip sport dport (t.conns i) = true :=
  find?_some (p := fun i => matchesConn ip sport dport (t.conns i)) found

theorem matchesConn_live {ip : BitVec 32} {sport dport : Nat} (same : matchesConn ip sport dport c = true) :
    c.used = true ∧ c.state ≠ .closed ∧ c.state ≠ .listen := by
  simp only [matchesConn, Bool.and_eq_true, decide_eq_true_eq] at same
  exact ⟨same.1.1.1.1.1, same.1.1.1.2, same.1.1.1.1.2⟩

theorem input_sound (now : Nat) (iss : Seq) (memory : Bool) (ok : ∀ i, (t.conns i).Ok) (s : Segment) : Sound (tcpInput now iss memory t s) := by
  unfold tcpInput
  split
  next i found =>
    have live := (matchesConn_live (findConn_spec found)).2
    exact (input_good now (ok i) live s).sound ok i
  · split
    · exact sound_quiet ok
    next l _ =>
      split
      · have spec := alloc_spec memory ok
        split
        next t' full =>
          rw [full] at spec
          exact sound_quiet spec.1
        next t' i taken =>
          rw [taken] at spec
          exact (child_good (spec.2 i rfl) now iss l s).sound spec.1 i
      · exact sound_quiet ok

theorem tick_sound (now : Nat) (leaves : Fin maxConn → Bool) (ok : ∀ i, (t.conns i).Ok) : Sound (tcpTick now leaves t) := by
  refine ⟨fun i => (tick_good now (leaves i) (ok i)).1, fun s held => ?_⟩
  obtain ⟨i, _, sent⟩ := List.mem_flatMap.mp held
  exact ⟨i, (tick_good now (leaves i) (ok i)).2 s sent⟩

theorem dropChild_good (l : Fin maxConn) (ok : c.Ok) : Good (dropChild l c) := by
  unfold dropChild
  split
  · split
    · have same : SameSender c { c with listener := none } := ⟨rfl, rfl, rfl, rfl, rfl, rfl, id⟩
      exact Conn.Ok.good ⟨same.sending rfl rfl ok.sending, same.pushed rfl rfl ok.pushed, ok.rx⟩
    refine ⟨connFree_ok ok.rx, fun s held => ?_⟩
    dsimp only at held
    split at held
    · cases mem_singleton.mp held
      exact sentBy_bare ⟨rfl, rfl, rfl⟩ rfl rfl rfl
    · cases held
  · exact ok.good

theorem dropChild_sentBy (l : Fin maxConn) (c : Conn) : ∀ s ∈ (dropChild l c).2, SentBy (connFree c) s := by
  intro s held
  unfold dropChild at held
  split at held
  · split at held
    · cases held
    dsimp only at held
    split at held
    · cases mem_singleton.mp held
      exact sentBy_bare ⟨rfl, rfl, rfl⟩ rfl rfl rfl
    · cases held
  · cases held

theorem release_sound (now : Nat) (ok : ∀ i, (t.conns i).Ok) (i : Fin maxConn) : Sound (tcpRelease now t i) := by
  unfold tcpRelease
  dsimp only
  split
  · exact sound_quiet ok
  split
  · refine ⟨set_ok (fun j => (dropChild_good i (ok j)).1) (connFree_ok (ok i).rx), fun s held => ?_⟩
    obtain ⟨j, _, sent⟩ := List.mem_flatMap.mp held
    refine ⟨j, ?_⟩
    by_cases same : j = i
    · subst same
      rw [Table.set_same]
      exact dropChild_sentBy j _ s sent
    · rw [Table.set_other _ _ same]
      exact (dropChild_good i (ok j)).2 s sent
  split
  · exact (connFree_ok (ok i).rx).good.sound ok i
  split
  · exact (connAbort_good (ok i).rx).sound ok i
  have same : SameSender (t.conns i) { t.conns i with orphan := true, orphanDeadline := now + orphanTicks } :=
    ⟨rfl, rfl, rfl, rfl, rfl, rfl, id⟩
  have orphan : Conn.Ok { t.conns i with orphan := true, orphanDeadline := now + orphanTicks } :=
    ⟨same.sending rfl rfl (ok i).sending, same.pushed rfl rfl (ok i).pushed, (ok i).rx⟩
  exact (close_good now orphan).sound ok i

theorem perform_sound (ok : ∀ i, (t.conns i).Ok) (call : Call) : Sound (perform t call) := by
  cases call with
  | connect now leaves memory iss ip port =>
    have spec := alloc_spec memory ok
    simp only [perform]
    split
    next t' full =>
      rw [full] at spec
      exact sound_quiet spec.1
    next t' i taken =>
      rw [taken] at spec
      exact startConnect_sound now leaves iss ip port spec.1 (spec.2 i rfl)
  | listen memory port backlog =>
    have spec := alloc_spec memory ok
    simp only [perform]
    split
    next t' full =>
      rw [full] at spec
      exact sound_quiet spec.1
    next t' i taken =>
      rw [taken] at spec
      cases started : tcpStartListen port backlog t' i with
      | none => exact (connFree_ok (spec.1 i).rx).good.sound spec.1 i
      | some later => exact sound_quiet (startListen_ok port backlog spec.1 (spec.2 i rfl) started)
  | accept l => exact sound_quiet (accept_ok ok l)
  | write now i data => exact (write_good now (ok i) data).sound ok i
  | read i len => exact (read_good (ok i) len).sound ok i
  | close now i => exact (close_good now (ok i)).sound ok i
  | release now i => exact release_sound now ok i
  | free i => exact (connFree_ok (ok i).rx).good.sound ok i
  | input now iss memory ip bytes =>
    simp only [perform]
    split
    · exact sound_quiet ok
    · exact input_sound now iss memory ok _
  | tick now leaves => exact tick_sound now leaves ok

theorem afterCalls_sound (calls : List Call) : Sound (afterCalls calls) := by
  have blank : Conn.blank.Ok := ok_closed rfl (Nat.zero_le _)
  unfold afterCalls
  induction calls using List.reverseRecOn with
  | nil => exact sound_quiet fun _ => blank
  | append_singleton calls call ih =>
    rw [foldl_concat]
    exact perform_sound ih.blocks call

end

def unackedFlag (c : Conn) : Nat :=
  if c.state = .synSent ∨ c.state = .synRcvd ∨ c.finSent ∧ c.sndUna ≠ c.sndNxt then 1 else 0

section
variable {c : Conn} {s : Segment}

section
variable (sending : Sending c) (live : c.state ≠ .closed ∧ c.state ≠ .listen)
include sending live

theorem Sending.inFlight_le_flag :
    inFlight c ≤ c.tx.length + unackedFlag c := by
  have most := sending.inFlight_le live.1
  unfold unackedFlag
  split
  · exact most
  next other =>
    obtain ⟨active, passive, fin⟩ : c.state ≠ .synSent ∧ c.state ≠ .synRcvd ∧ ¬(c.finSent = true ∧ c.sndUna ≠ c.sndNxt) :=
      ⟨fun state => other (.inl state), fun state => other (.inr (.inl state)), fun both => other (.inr (.inr both))⟩
    have finishing (finishing : Finishing c) : inFlight c ≤ c.tx.length + 0 := by
      have all : c.sndUna = c.sndNxt := Decidable.not_not.mp fun more => fin ⟨finishing.fin, more⟩
      rw [inFlight_eq_zero.mpr all]
      exact Nat.zero_le _
    rcases sending.stage live.1 with ⟨state, _⟩ | ⟨state, _⟩ | ⟨_, flowing⟩ | ⟨_, ending⟩ | finished
    · exact absurd state live.2
    · exact absurd state (not_or.mpr ⟨active, passive⟩)
    · exact flowing.sent
    · exact finishing ending
    · rw [inFlight_eq_zero.mpr finished.nxt.symm]; exact Nat.zero_le _

theorem Sending.timer (some_ : c.sndUna ≠ c.sndNxt) : c.rtoDeadline ≠ 0 := by
  rcases sending.stage live.1 with ⟨state, _⟩ | ⟨_, opening⟩ | ⟨_, flowing⟩ | ⟨_, finishing⟩ | finished
  · exact absurd state live.2
  · exact opening.timer
  · exact flowing.timer some_
  · exact finishing.timer
  · exact absurd finished.nxt.symm some_

end

/-- The place in the written stream of the byte `j` of the buffer. -/
def placeOf (c : Conn) (j : Nat) : Nat := c.written.length - c.tx.length + j

theorem Buffered.byte (buffered : Buffered c) (j : Nat) :
    c.sndUna + BitVec.ofNat 32 j = c.iss + 1 + BitVec.ofNat 32 (placeOf c j) ∧ c.tx[j]? = c.written[placeOf c j]? := by
  obtain ⟨before, whole⟩ := buffered.suffix
  unfold placeOf
  constructor
  · rw [buffered.place, seq_add_add]
  · rw [← whole, length_append, Nat.add_sub_cancel, getElem?_append_right (Nat.le_add_right _ _), Nat.add_sub_cancel_left]

theorem Sending.byte (sending : Sending c) (live : c.state ≠ .closed ∧ c.state ≠ .listen) {j : Nat} (inside : j < c.tx.length) :
    c.sndUna + BitVec.ofNat 32 j = c.iss + 1 + BitVec.ofNat 32 (placeOf c j) ∧ c.tx[j]? = c.written[placeOf c j]? := by
  have empty (none : c.tx = []) : ¬j < c.tx.length := by
    rw [none]
    exact Nat.not_lt_zero j
  rcases sending.stage live.1 with ⟨state, _⟩ | ⟨_, opening⟩ | ⟨_, flowing⟩ | ⟨_, finishing⟩ | finished
  · exact absurd state live.2
  · exact absurd inside (empty opening.tx)
  · exact flowing.byte j
  · exact finishing.byte j
  · exact absurd inside (empty finished.tx)

end

/-- Whatever comes in and whatever is called: no more is in flight than the buffer and one
flag; the buffer holds the written bytes from `sndUna` on; the receive buffer does not
overflow; the timer runs while something is in flight; what the window admits is in flight;
and no segment carries a byte from outside the buffer. -/
theorem control_blocks_sound (calls : List Call) :
    let r := afterCalls calls
    (∀ i, let c := r.1.conns i
      c.state ≠ .closed ∧ c.state ≠ .listen →
        inFlight c ≤ c.tx.length + unackedFlag c ∧
        (∀ j < c.tx.length,
          c.sndUna + BitVec.ofNat 32 j = c.iss + 1 + BitVec.ofNat 32 (placeOf c j) ∧ c.tx[j]? = c.written[placeOf c j]?) ∧
        c.rx.length ≤ rxBuf ∧
        (c.sndUna ≠ c.sndNxt → c.rtoDeadline ≠ 0) ∧
        (inFlight c < c.tx.length → max 1 c.sndWnd ≤ inFlight c)) ∧
      ∀ s ∈ r.2, ∃ i, let c := r.1.conns i
        From c s ∧ (s.data ≠ [] →
          ∃ off, s.seq = c.sndUna + BitVec.ofNat 32 off ∧ off + s.data.length ≤ c.tx.length ∧
            s.data = (c.tx.drop off).take s.data.length) := by
  have sound := afterCalls_sound calls
  refine ⟨fun i live => ?_, fun s held => ?_⟩
  · have ok := sound.blocks i
    exact ⟨ok.sending.inFlight_le_flag live, fun j inside => ok.sending.byte live inside, ok.rx, ok.sending.timer live, ok.pushed live.1⟩
  · obtain ⟨i, sent⟩ := sound.segments s held
    exact ⟨i, sent.source, fun some_ => (sent.carries some_).1⟩

end SecOS.Tcp
