import SecOS.Proofs.TcpSending

/-! What an incoming segment and the timer do to a connection. An acknowledgement is believed only
within what is in flight. -/

namespace SecOS.Tcp
open List

section
variable {c : Conn} {s : Segment} {now : Nat} {ack : Seq}

theorem applyAck_frame (now : Nat) (c : Conn) (ack : Seq) : ∃ rto retries,
    applyAck now c ack = { c with tx := c.tx.drop (ackedData c ack), sndUna := ack, rtoDeadline := rto, retries := retries } ∧
      (ack ≠ c.sndNxt → rto ≠ 0) := by
  unfold applyAck
  dsimp only
  split
  next all => exact ⟨_, _, rfl, fun other => absurd all other⟩
  · exact ⟨_, _, rfl, fun _ => by unfold rtoTicks; omega⟩

/-- An acknowledgement that the code believes, of `units` units. -/
structure Believed (c : Conn) (ack : Seq) (units : Nat) : Prop where
  some_ : 0 < units
  upto : units ≤ inFlight c
  una : ack = c.sndUna + BitVec.ofNat 32 units
  size : (ack - c.sndUna).toNat = units
  left : (c.sndNxt - ack).toNat = inFlight c - units

theorem believed_of (few : inFlight c < 2 ^ 31) (above : seqGt ack c.sndUna = true) (upto : seqLeq ack c.sndNxt = true) :
    ∃ units, Believed c ack units := by
  obtain ⟨positive, bounded, left⟩ := ack_range few above upto
  exact ⟨(ack - c.sndUna).toNat, positive, bounded, seq_eq_add _ _, rfl, left⟩

variable {units : Nat}

theorem Believed.all_iff (believed : Believed c ack units) : ack = c.sndNxt ↔ units = inFlight c := by
  have left := believed.left
  have upto := believed.upto
  constructor
  · intro same
    rw [same, BitVec.sub_self] at left
    have zero : (0#32).toNat = 0 := rfl
    omega
  · intro all
    rw [nxt_eq c, ← all]
    exact believed.una

theorem Believed.seqLeq_iff (believed : Believed c ack units) (few : inFlight c < 2 ^ 31) :
    seqLeq c.sndNxt ack = true ↔ units = inFlight c := by
  have left := believed.left
  have upto := believed.upto
  unfold seqLeq
  rw [decide_eq_true_eq, BitVec.toInt_eq_toNat_cond, left]
  have high : 2 * (inFlight c - units) < 2 ^ 32 := by omega
  rw [if_pos high]
  omega

theorem Flowing.acked (flowing : Flowing c) (other : c.state ≠ .synRcvd) (believed : Believed c ack units) :
    ackedData c ack = units := by
  have upto := believed.upto
  have sent := flowing.sent
  simp only [ackedData, if_neg other, believed.size, flowing.fin, Bool.false_eq_true, false_and, if_false]
  omega

theorem Finishing.acked (finishing : Finishing c) (other : c.state ≠ .synRcvd) (believed : Believed c ack units) :
    ackedData c ack = if units = inFlight c then c.tx.length else units := by
  have upto := believed.upto
  have sent := finishing.sent
  have room := finishing.room
  unfold txBuf at room
  have last := believed.seqLeq_iff (by omega)
  simp only [ackedData, if_neg other, believed.size, finishing.fin, true_and, last]
  split <;> omega

theorem Buffered.after_ack {rto retries : Nat} (buffered : Buffered c) (believed : Believed c ack units) (data : units ≤ c.tx.length) :
    Buffered { c with tx := c.tx.drop units, sndUna := ack, rtoDeadline := rto, retries := retries } := by
  have longer := buffered.suffix.length_le
  have room := buffered.room
  refine ⟨(drop_suffix units c.tx).trans buffered.suffix, ?_, ?_⟩
  · simp only [length_drop]
    rw [believed.una, buffered.place, seq_add_add]
    congr 2
    omega
  · simp only [length_drop]
    omega

theorem Flowing.after_ack (flowing : Flowing c) (now : Nat) (other : c.state ≠ .synRcvd) (believed : Believed c ack units) :
    Flowing (applyAck now c ack) := by
  obtain ⟨rto, retries, same, timer⟩ := applyAck_frame now c ack
  have sent := flowing.sent
  have upto := believed.upto
  rw [same, flowing.acked other believed]
  refine ⟨flowing.toBuffered.after_ack believed (by omega), flowing.fin, Nat.le_trans (Nat.le_of_eq believed.left) ?_, timer⟩
  simp only [length_drop]
  omega

theorem Finishing.after_ack (finishing : Finishing c) (now : Nat) (other : c.state ≠ .synRcvd) (believed : Believed c ack units) :
    (applyAck now c ack).sndUna ≠ (applyAck now c ack).sndNxt ∧ Finishing (applyAck now c ack) ∨
      (applyAck now c ack).sndUna = (applyAck now c ack).sndNxt ∧ Finished (applyAck now c ack) := by
  obtain ⟨rto, retries, same, timer⟩ := applyAck_frame now c ack
  have sent := finishing.sent
  have upto := believed.upto
  have longer := finishing.suffix.length_le
  rw [same, finishing.acked other believed]
  by_cases all : units = inFlight c
  · -- the FIN is among the units
    have done := believed.all_iff.mpr all
    refine .inr ⟨done, finishing.fin, ?_, done.symm, ?_⟩
    · simp only [if_pos all]
      exact drop_length
    · simp only
      rw [believed.una, finishing.place, seq_add_add]
      congr 2
      omega
  · have more : ack ≠ c.sndNxt := fun done => all (believed.all_iff.mp done)
    simp only [if_neg all]
    refine .inl ⟨more, finishing.toBuffered.after_ack believed (by omega), finishing.fin, believed.left.trans ?_, timer more⟩
    simp only [length_drop]
    omega

theorem Opening.after_ack (opening : Opening c) (now : Nat) (believed : Believed c ack units) :
    Flowing (applyAck now c ack) := by
  obtain ⟨rto, retries, same, timer⟩ := applyAck_frame now c ack
  have one := opening.inFlight
  have positive := believed.some_
  have upto := believed.upto
  have single : units = 1 := by omega
  have none : ackedData c ack = 0 := by
    simp only [ackedData, opening.tx, length_nil, Nat.min_zero]
  rw [same, none]
  refine ⟨⟨?_, ?_, ?_⟩, opening.fin, Nat.le_trans (Nat.le_of_eq believed.left) ?_, timer⟩
  · simp only [opening.tx, opening.written, drop_nil]
    exact suffix_refl _
  · simp only [opening.tx, opening.written, drop_nil]
    rw [believed.una, single, opening.una]
    exact (BitVec.add_zero _).symm
  · simp only [opening.tx, drop_nil]
    exact Nat.zero_le _
  · rw [one, single]
    exact Nat.zero_le _

theorem Finished.no_ack (finished : Finished c) (units : Nat) : ¬Believed c ack units := fun believed => by
  have upto := believed.upto
  rw [inFlight_eq_zero.mpr finished.nxt.symm] at upto
  exact absurd believed.some_ (Nat.not_lt.mpr upto)

theorem connClosed_state (c : Conn) : (connClosed c).state = .closed := by
  unfold connClosed
  split
  · rfl
  · rfl

def Synchronized (c : Conn) : Prop := c.state ≠ .closed ∧ c.state ≠ .listen ∧ c.state ≠ .synSent

theorem Sending.few (sending : Sending c) (live : Synchronized c) : inFlight c < 2 ^ 31 := by
  have most := sending.inFlight_le live.1
  have room := sending.room live.1 live.2.1
  unfold txBuf at room
  omega

inductive AckStep (now : Nat) (c : Conn) (ack : Seq) : Conn × Bool → Prop where
  | opens (state : c.state = .synRcvd) : AckStep now c ack ({ applyAck now c ack with state := .established, opened := true }, false)
  | halfClosed (state : c.state = .finWait1) (all : (applyAck now c ack).sndUna = (applyAck now c ack).sndNxt) :
    AckStep now c ack ({ applyAck now c ack with state := .finWait2 }, false)
  | waits (state : c.state = .closing) (all : (applyAck now c ack).sndUna = (applyAck now c ack).sndNxt) :
    AckStep now c ack ({ applyAck now c ack with state := .timeWait, twDeadline := now + timeWaitTicks }, false)
  | closes (state : c.state = .lastAck) (all : (applyAck now c ack).sndUna = (applyAck now c ack).sndNxt) :
    AckStep now c ack (connClosed (applyAck now c ack), true)
  | stays (other : c.state ≠ .synRcvd)
    (more : c.state = .finWait1 ∨ c.state = .closing ∨ c.state = .lastAck → (applyAck now c ack).sndUna ≠ (applyAck now c ack).sndNxt) :
    AckStep now c ack (applyAck now c ack, false)

theorem applyAck_state (now : Nat) (c : Conn) (ack : Seq) : (applyAck now c ack).state = c.state := by
  obtain ⟨_, _, same, _⟩ := applyAck_frame now c ack
  rw [same]

theorem inputAck_cases (now : Nat) (c : Conn) (s : Segment) :
    inputAck now c s = (c, false) ∨
      s.flags.ack = true ∧ seqGt s.ack c.sndUna = true ∧ seqLeq s.ack c.sndNxt = true ∧ AckStep now c s.ack (inputAck now c s) := by
  unfold inputAck
  split
  next accepted =>
    refine .inr ⟨accepted.1, accepted.2.1, accepted.2.2, ?_⟩
    dsimp only
    split
    next state => exact .opens (applyAck_state now c s.ack ▸ state)
    next state =>
      rw [applyAck_state] at state
      split
      next all => exact .halfClosed state all
      next more => exact .stays (by rw [state]; nofun) fun _ => more
    next state =>
      rw [applyAck_state] at state
      split
      next all => exact .waits state all
      next more => exact .stays (by rw [state]; nofun) fun _ => more
    next state =>
      rw [applyAck_state] at state
      split
      next all => exact .closes state all
      next more => exact .stays (by rw [state]; nofun) fun _ => more
    next other first both last =>
      rw [applyAck_state] at other first both last
      refine .stays other ?_
      rintro (state | state | state)
      · exact absurd state first
      · exact absurd state both
      · exact absurd state last
  · exact .inl rfl

theorem inputAck_receiver (now : Nat) (c : Conn) (s : Segment) :
    (inputAck now c s).1.rx = c.rx ∧ (inputAck now c s).1.rcvNxt = c.rcvNxt ∧ (inputAck now c s).1.delivered = c.delivered ∧
      (inputAck now c s).1.written = c.written ∧ (inputAck now c s).1.iss = c.iss ∧ (inputAck now c s).1.reset = c.reset ∧
      (inputAck now c s).1.finSent = c.finSent := by
  obtain ⟨_, _, same, _⟩ := applyAck_frame now c s.ack
  rcases inputAck_cases now c s with none | ⟨_, _, _, step⟩
  · rw [none]
    exact ⟨rfl, rfl, rfl, rfl, rfl, rfl, rfl⟩
  · generalize inputAck now c s = r at step ⊢
    cases step with
    | closes =>
      rw [same]
      unfold connClosed
      split
      · exact ⟨rfl, rfl, rfl, rfl, rfl, rfl, rfl⟩
      · exact ⟨rfl, rfl, rfl, rfl, rfl, rfl, rfl⟩
    | _ =>
      rw [same]
      exact ⟨rfl, rfl, rfl, rfl, rfl, rfl, rfl⟩

theorem Sending.after_ack (sending : Sending c) (live : Synchronized c) (now : Nat) (believed : Believed c ack units)
    (other : c.state ≠ .synRcvd)
    (more : c.state = .finWait1 ∨ c.state = .closing ∨ c.state = .lastAck → (applyAck now c ack).sndUna ≠ (applyAck now c ack).sndNxt) :
    Sending (applyAck now c ack) := by
  have finishes (finishing : Finishing c) (state : c.state = .finWait1 ∨ c.state = .closing ∨ c.state = .lastAck) :
      Sending (applyAck now c ack) := by
    rcases finishing.after_ack now other believed with ⟨_, kept⟩ | ⟨all, _⟩
    · exact kept.to_sending (by rw [applyAck_state]; exact state)
    · exact absurd all (more state)
  rcases sending.stage live.1 with ⟨state, _⟩ | ⟨state, _⟩ | ⟨state, flowing⟩ | ⟨state, finishing⟩ | finished
  · exact absurd state live.2.1
  · exact absurd state (not_or.mpr ⟨live.2.2, other⟩)
  · exact (flowing.after_ack now other believed).to_sending (by rw [applyAck_state]; exact state)
  · exact finishes finishing state
  · exact absurd believed (finished.no_ack units)

theorem Finishing.all_acked (finishing : Finishing c) (now : Nat) (other : c.state ≠ .synRcvd) (believed : Believed c ack units)
    (all : (applyAck now c ack).sndUna = (applyAck now c ack).sndNxt) : Finished (applyAck now c ack) := by
  rcases finishing.after_ack now other believed with ⟨more, _⟩ | ⟨_, finished⟩
  · exact absurd all more
  · exact finished

theorem inputAck_spec (now : Nat) (s : Segment) (sending : Sending c) (live : Synchronized c) :
    (inputAck now c s).2 = false ∧ Sending (inputAck now c s).1 ∧ Synchronized (inputAck now c s).1 ∨
      (inputAck now c s).2 = true ∧ (inputAck now c s).1.state = .closed := by
  rcases inputAck_cases now c s with none | ⟨_, above, upto, step⟩
  · rw [none]
    exact .inl ⟨rfl, sending, live⟩
  · obtain ⟨units, believed⟩ := believed_of (sending.few live) above upto
    generalize inputAck now c s = r at step ⊢
    cases step with
    | opens state =>
      have same : SameSender (applyAck now c s.ack) { applyAck now c s.ack with state := .established, opened := true } :=
        ⟨rfl, rfl, rfl, rfl, rfl, rfl, id⟩
      simp only [Sending, state] at sending
      exact .inl ⟨rfl, (same.flowing (sending.after_ack now believed)).to_sending (.inl rfl), (by rintro ⟨⟩), (by rintro ⟨⟩), (by rintro ⟨⟩)⟩
    | halfClosed state all =>
      have same : SameSender (applyAck now c s.ack) { applyAck now c s.ack with state := .finWait2 } := ⟨rfl, rfl, rfl, rfl, rfl, rfl, id⟩
      simp only [Sending, state] at sending
      have finished := sending.all_acked now (by rw [state]; rintro ⟨⟩) believed all
      exact .inl ⟨rfl, (same.finished finished).to_sending (.inl rfl), (by rintro ⟨⟩), (by rintro ⟨⟩), (by rintro ⟨⟩)⟩
    | waits state all =>
      have same : SameSender (applyAck now c s.ack) { applyAck now c s.ack with state := .timeWait, twDeadline := now + timeWaitTicks } :=
        ⟨rfl, rfl, rfl, rfl, rfl, rfl, id⟩
      simp only [Sending, state] at sending
      have finished := sending.all_acked now (by rw [state]; rintro ⟨⟩) believed all
      exact .inl ⟨rfl, (same.finished finished).to_sending (.inr rfl), (by rintro ⟨⟩), (by rintro ⟨⟩), (by rintro ⟨⟩)⟩
    | closes => exact .inr ⟨rfl, connClosed_state _⟩
    | stays other more =>
      refine .inl ⟨rfl, sending.after_ack live now believed other more, ?_⟩
      rw [Synchronized, applyAck_state]
      exact live

end

section
variable {c : Conn} {s : Segment} {now : Nat}

theorem rxAccept_length (rx : c.rx.length ≤ rxBuf) (data : List UInt8) : (rxAccept c data).1.rx.length ≤ rxBuf := by
  simp only [rxAccept, length_append, length_take]
  omega

theorem inputData_frame (c : Conn) (s : Segment) :
    (∃ rx rcv, (inputData c s).1 = { c with rx := rx, rcvNxt := rcv } ∧ (c.rx.length ≤ rxBuf → rx.length ≤ rxBuf)) ∧
      ∀ o ∈ (inputData c s).2, From c o ∧ o.data = [] ∧ o.flags = { ack := true } := by
  unfold inputData
  split
  · dsimp only
    constructor
    · split
      · exact ⟨_, _, rfl, fun rx => rxAccept_length rx s.data⟩
      · exact ⟨_, _, rfl, id⟩
    · intro o held
      cases mem_singleton.mp held
      refine ⟨?_, rfl, rfl⟩
      split
      · exact ⟨rfl, rfl, rfl⟩
      · exact ⟨rfl, rfl, rfl⟩
  · exact ⟨⟨_, _, rfl, id⟩, nofun⟩

/-- Where the FIN of the other side can take a connection. -/
inductive FinMove : TcpState → TcpState → Prop where
  | passive : FinMove .established .closeWait
  | both : FinMove .finWait1 .closing
  | active : FinMove .finWait2 .timeWait
  | stays {state : TcpState} (other : state ≠ .established ∧ state ≠ .finWait1 ∧ state ≠ .finWait2) : FinMove state state

theorem inputFin_cases (now : Nat) (c : Conn) (s : Segment) :
    inputFin now c s = (c, []) ∨
      s.flags.fin = true ∧ s.seq + BitVec.ofNat 32 s.data.length = c.rcvNxt ∧
        ∃ state tw o, inputFin now c s = ({ c with rcvNxt := c.rcvNxt + 1, state := state, twDeadline := tw }, [o]) ∧
          FinMove c.state state ∧ From c o ∧ o.data = [] ∧ o.flags = { ack := true } := by
  unfold inputFin
  split
  next here =>
    refine .inr ⟨here.1, here.2, ?_⟩
    dsimp only
    split
    next state => exact ⟨_, _, _, rfl, by rw [state]; exact .passive, ⟨rfl, rfl, rfl⟩, rfl, rfl⟩
    next state => exact ⟨_, _, _, rfl, by rw [state]; exact .both, ⟨rfl, rfl, rfl⟩, rfl, rfl⟩
    next state => exact ⟨_, _, _, rfl, by rw [state]; exact .active, ⟨rfl, rfl, rfl⟩, rfl, rfl⟩
    next open_ first second => exact ⟨_, _, _, rfl, .stays ⟨open_, first, second⟩, ⟨rfl, rfl, rfl⟩, rfl, rfl⟩
  · exact .inl rfl

theorem sentBy_of_ack {o : Segment} (bare : From c o ∧ o.data = [] ∧ o.flags = { ack := true }) : SentBy c o :=
  sentBy_bare bare.1 bare.2.1 (by rw [bare.2.2]) (by rw [bare.2.2])

theorem FinMove.sending {state : TcpState} {tw : Nat} {rcv : Seq} (move : FinMove c.state state) (sending : Sending c) :
    Sending { c with rcvNxt := rcv, state := state, twDeadline := tw } := by
  have same : SameSender c { c with rcvNxt := rcv, state := state, twDeadline := tw } := ⟨rfl, rfl, rfl, rfl, rfl, rfl, id⟩
  generalize old : c.state = before at move
  cases move with
  | passive => exact (same.flowing (sending.flowing (.inl old))).to_sending (.inr rfl)
  | both =>
    simp only [Sending, old] at sending
    exact (same.finishing sending).to_sending (.inr (.inl rfl))
  | active =>
    simp only [Sending, old] at sending
    exact (same.finished sending).to_sending (.inr rfl)
  | stays => exact same.sending old.symm rfl sending

theorem FinMove.live {before after : TcpState} (move : FinMove before after) (live : before ≠ .closed ∧ before ≠ .listen) :
    after ≠ .closed ∧ after ≠ .listen := by
  cases move with
  | passive => exact ⟨nofun, nofun⟩
  | both => exact ⟨nofun, nofun⟩
  | active => exact ⟨nofun, nofun⟩
  | stays => exact live

theorem receive_good (now : Nat) (s : Segment) (sending : Sending c) (live : c.state ≠ .closed ∧ c.state ≠ .listen) (rx : c.rx.length ≤ rxBuf) :
    let d := inputData c s
    let f := inputFin now d.1 s
    let o := tcpOutput now f.1
    Good (o.1, d.2 ++ f.2 ++ o.2) := by
  obtain ⟨⟨rx', rcv, same, bounded⟩, acks⟩ := inputData_frame c s
  have sender : SameSender c (inputData c s).1 := by
    rw [same]
    exact ⟨rfl, rfl, rfl, rfl, rfl, rfl, id⟩
  have sending' : Sending (inputData c s).1 := sender.sending (by rw [same]) (by rw [same]) sending
  have live' : (inputData c s).1.state ≠ .closed ∧ (inputData c s).1.state ≠ .listen := by
    rw [same]
    exact live
  have room : (inputData c s).1.rx.length ≤ rxBuf := by
    rw [same]
    exact bounded rx
  have source : ∀ s', From c s' → From (inputData c s).1 s' := by
    rw [same]
    exact fun _ => id
  generalize inputData c s = d at acks sending' live' room source
  -- output keeps the addresses
  have kept : ∀ (c' : Conn) s', From c' s' → From (tcpOutput now c').1 s' := by
    intro c' s' held
    obtain ⟨_, _, _, _, _, whole, _⟩ := output_frame now c'
    rw [whole]
    exact held
  dsimp only
  rcases inputFin_cases now d.1 s with none | ⟨_, _, state, tw, o, fin, move, ack⟩
  · obtain ⟨ok, segments⟩ : Good (tcpOutput now d.1) := output_good sending' live' room
    rw [none]
    refine ⟨ok, fun o held => ?_⟩
    rcases mem_append.mp held with first | last
    · rw [append_nil] at first
      exact sentBy_of_ack ⟨kept _ o (source o (acks o first).1), (acks o first).2⟩
    · exact segments o last
  · rw [fin]
    obtain ⟨ok, segments⟩ : Good (tcpOutput now { d.1 with rcvNxt := d.1.rcvNxt + 1, state := state, twDeadline := tw }) :=
      output_good (move.sending sending') (move.live live') room
    refine ⟨ok, fun o' held => ?_⟩
    rcases mem_append.mp held with first | last
    · rcases mem_append.mp first with data | end_
      · exact sentBy_of_ack ⟨kept _ o' (source o' (acks o' data).1), (acks o' data).2⟩
      · cases mem_singleton.mp end_
        exact sentBy_of_ack ⟨kept _ _ ack.1, ack.2⟩
    · exact segments o' last

theorem inputRst_cases (c : Conn) (s : Segment) :
    inputRst c s = (connClosed { c with reset := true }, []) ∨ inputRst c s = (c, [pureAck c]) ∨ inputRst c s = (c, []) := by
  unfold inputRst
  dsimp only
  generalize (if c.state = .synSent then s.flags.ack && s.ack == c.sndNxt else s.seq == c.rcvNxt) = hits
  cases hits with
  | true => exact .inl rfl
  | false =>
    right
    rw [if_neg Bool.false_ne_true]
    split
    · exact .inl rfl
    · exact .inr rfl

theorem inputRst_good (ok : c.Ok) (s : Segment) : Good (inputRst c s) := by
  rcases inputRst_cases c s with gone | answer | none
  · have closed : Conn.Ok (connClosed { c with reset := true }) := connClosed_ok ok.rx
    rw [gone]
    exact closed.good
  · rw [answer]
    refine ⟨ok, fun o held => ?_⟩
    cases mem_singleton.mp held
    exact sentBy_bare ⟨rfl, rfl, rfl⟩ rfl rfl rfl
  · rw [none]
    exact ok.good

theorem inputSynSent_cases (now : Nat) (c : Conn) (s : Segment) :
    inputSynSent now c s = (c, []) ∨
    (s.flags.syn = true ∧ s.flags.ack = true ∧ s.ack = c.sndNxt ∧ ∃ o, (From c o ∧ o.data = [] ∧ o.flags = { ack := true }) ∧
      inputSynSent now c s =
        ({ c with rcvNxt := s.seq + 1, sndUna := s.ack, state := .established, opened := true, rtoDeadline := 0 }, [o])) ∨
    (s.flags.syn = true ∧ inputSynSent now c s =
      (armRto now { c with rcvNxt := s.seq + 1, state := .synRcvd },
        [tcpXmit { c with rcvNxt := s.seq + 1, state := .synRcvd } { syn := true, ack := true } [] c.iss])) := by
  unfold inputSynSent
  split
  next both =>
    split
    · exact .inl rfl
    next here => exact .inr (.inl ⟨both.1, both.2, Decidable.not_not.mp here, _, ⟨⟨rfl, rfl, rfl⟩, rfl, rfl⟩, rfl⟩)
  · split
    next syn => exact .inr (.inr ⟨syn, rfl⟩)
    · exact .inl rfl

theorem inputSynSent_good (now : Nat) (ok : c.Ok) (state : c.state = .synSent) (s : Segment) : Good (inputSynSent now c s) := by
  have opening : Opening c := by
    have sending := ok.sending
    simp only [Sending, state] at sending
    exact sending
  rcases inputSynSent_cases now c s with none | ⟨_, _, here, o, bare, answered⟩ | ⟨_, crossed⟩
  · rw [none]
    exact ok.good
  · rw [answered]
    have flowing : Flowing { c with rcvNxt := s.seq + 1, sndUna := s.ack, state := .established, opened := true, rtoDeadline := 0 } := by
      refine ⟨⟨?_, ?_, ?_⟩, opening.fin, ?_, ?_⟩
      · simp only [opening.tx, opening.written]
        exact suffix_refl _
      · simp only [here, opening.nxt, opening.tx, opening.written]
        exact (BitVec.add_zero _).symm
      · simp only [opening.tx]
        exact Nat.zero_le _
      · rw [inFlight_eq_zero.mpr here]
        exact Nat.zero_le _
      · exact fun other => absurd here other
    refine ⟨⟨flowing.to_sending (.inl rfl), .of_empty opening.tx, ok.rx⟩, fun o' held => ?_⟩
    cases mem_singleton.mp held
    exact sentBy_of_ack bare
  · rw [crossed]
    apply opening_good
    · exact .inr rfl
    · refine ⟨opening.una, opening.nxt, opening.tx, opening.written, opening.pending, opening.fin, ?_⟩
      simp only [armRto, rtoTicks]
      omega
    · exact ok.rx
    · intro o held
      cases mem_singleton.mp held
      exact sentBy_syn rfl (.inr rfl)

end

section
variable {c : Conn} {s : Segment} {now : Nat}

theorem input_good (now : Nat) (ok : c.Ok) (live : c.state ≠ .closed ∧ c.state ≠ .listen) (s : Segment) : Good (connInput now c s) := by
  unfold connInput
  split
  · exact inputRst_good ok s
  have same : SameSender c { c with sndWnd := s.wnd } := ⟨rfl, rfl, rfl, rfl, rfl, rfl, id⟩
  have sending := same.sending rfl rfl ok.sending
  dsimp only
  split
  next state =>
    have opening : Opening c := by
      have sending := ok.sending
      simp only [Sending, state] at sending
      exact sending
    exact inputSynSent_good now ⟨sending, .of_empty opening.tx, ok.rx⟩ state s
  next other =>
    have room : (inputAck now { c with sndWnd := s.wnd } s).1.rx.length ≤ rxBuf := by
      rw [(inputAck_receiver now { c with sndWnd := s.wnd } s).1]
      exact ok.rx
    have spec := inputAck_spec now s sending ⟨live.1, live.2, other⟩
    generalize inputAck now { c with sndWnd := s.wnd } s = r at spec room ⊢
    obtain ⟨c', closed⟩ := r
    rcases spec with ⟨rfl, kept, alive⟩ | ⟨rfl, state⟩
    · dsimp only
      rw [if_neg Bool.false_ne_true]
      split
      · exact connAbort_good room
      · exact receive_good now s kept ⟨alive.1, alive.2.1⟩ room
    · exact (ok_closed state room).good

theorem sentBy_oldest {n : Nat} (live : c.state ≠ .closed ∧ c.state ≠ .listen) : SentBy c (tcpXmit c { ack := true, psh := true } (c.tx.take n) c.sndUna) := by
  refine sentBy_data ⟨rfl, rfl, rfl⟩ live ⟨0, (BitVec.add_zero _).symm, ?_, ?_⟩ rfl rfl
  · simp only [tcpXmit, length_take]
    omega
  · simp only [tcpXmit, drop_zero, length_take]
    rw [← take_take, take_length]

theorem retransmit_sentBy (sending : Sending c) (some_ : c.sndUna ≠ c.sndNxt) (open_ : c.state ≠ .closed) : ∀ s ∈ retransmit c, SentBy c s := by
  intro s held
  have live : c.state ≠ .closed ∧ c.state ≠ .listen := by
    refine ⟨open_, fun state => some_ ?_⟩
    simp only [Sending, state] at sending
    exact sending
  have finishes (finishing : Finishing c) (empty : min (if c.finSent then (c.sndNxt - c.sndUna).toNat - 1 else (c.sndNxt - c.sndUna).toNat) c.tx.length = 0) :
      SentBy c (tcpXmit c { ack := true, fin := true } [] (c.sndNxt - 1)) := by
    have sent : (c.sndNxt - c.sndUna).toNat = c.tx.length + 1 := finishing.sent
    rw [if_pos finishing.fin] at empty
    have none : c.tx.length = 0 := by omega
    refine ⟨⟨rfl, rfl, rfl⟩, fun _ => live, fun some_ => absurd rfl some_, fun _ => ⟨rfl, finishing, ?_⟩, (by rintro ⟨⟩), fun _ => ⟨rfl, rfl⟩⟩
    simp only [tcpXmit]
    rw [nxt_eq c, finishing.sent, none]
    exact (BitVec.add_sub_cancel _ _).trans (BitVec.add_zero _).symm
  unfold retransmit at held
  split at held
  next state =>
    cases mem_singleton.mp held
    exact sentBy_syn rfl (.inl state)
  next state =>
    cases mem_singleton.mp held
    exact sentBy_syn rfl (.inr state)
  next noSyn noSynRcvd =>
    dsimp only at held
    generalize min (if c.finSent then (c.sndNxt - c.sndUna).toNat - 1 else (c.sndNxt - c.sndUna).toNat) c.tx.length = databytes at held finishes
    split at held
    · cases mem_singleton.mp held
      exact sentBy_oldest live
    next empty =>
      split at held
      next fin =>
        cases mem_singleton.mp held
        refine finishes ?_ (Decidable.not_not.mp empty)
        rcases sending.stage open_ with ⟨_, idle⟩ | ⟨state, _⟩ | ⟨_, flowing⟩ | ⟨_, finishing⟩ | finished
        · exact absurd idle some_
        · exact absurd state (not_or.mpr ⟨noSyn, noSynRcvd⟩)
        · exact absurd fin (by rw [flowing.fin]; rintro ⟨⟩)
        · exact finishing
        · exact absurd finished.nxt.symm some_
      · cases held

theorem tick_good (now : Nat) (leaves : Bool) (ok : c.Ok) : Good (connTick now leaves c) := by
  unfold connTick
  split
  · exact ok.good
  split
  · split
    · exact (connClosed_ok ok.rx).good
    · exact ok.good
  split
  · exact (connFree_ok ok.rx).good
  split
  · exact ok.good
  next live =>
    split
    next unsent =>
      have rearmed : SameSender c (armRto now { c with synUnsent := false }) :=
        ⟨rfl, rfl, rfl, rfl, rfl, rfl, fun _ => by simp only [armRto, rtoTicks]; omega⟩
      have later : SameSender c { c with synRetryAt := now + arpRetry } := ⟨rfl, rfl, rfl, rfl, rfl, rfl, id⟩
      split
      · refine ⟨?_, fun o held => ?_⟩
        · dsimp only
          split
          · exact ⟨rearmed.sending rfl rfl ok.sending, rearmed.pushed rfl rfl ok.pushed, ok.rx⟩
          · exact ⟨later.sending rfl rfl ok.sending, later.pushed rfl rfl ok.pushed, ok.rx⟩
        · cases mem_singleton.mp held
          dsimp only
          split
          · exact sentBy_syn rfl (.inl unsent.1)
          · exact sentBy_syn rfl (.inl unsent.1)
      · exact ok.good
    · split
      next due =>
        dsimp only
        split
        · have closed : Conn.Ok (connClosed { c with retries := c.retries + 1, reset := true }) := connClosed_ok ok.rx
          exact closed.good
        generalize rtoTicks * 2 ^ (if c.retries + 1 < 4 then c.retries + 1 else 4) = wait
        have same : SameSender c { c with retries := c.retries + 1, rtoDeadline := now + wait } :=
          ⟨rfl, rfl, rfl, rfl, rfl, rfl, fun _ => by simp only; omega⟩
        have sending := same.sending rfl rfl ok.sending
        exact ⟨⟨sending, same.pushed rfl rfl ok.pushed, ok.rx⟩, retransmit_sentBy sending due.2.2 live⟩
      · exact ok.good

end
end SecOS.Tcp
