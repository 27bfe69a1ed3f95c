import SecOS.Library.Schedule
import SecOS.Proofs.TcpReceiving

/-! What becomes of a retransmission. Data is answered in the three states in which data can
come; a SYN or a FIN that repeats is answered only if there is something to send anyway. -/

namespace SecOS.Tcp
open Library List

/-- The sequence numbers of a segment. -/
def Segment.span (s : Segment) : Nat := s.data.length + (if s.flags.syn then 1 else 0) + if s.flags.fin then 1 else 0

/-- The segment has a last number, and it is below what is waited for. -/
def Segment.Old (s : Segment) (rcvNxt : Seq) : Prop := 0 < s.span ∧ seqLt (s.seq + BitVec.ofNat 32 (s.span - 1)) rcvNxt = true

abbrev Receiving (c : Conn) : Prop := c.state = .established ∨ c.state = .finWait1 ∨ c.state = .finWait2

/-- The segment acknowledges something that has not been acknowledged yet. -/
def Advances (c : Conn) (s : Segment) : Prop := s.flags.ack = true ∧ seqGt s.ack c.sndUna = true ∧ seqLeq s.ack c.sndNxt = true

instance (c : Conn) (s : Segment) : Decidable (Advances c s) := inferInstanceAs (Decidable (_ ∧ _))

/-- Data or a FIN may come: a state for it, or the one that the acknowledgement of the segment opens. -/
def Expecting (c : Conn) (s : Segment) : Prop := Receiving c ∨ c.state = .synRcvd ∧ Advances c s

/-- The numbers in flight when the segment has been seen. -/
def flightAfter (c : Conn) (s : Segment) : Nat := (c.sndNxt - if Advances c s then s.ack else c.sndUna).toNat

/-- The bytes that wait in the send buffer when the segment has been seen; the SYN and the FIN
are not among them. -/
def queueAfter (c : Conn) (s : Segment) : Nat :=
  if Advances c s then
    c.tx.length - ((s.ack - c.sndUna).toNat - (if c.state = .synRcvd then 1 else 0) -
      if c.finSent ∧ seqLeq c.sndNxt s.ack then 1 else 0)
  else c.tx.length

/-- There are bytes to send within the window of the segment, which is one byte at least, or a
FIN is due after the last byte. -/
def Sends (c : Conn) (s : Segment) : Prop :=
  flightAfter c s < queueAfter c s ∧ flightAfter c s < max s.wnd 1 ∨
    c.finPending = true ∧ c.finSent = false ∧ flightAfter c s = queueAfter c s

def Acknowledges (rcvNxt : Seq) (o : Segment) : Prop := o.flags.ack = true ∧ o.ack = rcvNxt

section
variable {c : Conn} {s o : Segment} {now : Nat}

theorem outputData_acknowledges {wnd rounds off : Nat} (held : o ∈ (outputData now wnd rounds off c).2) : Acknowledges c.rcvNxt o := by
  induction rounds generalizing off c with
  | zero => cases held
  | succ rounds ih =>
    rw [outputData] at held
    split at held
    · rcases mem_cons.mp held with rfl | later
      · exact ⟨rfl, rfl⟩
      · exact (ih later :)
    · cases held

theorem output_acknowledges (held : o ∈ (tcpOutput now c).2) : Acknowledges c.rcvNxt o := by
  rcases mem_append.mp held with data | fin
  · exact outputData_acknowledges data
  · obtain ⟨_, _, _, same⟩ := outputData_frame now (if c.sndWnd = 0 then 1 else c.sndWnd) c.tx.length (inFlight c) c
    change o ∈ (outputFin now (outputData now (if c.sndWnd = 0 then 1 else c.sndWnd) c.tx.length (inFlight c) c).1).2 at fin
    rw [same, outputFin] at fin
    split at fin
    · cases mem_singleton.mp fin
      exact ⟨rfl, rfl⟩
    · cases fin

theorem outputData_sends {now wnd off : Nat} (c : Conn) (ready : off < c.tx.length ∧ off < wnd) :
    (outputData now wnd c.tx.length off c).2 ≠ [] := by
  obtain ⟨rounds, size⟩ : ∃ rounds, c.tx.length = rounds + 1 := Nat.exists_eq_add_one.mpr (by omega)
  rw [size, outputData, if_pos ready]
  exact cons_ne_nil _ _

theorem outputData_idle {c : Conn} {now wnd off : Nat} (idle : c.tx.length ≤ off ∨ wnd ≤ off) :
    ∀ rounds, outputData now wnd rounds off c = (c, [])
  | 0 => rfl
  | rounds + 1 => by
    rw [outputData, if_neg]
    omega

theorem output_sends_iff (now : Nat) (c : Conn) : (tcpOutput now c).2 ≠ [] ↔
    inFlight c < c.tx.length ∧ inFlight c < max c.sndWnd 1 ∨ c.finPending = true ∧ c.finSent = false ∧ inFlight c = c.tx.length := by
  have window : (if c.sndWnd = 0 then 1 else c.sndWnd) = max c.sndWnd 1 := by
    split <;> omega
  rw [tcpOutput_eq, window]
  by_cases ready : inFlight c < c.tx.length ∧ inFlight c < max c.sndWnd 1
  · refine iff_of_true (append_ne_nil_of_left_ne_nil (outputData_sends c ready) _) (.inl ready)
  · rw [outputData_idle (by omega), or_iff_right ready]
    unfold outputFin
    split
    next due => exact iff_of_true nofun ⟨due.1, by simpa using due.2.1, due.2.2⟩
    next early => exact iff_of_false (not_not_intro rfl) fun due => early ⟨due.1, by simp [due.2.1], due.2.2⟩

theorem inputAck_closes_iff (now : Nat) (c : Conn) (s : Segment) :
    (inputAck now c s).2 = true ↔ c.state = .lastAck ∧ Advances c s ∧ s.ack = c.sndNxt := by
  obtain ⟨rto, retries, same, _⟩ := applyAck_frame now c s.ack
  unfold inputAck
  rw [same]
  split
  next advances =>
    have met : Advances c s := advances
    dsimp only
    split
    next state => simp [state]
    next state => simp [state]
    next state => simp [state]
    next state =>
      split
      next all => simp [state, met, all]
      next more => simp [state, more]
    next other => exact iff_of_false Bool.false_ne_true fun closes => other closes.1
  next none =>
    have missed : ¬Advances c s := none
    simp [missed]

theorem inputAck_receiving_iff (now : Nat) (c : Conn) (s : Segment) : Receiving (inputAck now c s).1 ↔ Expecting c s := by
  obtain ⟨rto, retries, same, _⟩ := applyAck_frame now c s.ack
  unfold inputAck Expecting Receiving
  rw [same]
  split
  next advances =>
    have met : Advances c s := advances
    dsimp only
    split
    next state => simp [state, met]
    next state => split <;> simp [state]
    next state => split <;> simp [state]
    next state => split <;> simp [state, connClosed_state]
    next other _ _ _ => exact (or_iff_left fun opens => other opens.1).symm
  next none =>
    have missed : ¬Advances c s := none
    simp [missed]

theorem inputAck_sender (now : Nat) (c : Conn) (s : Segment) (open_ : (inputAck now c s).2 = false) :
    let d := (inputAck now c s).1
    inFlight d = flightAfter c s ∧ d.tx.length = queueAfter c s ∧ d.sndWnd = c.sndWnd ∧ d.finPending = c.finPending ∧ d.finSent = c.finSent := by
  obtain ⟨rto, retries, same, _⟩ := applyAck_frame now c s.ack
  by_cases advances : s.flags.ack = true ∧ seqGt s.ack c.sndUna = true ∧ seqLeq s.ack c.sndNxt = true
  · have met : Advances c s := advances
    have left : (c.tx.drop (ackedData c s.ack)).length = queueAfter c s := by
      rw [length_drop, queueAfter, if_pos met, ackedData]
      split <;> split <;> omega
    have flight : (c.sndNxt - s.ack).toNat = flightAfter c s := by rw [flightAfter, if_pos met]
    unfold inputAck at open_ ⊢
    rw [same] at open_ ⊢
    rw [if_pos advances] at open_ ⊢
    dsimp only at open_ ⊢
    split
    · exact ⟨flight, left, rfl, rfl, rfl⟩
    · split <;> exact ⟨flight, left, rfl, rfl, rfl⟩
    · split <;> exact ⟨flight, left, rfl, rfl, rfl⟩
    next state =>
      rw [state] at open_
      dsimp only at open_
      split at open_
      · cases open_
      next more =>
        rw [if_neg more]
        exact ⟨flight, left, rfl, rfl, rfl⟩
    · exact ⟨flight, left, rfl, rfl, rfl⟩
  · have missed : ¬Advances c s := advances
    rw [inputAck, if_neg advances, queueAfter, flightAfter, if_neg missed, if_neg missed]
    exact ⟨rfl, rfl, rfl, rfl, rfl⟩

theorem Segment.Old.apart (old : s.Old c.rcvNxt) (short : s.data.length < 2 ^ 16) :
    s.seq ≠ c.rcvNxt ∧ ¬(s.flags.fin = true ∧ s.seq + BitVec.ofNat 32 s.data.length = c.rcvNxt) ∧
      ¬(seqGt s.seq c.rcvNxt = true ∧ seqLt s.seq (c.rcvNxt + BitVec.ofNat 32 (rxBuf - c.rx.length)) = true) := by
  obtain ⟨some_, below⟩ := old
  have within : s.span ≤ s.data.length + 2 ∧ (s.flags.fin = true → s.data.length < s.span) := by
    unfold Segment.span
    cases s.flags.fin <;> cases s.flags.syn <;> simp
  unfold seqLt seqGt at *
  have low := s.seq.isLt
  have high := c.rcvNxt.isLt
  simp only [decide_eq_true_eq, BitVec.toInt_eq_toNat_cond, BitVec.toNat_sub, BitVec.toNat_add, BitVec.toNat_ofNat, rxBuf, ne_eq,
    ← BitVec.toNat_inj] at *
  split at below
  · omega
  refine ⟨by omega, fun here => ?_, fun inside => ?_⟩
  · have longer := within.2 here.1
    omega
  · obtain ⟨above, under⟩ := inside
    split at above <;> split at under <;> omega

theorem input_old (now : Nat) (live : Synchronized c) (old : s.Old c.rcvNxt) (short : s.data.length < 2 ^ 16) :
    ((connInput now c s).1.rcvNxt = c.rcvNxt ∧ (connInput now c s).1.rx = c.rx) ∧
      ((∃ o ∈ (connInput now c s).2, Acknowledges c.rcvNxt o) ↔ s.flags.rst = false ∧ (inputAck now { c with sndWnd := s.wnd } s).2 = false ∧
        (s.data ≠ [] ∧ Receiving (inputAck now { c with sndWnd := s.wnd } s).1 ∨
          (tcpOutput now (inputAck now { c with sndWnd := s.wnd } s).1).2 ≠ [])) := by
  obtain ⟨place, fin, window⟩ := old.apart short
  unfold connInput
  split
  next rst =>
    have ignored : inputRst c s = (c, []) := by
      unfold inputRst
      dsimp only
      rw [if_neg live.2.2, if_neg (by simpa using place), if_neg fun both => window both.2]
    simp [ignored, rst]
  next rst =>
    obtain ⟨rx, rcv, _⟩ := inputAck_receiver now { c with sndWnd := s.wnd } s
    rw [if_neg live.2.2]
    generalize inputAck now { c with sndWnd := s.wnd } s = a at rx rcv ⊢
    obtain ⟨d, closed⟩ := a
    dsimp only at rx rcv ⊢
    cases closed with
    | true => simp [rx, rcv]
    | false =>
      rw [← rcv] at place fin ⊢
      have noFin : inputFin now d s = (d, []) := if_neg fin
      obtain ⟨_, _, _, _, _, sent, _⟩ := output_frame now d
      rw [if_neg Bool.false_ne_true]
      by_cases data : s.data ≠ [] ∧ Receiving d
      · have yes : inputData d s = (d, [pureAck d]) := by rw [inputData, if_pos data, if_neg place]
        split
        · exact ⟨⟨rfl, rx⟩, fun _ => ⟨Bool.eq_false_iff.mpr rst, rfl, .inl data⟩, fun _ => ⟨_, mem_singleton_self _, rfl, rfl⟩⟩
        · rw [yes, noFin, sent]
          exact ⟨⟨rfl, rx⟩, fun _ => ⟨Bool.eq_false_iff.mpr rst, rfl, .inl data⟩, fun _ => ⟨pureAck d, mem_cons_self, rfl, rfl⟩⟩
      · have no : inputData d s = (d, []) := if_neg data
        have kept : ¬(d.orphan = true ∧ s.data ≠ [] ∧ (d.state = .finWait1 ∨ d.state = .finWait2)) :=
          fun abort => data ⟨abort.2.1, .inr abort.2.2⟩
        rw [if_neg kept, no, noFin, sent]
        refine ⟨⟨rfl, rx⟩, fun ⟨o, out, _⟩ => ⟨Bool.eq_false_iff.mpr rst, rfl, .inr (ne_nil_of_mem out)⟩, fun ⟨_, _, either⟩ => ?_⟩
        obtain ⟨o, out⟩ := exists_mem_of_ne_nil _ (either.resolve_left data)
        exact ⟨o, out, output_acknowledges out⟩

end

/-- What happens to a connection between its making and its end. -/
inductive Turning where
  | input (now : Nat) (s : Segment)
  | write (now : Nat) (data : List UInt8)
  | read (len : Nat)
  | accept
  | close (now : Nat)
  | release (now : Nat)
  | tick (now : Nat) (leaves : Bool)

/-- What is left of `tcp_release` when the connection is not dropped at once. -/
def Conn.turn (c : Conn) : Turning → Conn
  | .input now s => if c.state = .closed ∨ c.state = .listen then c else (connInput now c s).1
  | .write now data => (tcpWrite now data c).1
  | .read len => (tcpRead len c).1
  | .accept => { c with accepted := true }
  | .close now => (startClose now c).1
  | .release now => (startClose now { c with orphan := true, orphanDeadline := now + orphanTicks }).1
  | .tick now leaves => (connTick now leaves c).1

/-- The segment takes the numbers past a FIN, from a connection that has seen its acknowledgement. -/
def finFrom (now : Nat) (c : Conn) (s : Segment) : Option Conn :=
  let a := inputAck now { c with sndWnd := s.wnd } s
  if s.flags.rst ∨ c.state = .closed ∨ c.state = .listen ∨ c.state = .synSent ∨ a.2 ∨
    (a.1.orphan ∧ s.data ≠ [] ∧ (a.1.state = .finWait1 ∨ a.1.state = .finWait2)) then none
  else if s.flags.fin ∧ s.seq + BitVec.ofNat 32 s.data.length = (inputData a.1 s).1.rcvNxt then some a.1 else none

def Turning.fin (c : Conn) : Turning → Option Conn
  | .input now s => finFrom now c s
  | _ => none

def fins : Conn → List Turning → Nat
  | _, [] => 0
  | c, t :: rest => fins (c.turn t) rest + if (t.fin c).isSome then 1 else 0

/-- Nothing more is expected from the other side. -/
def TcpState.past : TcpState → Bool
  | .closeWait | .closing | .lastAck | .timeWait | .closed => true
  | _ => false

abbrev Past (c : Conn) : Prop := c.state.past = true

section
variable {c c' : Conn} {s : Segment} {now : Nat}

theorem output_past (past : Past c) : Past (tcpOutput now c).1 := by
  obtain ⟨_, _, _, _, _, same, move, _⟩ := output_frame now c
  rw [same]
  rcases move with rfl | ⟨open_, _⟩ | ⟨_, rfl⟩
  · exact past
  · rw [Past, open_] at past
    exact nomatch past
  · rfl

theorem closed_past (c : Conn) : Past (connClosed c) := by rw [Past, connClosed_state]; rfl

theorem inputAck_past (past : Past c) : Past (inputAck now c s).1 := by
  obtain ⟨_, _, same, _⟩ := applyAck_frame now c s.ack
  rcases inputAck_cases now c s with none | ⟨_, _, _, step⟩
  · rw [none]
    exact past
  · generalize inputAck now c s = r at step ⊢
    cases step with
    | opens state => rw [Past, state] at past; exact nomatch past
    | halfClosed state => rw [Past, state] at past; exact nomatch past
    | waits => rfl
    | closes => exact closed_past _
    | stays => rw [same]; exact past

theorem inputFin_past (either : Past c ∨ Receiving c ∧ s.flags.fin = true ∧ s.seq + BitVec.ofNat 32 s.data.length = c.rcvNxt) :
    Past (inputFin now c s).1 := by
  unfold inputFin
  split
  · dsimp only
    split
    · rfl
    · rfl
    · rfl
    next open_ first second =>
      rcases either with past | ⟨open' | first' | second', _⟩
      · exact past
      · exact absurd open' open_
      · exact absurd first' first
      · exact absurd second' second
  next missed => exact either.resolve_right fun taken => missed taken.2

theorem inputData_state (c : Conn) (s : Segment) : (inputData c s).1.state = c.state := by
  obtain ⟨⟨_, _, same, _⟩, _⟩ := inputData_frame c s
  rw [same]

theorem turn_past (past : Past c) (t : Turning) : Past (c.turn t) := by
  have closing (now : Nat) {c : Conn} (past : Past c) : Past (startClose now c).1 := by
    unfold startClose
    split
    · exact output_past past
    split
    · rfl
    · exact past
  cases t with
  | input now s =>
    simp only [Conn.turn]
    split
    · exact past
    unfold connInput
    split
    · rcases inputRst_cases c s with is | is | is
      · rw [is]
        exact closed_past _
      · rw [is]
        exact past
      · rw [is]
        exact past
    · have later : Past (inputAck now { c with sndWnd := s.wnd } s).1 := inputAck_past past
      dsimp only
      split
      next opening => rw [Past, opening] at past; exact nomatch past
      split
      · exact later
      split
      · rfl
      · rw [Past, ← inputData_state _ s] at later
        exact output_past (inputFin_past (.inl later))
  | write now data =>
    simp only [Conn.turn, tcpWrite]
    split
    · exact past
    · exact output_past past
  | read len =>
    simp only [Conn.turn, tcpRead]
    split
    · split <;> exact past
    · exact past
  | accept => exact past
  | close now => exact closing now past
  | release now => exact closing now past
  | tick now leaves =>
    simp only [Conn.turn, connTick]
    repeat' split
    all_goals first | exact past | exact closed_past _ | rfl

theorem finFrom_some {d : Conn} (taken : finFrom now c s = some d) :
    d = (inputAck now { c with sndWnd := s.wnd } s).1 ∧ (s.flags.fin = true ∧ s.seq + BitVec.ofNat 32 s.data.length = (inputData d s).1.rcvNxt) ∧
      (Receiving d → Past (c.turn (.input now s))) := by
  unfold finFrom at taken
  dsimp only at taken
  split at taken
  · exact nomatch taken
  next plain =>
    simp only [not_or] at plain
    obtain ⟨rst, closed, listens, opening, kept, abort⟩ := plain
    obtain ⟨fin, ⟨⟩⟩ := Option.ite_none_right_eq_some.mp taken
    refine ⟨rfl, fin, fun open_ => ?_⟩
    simp only [Conn.turn]
    rw [if_neg (not_or.mpr ⟨closed, listens⟩), connInput, if_neg rst, if_neg opening]
    dsimp only
    rw [if_neg kept, if_neg abort]
    refine output_past (inputFin_past (.inr ⟨?_, fin⟩))
    rw [Receiving, inputData_state]
    exact open_

/-- A FIN at the place that the connection waits for comes in a state in which one is expected. -/
def Expected (c : Conn) : Turning → Prop
  | .input _ s => s.flags.fin = true ∧ s.seq + BitVec.ofNat 32 s.data.length = c.rcvNxt → Expecting c s
  | _ => True

theorem Expected.receiving {d : Conn} (expected : Expected c (.input now s)) (taken : finFrom now c s = some d) : Receiving d := by
  obtain ⟨rfl, fin, _⟩ := finFrom_some taken
  obtain ⟨_, rcv, _⟩ := inputAck_receiver now { c with sndWnd := s.wnd } s
  by_contra closed
  have kept : inputData (inputAck now { c with sndWnd := s.wnd } s).1 s = ((inputAck now { c with sndWnd := s.wnd } s).1, []) :=
    if_neg fun data => closed data.2
  rw [kept, rcv] at fin
  exact closed ((inputAck_receiving_iff now { c with sndWnd := s.wnd } s).mpr (expected fin))

theorem fins_le {turns : List Turning} : ∀ {c : Conn}, Permitted Conn.turn Expected c turns →
    fins c turns ≤ 1 ∧ (Past c → fins c turns = 0) := by
  induction turns with
  | nil => exact fun _ => ⟨Nat.zero_le _, fun _ => rfl⟩
  | cons t rest ih =>
    rintro c ⟨expected, later⟩
    obtain ⟨most, none⟩ := ih later
    unfold fins
    cases taken : t.fin c with
    | none =>
      simp only [Option.isSome_none, Bool.false_eq_true, if_false, Nat.add_zero]
      exact ⟨most, fun past => none (turn_past past t)⟩
    | some d =>
      cases t with
      | input now s =>
        have open_ := expected.receiving taken
        obtain ⟨rfl, _, past⟩ := finFrom_some taken
        refine ⟨by rw [none (past open_)]; exact Nat.le_refl 1, fun before => ?_⟩
        have after : Past (inputAck now { c with sndWnd := s.wnd } s).1 := inputAck_past before
        rcases open_ with state | state | state
        all_goals
          rw [Past, state] at after
          exact nomatch after
      | _ => exact nomatch taken

end

/-- A segment that acknowledges what the connection has got leaves, and the connection has got nothing new. -/
def Answered (now : Nat) (iss : Seq) (memory : Bool) (t : Table) (i : Fin maxConn) (s : Segment) : Prop :=
  let r := tcpInput now iss memory t s
  (∃ o ∈ r.2, Acknowledges (t.conns i).rcvNxt o) ∧ (r.1.conns i).rcvNxt = (t.conns i).rcvNxt ∧ (r.1.conns i).rx = (t.conns i).rx

/-- The segment is no reset and does not acknowledge the last thing there was to acknowledge,
and data comes in a state in which it is expected, or there is something to send. -/
def Answering (c : Conn) (s : Segment) : Prop :=
  s.flags.rst = false ∧ ¬(c.state = .lastAck ∧ Advances c s ∧ s.ack = c.sndNxt) ∧ (s.data ≠ [] ∧ Expecting c s ∨ Sends c s)

theorem answering_iff (now : Nat) (c : Conn) (s : Segment) : Answering c s ↔
    s.flags.rst = false ∧ (inputAck now { c with sndWnd := s.wnd } s).2 = false ∧
      (s.data ≠ [] ∧ Receiving (inputAck now { c with sndWnd := s.wnd } s).1 ∨ (tcpOutput now (inputAck now { c with sndWnd := s.wnd } s).1).2 ≠ []) := by
  have closes := inputAck_closes_iff now { c with sndWnd := s.wnd } s
  have receiving := inputAck_receiving_iff now { c with sndWnd := s.wnd } s
  have sender := inputAck_sender now { c with sndWnd := s.wnd } s
  refine and_congr_right fun _ => ?_
  rw [← Bool.not_eq_true, closes, receiving, output_sends_iff]
  refine and_congr_right fun open_ => or_congr Iff.rfl ?_
  obtain ⟨flight, queue, window, pending, sent⟩ := sender (Bool.eq_false_iff.mpr (mt closes.mp open_))
  rw [flight, queue, window, pending, sent]
  rfl

/-- From port 1000 to port 80. -/
def arriving (flags seq ack : UInt8) : Call :=
  .input 0 5 true 1 [3, 232, 0, 80, 0, 0, 0, seq, 0, 0, 0, ack, 0x50, flags, 255, 255, 0, 0, 0, 0]

/-- A connection that the other side has opened. -/
def handshake : List Call := [.listen true 80 1, arriving 0x02 100 0, arriving 0x10 101 6]

def repeating (flags : Flags) (seq : Seq) (data : List UInt8) : Segment := ⟨1, 1000, 80, seq, 6, flags, 65535, data⟩

/-- A FIN, and the same one again. -/
def finTwice : List Turning :=
  [.input 0 (repeating { ack := true, fin := true } 101 []), .input 0 (repeating { ack := true, fin := true } 101 [])]

end SecOS.Tcp
