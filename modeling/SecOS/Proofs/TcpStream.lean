import SecOS.TcpLink
import SecOS.Proofs.TcpFrame

/-! The two streams of a connection. What is on the wire tells the truth about the sender's
stream, and a receiver takes a segment only at the place it waits for. -/

namespace SecOS.Tcp
open List

def got (c : Conn) : List UInt8 := c.delivered ++ c.rx

structure Grows (p p' : Conn) : Prop where
  iss : p'.iss = p.iss
  written : p.written <+: p'.written
  fin : p.finSent = true → p'.finSent = true ∧ p'.written = p.written

def extent (p : Conn) : Nat := p.written.length + 1 + if p.finSent then 1 else 0

/-- A segment of `p` at the place `pos`, sent to `m`. -/
structure Told (p : Conn) (m : Option Conn) (pos : Nat) (s : Segment) : Prop where
  data : s.data ≠ [] → s.seq = p.iss + BitVec.ofNat 32 pos ∧ 0 < pos ∧ s.data <+: p.written.drop (pos - 1)
  fin : s.flags.fin = true → s.seq = p.iss + BitVec.ofNat 32 pos ∧ s.data = [] ∧ pos = p.written.length + 1 ∧ p.finSent = true
  syn : s.flags.syn = true → s.seq = p.iss ∧ s.data = [] ∧ s.flags.fin = false
  acks : s.data ≠ [] ∨ s.flags.fin = true →
    s.flags.ack = true ∧ ∃ m', m = some m' ∧ ∃ q, s.ack = m'.iss + BitVec.ofNat 32 q ∧ 0 < q ∧ q ≤ extent m'

inductive Phase where
  | closed
  | listening
  | calling
  | greeted
  | receiving
  | ended
deriving DecidableEq

def phase : TcpState → Phase
  | .closed => .closed
  | .listen => .listening
  | .synSent => .calling
  | .synRcvd => .greeted
  | .established | .finWait1 | .finWait2 => .receiving
  | .closeWait | .closing | .lastAck | .timeWait => .ended

def Received (p m : Conn) : Prop :=
  match phase m.state with
  | .closed => got m <+: p.written ∧ (m.opened = true → m.reset = false → got m = p.written ∧ p.finSent = true)
  | .listening => False
  | .calling => got m = [] ∧ m.opened = false
  | .greeted => got m = [] ∧ m.opened = false ∧ m.rcvNxt = p.iss + BitVec.ofNat 32 1
  | .receiving => got m <+: p.written ∧ m.rcvNxt = p.iss + BitVec.ofNat 32 ((got m).length + 1)
  | .ended => (got m = p.written ∧ p.finSent = true) ∧ m.rcvNxt = p.iss + BitVec.ofNat 32 ((got m).length + 2)

section
variable {p p' m m' : Conn} {pos : Nat} {s : Segment}

theorem Grows.refl (p : Conn) : Grows p p := ⟨rfl, prefix_refl _, fun fin => ⟨fin, rfl⟩⟩

theorem Grows.extent_le (grows : Grows p p') : extent p ≤ extent p' := by
  have longer := grows.written.length_le
  unfold extent
  cases fin : p.finSent with
  | false =>
    rw [if_neg Bool.false_ne_true]
    omega
  | true =>
    rw [(grows.fin fin).1]
    simp only [if_true]
    omega

theorem Told.grows {m : Option Conn} (told : Told p m pos s) (grows : Grows p p') : Told p' m pos s := by
  refine ⟨fun some_ => ?_, fun fin => ?_, fun syn => ?_, told.acks⟩
  · obtain ⟨seq, positive, bytes⟩ := told.data some_
    exact ⟨by rw [grows.iss]; exact seq, positive, bytes.trans (grows.written.drop _)⟩
  · obtain ⟨seq, none, last, sent⟩ := told.fin fin
    obtain ⟨sent', same⟩ := grows.fin sent
    exact ⟨by rw [grows.iss]; exact seq, none, by rw [same]; exact last, sent'⟩
  · rw [grows.iss]
    exact told.syn syn

theorem Told.peer (told : Told p (some m) pos s) (grows : Grows m m') : Told p (some m') pos s := by
  refine ⟨told.data, told.fin, told.syn, fun some_ => ?_⟩
  obtain ⟨flag, other, same, q, ack, positive, upto⟩ := told.acks some_
  cases same
  exact ⟨flag, m', rfl, q, by rw [grows.iss]; exact ack, positive, Nat.le_trans upto grows.extent_le⟩

theorem Told.meet (told : Told p none pos s) (m : Conn) : Told p (some m) pos s := by
  refine ⟨told.data, told.fin, told.syn, fun some_ => ?_⟩
  obtain ⟨_, _, impossible, _⟩ := told.acks some_
  cases impossible

theorem Received.grows (received : Received p m) (grows : Grows p p') : Received p' m := by
  have whole (all : got m = p.written ∧ p.finSent = true) : got m = p'.written ∧ p'.finSent = true := by
    obtain ⟨sent, same⟩ := grows.fin all.2
    exact ⟨all.1.trans same.symm, sent⟩
  unfold Received at *
  rw [grows.iss]
  split at received
  · exact ⟨received.1.trans grows.written, fun opened reset => whole (received.2 opened reset)⟩
  · exact received
  · exact received
  · exact received
  · exact ⟨received.1.trans grows.written, received.2⟩
  · exact ⟨whole received.1, received.2⟩

theorem Received.start (received : Received p m) : got m <+: p.written := by
  unfold Received at received
  split at received
  · exact received.1
  · exact received.elim
  · rw [received.1]; exact nil_prefix
  · rw [received.1]; exact nil_prefix
  · exact received.1
  · rw [received.1.1]

theorem Received.whole (received : Received p m) (opened : m.opened = true) (reset : m.reset = false)
    (excess : phase m.state = .ended ∨ phase m.state = .closed) : got m = p.written ∧ p.finSent = true := by
  unfold Received at received
  rcases excess with ended | closed
  · rw [ended] at received
    exact received.1
  · rw [closed] at received
    exact received.2 opened reset

/-- The end `m` has not taken anything in; it may have been closed. -/
structure Quiet (m m' : Conn) : Prop where
  got : got m' = got m
  rcv : m'.rcvNxt = m.rcvNxt
  opened : m'.opened = m.opened
  state : phase m'.state = phase m.state ∧ m'.reset = m.reset ∨
    m'.state = .closed ∧ phase m.state ≠ .listening ∧
      (m'.reset = false → m.reset = false ∧ (phase m.state = .ended ∨ phase m.state = .closed ∨ phase m.state = .calling))

theorem Received.quiet (received : Received p m) (quiet : Quiet m m') : Received p m' := by
  rcases quiet.state with ⟨same, reset⟩ | ⟨closed, other, why⟩
  · unfold Received at *
    rw [same, quiet.got, quiet.rcv, quiet.opened, reset]
    exact received
  · have start := received.start
    rw [Received, closed]
    refine ⟨by rw [quiet.got]; exact start, fun opened unset => ?_⟩
    rw [quiet.opened] at opened
    obtain ⟨reset, before⟩ := why unset
    rw [quiet.got]
    rcases before with ended | gone | calling
    · exact received.whole opened reset (.inl ended)
    · exact received.whole opened reset (.inr gone)
    · rw [Received, calling, opened] at received
      cases received.2

theorem Quiet.refl (m : Conn) : Quiet m m := ⟨rfl, rfl, rfl, .inl ⟨rfl, rfl⟩⟩

theorem output_quiet (now : Nat) (m : Conn) : Quiet m (tcpOutput now m).1 := by
  obtain ⟨_, _, _, _, after, same, move, _⟩ := output_frame now m
  rw [same]
  refine ⟨rfl, rfl, rfl, .inl ⟨?_, rfl⟩⟩
  rcases move with equal | ⟨before, after⟩ | ⟨before, after⟩
  · rw [equal]
  · rw [before, after]
    rfl
  · rw [before, after]
    rfl

theorem write_quiet (now : Nat) (data : List UInt8) (m : Conn) : Quiet m (tcpWrite now data m).1 := by
  simp only [tcpWrite]
  split
  · exact .refl m
  · obtain ⟨same, rcv, opened, state⟩ :=
      output_quiet now { m with tx := m.tx ++ data.take (txBuf - m.tx.length), written := m.written ++ data.take (txBuf - m.tx.length) }
    exact ⟨same, rcv, opened, state⟩

theorem read_quiet (len : Nat) (m : Conn) : Quiet m (tcpRead len m).1 := by
  simp only [tcpRead]
  split
  · split
    · exact .refl m
    · exact .refl m
  · refine ⟨?_, rfl, rfl, .inl ⟨rfl, rfl⟩⟩
    simp only [Tcp.got, append_assoc, take_append_drop]

theorem close_quiet (now : Nat) (other : m.state ≠ .listen) : Quiet m (startClose now m).1 := by
  unfold startClose
  split
  · obtain ⟨same, rcv, opened, state⟩ := output_quiet now { m with finPending := true }
    exact ⟨same, rcv, opened, state⟩
  split
  next calling =>
    have state : m.state = .synSent := calling.resolve_right other
    refine ⟨rfl, rfl, rfl, .inr ⟨rfl, by rw [state]; nofun, fun reset => ⟨reset, .inr (.inr ?_)⟩⟩⟩
    rw [state]
    rfl
  · exact .refl m

theorem connClosed_frame (m : Conn) : ∃ used, connClosed m = { m with used := used, state := .closed } := by
  unfold connClosed
  split
  · exact ⟨_, rfl⟩
  · exact ⟨_, rfl⟩

theorem phase_listening {state : TcpState} : phase state = .listening ↔ state = .listen := by
  cases state <;> simp only [phase, reduceCtorEq]

theorem tick_quiet (now : Nat) (leaves : Bool) (other : m.state ≠ .listen) (owned : m.orphan = false) : Quiet m (connTick now leaves m).1 := by
  have named : phase m.state ≠ .listening := fun equal => other (phase_listening.mp equal)
  unfold connTick
  split
  · exact .refl m
  split
  next state =>
    dsimp only
    split
    · obtain ⟨_, same⟩ := connClosed_frame m
      rw [same]
      refine ⟨rfl, rfl, rfl, .inr ⟨rfl, named, fun reset => ⟨reset, .inl ?_⟩⟩⟩
      rw [state]
      rfl
    · exact .refl m
  split
  next due =>
    rw [owned] at due
    cases due.1
  split
  · exact .refl m
  split
  · split
    · dsimp only
      split
      · exact ⟨rfl, rfl, rfl, .inl ⟨rfl, rfl⟩⟩
      · exact ⟨rfl, rfl, rfl, .inl ⟨rfl, rfl⟩⟩
    · exact .refl m
  split
  · dsimp only
    split
    · obtain ⟨_, same⟩ := connClosed_frame { m with retries := m.retries + 1, reset := true }
      rw [same]
      exact ⟨rfl, rfl, rfl, .inr ⟨rfl, named, nofun⟩⟩
    · exact ⟨rfl, rfl, rfl, .inl ⟨rfl, rfl⟩⟩
  · exact .refl m

theorem output_grows (now : Nat) (p : Conn) : Grows p (tcpOutput now p).1 := by
  obtain ⟨_, _, _, _, _, same, _, fin⟩ := output_frame now p
  rw [same]
  refine ⟨rfl, prefix_refl _, fun sent => ⟨?_, rfl⟩⟩
  rcases fin with equal | ⟨set, _⟩
  · exact equal.trans sent
  · exact set

theorem Grows.trans {p'' : Conn} (first : Grows p p') (second : Grows p' p'') : Grows p p'' := by
  refine ⟨second.iss.trans first.iss, first.written.trans second.written, fun fin => ?_⟩
  obtain ⟨sent, same⟩ := first.fin fin
  obtain ⟨sent', same'⟩ := second.fin sent
  exact ⟨sent', same'.trans same⟩

theorem write_grows (now : Nat) (ok : p.Ok) (data : List UInt8) : Grows p (tcpWrite now data p).1 := by
  simp only [tcpWrite]
  split
  · exact .refl p
  next state =>
    have state : p.state = .established ∨ p.state = .closeWait := by
      by_contra other
      exact state (not_or.mp other)
    have longer : Grows p { p with tx := p.tx ++ data.take (txBuf - p.tx.length), written := p.written ++ data.take (txBuf - p.tx.length) } := by
      refine ⟨rfl, prefix_append _ _, fun sent => ?_⟩
      rw [(ok.sending.flowing state).fin] at sent
      cases sent
    exact longer.trans (output_grows now _)

theorem read_grows (len : Nat) (p : Conn) : Grows p (tcpRead len p).1 := by
  simp only [tcpRead]
  split
  · split
    · exact .refl p
    · exact .refl p
  · exact ⟨rfl, prefix_refl _, fun sent => ⟨sent, rfl⟩⟩

theorem close_grows (now : Nat) (p : Conn) : Grows p (startClose now p).1 := by
  unfold startClose
  split
  · have asked : Grows p { p with finPending := true } := ⟨rfl, prefix_refl _, fun sent => ⟨sent, rfl⟩⟩
    exact asked.trans (output_grows now _)
  split
  · exact ⟨rfl, prefix_refl _, fun sent => ⟨sent, rfl⟩⟩
  · exact .refl p

theorem grows_of_same (iss : p'.iss = p.iss) (written : p'.written = p.written) (fin : p'.finSent = p.finSent) : Grows p p' := by
  refine ⟨iss, by rw [written], fun sent => ⟨fin.trans sent, written⟩⟩

theorem tick_grows (now : Nat) (leaves : Bool) (p : Conn) : Grows p (connTick now leaves p).1 := by
  have closes (p' : Conn) (iss : p'.iss = p.iss) (written : p'.written = p.written) (fin : p'.finSent = p.finSent) :
      Grows p (connClosed p') := by
    obtain ⟨_, same⟩ := connClosed_frame p'
    rw [same]
    exact grows_of_same iss written fin
  unfold connTick
  split
  · exact .refl p
  split
  · dsimp only
    split
    · exact closes p rfl rfl rfl
    · exact .refl p
  split
  · exact grows_of_same rfl rfl rfl
  split
  · exact .refl p
  split
  · split
    · dsimp only
      split
      · exact grows_of_same rfl rfl rfl
      · exact grows_of_same rfl rfl rfl
    · exact .refl p
  split
  · dsimp only
    split
    · exact closes _ rfl rfl rfl
    · exact grows_of_same rfl rfl rfl
  · exact .refl p

theorem receive_grows (now : Nat) (p : Conn) (s : Segment) : Grows p (inputFin now (inputData p s).1 s).1 := by
  obtain ⟨⟨rx, rcv, same, _⟩, _⟩ := inputData_frame p s
  rw [same]
  rcases inputFin_cases now { p with rx := rx, rcvNxt := rcv } s with none | ⟨_, _, state, tw, o, fin, _⟩
  · rw [none]
    exact grows_of_same rfl rfl rfl
  · rw [fin]
    exact grows_of_same rfl rfl rfl

theorem input_grows (now : Nat) (p : Conn) (s : Segment) : Grows p (connInput now p s).1 := by
  unfold connInput
  split
  · rcases inputRst_cases p s with gone | answer | none
    · obtain ⟨_, same⟩ := connClosed_frame { p with reset := true }
      rw [gone, same]
      exact grows_of_same rfl rfl rfl
    · rw [answer]
      exact .refl p
    · rw [none]
      exact .refl p
  · dsimp only
    split
    · rcases inputSynSent_cases now { p with sndWnd := s.wnd } s with none | ⟨_, _, _, _, _, answered⟩ | ⟨_, crossed⟩
      · rw [none]
        exact grows_of_same rfl rfl rfl
      · rw [answered]
        exact grows_of_same rfl rfl rfl
      · rw [crossed]
        exact grows_of_same rfl rfl rfl
    · have acked : Grows p (inputAck now { p with sndWnd := s.wnd } s).1 := by
        obtain ⟨_, _, _, written, iss, _, fin⟩ := inputAck_receiver now { p with sndWnd := s.wnd } s
        exact grows_of_same iss written fin
      generalize inputAck now { p with sndWnd := s.wnd } s = r at acked ⊢
      obtain ⟨p', closed⟩ := r
      dsimp only
      split
      · exact acked
      split
      · exact acked.trans (grows_of_same rfl rfl rfl)
      · exact acked.trans ((receive_grows now p' s).trans (output_grows now _))

end
end SecOS.Tcp
