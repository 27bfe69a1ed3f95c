import SecOS.Tcp

/-! The sending side of a connection. Its send buffer is the end of what was written, and starts
at the first sequence number that is not acknowledged. -/

namespace SecOS.Tcp
open List

def inFlight (c : Conn) : Nat := (c.sndNxt - c.sndUna).toNat

section
variable {a b : Seq} {n m : Nat}

theorem seq_add_sub (a : Seq) (n : Nat) : a + BitVec.ofNat 32 n - a = BitVec.ofNat 32 n := by
  rw [BitVec.add_comm, BitVec.add_sub_cancel]

theorem seq_eq_add (a b : Seq) : b = a + BitVec.ofNat 32 (b - a).toNat := by
  rw [BitVec.ofNat_toNat, BitVec.setWidth_eq, BitVec.add_comm, BitVec.sub_add_cancel]

theorem seq_add_add (a : Seq) (n m : Nat) : a + BitVec.ofNat 32 n + BitVec.ofNat 32 m = a + BitVec.ofNat 32 (n + m) := by
  rw [BitVec.add_assoc, ← BitVec.ofNat_add]

theorem ack_range {una nxt ack : Seq} (few : (nxt - una).toNat < 2 ^ 31) (above : seqGt ack una = true) (upto : seqLeq ack nxt = true) :
    0 < (ack - una).toNat ∧ (ack - una).toNat ≤ (nxt - una).toNat ∧ (nxt - ack).toNat = (nxt - una).toNat - (ack - una).toNat := by
  unfold seqGt at above
  unfold seqLeq at upto
  rw [decide_eq_true_eq] at above upto
  have mid := ack.isLt
  rw [BitVec.toInt_eq_toNat_cond] at above upto
  simp only [BitVec.toNat_sub] at above upto few ⊢
  omega

end

structure Opening (c : Conn) : Prop where
  una : c.sndUna = c.iss
  nxt : c.sndNxt = c.iss + 1
  tx : c.tx = []
  written : c.written = []
  pending : c.finPending = false
  fin : c.finSent = false
  timer : c.rtoDeadline ≠ 0

/-- The buffer holds what was written and is not acknowledged, from `sndUna` on. -/
structure Buffered (c : Conn) : Prop where
  suffix : c.tx <:+ c.written
  place : c.sndUna = c.iss + 1 + BitVec.ofNat 32 (c.written.length - c.tx.length)
  room : c.tx.length ≤ txBuf

structure Flowing (c : Conn) : Prop extends Buffered c where
  fin : c.finSent = false
  sent : inFlight c ≤ c.tx.length
  timer : c.sndUna ≠ c.sndNxt → c.rtoDeadline ≠ 0

/-- The FIN is in flight behind the rest of the data. -/
structure Finishing (c : Conn) : Prop extends Buffered c where
  fin : c.finSent = true
  sent : inFlight c = c.tx.length + 1
  timer : c.rtoDeadline ≠ 0

structure Finished (c : Conn) : Prop where
  fin : c.finSent = true
  tx : c.tx = []
  nxt : c.sndNxt = c.sndUna
  place : c.sndUna = c.iss + 1 + BitVec.ofNat 32 (c.written.length + 1)

def Sending (c : Conn) : Prop :=
  match c.state with
  | .closed => True
  | .listen => c.sndUna = c.sndNxt
  | .synSent | .synRcvd => Opening c
  | .established | .closeWait => Flowing c
  | .finWait1 | .closing | .lastAck => Finishing c
  | .finWait2 | .timeWait => Finished c

/-- Whatever can be sent has been sent. -/
def Pushed (c : Conn) : Prop :=
  c.state ≠ .closed → inFlight c < c.tx.length → max 1 c.sndWnd ≤ inFlight c

def From (c : Conn) (s : Segment) : Prop := s.ip = c.remoteIp ∧ s.srcPort = c.localPort ∧ s.dstPort = c.remotePort

def Carries (c : Conn) (s : Segment) : Prop :=
  ∃ off, s.seq = c.sndUna + BitVec.ofNat 32 off ∧ off + s.data.length ≤ c.tx.length ∧ s.data = (c.tx.drop off).take s.data.length

section
variable {c c' : Conn} {s : Segment} {now : Nat}

theorem inFlight_add (c : Conn) (n : Nat) (small : inFlight c + n < 2 ^ 32) :
    inFlight { c with sndNxt := c.sndNxt + BitVec.ofNat 32 n } = inFlight c + n := by
  unfold inFlight at *
  simp only [BitVec.toNat_sub, BitVec.toNat_add, BitVec.toNat_ofNat] at *
  omega

theorem nxt_eq (c : Conn) : c.sndNxt = c.sndUna + BitVec.ofNat 32 (inFlight c) := seq_eq_add _ _

theorem inFlight_eq_zero : inFlight c = 0 ↔ c.sndUna = c.sndNxt := by
  constructor
  · intro none
    rw [nxt_eq c, none]
    exact (BitVec.add_zero _).symm
  · intro same
    rw [inFlight, same, BitVec.sub_self]
    rfl

theorem Opening.inFlight (opening : Opening c) : inFlight c = 1 := by
  rw [Tcp.inFlight, opening.nxt, opening.una, BitVec.add_comm, BitVec.add_sub_cancel]
  rfl

theorem Finishing.pushed (finishing : Finishing c) : Pushed c := fun _ less => by
  have sent := finishing.sent
  omega

theorem Pushed.of_empty (empty : c.tx = []) : Pushed c := fun _ less => by
  rw [empty] at less
  exact absurd less (Nat.not_lt_zero _)

section
variable (sending : Sending c) (live : c.state ≠ .closed)
include sending live

/-- What a connection that is open has to send, by its state. -/
theorem Sending.stage :
    c.state = .listen ∧ c.sndUna = c.sndNxt ∨ (c.state = .synSent ∨ c.state = .synRcvd) ∧ Opening c ∨
      (c.state = .established ∨ c.state = .closeWait) ∧ Flowing c ∨
      (c.state = .finWait1 ∨ c.state = .closing ∨ c.state = .lastAck) ∧ Finishing c ∨ Finished c := by
  unfold Sending at sending
  split at sending
  next state => exact absurd state live
  next state => exact .inl ⟨state, sending⟩
  next state => exact .inr (.inl ⟨.inl state, sending⟩)
  next state => exact .inr (.inl ⟨.inr state, sending⟩)
  next state => exact .inr (.inr (.inl ⟨.inl state, sending⟩))
  next state => exact .inr (.inr (.inl ⟨.inr state, sending⟩))
  next state => exact .inr (.inr (.inr (.inl ⟨.inl state, sending⟩)))
  next state => exact .inr (.inr (.inr (.inl ⟨.inr (.inl state), sending⟩)))
  next state => exact .inr (.inr (.inr (.inl ⟨.inr (.inr state), sending⟩)))
  · exact .inr (.inr (.inr (.inr sending)))
  · exact .inr (.inr (.inr (.inr sending)))

theorem Sending.inFlight_le : inFlight c ≤ c.tx.length + 1 := by
  rcases sending.stage live with ⟨_, idle⟩ | ⟨_, opening⟩ | ⟨_, flowing⟩ | ⟨_, finishing⟩ | finished
  · rw [inFlight_eq_zero.mpr idle]; exact Nat.zero_le _
  · rw [opening.inFlight]; exact Nat.le_add_left _ _
  · exact Nat.le_succ_of_le flowing.sent
  · exact Nat.le_of_eq finishing.sent
  · rw [inFlight_eq_zero.mpr finished.nxt.symm]; exact Nat.zero_le _

theorem Sending.room (other : c.state ≠ .listen) : c.tx.length ≤ txBuf := by
  rcases sending.stage live with ⟨state, _⟩ | ⟨_, opening⟩ | ⟨_, flowing⟩ | ⟨_, finishing⟩ | finished
  · exact absurd state other
  · rw [opening.tx]; exact Nat.zero_le _
  · exact flowing.room
  · exact finishing.room
  · rw [finished.tx]; exact Nat.zero_le _

end

structure SameSender (c c' : Conn) : Prop where
  iss : c'.iss = c.iss
  una : c'.sndUna = c.sndUna
  nxt : c'.sndNxt = c.sndNxt
  tx : c'.tx = c.tx
  written : c'.written = c.written
  fin : c'.finSent = c.finSent
  rto : c.rtoDeadline ≠ 0 → c'.rtoDeadline ≠ 0

section
variable (same : SameSender c c')
include same

theorem SameSender.inFlight : Tcp.inFlight c' = Tcp.inFlight c := by rw [Tcp.inFlight, same.nxt, same.una, Tcp.inFlight]

theorem SameSender.buffered (buffered : Buffered c) : Buffered c' :=
  ⟨by rw [same.tx, same.written]; exact buffered.suffix, by rw [same.una, same.iss, same.written, same.tx]; exact buffered.place,
    by rw [same.tx]; exact buffered.room⟩

theorem SameSender.flowing (flowing : Flowing c) : Flowing c' :=
  ⟨same.buffered flowing.toBuffered, by rw [same.fin]; exact flowing.fin, by rw [same.inFlight, same.tx]; exact flowing.sent,
    by rw [same.una, same.nxt]; exact fun other => same.rto (flowing.timer other)⟩

theorem SameSender.finishing (finishing : Finishing c) : Finishing c' :=
  ⟨same.buffered finishing.toBuffered, by rw [same.fin]; exact finishing.fin, by rw [same.inFlight, same.tx]; exact finishing.sent,
    same.rto finishing.timer⟩

theorem SameSender.finished (finished : Finished c) : Finished c' :=
  ⟨by rw [same.fin]; exact finished.fin, by rw [same.tx]; exact finished.tx, by rw [same.nxt, same.una]; exact finished.nxt,
    by rw [same.una, same.iss, same.written]; exact finished.place⟩

theorem SameSender.opening (pending : c'.finPending = c.finPending) (opening : Opening c) : Opening c' :=
  ⟨by rw [same.una, same.iss]; exact opening.una, by rw [same.nxt, same.iss]; exact opening.nxt, by rw [same.tx]; exact opening.tx,
    by rw [same.written]; exact opening.written, by rw [pending]; exact opening.pending, by rw [same.fin]; exact opening.fin,
    same.rto opening.timer⟩

theorem SameSender.sending (state : c'.state = c.state) (pending : c'.finPending = c.finPending) (sending : Sending c) : Sending c' := by
  unfold Sending at *
  rw [state]
  split at sending
  · trivial
  · rw [same.una, same.nxt]; exact sending
  · exact same.opening pending sending
  · exact same.opening pending sending
  · exact same.flowing sending
  · exact same.flowing sending
  · exact same.finishing sending
  · exact same.finishing sending
  · exact same.finishing sending
  · exact same.finished sending
  · exact same.finished sending

theorem SameSender.pushed (state : c'.state = c.state) (window : c'.sndWnd = c.sndWnd) (pushed : Pushed c) : Pushed c' := by
  unfold Pushed at *
  rw [state, same.inFlight, same.tx, window]
  exact pushed

end

theorem outputData_frame (now wnd rounds off : Nat) (c : Conn) :
    ∃ nxt rto retries, (outputData now wnd rounds off c).1 = { c with sndNxt := nxt, rtoDeadline := rto, retries := retries } := by
  induction rounds generalizing off c with
  | zero => exact ⟨_, _, _, rfl⟩
  | succ rounds ih =>
    simp only [outputData]
    split
    · obtain ⟨nxt, rto, retries, same⟩ := ih _ _
      exact ⟨nxt, rto, retries, same⟩
    · exact ⟨_, _, _, rfl⟩

/-- Output moves the sending side only, and a FIN takes the connection one state further. -/
theorem output_frame (now : Nat) (c : Conn) :
    ∃ nxt rto retries fin state, (tcpOutput now c).1 = { c with sndNxt := nxt, rtoDeadline := rto, retries := retries, finSent := fin, state := state } ∧
      (state = c.state ∨ c.state = .established ∧ state = .finWait1 ∨ c.state = .closeWait ∧ state = .lastAck) ∧
      (fin = c.finSent ∨ fin = true ∧ c.finPending = true) := by
  obtain ⟨nxt, rto, retries, same⟩ := outputData_frame now (if c.sndWnd = 0 then 1 else c.sndWnd) c.tx.length (inFlight c) c
  rw [show (tcpOutput now c).1 = (outputFin now (outputData now (if c.sndWnd = 0 then 1 else c.sndWnd) c.tx.length (inFlight c) c).1).1 from rfl,
    same, outputFin]
  split
  next ready =>
    refine ⟨_, _, _, _, _, rfl, ?_, .inr ⟨rfl, ready.1⟩⟩
    simp only [armRto]
    split
    next state => exact .inr (.inl ⟨state, rfl⟩)
    next state => exact .inr (.inr ⟨state, rfl⟩)
    · exact .inl rfl
  · exact ⟨_, _, _, _, _, rfl, .inl rfl, .inl rfl⟩

structure Advanced (c c' : Conn) : Prop where
  sent : inFlight c ≤ inFlight c'
  timer : inFlight c' = inFlight c ∧ c'.rtoDeadline = c.rtoDeadline ∨ c'.rtoDeadline ≠ 0

theorem outputData_spec (now wnd : Nat) (room : c.tx.length ≤ txBuf) (within : inFlight c ≤ c.tx.length) {rounds : Nat}
    (enough : c.tx.length - inFlight c ≤ rounds) :
    let r := outputData now wnd rounds (inFlight c) c
    Advanced c r.1 ∧ inFlight r.1 ≤ c.tx.length ∧ (inFlight r.1 < c.tx.length → wnd ≤ inFlight r.1) ∧
      ∀ s ∈ r.2, From c s ∧ Carries c s ∧ s.flags = { ack := true, psh := true } ∧ s.ack = c.rcvNxt := by
  induction rounds generalizing c with
  | zero =>
    have all : inFlight c = c.tx.length := by omega
    exact ⟨⟨le_rfl, .inl ⟨rfl, rfl⟩⟩, within, fun less => absurd less (by simp only [outputData]; omega), nofun⟩
  | succ rounds ih =>
    simp only [outputData]
    split
    next more =>
      obtain ⟨some_, open_⟩ := more
      -- the round sends `chunk` bytes
      obtain ⟨chunk, size⟩ : ∃ chunk, min (min (c.tx.length - inFlight c) mss) (wnd - inFlight c) = chunk := ⟨_, rfl⟩
      have positive : 0 < chunk := by unfold mss at size; omega
      have fits : inFlight c + chunk ≤ c.tx.length := by omega
      unfold txBuf at room
      have moved : inFlight (armRto now { c with sndNxt := c.sndNxt + BitVec.ofNat 32 chunk }) = inFlight c + chunk :=
        inFlight_add c chunk (by omega)
      simp only [size]
      have step := ih (c := armRto now { c with sndNxt := c.sndNxt + BitVec.ofNat 32 chunk }) (by unfold txBuf; exact room)
        (by rw [moved]; exact fits) (by rw [moved]; simp only [armRto]; omega)
      rw [moved] at step
      obtain ⟨⟨sent, timer⟩, upto, window, segments⟩ := step
      refine ⟨⟨by omega, .inr ?_⟩, upto, window, ?_⟩
      · rcases timer with ⟨_, kept⟩ | armed
        · rw [kept]
          simp only [armRto, rtoTicks]
          omega
        · exact armed
      · intro s held
        rcases mem_cons.mp held with rfl | later
        · refine ⟨⟨rfl, rfl, rfl⟩, ⟨inFlight c, nxt_eq c, ?_, ?_⟩, rfl, rfl⟩
          · simp only [tcpXmit, length_take, length_drop]
            omega
          · simp only [tcpXmit, length_take, length_drop]
            rw [Nat.min_eq_left (by omega)]
        · exact segments s later
    next stop =>
      exact ⟨⟨le_rfl, .inl ⟨rfl, rfl⟩⟩, within, fun less => Nat.le_of_not_lt fun low => stop ⟨less, low⟩, nofun⟩

/-- A segment that a connection sends, seen from the state it leaves behind. -/
structure SentBy (c : Conn) (s : Segment) : Prop where
  source : From c s
  live : s.data ≠ [] ∨ s.flags.fin = true → c.state ≠ .closed ∧ c.state ≠ .listen
  carries : s.data ≠ [] → Carries c s ∧ s.flags = { ack := true, psh := true }
  fin : s.flags.fin = true → s.data = [] ∧ Finishing c ∧ s.seq = c.sndUna + BitVec.ofNat 32 c.tx.length
  syn : s.flags.syn = true → (c.state = .synSent ∨ c.state = .synRcvd) ∧ s.seq = c.iss ∧ s.data = [] ∧ s.flags.fin = false
  acks : s.data ≠ [] ∨ s.flags.fin = true → s.flags.ack = true ∧ s.ack = c.rcvNxt

theorem sentBy_bare (source : From c s) (data : s.data = []) (fin : s.flags.fin = false) (syn : s.flags.syn = false) : SentBy c s := by
  have nothing : ¬(s.data ≠ [] ∨ s.flags.fin = true) := by
    rw [fin]
    rintro (more | set)
    · exact more data
    · cases set
  refine ⟨source, fun some_ => absurd some_ nothing, fun some_ => absurd data some_, fun set => absurd (.inr set) nothing, fun set => ?_,
    fun some_ => absurd some_ nothing⟩
  rw [syn] at set
  cases set

theorem sentBy_data (source : From c s) (live : c.state ≠ .closed ∧ c.state ≠ .listen) (carries : Carries c s)
    (flags : s.flags = { ack := true, psh := true }) (ack : s.ack = c.rcvNxt) : SentBy c s := by
  refine ⟨source, fun _ => live, fun _ => ⟨carries, flags⟩, fun set => ?_, fun set => ?_, fun _ => ⟨?_, ack⟩⟩
  · rw [flags] at set
    cases set
  · rw [flags] at set
    cases set
  · rw [flags]

theorem tcpOutput_eq (now : Nat) (c : Conn) :
    let d := outputData now (if c.sndWnd = 0 then 1 else c.sndWnd) c.tx.length (inFlight c) c
    tcpOutput now c = ((outputFin now d.1).1, d.2 ++ (outputFin now d.1).2) := rfl

theorem outputFin_spec (now : Nat) (flowing : Flowing c) (state : c.state = .established ∨ c.state = .closeWait) (pushed : Pushed c) :
    let r := outputFin now c
    Sending r.1 ∧ Pushed r.1 ∧ r.1.sndUna = c.sndUna ∧ r.1.tx = c.tx ∧ r.1.rcvNxt = c.rcvNxt ∧ ∀ s ∈ r.2, SentBy r.1 s := by
  have here : Sending c := by
    rcases state with open_ | half
    · simp only [Sending, open_]
      exact flowing
    · simp only [Sending, half]
      exact flowing
  simp only [outputFin]
  split
  next ready =>
    obtain ⟨_, _, all⟩ := ready
    have room := flowing.room
    unfold txBuf at room
    have place : c.sndNxt = c.sndUna + BitVec.ofNat 32 c.tx.length := by
      rw [← all]
      exact nxt_eq c
    have moved : inFlight { c with sndNxt := c.sndNxt + 1 } = c.tx.length + 1 := by
      have one := inFlight_add c 1 (by rw [inFlight, all]; omega)
      rw [← all]
      exact one
    have finishing : ∀ state, Finishing { armRto now { c with finSent := true, sndNxt := c.sndNxt + 1 } with state := state } := fun state =>
      ⟨⟨flowing.suffix, flowing.place, flowing.room⟩, rfl, moved, by simp only [armRto, rtoTicks]; omega⟩
    have segment : ∀ state, state ≠ .closed ∧ state ≠ .listen → SentBy { armRto now { c with finSent := true, sndNxt := c.sndNxt + 1 } with state := state }
        (tcpXmit c { ack := true, fin := true } [] c.sndNxt) := fun state live =>
      ⟨⟨rfl, rfl, rfl⟩, fun _ => live, fun some_ => absurd rfl some_, fun _ => ⟨rfl, finishing state, place⟩, nofun, fun _ => ⟨rfl, rfl⟩⟩
    rcases state with open_ | half
    · simp only [armRto, open_]
      refine ⟨finishing .finWait1, (finishing .finWait1).pushed, trivial, trivial, trivial, fun s held => ?_⟩
      cases mem_singleton.mp held
      exact segment .finWait1 ⟨nofun, nofun⟩
    · simp only [armRto, half]
      refine ⟨finishing .lastAck, (finishing .lastAck).pushed, trivial, trivial, trivial, fun s held => ?_⟩
      cases mem_singleton.mp held
      exact segment .lastAck ⟨nofun, nofun⟩
  · exact ⟨here, pushed, rfl, rfl, rfl, nofun⟩

theorem output_flowing (now : Nat) (flowing : Flowing c) (state : c.state = .established ∨ c.state = .closeWait) :
    let r := tcpOutput now c
    Sending r.1 ∧ Pushed r.1 ∧ ∀ s ∈ r.2, SentBy r.1 s := by
  have spec := outputData_spec now (if c.sndWnd = 0 then 1 else c.sndWnd) flowing.room flowing.sent (Nat.sub_le _ _)
  obtain ⟨nxt, rto, retries, same⟩ := outputData_frame now (if c.sndWnd = 0 then 1 else c.sndWnd) c.tx.length (inFlight c) c
  have source : (∀ s, From c s → From (tcpOutput now c).1 s) ∧ (tcpOutput now c).1.state ≠ .closed ∧ (tcpOutput now c).1.state ≠ .listen := by
    obtain ⟨_, _, _, _, after, whole, move, _⟩ := output_frame now c
    rw [whole]
    refine ⟨fun _ => id, ?_⟩
    rcases move with equal | ⟨_, equal⟩ | ⟨_, equal⟩
    · rw [equal]
      rcases state with open_ | half
      · rw [open_]
        exact ⟨nofun, nofun⟩
      · rw [half]
        exact ⟨nofun, nofun⟩
    · rw [equal]
      exact ⟨nofun, nofun⟩
    · rw [equal]
      exact ⟨nofun, nofun⟩
  rw [tcpOutput_eq] at source ⊢
  generalize outputData now (if c.sndWnd = 0 then 1 else c.sndWnd) c.tx.length (inFlight c) c = d at spec same source ⊢
  obtain ⟨⟨_, timer⟩, upto, window, segments⟩ := spec
  have fields : d.1.tx = c.tx ∧ d.1.sndUna = c.sndUna ∧ d.1.sndWnd = c.sndWnd ∧ d.1.rcvNxt = c.rcvNxt ∧ d.1.state = c.state := by
    rw [same]
    exact ⟨rfl, rfl, rfl, rfl, rfl⟩
  obtain ⟨tx, una, wnd, rcv, kept⟩ := fields
  have later : Flowing d.1 := by
    refine ⟨⟨?_, ?_, ?_⟩, by rw [same]; exact flowing.fin, by rw [tx]; exact upto, fun other => ?_⟩
    · rw [same]
      exact flowing.suffix
    · rw [same]
      exact flowing.place
    · rw [same]
      exact flowing.room
    rcases timer with ⟨equal, old⟩ | armed
    · rw [old]
      refine flowing.timer fun none => other ?_
      rw [← inFlight_eq_zero, equal, inFlight_eq_zero]
      exact none
    · exact armed
  have pushed : Pushed d.1 := by
    intro _ less
    rw [tx] at less
    have full := window less
    rw [wnd]
    split at full <;> omega
  obtain ⟨sending, final, una', tx', rcv', fin⟩ := outputFin_spec now later (by rw [kept]; exact state) pushed
  refine ⟨sending, final, fun s held => ?_⟩
  rcases mem_append.mp held with data | last
  · obtain ⟨from_, carries, flags, ack⟩ := segments s data
    refine sentBy_data (source.1 s from_) source.2 ?_ flags (by rw [rcv', rcv, ack])
    unfold Carries
    rw [una', tx', tx, una]
    exact carries
  · exact fin s last

theorem Sending.quiet (sending : Sending c) (other : c.state ≠ .established ∧ c.state ≠ .closeWait) (live : c.state ≠ .closed ∧ c.state ≠ .listen) :
    c.tx.length ≤ inFlight c ∧ (c.finPending = false ∨ c.finSent = true) := by
  rcases sending.stage live.1 with ⟨state, _⟩ | ⟨_, opening⟩ | ⟨state, _⟩ | ⟨_, finishing⟩ | finished
  · exact absurd state live.2
  · exact ⟨by rw [opening.tx]; exact Nat.zero_le _, .inl opening.pending⟩
  · exact absurd state (not_or.mpr other)
  · exact ⟨by rw [finishing.sent]; exact Nat.le_succ _, .inr finishing.fin⟩
  · exact ⟨by rw [finished.tx]; exact Nat.zero_le _, .inr finished.fin⟩

theorem output_idle (sending : Sending c) (other : c.state ≠ .established ∧ c.state ≠ .closeWait) (live : c.state ≠ .closed ∧ c.state ≠ .listen) :
    tcpOutput now c = (c, []) := by
  obtain ⟨sent, fin⟩ := sending.quiet other live
  have none : ∀ wnd rounds, outputData now wnd rounds (inFlight c) c = (c, []) := by
    intro wnd rounds
    cases rounds with
    | zero => rfl
    | succ rounds => exact if_neg fun more => absurd more.1 (Nat.not_lt.mpr sent)
  have noFin : outputFin now c = (c, []) := by
    refine if_neg ?_
    rintro ⟨pending, unsent, _⟩
    rcases fin with not | set
    · rw [not] at pending
      cases pending
    · rw [set] at unsent
      cases unsent
  rw [tcpOutput_eq, none, noFin]
  rfl

end

structure Conn.Ok (c : Conn) : Prop where
  sending : Sending c
  pushed : Pushed c
  rx : c.rx.length ≤ rxBuf

def Good (r : Conn × List Segment) : Prop := r.1.Ok ∧ ∀ s ∈ r.2, SentBy r.1 s

section
variable {c : Conn} {s : Segment} {now : Nat}

theorem Conn.Ok.good (ok : c.Ok) : Good (c, []) := ⟨ok, nofun⟩

theorem ok_closed (state : c.state = .closed) (rx : c.rx.length ≤ rxBuf) : c.Ok := by
  refine ⟨?_, fun live => absurd state live, rx⟩
  simp only [Sending, state]

theorem connFree_ok (rx : c.rx.length ≤ rxBuf) : (connFree c).Ok := ok_closed rfl rx

theorem connClosed_ok (rx : c.rx.length ≤ rxBuf) : (connClosed c).Ok := by
  unfold connClosed
  split
  · exact connFree_ok rx
  · exact ok_closed rfl rx

theorem connAbort_good (rx : c.rx.length ≤ rxBuf) : Good (connAbort c) := by
  refine ⟨connFree_ok rx, fun s held => ?_⟩
  cases mem_singleton.mp held
  exact sentBy_bare ⟨rfl, rfl, rfl⟩ rfl rfl rfl

theorem output_good (sending : Sending c) (live : c.state ≠ .closed ∧ c.state ≠ .listen) (rx : c.rx.length ≤ rxBuf) :
    Good (tcpOutput now c) := by
  by_cases flows : c.state = .established ∨ c.state = .closeWait
  · have flowing : Flowing c := by
      rcases flows with state | state
      · simp only [Sending, state] at sending
        exact sending
      · simp only [Sending, state] at sending
        exact sending
    obtain ⟨kept, pushed, segments⟩ := output_flowing now flowing flows
    obtain ⟨_, _, _, _, _, same, _⟩ := output_frame now c
    exact ⟨⟨kept, pushed, by rw [same]; exact rx⟩, segments⟩
  · obtain ⟨first, second⟩ := not_or.mp flows
    obtain ⟨sent, _⟩ := sending.quiet ⟨first, second⟩ live
    rw [output_idle sending ⟨first, second⟩ live]
    exact Conn.Ok.good ⟨sending, fun _ less => absurd less (Nat.not_lt.mpr sent), rx⟩

theorem Sending.flowing (sending : Sending c) (state : c.state = .established ∨ c.state = .closeWait) : Flowing c := by
  rcases state with open_ | half
  · simp only [Sending, open_] at sending
    exact sending
  · simp only [Sending, half] at sending
    exact sending

theorem Flowing.to_sending (flowing : Flowing c) (state : c.state = .established ∨ c.state = .closeWait) : Sending c := by
  rcases state with open_ | half
  · simp only [Sending, open_]
    exact flowing
  · simp only [Sending, half]
    exact flowing

theorem Finishing.to_sending (finishing : Finishing c) (state : c.state = .finWait1 ∨ c.state = .closing ∨ c.state = .lastAck) : Sending c := by
  rcases state with first | both | last
  · simp only [Sending, first]
    exact finishing
  · simp only [Sending, both]
    exact finishing
  · simp only [Sending, last]
    exact finishing

theorem Finished.to_sending (finished : Finished c) (state : c.state = .finWait2 ∨ c.state = .timeWait) : Sending c := by
  rcases state with second | excess
  · simp only [Sending, second]
    exact finished
  · simp only [Sending, excess]
    exact finished

theorem live_of_flowing (state : c.state = .established ∨ c.state = .closeWait) : c.state ≠ .closed ∧ c.state ≠ .listen := by
  rcases state with open_ | half
  · rw [open_]
    exact ⟨nofun, nofun⟩
  · rw [half]
    exact ⟨nofun, nofun⟩

theorem write_good (now : Nat) (ok : c.Ok) (data : List UInt8) : Good ((tcpWrite now data c).1, (tcpWrite now data c).2.1) := by
  simp only [tcpWrite]
  split
  · exact ok.good
  next state =>
    have state : c.state = .established ∨ c.state = .closeWait := by
      by_contra other
      exact state (not_or.mp other)
    have flowing := ok.sending.flowing state
    obtain ⟨before, whole⟩ := flowing.suffix
    have longer : Flowing { c with tx := c.tx ++ data.take (txBuf - c.tx.length), written := c.written ++ data.take (txBuf - c.tx.length) } := by
      refine ⟨⟨⟨before, ?_⟩, ?_, ?_⟩, flowing.fin, ?_, flowing.timer⟩
      · rw [← whole, append_assoc]
      · simp only [length_append, Nat.add_sub_add_right]
        exact flowing.place
      · have room := flowing.room
        simp only [length_append, length_take]
        omega
      · have sent := flowing.sent
        simp only [length_append]
        exact Nat.le_add_right_of_le sent
    exact output_good (longer.to_sending state) (live_of_flowing state) ok.rx

theorem read_good (ok : c.Ok) (len : Nat) : Good ((tcpRead len c).1, (tcpRead len c).2.1) := by
  simp only [tcpRead]
  split
  · split
    · exact ok.good
    · exact ok.good
  · have same : SameSender c { c with rx := c.rx.drop len, delivered := c.delivered ++ c.rx.take len } :=
      ⟨rfl, rfl, rfl, rfl, rfl, rfl, id⟩
    refine ⟨⟨same.sending rfl rfl ok.sending, same.pushed rfl rfl ok.pushed, ?_⟩, ?_⟩
    · have rx := ok.rx
      simp only [length_drop]
      omega
    · intro s held
      dsimp only at held
      split at held
      · cases mem_singleton.mp held
        exact sentBy_bare ⟨rfl, rfl, rfl⟩ rfl rfl rfl
      · cases held

theorem close_good (now : Nat) (ok : c.Ok) : Good (startClose now c) := by
  simp only [startClose]
  split
  next state =>
    have flowing := ok.sending.flowing state
    have same : SameSender c { c with finPending := true } := ⟨rfl, rfl, rfl, rfl, rfl, rfl, id⟩
    have asked := same.flowing flowing
    exact output_good (asked.to_sending state) (live_of_flowing state) ok.rx
  · split
    · have closed : Conn.Ok { c with state := .closed } := ok_closed rfl ok.rx
      exact closed.good
    · exact ok.good

theorem opening_good {opened : Conn} (state : opened.state = .synSent ∨ opened.state = .synRcvd) (opening : Opening opened)
    (rx : opened.rx.length ≤ rxBuf) {segs : List Segment} (sent : ∀ s ∈ segs, SentBy opened s) : Good (opened, segs) := by
  refine ⟨⟨?_, .of_empty opening.tx, rx⟩, sent⟩
  rcases state with active | passive
  · simp only [Sending, active]
    exact opening
  · simp only [Sending, passive]
    exact opening

theorem sentBy_syn {flags : Flags} (fin : flags.fin = false) (state : c.state = .synSent ∨ c.state = .synRcvd) :
    SentBy c (tcpXmit c flags [] c.iss) := by
  have nothing : ¬((tcpXmit c flags [] c.iss).data ≠ [] ∨ (tcpXmit c flags [] c.iss).flags.fin = true) := by
    rintro (more | set)
    · exact more rfl
    · rw [show (tcpXmit c flags [] c.iss).flags.fin = flags.fin from rfl, fin] at set
      cases set
  exact ⟨⟨rfl, rfl, rfl⟩, fun some_ => absurd some_ nothing, fun some_ => absurd rfl some_, fun set => absurd (.inr set) nothing,
    fun _ => ⟨state, rfl, rfl, fin⟩, fun some_ => absurd some_ nothing⟩

structure Fresh (c : Conn) : Prop where
  state : c.state = .closed
  una : c.sndUna = c.sndNxt
  tx : c.tx = []
  rx : c.rx = []
  written : c.written = []
  pending : c.finPending = false
  fin : c.finSent = false

theorem connect_good (fresh : Fresh c) (now : Nat) (leaves : Bool) (iss : Seq) (port : Nat) (ip : BitVec 32) (dport : Nat) :
    Good (startConnect now leaves iss port ip dport c) := by
  simp only [startConnect]
  apply opening_good
  · exact .inl rfl
  · refine ⟨rfl, rfl, fresh.tx, fresh.written, fresh.pending, fresh.fin, ?_⟩
    simp only [armRto, rtoTicks]
    omega
  · simp only [armRto, fresh.rx]
    exact Nat.zero_le _
  · intro s held
    cases mem_singleton.mp held
    exact sentBy_syn rfl (.inl rfl)

theorem child_good (fresh : Fresh c) (now : Nat) (iss : Seq) (l : Fin maxConn) (s : Segment) : Good (childOf now iss l s c) := by
  simp only [childOf]
  apply opening_good
  · exact .inr rfl
  · refine ⟨rfl, rfl, fresh.tx, fresh.written, fresh.pending, fresh.fin, ?_⟩
    simp only [armRto, rtoTicks]
    omega
  · simp only [armRto, fresh.rx]
    exact Nat.zero_le _
  · intro s held
    cases mem_singleton.mp held
    exact sentBy_syn rfl (.inr rfl)

end
end SecOS.Tcp
