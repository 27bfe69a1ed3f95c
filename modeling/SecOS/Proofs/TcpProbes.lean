import SecOS.Proofs.TcpBlocks
import SecOS.Proofs.TcpDuplicates

/-! A window that stays closed. An acknowledgement of nothing new does not touch the counter of
retransmissions, so every probe that is due counts, answered or not, and the connection is
given up after as many of them as for a peer that is gone. -/

namespace SecOS.Tcp
open Library List

/-- The answer to a window probe: nothing new is acknowledged, and there is still no room. -/
def closedWindow (c : Conn) (seq : Seq) : Segment := ⟨c.remoteIp, c.remotePort, c.localPort, seq, c.sndUna, { ack := true }, 0, []⟩

def answered (now : Nat) (seq : Seq) (c : Conn) : Conn := (connInput now c (closedWindow c seq)).1

/-- A tick, and the answer of the peer some time later. -/
structure Round where
  tick : Nat
  answer : Nat
  seq : Seq

def probeRound (c : Conn) (r : Round) : Conn :=
  let c := (connTick r.tick true c).1
  if c.state = .closed then c else answered r.answer r.seq c

/-- The timer of retransmissions runs, for something that is in flight. -/
def Armed (c : Conn) : Prop :=
  c.used = true ∧ c.state ≠ .timeWait ∧ c.state ≠ .closed ∧ ¬(c.state = .synSent ∧ c.synUnsent = true) ∧
    c.rtoDeadline ≠ 0 ∧ c.sndUna ≠ c.sndNxt

/-- Nobody owns the connection any more, and it has had its time. -/
def Expired (now : Nat) (c : Conn) : Prop := c.orphan = true ∧ c.orphanDeadline ≤ now

/-- The timer has run out. -/
def Due (now : Nat) (c : Conn) : Prop := Armed c ∧ ¬Expired now c ∧ c.rtoDeadline ≤ now

instance (now : Nat) (c : Conn) : Decidable (Expired now c) := inferInstanceAs (Decidable (_ ∧ _))

instance (now : Nat) (c : Conn) : Decidable (Due now c) := inferInstanceAs (Decidable ((_ ∧ _) ∧ _))

/-- The time from the `k`-th retransmission to the next one. -/
def backoff (k : Nat) : Nat := rtoTicks * 2 ^ (if k < 4 then k else 4)

/-- The first time is not before the deadline, and every other one not before the time that
follows `k` and more retransmissions is over. -/
def Spaced : Nat → Nat → List Nat → Prop
  | _, _, [] => True
  | k, deadline, t :: rest => deadline ≤ t ∧ Spaced (k + 1) (t + backoff (k + 1)) rest

/-- Among the ticks are so many, far enough apart, that the retransmissions from now on are more
than `maxRetx` with those there have been. -/
def GivesUp (c : Conn) (ticks : List Nat) : Prop :=
  Armed c ∧ ∃ times, times <+ ticks ∧ maxRetx < c.retries + times.length ∧ Spaced c.retries c.rtoDeadline times ∧
    (c.orphan = true → ∀ t ∈ times, t < c.orphanDeadline)

def Conn.resent (now : Nat) (c : Conn) : Conn :=
  { c with retries := c.retries + 1, rtoDeadline := now + backoff (c.retries + 1) }

section
variable {c : Conn} {k t deadline : Nat} {ticks : List Nat}

theorem Spaced.sooner {sooner : Nat} (less : sooner ≤ deadline) : ∀ {times : List Nat}, Spaced k deadline times → Spaced k sooner times
  | [], _ => trivial
  | _ :: _, spaced => ⟨Nat.le_trans less spaced.1, spaced.2⟩

/-- The first of the times is one of the ticks, and so none of them is before the first tick. -/
theorem later_of_sublist {times : List Nat} (first : ∀ u ∈ ticks, t ≤ u) (among : times <+ t :: ticks) : ∀ u ∈ times, t ≤ u := by
  intro u member
  obtain rfl | later := mem_cons.mp (among.subset member)
  · exact Nat.le_refl u
  · exact first u later

theorem GivesUp.some_time (few : c.retries ≤ maxRetx) (gives : GivesUp c ticks) : ∃ u more, u :: more <+ ticks ∧
    maxRetx < c.retries + 1 + more.length ∧ c.rtoDeadline ≤ u ∧ Spaced (c.retries + 1) (u + backoff (c.retries + 1)) more ∧
    (c.orphan = true → ∀ v ∈ u :: more, v < c.orphanDeadline) := by
  obtain ⟨_, times, among, many, spaced, owned⟩ := gives
  cases times with
  | nil =>
    rw [length_nil] at many
    omega
  | cons u more =>
    rw [length_cons] at many
    exact ⟨u, more, among, by omega, spaced.1, spaced.2, owned⟩

theorem not_givesUp_nil (few : c.retries ≤ maxRetx) : ¬GivesUp c [] := by
  intro gives
  obtain ⟨u, more, among, _⟩ := gives.some_time few
  exact nomatch among

/-- A tick that finds an orphan past its time ends it. -/
theorem not_givesUp_expired (few : c.retries ≤ maxRetx) (expired : Expired t c) (first : ∀ u ∈ ticks, t ≤ u) : ¬GivesUp c (t :: ticks) := by
  intro gives
  obtain ⟨u, more, among, _, _, _, owned⟩ := gives.some_time few
  have after := later_of_sublist first among u mem_cons_self
  have before := owned expired.1 u mem_cons_self
  have late := expired.2
  omega

theorem givesUp_early (few : c.retries ≤ maxRetx) (early : t < c.rtoDeadline) : GivesUp c (t :: ticks) ↔ GivesUp c ticks := by
  constructor
  · intro gives
    obtain ⟨u, more, among, many, reached, spaced, owned⟩ := gives.some_time few
    refine ⟨gives.1, u :: more, ?_, by rw [length_cons]; omega, ⟨reached, spaced⟩, owned⟩
    cases among with
    | cons _ rest => exact rest
    | cons_cons _ _ => omega
  · rintro ⟨armed, times, among, rest⟩
    exact ⟨armed, times, among.cons t, rest⟩

/-- The tick itself may as well be the first of the times: the deadline after it is the soonest. -/
theorem givesUp_due (few : c.retries ≤ maxRetx) (due : Due t c) (first : ∀ u ∈ ticks, t ≤ u) :
    GivesUp c (t :: ticks) ↔ GivesUp (c.resent t) ticks := by
  obtain ⟨armed, fresh, reached⟩ := due
  have still : Armed (c.resent t) := by
    obtain ⟨used, wait, closed, unsent, _, flight⟩ := armed
    refine ⟨used, wait, closed, unsent, ?_, flight⟩
    have positive : 0 < backoff (c.retries + 1) := Nat.mul_pos (by decide) (Nat.two_pow_pos _)
    exact Nat.ne_of_gt (Nat.add_pos_right t positive)
  constructor
  · intro gives
    obtain ⟨u, more, among, many, _, spaced, owned⟩ := gives.some_time few
    have after := later_of_sublist first among u mem_cons_self
    refine ⟨still, more, ?_, many, spaced.sooner (Nat.add_le_add_right after _), fun orphan v member => owned orphan v (mem_cons_of_mem _ member)⟩
    exact among.tail
  · rintro ⟨_, times, among, many, spaced, owned⟩
    refine ⟨armed, t :: times, among.cons_cons t, ?_, ⟨reached, spaced⟩, fun orphan => ?_⟩
    · have count : maxRetx < c.retries + 1 + times.length := many
      rw [length_cons]
      omega
    · refine forall_mem_cons.mpr ⟨?_, owned orphan⟩
      exact Nat.lt_of_not_le fun late => fresh ⟨orphan, late⟩

end

/-- With a window of 0 there is nothing to send before something is acknowledged. -/
structure Settled (c : Conn) : Prop where
  connected : c.state ≠ .synSent
  data : c.tx.length ≤ inFlight c ∨ 1 ≤ inFlight c
  fin : ¬(c.finPending ∧ !c.finSent ∧ inFlight c = c.tx.length)

section
variable {c : Conn}

theorem outputFin_done (now : Nat) (c : Conn) :
    let c' := (outputFin now c).1
    ¬(c'.finPending ∧ !c'.finSent ∧ inFlight c' = c'.tx.length) := by
  unfold outputFin
  split
  · exact fun again => Bool.false_ne_true again.2.1
  next idle => exact idle

theorem answered_eq (connected : c.state ≠ .synSent) (now : Nat) (seq : Seq) :
    answered now seq c = (tcpOutput now { c with sndWnd := 0 }).1 := by
  have older : seqGt c.sndUna c.sndUna = false := by simp [seqGt]
  simp [answered, connInput, closedWindow, connected, inputAck, older, inputData, inputFin]

theorem Settled.output (settled : Settled c) (closed : c.sndWnd = 0) (now : Nat) : (tcpOutput now c).1 = c := by
  rw [tcpOutput_eq, if_pos closed, outputData_idle settled.data]
  exact congrArg Prod.fst (if_neg settled.fin)

theorem Settled.answered_eq (settled : Settled c) (now : Nat) (seq : Seq) : answered now seq c = { c with sndWnd := 0 } :=
  (Tcp.answered_eq settled.connected now seq).trans (Settled.output (c := { c with sndWnd := 0 }) ⟨settled.1, settled.2, settled.3⟩ rfl now)

theorem answered_settled (ok : c.Ok) (live : Synchronized c) (now : Nat) (seq : Seq) : Settled (answered now seq c) := by
  have same : SameSender c { c with sndWnd := 0 } := ⟨rfl, rfl, rfl, rfl, rfl, rfl, id⟩
  have good : Good (tcpOutput now { c with sndWnd := 0 }) := output_good (same.sending rfl rfl ok.sending) ⟨live.1, live.2.1⟩ ok.rx
  obtain ⟨_, _, _, _, state, is, next, _⟩ := output_frame now { c with sndWnd := 0 }
  have open_ : state ≠ .closed ∧ state ≠ .synSent := by
    rcases next with rfl | ⟨_, rfl⟩ | ⟨_, rfl⟩
    · exact ⟨live.1, live.2.2⟩
    · decide
    · decide
  rw [answered_eq live.2.2]
  refine ⟨by rw [is]; exact open_.2, Nat.lt_or_ge .. |>.symm.imp_right fun less => ?_, ?_⟩
  · exact le_of_max_le_left (good.1.pushed (by rw [is]; exact open_.1) less)
  · rw [tcpOutput_eq]
    exact outputFin_done now _

theorem connClosed_reset (c : Conn) : (connClosed c).reset = c.reset := by
  unfold connClosed
  split
  · rfl
  · rfl

theorem tick_armed (armed : Armed c) (now : Nat) (leaves : Bool) : (connTick now leaves c).1 =
    if Expired now c then connFree c else if now < c.rtoDeadline then c
    else if maxRetx < c.retries + 1 then connClosed { c with retries := c.retries + 1, reset := true } else c.resent now := by
  obtain ⟨used, wait, closed, unsent, set, flight⟩ := armed
  have gone : (c.orphan ∧ (c.state = .closed ∨ now ≥ c.orphanDeadline)) ↔ Expired now c := by
    rw [or_iff_right closed]
    rfl
  unfold connTick
  rw [if_neg (by simp [used]), if_neg wait]
  simp only [gone]
  split
  · rfl
  · by_cases early : now < c.rtoDeadline
    · rw [if_pos early, if_neg (by omega)]
    · rw [if_neg early, if_pos ⟨set, Nat.not_lt.mp early, flight⟩]
      split
      · rfl
      · rfl

/-- What happens to the timer: it stays, it stops, or it starts anew. -/
def Timer (c c' : Conn) : Prop := (c'.rtoDeadline = c.rtoDeadline ∧ c'.retries = c.retries) ∨ c'.rtoDeadline = 0 ∨ c'.retries = 0

theorem connClosed_timer (c : Conn) : Timer c (connClosed c) := by
  unfold connClosed
  split
  · exact .inl ⟨rfl, rfl⟩
  · exact .inl ⟨rfl, rfl⟩

theorem tick_unarmed (unarmed : ¬Armed c) (now : Nat) (leaves : Bool) :
    let c' := (connTick now leaves c).1
    c'.reset = c.reset ∧ Timer c c' ∧ (c' = c ∨ c'.state = .closed ∨ c.state = .synSent) := by
  have stays : c.reset = c.reset ∧ Timer c c ∧ (c = c ∨ c.state = .closed ∨ c.state = .synSent) := ⟨rfl, .inl ⟨rfl, rfl⟩, .inl rfl⟩
  unfold connTick
  split
  · exact stays
  next used =>
  split
  · dsimp only
    split
    · exact ⟨connClosed_reset c, connClosed_timer c, .inr (.inl (connClosed_state c))⟩
    · exact stays
  next wait =>
  split
  · exact ⟨rfl, .inl ⟨rfl, rfl⟩, .inr (.inl rfl)⟩
  split
  · exact stays
  next closed =>
  split
  next unsent =>
    split
    · dsimp only
      split
      · exact ⟨rfl, .inr (.inr rfl), .inr (.inr unsent.1)⟩
      · exact ⟨rfl, .inl ⟨rfl, rfl⟩, .inr (.inr unsent.1)⟩
    · exact stays
  next sent =>
  rw [if_neg]
  · exact stays
  · rintro ⟨set, _, flight⟩
    exact unarmed ⟨by simpa using used, wait, closed, sent, set, flight⟩

theorem closed_stays (closed : c.state = .closed) (rounds : List Round) : (rounds.foldl probeRound c).reset = c.reset := by
  induction rounds generalizing c with
  | nil => rfl
  | cons r rest ih =>
    obtain ⟨reset, _, after⟩ := tick_unarmed (fun armed => armed.2.2.1 closed) r.tick true
    have still : (connTick r.tick true c).1.state = .closed := by
      rcases after with same | done | opening
      · rw [same, closed]
      · exact done
      · rw [closed] at opening
        cases opening
    have next : probeRound c r = (connTick r.tick true c).1 := if_pos still
    rw [foldl_cons, next, ih still, reset]

/-- Whether the peer answers makes no difference: what counts is how the ticks fall. -/
theorem Settled.reset_iff (settled : Settled c) (alive : c.reset = false) (few : c.retries ≤ maxRetx) (rounds : List Round)
    (ordered : (rounds.map Round.tick).Pairwise (· ≤ ·)) :
    (rounds.foldl probeRound c).reset = false ↔ ¬GivesUp c (rounds.map Round.tick) := by
  induction rounds generalizing c with
  | nil => exact ⟨fun _ => not_givesUp_nil few, fun _ => alive⟩
  | cons r rest ih =>
    rw [foldl_cons, map_cons]
    rw [map_cons, pairwise_cons] at ordered
    obtain ⟨first, ordered⟩ := ordered
    have shut {c' : Conn} (is : (connTick r.tick true c).1 = c') (closed : c'.state = .closed) :
        (rest.foldl probeRound (probeRound c r)).reset = c'.reset := by
      rw [probeRound, is, if_pos closed]
      exact closed_stays closed rest
    have open_ {c' : Conn} (is : (connTick r.tick true c).1 = c') (live : c'.state ≠ .closed) (still : Settled c') :
        probeRound c r = { c' with sndWnd := 0 } := by
      rw [probeRound, is, if_neg live, still.answered_eq]
    by_cases armed : Armed c
    · have is := tick_armed armed r.tick true
      by_cases expired : Expired r.tick c
      · rw [if_pos expired] at is
        rw [shut is rfl]
        exact ⟨fun _ => not_givesUp_expired few expired first, fun _ => alive⟩
      rw [if_neg expired] at is
      by_cases early : r.tick < c.rtoDeadline
      · rw [if_pos early] at is
        rw [open_ is armed.2.2.1 settled, givesUp_early few early]
        exact ih (c := { c with sndWnd := 0 }) ⟨settled.1, settled.2, settled.3⟩ alive few ordered
      rw [if_neg early] at is
      have due : Due r.tick c := ⟨armed, expired, Nat.not_lt.mp early⟩
      by_cases last : maxRetx < c.retries + 1
      · rw [if_pos last] at is
        rw [shut is (connClosed_state _), connClosed_reset]
        refine ⟨nofun, fun lives => absurd ?_ lives⟩
        refine ⟨armed, [r.tick], singleton_sublist.mpr mem_cons_self, last, ⟨due.2.2, trivial⟩, fun orphan => ?_⟩
        rw [forall_mem_singleton]
        exact Nat.lt_of_not_le fun late => expired ⟨orphan, late⟩
      · rw [if_neg last] at is
        have sent : Settled (c.resent r.tick) := ⟨settled.1, settled.2, settled.3⟩
        rw [open_ is armed.2.2.1 sent, givesUp_due few due first]
        exact ih (c := { c.resent r.tick with sndWnd := 0 }) ⟨sent.1, sent.2, sent.3⟩ alive (Nat.not_lt.mp last) ordered
    · have never : ∀ ticks, ¬GivesUp c ticks := fun _ gives => armed gives.1
      obtain ⟨reset, _, after⟩ := tick_unarmed armed r.tick true
      refine iff_of_true ?_ (never _)
      by_cases closed : (connTick r.tick true c).1.state = .closed
      · rw [shut rfl closed, reset, alive]
      · have same : (connTick r.tick true c).1 = c := (after.resolve_right fun other => other.elim closed settled.connected)
        rw [same] at closed
        rw [open_ same closed settled]
        exact (ih (c := { c with sndWnd := 0 }) ⟨settled.1, settled.2, settled.3⟩ alive few ordered).mpr fun gives => armed gives.1

end

/-! The other half: a connection is given up only after `maxRetx` retransmissions without any
segment in between, if a segment that comes after a retransmission acknowledges something. -/

/-- The retransmissions since a segment came, after `n` of them. -/
def unanswered : Conn → Nat → List Turning → Nat
  | _, n, [] => n
  | c, n, t :: rest =>
    unanswered (c.turn t) (match t with | .input _ _ => 0 | .tick now _ => if Due now c then n + 1 else n | _ => n) rest

/-- A segment comes when nothing is in flight, or before the first retransmission of what is, or it acknowledges some of it. -/
def Restarting (c : Conn) : Turning → Prop
  | .input _ s => c.rtoDeadline = 0 ∨ c.retries = 0 ∨ Synchronized c ∧ s.flags.rst = false ∧ Advances c s
  | _ => True

section
variable {c d e : Conn} {n now : Nat}

theorem Timer.refl (c : Conn) : Timer c c := .inl ⟨rfl, rfl⟩

theorem Timer.trans (first : Timer c d) (second : Timer d e) : Timer c e := by
  unfold Timer at *
  omega

theorem outputFin_timer (now : Nat) (c : Conn) : Timer c (outputFin now c).1 := by
  unfold outputFin
  split
  · exact .inr (.inr rfl)
  · exact .refl c

theorem output_timer (now : Nat) (c : Conn) : Timer c (tcpOutput now c).1 := by
  have data (wnd rounds off : Nat) (c : Conn) : Timer c (outputData now wnd rounds off c).1 := by
    induction rounds generalizing off c with
    | zero => exact .refl c
    | succ rounds ih =>
      rw [outputData]
      split
      · refine Timer.trans (d := armRto now { c with sndNxt := _ }) (.inr (.inr rfl)) (ih _ _)
      · exact .refl c
  rw [tcpOutput_eq]
  exact (data (if c.sndWnd = 0 then 1 else c.sndWnd) c.tx.length (inFlight c) c).trans (outputFin_timer now _)

/-- An acknowledgement of something stops the timer or starts it anew. -/
theorem applyAck_timer (now : Nat) (c : Conn) (ack : Seq) : (applyAck now c ack).rtoDeadline = 0 ∨ (applyAck now c ack).retries = 0 := by
  unfold applyAck
  dsimp only
  split
  · exact .inl rfl
  · exact .inr rfl

theorem inputAck_timer (now : Nat) (c : Conn) (s : Segment) : Timer c (inputAck now c s).1 ∧
    (Advances c s → (inputAck now c s).1.rtoDeadline = 0 ∨ (inputAck now c s).1.retries = 0) := by
  have anew := applyAck_timer now c s.ack
  have shut := connClosed_timer (applyAck now c s.ack)
  unfold inputAck
  split
  · have stopped (d : Conn) (either : d.rtoDeadline = 0 ∨ d.retries = 0) :
        Timer c d ∧ (Advances c s → d.rtoDeadline = 0 ∨ d.retries = 0) :=
      ⟨.inr either, fun _ => either⟩
    dsimp only
    split
    · exact stopped _ anew
    · apply stopped
      split <;> exact anew
    · apply stopped
      split <;> exact anew
    · split
      · apply stopped
        unfold Timer at shut
        dsimp only
        omega
      · exact stopped _ anew
    · exact stopped _ anew
  next missed => exact ⟨.refl c, fun met => absurd met missed⟩

/-- What follows an acknowledgement. -/
theorem received_timer (now : Nat) (c : Conn) (s : Segment) :
    Timer c (connAbort c).1 ∧ Timer c (tcpOutput now (inputFin now (inputData c s).1 s).1).1 := by
  refine ⟨.inl ⟨rfl, rfl⟩, Timer.trans ?_ (output_timer now _)⟩
  obtain ⟨⟨rx, rcv, same, _⟩, _⟩ := inputData_frame c s
  rw [same]
  rcases inputFin_cases now { c with rx := rx, rcvNxt := rcv } s with none | ⟨_, _, _, _, _, fin, _⟩
  · rw [none]
    exact .inl ⟨rfl, rfl⟩
  · rw [fin]
    exact .inl ⟨rfl, rfl⟩

theorem input_timer (now : Nat) (c : Conn) (s : Segment) : Timer c (connInput now c s).1 := by
  unfold connInput
  split
  · rcases inputRst_cases c s with is | is | is
    · rw [is]
      exact Timer.trans (d := { c with reset := true }) (.refl c) (connClosed_timer _)
    · rw [is]
      exact .refl c
    · rw [is]
      exact .refl c
  dsimp only
  split
  · rcases inputSynSent_cases now { c with sndWnd := s.wnd } s with is | ⟨_, _, _, _, _, is⟩ | ⟨_, is⟩
    · rw [is]
      exact .inl ⟨rfl, rfl⟩
    · rw [is]
      exact .inr (.inl rfl)
    · rw [is]
      exact .inr (.inr rfl)
  have acked : Timer c (inputAck now { c with sndWnd := s.wnd } s).1 := (inputAck_timer now { c with sndWnd := s.wnd } s).1
  obtain ⟨aborted, rest⟩ := received_timer now (inputAck now { c with sndWnd := s.wnd } s).1 s
  split
  · exact acked
  split
  · exact acked.trans aborted
  · exact acked.trans rest

theorem input_advances (now : Nat) {s : Segment} (live : Synchronized c) (rst : s.flags.rst = false) (met : Advances c s) :
    (connInput now c s).1.rtoDeadline = 0 ∨ (connInput now c s).1.retries = 0 := by
  have acked := (inputAck_timer now { c with sndWnd := s.wnd } s).2 met
  obtain ⟨aborted, rest⟩ := received_timer now (inputAck now { c with sndWnd := s.wnd } s).1 s
  unfold connInput
  rw [if_neg (by simp [rst])]
  dsimp only
  rw [if_neg live.2.2]
  unfold Timer at aborted rest
  split
  · exact acked
  split
  · omega
  · dsimp only
    omega

/-- The counter says no more than the retransmissions since a segment came. -/
def Counted (n : Nat) (c : Conn) : Prop := c.rtoDeadline = 0 ∨ c.retries ≤ n

theorem Counted.timer (counted : Counted n c) (timer : Timer c c') : Counted n c' := by
  unfold Counted Timer at *
  omega

theorem tick_counted (leaves : Bool) (counted : Counted n c) :
    Counted (if Due now c then n + 1 else n) (connTick now leaves c).1 := by
  by_cases armed : Armed c
  · have upto : c.retries ≤ n := counted.resolve_left armed.2.2.2.2.1
    rw [tick_armed armed]
    by_cases expired : Expired now c
    · rw [if_pos expired, if_neg fun due => due.2.1 expired]
      exact .inr upto
    rw [if_neg expired]
    by_cases early : now < c.rtoDeadline
    · rw [if_pos early, if_neg fun due => Nat.not_le_of_lt early due.2.2]
      exact counted
    rw [if_neg early, if_pos ⟨armed, expired, Nat.not_lt.mp early⟩]
    split
    · refine Counted.timer (c := { c with retries := c.retries + 1, reset := true }) (.inr ?_) (connClosed_timer _)
      exact Nat.succ_le_succ upto
    · exact .inr (Nat.succ_le_succ upto)
  · rw [if_neg fun due => armed due.1]
    exact counted.timer (tick_unarmed armed now leaves).2.1

theorem close_timer (now : Nat) (c : Conn) : Timer c (startClose now c).1 := by
  unfold startClose
  split
  · exact Timer.trans (d := { c with finPending := true }) (.refl c) (output_timer now _)
  split
  · exact .inl ⟨rfl, rfl⟩
  · exact .refl c

theorem unanswered_counted {turns : List Turning} : ∀ {c : Conn} {n : Nat}, Counted n c → Permitted Conn.turn Restarting c turns →
    Counted (unanswered c n turns) (turns.foldl Conn.turn c) := by
  induction turns with
  | nil => exact fun counted _ => counted
  | cons t rest ih =>
    rintro c n counted ⟨restarts, later⟩
    refine ih ?_ later
    cases t with
    | input now s =>
      have before : (c.rtoDeadline = 0 ∨ c.retries = 0) ∨ Synchronized c ∧ s.flags.rst = false ∧ Advances c s := or_assoc.mpr restarts
      simp only [Conn.turn]
      split
      next away =>
        obtain idle | ⟨live, _⟩ := before
        · exact idle.imp_right Nat.le_of_eq
        · exact absurd away (not_or.mpr ⟨live.1, live.2.1⟩)
      · obtain idle | ⟨live, rst, advances⟩ := before
        · exact Counted.timer (idle.imp_right Nat.le_of_eq) (input_timer now c s)
        · exact (input_advances now live rst advances).imp_right Nat.le_of_eq
    | write now data =>
      simp only [Conn.turn, tcpWrite]
      split
      · exact counted
      · exact Counted.timer (c := { c with tx := _, written := _ }) counted (output_timer now _)
    | read len =>
      simp only [Conn.turn, tcpRead]
      split
      · split <;> exact counted
      · exact counted
    | accept => exact counted
    | close now => exact counted.timer (close_timer now c)
    | release now => exact Counted.timer (c := { c with orphan := true, orphanDeadline := now + orphanTicks }) counted (close_timer now _)
    | tick now leaves => exact tick_counted leaves counted

/-- A tick that resets a connection finds the timer run out and the counter at its limit. -/
theorem tick_resets (leaves : Bool) (alive : c.reset = false) (reset : (connTick now leaves c).1.reset = true) :
    c.rtoDeadline ≠ 0 ∧ maxRetx ≤ c.retries := by
  by_cases armed : Armed c
  · refine ⟨armed.2.2.2.2.1, ?_⟩
    rw [tick_armed armed] at reset
    split at reset
    · rw [connFree, alive] at reset
      cases reset
    split at reset
    · rw [alive] at reset
      cases reset
    split at reset
    next last => exact Nat.le_of_lt_succ last
    · rw [Conn.resent, alive] at reset
      cases reset
  · rw [(tick_unarmed armed now leaves).1, alive] at reset
    cases reset

end

/-- A connection whose peer keeps its window closed from some answer on, for any rounds of
ticks and answers: it is reset unless the ticks are too few or too close. And a connection whose
peer answers every retransmission by acknowledging something, if it answers at all, is given up
only after `maxRetx` retransmissions during which no segment came. -/
theorem closed_window_resets_iff (calls : List Call) (i : Fin maxConn) (now : Nat) (seq : Seq) (rounds : List Round)
    (live : Synchronized ((afterCalls calls).1.conns i)) (ordered : (rounds.map Round.tick).Pairwise (· ≤ ·)) :
    (let c := answered now seq ((afterCalls calls).1.conns i)
    c.reset = false → c.retries ≤ maxRetx →
      ((rounds.foldl probeRound c).reset = false ↔ ¬GivesUp c (rounds.map Round.tick))) ∧
    ∀ (c : Conn) (turns : List Turning) (later : Nat) (leaves : Bool), c.retries = 0 → Permitted Conn.turn Restarting c turns →
      (turns.foldl Conn.turn c).reset = false → ((turns.foldl Conn.turn c).turn (.tick later leaves)).reset = true →
        maxRetx ≤ unanswered c 0 turns := by
  refine ⟨fun alive few => ?_, fun c turns later leaves fresh restarting alive reset => ?_⟩
  · exact (answered_settled ((afterCalls_sound calls).blocks i) live now seq).reset_iff alive few rounds ordered
  · have counted : Counted (unanswered c 0 turns) (turns.foldl Conn.turn c) :=
      unanswered_counted (.inr (Nat.le_of_eq fresh)) restarting
    obtain ⟨set, limit⟩ := tick_resets leaves alive reset
    exact Nat.le_trans limit (counted.resolve_left set)

/-- One byte in flight, and the window closed. -/
def closedConn : Conn := answered 0 101 ((afterCalls (handshake ++ [.write 0 1 [7]])).1.conns 1)

/-- A tick every ten seconds, answered at once. -/
def slowRounds (n : Nat) : List Round := (List.range n).map fun k => ⟨10000 * (k + 1), 10000 * (k + 1), 101⟩

def silentTicks (n : Nat) : List Turning := (List.range n).map fun k => .tick (10000 * (k + 1)) true

theorem six_probes_pass : ((slowRounds 6).foldl probeRound closedConn).reset = false ∧ maxRetx ≤ unanswered closedConn 0 (silentTicks 6) := by
  obtain ⟨answers, silence⟩ := closed_window_resets_iff (handshake ++ [.write 0 1 [7]]) 1 0 101 (slowRounds 6)
    (by unfold Synchronized; decide +kernel) (by decide +kernel)
  refine ⟨(answers (by decide +kernel) (by decide +kernel)).mpr ?_, ?_⟩
  · rintro ⟨_, times, among, many, _⟩
    have upto : times.length ≤ 6 := among.length_le
    have none_yet : closedConn.retries = 0 := by decide +kernel
    change maxRetx < closedConn.retries + times.length at many
    rw [none_yet, maxRetx] at many
    omega
  · exact silence closedConn (silentTicks 6) 70000 true (by decide +kernel)
      (permitted_of_forall fun t member s => by
        obtain ⟨k, _, rfl⟩ := mem_map.mp member
        exact trivial)
      (by decide +kernel) (by decide +kernel)

/-- The ticks and the answers of `slowRounds`, one after the other. -/
def slowTurns (n : Nat) : List Turning :=
  (List.range n).flatMap fun k => [.tick (10000 * (k + 1)) true, .input (10000 * (k + 1)) (closedWindow closedConn 101)]

/-- The seventh tick resets the connection, with every probe before it answered. -/
theorem seventh_probe_resets : ((slowRounds 7).foldl probeRound closedConn).reset = true ∧
    ((slowTurns 6).foldl Conn.turn closedConn).reset = false ∧
    (((slowTurns 6).foldl Conn.turn closedConn).turn (.tick 70000 true)).reset = true ∧
    unanswered closedConn 0 (slowTurns 6) = 0 := by decide +kernel

end SecOS.Tcp
