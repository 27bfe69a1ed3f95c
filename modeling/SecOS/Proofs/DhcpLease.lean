import SecOS.Dhcp
import SecOS.Library.Schedule

/-! Where the configuration of an interface comes from. An observer notes what an exchange started
from, the message that was sent last and the replies that came after it. -/

namespace SecOS.Dhcp
open Library Function List

def requestOption (acc : UInt8 × UInt32 × UInt32) (code : UInt8) (v : List UInt8) : UInt8 × UInt32 × UInt32 :=
  if code = optMsgType then (v.getD 0 0, acc.2)
  else if code = optReqIp then (acc.1, rd32be v 0, acc.2.2)
  else if code = optServerId then (acc.1, acc.2.1, rd32be v 0)
  else acc

def named (p : Packet) : Option (UInt32 × UInt32) :=
  let acc := options requestOption p.length (p.drop 240) (0, 0, 0)
  if acc.1 = request then some acc.2 else none

/-- The state in which the exchange started, the address and server of the REQUEST if that
was the last message, and the replies since. -/
structure Seen where
  before : State
  request : Option (UInt32 × UInt32)
  heard : List Reply

def Seen.hears (w : Seen) (s : State) : Action → Seen
  | .start (some _) now _ _ => if refuses s now then w else ⟨takenOver s, none, []⟩
  | .datagram data =>
    match if s.port then reply s.st.xid data else none with
    | none => w
    | some r => { w with heard := w.heard ++ [r] }
  | _ => w

def Seen.sees (w : Seen) : List Packet → Seen
  | [] => w
  | p :: _ => { w with request := named p, heard := [] }

def watch (x : State × Seen) (a : Action) : State × Seen :=
  (step x.1 a, (x.2.hears x.1 a).sees ((step x.1 a).sent.drop x.1.sent.length))

/-- Every interface and every answer about a lease is as it was. -/
def Same (before s : State) : Prop := s.conf = before.conf ∧ ∀ dev, dhcpHasLease s dev = dhcpHasLease before dev

def Takes (s : State) (a : Action) : Prop := ∃ dev now sending binds, a = .start (some dev) now sending binds ∧ s.busy ∧ ¬refuses s now

/-- An interface that becomes bound has the configuration of one ACK that came after the
REQUEST and is for the address and the server of the REQUEST; an exchange that fails or is
taken over leaves everything as it was. -/
structure Kept (x : State × Seen) (a : Action) : Prop where
  bound : x.1.phase ≠ .bound → (step x.1 a).phase = .bound → ∃ dev r, x.1.dev = some dev ∧ r ∈ x.2.heard ∧ r.msg = ack ∧
    x.2.request = some (r.yiaddr, r.serverId) ∧ (step x.1 a).conf dev = r.conf
  failed : (step x.1 a).phase = .failed → Same (watch x a).2.before (step x.1 a)
  taken : Takes x.1 a → Same x.2.before (takenOver x.1)

/-- A poll of the exchange finds that an ACK has come for its REQUEST. -/
def Binds (s : State) (a : Action) : Prop :=
  ∃ nic now sending, a = .poll nic now sending ∧ (nic = none ∨ nic = s.dev) ∧ s.phase = .request ∧ s.st.gotAck = true

/-- No offer has come in time, or no ACK, or a NAK. -/
def Unserved (s : State) (now : Nat) : Prop :=
  s.phase = .discover ∧ s.st.gotOffer = false ∧ s.deadline ≤ now ∨
    s.phase = .request ∧ s.st.gotAck = false ∧ (s.st.gotNak = true ∨ s.deadline ≤ now)

/-- The exchange has failed already, fails at its last attempt, or finds the port taken. -/
def Fails (s : State) : Action → Prop
  | .start (some _) now _ binds => refuses s now = false ∧ binds = false
  | .poll nic now _ => s.phase = .failed ∨ (nic = none ∨ nic = s.dev) ∧ dhcpAttempts ≤ s.attempt + 1 ∧ Unserved s now
  | _ => s.phase = .failed

def Action.nic (s : State) : Action → Option Nat
  | .start (some dev) _ _ _ => some dev
  | _ => s.dev

/-- The last reply before an interface becomes bound says what such an ACK says, and no
exchange that fails or is taken over started on the interface with the lease. -/
structure Clean (x : State × Seen) (a : Action) : Prop where
  bound : Binds x.1 a → ∃ r last, r ∈ x.2.heard ∧ r.msg = ack ∧
    x.2.request = some (r.yiaddr, r.serverId) ∧ x.2.heard.getLast? = some last ∧ last.conf = r.conf
  failed : Fails x.1 a → (x.2.hears x.1 a).before.lease ≠ a.nic x.1
  taken : Takes x.1 a → x.2.before.lease ≠ x.1.dev

/-- The lease while an exchange of `dev` goes on, and after one that failed. -/
def without (lease : Option Nat) (dev : Nat) : Option Nat := if lease = some dev then none else lease

structure Ongoing (s : State) (w : Seen) (dev : Nat) : Prop where
  nic : s.dev = some dev
  conf : s.conf = update w.before.conf dev ⟨0, 0, 0, 0⟩
  old : s.old = w.before.conf dev
  lease : s.lease = without w.before.lease dev
  last : ∀ last, w.heard.getLast? = some last → s.st.offered = last.toOffered

structure Ended (s : State) (w : Seen) (dev : Nat) : Prop where
  nic : s.dev = some dev
  conf : s.conf = w.before.conf
  lease : s.lease = without w.before.lease dev

structure Books (x : State × Seen) : Prop where
  busy : x.1.busy = true → ∃ dev, Ongoing x.1 x.2 dev
  failed : x.1.phase = .failed → ∃ dev, Ended x.1 x.2 dev

section
variable {s : State} {w : Seen} {dev : Nat}

theorem busy_iff : s.busy = true ↔ s.phase = .discover ∨ s.phase = .request := by
  unfold State.busy
  exact decide_eq_true_iff

theorem Ended.same_iff (ended : Ended s w dev) : Same w.before s ↔ w.before.lease ≠ s.dev := by
  rw [ended.nic]
  unfold Same dhcpHasLease
  rw [ended.lease]
  constructor
  · rintro ⟨-, answers⟩ had
    have here := answers (some dev)
    simp [without, had] at here
  · intro other
    refine ⟨ended.conf, fun _ => ?_⟩
    rw [without, if_neg other]

theorem dhcpRestore_some (nic : s.dev = some dev) : dhcpRestore s = { s with conf := update s.conf dev s.old } := by
  unfold dhcpRestore
  rw [nic]

theorem Ongoing.restored (ongoing : Ongoing s w dev) (phase : Phase) (attempt : Nat) :
    Ended { dhcpRestore { s with attempt := attempt, port := false } with phase := phase } w dev := by
  have back : update s.conf dev s.old = w.before.conf := by
    rw [ongoing.conf, ongoing.old, update_idem, update_eq_self]
  rw [dhcpRestore_some (s := { s with attempt := attempt, port := false }) ongoing.nic]
  exact ⟨ongoing.nic, back, ongoing.lease⟩

theorem Ongoing.sent (ongoing : Ongoing s w dev) (msg : UInt8) (sending : Nat) :
    (dhcpSend s msg sending).phase = s.phase ∧
      ∃ p, (dhcpSend s msg sending).sent = s.sent ++ [p] ∧ Ongoing (dhcpSend s msg sending) (w.sees [p]) dev := by
  have next : dhcpSend s msg sending =
      { s with sent := s.sent ++ [dhcpBuild (s.mac dev) s.st msg], deadline := sending + dhcpStepMs } := by
    unfold dhcpSend
    rw [ongoing.nic]
  rw [next]
  exact ⟨rfl, _, rfl, ongoing.nic, ongoing.conf, ongoing.old, ongoing.lease, nofun⟩

theorem Ongoing.discovering (ongoing : Ongoing s w dev) (attempt sending : Nat) :
    (dhcpDiscover { s with attempt := attempt } sending).phase = .discover ∧
      ∃ p, (dhcpDiscover { s with attempt := attempt } sending).sent = s.sent ++ [p] ∧
        Ongoing (dhcpDiscover { s with attempt := attempt } sending) (w.sees [p]) dev := by
  let next : State :=
    { s with attempt := attempt, phase := .discover, st := { s.st with gotOffer := false, gotAck := false, gotNak := false } }
  have still : Ongoing next w dev := ⟨ongoing.nic, ongoing.conf, ongoing.old, ongoing.lease, ongoing.last⟩
  exact still.sent discover sending

theorem sees_none : w.sees (s.sent.drop s.sent.length) = w := by
  rw [drop_length]
  rfl

theorem Books.still (books : Books (s, w)) : Books (s, w.sees (s.sent.drop s.sent.length)) := by rwa [sees_none]

theorem sees_sent {s' : State} {p : Packet} (sent : s'.sent = s.sent ++ [p]) : w.sees (s'.sent.drop s.sent.length) = w.sees [p] := by
  rw [sent, drop_left]

theorem Ongoing.books {s' : State} {p : Packet} (ongoing : Ongoing s' (w.sees [p]) dev) (sent : s'.sent = s.sent ++ [p])
    (busy : s'.phase = .discover ∨ s'.phase = .request) : Books (s', w.sees (s'.sent.drop s.sent.length)) := by
  rw [sees_sent sent]
  refine ⟨fun _ => ⟨dev, ongoing⟩, fun failed => ?_⟩
  rcases busy with is | is
  · exact nomatch is.symm.trans failed
  · exact nomatch is.symm.trans failed

theorem Ended.books (ended : Ended s w dev) (failed : s.phase = .failed) : Books (s, w) := by
  refine ⟨fun busy => ?_, fun _ => ⟨dev, ended⟩⟩
  rcases busy_iff.mp busy with is | is
  · exact nomatch is.symm.trans failed
  · exact nomatch is.symm.trans failed

theorem Ongoing.retried (ongoing : Ongoing s w dev) (sending : Nat) :
    Books (retry s sending, w.sees ((retry s sending).sent.drop s.sent.length)) := by
  unfold retry
  dsimp only
  split
  · have ended := ongoing.restored .failed (s.attempt + 1)
    have unsent : (dhcpFinish { s with attempt := s.attempt + 1 } false).sent = s.sent := by
      change (dhcpRestore { s with attempt := s.attempt + 1, port := false }).sent = s.sent
      rw [dhcpRestore_some (s := { s with attempt := s.attempt + 1, port := false }) ongoing.nic]
    rw [unsent, sees_none]
    exact ended.books rfl
  · obtain ⟨phase, p, sent, still⟩ := ongoing.discovering (s.attempt + 1) sending
    exact still.books sent (.inl phase)

theorem Ongoing.polled (ongoing : Ongoing s w dev) (phase : s.phase = .discover ∨ s.phase = .request) (now sending : Nat) :
    Books (polled s now sending, w.sees ((Dhcp.polled s now sending).sent.drop s.sent.length)) := by
  have still : Books (s, w.sees (s.sent.drop s.sent.length)) := by
    rw [sees_none]
    refine ⟨fun _ => ⟨dev, ongoing⟩, fun failed => ?_⟩
    rw [failed] at phase
    exact nomatch phase
  unfold Dhcp.polled
  rcases phase with is | is
  · simp only [is]
    split
    · let next : State := { s with st := { s.st with gotAck := false, gotNak := false }, phase := .request }
      have requesting : Ongoing next w dev := ⟨ongoing.nic, ongoing.conf, ongoing.old, ongoing.lease, ongoing.last⟩
      obtain ⟨phase, p, sent, after⟩ := requesting.sent request sending
      exact after.books sent (.inr phase)
    · split
      · exact ongoing.retried sending
      · exact still
  · simp only [is]
    split
    · -- a bound interface is no longer the observer's concern
      have bound : (dhcpFinish s true).phase = .bound := by
        simp only [dhcpFinish, Bool.not_true, Bool.false_eq_true, if_false, ongoing.nic]
      refine ⟨fun busy => ?_, fun failed => ?_⟩
      · rcases busy_iff.mp busy with other | other
        · exact nomatch bound.symm.trans other
        · exact nomatch bound.symm.trans other
      · exact nomatch bound.symm.trans failed
    · split
      · exact ongoing.retried sending
      · exact still

theorem books_poll (books : Books (s, w)) (nic : Option Nat) (now sending : Nat) : Books (watch (s, w) (.poll nic now sending)) := by
  have still := books.still
  change Books ((dhcpPoll s nic now sending).1, w.sees ((dhcpPoll s nic now sending).1.sent.drop s.sent.length))
  unfold dhcpPoll
  split
  · exact still
  by_cases busy : s.busy
  · obtain ⟨dev, ongoing⟩ := books.busy busy
    exact ongoing.polled (busy_iff.mp busy) now sending
  · have idle : polled s now sending = s := by
      have neither := fun is => busy (busy_iff.mpr is)
      unfold polled
      split
      next is => exact absurd (.inl is) neither
      next is => exact absurd (.inr is) neither
      · rfl
    simp only [idle]
    exact still

theorem books_begin (now sending : Nat) (binds : Bool) : Books ((begin s dev now sending binds).1,
    Seen.sees ⟨s, none, []⟩ ((begin s dev now sending binds).1.sent.drop s.sent.length)) := by
  unfold begin
  dsimp only
  cases binds with
  | false =>
    simp only [Bool.not_false, if_true]
    rw [dhcpRestore_some rfl]
    simp only [sees_none]
    have back : update (update s.conf dev ⟨0, 0, 0, 0⟩) dev (s.conf dev) = s.conf :=
      (update_idem ..).trans (update_eq_self ..)
    exact Ended.books ⟨rfl, back, rfl⟩ rfl
  | true =>
    simp only [Bool.not_true, Bool.false_eq_true, if_false]
    let next : State :=
      { s with
        dev := some dev
        old := s.conf dev
        st := { blank with xid := xidOf (s.mac dev) now }
        attempt := 0
        lease := if s.lease = some dev then none else s.lease
        conf := update s.conf dev ⟨0, 0, 0, 0⟩
        port := true }
    have ongoing : Ongoing next ⟨s, none, []⟩ dev := ⟨rfl, rfl, rfl, rfl, nofun⟩
    obtain ⟨phase, p, sent, after⟩ := ongoing.discovering 0 sending
    exact after.books sent (.inl phase)

theorem watch_datagram (s : State) (w : Seen) (data : Packet) : watch (s, w) (.datagram data) = (s, w) ∨
    ∃ r, watch (s, w) (.datagram data) = ({ s with st := s.st.record r }, { w with heard := w.heard ++ [r] }) := by
  unfold watch
  cases port : s.port with
  | false =>
    left
    simp only [step, Seen.hears, port, Bool.false_eq_true, if_false, sees_none]
  | true =>
    simp only [step, Seen.hears, dhcpCb, port, if_true, sees_none]
    cases reply s.st.xid data with
    | none =>
      left
      rw [← port]
    | some r =>
      right
      refine ⟨r, ?_⟩
      rw [← port]

theorem books_datagram (books : Books (s, w)) (data : Packet) : Books (watch (s, w) (.datagram data)) := by
  rcases watch_datagram s w data with same | ⟨r, next⟩
  · rw [same]
    exact books
  · rw [next]
    refine ⟨fun busy => ?_, fun failed => ?_⟩
    · obtain ⟨dev, ongoing⟩ := books.busy busy
      refine ⟨dev, ongoing.nic, ongoing.conf, ongoing.old, ongoing.lease, fun last is => ?_⟩
      have here : (w.heard ++ [r]).getLast? = some last := is
      rw [getLast?_concat] at here
      rw [← Option.some.inj here]
      rfl
    · obtain ⟨dev, ended⟩ := books.failed failed
      exact ⟨dev, ended.nic, ended.conf, ended.lease⟩

theorem books_start (books : Books (s, w)) (nic : Option Nat) (now sending : Nat) (binds : Bool) :
    Books (watch (s, w) (.start nic now sending binds)) := by
  have still := books.still
  cases nic with
  | none => exact still
  | some dev =>
    unfold watch step Seen.hears dhcpStart
    dsimp only
    split
    · exact still
    have kept : (takenOver s).sent = s.sent := by
      unfold takenOver dhcpRestore
      split
      · split <;> rfl
      · rfl
    rw [← kept]
    exact books_begin now sending binds

theorem books_step (x : State × Seen) (a : Action) (books : Books x) : Books (watch x a) := by
  cases a with
  | start dev now sending binds => exact books_start books dev now sending binds
  | poll dev now sending => exact books_poll books dev now sending
  | datagram data => exact books_datagram books data

theorem dhcpSend_phase (msg : UInt8) (sending : Nat) : (dhcpSend s msg sending).phase = s.phase := by
  unfold dhcpSend
  split
  · rfl
  · rfl

theorem retry_phase (sending : Nat) : (retry s sending).phase ≠ .bound := by
  unfold retry
  dsimp only
  split
  · exact nofun
  · unfold dhcpDiscover
    rw [dhcpSend_phase]
    exact nofun

theorem begin_phase (now sending : Nat) (binds : Bool) : (begin s dev now sending binds).1.phase ≠ .bound := by
  unfold begin
  dsimp only
  split
  · exact nofun
  · unfold dhcpDiscover
    rw [dhcpSend_phase]
    exact nofun

/-- A poll is about the exchange if it names its interface or none. -/
theorem mine_iff {nic : Option Nat} : ¬(nic.isSome ∧ nic ≠ s.dev) ↔ nic = none ∨ nic = s.dev := by
  cases nic with
  | none => simp
  | some n => simp

theorem Binds.finishes {a : Action} (binds : Binds s a) : step s a = dhcpFinish s true := by
  obtain ⟨nic, now, sending, rfl, mine, phase, acked⟩ := binds
  simp only [step, dhcpPoll]
  rw [if_neg (mine_iff.mpr mine)]
  simp only [polled, phase, acked, if_true]

theorem retry_failed (sending : Nat) : (retry s sending).phase = .failed ↔ dhcpAttempts ≤ s.attempt + 1 := by
  unfold retry
  dsimp only
  split
  next last => exact ⟨fun _ => last, fun _ => rfl⟩
  next more =>
    unfold dhcpDiscover
    rw [dhcpSend_phase]
    exact ⟨nofun, fun last => absurd last more⟩

theorem finish_phase : (dhcpFinish s true).phase = .bound ∨ (dhcpFinish s true).phase = s.phase := by
  unfold dhcpFinish
  rw [if_neg (by decide)]
  dsimp only
  split
  · exact .inr rfl
  · exact .inl rfl

theorem polled_failed (now sending : Nat) : (polled s now sending).phase = .failed ↔
    s.phase = .failed ∨ dhcpAttempts ≤ s.attempt + 1 ∧ Unserved s now := by
  unfold polled Unserved
  cases phase : s.phase with
  | discover =>
    cases s.st.gotOffer with
    | true => simp [dhcpSend_phase]
    | false =>
      by_cases late : s.deadline ≤ now
      · simp [late, retry_failed]
      · simp [late, phase]
  | request =>
    cases acked : s.st.gotAck with
    | true =>
      have other : (dhcpFinish s true).phase ≠ .failed := by
        rcases finish_phase (s := s) with is | is
        · rw [is]
          nofun
        · rw [is, phase]
          nofun
      simp [other]
    | false =>
      by_cases late : s.st.gotNak = true ∨ s.deadline ≤ now
      · simp [late, retry_failed]
      · simp [late, phase]
  | idle => simp [phase]
  | bound => simp [phase]
  | failed => simp [phase]

theorem fails_iff (a : Action) : (step s a).phase = .failed ↔ Fails s a := by
  cases a with
  | start nic now sending binds =>
    cases nic with
    | none => exact Iff.rfl
    | some dev =>
      simp only [step, dhcpStart, Fails]
      cases refusal : refuses s now with
      | true =>
        have busy : s.busy = true := by
          unfold refuses at refusal
          exact (of_decide_eq_true refusal).1
        refine ⟨fun failed => ?_, fun taken => nomatch taken.1⟩
        rcases busy_iff.mp busy with is | is
        · exact nomatch is.symm.trans failed
        · exact nomatch is.symm.trans failed
      | false =>
        cases binds with
        | false => exact ⟨fun _ => ⟨rfl, rfl⟩, fun _ => rfl⟩
        | true =>
          simp only [Bool.false_eq_true, if_false, begin, Bool.not_true, dhcpDiscover, dhcpSend_phase]
          exact ⟨nofun, nofun⟩
  | poll nic now sending =>
    simp only [step, dhcpPoll, Fails]
    split
    next other => exact ⟨.inl, fun either => either.resolve_right fun mine => mine_iff.mpr mine.1 other⟩
    next mine =>
      rw [polled_failed, and_iff_right (mine_iff.mp mine)]
  | datagram data =>
    simp only [step, Fails]
    split <;> exact Iff.rfl

theorem finish_dev (ok : Bool) : (dhcpFinish s ok).dev = s.dev := by
  unfold dhcpFinish dhcpRestore
  cases ok <;> cases s.dev <;> simp

theorem send_dev (msg : UInt8) (sending : Nat) : (dhcpSend s msg sending).dev = s.dev := by
  unfold dhcpSend
  split
  · rfl
  · rfl

theorem polled_dev (now sending : Nat) : (polled s now sending).dev = s.dev := by
  have again : (retry s sending).dev = s.dev := by
    unfold retry
    dsimp only
    split
    · exact finish_dev false
    · exact send_dev _ _
  unfold polled
  split
  · split
    · exact send_dev _ _
    · split
      · exact again
      · rfl
  · split
    · exact finish_dev true
    · split
      · exact again
      · rfl
  · rfl

theorem Fails.same_nic {a : Action} (fails : Fails s a) : (step s a).dev = a.nic s := by
  cases a with
  | start nic now sending binds =>
    cases nic with
    | none => rfl
    | some dev =>
      obtain ⟨accepted, rfl⟩ := fails
      simp only [step, dhcpStart, accepted]
      rfl
  | poll nic now sending =>
    simp only [step, dhcpPoll, Action.nic]
    split
    · rfl
    · exact polled_dev now sending
  | datagram data =>
    simp only [step]
    split <;> rfl

theorem polled_binds {now sending : Nat} (before : s.phase ≠ .bound) (after : (polled s now sending).phase = .bound) :
    s.phase = .request ∧ s.st.gotAck = true := by
  unfold polled at after
  cases phase : s.phase with
  | discover =>
    simp only [phase] at after
    split at after
    · rw [dhcpSend_phase] at after
      exact nomatch after
    split at after
    · exact absurd after (retry_phase sending)
    · exact absurd after before
  | request =>
    simp only [phase] at after
    split at after
    next got => exact ⟨rfl, got⟩
    split at after
    · exact absurd after (retry_phase sending)
    · exact absurd after before
  | idle =>
    simp only [phase] at after
    exact nomatch after
  | failed =>
    simp only [phase] at after
    exact nomatch after
  | bound => exact absurd phase before

theorem binds_cases {a : Action} (before : s.phase ≠ .bound) (after : (step s a).phase = .bound) :
    Binds s a := by
  cases a with
  | start nic now sending binds =>
    exfalso
    cases nic with
    | none => exact before after
    | some dev =>
      simp only [step, dhcpStart] at after
      split at after
      · exact before after
      · exact begin_phase now sending binds after
  | poll nic now sending =>
    simp only [step, dhcpPoll] at after
    split at after
    · exact absurd after before
    next here =>
      refine ⟨nic, now, sending, rfl, mine_iff.mp here, ?_⟩
      exact polled_binds before after
  | datagram data =>
    simp only [step] at after
    split at after
    · exact absurd after before
    · exact absurd after before

end

theorem Ongoing.installs {s : State} {w : Seen} {dev : Nat} (ongoing : Ongoing s w dev) {last : Reply} (is : w.heard.getLast? = some last) :
    (dhcpFinish s true).conf dev = last.conf := by
  simp [dhcpFinish, ongoing.nic, ongoing.last last is]

theorem watch_before (x : State × Seen) (a : Action) : (watch x a).2.before = (x.2.hears x.1 a).before := by
  unfold watch Seen.sees
  dsimp only
  split
  · rfl
  · rfl

theorem kept_iff_clean {x : State × Seen} (books : Books x) (a : Action) : Kept x a ↔ Clean x a := by
  have failed (fails : Fails x.1 a) : Same (watch x a).2.before (step x.1 a) ↔ (x.2.hears x.1 a).before.lease ≠ a.nic x.1 := by
    obtain ⟨dev, ended⟩ := (books_step x a books).failed ((fails_iff a).mpr fails)
    have same : Same (watch x a).2.before (step x.1 a) ↔ (watch x a).2.before.lease ≠ (step x.1 a).dev := ended.same_iff
    rw [same, watch_before, fails.same_nic]
  have taken : Takes x.1 a → (Same x.2.before (takenOver x.1) ↔ x.2.before.lease ≠ x.1.dev) := by
    rintro ⟨_, _, _, _, -, busy, -⟩
    obtain ⟨dev, ongoing⟩ := books.busy busy
    have ended : Ended (takenOver x.1) x.2 dev := by
      unfold takenOver
      rw [if_pos busy]
      have restored := ongoing.restored x.1.phase x.1.attempt
      exact ⟨restored.nic, restored.conf, restored.lease⟩
    rw [ended.same_iff, ended.nic, ongoing.nic]
  have bound (binds : Binds x.1 a) : x.1.phase ≠ .bound ∧ (step x.1 a).phase = .bound ∧
      ∃ dev, Ongoing x.1 x.2 dev ∧ ∀ last, x.2.heard.getLast? = some last → (step x.1 a).conf dev = last.conf := by
    obtain ⟨_, _, _, _, _, phase, _⟩ := id binds
    obtain ⟨dev, ongoing⟩ := books.busy (busy_iff.mpr (.inr phase))
    rw [binds.finishes, phase]
    refine ⟨nofun, ?_, dev, ongoing, fun _ is => ongoing.installs is⟩
    simp [dhcpFinish, ongoing.nic]
  constructor
  · intro kept
    refine ⟨fun binds => ?_, fun fails => (failed fails).mp (kept.failed ((fails_iff a).mpr fails)), fun takes => (taken takes).mp (kept.taken takes)⟩
    obtain ⟨before, after, dev, ongoing, installs⟩ := bound binds
    obtain ⟨dev', r, nic, member, acks, request, conf⟩ := kept.bound before after
    obtain rfl : dev = dev' := Option.some.inj (ongoing.nic.symm.trans nic)
    have some : x.2.heard ≠ [] := ne_nil_of_mem member
    have last := getLast?_eq_getLast_of_ne_nil some
    exact ⟨r, _, member, acks, request, last, (installs _ last).symm.trans conf⟩
  · intro clean
    refine ⟨fun before after => ?_, fun ended => ?_, fun takes => (taken takes).mpr (clean.taken takes)⟩
    · have binds := binds_cases before after
      obtain ⟨_, _, dev, ongoing, installs⟩ := bound binds
      obtain ⟨r, last, member, acks, request, is, conf⟩ := clean.bound binds
      exact ⟨dev, r, ongoing.nic, member, acks, request, (installs last is).trans conf⟩
    · have fails := (fails_iff a).mp ended
      exact (failed fails).mpr (clean.failed fails)

def watched (mac : Nat → List UInt8) (conf : Nat → Conf) : State × Seen := (boot mac conf, ⟨boot mac conf, none, []⟩)

/-- In every run of calls and datagrams: the configuration always comes from one accepted
lease exactly when every step is clean. -/
theorem lease_kept_iff (mac : Nat → List UInt8) (conf : Nat → Conf) (actions : List Action) :
    Permitted watch Kept (watched mac conf) actions ↔ Permitted watch Clean (watched mac conf) actions := by
  have books : Books (watched mac conf) := ⟨nofun, nofun⟩
  exact permitted_congr books_step (fun _ a held => kept_iff_clean held a) actions books

def answer (msg : UInt8) (o : Offered) : Packet :=
  [opReply, 1, 6, 0] ++ List.replicate 12 0 ++ bytes o.yiaddr ++ List.replicate 216 0 ++ magic ++ [optMsgType, 1, msg] ++
    [optSubnet, 4] ++ bytes o.mask ++ [optRouter, 4] ++ bytes o.router ++ [optDns, 4] ++ bytes o.dns ++
    [optServerId, 4] ++ bytes o.serverId ++ [optEnd]

def home : Offered := ⟨0x0A00A8C0, 0x00FFFFFF, 0x0100A8C0, 0x0100A8C0, 0x0100A8C0⟩
def rogue : Offered := ⟨0x0500000A, 0x000000FF, 0x0600000A, 0x0600000A, 0x0600000A⟩

def leased : List Action := [.start (some 0) 0 0 true, .datagram (answer offer home), .poll (some 0) 0 0, .datagram (answer ack home)]

/-- Five steps after the lease a new exchange has failed. -/
def renewal : List Action :=
  leased ++ [.poll (some 0) 0 0, .start (some 0) 0 0 true, .poll (some 0) 1000 1000, .poll (some 0) 2000 2000, .poll (some 0) 3000 3000]

/-- An offer of another server comes after the ACK. -/
def overtaken : List Action := leased ++ [.datagram (answer offer rogue)]

/-- A late offer of another server is installed instead of the lease; and a failed renewal
leaves the address with the answer that it is no lease. -/
theorem dhcp_runs_violate :
    ¬Permitted watch Kept (watched (fun _ => []) fun _ => ⟨0, 0, 0, 0⟩) (overtaken ++ [.poll (some 0) 0 0]) ∧
    ¬Permitted watch Kept (watched (fun _ => []) fun _ => ⟨0, 0, 0, 0⟩) (renewal ++ [.poll (some 0) 4000 4000]) := by
  refine ⟨fun permitted => ?_, fun permitted => ?_⟩
  · obtain ⟨-, kept⟩ := permitted.before
    obtain ⟨dev, r, nic, member, acks, -, conf⟩ := kept.bound (by decide +kernel) (by decide +kernel)
    have only : (overtaken.foldl watch (watched (fun _ => []) fun _ => ⟨0, 0, 0, 0⟩)).2.heard =
        [⟨home, ack⟩, ⟨rogue, offer⟩] := by decide +kernel
    have here : (overtaken.foldl watch (watched (fun _ => []) fun _ => ⟨0, 0, 0, 0⟩)).1.dev =
        some 0 := by decide +kernel
    rw [only] at member
    rw [here] at nic
    cases nic
    rcases List.mem_pair.mp member with rfl | rfl
    · exact absurd conf (by decide +kernel)
    · exact absurd acks (by decide)
  · obtain ⟨-, kept⟩ := permitted.before
    have same := (kept.failed (by decide +kernel)).2 (some 0)
    exact absurd same (by decide +kernel)

end SecOS.Dhcp
