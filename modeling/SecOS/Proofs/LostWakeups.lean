import SecOS.Proofs.WakeFrame

/-! Blocking without lost wake-ups. A waker that has published its event still has to bump the
sequence number and scan the table, and a sleeper that has tested the number holds the lock the
scan needs. `signal_post` tests the state without that lock. -/

namespace SecOS.Wake
open Library

/-- Since the task's snapshot its event was published, or a signal that would interrupt
it became pending. -/
def Owed (s : State) : Prop := s.fresh = true ∨ ∃ sig, s.posted sig = true ∧ s.task.interrupts sig = true

/-- The call is going to make a task ready that is blocked on `f`. -/
def Promise (t : Task) (f : Wait) : Call → Prop
  | .wake w .published | .wake w .bumped => f ∈ w.waits t.pid
  | .wake _ (.scan rest) => f ∈ rest
  | .wake _ (.found _ _) | .wake _ (.cleared _) => True
  | .post sig .note | .post sig .judge => t.interrupts sig = true
  | .post _ .tear | .post _ .wakeBlocked => True
  | _ => False

/-- It has not bumped the sequence number since it published. -/
def Call.unbumped : Call → Bool
  | .wake _ .published | .post _ .note => true
  | _ => false

/-- It has not looked at the task's state since it published. -/
def Call.unscanned : Call → Bool
  | .wake _ .published | .wake _ .bumped | .post _ .note | .post _ .judge => true
  | _ => false

def Call.scans : Call → Bool
  | .wake _ (.scan _) | .wake _ (.found _ _) | .wake _ (.cleared _) => true
  | _ => false

def Call.seizes : Call → Bool
  | .post _ .tear | .post _ .wakeBlocked => true
  | _ => false

def Call.grabs : Call → Bool
  | .wake _ (.found _ _) | .wake _ (.cleared _) | .post _ .tear | .post _ .wakeBlocked => true
  | _ => false

def Call.disarmed : Call → Bool
  | .wake _ (.cleared _) | .post _ .wakeBlocked => true
  | _ => false

def Call.idle : Call → Bool
  | .out => true
  | .wake _ _ => false
  | .post _ at_ => at_ ∉ [.note, .judge, .tear, .wakeBlocked]

def Pc.locks : Pc → Bool
  | .locked _ | .tested _ | .slept | .moved => true
  | _ => false

def Pc.checks : Pc → Option Wait
  | .snapped f | .unmet f | .armed f | .locked f => some f
  | _ => none

def Pc.arms : Pc → Option Wait
  | .armed f | .locked f | .tested f => some f
  | _ => none

/-- The test for a blocked task and the wake-up in `signal_post` run while the process
table is unlocked, and one at a time. -/
def Serial (s : State) : Action → Prop
  | .call n =>
    match s.call n with
    | .post _ .judge => s.lock = none ∧ ∀ m, (s.call m).seizes = false
    | .wake _ .bumped => ∀ m, (s.call m).seizes = false
    | _ => True
  | .task =>
    match s.pc with
    | .armed _ => ∀ m, (s.call m).seizes = false
    | _ => True
  | _ => True

structure Awake (s : State) : Prop where
  running : s.pc.away = false → s.task.state = .running
  lockTask : s.lock = some .task ↔ s.pc.locks = true
  lockCall : ∀ n, (s.call n).scans = true → s.lock = some (.call n)
  alone : ∀ n, (s.call n).seizes = true → s.lock = none ∧ ∀ m, (s.call m).seizes = true → m = n
  grabbed : ∀ n, (s.call n).grabs = true → s.task.state = .blocked
  snap : s.task.wakeSnap ≤ s.seq
  waits : ∀ f, s.pc.checks = some f ∨ s.pc = .tested f → s.waiting = some f
  armed : ∀ f, s.pc.arms = some f → s.task.armed f = true
  early : ∀ f, s.pc.checks = some f → Owed s →
    s.seq ≠ s.task.wakeSnap ∨ ∃ n, Promise s.task f (s.call n) ∧ (s.call n).unbumped = true
  late : ∀ f, s.pc = .tested f → Owed s → ∃ n, Promise s.task f (s.call n) ∧ (s.call n).unscanned = true
  asleep : s.task.state = .blocked → ∃ f, s.waiting = some f ∧
    (s.task.armed f = true ∨ ∃ n, (s.call n).disarmed = true) ∧ (Owed s → ∃ n, Promise s.task f (s.call n))

section
variable {s s' : State} {n : Nat} {c : Call} {f : Wait}

theorem arm_armed (t : Task) : (t.arm f).armed f = true := by
  cases f <;> simp [Task.arm, Task.armed]

section
variable (inv : Awake s)
include inv

theorem Awake.untouched (awake : s.task.state ≠ .blocked) (m : Nat) : (s.call m).grabs = false := by
  by_contra grabs
  exact awake (inv.grabbed m (eq_true_of_ne_false grabs))

theorem Awake.awake_of_arms (arms : s.pc.arms = some f) : s.task.state ≠ .blocked := by
  have on : s.pc.away = false := by
    cases at_pc : s.pc with
    | slept => rw [at_pc] at arms; exact nomatch arms
    | off => rw [at_pc] at arms; exact nomatch arms
    | _ => rfl
  rw [inv.running on]
  nofun

theorem Awake.own (before : s.task.state ≠ .blocked) (calls : s'.call = s.call) (seq : s'.seq = s.seq) (awake : s'.task.state ≠ .blocked)
    (running : s'.pc.away = false → s'.task.state = .running)
    (lockTask : s'.lock = some .task ↔ s'.pc.locks = true)
    (lockCall : ∀ n, s.lock = some (.call n) → s'.lock = some (.call n))
    (seized : ∀ n, (s.call n).seizes = true → s'.lock = none)
    (snap : s'.task.wakeSnap ≤ s.seq)
    (waits : ∀ f, s'.pc.checks = some f ∨ s'.pc = .tested f → s'.waiting = some f)
    (armed : ∀ f, s'.pc.arms = some f → s'.task.armed f = true)
    (early : ∀ f, s'.pc.checks = some f → Owed s' →
      s.seq ≠ s'.task.wakeSnap ∨ ∃ n, Promise s'.task f (s.call n) ∧ (s.call n).unbumped = true)
    (late : ∀ f, s'.pc = .tested f → Owed s' → ∃ n, Promise s'.task f (s.call n) ∧ (s.call n).unscanned = true) : Awake s' where
  running := running
  lockTask := lockTask
  lockCall := by
    rw [calls]
    exact fun n scans => lockCall n (inv.lockCall n scans)
  alone := by
    rw [calls]
    exact fun n seizes => ⟨seized n seizes, (inv.alone n seizes).2⟩
  grabbed := by
    rw [calls]
    intro n grabs
    rw [inv.untouched before n] at grabs
    exact nomatch grabs
  snap := by rwa [seq]
  waits := waits
  armed := armed
  early := by rwa [calls, seq]
  late := by rwa [calls]
  asleep := fun blocked => absurd blocked awake

theorem Awake.outside {t : Task} {pc : Pc} {lock : Option Holder} (before : s.task.state ≠ .blocked)
    (awake : t.state ≠ .blocked) (running : pc.away = false → t.state = .running) (snap : t.wakeSnap ≤ s.seq) (free : pc.locks = false)
    (checks : pc.checks = none) (arms : pc.arms = none)
    (kept : lock = s.lock ∧ s.pc.locks = false ∨ lock = none ∧ s.pc.locks = true) :
    Awake { s with task := t, pc := pc, lock := lock } := by
  have untested : ∀ f, pc ≠ .tested f := by
    rintro f rfl
    exact nomatch arms
  refine inv.own before rfl rfl awake running ?_ ?_ ?_ snap ?_ ?_ ?_ ?_
  · rw [free]
    refine ⟨fun held => ?_, nofun⟩
    rcases kept with ⟨rfl, outside⟩ | ⟨rfl, _⟩
    · exact outside.symm.trans (inv.lockTask.mp held)
    · exact nomatch held
  · intro n held
    rcases kept with ⟨rfl, _⟩ | ⟨_, inside⟩
    · exact held
    · exact nomatch (inv.lockTask.mpr inside).symm.trans held
  · intro n seizes
    rcases kept with ⟨rfl, _⟩ | ⟨rfl, _⟩
    · exact (inv.alone n seizes).1
    · rfl
  · rintro f (checking | tested)
    · exact nomatch checks.symm.trans checking
    · exact absurd tested (untested f)
  · exact fun f arming => nomatch arms.symm.trans arming
  · exact fun f checking => nomatch checks.symm.trans checking
  · exact fun f tested => absurd tested (untested f)

theorem Awake.walk {t : Task} {p pc : Pc} (at_pc : s.pc = p) (on : p.away = false) (unlocked : p.locks = false)
    (state : t.state = s.task.state) (snap : t.wakeSnap ≤ s.seq) (free : pc.locks = false) (checks : pc.checks = none)
    (arms : pc.arms = none) : Awake { s with task := t, pc := pc } := by
  subst at_pc
  have running := inv.running on
  exact inv.outside (by rw [running]; nofun) (by rw [state, running]; nofun) (fun _ => state.trans running) snap free checks arms
    (.inl ⟨rfl, unlocked⟩)

theorem Awake.approach {pc : Pc} {t : Task} {lock : Option Holder} (before : s.pc.checks = some f)
    (after : pc.checks = some f) (state : t.state = s.task.state) (snap : t.wakeSnap = s.task.wakeSnap)
    (pid : t.pid = s.task.pid) (interrupts : t.interrupts = s.task.interrupts)
    (lockTask : lock = some .task ↔ pc.locks = true) (lockCall : ∀ n, s.lock = some (.call n) → lock = some (.call n))
    (seized : ∀ n, (s.call n).seizes = true → lock = none)
    (armed : ∀ f, pc.arms = some f → t.armed f = true) : Awake { s with task := t, pc := pc, lock := lock } := by
  have on : s.pc.away = false := by
    cases at_pc : s.pc with
    | slept => rw [at_pc] at before; exact nomatch before
    | off => rw [at_pc] at before; exact nomatch before
    | _ => rfl
  have untested : ∀ g, pc ≠ .tested g := by
    rintro g rfl
    exact nomatch after
  have awake : t.state = .running := state.trans (inv.running on)
  refine inv.own (by rw [inv.running on]; nofun) rfl rfl (by rw [awake]; nofun) (fun _ => awake) lockTask lockCall seized (snap ▸ inv.snap) ?_ armed ?_
    (fun g tested => absurd tested (untested g))
  · rintro g (checking | tested)
    · exact inv.waits g (.inl (before.trans (after.symm.trans checking)))
    · exact absurd tested (untested g)
  · intro g checking owed
    obtain rfl := Option.some.inj (after.symm.trans checking)
    have due : Owed s := by
      rcases owed with fresh | ⟨sig, posted, live⟩
      · exact .inl fresh
      · exact .inr ⟨sig, posted, by rwa [← interrupts]⟩
    rcases inv.early f before due with moved | ⟨n, promise, unbumped⟩
    · exact .inl (snap ▸ moved)
    · refine .inr ⟨n, ?_, unbumped⟩
      unfold Promise at promise ⊢
      simpa only [pid, interrupts] using promise

/-- The task goes to sleep: whoever owes it a wake-up has not looked at it yet. -/
theorem Awake.sleep (at_pc : s.pc = .tested f) :
    Awake { s with task := { s.task with state := .blocked }, pc := .slept } where
  running := nofun
  lockTask := ⟨fun _ => rfl, fun _ => inv.lockTask.mpr (by rw [at_pc]; rfl)⟩
  lockCall := inv.lockCall
  alone := inv.alone
  grabbed := fun _ _ => rfl
  snap := inv.snap
  waits := nofun
  armed := nofun
  early := nofun
  late := nofun
  asleep := by
    intro _
    refine ⟨f, inv.waits f (.inr at_pc), .inl ?_, fun owed => ?_⟩
    · have armed := inv.armed f (by rw [at_pc]; rfl)
      cases f <;> exact armed
    · obtain ⟨n, promise, _⟩ := inv.late f at_pc owed
      exact ⟨n, promise⟩

theorem Awake.leave (at_pc : s.pc = .slept) : Awake { s with lock := none, pc := .off } where
  running := nofun
  lockTask := ⟨nofun, nofun⟩
  lockCall := by
    intro n scans
    have held := inv.lockTask.mpr (by rw [at_pc]; rfl)
    exact nomatch held.symm.trans (inv.lockCall n scans)
  alone := fun n seizes => ⟨rfl, (inv.alone n seizes).2⟩
  grabbed := inv.grabbed
  snap := inv.snap
  waits := nofun
  armed := nofun
  early := nofun
  late := nofun
  asleep := inv.asleep

theorem taskStep_awake (serial : Serial s .task) (taken : taskStep s s.pc = some s') : Awake s' := by
  have running := inv.running
  have awake : s.pc.away = false → s.task.state ≠ .blocked := by
    intro on
    rw [running on]
    rintro ⟨⟩
  cases at_pc : s.pc with
  | user => rw [at_pc] at taken; cases taken
  | off => rw [at_pc] at taken; cases taken
  | snapped f =>
    rw [at_pc] at taken
    cases taken
    have checks : s.pc.checks = some f := by rw [at_pc]; rfl
    split
    · exact inv.walk at_pc rfl rfl rfl inv.snap rfl rfl rfl
    · refine inv.approach checks rfl rfl rfl rfl rfl ?_ (fun _ held => held) (fun n seizes => (inv.alone n seizes).1) (by rintro _ ⟨⟩)
      rw [inv.lockTask, at_pc]
      rfl
  | unmet f =>
    rw [at_pc] at taken
    cases taken
    have checks : s.pc.checks = some f := by rw [at_pc]; rfl
    have same : (s.task.arm f).state = s.task.state ∧ (s.task.arm f).wakeSnap = s.task.wakeSnap ∧ (s.task.arm f).pid = s.task.pid ∧
        (s.task.arm f).interrupts = s.task.interrupts := by
      cases f <;> exact ⟨rfl, rfl, rfl, rfl⟩
    refine inv.approach checks rfl same.1 same.2.1 same.2.2.1 same.2.2.2 ?_ (fun _ held => held) (fun n seizes => (inv.alone n seizes).1) ?_
    · rw [inv.lockTask, at_pc]
      rfl
    · intro g arms
      obtain rfl := Option.some.inj arms
      exact arm_armed s.task
  | armed f =>
    simp only [Serial, at_pc] at serial
    rw [at_pc] at taken
    obtain ⟨free, ⟨⟩⟩ := Option.ite_none_right_eq_some.mp taken
    have checks : s.pc.checks = some f := by rw [at_pc]; rfl
    refine inv.approach checks rfl rfl rfl rfl rfl ⟨fun _ => rfl, fun _ => rfl⟩ (fun _ held => by cases free.symm.trans held) ?_ ?_
    · intro n seizes
      rw [serial n] at seizes
      cases seizes
    · exact fun g arms => inv.armed g (by rw [at_pc]; exact arms)
  | locked f =>
    rw [at_pc] at taken running awake
    cases taken
    have held := inv.lockTask.mpr (by rw [at_pc]; rfl)
    split
    next still =>
      refine inv.own (awake rfl) rfl rfl (awake rfl) (fun _ => running rfl) ⟨fun _ => rfl, fun _ => held⟩ (fun _ other => other)
        (fun n seizes => (inv.alone n seizes).1) inv.snap ?_ ?_ (by rintro _ ⟨⟩) ?_
      · rintro g (checks | tested)
        · cases checks
        · obtain rfl := Pc.tested.inj tested
          exact inv.waits f (.inl (by rw [at_pc]; rfl))
      · exact fun g arms => inv.armed g (by rw [at_pc]; exact arms)
      · intro g tested owed
        obtain rfl := Pc.tested.inj tested
        rcases inv.early f (by rw [at_pc]; rfl) owed with moved | ⟨n, promise, unbumped⟩
        · exact absurd still moved
        · refine ⟨n, promise, ?_⟩
          generalize s.call n = c at unbumped
          unfold Call.unbumped at unbumped
          split at unbumped
          · rfl
          · rfl
          · cases unbumped
    · refine inv.own (awake rfl) rfl rfl (awake rfl) (fun _ => running rfl) ⟨fun _ => rfl, fun _ => held⟩ (fun _ other => other)
        (fun n seizes => (inv.alone n seizes).1) inv.snap ?_ (by rintro _ ⟨⟩) (by rintro _ ⟨⟩) (by rintro _ ⟨⟩)
      rintro g (checks | tested)
      · cases checks
      · cases tested
  | tested f =>
    rw [at_pc] at taken
    cases taken
    exact inv.sleep at_pc
  | slept =>
    rw [at_pc] at taken
    cases taken
    exact inv.leave at_pc
  | moved =>
    rw [at_pc] at taken running awake
    cases taken
    exact inv.outside (awake rfl) (awake rfl) (fun _ => running rfl) inv.snap rfl rfl rfl (.inr ⟨rfl, by rw [at_pc]; rfl⟩)
  | rerun =>
    rw [at_pc] at taken
    cases taken
    exact inv.walk at_pc rfl rfl rfl le_rfl rfl rfl rfl
  | read sig =>
    rw [at_pc] at taken
    cases taken
    exact inv.walk at_pc rfl rfl rfl inv.snap rfl rfl rfl
  | taken sig =>
    rw [at_pc] at taken awake
    have unlocked : s.pc.locks = false := by rw [at_pc]; rfl
    simp only [taskStep] at taken
    split at taken
    · cases taken
      exact inv.outside (awake rfl) (by rintro ⟨⟩) (by rintro ⟨⟩) inv.snap rfl rfl rfl (.inl ⟨rfl, unlocked⟩)
    split at taken
    · cases taken
      exact inv.walk at_pc rfl rfl rfl inv.snap rfl rfl rfl
    split at taken
    · cases taken
      exact inv.walk at_pc rfl rfl rfl inv.snap rfl rfl rfl
    · split at taken
      · cases taken
        exact inv.walk at_pc rfl rfl rfl inv.snap rfl rfl rfl
      · cases taken
        exact inv.outside (awake rfl) (by rintro ⟨⟩) (by rintro ⟨⟩) inv.snap rfl rfl rfl (.inl ⟨rfl, unlocked⟩)
    · cases taken
      exact inv.walk at_pc rfl rfl rfl inv.snap rfl rfl rfl
  | stopping sig =>
    rw [at_pc] at taken awake
    cases taken
    exact inv.outside (awake rfl) (by rintro ⟨⟩) (by rintro ⟨⟩) inv.snap rfl rfl rfl (.inl ⟨rfl, by rw [at_pc]; rfl⟩)

theorem Awake.move {t : Task} {q : Nat} {v : Wait → Bool} {r k : Bool} {p : Nat → Bool}
    (same : t.state = s.task.state ∧ t.pid = s.task.pid ∧ t.interrupts = s.task.interrupts ∧ t.wakeSnap = s.task.wakeSnap)
    (up : s.seq ≤ q) (scans : c.scans = true → (s.call n).scans = true)
    (seizes : c.seizes = true → (s.call n).seizes = true ∨ s.lock = none ∧ ∀ m, (s.call m).seizes = false)
    (grabs : c.grabs = true → s.task.state = .blocked)
    (armed : (∀ f, s.task.armed f = true → t.armed f = true) ∨ s.task.state = .blocked ∧ c.disarmed = true)
    (disarmed : (s.call n).disarmed = true → c.disarmed = true)
    (owed : Owed { s with task := s.task, fresh := r, posted := p } →
      Owed s ∨ ∀ f, s.waiting = some f → Promise s.task f c ∧ c.unbumped = true ∧ c.unscanned = true)
    (early : ∀ f, Promise s.task f (s.call n) → (s.call n).unbumped = true → s.seq < q ∨ Promise s.task f c ∧ c.unbumped = true)
    (late : ∀ f, s.pc = .tested f → Promise s.task f (s.call n) → (s.call n).unscanned = true →
      Promise s.task f c ∧ c.unscanned = true)
    (asleep : ∀ f, s.task.state = .blocked → (s.task.armed f = true ∨ ∃ m, (s.call m).disarmed = true) →
      Promise s.task f (s.call n) → Promise s.task f c) :
    Awake ({ s with task := t, seq := q, satisfied := v, fresh := r, posted := p, contLast := k }.setCall n c) := by
  obtain ⟨state, pid, interrupts, snap⟩ := same
  have promise : ∀ f c, Promise s.task f c → Promise t f c := by
    intro f c promise
    unfold Promise at promise ⊢
    simpa only [pid, interrupts] using promise
  have due : ∀ {f}, s.waiting = some f →
      Owed ({ s with task := t, seq := q, satisfied := v, fresh := r, posted := p, contLast := k }.setCall n c) →
      Owed s ∨ Promise s.task f c ∧ c.unbumped = true ∧ c.unscanned = true := by
    intro f waiting due
    have old : Owed { s with task := s.task, fresh := r, posted := p } := by
      rcases due with fresh | ⟨sig, posted, live⟩
      · exact .inl fresh
      · exact .inr ⟨sig, posted, by rwa [← interrupts]⟩
    rcases owed old with before | new
    · exact .inl before
    · exact .inr (new f waiting)
  refine ⟨?_, inv.lockTask, ?_, ?_, ?_, ?_, inv.waits, ?_, ?_, ?_, ?_⟩
  · exact fun on => state.trans (inv.running on)
  · exact forall_call (P := fun m c => c.scans = true → s.lock = some (.call m)) inv.lockCall fun here => inv.lockCall n (scans here)
  · intro m first
    have back : ∀ m, (({ s with task := t, seq := q, satisfied := v, fresh := r, posted := p, contLast := k }.setCall n c).call m).seizes = true →
        (s.call m).seizes = true ∨ m = n ∧ s.lock = none ∧ ∀ m, (s.call m).seizes = false := by
      refine forall_call (P := fun m c => c.seizes = true →
        (s.call m).seizes = true ∨ m = n ∧ s.lock = none ∧ ∀ m, (s.call m).seizes = false) (fun _ => .inl) ?_
      exact fun here => (seizes here).imp id fun free => ⟨rfl, free⟩
    rcases back m first with old | ⟨rfl, free, nobody⟩
    · refine ⟨(inv.alone m old).1, fun l second => ?_⟩
      rcases back l second with old' | ⟨_, _, nobody⟩
      · exact (inv.alone m old).2 l old'
      · exact nomatch old.symm.trans (nobody m)
    · refine ⟨free, fun l second => ?_⟩
      rcases back l second with old' | ⟨rfl, _⟩
      · exact nomatch old'.symm.trans (nobody l)
      · rfl
  · refine forall_call (P := fun _ c => c.grabs = true → t.state = .blocked) (fun m here => ?_) (fun here => ?_)
    · exact state.trans (inv.grabbed m here)
    · exact state.trans (grabs here)
  · exact snap ▸ Nat.le_trans inv.snap up
  · intro f arms
    rcases armed with kept | ⟨blocked, _⟩
    · exact kept f (inv.armed f arms)
    · exact absurd blocked (inv.awake_of_arms arms)
  · intro f checks owes
    have moved : s.seq ≠ s.task.wakeSnap ∨ s.seq < q → q ≠ t.wakeSnap := by
      have := inv.snap
      omega
    rcases due (inv.waits f (.inl checks)) owes with before | ⟨mine, new, _⟩
    · rcases inv.early f checks before with already | ⟨m, promised, unbumped⟩
      · exact .inl (moved (.inl already))
      · by_cases here : m = n
        · subst here
          rcases early f promised unbumped with now | ⟨mine, new⟩
          · exact .inl (moved (.inr now))
          · exact .inr ⟨m, by rw [call_self]; exact ⟨promise f c mine, new⟩⟩
        · exact .inr ⟨m, by rw [call_other here]; exact ⟨promise f _ promised, unbumped⟩⟩
    · exact .inr ⟨n, by rw [call_self]; exact ⟨promise f c mine, new⟩⟩
  · intro f tested owes
    suffices ∃ m, Promise s.task f ((s.setCall n c).call m) ∧ ((s.setCall n c).call m).unscanned = true by
      obtain ⟨m, promised, unscanned⟩ := this
      exact ⟨m, promise f _ promised, unscanned⟩
    rcases due (inv.waits f (.inr tested)) owes with before | ⟨mine, _, new⟩
    · have old := inv.late f tested before
      exact exists_call (P := fun c => Promise s.task f c ∧ c.unscanned = true) old fun here => late f tested here.1 here.2
    · exact ⟨n, by rw [call_self]; exact ⟨mine, new⟩⟩
  · intro blocked
    have was : s.task.state = .blocked := state.symm.trans blocked
    obtain ⟨f, waiting, ready, promised⟩ := inv.asleep was
    refine ⟨f, waiting, ?_, fun owes => ?_⟩
    · rcases armed with kept | ⟨_, mine⟩
      · exact ready.imp (kept f) fun other => exists_call (P := fun c => c.disarmed = true) other disarmed
      · exact .inr ⟨n, by rw [call_self]; exact mine⟩
    · suffices ∃ m, Promise s.task f ((s.setCall n c).call m) by
        obtain ⟨m, promised⟩ := this
        exact ⟨m, promise f _ promised⟩
      rcases due waiting owes with before | ⟨mine, _⟩
      · exact exists_call (promised before) (asleep f was ready)
      · exact ⟨n, by rw [call_self]; exact mine⟩

theorem Awake.rouse (idle : s.task.state ≠ .running) (mine : ∀ m, m ≠ n → (s.call m).grabs = false)
    (scans : c.scans = true → (s.call n).scans = true) (grabs : c.grabs = false) (seizes : c.seizes = false) :
    Awake ({ s with task := { s.task with state := .ready } }.setCall n c) := by
  have away : s.pc.away = true := eq_true_of_ne_false fun on => idle (inv.running on)
  have place : s.pc.checks = none ∧ s.pc.arms = none ∧ ∀ f, s.pc ≠ .tested f := by
    generalize s.pc = pc at away
    cases pc with
    | slept => exact ⟨rfl, rfl, nofun⟩
    | off => exact ⟨rfl, rfl, nofun⟩
    | _ => exact nomatch away
  obtain ⟨checks, arms, untested⟩ := place
  refine ⟨?_, inv.lockTask, ?_, ?_, ?_, inv.snap, ?_, ?_, ?_, ?_, nofun⟩
  · exact fun on => nomatch away.symm.trans on
  · exact forall_call (P := fun m c => c.scans = true → s.lock = some (.call m)) inv.lockCall fun here => inv.lockCall n (scans here)
  · intro m first
    have old : ∀ m, (({ s with task := { s.task with state := .ready } }.setCall n c).call m).seizes = true → (s.call m).seizes = true := by
      refine forall_call (P := fun m c => c.seizes = true → (s.call m).seizes = true) (fun _ => id) ?_
      exact fun here => nomatch seizes.symm.trans here
    exact ⟨(inv.alone m (old m first)).1, fun l second => (inv.alone m (old m first)).2 l (old l second)⟩
  · intro m here
    by_cases other : m = n
    · subst other
      rw [call_self] at here
      exact nomatch grabs.symm.trans here
    · rw [call_other other] at here
      exact nomatch (mine m other).symm.trans here
  · rintro f (checking | tested)
    · exact nomatch checks.symm.trans checking
    · exact absurd tested (untested f)
  · exact fun f arming => nomatch arms.symm.trans arming
  · exact fun f checking => nomatch checks.symm.trans checking
  · exact fun f tested => absurd tested (untested f)

end

theorem Call.scans_or_seizes_of_grabs (grabs : c.grabs = true) : c.scans = true ∨ c.seizes = true := by
  unfold Call.grabs at grabs
  split at grabs
  · exact .inl rfl
  · exact .inl rfl
  · exact .inr rfl
  · exact .inr rfl
  · exact nomatch grabs

theorem Call.grabs_of_disarmed (disarmed : c.disarmed = true) : c.grabs = true := by
  unfold Call.disarmed at disarmed
  split at disarmed
  · rfl
  · rfl
  · exact nomatch disarmed

theorem Call.idle_harmless (idle : c.idle = true) : c.scans = false ∧ c.seizes = false ∧ c.grabs = false := by
  unfold Call.idle at idle
  split at idle
  · exact ⟨rfl, rfl, rfl⟩
  · exact nomatch idle
  next sig at_ => cases at_ with
    | note | judge | tear | wakeBlocked => exact nomatch idle
    | _ => exact ⟨rfl, rfl, rfl⟩

theorem Call.idle_unpromised {t : Task} (idle : c.idle = true) : ¬ Promise t f c := by
  unfold Call.idle at idle
  split at idle
  · exact id
  · exact nomatch idle
  next sig at_ => cases at_ with
    | note | judge | tear | wakeBlocked => exact nomatch idle
    | _ => exact id

theorem Task.armed_congr {t t' : Task}
    (same : (t.waitPipe, t.pollWait, t.recvChan, t.waitPid) = (t'.waitPipe, t'.pollWait, t'.recvChan, t'.waitPid)) :
    t.armed = t'.armed := by
  simp only [Prod.mk.injEq] at same
  obtain ⟨pipe, poll, chan, pid⟩ := same
  funext f
  cases f <;> simp only [Task.armed, pipe, poll, chan, pid]

section
variable (inv : Awake s)
include inv

/-- While a waker holds the lock nobody else has its hands on the task. -/
theorem Awake.grabs_of_held {m : Nat} (held : s.lock = some (.call n)) (grabs : (s.call m).grabs = true) : m = n := by
  rcases Call.scans_or_seizes_of_grabs grabs with scans | seizes
  · exact Holder.call.inj (Option.some.inj ((inv.lockCall m scans).symm.trans held))
  · exact nomatch (inv.alone m seizes).1.symm.trans held

theorem Awake.relock {lock : Option Holder} (was : s.lock ≠ some .task) (is_ : lock ≠ some .task)
    (others : ∀ m, m ≠ n → (s.call m).scans = false) (mine : c.scans = true → lock = some (.call n))
    (nobody : ∀ m, (s.call m).seizes = false) (plain : c.seizes = false ∧ c.grabs = false)
    (before : (s.call n).disarmed = false ∧ (s.call n).unbumped = false)
    (promise : ∀ f, Promise s.task f (s.call n) → Promise s.task f c) : Awake ({ s with lock := lock }.setCall n c) := by
  have unlocked : s.pc.locks = false := Bool.eq_false_iff.mpr fun locks => was (inv.lockTask.mpr locks)
  refine ⟨inv.running, ?_, ?_, ?_, ?_, inv.snap, inv.waits, inv.armed, ?_, ?_, ?_⟩
  · exact ⟨fun held => absurd held is_, fun locks => nomatch unlocked.symm.trans locks⟩
  · intro m scans
    by_cases here : m = n
    · subst here
      rw [call_self] at scans
      exact mine scans
    · rw [call_other here] at scans
      exact nomatch (others m here).symm.trans scans
  · intro m seizes
    have idle : ((s.setCall n c).call m).seizes = false := forall_call (P := fun _ c => c.seizes = false) nobody plain.1 m
    exact nomatch idle.symm.trans seizes
  · refine forall_call (P := fun _ c => c.grabs = true → s.task.state = .blocked) inv.grabbed ?_
    exact fun here => nomatch plain.2.symm.trans here
  · intro f checks owes
    refine (inv.early f checks owes).imp id fun found => ?_
    refine exists_call (P := fun c => Promise s.task f c ∧ c.unbumped = true) found ?_
    exact fun here => nomatch before.2.symm.trans here.2
  · intro f tested
    have tested : s.pc = .tested f := tested
    rw [tested] at unlocked
    exact nomatch unlocked
  · intro blocked
    obtain ⟨f, waiting, ready, promised⟩ := inv.asleep blocked
    refine ⟨f, waiting, ready.imp id fun other => ?_, fun owes => exists_call (promised owes) (promise f)⟩
    refine exists_call (P := fun c => c.disarmed = true) other ?_
    exact fun here => nomatch before.1.symm.trans here

theorem wakeStep_awake {w : Waker} {stage : WakeAt} (serial : Serial s (.call n)) (at_call : s.call n = .wake w stage)
    (taken : wakeStep s n w stage = some s') : Awake s' := by
  cases stage with
  | published =>
    cases taken
    refine inv.move ⟨rfl, rfl, rfl, rfl⟩ (Nat.le_succ _) never never never (.inl fun _ => id) ?_ .inl ?_ ?_ ?_
    · rw [at_call]; rintro ⟨⟩
    · exact fun _ _ _ => .inl (Nat.lt_succ_self _)
    · rw [at_call]; exact fun _ _ promised _ => ⟨promised, rfl⟩
    · rw [at_call]; exact fun _ _ _ promised => promised
  | bumped =>
    simp only [Serial, at_call] at serial
    obtain ⟨free, ⟨⟩⟩ := Option.ite_none_right_eq_some.mp taken
    refine inv.relock (by rw [free]; rintro ⟨⟩) (by rintro ⟨⟩) ?_ (fun _ => rfl) serial ⟨rfl, rfl⟩ ?_ ?_
    · refine fun m _ => Bool.eq_false_iff.mpr fun scans => ?_
      cases free.symm.trans (inv.lockCall m scans)
    · rw [at_call]; exact ⟨rfl, rfl⟩
    · rw [at_call]; exact fun _ promised => promised
  | scan rest =>
    have held := inv.lockCall n (by rw [at_call]; rfl)
    cases rest with
    | nil =>
      cases taken
      refine inv.relock (by rw [held]; rintro ⟨⟩) (by rintro ⟨⟩) ?_ never ?_ ⟨rfl, rfl⟩ ?_ ?_
      · refine fun m other => Bool.eq_false_iff.mpr fun scans => other ?_
        exact Holder.call.inj (Option.some.inj ((inv.lockCall m scans).symm.trans held))
      · refine fun m => Bool.eq_false_iff.mpr fun seizes => ?_
        cases held.symm.trans (inv.alone m seizes).1
      · rw [at_call]; exact ⟨rfl, rfl⟩
      · rw [at_call]; rintro _ ⟨⟩
    | cons f rest =>
      cases taken
      split
      next found =>
        refine inv.move ⟨rfl, rfl, rfl, rfl⟩ le_rfl ?_ never (fun _ => found.1) (.inl fun _ => id) ?_ .inl ?_ ?_ ?_
        · rw [at_call]; exact fun _ => rfl
        · rw [at_call]; rintro ⟨⟩
        · rw [at_call]; rintro _ _ ⟨⟩
        · rw [at_call]; rintro _ _ _ ⟨⟩
        · exact fun _ _ _ _ => trivial
      next missed =>
        refine inv.move ⟨rfl, rfl, rfl, rfl⟩ le_rfl ?_ never never (.inl fun _ => id) ?_ .inl ?_ ?_ ?_
        · rw [at_call]; exact fun _ => rfl
        · rw [at_call]; rintro ⟨⟩
        · rw [at_call]; rintro _ _ ⟨⟩
        · rw [at_call]; rintro _ _ _ ⟨⟩
        · rw [at_call]
          intro g blocked armed promised
          -- The task is still armed for what the scan has not come to: nobody else can have cleared it under the lock.
          rcases List.mem_cons.mp promised with rfl | later
          · rcases armed with armed | ⟨m, disarmed⟩
            · exact absurd ⟨blocked, armed⟩ missed
            · have mine : m = n := inv.grabs_of_held held (Call.grabs_of_disarmed disarmed)
              rw [mine, at_call] at disarmed
              cases disarmed
          · exact later
  | found f rest =>
    cases taken
    have blocked := inv.grabbed n (by rw [at_call]; rfl)
    have same : (s.task.disarm w.code f).state = s.task.state ∧ (s.task.disarm w.code f).pid = s.task.pid ∧
        (s.task.disarm w.code f).interrupts = s.task.interrupts ∧ (s.task.disarm w.code f).wakeSnap = s.task.wakeSnap := by
      cases f <;> exact ⟨rfl, rfl, rfl, rfl⟩
    refine inv.move same le_rfl ?_ never (fun _ => blocked) (.inr ⟨blocked, rfl⟩) (fun _ => rfl) .inl ?_ ?_ ?_
    · rw [at_call]; exact fun _ => rfl
    · rw [at_call]; rintro _ _ ⟨⟩
    · rw [at_call]; rintro _ _ _ ⟨⟩
    · exact fun _ _ _ _ => trivial
  | cleared rest =>
    have blocked := inv.grabbed n (by rw [at_call]; rfl)
    simp only [wakeStep, if_pos blocked] at taken
    cases taken
    refine inv.rouse (by rw [blocked]; rintro ⟨⟩) ?_ ?_ rfl rfl
    · refine fun m other => Bool.eq_false_iff.mpr fun grabs => other ?_
      exact inv.grabs_of_held (inv.lockCall n (by rw [at_call]; rfl)) grabs
    · rw [at_call]; exact fun _ => rfl

theorem Awake.quiet {t : Task} {q : Nat} {k : Bool} (up : s.seq ≤ q)
    (same : t.state = s.task.state ∧ t.pid = s.task.pid ∧ t.interrupts = s.task.interrupts ∧ t.wakeSnap = s.task.wakeSnap)
    (armed : t.armed = s.task.armed) (before : (s.call n).idle = true) (after : c.idle = true) :
    Awake ({ s with task := t, seq := q, contLast := k }.setCall n c) := by
  have unpromised : ∀ f, ¬ Promise s.task f (s.call n) := fun f => Call.idle_unpromised before
  obtain ⟨scans, seizes, grabs⟩ := Call.idle_harmless after
  refine inv.move same up ?_ ?_ ?_ (.inl fun f held => armed ▸ held) ?_ .inl ?_ ?_ ?_
  · exact fun here => nomatch scans.symm.trans here
  · exact fun here => nomatch seizes.symm.trans here
  · exact fun here => nomatch grabs.symm.trans here
  · exact fun here => nomatch (Call.idle_harmless before).2.2.symm.trans (Call.grabs_of_disarmed here)
  · exact fun f promised => absurd promised (unpromised f)
  · exact fun f _ promised => absurd promised (unpromised f)
  · exact fun f _ _ promised => absurd promised (unpromised f)

theorem postStep_awake {sig : Nat} {stage : PostAt} (serial : Serial s (.call n))
    (at_call : s.call n = .post sig stage) : Awake (postStep s n sig stage) := by
  cases stage with
  | start =>
    have before : (s.call n).idle = true := by rw [at_call]; rfl
    simp only [postStep]
    split
    · exact inv.quiet le_rfl ⟨rfl, rfl, rfl, rfl⟩ (Task.armed_congr rfl) before rfl
    split
    · exact inv.quiet le_rfl ⟨rfl, rfl, rfl, rfl⟩ rfl before rfl
    split
    · exact inv.quiet le_rfl ⟨rfl, rfl, rfl, rfl⟩ (Task.armed_congr rfl) before rfl
    · exact inv.quiet le_rfl ⟨rfl, rfl, rfl, rfl⟩ rfl before rfl
  | resume =>
    refine inv.quiet le_rfl ⟨rfl, rfl, rfl, rfl⟩ rfl (by rw [at_call]; rfl) ?_
    split
    · rfl
    · rfl
  | wakeStopped =>
    simp only [postStep]
    split
    next stopped =>
      refine inv.rouse (by rw [stopped]; rintro ⟨⟩) (fun m _ => ?_) never rfl rfl
      exact inv.untouched (by rw [stopped]; rintro ⟨⟩) m
    · exact inv.quiet le_rfl ⟨rfl, rfl, rfl, rfl⟩ rfl (by rw [at_call]; rfl) rfl
  | bumpStopped => exact inv.quiet (Nat.le_succ _) ⟨rfl, rfl, rfl, rfl⟩ (Task.armed_congr rfl) (by rw [at_call]; rfl) rfl
  | mark =>
    refine inv.move ⟨rfl, rfl, rfl, rfl⟩ le_rfl never never never (.inl fun f held => Task.armed_congr rfl ▸ held) ?_ ?_ ?_ ?_ ?_
    · rw [at_call]; rintro ⟨⟩
    · rintro (fresh | ⟨other, posted, live⟩)
      · exact .inl (.inl fresh)
      · by_cases here : other = sig
        · subst here
          exact .inr fun f _ => ⟨live, rfl, rfl⟩
        · exact .inl (.inr ⟨other, (Function.update_of_ne here _ _).symm.trans posted, live⟩)
    · rw [at_call]; rintro _ ⟨⟩
    · rw [at_call]; rintro _ _ ⟨⟩
    · rw [at_call]; rintro _ _ _ ⟨⟩
  | note =>
    refine inv.move ⟨rfl, rfl, rfl, rfl⟩ (Nat.le_succ _) never never never (.inl fun _ => id) ?_ .inl ?_ ?_ ?_
    · rw [at_call]; rintro ⟨⟩
    · exact fun _ _ _ => .inl (Nat.lt_succ_self _)
    · rw [at_call]; exact fun _ _ promised _ => ⟨promised, rfl⟩
    · rw [at_call]; exact fun _ _ _ promised => promised
  | judge =>
    simp only [Serial, at_call] at serial
    simp only [postStep]
    split
    next judged =>
      refine inv.move ⟨rfl, rfl, rfl, rfl⟩ le_rfl never (fun _ => .inr serial) (fun _ => judged.2) (.inl fun _ => id) ?_ .inl ?_ ?_ ?_
      · rw [at_call]; rintro ⟨⟩
      · rw [at_call]; rintro _ _ ⟨⟩
      · intro f tested
        cases serial.1.symm.trans (inv.lockTask.mpr (by rw [tested]; rfl))
      · exact fun _ _ _ _ => trivial
    next spared =>
      refine inv.move ⟨rfl, rfl, rfl, rfl⟩ le_rfl never never never (.inl fun _ => id) ?_ .inl ?_ ?_ ?_
      · rw [at_call]; rintro ⟨⟩
      · rw [at_call]; rintro _ _ ⟨⟩
      · intro f tested
        cases serial.1.symm.trans (inv.lockTask.mpr (by rw [tested]; rfl))
      · rw [at_call]
        exact fun f blocked _ promised => absurd ⟨promised, blocked⟩ spared
  | tear =>
    have blocked := inv.grabbed n (by rw [at_call]; rfl)
    refine inv.move ⟨rfl, rfl, rfl, rfl⟩ le_rfl never ?_ (fun _ => blocked) (.inr ⟨blocked, rfl⟩) (fun _ => rfl) .inl ?_ ?_ ?_
    · rw [at_call]; exact fun _ => .inl rfl
    · rw [at_call]; rintro _ _ ⟨⟩
    · rw [at_call]; rintro _ _ _ ⟨⟩
    · exact fun _ _ _ _ => trivial
  | wakeBlocked =>
    have seizes : (s.call n).seizes = true := by rw [at_call]; rfl
    have blocked := inv.grabbed n (by rw [at_call]; rfl)
    simp only [postStep, if_pos blocked]
    refine inv.rouse (by rw [blocked]; rintro ⟨⟩) (fun m other => Bool.eq_false_iff.mpr fun grabs => other ?_) never rfl rfl
    rcases Call.scans_or_seizes_of_grabs grabs with scans | also
    · cases (inv.alone n seizes).1.symm.trans (inv.lockCall m scans)
    · exact (inv.alone n seizes).2 m also
  | bumpBlocked => exact inv.quiet (Nat.le_succ _) ⟨rfl, rfl, rfl, rfl⟩ rfl (by rw [at_call]; rfl) rfl

theorem step_awake {a : Action} (serial : Serial s a) (taken : step s a = some s') : Awake s' := by
  cases a with
  | enter f =>
    obtain ⟨user, ⟨⟩⟩ := Option.ite_none_right_eq_some.mp taken
    have at_pc := Pc.eq_user user
    have running := inv.running (by rw [at_pc]; rfl)
    have awake : s.task.state ≠ .blocked := by rw [running]; rintro ⟨⟩
    refine inv.own awake rfl rfl awake (fun _ => running) ?_ (fun _ => id) (fun n seizes => (inv.alone n seizes).1)
      le_rfl ?_ (by rintro _ ⟨⟩) ?_ (by rintro _ ⟨⟩)
    · exact inv.lockTask.trans (by rw [at_pc]; exact Iff.rfl)
    · rintro g (checks | tested)
      · exact checks
      · cases tested
    · rintro g _ (fresh | ⟨sig, posted, _⟩)
      · cases fresh
      · cases posted
  | task => exact taskStep_awake inv serial taken
  | dispatch =>
    simp only [step] at taken
    split at taken
    next user =>
      split at taken
      · cases taken
        exact inv.walk (Pc.eq_user user) rfl rfl rfl inv.snap rfl rfl rfl
      · cases taken
        exact inv
    · cases taken
  | sigmask blocked =>
    obtain ⟨user, ⟨⟩⟩ := Option.ite_none_right_eq_some.mp taken
    have at_pc := Pc.eq_user user
    exact inv.walk at_pc rfl rfl rfl inv.snap (by rw [at_pc]; rfl) (by rw [at_pc]; rfl) (by rw [at_pc]; rfl)
  | sigaction sig disposition =>
    obtain ⟨user, ⟨⟩⟩ := Option.ite_none_right_eq_some.mp taken
    simp only [Bool.and_eq_true] at user
    have at_pc := Pc.eq_user user.1.1
    exact inv.walk at_pc rfl rfl rfl inv.snap (by rw [at_pc]; rfl) (by rw [at_pc]; rfl) (by rw [at_pc]; rfl)
  | preempt =>
    obtain ⟨user, ⟨⟩⟩ := Option.ite_none_right_eq_some.mp taken
    have at_pc := Pc.eq_user user
    have running := inv.running (by rw [at_pc]; rfl)
    exact inv.outside (by rw [running]; rintro ⟨⟩) (by rintro ⟨⟩) (by rintro ⟨⟩) inv.snap rfl rfl rfl (.inl ⟨rfl, by rw [at_pc]; rfl⟩)
  | resume =>
    obtain ⟨idle, ⟨⟩⟩ := Option.ite_none_right_eq_some.mp taken
    have at_pc := Pc.eq_off idle.1
    exact inv.outside (by rw [idle.2]; rintro ⟨⟩) (by rintro ⟨⟩) (fun _ => rfl) inv.snap rfl rfl rfl (.inl ⟨rfl, by rw [at_pc]; rfl⟩)
  | wake n w =>
    obtain ⟨out, ⟨⟩⟩ := Option.ite_none_right_eq_some.mp taken
    simp only [Bool.and_eq_true] at out
    have at_call := Call.eq_out out.1
    refine inv.move ⟨rfl, rfl, rfl, rfl⟩ le_rfl never never never (.inl fun _ => id) ?_ ?_ ?_ ?_ ?_
    · rw [at_call]; rintro ⟨⟩
    · rintro (fresh | posted)
      · rcases Bool.or_eq_true_iff.mp fresh with before | mine
        · exact .inl (.inl before)
        · refine .inr fun f waiting => ⟨?_, rfl, rfl⟩
          rw [waiting] at mine
          exact List.contains_iff_mem.mp mine
      · exact .inl (.inr posted)
    · rw [at_call]; rintro _ ⟨⟩
    · rw [at_call]; rintro _ _ ⟨⟩
    · rw [at_call]; rintro _ _ _ ⟨⟩
  | post n sig =>
    obtain ⟨out, ⟨⟩⟩ := Option.ite_none_right_eq_some.mp taken
    exact inv.quiet le_rfl ⟨rfl, rfl, rfl, rfl⟩ rfl (by rw [Call.eq_out out.1]; rfl) rfl
  | call n =>
    simp only [step] at taken
    split at taken
    · cases taken
    next w stage at_call => exact wakeStep_awake inv serial at_call taken
    next sig stage at_call =>
      cases taken
      exact postStep_awake inv serial at_call
  | consume f =>
    cases taken
    exact ⟨inv.running, inv.lockTask, inv.lockCall, inv.alone, inv.grabbed, inv.snap, inv.waits, inv.armed, inv.early, inv.late, inv.asleep⟩
  | note =>
    cases taken
    have moved : s.seq + 1 ≠ s.task.wakeSnap := by
      have := inv.snap
      omega
    exact ⟨inv.running, inv.lockTask, inv.lockCall, inv.alone, inv.grabbed, Nat.le_succ_of_le inv.snap, inv.waits, inv.armed,
      fun _ _ _ => .inl moved, inv.late, inv.asleep⟩

end

theorem started_awake (pid : Nat) : Awake (started pid) where
  running := fun _ => rfl
  lockTask := ⟨nofun, nofun⟩
  lockCall := nofun
  alone := nofun
  grabbed := nofun
  snap := Nat.zero_le _
  waits := nofun
  armed := nofun
  early := nofun
  late := nofun
  asleep := nofun

/-- Nobody is in the middle of a call, the task sleeps, and it should not. -/
def Lost (s : State) : Prop := s.task.state = .blocked ∧ (∀ n, s.call n = .out) ∧ Owed s

theorem Awake.unlost (inv : Awake s) : ¬ Lost s := by
  rintro ⟨blocked, out, owed⟩
  obtain ⟨f, _, _, promised⟩ := inv.asleep blocked
  obtain ⟨n, promise⟩ := promised owed
  rw [out n] at promise
  exact promise

/-- No interleaving of blocking with wakers and signals loses a wake-up, as long as the
test and the wake-up of `signal_post` are not interleaved with a critical section. -/
theorem no_lost_wakeup (pid : Nat) (schedule : List Action) (serial : Along step Serial (started pid) schedule)
    (run : schedule.foldlM step (started pid) = some s) : ¬ Lost s := by
  have inv : Awake s := run_keeps (fun _ _ _ inv serial taken => step_awake inv serial taken) (started_awake pid) serial run
  exact inv.unlost

end

def blockOnPipe : List Action := .enter (.pipe 1) :: List.replicate 6 .task

def wakeFromPipe : List Action := .wake 0 (.pipe 1) :: List.replicate 6 (.call 0)

theorem pipe_reader_woken :
    ∃ s, (blockOnPipe ++ wakeFromPipe).foldlM step (started 1) = some s ∧ s.fresh = true ∧ s.task.state = .ready ∧ ¬ Lost s := by
  refine ⟨_, rfl, rfl, rfl, no_lost_wakeup 1 (blockOnPipe ++ wakeFromPipe) ?_ rfl⟩
  refine .cons trivial rfl (.cons trivial rfl (.cons trivial rfl (.cons ?_ rfl ?_)))
  · exact fun _ => rfl
  refine .cons trivial rfl (.cons trivial rfl (.cons trivial rfl (.cons trivial rfl (.cons trivial rfl (.cons ?_ rfl ?_)))))
  · exact forall_call (P := fun _ c => c.seizes = false) (forall_call (P := fun _ c => c.seizes = false) (fun _ => rfl) rfl) rfl
  exact .cons trivial rfl (.cons trivial rfl (.cons trivial rfl (.cons trivial rfl trivial)))

/-- SIGINT is posted between the sleeper's test of the sequence number and its store. -/
def interruptInWindow : List Action :=
  .enter (.pipe 1) :: List.replicate 4 .task ++ .post 0 2 :: List.replicate 4 (.call 0) ++ List.replicate 2 .task

theorem signal_lost_by_sleeper :
    ∃ s, interruptInWindow.foldlM step (started 1) = some s ∧ s.task.sigPending 2 = true ∧ Lost s := by
  refine ⟨_, rfl, rfl, rfl, fun n => ?_, .inr ⟨2, rfl, rfl⟩⟩
  by_cases here : n = 0
  · subst here
    rfl
  · have others : ∀ a ∈ interruptInWindow, a.caller ≠ some n := by
      simp [interruptInWindow, Action.caller, Ne.symm here]
    exact run_call (s := started 1) others rfl

end SecOS.Wake
