import SecOS.Proofs.WakeFrame

/-! Stop and continue. `signal_dispatch` takes the pending bit of a stop signal long before
`sched_stop_current` stores the state; a SIGCONT or SIGKILL in between finds a running task. -/

namespace SecOS.Wake
open Library

def Pc.stops (t : Task) : Pc → Bool
  | .read sig | .taken sig => t.stops sig
  | .stopping _ => true
  | _ => false

def Call.killing : Call → Bool
  | .post sig at_ => sig == sigkill && [.wakeStopped, .bumpStopped, .mark].contains at_
  | _ => false

/-- A SIGKILL past its wake-up of a stopped task. -/
def Call.killed : Call → Bool
  | .post sig at_ => sig == sigkill && [.bumpStopped, .mark].contains at_
  | _ => false

def Call.resuming : Call → Bool
  | .post sig at_ => sig == sigcont && [.start, .resume].contains at_
  | _ => false

/-- A SIGCONT that makes the task ready if it is stopped. -/
def Call.wakes : Call → Bool
  | .post sig at_ => sig == sigcont && [.start, .resume, .wakeStopped].contains at_
  | _ => false

/-- SIGCONT and SIGKILL do not look for a stopped task while it is about to stop, and it
does not begin to while a SIGKILL that has looked is not yet pending. -/
def Apart (s : State) : Action → Prop
  | .call n =>
    match s.call n with
    | .post _ .resume => s.pc.stops s.task = false
    | _ => True
  | .dispatch => (s.task.lowest.any s.task.stops) = true → ∀ n, (s.call n).killing = false
  | _ => True

structure Resumable (s : State) : Prop where
  running : s.pc.away = false → s.task.state = .running
  window : s.pc.stops s.task = true → s.task.sigPending sigkill = false ∧ (∀ n, (s.call n).killing = false) ∧
    (s.contLast = true → ∃ n, (s.call n).resuming = true)
  stopped : s.task.state = .stopped → s.task.sigPending sigkill = false ∧ (∀ n, (s.call n).killed = false) ∧
    (s.contLast = true → ∃ n, (s.call n).wakes = true)
  cancelled : s.contLast = true → ∀ sig, sigDefaultStop sig = true → s.task.sigPending sig = true →
    ∃ n, s.call n = .post sigcont .start

section
variable {s s' : State} {n : Nat} {c : Call}

variable {t : Task}

theorem Resumable.move {q : Nat} {l : Option Holder} {v : Wait → Bool} {r k : Bool} {p : Nat → Bool} (inv : Resumable s)
    (state : t.state = s.task.state ∨ s.task.state ≠ .running ∧ t.state = .ready) (stops : t.stops = s.task.stops)
    (last : k = true → s.contLast = true ∨ c = .post sigcont .start)
    (kill : s.pc.stops s.task = true ∨ s.task.state = .stopped → t.sigPending sigkill = true → s.task.sigPending sigkill = true)
    (killing : s.pc.stops s.task = true → c.killing = true → (s.call n).killing = true)
    (killed : t.state = .stopped → c.killed = true → (s.call n).killed = true)
    (resuming : s.pc.stops s.task = true → (s.call n).resuming = true → c.resuming = true)
    (wakes : t.state = .stopped → (s.call n).wakes = true → c.wakes = true)
    (cancelled : k = true → ∀ sig, sigDefaultStop sig = true → t.sigPending sig = true →
      s.task.sigPending sig = true ∧ (s.call n = .post sigcont .start → c = .post sigcont .start)) :
    Resumable ({ s with task := t, seq := q, lock := l, satisfied := v, fresh := r, posted := p, contLast := k }.setCall n c) := by
  have place : s.pc.stops t = s.pc.stops s.task := by
    cases s.pc <;> simp only [Pc.stops, stops]
  have still : t.state = .stopped → s.task.state = .stopped := by
    intro stopped
    rcases state with same | ⟨_, ready⟩
    · exact same.symm.trans stopped
    · exact nomatch ready.symm.trans stopped
  have entry : ∀ P : Call → Prop, c = .post sigcont .start → P (.post sigcont .start) →
      ∃ m, P (({ s with task := t, seq := q, lock := l, satisfied := v, fresh := r, posted := p, contLast := k }.setCall n c).call m) := by
    intro P mine holds
    exact ⟨n, by rw [call_self, mine]; exact holds⟩
  refine ⟨fun on => ?_, fun stopping => ?_, fun stopped => ?_, fun latest sig stop pending => ?_⟩
  · rcases state with same | ⟨idle, _⟩
    · exact same.trans (inv.running on)
    · exact absurd (inv.running on) idle
  · have stopping : s.pc.stops s.task = true := place.symm.trans stopping
    obtain ⟨unkilled, nobody, due⟩ := inv.window stopping
    refine ⟨?_, ?_, fun latest => ?_⟩
    · exact Bool.eq_false_iff.mpr fun pending => nomatch unkilled.symm.trans (kill (.inl stopping) pending)
    · refine forall_call (P := fun _ c => c.killing = false) nobody (Bool.eq_false_iff.mpr fun here => ?_)
      exact nomatch (nobody n).symm.trans (killing stopping here)
    · rcases last latest with before | mine
      · exact exists_call (P := fun c => c.resuming = true) (due before) (resuming stopping)
      · exact entry (fun c => c.resuming = true) mine rfl
  · obtain ⟨unkilled, nobody, due⟩ := inv.stopped (still stopped)
    refine ⟨?_, ?_, fun latest => ?_⟩
    · exact Bool.eq_false_iff.mpr fun pending => nomatch unkilled.symm.trans (kill (.inr (still stopped)) pending)
    · refine forall_call (P := fun _ c => c.killed = false) nobody (Bool.eq_false_iff.mpr fun here => ?_)
      exact nomatch (nobody n).symm.trans (killed stopped here)
    · rcases last latest with before | mine
      · exact exists_call (P := fun c => c.wakes = true) (due before) (wakes stopped)
      · exact entry (fun c => c.wakes = true) mine rfl
  · obtain ⟨before, moves⟩ := cancelled latest sig stop pending
    rcases last latest with old | mine
    · exact exists_call (P := fun c => c = .post sigcont .start) (inv.cancelled old sig stop before) moves
    · exact entry (fun c => c = .post sigcont .start) mine rfl

theorem Call.killing_of_killed (killed : c.killed = true) : c.killing = true := by
  cases c with
  | post sig at_ =>
    cases at_ with
    | bumpStopped | mark => exact killed
    | _ => exact nomatch (Bool.and_eq_true_iff.mp killed).2
  | _ => exact nomatch killed

theorem Call.wakes_of_resuming (resuming : c.resuming = true) : c.wakes = true := by
  cases c with
  | post sig at_ =>
    cases at_ with
    | start | resume => exact resuming
    | _ => exact nomatch (Bool.and_eq_true_iff.mp resuming).2
  | _ => exact nomatch resuming

/-- A step of the task itself: it can only stop from where it has read a stop signal. -/
theorem Resumable.own (inv : Resumable s) (calls : s'.call = s.call) (last : s'.contLast = s.contLast)
    (running : s'.pc.away = false → s'.task.state = .running)
    (pending : ∀ sig, s'.task.sigPending sig = true → s.task.sigPending sig = true)
    (window : s'.pc.stops s'.task = true → s.pc.stops s.task = true ∨ (s.task.sigPending sigkill = false ∧
      (∀ n, (s.call n).killing = false) ∧ (s.contLast = true → ∃ n, (s.call n).resuming = true)))
    (stopped : s'.task.state = .stopped → s.task.state = .stopped ∨ s.pc.stops s.task = true) : Resumable s' := by
  have unkilled : s.task.sigPending sigkill = false → s'.task.sigPending sigkill = false :=
    fun before => Bool.eq_false_iff.mpr fun now => nomatch before.symm.trans (pending _ now)
  refine ⟨running, fun stopping => ?_, fun now => ?_, ?_⟩
  · rw [calls, last]
    have held := (window stopping).elim inv.window id
    exact ⟨unkilled held.1, held.2⟩
  · rw [calls, last]
    rcases stopped now with before | stopping
    · have held := inv.stopped before
      exact ⟨unkilled held.1, held.2⟩
    · obtain ⟨before, nobody, due⟩ := inv.window stopping
      refine ⟨unkilled before, fun n => Bool.eq_false_iff.mpr fun killed => ?_, fun latest => ?_⟩
      · exact nomatch (nobody n).symm.trans (Call.killing_of_killed killed)
      · obtain ⟨n, resuming⟩ := due latest
        exact ⟨n, Call.wakes_of_resuming resuming⟩
  · rw [calls, last]
    exact fun latest sig stop now => inv.cancelled latest sig stop (pending sig now)

variable {sig : Nat}

theorem setPending_false {other : Nat} (now : (t.setPending sig false).sigPending other = true) :
    t.sigPending other = true := by
  by_cases here : other = sig
  · subst here
    have gone : (t.setPending other false).sigPending other = false := Function.update_self ..
    exact nomatch gone.symm.trans now
  · exact (Function.update_of_ne here _ _).symm.trans now

theorem never_both {a : Bool} {P : Prop} (both : (a && false) = true) : P := by cases (Bool.and_eq_true_iff.mp both).2

section
variable (inv : Resumable s)
include inv

theorem taskStep_resumable (taken : taskStep s s.pc = some s') : Resumable s' := by
  have running := inv.running
  have place : ∀ {t : Task} {pc : Pc} {lock : Option Holder}, (pc.away = false → t.state = .running) →
      (∀ sig, t.sigPending sig = true → s.task.sigPending sig = true) → (pc.stops t = true → s.pc.stops s.task = true) →
      (t.state = .stopped → s.task.state = .stopped ∨ s.pc.stops s.task = true) →
      Resumable { s with task := t, pc := pc, lock := lock } := by
    intro t pc lock running pending window stopped
    exact inv.own rfl rfl running pending (fun stopping => .inl (window stopping)) stopped
  cases at_pc : s.pc with
  | user | off => rw [at_pc] at taken; cases taken
  | snapped f =>
    rw [at_pc] at taken running
    cases taken
    split
    all_goals exact place (fun _ => running rfl) (fun _ => id) never .inl
  | unmet f =>
    rw [at_pc] at taken running
    cases taken
    have same : (s.task.arm f).state = s.task.state ∧ (s.task.arm f).sigPending = s.task.sigPending := by
      cases f <;> exact ⟨rfl, rfl⟩
    exact place (fun _ => same.1.trans (running rfl)) (fun _ => same.2 ▸ id) never fun stopped => .inl (same.1.symm.trans stopped)
  | armed f =>
    rw [at_pc] at taken running
    simp only [taskStep] at taken
    split at taken <;> cases taken
    exact place (fun _ => running rfl) (fun _ => id) never .inl
  | locked f =>
    rw [at_pc] at taken running
    cases taken
    split
    all_goals exact place (fun _ => running rfl) (fun _ => id) never .inl
  | tested f =>
    rw [at_pc] at taken
    cases taken
    exact place (by rintro ⟨⟩) (fun _ => id) never (by rintro ⟨⟩)
  | slept =>
    rw [at_pc] at taken
    cases taken
    exact place (by rintro ⟨⟩) (fun _ => id) never .inl
  | moved =>
    rw [at_pc] at taken running
    cases taken
    exact place (fun _ => running rfl) (fun _ => id) never .inl
  | rerun =>
    rw [at_pc] at taken running
    cases taken
    exact place (fun _ => running rfl) (fun _ => id) never .inl
  | read sig =>
    rw [at_pc] at taken running
    cases taken
    exact place (fun _ => running rfl) (fun _ => setPending_false) (by rw [at_pc]; exact id) .inl
  | taken sig =>
    rw [at_pc] at taken running
    simp only [taskStep] at taken
    split at taken
    · cases taken
      exact place (by rintro ⟨⟩) (fun _ => id) never (by rintro ⟨⟩)
    split at taken
    next stops =>
      cases taken
      exact place (fun _ => running rfl) (fun _ => id) (fun _ => by rw [at_pc]; exact stops) .inl
    · split at taken
      · cases taken
        exact place (fun _ => running rfl) (fun _ => id) never .inl
      · split at taken <;> cases taken
        · exact place (fun _ => running rfl) (fun _ => id) never .inl
        · exact place (by rintro ⟨⟩) (fun _ => id) never (by rintro ⟨⟩)
      · cases taken
        exact place (fun _ => running rfl) (fun _ => id) never .inl
  | stopping sig =>
    rw [at_pc] at taken
    cases taken
    exact place (by rintro ⟨⟩) (fun _ => id) never fun _ => .inr (by rw [at_pc]; rfl)

theorem Resumable.running_of_stops (stopping : s.pc.stops s.task = true) : s.task.state = .running := by
  refine inv.running ?_
  cases at_pc : s.pc with
  | slept | off => rw [at_pc] at stopping; exact nomatch stopping
  | _ => rfl

theorem Resumable.quiet {q : Nat} {l : Option Holder} {v : Wait → Bool} {r : Bool}
    (state : t.state = s.task.state ∨ s.task.state ≠ .running ∧ t.state = .ready) (stops : t.stops = s.task.stops)
    (pending : ∀ sig, t.sigPending sig = true → s.task.sigPending sig = true) (before : (s.call n).wakes = false)
    (after : c.killing = false) :
    Resumable ({ s with task := t, seq := q, lock := l, satisfied := v, fresh := r }.setCall n c) := by
  refine inv.move state stops .inl ?_ ?_ ?_ ?_ ?_ ?_
  · exact fun _ => pending sigkill
  · exact fun _ here => nomatch after.symm.trans here
  · exact fun _ here => nomatch after.symm.trans (Call.killing_of_killed here)
  · exact fun _ here => nomatch before.symm.trans (Call.wakes_of_resuming here)
  · exact fun _ here => nomatch before.symm.trans here
  · refine fun _ sig _ now => ⟨pending sig now, fun start => ?_⟩
    rw [start] at before
    exact nomatch before

theorem wakeStep_resumable {w : Waker} {stage : WakeAt} (at_call : s.call n = .wake w stage)
    (taken : wakeStep s n w stage = some s') : Resumable s' := by
  have before : (s.call n).wakes = false := by rw [at_call]; rfl
  cases stage with
  | published =>
    cases taken
    exact inv.quiet (.inl rfl) rfl (fun _ => id) before rfl
  | bumped =>
    simp only [wakeStep] at taken
    split at taken <;> cases taken
    exact inv.quiet (.inl rfl) rfl (fun _ => id) before rfl
  | scan rest =>
    cases rest with
    | nil | cons =>
      cases taken
      exact inv.quiet (.inl rfl) rfl (fun _ => id) before rfl
  | found f rest =>
    cases taken
    have same : (s.task.disarm w.code f).state = s.task.state ∧ (s.task.disarm w.code f).stops = s.task.stops ∧
        (s.task.disarm w.code f).sigPending = s.task.sigPending := by
      cases f <;> exact ⟨rfl, rfl, rfl⟩
    exact inv.quiet (.inl same.1) same.2.1 (fun _ => same.2.2 ▸ id) before rfl
  | cleared rest =>
    simp only [wakeStep] at taken
    split at taken <;> cases taken
    next blocked => exact inv.quiet (.inr ⟨by rw [blocked]; rintro ⟨⟩, rfl⟩) rfl (fun _ => id) before rfl
    · exact inv.quiet (.inl rfl) rfl (fun _ => id) before rfl

theorem postStep_resumable {stage : PostAt} (apart : Apart s (.call n))
    (at_call : s.call n = .post sig stage) : Resumable (postStep s n sig stage) := by
  have idle (late : [.start, .resume, .wakeStopped].contains stage = false) : (s.call n).wakes = false := by
    rw [at_call, Call.wakes, late, Bool.and_false]
  cases stage with
  | start =>
    simp only [postStep]
    split
    next cont =>
      subst cont
      refine inv.move (.inl rfl) rfl .inl ?_ (by rintro _ ⟨⟩) (by rintro _ ⟨⟩) (fun _ _ => rfl) (fun _ _ => rfl) ?_
      · exact fun _ now => (Bool.and_eq_true_iff.mp now).1
      · intro _ sig stop now
        have unstop := (Bool.and_eq_true_iff.mp now).2
        rw [stop] at unstop
        cases unstop
    next other =>
      have before : (s.call n).wakes = false := by
        rw [at_call]
        exact Bool.and_eq_false_imp.mpr fun same => absurd (beq_iff_eq.mp same) other
      split
      · exact inv.quiet (.inl rfl) rfl (fun _ => id) before (Bool.and_false _)
      next mild =>
        have after : (Call.post sig .mark).killing = false := Bool.and_eq_false_imp.mpr fun same => absurd (beq_iff_eq.mp same) mild
        split
        · refine inv.quiet (.inl rfl) rfl (fun other now => ?_) before after
          exact setPending_false now
        · exact inv.quiet (.inl rfl) rfl (fun _ => id) before after
  | resume =>
    simp only [Apart, at_call] at apart
    have outside : ¬ s.pc.stops s.task = true := Bool.eq_false_iff.mp apart
    refine inv.move (.inl rfl) rfl .inl (fun _ => id) (fun stopping => absurd stopping outside) ?_
      (fun stopping => absurd stopping outside) ?_ ?_
    · intro stopped killed
      rw [if_pos stopped] at killed
      cases (Bool.and_eq_true_iff.mp killed).2
    · intro stopped wakes
      rw [at_call] at wakes
      rw [if_pos stopped]
      exact wakes
    · rw [at_call]
      exact fun _ _ _ now => ⟨now, (by rintro ⟨⟩)⟩
  | wakeStopped =>
    simp only [postStep]
    split
    next stopped =>
      have outside : ¬ s.pc.stops s.task = true := fun stopping => by cases stopped.symm.trans (inv.running_of_stops stopping)
      refine inv.move (.inr ⟨by rw [stopped]; rintro ⟨⟩, rfl⟩) rfl .inl (fun _ => id) (fun stopping => absurd stopping outside) (by rintro ⟨⟩)
        (fun stopping => absurd stopping outside) (by rintro ⟨⟩) ?_
      rw [at_call]
      exact fun _ _ _ now => ⟨now, (by rintro ⟨⟩)⟩
    next unstopped =>
      refine inv.move (.inl rfl) rfl .inl (fun _ => id) ?_ (fun stopped => absurd stopped unstopped) ?_
        (fun stopped => absurd stopped unstopped) ?_
      · rw [at_call]
        exact fun _ => id
      · rw [at_call]
        exact fun _ => never_both
      · rw [at_call]
        exact fun _ _ _ now => ⟨now, (by rintro ⟨⟩)⟩
  | bumpStopped =>
    refine inv.move (.inl rfl) rfl .inl (fun _ => id) ?_ ?_ ?_ ?_ ?_
    · rw [at_call]
      exact fun _ => id
    · rw [at_call]
      exact fun _ => id
    · rw [at_call]
      exact fun _ => never_both
    · rw [at_call]
      exact fun _ => never_both
    · rw [at_call]
      exact fun _ _ _ now => ⟨now, (by rintro ⟨⟩)⟩
  | mark =>
    have unkill : s.pc.stops s.task = true ∨ s.task.state = .stopped → sig ≠ sigkill := by
      rintro place rfl
      rcases place with stopping | stopped
      · have idle := (inv.window stopping).2.1 n
        rw [at_call] at idle
        cases idle
      · have idle := (inv.stopped stopped).2.1 n
        rw [at_call] at idle
        cases idle
    refine inv.move (.inl rfl) rfl (fun latest => .inl (Bool.and_eq_true_iff.mp latest).1) ?_ ?_ ?_ ?_ ?_ ?_
    · intro place now
      exact (Function.update_of_ne (unkill place).symm _ _).symm.trans now
    · exact fun _ => never_both
    · exact fun _ => never_both
    · rw [at_call]
      exact fun _ => never_both
    · rw [at_call]
      exact fun _ => never_both
    · intro latest other stop now
      have different : other ≠ sig := by
        rintro rfl
        have unstop := (Bool.and_eq_true_iff.mp latest).2
        rw [stop] at unstop
        cases unstop
      rw [at_call]
      exact ⟨(Function.update_of_ne different _ _).symm.trans now, (by rintro ⟨⟩)⟩
  | note => exact inv.quiet (.inl rfl) rfl (fun _ => id) (idle rfl) (Bool.and_false _)
  | judge =>
    simp only [postStep]
    split
    · exact inv.quiet (.inl rfl) rfl (fun _ => id) (idle rfl) (Bool.and_false _)
    · exact inv.quiet (.inl rfl) rfl (fun _ => id) (idle rfl) rfl
  | tear => exact inv.quiet (.inl rfl) rfl (fun _ => id) (idle rfl) (Bool.and_false _)
  | wakeBlocked =>
    simp only [postStep]
    split
    next blocked =>
      exact inv.quiet (.inr ⟨by rw [blocked]; rintro ⟨⟩, rfl⟩) rfl (fun _ => id) (idle rfl) (Bool.and_false _)
    · exact inv.quiet (.inl rfl) rfl (fun _ => id) (idle rfl) rfl
  | bumpBlocked => exact inv.quiet (.inl rfl) rfl (fun _ => id) (idle rfl) rfl

end

theorem Task.default_of_stops (stops : t.stops sig = true) : sigDefaultStop sig = true := by
  rcases Bool.or_eq_true_iff.mp stops with stop | listed
  · rw [beq_iff_eq.mp stop]
    rfl
  · exact (Bool.and_eq_true_iff.mp listed).1

/-- A stop signal is taken only when no SIGKILL is pending: it has a lower number. -/
theorem Task.lowest_stop (lowest : t.lowest = some sig) (stops : t.stops sig = true) :
    t.sigPending sig = true ∧ t.sigPending sigkill = false := by
  obtain ⟨taken, _, below⟩ := List.find?_range'_eq_some.mp lowest
  have up : sigkill < sig := by
    have default := Task.default_of_stops stops
    simp only [sigDefaultStop, Bool.or_eq_true, beq_iff_eq] at default
    rcases default with ((rfl | rfl) | rfl) | rfl <;> decide
  have passed := below sigkill (by decide) up
  refine ⟨(Bool.and_eq_true_iff.mp taken).1, ?_⟩
  simpa [Task.unmasked] using passed

theorem step_resumable {a : Action} (inv : Resumable s) (apart : Apart s a) (taken : step s a = some s') : Resumable s' := by
  have running : s.pc.isUser = true → s.task.state = .running := fun user => inv.running (by rw [Pc.eq_user user]; rfl)
  have quiet : ∀ {t : Task}, s.pc.isUser = true → s.pc.stops t = true → s.pc.stops s.task = true := by
    intro t user stopping
    rw [Pc.eq_user user] at stopping
    cases stopping
  cases a with
  | enter f =>
    simp only [step] at taken
    split at taken <;> cases taken
    next user => exact inv.own rfl rfl (fun _ => running user) (fun _ => id) never .inl
  | task => exact taskStep_resumable inv taken
  | dispatch =>
    simp only [step] at taken
    split at taken
    next user =>
      split at taken <;> cases taken
      next sig lowest =>
        refine inv.own rfl rfl (fun _ => running user) (fun _ => id) (fun stops => .inr ?_) .inl
        obtain ⟨pending, unkilled⟩ := Task.lowest_stop lowest stops
        refine ⟨unkilled, apart (by rw [lowest]; exact stops), fun latest => ?_⟩
        obtain ⟨n, start⟩ := inv.cancelled latest sig (Task.default_of_stops stops) pending
        exact ⟨n, by rw [start]; rfl⟩
      · exact inv
    · cases taken
  | sigmask blocked =>
    simp only [step] at taken
    split at taken <;> cases taken
    next user => exact inv.own rfl rfl (fun _ => running user) (fun _ => id) (fun stopping => .inl (quiet user stopping)) .inl
  | sigaction sig disposition =>
    simp only [step] at taken
    split at taken <;> cases taken
    next user =>
      have user := (Bool.and_eq_true_iff.mp (Bool.and_eq_true_iff.mp user).1).1
      exact inv.own rfl rfl (fun _ => running user) (fun _ => id) (fun stopping => .inl (quiet user stopping)) .inl
  | preempt =>
    simp only [step] at taken
    split at taken <;> cases taken
    exact inv.own rfl rfl (by rintro ⟨⟩) (fun _ => id) never (by rintro ⟨⟩)
  | resume =>
    simp only [step] at taken
    split at taken <;> cases taken
    exact inv.own rfl rfl (fun _ => rfl) (fun _ => id) never (by rintro ⟨⟩)
  | wake n w =>
    simp only [step] at taken
    split at taken <;> cases taken
    next out =>
      have at_call := Call.eq_out (Bool.and_eq_true_iff.mp out).1
      exact inv.quiet (.inl rfl) rfl (fun _ => id) (by rw [at_call]; rfl) rfl
  | post n sig =>
    simp only [step] at taken
    split at taken <;> cases taken
    next out =>
      have at_call := Call.eq_out out.1
      refine inv.move (.inl rfl) rfl ?_ (fun _ => id) ?_ ?_ ?_ ?_ ?_
      · intro latest
        refine (Bool.or_eq_true_iff.mp latest).imp id fun cont => ?_
        rw [beq_iff_eq.mp cont]
      · exact fun _ => never_both
      · exact fun _ => never_both
      · rw [at_call]
        rintro _ ⟨⟩
      · rw [at_call]
        rintro _ ⟨⟩
      · rw [at_call]
        exact fun _ _ _ now => ⟨now, (by rintro ⟨⟩)⟩
  | call n =>
    simp only [step] at taken
    split at taken
    · cases taken
    next w stage at_call => exact wakeStep_resumable inv at_call taken
    next sig stage at_call =>
      cases taken
      exact postStep_resumable inv apart at_call
  | consume f | note =>
    cases taken
    exact ⟨inv.running, inv.window, inv.stopped, inv.cancelled⟩

theorem started_resumable (pid : Nat) : Resumable (started pid) := ⟨fun _ => rfl, nofun, nofun, nofun⟩

/-- Nobody is in the middle of a call, the task is stopped, and it should have been
continued or killed. -/
def LeftStopped (s : State) : Prop :=
  s.task.state = .stopped ∧ (∀ n, s.call n = .out) ∧ (s.contLast = true ∨ s.task.sigPending sigkill = true)

theorem Resumable.not_left_stopped (inv : Resumable s) : ¬ LeftStopped s := by
  rintro ⟨stopped, out, latest | pending⟩
  · obtain ⟨n, wakes⟩ := (inv.stopped stopped).2.2 latest
    rw [out n] at wakes
    exact nomatch wakes
  · exact nomatch (inv.stopped stopped).1.symm.trans pending

/-- No interleaving of a stop with posts loses a SIGCONT or a SIGKILL, as long as their
look at the state does not fall between the read of the stop signal and the stop. -/
theorem continue_not_lost (pid : Nat) (schedule : List Action) (apart : Along step Apart (started pid) schedule)
    (run : schedule.foldlM step (started pid) = some s) : ¬ LeftStopped s := by
  have inv : Resumable s :=
    run_keeps (fun _ _ _ inv apart taken => step_resumable inv apart taken) (started_resumable pid) apart run
  exact inv.not_left_stopped

end

def stopThenContinue : List Action :=
  .post 0 sigtstp :: List.replicate 4 (.call 0) ++ .dispatch :: List.replicate 3 .task ++ .post 1 sigcont :: List.replicate 7 (.call 1)

theorem stopped_task_continued : ∃ s, stopThenContinue.foldlM step (started 1) = some s ∧ s.contLast = true ∧ s.task.state = .ready ∧
    s.task.contReport = true ∧ ¬ LeftStopped s := by
  refine ⟨_, rfl, rfl, rfl, rfl, continue_not_lost 1 stopThenContinue ?_ rfl⟩
  refine .cons trivial rfl (.cons trivial rfl (.cons trivial rfl (.cons trivial rfl (.cons trivial rfl (.cons ?_ rfl ?_)))))
  · intro _ n
    by_cases here : n = 0
    · subst here
      rfl
    · have others : ∀ a ∈ Action.post 0 sigtstp :: List.replicate 4 (.call 0), a.caller ≠ some n := by
        simp [Action.caller, Ne.symm here]
      exact congrArg Call.killing (run_call (s := started 1) others rfl)
  refine .cons trivial rfl (.cons trivial rfl (.cons trivial rfl (.cons trivial rfl (.cons trivial rfl (.cons rfl rfl ?_)))))
  exact .cons trivial rfl (.cons trivial rfl (.cons trivial rfl (.cons trivial rfl (.cons trivial rfl trivial))))

/-- The SIGCONT is posted after the pending bit is taken and before the task stops. -/
def continueInWindow : List Action :=
  .post 0 sigtstp :: List.replicate 4 (.call 0) ++ [.dispatch, .task] ++ .post 1 sigcont :: List.replicate 5 (.call 1) ++ [.task, .task]

theorem continue_lost_in_window : ∃ s, continueInWindow.foldlM step (started 1) = some s ∧ LeftStopped s := by
  refine ⟨_, rfl, rfl, fun n => ?_, .inl rfl⟩
  by_cases first : n = 0
  · subst first
    rfl
  by_cases second : n = 1
  · subst second
    rfl
  have others : ∀ a ∈ continueInWindow, a.caller ≠ some n := by
    simp [continueInWindow, Action.caller, Ne.symm first, Ne.symm second]
  exact run_call (s := started 1) others rfl

end SecOS.Wake
