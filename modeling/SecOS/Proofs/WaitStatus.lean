import SecOS.Waiting
import SecOS.Library.Counting
import SecOS.Library.Schedule

/-! Where the exit statuses are: in the zombie, in the mailbox of one waiter, or handed out. So
each end of a process is returned once. -/

namespace SecOS.Waiting
open Library Function List Finset Option

/-- Statuses of `key` that the process holds: in its mailbox, and as a zombie that nobody has
collected. -/
def held (key : Nat × Int) (p : Proc) : Nat :=
  (if p.waitReady = true ∧ (p.waitFrom, p.waitResult) = key then 1 else 0) +
    (if p.state = .zombie ∧ p.collected = false ∧ (p.pid, p.exitCode) = key then 1 else 0)

def heldIn (key : Nat × Int) (slot : Option Proc) : Nat := slot.elim 0 (held key)

def total (key : Nat × Int) (s : System) : Nat := ∑ i, heldIn key (s.procs i)

structure Sound (s : System) : Prop where
  low : 0 < s.nextPid ∧ s.nextPid < 2 ^ 32
  number : ∀ i p, s.procs i = some p → 0 < p.pid ∧ p.pid < s.nextPid ∧ p.waitPid < s.nextPid
  fresh : ∀ i p, s.procs i = some p → p.state ≠ .zombie → p.collected = false
  unique : ∀ i j p q, s.procs i = some p → s.procs j = some q → p.pid = q.pid → i = j
  single : ∀ i p, s.procs i = some p → p.ppid = 0 ∨ p.spawnerPid = 0
  /-- A process that a live one waits for is its child. -/
  own : ∀ i j w a, s.procs i = some w → s.procs j = some a → w.state ≠ .zombie → a.state ≠ .zombie → w.waitPid = a.pid →
    a.ppid = w.pid ∨ a.spawnerPid = w.pid
  empty : ∀ i p, s.procs i = some p → p.waitReady = true → p.waitPid < 0
  counts : ∀ key, s.handed.count key + total key s ≤ s.exits.count key

theorem sound_boot : Sound boot := by
  have vacant : ∀ i p, boot.procs i ≠ some p := by
    intro i p there
    cases there
  refine ⟨by decide, ?_, ?_, ?_, ?_, ?_, ?_, ?_⟩
  · exact fun i p there => absurd there (vacant i p)
  · exact fun i p there => absurd there (vacant i p)
  · exact fun i _ p _ there => absurd there (vacant i p)
  · exact fun i p there => absurd there (vacant i p)
  · exact fun i _ w _ there => absurd there (vacant i w)
  · exact fun i p there => absurd there (vacant i p)
  · intro key
    simp only [boot, total, heldIn, elim_none, sum_const_zero, count_nil]
    omega

structure Tame (p q : Proc) : Prop where
  pid : q.pid = p.pid
  ppid : q.ppid = p.ppid
  spawner : q.spawnerPid = p.spawnerPid
  code : q.exitCode = p.exitCode
  zombie : q.state = .zombie ↔ p.state = .zombie
  collected : q.collected = p.collected
  box : q.waitReady = true → p.waitReady = true ∧ q.waitFrom = p.waitFrom ∧ q.waitResult = p.waitResult
  waits : q.waitPid = p.waitPid ∨ q.waitPid < 0

theorem Tame.refl (p : Proc) : Tame p p := ⟨rfl, rfl, rfl, rfl, Iff.rfl, rfl, fun full => ⟨full, rfl, rfl⟩, .inl rfl⟩

theorem Tame.held {p q : Proc} (tame : Tame p q) (key : Nat × Int) : held key q ≤ held key p := by
  unfold Waiting.held
  apply Nat.add_le_add
  · split
    next full =>
      obtain ⟨before, source, result⟩ := tame.box full.1
      rw [if_pos ⟨before, by rw [← full.2, source, result]⟩]
    · exact Nat.zero_le _
  · split
    next ghost =>
      rw [if_pos ⟨tame.zombie.mp ghost.1, tame.collected.symm.trans ghost.2.1, by rw [← ghost.2.2, tame.pid, tame.code]⟩]
    · exact Nat.zero_le _

def TameSlot : Option Proc → Option Proc → Prop
  | none, none => True
  | some p, some q => Tame p q
  | _, _ => False

theorem TameSlot.refl (slot : Option Proc) : TameSlot slot slot := by
  cases slot with
  | none => trivial
  | some p => exact Tame.refl p

theorem TameSlot.some_after {slot : Option Proc} {q : Proc} (tame : TameSlot slot (some q)) : ∃ p, slot = some p ∧ Tame p q := by
  cases slot with
  | none => exact absurd tame id
  | some p => exact ⟨p, rfl, tame⟩

theorem TameSlot.held {slot after : Option Proc} (tame : TameSlot slot after) (key : Nat × Int) : heldIn key after ≤ heldIn key slot := by
  cases slot with
  | none =>
    cases after with
    | none => exact Nat.le_refl _
    | some q => exact absurd tame id
  | some p =>
    cases after with
    | none => exact absurd tame id
    | some q => exact Tame.held tame key

structure Tamed (s s' : System) : Prop where
  next : s'.nextPid = s.nextPid
  exits : s'.exits = s.exits
  handed : s'.handed = s.handed
  slots : ∀ i, TameSlot (s.procs i) (s'.procs i)

theorem Tamed.refl (s : System) : Tamed s s := ⟨rfl, rfl, rfl, fun _ => TameSlot.refl _⟩

variable {s : System}

theorem Tamed.total {s' : System} (tamed : Tamed s s') (key : Nat × Int) : total key s' ≤ total key s :=
  Finset.sum_le_sum fun i _ => (tamed.slots i).held key

structure Carried (s : System) (p q : Proc) : Prop where
  pid : q.pid = p.pid
  single : q.ppid = 0 ∨ q.spawnerPid = 0
  family : ∀ j w, s.procs j = some w → w.state ≠ .zombie → p.ppid = w.pid ∨ p.spawnerPid = w.pid → q.ppid = w.pid ∨ q.spawnerPid = w.pid
  alive : q.state ≠ .zombie → p.state ≠ .zombie
  fresh : q.state ≠ .zombie → q.collected = false
  number : q.waitPid < s.nextPid
  own : ∀ j a, s.procs j = some a → q.state ≠ .zombie → a.state ≠ .zombie → q.waitPid = a.pid →
    a.ppid = p.pid ∨ a.spawnerPid = p.pid
  empty : q.waitReady = true → q.waitPid < 0

theorem Sound.carried {s' : System} (sound : Sound s) (next : s'.nextPid = s.nextPid)
    (carried : ∀ j q, s'.procs j = some q → ∃ p, s.procs j = some p ∧ Carried s p q)
    (counts : ∀ key, s'.handed.count key + total key s' ≤ s'.exits.count key) : Sound s' := by
  refine ⟨next ▸ sound.low, ?_, ?_, ?_, ?_, ?_, ?_, counts⟩
  · intro j q now
    obtain ⟨p, was, kept⟩ := carried j q now
    obtain ⟨positive, below, _⟩ := sound.number j p was
    rw [next, kept.pid]
    exact ⟨positive, below, kept.number⟩
  · intro j q now
    obtain ⟨_, _, kept⟩ := carried j q now
    exact kept.fresh
  · intro j k p q first second same
    obtain ⟨p', was, one⟩ := carried j p first
    obtain ⟨q', were, two⟩ := carried k q second
    exact sound.unique j k p' q' was were (by rw [← one.pid, ← two.pid, same])
  · intro j q now
    obtain ⟨_, _, kept⟩ := carried j q now
    exact kept.single
  · intro j k w a first second alive living waits
    obtain ⟨w', was, one⟩ := carried j w first
    obtain ⟨a', were, two⟩ := carried k a second
    rw [two.pid] at waits
    rw [one.pid]
    exact two.family j w' was (one.alive alive) (one.own k a' were alive (two.alive living) waits)
  · intro j q now
    obtain ⟨_, _, kept⟩ := carried j q now
    exact kept.empty

theorem Tame.carried {i : Slot} {p q : Proc} (tame : Tame p q) (sound : Sound s) (there : s.procs i = some p) :
    Carried s p q := by
  have lives : q.state ≠ .zombie → p.state ≠ .zombie := fun alive dead => alive (tame.zombie.mpr dead)
  refine ⟨tame.pid, ?_, ?_, lives, ?_, ?_, ?_, ?_⟩
  · rw [tame.ppid, tame.spawner]
    exact sound.single i p there
  · intro j w _ _ parents
    rwa [tame.ppid, tame.spawner]
  · intro alive
    rw [tame.collected]
    exact sound.fresh i p there (lives alive)
  · obtain same | negative := tame.waits
    · rw [same]
      exact (sound.number i p there).2.2
    · omega
  · intro j a other alive living waits
    obtain same | negative := tame.waits
    · exact sound.own i j p a there other (lives alive) living (by rw [← same, waits])
    · omega
  · intro full
    obtain same | negative := tame.waits
    · rw [same]
      exact sound.empty i p there (tame.box full).1
    · exact negative

theorem Sound.tamed {s' : System} (sound : Sound s) (tamed : Tamed s s') : Sound s' := by
  refine sound.carried tamed.next (fun j q now => ?_) fun key => ?_
  · have slot := tamed.slots j
    rw [now] at slot
    obtain ⟨p, was, tame⟩ := slot.some_after
    exact ⟨p, was, tame.carried sound was⟩
  · rw [tamed.exits, tamed.handed]
    exact Nat.le_trans (Nat.add_le_add_left (tamed.total key) _) (sound.counts key)

theorem tamed_foreach {f : Proc → Proc} (tame : ∀ p, Tame p (f p)) : Tamed s (s.foreach f) := by
  refine ⟨rfl, rfl, rfl, ?_⟩
  intro j
  change TameSlot (s.procs j) ((s.procs j).map f)
  cases s.procs j with
  | none => trivial
  | some p => exact tame p

/-- What a change of the process in one slot has to keep, with the history after it. -/
structure Change (s : System) (p q : Proc) (exits handed : List (Nat × Int)) : Prop where
  pid : q.pid = p.pid
  ppid : q.ppid = p.ppid
  spawner : q.spawnerPid = p.spawnerPid
  alive : q.state ≠ .zombie → p.state ≠ .zombie
  fresh : q.state ≠ .zombie → q.collected = false
  number : q.waitPid < s.nextPid
  own : ∀ j a, s.procs j = some a → q.state ≠ .zombie → a.state ≠ .zombie → q.waitPid = a.pid →
    a.ppid = p.pid ∨ a.spawnerPid = p.pid
  empty : q.waitReady = true → q.waitPid < 0
  counts : ∀ key, handed.count key + held key q + s.exits.count key ≤ s.handed.count key + held key p + exits.count key

section
variable {s : System} {i : Slot} {p q : Proc} {exits handed : List (Nat × Int)}

theorem total_put (there : s.procs i = some p) (q : Proc) (key : Nat × Int) :
    ∑ j, heldIn key (update s.procs i (some q) j) + held key p = total key s + held key q := by
  have moved := sum_update Finset.univ s.procs (heldIn key) (mem_univ i) (some q)
  rw [there] at moved
  exact moved

theorem Sound.change (sound : Sound s) (exits handed : List (Nat × Int)) (there : s.procs i = some p)
    (change : Change s p q exits handed) :
    Sound { s with exits := exits, handed := handed, procs := update s.procs i (some q) } := by
  refine sound.carried rfl (fun j r now => ?_) fun key => ?_
  · change update s.procs i (some q) j = some r at now
    by_cases here : j = i
    · subst here
      rw [update_self] at now
      cases now
      refine ⟨p, there, change.pid, ?_, fun _ _ _ _ parents => ?_, change.alive, change.fresh, change.number, change.own, change.empty⟩
      · rw [change.ppid, change.spawner]
        exact sound.single j p there
      · rwa [change.ppid, change.spawner]
    · rw [update_of_ne here] at now
      exact ⟨r, now, (Tame.refl r).carried sound now⟩
  · have moved := total_put there q key
    have bound := sound.counts key
    have shift := change.counts key
    change handed.count key + ∑ j, heldIn key (update s.procs i (some q) j) ≤ exits.count key
    omega

theorem put_tamed (there : s.procs i = some p) (tame : Tame p q) : Tamed s (s.put i q) := by
  refine ⟨rfl, rfl, rfl, ?_⟩
  intro j
  change TameSlot (s.procs j) (update s.procs i (some q) j)
  by_cases here : j = i
  · rw [here, update_self, there]
    exact tame
  · rw [update_of_ne here]
    exact TameSlot.refl _

theorem Sound.tame_put (sound : Sound s) (there : s.procs i = some p) (tame : Tame p q) : Sound (s.put i q) :=
  sound.tamed (put_tamed there tame)

theorem signalPost_tame (p : Proc) : Tame p (signalPost p) := by
  unfold signalPost
  split
  next blocked =>
    refine ⟨rfl, rfl, rfl, rfl, ?_, rfl, fun full => ⟨full, rfl, rfl⟩, .inr (show (-1 : Int) < 0 by decide)⟩
    rw [blocked]
    exact ⟨nofun, nofun⟩
  · exact Tame.refl p

theorem wakeWaitany_tame (ppid : Nat) (p : Proc) : Tame p (wakeWaitany ppid p) := by
  unfold wakeWaitany
  split
  next blocked =>
    refine ⟨rfl, rfl, rfl, rfl, ?_, rfl, fun full => ⟨full, rfl, rfl⟩, .inr (show (-1 : Int) < 0 by decide)⟩
    rw [blocked.2.1]
    exact ⟨nofun, nofun⟩
  · exact Tame.refl p

theorem wakeParent_tamed (s : System) (ppid : Nat) : Tamed s (schedWakeParentWaitany s ppid) := by
  unfold schedWakeParentWaitany
  split
  · exact Tamed.refl s
  · exact tamed_foreach (wakeWaitany_tame ppid)

theorem notify_tamed (chld : Slot → Bool) (s : System) (ppid : Nat) : Tamed s (notifyParentSigchld chld s ppid) := by
  unfold notifyParentSigchld
  split
  · exact Tamed.refl s
  split
  · exact Tamed.refl s
  split
  · exact Tamed.refl s
  next parent there =>
    split
    · exact put_tamed there (signalPost_tame parent)
    · exact Tamed.refl s

theorem tame_state (state : State) (stopReport contReport : Bool) (stopSig : Nat) (alive : p.state ≠ .zombie) (living : state ≠ .zombie) :
    Tame p { p with state := state, stopReport := stopReport, contReport := contReport, stopSig := stopSig } :=
  ⟨rfl, rfl, rfl, rfl, ⟨fun dead => absurd dead living, fun dead => absurd dead alive⟩, rfl, fun full => ⟨full, rfl, rfl⟩, .inl rfl⟩

theorem stop_sound {chld : Slot → Bool} {sig : Nat} (sound : Sound s) (there : s.procs i = some p) (alive : p.state ≠ .zombie) :
    Sound (schedStopCurrent chld s i p sig) := by
  unfold schedStopCurrent
  have stopped := sound.tame_put there (tame_state .stopped true false sig alive nofun)
  exact (stopped.tamed (notify_tamed _ _ _)).tamed (wakeParent_tamed _ _)

theorem count_append_singleton (l : List (Nat × Int)) (k key : Nat × Int) :
    (l ++ [k]).count key = l.count key + if k = key then 1 else 0 := by
  rw [count_append, count_singleton]
  congr 1
  by_cases same : k = key
  · rw [if_pos same, if_pos (beq_iff_eq.mpr same)]
  · rw [if_neg same, if_neg (fun equal => same (beq_iff_eq.mp equal))]

theorem die_sound (sound : Sound s) (there : s.procs i = some p) (alive : p.state ≠ .zombie) (code : Int) :
    Sound ({ s with exits := s.exits ++ [(p.pid, code)] }.put i { p with state := .zombie, exitCode := code }) := by
  refine sound.change (q := { p with state := .zombie, exitCode := code }) (s.exits ++ [(p.pid, code)]) s.handed there
    ⟨rfl, rfl, rfl, fun living => absurd rfl living, fun living => absurd rfl living, (sound.number i p there).2.2,
      fun _ _ _ living => absurd rfl living, sound.empty i p there, ?_⟩
  intro key
  have fresh := sound.fresh i p there alive
  rw [count_append_singleton]
  unfold held
  simp only [fresh, alive, true_and, false_and, if_false]
  omega

/-- Nobody that lives has the number of the dead process, so no child is taken from one that waits. -/
theorem reparent_sound {dead init : Nat} (sound : Sound s) (there : s.procs i = some p) (gone : p.state = .zombie) (mine : p.pid = dead)
    : Sound (s.foreach (reparent dead init)) := by
  have positive : dead ≠ 0 := by
    have number := (sound.number i p there).1
    omega
  refine sound.carried rfl (fun j q now => ?_) fun key => ?_
  · obtain ⟨r, was, rfl⟩ := Option.map_eq_some_iff.mp now
    have kept := (Tame.refl r).carried sound was
    refine ⟨r, was, ?_⟩
    unfold reparent
    split
    next orphan =>
      refine ⟨rfl, .inr (kept.single.resolve_left (by rw [orphan.1]; exact positive)), ?_, kept.alive, kept.fresh, kept.number, kept.own, kept.empty⟩
      rintro k w were alive (parent | spawner)
      · have slot := sound.unique k i w p were there (by rw [← parent, orphan.1, mine])
        rw [slot, there] at were
        cases were
        exact absurd gone alive
      · exact .inr spawner
    · exact kept
  · have same : ∀ r, held key (reparent dead init r) = held key r := by
      intro r
      unfold reparent
      split <;> rfl
    have equal : total key (s.foreach (reparent dead init)) = total key s := by
      apply sum_congr rfl
      intro j _
      change heldIn key ((s.procs j).map (reparent dead init)) = heldIn key (s.procs j)
      cases s.procs j with
      | none => rfl
      | some r => exact same r
    rw [equal]
    exact sound.counts key

theorem collect_sound (sound : Sound s) (there : s.procs i = some p) (gone : p.state = .zombie) (fresh : p.collected = false) :
    Sound ((s.put i { p with collected := true }).hand p.pid p.exitCode) := by
  refine sound.change (q := { p with collected := true }) s.exits (s.handed ++ [(p.pid, p.exitCode)]) there
    ⟨rfl, rfl, rfl, id, fun living => absurd gone living, (sound.number i p there).2.2,
      fun _ _ _ living => absurd gone living, sound.empty i p there, ?_⟩
  intro key
  rw [count_append_singleton]
  unfold held
  simp only [gone, fresh, true_and, false_and, if_false, Bool.true_eq_false]
  omega

/-- A process that has ended and whose status nobody has; those that wait for it are one of two. -/
structure Dying (s : System) (i : Slot) (pid : Nat) (code : Int) (parent spawner : Nat) : Prop where
  slot : ∃ z, s.procs i = some z ∧ z.pid = pid ∧ z.exitCode = code ∧ z.state = .zombie ∧ z.collected = false
  owners : ∀ j w, s.procs j = some w → w.state ≠ .zombie → w.waitPid = pid → parent = w.pid ∨ spawner = w.pid

variable {pid parent spawner : Nat} {code : Int} {j : Slot} {rdi : Nat}

theorem Dying.tamed {s' : System} (dying : Dying s i pid code parent spawner) (tamed : Tamed s s') :
    Dying s' i pid code parent spawner := by
  refine ⟨?_, ?_⟩
  · obtain ⟨z, there, number, status, gone, fresh⟩ := dying.slot
    have slot := tamed.slots i
    rw [there] at slot
    cases after : s'.procs i with
    | none =>
      rw [after] at slot
      exact absurd slot id
    | some z' =>
      rw [after] at slot
      exact ⟨z', rfl, slot.pid.trans number, slot.code.trans status, slot.zombie.mpr gone, slot.collected.trans fresh⟩
  · intro j w now alive waits
    have slot := tamed.slots j
    rw [now] at slot
    obtain ⟨w', was, tame⟩ := slot.some_after
    rw [tame.pid]
    obtain same | negative := tame.waits
    · exact dying.owners j w' was (fun dead => alive (tame.zombie.mpr dead)) (by rw [← same, waits])
    · omega

variable {pid : Nat}

theorem Dying.reparent {init parent spawner : Nat} (dying : Dying s i pid code parent spawner) :
    Dying (s.foreach (reparent pid init)) i pid code parent spawner := by
  have same : ∀ r, (Waiting.reparent pid init r).pid = r.pid ∧ (Waiting.reparent pid init r).state = r.state ∧
      (Waiting.reparent pid init r).waitPid = r.waitPid ∧ (Waiting.reparent pid init r).exitCode = r.exitCode ∧
      (Waiting.reparent pid init r).collected = r.collected := by
    intro r
    unfold Waiting.reparent
    split <;> exact ⟨rfl, rfl, rfl, rfl, rfl⟩
  refine ⟨?_, ?_⟩
  · obtain ⟨z, there, number, status, gone, fresh⟩ := dying.slot
    obtain ⟨pid, state, _, code, collected⟩ := same z
    refine ⟨_, ?_, pid.trans number, code.trans status, state.trans gone, collected.trans fresh⟩
    change (s.procs i).map _ = _
    rw [there]
    rfl
  · intro j w now alive waits
    obtain ⟨w', was, rfl⟩ := Option.map_eq_some_iff.mp now
    obtain ⟨pid, state, waitPid, _⟩ := same w'
    rw [pid]
    exact dying.owners j w' was (by rw [← state]; exact alive) (by rw [← waitPid]; exact waits)

theorem exitReparent_sound (sound : Sound s) (dying : Dying s i pid code parent spawner) :
    Sound (exitReparent s pid) ∧ Dying (exitReparent s pid) i pid code parent spawner := by
  unfold exitReparent
  split
  · exact ⟨sound, dying⟩
  split
  · have tamed : Tamed s { s with initPid := 0 } := ⟨rfl, rfl, rfl, fun _ => TameSlot.refl _⟩
    exact ⟨sound.tamed tamed, dying.tamed tamed⟩
  have moved : Sound (processReparentChildren s pid).1 ∧ Dying (processReparentChildren s pid).1 i pid code parent spawner := by
    unfold processReparentChildren
    split
    · exact ⟨sound, dying⟩
    split
    · exact ⟨sound, dying⟩
    · obtain ⟨z, there, number, _, gone, _⟩ := dying.slot
      exact ⟨reparent_sound sound there gone number, dying.reparent⟩
  dsimp only
  split
  · exact ⟨moved.1.tamed (wakeParent_tamed _ _), moved.2.tamed (wakeParent_tamed _ _)⟩
  · exact moved

theorem wakeWaiter_other (apart : waitsFor pid p = false) : wakeWaiter pid code p = p := by
  unfold wakeWaiter
  rw [apart]
  rfl

theorem waitsFor_spec (waits : waitsFor pid p = true) : p.state = .blocked ∧ p.waitPid = pid := by
  unfold waitsFor at waits
  simp only [Bool.and_eq_true, decide_eq_true_eq] at waits
  exact ⟨waits.1.1, waits.2⟩

theorem wake_and_collect {w z : Proc} (code : Int) (there : s.procs j = some w) (zombie : s.procs i = some z)
    (gone : z.state = .zombie) (apart : j ≠ i) (only : ∀ k r, s.procs k = some r → waitsFor pid r = true → k = j) :
    update (fun k => (s.procs k).map (wakeWaiter pid code)) i
        (((s.procs i).map (wakeWaiter pid code)).map fun p => { p with collected := true }) =
      update (update s.procs i (some { z with collected := true })) j (some (wakeWaiter pid code w)) := by
  funext k
  by_cases here : k = i
  · subst here
    have asleep : waitsFor pid z = false := by
      unfold waitsFor
      rw [gone]
      rfl
    rw [update_self, update_of_ne (Ne.symm apart), update_self, zombie, map_some, map_some,
      wakeWaiter_other asleep]
  · rw [update_of_ne here]
    by_cases mine : k = j
    · subst mine
      rw [update_self, there, map_some]
    · rw [update_of_ne mine, update_of_ne here]
      cases other : s.procs k with
      | none => rfl
      | some r =>
        have asleep : waitsFor pid r = false := Bool.eq_false_of_not_eq_true fun also => mine (only k r other also)
        rw [map_some, wakeWaiter_other asleep]

/-- The status goes from the zombie to the mailbox of the one waiter, if there is one. -/
theorem wakeWaitpid_sound (sound : Sound s) (dying : Dying s i pid code parent spawner)
    (single : parent = 0 ∨ spawner = 0) :
    let (s', woke) := schedWakeWaitpid (fun _ => false) s pid code
    Sound (if woke then s'.modify i fun p => { p with collected := true } else s') := by
  unfold schedWakeWaitpid
  dsimp only
  by_cases waiter : ∃ j w, s.procs j = some w ∧ waitsFor pid w = true
  · obtain ⟨j, w, there, waits⟩ := waiter
    obtain ⟨blocked, armed⟩ := waitsFor_spec waits
    obtain ⟨z, zombie, number, status, gone, fresh⟩ := dying.slot
    have apart : j ≠ i := by
      rintro rfl
      rw [there] at zombie
      cases zombie
      rw [blocked] at gone
      cases gone
    -- No other process waits: it would be the parent or the spawner, and only one of them exists.
    have only : ∀ k r, s.procs k = some r → waitsFor pid r = true → k = j := by
      intro k r here also
      obtain ⟨asleep, same⟩ := waitsFor_spec also
      have first := dying.owners j w there (by rw [blocked]; decide) armed
      have second := dying.owners k r here (by rw [asleep]; decide) same
      have one := (sound.number j w there).1
      have two := (sound.number k r here).1
      exact sound.unique k j r w here there (by omega)
    have woke : ((List.finRange maxProcesses).any fun k => (s.procs k).any (waitsFor pid) && !false) = true := by
      refine List.any_eq_true.mpr ⟨j, mem_finRange j, ?_⟩
      rw [there]
      exact (Bool.and_true _).trans waits
    rw [woke, if_pos rfl]
    have collected := collect_sound sound zombie gone fresh
    have still : ((s.put i { z with collected := true }).hand z.pid z.exitCode).procs j = some w := by
      change update s.procs i _ j = _
      rw [update_of_ne apart, there]
    have delivered := collected.change (q := wakeWaiter pid code w) s.exits s.handed still ?_
    · have procs := wake_and_collect code there zombie gone apart only
      unfold System.modify System.foreach
      rw [procs]
      exact delivered
    · have result : wakeWaiter pid code w =
          { w with waitResult := code, waitReady := true, waitFrom := pid, waitPid := -1, state := .runnable } := if_pos waits
      have vacant : w.waitReady = false := by
        cases full : w.waitReady with
        | false => rfl
        | true =>
          have negative := sound.empty j w there full
          omega
      have live : w.state ≠ .zombie := by rw [blocked]; decide
      rw [result]
      refine ⟨rfl, rfl, rfl, fun _ => live, fun _ => sound.fresh j w there live, ?_, ?_, fun _ => show (-1 : Int) < 0 by decide, ?_⟩
      · change (-1 : Int) < s.nextPid
        omega
      · intro k a _ _ _ impossible
        change (-1 : Int) = a.pid at impossible
        omega
      · intro key
        change s.handed.count key + _ + s.exits.count key ≤ (s.handed ++ [(z.pid, z.exitCode)]).count key + _ + s.exits.count key
        rw [count_append_singleton, number, status]
        unfold held
        simp only [vacant, live, true_and, false_and, if_false, Bool.false_eq_true, reduceCtorEq]
        omega
  · have nobody : ∀ j w, s.procs j = some w → waitsFor pid w = false := by
      intro j w there
      exact Bool.eq_false_of_not_eq_true fun waits => waiter ⟨j, w, there, waits⟩
    have woke : ((List.finRange maxProcesses).any fun k => (s.procs k).any (waitsFor pid) && !false) = false := by
      apply Bool.eq_false_of_not_eq_true
      intro found
      obtain ⟨j, _, waits⟩ := List.any_eq_true.mp found
      rw [Bool.not_false, Bool.and_true] at waits
      cases there : s.procs j with
      | none =>
        rw [there] at waits
        cases waits
      | some w =>
        rw [there] at waits
        exact waiter ⟨j, w, there, waits⟩
    have same : s.foreach (wakeWaiter pid code) = s := by
      unfold System.foreach
      congr 1
      funext j
      cases there : s.procs j with
      | none => rfl
      | some w =>
        change some _ = some _
        rw [wakeWaiter_other (nobody j w there)]
    rw [woke, same]
    exact sound

theorem exit_sound {chld : Slot → Bool} (sound : Sound s) (there : s.procs i = some p) (alive : p.state ≠ .zombie) :
    Sound (schedExit chld (fun _ => false) s i p code) := by
  have died := die_sound sound there alive code
  have dying : Dying ({ s with exits := s.exits ++ [(p.pid, code)] }.put i { p with state := .zombie, exitCode := code }) i p.pid code
      p.ppid p.spawnerPid := by
    refine ⟨⟨_, update_self .., rfl, rfl, rfl, sound.fresh i p there alive⟩, ?_⟩
    intro j w now living waits
    change update s.procs i _ j = some w at now
    by_cases here : j = i
    · rw [here, update_self] at now
      cases now
      exact absurd rfl living
    · rw [update_of_ne here] at now
      exact sound.own j i w p now there living alive waits
  obtain ⟨moved, still⟩ := exitReparent_sound died dying
  have told := moved.tamed (notify_tamed chld _ p.ppid)
  have woken := wakeWaitpid_sound told (still.tamed (notify_tamed chld _ p.ppid)) (sound.single i p there)
  exact woken.tamed (wakeParent_tamed _ _)

theorem find_spec {test : Proc → Bool} (found : s.find test = some j) : ∃ p, s.procs j = some p ∧ test p = true := by
  have passed := find?_some found
  cases there : s.procs j with
  | none =>
    rw [there] at passed
    cases passed
  | some p =>
    rw [there] at passed
    exact ⟨p, rfl, passed⟩

theorem findByPid_spec (found : s.findByPid pid = some j) : ∃ p, s.procs j = some p ∧ p.pid = pid := by
  obtain ⟨p, there, same⟩ := find_spec found
  exact ⟨p, there, beq_iff_eq.mp same⟩

theorem open_sound (sound : Sound s) (there : s.procs i = some p) (full : p.waitReady = true) (mine : p.waitFrom = pid) :
    Sound ((s.put i { p with waitReady := false }).hand pid p.waitResult) := by
  refine sound.change (q := { p with waitReady := false }) s.exits (s.handed ++ [(pid, p.waitResult)]) there
    ⟨rfl, rfl, rfl, id, sound.fresh i p there, (sound.number i p there).2.2, fun j a other => sound.own i j p a there other, nofun, ?_⟩
  intro key
  rw [count_append_singleton, ← mine]
  unfold held
  simp only [full, true_and, false_and, if_false, Bool.false_eq_true]
  omega

theorem asInt_cases (rdi : Nat) : asInt rdi < 0 ∨ asInt rdi = asPid rdi := by
  unfold asInt
  split
  · exact .inr rfl
  · have low : asPid rdi < 2 ^ 32 := Nat.mod_lt _ (by decide)
    left
    omega

theorem arm_sound {child : Proc} {moved : Bool} (sound : Sound s) (there : s.procs i = some p)
    (alive : p.state ≠ .zombie) (vacant : p.waitReady = false) (other : s.procs j = some child) (found : child.pid = asPid rdi)
    (mine : child.ppid = p.pid ∨ child.spawnerPid = p.pid) :
    Sound (s.put i { p with waitPid := asInt rdi, waitReady := false, state := if moved then .runnable else .blocked }) := by
  have number := (sound.number j child other).2.1
  refine sound.change (q := { p with waitPid := asInt rdi, waitReady := false, state := if moved then .runnable else .blocked })
    s.exits s.handed there
    ⟨rfl, rfl, rfl, fun _ => alive, fun _ => sound.fresh i p there alive, ?_, ?_, nofun, ?_⟩
  · change asInt rdi < s.nextPid
    obtain negative | same := asInt_cases rdi <;> omega
  · intro k a here _ _ waits
    change asInt rdi = a.pid at waits
    have same : a.pid = child.pid := by
      obtain negative | same := asInt_cases rdi <;> omega
    have slot := sound.unique k j a child here other same
    rw [slot, other] at here
    cases here
    exact mine
  · intro key
    unfold held
    simp only [vacant, alive, false_and, if_false, Bool.false_eq_true]
    split <;> simp

/-- In a call of SYS_WAIT, a full mailbox holds the status of the process asked for, and a zombie
asked for has not been collected before. New processes get a number that was never used, and no
signal makes a waiter ready between the test and the exchange of its state. -/
def Orderly (s : System) : Event → Prop
  | .fork _ _ => s.nextPid + 1 < 2 ^ 32
  | .spawn _ _ => s.nextPid + 1 < 2 ^ 32
  | .wait i rdi _ => ∀ p, s.procs i = some p → (p.waitReady = true → p.waitFrom = asPid rdi) ∧
      (p.waitReady = false → ∀ j c, s.procs j = some c → c.pid = asPid rdi → c.ppid = p.pid ∨ c.spawnerPid = p.pid →
        c.state = .zombie → c.collected = false)
  | .exit _ _ _ raced => raced = fun _ => false
  | .kill _ _ _ raced => raced = fun _ => false
  | _ => True

variable {o : Outside}

theorem wait_sound (sound : Sound s) (orderly : Orderly s (.wait i rdi o)) (there : s.procs i = some p)
    (alive : p.state ≠ .zombie) : Sound (sysWait s i p rdi o).1 := by
  obtain ⟨mailbox, uncollected⟩ := orderly p there
  unfold sysWait
  split
  next full => exact open_sound sound there full (mailbox full)
  next vacant =>
    have vacant := Bool.eq_false_of_not_eq_true vacant
    split
    · exact sound
    next j found =>
      split
      · exact sound
      next child other =>
        obtain ⟨same, again, number⟩ := findByPid_spec found
        rw [other] at again
        cases again
        split
        · exact sound
        next mine =>
          have mine : child.ppid = p.pid ∨ child.spawnerPid = p.pid := by omega
          split
          next gone =>
            rw [← number]
            exact collect_sound sound other gone (uncollected vacant j child other number mine gone)
          · split
            · exact stop_sound sound there alive
            · exact sound
            · exact arm_sound sound there alive vacant other number mine

theorem takeReport_tame (wantStop : Bool) (ppid : Nat) (p : Proc) : Tame p (takeReport wantStop ppid p) := by
  unfold takeReport
  split <;> exact ⟨rfl, rfl, rfl, rfl, Iff.rfl, rfl, fun full => ⟨full, rfl, rfl⟩, .inl rfl⟩

section
variable (sound : Sound s)
include sound

theorem waitany_sound {opts : Nat} (there : s.procs i = some p) (alive : p.state ≠ .zombie) :
    Sound (sysWaitany s i p opts o).1 := by
  unfold sysWaitany
  split
  next j found =>
    split
    · exact sound
    next z other =>
      obtain ⟨same, again, test⟩ := find_spec found
      rw [other] at again
      cases again
      simp only [Bool.and_eq_true, beq_iff_eq, Bool.not_eq_true'] at test
      exact collect_sound sound other test.1.2 test.2
  · split
    next after pid taken =>
      unfold processTakeJobctlChild at taken
      split at taken
      · cases taken
      split at taken
      · cases taken
      next child other =>
        cases taken
        exact sound.tame_put other (takeReport_tame _ _ _)
    · split
      · exact sound
      split
      · exact sound
      split
      · exact stop_sound sound there alive
      · exact sound
      · refine sound.tame_put there ⟨rfl, rfl, rfl, rfl, ?_, rfl, fun full => ⟨full, rfl, rfl⟩, .inr (show (-2 : Int) < 0 by decide)⟩
        refine ⟨fun dead => ?_, fun dead => absurd dead alive⟩
        change (if o.moved = true then State.runnable else State.blocked) = .zombie at dead
        split at dead <;> cases dead

theorem drawn_sound {next : Nat} (more : s.nextPid ≤ next) (low : next < 2 ^ 32) : Sound { s with nextPid := next } := by
  refine ⟨⟨Nat.lt_of_lt_of_le sound.low.1 more, low⟩, ?_, sound.fresh, sound.unique, sound.single, sound.own, sound.empty, sound.counts⟩
  intro i p there
  obtain ⟨positive, below, waits⟩ := sound.number i p there
  exact ⟨positive, Nat.lt_of_lt_of_le below more, by change p.waitPid < (next : Int); omega⟩

theorem add_sound {ppid spawnerPid : Nat} (free : s.procs i = none) (single : ppid = 0 ∨ spawnerPid = 0)
    (positive : 0 < pid) (last : pid + 1 = s.nextPid) (fresh : ∀ j p, s.procs j = some p → p.pid < pid ∧ p.waitPid < pid) :
    Sound (s.put i (newProc pid ppid spawnerPid)) := by
  have before : ∀ j r, (s.put i (newProc pid ppid spawnerPid)).procs j = some r →
      (j = i ∧ r = newProc pid ppid spawnerPid) ∨ s.procs j = some r := by
    intro j r now
    change update s.procs i _ j = some r at now
    by_cases here : j = i
    · rw [here, update_self] at now
      exact .inl ⟨here, (Option.some.inj now).symm⟩
    · rw [update_of_ne here] at now
      exact .inr now
  refine ⟨sound.low, ?_, ?_, ?_, ?_, ?_, ?_, ?_⟩
  · intro j r now
    obtain ⟨rfl, rfl⟩ | was := before j r now
    · refine ⟨positive, ?_, ?_⟩
      · change pid < s.nextPid
        omega
      · change (-1 : Int) < s.nextPid
        omega
    · exact sound.number j r was
  · intro j r now
    obtain ⟨rfl, rfl⟩ | was := before j r now
    · exact fun _ => rfl
    · exact sound.fresh j r was
  · intro j k r t first second equal
    obtain ⟨rfl, rfl⟩ | was := before j r first
    · obtain ⟨rfl, rfl⟩ | were := before k t second
      · rfl
      · have below := (fresh k t were).1
        change pid = t.pid at equal
        omega
    · obtain ⟨rfl, rfl⟩ | were := before k t second
      · have below := (fresh j r was).1
        change r.pid = pid at equal
        omega
      · exact sound.unique j k r t was were equal
  · intro j r now
    obtain ⟨rfl, rfl⟩ | was := before j r now
    · exact single
    · exact sound.single j r was
  · intro j k w a first second alive living waits
    obtain ⟨rfl, rfl⟩ | was := before j w first
    · change (-1 : Int) = a.pid at waits
      omega
    · obtain ⟨rfl, rfl⟩ | were := before k a second
      · have below := (fresh j w was).2
        change w.waitPid = (pid : Int) at waits
        omega
      · exact sound.own j k w a was were alive living waits
  · intro j r now
    obtain ⟨rfl, rfl⟩ | was := before j r now
    · exact nofun
    · exact sound.empty j r was
  · intro key
    have moved := sum_update Finset.univ s.procs (heldIn key) (mem_univ i) (some (newProc pid ppid spawnerPid))
    have nothing : heldIn key (some (newProc pid ppid spawnerPid)) = 0 := by
      simp [heldIn, elim_some, held, newProc]
    rw [free, nothing] at moved
    have bound := sound.counts key
    change s.handed.count key + ∑ j, heldIn key (update s.procs i _ j) ≤ s.exits.count key
    change _ + 0 = total key s + 0 at moved
    omega

theorem create_sound {room : Bool} {ppid spawnerPid : Nat} (low : s.nextPid + 1 < 2 ^ 32)
    (single : ppid = 0 ∨ spawnerPid = 0) : Sound (create room s ppid spawnerPid) := by
  have next : (s.nextPid + 1) % 2 ^ 32 = s.nextPid + 1 := Nat.mod_eq_of_lt low
  have drawn := drawn_sound sound (Nat.le_succ _) low
  unfold create
  dsimp only
  rw [next]
  split
  · exact drawn
  next i found =>
    split
    · have passed := find?_some found
      have free : s.procs i = none := isNone_iff_eq_none.mp passed
      refine add_sound drawn free single sound.low.1 rfl ?_
      intro j p there
      exact ⟨(sound.number j p there).2.1, (sound.number j p there).2.2⟩
    · exact drawn

theorem remove_sound (i : Slot) : Sound (s.remove i) := by
  have before : ∀ j r, (s.remove i).procs j = some r → s.procs j = some r := by
    intro j r now
    change update s.procs i none j = some r at now
    by_cases here : j = i
    · rw [here, update_self] at now
      cases now
    · rwa [update_of_ne here] at now
  refine sound.carried rfl (fun j r now => ⟨r, before j r now, (Tame.refl r).carried sound (before j r now)⟩) fun key => ?_
  have less : total key (s.remove i) ≤ total key s := by
    apply Finset.sum_le_sum
    intro j _
    change heldIn key (update s.procs i none j) ≤ heldIn key (s.procs j)
    by_cases here : j = i
    · rw [here, update_self]
      exact Nat.zero_le _
    · rw [update_of_ne here]
  have bound := sound.counts key
  change s.handed.count key + total key (s.remove i) ≤ s.exits.count key
  omega

theorem running_sound {f : Proc → System}
    (kept : ∀ p, s.procs i = some p → p.state ≠ .zombie → Sound (f p)) : Sound (running s i f) := by
  unfold running
  split
  · exact sound
  next p there =>
    split
    next runs => exact kept p there (by rw [runs]; decide)
    · exact sound

end

theorem step_sound (e : Event) (sound : Sound s) (orderly : Orderly s e) : Sound (step s e) := by
  cases e with
  | fork i room => exact running_sound sound fun p _ _ => create_sound sound orderly (.inr rfl)
  | spawn caller room =>
    cases caller with
    | none => exact create_sound sound orderly (.inl rfl)
    | some i => exact running_sound sound fun p _ _ => create_sound sound orderly (.inl rfl)
  | setInit i => exact running_sound sound fun p _ _ => sound.tamed ⟨rfl, rfl, rfl, fun _ => TameSlot.refl _⟩
  | wait i rdi o => exact running_sound sound fun p there alive => wait_sound sound orderly there alive
  | waitany i opts o => exact running_sound sound fun p there alive => waitany_sound sound there alive
  | exit i status chld raced =>
    have quiet : raced = fun _ => false := orderly
    rw [quiet]
    exact running_sound sound fun p there alive => exit_sound sound there alive
  | kill i sig chld raced =>
    have quiet : raced = fun _ => false := orderly
    rw [quiet]
    exact running_sound sound fun p there alive => exit_sound sound there alive
  | post i =>
    simp only [step]
    split
    · exact sound
    next p there => exact sound.tame_put there (signalPost_tame p)
  | cont i chld =>
    simp only [step]
    split
    · exact sound
    next p there =>
      split
      next stopped =>
        have resumed := sound.tame_put there
          (tame_state .runnable false true p.stopSig (by rw [stopped]; decide) nofun)
        exact (resumed.tamed (notify_tamed _ _ _)).tamed (wakeParent_tamed _ _)
      · exact sound
  | resume i =>
    simp only [step]
    split
    · exact sound
    next p there =>
      split
      next stopped =>
        exact sound.tame_put there
          (tame_state .runnable false p.contReport p.stopSig (by rw [stopped]; decide) nofun)
      · exact sound
  | stop i sig chld => exact running_sound sound fun p there alive => stop_sound sound there alive
  | block i =>
    exact running_sound sound fun p there alive => sound.tame_put there
      (tame_state .blocked p.stopReport p.contReport p.stopSig alive nofun)
  | wake i =>
    simp only [step]
    split
    · exact sound
    next p there =>
      split
      next blocked =>
        exact sound.tame_put there
          (tame_state .runnable p.stopReport p.contReport p.stopSig (by rw [blocked]; decide) nofun)
      · exact sound
  | reap i =>
    simp only [step]
    split
    · exact sound
    split
    · exact remove_sound sound i
    · exact sound

/-- In every orderly run, a status that is returned for a process is one it has ended with, and
each end is returned at most once. -/
theorem wait_right_once (events : List Event) (orderly : Permitted step Orderly boot events) (pid : Nat) (status : Int) :
    (run boot events).handed.count (pid, status) ≤ (run boot events).exits.count (pid, status) := by
  have sound : Sound (run boot events) := foldl_keeps (fun s e => step_sound (s := s) e) sound_boot orderly
  have bound := sound.counts (pid, status)
  omega

theorem orderly_wait
    (mailbox : (s.procs i).all (fun p => !p.waitReady || p.waitFrom == asPid rdi) = true)
    (uncollected : ((List.finRange maxProcesses).all fun j => (s.procs j).all fun c => c.pid != asPid rdi || !c.collected) = true ∨
      (s.procs i).all (·.waitReady) = true) :
    Orderly s (.wait i rdi o) := by
  intro p there
  rw [there] at mailbox uncollected
  simp only [all_some, Bool.or_eq_true, Bool.not_eq_true', beq_iff_eq] at mailbox uncollected
  refine ⟨fun full => mailbox.resolve_left (by rw [full]; decide), ?_⟩
  intro vacant j c here number _ _
  obtain all | full := uncollected
  · have passed := List.all_eq_true.mp all j (mem_finRange j)
    rw [here] at passed
    simpa [number] using passed
  · rw [vacant] at full
    cases full

/-! A process with two children; the first of them ends with status 7. -/

def family : List Event := [.spawn none true, .fork 0 true, .fork 0 true]

def firstEnds : Event := .exit 1 7 (fun _ => false) (fun _ => false)

/-- The parent is asleep when the child ends, and gets the status when its call runs again. -/
theorem status_delivered : (run boot (family ++ [.wait 0 2 Outside.still, firstEnds, .wait 0 2 Outside.still])).handed = [(2, 1792)] ∧
    (run boot (family ++ [.wait 0 2 Outside.still, firstEnds, .wait 0 2 Outside.still])).handed.count (2, 1792) ≤
      (run boot (family ++ [.wait 0 2 Outside.still, firstEnds, .wait 0 2 Outside.still])).exits.count (2, 1792) := by
  refine ⟨by decide +kernel, ?_⟩
  apply wait_right_once
  have first : Orderly (run boot family) (.wait 0 2 Outside.still) :=
    orderly_wait (by decide +kernel) (.inl (by decide +kernel))
  have second : Orderly (run boot (family ++ [.wait 0 2 Outside.still, firstEnds])) (.wait 0 2 Outside.still) :=
    orderly_wait (by decide +kernel) (.inr (by decide +kernel))
  have numbers : boot.nextPid + 1 < 2 ^ 32 ∧ (run boot [.spawn none true]).nextPid + 1 < 2 ^ 32 ∧
      (run boot [.spawn none true, .fork 0 true]).nextPid + 1 < 2 ^ 32 := by decide +kernel
  exact ⟨numbers.1, numbers.2.1, numbers.2.2, first, rfl, second, trivial⟩

/-- The zombie is still there, so a second call for it returns its status again. -/
theorem status_returned_twice : (run boot (family ++ [firstEnds, .wait 0 2 Outside.still, .wait 0 2 Outside.still])).exits = [(2, 1792)] ∧
    (run boot (family ++ [firstEnds, .wait 0 2 Outside.still, .wait 0 2 Outside.still])).handed = [(2, 1792), (2, 1792)] := by
  decide +kernel

end
end SecOS.Waiting
