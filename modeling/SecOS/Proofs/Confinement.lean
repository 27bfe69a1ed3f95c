import SecOS.Confine

/-! What `no_new_privs` is worth. A process that has it, and everything it forks, spawns or
executes, stays below the capabilities it had. -/

namespace SecOS.Confine
open Library Elf Function Option BitVec

namespace Caps

variable {a b c : Caps}

theorem within_iff : Within a b ↔ ∀ i, a.getLsbD i = true → b.getLsbD i = true := by
  unfold Within
  constructor
  · intro same i held
    rw [← same, getLsbD_and, Bool.and_eq_true] at held
    exact held.2
  · intro below
    apply eq_of_getLsbD_eq
    intro i _
    rw [getLsbD_and]
    cases held : a.getLsbD i with
    | false => rfl
    | true => rw [below i held]; rfl

theorem Within.refl (a : Caps) : Within a a := BitVec.and_self

theorem Within.trans (low : Within a b) (high : Within b c) : Within a c :=
  within_iff.mpr fun i held => within_iff.mp high i (within_iff.mp low i held)

theorem Within.antisymm (low : Within a b) (high : Within b a) : a = b := by
  rw [← show a &&& b = a from low, BitVec.and_comm]
  exact high

theorem Within.and (below : Within a c) (b : Caps) : Within (a &&& b) c := by
  refine within_iff.mpr fun i held => within_iff.mp below i ?_
  rw [getLsbD_and, Bool.and_eq_true] at held
  exact held.1

theorem within_and_right (a b : Caps) : Within (a &&& b) b := by
  rw [BitVec.and_comm]
  exact (Within.refl b).and a

theorem Within.or (left : Within a c) (right : Within b c) : Within (a ||| b) c := by
  refine within_iff.mpr fun i held => ?_
  rw [getLsbD_or, Bool.or_eq_true] at held
  exact held.elim (within_iff.mp left i) (within_iff.mp right i)

theorem within_or_left (a b : Caps) : Within a (a ||| b) := by
  refine within_iff.mpr fun i held => ?_
  rw [getLsbD_or, held, Bool.true_or]

theorem net_within (held : has a net = true) : Within net a := by
  refine within_iff.mpr fun i bit => ?_
  have here : i = 4 := by
    simp only [net, getLsbD_shiftLeft, getLsbD_one, Bool.and_eq_true, decide_eq_true_eq,
      Bool.not_eq_true', decide_eq_false_iff_not] at bit
    omega
  rw [here]
  by_contra absent
  simp only [has, bne_iff_ne, ne_eq] at held
  apply held
  apply eq_of_getLsbD_eq
  intro k low
  rw [getLsbD_and, getLsbD_zero]
  by_cases same : k = 4
  · rw [same, Bool.eq_false_of_not_eq_true absent, Bool.false_and]
  · have clear : net.getLsbD k = false := by
      simp only [net, getLsbD_shiftLeft, getLsbD_one, Bool.and_eq_false_iff, decide_eq_false_iff_not,
        Bool.not_eq_eq_eq_not, Bool.not_false, decide_eq_true_eq]
      omega
    rw [clear, Bool.and_false]

end Caps

open Caps

section
variable {p q : Process}

theorem effective_within_all (p : Option Process) : Within (capEffective p) Caps.all := by
  cases p with
  | none => exact Within.refl _
  | some p =>
    simp only [capEffective]
    split
    · exact Within.refl _
    split
    · split
      · exact within_and_right _ _
      · exact (within_and_right _ _).and _
    · have ambient : Within (implicitSet ||| (p.capMask &&& (input ||| display))) Caps.all :=
        Within.or (by decide) ((within_and_right _ _).trans (by decide))
      split
      · exact ambient.or (by decide)
      · exact ambient

theorem implicit_within (live : p.pid ≠ 0) (ambient : p.capEnforce = false) : Within implicitSet (capEffective (some p)) := by
  simp only [capEffective, if_neg live, ambient, Bool.false_eq_true, if_false]
  split
  · exact (within_or_left _ _).trans (within_or_left _ _)
  · exact within_or_left _ _

theorem effective_within {bound : Caps} (live : p.pid ≠ 0) (mask : Within p.capMask bound)
    (network : p.capNet = true → Within net bound) (above : p.capEnforce = false → Within implicitSet bound) :
    Within (capEffective (some p)) bound := by
  simp only [capEffective, if_neg live]
  split
  · split
    · exact mask.and _
    · exact (mask.and _).and _
  next ambient =>
    have base := (above (Bool.eq_false_of_not_eq_true ambient)).or (mask.and (input ||| display))
    split
    next flag => exact base.or (network flag)
    · exact base

theorem bound_valid (live : q.pid ≠ 0) (bit : q.noNewPrivs = true) :
    capExecBound (some q) = ⟨true, q.capEnforce, true, capEffective (some q)⟩ := by
  simp [capExecBound, any_some, live, bit]

/-- What a process with the bit passes on when an image replaces it or is spawned by it. -/
theorem transition_bounded (what : String) (live : q.pid ≠ 0) (own : p.pid ≠ 0) (bit : q.noNewPrivs = true) :
    let after := (capExecTransition p (capExecBound (some q)) what).1
    after.noNewPrivs = true ∧ Within (capEffective (some after)) (capEffective (some q)) ∧
      (q.capEnforce = true → after.capEnforce = true) := by
  simp only [capExecTransition, bound_valid live bit, Bool.true_and, if_true]
  refine ⟨trivial, ?_, fun confined => by rw [confined, Bool.or_true]⟩
  refine effective_within (show _ ≠ 0 from own) ?_ ?_ ?_
  · exact within_and_right _ _
  · intro flag
    exact (net_within flag).trans (within_and_right _ _)
  · intro ambient
    exact implicit_within live (Bool.or_eq_false_iff.mp ambient).2

structure Ceiling where
  eff : Caps
  enforce : Bool

def ceiling (p : Process) : Ceiling := ⟨capEffective (some p), p.capEnforce⟩

structure Held (c : Ceiling) (p : Process) : Prop where
  bit : p.noNewPrivs = true
  below : Within (capEffective (some p)) c.eff
  enforced : c.enforce = true → p.capEnforce = true

variable {c : Ceiling}

theorem held_ceiling (bit : p.noNewPrivs = true) : Held (ceiling p) p := ⟨bit, Within.refl _, id⟩

theorem Held.transition (held : Held c q) (live : q.pid ≠ 0) (own : p.pid ≠ 0) (what : String) :
    Held c (capExecTransition p (capExecBound (some q)) what).1 := by
  obtain ⟨bit, below, enforced⟩ := transition_bounded what live own held.bit
  exact ⟨bit, below.trans held.below, fun confined => enforced (held.enforced confined)⟩

theorem Held.congr (held : Held c q)
    (same : p.pid = q.pid ∧ p.capNet = q.capNet ∧ p.capEnforce = q.capEnforce ∧ p.capMask = q.capMask ∧ p.noNewPrivs = q.noNewPrivs) :
    Held c p := by
  obtain ⟨pid, network, enforce, mask, bit⟩ := same
  have equal : capEffective (some p) = capEffective (some q) := by simp only [capEffective, pid, network, enforce, mask]
  exact ⟨bit.trans held.bit, equal ▸ held.below, fun confined => enforce.trans (held.enforced confined)⟩

theorem Held.renumber {n : Nat} (held : Held c p) (old : p.pid ≠ 0) (new : n ≠ 0) : Held c { p with pid := n } := by
  have equal : capEffective (some { p with pid := n }) = capEffective (some p) := by
    simp only [capEffective, if_neg old, if_neg new]
  exact ⟨held.bit, equal ▸ held.below, held.enforced⟩

end

section
variable {verify : Image → Bool} {s s' : System} {i j : Nat} {sup : Supply} {file : File} {caller : Option Nat}

theorem freeSlot_free (found : s.freeSlot = some j) : s.table j = none := by
  have free := List.find?_some found
  exact isNone_iff_eq_none.mp free

theorem mem_removeAll {bindings : Bindings} {b : Binding} (kept : some b ∈ driverRemoveAllBindings bindings i) :
    some b ∈ bindings ∧ b.proc ≠ i := by
  obtain ⟨entry, inside, same⟩ := List.mem_map.mp kept
  split at same
  · cases same
  next other =>
    subst same
    refine ⟨inside, fun equal => other ?_⟩
    rw [any_some, equal, beq_self_eq_true]

theorem mem_register {bindings after : Bindings} {id : Nat} {caps : BitVec 32} {b : Binding}
    (done : driverRegisterBindingCaps bindings i id caps = some after) (inside : some b ∈ after) : some b ∈ bindings ∨ b.proc = i := by
  unfold driverRegisterBindingCaps at done
  split at done
  · cases done
  dsimp only at done
  split at done
  · cases done
    exact (List.mem_or_eq_of_mem_set inside).imp_right fun same => by rw [Option.some.inj same]
  split at done
  · cases done
    exact (List.mem_or_eq_of_mem_set inside).imp_right fun same => by rw [Option.some.inj same]
  · cases done

/-- A driver claim may bind the process itself; without the driver type nothing was bound. -/
theorem claimDriver_spec (bindings : Bindings) (i : Nat) (p : Process) (mf : Option Manifest) :
    (∀ b, some b ∈ (claimDriver bindings i p mf).1 → some b ∈ bindings ∨ b.proc = i) ∧
      (p.driver = false → (claimDriver bindings i p mf).2.driver = false → (claimDriver bindings i p mf).1 = bindings) ∧
      (claimDriver bindings i p mf).2.pid = p.pid := by
  cases mf with
  | none => exact ⟨fun b inside => .inl inside, fun _ _ => rfl, rfl⟩
  | some mf =>
    simp only [claimDriver]
    split
    · exact ⟨fun b inside => .inl inside, fun _ _ => rfl, rfl⟩
    split
    · exact ⟨fun b inside => .inl inside, fun _ _ => rfl, rfl⟩
    split
    · exact ⟨fun b inside => .inl inside, fun _ _ => rfl, rfl⟩
    next done => exact ⟨fun b inside => mem_register done inside, fun _ unbound => (Bool.noConfusion unbound), rfl⟩

section
variable (p : Process) (b : ExecBound) (what : String)
include p b what

theorem transition_pid : (capExecTransition p b what).1.pid = p.pid := by
  unfold capExecTransition
  split <;> rfl

theorem transition_driver : (capExecTransition p b what).1.driver = p.driver := by
  unfold capExecTransition
  split <;> rfl

theorem transition_cred : (capExecTransition p b what).1.cred = p.cred := by
  unfold capExecTransition
  split <;> rfl

end

theorem applyCaps_frame (p : Process) (mf : Option Manifest) :
    (procApplyCaps p mf).pid = p.pid ∧ (procApplyCaps p mf).driver = p.driver ∧ (procApplyCaps p mf).cred = p.cred := by
  cases mf <;> exact ⟨rfl, rfl, rfl⟩

/-- Nothing but numbers and records. -/
def Quiet (s s' : System) : Prop := s'.table = s.table ∧ s'.bindings = s.bindings

/-- A new process in a free slot, with at most its own driver binding. -/
structure Created (s s' : System) (j : Nat) (p : Process) : Prop where
  free : s.table j = none
  table : s'.table = update s.table j (some p)
  number : p.pid = s.nextPid
  bindings : ∀ b, some b ∈ s'.bindings → some b ∈ s.bindings ∨ b.proc = j
  unbound : p.driver = false → s'.bindings = s.bindings

theorem create_cases {im : Image} (made : processCreateFromElfArgs verify s im sup = (s', caller)) :
    (caller = none ∧ Quiet s s') ∨ ∃ j p, caller = some j ∧ Created s s' j p := by
  unfold processCreateFromElfArgs at made
  split at made
  · cases made
    exact .inl ⟨rfl, rfl, rfl⟩
  split at made
  · cases made
    exact .inl ⟨rfl, rfl, rfl⟩
  next new _ =>
    simp only [allocPid] at made
    split at made
    · cases made
      exact .inl ⟨rfl, rfl, rfl⟩
    next j free =>
      split at made
      · cases made
        exact .inl ⟨rfl, rfl, rfl⟩
      cases made
      obtain ⟨kept, unbound, number⟩ := claimDriver_spec s.bindings j (newProcess sup s.nextPid new).1 new.mf
      have pid : (newProcess sup s.nextPid new).1.pid = s.nextPid := by
        simp only [newProcess, transition_pid, (applyCaps_frame _ _).1]
      have plain : (newProcess sup s.nextPid new).1.driver = false := by
        simp only [newProcess, transition_driver, (applyCaps_frame _ _).2.1]
      exact .inr ⟨j, _, rfl, freeSlot_free free, rfl, number.trans pid, kept, unbound plain⟩

theorem fork_cases {child : Option Nat} (made : processFork s i sup = (s', child)) :
    (child = none ∧ Quiet s s') ∨ ∃ j parent p, child = some j ∧ s.table i = some parent ∧ Created s s' j p ∧
      s'.bindings = s.bindings ∧ p = { parent with pid := s.nextPid, manifest := if sup.manifest then parent.manifest else none,
                                                   driver := false, drvDevId := none, drvCaps := 0#32 } := by
  unfold processFork at made
  split at made
  · cases made
    exact .inl ⟨rfl, rfl, rfl⟩
  next parent held =>
    split at made
    · cases made
      exact .inl ⟨rfl, rfl, rfl⟩
    simp only [allocPid] at made
    split at made
    · cases made
      exact .inl ⟨rfl, rfl, rfl⟩
    split at made
    · cases made
      exact .inl ⟨rfl, rfl, rfl⟩
    next j free =>
      split at made
      · cases made
        exact .inl ⟨rfl, rfl, rfl⟩
      · cases made
        exact .inr ⟨j, parent, _, rfl, held, ⟨freeSlot_free free, rfl, rfl, fun b inside => .inl inside, fun _ => rfl⟩, rfl, rfl⟩

theorem setid_refused (p q : Process) (file : File) :
    let after := credExecSetid p file.mode file.uid file.gid (setidAllowed q file.mode file.onRoot true).1
    after.cred.euid = p.cred.euid ∧ after.cred.egid = p.cred.egid := by
  have refused : (wantsSetid file.mode && (setidAllowed q file.mode file.onRoot true).1) = false := by
    unfold setidAllowed
    cases wanted : wantsSetid file.mode with
    | false => rfl
    | true => cases base : file.onRoot && processManifestSetid q <;> rfl
  constructor
  · simp [credExecSetid, refused]
  · simp [credExecSetid, refused]

theorem setid_frame {c : Ceiling} {p : Process} (held : Held c p) (mode : BitVec 32) (uid gid : Nat) (allowed : Bool) :
    Held c (credExecSetid p mode uid gid allowed) := held.congr ⟨rfl, rfl, rfl, rfl, rfl⟩

theorem exec_inv {p q : Process} {im : Image} {args : Args} {audit : List AuditRecord}
    (done : processExec verify sup p im args = .ok (q, audit)) :
    ∃ new base, procImageBuild verify sup im true (args.blob.length + (args.argc + args.envc + 3) * 8 + 32) = .ok new ∧
      base = { p with driver := false, drvDevId := none, drvCaps := 0#32, vmas := new.vmas, manifest := new.mf } ∧
      (let after := (capExecTransition (procApplyCaps base new.mf) (capExecBound (some p)) "execve").1
       q = { after with entry := q.entry, stackTop := q.stackTop, brkStart := q.brkStart, brkCur := q.brkCur,
                        mmapNext := q.mmapNext, userMemBytes := q.userMemBytes }) := by
  unfold processExec at done
  split at done
  · cases done
  split at done
  · cases done
  split at done
  · cases done
  next new built =>
    split at done
    · cases done
    split at done
    · cases done
    · cases done
      exact ⟨new, _, built, rfl, rfl⟩

theorem execve_cases (args : Args) : ksysExecve verify s i file sup args = s ∨
    ∃ p q audit, s.table i = some p ∧ processExec verify sup p file.image args = .ok (q, audit) ∧
      (ksysExecve verify s i file sup args).table = update s.table i
        (some (credExecSetid q file.mode file.uid file.gid (setidAllowed q file.mode file.onRoot p.noNewPrivs).1)) ∧
      (ksysExecve verify s i file sup args).bindings = driverRemoveAllBindings s.bindings i := by
  unfold ksysExecve
  split
  · exact .inl rfl
  next p held =>
    split
    · exact .inl rfl
    split
    · exact .inl rfl
    split
    · exact .inl rfl
    next q audit done => exact .inr ⟨p, q, audit, held, done, rfl, rfl⟩

theorem spawnBound_pid (current : Option Process) (p : Process) : (spawnBound current p).1.pid = p.pid := by
  simp only [spawnBound]
  split <;> exact transition_pid _ _ _

theorem spawnCred_pid (current : Option Process) (p : Process) : (spawnCred current p).pid = p.pid := by
  unfold spawnCred
  split
  · split <;> rfl
  · rfl

theorem spawnBound_held {c : Ceiling} {p q : Process} (held : Held c q) (live : q.pid ≠ 0) (own : p.pid ≠ 0) :
    Held c (spawnBound (some q) p).1 := by
  have after := held.transition live own "spawn"
  simp only [spawnBound]
  split
  · exact after.congr ⟨rfl, rfl, rfl, rfl, rfl⟩
  · exact after

theorem spawnBound_refused {p q : Process} (live : q.pid ≠ 0) (bit : q.noNewPrivs = true)
    (kept : (spawnBound (some q) p).2.1 = false) : p.driver = false := by
  simp only [spawnBound, bound_valid live bit, Bool.true_and, transition_driver] at kept
  split at kept
  · cases kept
  next plain => exact Bool.eq_false_of_not_eq_true plain

theorem put_again {t : Nat → Option Process} {old : Option Process} {p : Process} (made : s.table = update t j old) :
    (s.put j p).table = update t j (some p) := by
  simp only [System.put, made, update_idem]

/-- A spawned process is a created one; below a spawner with the bit it is held, keeps the
spawner's user, and has no binding of its own. -/
structure SpawnedBelow (s s' : System) (j : Nat) (p q : Process) : Prop where
  held : ∀ c, Held c q → s.nextPid ≠ 0 → Held c p
  user : p.cred.euid = q.cred.euid ∧ p.cred.egid = q.cred.egid
  unbound : ∀ b, some b ∈ s'.bindings → b.proc = j → some b ∈ s.bindings

theorem spawn_cases {child : Option Nat} (made : ksysSpawnArgv verify s caller file sup = (s', child)) :
    (child = none ∧ Quiet s s') ∨ ∃ j p, child = some j ∧ s.table j = none ∧ s'.table = update s.table j (some p) ∧
      p.pid = s.nextPid ∧ (∀ b, some b ∈ s'.bindings → some b ∈ s.bindings ∨ b.proc = j) ∧
      ∀ q, caller.bind s.table = some q → q.pid ≠ 0 → q.noNewPrivs = true → SpawnedBelow s s' j p q := by
  unfold ksysSpawnArgv at made
  dsimp only at made
  cases creation : processCreateFromElfArgs verify s file.image sup with
  | mk middle result =>
    rw [creation] at made
    obtain ⟨rfl, quiet⟩ | ⟨j, fresh, rfl, created⟩ := create_cases creation
    · cases made
      exact .inl ⟨rfl, quiet⟩
    · have here : middle.table j = some fresh := by rw [created.table, update_self]
      simp only [here] at made
      obtain ⟨rfl, rfl⟩ := Prod.mk.inj made
      refine .inr ⟨j, _, rfl, created.free, put_again created.table, ?_, ?_, ?_⟩
      · exact (spawnCred_pid _ _).trans ((spawnBound_pid _ _).trans created.number)
      · intro b inside
        simp only [System.put, System.log] at inside
        split at inside
        · exact created.bindings b (mem_removeAll inside).1
        · exact created.bindings b inside
      · intro q current live bit
        rw [current, bound_valid live bit]
        have same : spawnCred (some q) (spawnBound (some q) fresh).1 = { (spawnBound (some q) fresh).1 with cred := q.cred } := if_pos live
        rw [same]
        refine ⟨fun c held number => ?_, ?_, ?_⟩
        · refine setid_frame ?_ _ _ _ _
          have own : fresh.pid ≠ 0 := by rw [created.number]; exact number
          exact (spawnBound_held held live own).congr ⟨rfl, rfl, rfl, rfl, rfl⟩
        · exact setid_refused _ _ file
        · intro b inside own
          simp only [System.put, System.log] at inside
          split at inside
          · exact absurd own (mem_removeAll inside).2
          next kept =>
            have plain := spawnBound_refused live bit (Bool.eq_false_of_not_eq_true kept)
            rwa [created.unbound plain] at inside

theorem trapFork_cases {child : Option Nat} (made : trapFork s i sup = (s', child)) :
    (child = none ∧ Quiet s s') ∨ ∃ j parent p, child = some j ∧ s.table i = some parent ∧ Created s s' j p ∧
      s'.bindings = s.bindings ∧ p = { parent with pid := s.nextPid, manifest := if sup.manifest then parent.manifest else none,
                                                   driver := false, drvDevId := none, drvCaps := 0#32 } := by
  unfold trapFork at made
  dsimp only at made
  split at made
  · obtain ⟨rfl, quiet⟩ | ⟨j, parent, p, rfl, held, created, bindings, copy⟩ := fork_cases made
    · exact .inl ⟨rfl, quiet⟩
    · exact .inr ⟨j, parent, p, rfl, held, ⟨created.free, created.table, created.number, created.bindings, created.unbound⟩, bindings, copy⟩
  · cases made
    exact .inl ⟨rfl, rfl, rfl⟩

theorem trapSpawn_cases {child : Option Nat} (made : trapSpawn verify s caller file sup = (s', child)) :
    (child = none ∧ Quiet s s') ∨ ∃ j p, child = some j ∧ s.table j = none ∧ s'.table = update s.table j (some p) ∧
      p.pid = s.nextPid ∧ (∀ b, some b ∈ s'.bindings → some b ∈ s.bindings ∨ b.proc = j) ∧
      ∀ q, caller.bind s.table = some q → q.pid ≠ 0 → q.noNewPrivs = true → SpawnedBelow s s' j p q := by
  unfold trapSpawn at made
  dsimp only at made
  split at made
  · obtain ⟨rfl, quiet⟩ | ⟨j, p, rfl, free, table, number, bindings, below⟩ := spawn_cases made
    · exact .inl ⟨rfl, quiet⟩
    · refine .inr ⟨j, p, rfl, free, table, number, bindings, fun q current live bit => ?_⟩
      have spawned := below q current live bit
      exact ⟨spawned.held, spawned.user, spawned.unbound⟩
  · cases made
    exact .inl ⟨rfl, rfl, rfl⟩

theorem trapExecve_cases (args : Args) : Quiet s (trapExecve verify s i file sup args) ∨
    ∃ p q audit, s.table i = some p ∧ processExec verify sup p file.image args = .ok (q, audit) ∧
      (trapExecve verify s i file sup args).table = update s.table i
        (some (credExecSetid q file.mode file.uid file.gid (setidAllowed q file.mode file.onRoot p.noNewPrivs).1)) ∧
      (trapExecve verify s i file sup args).bindings = driverRemoveAllBindings s.bindings i := by
  unfold trapExecve
  dsimp only
  split
  · obtain unchanged | changed := execve_cases (s := (capCheck s (s.table i) Caps.proc sysExecve "execve").1) args
    · rw [unchanged]
      exact .inl ⟨rfl, rfl⟩
    · exact .inr changed
  · exact .inl ⟨rfl, rfl⟩

end

end SecOS.Confine
