import SecOS.Proofs.Confinement

/-! Confinement along whole runs, of a process and everything it forks or spawns. The rule holds
as long as no number drawn by the family is 0, the number by which the kernel knows itself. -/

namespace SecOS.Confine
open Library Elf Caps Function List

abbrev Family := Nat → Bool

def maker : Event → Option Nat
  | .fork i _ => some i
  | .spawn caller _ _ => caller
  | _ => none

def child (verify : Image → Bool) (s : System) : Event → Option Nat
  | .fork i sup => (trapFork s i sup).2
  | .spawn caller file sup => (trapSpawn verify s caller file sup).2
  | _ => none

def familyStep (verify : Image → Bool) (s : System) (family : Family) (e : Event) : Family :=
  match e with
  | .destroy i => update family i false
  | e =>
    match child verify s e with
    | some j => update family j ((maker e).any family)
    | none => family

def only (a : Nat) : Family := fun d => d == a

def AllHeld (c : Ceiling) (s : System) (family : Family) : Prop :=
  ∀ d q, family d = true → s.table d = some q → Held c q

/-- An exec of the family takes no user or group from the file and brings no binding; neither does a new process. -/
structure NoGain (verify : Image → Bool) (s : System) (family : Family) (e : Event) : Prop where
  exec : ∀ i file sup args p q, e = .execve i file sup args → family i = true → s.table i = some p →
    (step verify s e).table i = some q → q.cred.euid = p.cred.euid ∧ q.cred.egid = p.cred.egid ∧
      ∀ b, some b ∈ (step verify s e).bindings → b.proc = i → some b ∈ s.bindings
  made : ∀ i j p q, maker e = some i → family i = true → child verify s e = some j → s.table i = some p →
    (step verify s e).table j = some q → q.cred.euid = p.cred.euid ∧ q.cred.egid = p.cred.egid ∧
      ∀ b, some b ∈ (step verify s e).bindings → b.proc ≠ j

/-- Every state of the run keeps the family below the ceiling, and no event gains anything. -/
def Monotone (verify : Image → Bool) (c : Ceiling) : System → Family → List Event → Prop
  | s, family, [] => AllHeld c s family
  | s, family, e :: rest =>
    AllHeld c s family ∧ NoGain verify s family e ∧ Monotone verify c (step verify s e) (familyStep verify s family e) rest

def Numbered (verify : Image → Bool) : System → Family → List Event → Prop
  | _, _, [] => True
  | s, family, e :: rest =>
    ((child verify s e).isSome = true → (maker e).any family = true → s.nextPid ≠ 0) ∧
      Numbered verify (step verify s e) (familyStep verify s family e) rest

def BindingsLive (s : System) : Prop := ∀ b, some b ∈ s.bindings → (s.table b.proc).isSome = true

structure Kept (c : Ceiling) (s : System) (family : Family) : Prop where
  bound : BindingsLive s
  member : ∀ d, family d = true → ∃ q, s.table d = some q ∧ Held c q ∧ q.pid ≠ 0

section
variable {verify : Image → Bool} {c : Ceiling} {s s' : System} {family : Family} {i j : Nat} {p : Process}

theorem Kept.allHeld (kept : Kept c s family) : AllHeld c s family := by
  intro d q inside held
  obtain ⟨q', here, below, _⟩ := kept.member d inside
  rw [held] at here
  cases here
  exact below

theorem BindingsLive.put (live : BindingsLive s) (table : s'.table = update s.table j (some p))
    (from_ : ∀ b, some b ∈ s'.bindings → some b ∈ s.bindings ∨ b.proc = j) : BindingsLive s' := by
  intro b inside
  rw [table]
  by_cases same : b.proc = j
  · rw [same, update_self]
    rfl
  · rw [update_of_ne same]
    exact live b ((from_ b inside).resolve_right same)

theorem Kept.put {mark : Bool} (kept : Kept c s family) (table : s'.table = update s.table j (some p))
    (from_ : ∀ b, some b ∈ s'.bindings → some b ∈ s.bindings ∨ b.proc = j)
    (held : mark = true → Held c p ∧ p.pid ≠ 0) : Kept c s' (update family j mark) := by
  refine ⟨kept.bound.put table from_, fun d inside => ?_⟩
  rw [table]
  by_cases same : d = j
  · rw [same, update_self] at inside ⊢
    exact ⟨p, rfl, held inside⟩
  · rw [update_of_ne same] at inside ⊢
    exact kept.member d inside

theorem Kept.replace (kept : Kept c s family) (table : s'.table = update s.table i (some p))
    (from_ : ∀ b, some b ∈ s'.bindings → some b ∈ s.bindings) (held : family i = true → Held c p ∧ p.pid ≠ 0) :
    Kept c s' family := by
  have after := kept.put table (fun b inside => .inl (from_ b inside)) held
  rwa [update_eq_self] at after

theorem Kept.quiet (kept : Kept c s family) (quiet : Quiet s s') : Kept c s' family := by
  obtain ⟨table, bindings⟩ := quiet
  refine ⟨fun b inside => ?_, fun d inside => ?_⟩
  · rw [table]
    exact kept.bound b (bindings ▸ inside)
  · rw [table]
    exact kept.member d inside

section
variable {e : Event} (exec : ∀ i file sup args, e ≠ .execve i file sup args)
include exec

theorem noGain_of_none (none : child verify s e = none) : NoGain verify s family e := by
  refine ⟨fun i file sup args p q same => absurd same (exec i file sup args), fun i j p q _ _ born => ?_⟩
  rw [none] at born
  cases born

/-- A child of the family takes the user of its maker; its slot was free, so a binding of it would be new. -/
theorem noGain_of_made {i j : Nat} {p q : Process} (asks : maker e = some i) (born : child verify s e = some j) (parent : s.table i = some p)
    (new : (step verify s e).table j = some q) (free : s.table j = none) (live : BindingsLive s)
    (user : q.cred.euid = p.cred.euid ∧ q.cred.egid = p.cred.egid)
    (unbound : ∀ b, some b ∈ (step verify s e).bindings → b.proc = j → some b ∈ s.bindings) : NoGain verify s family e := by
  refine ⟨fun i file sup args p q same => absurd same (exec i file sup args), ?_⟩
  intro i' j' p' q' asks' _ born' parent' new'
  rw [asks] at asks'
  cases asks'
  rw [born] at born'
  cases born'
  rw [parent] at parent'
  cases parent'
  rw [new] at new'
  cases new'
  refine ⟨user.1, user.2, fun b present own => ?_⟩
  have here := live b (unbound b present own)
  rw [own, free] at here
  cases here

theorem noGain_of_outside (outside : (maker e).any family = false) : NoGain verify s family e := by
  refine ⟨fun i file sup args p q same => absurd same (exec i file sup args), fun i j p q asks inside => ?_⟩
  rw [asks, Option.any_some, inside] at outside
  cases outside

end

variable {sup : Supply}

theorem kept_fork (kept : Kept c s family)
    (numbered : (child verify s (.fork i sup)).isSome = true → (maker (.fork i sup)).any family = true → s.nextPid ≠ 0) :
    Kept c (step verify s (.fork i sup)) (familyStep verify s family (.fork i sup)) ∧ NoGain verify s family (.fork i sup) := by
  have exec : ∀ i' file sup' args, Event.fork i sup ≠ .execve i' file sup' args := fun _ _ _ _ => nofun
  cases made : trapFork s i sup with
  | mk s' result =>
    have after : step verify s (.fork i sup) = s' := congrArg Prod.fst made
    have born : child verify s (.fork i sup) = result := congrArg Prod.snd made
    simp only [familyStep, born, after]
    obtain ⟨rfl, quiet⟩ | ⟨j, parent, p, rfl, held, created, bindings, rfl⟩ := trapFork_cases made
    · exact ⟨kept.quiet quiet, noGain_of_none exec born⟩
    · refine ⟨kept.put created.table created.bindings fun inside => ?_, ?_⟩
      · have number := numbered (by rw [born]; rfl) inside
        obtain ⟨q, here, below, live⟩ := kept.member i inside
        rw [held] at here
        cases here
        exact ⟨(below.renumber live number).congr ⟨rfl, rfl, rfl, rfl, rfl⟩, number⟩
      · have new := congrFun created.table j
        rw [update_self, ← after] at new
        refine noGain_of_made exec rfl born held new created.free kept.bound ⟨rfl, rfl⟩ fun b present _ => ?_
        rwa [after, bindings] at present

theorem kept_spawn {caller : Option Nat} {file : File} (kept : Kept c s family)
    (numbered : (child verify s (.spawn caller file sup)).isSome = true →
      (maker (.spawn caller file sup)).any family = true → s.nextPid ≠ 0) :
    Kept c (step verify s (.spawn caller file sup)) (familyStep verify s family (.spawn caller file sup)) ∧
      NoGain verify s family (.spawn caller file sup) := by
  have exec : ∀ i' file' sup' args, Event.spawn caller file sup ≠ .execve i' file' sup' args := fun _ _ _ _ => nofun
  cases made : trapSpawn verify s caller file sup with
  | mk s' result =>
    have after : step verify s (.spawn caller file sup) = s' := congrArg Prod.fst made
    have born : child verify s (.spawn caller file sup) = result := congrArg Prod.snd made
    simp only [familyStep, born, after]
    obtain ⟨rfl, quiet⟩ | ⟨j, p, rfl, free, table, number, bindings, below⟩ := trapSpawn_cases made
    · exact ⟨kept.quiet quiet, noGain_of_none exec born⟩
    · by_cases inside : (maker (.spawn caller file sup)).any family = true
      · -- the spawner is a live process of the family
        obtain ⟨i, rfl, member⟩ : ∃ i, caller = some i ∧ family i = true := by
          cases caller with
          | none => cases inside
          | some i => exact ⟨i, rfl, inside⟩
        obtain ⟨q, here, held, live⟩ := kept.member i member
        have spawned := below q here live held.bit
        have drawn := numbered (by rw [born]; rfl) inside
        have new := congrFun table j
        rw [update_self, ← after] at new
        refine ⟨kept.put table bindings fun _ => ⟨spawned.held c held drawn, by rw [number]; exact drawn⟩, ?_⟩
        refine noGain_of_made exec rfl born here new free kept.bound spawned.user fun b present own => ?_
        exact spawned.unbound b (after ▸ present) own
      · have outside := Bool.eq_false_of_not_eq_true inside
        exact ⟨kept.put table bindings fun no => absurd no inside, noGain_of_outside exec outside⟩

theorem exec_held {p q : Process} {im : Image} {args : Args} {audit : List AuditRecord} (held : Held c p)
    (live : p.pid ≠ 0) (done : processExec verify sup p im args = .ok (q, audit)) :
    Held c q ∧ q.pid = p.pid ∧ q.cred = p.cred := by
  obtain ⟨new, base, _, rfl, after⟩ := exec_inv done
  obtain ⟨pid, _, cred⟩ := applyCaps_frame
    { p with driver := false, drvDevId := none, drvCaps := 0#32, vmas := new.vmas, manifest := new.mf } new.mf
  have below := held.transition live (by rw [pid]; exact live) "execve"
  rw [after]
  refine ⟨below.congr ⟨rfl, rfl, rfl, rfl, rfl⟩, ?_, ?_⟩
  · exact (transition_pid _ _ _).trans pid
  · exact (transition_cred _ _ _).trans cred

section
variable (kept : Kept c s family)
include kept

theorem kept_execve {file : File} {args : Args} :
    Kept c (step verify s (.execve i file sup args)) family ∧ NoGain verify s family (.execve i file sup args) := by
  have unmade : ∀ i' j p q, maker (.execve i file sup args) = some i' → family i' = true →
      child verify s (.execve i file sup args) = some j → s.table i' = some p →
      (step verify s (.execve i file sup args)).table j = some q → q.cred.euid = p.cred.euid ∧ q.cred.egid = p.cred.egid ∧
        ∀ b, some b ∈ (step verify s (.execve i file sup args)).bindings → b.proc ≠ j := fun _ _ _ _ asks => nomatch asks
  have cases : Quiet s (step verify s (.execve i file sup args)) ∨ _ := trapExecve_cases args
  obtain quiet | ⟨p, q, audit, held, done, table, bindings⟩ := cases
  · refine ⟨kept.quiet quiet, ?_, unmade⟩
    intro i' file' sup' args' p q same inside here there
    cases same
    rw [quiet.1, here] at there
    cases there
    exact ⟨rfl, rfl, fun b present _ => quiet.2 ▸ present⟩
  · refine ⟨kept.replace table (fun b present => ?_) fun inside => ?_, ?_, unmade⟩
    · simp only [step, bindings] at present
      exact (mem_removeAll present).1
    · obtain ⟨p', here, below, live⟩ := kept.member i inside
      rw [held] at here
      cases here
      obtain ⟨after, number, _⟩ := exec_held below live done
      exact ⟨setid_frame after _ _ _ _, by rw [← number] at live; exact live⟩
    · intro i' file' sup' args' p' q' same inside here there
      cases same
      rw [held] at here
      cases here
      simp only [step, table, update_self] at there
      cases there
      obtain ⟨p', here, below, live⟩ := kept.member i inside
      rw [held] at here
      cases here
      obtain ⟨_, _, cred⟩ := exec_held below live done
      rw [below.bit]
      obtain ⟨euid, egid⟩ := setid_refused q q file
      refine ⟨euid.trans (by rw [cred]), egid.trans (by rw [cred]), fun b present own => ?_⟩
      simp only [step, bindings] at present
      exact (mem_removeAll present).1

theorem kept_destroy : Kept c (processDestroy s i) (update family i false) := by
  refine ⟨fun b inside => ?_, fun d inside => ?_⟩
  · obtain ⟨before, other⟩ := mem_removeAll inside
    simp only [processDestroy, update_of_ne other]
    exact kept.bound b before
  · by_cases same : d = i
    · rw [same, update_self] at inside
      cases inside
    · rw [update_of_ne same] at inside
      simp only [processDestroy, update_of_ne same]
      exact kept.member d inside

theorem kept_prctl : Kept c (prctl s i) family := by
  unfold prctl
  split
  · exact kept
  next p held =>
    refine kept.replace rfl (fun b inside => inside) fun inside => ?_
    obtain ⟨q, here, below, live⟩ := kept.member i inside
    rw [held] at here
    cases here
    exact ⟨⟨rfl, below.below, below.enforced⟩, live⟩

theorem kept_setCred {cred : Cred} : Kept c (step verify s (.setCred i cred)) family := by
  simp only [step]
  split
  · exact kept
  next p held =>
    refine kept.replace rfl (fun b inside => inside) fun inside => ?_
    obtain ⟨q, here, below, live⟩ := kept.member i inside
    rw [held] at here
    cases here
    exact ⟨below.congr ⟨rfl, rfl, rfl, rfl, rfl⟩, live⟩

theorem kept_step {e : Event}
    (numbered : (child verify s e).isSome = true → (maker e).any family = true → s.nextPid ≠ 0) :
    Kept c (step verify s e) (familyStep verify s family e) ∧ NoGain verify s family e := by
  cases e with
  | fork i sup => exact kept_fork kept numbered
  | spawn caller file sup => exact kept_spawn kept numbered
  | execve i file sup args => exact kept_execve kept
  | prctl i => exact ⟨kept_prctl kept, noGain_of_none (fun _ _ _ _ => nofun) rfl⟩
  | setCred i cred => exact ⟨kept_setCred kept, noGain_of_none (fun _ _ _ _ => nofun) rfl⟩
  | destroy i => exact ⟨kept_destroy kept, noGain_of_none (fun _ _ _ _ => nofun) rfl⟩

theorem monotone_of_numbered {events : List Event} (numbered : Numbered verify s family events) :
    Monotone verify c s family events := by
  induction events generalizing s family with
  | nil => exact kept.allHeld
  | cons e rest ih =>
    obtain ⟨after, gain⟩ := kept_step kept numbered.1
    exact ⟨kept.allHeld, gain, ih after numbered.2⟩

end

theorem Monotone.head {events : List Event} (all : Monotone verify c s family events) : AllHeld c s family := by
  cases events with
  | nil => exact all
  | cons e rest => exact all.1

theorem child_zero (family : Family) {e : Event} (born : child verify s e = some j) (zero : s.nextPid = 0) :
    familyStep verify s family e j = (maker e).any family ∧
      ∃ p, (step verify s e).table j = some p ∧ capEffective (some p) = Caps.all := by
  cases e with
  | fork i sup =>
    cases made : trapFork s i sup with
    | mk s' result =>
      have result' : result = some j := (congrArg Prod.snd made).symm.trans born
      obtain ⟨none, _⟩ | ⟨k, parent, p, same, _, created, _, _⟩ := trapFork_cases made
      · rw [none] at result'
        cases result'
      · rw [same] at result'
        cases result'
        refine ⟨?_, p, ?_, ?_⟩
        · simp only [familyStep, born, update_self]
        · rw [step, made, created.table, update_self]
        · rw [capEffective, if_pos (created.number.trans zero)]
  | spawn caller file sup =>
    cases made : trapSpawn verify s caller file sup with
    | mk s' result =>
      have result' : result = some j := (congrArg Prod.snd made).symm.trans born
      obtain ⟨none, _⟩ | ⟨k, p, same, _, table, number, _⟩ := trapSpawn_cases made
      · rw [none] at result'
        cases result'
      · rw [same] at result'
        cases result'
        refine ⟨?_, p, ?_, ?_⟩
        · simp only [familyStep, born, update_self]
        · rw [step, made, table, update_self]
        · rw [capEffective, if_pos (number.trans zero)]
  | execve i file sup args => cases born
  | prctl i => cases born
  | setCred i cred => cases born
  | destroy i => cases born

theorem numbered_of_monotone {events : List Event} (part : ¬ Within Caps.all c.eff) (all : Monotone verify c s family events) :
    Numbered verify s family events := by
  induction events generalizing s family with
  | nil => trivial
  | cons e rest ih =>
    refine ⟨fun born inside zero => part ?_, ih all.2.2⟩
    obtain ⟨j, born⟩ := Option.isSome_iff_exists.mp born
    obtain ⟨mark, p, here, full⟩ := child_zero family born zero
    rw [← full]
    exact (all.2.2.head j p (mark.trans inside) here).below

theorem maker_nobody (e : Event) : (maker e).any (fun _ => false) = false := by cases maker e <;> rfl

theorem familyStep_nobody (e : Event) : familyStep verify s (fun _ => false) e = fun _ => false := by
  have same : ∀ j, update (fun _ : Nat => false) j false = fun _ => false := fun j => update_eq_self j _
  cases e with
  | destroy i => exact same i
  | _ =>
    simp only [familyStep]
    split
    · rw [maker_nobody, same]
    · rfl

theorem bindingsLive_run (events : List Event) : BindingsLive (run verify boot events) := by
  have nothing : Kept ⟨0#32, false⟩ boot fun _ => false := ⟨fun b inside => (nomatch eq_of_mem_replicate inside), fun d no => (nomatch no)⟩
  have follow : ∀ s, Kept ⟨0#32, false⟩ s (fun _ => false) → BindingsLive (run verify s events) := by
    induction events with
    | nil => exact fun s kept => kept.bound
    | cons e rest ih =>
      intro s kept
      have numbered : (child verify s e).isSome = true → (maker e).any (fun _ => false) = true → s.nextPid ≠ 0 := by
        rw [maker_nobody]
        exact fun _ => nofun
      have after := (kept_step kept numbered).1
      rw [familyStep_nobody] at after
      exact ih _ after
  exact follow boot nothing

end

/-- A process with `no_new_privs` in a state the system reaches from boot, followed through any run: if
no process of its family draws the number 0, the family stays below what the process had
and no exec gains anything; and unless the process already had every capability, that
condition is necessary. -/
theorem confinement_monotone_iff_numbered (verify : Image → Bool) (before after : List Event) (a : Nat) (p : Process)
    (live : (run verify boot before).table a = some p) (bit : p.noNewPrivs = true) (number : p.pid ≠ 0) :
    (Numbered verify (run verify boot before) (only a) after →
        Monotone verify (ceiling p) (run verify boot before) (only a) after) ∧
      (capEffective (some p) ≠ Caps.all → Monotone verify (ceiling p) (run verify boot before) (only a) after →
        Numbered verify (run verify boot before) (only a) after) := by
  constructor
  · apply monotone_of_numbered
    refine ⟨bindingsLive_run before, fun d inside => ?_⟩
    obtain rfl : d = a := beq_iff_eq.mp inside
    exact ⟨p, live, held_ceiling bit, number⟩
  · intro part
    apply numbered_of_monotone
    intro full
    exact part ((effective_within_all (some p)).antisymm full)

/-! A program of two segments, confined to reading files and making processes. -/

def sampleBytes : Bytes :=
  (((((((Bytes.zeros.wr 4 0 0x464C457F).wr 8 24 0x100000000).wr 8 32 64).wr 2 54 56).wr 2 56 2).wr 4 64 1).wr 4 68 5)
    |>.wr 8 80 0x100000000 |>.wr 8 96 16 |>.wr 8 104 16 |>.wr 8 112 0x1000
    |>.wr 4 120 4 |>.wr 8 128 176 |>.wr 8 152 44
    |>.wr 4 176 6 |>.wr 4 180 24 |>.wr 4 184 0x51534543 |>.wr 5 188 0x534F434553
    |>.wr 4 196 1 |>.wr 4 200 0x160 |>.wr 8 204 0x10000

def sampleImage : Image := ⟨fun address => sampleBytes (address - 0x1000000), 0x1000000, 220⟩

def sampleFile : File := ⟨sampleImage, 0o755#32, 0, 0, true⟩

def sampleStart : List Event := [.spawn none sampleFile Supply.full]

theorem exists_of_any {slot : Option Process} {fact : Process → Prop} [DecidablePred fact]
    (evaluated : slot.any (fun p => decide (fact p)) = true) : ∃ p, slot = some p ∧ fact p := by
  cases slot with
  | none => cases evaluated
  | some p => exact ⟨p, rfl, of_decide_eq_true evaluated⟩

theorem sample_started : ∃ p, (run (fun _ => true) boot sampleStart).table 0 = some p ∧ p.noNewPrivs = true ∧ p.pid = 1 ∧
    p.capEnforce = true ∧ capAllowed (some p) Caps.proc = true ∧ capEffective (some p) = Caps.fsRead ||| Caps.proc :=
  exists_of_any (by decide +kernel)

theorem sample_stays_confined : ∃ p, (run (fun _ => true) boot sampleStart).table 0 = some p ∧ p.noNewPrivs = true ∧
    Monotone (fun _ => true) (ceiling p) (run (fun _ => true) boot sampleStart) (only 0)
      [.fork 0 Supply.full, .execve 1 sampleFile Supply.full ⟨[], 0, 0⟩, .spawn (some 1) sampleFile Supply.full] := by
  obtain ⟨p, live, bit, number, _⟩ := sample_started
  refine ⟨p, live, bit, ?_⟩
  apply (confinement_monotone_iff_numbered (fun _ => true) sampleStart _ 0 p live bit (by rw [number]; decide)).1
  exact ⟨fun _ _ => by decide +kernel, nofun, fun _ _ => by decide +kernel, trivial⟩

/-! Numbers are used up by forks that fail, too. -/

def failingFork : Event := .fork 0 { Supply.full with space := false }

section
variable {s : System} {p : Process}

def forkRecord (p : Process) : AuditRecord := ⟨p.pid, Caps.proc, sysFork, "fork", true⟩

section
variable (verify : Image → Bool) (live : s.table 0 = some p) (confined : p.capEnforce = true)
  (allowed : capAllowed (some p) Caps.proc = true)
include live confined allowed

theorem failing_fork :
    step verify s failingFork = { s with nextPid := (s.nextPid + 1) % 2 ^ 32, audit := s.audit ++ [forkRecord p] } ∧
      ∀ family, familyStep verify s family failingFork = family := by
  have made : trapFork s 0 { Supply.full with space := false } =
      ({ s with nextPid := (s.nextPid + 1) % 2 ^ 32, audit := s.audit ++ [forkRecord p] }, none) := by
    simp only [trapFork, capCheck, live, allowed, if_true, processFork, System.log, Option.filter_some, confined]
    rfl
  refine ⟨congrArg Prod.fst made, fun family => ?_⟩
  simp only [familyStep, failingFork, child, made]

theorem failing_forks (low : s.nextPid < 2 ^ 32) (n : Nat) (rest : List Event) :
    run verify s (List.replicate n failingFork ++ rest) =
        run verify { s with nextPid := (s.nextPid + n) % 2 ^ 32, audit := s.audit ++ List.replicate n (forkRecord p) } rest ∧
      (Numbered verify s (only 0) (List.replicate n failingFork ++ rest) →
        Numbered verify { s with nextPid := (s.nextPid + n) % 2 ^ 32, audit := s.audit ++ List.replicate n (forkRecord p) } (only 0) rest) := by
  induction n generalizing s with
  | zero =>
    rw [Nat.add_zero, Nat.mod_eq_of_lt low, replicate_zero, replicate_zero, append_nil]
    exact ⟨rfl, id⟩
  | succ n ih =>
    obtain ⟨first, family⟩ := failing_fork verify live confined allowed
    have later := ih (s := { s with nextPid := (s.nextPid + 1) % 2 ^ 32, audit := s.audit ++ [forkRecord p] }) live
      (Nat.mod_lt _ (by decide))
    have total : ((s.nextPid + 1) % 2 ^ 32 + n) % 2 ^ 32 = (s.nextPid + (n + 1)) % 2 ^ 32 := by omega
    simp only [total, append_assoc, singleton_append, ← replicate_succ] at later
    rw [replicate_succ, cons_append]
    refine ⟨?_, fun numbered => later.2 ?_⟩
    · rw [run, foldl_cons, first]
      exact later.1
    · have tail := numbered.2
      rwa [first, family] at tail

end

end

/-- A program confined to files and processes forks until the numbers start again: the child with
the number 0 counts as the kernel and has every capability. -/
theorem forked_past_the_last_number : ∃ p q, (run (fun _ => true) boot sampleStart).table 0 = some p ∧ p.noNewPrivs = true ∧
    capEffective (some p) = Caps.fsRead ||| Caps.proc ∧
    (run (fun _ => true) (run (fun _ => true) boot sampleStart)
      (List.replicate (2 ^ 32 - 2) failingFork ++ [.fork 0 Supply.full])).table 1 = some q ∧ capEffective (some q) = Caps.all ∧
    ¬ Monotone (fun _ => true) (ceiling p) (run (fun _ => true) boot sampleStart) (only 0)
      (List.replicate (2 ^ 32 - 2) failingFork ++ [.fork 0 Supply.full]) := by
  obtain ⟨p, live, bit, number, confined, allowed, effective⟩ := sample_started
  have two : (run (fun _ => true) boot sampleStart).nextPid = 2 := by decide +kernel
  obtain ⟨state, numbered⟩ :=
    failing_forks (fun _ => true) live confined allowed (by rw [two]; decide) (2 ^ 32 - 2) [.fork 0 Supply.full]
  have around : (2 + (2 ^ 32 - 2)) % 2 ^ 32 = 0 := by decide
  rw [two, around, forkRecord, number] at state numbered
  have zero : ∃ q, (run (fun _ => true) { run (fun _ => true) boot sampleStart with
        nextPid := 0
        audit := (run (fun _ => true) boot sampleStart).audit ++ List.replicate (2 ^ 32 - 2) ⟨1, Caps.proc, sysFork, "fork", true⟩ }
      [.fork 0 Supply.full]).table 1 = some q ∧ capEffective (some q) = Caps.all := exists_of_any (by decide +kernel)
  obtain ⟨q, here, full⟩ := zero
  refine ⟨p, q, live, bit, effective, by rw [state]; exact here, full, fun all => ?_⟩
  have part : ¬ Within Caps.all (ceiling p).eff := by
    show ¬ Within Caps.all (capEffective (some p))
    rw [effective]
    decide
  have drawn := (numbered (numbered_of_monotone part all)).1
  exact drawn (by decide +kernel) rfl rfl

end SecOS.Confine
