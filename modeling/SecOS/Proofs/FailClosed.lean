import SecOS.Proofs.ConfinedRuns

/-! What is left of a manifest when memory runs out. The image loader treats a manifest
that it could not keep like a manifest that does not exist, so a program that asked to be
confined runs without limits. -/

namespace SecOS.Confine
open Library Elf Caps

structure AsManifest (mf : Manifest) (p : Process) : Prop where
  enforce : p.capEnforce = true
  mask : Within p.capMask (mf.flags &&& manifestMask)
  limit : p.memLimit = mf.maxMem

def FailClosed (mf : Manifest) : Except Errno (Process × List AuditRecord) → Prop
  | .error _ => True
  | .ok (p, _) => AsManifest mf p

section
variable {verify : Image → Bool} {sup : Supply} {im : Image} {mf : Manifest} {p q : Process} {args : Args} {audit : List AuditRecord}

theorem load_entry {vset : List Vma} {loaded : Loaded} (done : elfLoadImageLazy im vset = .ok loaded) : loaded.entry = im.entry := by
  unfold elfLoadImageLazy at done
  split at done
  · cases done
  split at done
  · cases done
  split at done
  · cases done
  split at done
  · cases done
  split at done
  · cases done
  · cases done
    rfl

theorem build_manifest {owned : Bool} {extra : Nat} {new : ProcImage} (built : procImageBuild verify sup im owned extra = .ok new) :
    ∃ footprint, buildManifest sup im im.entry footprint = .ok new.mf := by
  unfold procImageBuild at built
  split at built
  · cases built
  split at built
  · cases built
  split at built
  · cases built
  split at built
  · cases built
  next loaded read =>
    dsimp only at built
    split at built
    · cases built
    split at built
    · cases built
    next kept =>
      cases built
      rw [load_entry read] at kept
      exact ⟨_, kept⟩

theorem buildManifest_cases {entry footprint : Nat} {result : Option Manifest} (parsed : elfManifestParse im = .ok mf)
    (done : buildManifest sup im entry footprint = .ok result) :
    (result = some mf ∧ sup.manifest = true ∧ (mf.entryHint = 0 ∨ mf.entryHint = entry)) ∨
      (result = none ∧ ¬ (sup.manifest = true ∧ (mf.entryHint = 0 ∨ mf.entryHint = entry))) := by
  unfold buildManifest at done
  split at done
  next memory =>
    simp only [parsed, elfManifestValidate] at done
    split at done
    next invalid =>
      cases done
      split at invalid
      · exact .inr ⟨rfl, fun kept => by obtain ⟨_, hint | hint⟩ := kept <;> tauto⟩
      · cases invalid
    next valid =>
      split at valid
      · cases valid
      split at done
      · cases done
      · cases done
        exact .inl ⟨rfl, memory, by tauto⟩
  next none =>
    cases done
    exact .inr ⟨rfl, fun kept => none kept.1⟩

theorem transition_memLimit (p : Process) (b : ExecBound) (what : String) : (capExecTransition p b what).1.memLimit = p.memLimit := by
  unfold capExecTransition
  split <;> rfl

theorem transition_enforce {b : ExecBound} (what : String) (confined : p.capEnforce = true) :
    (capExecTransition p b what).1.capEnforce = true := by
  unfold capExecTransition
  split
  · simp only [confined, Bool.true_or]
  · exact confined

theorem transition_mask {b : ExecBound} (what : String) (confined : p.capEnforce = true) (live : b.valid = true → p.pid ≠ 0) :
    Within (capExecTransition p b what).1.capMask p.capMask := by
  unfold capExecTransition
  dsimp only
  split
  next bounded =>
    rw [Bool.and_eq_true] at bounded
    simp only [capEffective, if_neg (live bounded.1), confined, if_true]
    split
    · exact ((Within.refl _).and _).and _
    · exact (((Within.refl _).and _).and _).and _
  · exact Within.refl _

theorem exec_with_manifest (p base : Process) {new : ProcImage} (mine : new.mf = some mf) (confined : has mf.flags flagEnforce = true)
    (number : base.pid = p.pid) :
    AsManifest mf (capExecTransition (procApplyCaps base new.mf) (capExecBound (some p)) "execve").1 := by
  rw [mine]
  have enforce : (procApplyCaps base (some mf)).capEnforce = true := confined
  refine ⟨transition_enforce _ enforce, transition_mask _ enforce fun valid => ?_, transition_memLimit _ _ _⟩
  have live : p.pid ≠ 0 := of_decide_eq_true valid
  rw [← number] at live
  exact live

end

/-- An exec of a program whose manifest asks for confinement and a limit: it fails, or runs as the manifest
says, exactly if no exec goes through without memory for the manifest or with an entry hint that is not the entry. -/
theorem exec_fail_closed_iff (verify : Image → Bool) (sup : Supply) (p : Process) (im : Image) (args : Args) (mf : Manifest)
    (parsed : elfManifestParse im = .ok mf) (confined : has mf.flags flagEnforce = true) (limited : mf.maxMem ≠ 0) :
    FailClosed mf (processExec verify sup p im args) ↔
      ((∃ e, processExec verify sup p im args = .error e) ∨
        (sup.manifest = true ∧ (mf.entryHint = 0 ∨ mf.entryHint = im.entry))) := by
  cases done : processExec verify sup p im args with
  | error e => exact ⟨fun _ => .inl ⟨e, rfl⟩, fun _ => trivial⟩
  | ok result =>
    obtain ⟨q, audit⟩ := result
    obtain ⟨new, base, built, rfl, after⟩ := exec_inv done
    obtain ⟨footprint, kept⟩ := build_manifest built
    simp only [FailClosed, reduceCtorEq, exists_false, false_or]
    obtain ⟨mine, fits⟩ | ⟨lost, unfit⟩ := buildManifest_cases parsed kept
    · have as := exec_with_manifest p { p with driver := false, drvDevId := none, drvCaps := 0#32, vmas := new.vmas, manifest := new.mf }
        mine confined rfl
      rw [after]
      exact ⟨fun _ => fits, fun _ => ⟨as.enforce, as.mask, as.limit⟩⟩
    · refine ⟨fun as => absurd ?_ limited, fun fits => absurd fits unfit⟩
      rw [← as.limit, after]
      simp only [transition_memLimit, lost]
      rfl

def ambientProcess : Process :=
  { pid := 2, manifest := none, capNet := false, capEnforce := false, capMask := 0#32, noNewPrivs := false, memLimit := 0,
    driver := false, drvDevId := none, drvCaps := 0#32, cred := credInitRoot, vmas := [], entry := 0, stackTop := 0,
    brkStart := 0, brkCur := 0, mmapNext := 0, userMemBytes := 0 }

def sampleManifest : Manifest := ⟨1, 0x160#32, 0x10000, 0, 0, 0, 0#32⟩

theorem sample_parsed : elfManifestParse sampleImage = .ok sampleManifest := by decide +kernel

theorem sample_exec_confined : FailClosed sampleManifest (processExec (fun _ => true) Supply.full ambientProcess sampleImage ⟨[], 0, 0⟩) ∧
    (processExec (fun _ => true) Supply.full ambientProcess sampleImage ⟨[], 0, 0⟩).toOption.isSome = true := by
  refine ⟨?_, by decide +kernel⟩
  exact (exec_fail_closed_iff _ _ _ _ _ sampleManifest sample_parsed (by decide) (by decide)).mpr (.inr ⟨rfl, .inl rfl⟩)

/-- The manifest asks for confinement and 64 KiB. Without memory for it the program runs with everything and no limit. -/
theorem exec_without_manifest : elfManifestParse sampleImage = .ok sampleManifest ∧ has sampleManifest.flags flagEnforce = true ∧
    sampleManifest.maxMem = 0x10000 ∧
    ∃ q, processExec (fun _ => true) { Supply.full with manifest := false } ambientProcess sampleImage ⟨[], 0, 0⟩ = .ok (q, []) ∧
      q.capEnforce = false ∧ q.memLimit = 0 := by
  refine ⟨sample_parsed, by decide, rfl, ?_⟩
  have evaluated : (processExec (fun _ => true) { Supply.full with manifest := false } ambientProcess sampleImage ⟨[], 0, 0⟩).toOption.any
      (fun result => decide (result.2 = [] ∧ result.1.capEnforce = false ∧ result.1.memLimit = 0)) = true := by decide +kernel
  cases done : processExec (fun _ => true) { Supply.full with manifest := false } ambientProcess sampleImage ⟨[], 0, 0⟩ with
  | error e =>
    rw [done] at evaluated
    cases evaluated
  | ok result =>
    rw [done] at evaluated
    obtain ⟨silent, ambient⟩ := of_decide_eq_true evaluated
    exact ⟨result.1, by rw [← silent], ambient⟩

end SecOS.Confine
