import SecOS.AcctLock
import SecOS.Library.Schedule

/-! Who has the account database: one process, as long as nobody breaks the lock of a process
that is alive. The check that finds a lock stale and the unlink are two steps. -/

namespace SecOS.AcctLock
open Library Function

def Pc.owns : Pc → Option Nat
  | .writing file | .locked file => some file
  | _ => none

def Pc.breaks : Pc → Bool
  | .breaking _ => true
  | _ => false

/-- A process that breaks the lock breaks one that no living process has. -/
def Careful (s : State) : Action → Prop
  | .step p => ∀ tries, s.pc p = .breaking tries → ∀ q file, (s.pc q).owns = some file → s.name ≠ some file
  | _ => True

/-- Every lock that is held is the file of that name. -/
structure Guarded (s : State) : Prop where
  named : ∀ p file, (s.pc p).owns = some file → s.name = some file
  alone : ∀ p q file file', (s.pc p).owns = some file → (s.pc q).owns = some file' → p = q

section
variable {s : State} {p : Nat} {pc : Pc}

theorem Guarded.moved (guarded : Guarded s) (moves : ∀ file, pc.owns = some file → (s.pc p).owns = some file) : Guarded (s.goto p pc) := by
  have back : ∀ q file, ((s.goto p pc).pc q).owns = some file → (s.pc q).owns = some file := by
    intro q file owns
    by_cases here : q = p
    · subst here
      simp only [State.goto, update_self] at owns
      exact moves file owns
    · simpa only [State.goto, update_of_ne here] using owns
  exact ⟨fun q file owns => guarded.named q file (back q file owns),
    fun q q' file file' first last => guarded.alone q q' file file' (back q file first) (back q' file' last)⟩

theorem Guarded.again (guarded : Guarded s) (tries : Nat) : Guarded (s.again p tries) := by
  unfold State.again
  split
  · exact guarded.moved nofun
  · exact guarded.moved nofun

theorem guarded_of_nobody (nobody : ∀ q, (s.pc q).owns = none) : Guarded s := by
  refine ⟨fun q file owns => ?_, fun q _ file _ owns => ?_⟩
  · exact nomatch (nobody q).symm.trans owns
  · exact nomatch (nobody q).symm.trans owns

section
variable (guarded : Guarded s)
include guarded

theorem Guarded.nobody (free : s.name = none) (q : Nat) : (s.pc q).owns = none := by
  cases owns : (s.pc q).owns with
  | none => rfl
  | some file => exact nomatch free.symm.trans (guarded.named q file owns)

theorem created_guarded (free : s.name = none) :
    Guarded ({ s with name := some s.files, text := update s.text s.files none, files := s.files + 1 }.goto p (.writing s.files)) := by
  have only : ∀ q file, (update s.pc p (.writing s.files) q).owns = some file → q = p ∧ file = s.files := by
    intro q file owns
    by_cases here : q = p
    · subst here
      rw [update_self] at owns
      exact ⟨rfl, (Option.some.inj owns).symm⟩
    · rw [update_of_ne here, guarded.nobody free q] at owns
      exact nomatch owns
  refine ⟨fun q file owns => ?_, fun q q' file file' first last => ?_⟩
  · exact congrArg some (only q file owns).2.symm
  · exact (only q file first).1.trans (only q' file' last).1.symm

/-- Whatever `dprintf` writes, the file stays the one of its creator. -/
theorem written_guarded {file : Nat} (here : s.pc p = .writing file) (text : Option Nat) :
    Guarded ({ s with text := update s.text file text }.goto p (.locked file)) := by
  have written : Guarded { s with text := update s.text file text } := ⟨guarded.named, guarded.alone⟩
  refine written.moved fun _ owns => ?_
  change (s.pc p).owns = _
  rw [here]
  exact owns

theorem unlocked_guarded {file : Nat} (here : s.pc p = .locked file) : Guarded ({ s with name := none }.goto p .out) := by
  have owns : (s.pc p).owns = some file := by rw [here]; rfl
  apply guarded_of_nobody
  intro q
  change (update s.pc p .out q).owns = none
  by_cases same : q = p
  · subst same
    rw [update_self]
    rfl
  · rw [update_of_ne same]
    cases other : (s.pc q).owns with
    | none => rfl
    | some file' => exact absurd (guarded.alone q p file' file other owns) same

theorem broken_guarded (careful : ∀ q file, (s.pc q).owns = some file → s.name ≠ some file) (tries : Nat) :
    Guarded ({ s with name := none }.again p tries) := by
  refine Guarded.again (guarded_of_nobody fun q => ?_) tries
  cases owns : (s.pc q).owns with
  | none => rfl
  | some file => exact absurd (guarded.named q file owns) (careful q file owns)

theorem advance_guarded (careful : Careful s (.step p)) : Guarded (advance s p) := by
  unfold advance
  cases here : s.pc p with
  | dead => exact guarded
  | out => exact guarded.moved nofun
  | creating tries =>
    dsimp only
    cases name : s.name with
    | none => exact created_guarded guarded name
    | some file => exact guarded.moved nofun
  | writing file => exact written_guarded guarded here (some p)
  | locked file => exact unlocked_guarded guarded here
  | opening tries =>
    dsimp only
    cases s.name with
    | none => exact guarded.moved nofun
    | some file => exact guarded.moved nofun
  | reading tries file => exact guarded.moved nofun
  | asking tries text =>
    cases text with
    | none =>
      dsimp only
      split
      · exact guarded.moved nofun
      · exact guarded.again tries
    | some pid =>
      dsimp only
      split
      · exact guarded.moved nofun
      · exact guarded.again tries
  | breaking tries => exact broken_guarded guarded (careful tries here) tries

theorem step_guarded (a : Action) (careful : Careful s a) : Guarded (step s a) := by
  cases a with
  | step p => exact advance_guarded guarded careful
  | refuse p =>
    unfold step
    dsimp only
    split
    · exact guarded.moved nofun
    · exact guarded
  | short p missing =>
    unfold step
    dsimp only
    split
    next here => exact written_guarded guarded here _
    · exact guarded
  | crash p => exact guarded.moved nofun
  | spawn p =>
    unfold step
    dsimp only
    split
    · exact guarded.moved nofun
    · exact guarded

end

end

/-- At most one process has the lock, and the name that its `acct_unlock` removes is its own. -/
def Exclusive (s : State) : Prop :=
  (∀ p q file file', s.pc p = .locked file → s.pc q = .locked file' → p = q) ∧
    ∀ p file, s.pc p = .locked file → s.name = none ∨ s.name = some file

/-- Every run in which no process breaks the lock of a living one. -/
theorem lock_exclusive (actions : List Action) (careful : Permitted step Careful boot actions) : Exclusive (run boot actions) := by
  have start : Guarded boot := guarded_of_nobody fun _ => rfl
  have guarded : Guarded (run boot actions) := foldl_keeps (P := Guarded) (fun _ a held met => step_guarded held a met) start careful
  refine ⟨fun p q file file' first last => ?_, fun p file here => ?_⟩
  · exact guarded.alone p q file file' (by rw [first]; rfl) (by rw [last]; rfl)
  · exact .inr (guarded.named p file (by rw [here]; rfl))

/-- A holder crashes, and a second process finds its lock stale, breaks it and takes it. -/
def takeover : List Action :=
  [.spawn 1, .step 1, .step 1, .step 1, .crash 1, .spawn 2, .step 2, .step 2, .step 2, .step 2, .step 2, .step 2, .step 2, .step 2]

private theorem careful_elsewhere {s : State} {p : Nat} (place : (s.pc p).breaks = false) : Careful s (.step p) := by
  intro tries here
  rw [here] at place
  exact nomatch place

theorem takeover_exclusive : (run boot takeover).pc 2 = .locked 1 ∧ Exclusive (run boot takeover) := by
  refine ⟨by decide, lock_exclusive takeover ?_⟩
  have nobody : ∀ q, ((run boot (takeover.take 11)).pc q).owns = none := by
    intro q
    rcases q with _ | _ | _ | q
    · rfl
    · rfl
    · rfl
    · rfl
  refine ⟨trivial, careful_elsewhere rfl, careful_elsewhere rfl, careful_elsewhere rfl, trivial, trivial, careful_elsewhere rfl,
    careful_elsewhere rfl, careful_elsewhere rfl, careful_elsewhere rfl, careful_elsewhere rfl, ?_, careful_elsewhere rfl, careful_elsewhere rfl, trivial⟩
  intro tries _ q file owns
  exact nomatch (nobody q).symm.trans owns

/-- Two processes find the lock of a dead one stale. The first breaks it and takes the lock,
the second breaks the lock of the first and takes it too. -/
theorem broken_twice : ¬Exclusive (run boot [.spawn 1, .step 1, .step 1, .step 1, .crash 1, .spawn 2, .spawn 3,
    .step 2, .step 2, .step 2, .step 2, .step 2, .step 3, .step 3, .step 3, .step 3, .step 3,
    .step 2, .step 2, .step 2, .step 3, .step 3, .step 3]) := by
  intro exclusive
  have two := exclusive.1 2 3 1 2 (by decide) (by decide)
  exact nomatch two

end SecOS.AcctLock
