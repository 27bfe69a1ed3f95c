import SecOS.Proofs.CowSafety

/-! A fork is all or nothing exactly when no page-table allocation of a fork that goes through
fails for a present or a device page: such a page is left out without notice. -/

namespace SecOS.Machine
open Library Pmm Vmm PageCache

/-- A child has every page of the parent, on the same frame and with the same protection,
traded for copy-on-write on both sides where it was writable. Without a child the parent
reads what it read, and every frame is free again that was. -/
def AllOrNothing (m : Pmm.State) (parent : Space) (heapOk : Bool) : Prop :=
  match forkSpace m parent heapOk with
  | (_, parent', some child) => ∀ page ∈ window, pteHasFrame (parent.pte page) = true →
      parent'.pte page = forkedPte (parent.pte page) ∧ child.pte page = forkedPte (parent.pte page)
  | (m', parent', none) =>
      (∀ addr, addr / 4096 ∈ window → load m' parent' addr = load m parent addr) ∧ ∀ f, isFree m' f = isFree m f

/-- The share of a page of the parent is refused, or the child has no table for a parked page. -/
def refused (st : ForkState) (page : Nat) : Bool :=
  let pte := st.parent.pte page
  let table := getPtSpace st.pmm st.child (page * 4096) true
  pteHasFrame pte && !pte.has flagDevice &&
    if pte.has flagPresent then (shareFrame st.pmm (ptePhys pte)).2 ≠ 0
    else !table.2.2 || (shareFrame table.1 (ptePhys pte)).2 ≠ 0

/-- The walk meets such a page. -/
def meetsRefusal : ForkState → List Nat → Bool
  | _, [] => false
  | st, page :: rest =>
    refused st page || match forkLeaf st page with
      | .ok st' => meetsRefusal st' rest
      | .error _ => false

/-- The walk meets a page whose share is refused or a parked page without a table, or no
page-table allocation of it fails for a present or a device page; and the kernel heap does not
refuse the space once its two tables are allocated. -/
def NoPageLeftOut (m : Pmm.State) (parent : Space) (heapOk : Bool) : Prop :=
  match spaceCreateUser m heapOk with
  | (_, none) => heapOk = true ∨ twoFrames m = false
  | (m', some child) => meetsRefusal ⟨m', parent, child⟩ windowPages = true ∨ starved ⟨m', parent, child⟩ windowPages = false

theorem forkDevice_ok (st : ForkState) (page : Nat) (pte : Word) : (forkDevice st page pte).isOk = true := by
  unfold forkDevice
  split <;> rfl

theorem forkParked_ok (st : ForkState) (page : Nat) (pte : Word) : (forkParked st page pte).isOk =
    !(!(getPtSpace st.pmm st.child (page * 4096) true).2.2 ||
      decide ((shareFrame (getPtSpace st.pmm st.child (page * 4096) true).1 (ptePhys pte)).2 ≠ 0)) := by
  unfold forkParked
  generalize getPtSpace st.pmm st.child (page * 4096) true = table
  obtain ⟨m, child, found⟩ := table
  cases found with
  | false => rfl
  | true =>
    dsimp only
    split
    next refusal => rw [decide_eq_true refusal]; rfl
    next shared => rw [decide_eq_false shared]; rfl

theorem forkPresent_ok (st : ForkState) (page : Nat) (pte : Word) :
    (forkPresent st page pte).isOk = !decide ((shareFrame st.pmm (ptePhys pte)).2 ≠ 0) := by
  unfold forkPresent
  dsimp only
  by_cases refusal : (shareFrame st.pmm (ptePhys pte)).2 ≠ 0
  · rw [if_pos refusal, decide_eq_true refusal]
    rfl
  · rw [if_neg refusal, decide_eq_false refusal]
    generalize mapInSpace _ st.child _ _ _ = mapped
    obtain ⟨m, child, res⟩ := mapped
    by_cases done : res = 0
    · rw [if_pos done]
      rfl
    · rw [if_neg done]
      rfl

/-- A page stops the walk exactly when it is refused. -/
theorem forkLeaf_ok (st : ForkState) (page : Nat) : (forkLeaf st page).isOk = !refused st page := by
  unfold forkLeaf refused
  dsimp only
  cases pteHasFrame (st.parent.pte page) with
  | false => rfl
  | true =>
    cases (st.parent.pte page).has flagDevice with
    | true => exact forkDevice_ok st page _
    | false =>
      cases (st.parent.pte page).has flagPresent with
      | true => exact forkPresent_ok st page _
      | false => exact forkParked_ok st page _

theorem walk_aborts_iff (pages : List Nat) : ∀ st : ForkState, (∃ st', pages.foldlM forkLeaf st = .error st') ↔ meetsRefusal st pages = true := by
  induction pages with
  | nil =>
    intro st
    refine ⟨fun aborted => ?_, nofun⟩
    obtain ⟨st', ended⟩ := aborted
    cases ended
  | cons page rest ih =>
    intro st
    have one := forkLeaf_ok st page
    rw [List.foldlM_cons, meetsRefusal]
    cases result : forkLeaf st page with
    | error st' =>
      have met : refused st page = true := by
        rw [result] at one
        simpa [Except.isOk, Except.toBool] using one.symm
      rw [met]
      exact ⟨fun _ => rfl, fun _ => ⟨st', rfl⟩⟩
    | ok st' =>
      have passed : refused st page = false := by
        rw [result] at one
        simpa [Except.isOk, Except.toBool] using one.symm
      rw [passed, Bool.false_or]
      exact ih st'

section
variable {device : Nat → Prop} {boot : Pmm.State} {m m' : Pmm.State} {rest others : Nat → Nat} {parent parent' : Space}

private theorem reads_kept (tidy : Tidy device others parent) (within : ∀ f, parent.leaves f ≤ rest f)
    (leaf : ∀ q, (parent'.pte q).has flagPresent = (parent.pte q).has flagPresent ∧ ptePhys (parent'.pte q) = ptePhys (parent.pte q))
    (kept : ∀ f, 0 < rest f ∨ device f → m'.mem f = m.mem f) {addr : Nat} (inside : addr / 4096 ∈ window) :
    load m' parent' addr = load m parent addr := by
  unfold load
  simp only [(leaf (addr / 4096)).1, (leaf (addr / 4096)).2]
  cases present : (parent.pte (addr / 4096)).has flagPresent with
  | false => simp
  | true =>
    have taken : pteHasFrame (parent.pte (addr / 4096)) = true := by rw [pteHasFrame_eq, ← has_present, present, Bool.true_or]
    have frame : 0 < rest (ptePhys (parent.pte (addr / 4096)) / frameSize) ∨ device (ptePhys (parent.pte (addr / 4096)) / frameSize) := by
      cases marked : (parent.pte (addr / 4096)).has flagDevice with
      | true => exact .inr (tidy.plain _ inside taken marked).2
      | false =>
        have counted := leaf_counted inside (owner_some.mpr ⟨taken, marked, rfl⟩)
        exact .inl (Nat.lt_of_lt_of_le counted (within _))
    rw [kept _ frame]

private theorem Walking.leaf {base : Nat → Nat} {st : ForkState} {p : Nat} (walking : Walking device m rest base parent st p) (q : Nat) :
    (st.parent.pte q).has flagPresent = (parent.pte q).has flagPresent ∧ ptePhys (st.parent.pte q) = ptePhys (parent.pte q) := by
  rw [walking.left]
  split
  · exact ⟨forkedPte_present _, (forkedPte_kept _).2.2.1⟩
  · exact ⟨rfl, rfl⟩

/-- For every live process of every reachable state: its fork is all or nothing exactly when
no page is left out. -/
theorem fork_all_or_nothing_iff (ready : Ready device boot) (ops : List Op) (legal : ∀ op ∈ ops, Legal device op) (i : Nat)
    (parent : Space) (found : (run (booted boot) ops).spaces[i]? = some parent) (heapOk : Bool) :
    AllOrNothing (run (booted boot) ops).pmm parent heapOk ↔ NoPageLeftOut (run (booted boot) ops).pmm parent heapOk := by
  have balanced := run_balanced (booted_balanced ready) ops legal
  generalize run (booted boot) ops = w at found balanced
  obtain ⟨m, c, spaces, kernel⟩ := w
  obtain ⟨pre, post, rfl, rfl⟩ := split_at found
  obtain ⟨acc, tidy⟩ := balanced.view
  have within : ∀ f, parent.leaves f ≤ leavesOf (pre ++ post) f + parent.leaves f := fun f => Nat.le_add_left _ _
  have outcome := forkSpace_ends acc within tidy.shaped heapOk
  unfold AllOrNothing NoPageLeftOut
  simp only
  generalize forkSpace m parent heapOk = result at outcome
  cases outcome with
  | refused created loan short =>
    rw [created]
    obtain ⟨free, kept⟩ := loan.repaid acc
    exact ⟨fun _ => .inr short, fun _ => ⟨fun _ inside => reads_kept tidy within (fun _ => ⟨rfl, rfl⟩) kept inside, free⟩⟩
  | lost created heap _ taken enough =>
    rw [created]
    obtain ⟨f, before, after⟩ := taken
    refine ⟨fun restored => ?_, fun absurd => ?_⟩
    · have same := restored.2 f
      rw [before, after] at same
      exact nomatch same
    · rw [heap, enough] at absurd
      exact absurd.elim nofun nofun
  | aborted created walk walking loan =>
    rw [created]
    obtain ⟨free, kept⟩ := loan.repaid acc
    rw [forkWalk_eq] at walk
    exact ⟨fun _ => .inl ((walk_aborts_iff _ _).mp ⟨_, walk⟩), fun _ => ⟨fun _ inside => reads_kept tidy within (Walking.leaf walking) kept inside, free⟩⟩
  | forked created walk walking copied =>
    rw [created]
    rw [forkWalk_eq] at walk
    simp only [← copied, ← walk_aborts_iff, walk, reduceCtorEq, exists_false, false_or]
    refine ⟨fun both page inside taken => (both page inside taken).2, fun all page inside taken => ⟨?_, all page inside taken⟩⟩
    rw [walking.left, if_pos ⟨inside, (mem_window.mp inside).2⟩]

def tightBoot : Pmm.State :=
  { tinyBoot with avail := [⟨0x100000, 0x111000⟩], earlyTop := fun _ => 0x111000, maxPhys := 0x111000 }

def touched : List Op := [.create true, .faultIn 0 noFiles heapPage 0x280000000]

private theorem touched_legal : ∀ op ∈ touched, Legal (fun _ => False) op := by
  intro op member
  simp only [touched, List.mem_cons, List.not_mem_nil, or_false] at member
  rcases member with rfl | rfl
  · trivial
  · exact ⟨mem_window.mpr (by decide), nofun⟩

private theorem tinyBoot_ready : Ready (fun _ => False) tinyBoot :=
  ⟨rfl, by decide +kernel, by decide +kernel, by decide +kernel, fun _ never => never.elim⟩

/-- With two frames left the fork has its two tables and no chunk for the share: it aborts,
and the parent and the free frames are as before. -/
theorem fork_out_of_frames : ∃ parent : Space, (run (booted tinyBoot) touched).spaces = [parent] ∧
    AllOrNothing (run (booted tinyBoot) touched).pmm parent true := by
  have aborts : ((run (booted tinyBoot) touched).spaces.map fun s =>
      match spaceCreateUser (run (booted tinyBoot) touched).pmm true with
      | (_, none) => false
      | (m, some child) => (forkWalk ⟨m, s, child⟩).isOk = false) = [true] := by decide +kernel
  obtain ⟨parent, rest, shape, aborts, leaves⟩ := List.map_eq_cons_iff.mp aborts
  obtain rfl := List.map_eq_nil_iff.mp leaves
  have found : (run (booted tinyBoot) touched).spaces[0]? = some parent := by rw [shape]; rfl
  refine ⟨parent, shape, (fork_all_or_nothing_iff tinyBoot_ready touched touched_legal 0 parent found true).mpr ?_⟩
  unfold NoPageLeftOut
  cases created : spaceCreateUser (run (booted tinyBoot) touched).pmm true with
  | mk m result =>
    cases result with
    | none => exact .inl rfl
    | some child =>
      rw [created] at aborts
      cases walked : forkWalk ⟨m, parent, child⟩ with
      | error st =>
        rw [forkWalk_eq] at walked
        exact .inl ((walk_aborts_iff _ _).mp ⟨st, walked⟩)
      | ok st =>
        simp only [walked, decide_eq_true_eq] at aborts
        exact nomatch aborts

/-- With three frames left the fork shares the page, finds no frame for the child's tables,
and returns a child without the page. -/
theorem page_left_out : ∃ parent : Space,
    (run (booted tightBoot) touched).spaces = [parent] ∧ ¬AllOrNothing (run (booted tightBoot) touched).pmm parent true := by
  have leaves : ((run (booted tightBoot) touched).spaces.map fun s => (pteHasFrame (s.pte 0x280000), (s.pte 0x280000).has flagPresent,
      (forkSpace (run (booted tightBoot) touched).pmm s true).2.2.map fun child => pteHasFrame (child.pte 0x280000))) =
        [(true, true, some false)] := by decide +kernel
  obtain ⟨parent, rest, shape, leaf, leaves⟩ := List.map_eq_cons_iff.mp leaves
  obtain rfl := List.map_eq_nil_iff.mp leaves
  simp only [Prod.mk.injEq] at leaf
  have ⟨taken, present, left⟩ := leaf
  refine ⟨parent, shape, fun whole => ?_⟩
  unfold AllOrNothing at whole
  generalize forkSpace (run (booted tightBoot) touched).pmm parent true = result at whole left
  obtain ⟨m', parent', child⟩ := result
  cases child with
  | none => exact nomatch left
  | some child =>
    have copied := (whole 0x280000 (mem_window.mpr (by decide)) taken).2
    have kept : pteHasFrame (forkedPte (parent.pte 0x280000)) = true := by
      rw [pteHasFrame_eq, ← has_present, forkedPte_present, present, Bool.true_or]
    rw [← copied] at kept
    exact nomatch (Option.some.inj left).symm.trans kept

end
end SecOS.Machine
