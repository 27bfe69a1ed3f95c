import SecOS.Proofs.Accounts
import SecOS.Proofs.Pte

/-! The ledger of an address space: which frames its leaves refer to and which ones are its
tables, and how setting an entry or adding a table changes the two. -/

namespace SecOS.Vmm
open Library Pmm Function Finset Option

/-- The frame a leaf counts as a reference to: present or parked, not device memory. -/
def owner (pte : Word) : Option Nat :=
  if pteHasFrame pte && !pte.has flagDevice then some (ptePhys pte / frameSize) else none

/-- Pages of the user window: the first-level slots `pdptLo` to `pdptHi`. -/
def window : Finset Nat := Finset.Ico (4 * 2 ^ 18) (16 * 2 ^ 18)

def directories : Finset Nat := Finset.Ico 4 16

def pageTables : Finset Nat := Finset.Ico (4 * 512) (16 * 512)

variable {page : Nat}

theorem mem_window : page ∈ window ↔ 4 * 2 ^ 18 ≤ page ∧ page < 16 * 2 ^ 18 := mem_Ico

theorem directory_mem (inside : page ∈ window) : page / 2 ^ 18 ∈ directories := by
  have bounds := mem_window.mp inside
  exact mem_Ico.mpr ⟨by omega, by omega⟩

theorem pageTable_mem (inside : page ∈ window) : page / 512 ∈ pageTables := by
  have bounds := mem_window.mp inside
  exact mem_Ico.mpr ⟨by omega, by omega⟩

namespace Space

def owns (slot : Option Nat) (f : Nat) : Nat := if slot = some f then 1 else 0

def leaves (s : Space) (f : Nat) : Nat := ∑ page ∈ window, owns (owner (s.pte page)) f

def tables (s : Space) (f : Nat) : Nat :=
  owns (some s.pml4) f + owns (s.pdpt 0) f + ∑ k ∈ directories, owns (s.pd k) f + ∑ k ∈ pageTables, owns (s.pt k) f

end Space

theorem owns_none (f : Nat) : Space.owns none f = 0 := if_neg nofun

theorem owns_some (g f : Nat) : Space.owns (some g) f = if f = g then 1 else 0 := by
  unfold Space.owns
  by_cases same : f = g
  · rw [if_pos same, if_pos (by rw [same])]
  · rw [if_neg same, if_neg (fun equal => same (Option.some.inj equal).symm)]

section
variable {s : Space} {page k frame f : Nat} {w : Word}

theorem putPd_fields (frame : Nat) (above : (s.pdpt (k / 512)).isSome) :
    (s.putPd k frame).pml4 = s.pml4 ∧ (s.putPd k frame).pdpt = s.pdpt ∧
      (s.putPd k frame).pd = update s.pd k (some frame) ∧ (s.putPd k frame).pt = s.pt ∧ (s.putPd k frame).pte = s.pte := by
  unfold Space.putPd
  rw [dif_pos above]
  exact ⟨rfl, rfl, rfl, rfl, rfl⟩

theorem putPt_fields (frame : Nat) (above : (s.pd (k / 512)).isSome) :
    (s.putPt k frame).pml4 = s.pml4 ∧ (s.putPt k frame).pdpt = s.pdpt ∧ (s.putPt k frame).pd = s.pd ∧
      (s.putPt k frame).pt = update s.pt k (some frame) ∧ (s.putPt k frame).pte = s.pte := by
  unfold Space.putPt
  rw [dif_pos above]
  exact ⟨rfl, rfl, rfl, rfl, rfl⟩

theorem setPte_fields (s : Space) (page : Nat) (w : Word) :
    (s.setPte page w).pml4 = s.pml4 ∧ (s.setPte page w).pdpt = s.pdpt ∧ (s.setPte page w).pd = s.pd ∧
      (s.setPte page w).pt = s.pt := by
  unfold Space.setPte
  split <;> exact ⟨rfl, rfl, rfl, rfl⟩

theorem setPte_pte (above : (s.pt (page / 512)).isSome) : (s.setPte page w).pte = update s.pte page w := by
  unfold Space.setPte
  rw [dif_pos above]

theorem tables_setPte (s : Space) (page : Nat) (w : Word) (f : Nat) : (s.setPte page w).tables f = s.tables f := by
  obtain ⟨pml4, pdpt, pd, pt⟩ := setPte_fields s page w
  unfold Space.tables
  rw [pml4, pdpt, pd, pt]

theorem putPdpt_fields (s : Space) (k frame : Nat) :
    (s.putPdpt k frame).pml4 = s.pml4 ∧ (s.putPdpt k frame).pdpt = update s.pdpt k (some frame) ∧
      (s.putPdpt k frame).pd = s.pd ∧ (s.putPdpt k frame).pt = s.pt ∧ (s.putPdpt k frame).pte = s.pte := ⟨rfl, rfl, rfl, rfl, rfl⟩

theorem tables_putPdpt (absent : s.pdpt 0 = none) : (s.putPdpt 0 frame).tables f = s.tables f + if f = frame then 1 else 0 := by
  obtain ⟨pml4, pdpt, pd, pt, _⟩ := putPdpt_fields s 0 frame
  unfold Space.tables
  rw [pml4, pdpt, pd, pt, update_self, absent, owns_none, owns_some frame]
  omega

theorem tables_putPd (above : (s.pdpt (k / 512)).isSome) (inside : k ∈ directories) (absent : s.pd k = none) :
    (s.putPd k frame).tables f = s.tables f + if f = frame then 1 else 0 := by
  obtain ⟨pml4, pdpt, pd, pt, _⟩ := putPd_fields frame above
  have sum := sum_update _ s.pd (fun slot => Space.owns slot f) inside (some frame)
  rw [absent, owns_none, owns_some] at sum
  unfold Space.tables
  rw [pml4, pdpt, pd, pt, ← Nat.add_zero (∑ k ∈ directories, Space.owns (update s.pd _ _ k) f), sum]
  omega

theorem tables_putPt (above : (s.pd (k / 512)).isSome) (inside : k ∈ pageTables) (absent : s.pt k = none) :
    (s.putPt k frame).tables f = s.tables f + if f = frame then 1 else 0 := by
  obtain ⟨pml4, pdpt, pd, pt, _⟩ := putPt_fields frame above
  have sum := sum_update _ s.pt (fun slot => Space.owns slot f) inside (some frame)
  rw [absent, owns_none, owns_some] at sum
  unfold Space.tables
  rw [pml4, pdpt, pd, pt, ← Nat.add_zero (∑ k ∈ pageTables, Space.owns (update s.pt _ _ k) f), sum]
  omega

theorem leaves_congr {t : Space} (same : t.pte = s.pte) (f : Nat) : t.leaves f = s.leaves f := by
  unfold Space.leaves
  rw [same]

theorem leaves_setPte (above : (s.pt (page / 512)).isSome) (inside : page ∈ window) (f : Nat) :
    (s.setPte page w).leaves f + Space.owns (owner (s.pte page)) f = s.leaves f + Space.owns (owner w) f := by
  unfold Space.leaves
  rw [setPte_pte above]
  exact sum_update window s.pte (fun pte => Space.owns (owner pte) f) inside w

theorem owns_self (f : Nat) : Space.owns (some f) f = 1 := if_pos rfl

theorem leaf_counted (inside : page ∈ window) (held : owner (s.pte page) = some f) : 0 < s.leaves f := by
  unfold Space.leaves
  refine sum_pos' (fun _ _ => Nat.zero_le _) ⟨page, inside, ?_⟩
  rw [held, owns_self]
  exact Nat.one_pos

theorem leaves_twice {other : Nat} (inside : page ∈ window) (inside' : other ∈ window) (apart : page ≠ other)
    (held : owner (s.pte page) = some f) (held' : owner (s.pte other) = some f) : 1 < s.leaves f := by
  unfold Space.leaves
  have pair : ∑ p ∈ ({page, other} : Finset Nat), Space.owns (owner (s.pte p)) f = 2 := by
    rw [sum_pair apart, held, held', owns_self]
  have part : ({page, other} : Finset Nat) ⊆ window := by
    intro p member
    rcases mem_insert.mp member with rfl | rest
    · exact inside
    · exact Finset.mem_singleton.mp rest ▸ inside'
  have bound := sum_le_sum_of_subset (f := fun p => Space.owns (owner (s.pte p)) f) part
  omega

theorem owner_zero : owner 0#64 = none := by decide

/-- Tables may have been added to `s`; nothing else has changed, and the frames of the
new tables are the only ones taken. -/
structure Grown (device : Nat → Prop) (leaves base : Nat → Nat) (m : Pmm.State) (s : Space) (m' : Pmm.State) (s' : Space) : Prop where
  acc : Accounts device m' leaves (fun f => base f + s'.tables f)
  same : Same m m'
  pml4 : s'.pml4 = s.pml4
  pdpt : ∀ k, (s.pdpt k).isSome → s'.pdpt k = s.pdpt k
  pd : ∀ k, (s.pd k).isSome → s'.pd k = s.pd k
  pt : ∀ k, (s.pt k).isSome → s'.pt k = s.pt k
  pte : s'.pte = s.pte
  more : ∀ f, s.tables f ≤ s'.tables f
  new : ∀ f, s'.tables f = s.tables f ∨ isFree m f = true
  free : ∀ f, isFree m' f = true ↔ isFree m f = true ∧ s'.tables f = 0

variable {device : Nat → Prop} {leaves base : Nat → Nat} {m m' : Pmm.State} {s' : Space}

theorem Grown.refl (acc : Accounts device m leaves (fun f => base f + s.tables f)) : Grown device leaves base m s m s where
  acc := acc
  same := .refl m
  pml4 := rfl
  pdpt _ _ := rfl
  pd _ _ := rfl
  pt _ _ := rfl
  pte := rfl
  more _ := Nat.le_refl _
  new _ := .inl rfl
  free f := by
    refine ⟨fun free => ⟨free, ?_⟩, fun both => both.1⟩
    have none := (acc.free f free).2.1
    omega

theorem Grown.trans {m'' : Pmm.State} {s'' : Space} (first : Grown device leaves base m s m' s')
    (last : Grown device leaves base m' s' m'' s'') : Grown device leaves base m s m'' s'' where
  acc := last.acc
  same := first.same.trans last.same
  pml4 := last.pml4.trans first.pml4
  pdpt k present := (last.pdpt k (first.pdpt k present ▸ present)).trans (first.pdpt k present)
  pd k present := (last.pd k (first.pd k present ▸ present)).trans (first.pd k present)
  pt k present := (last.pt k (first.pt k present ▸ present)).trans (first.pt k present)
  pte := last.pte.trans first.pte
  more f := (first.more f).trans (last.more f)
  new f := by
    rcases last.new f with same | free
    · rw [same]
      exact first.new f
    · exact .inr ((first.free f).mp free).1
  free f := by
    rw [last.free, first.free]
    have bound := last.more f
    refine ⟨fun both => ⟨both.1.1, both.2⟩, fun both => ⟨⟨both.1, by omega⟩, both.2⟩⟩

structure Added (s s' : Space) (frame : Nat) : Prop where
  pml4 : s'.pml4 = s.pml4
  pdpt : ∀ k, (s.pdpt k).isSome → s'.pdpt k = s.pdpt k
  pd : ∀ k, (s.pd k).isSome → s'.pd k = s.pd k
  pt : ∀ k, (s.pt k).isSome → s'.pt k = s.pt k
  pte : s'.pte = s.pte
  tables : ∀ f, s'.tables f = s.tables f + if f = frame then 1 else 0

theorem createTable_grown {put : Space → Nat → Space} (acc : Accounts device m leaves (fun f => base f + s.tables f))
    (adds : ∀ frame, Added s (put s frame) frame) :
    Grown device leaves base m s (createTable m s true put).1 (createTable m s true put).2.1 ∧
      ((createTable m s true put).2.2 = true → ∃ frame, (createTable m s true put).2.1 = put s frame) ∧
      ((createTable m s true put).2.2 = false → ∀ g, isFree (createTable m s true put).1 g = false) := by
  unfold createTable
  rcases acc.alloc with ⟨nothing, exhausted⟩ | ⟨frame, m', found, nonzero, _, takes, acc', loose⟩
  · simp only [if_true, nothing]
    exact ⟨.refl acc, nofun, fun _ => exhausted⟩
  · have place := frame_div frame
    simp only [if_true, found, nonzero, if_false, place]
    have added := adds frame
    have ledger : (fun f => base f + (put s frame).tables f) = credit (fun f => base f + s.tables f) frame := by
      funext f
      unfold credit
      rw [added.tables]
      by_cases same : f = frame
      · subst same
        rw [update_self, if_pos rfl, Nat.add_assoc]
      · rw [update_of_ne same, if_neg same, Nat.add_zero]
    refine ⟨⟨ledger ▸ acc'.postFixed loose, takes.toSame, added.pml4, added.pdpt, added.pd, added.pt, added.pte, ?_, ?_, ?_⟩,
      fun _ => ⟨frame, rfl⟩, nofun⟩
    · intro f
      rw [added.tables]
      omega
    · intro f
      rw [added.tables]
      split
      · exact .inr (takes.was f (by omega) (by omega))
      · exact .inl (Nat.add_zero _)
    · intro f
      rw [added.tables, takes.bits]
      by_cases same : f = frame
      · rw [if_pos (by omega), if_pos same]
        exact ⟨nofun, fun both => by omega⟩
      · rw [if_neg (by omega), if_neg same, Nat.add_zero]
        refine ⟨fun free => ⟨free, ?_⟩, fun both => both.1⟩
        have none := (acc.free f free).2.1
        omega

private theorem update_kept {slots : Nat → Option Nat} {j : Nat} (absent : slots k = none) (present : (slots j).isSome) :
    update slots k (some frame) j = slots j := by
  apply update_of_ne
  rintro rfl
  rw [absent] at present
  cases present

private theorem added_pdpt (absent : s.pdpt 0 = none) (frame : Nat) : Added s (s.putPdpt 0 frame) frame :=
  ⟨rfl, fun _ present => update_kept absent present, fun _ _ => rfl, fun _ _ => rfl, rfl, fun _ => tables_putPdpt absent⟩

private theorem added_pd (above : (s.pdpt (k / 512)).isSome) (inside : k ∈ directories) (absent : s.pd k = none) (frame : Nat) :
    Added s (s.putPd k frame) frame := by
  obtain ⟨pml4, pdpt, pd, pt, pte⟩ := putPd_fields frame above
  exact ⟨pml4, fun j _ => by rw [pdpt], fun j present => by rw [pd, update_kept absent present], fun j _ => by rw [pt], pte,
    fun _ => tables_putPd above inside absent⟩

private theorem added_pt (above : (s.pd (k / 512)).isSome) (inside : k ∈ pageTables) (absent : s.pt k = none) (frame : Nat) :
    Added s (s.putPt k frame) frame := by
  obtain ⟨pml4, pdpt, pd, pt, pte⟩ := putPt_fields frame above
  exact ⟨pml4, fun j _ => by rw [pdpt], fun j _ => by rw [pd], fun j present => by rw [pt, update_kept absent present], pte,
    fun _ => tables_putPt above inside absent⟩

private theorem ensure_grown (slot : Space → Option Nat) (put : Space → Nat → Space)
    (acc : Accounts device m leaves (fun f => base f + s.tables f))
    (adds : slot s = none → ∀ frame, Added s (put s frame) frame)
    (made : slot s = none → ∀ frame, (slot (put s frame)).isSome) {r : Pmm.State × Space × Bool}
    (result : r = if (slot s).isSome then (m, s, true) else createTable m s true put) :
    Grown device leaves base m s r.1 r.2.1 ∧ (r.2.2 = true → (slot r.2.1).isSome) ∧
      (r.2.2 = false → ∀ g, isFree r.1 g = false) := by
  cases present : slot s with
  | some table =>
    rw [present, isSome_some, if_pos rfl] at result
    rw [result]
    exact ⟨.refl acc, fun _ => by rw [present]; rfl, nofun⟩
  | none =>
    rw [present, isSome_none, if_neg Bool.false_ne_true] at result
    obtain ⟨grown, placed, failed⟩ := createTable_grown acc (adds present)
    rw [← result] at grown placed failed
    refine ⟨grown, ?_, failed⟩
    intro found
    obtain ⟨frame, equal⟩ := placed found
    rw [equal]
    exact made present frame

theorem getPtSpace_look (m : Pmm.State) (s : Space) (inside : page ∈ window) :
    getPtSpace m s (page * 4096) false = (m, s, (s.pt (page / 512)).isSome) := by
  have bounds := mem_window.mp inside
  have first : page * 4096 / 2 ^ 39 = page / 512 / 512 / 512 := by omega
  have second : page * 4096 / 2 ^ 30 = page / 512 / 512 := by omega
  have third : page * 4096 / 2 ^ 21 = page / 512 := by omega
  unfold getPtSpace createTable
  rw [first, second, third]
  cases top : s.pdpt (page / 512 / 512 / 512) with
  | none =>
    have absent := s.pt_below _ (s.pd_below _ top)
    simp [absent]
  | some _ =>
    cases middle : s.pd (page / 512 / 512) with
    | none =>
      have absent := s.pt_below _ middle
      simp [middle, absent]
    | some _ => cases last : s.pt (page / 512) <;> simp [middle, last]

/-- The walk of `get_pt_space` to the table of a window page, making what is missing. -/
structure Walked (device : Nat → Prop) (leaves base : Nat → Nat) (m : Pmm.State) (s : Space) (page : Nat)
    (r : Pmm.State × Space × Bool) : Prop where
  grown : Grown device leaves base m s r.1 r.2.1
  found : r.2.2 = true → (r.2.1.pt (page / 512)).isSome
  failed : r.2.2 = false → ∀ g, isFree r.1 g = false

theorem getPtSpace_walked (acc : Accounts device m leaves (fun f => base f + s.tables f)) (inside : page ∈ window) :
    Walked device leaves base m s page (getPtSpace m s (page * 4096) true) := by
  have bounds := mem_window.mp inside
  have first : page * 4096 / 2 ^ 39 = 0 := by omega
  have second : page * 4096 / 2 ^ 30 = page / 2 ^ 18 := by omega
  have third : page * 4096 / 2 ^ 21 = page / 512 := by omega
  have top : page / 2 ^ 18 / 512 = 0 := by omega
  have middle : page / 512 / 512 = page / 2 ^ 18 := by omega
  unfold getPtSpace
  rw [first, second, third]
  obtain ⟨grown, found, failed⟩ := ensure_grown (fun s => s.pdpt 0) (fun s => s.putPdpt 0) acc added_pdpt
    (fun _ frame => by simp only [(putPdpt_fields s 0 frame).2.1, update_self, isSome_some]) rfl
  generalize (if (s.pdpt 0).isSome = true then (m, s, true) else createTable m s true fun s => s.putPdpt 0) = r at *
  obtain ⟨m1, s1, ok1⟩ := r
  cases ok1 with
  | false => exact ⟨grown, nofun, failed⟩
  | true =>
    have above := top.symm ▸ found rfl
    obtain ⟨grown1, found1, failed1⟩ := ensure_grown (fun s => s.pd (page / 2 ^ 18)) (fun s => s.putPd (page / 2 ^ 18)) grown.acc
      (added_pd above (directory_mem inside))
      (fun _ frame => by simp only [(putPd_fields frame above).2.2.1, update_self, isSome_some]) rfl
    simp only
    generalize (if (s1.pd (page / 2 ^ 18)).isSome = true then (m1, s1, true)
      else createTable m1 s1 true fun s => s.putPd (page / 2 ^ 18)) = r at *
    obtain ⟨m2, s2, ok2⟩ := r
    cases ok2 with
    | false => exact ⟨grown.trans grown1, nofun, failed1⟩
    | true =>
      have above := middle.symm ▸ found1 rfl
      obtain ⟨grown2, found2, failed2⟩ := ensure_grown (fun s => s.pt (page / 512)) (fun s => s.putPt (page / 512)) grown1.acc
        (added_pt above (pageTable_mem inside))
        (fun _ frame => by simp only [(putPt_fields frame above).2.2.2.1, update_self, isSome_some]) rfl
      exact ⟨(grown.trans grown1).trans grown2, found2, failed2⟩

end
end SecOS.Vmm
