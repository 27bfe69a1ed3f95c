import SecOS.Proofs.Loan

/-! Forking an address space. The nested walk over the parent's tables is one pass
over the pages of the window, and each page is one case of `forkLeaf_walking`. -/

namespace SecOS.Vmm
open Library Pmm Function List Finset

def windowPages : List Nat := List.range' (4 * 2 ^ 18) (12 * 2 ^ 18)

theorem mem_windowPages {page : Nat} : page ∈ windowPages ↔ page ∈ window := by
  have total : 4 * 2 ^ 18 + 12 * 2 ^ 18 = 16 * 2 ^ 18 := by norm_num
  unfold windowPages
  rw [mem_range'_1, mem_window, total]

private theorem forkLeaves_absent {st : ForkState} (pages : List Nat) (empty : ∀ page ∈ pages, st.parent.pte page = 0#64) :
    pages.foldlM forkLeaf st = .ok st := by
  induction pages with
  | nil => rfl
  | cons page rest ih =>
    have idle : forkLeaf st page = .ok st := by
      unfold forkLeaf
      rw [empty page List.mem_cons_self]
      rfl
    rw [foldlM_cons, idle]
    exact ih (fun page member => empty page (List.mem_cons_of_mem _ member))

theorem forkTable_eq (st : ForkState) (k : Nat) : forkTable st k = (List.range' (k * 512) 512).foldlM forkLeaf st := by
  unfold forkTable
  cases table : st.parent.pt k with
  | some _ => rfl
  | none =>
    refine (forkLeaves_absent _ ?_).symm
    intro page inside
    have bounds := mem_range'_1.mp inside
    have here : page / 512 = k := by omega
    exact st.parent.pte_below page (here ▸ table)

theorem forkDirectory_eq (st : ForkState) (k : Nat) :
    forkDirectory st k = (List.range' (k * 512 * 512) (512 * 512)).foldlM forkLeaf st := by
  unfold forkDirectory
  cases directory : st.parent.pd k with
  | some _ =>
    rw [range'_blocks, foldlM_flatMap]
    simp [← forkTable_eq]
  | none =>
    refine (forkLeaves_absent _ ?_).symm
    intro page inside
    have bounds := mem_range'_1.mp inside
    have here : page / 512 / 512 = k := by omega
    exact st.parent.pte_below page (st.parent.pt_below _ (here ▸ directory))

theorem forkWalk_eq (st : ForkState) : forkWalk st = windowPages.foldlM forkLeaf st := by
  unfold forkWalk
  cases top : st.parent.pdpt 0 with
  | some _ =>
    have pages : windowPages = (List.range' 4 12).flatMap fun k => List.range' (k * (512 * 512)) (512 * 512) :=
      range'_blocks 4 12 (512 * 512)
    rw [pages, foldlM_flatMap]
    simp only [Option.isSome_some, if_true, ← Nat.mul_assoc, ← forkDirectory_eq]
    rfl
  | none =>
    refine (forkLeaves_absent _ ?_).symm
    intro page inside
    have bounds := mem_window.mp (mem_windowPages.mp inside)
    have here : page / 512 / 512 / 512 = 0 := by omega
    exact st.parent.pte_below page (st.parent.pt_below _ (st.parent.pd_below _ (here ▸ top)))

/-- What a leaf becomes on both sides: read-only and copy-on-write if it was writable. -/
def forkedPte (pte : Word) : Word := if writable pte then (pte &&& ~~~flagRw) ||| flagCow else pte

/-- The frame and its kind stay; nobody writes it directly any more. -/
theorem forkedPte_kept (pte : Word) :
    pteHasFrame (forkedPte pte) = pteHasFrame pte ∧ (forkedPte pte).has flagDevice = pte.has flagDevice ∧
      ptePhys (forkedPte pte) = ptePhys pte ∧ writable (forkedPte pte) = false ∧ (Shaped pte → Shaped (forkedPte pte)) := by
  unfold forkedPte
  cases writes : writable pte with
  | false => exact ⟨rfl, rfl, rfl, writes, id⟩
  | true =>
    obtain ⟨phys, bits⟩ := cowed_leaf pte
    rw [if_pos rfl]
    unfold writable Shaped
    rw [pteHasFrame_eq, pteHasFrame_eq, has_device, has_device, has_present, has_rw, bits 0 (by decide),
      bits 1 (by decide), bits 7 (by decide), bits 10 (by decide),
      bits 11 (by decide)]
    simp [phys]

theorem forkedPte_present (pte : Word) : (forkedPte pte).has flagPresent = pte.has flagPresent := by
  unfold forkedPte
  split
  · rw [has_present, has_present, (cowed_leaf pte).2 0 (by decide)]
    simp
  · rfl

theorem forkedPte_owner (pte : Word) : owner (forkedPte pte) = owner pte := by
  obtain ⟨taken, kind, phys, _, _⟩ := forkedPte_kept pte
  unfold owner
  rw [taken, kind, phys]

variable {pte : Word}

theorem forked_parent (writes : writable pte = true) :
    (pte &&& addressMask) ||| cowFlags pte ||| flagPresent = forkedPte pte := by
  unfold forkedPte
  rw [if_pos writes]
  unfold writable at writes
  rw [Bool.and_eq_true, Bool.and_eq_true, has_present, has_rw] at writes
  obtain ⟨phys, bits⟩ := cow_leaf pte
  obtain ⟨phys', bits'⟩ := cowed_leaf pte
  refine word_ext (phys.trans phys'.symm) ?_
  intro i outside
  rw [bits i outside, bits' i outside]
  by_cases zero : i = 0
  · subst zero
    simp [writes.1.1]
  · simp [zero]

theorem forked_child (present : pte.has flagPresent = true) (ordinary : pte.has flagDevice = false) (shaped : Shaped pte) :
    (physWord (ptePhys pte) &&& addressMask) |||
        ((if pte.has flagRw then cowFlags pte else pte &&& ~~~addressMask &&& ~~~flagPresent) &&& ~~~flagPs) ||| flagPresent =
      forkedPte pte := by
  have writes : writable pte = pte.has flagRw := by
    unfold writable
    rw [present, ordinary, Bool.true_and, Bool.not_false, Bool.and_true]
  unfold forkedPte
  rw [writes]
  rw [has_present] at present
  cases pte.has flagRw with
  | true =>
    rw [if_pos rfl, if_pos rfl]
    obtain ⟨phys, bits⟩ := mapped_leaf (ptePhys pte) (cowFlags_bare pte)
    obtain ⟨phys', bits'⟩ := cowed_leaf pte
    refine word_ext ((phys.trans (ptePhys_physWord_self pte)).trans phys'.symm) ?_
    intro i outside
    rw [bits i outside, bits' i outside, cowFlags_bit pte outside]
    by_cases zero : i = 0
    · subst zero
      simp [present]
    · by_cases seven : i = 7
      · subst seven
        rw [shaped.1]
        rfl
      · simp [zero, seven]
  | false =>
    rw [if_neg Bool.false_ne_true, if_neg Bool.false_ne_true]
    obtain ⟨phys, bits⟩ := mapped_leaf (ptePhys pte) (readFlags_bare pte)
    refine word_ext (phys.trans (ptePhys_physWord_self pte)) ?_
    intro i outside
    rw [bits i outside, readFlags_bit pte outside]
    by_cases zero : i = 0
    · subst zero
      simp [present]
    · by_cases seven : i = 7
      · subst seven
        rw [shaped.1]
        rfl
      · simp [zero, seven]

structure Walking (device : Nat → Prop) (m0 : Pmm.State) (rest base : Nat → Nat) (parent : Space) (st : ForkState) (p : Nat) : Prop where
  loan : Loan device m0 rest base st.pmm st.child.leaves st.child.tables
  tables : st.parent.pml4 = parent.pml4 ∧ st.parent.pdpt = parent.pdpt ∧ st.parent.pd = parent.pd ∧ st.parent.pt = parent.pt
  left : ∀ page, st.parent.pte page = if page ∈ window ∧ page < p then forkedPte (parent.pte page) else parent.pte page
  right : ∀ page, st.child.pte page = 0#64 ∨
    (page ∈ window ∧ page < p) ∧ pteHasFrame (parent.pte page) = true ∧ st.child.pte page = forkedPte (parent.pte page)

private theorem forkedPte_reads (reads : writable pte = false) : forkedPte pte = pte := by
  unfold forkedPte
  rw [reads, if_neg Bool.false_ne_true]

private theorem childFlags_allowed (present : pte.has flagPresent = true) (shaped : Shaped pte) :
    (if pte.has flagRw then cowFlags pte else pte &&& ~~~addressMask &&& ~~~flagPresent).has flagRw = false ∧
      (if pte.has flagRw then cowFlags pte else pte &&& ~~~addressMask &&& ~~~flagPresent).has flagProtnone = false := by
  have unparked := shaped.2 (by rw [← has_present]; exact present)
  cases writes : pte.has flagRw with
  | true =>
    rw [if_pos rfl, has_rw, has_protnone, cowFlags_bit pte (by decide), cowFlags_bit pte (by decide), unparked]
    exact ⟨by simp, rfl⟩
  | false =>
    rw [has_rw] at writes
    rw [if_neg Bool.false_ne_true, has_rw, has_protnone, readFlags_bit pte (by decide),
      readFlags_bit pte (by decide), unparked, writes]
    exact ⟨rfl, rfl⟩

structure ForkedAt (parent : Space) (st : ForkState) (page : Nat) (par : Space) : Prop where
  tables : par.pml4 = st.parent.pml4 ∧ par.pdpt = st.parent.pdpt ∧ par.pd = st.parent.pd ∧ par.pt = st.parent.pt
  left : par.pte = update st.parent.pte page (forkedPte (parent.pte page))

/-- A page table for the child could not be allocated, and the page is left out. -/
def tableFails (st : ForkState) (page : Nat) : Bool :=
  let pte := st.parent.pte page
  if !pteHasFrame pte then false
  else if pte.has flagDevice then !(getPtSpace st.pmm st.child (page * 4096) true).2.2
  else if !pte.has flagPresent then false
  else
    let (m, rc) := shareFrame st.pmm (ptePhys pte)
    rc = 0 && !(getPtSpace m st.child (page * 4096) true).2.2

/-- What the walk does with one page: it copies the leaf, leaves it out, or aborts. -/
inductive ForkedLeaf (device : Nat → Prop) (m0 : Pmm.State) (rest base : Nat → Nat) (parent : Space) (st : ForkState) (page : Nat) :
    Except ForkState ForkState → Prop
  | aborted {st' : ForkState} (walking : Walking device m0 rest base parent st' page) : ForkedLeaf device m0 rest base parent st page (.error st')
  | went {st' : ForkState} (walking : Walking device m0 rest base parent st' (page + 1))
      (others : ∀ q ≠ page, st'.child.pte q = st.child.pte q)
      (here : pteHasFrame (parent.pte page) = true →
        st'.child.pte page = if tableFails st page then 0#64 else forkedPte (parent.pte page))
      (idle : pteHasFrame (parent.pte page) = false → tableFails st page = false) :
      ForkedLeaf device m0 rest base parent st page (.ok st')

section
variable {device : Nat → Prop} {m0 m' : Pmm.State} {rest base : Nat → Nat} {parent par child' : Space} {st : ForkState} {page f : Nat}

section
variable (walking : Walking device m0 rest base parent st page)
include walking

theorem Walking.entry : st.parent.pte page = parent.pte page := by
  rw [walking.left, if_neg (fun both => Nat.lt_irrefl page both.2)]

theorem Walking.vacant : st.child.pte page = 0#64 := by
  rcases walking.right page with zero | ⟨⟨_, before⟩, _⟩
  · exact zero
  · exact absurd before (Nat.lt_irrefl page)

theorem Walking.child_owns (q f : Nat) : Space.owns (owner (st.child.pte q)) f ≤ Space.owns (owner (parent.pte q)) f := by
  rcases walking.right q with zero | ⟨_, _, copied⟩
  · rw [zero, owner_zero, owns_none]
    exact Nat.zero_le _
  · rw [copied, forkedPte_owner]

theorem Walking.child_le (f : Nat) : st.child.leaves f ≤ parent.leaves f := by
  unfold Space.leaves
  exact Finset.sum_le_sum fun q _ => walking.child_owns q f

theorem Walking.room (within : ∀ f, parent.leaves f ≤ rest f)
    (inside : page ∈ window) (held : owner (parent.pte page) = some f) : st.child.leaves f < rest f := by
  refine Nat.lt_of_lt_of_le ?_ (within f)
  unfold Space.leaves
  refine Finset.sum_lt_sum (fun q _ => walking.child_owns q f) ⟨page, inside, ?_⟩
  rw [walking.vacant, owner_zero, owns_none, held, owns_self]
  exact Nat.one_pos

private theorem Walking.next (inside : page ∈ window)
    (loan : Loan device m0 rest base m' child'.leaves child'.tables)
    (forked : ForkedAt parent st page par) (others : ∀ q ≠ page, child'.pte q = st.child.pte q)
    (right : child'.pte page = 0#64 ∨ pteHasFrame (parent.pte page) = true ∧ child'.pte page = forkedPte (parent.pte page)) :
    Walking device m0 rest base parent ⟨m', par, child'⟩ (page + 1) := by
  obtain ⟨pml4, pdpt, pd, pt⟩ := forked.tables
  obtain ⟨pml4', pdpt', pd', pt'⟩ := walking.tables
  refine ⟨loan, ⟨pml4.trans pml4', pdpt.trans pdpt', pd.trans pd', pt.trans pt'⟩, ?_, ?_⟩
  · intro q
    simp only [forked.left]
    by_cases here : q = page
    · rw [here, update_self, if_pos ⟨inside, Nat.lt_succ_self page⟩]
    · rw [update_of_ne here, walking.left]
      have same : (q ∈ window ∧ q < page + 1) ↔ (q ∈ window ∧ q < page) := and_congr_right fun _ => by omega
      simp only [same]
  · intro q
    by_cases here : q = page
    · subst here
      rcases right with zero | copied
      · exact .inl zero
      · exact .inr ⟨⟨inside, Nat.lt_succ_self q⟩, copied⟩
    · simp only [others q here]
      rcases walking.right q with zero | ⟨⟨member, before⟩, copied⟩
      · exact .inl zero
      · exact .inr ⟨⟨member, Nat.lt_succ_of_lt before⟩, copied⟩

section
variable (inside : page ∈ window) (taken : pteHasFrame (parent.pte page) = true) (same : child'.pte = st.child.pte)
include inside taken same

private theorem Walking.placed (above : (child'.pt (page / 512)).isSome)
    (loan : Loan device m0 rest base m' (child'.setPte page (forkedPte (parent.pte page))).leaves child'.tables)
    (forked : ForkedAt parent st page par) (copied : tableFails st page = false) :
    ForkedLeaf device m0 rest base parent st page (.ok ⟨m', par, child'.setPte page (forkedPte (parent.pte page))⟩) := by
  have entry := setPte_pte (w := forkedPte (parent.pte page)) above
  have others : ∀ q ≠ page, (child'.setPte page (forkedPte (parent.pte page))).pte q = st.child.pte q := by
    intro q other
    rw [entry, update_of_ne other, same]
  have here : (child'.setPte page (forkedPte (parent.pte page))).pte page = forkedPte (parent.pte page) := by
    rw [entry, update_self]
  have kept : (child'.setPte page (forkedPte (parent.pte page))).tables = child'.tables := funext (tables_setPte child' page _)
  refine .went (walking.next inside (by rw [kept]; exact loan) forked others (.inr ⟨taken, here⟩)) others ?_ ?_
  · intro _
    rw [copied]
    exact here
  · intro idle
    rw [taken] at idle
    exact nomatch idle

private theorem Walking.skipped (loan : Loan device m0 rest base m' child'.leaves child'.tables)
    (forked : ForkedAt parent st page par) (fails : tableFails st page = true) :
    ForkedLeaf device m0 rest base parent st page (.ok ⟨m', par, child'⟩) := by
  have others : ∀ q ≠ page, child'.pte q = st.child.pte q := fun q _ => congrFun same q
  have here : child'.pte page = 0#64 := (congrFun same page).trans walking.vacant
  refine .went (walking.next inside loan forked others (.inl here)) others ?_ ?_
  · intro _
    rw [fails]
    exact here
  · intro idle
    rw [taken] at idle
    exact nomatch idle

end

private theorem Walking.stays (same : child'.pte = st.child.pte)
    (loan : Loan device m0 rest base m' child'.leaves child'.tables) :
    Walking device m0 rest base parent { st with pmm := m', child := child' } page :=
  ⟨loan, walking.tables, walking.left, fun q => by simp only [same]; exact walking.right q⟩

private theorem Walking.unforked (reads : writable (parent.pte page) = false) :
    ForkedAt parent st page st.parent := by
  refine ⟨⟨rfl, rfl, rfl, rfl⟩, ?_⟩
  rw [forkedPte_reads reads, ← walking.entry, update_eq_self]

private theorem forkDevice_walking (inside : page ∈ window)
    (taken : pteHasFrame (parent.pte page) = true) (marked : (parent.pte page).has flagDevice = true) :
    ForkedLeaf device m0 rest base parent st page (forkDevice st page (parent.pte page)) := by
  have reads : writable (parent.pte page) = false := by
    unfold writable
    rw [marked, Bool.not_true, Bool.and_false]
  have fails : tableFails st page = !(getPtSpace st.pmm st.child (page * 4096) true).2.2 := by
    unfold tableFails
    simp [walking.entry, taken, marked]
  have walked := getPtSpace_walked walking.loan.acc inside
  unfold forkDevice
  generalize getPtSpace st.pmm st.child (page * 4096) true = r at walked fails ⊢
  obtain ⟨m1, child1, ok⟩ := r
  obtain ⟨grown, found, _⟩ := walked
  have loan := walking.loan.grow grown
  cases ok with
  | false =>
    refine walking.skipped inside taken grown.pte ?_ (walking.unforked reads) fails
    rw [funext (leaves_congr grown.pte)]
    exact loan
  | true =>
    have vacant : owner (child1.pte page) = none := by rw [grown.pte, walking.vacant, owner_zero]
    simp only
    rw [← forkedPte_reads reads]
    refine walking.placed inside taken grown.pte (found rfl) ?_ (walking.unforked reads) fails
    rw [leaves_kept (found rfl) inside (by rw [forkedPte_owner, owner_device marked, vacant]), funext (leaves_congr grown.pte)]
    exact loan

private theorem forkPresent_parent (present : (parent.pte page).has flagPresent = true)
    (marked : (parent.pte page).has flagDevice = false) :
    let par := if (parent.pte page).has flagRw then
        st.parent.setPte page ((parent.pte page &&& addressMask) ||| cowFlags (parent.pte page) ||| flagPresent)
      else st.parent
    ForkedAt parent st page par := by
  have writes : writable (parent.pte page) = (parent.pte page).has flagRw := by
    unfold writable
    rw [present, marked, Bool.true_and, Bool.not_false, Bool.and_true]
  cases rw : (parent.pte page).has flagRw with
  | false => exact walking.unforked (writes.trans rw)
  | true =>
    have above : (st.parent.pt (page / 512)).isSome := by
      apply pt_of_frame
      rw [walking.entry, pteHasFrame_eq, ← has_present, present, Bool.true_or]
    simp only [if_true]
    rw [forked_parent (writes.trans rw)]
    exact ⟨setPte_fields _ _ _, setPte_pte above⟩

theorem Walking.owners (q : Nat) :
    owner (st.parent.pte q) = owner (parent.pte q) := by
  rw [walking.left]
  split
  · exact forkedPte_owner _
  · rfl

theorem Walking.parent_kept :
    st.parent.leaves = parent.leaves ∧ st.parent.tables = parent.tables := by
  obtain ⟨pml4, pdpt, pd, pt⟩ := walking.tables
  refine ⟨?_, ?_⟩
  · funext f
    unfold Space.leaves
    exact sum_congr rfl fun q _ => by rw [walking.owners]
  · funext f
    unfold Space.tables
    rw [pml4, pdpt, pd, pt]

variable (start : Accounts device m0 rest base) (within : ∀ f, parent.leaves f ≤ rest f)
include start within

/-- A parked page needs a table and then a reference; either failure aborts. -/
private theorem forkParked_walking (inside : page ∈ window) (held : owner (parent.pte page) = some f)
    (absent : (parent.pte page).has flagPresent = false) :
    ForkedLeaf device m0 rest base parent st page (forkParked st page (parent.pte page)) := by
  obtain ⟨taken, marked, _⟩ := owner_some.mp held
  have reads : writable (parent.pte page) = false := by
    unfold writable
    rw [absent, Bool.false_and, Bool.false_and]
  have fails : tableFails st page = false := by
    unfold tableFails
    simp [walking.entry, taken, marked, absent]
  have walked := getPtSpace_walked walking.loan.acc inside
  unfold forkParked
  rw [owner_phys held]
  generalize getPtSpace st.pmm st.child (page * 4096) true = r at walked ⊢
  obtain ⟨m1, child1, ok⟩ := r
  obtain ⟨grown, found, _⟩ := walked
  have loan := walking.loan.grow grown
  have still : Loan device m0 rest base m1 child1.leaves child1.tables := by
    rw [funext (leaves_congr grown.pte)]
    exact loan
  cases ok with
  | false => exact .aborted (walking.stays grown.pte still)
  | true =>
    rcases loan.share start (walking.room within inside held) with ⟨m2, shared, lent⟩ | refused
    · have vacant : owner (child1.pte page) = none := by rw [grown.pte, walking.vacant, owner_zero]
      simp only [shared, ne_eq, not_true_eq_false, if_false]
      rw [← forkedPte_reads reads]
      refine walking.placed inside taken grown.pte (found rfl) ?_ (walking.unforked reads) fails
      rw [leaves_placed (found rfl) inside vacant ((forkedPte_owner _).trans held), funext (leaves_congr grown.pte)]
      exact lent
    · simp only [refused]
      exact .aborted (walking.stays grown.pte still)

/-- A present page needs a reference, which may abort, and then a table, which may not. -/
private theorem forkPresent_walking (shaped : Shaped (parent.pte page)) (inside : page ∈ window)
    (held : owner (parent.pte page) = some f) (present : (parent.pte page).has flagPresent = true) :
    ForkedLeaf device m0 rest base parent st page (forkPresent st page (parent.pte page)) := by
  obtain ⟨taken, marked, _⟩ := owner_some.mp held
  have forked := forkPresent_parent walking present marked
  obtain ⟨readOnly, unparked⟩ := childFlags_allowed present shaped
  have leaf := forked_child present marked shaped
  unfold forkPresent
  rw [owner_phys held] at leaf ⊢
  rcases walking.loan.share start (walking.room within inside held) with ⟨m1, shared, lent⟩ | refused
  · have fails : tableFails st page = !(getPtSpace m1 st.child (page * 4096) true).2.2 := by
      unfold tableFails
      simp [walking.entry, taken, marked, present, owner_phys held, shared]
    simp only [shared, ne_eq, not_true_eq_false, if_false]
    generalize (if (parent.pte page).has flagRw = true then
      st.parent.setPte page (parent.pte page &&& addressMask ||| cowFlags (parent.pte page) ||| flagPresent) else st.parent) = par at *
    generalize (if (parent.pte page).has flagRw = true then cowFlags (parent.pte page)
      else parent.pte page &&& ~~~addressMask &&& ~~~flagPresent) = flags at *
    have outcome := mapInSpace_mapping lent.acc inside (f * frameSize) flags
    generalize mapInSpace m1 st.child (page * 4096) (f * frameSize) flags = r at outcome ⊢
    cases outcome with
    | refused grown failed cause =>
      have starved : (getPtSpace m1 st.child (page * 4096) true).2.2 = false := by
        rcases cause with odd | writes | full | parked | starved
        · exact absurd (Nat.mul_mod_left f 4096) odd
        · rw [readOnly] at writes
          exact nomatch writes.1
        · rw [walking.vacant] at full
          exact absurd full (by decide)
        · rw [unparked] at parked
          exact nomatch parked
        · exact starved
      rw [starved] at fails
      simp only [failed, if_false]
      have loan := (lent.grow grown).unshare start (f := f) (by rw [credit_apply, owns_self]; omega)
      refine walking.skipped inside taken grown.pte ?_ forked fails
      rw [funext (leaves_congr grown.pte)]
      rwa [show debit (credit st.child.leaves f) f = st.child.leaves from funext fun g => by
        rw [debit_apply, credit_apply]
        omega] at loan
    | placed grown above _ _ _ walked =>
      rw [walked] at fails
      simp only [if_true, leaf]
      refine walking.placed inside taken grown.pte above ?_ forked fails
      rw [leaves_placed above inside (by rw [grown.pte, walking.vacant, owner_zero]) ((forkedPte_owner _).trans held),
        funext (leaves_congr grown.pte)]
      exact lent.grow grown
  · simp only [refused]
    exact .aborted walking

theorem forkLeaf_walking (shaped : Shaped (parent.pte page)) (inside : page ∈ window) :
    ForkedLeaf device m0 rest base parent st page (forkLeaf st page) := by
  unfold forkLeaf
  simp only [walking.entry]
  cases taken : pteHasFrame (parent.pte page) with
  | false =>
    have reads : writable (parent.pte page) = false := by
      rw [pteHasFrame_eq, Bool.or_eq_false_iff] at taken
      unfold writable
      rw [has_present, taken.1, Bool.false_and, Bool.false_and]
    have idle : tableFails st page = false := by
      unfold tableFails
      simp [walking.entry, taken]
    exact .went (walking.next inside walking.loan (walking.unforked reads) (fun _ _ => rfl) (.inl walking.vacant))
      (fun _ _ => rfl) (fun held => by rw [taken] at held; exact nomatch held) (fun _ => idle)
  | true =>
    simp only [Bool.not_true, Bool.false_eq_true, if_false]
    cases marked : (parent.pte page).has flagDevice with
    | true => exact forkDevice_walking walking inside taken marked
    | false =>
      obtain ⟨f, held⟩ : ∃ f, owner (parent.pte page) = some f := ⟨_, owner_some.mpr ⟨taken, marked, rfl⟩⟩
      cases present : (parent.pte page).has flagPresent with
      | false => exact forkParked_walking walking start within inside held present
      | true => exact forkPresent_walking walking start within shaped inside held present

end

/-- Some page of the walk is left out of the child. -/
def starved : ForkState → List Nat → Bool
  | _, [] => false
  | st, page :: rest =>
    tableFails st page || match forkLeaf st page with
      | .ok st' => starved st' rest
      | .error _ => false

inductive Passed (device : Nat → Prop) (m0 : Pmm.State) (rest base : Nat → Nat) (parent : Space) (st : ForkState) (pages : List Nat) (stop : Nat) :
    Except ForkState ForkState → Prop
  | aborted {st' : ForkState} {p : Nat} (walking : Walking device m0 rest base parent st' p) : Passed device m0 rest base parent st pages stop (.error st')
  | finished {st' : ForkState} (walking : Walking device m0 rest base parent st' stop)
      (before : ∀ q, q ∉ pages → st'.child.pte q = st.child.pte q)
      (copied : (∀ q ∈ pages, pteHasFrame (parent.pte q) = true → st'.child.pte q = forkedPte (parent.pte q)) ↔ starved st pages = false) :
      Passed device m0 rest base parent st pages stop (.ok st')

theorem forkPages_walking (start : Accounts device m0 rest base) (within : ∀ f, parent.leaves f ≤ rest f)
    (shaped : ∀ page ∈ window, Shaped (parent.pte page)) (n p : Nat) (st : ForkState) (walking : Walking device m0 rest base parent st p)
    (inside : ∀ q, p ≤ q → q < p + n → q ∈ window) :
    Passed device m0 rest base parent st (List.range' p n) (p + n) ((List.range' p n).foldlM forkLeaf st) := by
  induction n generalizing p st with
  | zero => exact .finished walking (fun _ _ => rfl) ⟨fun _ => rfl, fun _ _ member => nomatch member⟩
  | succ n ih =>
    have here := inside p (Nat.le_refl p) (by omega)
    have step := forkLeaf_walking walking start within (shaped p here) here
    have apart : p ∉ List.range' (p + 1) n := fun member => by
      have bounds := mem_range'_1.mp member
      omega
    rw [range'_succ, foldlM_cons]
    cases result : forkLeaf st p with
    | error st' =>
      rw [result] at step
      cases step with
      | aborted walking' => exact .aborted walking'
    | ok st1 =>
      rw [result] at step
      cases step with
      | went walking1 others copied idle =>
        have later := ih (p + 1) st1 walking1 (fun q low high => inside q (by omega) (by omega))
        have split : starved st (p :: List.range' (p + 1) n) = (tableFails st p || starved st1 (List.range' (p + 1) n)) := by
          rw [starved, result]
        change Passed device m0 rest base parent st _ _ ((List.range' (p + 1) n).foldlM forkLeaf st1)
        generalize (List.range' (p + 1) n).foldlM forkLeaf st1 = final at later
        have last : p + 1 + n = p + (n + 1) := by omega
        cases later with
        | aborted walking' => exact .aborted walking'
        | finished walking' before rest' =>
          rw [last] at walking'
          refine .finished walking' ?_ ?_
          · intro q absent
            rw [List.mem_cons, not_or] at absent
            rw [before q absent.2, others q absent.1]
          · rw [split, Bool.or_eq_false_iff, ← rest', List.forall_mem_cons, before p apart]
            refine and_congr_left fun _ => ?_
            cases taken : pteHasFrame (parent.pte p) with
            | false => exact ⟨fun _ => idle taken, fun _ => nofun⟩
            | true =>
              rw [copied taken]
              cases fails : tableFails st p with
              | false => exact ⟨fun _ => rfl, fun _ _ => rfl⟩
              | true =>
                refine ⟨fun same => ?_, nofun⟩
                -- A leaf that holds a frame is not the empty leaf.
                have zero : pteHasFrame (0#64) = true := by
                  rw [show (0#64 : Word) = forkedPte (parent.pte p) from same rfl, (forkedPte_kept _).1, taken]
                exact absurd zero (by decide)

theorem emptySpace_leaves (pml4 pdpt : Nat) : (emptySpace pml4 pdpt).leaves = fun _ => 0 := by
  funext f
  refine Finset.sum_eq_zero fun page _ => ?_
  change Space.owns (owner 0#64) f = 0
  rw [owner_zero, owns_none]

theorem emptySpace_tables (pml4 pdpt : Nat) :
    (emptySpace pml4 pdpt).tables = fun f => Space.owns (some pml4) f + Space.owns (some pdpt) f := by
  funext f
  have directories : ∑ k ∈ directories, Space.owns ((emptySpace pml4 pdpt).pd k) f = 0 :=
    Finset.sum_eq_zero fun _ _ => owns_none f
  have tables : ∑ k ∈ pageTables, Space.owns ((emptySpace pml4 pdpt).pt k) f = 0 :=
    Finset.sum_eq_zero fun _ _ => owns_none f
  unfold Space.tables
  rw [directories, tables]
  rfl

def twoFrames (m : Pmm.State) : Bool := (allocFrame m).2 ≠ 0 && (allocFrame (allocFrame m).1).2 ≠ 0

/-- What `vmm_space_create_user` can do: give everything back, hand out a space, or
lose two frames when the kernel heap is exhausted. -/
inductive Created (device : Nat → Prop) (m : Pmm.State) (rest base : Nat → Nat) (heapOk : Bool) : Pmm.State × Option Space → Prop
  | refused {m' : Pmm.State} (loan : Loan device m rest base m' (fun _ => 0) (fun _ => 0)) (short : twoFrames m = false) :
      Created device m rest base heapOk (m', none)
  | lost {m' : Pmm.State} (heap : heapOk = false) (acc : Accounts device m' rest base)
      (taken : ∃ f, isFree m f = true ∧ isFree m' f = false) (enough : twoFrames m = true) : Created device m rest base heapOk (m', none)
  | made {m' : Pmm.State} (pml4 pdpt : Nat) (heap : heapOk = true)
      (loan : Loan device m rest base m' (emptySpace pml4 pdpt).leaves (emptySpace pml4 pdpt).tables) :
      Created device m rest base heapOk (m', some (emptySpace pml4 pdpt))

theorem spaceCreateUser_created (acc : Accounts device m0 rest base) (heapOk : Bool) :
    Created device m0 rest base heapOk (spaceCreateUser m0 heapOk) := by
  have place := frame_div
  unfold spaceCreateUser
  rcases acc.alloc with ⟨nothing, _⟩ | ⟨f, m1, found, nonzero, _, takes, acc1, loose⟩
  · simp only [nothing, if_true]
    exact .refused (.none acc) (by simp [twoFrames, nothing])
  · simp only [found, nonzero, if_false]
    have first : Loan device m0 rest base m1 (fun _ => 0) (credit (fun _ => 0) f) := by
      refine (Loan.none acc).take takes ?_
      rw [← credit_rest]
      exact acc1.postFixed loose
    rcases first.acc.alloc with ⟨nothing, _⟩ | ⟨g, m2, found', nonzero', _, takes', acc2, loose'⟩
    · simp only [nothing, if_true]
      have repaid := first.repay (f := f) (by rw [credit_apply, owns_self]; omega)
      rw [show debit (credit (fun _ => 0) f) f = fun _ => 0 from funext fun g => by rw [debit_apply, credit_apply]; omega] at repaid
      exact .refused repaid (by simp [twoFrames, found, nothing])
    · simp only [found', nonzero', if_false, place]
      cases heapOk with
      | true =>
        refine .made f g rfl ?_
        have second := first.take takes' (by rw [← credit_rest]; exact acc2.postFixed loose')
        rw [emptySpace_leaves, emptySpace_tables]
        rwa [show credit (credit (fun _ => 0) f) g = fun h => Space.owns (some f) h + Space.owns (some g) h from funext fun h => by
          rw [credit_apply, credit_apply]
          omega] at second
      | false =>
        refine .lost rfl ?_ ⟨f, takes.was f (Nat.le_refl f) (by omega), ?_⟩ (by simp [twoFrames, found, found', nonzero, nonzero'])
        · have off := (acc2.unpostFixed (f := f) (by rw [credit_apply, owns_self]; omega)).1
          rwa [show debit (fun h => base h + credit (fun _ => 0) f h) f = base from funext fun h => by
            rw [debit_apply, credit_apply]
            omega] at off
        · rw [takes'.bits]
          split
          · rfl
          · rw [takes.bits, if_pos (by omega)]

inductive ForkEnd (device : Nat → Prop) (m : Pmm.State) (rest base : Nat → Nat) (parent : Space) (heapOk : Bool) :
    Pmm.State × Space × Option Space → Prop
  | refused {m' : Pmm.State} (created : spaceCreateUser m heapOk = (m', none))
      (loan : Loan device m rest base m' (fun _ => 0) (fun _ => 0)) (short : twoFrames m = false) :
      ForkEnd device m rest base parent heapOk (m', parent, none)
  | lost {m' : Pmm.State} (created : spaceCreateUser m heapOk = (m', none)) (heap : heapOk = false) (acc : Accounts device m' rest base)
      (taken : ∃ f, isFree m f = true ∧ isFree m' f = false) (enough : twoFrames m = true) :
      ForkEnd device m rest base parent heapOk (m', parent, none)
  | aborted {m' m1 : Pmm.State} {child : Space} {st : ForkState} {p : Nat} (created : spaceCreateUser m heapOk = (m1, some child))
      (walk : forkWalk ⟨m1, parent, child⟩ = .error st) (walking : Walking device m rest base parent st p)
      (loan : Loan device m rest base m' (fun _ => 0) (fun _ => 0)) :
      ForkEnd device m rest base parent heapOk (m', st.parent, none)
  | forked {st : ForkState} {m1 : Pmm.State} {child : Space} (created : spaceCreateUser m heapOk = (m1, some child))
      (walk : forkWalk ⟨m1, parent, child⟩ = .ok st) (walking : Walking device m rest base parent st (16 * 2 ^ 18))
      (copied : (∀ page ∈ window, pteHasFrame (parent.pte page) = true → st.child.pte page = forkedPte (parent.pte page)) ↔
        starved ⟨m1, parent, child⟩ windowPages = false) :
      ForkEnd device m rest base parent heapOk (st.pmm, st.parent, some st.child)

theorem forkSpace_ends (start : Accounts device m0 rest base) (within : ∀ f, parent.leaves f ≤ rest f)
    (shaped : ∀ page ∈ window, Shaped (parent.pte page)) (heapOk : Bool) :
    ForkEnd device m0 rest base parent heapOk (forkSpace m0 parent heapOk) := by
  have outcome := spaceCreateUser_created start heapOk
  unfold forkSpace
  cases created : spaceCreateUser m0 heapOk with
  | mk m1 space =>
  rw [created] at outcome
  cases outcome with
  | refused loan short => exact .refused created loan short
  | lost heap acc taken enough => exact .lost created heap acc taken enough
  | made pml4 pdpt heap loan =>
    have walking : Walking device m0 rest base parent ⟨m1, parent, emptySpace pml4 pdpt⟩ (4 * 2 ^ 18) := by
      refine ⟨loan, ⟨rfl, rfl, rfl, rfl⟩, fun page => ?_, fun _ => .inl rfl⟩
      rw [if_neg]
      intro both
      have bounds := mem_window.mp both.1
      omega
    have total : 4 * 2 ^ 18 + 12 * 2 ^ 18 = 16 * 2 ^ 18 := by norm_num
    have passed : Passed device m0 rest base parent _ windowPages (4 * 2 ^ 18 + 12 * 2 ^ 18) (windowPages.foldlM forkLeaf _) :=
      forkPages_walking start within shaped (12 * 2 ^ 18) (4 * 2 ^ 18) _ walking (fun q low high => mem_window.mpr ⟨low, by omega⟩)
    rw [← forkWalk_eq] at passed
    simp only
    cases walk : forkWalk ⟨m1, parent, emptySpace pml4 pdpt⟩ with
    | error st =>
      rw [walk] at passed
      cases passed with
      | aborted walking' => exact .aborted created walk walking' (spaceDestroy_settles (loan_settles start) walking'.loan)
    | ok st =>
      rw [walk] at passed
      cases passed with
      | finished walking' _ copied =>
      rw [total] at walking'
      refine .forked created walk walking' ?_
      simp only [← mem_windowPages]
      exact copied

variable {mapped : Nat → Prop} {others : Nat → Nat}

private theorem forkedPte_device (marked : pte.has flagDevice = true) : forkedPte pte = pte := by
  apply forkedPte_reads
  unfold writable
  rw [marked, Bool.not_true, Bool.and_false]

private theorem forkedPte_plain (plain : pteHasFrame pte = true → pte.has flagDevice = true →
      pte.has flagCow = false ∧ mapped (ptePhys pte / frameSize)) (taken : pteHasFrame (forkedPte pte) = true)
    (marked : (forkedPte pte).has flagDevice = true) :
    (forkedPte pte).has flagCow = false ∧ mapped (ptePhys (forkedPte pte) / frameSize) := by
  obtain ⟨same, kind, _⟩ := forkedPte_kept pte
  rw [same] at taken
  rw [kind] at marked
  rw [forkedPte_device marked]
  exact plain taken marked

section
variable (walking : Walking device m0 rest base parent st page) (tidy : Tidy mapped others parent)
include walking tidy

theorem Walking.parent_tidy :
    Tidy mapped others st.parent := by
  refine ⟨?_, ?_, ?_⟩
  · intro q inside f writes held
    rw [walking.owners] at held
    rw [walking.parent_kept.1]
    rw [walking.left] at writes
    split at writes
    · rw [(forkedPte_kept _).2.2.2.1] at writes
      exact nomatch writes
    · exact tidy.alone q inside f writes held
  · intro q inside
    rw [walking.left]
    split
    · exact forkedPte_plain (tidy.plain q inside)
    · exact tidy.plain q inside
  · intro q inside
    rw [walking.left]
    split
    · exact (forkedPte_kept _).2.2.2.2 (tidy.shaped q inside)
    · exact tidy.shaped q inside

theorem Walking.child_tidy (q : Nat)
    (inside : q ∈ window) :
    writable (st.child.pte q) = false ∧
      (pteHasFrame (st.child.pte q) = true → (st.child.pte q).has flagDevice = true →
        (st.child.pte q).has flagCow = false ∧ mapped (ptePhys (st.child.pte q) / frameSize)) ∧ Shaped (st.child.pte q) := by
  rcases walking.right q with zero | ⟨_, _, copied⟩
  · rw [zero]
    exact ⟨by decide, fun taken => absurd taken (by decide), by decide⟩
  · rw [copied]
    exact ⟨(forkedPte_kept _).2.2.2.1, forkedPte_plain (tidy.plain q inside), (forkedPte_kept _).2.2.2.2 (tidy.shaped q inside)⟩

end

theorem Walking.parent_reads (walking : Walking device m0 rest base parent st (16 * 2 ^ 18)) {q : Nat} (inside : q ∈ window) :
    writable (st.parent.pte q) = false := by
  rw [walking.left, if_pos ⟨inside, (mem_window.mp inside).2⟩]
  exact (forkedPte_kept _).2.2.2.1

end
end SecOS.Vmm
