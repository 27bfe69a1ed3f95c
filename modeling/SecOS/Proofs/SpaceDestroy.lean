import SecOS.Proofs.SpaceOperations

/-! Destroying an address space drops every leaf and frees every table. The walk is followed once,
for any way of keeping books (`P`). -/

namespace SecOS.Vmm
open Library Pmm List

/-- Books that can be settled one entry at a time. -/
structure Settles (P : Pmm.State → (Nat → Nat) → (Nat → Nat) → Prop) : Prop where
  drop : ∀ {m leaves tables f}, P m leaves tables → 0 < leaves f → P (dropFrame m (f * frameSize)) (debit leaves f) tables
  free : ∀ {m leaves tables f}, P m leaves tables → 0 < tables f → P (freeFrame m (f * frameSize)) leaves (debit tables f)

theorem accounts_settle (device : Nat → Prop) (rest base : Nat → Nat) :
    Settles fun m leaves tables => Accounts device m (fun f => rest f + leaves f) (fun f => base f + tables f) where
  drop := by
    intro m leaves tables f acc posted
    have dropped := (acc.drop (f := f) (by omega)).1
    rwa [debit_rest posted] at dropped
  free := by
    intro m leaves tables f acc posted
    have freed := (acc.freeFixed (f := f) (by omega)).1
    rwa [debit_rest posted] at freed

section
variable {P : Pmm.State → (Nat → Nat) → (Nat → Nat) → Prop} {m : Pmm.State} {s : Space} {rest base : Nat → Nat}

private theorem recast {leaves tables : Nat → Nat} (kept : P m leaves tables) (l : ∀ f, rest f = leaves f) (t : ∀ f, base f = tables f) :
    P m rest base := by
  rw [funext l, funext t]
  exact kept

private theorem debit_owns (f : Nat) : debit (fun g => rest g + Space.owns (some f) g) f = rest := by
  funext g
  rw [debit_apply]
  omega

def tableLeaves (s : Space) (k f : Nat) : Nat := ((List.range' (k * 512) 512).map fun page => Space.owns (owner (s.pte page)) f).sum
def directoryLeaves (s : Space) (k f : Nat) : Nat := ((List.range' (k * 512) 512).map fun j => tableLeaves s j f).sum
def directoryTables (s : Space) (k f : Nat) : Nat := ((List.range' (k * 512) 512).map fun j => Space.owns (s.pt j) f).sum

theorem leaves_blocks (s : Space) (f : Nat) : s.leaves f = ((List.range' 4 12).map fun k => directoryLeaves s k f).sum := by
  have pages := sum_Ico_list (4 * 2 ^ 18) (12 * 2 ^ 18) (fun page => Space.owns (owner (s.pte page)) f)
  have first := sum_blocks (4 * 512) (12 * 512) 512 (fun page => Space.owns (owner (s.pte page)) f)
  have second := sum_blocks 4 12 512 (fun j => tableLeaves s j f)
  unfold Space.leaves window
  exact pages.trans (first.trans second)

theorem tables_blocks (s : Space) (f : Nat) :
    s.tables f = Space.owns (some s.pml4) f + Space.owns (s.pdpt 0) f +
      ((List.range' 4 12).map fun k => Space.owns (s.pd k) f + directoryTables s k f).sum := by
  have pds := sum_Ico_list 4 12 (fun k => Space.owns (s.pd k) f)
  have pts := sum_Ico_list (4 * 512) (12 * 512) (fun k => Space.owns (s.pt k) f)
  have blocks := sum_blocks 4 12 512 (fun j => Space.owns (s.pt j) f)
  have both := pts.trans blocks
  unfold Space.tables directories pageTables
  rw [sum_map_add]
  unfold directoryTables
  have lower : ∑ k ∈ Finset.Ico 4 16, Space.owns (s.pd k) f = _ := pds
  have upper : ∑ k ∈ Finset.Ico (4 * 512) (16 * 512), Space.owns (s.pt k) f = _ := both
  rw [lower, upper]
  omega

theorem destroyLeaf_settles (settles : Settles P) (page : Nat)
    (start : P m (fun f => rest f + Space.owns (owner (s.pte page)) f) base) : P (destroyLeaf s m page) rest base := by
  unfold destroyLeaf
  cases taken : pteHasFrame (s.pte page) with
  | false =>
    simp only [taken, Bool.not_false, if_true]
    rw [owner_empty taken] at start
    exact recast start (fun f => by rw [owns_none, Nat.add_zero]) (fun _ => rfl)
  | true =>
    simp only [taken, Bool.not_true, Bool.false_eq_true, if_false]
    cases marked : (s.pte page).has flagDevice with
    | true =>
      rw [owner_device marked] at start
      exact recast start (fun f => by rw [owns_none, Nat.add_zero]) (fun _ => rfl)
    | false =>
      obtain ⟨f, held⟩ : ∃ f, owner (s.pte page) = some f := ⟨_, owner_some.mpr ⟨taken, marked, rfl⟩⟩
      rw [held] at start
      have dropped := settles.drop (f := f) start (by rw [owns_self]; omega)
      rw [debit_owns, ← owner_phys held] at dropped
      exact dropped

private theorem destroyLeaves_settles (settles : Settles P) (k : Nat) (start : P m (fun f => rest f + tableLeaves s k f) base) :
    P ((List.range' (k * 512) 512).foldl (destroyLeaf s) m) rest base := by
  have walk := foldl_remaining
    (fun m pages => P m (fun f => rest f + (pages.map fun page => Space.owns (owner (s.pte page)) f).sum) base) (destroyLeaf s)
    (fun m page pages kept => destroyLeaf_settles settles page (recast kept (fun f => by
      rw [map_cons, sum_cons]
      omega) (fun _ => rfl)))
    start
  exact recast walk (fun f => by rw [map_nil, sum_nil, Nat.add_zero]) (fun _ => rfl)

private theorem table_absent {k : Nat} (table : s.pt k = none) (f : Nat) : tableLeaves s k f = 0 := by
  apply sum_eq_zero
  intro n member
  obtain ⟨page, inside, rfl⟩ := List.mem_map.mp member
  have bounds := mem_range'_1.mp inside
  have here : page / 512 = k := by omega
  rw [s.pte_below page (here ▸ table), owner_zero, owns_none]

theorem destroyTable_settles (settles : Settles P) (k : Nat)
    (start : P m (fun f => rest f + tableLeaves s k f) (fun f => base f + Space.owns (s.pt k) f)) :
    P (destroyTable s m k) rest base := by
  unfold destroyTable
  cases table : s.pt k with
  | none =>
    rw [table] at start
    exact recast start (fun f => by rw [table_absent table, Nat.add_zero]) (fun f => by rw [owns_none, Nat.add_zero])
  | some pt =>
    rw [table] at start
    have freed := settles.free (f := pt) (destroyLeaves_settles settles k start) (by rw [owns_self]; omega)
    rwa [debit_owns] at freed

private theorem destroyTables_settles (settles : Settles P) (k : Nat)
    (start : P m (fun f => rest f + directoryLeaves s k f) (fun f => base f + directoryTables s k f)) :
    P ((List.range' (k * 512) 512).foldl (destroyTable s) m) rest base := by
  have walk := foldl_remaining
    (fun m tables => P m (fun f => rest f + (tables.map fun j => tableLeaves s j f).sum)
      (fun f => base f + (tables.map fun j => Space.owns (s.pt j) f).sum)) (destroyTable s)
    (fun m j tables kept => destroyTable_settles settles j (recast kept
      (fun f => by rw [map_cons, sum_cons]; omega) (fun f => by rw [map_cons, sum_cons]; omega)))
    start
  exact recast walk (fun f => by rw [map_nil, sum_nil, Nat.add_zero])
    (fun f => by rw [map_nil, sum_nil, Nat.add_zero])

private theorem directory_absent {k : Nat} (directory : s.pd k = none) (f : Nat) :
    directoryLeaves s k f = 0 ∧ directoryTables s k f = 0 := by
  have absent : ∀ j ∈ List.range' (k * 512) 512, s.pt j = none := by
    intro j inside
    have bounds := mem_range'_1.mp inside
    have here : j / 512 = k := by omega
    exact s.pt_below j (here ▸ directory)
  refine ⟨?_, ?_⟩
  · apply sum_eq_zero
    intro n member
    obtain ⟨j, inside, rfl⟩ := List.mem_map.mp member
    exact table_absent (absent j inside) f
  · apply sum_eq_zero
    intro n member
    obtain ⟨j, inside, rfl⟩ := List.mem_map.mp member
    rw [absent j inside, owns_none]

theorem destroyDirectory_settles (settles : Settles P) (k : Nat)
    (start : P m (fun f => rest f + directoryLeaves s k f) (fun f => base f + (Space.owns (s.pd k) f + directoryTables s k f))) :
    P (destroyDirectory s m k) rest base := by
  unfold destroyDirectory
  cases directory : s.pd k with
  | none =>
    rw [directory] at start
    exact recast start (fun f => by rw [(directory_absent directory f).1, Nat.add_zero])
      (fun f => by rw [owns_none, (directory_absent directory f).2, Nat.add_zero])
  | some pd =>
    rw [directory] at start
    have entries : P m (fun f => rest f + directoryLeaves s k f) (fun f => (base f + Space.owns (some pd) f) + directoryTables s k f) :=
      recast start (fun _ => rfl) (fun f => by omega)
    have freed := settles.free (f := pd) (destroyTables_settles settles k entries) (by rw [owns_self]; omega)
    rwa [debit_owns] at freed

private theorem destroyDirectories_settles (settles : Settles P)
    (start : P m (fun f => rest f + s.leaves f)
      (fun f => base f + ((List.range' 4 12).map fun k => Space.owns (s.pd k) f + directoryTables s k f).sum)) :
    P ((List.range' pdptLo (pdptHi + 1 - pdptLo)).foldl (destroyDirectory s) m) rest base := by
  have walk := foldl_remaining
    (fun m directories => P m (fun f => rest f + (directories.map fun k => directoryLeaves s k f).sum)
      (fun f => base f + (directories.map fun k => Space.owns (s.pd k) f + directoryTables s k f).sum)) (destroyDirectory s)
    (fun m k directories kept => destroyDirectory_settles settles k (recast kept
      (fun f => by rw [map_cons, sum_cons]; omega) (fun f => by rw [map_cons, sum_cons]; omega)))
    (recast start (fun f => by rw [leaves_blocks]) (fun _ => rfl))
  exact recast walk (fun f => by rw [map_nil, sum_nil, Nat.add_zero])
    (fun f => by rw [map_nil, sum_nil, Nat.add_zero])

private theorem window_absent (top : s.pdpt 0 = none) (f : Nat) :
    s.leaves f = 0 ∧ ((List.range' 4 12).map fun k => Space.owns (s.pd k) f + directoryTables s k f).sum = 0 := by
  have absent : ∀ k ∈ List.range' 4 12, s.pd k = none := by
    intro k inside
    have bounds := mem_range'_1.mp inside
    have here : k / 512 = 0 := by omega
    exact s.pd_below k (here ▸ top)
  refine ⟨?_, ?_⟩
  · rw [leaves_blocks]
    apply sum_eq_zero
    intro n member
    obtain ⟨k, inside, rfl⟩ := List.mem_map.mp member
    exact (directory_absent (absent k inside) f).1
  · apply sum_eq_zero
    intro n member
    obtain ⟨k, inside, rfl⟩ := List.mem_map.mp member
    rw [absent k inside, owns_none, (directory_absent (absent k inside) f).2, Nat.add_zero]

theorem spaceDestroy_settles (settles : Settles P) (start : P m s.leaves s.tables) : P (spaceDestroy m s) (fun _ => 0) (fun _ => 0) := by
  have root : ∀ {m : Pmm.State}, P m (fun _ => 0) (fun f => 0 + Space.owns (some s.pml4) f) →
      P (freeFrame m (s.pml4 * frameSize)) (fun _ => 0) (fun _ => 0) := by
    intro m kept
    have freed := settles.free (f := s.pml4) kept (by rw [owns_self]; omega)
    rwa [debit_owns] at freed
  unfold spaceDestroy
  cases top : s.pdpt 0 with
  | none =>
    refine root (recast start (fun f => ?_) (fun f => ?_))
    · rw [(window_absent top f).1]
    · rw [tables_blocks, (window_absent top f).2, top, owns_none]
      omega
  | some pdpt =>
    apply root
    have entries : P m (fun f => 0 + s.leaves f) (fun f => ((0 + Space.owns (some s.pml4) f) + Space.owns (some pdpt) f) +
        ((List.range' 4 12).map fun k => Space.owns (s.pd k) f + directoryTables s k f).sum) := by
      refine recast start (fun f => Nat.zero_add _) (fun f => ?_)
      rw [tables_blocks, top, Nat.zero_add]
    have freed := settles.free (f := pdpt) (destroyDirectories_settles settles entries) (by rw [owns_self]; omega)
    rwa [debit_owns] at freed

end
end SecOS.Vmm
