import SecOS.Fat32

/-! Freeing a chain clears every entry it leaves, so a chain that comes back to itself is
cut where it began: the number of used entries bounds the loop. -/

namespace SecOS.Fat32
open Library Function Finset Bytes

variable {v v' v'' : Volume} {c lba : Nat} {b : Bytes}

theorem secRead_eq (low : lba < v.capacity) : secRead v lba = some (v.data lba) := if_pos low

theorem secRead_some {sec : Bytes} (there : secRead v lba = some sec) : lba < v.capacity ∧ v.data lba = sec := by
  unfold secRead at there
  split at there
  next low => exact ⟨low, Option.some.inj there⟩
  · cases there

theorem secWrite_some (there : secWrite v lba b = some v') :
    v.ro = false ∧ lba < v.capacity ∧ v' = { v with data := update v.data lba b } := by
  unfold secWrite at there
  split at there
  · cases there
  next writable =>
    split at there
    next low => exact ⟨by simpa using writable, low, (Option.some.inj there).symm⟩
    · cases there

theorem secWrite_eq (writable : v.ro = false) (low : lba < v.capacity) :
    secWrite v lba b = some { v with data := update v.data lba b } := by
  unfold secWrite
  rw [if_neg (by rw [writable]; decide), if_pos low]

structure SameDisk (v v' : Volume) : Prop where
  geo : v'.geo = v.geo
  ro : v'.ro = v.ro
  capacity : v'.capacity = v.capacity

theorem SameDisk.refl (v : Volume) : SameDisk v v := ⟨rfl, rfl, rfl⟩

theorem SameDisk.trans (first : SameDisk v v') (second : SameDisk v' v'') : SameDisk v v'' :=
  ⟨second.geo.trans first.geo, second.ro.trans first.ro, second.capacity.trans first.capacity⟩

theorem secWrite_same (there : secWrite v lba b = some v') : SameDisk v v' := by
  obtain ⟨_, _, rfl⟩ := secWrite_some there
  exact ⟨rfl, rfl, rfl⟩

theorem entry_wraps (c : Nat) : entrySector (c % 2 ^ 30) = entrySector c ∧ entryOffset (c % 2 ^ 30) = entryOffset c := by
  have same : c % 2 ^ 30 * 4 % 2 ^ 32 = c * 4 % 2 ^ 32 := by omega
  unfold entrySector entryOffset
  rw [same]
  exact ⟨rfl, rfl⟩

theorem fatGet_wraps (v : Volume) (c : Nat) : fatGet v (c % 2 ^ 30) = fatGet v c := by
  unfold fatGet
  rw [(entry_wraps c).1, (entry_wraps c).2]

structure Freed (v v' : Volume) : Prop where
  disk : SameDisk v v'
  entries : ∀ c, fatGet v' c = fatGet v c ∨ fatGet v' c = 0

theorem Freed.refl (v : Volume) : Freed v v := ⟨.refl v, fun _ => .inl rfl⟩

theorem Freed.trans (first : Freed v v') (second : Freed v' v'') : Freed v v'' := by
  refine ⟨first.disk.trans second.disk, fun c => ?_⟩
  rcases second.entries c with same | zero
  · rw [same]
    exact first.entries c
  · exact .inr zero

theorem Freed.zero (freed : Freed v v') (zero : fatGet v c = 0) : fatGet v' c = 0 := by
  rcases freed.entries c with same | zero'
  · exact same.trans zero
  · exact zero'

theorem fatGet_eq (low : v.geo.fatStart + entrySector c < v.capacity) :
    fatGet v c = (v.data (v.geo.fatStart + entrySector c)).rd32 (entryOffset c) % 2 ^ 28 := by
  unfold fatGet
  rw [secRead_eq low]

theorem fatGet_unread (high : ¬v.geo.fatStart + entrySector c < v.capacity) : fatGet v c = fatEoc := by
  unfold fatGet secRead
  rw [if_neg high]

theorem fatGet_data {data : Nat → Bytes} (same : data (v.geo.fatStart + entrySector c) = v.data (v.geo.fatStart + entrySector c)) :
    fatGet { v with data := data } c = fatGet v c := by
  by_cases low : v.geo.fatStart + entrySector c < v.capacity
  · rw [fatGet_eq low, ← same]
    exact fatGet_eq low
  · rw [fatGet_unread low]
    exact fatGet_unread low

theorem cleared_entry (c c' : Nat) (sec : Bytes) (same : entryOffset c' = entryOffset c) :
    (sec.wr32 (entryOffset c) (sec.rd32 (entryOffset c) / 2 ^ 28 * 2 ^ 28 + 0 % 2 ^ 28)).rd32 (entryOffset c') % 2 ^ 28 = 0 := by
  rw [same, rd32, wr32, rd_wr]
  omega

theorem kept_entry (c c' : Nat) (sec : Bytes) (val : Nat) (apart : entryOffset c' ≠ entryOffset c) :
    (sec.wr32 (entryOffset c) val).rd32 (entryOffset c') = sec.rd32 (entryOffset c') := by
  apply rd_wr_apart
  unfold entryOffset secsz at *
  omega

theorem clear_freed (c : Nat) (low : lba < v.capacity) :
    Freed v { v with data := update v.data lba ((v.data lba).wr32 (entryOffset c)
      ((v.data lba).rd32 (entryOffset c) / 2 ^ 28 * 2 ^ 28 + 0 % 2 ^ 28)) } := by
  refine ⟨⟨rfl, rfl, rfl⟩, fun c' => ?_⟩
  by_cases here : v.geo.fatStart + entrySector c' = lba
  · by_cases same : entryOffset c' = entryOffset c
    · right
      refine (fatGet_eq (by rw [here]; exact low)).trans ?_
      simp only [here, update_self]
      exact cleared_entry c c' _ same
    · left
      refine (fatGet_eq (by rw [here]; exact low)).trans ?_
      rw [fatGet_eq (by rw [here]; exact low)]
      simp only [here, update_self]
      rw [kept_entry c c' _ _ same]
  · left
    apply fatGet_data
    exact update_of_ne here _ _

theorem fatSetCopies_freed (c : Nat) (copies : List Nat) (v : Volume) : Freed v (fatSetCopies c 0 copies v).1 := by
  induction copies generalizing v with
  | nil => exact .refl v
  | cons f rest ih =>
    rw [fatSetCopies]
    dsimp only
    split
    · exact .refl v
    next sec there =>
      obtain ⟨low, rfl⟩ := secRead_some there
      split
      · exact .refl v
      next v' written =>
        obtain ⟨_, _, rfl⟩ := secWrite_some written
        exact (clear_freed c low).trans (ih _)

theorem fatSetCopies_same (c val : Nat) (copies : List Nat) (v : Volume) : SameDisk v (fatSetCopies c val copies v).1 := by
  induction copies generalizing v with
  | nil => exact .refl v
  | cons f rest ih =>
    rw [fatSetCopies]
    dsimp only
    split
    · exact .refl v
    split
    · exact .refl v
    next v' written => exact (secWrite_same written).trans (ih v')

theorem fatFsinfoInvalidate_freed (v : Volume) : Freed v (fatFsinfoInvalidate v) := by
  have marked : Freed v { v with fsinfoDone := true } := ⟨⟨rfl, rfl, rfl⟩, fun _ => .inl rfl⟩
  unfold fatFsinfoInvalidate
  dsimp only
  split
  · exact marked
  split
  · exact marked
  next fi there =>
    split
    · exact marked
    split
    · exact marked
    cases written : secWrite { v with fsinfoDone := true } v.geo.fsinfoSec ((fi.wr32 488 0xFFFFFFFF).wr32 492 0xFFFFFFFF) with
    | none => exact marked
    | some v' =>
      obtain ⟨_, _, rfl⟩ := secWrite_some written
      refine ⟨⟨rfl, rfl, rfl⟩, fun c => .inl ?_⟩
      -- the sector lies before the table
      have apart : v.geo.fatStart + entrySector c ≠ v.geo.fsinfoSec := by
        unfold Geometry.fatStart
        omega
      exact fatGet_data (update_of_ne apart _ _)

theorem fatSet_freed (v : Volume) (c : Nat) : Freed v (fatSet v c 0).1 := by
  unfold fatSet
  dsimp only
  split
  · exact fatSetCopies_freed c _ v
  · exact (fatFsinfoInvalidate_freed v).trans (fatSetCopies_freed c _ _)

theorem fatSet_same (v : Volume) (c val : Nat) : SameDisk v (fatSet v c val).1 := by
  unfold fatSet
  dsimp only
  split
  · exact fatSetCopies_same c val _ v
  · exact (fatFsinfoInvalidate_freed v).disk.trans (fatSetCopies_same c val _ _)

theorem fatSetCopies_clears {copies : List Nat} (writable : v.ro = false) (low : v.geo.fatStart + entrySector c < v.capacity) :
    fatGet (fatSetCopies c 0 (0 :: copies) v).1 c = 0 := by
  have first : v.geo.fatStart + 0 * v.geo.secPerFat + entrySector c = v.geo.fatStart + entrySector c := by omega
  rw [fatSetCopies]
  simp only [first, secRead_eq low, secWrite_eq writable low]
  apply (fatSetCopies_freed c copies _).zero
  refine (fatGet_eq ?_).trans ?_
  · exact low
  · simp only [update_self]
    exact cleared_entry c c _ rfl

theorem fatSet_clears (writable : v.ro = false) (low : v.geo.fatStart + entrySector c < v.capacity) :
    fatGet (fatSet v c 0).1 c = 0 := by
  have copies (g : Geometry) : ∃ rest, List.range g.numFats = 0 :: rest := by
    obtain ⟨n, count⟩ : ∃ n, g.numFats = n + 1 := ⟨g.numFats - 1, by have := g.copied; omega⟩
    exact ⟨_, by rw [count, List.range_succ_eq_map]⟩
  unfold fatSet
  dsimp only
  obtain ⟨rest, all⟩ := copies (if v.fsinfoDone = true then v else fatFsinfoInvalidate v).geo
  rw [all]
  split
  · exact fatSetCopies_clears writable low
  · have freed := fatFsinfoInvalidate_freed v
    exact fatSetCopies_clears (freed.disk.ro.trans writable) (by rw [freed.disk.geo, freed.disk.capacity]; exact low)

/-- The used entries: a 32-bit offset reaches 2^30 of them. -/
def used (v : Volume) : Finset Nat := (Finset.range (2 ^ 30)).filter fun c => fatGet v c ≠ 0

theorem chainNext_some {n : Nat} (next : chainNext v c = some n) :
    n = fatGet v c ∧ 2 ≤ n ∧ n < fatEoc ∧ v.geo.fatStart + entrySector c < v.capacity := by
  unfold chainNext at next
  dsimp only at next
  obtain ⟨inside, ⟨⟩⟩ := Option.ite_none_right_eq_some.mp next
  refine ⟨rfl, inside.1, inside.2, ?_⟩
  by_contra high
  have unread := fatGet_unread high
  omega

theorem freeStep_again {s : Volume × Nat} {s' : Volume × Nat} (round : freeStep s = .again s') :
    chainNext s.1 s.2 = some s'.2 ∧ s'.1 = (fatSet s.1 s.2 0).1 := by
  unfold freeStep at round
  dsimp only at round
  split at round
  · cases round
  split at round
  next n next =>
    cases round
    exact ⟨next, rfl⟩
  · cases round

theorem used_lower {n : Nat} (writable : v.ro = false) (next : chainNext v c = some n) : (used (fatSet v c 0).1).card < (used v).card := by
  obtain ⟨value, low, _, inside⟩ := chainNext_some next
  have freed := fatSet_freed v c
  have gone := fatSet_clears writable inside
  apply card_lt_card
  refine ⟨fun e member => ?_, fun back => ?_⟩
  · obtain ⟨small, nonzero⟩ := mem_filter.mp member
    refine mem_filter.mpr ⟨small, fun zero => nonzero (freed.zero zero)⟩
  · have member : c % 2 ^ 30 ∈ used v := by
      refine mem_filter.mpr ⟨mem_range.mpr (by omega), ?_⟩
      rw [fatGet_wraps]
      omega
    obtain ⟨_, nonzero⟩ := mem_filter.mp (back member)
    exact nonzero ((fatGet_wraps _ c).trans gone)

theorem free_ends (writable : v.ro = false) (c : Nat) : Ends fun fuel => fatFreeChain fuel v c := by
  apply ends_of_measure (fun s : Volume × Nat => s.1.ro = false) (fun s => (used s.1).card)
  · intro s s' writable round
    obtain ⟨next, after⟩ := freeStep_again round
    rw [after]
    exact ⟨(fatSet_freed _ _).disk.ro.trans writable, used_lower writable next⟩
  · exact writable

end SecOS.Fat32
