import SecOS.Proofs.DirectoryWalks

/-! Every operation of the FAT32 file system ends exactly when every directory that a path
leads to is walked to an end, and so is the directory a rename puts its entry in, once the
file it replaces is deleted. -/

namespace SecOS.Fat32
open Library Option

variable {v : Volume}

theorem split_ends (ends : DirectoriesEnd v) (path : List UInt8) : Ends fun fuel => splitParent v fuel path := by
  unfold splitParent
  split
  · exact .of_some _
  refine (resolve_ends ends _).bind fun r _ => ?_
  cases r with
  | none => exact .of_some _
  | some found =>
    dsimp only
    split <;> exact .of_some _

theorem split_walked (ends : DirectoriesEnd v) {path : List UInt8} {parent : Nat} {name : Bytes}
    (reached : Reaches (fun fuel => splitParent v fuel path) (some (parent, name))) : ChainEnds endMark v parent := by
  unfold splitParent at reached
  split at reached
  · obtain ⟨n, failed⟩ := reached
    cases failed n (Nat.le_refl n)
  obtain ⟨r, resolved⟩ := resolve_ends ends (parentPath path)
  obtain ⟨n, later⟩ := reached.of_bind resolved
  have last := later n (Nat.le_refl n)
  cases r with
  | none => cases last
  | some found =>
    dsimp only at last
    split at last
    next isDir =>
      cases last
      exact ends _ found resolved isDir
    · cases last

theorem slot_ends {dir : Nat} (walked : ChainEnds endMark v dir) : Ends fun fuel => dirAllocSlot v fuel dir := by
  refine (slot_ends_iff v dir).mpr (walked.mono fun b mark => ?_)
  rw [roomMark, Bool.or_eq_true]
  exact .inl mark

section
variable (ends : DirectoriesEnd v)
include ends

theorem lookup_ends (memory : Bool) (path : List UInt8) : Ends fun fuel => fat32Lookup memory v fuel path := by
  unfold fat32Lookup
  refine (resolve_ends ends path).bind fun r _ => ?_
  cases r with
  | none => exact .of_some _
  | some found =>
    dsimp only
    split <;> exact .of_some _

theorem readdir_ends (path : List UInt8) : Ends fun fuel => fat32Readdir v fuel path := by
  unfold fat32Readdir
  refine (resolve_ends ends path).bind fun r resolved => ?_
  cases r with
  | none => exact .of_some _
  | some found =>
    dsimp only
    split
    next isDir => exact (list_loop_iff v _ _).mpr (ends path found resolved isDir)
    · exact .of_some _

theorem remove_ends (path : List UInt8) : Ends fun fuel => fat32Remove v fuel path := by
  unfold fat32Remove
  split
  · exact .of_some _
  next writable =>
    refine (resolve_ends ends path).bind fun r _ => ?_
    cases r with
    | none => exact .of_some _
    | some found =>
      dsimp only
      cases found.loc with
      | none => exact .of_some _
      | some loc => exact (freeFrom_ends (by simpa using writable) _).bind fun _ _ => .of_some _

theorem truncate_ends (now : Clock) (path : List UInt8) (newSize : Nat) :
    Ends fun fuel => fat32Truncate now v fuel path newSize := by
  unfold fat32Truncate
  split
  · exact .of_some _
  next writable =>
    refine (resolve_ends ends path).bind fun r _ => ?_
    cases r with
    | none => exact .of_some _
    | some found =>
      dsimp only
      cases found.loc with
      | none => exact .of_some _
      | some loc =>
        dsimp only
        split
        · exact .of_some _
        · refine (resize_ends (by simpa using writable) found _ newSize).bind fun r _ => ?_
          split <;> exact .of_some _

theorem create_ends (now : Clock) (path initial : List UInt8) : Ends fun fuel => fat32Create now v fuel path initial := by
  unfold fat32Create
  split
  · exact .of_some _
  refine (resolve_ends ends path).bind fun r _ => ?_
  cases r with
  | some found => exact .of_some _
  | none =>
    refine (split_ends ends path).bind fun r reached => ?_
    cases r with
    | none => exact .of_some _
    | some place =>
      obtain ⟨parent, name⟩ := place
      refine (slot_ends (split_walked ends reached)).bind fun r _ => ?_
      obtain ⟨v', slot⟩ := r
      cases slot with
      | none => exact .of_some _
      | some slot =>
        dsimp only
        split
        · exact .of_some _
        · exact (write_ends now _ _ 0 initial).bind fun _ _ => .of_some _

theorem clear_ends (writable : v.ro = false) (oldp newp : List UInt8) : Ends fun fuel => renameClear v fuel oldp newp := by
  unfold renameClear
  refine (resolve_ends ends oldp).bind fun r _ => ?_
  cases r with
  | none => exact .of_some _
  | some found =>
    dsimp only
    cases found.loc with
    | none => exact .of_some _
    | some loc =>
      refine (split_ends ends newp).bind fun r _ => ?_
      cases r with
      | none => exact .of_some _
      | some place =>
        refine (split_ends ends oldp).bind fun r _ => ?_
        cases r with
        | none => exact .of_some _
        | some oldPlace =>
          dsimp only
          split
          · exact .of_some _
          refine (resolve_ends ends newp).bind fun r _ => ?_
          cases r with
          | none => exact .of_some _
          | some target =>
            dsimp only
            cases target.loc with
            | none => exact .of_some _
            | some tl =>
              dsimp only
              refine Ends.bind ?_ fun v' _ => ?_
              · unfold freeTarget
                split
                · exact .of_some _
                · exact freeFrom_ends writable _
              · split <;> exact .of_some _

end

/-- No operation can be held up: every directory a path leads to is walked to an end, and
where a rename has deleted the file it replaces, its directory is searched for room to an
end. -/
structure Bounded (v : Volume) : Prop where
  directories : DirectoriesEnd v
  replaced : v.ro = false → ∀ oldp newp v' r, Reaches (fun fuel => renameClear v fuel oldp newp) (v', .ready r) →
    ChainEnds roomMark v' r.parent

theorem rename_ends (bounded : Bounded v) (oldp newp : List UInt8) : Ends fun fuel => fat32Rename v fuel oldp newp := by
  unfold fat32Rename
  split
  · exact .of_some _
  next writable =>
    have writable : v.ro = false := by simpa using writable
    refine (clear_ends bounded.directories writable oldp newp).bind fun r cleared => ?_
    obtain ⟨v', outcome⟩ := r
    cases outcome with
    | failed => exact .of_some _
    | same => exact .of_some _
    | ready r =>
      have walked := bounded.replaced writable oldp newp v' r cleared
      refine ((slot_ends_iff v' r.parent).mpr walked).bind fun slot _ => ?_
      obtain ⟨v'', slot⟩ := slot
      cases slot <;> exact .of_some _

theorem perform_ends (bounded : Bounded v) (op : Op) : Ends fun fuel => perform v fuel op := by
  have ends := bounded.directories
  cases op with
  | lookup memory path => exact (lookup_ends ends memory path).map _
  | readdir path => exact (readdir_ends ends path).map _
  | read i offset len =>
    apply Ends.map
    unfold fat32Read
    split
    · exact .of_some _
    next nd _ =>
      split
      · exact .of_some _
      · exact read_ends v nd offset len
  | write now i offset input =>
    apply Ends.map
    unfold fat32Write
    split
    · exact .of_some _
    next nd _ =>
      split
      · exact .of_some _
      · exact (write_ends now v nd offset input).bind fun _ _ => .of_some _
  | create now path initial => exact (create_ends ends now path initial).map _
  | truncate now path newSize => exact (truncate_ends ends now path newSize).map _
  | rename oldp newp => exact (rename_ends bounded oldp newp).map _
  | remove path => exact (remove_ends ends path).map _

theorem directories_of_ends (all : ∀ op, Ends fun fuel => perform v fuel op) : DirectoriesEnd v := by
  intro path found resolved isDir
  obtain ⟨n, answers⟩ := (all (.readdir path)).answers
  obtain ⟨k, resolved⟩ := resolved
  have listed := answers (max n k) (by omega)
  have here : pathResolve v (max n k) path = some (some found) := resolved _ (by omega)
  have walk : fat32Readdir v (max n k) path = loop (listStep v) (max n k) (found.dir v, []) := by
    unfold fat32Readdir
    rw [here]
    exact if_pos isDir
  rw [walk] at listed
  exact (list_loop_iff v _ _).mp (ends_loop_iff.mpr ⟨_, listed⟩)

variable {v' : Volume}

theorem replaced_of_ends (all : ∀ op, Ends fun fuel => perform v fuel op) (writable : v.ro = false) {oldp newp : List UInt8}
    {r : Renaming} (cleared : Reaches (fun fuel => renameClear v fuel oldp newp) (v', .ready r)) :
    ChainEnds roomMark v' r.parent := by
  obtain ⟨n, answers⟩ := (all (.rename oldp newp)).answers
  obtain ⟨k, cleared⟩ := cleared
  have renamed := answers (max n k) (by omega)
  have here : renameClear v (max n k) oldp newp = some (v', .ready r) := cleared _ (by omega)
  refine (slot_loop_iff v' r.parent r.parent).mp (ends_loop_iff.mpr ⟨max n k, ?_⟩)
  cases left : loop (slotStep v') (max n k) (r.parent, r.parent) with
  | some slot => rfl
  | none =>
    have slot : dirAllocSlot v' (max n k) r.parent = none := by
      unfold dirAllocSlot
      rw [left]
      rfl
    have stuck : fat32Rename v (max n k) oldp newp = none := by
      unfold fat32Rename
      rw [if_neg (by rw [writable]; decide), here]
      simp only [bind_eq_bind, bind_some, slot, bind_none]
    rw [stuck] at renamed
    cases renamed

theorem operations_end_iff (v : Volume) : (∀ op, Ends fun fuel => perform v fuel op) ↔ Bounded v := by
  constructor
  · intro all
    exact ⟨directories_of_ends all, fun writable oldp newp v' r cleared => replaced_of_ends all writable cleared⟩
  · exact fun bounded op => perform_ends bounded op

/-- The table has an entry for every cluster and none of its chains comes back to itself. -/
structure Acyclic (v : Volume) : Prop where
  covers : ∀ c, clusValid v c = true → entrySector c < v.geo.secPerFat
  ends : ∀ c, ChainEnds (fun _ => false) v c

structure Cut (v v' : Volume) : Prop where
  disk : SameDisk v v'
  chains : ∀ c, clusValid v c = true → fatGet v' c = fatGet v c ∨ fatGet v' c = 0

theorem Freed.cut (freed : Freed v v') : Cut v v' := ⟨freed.disk, fun c _ => freed.entries c⟩

theorem SameDisk.valid (same : SameDisk v v') (c : Nat) : clusValid v' c = clusValid v c := by
  unfold clusValid
  rw [same.geo]

theorem free_cut {fuel c : Nat} (freed : fatFreeChain fuel v c = some v') : Freed v v' := by
  induction fuel generalizing v c with
  | zero => cases freed
  | succ fuel ih =>
    unfold fatFreeChain loop freeStep at freed
    cases valid : clusValid v c <;> cases next : chainNext v c <;> simp only [valid, next] at freed
    · cases freed
      exact .refl _
    · cases freed
      exact .refl _
    · cases freed
      exact fatSet_freed v c
    · exact (fatSet_freed v c).trans (ih freed)

theorem Cut.next (cut : Cut v v') (c : Nat) : clusValid v' c = false ∨ chainNext v' c = chainNext v c ∨ chainNext v' c = none := by
  cases valid : clusValid v c with
  | false => exact .inl ((cut.disk.valid c).trans valid)
  | true =>
    unfold chainNext
    rcases cut.chains c valid with same | zero
    · rw [same]
      exact .inr (.inl rfl)
    · rw [zero]
      exact .inr (.inr rfl)

theorem Cut.ends (cut : Cut v v') {c : Nat} (ends : ChainEnds (fun _ => false) v c) : ChainEnds (fun _ => false) v' c := by
  induction ends with
  | @outside c out => exact .outside ((cut.disk.valid c).trans out)
  | @marked c here =>
    -- only a sector that cannot be read is marked, and it stays so
    refine .marked (Eq.trans ?_ here)
    unfold markedHere clusLba secRead
    rw [cut.disk.geo, cut.disk.capacity]
    congr 1
    funext s
    split_ifs <;> rfl
  | @last c none =>
    rcases cut.next c with out | same | gone
    · exact .outside out
    · exact .last (same.trans none)
    · exact .last gone
  | @next c n follows later ih =>
    rcases cut.next c with out | same | gone
    · exact .outside out
    · exact .next (same.trans follows) ih
    · exact .last gone

section
variable (covers : ∀ c, clusValid v c = true → entrySector c < v.geo.secPerFat)
include covers

theorem dentWriteBack_cut (freed : Freed v v') (loc : DentLoc) : Cut v (dentWriteBack v' loc).1 := by
  unfold dentWriteBack
  dsimp only
  split
  · exact freed.cut
  split
  · exact freed.cut
  next written =>
    obtain ⟨_, _, rfl⟩ := secWrite_some written
    refine ⟨⟨freed.disk.geo, freed.disk.ro, freed.disk.capacity⟩, fun c valid => ?_⟩
    have inTable := covers c valid
    have first := Nat.le_mul_of_pos_left v.geo.secPerFat v.geo.copied
    rw [fatGet_data (Function.update_of_ne ?_ _ _)]
    · exact freed.entries c
    · unfold clusLba Geometry.dataStart Geometry.fatStart secsz
      rw [freed.disk.geo]
      omega

theorem target_cut {fuel : Nat} {target found : Found}
    (freed : freeTarget fuel v target found = some v') (tl loc : DentLoc) : Cut v (dentWriteBack (inodeKill v' tl.clus tl.off) loc).1 := by
  have first : Freed v v' := by
    unfold freeTarget freeFrom at freed
    split at freed
    · cases freed
      exact .refl v
    split at freed
    · exact free_cut freed
    · cases freed
      exact .refl v
  apply dentWriteBack_cut covers
  unfold inodeKill
  split
  · exact first
  · exact ⟨⟨first.disk.geo, first.disk.ro, first.disk.capacity⟩, first.entries⟩

theorem clear_cut {fuel : Nat} {oldp newp : List UInt8} {r : Renaming} (cleared : renameClear v fuel oldp newp = some (v', .ready r)) : Cut v v' := by
  unfold renameClear at cleared
  obtain ⟨_ | found, _, cleared⟩ := Option.bind_eq_some_iff.mp cleared
  · cases cleared
  dsimp only at cleared
  split at cleared
  case h_2 => cases cleared
  obtain ⟨_ | place, _, cleared⟩ := Option.bind_eq_some_iff.mp cleared
  · cases cleared
  obtain ⟨_ | oldPlace, _, cleared⟩ := Option.bind_eq_some_iff.mp cleared
  · cases cleared
  dsimp only at cleared
  split at cleared
  · cases cleared
  obtain ⟨_ | target, _, cleared⟩ := Option.bind_eq_some_iff.mp cleared
  · cases cleared
    exact (Freed.refl v).cut
  dsimp only at cleared
  split at cleared
  case h_2 => cases cleared
  next tl _ =>
    obtain ⟨freed, release, cleared⟩ := Option.bind_eq_some_iff.mp cleared
    have cut := target_cut covers release tl { tl with raw := tl.raw.wr 1 0 dentFree.toNat }
    split at cleared
    · cases cleared
    next written =>
      cases cleared
      rw [written] at cut
      exact cut

end

theorem Acyclic.bounded (acyclic : Acyclic v) : Bounded v := by
  have any {marks : UInt8 → Bool} {v : Volume} {c : Nat} (ends : ChainEnds (fun _ => false) v c) : ChainEnds marks v c :=
    ends.mono fun _ never => by cases never
  refine ⟨fun _ found _ _ => any (acyclic.ends _), fun _ oldp newp v' r cleared => ?_⟩
  obtain ⟨n, cleared⟩ := cleared
  exact any ((clear_cut acyclic.covers (cleared n (Nat.le_refl n))).ends (acyclic.ends _))

/-- Ten sectors, one copy of the table in one of them, the root in cluster 2. -/
def loopedBoot : Bytes :=
  (((((((((Bytes.zeros.wr16 11 512).wr 1 13 1).wr16 14 1).wr 1 16 1).wr32 32 10).wr32 36 1).wr32 44 2).wr 1 510 0x55).wr 1 511 0xAA)

def loopedDisk (lba : Nat) : Bytes :=
  if lba = 0 then loopedBoot else if lba = 1 then Bytes.zeros.wr32 8 2 else fun _ => 0x42

def loopedVolume : Volume :=
  ⟨⟨1, 1, 1, 1, 2, 10, 0, by decide, by decide, by decide⟩, false, 10, loopedDisk, false, [], ⟨0, 0, Bytes.zeros⟩⟩

theorem looped_mounts : fat32Mount false true 10 loopedDisk ⟨0, 0, Bytes.zeros⟩ = some loopedVolume := by
  rfl

theorem looped_again : findStep loopedVolume (nameTo83 [0x41]) 2 = .again 2 := by
  rfl

theorem full_directory_hangs :
    ¬∀ optRo writes capacity data stack v, fat32Mount optRo writes capacity data stack = some v → ∀ op, Ends fun fuel => perform v fuel op := by
  intro all
  obtain ⟨r, n, reached⟩ := all false true 10 loopedDisk ⟨0, 0, Bytes.zeros⟩ loopedVolume looped_mounts (.lookup true [slash, 0x41])
  have stuck : dirFind loopedVolume n 2 (nameTo83 [0x41]) = none := loop_stuck looped_again n
  have names : components [slash, 0x41] = [[0x41]] := by decide
  have never : pathResolve loopedVolume n [slash, 0x41] = none := by
    unfold pathResolve
    rw [names, if_neg fun unset => nomatch unset.1, resolveFrom]
    change (dirFind loopedVolume n 2 (nameTo83 [0x41]) >>= _) = none
    rw [stuck]
    rfl
  have result := reached n (Nat.le_refl n)
  simp only [perform, fat32Lookup, never] at result
  cases result

/-- Without cycles no operation hangs, also not a rename over a file. -/
theorem acyclic_operations_end (acyclic : Acyclic v) (op : Op) : Ends fun fuel => perform v fuel op := perform_ends acyclic.bounded op

/-- A file of two clusters in the root: the entry at `off` of the directory. -/
def putFile (dir : Bytes) (off letter first : Nat) : Bytes :=
  ((((dir.wr 8 off 0x2020202020202020).wr 4 (off + 8) 0x20202020).wr 1 off letter).wr16 (off + 26) first).wr32 (off + 28) 1024

/-- `A` in clusters 3 and 4, `B` in clusters 5 and 6. -/
def filesDisk (lba : Nat) : Bytes :=
  if lba = 1 then ((((Bytes.zeros.wr32 8 0x0FFFFFFF).wr32 12 4).wr32 16 0x0FFFFFFF).wr32 20 6).wr32 24 0x0FFFFFFF
  else if lba = 2 then putFile (putFile Bytes.zeros 0 0x41 3) 32 0x42 5
  else Bytes.zeros

def filesVolume : Volume := { loopedVolume with data := filesDisk }

theorem filesVolume_acyclic : Acyclic filesVolume := by
  have limit : filesVolume.geo.clusLimit = 10 := rfl
  have last : ∀ c < 10, 2 ≤ c → c ≠ 3 → c ≠ 5 → chainNext filesVolume c = none := by decide +kernel
  refine ⟨fun c valid => ?_, fun c => ?_⟩
  · have low : c < 10 := of_decide_eq_true (Bool.and_eq_true_iff.mp valid).2
    change c * 4 % 2 ^ 32 / 512 < 1
    omega
  · by_cases low : c < 10 ∧ 2 ≤ c
    · by_cases first : c = 3
      · exact first ▸ .next (n := 4) (by decide +kernel) (.last (by decide +kernel))
      by_cases second : c = 5
      · exact second ▸ .next (n := 6) (by decide +kernel) (.last (by decide +kernel))
      exact .last (last c low.1 low.2 first second)
    · refine .outside ?_
      simp only [clusValid, limit, Bool.and_eq_false_iff, decide_eq_false_iff_not]
      omega

/-- `A` is renamed over `B`: the chain of `B` is walked and freed, and that of `A` stays. -/
theorem rename_over_file_ends : (Ends fun fuel => perform filesVolume fuel (.rename [slash, 0x41] [slash, 0x42])) ∧
    ((perform filesVolume 8 (.rename [slash, 0x41] [slash, 0x42])).map fun v => [fatGet v 3, fatGet v 5, fatGet v 6]) =
      some [4, 0, 0] :=
  ⟨acyclic_operations_end filesVolume_acyclic _, by decide +kernel⟩

end SecOS.Fat32
