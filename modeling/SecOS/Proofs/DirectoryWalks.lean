import SecOS.Proofs.FileLoops

/-! Walking a directory ends when its chain does, at a sector that cannot be read or at the mark of
the last entry; a directory without any of these is walked for ever. -/

namespace SecOS.Fat32
open Library List

variable {v : Volume} {c : Nat}

/-- A sector of the cluster cannot be read, or an entry of it is one of `marks`. -/
def markedHere (marks : UInt8 → Bool) (v : Volume) (c : Nat) : Bool :=
  (List.range v.geo.secPerClus).any fun s =>
    match secRead v (clusLba v c + s) with
    | none => true
    | some sec => (List.range perSector).any fun e => marks (sec (e * 32))

def endMark (b : UInt8) : Bool := b == dentEnd

def roomMark (b : UInt8) : Bool := b == dentEnd || b == dentFree

/-- The walk along the chain from a cluster comes to its end or to a marked cluster. -/
inductive ChainEnds (marks : UInt8 → Bool) (v : Volume) : Nat → Prop where
  | outside {c : Nat} (out : clusValid v c = false) : ChainEnds marks v c
  | marked {c : Nat} (here : markedHere marks v c = true) : ChainEnds marks v c
  | last {c : Nat} (none : chainNext v c = none) : ChainEnds marks v c
  | next {c n : Nat} (follows : chainNext v c = some n) (later : ChainEnds marks v n) : ChainEnds marks v c

variable {marks : UInt8 → Bool}

theorem ChainEnds.mono {marks' : UInt8 → Bool} (more : ∀ b, marks b = true → marks' b = true) {c : Nat}
    (ends : ChainEnds marks v c) : ChainEnds marks' v c := by
  induction ends with
  | outside out => exact .outside out
  | last none => exact .last none
  | next follows _ ih => exact .next follows ih
  | marked here =>
    apply ChainEnds.marked
    obtain ⟨s, member, here⟩ := List.any_eq_true.mp here
    refine List.any_eq_true.mpr ⟨s, member, ?_⟩
    split at here
    · rfl
    · obtain ⟨e, member, here⟩ := List.any_eq_true.mp here
      exact List.any_eq_true.mpr ⟨e, member, more _ here⟩

section
variable {σ ρ : Type} {marks : UInt8 → Bool} (step : σ → Step σ ρ) (place : σ → Nat)

theorem walk_ends (goes : ∀ s s', step s = .again s' → clusValid v (place s) = true ∧ markedHere marks v (place s) = false ∧
    place s' = (chainNext v (place s)).getD 0) (ends : ChainEnds marks v c) (s : σ) (here : place s = c) :
    Ends fun fuel => loop step fuel s := by
  induction ends generalizing s with
  | @outside c out =>
    cases round : step s with
    | done r => exact .done round
    | again s' =>
      have valid := (goes s s' round).1
      rw [here, out] at valid
      cases valid
  | @marked c mark =>
    cases round : step s with
    | done r => exact .done round
    | again s' =>
      have free := (goes s s' round).2.1
      rw [here, mark] at free
      cases free
  | @last c none =>
    cases round : step s with
    | done r => exact .done round
    | again s' =>
      -- the source goes on with cluster 0, which is not valid
      have zero := (goes s s' round).2.2
      rw [here, none] at zero
      refine .again round ?_
      cases after : step s' with
      | done r => exact .done after
      | again s'' =>
        have valid := (goes s' s'' after).1
        rw [zero] at valid
        cases valid
  | @next c n follows _ ih =>
    cases round : step s with
    | done r => exact .done round
    | again s' =>
      have there := (goes s s' round).2.2
      rw [here, follows] at there
      exact .again round (ih s' there)

theorem walk_of_ends (goes : ∀ s n, clusValid v (place s) = true → markedHere marks v (place s) = false →
    chainNext v (place s) = some n → ∃ s', step s = .again s' ∧ place s' = n) (s : σ) (ends : Ends fun fuel => loop step fuel s) :
    ChainEnds marks v (place s) := by
  obtain ⟨fuel, left⟩ := ends_loop_iff.mp ends
  clear ends
  induction fuel generalizing s with
  | zero => cases left
  | succ fuel ih =>
    cases valid : clusValid v (place s) with
    | false => exact .outside valid
    | true =>
      cases mark : markedHere marks v (place s) with
      | true => exact .marked mark
      | false =>
        cases follows : chainNext v (place s) with
        | none => exact .last follows
        | some n =>
          obtain ⟨s', round, there⟩ := goes s n valid mark follows
          rw [loop_again round] at left
          exact .next follows (there ▸ ih s' left)

end

theorem scan_marked {α : Type} {look : Nat → Bytes → Option α} {unread : α}
    (settles : ∀ off ent, marks (ent 0) = true → (look off ent).isSome) (none : scanCluster v c look unread = none) :
    markedHere marks v c = false := by
  rw [← Bool.not_eq_true]
  intro here
  obtain ⟨s, member, here⟩ := List.any_eq_true.mp here
  have nothing := List.findSome?_eq_none_iff.mp none s member
  split at here
  next unread =>
    rw [unread] at nothing
    cases nothing
  next sec there =>
    rw [there] at nothing
    obtain ⟨e, member, here⟩ := List.any_eq_true.mp here
    have nothing := List.findSome?_eq_none_iff.mp nothing e member
    have settled := settles (s * secsz + e * 32) (sec.drop (e * 32)) here
    rw [nothing] at settled
    cases settled

theorem scan_unmarked {α : Type} {look : Nat → Bytes → Option α} (unread : α)
    (only : ∀ off ent, marks (ent 0) = false → look off ent = none) (free : markedHere marks v c = false) :
    scanCluster v c look unread = none := by
  refine List.findSome?_eq_none_iff.mpr fun s member => ?_
  have nothing := List.any_eq_false.mp free s member
  split
  next unread =>
    rw [unread] at nothing
    exact absurd rfl nothing
  next sec there =>
    rw [there] at nothing
    refine List.findSome?_eq_none_iff.mpr fun e member => only _ _ ?_
    have unmarked := List.any_eq_false.mp (Bool.not_eq_true _ ▸ nothing) e member
    simpa [Bytes.drop] using unmarked

theorem find_ends (name : Bytes) (ends : ChainEnds endMark v c) : Ends fun fuel => dirFind v fuel c name := by
  refine walk_ends (findStep v name) id ?_ ends c rfl
  intro c c' round
  unfold findStep at round
  split at round
  · cases round
  next valid =>
    split at round
    · cases round
    next none =>
      split at round
      next n follows =>
        cases round
        refine ⟨by simpa using valid, scan_marked ?_ none, by simp [follows]⟩
        intro off ent mark
        have last : ent 0 = dentEnd := by simpa [endMark] using mark
        rw [lookFind, if_pos last]
        rfl
      · cases round

theorem lookSlot_settles (c off : Nat) (ent : Bytes) (mark : roomMark (ent 0) = true) : (lookSlot c off ent).isSome := by
  have room : ent 0 = dentEnd ∨ ent 0 = dentFree := by simpa [roomMark] using mark
  rw [lookSlot, if_pos room]
  rfl

theorem lookSlot_only (c off : Nat) (ent : Bytes) (free : roomMark (ent 0) = false) : lookSlot c off ent = none := by
  rw [lookSlot, if_neg]
  simpa [roomMark] using free

theorem slot_loop_iff (v : Volume) (c last : Nat) : (Ends fun fuel => loop (slotStep v) fuel (c, last)) ↔ ChainEnds roomMark v c := by
  constructor
  · refine walk_of_ends (slotStep v) Prod.fst ?_ (c, last)
    rintro ⟨c, last⟩ n valid free follows
    have none := scan_unmarked Slot.unreadable (lookSlot_only c) free
    exact ⟨(n, c), by simp only [slotStep, valid, none, follows]; rfl, rfl⟩
  · intro ends
    refine walk_ends (slotStep v) Prod.fst ?_ ends (c, last) rfl
    rintro ⟨c, last⟩ s' round
    unfold slotStep at round
    dsimp only at round
    split at round
    · cases round
    next valid =>
      split at round
      · cases round
      next none =>
        split at round
        next n follows =>
          cases round
          exact ⟨by simpa using valid, scan_marked (lookSlot_settles c) none, by simp [follows]⟩
        · cases round

theorem slot_ends_iff (v : Volume) (dir : Nat) : (Ends fun fuel => dirAllocSlot v fuel dir) ↔ ChainEnds roomMark v dir := by
  rw [← slot_loop_iff v dir dir]
  constructor
  · rintro ⟨r, n, reached⟩
    have whole := reached n (Nat.le_refl n)
    refine ends_loop_iff.mpr ⟨n, ?_⟩
    cases left : loop (slotStep v) n (dir, dir) with
    | some slot => rfl
    | none =>
      simp only [dirAllocSlot, left] at whole
      cases whole
  · intro ends
    exact ends.bind fun _ _ => .of_some _

theorem listEntries_over (sec : Bytes) (entries : List Nat) :
    (listEntries sec entries).2 = entries.any fun e => endMark (sec (e * 32)) := by
  induction entries with
  | nil => rfl
  | cons e rest ih =>
    rw [listEntries, any_cons, ← ih]
    dsimp only
    split
    next last =>
      have marked : endMark (sec (e * 32)) = true := beq_iff_eq.mpr last
      rw [marked]
      rfl
    next more =>
      have unmarked : endMark (sec (e * 32)) = false := beq_eq_false_iff_ne.mpr more
      rw [unmarked, Bool.false_or]
      split <;> rfl

theorem listSectors_over (v : Volume) (c : Nat) (sectors : List Nat) :
    (listSectors v c sectors).2.isSome = sectors.any fun s =>
      match secRead v (clusLba v c + s) with
      | none => true
      | some sec => (List.range perSector).any fun e => endMark (sec (e * 32)) := by
  induction sectors with
  | nil => rfl
  | cons s rest ih =>
    rw [listSectors, any_cons, ← ih]
    cases there : secRead v (clusLba v c + s) with
    | none => rfl
    | some sec =>
      dsimp only
      rw [← listEntries_over]
      cases listed : listEntries sec (List.range perSector) with
      | mk here excess => cases excess <;> rfl

theorem list_loop_iff (v : Volume) (c : Nat) (seen : List Child) :
    (Ends fun fuel => loop (listStep v) fuel (c, seen)) ↔ ChainEnds endMark v c := by
  have excess (c : Nat) : (listSectors v c (List.range v.geo.secPerClus)).2.isSome = markedHere endMark v c := listSectors_over v c _
  constructor
  · refine walk_of_ends (listStep v) Prod.fst ?_ (c, seen)
    rintro ⟨c, seen⟩ n valid free follows
    have excess := (excess c).trans free
    cases listed : listSectors v c (List.range v.geo.secPerClus) with
    | mk here result =>
      rw [listed] at excess
      cases result with
      | some ok => cases excess
      | none => exact ⟨(n, seen ++ here), by simp only [listStep, valid, listed, follows]; rfl, rfl⟩
  · intro ends
    refine walk_ends (listStep v) Prod.fst ?_ ends (c, seen) rfl
    rintro ⟨c, seen⟩ s' round
    unfold listStep at round
    dsimp only at round
    split at round
    · cases round
    next valid =>
      split at round
      · cases round
      next here listed =>
        cases round
        refine ⟨by simpa using valid, ?_, rfl⟩
        rw [← excess c, listed]
        rfl

/-- A component as a path has them. -/
structure GoodName (name : List UInt8) : Prop where
  some : name ≠ []
  short : name.length ≤ 63
  plain : slash ∉ name

theorem pieces_good {n : Nat} {name piece : List UInt8} (plain : slash ∉ name) (member : piece ∈ pieces n name) : GoodName piece := by
  induction n generalizing name with
  | zero => cases name <;> cases member
  | succ n ih =>
    cases name with
    | nil => cases member
    | cons b rest =>
      rcases mem_cons.mp member with rfl | member
      · exact ⟨by simp, by simp [length_take], fun inside => plain (mem_of_mem_take inside)⟩
      · exact ih (fun inside => plain (mem_of_mem_drop inside)) member

theorem pieces_of_good {name : List UInt8} (good : GoodName name) : pieces name.length name = [name] := by
  obtain ⟨b, rest, rfl⟩ := exists_cons_of_ne_nil good.some
  rw [length_cons, pieces, take_of_length_le good.short, drop_of_length_le good.short]
  · cases rest.length <;> rfl
  · exact fun impossible => by cases impossible

theorem splitOn_plain {path name : List UInt8} (member : name ∈ path.splitOn slash) : slash ∉ name := by
  induction path generalizing name with
  | nil =>
    rw [splitOn_nil, mem_singleton] at member
    simp [member]
  | cons b rest ih =>
    rw [splitOn_cons_eq_if_modifyHead] at member
    split at member
    · rcases mem_cons.mp member with rfl | member
      · exact not_mem_nil
      · exact ih member
    next other =>
      obtain ⟨head, tail, all⟩ := exists_cons_of_ne_nil (splitOn_ne_nil slash rest)
      rw [all] at member ih
      rcases mem_cons.mp member with rfl | member
      · intro inside
        rcases mem_cons.mp inside with rfl | inside
        · exact other (beq_self_eq_true _)
        · exact ih mem_cons_self inside
      · exact ih (mem_cons_of_mem _ member)

theorem components_good {path name : List UInt8} (member : name ∈ components path) : GoodName name := by
  obtain ⟨whole, inside, member⟩ := List.mem_flatMap.mp member
  exact pieces_good (splitOn_plain inside) member

theorem components_join {names : List (List UInt8)} (good : ∀ name ∈ names, GoodName name) :
    components ([slash].intercalate names) = names := by
  by_cases empty : names = []
  · subst empty
    rfl
  · unfold components
    rw [splitOn_intercalate slash (fun name member => (good name member).plain) empty]
    clear empty
    induction names with
    | nil => rfl
    | cons first rest ih =>
      rw [flatMap_cons, pieces_of_good (good first mem_cons_self),
        ih fun name member => good name (mem_cons_of_mem _ member)]
      rfl

/-- Every directory a path leads to is walked to an end. -/
def DirectoriesEnd (v : Volume) : Prop :=
  ∀ path found, Reaches (fun fuel => pathResolve v fuel path) (some found) → found.isDir = true → ChainEnds endMark v (found.dir v)

theorem dir_root (v : Volume) : (Found.root v).dir v = v.geo.rootClus := by
  unfold Found.dir Found.root
  split <;> rfl

theorem resolve_snoc {before : List (List UInt8)} {comp : List UInt8} {start : Nat} {found : Found} {loc : DentLoc}
    (root : before = [] → start = found.dir v)
    (reached : Reaches (fun fuel => resolveFrom v fuel start before) (some found)) (isDir : found.isDir = true)
    (there : Reaches (fun fuel => dirFind v fuel (found.dir v) (nameTo83 comp)) (some loc)) :
    Reaches (fun fuel => resolveFrom v fuel start (before ++ [comp])) (some (Found.entry loc)) := by
  induction before generalizing start with
  | nil =>
    rw [root rfl]
    exact there.bind (.of_some _)
  | cons first rest ih =>
    obtain ⟨entry, here, later⟩ := Reaches.of_loop_bind reached
    refine here.bind ?_
    cases entry with
    | none =>
      obtain ⟨n, failed⟩ := later
      cases failed n (Nat.le_refl n)
    | some entry =>
      dsimp only at later ⊢
      cases rest with
      | nil =>
        obtain ⟨n, last⟩ := later
        obtain rfl : Found.entry entry = found := Option.some.inj (Option.some.inj (last n (Nat.le_refl n)))
        simp only [isDir, Bool.not_true, Bool.false_eq_true, ↓reduceIte]
        exact there.bind (.of_some _)
      | cons second rest =>
        cases below : (Found.entry entry).isDir with
        | false =>
          obtain ⟨n, failed⟩ := later
          have failed := failed n (Nat.le_refl n)
          simp only [isEmpty_cons, below, Bool.not_false, Bool.false_eq_true, ↓reduceIte] at failed
          cases failed
        | true =>
          simp only [isEmpty_cons, below, Bool.not_true, Bool.false_eq_true, ↓reduceIte] at later
          simp only [Bool.not_true, Bool.false_eq_true, ↓reduceIte]
          exact ih (fun none => by cases none) later

theorem pathResolve_set {path : List UInt8} (set : ¬(components path = [] ∧ 2 ≤ path.length)) :
    (fun fuel => pathResolve v fuel path) = fun fuel => resolveFrom v fuel v.geo.rootClus (components path) :=
  funext fun _ => if_neg set

theorem resolve_ends_from (ends : DirectoriesEnd v) {before rest : List (List UInt8)} {found : Found}
    (good : ∀ name ∈ before ++ rest, GoodName name)
    (reached : Reaches (fun fuel => resolveFrom v fuel v.geo.rootClus before) (some found)) (isDir : found.isDir = true)
    (root : before = [] → v.geo.rootClus = found.dir v) : Ends fun fuel => resolveFrom v fuel (found.dir v) rest := by
  induction rest generalizing before found with
  | nil => exact .of_some _
  | cons comp rest ih =>
    have path : components ([slash].intercalate before) = before :=
      components_join fun name member => good name (mem_append_left _ member)
    have walked : ChainEnds endMark v (found.dir v) := by
      apply ends ([slash].intercalate before) found _ isDir
      have set : ¬(components ([slash].intercalate before) = [] ∧ 2 ≤ ([slash].intercalate before).length) := by
        rw [path]
        rintro ⟨rfl, long⟩
        exact absurd long (by decide)
      rw [← path] at reached
      exact pathResolve_set set ▸ reached
    refine (find_ends _ walked).bind fun r there => ?_
    cases r with
    | none => exact .of_some _
    | some loc =>
      dsimp only
      cases rest with
      | nil => exact .of_some _
      | cons second rest =>
        cases below : (Found.entry loc).isDir with
        | false =>
          simp only [isEmpty_cons, Bool.not_false, Bool.false_eq_true, ↓reduceIte]
          exact .of_some _
        | true =>
          simp only [isEmpty_cons, Bool.not_true, Bool.false_eq_true, ↓reduceIte]
          refine ih ?_ (resolve_snoc root reached isDir there) below (fun none => ?_)
          · rw [append_assoc]
            exact good
          · simp at none

theorem resolve_ends (ends : DirectoriesEnd v) (path : List UInt8) : Ends fun fuel => pathResolve v fuel path := by
  by_cases unset : components path = [] ∧ 2 ≤ path.length
  · have root : (fun fuel => pathResolve v fuel path) = fun _ => some (some { Found.root v with loc := some v.stack }) :=
      funext fun _ => if_pos unset
    rw [root]
    exact .of_some _
  rw [pathResolve_set unset]
  have start : Reaches (fun fuel => resolveFrom v fuel v.geo.rootClus []) (some (Found.root v)) := .of_some _
  have good : ∀ name ∈ [] ++ components path, GoodName name := fun name member => components_good member
  have whole := resolve_ends_from ends good start rfl (fun _ => (dir_root v).symm)
  rw [dir_root] at whole
  exact whole

end SecOS.Fat32
