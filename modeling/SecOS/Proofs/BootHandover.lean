import SecOS.PmmBoot
import SecOS.Proofs.PmmRun

/-! Boot hand-over. The range tables stay sorted and apart, and what `pmm_late_init` frees lies
between the two early cursors of a range. The arithmetic is exact for addresses of 52 bits. -/

namespace SecOS.Pmm
open Library Function List

theorem alignMask_pos {a : Nat} (some : 0 < a) (low : a ≤ 2 ^ 64) : alignMask a = 2 ^ 64 - 1 - (a - 1) := by
  unfold alignMask
  rw [show a + (2 ^ 64 - 1) = (a - 1) + 2 ^ 64 by omega, Nat.add_mod_right, Nat.mod_eq_of_lt (by omega)]

theorem alignDown_le (v a : Nat) : alignDown v a ≤ v := Nat.and_le_left

theorem alignUp_bounds {v a : Nat} (some : 0 < a) (fits : v + a ≤ 2 ^ 64) : v ≤ alignUp v a ∧ alignUp v a ≤ v + (a - 1) := by
  have sum : (v + a + (2 ^ 64 - 1)) % 2 ^ 64 = v + (a - 1) := by
    rw [show v + a + (2 ^ 64 - 1) = v + (a - 1) + 2 ^ 64 by omega, Nat.add_mod_right, Nat.mod_eq_of_lt (by omega)]
  unfold alignUp
  rw [sum, alignMask_pos some (by omega)]
  have split := mask_split (show v + (a - 1) < 2 ^ 64 by omega) (show a - 1 < 2 ^ 64 by omega)
  have dropped : (v + (a - 1)) &&& (a - 1) ≤ a - 1 := Nat.and_le_right
  omega

theorem alignDown_frame {v : Nat} (low : v < 2 ^ 64) : alignDown v frameSize = v / 4096 * 4096 := by
  unfold alignDown frameSize
  rw [alignMask_pos (by decide) (by decide)]
  have split := mask_split low (show 4096 - 1 < 2 ^ 64 by decide)
  have dropped : v &&& (4096 - 1) = v % 4096 := Nat.and_two_pow_sub_one_eq_mod v 12
  omega

theorem alignUp_frame {v : Nat} (low : v + 4096 ≤ 2 ^ 64) : alignUp v frameSize = (v + 4095) / 4096 * 4096 := by
  have sum : (v + 4096 + (2 ^ 64 - 1)) % 2 ^ 64 = v + 4095 := by omega
  unfold alignUp frameSize
  rw [sum, alignMask_pos (by decide) (by decide)]
  have split := mask_split (show v + 4095 < 2 ^ 64 by omega) (show 4096 - 1 < 2 ^ 64 by decide)
  have dropped : (v + 4095) &&& (4096 - 1) = (v + 4095) % 4096 := Nat.and_two_pow_sub_one_eq_mod _ 12
  omega

structure Tidy (list : List Range) : Prop where
  sorted : list.Pairwise fun a b => a.stop < b.start
  filled : ∀ r ∈ list, r.start < r.stop

def Range.Has (r : Range) (x : Nat) : Prop := r.start ≤ x ∧ x < r.stop

variable {rest : List Range}

theorem absorb_tidy : ∀ {grown : Range}, grown.start < grown.stop → Tidy rest → Tidy (absorb grown rest) := by
  induction rest with
  | nil => exact fun filled _ => ⟨pairwise_singleton .., by simpa [absorb] using filled⟩
  | cons r rest ih =>
    intro grown filled tidy
    obtain ⟨first, later⟩ := pairwise_cons.mp tidy.sorted
    have tail : Tidy rest := ⟨later, fun q member => tidy.filled q (mem_cons_of_mem _ member)⟩
    rw [absorb]
    split
    · exact ih (Nat.lt_of_lt_of_le filled (Nat.le_max_left ..)) tail
    refine ⟨pairwise_cons.mpr ⟨fun q member => ?_, tidy.sorted⟩, fun q member => ?_⟩
    · have own := tidy.filled r mem_cons_self
      rcases mem_cons.mp member with rfl | member
      · omega
      · have := first q member
        omega
    · rcases mem_cons.mp member with rfl | member
      · exact filled
      · exact tidy.filled q member

theorem absorb_mem : ∀ {grown q : Range}, q ∈ absorb grown rest →
    q ∈ rest ∨ q.start = grown.start ∧ (q.stop = grown.stop ∨ ∃ r ∈ rest, q.stop = r.stop) := by
  induction rest with
  | nil =>
    intro grown q member
    rw [mem_singleton.mp member]
    exact .inr ⟨rfl, .inl rfl⟩
  | cons r rest ih =>
    intro grown q member
    rw [absorb] at member
    split at member
    · rcases ih member with later | ⟨start, stop⟩
      · exact .inl (mem_cons_of_mem _ later)
      · refine .inr ⟨start, ?_⟩
        rcases stop with own | ⟨other, found, same⟩
        · rcases Nat.le_total grown.stop r.stop with longer | shorter
          · exact .inr ⟨r, mem_cons_self, own.trans (Nat.max_eq_right longer)⟩
          · exact .inl (own.trans (Nat.max_eq_left shorter))
        · exact .inr ⟨other, mem_cons_of_mem _ found, same⟩
    · rcases mem_cons.mp member with rfl | later
      · exact .inr ⟨rfl, .inl rfl⟩
      · exact .inl later

theorem absorb_union {x : Nat} : ∀ grown : Range, (∀ r ∈ rest, grown.start ≤ r.start) →
    ((∃ q ∈ absorb grown rest, q.Has x) ↔ grown.Has x ∨ ∃ r ∈ rest, r.Has x) := by
  induction rest with
  | nil => simp [absorb]
  | cons r rest ih =>
    intro grown above
    have here := above r mem_cons_self
    rw [absorb]
    split
    · have both : ({ grown with stop := max grown.stop r.stop } : Range).Has x ↔ grown.Has x ∨ r.Has x := by
        simp only [Range.Has]
        omega
      rw [ih { grown with stop := max grown.stop r.stop } fun q member => above q (mem_cons_of_mem _ member), both]
      simp [or_assoc]
    · simp

section
variable {list : List Range} {limit start stop : Nat}

/-- Nothing happens, the range is merged with what it touches, or it goes into a gap. -/
inductive Added (list : List Range) (start stop : Nat) : List Range → Prop where
  | same : Added list start stop list
  | merged {before rest : List Range} {r : Range} (whole : list = before ++ r :: rest) (filled : start < stop)
      (early : ∀ q ∈ before, q.stop < start) (after : start ≤ r.stop) (touching : r.start ≤ stop) :
      Added list start stop (before ++ absorb ⟨min start r.start, max stop r.stop⟩ rest)
  | inserted {before after : List Range} (whole : list = before ++ after) (filled : start < stop)
      (early : ∀ q ∈ before, q.stop < start) (late : ∀ r ∈ after.head?, stop < r.start) :
      Added list start stop (before ++ ⟨start, stop⟩ :: after)

theorem rangeAdd_added : Added list start stop (rangeAdd list limit start stop) := by
  have whole := (takeWhile_append_dropWhile (p := fun r : Range => decide (r.stop < start)) (l := list)).symm
  have early : ∀ r ∈ list.takeWhile (fun r => decide (r.stop < start)), r.stop < start :=
    fun r member => by simpa using mem_takeWhile_imp member
  unfold rangeAdd
  split
  · exact .same
  next filled =>
    have filled : start < stop := Nat.lt_of_not_le filled
    simp only
    split
    next nothing =>
      rw [nothing, append_nil] at whole
      split
      · exact .same
      · have found : Added list start stop (list ++ ⟨start, stop⟩ :: []) :=
          .inserted (append_nil list).symm filled (whole ▸ early) nofun
        exact found
    next r rest found =>
      have after : start ≤ r.stop := by
        have stays : list.dropWhile (fun r => decide (r.stop < start)) ≠ [] := by rw [found]; nofun
        have head := head_dropWhile_not (fun r : Range => decide (r.stop < start)) stays
        simp only [found, head_cons, decide_eq_false_iff_not] at head
        omega
      rw [found] at whole
      split
      next touching => exact .merged whole filled early after touching
      split
      · exact .same
      · refine .inserted whole filled early fun q member => ?_
        cases member
        omega

theorem Tidy.append {first last : List Range} (left : Tidy first) (right : Tidy last) (apart : ∀ a ∈ first, ∀ b ∈ last, a.stop < b.start) :
    Tidy (first ++ last) := by
  refine ⟨pairwise_append.mpr ⟨left.sorted, right.sorted, apart⟩, fun r member => ?_⟩
  rcases mem_append.mp member with early | late
  · exact left.filled r early
  · exact right.filled r late

theorem Tidy.split {first last : List Range} (tidy : Tidy (first ++ last)) :
    Tidy first ∧ Tidy last ∧ ∀ a ∈ first, ∀ b ∈ last, a.stop < b.start := by
  obtain ⟨left, right, apart⟩ := pairwise_append.mp tidy.sorted
  refine ⟨⟨left, fun r member => tidy.filled r ?_⟩, ⟨right, fun r member => tidy.filled r ?_⟩, apart⟩
  · exact mem_append_left _ member
  · exact mem_append_right _ member

variable {result : List Range}

section
variable (added : Added list start stop result)
include added

theorem Added.tidy (tidy : Tidy list) : Tidy result := by
  cases added with
  | same => exact tidy
  | @merged before rest r whole filled early after touching =>
    subst whole
    obtain ⟨left, right, apart⟩ := tidy.split
    have pair : Tidy ([r] ++ rest) := right
    obtain ⟨_, tail, _⟩ := pair.split
    have own := right.filled r mem_cons_self
    refine left.append (absorb_tidy ?_ tail) fun a inside b member => ?_
    · simp only
      omega
    · have low := early a inside
      rcases absorb_mem member with later | ⟨same, _⟩
      · exact apart a inside b (mem_cons_of_mem _ later)
      · have next := apart a inside r mem_cons_self
        simp only at same
        omega
  | @inserted before after whole filled early late =>
    subst whole
    obtain ⟨left, right, apart⟩ := tidy.split
    have gap : ∀ q ∈ after, stop < q.start := by
      cases after with
      | nil => exact nofun
      | cons r rest =>
        have first := late r rfl
        have own := right.filled r mem_cons_self
        intro q member
        rcases mem_cons.mp member with rfl | member
        · exact first
        · have := (pairwise_cons.mp right.sorted).1 q member
          omega
    have new : Tidy (⟨start, stop⟩ :: after) := by
      refine ⟨pairwise_cons.mpr ⟨gap, right.sorted⟩, fun q member => ?_⟩
      rcases mem_cons.mp member with rfl | member
      · exact filled
      · exact right.filled q member
    refine left.append new fun a inside b member => ?_
    rcases mem_cons.mp member with rfl | member
    · exact early a inside
    · exact apart a inside b member

theorem Added.ends {P : Nat → Prop} {q : Range} (old : ∀ r ∈ list, P r.start ∧ P r.stop)
    (new : P start ∧ P stop) (member : q ∈ result) : P q.start ∧ P q.stop := by
  have least : ∀ a b, P a → P b → P (min a b) := fun a b left right => by
    rcases Nat.le_total a b with low | low <;> simpa [low] using by assumption
  have most : ∀ a b, P a → P b → P (max a b) := fun a b left right => by
    rcases Nat.le_total a b with low | low <;> simpa [low] using by assumption
  cases added with
  | same => exact old q member
  | @merged before rest r whole filled early after touching =>
    subst whole
    have own := old r (mem_append_cons_self)
    have later : ∀ o ∈ rest, P o.start ∧ P o.stop := fun o found => old o (mem_append_right _ (mem_cons_of_mem _ found))
    rcases mem_append.mp member with left | right
    · exact old q (mem_append_left _ left)
    · rcases absorb_mem right with found | ⟨low, high⟩
      · exact later q found
      · refine ⟨low ▸ least _ _ new.1 own.1, ?_⟩
        rcases high with same | ⟨o, found, same⟩
        · exact same ▸ most _ _ new.2 own.2
        · exact same ▸ (later o found).2
  | @inserted before after whole filled early late =>
    subst whole
    rcases mem_append.mp member with left | right
    · exact old q (mem_append_left _ left)
    · rcases mem_cons.mp right with rfl | right
      · exact new
      · exact old q (mem_append_right _ right)

end

/-- The branch that warns: no room for a range that touches nothing. -/
def dropped (list : List Range) (limit start stop : Nat) : Bool :=
  start < stop ∧ limit ≤ list.length ∧ (list.dropWhile (·.stop < start)).head?.all (stop < ·.start)

theorem rangeAdd_union {x : Nat} (tidy : Tidy list) : (∃ q ∈ rangeAdd list limit start stop, q.Has x) ↔
    (∃ r ∈ list, r.Has x) ∨ (start ≤ x ∧ x < stop) ∧ dropped list limit start stop = false := by
  unfold rangeAdd
  split
  · rw [or_iff_left (by omega)]
  next filled =>
    have whole := takeWhile_append_dropWhile (p := fun r : Range => decide (r.stop < start)) (l := list)
    dsimp only
    split
    next none =>
      split
      next full => simp [dropped, none, full, Nat.lt_of_not_le filled]
      next room => simp [dropped, room, or_and_right, exists_or, Range.Has]
    next r rest found =>
      rw [found] at whole
      obtain ⟨_, right, _⟩ := (whole ▸ tidy).split
      have own := right.filled r mem_cons_self
      have old : (∃ q ∈ list, q.Has x) ↔
          (∃ q ∈ list.takeWhile (·.stop < start), q.Has x) ∨ r.Has x ∨ ∃ q ∈ rest, q.Has x := by
        conv_lhs => rw [← whole]
        simp [or_and_right, exists_or]
      split
      next touching =>
        have above : ∀ q ∈ rest, min start r.start ≤ q.start := fun q member => by
          have := (pairwise_cons.mp right.sorted).1 q member
          omega
        have after : start ≤ r.stop := by
          have head := head?_dropWhile_not (fun r : Range => decide (r.stop < start)) list
          simpa [found] using head
        have both : (⟨min start r.start, max stop r.stop⟩ : Range).Has x ↔ r.Has x ∨ start ≤ x ∧ x < stop := by
          simp only [Range.Has]
          omega
        have kept : dropped list limit start stop = false := by simp [dropped, found, touching]
        simp only [mem_append, or_and_right, exists_or, absorb_union ⟨min start r.start, max stop r.stop⟩ above, both, old, kept, and_true]
        exact (or_congr_right or_right_comm).trans or_assoc.symm
      next apart =>
        split
        next full => simp [dropped, found, full]; omega
        next room =>
          have kept : dropped list limit start stop = false := by simp [dropped, room]
          simp only [old, kept, and_true, mem_append, mem_cons, or_and_right, exists_or, exists_eq_left]
          rw [or_comm (b := start ≤ x ∧ x < stop), or_left_comm]
          rfl

end

def insertAll (limit : Nat) (list ranges : List Range) : List Range := ranges.foldl (fun list r => rangeAdd list limit r.start r.stop) list

/-- No insertion overflows the list. -/
def fits (limit : Nat) : List Range → List Range → Bool
  | _, [] => true
  | list, r :: rest => !dropped list limit r.start r.stop && fits limit (rangeAdd list limit r.start r.stop) rest

theorem insertAll_union {limit : Nat} {list ranges : List Range} (tidy : Tidy list) (kept : fits limit list ranges = true) :
    Tidy (insertAll limit list ranges) ∧
      ∀ x, (∃ q ∈ insertAll limit list ranges, q.Has x) ↔ (∃ r ∈ list, r.Has x) ∨ ∃ r ∈ ranges, r.Has x := by
  induction ranges generalizing list with
  | nil => exact ⟨tidy, fun x => by simp [insertAll]⟩
  | cons r rest ih =>
    rw [fits, Bool.and_eq_true, Bool.not_eq_true'] at kept
    obtain ⟨after, union⟩ := ih (rangeAdd_added.tidy tidy) kept.2
    refine ⟨after, fun x => (union x).trans ?_⟩
    rw [rangeAdd_union tidy, or_assoc, and_iff_left kept.1]
    simp [Range.Has]

theorem insertions_union (limit : Nat) (ranges : List Range) (kept : fits limit [] ranges = true) :
    Tidy (insertAll limit [] ranges) ∧ ∀ x, (∃ q ∈ insertAll limit [] ranges, q.Has x) ↔ ∃ r ∈ ranges, r.Has x := by
  have empty : Tidy [] := ⟨.nil, fun _ member => absurd member not_mem_nil⟩
  simpa using insertAll_union empty kept

/-- The third range joins the first two in a table of two. -/
theorem bridge_union : Tidy (insertAll 2 [] [⟨1, 3⟩, ⟨5, 7⟩, ⟨2, 6⟩]) :=
  (insertions_union 2 [⟨1, 3⟩, ⟨5, 7⟩, ⟨2, 6⟩] (by decide)).1

def Entry.stop : Entry → Nat
  | .usable addr len | .reserved addr len => addr + len

def Entry.isReserved : Entry → Bool
  | .usable _ _ => false
  | .reserved _ _ => true

def Usable (map : List Entry) (f : Nat) : Prop := ∃ addr len, Entry.usable addr len ∈ map ∧ addr ≤ f * 4096 ∧ (f + 1) * 4096 ≤ addr + len

def Range.Meets (r : Range) (f : Nat) : Prop := ∃ byte, r.start ≤ byte ∧ byte < r.stop ∧ byte / 4096 = f

def Framed (x : Nat) : Prop := x % 4096 = 0 ∧ x ≤ 2 ^ 52

/-- The tables after a part of the map. -/
structure Mapped (state : State) (map : List Entry) : Prop where
  tidy : Tidy state.avail
  framed : ∀ r ∈ state.avail, Framed r.start ∧ Framed r.stop
  usable : ∀ r ∈ state.avail, ∀ f, r.Has (f * 4096) → Usable map f
  reserved : ∀ addr len, Entry.reserved addr len ∈ map → len ≠ 0 →
    (⟨addr / 4096 * 4096, (addr + len + 4095) / 4096 * 4096⟩ : Range) ∈ state.resv
  room : state.resv.length ≤ (map.filter Entry.isReserved).length
  low : ∀ r ∈ state.resv, r.stop ≤ 2 ^ 52
  late : state.sectioned = false ∧ state.sec = fun _ => none

section
variable {state : State} {map : List Entry} {f : Nat}

theorem Usable.more {rest : List Entry} (usable : Usable map f) : Usable (map ++ rest) f := by
  obtain ⟨addr, len, member, inside⟩ := usable
  exact ⟨addr, len, mem_append_left _ member, inside⟩

section
variable {addr len : Nat} (mapped : Mapped state map) (low : addr + len ≤ 2 ^ 52)
include mapped low

theorem addAvail_mapped :
    Mapped (addAvail state addr len) (map ++ [.usable addr len]) := by
  have reserved : ∀ a l, Entry.reserved a l ∈ map ++ [.usable addr len] → l ≠ 0 →
      (⟨a / 4096 * 4096, (a + l + 4095) / 4096 * 4096⟩ : Range) ∈ state.resv := by
    intro a l member
    rcases mem_append.mp member with before | new
    · exact mapped.reserved a l before
    · exact nomatch mem_singleton.mp new
  have room : state.resv.length ≤ ((map ++ [Entry.usable addr len]).filter Entry.isReserved).length := by
    rw [filter_append]
    exact Nat.le_trans mapped.room (by rw [length_append]; exact Nat.le_add_right ..)
  have same : Mapped state (map ++ [.usable addr len]) :=
    ⟨mapped.tidy, mapped.framed, fun r member f has => (mapped.usable r member f has).more, reserved, room, mapped.low, mapped.late⟩
  have whole : (addr + len) % 2 ^ 64 = addr + len := Nat.mod_eq_of_lt (by omega)
  have up : alignUp addr frameSize = (addr + 4095) / 4096 * 4096 := alignUp_frame (by omega)
  have down : alignDown (addr + len) frameSize = (addr + len) / 4096 * 4096 := alignDown_frame (by omega)
  unfold addAvail
  split
  · exact same
  rw [whole, up, down]
  simp only
  split
  · exact same
  have added : Added state.avail ((addr + 4095) / 4096 * 4096) ((addr + len) / 4096 * 4096)
      (rangeAdd state.avail maxRanges ((addr + 4095) / 4096 * 4096) ((addr + len) / 4096 * 4096)) := rangeAdd_added
  refine ⟨added.tidy mapped.tidy, fun r => added.ends mapped.framed ?_, fun r member f has => ?_, reserved, room, mapped.low, mapped.late⟩
  · unfold Framed
    omega
  · rcases (rangeAdd_union mapped.tidy).mp ⟨r, member, has⟩ with ⟨old, found, inside⟩ | ⟨new, _⟩
    · exact (mapped.usable old found f inside).more
    · refine ⟨addr, len, mem_append_cons_self, ?_⟩
      omega

theorem reserve_mapped (few : (map.filter Entry.isReserved).length < maxReserved) : Mapped (reserve state addr len) (map ++ [.reserved addr len]) := by
  have usable : ∀ r ∈ state.avail, ∀ f, r.Has (f * 4096) → Usable (map ++ [.reserved addr len]) f :=
    fun r member f has => (mapped.usable r member f has).more
  have counted : ((map ++ [Entry.reserved addr len]).filter Entry.isReserved).length = (map.filter Entry.isReserved).length + 1 := by
    rw [filter_append, length_append]
    rfl
  have whole : (addr + len) % 2 ^ 64 = addr + len := Nat.mod_eq_of_lt (by omega)
  have up : alignUp (addr + len) frameSize = (addr + len + 4095) / 4096 * 4096 := alignUp_frame (by omega)
  have down : alignDown addr frameSize = addr / 4096 * 4096 := alignDown_frame (by omega)
  unfold reserve
  split
  next empty =>
    refine ⟨mapped.tidy, mapped.framed, usable, fun a l member filled => ?_, ?_, mapped.low, mapped.late⟩
    · rcases mem_append.mp member with before | new
      · exact mapped.reserved a l before filled
      · cases mem_singleton.mp new
        exact absurd empty filled
    · rw [counted]
      exact Nat.le_succ_of_le mapped.room
  · rw [whole, up, down]
    split
    · have := mapped.room
      omega
    refine ⟨mapped.tidy, mapped.framed, usable, fun a l member filled => ?_, ?_, fun r member => ?_, mapped.late⟩
    · rcases mem_append.mp member with before | new
      · exact mem_append_left _ (mapped.reserved a l before filled)
      · cases mem_singleton.mp new
        exact mem_append_cons_self
    · rw [counted, length_append]
      exact Nat.add_le_add_right mapped.room 1
    · rcases mem_append.mp member with before | new
      · exact mapped.low r before
      · cases mem_singleton.mp new
        simp only
        omega

end

theorem blank_mapped : Mapped blank [] := ⟨⟨.nil, nofun⟩, nofun, nofun, nofun, Nat.le_refl _, nofun, rfl, rfl⟩

/-- Every entry of a map whose addresses have at most 52 bits goes into the tables. -/
theorem addEntry_mapped (rest : List Entry) : ∀ {state : State} {done : List Entry}, Mapped state done → (∀ e ∈ rest, e.stop ≤ 2 ^ 52) →
    ((done ++ rest).filter Entry.isReserved).length < maxReserved → Mapped (rest.foldl addEntry state) (done ++ rest) := by
  induction rest with
  | nil =>
    intro state done mapped _ _
    rw [append_nil]
    exact mapped
  | cons e rest ih =>
    intro state done mapped low few
    have next : Mapped (addEntry state e) (done ++ [e]) := by
      cases e with
      | usable addr len => exact addAvail_mapped mapped (low _ mem_cons_self)
      | reserved addr len =>
        refine reserve_mapped mapped (low _ mem_cons_self) (Nat.lt_of_le_of_lt ?_ few)
        rw [filter_append, length_append]
        exact Nat.le_add_right ..
    rw [append_cons] at few ⊢
    exact ih next (fun e member => low e (mem_cons_of_mem _ member)) few

end
def Apart (a b : Range) : Prop := a.stop ≤ b.start ∨ b.stop ≤ a.start

/-- Every early allocation is below the lower or above the upper cursor of its range. -/
structure Cursors (state : State) (taken : List Range) : Prop where
  ordered : ∀ i r, state.avail[i]? = some r → r.start ≤ state.earlyCur i ∧ state.earlyCur i ≤ state.earlyTop i ∧ state.earlyTop i ≤ r.stop
  within : ∀ t ∈ taken, ∃ i r, state.avail[i]? = some r ∧ r.start ≤ t.start ∧ t.start ≤ t.stop ∧ t.stop ≤ r.stop ∧
    (t.stop ≤ state.earlyCur i ∨ state.earlyTop i ≤ t.start)
  apart : taken.Pairwise Apart

theorem Tidy.ranges_apart {list : List Range} {i j : Nat} {r q : Range} (tidy : Tidy list) (first : list[i]? = some r)
    (second : list[j]? = some q) (different : i ≠ j) : r.stop < q.start ∨ q.stop < r.start := by
  obtain ⟨inside, rfl⟩ := List.getElem?_eq_some_iff.mp first
  obtain ⟨inside', rfl⟩ := List.getElem?_eq_some_iff.mp second
  have sorted := List.pairwise_iff_getElem.mp tidy.sorted
  rcases Nat.lt_or_gt_of_ne different with before | after
  · exact .inl (sorted i j inside inside' before)
  · exact .inr (sorted j i inside' inside after)

section
variable {state state' : State} {taken : List Range} {i p size : Nat}

theorem Cursors.take {r : Range} (cursors : Cursors state taken) (tidy : Tidy state.avail) (found : state.avail[i]? = some r)
    (below : state.earlyCur i ≤ p) (above : p + size ≤ state.earlyTop i) (avail : state'.avail = state.avail)
    (others : ∀ j, j ≠ i → state'.earlyCur j = state.earlyCur j ∧ state'.earlyTop j = state.earlyTop j)
    (moved : state'.earlyCur i = p + size ∧ state'.earlyTop i = state.earlyTop i ∨
      state'.earlyCur i = state.earlyCur i ∧ state'.earlyTop i = p) : Cursors state' (place p size ++ taken) := by
  obtain ⟨start, middle, stop⟩ := cursors.ordered i r found
  have kept : ∀ t ∈ taken, ∃ j q, state'.avail[j]? = some q ∧ q.start ≤ t.start ∧ t.start ≤ t.stop ∧ t.stop ≤ q.stop ∧
      (t.stop ≤ state'.earlyCur j ∨ state'.earlyTop j ≤ t.start) := by
    intro t member
    obtain ⟨j, q, listed, low, own, high, side⟩ := cursors.within t member
    refine ⟨j, q, avail ▸ listed, low, own, high, ?_⟩
    by_cases here : j = i
    · subst here
      rcases moved with ⟨cur, top⟩ | ⟨cur, top⟩
      · rw [cur, top]
        omega
      · rw [cur, top]
        omega
    · rw [(others j here).1, (others j here).2]
      exact side
  have new : ∀ t ∈ taken, Apart ⟨p, p + size⟩ t := by
    intro t member
    obtain ⟨j, q, listed, low, own, high, side⟩ := cursors.within t member
    unfold Apart
    simp only
    by_cases here : i = j
    · subst here
      omega
    · have := tidy.ranges_apart found listed here
      omega
  refine ⟨fun j q listed => ?_, fun t member => ?_, ?_⟩
  · rw [avail] at listed
    by_cases here : j = i
    · subst here
      obtain rfl := Option.some.inj (found.symm.trans listed)
      rcases moved with ⟨cur, top⟩ | ⟨cur, top⟩
      · rw [cur, top]
        omega
      · rw [cur, top]
        omega
    · rw [(others j here).1, (others j here).2]
      exact cursors.ordered j q listed
  · rcases mem_append.mp member with mine | old
    · unfold place at mine
      split at mine
      · exact nomatch mine
      rw [mem_singleton.mp mine]
      refine ⟨i, r, avail ▸ found, Nat.le_trans start below, Nat.le_add_right .., Nat.le_trans above stop, ?_⟩
      rcases moved with ⟨cur, _⟩ | ⟨_, top⟩
      · exact .inl (Nat.le_of_eq cur.symm)
      · exact .inr (Nat.le_of_eq top)
    · exact kept t old
  · unfold place
    split
    · exact cursors.apart
    · exact pairwise_cons.mpr ⟨new, cursors.apart⟩

variable {align : Nat}

theorem earlyFit_spec {resv : List Range} {top limit bound : Nat} (some : 0 < align) (low : ∀ r ∈ resv, r.stop ≤ 2 ^ 52)
    (reach : 2 ^ 52 + align ≤ bound) (fits : bound + size ≤ 2 ^ 64) : ∀ {rounds cur : Nat}, cur < bound →
    earlyFit resv size align top limit rounds cur = Option.some p → cur ≤ p ∧ p + size ≤ top := by
  intro rounds
  induction rounds with
  | zero => exact fun _ found => nomatch found
  | succ rounds ih =>
    intro cur near found
    have whole : (cur + size) % 2 ^ 64 = cur + size := Nat.mod_eq_of_lt (by omega)
    rw [earlyFit, whole] at found
    split at found
    · exact nomatch found
    split at found
    · cases found
      exact ⟨le_rfl, by omega⟩
    next r overlap =>
      have member : r ∈ resv := mem_of_find?_eq_some overlap
      obtain ⟨_, after⟩ := resvOverlap_some overlap
      have stop := low r member
      obtain ⟨up, step⟩ := alignUp_bounds (v := r.stop) some (by omega)
      obtain ⟨beyond, room⟩ := ih (show alignUp r.stop align < bound by omega) found
      exact ⟨by omega, room⟩

/-- What an early allocation leaves alone. -/
structure Kept (state state' : State) : Prop where
  avail : state'.avail = state.avail
  resv : state'.resv = state.resv
  sectioned : state'.sectioned = state.sectioned
  sec : state'.sec = state.sec

/-- The tables of a map with addresses of at most 52 bits. -/
structure Bounded (state : State) : Prop where
  tidy : Tidy state.avail
  high : ∀ r ∈ state.avail, r.stop ≤ 2 ^ 52
  low : ∀ r ∈ state.resv, r.stop ≤ 2 ^ 52

theorem Bounded.kept (bounded : Bounded state) (kept : Kept state state') : Bounded state' :=
  ⟨kept.avail ▸ bounded.tidy, kept.avail ▸ bounded.high, kept.resv ▸ bounded.low⟩

theorem Kept.refl (state : State) : Kept state state := ⟨rfl, rfl, rfl, rfl⟩

theorem Kept.trans {last : State} (first : Kept state state') (second : Kept state' last) : Kept state last :=
  ⟨second.avail.trans first.avail, second.resv.trans first.resv, second.sectioned.trans first.sectioned, second.sec.trans first.sec⟩

structure Request.Sane (r : Request) : Prop where
  aligned : 0 < r.align
  align : r.align ≤ 2 ^ 62
  size : r.size ≤ 2 ^ 62

theorem earlySearch_spec {r : Request} {j : Nat} (bounded : Bounded state) (cursors : Cursors state taken) (sane : r.Sane)
    (inside : i < state.avail.length) (found : earlySearch state r.size r.align r.limit i = some (j, p)) :
    j = i ∧ state.earlyCur i ≤ p ∧ p + r.size ≤ state.earlyTop i := by
  obtain ⟨cur, fit, same⟩ := Option.map_eq_some_iff.mp found
  obtain ⟨rfl, rfl⟩ := Prod.mk.inj same
  obtain ⟨start, middle, stop⟩ := cursors.ordered i _ (getElem?_eq_getElem inside)
  have high := bounded.high _ (getElem_mem inside)
  have aligned := sane.aligned
  have align := sane.align
  have size := sane.size
  obtain ⟨up, near⟩ := alignUp_bounds (v := state.earlyCur i) aligned (by omega)
  have reach : alignUp (state.earlyCur i) r.align < 2 ^ 52 + r.align := by omega
  obtain ⟨after, room⟩ := earlyFit_spec aligned bounded.low le_rfl (by omega) reach fit
  exact ⟨rfl, Nat.le_trans up after, room⟩

theorem early_cursors {r : Request} (bounded : Bounded state) (cursors : Cursors state taken) (sane : r.Sane) :
    Kept state (early (state, taken) r).1 ∧ Cursors (early (state, taken) r).1 (early (state, taken) r).2 := by
  unfold early earlyAlloc
  split
  · exact ⟨.refl _, cursors⟩
  next j cur found =>
    obtain ⟨i, member, searched⟩ := exists_of_findSome?_eq_some found
    have inside : i < state.avail.length := List.mem_range.mp member
    obtain ⟨rfl, below, above⟩ := earlySearch_spec bounded cursors sane inside searched
    have listed : state.avail[j]? = some state.avail[j] := getElem?_eq_getElem inside
    have stop := (cursors.ordered j _ listed).2.2
    have high := bounded.high _ (getElem_mem inside)
    refine ⟨⟨rfl, rfl, rfl, rfl⟩, cursors.take bounded.tidy listed below above rfl (fun other here => ?_) (.inl ⟨?_, rfl⟩)⟩
    · exact ⟨update_of_ne here _ _, rfl⟩
    · exact (update_self ..).trans (Nat.mod_eq_of_lt (by omega))

theorem earlyFitTop_spec {resv : List Range} {cur start top : Nat} (found : earlyFitTop resv size align cur start top = some p) :
    cur ≤ p ∧ p + size ≤ top := by
  induction top using Nat.strongRecOn with
  | _ top ih =>
    rw [earlyFitTop] at found
    split at found
    · exact nomatch found
    have down := alignDown_le (top - size) align
    simp only at found
    split at found
    · exact nomatch found
    split at found
    · cases found
      omega
    next r overlap =>
      have before := (resvOverlap_some overlap).1
      obtain ⟨after, room⟩ := ih r.start (by omega) found
      omega

theorem earlyAllocTopFrom_cursors (tidy : Tidy state.avail) (cursors : Cursors state taken) (ranges : List Nat)
    (inside : ∀ i ∈ ranges, i < state.avail.length) :
    Kept state (earlyAllocTopFrom state size align ranges).1 ∧
      Cursors (earlyAllocTopFrom state size align ranges).1 (place (earlyAllocTopFrom state size align ranges).2 size ++ taken) := by
  induction ranges with
  | nil => exact ⟨.refl _, cursors⟩
  | cons i rest ih =>
    rw [earlyAllocTopFrom]
    split
    · exact ih fun j member => inside j (mem_cons_of_mem _ member)
    next s found =>
      have here := inside i mem_cons_self
      obtain ⟨after, room⟩ := earlyFitTop_spec found
      refine ⟨⟨rfl, rfl, rfl, rfl⟩, cursors.take tidy (getElem?_eq_getElem here) after room rfl (fun j other => ?_) (.inr ⟨rfl, ?_⟩)⟩
      · exact ⟨rfl, update_of_ne other _ _⟩
      · exact update_self ..

theorem earlyAllocTop_cursors (tidy : Tidy state.avail) (cursors : Cursors state taken) :
    Kept state (earlyAllocTop state size align).1 ∧
      Cursors (earlyAllocTop state size align).1 (place (earlyAllocTop state size align).2 size ++ taken) :=
  earlyAllocTopFrom_cursors tidy cursors _ fun _ member => List.mem_range.mp (mem_reverse.mp member)

theorem early_run (requests : List Request) : ∀ {state : State} {taken : List Range}, Bounded state → Cursors state taken →
    (∀ r ∈ requests, r.Sane) →
    Kept state (requests.foldl early (state, taken)).1 ∧
      Cursors (requests.foldl early (state, taken)).1 (requests.foldl early (state, taken)).2 := by
  induction requests with
  | nil => exact fun _ cursors _ => ⟨.refl _, cursors⟩
  | cons r rest ih =>
    intro state taken bounded cursors sane
    obtain ⟨kept, next⟩ := early_cursors bounded cursors (sane r mem_cons_self)
    obtain ⟨after, last⟩ := ih (bounded.kept kept) next fun q member => sane q (mem_cons_of_mem _ member)
    exact ⟨kept.trans after, last⟩

theorem describeSection_cursors (index : Nat) (tidy : Tidy state.avail) (cursors : Cursors state taken) :
    (describeSection state index).avail = state.avail ∧ (describeSection state index).resv = state.resv ∧
      Cursors (describeSection state index) (descriptorPlace state index ++ taken) := by
  unfold describeSection descriptorPlace
  cases state.sec index with
  | some s => exact ⟨rfl, rfl, cursors⟩
  | none =>
    have result : Kept state (earlyAllocTop state sectionBytes 64).1 ∧ _ := earlyAllocTop_cursors tidy cursors
    obtain ⟨kept, after⟩ := result
    generalize earlyAllocTop state sectionBytes 64 = placed at kept after
    obtain ⟨next, p⟩ := placed
    simp only at kept after ⊢
    split
    · exact ⟨kept.avail, kept.resv, after⟩
    · exact ⟨kept.avail, kept.resv, after.ordered, after.within, after.apart⟩

theorem describe_run (sections : List Nat) : ∀ {state : State} {taken : List Range}, Tidy state.avail → Cursors state taken →
    (sections.foldl describeSection state).avail = state.avail ∧ (sections.foldl describeSection state).resv = state.resv ∧
      Cursors (sections.foldl describeSection state) (descriptorPlaces state sections ++ taken) := by
  induction sections with
  | nil => exact fun _ cursors => ⟨rfl, rfl, cursors⟩
  | cons index rest ih =>
    intro state taken tidy cursors
    obtain ⟨avail, resv, next⟩ := describeSection_cursors index tidy cursors
    obtain ⟨avail', resv', last⟩ := ih (avail.symm ▸ tidy) next
    rw [descriptorPlaces, append_assoc]
    exact ⟨avail'.trans avail, resv'.trans resv, last⟩

theorem describeAll_eq (state : State) (bytes : Nat) : describeAll state bytes =
    (state.avail.flatMap rangeSections).foldl describeSection { state with sec := fun _ => none, metaBytes := bytes } := by
  rw [foldl_flatMap]
  rfl

theorem framesMark_tables (state : State) (lo hi : Nat) (set : Bool) :
    (framesMark state lo hi set).avail = state.avail ∧ (framesMark state lo hi set).resv = state.resv ∧
      (framesMark state lo hi set).earlyCur = state.earlyCur ∧ (framesMark state lo hi set).earlyTop = state.earlyTop := by
  fun_induction framesMark state lo hi set with
  | case1 _ _ _ _ _ _ ih => exact ih
  | case2 _ _ _ _ _ _ _ _ ih => exact ih
  | case3 => exact ⟨rfl, rfl, rfl, rfl⟩

theorem emptySection_used (f : Nat) : emptySection.used f = true := by
  have low : f % 64 < 64 := Nat.mod_lt _ (by decide)
  simp only [Section.used, emptySection, BitVec.getLsbD_allOnes, low, decide_true]

def Spare (state : State) (f : Nat) : Prop :=
  ∃ i < state.avail.length, state.earlyCur i ≤ f * 4096 ∧ f * 4096 + 4096 ≤ state.earlyTop i

structure Released (state state' : State) : Prop where
  rep : Rep state'
  empty : Chunkless state'
  tables : state'.avail = state.avail ∧ state'.resv = state.resv ∧ state'.earlyCur = state.earlyCur ∧ state'.earlyTop = state.earlyTop
  spare : ∀ f, isFree state' f = true → Spare state f

theorem Released.mark {lo hi : Nat} (released : Released state state') (inside : ∀ f, lo ≤ f → f < hi → Spare state f) :
    Released state (framesMark state' lo hi false) := by
  obtain ⟨avail, resv, cur, top⟩ := released.tables
  obtain ⟨rep, empty, freed⟩ := framesMark_rep false released.rep released.empty
  obtain ⟨avail', resv', cur', top'⟩ := framesMark_tables state' lo hi false
  refine ⟨rep, empty, ⟨avail'.trans avail, resv'.trans resv, cur'.trans cur, top'.trans top⟩, fun f free => ?_⟩
  rcases freed f free with ⟨before, _⟩ | ⟨_, low, up⟩
  · exact released.spare f before
  · exact inside f low up

theorem releaseRange_released (released : Released state state') (inside : i < state.avail.length)
    (high : state.earlyCur i ≤ 2 ^ 52 ∧ state.earlyTop i ≤ 2 ^ 52) : Released state (releaseRange state' i) := by
  obtain ⟨_, _, cur, top⟩ := released.tables
  have up : alignUp (state.earlyCur i) frameSize = (state.earlyCur i + 4095) / 4096 * 4096 := alignUp_frame (by omega)
  have down : alignDown (state.earlyTop i) frameSize = state.earlyTop i / 4096 * 4096 := alignDown_frame (by omega)
  simp only [releaseRange, cur, top, up, down]
  split
  · refine released.mark fun f low up => ⟨i, inside, ?_⟩
    rw [show frameSize = 4096 from rfl, Nat.mul_div_cancel _ (by decide)] at low up
    omega
  · exact released

theorem reserve_run (ranges : List Range) : ∀ {state : State}, Rep state → Chunkless state → ∀ f,
    isFree (ranges.foldl reserveRange state) f = true →
      isFree state f = true ∧ ∀ r ∈ ranges, ¬(r.start / 4096 ≤ f ∧ f < r.stop / 4096) := by
  induction ranges with
  | nil => exact fun _ _ f free => ⟨free, nofun⟩
  | cons r rest ih =>
    intro state rep empty f free
    have marked : Rep (reserveRange state r) ∧ _ := framesMark_rep true rep empty
    obtain ⟨rep', empty', freed⟩ := marked
    obtain ⟨before, outside⟩ := ih rep' empty' f free
    rcases freed f before with ⟨first, away⟩ | ⟨clear, _⟩
    · exact ⟨first, forall_mem_cons.mpr ⟨away rfl, outside⟩⟩
    · exact nomatch clear

theorem populate_free {n f : Nat} (described : Described state n) (small : n ≤ 2 ^ 34)
    (high : ∀ i < state.avail.length, state.earlyCur i ≤ 2 ^ 52 ∧ state.earlyTop i ≤ 2 ^ 52) (free : isFree (populate state) f = true) :
    Spare state f ∧ ∀ r ∈ state.resv, ¬(r.start / 4096 ≤ f ∧ f < r.stop / 4096) := by
  obtain ⟨rep, empty⟩ := described_rep (m := { state with freeFrames := 0 }) ⟨described.1, described.2⟩ small rfl
  have start : Released state { state with freeFrames := 0 } := by
    refine ⟨rep, empty, ⟨rfl, rfl, rfl, rfl⟩, fun f free => ?_⟩
    unfold isFree at free
    split at free
    next s found =>
      rw [described.2 _ s (secOf_some found).2, emptySection_used] at free
      exact nomatch free
    · exact nomatch free
  have released : Released state (List.foldl releaseRange _ _) :=
    List.foldlRecOn (motive := Released state) (List.range state.avail.length) releaseRange start
      (fun _ kept i member => releaseRange_released kept (List.mem_range.mp member) (high i (List.mem_range.mp member)))
  obtain ⟨before, outside⟩ := reserve_run _ released.rep released.empty f free
  rw [released.tables.2.1] at outside
  exact ⟨released.spare f before, outside⟩

theorem setup_cursors (kernelEnd : Nat) (tidy : Tidy (setup state kernelEnd).avail) : Cursors (setup state kernelEnd) [] := by
  refine ⟨fun i r listed => ?_, nofun, .nil⟩
  have start : (setup state kernelEnd).earlyCur i = r.start := by
    change ((setup state kernelEnd).avail.getD i ⟨0, 0⟩).start = r.start
    rw [getD_eq_getElem?_getD, listed]
    rfl
  have stop : (setup state kernelEnd).earlyTop i = r.stop := by
    change ((setup state kernelEnd).avail.getD i ⟨0, 0⟩).stop = r.stop
    rw [getD_eq_getElem?_getD, listed]
    rfl
  rw [start, stop]
  exact ⟨le_rfl, Nat.le_of_lt (tidy.filled r (mem_of_getElem? listed)), le_rfl⟩

variable {map : List Entry}

theorem Mapped.bounded (mapped : Mapped state map) : Bounded state :=
  ⟨mapped.tidy, fun r member => (mapped.framed r member).2.2, mapped.low⟩

theorem Mapped.kept (mapped : Mapped state map) (kept : Kept state state') : Mapped state' map := by
  obtain ⟨avail, resv, sectioned, sec⟩ := kept
  exact ⟨avail ▸ mapped.tidy, avail ▸ mapped.framed, avail ▸ mapped.usable, resv ▸ mapped.reserved, resv ▸ mapped.room, resv ▸ mapped.low,
    sectioned.trans mapped.late.1, sec.trans mapped.late.2⟩

/-- A frame between the cursors is in a usable range and no allocation reaches it. -/
theorem Cursors.spare {f : Nat} (cursors : Cursors state taken) (tidy : Tidy state.avail) (spare : Spare state f) :
    (∃ r ∈ state.avail, r.start ≤ f * 4096 ∧ f * 4096 + 4096 ≤ r.stop) ∧ ∀ t ∈ taken, ¬t.Meets f := by
  obtain ⟨i, inside, low, up⟩ := spare
  have listed : state.avail[i]? = some state.avail[i] := getElem?_eq_getElem inside
  obtain ⟨start, middle, stop⟩ := cursors.ordered i _ listed
  refine ⟨⟨state.avail[i], getElem_mem inside, by omega, by omega⟩, ?_⟩
  rintro t member ⟨byte, first, last, rfl⟩
  obtain ⟨j, r, found, after, _, before, side⟩ := cursors.within t member
  by_cases here : i = j
  · subst here
    omega
  · have := tidy.ranges_apart listed found here
    omega

theorem unfree (absent : state.sec = fun _ => none) (f : Nat) : isFree state f = false := by
  simp only [isFree, secOf, absent, ite_self]

theorem lateInit_handover (bounded : Bounded state) (cursors : Cursors state taken) (late : state.sectioned = false)
    (absent : state.sec = fun _ => none) (ready : state.physmapReady = true) :
    (lateInitPlaces state ++ taken).Pairwise Apart ∧ ∀ f, isFree (lateInit state) f = true →
      ((∃ r ∈ state.avail, r.start ≤ f * 4096 ∧ f * 4096 + 4096 ≤ r.stop) ∧ ∀ t ∈ lateInitPlaces state ++ taken, ¬t.Meets f) ∧
        ∀ r ∈ state.resv, ¬(r.start / 4096 ≤ f ∧ f < r.stop / 4096) := by
  have first : ¬state.sectioned = true := by simp [late]
  have second : ¬(!state.physmapReady) = true := by simp [ready]
  have neither : ¬(state.sectioned || !state.physmapReady) = true := by
    simp [late, ready, Bool.or_self]
  rw [lateInit, lateInitPlaces, if_neg first, if_neg second, if_neg neither]
  have small : sectionsNeeded state ≤ 2 ^ 34 := by
    unfold sectionsNeeded
    omega
  simp only
  generalize sectionsNeeded state = n at small
  have result : Kept { state with nsec := n } (earlyAllocTop { state with nsec := n } (n * 8) 64).1 ∧ _ :=
    earlyAllocTop_cursors bounded.tidy ⟨cursors.ordered, cursors.within, cursors.apart⟩
  have nsec := (earlyAllocTop_fields (m := { state with nsec := n }) (n * 8) 64).2.1
  obtain ⟨kept, after⟩ := result
  generalize earlyAllocTop { state with nsec := n } (n * 8) 64 = placed at kept after nsec
  by_cases failed : placed.2 = 0
  · simp only [failed, if_true]
    exact ⟨cursors.apart, fun f free => nomatch (unfree (kept.sec.trans absent) f).symm.trans free⟩
  · simp only [failed, if_false, append_assoc]
    have start : Described { placed.1 with sec := fun _ => none, metaBytes := n * 8 } n := ⟨nsec, fun _ _ found => nomatch found⟩
    have described : Described (describeAll placed.1 (n * 8)) n :=
      List.foldlRecOn (motive := fun state => Described state n) _ describeRange start (fun _ kept r _ => describeRange_described r kept)
    have tidy : Tidy placed.1.avail := kept.avail.symm ▸ bounded.tidy
    have finished : (describeAll placed.1 (n * 8)).avail = placed.1.avail ∧ (describeAll placed.1 (n * 8)).resv = placed.1.resv ∧
        Cursors (describeAll placed.1 (n * 8)) (descriptorPlaces { placed.1 with sec := fun _ => none, metaBytes := n * 8 }
          (placed.1.avail.flatMap rangeSections) ++ (place placed.2 (n * 8) ++ taken)) := by
      rw [describeAll_eq]
      exact describe_run _ tidy ⟨after.ordered, after.within, after.apart⟩
    obtain ⟨avail, resv, last⟩ := finished
    refine ⟨last.apart, fun f free => ?_⟩
    have within := avail.trans kept.avail
    have below : ∀ r ∈ (describeAll placed.1 (n * 8)).avail, r.stop ≤ 2 ^ 52 := within.symm ▸ bounded.high
    have high : ∀ i < (describeAll placed.1 (n * 8)).avail.length, (describeAll placed.1 (n * 8)).earlyCur i ≤ 2 ^ 52 ∧
        (describeAll placed.1 (n * 8)).earlyTop i ≤ 2 ^ 52 := by
      intro i inside
      obtain ⟨_, middle, stop⟩ := last.ordered i _ (getElem?_eq_getElem inside)
      have high := below _ (getElem_mem inside)
      omega
    obtain ⟨spare, outside⟩ := populate_free described small high free
    obtain ⟨⟨r, member, fits⟩, clear⟩ := last.spare (avail.symm ▸ tidy) spare
    exact ⟨⟨⟨r, within ▸ member, fits⟩, clear⟩, fun r member => outside r ((resv.trans kept.resv).symm ▸ member)⟩

theorem boot_ready {kernelEnd : Nat} {requests : List Request} (low : ∀ e ∈ map, e.stop ≤ 2 ^ 52)
    (kernel : kernelEnd ≤ 2 ^ 52) (few : (map.filter Entry.isReserved).length < maxReserved) (sane : ∀ r ∈ requests, r.Sane) :
    Mapped (boot map kernelEnd requests).1 (map ++ [.reserved 0 kernelEnd]) ∧
      Cursors (boot map kernelEnd requests).1 (boot map kernelEnd requests).2 := by
  have mapped := addEntry_mapped map blank_mapped low few
  have reserved : Mapped (reserve (map.foldl addEntry blank) 0 kernelEnd) (map ++ [.reserved 0 kernelEnd]) :=
    reserve_mapped mapped (by omega) few
  have start : Mapped (setup (map.foldl addEntry blank) kernelEnd) (map ++ [.reserved 0 kernelEnd]) :=
    ⟨reserved.tidy, reserved.framed, reserved.usable, reserved.reserved, reserved.room, reserved.low, reserved.late⟩
  obtain ⟨kept, last⟩ := early_run requests start.bounded (setup_cursors kernelEnd start.tidy) sane
  have done := start.kept kept
  exact ⟨⟨done.tidy, done.framed, done.usable, done.reserved, done.room, done.low, done.late⟩, last.ordered, last.within, last.apart⟩

theorem Mapped.kept_off {addr len f : Nat} (mapped : Mapped state map) (listed : Entry.reserved addr len ∈ map)
    (off : ∀ r ∈ state.resv, ¬(r.start / 4096 ≤ f ∧ f < r.stop / 4096)) : ¬Range.Meets ⟨addr, addr + len⟩ f := by
  rintro ⟨byte, first, last, rfl⟩
  simp only at first last
  have away := off _ (mapped.reserved addr len listed (by omega))
  simp only [Nat.mul_div_cancel _ (show 0 < 4096 by decide)] at away
  omega

theorem Mapped.handed {kernelEnd f : Nat} {r : Range} (mapped : Mapped state (map ++ [.reserved 0 kernelEnd])) (member : r ∈ state.avail)
    (start : r.start ≤ f * 4096) (stop : f * 4096 + 4096 ≤ r.stop) (off : ∀ r ∈ state.resv, ¬(r.start / 4096 ≤ f ∧ f < r.stop / 4096)) :
    Usable map f ∧ ¬Range.Meets ⟨0, kernelEnd⟩ f := by
  have image := mapped.kept_off (mem_append_right map (mem_singleton_self (Entry.reserved 0 kernelEnd))) off
  rw [Nat.zero_add] at image
  obtain ⟨addr, len, listed, inside⟩ := mapped.usable r member f ⟨start, by omega⟩
  rcases mem_append.mp listed with mine | last
  · exact ⟨⟨addr, len, mine, inside⟩, image⟩
  · exact nomatch mem_singleton.mp last

/-- After the switch a free frame is a whole frame of usable memory that meets no reserved
piece of the map, not the kernel, and nothing that was allocated before; and no two of the
early allocations share a byte. -/
theorem handover_of_memory (map : List Entry) (kernelEnd : Nat) (requests : List Request) (low : ∀ e ∈ map, e.stop ≤ 2 ^ 52)
    (kernel : kernelEnd ≤ 2 ^ 52) (few : (map.filter Entry.isReserved).length < maxReserved) (sane : ∀ r ∈ requests, r.Sane) :
    (∀ f, isFree (lateInit (boot map kernelEnd requests).1) f = true →
      Usable map f ∧ (∀ addr len, Entry.reserved addr len ∈ map → ¬Range.Meets ⟨addr, addr + len⟩ f) ∧ ¬Range.Meets ⟨0, kernelEnd⟩ f ∧
        ∀ t ∈ lateInitPlaces (boot map kernelEnd requests).1 ++ (boot map kernelEnd requests).2, ¬t.Meets f) ∧
      (lateInitPlaces (boot map kernelEnd requests).1 ++ (boot map kernelEnd requests).2).Pairwise Apart := by
  obtain ⟨mapped, cursors⟩ := boot_ready low kernel few sane
  obtain ⟨apart, free⟩ := lateInit_handover mapped.bounded cursors mapped.late.1 mapped.late.2 rfl
  refine ⟨fun f isFree => ?_, apart⟩
  obtain ⟨⟨⟨r, member, start, stop⟩, clear⟩, off⟩ := free f isFree
  obtain ⟨usable, image⟩ := mapped.handed member start stop off
  exact ⟨usable, fun addr len listed => mapped.kept_off (mem_append_left _ listed) off, image, clear⟩

end

theorem page_table_kept : isFree (lateInit (boot [.usable 0x100000 0x100000, .reserved 0x180000 0x1000] 0x110000 [⟨4096, 4096, 2 ^ 32⟩]).1)
      0x190 = true ∧ Usable [.usable 0x100000 0x100000, .reserved 0x180000 0x1000] 0x190 := by
  have free : isFree (lateInit (boot [.usable 0x100000 0x100000, .reserved 0x180000 0x1000] 0x110000 [⟨4096, 4096, 2 ^ 32⟩]).1)
      0x190 = true := by decide +kernel
  refine ⟨free, ((handover_of_memory _ 0x110000 _ ?_ (by decide) (by decide) ?_).1 _ free).1⟩
  · intro e member
    rcases mem_cons.mp member with rfl | last
    · decide
    · cases mem_singleton.mp last
      decide
  · intro r member
    cases mem_singleton.mp member
    exact ⟨by decide, by decide, by decide⟩

/-- A reserved piece that reaches the last byte of the address space protects nothing. The input
is at the interface of `pmm_reserve`: no caller in the kernel passes such a range. -/
theorem reserved_to_the_end_is_free :
    isFree (lateInit (boot [.usable 0x100000 0x100000, .reserved 0x180000 (2 ^ 64 - 0x180000)] 0x100000 []).1) 0x180 = true ∧
      Range.Meets ⟨0x180000, 0x180000 + (2 ^ 64 - 0x180000)⟩ 0x180 :=
  ⟨by decide +kernel, 0x180000, by decide, by decide, by decide⟩

end SecOS.Pmm
