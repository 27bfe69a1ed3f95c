import SecOS.Proofs.PmmCounts

/-! Whole runs of the physical memory manager keep the representation invariant, as long as nobody
frees a frame that backs a reference-count chunk. -/

namespace SecOS.Pmm
open Library Finset

section
variable {m : State}

theorem earlyAllocTopFrom_fields (size align : Nat) (ranges : List Nat) :
    (earlyAllocTopFrom m size align ranges).1.sec = m.sec ∧ (earlyAllocTopFrom m size align ranges).1.nsec = m.nsec ∧
      (earlyAllocTopFrom m size align ranges).1.sectioned = m.sectioned := by
  induction ranges with
  | nil => exact ⟨rfl, rfl, rfl⟩
  | cons i rest ih =>
    rw [earlyAllocTopFrom]
    split
    · exact ih
    · exact ⟨rfl, rfl, rfl⟩

theorem earlyAllocTop_fields (size align : Nat) :
    (earlyAllocTop m size align).1.sec = m.sec ∧ (earlyAllocTop m size align).1.nsec = m.nsec ∧
      (earlyAllocTop m size align).1.sectioned = m.sectioned :=
  earlyAllocTopFrom_fields _ _ _

def Described (m : State) (n : Nat) : Prop := m.nsec = n ∧ ∀ index s, m.sec index = some s → s = emptySection

theorem describeSection_described {n : Nat} (index : Nat) (described : Described m n) :
    Described (describeSection m index) n := by
  unfold describeSection
  split
  · exact described
  obtain ⟨sec, nsec, _⟩ := earlyAllocTop_fields (m := m) sectionBytes 64
  generalize earlyAllocTop m sectionBytes 64 = result at sec nsec
  obtain ⟨m', p⟩ := result
  simp only at sec nsec ⊢
  split
  · exact ⟨nsec.trans described.1, fun i s found => described.2 i s (sec ▸ found)⟩
  refine ⟨nsec.trans described.1, ?_⟩
  intro i s found
  change Function.update m'.sec index (some emptySection) i = some s at found
  by_cases here : i = index
  · rw [here, Function.update_self] at found
    exact (Option.some.inj found).symm
  · rw [Function.update_of_ne here, sec] at found
    exact described.2 i s found

theorem describeRange_described {n : Nat} (r : Range) (described : Described m n) : Described (describeRange m r) n :=
  List.foldlRecOn (motive := fun state => Described state n) _ describeSection described (fun _ kept index _ => describeSection_described index kept)

private theorem empty_ok (mem : Nat → Nat → UInt8) : SectionOk mem emptySection where
  counted := by
    unfold Section.zeros emptySection
    simp only [Word.zeroBits_allOnes, sum_const_zero]
  summarized := by
    intro w _
    have low : w % 64 < 64 := Nat.mod_lt _ (by decide)
    simp only [emptySection, BitVec.getLsbD_allOnes, low, decide_true]
  present := by
    intro c _
    simp [emptySection]
  shares := by
    intro c _
    rfl

def Chunkless (m : State) : Prop := ∀ q, chunkAt m q = none

theorem described_rep {n : Nat} (described : Described m n) (bound : n ≤ 2 ^ 34) (zero : m.freeFrames = 0) :
    Rep m ∧ Chunkless m := by
  have empty : Chunkless m := by
    intro q
    unfold chunkAt
    cases found : secOf m (q * 4096) with
    | none => rfl
    | some s =>
      rw [described.2 _ s (secOf_some found).2]
      rfl
  refine ⟨⟨⟨?_, ?_⟩, described.1.symm ▸ bound, ?_, ?_⟩, empty⟩
  · intro index _ s found
    rw [described.2 index s found]
    exact empty_ok m.mem
  · rw [zero]
    refine (sum_eq_zero ?_).symm
    intro index _
    cases found : m.sec index with
    | none => rfl
    | some s =>
      rw [described.2 index s found]
      rfl
  · intro q p found
    rw [empty q] at found
    exact nomatch found
  · intro q r p found
    rw [empty q] at found
    exact nomatch found

private theorem markSection_eq (m : State) (index : Nat) (s : Section) (lo hi : Nat) (set : Bool) :
    markSection m index s lo hi set = { setSec m index (secMark s lo hi set).1 with
      freeFrames := if set then (m.freeFrames + 2 ^ 64 - (secMark s lo hi set).2) % 2 ^ 64
        else (m.freeFrames + (secMark s lo hi set).2) % 2 ^ 64 } := by
  unfold markSection
  generalize secMark s lo hi set = result
  obtain ⟨t, c⟩ := result
  rfl

private theorem markSection_rep {index lo hi : Nat} {s : Section} (set : Bool) (rep : Rep m) (inside : index < m.nsec)
    (present : m.sec index = some s) (ordered : lo ≤ hi) (fits : hi ≤ 2 ^ 18)
    (kept : set = false → ∀ q p, chunkAt m q = some p → ¬(index * 2 ^ 18 + lo ≤ p ∧ p < index * 2 ^ 18 + hi)) :
    Rep (markSection m index s lo hi set) ∧ Same m (markSection m index s lo hi set) ∧
      ∀ f, isFree (markSection m index s lo hi set) f =
        if index * 2 ^ 18 + lo ≤ f ∧ f < index * 2 ^ 18 + hi then !set else isFree m f := by
  have ok := rep.consistent.sections index inside s present
  obtain ⟨marks, counted⟩ := marks_rehinted set ok (.refl s) (.refl _) ordered fits
  rw [markSection_eq]
  exact rep.mark ⟨rfl, rfl, rfl⟩ rfl inside present marks counted fits rfl kept

theorem framesMark_rep {lo hi : Nat} (set : Bool) (rep : Rep m) (empty : Chunkless m) :
    Rep (framesMark m lo hi set) ∧ Chunkless (framesMark m lo hi set) ∧
      ∀ f, isFree (framesMark m lo hi set) f = true →
        isFree m f = true ∧ (set = true → ¬(lo ≤ f ∧ f < hi)) ∨ set = false ∧ lo ≤ f ∧ f < hi := by
  induction left : hi - lo using Nat.strongRecOn generalizing m lo with
  | _ left ih =>
    subst left
    rw [framesMark]
    by_cases more : lo < hi
    · simp only [more, if_true]
      have step := section_step more
      split
      next absent =>
        obtain ⟨kept, still, freed⟩ := ih _ step rep empty rfl
        refine ⟨kept, still, fun f free => ?_⟩
        rcases freed f free with ⟨before, outside⟩ | ⟨clear, inside⟩
        · refine .inl ⟨before, fun on inside => outside on ?_⟩
          -- A frame of the absent section is not free.
          have away : f / 2 ^ 18 ≠ lo / 2 ^ 18 := by
            intro same
            unfold isFree secOf at before
            rw [same, absent] at before
            cases before
          omega
        · exact .inr ⟨clear, by omega⟩
      next s found =>
        have here : lo / 2 ^ 18 < m.nsec ∧ m.sec (lo / 2 ^ 18) = some s := by
          split at found
          next inside => exact ⟨inside, found⟩
          · cases found
        have ordered : lo - lo / 2 ^ 18 * 2 ^ 18 ≤ min hi ((lo / 2 ^ 18 + 1) * 2 ^ 18) - lo / 2 ^ 18 * 2 ^ 18 := by omega
        have fits : min hi ((lo / 2 ^ 18 + 1) * 2 ^ 18) - lo / 2 ^ 18 * 2 ^ 18 ≤ 2 ^ 18 := by omega
        obtain ⟨kept, same, marked⟩ := markSection_rep set rep here.1 here.2 ordered fits
          (fun _ q p taken => by rw [empty q] at taken; cases taken)
        obtain ⟨kept, still, freed⟩ := ih _ step kept (fun q => (same.chunks q).trans (empty q)) rfl
        refine ⟨kept, still, fun f free => ?_⟩
        rcases freed f free with ⟨before, outside⟩ | ⟨clear, inside⟩
        · rw [marked] at before
          split at before
          · refine .inr ⟨?_, by omega⟩
            cases set with
            | false => rfl
            | true => cases before
          · exact .inl ⟨before, fun on inside => outside on (by omega)⟩
        · exact .inr ⟨clear, by omega⟩
    · simp only [more, if_false]
      exact ⟨rep, empty, fun f free => .inl ⟨free, fun _ inside => by omega⟩⟩

private theorem releaseRange_rep (i : Nat) (rep : Rep m) (empty : Chunkless m) :
    Rep (releaseRange m i) ∧ Chunkless (releaseRange m i) := by
  simp only [releaseRange]
  split
  · obtain ⟨kept, still, _⟩ := framesMark_rep false rep empty
    exact ⟨kept, still⟩
  · exact ⟨rep, empty⟩

private theorem populate_rep (rep : Rep { m with freeFrames := 0 }) (empty : Chunkless { m with freeFrames := 0 }) :
    Rep (populate m) ∧ Chunkless (populate m) := by
  have released : Rep (List.foldl releaseRange _ _) ∧ Chunkless (List.foldl releaseRange _ _) :=
    List.foldlRecOn (motive := fun state => Rep state ∧ Chunkless state) (List.range m.avail.length) releaseRange
      ⟨rep, empty⟩ (fun _ kept i _ => releaseRange_rep i kept.1 kept.2)
  simp only [populate]
  generalize (List.range m.avail.length).foldl releaseRange { m with freeFrames := 0 } = m1 at released
  have reserved : Rep (List.foldl reserveRange _ _) ∧ Chunkless (List.foldl reserveRange _ _) :=
    List.foldlRecOn (motive := fun state => Rep state ∧ Chunkless state) m1.resv reserveRange released
      (fun _ kept _ _ => ⟨(framesMark_rep true kept.1 kept.2).1, (framesMark_rep true kept.1 kept.2).2.1⟩)
  generalize List.foldl reserveRange m1 m1.resv = m2 at reserved
  obtain ⟨⟨consistent, bound, held, distinct⟩, empty⟩ := reserved
  exact ⟨⟨⟨consistent.sections, consistent.total⟩, bound, held, distinct⟩, empty⟩

theorem lateInit_rep (late : m.sectioned = false) (ready : (lateInit m).sectioned = true) :
    Rep (lateInit m) ∧ Chunkless (lateInit m) := by
  unfold lateInit at ready ⊢
  rw [if_neg (by rw [late]; exact Bool.false_ne_true)] at ready ⊢
  by_cases unmapped : (!m.physmapReady) = true
  · rw [if_pos unmapped, late] at ready
    exact nomatch ready
  · rw [if_neg unmapped] at ready ⊢
    have small : sectionsNeeded m ≤ 2 ^ 34 := by
      unfold sectionsNeeded
      omega
    generalize sectionsNeeded m = n at ready small
    obtain ⟨_, nsec, sectioned⟩ := earlyAllocTop_fields (m := { m with nsec := n }) (n * 8) 64
    simp only at ready nsec sectioned ⊢
    generalize earlyAllocTop { m with nsec := n } (n * 8) 64 = placed at ready nsec sectioned ⊢
    by_cases failed : placed.2 = 0
    · rw [if_pos failed, sectioned, late] at ready
      exact nomatch ready
    · rw [if_neg failed]
      have start : Described { placed.1 with sec := fun _ => none, metaBytes := n * 8 } n :=
        ⟨nsec, fun _ _ found => nomatch found⟩
      have described : Described (describeAll placed.1 (n * 8)) n :=
        List.foldlRecOn (motive := fun state => Described state n) _ describeRange start (fun _ kept r _ => describeRange_described r kept)
      obtain ⟨rep, empty⟩ := described_rep (m := { describeAll placed.1 (n * 8) with freeFrames := 0 })
        ⟨described.1, described.2⟩ small rfl
      exact populate_rep rep empty

inductive Op where
  | allocFrame
  | allocBelow (limit : Nat)
  | allocContiguousBelow (count limit : Nat)
  | freeFrame (addr : Nat)
  | freeContiguous (addr count : Nat)
  | shareFrame (addr : Nat)
  | unrefFrame (addr : Nat)
deriving DecidableEq, Repr

def step (m : State) : Op → State
  | .allocFrame => (allocFrame m).1
  | .allocBelow limit => (allocBelow m limit).1
  | .allocContiguousBelow count limit => (allocContiguousBelow m count limit).1
  | .freeFrame addr => freeFrame m addr
  | .freeContiguous addr count => freeContiguous m addr count
  | .shareFrame addr => (shareFrame m addr).1
  | .unrefFrame addr => (unrefFrame m addr).1

def Op.frees : Op → Nat → Prop
  | .freeFrame addr, f => addr / frameSize ≤ f ∧ f < (addr / frameSize + 1) % 2 ^ 64
  | .freeContiguous addr count, f => addr / frameSize ≤ f ∧ f < (addr / frameSize + count) % 2 ^ 64
  | _, _ => False

/-- No operation of the run frees a frame that backs a reference-count chunk then. -/
def Spared : State → List Op → Prop
  | _, [] => True
  | m, op :: rest => (∀ f, op.frees f → ∀ q, chunkAt m q ≠ some f) ∧ Spared (step m op) rest

def Allocates (m : State) (result : State × Nat) (n : Nat) : Prop :=
  result.2 ≠ 0 → ∃ f, result.2 = f * frameSize ∧ Takes m result.1 f n

private theorem allocBelow_kept (rep : Rep m) (on : m.sectioned = true) (limit : Nat) :
    Rep (allocFrameNolockBelow m limit).1 ∧ (allocFrameNolockBelow m limit).1.sectioned = true ∧
      Allocates m (allocFrameNolockBelow m limit) 1 := by
  rcases allocFrameNolockBelow_spec rep on limit with ⟨f, address, kept, takes, _⟩ | ⟨nothing, _⟩
  · exact ⟨kept, takes.sectioned.trans on, fun _ => ⟨f, address, takes⟩⟩
  · rw [nothing]
    exact ⟨rep, on, fun nonzero => absurd rfl nonzero⟩

private theorem allocContiguousBelow_kept (rep : Rep m) (on : m.sectioned = true) (count limit : Nat) :
    Rep (allocContiguousBelow m count limit).1 ∧ (allocContiguousBelow m count limit).1.sectioned = true ∧
      Allocates m (allocContiguousBelow m count limit) count := by
  unfold allocContiguousBelow
  split
  · exact ⟨rep, on, fun nonzero => absurd rfl nonzero⟩
  split
  next one =>
    subst one
    exact allocBelow_kept rep on limit
  · rcases allocRunNolockBelow_spec rep on count limit with ⟨f, address, kept, takes, _⟩ | ⟨nothing, _⟩
    · exact ⟨kept, takes.sectioned.trans on, fun _ => ⟨f, address, takes⟩⟩
    · rw [nothing]
      exact ⟨rep, on, fun nonzero => absurd rfl nonzero⟩

theorem step_rep {op : Op} (rep : Rep m) (on : m.sectioned = true) (spared : ∀ f, op.frees f → ∀ q, chunkAt m q ≠ some f) :
    Rep (step m op) ∧ (step m op).sectioned = true := by
  cases op with
  | allocFrame =>
    obtain ⟨kept, still, _⟩ := allocBelow_kept rep on noLimit
    exact ⟨kept, still⟩
  | allocBelow limit =>
    obtain ⟨kept, still, _⟩ := allocBelow_kept rep on limit
    exact ⟨kept, still⟩
  | allocContiguousBelow count limit =>
    obtain ⟨kept, still, _⟩ := allocContiguousBelow_kept rep on count limit
    exact ⟨kept, still⟩
  | freeFrame addr =>
    obtain ⟨kept, same, _⟩ := freeContiguous_spec rep on addr 1 (fun f low high => spared f ⟨low, high⟩)
    exact ⟨kept, same.sectioned.trans on⟩
  | freeContiguous addr count =>
    obtain ⟨kept, same, _⟩ := freeContiguous_spec rep on addr count (fun f low high => spared f ⟨low, high⟩)
    exact ⟨kept, same.sectioned.trans on⟩
  | shareFrame addr =>
    have outcome := shareFrame_spec rep on addr
    simp only [step]
    generalize shareFrame m addr = result at outcome
    cases outcome with
    | shared kept _ recounts _ => exact ⟨kept, recounts.sectioned.trans on⟩
    | refused kept _ => exact ⟨kept, on⟩
    | lost kept takes => exact ⟨kept, takes.sectioned.trans on⟩
  | unrefFrame addr =>
    have outcome := unrefFrame_spec rep on addr
    simp only [step]
    generalize unrefFrame m addr = result at outcome
    cases outcome with
    | dropped kept _ _ recounts _ _ => exact ⟨kept, recounts.sectioned.trans on⟩
    | last kept _ => exact ⟨kept, on⟩

theorem run_rep (ops : List Op) (rep : Rep m) (on : m.sectioned = true) (spared : Spared m ops) :
    Rep (ops.foldl step m) ∧ (ops.foldl step m).sectioned = true := by
  induction ops generalizing m with
  | nil => exact ⟨rep, on⟩
  | cons op rest ih =>
    obtain ⟨kept, still⟩ := step_rep rep on spared.1
    exact ih kept still spared.2

/-- After `pmm_late_init` and any run of public operations that never frees the frame
behind a reference-count chunk, the bitmaps, summaries, section counts, reference counts
and the global count agree, and the next allocation takes frames that were free. -/
theorem representation_after_run (boot : State) (ops : List Op) (late : boot.sectioned = false)
    (ready : (lateInit boot).sectioned = true) (spared : Spared (lateInit boot) ops) :
    Consistent (ops.foldl step (lateInit boot)) ∧
      Allocates (ops.foldl step (lateInit boot)) (allocFrame (ops.foldl step (lateInit boot))) 1 ∧
      (∀ limit, Allocates (ops.foldl step (lateInit boot)) (allocBelow (ops.foldl step (lateInit boot)) limit) 1) ∧
      ∀ count limit, Allocates (ops.foldl step (lateInit boot))
        (allocContiguousBelow (ops.foldl step (lateInit boot)) count limit) count := by
  obtain ⟨rep, on⟩ := run_rep ops (lateInit_rep late ready).1 ready spared
  refine ⟨rep.consistent, ?_, ?_, ?_⟩
  · exact (allocBelow_kept rep on noLimit).2.2
  · exact fun limit => (allocBelow_kept rep on limit).2.2
  · exact fun count limit => (allocContiguousBelow_kept rep on count limit).2.2

end

/-- Sixteen frames of usable memory above one reserved megabyte. -/
def tinyBoot : State where
  avail := [⟨0x100000, 0x110000⟩]
  earlyCur := fun _ => 0x100000
  earlyTop := fun _ => 0x110000
  resv := [⟨0, 0x100000⟩]
  physmapReady := true
  maxPhys := 0x110000
  sectioned := false
  nsec := 0
  sec := fun _ => none
  hintNormal := 0
  hintDma32 := 0
  freeFrames := 0
  earlyUsed := 0
  metaBytes := 0
  refChunks := 0
  mem := fun _ _ => 0

theorem representation_after_sharing : (lateInit tinyBoot).sectioned = true ∧
    Consistent ([.allocFrame, .shareFrame 0x100000, .unrefFrame 0x100000].foldl step (lateInit tinyBoot)) := by
  have ready : (lateInit tinyBoot).sectioned = true := by decide +kernel
  refine ⟨ready, (representation_after_run tinyBoot _ rfl ready ?_).1⟩
  exact ⟨fun _ none => none.elim, fun _ none => none.elim, fun _ none => none.elim, trivial⟩

/-- Freeing the frame behind a chunk makes the chunk's own release count it twice. -/
theorem freed_chunk_counted_twice : (lateInit tinyBoot).sectioned = true ∧
    ¬Consistent ([.allocFrame, .shareFrame 0x100000, .freeFrame 0x101000, .unrefFrame 0x100000].foldl step
      (lateInit tinyBoot)) := by
  refine ⟨by decide +kernel, ?_⟩
  intro consistent
  have total := consistent.total
  have sections : (([.allocFrame, .shareFrame 0x100000, .freeFrame 0x101000, .unrefFrame 0x100000] : List Op).foldl step
      (lateInit tinyBoot)).nsec = 1 := by decide +kernel
  rw [sections, sum_range_one] at total
  exact absurd total (by decide +kernel)

end SecOS.Pmm
