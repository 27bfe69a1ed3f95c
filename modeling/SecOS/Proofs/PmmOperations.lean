import SecOS.Proofs.PmmInvariant

/-! What the operations of the frame allocator do to the bitmap: a search takes the frames it
returns and no others, a frame that is given back becomes free, and the counters follow. -/

namespace SecOS.Pmm
open Library List Finset

structure Same (m m' : State) : Prop where
  sectioned : m'.sectioned = m.sectioned
  nsec : m'.nsec = m.nsec
  mem : m'.mem = m.mem
  managed : ∀ f, managed m' f = managed m f
  chunks : ∀ q, chunkAt m' q = chunkAt m q

theorem Same.refl (m : State) : Same m m := ⟨rfl, rfl, rfl, fun _ => rfl, fun _ => rfl⟩

theorem Same.trans {m n o : State} (first : Same m n) (last : Same n o) : Same m o where
  sectioned := last.sectioned.trans first.sectioned
  nsec := last.nsec.trans first.nsec
  mem := last.mem.trans first.mem
  managed f := (last.managed f).trans (first.managed f)
  chunks q := (last.chunks q).trans (first.chunks q)

theorem Same.count {m m' : State} (same : Same m m') (f : Nat) : count m' f = count m f := by
  unfold Pmm.count
  rw [same.chunks, same.mem]

structure Takes (m m' : State) (lo n : Nat) : Prop extends Same m m' where
  was : ∀ f, lo ≤ f → f < lo + n → isFree m f = true
  bits : ∀ f, isFree m' f = if lo ≤ f ∧ f < lo + n then false else isFree m f

structure Gives (m m' : State) (g : Nat) : Prop extends Same m m' where
  bits : ∀ f, isFree m' f = if f = g then true else isFree m f

section
variable {m m' : State} {index : Nat} {s t u : Section}

theorem Rep.freeFrames_le (rep : Rep m) : m.freeFrames ≤ 2 ^ 52 := by
  have each : ∀ i ∈ Finset.range m.nsec, sectionFree (m.sec i) ≤ 2 ^ 18 := by
    intro i member
    cases found : m.sec i with
    | none => exact Nat.zero_le _
    | some s =>
      have ok := rep.consistent.sections i (Finset.mem_range.mp member) s found
      exact ok.counted.le.trans (zeros_le s)
  calc m.freeFrames = ∑ i ∈ Finset.range m.nsec, sectionFree (m.sec i) := rep.consistent.total
    _ ≤ ∑ _i ∈ Finset.range m.nsec, 2 ^ 18 := Finset.sum_le_sum each
    _ = m.nsec * 2 ^ 18 := by rw [Finset.sum_const_nat (fun _ _ => rfl), card_range]
    _ ≤ 2 ^ 34 * 2 ^ 18 := Nat.mul_le_mul_right _ rep.bound

theorem Rep.section_le (rep : Rep m) (inside : index < m.nsec) (present : m.sec index = some s) : s.free ≤ m.freeFrames := by
  rw [rep.consistent.total]
  have single := Finset.single_le_sum (f := fun i => sectionFree (m.sec i)) (fun _ _ => Nat.zero_le _)
    (Finset.mem_range.mpr inside)
  simpa only [present, sectionFree] using single

theorem marks_rehinted {mem : Nat → Nat → UInt8} {lo hi : Nat} (set : Bool) (ok : SectionOk mem s) (before : Rehinted s u)
    (after : Rehinted (secMark u lo hi set).1 t) (ordered : lo ≤ hi) (fits : hi ≤ 2 ^ 18) :
    Marks s t lo hi set (secMark u lo hi set).2 ∧ t.free = t.zeros := by
  have counted : u.free = u.zeros := by
    rw [zeros_congr before.bitmap, ← ok.counted, before.free]
  obtain ⟨marks, total⟩ := secMark_marks set ordered fits (before.summarized ok.summarized) counted
  generalize secMark u lo hi set = result at after marks total
  refine ⟨⟨?_, ?_, after.summarized marks.summarized, before.toSameRefs.trans (marks.same.trans after.toSameRefs)⟩, ?_⟩
  · intro i
    rw [after.used, marks.bits, before.used]
  · have count := marks.count
    rwa [← zeros_congr after.bitmap, zeros_congr before.bitmap] at count
  · rw [zeros_congr after.bitmap, after.free, total]

theorem Rep.mark {lo hi c : Nat} {set : Bool} (rep : Rep m) (change : Replaced m m' index t) (mem : m'.mem = m.mem)
    (inside : index < m.nsec) (present : m.sec index = some s) (marks : Marks s t lo hi set c) (counted : t.free = t.zeros) (fits : hi ≤ 2 ^ 18)
    (moved : m'.freeFrames = if set then (m.freeFrames + 2 ^ 64 - c) % 2 ^ 64 else (m.freeFrames + c) % 2 ^ 64)
    (kept : set = false → ∀ q p, chunkAt m q = some p → ¬(index * 2 ^ 18 + lo ≤ p ∧ p < index * 2 ^ 18 + hi)) :
    Rep m' ∧ Same m m' ∧
      ∀ f, isFree m' f = if index * 2 ^ 18 + lo ≤ f ∧ f < index * 2 ^ 18 + hi then !set else isFree m f := by
  have ok := rep.consistent.sections index inside s present
  have count := marks.count
  have bits := marks.bits
  have balance : m'.freeFrames + s.free = m.freeFrames + t.free := by
    have bound := rep.freeFrames_le
    have part := rep.section_le inside present
    have small := zeros_le t
    rw [← ok.counted, ← counted] at count
    rw [← counted] at small
    rw [moved]
    cases set <;> simp only [Bool.false_eq_true, if_true, if_false] at count ⊢ <;> omega
  refine ⟨rep.replace_bits change mem inside present marks.same.refs marks.same.refsUsed counted marks.summarized
    balance ?_, ⟨change.sectioned, change.nsec, mem, change.managed inside present, change.chunkAt inside present marks.same.refs⟩, ?_⟩
  · intro q p found here
    rw [bits]
    split
    · cases set with
      | true => rfl
      | false => exact absurd (by omega) (kept rfl q p found)
    · have busy := (rep.held q p found).2
      rw [isFree_at inside present here, Bool.not_eq_false'] at busy
      exact busy
  · intro f
    by_cases here : f / 2 ^ 18 = index
    · rw [change.isFree_here inside here, isFree_at inside present here, bits]
      have same : (lo ≤ f % 2 ^ 18 ∧ f % 2 ^ 18 < hi) ↔ (index * 2 ^ 18 + lo ≤ f ∧ f < index * 2 ^ 18 + hi) := by omega
      simp only [same]
      split <;> rfl
    · rw [change.isFree_other here, if_neg (by omega)]

structure Alike (m m' : State) : Prop where
  sec : m'.sec = m.sec
  nsec : m'.nsec = m.nsec
  sectioned : m'.sectioned = m.sectioned
  mem : m'.mem = m.mem
  freeFrames : m'.freeFrames = m.freeFrames

theorem Alike.secOf (alike : Alike m m') (f : Nat) : secOf m' f = secOf m f := by
  unfold Pmm.secOf
  rw [alike.sec, alike.nsec]

theorem Alike.isFree (alike : Alike m m') (f : Nat) : isFree m' f = isFree m f := by
  unfold Pmm.isFree
  rw [alike.secOf]

theorem Alike.same (alike : Alike m m') : Same m m' where
  sectioned := alike.sectioned
  nsec := alike.nsec
  mem := alike.mem
  managed f := by unfold Pmm.managed; rw [alike.secOf]
  chunks q := by unfold chunkAt; rw [alike.secOf]

theorem Rep.alike (rep : Rep m) (alike : Alike m m') : Rep m' := by
  have same := alike.same
  refine ⟨⟨?_, ?_⟩, alike.nsec ▸ rep.bound, ?_, ?_⟩
  · intro i inside s present
    rw [alike.mem]
    exact rep.consistent.sections i (alike.nsec ▸ inside) s (alike.sec ▸ present)
  · rw [alike.freeFrames, alike.nsec, alike.sec]
    exact rep.consistent.total
  · intro q p found
    rw [same.managed, alike.isFree]
    exact rep.held q p (same.chunks q ▸ found)
  · intro q r p first second
    exact rep.distinct q r p (same.chunks q ▸ first) (same.chunks r ▸ second)

theorem Takes.alike {n : State} {lo k : Nat} (takes : Takes m n lo k) (alike : Alike n m') : Takes m m' lo k where
  toSame := takes.toSame.trans alike.same
  was := takes.was
  bits f := (alike.isFree f).trans (takes.bits f)

theorem Rep.take {lo n : Nat} (rep : Rep m) (inside : index < m.nsec) (present : m.sec index = some s)
    (hinted : Rehinted s u) (fits : lo + n ≤ 2 ^ 18) (free : ∀ i, lo ≤ i → i < lo + n → s.used i = false) :
    Rep (takeFrames m index u lo n) ∧ Takes m (takeFrames m index u lo n) (index * 2 ^ 18 + lo) n := by
  have change : Replaced m (takeFrames m index u lo n) index (secMark u lo (lo + n) true).1 := ⟨rfl, rfl, rfl⟩
  have ok := rep.consistent.sections index inside s present
  obtain ⟨marks, counted⟩ := marks_rehinted true ok hinted (.refl _) (Nat.le_add_right _ _) fits
  have changed := marks.taken fits free
  rw [Nat.add_sub_cancel_left] at changed
  rw [changed] at marks
  obtain ⟨kept, same, bits⟩ := rep.mark change rfl inside present marks counted fits (by rw [if_pos rfl, takeFrames])
    (fun impossible => nomatch impossible)
  refine ⟨kept, same, ?_, ?_⟩
  · intro f after before
    rw [isFree_at inside present (by omega), free (f % 2 ^ 18) (by omega) (by omega)]
    rfl
  · intro f
    rw [bits, Nat.add_assoc]
    rfl

/-- The section `alloc_in` tries at round `k` of its rotation. -/
def rotated (sLo sHi h k : Nat) : Nat := if h + k ≥ sHi then h + k - (sHi - sLo) else h + k

def Searched (m : State) (searched : Nat → Prop) : Option (State × Nat × Nat) → Prop
  | some (m', f, _) => Rep m' ∧ Takes m m' f 1 ∧ searched f
  | none => ∀ f, searched f → isFree m f = false

theorem allocInFrom_spec {sLo sHi fMax h : Nat} (rep : Rep m) (fits : sHi ≤ m.nsec) (first : sLo ≤ h) (last : h < sHi)
    (left : Nat) (rounds : left ≤ sHi - sLo) :
    Searched m (fun f => f < fMax ∧ ∃ k, sHi - sLo - left ≤ k ∧ k < sHi - sLo ∧ f / 2 ^ 18 = rotated sLo sHi h k)
      (allocInFrom m sLo sHi fMax h left) := by
  induction left with
  | zero =>
    intro f searched
    obtain ⟨_, k, after, before, _⟩ := searched
    omega
  | succ left ih =>
    have rest := ih (by omega)
    generalize round : sHi - sLo - (left + 1) = k at *
    have inside : rotated sLo sHi h k < m.nsec := by unfold rotated; split <;> omega
    -- Nothing found in this section: the later rounds decide.
    have skip : (∀ f, f < fMax → f / 2 ^ 18 = rotated sLo sHi h k → isFree m f = false) →
        Searched m (fun f => f < fMax ∧ ∃ j, k ≤ j ∧ j < sHi - sLo ∧ f / 2 ^ 18 = rotated sLo sHi h j)
          (allocInFrom m sLo sHi fMax h left) := by
      intro full
      cases found : allocInFrom m sLo sHi fMax h left with
      | some result =>
        rw [found] at rest
        obtain ⟨kept, takes, below, j, after, before, here⟩ := rest
        exact ⟨kept, takes, below, j, by omega, before, here⟩
      | none =>
        rw [found] at rest
        intro f searched
        obtain ⟨below, j, after, before, here⟩ := searched
        by_cases now : j = k
        · exact full f below (now ▸ here)
        · exact rest f ⟨below, j, by omega, before, here⟩
    have none_free : ∀ s, m.sec (rotated sLo sHi h k) = some s → s.free = 0 →
        ∀ f, f / 2 ^ 18 = rotated sLo sHi h k → isFree m f = false := by
      intro s present empty f here
      have ok := rep.consistent.sections _ inside s present
      rw [ok.counted, zeros_eq_card, card_eq_zero] at empty
      have absent := Finset.filter_eq_empty_iff.mp empty (Finset.mem_range.mpr (Nat.mod_lt f (by decide)))
      rw [isFree_at inside present here, Bool.not_eq_false']
      simpa using absent
    rw [allocInFrom]
    simp only [round]
    rw [show (if h + k ≥ sHi then h + k - (sHi - sLo) else h + k) = rotated sLo sHi h k from rfl]
    cases present : m.sec (rotated sLo sHi h k) with
    | none =>
      apply skip
      intro f _ here
      unfold isFree secOf
      rw [here, present, if_pos inside]
    | some s =>
      have ok := rep.consistent.sections _ inside s present
      by_cases useless : s.free = 0 ∨ fMax ≤ rotated sLo sHi h k * 2 ^ 18
      · simp only [useless, if_true]
        apply skip
        intro f below here
        rcases useless with empty | outside
        · exact none_free s present empty f here
        · omega
      · simp only [useless, if_false]
        have find := secFind_spec (s := s) ok.summarized ok.counted
          (Nat.min_le_left (2 ^ 18) (fMax - rotated sLo sHi h k * 2 ^ 18))
        cases found : secFind s (min (2 ^ 18) (fMax - rotated sLo sHi h k * 2 ^ 18)) with
        | none =>
          rw [found] at find
          apply skip
          intro f below here
          have within : f % 2 ^ 18 < fMax - rotated sLo sHi h k * 2 ^ 18 := by omega
          rw [isFree_at inside present here, find (f % 2 ^ 18) (Nat.lt_min.mpr ⟨Nat.mod_lt _ (by decide), within⟩)]
          rfl
        | some hit =>
          obtain ⟨u, f⟩ := hit
          rw [found] at find
          obtain ⟨hinted, below, clear⟩ := find
          obtain ⟨low, within⟩ := Nat.lt_min.mp below
          clear below
          have single : ∀ i, f ≤ i → i < f + 1 → s.used i = false := by
            intro i after before
            have same : i = f := by omega
            exact same ▸ clear
          have limited : rotated sLo sHi h k * 2 ^ 18 + f < fMax := by omega
          have here : (rotated sLo sHi h k * 2 ^ 18 + f) / 2 ^ 18 = rotated sLo sHi h k := by omega
          obtain ⟨kept, takes⟩ := rep.take inside present hinted low single
          exact ⟨kept, takes, limited, k, Nat.le_refl _, by omega, here⟩

theorem Searched.congr {P Q : Nat → Prop} {result : Option (State × Nat × Nat)} (searched : Searched m P result)
    (same : ∀ f, P f ↔ Q f) : Searched m Q result := by
  have equal : P = Q := funext fun f => propext (same f)
  exact equal ▸ searched

theorem allocIn_spec (rep : Rep m) (sLo sHi fMax hint : Nat) :
    Searched m (fun f => f < fMax ∧ sLo ≤ f / 2 ^ 18 ∧ f / 2 ^ 18 < min sHi m.nsec) (allocIn m sLo sHi fMax hint) := by
  unfold allocIn
  have bounded := Nat.min_le_right sHi m.nsec
  generalize min sHi m.nsec = top at bounded
  by_cases empty : sLo ≥ top
  · simp only [empty, if_true]
    intro f searched
    omega
  · simp only [empty, if_false]
    have start : sLo ≤ (if hint ≥ sLo ∧ hint < top then hint else sLo) ∧
        (if hint ≥ sLo ∧ hint < top then hint else sLo) < top := by split <;> omega
    generalize (if hint ≥ sLo ∧ hint < top then hint else sLo) = h at start
    refine (allocInFrom_spec rep bounded start.1 start.2 (top - sLo) le_rfl).congr ?_
    intro f
    generalize f / 2 ^ 18 = j
    constructor
    · rintro ⟨below, k, _, inside, here⟩
      unfold rotated at here
      split at here <;> exact ⟨below, by omega, by omega⟩
    · rintro ⟨below, low, high⟩
      unfold rotated
      by_cases ahead : h ≤ j
      · refine ⟨below, j - h, by omega, by omega, ?_⟩
        rw [if_neg (by omega)]
        omega
      · refine ⟨below, j + (top - sLo) - h, by omega, by omega, ?_⟩
        rw [if_pos (by omega)]
        omega

theorem isFree_inside {f : Nat} (free : isFree m f = true) : f / 2 ^ 18 < m.nsec := by
  unfold isFree at free
  split at free
  next s found => exact (secOf_some found).1
  · exact nomatch free

def Below (limit n f : Nat) : Prop := limit = noLimit ∨ (f + n) * frameSize ≤ limit

/-- The frames above 4 GiB that the section count computed from the limit leaves out. -/
def Unseen (limit f : Nat) : Prop :=
  dma32Limit / 2 ^ 30 ≤ f / 2 ^ 18 ∧ secCountBelow (if limit = noLimit then noLimit / 2 else limit) ≤ f / 2 ^ 18

theorem allocFrameNolockBelow_spec (rep : Rep m) (on : m.sectioned = true) (limit : Nat) :
    (∃ f, (allocFrameNolockBelow m limit).2 = f * frameSize ∧ Rep (allocFrameNolockBelow m limit).1 ∧
        Takes m (allocFrameNolockBelow m limit).1 f 1 ∧ Below limit 1 f ∧ ¬Unseen limit f ∧
        (f < 2 ^ 20 → ∀ g, isFree m g = true → Below limit 1 g → 2 ^ 20 ≤ g → Unseen limit g)) ∨
      (allocFrameNolockBelow m limit = (m, 0) ∧ ∀ g, isFree m g = true → Below limit 1 g → Unseen limit g) := by
  unfold allocFrameNolockBelow
  simp only [on, Bool.not_true, Bool.false_eq_true, if_false]
  have normal := allocIn_spec rep (dma32Limit / 2 ^ 30) (secCountBelow (if limit = noLimit then noLimit / 2 else limit))
    (frameLimit limit) m.hintNormal
  have dma32 := allocIn_spec rep 0 (secCountBelow (min limit dma32Limit)) (min limit dma32Limit / frameSize) m.hintDma32
  have upper : Searched m (fun f => f < m.nsec * 2 ^ 18 ∧ Below limit 1 f ∧ 2 ^ 20 ≤ f ∧ ¬Unseen limit f)
      (if limit > dma32Limit then
        allocIn m (dma32Limit / 2 ^ 30) (secCountBelow (if limit = noLimit then noLimit / 2 else limit)) (frameLimit limit) m.hintNormal
      else none) := by
    have bound := rep.bound
    by_cases above : limit > dma32Limit
    · rw [if_pos above]
      refine normal.congr fun f => ?_
      unfold Below Unseen frameLimit noLimit dma32Limit frameSize
      generalize secCountBelow _ = sections
      split <;> omega
    · rw [if_neg above]
      rintro f ⟨_, below, high, _⟩
      unfold Below noLimit frameSize at below
      unfold dma32Limit at above
      omega
  clear normal
  have lower : ∀ f, (f < min limit dma32Limit / frameSize ∧ 0 ≤ f / 2 ^ 18 ∧
      f / 2 ^ 18 < min (secCountBelow (min limit dma32Limit)) m.nsec) ↔ f < m.nsec * 2 ^ 18 ∧ Below limit 1 f ∧ f < 2 ^ 20 := by
    intro f
    unfold Below secCountBelow noLimit dma32Limit frameSize
    omega
  have inside : ∀ g, isFree m g = true → g < m.nsec * 2 ^ 18 := by
    intro g free
    have := isFree_inside free
    omega
  cases found : (if limit > dma32Limit then
        allocIn m (dma32Limit / 2 ^ 30) (secCountBelow (if limit = noLimit then noLimit / 2 else limit)) (frameLimit limit) m.hintNormal
      else none) with
  | some result =>
    rw [found] at upper
    obtain ⟨m', f, hint⟩ := result
    obtain ⟨kept, takes, _, below, high, seen⟩ := upper
    have alike : Alike m' { m' with hintNormal := hint } := ⟨rfl, rfl, rfl, rfl, rfl⟩
    exact Or.inl ⟨f, rfl, kept.alike alike, takes.alike alike, below, seen, fun low => absurd high (by omega)⟩
  | none =>
    rw [found] at upper
    -- A free frame above 4 GiB would have been found had it been seen.
    have unseen : ∀ g, isFree m g = true → Below limit 1 g → 2 ^ 20 ≤ g → Unseen limit g := by
      intro g free below high
      by_contra seen
      exact Bool.noConfusion (free.symm.trans (upper g ⟨inside g free, below, high, seen⟩))
    replace dma32 := dma32.congr lower
    cases found' : allocIn m 0 (secCountBelow (min limit dma32Limit)) (min limit dma32Limit / frameSize) m.hintDma32 with
    | some result =>
      rw [found'] at dma32
      obtain ⟨m', f, hint⟩ := result
      obtain ⟨kept, takes, _, below, low⟩ := dma32
      have alike : Alike m' { m' with hintDma32 := hint } := ⟨rfl, rfl, rfl, rfl, rfl⟩
      refine Or.inl ⟨f, rfl, kept.alike alike, takes.alike alike, below, ?_, fun _ => unseen⟩
      unfold Unseen dma32Limit
      omega
    | none =>
      rw [found'] at dma32
      refine Or.inr ⟨rfl, fun g free below => unseen g free below ?_⟩
      by_contra low
      exact Bool.noConfusion (free.symm.trans (dma32 g ⟨inside g free, below, by omega⟩))

/-- Without a limit every section below 2^63 bytes is seen. -/
theorem all_seen (unseen : ∀ g, isFree m g = true → Below noLimit 1 g → Unseen noLimit g) (small : m.nsec ≤ 2 ^ 33) (f : Nat) :
    isFree m f = false := by
  cases free : isFree m f with
  | false => rfl
  | true =>
    have inside := isFree_inside free
    have late := (unseen f free (.inl rfl)).2
    have sections : secCountBelow (noLimit / 2) = 2 ^ 33 := by decide
    rw [if_pos rfl, sections] at late
    omega

/-- `count` free frames in a row from `f` on, all in one section. -/
structure RunAt (m : State) (count f : Nat) : Prop where
  fits : f % 2 ^ 18 + count ≤ 2 ^ 18
  free : ∀ g, f ≤ g → g < f + count → isFree m g = true

theorem RunAt.freeRun {count f : Nat} (run : RunAt m count f) (inside : index < m.nsec) (present : m.sec index = some s)
    (here : f / 2 ^ 18 = index) : FreeRun s (f % 2 ^ 18) count := by
  have fits := run.fits
  intro i after before
  have free := run.free (index * 2 ^ 18 + i) (by omega) (by omega)
  rw [isFree_at inside present (by omega), show (index * 2 ^ 18 + i) % 2 ^ 18 = i by omega] at free
  simpa using free

def RunSearched (m : State) (count : Nat) (searched : Nat → Prop) : Option (State × Nat) → Prop
  | some (m', f) => Rep m' ∧ Takes m m' f count ∧ searched f ∧ f % 2 ^ 18 + count ≤ 2 ^ 18
  | none => ∀ f, searched f → ¬RunAt m count f

theorem runInFrom_spec {fMax count : Nat} (rep : Rep m) (asked : 0 < count) (sections : List Nat) (inside : ∀ i ∈ sections, i < m.nsec)
    (sorted : sections.Pairwise (· < ·)) :
    RunSearched m count (fun f => f / 2 ^ 18 ∈ sections ∧ f + count ≤ fMax) (runInFrom m fMax count sections) := by
  induction sections with
  | nil => exact fun f searched => nomatch searched.1
  | cons index rest ih =>
    obtain ⟨first, sorted⟩ := List.pairwise_cons.mp sorted
    have later := ih (fun i member => inside i (List.mem_cons_of_mem _ member)) sorted
    have low := inside index List.mem_cons_self
    -- Nothing found in this section: the later ones decide.
    have skip : (∀ f, f / 2 ^ 18 = index → f + count ≤ fMax → ¬RunAt m count f) →
        RunSearched m count (fun f => f / 2 ^ 18 ∈ index :: rest ∧ f + count ≤ fMax) (runInFrom m fMax count rest) := by
      intro absent
      cases found : runInFrom m fMax count rest with
      | some result =>
        rw [found] at later
        exact ⟨later.1, later.2.1, ⟨List.mem_cons_of_mem _ later.2.2.1.1, later.2.2.1.2⟩, later.2.2.2⟩
      | none =>
        rw [found] at later
        rintro f ⟨member, below⟩
        rcases List.mem_cons.mp member with here | after
        · exact absent f here below
        · exact later f ⟨after, below⟩
    rw [runInFrom]
    cases present : m.sec index with
    | none =>
      refine skip fun f here _ run => ?_
      have free := run.free f le_rfl (by omega)
      unfold isFree secOf at free
      rw [here, present, if_pos low] at free
      exact nomatch free
    | some s =>
      have ok := rep.consistent.sections index low s present
      simp only
      split
      next few =>
        refine skip fun f here _ run => ?_
        have enough := (run.freeRun low present here).le_zeros run.fits
        rw [ok.counted] at few
        omega
      · split
        · rintro f ⟨member, below⟩
          have order : index ≤ f / 2 ^ 18 := by
            rcases List.mem_cons.mp member with here | after
            · exact here.ge
            · exact (first _ after).le
          omega
        · have scan : RunFound s (min (2 ^ 18) (fMax - index * 2 ^ 18)) count _ := runScan_spec asked
          cases found : runScan s (min (2 ^ 18) (fMax - index * 2 ^ 18)) count 0 0 0 with
          | none =>
            rw [found] at scan
            refine skip fun f here below run => ?_
            have fits := run.fits
            exact scan (f % 2 ^ 18) (Nat.le_min.mpr ⟨fits, by omega⟩) (run.freeRun low present here)
          | some start =>
            rw [found] at scan
            obtain ⟨fits, below⟩ := Nat.le_min.mp scan.1
            obtain ⟨kept, takes⟩ := rep.take low present (.refl s) fits scan.2
            have here : (index * 2 ^ 18 + start) / 2 ^ 18 ∈ index :: rest := by
              rw [show (index * 2 ^ 18 + start) / 2 ^ 18 = index by omega]
              exact List.mem_cons_self
            exact ⟨kept, takes, ⟨here, by omega⟩, by omega⟩

theorem runIn_spec {count : Nat} (rep : Rep m) (asked : 0 < count) (sLo sHi fMax : Nat) :
    RunSearched m count (fun f => f / 2 ^ 18 ∈ List.range' sLo (min sHi m.nsec - sLo) ∧ f + count ≤ fMax) (runIn m sLo sHi fMax count) := by
  refine runInFrom_spec rep asked _ ?_ pairwise_lt_range'
  intro i member
  have bounds := mem_range'_1.mp member
  omega

/-- `alloc_run_nolock_below` takes a free run of the length asked for; if it takes nothing there is none. -/
theorem allocRunNolockBelow_spec (rep : Rep m) (on : m.sectioned = true) (count limit : Nat) :
    (∃ f, (allocRunNolockBelow m count limit).2 = f * frameSize ∧ Rep (allocRunNolockBelow m count limit).1 ∧
        Takes m (allocRunNolockBelow m count limit).1 f count ∧ Below limit count f ∧ f % 2 ^ 18 + count ≤ 2 ^ 18) ∨
      (allocRunNolockBelow m count limit = (m, 0) ∧ (0 < count → ∀ f, Below limit count f → ¬RunAt m count f)) := by
  by_cases bad : count = 0 ∨ count > 2 ^ 18
  · refine Or.inr ⟨by rw [allocRunNolockBelow, if_pos bad], fun asked f _ run => ?_⟩
    have fits := run.fits
    omega
  · have asked : 0 < count := by omega
    have bound := rep.bound
    unfold allocRunNolockBelow
    simp only [bad, on, Bool.not_true, Bool.false_eq_true, if_false]
    have normal := runIn_spec rep asked (dma32Limit / 2 ^ 30) m.nsec (frameLimit limit)
    have dma32 := runIn_spec rep asked 0 (secCountBelow (min limit dma32Limit)) (min limit dma32Limit / frameSize)
    generalize upper : (if limit > dma32Limit then runIn m (dma32Limit / 2 ^ 30) m.nsec (frameLimit limit) count
      else none) = first
    cases first with
    | some result =>
      have above : limit > dma32Limit := by
        by_contra low
        rw [if_neg low] at upper
        exact nomatch upper
      rw [if_pos above] at upper
      rw [upper] at normal
      obtain ⟨kept, takes, ⟨_, below⟩, fits⟩ := normal
      refine Or.inl ⟨result.2, rfl, kept, takes, ?_, fits⟩
      unfold frameLimit frameSize at below
      unfold Below frameSize
      split at below <;> omega
    | none =>
      generalize lower : runIn m 0 (secCountBelow (min limit dma32Limit)) (min limit dma32Limit / frameSize) count = second
      rw [lower] at dma32
      cases second with
      | some result =>
        obtain ⟨kept, takes, ⟨_, below⟩, fits⟩ := dma32
        refine Or.inl ⟨result.2, rfl, kept, takes, ?_, fits⟩
        unfold frameSize at below
        unfold Below frameSize
        omega
      | none =>
        refine Or.inr ⟨rfl, fun _ f below run => ?_⟩
        have inside := isFree_inside (run.free f le_rfl (by omega))
        have fits := run.fits
        by_cases high : 4 ≤ f / 2 ^ 18
        · have above : limit > dma32Limit := by
            unfold Below noLimit frameSize at below
            unfold dma32Limit
            omega
          rw [if_pos above] at upper
          rw [upper] at normal
          refine normal f ⟨mem_range'_1.mpr ?_, ?_⟩ run
          · unfold dma32Limit
            omega
          · unfold Below noLimit frameSize at below
            unfold frameLimit noLimit frameSize
            split <;> omega
        · refine dma32 f ⟨mem_range'_1.mpr ?_, ?_⟩ run
          all_goals unfold Below noLimit frameSize at below
          · unfold secCountBelow dma32Limit
            omega
          · unfold dma32Limit frameSize
            omega

theorem Rep.give {f : Nat} (rep : Rep m) (found : secOf m f = some s) (used : s.used (f % 2 ^ 18) = true)
    (idle : ∀ q, chunkAt m q ≠ some f) (hinted : Rehinted (secMark s (f % 2 ^ 18) (f % 2 ^ 18 + 1) false).1 t) :
    Rep (giveFrame m (f / 2 ^ 18) t) ∧ Gives m (giveFrame m (f / 2 ^ 18) t) f := by
  have change : Replaced m (giveFrame m (f / 2 ^ 18) t) (f / 2 ^ 18) t := ⟨rfl, rfl, rfl⟩
  obtain ⟨inside, present⟩ := secOf_some found
  have low : f % 2 ^ 18 < 2 ^ 18 := Nat.mod_lt _ (by decide)
  have ok := rep.consistent.sections _ inside s present
  obtain ⟨marks, counted⟩ := marks_rehinted false ok (.refl s) hinted (Nat.le_succ _) low
  have changed := marks.released low used
  rw [changed] at marks
  obtain ⟨kept, same, bits⟩ := rep.mark change rfl inside present marks counted low
    (by rw [if_neg Bool.false_ne_true, giveFrame]) (fun _ q p chunk within => idle q (by rw [chunk]; congr 1; omega))
  refine ⟨kept, same, ?_⟩
  intro g
  rw [bits]
  by_cases here : g = f
  · rw [if_pos here, if_pos (by omega)]
    rfl
  · rw [if_neg here, if_neg (by omega)]

theorem freeOne_spec {f : Nat} (rep : Rep m) (idle : ∀ q, chunkAt m q ≠ some f) :
    Rep (freeOne m f) ∧ Same m (freeOne m f) ∧
      ∀ g, isFree (freeOne m f) g = if g = f ∧ managed m f = true then true else isFree m g := by
  unfold freeOne
  cases found : secOf m f with
  | none =>
    refine ⟨rep, .refl m, ?_⟩
    intro g
    rw [if_neg]
    rintro ⟨_, ours⟩
    rw [managed, found] at ours
    exact nomatch ours
  | some s =>
    have ours : managed m f = true := by rw [managed, found]; rfl
    by_cases used : s.used (f % 2 ^ 18) = true
    · have bit := used
      unfold Section.used at bit
      simp only [bit, if_true]
      have hinted : Rehinted (secMark s (f % 2 ^ 18) (f % 2 ^ 18 + 1) false).1
          (if (secMark s (f % 2 ^ 18) (f % 2 ^ 18 + 1) false).1.hint > f % 2 ^ 18 / 64 then
            { (secMark s (f % 2 ^ 18) (f % 2 ^ 18 + 1) false).1 with hint := f % 2 ^ 18 / 64 }
          else (secMark s (f % 2 ^ 18) (f % 2 ^ 18 + 1) false).1) := by
        split
        · exact ⟨⟨rfl, rfl⟩, rfl, rfl, rfl⟩
        · exact .refl _
      obtain ⟨kept, gives⟩ := rep.give found used idle hinted
      refine ⟨kept, gives.toSame, ?_⟩
      intro g
      simp only [ours, and_true]
      exact gives.bits g
    · have bit := used
      unfold Section.used at bit
      simp only [bit, Bool.false_eq_true, if_false]
      refine ⟨rep, .refl m, ?_⟩
      intro g
      split
      next here =>
        rw [here.1, isFree, found]
        simpa using used
      · rfl

theorem freeFrames_spec (frames : List Nat) (rep : Rep m) (idle : ∀ f ∈ frames, ∀ q, chunkAt m q ≠ some f) :
    Rep (frames.foldl freeOne m) ∧ Same m (frames.foldl freeOne m) ∧
      ∀ g, isFree (frames.foldl freeOne m) g = if g ∈ frames ∧ managed m g = true then true else isFree m g := by
  induction frames generalizing m with
  | nil => exact ⟨rep, .refl m, fun g => by simp⟩
  | cons f rest ih =>
    obtain ⟨kept, same, bits⟩ := freeOne_spec rep (idle f List.mem_cons_self)
    obtain ⟨kept', same', bits'⟩ := ih kept fun g member q => by
      rw [same.chunks]
      exact idle g (List.mem_cons_of_mem _ member) q
    refine ⟨kept', same.trans same', ?_⟩
    intro g
    rw [foldl_cons, bits', bits, same.managed]
    by_cases here : g = f
    · subst here
      by_cases ours : managed m g = true <;> simp [ours]
    · by_cases member : g ∈ rest <;> simp [here, member]

theorem freeContiguous_spec (rep : Rep m) (on : m.sectioned = true) (addr count : Nat)
    (idle : ∀ f, addr / frameSize ≤ f → f < (addr / frameSize + count) % 2 ^ 64 → ∀ q, chunkAt m q ≠ some f) :
    Rep (freeContiguous m addr count) ∧ Same m (freeContiguous m addr count) ∧
      ∀ g, isFree (freeContiguous m addr count) g =
        if (addr / frameSize ≤ g ∧ g < (addr / frameSize + count) % 2 ^ 64) ∧ managed m g = true then true else isFree m g := by
  unfold freeContiguous
  simp only [on, if_true]
  generalize (addr / frameSize + count) % 2 ^ 64 = stop at idle
  generalize addr / frameSize = base at idle
  have member : ∀ g, g ∈ List.range' base (stop - base) ↔ base ≤ g ∧ g < stop := by
    intro g
    rw [mem_range'_1]
    omega
  obtain ⟨kept, same, bits⟩ := freeFrames_spec (List.range' base (stop - base)) rep
    (fun f inside => idle f ((member f).mp inside).1 ((member f).mp inside).2)
  refine ⟨kept, same, ?_⟩
  intro g
  rw [bits]
  simp only [member]

end
end SecOS.Pmm
