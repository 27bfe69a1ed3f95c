import SecOS.Proofs.PmmSearch

/-! The representation invariant of the physical memory manager, and the two ways an operation may
change a section: its bits, or one of its reference-count chunks. -/

namespace SecOS.Pmm
open Library Function Option

def managed (m : State) (f : Nat) : Bool := (secOf m f).isSome

def isFree (m : State) (f : Nat) : Bool :=
  match secOf m f with
  | some s => !s.used (f % 2 ^ 18)
  | none => false

/-- The frame that backs reference-count chunk `q`, the counts of frames `4096 * q` onwards. -/
def chunkAt (m : State) (q : Nat) : Option Nat :=
  (secOf m (q * 4096)).bind (fun s => s.refs (q % 64))

def count (m : State) (f : Nat) : Nat :=
  match chunkAt m (f / 4096) with
  | some p => (m.mem p (f % 4096)).toNat
  | none => 0

def nonzeros (row : Nat → UInt8) : Nat := ((Finset.range 4096).filter (fun k => row k ≠ 0)).card

def shared (mem : Nat → Nat → UInt8) : Option Nat → Nat
  | some p => nonzeros (mem p)
  | none => 0

structure SectionOk (mem : Nat → Nat → UInt8) (s : Section) : Prop where
  counted : s.free = s.zeros
  summarized : s.Summarized
  present : ∀ c < 64, s.refs c ≠ none ↔ 0 < s.refsUsed c
  shares : ∀ c < 64, s.refsUsed c = shared mem (s.refs c)

def sectionFree : Option Section → Nat
  | some s => s.free
  | none => 0

/-- The four encodings of the free frames agree, and so do the two of the shared ones. -/
structure Consistent (m : State) : Prop where
  sections : ∀ index < m.nsec, ∀ s, m.sec index = some s → SectionOk m.mem s
  total : m.freeFrames = ∑ index ∈ Finset.range m.nsec, sectionFree (m.sec index)

/-- What keeps the encodings consistent: a chunk is a used frame of its own. -/
structure Rep (m : State) : Prop where
  consistent : Consistent m
  bound : m.nsec ≤ 2 ^ 34
  held : ∀ q p, chunkAt m q = some p → managed m p = true ∧ isFree m p = false
  distinct : ∀ q r p, chunkAt m q = some p → chunkAt m r = some p → q = r

structure Replaced (m m' : State) (index : Nat) (t : Section) : Prop where
  sec : m'.sec = update m.sec index (some t)
  nsec : m'.nsec = m.nsec
  sectioned : m'.sectioned = m.sectioned

section
variable {m m' : State} {index : Nat} {s t : Section}

variable {f : Nat}

theorem Replaced.secOf_here (change : Replaced m m' index t) (inside : index < m.nsec) (here : f / 2 ^ 18 = index) :
    secOf m' f = some t := by
  unfold secOf
  rw [change.nsec, change.sec, here, if_pos inside, update_self]

theorem Replaced.secOf_other (change : Replaced m m' index t) (other : f / 2 ^ 18 ≠ index) :
    secOf m' f = secOf m f := by
  unfold secOf
  rw [change.nsec, change.sec, update_of_ne other]

theorem secOf_at (inside : index < m.nsec) (present : m.sec index = some s) (here : f / 2 ^ 18 = index) :
    secOf m f = some s := by
  unfold secOf
  rw [here, if_pos inside, present]

theorem secOf_some (found : secOf m f = some s) : f / 2 ^ 18 < m.nsec ∧ m.sec (f / 2 ^ 18) = some s := by
  unfold secOf at found
  split at found
  next inside => exact ⟨inside, found⟩
  · exact nomatch found

theorem Replaced.managed (change : Replaced m m' index t) (inside : index < m.nsec) (present : m.sec index = some s) (f : Nat) :
    Pmm.managed m' f = Pmm.managed m f := by
  unfold Pmm.managed
  by_cases here : f / 2 ^ 18 = index
  · rw [change.secOf_here inside here, secOf_at inside present here]
    rfl
  · rw [change.secOf_other here]

theorem Replaced.isFree_here (change : Replaced m m' index t) (inside : index < m.nsec) (here : f / 2 ^ 18 = index) :
    isFree m' f = !t.used (f % 2 ^ 18) := by
  unfold isFree
  rw [change.secOf_here inside here]

theorem Replaced.isFree_other (change : Replaced m m' index t) (other : f / 2 ^ 18 ≠ index) :
    isFree m' f = isFree m f := by
  unfold isFree
  rw [change.secOf_other other]

theorem isFree_at (inside : index < m.nsec) (present : m.sec index = some s) (here : f / 2 ^ 18 = index) :
    isFree m f = !s.used (f % 2 ^ 18) := by
  unfold isFree
  rw [secOf_at inside present here]

section
variable (change : Replaced m m' index t) (inside : index < m.nsec) (present : m.sec index = some s)
include change inside present

theorem Replaced.chunkAt (refs : t.refs = s.refs) (q : Nat) : Pmm.chunkAt m' q = Pmm.chunkAt m q := by
  unfold Pmm.chunkAt
  by_cases here : q * 4096 / 2 ^ 18 = index
  · rw [change.secOf_here inside here, secOf_at inside present here]
    exact congrFun refs _
  · rw [change.secOf_other here]

theorem Replaced.total (consistent : Consistent m) (moved : m'.freeFrames + s.free = m.freeFrames + t.free) :
    m'.freeFrames = ∑ i ∈ Finset.range m'.nsec, sectionFree (m'.sec i) := by
  have sum := sum_update _ m.sec sectionFree (Finset.mem_range.mpr inside) (some t)
  rw [← consistent.total, present] at sum
  rw [change.nsec, change.sec]
  change _ + s.free = m.freeFrames + t.free at sum
  omega

end

theorem Rep.replace_bits (rep : Rep m) (change : Replaced m m' index t) (mem : m'.mem = m.mem) (inside : index < m.nsec)
    (present : m.sec index = some s) (refs : t.refs = s.refs) (refsUsed : t.refsUsed = s.refsUsed)
    (counted : t.free = t.zeros) (summarized : t.Summarized)
    (moved : m'.freeFrames + s.free = m.freeFrames + t.free)
    (kept : ∀ q p, chunkAt m q = some p → p / 2 ^ 18 = index → t.used (p % 2 ^ 18) = true) : Rep m' := by
  have chunks := change.chunkAt inside present refs
  have old := rep.consistent.sections index inside s present
  refine ⟨⟨?_, change.total inside present rep.consistent moved⟩, change.nsec ▸ rep.bound, ?_, ?_⟩
  · intro i bound u found
    rw [change.nsec] at bound
    rw [change.sec] at found
    rw [mem]
    by_cases same : i = index
    · subst same
      rw [update_self] at found
      have equal := Option.some.inj found
      subst equal
      exact ⟨counted, summarized, by rw [refs, refsUsed]; exact old.present, by rw [refs, refsUsed]; exact old.shares⟩
    · rw [update_of_ne same] at found
      exact rep.consistent.sections i bound u found
  · intro q p found
    rw [chunks] at found
    obtain ⟨ours, busy⟩ := rep.held q p found
    refine ⟨(change.managed inside present p).trans ours, ?_⟩
    by_cases here : p / 2 ^ 18 = index
    · rw [change.isFree_here inside here, kept q p found here]
      rfl
    · rw [change.isFree_other here]
      exact busy
  · intro q r p first second
    rw [chunks] at first second
    exact rep.distinct q r p first second

theorem chunkAt_at {c : Nat} (inside : index < m.nsec) (present : m.sec index = some s) (low : c < 64) :
    chunkAt m (index * 64 + c) = s.refs c := by
  unfold chunkAt
  have slot : (index * 64 + c) % 64 = c := by omega
  rw [secOf_at inside present (by omega), bind_some, slot]

theorem Replaced.chunkAt_other {c q : Nat} {r : Option Nat} (change : Replaced m m' index t) (inside : index < m.nsec)
    (present : m.sec index = some s) (refs : t.refs = update s.refs c r) (other : q ≠ index * 64 + c) :
    Pmm.chunkAt m' q = Pmm.chunkAt m q := by
  unfold Pmm.chunkAt
  by_cases here : q * 4096 / 2 ^ 18 = index
  · have slot : q % 64 ≠ c := by omega
    rw [change.secOf_here inside here, secOf_at inside present here, bind_some, bind_some, refs,
      update_of_ne slot]
  · rw [change.secOf_other here]

private theorem shared_congr {mem mem' : Nat → Nat → UInt8} {slot : Option Nat} (same : ∀ p, slot = some p → mem' p = mem p) :
    shared mem' slot = shared mem slot := by
  cases slot with
  | none => rfl
  | some p => simp only [shared, same p rfl]

/-- Replacing one chunk of a section: its slot and the number of frames it counts. -/
theorem Rep.replace_chunk {c n : Nat} {r : Option Nat} (rep : Rep m) (change : Replaced m m' index t)
    (same : m'.freeFrames = m.freeFrames) (inside : index < m.nsec) (present : m.sec index = some s) (low : c < 64)
    (shape : t = { s with refs := update s.refs c r, refsUsed := update s.refsUsed c n })
    (others : ∀ q p, chunkAt m q = some p → q ≠ index * 64 + c → m'.mem p = m.mem p)
    (slot : r ≠ none ↔ 0 < n) (number : n = shared m'.mem r)
    (mine : ∀ p, r = some p → managed m p = true ∧ isFree m p = false ∧ ∀ q ≠ index * 64 + c, chunkAt m q ≠ some p) :
    Rep m' := by
  have old := rep.consistent.sections index inside s present
  have refs : t.refs = update s.refs c r := by rw [shape]
  have bits : t.bitmap = s.bitmap := by rw [shape]
  have free : ∀ f, isFree m' f = isFree m f := by
    intro f
    by_cases here : f / 2 ^ 18 = index
    · rw [change.isFree_here inside here, isFree_at inside present here, shape]
      rfl
    · exact change.isFree_other here
  have here : chunkAt m' (index * 64 + c) = r := by
    rw [chunkAt_at (change.nsec ▸ inside) (by rw [change.sec, update_self]) low, refs, update_self]
  have elsewhere := fun q other => change.chunkAt_other (q := q) inside present refs other
  refine ⟨⟨?_, change.total inside present rep.consistent (by rw [same, shape])⟩, change.nsec ▸ rep.bound, ?_, ?_⟩
  · intro i bound u found
    rw [change.nsec] at bound
    rw [change.sec] at found
    by_cases equal : i = index
    · subst equal
      rw [update_self] at found
      have this := Option.some.inj found
      subst this
      refine ⟨?_, ?_, ?_, ?_⟩
      · rw [zeros_congr bits, ← old.counted, shape]
      · have summarized := old.summarized
        rw [shape]
        exact summarized
      · intro d bound
        rw [shape]
        by_cases chunk : d = c
        · subst chunk
          simpa only [update_self] using slot
        · simpa only [update_of_ne chunk] using old.present d bound
      · intro d bound
        rw [shape]
        by_cases chunk : d = c
        · subst chunk
          simpa only [update_self] using number
        · simp only [update_of_ne chunk]
          rw [old.shares d bound]
          refine (shared_congr (fun p found => ?_)).symm
          exact others (i * 64 + d) p ((chunkAt_at inside present bound).trans found) (by omega)
    · rw [update_of_ne equal] at found
      have ok := rep.consistent.sections i bound u found
      refine ⟨ok.counted, ok.summarized, ok.present, ?_⟩
      intro d low
      rw [ok.shares d low]
      refine (shared_congr (fun p slot => ?_)).symm
      exact others (i * 64 + d) p ((chunkAt_at bound found low).trans slot) (by omega)
  · intro q p found
    rw [change.managed inside present, free]
    by_cases chunk : q = index * 64 + c
    · subst chunk
      rw [here] at found
      exact ⟨(mine p found).1, (mine p found).2.1⟩
    · rw [elsewhere q chunk] at found
      exact rep.held q p found
  · intro q r' p first second
    by_cases left : q = index * 64 + c <;> by_cases right : r' = index * 64 + c
    · exact left.trans right.symm
    · rw [left, here] at first
      rw [elsewhere r' right] at second
      exact absurd second ((mine p first).2.2 r' right)
    · rw [right, here] at second
      rw [elsewhere q left] at first
      exact absurd first ((mine p second).2.2 q left)
    · rw [elsewhere q left] at first
      rw [elsewhere r' right] at second
      exact rep.distinct q r' p first second

theorem Rep.write (rep : Rep m) (idle : ∀ q, chunkAt m q ≠ some f) (row : Nat → UInt8) :
    Rep { m with mem := update m.mem f row } := by
  refine ⟨⟨?_, rep.consistent.total⟩, rep.bound, rep.held, rep.distinct⟩
  intro i inside s present
  have ok := rep.consistent.sections i inside s present
  refine ⟨ok.counted, ok.summarized, ok.present, ?_⟩
  intro c low
  rw [ok.shares c low]
  refine (shared_congr fun p slot => update_of_ne ?_ _ _).symm
  rintro rfl
  exact idle _ ((chunkAt_at inside present low).trans slot)

end
end SecOS.Pmm
