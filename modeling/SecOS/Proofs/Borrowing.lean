import SecOS.Proofs.Faults
import SecOS.Proofs.Fork

/-! An address space that is built and given up again. Nobody shares its pages, so it has borrowed
all its frames, and destroying it repays them. -/

namespace SecOS.Vmm
open Library Pmm Function

/-- `rest` and `base` are the leaves and owners there were at `m0`, `leaves` and `tables`
what has been borrowed since. -/
structure Borrow (device : Nat → Prop) (m0 : Pmm.State) (rest base : Nat → Nat) (m : Pmm.State) (leaves tables : Nat → Nat) : Prop where
  acc : Accounts device m (fun f => rest f + leaves f) (fun f => base f + tables f)
  chunks : ∀ q, chunkAt m q = chunkAt m0 q
  lent : ∀ f, 0 < leaves f + tables f → isFree m0 f = true
  free : ∀ f, isFree m f = true ↔ isFree m0 f = true ∧ leaves f + tables f = 0
  mem : ∀ f, isFree m0 f = false → m.mem f = m0.mem f

/-- The same frames are free, shared as often, and the frames in use hold what they held. -/
structure Restored (m0 m : Pmm.State) : Prop where
  free : ∀ f, isFree m f = isFree m0 f
  count : ∀ f, count m f = count m0 f
  mem : ∀ f, isFree m0 f = false → m.mem f = m0.mem f

theorem Restored.refl (m : Pmm.State) : Restored m m := ⟨fun _ => rfl, fun _ => rfl, fun _ _ => rfl⟩

section
variable {device : Nat → Prop} {m0 m m' : Pmm.State} {rest base leaves tables : Nat → Nat} {f : Nat}

theorem Borrow.none (acc : Accounts device m0 rest base) : Borrow device m0 rest base m0 (fun _ => 0) (fun _ => 0) :=
  ⟨acc, fun _ => rfl, fun _ never => absurd never (Nat.lt_irrefl 0), fun _ => ⟨fun free => ⟨free, rfl⟩, fun both => both.1⟩, fun _ _ => rfl⟩

theorem Borrow.congr {leaves' tables' : Nat → Nat} (borrow : Borrow device m0 rest base m leaves tables)
    (l : ∀ g, leaves' g = leaves g) (t : ∀ g, tables' g = tables g) : Borrow device m0 rest base m leaves' tables' := by
  rw [funext l, funext t]
  exact borrow

theorem Borrow.count (start : Accounts device m0 rest base) (borrow : Borrow device m0 rest base m leaves tables) (f : Nat) :
    count m f = count m0 f := by
  unfold Pmm.count
  rw [borrow.chunks]
  cases chunk : chunkAt m0 (f / 4096) with
  | none => rfl
  | some p =>
    simp only
    rw [borrow.mem p (start.rep.held _ p chunk).2]

theorem Borrow.restored (start : Accounts device m0 rest base) (borrow : Borrow device m0 rest base m (fun _ => 0) (fun _ => 0)) :
    Restored m0 m := by
  refine ⟨fun f => ?_, borrow.count start, borrow.mem⟩
  rw [Bool.eq_iff_iff, borrow.free]
  exact ⟨fun both => both.1, fun free => ⟨free, rfl⟩⟩

section
variable (borrow : Borrow device m0 rest base m leaves tables)
include borrow

theorem Borrow.take :
    allocFrame m = (m, 0) ∨ ∃ f m', allocFrame m = (m', f * frameSize) ∧ f * frameSize ≠ 0 ∧ f < 2 ^ 40 ∧
      isFree m f = true ∧ Borrow device m0 rest base m' leaves (credit tables f) := by
  rcases borrow.acc.alloc with ⟨nothing, _⟩ | ⟨f, m', found, nonzero, small, takes, acc, loose⟩
  · exact .inl nothing
  · have was := takes.was f le_rfl (by omega)
    have unused := (borrow.free f).mp was
    refine .inr ⟨f, m', found, nonzero, small, was, ?_, ?_, ?_, ?_, ?_⟩
    · rw [← credit_rest]
      exact acc.postFixed loose
    · exact fun q => (takes.chunks q).trans (borrow.chunks q)
    · intro g posted
      by_cases same : g = f
      · exact same ▸ unused.1
      · rw [credit_apply, owns_some, if_neg same] at posted
        exact borrow.lent g posted
    · intro g
      rw [takes.bits, credit_apply, owns_some]
      by_cases same : g = f
      · rw [if_pos (by omega), if_pos same]
        exact ⟨nofun, fun both => absurd both.2 (by omega)⟩
      · rw [if_neg (by omega), if_neg same]
        exact borrow.free g
    · exact fun g held => (congrFun takes.mem g).trans (borrow.mem g held)

private theorem Borrow.given {leaves' tables' : Nat → Nat}
    (posted : 0 < leaves f + tables f) (gives : Gives m m' f)
    (acc : Accounts device m' (fun g => rest g + leaves' g) (fun g => base g + tables' g)) (here : leaves' f + tables' f = 0)
    (others : ∀ g, g ≠ f → leaves' g + tables' g = leaves g + tables g) : Borrow device m0 rest base m' leaves' tables' := by
  refine ⟨acc, fun q => (gives.chunks q).trans (borrow.chunks q), ?_, ?_, fun g held => (congrFun gives.mem g).trans (borrow.mem g held)⟩
  · intro g some
    have other : g ≠ f := by
      rintro rfl
      omega
    exact borrow.lent g (others g other ▸ some)
  · intro g
    rw [gives.bits]
    by_cases same : g = f
    · rw [if_pos same, same]
      exact ⟨fun _ => ⟨borrow.lent f posted, here⟩, fun _ => rfl⟩
    · rw [if_neg same, others g same]
      exact borrow.free g

theorem Borrow.repay (posted : 0 < tables f) :
    Borrow device m0 rest base (freeFrame m (f * frameSize)) leaves (debit tables f) := by
  obtain ⟨acc, gives⟩ := borrow.acc.freeFixed (f := f) (by omega)
  have single := borrow.acc.single f (by omega)
  refine borrow.given (by omega) gives ?_ ?_ ?_
  · rwa [debit_rest posted] at acc
  · rw [debit_apply, owns_self]
    omega
  · intro g other
    rw [debit_apply, owns_some, if_neg other, Nat.sub_zero]

end

section
variable (start : Accounts device m0 rest base)
include start

theorem Borrow.drop (borrow : Borrow device m0 rest base m leaves tables) (posted : 0 < leaves f) :
    Borrow device m0 rest base (dropFrame m (f * frameSize)) (debit leaves f) tables := by
  obtain ⟨acc, dropped⟩ := borrow.acc.drop (f := f) (by omega)
  have zero : Pmm.count m f = 0 := (borrow.count start f).trans (start.free f (borrow.lent f (by omega))).2.2.1
  have counts := borrow.acc.counts f
  have unowned : base f + tables f = 0 := by
    by_contra owned
    have single := borrow.acc.single f (Nat.pos_of_ne_zero owned)
    omega
  cases dropped with
  | shared _ was => omega
  | freed _ gives =>
    refine borrow.given (by omega) gives ?_ ?_ ?_
    · rwa [debit_rest posted] at acc
    · rw [debit_apply, owns_self]
      omega
    · intro g other
      rw [debit_apply, owns_some, if_neg other, Nat.sub_zero]

theorem borrow_settles : Settles (Borrow device m0 rest base) where
  drop borrow posted := borrow.drop start posted
  free borrow posted := borrow.repay posted

theorem Borrow.destroyed {s : Space} (borrow : Borrow device m0 rest base m s.leaves s.tables) :
    Restored m0 (spaceDestroy m s) :=
  Borrow.restored start (spaceDestroy_settles (borrow_settles start) borrow)

end

theorem Borrow.write (borrow : Borrow device m0 rest base m leaves tables) (posted : 0 < leaves f + tables f) (row : Nat → UInt8) :
    Borrow device m0 rest base { m with mem := update m.mem f row } leaves tables := by
  have idle := (borrow.acc.held (f := f) (by omega)).2
  refine ⟨borrow.acc.write idle row, borrow.chunks, borrow.lent, borrow.free, fun g held => ?_⟩
  have other : g ≠ f := by
    rintro rfl
    rw [borrow.lent g posted] at held
    exact nomatch held
  exact (update_of_ne other row m.mem).trans (borrow.mem g held)

theorem Borrow.place (borrow : Borrow device m0 rest base m leaves tables) (posted : 0 < tables f) :
    Borrow device m0 rest base m (credit leaves f) (debit tables f) := by
  obtain ⟨off, loose⟩ := borrow.acc.unpostFixed (f := f) (by omega)
  have placed := off.postLeaf loose
  have single := borrow.acc.single f (by omega)
  have sum : ∀ g, credit leaves f g + debit tables f g = leaves g + tables g := by
    intro g
    rw [credit_apply, debit_apply, owns_some]
    split
    next same => subst same; omega
    · omega
  refine ⟨?_, borrow.chunks, fun g some => borrow.lent g (sum g ▸ some), fun g => ?_, borrow.mem⟩
  · rw [credit_rest] at placed
    rwa [debit_rest posted] at placed
  · rw [sum]
    exact borrow.free g

/-- Tables added while walking the space; `hold` are the frames on their way into it. -/
theorem Borrow.grow {s s' : Space} {hold : Nat → Nat} (borrow : Borrow device m0 rest base m leaves (fun g => s.tables g + hold g))
    (grown : Grown device (fun g => rest g + leaves g) (fun g => base g + hold g) m s m' s') :
    Borrow device m0 rest base m' leaves (fun g => s'.tables g + hold g) := by
  refine ⟨?_, fun q => (grown.same.chunks q).trans (borrow.chunks q), ?_, ?_,
    fun g held => (congrFun grown.same.mem g).trans (borrow.mem g held)⟩
  · have acc := grown.acc
    rwa [show (fun g => base g + hold g + s'.tables g) = fun g => base g + (s'.tables g + hold g) from funext fun g => by omega] at acc
  · intro g posted
    rcases grown.new g with same | free
    · exact borrow.lent g (same ▸ posted)
    · exact ((borrow.free g).mp free).1
  · intro g
    rw [grown.free, borrow.free]
    have bound := grown.more g
    refine ⟨fun all => ⟨all.1.1, by omega⟩, fun both => ⟨⟨both.1, by omega⟩, by omega⟩⟩

/-- What `vmm_space_create_user` can do: give everything back, hand out a space, or lose its
two tables when the kernel heap is exhausted. -/
inductive Lent (device : Nat → Prop) (m : Pmm.State) (rest base : Nat → Nat) (heapOk : Bool) : Pmm.State × Option Space → Prop
  | refused {m' : Pmm.State} (borrow : Borrow device m rest base m' (fun _ => 0) (fun _ => 0)) (short : twoFrames m = false) :
      Lent device m rest base heapOk (m', none)
  | lost {m' : Pmm.State} (heap : heapOk = false) (taken : ∃ f, isFree m f = true ∧ isFree m' f = false) (enough : twoFrames m = true) :
      Lent device m rest base heapOk (m', none)
  | made {m' : Pmm.State} (pml4 pdpt : Nat) (heap : heapOk = true)
      (borrow : Borrow device m rest base m' (emptySpace pml4 pdpt).leaves (emptySpace pml4 pdpt).tables) :
      Lent device m rest base heapOk (m', some (emptySpace pml4 pdpt))

theorem spaceCreateUser_lent (start : Accounts device m0 rest base) (heapOk : Bool) :
    Lent device m0 rest base heapOk (spaceCreateUser m0 heapOk) := by
  have place := frame_div
  unfold spaceCreateUser
  rcases (Borrow.none start).take with nothing | ⟨f, m1, found, nonzero, _, was, first⟩
  · simp only [nothing, if_true]
    exact .refused (.none start) (by simp [twoFrames, nothing])
  · simp only [found, nonzero, if_false]
    rcases first.take with nothing | ⟨g, m2, found', nonzero', _, _, second⟩
    · simp only [nothing, if_true]
      have back := first.repay (f := f) (by rw [credit_apply, owns_self]; omega)
      refine .refused (back.congr (fun _ => rfl) fun h => ?_) (by simp [twoFrames, found, nothing])
      rw [debit_apply, credit_apply]
      omega
    · simp only [found', nonzero', if_false, place]
      cases heapOk with
      | true =>
        refine .made f g rfl (second.congr (fun h => congrFun (emptySpace_leaves f g) h) fun h => ?_)
        simp only [emptySpace_tables, credit_apply]
        omega
      | false =>
        refine .lost rfl ⟨f, was, ?_⟩ (by simp [twoFrames, found, found', nonzero, nonzero'])
        have free := second.free f
        rw [credit_apply, credit_apply, owns_self] at free
        cases bit : isFree m2 f with
        | false => rfl
        | true =>
          have none := (free.mp bit).2
          omega

end
end SecOS.Vmm

namespace SecOS.Vma
open Library Pmm Vmm PageCache Function

/-- A region of an image or of plain memory: its faults use neither devices nor the page cache. -/
def Private (v : Vma) : Prop := v.type ≠ .phys ∧ v.fileInode = 0

section
variable {device : Nat → Prop} {m0 m : Pmm.State} {rest base : Nat → Nat} {c : Cache} {s : Space}

theorem fillFrame_private (m : Pmm.State) (c : Cache) (env : Env) {v : Vma} (own : Private v) (pg frame : Nat) :
    ∃ row, fillFrame m c env v pg frame = ({ m with mem := update m.mem frame row }, c) := by
  unfold fillFrame
  rw [if_neg (fun both => both.2 own.2)]
  split
  · exact ⟨_, rfl⟩
  · exact ⟨_, rfl⟩

def Ordinary (s : Space) : Prop := ∀ page ∈ window, (s.pte page).has flagDevice = false

theorem faultIn_borrow (borrow : Borrow device m0 rest base m s.leaves s.tables) (ordinary : Ordinary s) (env : Env) {v : Vma}
    (own : Private v) {addr : Nat} (inside : addr / 4096 ∈ window) :
    (faultIn m c s env v addr).2.1 = c ∧
      Borrow device m0 rest base (faultIn m c s env v addr).1 (faultIn m c s env v addr).2.2.1.leaves (faultIn m c s env v addr).2.2.1.tables ∧
      Ordinary (faultIn m c s env v addr).2.2.1 := by
  unfold faultIn
  generalize addr / 4096 = page at inside
  simp only
  split
  · exact ⟨rfl, borrow, ordinary⟩
  split
  · exact ⟨rfl, borrow, ordinary⟩
  rw [if_neg own.1]
  rcases borrow.take with nothing | ⟨f, m1, found, nonzero, small, _, taken⟩
  · rw [nothing]
    exact ⟨rfl, borrow, ordinary⟩
  · have place := frame_div f
    obtain ⟨row, filled⟩ := fillFrame_private m1 c env own (page * 4096) f
    simp only [found, nonzero, if_false, place, filled]
    -- The frame is on its way into the space.
    have written := taken.write (f := f) (by rw [credit_apply, owns_self]; omega) row
    generalize ({ m1 with mem := update m1.mem f row } : Pmm.State) = m2 at written
    have held : Borrow device m0 rest base m2 s.leaves (fun g => s.tables g + Space.owns (some f) g) :=
      written.congr (fun _ => rfl) fun g => (credit_apply s.tables f g).symm
    have books : Accounts device m2 (fun g => rest g + s.leaves g) (fun g => base g + Space.owns (some f) g + s.tables g) := by
      have acc := held.acc
      rwa [show (fun g => base g + (s.tables g + Space.owns (some f) g)) = fun g => base g + Space.owns (some f) g + s.tables g from
        funext fun g => by omega] at acc
    have outcome := mapInSpace_mapping books inside (f * frameSize) v.flags.word
    generalize mapInSpace m2 s (page * 4096) _ _ = r at outcome
    cases outcome with
    | refused grown failed =>
      simp only [if_pos failed]
      have back := (held.grow grown).repay (f := f) (by rw [owns_self]; omega)
      refine ⟨trivial, back.congr (leaves_congr grown.pte) fun g => ?_, ?_⟩
      · rw [debit_apply]
        omega
      · intro p window
        rw [grown.pte]
        exact ordinary p window
    | @placed m3 s3 grown above empty =>
      obtain ⟨leaf, plain⟩ := region_leaf v.flags small
      simp only [ne_eq, not_true_eq_false, if_false]
      have placed := (held.grow grown).place (f := f) (by rw [owns_self]; omega)
      have vacant : owner (s3.pte page) = none := by
        rw [grown.pte]
        exact owner_empty empty
      refine ⟨trivial, placed.congr (fun g => ?_) (fun g => ?_), ?_⟩
      · have sum := leaves_setPte (w := (physWord (f * frameSize) &&& addressMask) ||| (v.flags.word &&& ~~~flagPs) ||| flagPresent)
          above inside g
        rw [vacant, leaf, owns_none, Nat.add_zero, leaves_congr grown.pte] at sum
        rw [sum, credit_apply]
      · rw [tables_setPte, debit_apply]
        omega
      · intro p window
        rw [setPte_pte above]
        by_cases here : p = page
        · rw [here, update_self]
          exact plain
        · rw [update_of_ne here, grown.pte]
          exact ordinary p window

end
end SecOS.Vma
