import SecOS.Proofs.PmmCounts
import SecOS.Vmm

/-! Frame accounting. A ledger says how many user leaves hold each frame (`leaves`) and how many
kernel structures own it (`fixed`: page tables and the page cache). -/

namespace SecOS.Vmm
open Library Pmm
open Function (update update_of_ne update_self)

/-- The physical memory manager and the ledger agree. `device` are frames outside
its memory that user space may map. -/
structure Accounts (device : Nat → Prop) (m : Pmm.State) (leaves fixed : Nat → Nat) : Prop where
  rep : Rep m
  on : m.sectioned = true
  small : m.nsec ≤ 2 ^ 22
  origin : isFree m 0 = false ∧ ∀ q, chunkAt m q ≠ some 0
  free : ∀ f, isFree m f = true → leaves f = 0 ∧ fixed f = 0 ∧ count m f = 0 ∧ ¬device f
  chunk : ∀ q f, chunkAt m q = some f → leaves f = 0 ∧ fixed f = 0 ∧ count m f = 0 ∧ ¬device f
  owned : ∀ f, 0 < leaves f + fixed f → managed m f = true ∧ f ≠ 0 ∧ ¬device f
  single : ∀ f, 0 < fixed f → fixed f = 1 ∧ leaves f = 0 ∧ count m f = 0
  counts : ∀ f, count m f = 255 ∨ count m f = leaves f - 1

structure Loose (device : Nat → Prop) (m : Pmm.State) (leaves fixed : Nat → Nat) (f : Nat) : Prop where
  managed : managed m f = true
  taken : isFree m f = false
  idle : ∀ q, chunkAt m q ≠ some f
  unposted : leaves f = 0 ∧ fixed f = 0 ∧ count m f = 0
  ordinary : f ≠ 0 ∧ ¬device f

def credit (ledger : Nat → Nat) (f : Nat) : Nat → Nat := update ledger f (ledger f + 1)
def debit (ledger : Nat → Nat) (f : Nat) : Nat → Nat := update ledger f (ledger f - 1)

section
variable {device : Nat → Prop} {m m' : Pmm.State} {leaves fixed : Nat → Nat} {f : Nat}

theorem managed_small (small : m.nsec ≤ 2 ^ 22) (ours : managed m f = true) : f < 2 ^ 40 := by
  unfold managed at ours
  obtain ⟨s, found⟩ := Option.isSome_iff_exists.mp ours
  have inside := (secOf_some found).1
  omega

theorem free_managed (free : isFree m f = true) : managed m f = true := by
  unfold isFree at free
  unfold managed
  split at free
  next found => rw [found]; rfl
  · exact nomatch free

def Unused (m : Pmm.State) (f : Nat) : Prop := isFree m f = true ∨ ∃ q, chunkAt m q = some f

theorem not_unused : ¬Unused m f ↔ isFree m f = false ∧ ∀ q, chunkAt m q ≠ some f := by
  unfold Unused
  rw [not_or, not_exists, Bool.not_eq_true]

section
variable (acc : Accounts device m leaves fixed)
include acc

theorem Accounts.unused (idle : Unused m f) : (leaves f = 0 ∧ fixed f = 0 ∧ count m f = 0 ∧ ¬device f) ∧ f ≠ 0 := by
  rcases idle with free | ⟨q, chunk⟩
  · refine ⟨acc.free f free, ?_⟩
    rintro rfl
    rw [acc.origin.1] at free
    exact nomatch free
  · refine ⟨acc.chunk q f chunk, ?_⟩
    rintro rfl
    exact acc.origin.2 q chunk

theorem Accounts.held (posted : 0 < leaves f + fixed f) : isFree m f = false ∧ ∀ q, chunkAt m q ≠ some f := by
  refine not_unused.mp fun idle => ?_
  obtain ⟨⟨none, none', _⟩, _⟩ := acc.unused idle
  omega

theorem Accounts.apart (special : device f) :
    isFree m f = false ∧ ∀ q, chunkAt m q ≠ some f :=
  not_unused.mp fun idle => (acc.unused idle).1.2.2.2 special

theorem Accounts.change {leaves' fixed' : Nat → Nat} (f : Nat) (kept : Rep m')
    (on : m'.sectioned = m.sectioned) (nsec : m'.nsec = m.nsec) (ours : ∀ g, managed m' g = managed m g)
    (others : ∀ g ≠ f, leaves' g = leaves g ∧ fixed' g = fixed g ∧ count m' g = count m g ∧ (Unused m' g → Unused m g))
    (unused : Unused m' f → (leaves' f = 0 ∧ fixed' f = 0 ∧ count m' f = 0 ∧ ¬device f) ∧ f ≠ 0)
    (owned : 0 < leaves' f + fixed' f → managed m f = true ∧ f ≠ 0 ∧ ¬device f)
    (single : 0 < fixed' f → fixed' f = 1 ∧ leaves' f = 0 ∧ count m' f = 0)
    (counts : count m' f = 255 ∨ count m' f = leaves' f - 1) : Accounts device m' leaves' fixed' := by
  have idle : ∀ g, Unused m' g → (leaves' g = 0 ∧ fixed' g = 0 ∧ count m' g = 0 ∧ ¬device g) ∧ g ≠ 0 := by
    intro g spare
    by_cases same : g = f
    · exact same ▸ unused (same ▸ spare)
    · obtain ⟨l, x, c, was⟩ := others g same
      rw [l, x, c]
      exact acc.unused (was spare)
  refine ⟨kept, on.trans acc.on, nsec ▸ acc.small, ⟨?_, fun q chunk => (idle 0 (.inr ⟨q, chunk⟩)).2 rfl⟩,
    fun g free => (idle g (.inl free)).1, fun q g chunk => (idle g (.inr ⟨q, chunk⟩)).1, ?_, ?_, ?_⟩
  · exact Bool.eq_false_iff.mpr fun free => (idle 0 (.inl free)).2 rfl
  all_goals
    intro g
    by_cases same : g = f
  · rw [same, ours]
    exact owned
  · obtain ⟨l, x, _⟩ := others g same
    rw [l, x, ours]
    exact acc.owned g
  · rw [same]
    exact single
  · obtain ⟨l, x, c, _⟩ := others g same
    rw [l, x, c]
    exact acc.single g
  · rw [same]
    exact counts
  · obtain ⟨l, _, c, _⟩ := others g same
    rw [l, c]
    exact acc.counts g

theorem Accounts.alloc :
    (allocFrame m = (m, 0) ∧ ∀ g, isFree m g = false) ∨
      ∃ f m', allocFrame m = (m', f * frameSize) ∧ f * frameSize ≠ 0 ∧ f < 2 ^ 40 ∧ Takes m m' f 1 ∧
        Accounts device m' leaves fixed ∧ Loose device m' leaves fixed f := by
  unfold allocFrame
  rcases allocFrameNolockBelow_spec acc.rep acc.on noLimit with ⟨f, address, kept, takes, _⟩ | ⟨nothing, unseen⟩
  · right
    generalize allocFrameNolockBelow m noLimit = result at address kept takes
    obtain ⟨m', p⟩ := result
    simp only at address kept takes
    have was : isFree m f = true := takes.was f le_rfl (by omega)
    have ours := free_managed was
    have same := takes.toSame.count
    obtain ⟨⟨noLeaf, noFixed, zero, apart⟩, nonzero⟩ := acc.unused (.inl was)
    have taken : isFree m' f = false := by rw [takes.bits, if_pos (by omega)]
    have idle : ∀ q, chunkAt m' q ≠ some f := by
      intro q chunk
      have busy := (acc.rep.held q f ((takes.chunks q).symm.trans chunk)).2
      rw [was] at busy
      exact nomatch busy
    refine ⟨f, m', by rw [address], by unfold frameSize; omega, managed_small acc.small ours, takes, ?_,
      (takes.managed f).trans ours, taken, idle, ⟨noLeaf, noFixed, (same f).trans zero⟩, nonzero, apart⟩
    refine acc.change f kept takes.sectioned takes.nsec takes.managed (fun g other => ⟨rfl, rfl, same g, ?_⟩)
      (fun spare => absurd spare (not_unused.mpr ⟨taken, idle⟩)) (acc.owned f) (same f ▸ acc.single f) (same f ▸ acc.counts f)
    unfold Unused
    simp only [takes.bits, takes.chunks, if_neg (show ¬(f ≤ g ∧ g < f + 1) by omega), imp_self]
  · exact Or.inl ⟨nothing, all_seen unseen (Nat.le_trans acc.small (by decide))⟩

theorem Accounts.post {leaves' fixed' : Nat → Nat} (taken : isFree m f = false)
    (idle : ∀ q, chunkAt m q ≠ some f) (others : ∀ g ≠ f, leaves' g = leaves g ∧ fixed' g = fixed g)
    (owned : managed m f = true ∧ f ≠ 0 ∧ ¬device f) (single : 0 < fixed' f → fixed' f = 1 ∧ leaves' f = 0 ∧ count m f = 0)
    (counts : count m f = 255 ∨ count m f = leaves' f - 1) : Accounts device m leaves' fixed' :=
  acc.change f acc.rep rfl rfl (fun _ => rfl) (fun g other => ⟨(others g other).1, (others g other).2, rfl, id⟩)
    (fun spare => absurd spare (not_unused.mpr ⟨taken, idle⟩)) (fun _ => owned) single counts

theorem Accounts.postLeaf (loose : Loose device m leaves fixed f) : Accounts device m (credit leaves f) fixed := by
  obtain ⟨noLeaf, noFixed, zero⟩ := loose.unposted
  refine acc.post loose.taken loose.idle (fun g other => ⟨update_of_ne other _ _, rfl⟩) ⟨loose.managed, loose.ordinary⟩
    (fun posted => by omega) (.inr ?_)
  rw [credit, update_self, noLeaf, zero]

theorem Accounts.postFixed (loose : Loose device m leaves fixed f) : Accounts device m leaves (credit fixed f) := by
  obtain ⟨noLeaf, noFixed, zero⟩ := loose.unposted
  refine acc.post loose.taken loose.idle (fun g other => ⟨rfl, update_of_ne other _ _⟩) ⟨loose.managed, loose.ordinary⟩
    (fun _ => ⟨?_, noLeaf, zero⟩) (acc.counts f)
  rw [credit, update_self, noFixed]

theorem Accounts.unpostFixed (posted : 0 < fixed f) :
    Accounts device m leaves (debit fixed f) ∧ Loose device m leaves (debit fixed f) f := by
  obtain ⟨one, noLeaf, zero⟩ := acc.single f posted
  obtain ⟨taken, idle⟩ := acc.held (f := f) (by omega)
  have whole := acc.owned f (by omega)
  have off : debit fixed f f = 0 := by rw [debit, update_self, one]
  exact ⟨acc.post taken idle (fun g other => ⟨rfl, update_of_ne other _ _⟩) whole (fun still => by omega) (acc.counts f),
    whole.1, taken, idle, ⟨noLeaf, off, zero⟩, whole.2⟩

end

theorem freeFrame_gives (rep : Rep m) (on : m.sectioned = true) (low : f < 2 ^ 40) (ours : managed m f = true)
    (idle : ∀ q, chunkAt m q ≠ some f) :
    Rep (freeFrame m (f * frameSize)) ∧ Gives m (freeFrame m (f * frameSize)) f := by
  have base := frame_div f
  have next : (f + 1) % 2 ^ 64 = f + 1 := Nat.mod_eq_of_lt (by omega)
  unfold freeFrame
  obtain ⟨kept, same, bits⟩ := freeContiguous_spec rep on (f * frameSize) 1 (by
    rw [base, next]
    intro g low high
    have here : g = f := by omega
    exact here ▸ idle)
  refine ⟨kept, same, ?_⟩
  intro g
  rw [bits, base, next]
  by_cases here : g = f
  · subst here
    rw [if_pos rfl, if_pos ⟨by omega, ours⟩]
  · rw [if_neg here, if_neg (by omega)]

theorem Accounts.freeLoose (acc : Accounts device m leaves fixed) (loose : Loose device m leaves fixed f) :
    Accounts device (freeFrame m (f * frameSize)) leaves fixed ∧ Gives m (freeFrame m (f * frameSize)) f := by
  obtain ⟨kept, gives⟩ := freeFrame_gives acc.rep acc.on (managed_small acc.small loose.managed) loose.managed loose.idle
  have same := gives.toSame.count
  obtain ⟨noLeaf, noFixed, zero⟩ := loose.unposted
  refine ⟨acc.change f kept gives.sectioned gives.nsec gives.managed (fun g other => ⟨rfl, rfl, same g, ?_⟩)
    (fun _ => ⟨⟨noLeaf, noFixed, (same f).trans zero, loose.ordinary.2⟩, loose.ordinary.1⟩) (acc.owned f) (same f ▸ acc.single f)
    (same f ▸ acc.counts f), gives⟩
  unfold Unused
  simp only [gives.bits, gives.chunks, if_neg other, imp_self]

theorem Accounts.freeFixed (acc : Accounts device m leaves fixed) (posted : 0 < fixed f) :
    Accounts device (freeFrame m (f * frameSize)) leaves (debit fixed f) ∧ Gives m (freeFrame m (f * frameSize)) f := by
  obtain ⟨off, loose⟩ := acc.unpostFixed posted
  exact off.freeLoose loose

private theorem chunkChange_chunk (change : ChunkChange m m' (f / 4096)) {g : Nat} (chunk : chunkAt m' (f / 4096) = some g) :
    isFree m g = true ∨ chunkAt m (f / 4096) = some g := by
  cases change with
  | kept same _ => exact Or.inr (same ▸ chunk)
  | made p _ now free _ =>
    rw [now] at chunk
    exact Or.inl (Option.some.inj chunk ▸ free)
  | dropped p _ now _ =>
    rw [now] at chunk
    exact nomatch chunk

private theorem recount_unused {value g : Nat} (recounts : Recounts m m' f value) (change : ChunkChange m m' (f / 4096))
    (idle : Unused m' g) : Unused m g := by
  rcases idle with free | ⟨q, chunk⟩
  · cases change with
    | kept _ bits => exact .inl (bits g ▸ free)
    | made p _ _ _ bits =>
      rw [bits] at free
      split at free
      · exact nomatch free
      · exact .inl free
    | dropped p was _ bits =>
      rw [bits] at free
      split at free
      next same => exact .inr ⟨_, same ▸ was⟩
      · exact .inl free
  · by_cases here : q = f / 4096
    · exact (chunkChange_chunk change (here ▸ chunk)).imp_right fun was => ⟨_, was⟩
    · exact .inr ⟨q, (recounts.chunks q here).symm.trans chunk⟩

section
variable (acc : Accounts device m leaves fixed)
include acc

theorem Accounts.recount {value entry : Nat} (posted : 0 < leaves f) (kept : Rep m')
    (recounts : Recounts m m' f value) (change : ChunkChange m m' (f / 4096)) (agree : value = 255 ∨ value = entry - 1) :
    Accounts device m' (update leaves f entry) fixed := by
  have held : 0 < leaves f + fixed f := by omega
  refine acc.change f kept recounts.sectioned recounts.nsec recounts.managed
    (fun g other => ⟨update_of_ne other _ _, rfl, recounts.others g other, recount_unused recounts change⟩)
    (fun idle => absurd (recount_unused recounts change idle) (not_unused.mpr (acc.held held))) (fun _ => acc.owned f held)
    (fun owner => ?_) ?_
  · have none := (acc.single f owner).2.1
    omega
  · rw [recounts.here, update_self]
    exact agree

theorem Accounts.share (posted : 0 < leaves f) :
    (∃ m', shareFrame m (f * frameSize) = (m', 0) ∧ Accounts device m' (credit leaves f) fixed ∧
        Recounts m m' f (min 255 (count m f + 1)) ∧ ChunkChange m m' (f / 4096)) ∨
      (shareFrame m (f * frameSize) = (m, -1) ∧ chunkAt m (f / 4096) = none ∧ ∀ g, isFree m g = false) := by
  have base := frame_div f
  have outcome := shareFrame_spec acc.rep acc.on (f * frameSize)
  rw [base] at outcome
  generalize shareFrame m (f * frameSize) = result at outcome
  cases outcome with
  | @shared m' kept _ recounts change =>
    refine Or.inl ⟨m', rfl, acc.recount posted kept recounts change ?_, recounts, change⟩
    have bound := acc.counts f
    omega
  | refused _ why =>
    obtain ⟨chunk, exhausted⟩ := why (acc.owned f (by omega)).1
    exact Or.inr ⟨rfl, chunk, exhausted (Nat.le_trans acc.small (by decide))⟩
  | lost _ takes =>
    have free := takes.was 0 le_rfl (by omega)
    rw [acc.origin.1] at free
    exact nomatch free

/-- How a dropped reference shows: the count falls, or the last reference frees the frame. -/
inductive Dropped (m m' : Pmm.State) (f : Nat) : Prop where
  | shared (value : Nat) (was : 0 < count m f) (less : value = if count m f = 255 then 255 else count m f - 1)
      (recounts : Recounts m m' f value) (change : ChunkChange m m' (f / 4096))
  | freed (was : count m f = 0) (gives : Gives m m' f)

theorem Accounts.drop (posted : 0 < leaves f) :
    Accounts device (dropFrame m (f * frameSize)) (debit leaves f) fixed ∧ Dropped m (dropFrame m (f * frameSize)) f := by
  have base := frame_div f
  have outcome := unrefFrame_spec acc.rep acc.on (f * frameSize)
  rw [base] at outcome
  unfold dropFrame
  generalize unrefFrame m (f * frameSize) = result at outcome
  cases outcome with
  | @dropped m' value kept _ was recounts less change =>
    refine ⟨acc.recount posted kept recounts change ?_, .shared value was less recounts change⟩
    have bound := acc.counts f
    split at less <;> omega
  | last _ was =>
    have one : leaves f = 1 := by
      have bound := acc.counts f
      omega
    have alone : fixed f = 0 := by
      by_contra owner
      have none := (acc.single f (by omega)).2.1
      omega
    obtain ⟨taken, idle⟩ := acc.held (f := f) (by omega)
    have whole := acc.owned f (by omega)
    have zero : debit leaves f f = 0 := by
      unfold debit
      rw [update_self, one]
    have off : Accounts device m (debit leaves f) fixed :=
      acc.recount posted acc.rep (.same m f) (.kept rfl fun _ => rfl) (by omega)
    obtain ⟨result, gives⟩ := off.freeLoose ⟨whole.1, taken, idle, ⟨zero, alone, was⟩, whole.2⟩
    exact ⟨result, .freed was gives⟩

theorem Accounts.unshare (several : 1 < leaves f) :
    Accounts device (unrefFrame m (f * frameSize)).1 (debit leaves f) fixed ∧
      Dropped m (unrefFrame m (f * frameSize)).1 f := by
  have shared : dropFrame m (f * frameSize) = (unrefFrame m (f * frameSize)).1 := by
    have outcome := unrefFrame_spec acc.rep acc.on (f * frameSize)
    rw [Nat.mul_div_cancel f (by decide)] at outcome
    unfold dropFrame
    generalize unrefFrame m (f * frameSize) = result at outcome
    have bound := acc.counts f
    cases outcome with
    | dropped => rfl
    | last _ was => omega
  rw [← shared]
  exact acc.drop (by omega)

end

/-- The bytes of every frame in use, other than count chunks, are what they were. -/
def Quiet (m m' : Pmm.State) : Prop :=
  ∀ g, isFree m g = false → (∀ q, chunkAt m q ≠ some g) → m'.mem g = m.mem g

theorem quiet_recount {value : Nat} (recounts : Recounts m m' f value) (change : ChunkChange m m' (f / 4096)) : Quiet m m' := by
  intro g taken idle
  apply recounts.mem g (idle _)
  intro chunk
  rcases chunkChange_chunk change chunk with free | was
  · rw [taken] at free
    exact nomatch free
  · exact idle _ was

theorem Accounts.write (acc : Accounts device m leaves fixed) (idle : ∀ q, chunkAt m q ≠ some f) (row : Nat → UInt8) :
    Accounts device { m with mem := update m.mem f row } leaves fixed := by
  have same : ∀ g, count { m with mem := update m.mem f row } g = count m g := by
    intro g
    unfold count
    rw [show chunkAt { m with mem := update m.mem f row } (g / 4096) = chunkAt m (g / 4096) from rfl]
    cases chunk : chunkAt m (g / 4096) with
    | none => rfl
    | some p =>
      have apart : p ≠ f := by
        rintro rfl
        exact idle _ chunk
      simp only [update_of_ne apart]
  exact acc.change f (acc.rep.write idle row) rfl rfl (fun _ => rfl) (fun g _ => ⟨rfl, rfl, same g, id⟩)
    (fun spare => same f ▸ acc.unused spare) (acc.owned f) (same f ▸ acc.single f) (same f ▸ acc.counts f)

end
end SecOS.Vmm
