import SecOS.Proofs.SpaceOperations
import SecOS.Vma

/-! Page faults and the page cache, in the books: a slot of the cache holds one reference to its
frame, and what a fault maps is one leaf more in the space that faulted. -/

namespace SecOS.PageCache
open Pmm Library Vmm

def slotFrame (e : Entry) : Option Nat := if e.valid then some (e.phys / frameSize) else none

def cached (c : Cache) (f : Nat) : Nat := ∑ i ∈ Finset.range entries, Space.owns (slotFrame (c.pc i)) f

def Aligned (c : Cache) : Prop := ∀ i < entries, (c.pc i).valid = true → (c.pc i).phys / frameSize * frameSize = (c.pc i).phys

section
variable {device : Nat → Prop} {leaves base : Nat → Nat} {m : Pmm.State} {c : Cache}

theorem cached_update (clock : Nat) {i : Nat} (inside : i < entries) (e : Entry) (f : Nat) :
    cached ⟨Function.update c.pc i e, clock⟩ f + Space.owns (slotFrame (c.pc i)) f = cached c f + Space.owns (slotFrame e) f :=
  sum_update (Finset.range entries) c.pc (fun e => Space.owns (slotFrame e) f) (Finset.mem_range.mpr inside) e

theorem Aligned.update (aligned : Aligned c) (clock i : Nat) {e : Entry}
    (entry : e.valid = true → e.phys / frameSize * frameSize = e.phys) : Aligned ⟨Function.update c.pc i e, clock⟩ := by
  intro j inside
  change (Function.update c.pc i e j).valid = true →
    (Function.update c.pc i e j).phys / frameSize * frameSize = (Function.update c.pc i e j).phys
  by_cases here : j = i
  · rw [here, Function.update_self]
    exact entry
  · rw [Function.update_of_ne here]
    exact aligned j inside

theorem slot_posted (aligned : Aligned c) {i : Nat} (inside : i < entries) (used : (c.pc i).valid = true) :
    0 < cached c ((c.pc i).phys / frameSize) ∧ (c.pc i).phys / frameSize * frameSize = (c.pc i).phys := by
  have held : slotFrame (c.pc i) = some ((c.pc i).phys / frameSize) := by
    unfold slotFrame
    rw [used, if_pos rfl]
  have sum := cached_update (c := c) 0 inside { c.pc i with valid := false } ((c.pc i).phys / frameSize)
  rw [held, owns_self, show slotFrame { c.pc i with valid := false } = none from if_neg Bool.false_ne_true, owns_none] at sum
  exact ⟨by omega, aligned i inside used⟩

section
variable (acc : Accounts device m leaves (fun f => base f + cached c f))
include acc

theorem slot_freed (aligned : Aligned c) (clock : Nat) {i : Nat}
    (inside : i < entries) (used : (c.pc i).valid = true) :
    (c.pc i).phys ≠ 0 ∧ (freeFrame m (c.pc i).phys).mem = m.mem ∧ Accounts device (freeFrame m (c.pc i).phys) leaves
      (fun f => base f + cached ⟨Function.update c.pc i { c.pc i with valid := false, phys := 0 }, clock⟩ f) := by
  obtain ⟨posted, place⟩ := slot_posted aligned inside used
  have held : slotFrame (c.pc i) = some ((c.pc i).phys / frameSize) := by
    unfold slotFrame
    rw [used, if_pos rfl]
  have update := cached_update (c := c) clock inside { c.pc i with valid := false, phys := 0 }
  have dropped : slotFrame { c.pc i with valid := false, phys := 0 } = none := if_neg Bool.false_ne_true
  rw [held, dropped] at update
  have nonzero : (c.pc i).phys ≠ 0 := by
    intro zero
    have owned := (acc.owned _ (Nat.add_pos_right _ (Nat.add_pos_right (base _) posted))).2.1
    rw [zero] at owned
    exact owned (Nat.zero_div _)
  have ledger : (fun f => base f + cached ⟨Function.update c.pc i { c.pc i with valid := false, phys := 0 }, clock⟩ f) =
      debit (fun f => base f + cached c f) ((c.pc i).phys / frameSize) := by
    funext f
    have sum := update f
    rw [owns_none] at sum
    rw [debit_apply]
    omega
  have freed := acc.freeFixed (Nat.add_pos_right (base _) posted)
  rw [place] at freed
  rw [ledger]
  exact ⟨nonzero, freed.2.toSame.mem, freed.1⟩

theorem victim_accounts (aligned : Aligned c) :
    Accounts device (victim m c).1 leaves (fun f => base f + cached (victim m c).2.1 f) ∧ Aligned (victim m c).2.1 ∧
      (victim m c).2.2 < entries ∧ ((victim m c).2.1.pc (victim m c).2.2).valid = false := by
  unfold victim
  cases search : (List.range entries).find? (fun i => !(c.pc i).valid) with
  | some i =>
    have invalid := List.find?_some search
    have member := List.mem_of_find?_eq_some search
    refine ⟨acc, aligned, List.mem_range.mp member, ?_⟩
    simpa using invalid
  | none =>
    have valid := List.find?_eq_none.mp search
    have inside : c.clock % entries < entries := Nat.mod_lt _ (by decide)
    generalize c.clock % entries = i at inside
    have used : (c.pc i).valid = true := by simpa using valid i (List.mem_range.mpr inside)
    obtain ⟨nonzero, -, freed⟩ := slot_freed acc aligned ((c.clock + 1) % 2 ^ 32) inside used
    simp only [if_pos nonzero]
    refine ⟨freed, aligned.update _ _ nofun, inside, ?_⟩
    rw [Function.update_self]

theorem getPhys_accounts (aligned : Aligned c)
    (files : Files) (inode off : Nat) :
    Accounts device (getPhys m c files inode off).1 leaves (fun f => base f + cached (getPhys m c files inode off).2.1 f) ∧
      Aligned (getPhys m c files inode off).2.1 := by
  unfold getPhys
  split
  · exact ⟨acc, aligned⟩
  simp only
  split
  · exact ⟨acc, aligned⟩
  have evicted := victim_accounts acc aligned
  generalize victim m c = r at evicted
  obtain ⟨m1, c1, i⟩ := r
  obtain ⟨acc1, aligned1, inside, invalid⟩ := evicted
  simp only at acc1 aligned1 inside invalid ⊢
  rcases acc1.alloc with ⟨nothing, _⟩ | ⟨f, m2, found, nonzero, _, _, acc2, loose⟩
  · rw [nothing]
    exact ⟨acc1, aligned1⟩
  · have place := frame_div f
    simp only [found, nonzero, if_false, place]
    have update := cached_update (c := c1) c1.clock inside ⟨inode, off / 4096 * 4096, f * frameSize, true⟩
    have empty : slotFrame (c1.pc i) = none := by
      unfold slotFrame
      rw [invalid, if_neg Bool.false_ne_true]
    have filled : slotFrame ⟨inode, off / 4096 * 4096, f * frameSize, true⟩ = some f := by
      unfold slotFrame
      rw [if_pos rfl, place]
    rw [empty, filled] at update
    have ledger : (fun g => base g + cached ⟨Function.update c1.pc i ⟨inode, off / 4096 * 4096, f * frameSize, true⟩, c1.clock⟩ g) =
        credit (fun g => base g + cached c1 g) f := by
      funext g
      have sum := update g
      rw [owns_none] at sum
      rw [credit_apply]
      omega
    refine ⟨?_, aligned1.update _ _ (fun _ => by rw [place])⟩
    rw [ledger]
    exact (acc2.postFixed loose).write loose.idle _

end

end
end SecOS.PageCache

namespace SecOS.Vma
open Pmm Library Vmm PageCache

section
variable {device mapped : Nat → Prop} {rest base leaves fixed : Nat → Nat} {m : Pmm.State} {c : Cache} {s : Space} {f : Nat}

private theorem refixed {fixed' : Nat → Nat} (acc : Accounts device m leaves fixed) (same : ∀ g, fixed' g = fixed g) :
    Accounts device m leaves fixed' := by
  rw [show fixed' = fixed from funext same]
  exact acc

theorem fillFrame_accounts (acc : Accounts device m leaves (fun g => base g + cached c g)) (aligned : Aligned c)
    (posted : 0 < base f) (env : Env) (v : Vma) (pg : Nat) :
    Accounts device (fillFrame m c env v pg f).1 leaves (fun g => base g + cached (fillFrame m c env v pg f).2 g) ∧
      Aligned (fillFrame m c env v pg f).2 := by
  have idle : ∀ {m : Pmm.State} {c : Cache}, Accounts device m leaves (fun g => base g + cached c g) →
      ∀ q, chunkAt m q ≠ some f := fun acc => (acc.held (by omega)).2
  unfold fillFrame
  split
  · simp only
    obtain ⟨acc1, aligned1⟩ := getPhys_accounts acc aligned env.files v.fileInode ((v.fileVoff + (pg - v.start)) % 2 ^ 64)
    generalize getPhys m c env.files v.fileInode ((v.fileVoff + (pg - v.start)) % 2 ^ 64) = r at acc1 aligned1
    obtain ⟨m1, c1, cphys⟩ := r
    exact ⟨acc1.write (idle acc1) _, aligned1⟩
  · split
    · exact ⟨acc.write (idle acc) _, aligned⟩
    · exact ⟨acc.write (idle acc) _, aligned⟩

theorem mapped_shaped (phys : Nat) {flags : Word} (bare : Bare flags) (unparked : flags.has flagProtnone = false) :
    Shaped ((physWord phys &&& addressMask) ||| (flags &&& ~~~flagPs) ||| flagPresent) := by
  obtain ⟨_, bits⟩ := mapped_leaf phys bare
  rw [has_protnone] at unparked
  unfold Shaped
  rw [bits 7 (by decide), bits 10 (by decide), unparked]
  exact ⟨by simp, fun _ => rfl⟩

theorem region_leaf (flags : Flags) (small : f < 2 ^ 40) :
    owner ((physWord (f * frameSize) &&& addressMask) ||| (flags.word &&& ~~~flagPs) ||| flagPresent) = some f ∧
      ((physWord (f * frameSize) &&& addressMask) ||| (flags.word &&& ~~~flagPs) ||| flagPresent).has flagDevice = false := by
  obtain ⟨phys, bits⟩ := mapped_leaf (f * frameSize) flags.bare
  have place : f * 4096 / frameSize = f := Nat.mul_div_cancel _ (by decide)
  rw [owner_some, pteHasFrame_eq, has_device, bits 0 (by decide), bits 11 (by decide), phys,
    flags.not_device]
  unfold frameSize
  rw [ptePhys_physWord small]
  exact ⟨⟨rfl, rfl, place⟩, rfl⟩

theorem device_leaf (flags : Flags) (phys : Nat) :
    Bare (flags.word ||| flagDevice ||| flagPwt ||| flagNoexec) ∧
    let w := (physWord phys &&& addressMask) |||
      ((flags.word ||| flagDevice ||| flagPwt ||| flagNoexec) &&& ~~~flagPs) ||| flagPresent
    w.has flagDevice = true ∧ w.has flagCow = false ∧ ptePhys w = ptePhys (physWord phys) := by
  have bare : Bare (flags.word ||| flagDevice ||| flagPwt ||| flagNoexec) := by
    intro i low high
    have device : Bare (flagDevice ||| flagPwt ||| flagNoexec) := bare_of_and (by decide)
    rw [BitVec.or_assoc, BitVec.or_assoc, BitVec.getLsbD_or, flags.bare i low high, Bool.false_or, ← BitVec.or_assoc]
    exact device i low high
  obtain ⟨same, bits⟩ := mapped_leaf phys bare
  have set : (flagDevice ||| flagPwt ||| flagNoexec).getLsbD 11 = true := by decide
  have clear : (flagDevice ||| flagPwt ||| flagNoexec).getLsbD 9 = false := by decide
  refine ⟨bare, ?_, ?_, same⟩
  · rw [has_device, bits 11 (by decide), BitVec.or_assoc, BitVec.or_assoc, BitVec.getLsbD_or, ← BitVec.or_assoc, set]
    simp
  · rw [has_cow, bits 9 (by decide), BitVec.or_assoc, BitVec.or_assoc, BitVec.getLsbD_or, ← BitVec.or_assoc, clear,
      flags.not_cow]
    rfl

section
variable {m' : Pmm.State} {s' : Space} {page : Nat} {w : Word} (tidy : Tidy mapped rest s) (same : s'.pte = s.pte)
include tidy same

private theorem placed_posted (acc : Accounts device m' (fun g => rest g + s'.leaves g) (fun g => credit base f g + s'.tables g))
    (above : (s'.pt (page / 512)).isSome) (inside : page ∈ window) (empty : pteHasFrame (s.pte page) = false)
    (held : owner w = some f) (ordinary : w.has flagDevice = false) (shaped : Shaped w) :
    Posted device mapped rest base s m' (s'.setPte page w) := by
  have vacant : owner (s'.pte page) = none := by
    rw [same]
    exact owner_empty empty
  obtain ⟨off, loose⟩ := acc.unpostFixed (f := f) (by rw [credit_apply, owns_self]; omega)
  have unposted := loose.unposted.1
  have ledger := leaves_placed above inside vacant held
  have one : rest f + (s'.setPte page w).leaves f = 1 := by
    rw [ledger, credit_apply, owns_self]
    omega
  obtain ⟨tidy', others⟩ := (tidy.congr same).rewrite (w := w) above inside
    (fun g owned => .inl (Option.some.inj (held.symm.trans owned) ▸ unposted))
    (fun g _ owned => Option.some.inj (held.symm.trans owned) ▸ one)
    (fun _ marked => by rw [ordinary] at marked; exact nomatch marked) shaped
  refine ⟨?_, tidy', ?_⟩
  · simp only [tables_setPte]
    rw [ledger, ← credit_rest]
    refine refixed (off.postLeaf loose) ?_
    intro g
    rw [debit_apply, credit_apply]
    omega
  · intro g elsewhere only
    rw [← leaves_congr same] at only
    exact others g elsewhere only

private theorem device_posted (acc : Accounts device m' (fun g => rest g + s'.leaves g) (fun g => base g + s'.tables g))
    (above : (s'.pt (page / 512)).isSome) (inside : page ∈ window) (empty : owner (s.pte page) = none)
    (marked : w.has flagDevice = true) (plain : w.has flagCow = false ∧ mapped (ptePhys w / frameSize)) (shaped : Shaped w) :
    Posted device mapped rest base s m' (s'.setPte page w) := by
  have gone := owner_device marked
  have vacant : owner w = owner (s'.pte page) := by rw [same, gone, empty]
  obtain ⟨tidy', others⟩ := (tidy.congr same).rewrite (w := w) above inside (fun g owned => by rw [gone] at owned; exact nomatch owned)
    (fun g _ owned => by rw [gone] at owned; exact nomatch owned) (fun _ _ => plain) shaped
  refine ⟨?_, tidy', ?_⟩
  · simp only [tables_setPte]
    rw [leaves_kept above inside vacant]
    exact acc
  · intro g elsewhere only
    rw [← leaves_congr same] at only
    exact others g elsewhere only

end

theorem faultIn_posted (acc : Accounts device m (fun g => rest g + s.leaves g) (fun g => base g + cached c g + s.tables g))
    (tidy : Tidy mapped rest s) (aligned : Aligned c) (env : Env) (v : Vma) {addr : Nat} (inside : addr / 4096 ∈ window)
    (mappable : v.type = .phys →
      mapped (ptePhys (physWord ((v.physBase + (addr / 4096 * 4096 - v.start)) % 2 ^ 64)) / frameSize)) :
    Posted device mapped rest (fun g => base g + cached (faultIn m c s env v addr).2.1 g) s (faultIn m c s env v addr).1
        (faultIn m c s env v addr).2.2.1 ∧
      Aligned (faultIn m c s env v addr).2.1 := by
  unfold faultIn
  generalize addr / 4096 = page at inside mappable
  simp only
  split
  · exact ⟨.refl acc tidy, aligned⟩
  split
  · exact ⟨.refl acc tidy, aligned⟩
  split
  next kind =>
    have outcome := mapInSpace_mapping acc inside ((v.physBase + (page * 4096 - v.start)) % 2 ^ 64)
      (v.flags.word ||| flagDevice ||| flagPwt ||| flagNoexec)
    generalize mapInSpace m s (page * 4096) _ _ = r at outcome
    refine ⟨?_, aligned⟩
    cases outcome with
    | refused grown =>
      refine ⟨?_, tidy.congr grown.pte, ?_⟩
      · simp only [leaves_congr grown.pte]
        exact grown.acc
      · intro g elsewhere only
        simp only [leaves_congr grown.pte]
        omega
    | placed grown above empty unparked =>
      obtain ⟨bare, marked, uncopied, phys⟩ := device_leaf v.flags ((v.physBase + (page * 4096 - v.start)) % 2 ^ 64)
      refine device_posted tidy grown.pte ?_ above inside (owner_empty empty) marked ⟨uncopied, ?_⟩
        (mapped_shaped _ bare unparked)
      · simp only [leaves_congr grown.pte]
        exact grown.acc
      · rw [phys]
        exact mappable kind
  · rcases acc.alloc with ⟨nothing, _⟩ | ⟨f, m1, found, nonzero, small, _, acc1, loose⟩
    · rw [nothing]
      exact ⟨.refl acc tidy, aligned⟩
    · have place := frame_div f
      simp only [found, nonzero, if_false, place]
      -- The frame is the kernel's until the leaf is in place.
      have owned : 0 < credit base f f := by rw [credit_apply, owns_self]; omega
      have taken : Accounts device m1 (fun g => rest g + s.leaves g) (fun g => (credit base f g + s.tables g) + cached c g) := by
        refine refixed (acc1.postFixed loose) ?_
        intro g
        simp only [credit_apply]
        omega
      obtain ⟨acc2, aligned2⟩ := fillFrame_accounts taken aligned (Nat.add_pos_left owned _) env v (page * 4096)
      generalize fillFrame m1 c env v (page * 4096) f = filled at acc2 aligned2
      obtain ⟨m2, c2⟩ := filled
      have ready : Accounts device m2 (fun g => rest g + s.leaves g) (fun g => (credit base f g + cached c2 g) + s.tables g) :=
        refixed acc2 fun g => by simp only; omega
      have outcome := mapInSpace_mapping ready inside (f * frameSize) v.flags.word
      simp only
      generalize mapInSpace m2 s (page * 4096) _ _ = r at outcome
      cases outcome with
      | refused grown failed =>
        simp only [if_pos failed]
        refine ⟨⟨?_, tidy.congr grown.pte, ?_⟩, aligned2⟩
        · simp only [leaves_congr grown.pte]
          refine refixed (grown.acc.freeFixed (f := f) (by omega)).1 ?_
          intro g
          simp only [debit_apply, credit_apply]
          omega
        · intro g elsewhere only
          simp only [leaves_congr grown.pte]
          omega
      | placed grown above empty unparked =>
        obtain ⟨held, ordinary⟩ := region_leaf v.flags small
        simp only [ne_eq, not_true_eq_false, if_false]
        refine ⟨placed_posted tidy grown.pte ?_ above inside empty held ordinary
          (mapped_shaped _ v.flags.bare unparked), aligned2⟩
        simp only [leaves_congr grown.pte]
        refine refixed grown.acc ?_
        intro g
        simp only [credit_apply]
        omega

end
end SecOS.Vma
