import SecOS.Proofs.BootHandover
import SecOS.Proofs.CowSafety

/-! What the address-space layer assumes of the boot state holds after every boot with memory
below 2^52 bytes in which `pmm_late_init` succeeds. -/

namespace SecOS.Machine
open Pmm List

section
variable {m : Pmm.State}

theorem framesMark_nsec (lo hi : Nat) (set : Bool) : (framesMark m lo hi set).nsec = m.nsec := by
  induction left : hi - lo using Nat.strongRecOn generalizing m lo with
  | _ left ih =>
    subst left
    rw [framesMark]
    split
    next more =>
      dsimp only
      split
      · exact ih _ (section_step more) _ rfl
      · exact ih _ (section_step more) _ rfl
    · rfl

theorem releaseRange_nsec (i : Nat) : (releaseRange m i).nsec = m.nsec := by
  simp only [releaseRange]
  split
  · rw [framesMark_nsec]
  · rfl

theorem released_nsec (ranges : List Nat) : (ranges.foldl releaseRange m).nsec = m.nsec := by
  induction ranges generalizing m with
  | nil => rfl
  | cons i rest ih => exact ih.trans (releaseRange_nsec i)

theorem reserved_nsec (ranges : List Range) : (ranges.foldl reserveRange m).nsec = m.nsec := by
  induction ranges generalizing m with
  | nil => rfl
  | cons r rest ih => exact ih.trans (framesMark_nsec _ _ _)

theorem populate_nsec (m : Pmm.State) : (populate m).nsec = m.nsec := by
  have released := released_nsec (m := { m with freeFrames := 0 }) (List.range m.avail.length)
  unfold populate
  dsimp only at released ⊢
  generalize List.foldl releaseRange _ (List.range m.avail.length) = freed at released ⊢
  exact (reserved_nsec freed.resv).trans released

theorem lateInit_nsec (late : m.sectioned = false) (ready : (lateInit m).sectioned = true) : (lateInit m).nsec = sectionsNeeded m := by
  unfold lateInit at ready ⊢
  rw [if_neg (by rw [late]; exact Bool.false_ne_true)] at ready ⊢
  by_cases unmapped : (!m.physmapReady) = true
  · rw [if_pos unmapped, late] at ready
    exact nomatch ready
  · rw [if_neg unmapped] at ready ⊢
    generalize sectionsNeeded m = n at ready ⊢
    obtain ⟨_, nsec, sectioned⟩ := earlyAllocTop_fields (m := { m with nsec := n }) (n * 8) 64
    simp only at ready nsec sectioned ⊢
    generalize earlyAllocTop { m with nsec := n } (n * 8) 64 = placed at ready nsec sectioned ⊢
    by_cases failed : placed.2 = 0
    · rw [if_pos failed, sectioned, late] at ready
      exact nomatch ready
    · rw [if_neg failed, populate_nsec]
      have start : Described { placed.1 with sec := fun _ => none, metaBytes := n * 8 } n := ⟨nsec, fun _ _ found => nomatch found⟩
      have described : Described (describeAll placed.1 (n * 8)) n :=
        foldlRecOn (motive := fun state => Described state n) _ describeRange start fun _ kept r _ => describeRange_described r kept
      exact described.1

end

theorem early_keeps (requests : List Request) (b : Pmm.State × List Range) :
    (requests.foldl early b).1.maxPhys = b.1.maxPhys ∧ (requests.foldl early b).1.avail = b.1.avail := by
  refine foldlRecOn (motive := fun s => s.1.maxPhys = b.1.maxPhys ∧ s.1.avail = b.1.avail) _ early ⟨rfl, rfl⟩ fun s kept r _ => ?_
  unfold early earlyAlloc
  dsimp only
  split
  · exact kept
  · exact kept

/-- Everything up to the kernel's end is reserved, frame 0 with it, and no device is in usable memory. -/
theorem ready_of_boot {device : Nat → Prop} {map : List Entry} {kernelEnd : Nat} {requests : List Request}
    (low : ∀ e ∈ map, e.stop ≤ 2 ^ 52) (image : 0 < kernelEnd) (kernel : kernelEnd ≤ 2 ^ 52)
    (few : (map.filter Entry.isReserved).length < maxReserved) (sane : ∀ r ∈ requests, r.Sane)
    (ready : (lateInit (Pmm.boot map kernelEnd requests).1).sectioned = true) (apart : ∀ f, device f → ¬Usable map f) :
    Ready device (Pmm.boot map kernelEnd requests).1 := by
  obtain ⟨mapped, cursors⟩ := boot_ready low kernel few sane
  have free : ∀ f, isFree (lateInit (Pmm.boot map kernelEnd requests).1) f = true → Usable map f ∧ ¬Range.Meets ⟨0, kernelEnd⟩ f := by
    intro f isFree
    obtain ⟨⟨⟨r, member, start, stop⟩, _⟩, off⟩ :=
      (lateInit_handover mapped.bounded cursors mapped.late.1 mapped.late.2 rfl).2 f isFree
    exact mapped.handed member start stop off
  obtain ⟨top, avail⟩ := early_keeps requests (setup (map.foldl addEntry blank) kernelEnd, [])
  have bound : (Pmm.boot map kernelEnd requests).1.maxPhys ≤ 2 ^ 52 := by
    refine Eq.trans_le top ?_
    refine foldlRecOn (motive := fun top => top ≤ 2 ^ 52) _ _ (Nat.zero_le _) fun best kept r member => Nat.max_le.mpr ⟨kept, ?_⟩
    refine (mapped.framed r ?_).2.2
    exact avail ▸ member
  refine ⟨mapped.late.1, ready, ?_, Bool.eq_false_iff.mpr fun zero => ?_, fun f special => Bool.eq_false_iff.mpr fun taken => ?_⟩
  · rw [lateInit_nsec mapped.late.1 ready, sectionsNeeded]
    omega
  · exact (free 0 zero).2 ⟨0, Nat.le_refl 0, image, rfl⟩
  · exact apart f special (free f taken).1

end SecOS.Machine
