import SecOS.Vmm

/-! The bits of a page table entry: which of them are flags and which are the address, and what
mapping, copying on write and protecting leave of an entry. -/

namespace SecOS.Vmm
open Library Pmm BitVec

variable {i : Nat}

theorem mask_bit (inside : i < 64) : addressMask.getLsbD i = decide (12 ≤ i ∧ i < 52) := by
  have every : ∀ j < 64, addressMask.getLsbD j = decide (12 ≤ j ∧ j < 52) := by decide
  exact every i inside

theorem has_present (w : Word) : w.has flagPresent = w.getLsbD 0 := Word.has_bit w (by decide)
theorem has_rw (w : Word) : w.has flagRw = w.getLsbD 1 := Word.has_bit w (by decide)
theorem has_cow (w : Word) : w.has flagCow = w.getLsbD 9 := Word.has_bit w (by decide)
theorem has_protnone (w : Word) : w.has flagProtnone = w.getLsbD 10 := Word.has_bit w (by decide)
theorem has_device (w : Word) : w.has flagDevice = w.getLsbD 11 := Word.has_bit w (by decide)
theorem has_or (w a b : Word) : w.has (a ||| b) = (w.has a || w.has b) := by
  have same : (w &&& (a ||| b) = 0#64) ↔ (w &&& a = 0#64 ∧ w &&& b = 0#64) := by
    rw [and_or_distrib_left, or_eq_zero_iff]
  unfold Word.has
  rw [Bool.eq_iff_iff]
  simp only [bne_iff_ne, ne_eq, Bool.or_eq_true, same]
  tauto

theorem pteHasFrame_eq (w : Word) : pteHasFrame w = (w.getLsbD 0 || w.getLsbD 10) := by
  unfold pteHasFrame
  rw [has_or, has_present, has_protnone]

def Bare (flags : Word) : Prop := ∀ i, 12 ≤ i → i < 52 → flags.getLsbD i = false

variable {flags : Word}

theorem bare_of_and (none : flags &&& addressMask = 0#64) : Bare flags := by
  intro i low high
  have bit := congrArg (fun word => BitVec.getLsbD word i) none
  simpa [getLsbD_and, mask_bit (show i < 64 by omega), low, high] using bit

private theorem Flags.clear (flags : Flags) (reserved : (addressMask ||| flagDevice ||| flagCow).getLsbD i = true) :
    flags.word.getLsbD i = false := by
  have bit : (flags.word &&& (addressMask ||| flagDevice ||| flagCow)).getLsbD i = false := by rw [flags.plain, getLsbD_zero]
  rwa [getLsbD_and, reserved, Bool.and_true] at bit

theorem Flags.bare (flags : Flags) : Bare flags.word := by
  intro i low high
  apply flags.clear
  rw [getLsbD_or, getLsbD_or, mask_bit (by omega), decide_eq_true ⟨low, high⟩, Bool.true_or, Bool.true_or]

theorem Flags.not_device (flags : Flags) : flags.word.getLsbD 11 = false := flags.clear (by decide)

theorem Flags.not_cow (flags : Flags) : flags.word.getLsbD 9 = false := flags.clear (by decide)

theorem ptePhys_congr {a b : Word} (same : ∀ i, 12 ≤ i → i < 52 → a.getLsbD i = b.getLsbD i) : ptePhys a = ptePhys b := by
  unfold ptePhys
  congr 1
  apply eq_of_getLsbD_eq
  intro i inside
  rw [getLsbD_and, getLsbD_and, mask_bit inside]
  by_cases address : 12 ≤ i ∧ i < 52
  · rw [same i address.1 address.2]
  · rw [decide_eq_false address, Bool.and_false, Bool.and_false]

theorem ptePhys_physWord {f : Nat} (small : f < 2 ^ 40) : ptePhys (physWord (f * 4096)) = f * 4096 := by
  have fits : f * 4096 < 2 ^ 64 := by omega
  have kept : physWord (f * 4096) &&& addressMask = physWord (f * 4096) := by
    apply eq_of_getLsbD_eq
    intro i inside
    rw [getLsbD_and, mask_bit inside]
    by_cases address : 12 ≤ i ∧ i < 52
    · rw [decide_eq_true address, Bool.and_true]
    · have clear : (physWord (f * 4096)).getLsbD i = false := by
        unfold physWord
        rw [getLsbD_ofNat, show (4096 : Nat) = 2 ^ 12 from rfl, Nat.mul_comm, Nat.testBit_two_pow_mul]
        by_cases low : 12 ≤ i
        · have high : f < 2 ^ (i - 12) := Nat.lt_of_lt_of_le small (Nat.pow_le_pow_right (by decide) (by omega))
          simp [Nat.testBit_lt_two_pow high]
        · simp [low]
      rw [clear, Bool.false_and]
  unfold ptePhys
  rw [kept]
  exact (toNat_ofNat _ _).trans (Nat.mod_eq_of_lt fits)

theorem ptePhys_aligned (w : Word) : ptePhys w / frameSize * frameSize = ptePhys w := by
  unfold ptePhys frameSize
  have low : (w &&& addressMask).toNat % 2 ^ 12 = 0 := by
    apply Nat.eq_of_testBit_eq
    intro i
    rw [Nat.testBit_mod_two_pow, Nat.zero_testBit]
    by_cases below : i < 12
    · have bit : (w &&& addressMask).toNat.testBit i = (w &&& addressMask).getLsbD i := testBit_toNat _
      rw [bit, getLsbD_and, mask_bit (by omega)]
      have outside : ¬(12 ≤ i ∧ i < 52) := by omega
      simp [outside]
    · simp [below]
  omega

private theorem flag_bits {b : Nat} (inside : i < 64) : (Word.bit b).getLsbD i = decide (i = b) := Word.getLsbD_bit inside

def Outside (i : Nat) : Prop := i < 64 ∧ ¬(12 ≤ i ∧ i < 52)

instance (i : Nat) : Decidable (Outside i) := inferInstanceAs (Decidable (_ ∧ _))

private theorem mask_outside (outside : Outside i) : addressMask.getLsbD i = false := by
  rw [mask_bit outside.1, decide_eq_false outside.2]

private theorem mask_inside (low : 12 ≤ i) (high : i < 52) : addressMask.getLsbD i = true := by
  rw [mask_bit (by omega), decide_eq_true ⟨low, high⟩]

theorem mapped_leaf (phys : Nat) (bare : Bare flags) :
    ptePhys ((physWord phys &&& addressMask) ||| (flags &&& ~~~flagPs) ||| flagPresent) = ptePhys (physWord phys) ∧
      ∀ i, Outside i → ((physWord phys &&& addressMask) ||| (flags &&& ~~~flagPs) ||| flagPresent).getLsbD i =
        (decide (i = 0) || (flags.getLsbD i && !decide (i = 7))) := by
  constructor
  · apply ptePhys_congr
    intro i low high
    have inside : i < 64 := by omega
    have clear : ¬i = 0 := by omega
    simp [flagPresent, mask_inside low high, bare i low high, flag_bits inside, clear]
  · intro i outside
    simp [flagPresent, flagPs, mask_outside outside, flag_bits outside.1, outside.1, Bool.or_comm, -getLsbD_eq_getElem]

section
variable (pte : Word)
include pte

theorem copied_leaf {f : Nat} (small : f < 2 ^ 40) :
    ptePhys ((physWord (f * 4096) &&& addressMask) ||| ((pte &&& ~~~addressMask &&& ~~~flagCow) ||| flagRw)) = f * 4096 ∧
      ∀ i, Outside i →
        ((physWord (f * 4096) &&& addressMask) ||| ((pte &&& ~~~addressMask &&& ~~~flagCow) ||| flagRw)).getLsbD i =
          (decide (i = 1) || (pte.getLsbD i && !decide (i = 9))) := by
  constructor
  · refine (ptePhys_congr ?_).trans (ptePhys_physWord small)
    intro i low high
    have inside : i < 64 := by omega
    have clear : ¬i = 1 := by omega
    simp [flagRw, mask_inside low high, flag_bits inside, clear]
  · intro i outside
    simp [flagRw, flagCow, mask_outside outside, flag_bits outside.1, outside.1, Bool.or_comm, -getLsbD_eq_getElem]

theorem cowFlags_bit (outside : Outside i) :
    (cowFlags pte).getLsbD i = (decide (i = 9) || (pte.getLsbD i && !decide (i = 0) && !decide (i = 1))) := by
  unfold cowFlags
  simp [flagPresent, flagRw, flagCow, mask_outside outside, flag_bits outside.1, outside.1, Bool.or_comm, -getLsbD_eq_getElem]

theorem cowFlags_bare : Bare (cowFlags pte) := by
  intro i low high
  have inside : i < 64 := by omega
  have clear : ¬i = 9 := by omega
  unfold cowFlags
  simp [flagCow, mask_inside low high, flag_bits inside, clear]

theorem readFlags_bit (outside : Outside i) :
    (pte &&& ~~~addressMask &&& ~~~flagPresent).getLsbD i = (pte.getLsbD i && !decide (i = 0)) := by
  simp [flagPresent, mask_outside outside, flag_bits outside.1, outside.1, -getLsbD_eq_getElem]

theorem readFlags_bare : Bare (pte &&& ~~~addressMask &&& ~~~flagPresent) := by
  intro i low high
  simp [mask_inside low high]

theorem cow_leaf :
    ptePhys ((pte &&& addressMask) ||| cowFlags pte ||| flagPresent) = ptePhys pte ∧
      ∀ i, Outside i → ((pte &&& addressMask) ||| cowFlags pte ||| flagPresent).getLsbD i =
        (decide (i = 0) || decide (i = 9) || (pte.getLsbD i && !decide (i = 0) && !decide (i = 1))) := by
  constructor
  · apply ptePhys_congr
    intro i low high
    have inside : i < 64 := by omega
    have clear : ¬i = 0 := by omega
    simp [flagPresent, mask_inside low high, cowFlags_bare pte i low high, flag_bits inside, clear]
  · intro i outside
    simp [flagPresent, mask_outside outside, cowFlags_bit pte outside, flag_bits outside.1, Bool.or_comm, Bool.or_assoc]

theorem cowed_leaf :
    ptePhys ((pte &&& ~~~flagRw) ||| flagCow) = ptePhys pte ∧
      ∀ i, Outside i → ((pte &&& ~~~flagRw) ||| flagCow).getLsbD i = (decide (i = 9) || (pte.getLsbD i && !decide (i = 1))) := by
  constructor
  · apply ptePhys_congr
    intro i low high
    have inside : i < 64 := by omega
    have clear : ¬i = 9 ∧ ¬i = 1 := by omega
    simp [flagRw, flagCow, flag_bits inside, clear.1, clear.2, inside, -getLsbD_eq_getElem]
  · intro i outside
    simp [flagRw, flagCow, flag_bits outside.1, outside.1, Bool.or_comm, -getLsbD_eq_getElem]

end

theorem word_ext {a b : Word} (phys : ptePhys a = ptePhys b) (bits : ∀ i, Outside i → a.getLsbD i = b.getLsbD i) : a = b := by
  apply eq_of_getLsbD_eq
  intro i inside
  by_cases address : 12 ≤ i ∧ i < 52
  · have masked : a &&& addressMask = b &&& addressMask := eq_of_toNat_eq phys
    have bit := congrArg (fun word => BitVec.getLsbD word i) masked
    simpa only [getLsbD_and, mask_bit inside, decide_eq_true address, Bool.and_true] using bit
  · exact bits i ⟨inside, address⟩

theorem ptePhys_physWord_self (pte : Word) : ptePhys (physWord (ptePhys pte)) = ptePhys pte := by
  unfold ptePhys physWord
  rw [ofNat_toNat, setWidth_eq, BitVec.and_assoc, BitVec.and_self]

/-- Bit `i` of the leaf `vmm_protect_in_space` writes: device leaves keep their caching
bits and stay non-executable, parked leaves keep nothing but the frame, and a shared
frame never becomes writable. -/
theorem protected_leaf (old flags : Word) (shared : Bool) (outside : Outside i) :
    (protectedPte old flags shared).getLsbD i =
      if old.getLsbD 11 then
        (old.getLsbD i && (decide (i = 11) || decide (i = 3) || decide (i = 4))) || decide (i = 63) ||
          (if flags.getLsbD 10 then decide (i = 10)
          else decide (i = 0) || decide (i = 2) || (flags.getLsbD i && decide (i = 1)))
      else if flags.getLsbD 10 then decide (i = 10) || decide (i = 63)
      else
        let plain := (flags.getLsbD i && !(decide (i = 7) || decide (i = 9) || decide (i = 10))) || decide (i = 0) || decide (i = 2)
        if old.getLsbD 9 || shared then (plain && !decide (i = 1)) || decide (i = 9) else plain := by
  unfold protectedPte
  simp only [has_device, has_protnone, has_cow]
  cases device : old.getLsbD 11 <;> cases park : flags.getLsbD 10 <;> cases cow : (old.getLsbD 9 || shared) <;>
    simp only [Bool.false_eq_true, if_true, if_false, flagPresent, flagRw, flagUser, flagPwt, flagPcd, flagPs, flagCow, flagProtnone,
      flagDevice, flagNoexec, getLsbD_or, getLsbD_and, getLsbD_not, mask_outside outside,
      flag_bits outside.1, outside.1, decide_true, Bool.true_and, Bool.and_false, Bool.false_or, Bool.not_or] <;>
    cases old.getLsbD i <;> cases flags.getLsbD i <;>
    simp [Bool.or_assoc, Bool.or_comm, Bool.or_left_comm]

theorem protected_phys (old : Word) (bare : Bare flags) (shared : Bool) :
    ptePhys (protectedPte old flags shared) = ptePhys old := by
  apply ptePhys_congr
  intro i low high
  have inside : i < 64 := by omega
  have flag : ∀ b, b < 12 ∨ b = 63 → (Word.bit b).getLsbD i = false := by
    intro b range
    rw [flag_bits inside, decide_eq_false (by omega)]
  unfold protectedPte
  cases old.has flagDevice <;> cases flags.has flagProtnone <;> cases old.has flagCow || shared <;>
    simp [flagPresent, flagRw, flagUser, flagPwt, flagPcd, flagCow, flagProtnone, flagDevice, flagNoexec, getLsbD_or,
      getLsbD_and, mask_inside low high, flag 0 (by decide), flag 1 (by decide), flag 2 (by decide), flag 3 (by decide),
      flag 4 (by decide), flag 9 (by decide), flag 10 (by decide), flag 11 (by decide), flag 63 (by decide), bare i low high]

end SecOS.Vmm
