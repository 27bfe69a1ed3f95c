import Mathlib

/-! Byte buffers and the numbers stored in them, in both byte orders. A buffer is the
byte at each offset; a number of `w` bytes is read and written at an offset. -/

namespace SecOS.Library

abbrev Bytes := Nat → UInt8

namespace Bytes

def zeros : Bytes := fun _ => 0

def drop (b : Bytes) (off : Nat) : Bytes := fun i => b (off + i)

def copy (b : Bytes) (off : Nat) (src : Bytes) (n : Nat) : Bytes := fun i => if off ≤ i ∧ i < off + n then src (i - off) else b i

def take (b : Bytes) (n : Nat) : List UInt8 := (List.range n).map b

def rd (b : Bytes) : Nat → Nat → Nat
  | 0, _ => 0
  | w + 1, off => (b off).toNat + 256 * rd b w (off + 1)

def wr (b : Bytes) (w off v : Nat) : Bytes := fun i => if off ≤ i ∧ i < off + w then UInt8.ofNat (v / 256 ^ (i - off)) else b i

def rdBe (b : Bytes) : Nat → Nat → Nat
  | 0, _ => 0
  | w + 1, off => (b off).toNat * 256 ^ w + rdBe b w (off + 1)

def wrBe (b : Bytes) (w off v : Nat) : Bytes :=
  fun i => if off ≤ i ∧ i < off + w then UInt8.ofNat (v / 256 ^ (off + w - 1 - i)) else b i

abbrev rd16 (b : Bytes) (off : Nat) : Nat := rd b 2 off
abbrev rd32 (b : Bytes) (off : Nat) : Nat := rd b 4 off
abbrev wr16 (b : Bytes) (off v : Nat) : Bytes := wr b 2 off v
abbrev wr32 (b : Bytes) (off v : Nat) : Bytes := wr b 4 off v
abbrev be16 (b : Bytes) (off : Nat) : Nat := rdBe b 2 off
abbrev be32 (b : Bytes) (off : Nat) : Nat := rdBe b 4 off
abbrev wbe16 (b : Bytes) (off v : Nat) : Bytes := wrBe b 2 off v
abbrev wbe32 (b : Bytes) (off v : Nat) : Bytes := wrBe b 4 off v

section
variable {b b' : Bytes} {w w' off off' v i : Nat}

theorem wr_out (out : i < off ∨ off + w ≤ i) : wr b w off v i = b i := if_neg (by omega)

theorem wrBe_out (out : i < off ∨ off + w ≤ i) : wrBe b w off v i = b i := if_neg (by omega)

theorem copy_out {src : Bytes} {n : Nat} (out : i < off ∨ off + n ≤ i) : copy b off src n i = b i := if_neg (by omega)

theorem copy_in {src : Bytes} {n : Nat} (low : off ≤ i) (high : i < off + n) : copy b off src n i = src (i - off) := if_pos ⟨low, high⟩

theorem rd_congr (same : ∀ i, off ≤ i → i < off + w → b i = b' i) : rd b w off = rd b' w off := by
  induction w generalizing off with
  | zero => rfl
  | succ w ih =>
    rw [rd, rd, same off le_rfl (by omega), ih fun i low high => same i (by omega) (by omega)]

theorem rdBe_congr (same : ∀ i, off ≤ i → i < off + w → b i = b' i) : rdBe b w off = rdBe b' w off := by
  induction w generalizing off with
  | zero => rfl
  | succ w ih =>
    rw [rdBe, rdBe, same off le_rfl (by omega), ih fun i low high => same i (by omega) (by omega)]

theorem rd_lt (b : Bytes) (w off : Nat) : rd b w off < 256 ^ w := by
  induction w generalizing off with
  | zero => exact Nat.one_pos
  | succ w ih =>
    have head := (b off).toNat_lt
    have rest := ih (off + 1)
    rw [rd, Nat.pow_succ]
    omega

theorem rdBe_lt (b : Bytes) (w off : Nat) : rdBe b w off < 256 ^ w := by
  induction w generalizing off with
  | zero => exact Nat.one_pos
  | succ w ih =>
    have head := (b off).toNat_lt
    have rest := ih (off + 1)
    rw [rdBe, Nat.pow_succ, Nat.mul_comm (256 ^ w)]
    calc (b off).toNat * 256 ^ w + rdBe b w (off + 1) < (b off).toNat * 256 ^ w + 256 ^ w := Nat.add_lt_add_left rest _
      _ = ((b off).toNat + 1) * 256 ^ w := (Nat.succ_mul _ _).symm
      _ ≤ 256 * 256 ^ w := Nat.mul_le_mul_right _ head

theorem rd_wr_apart (apart : off' + w' ≤ off ∨ off + w ≤ off') : rd (wr b w off v) w' off' = rd b w' off' :=
  rd_congr fun i low high => wr_out (by omega)

theorem rdBe_wrBe_apart (apart : off' + w' ≤ off ∨ off + w ≤ off') : rdBe (wrBe b w off v) w' off' = rdBe b w' off' :=
  rdBe_congr fun i low high => wrBe_out (by omega)

theorem rdBe_inj (same : rdBe b w off = rdBe b' w off) (low : off ≤ i) (high : i < off + w) : b i = b' i := by
  induction w generalizing off with
  | zero => omega
  | succ w ih =>
    have rest := rdBe_lt b w (off + 1)
    have rest' := rdBe_lt b' w (off + 1)
    rw [rdBe, rdBe] at same
    have heads : (b off).toNat = (b' off).toNat := by
      have quotient := congrArg (· / 256 ^ w) same
      simp only [Nat.mul_comm _ (256 ^ w), Nat.mul_add_div (Nat.pow_pos (show 0 < 256 by decide)), Nat.div_eq_of_lt rest,
        Nat.div_eq_of_lt rest', Nat.add_zero] at quotient
      exact quotient
    by_cases here : i = off
    · rw [here]
      exact UInt8.toNat_inj.mp heads
    · rw [heads] at same
      exact ih (Nat.add_left_cancel same) (by omega) (by omega)

private theorem rd_wr_tail (b : Bytes) (w off v k : Nat) (inside : k ≤ w) : rd (wr b w off v) k (off + (w - k)) = v / 256 ^ (w - k) % 256 ^ k := by
  induction k with
  | zero => rw [rd, Nat.pow_zero, Nat.mod_one]
  | succ k ih =>
    have step : w - k = w - (k + 1) + 1 := by omega
    have byte : (wr b w off v (off + (w - (k + 1)))).toNat = v / 256 ^ (w - (k + 1)) % 256 := by
      rw [wr, if_pos (by omega), Nat.add_sub_cancel_left]
      exact UInt8.toNat_ofNat'
    have rest := ih (by omega)
    rw [step] at rest
    rw [rd, byte, Nat.add_assoc, rest, Nat.pow_succ 256 k, Nat.mul_comm (256 ^ k), Nat.mod_mul, Nat.pow_succ, Nat.div_div_eq_div_mul]

theorem rd_wr (b : Bytes) (w off v : Nat) : rd (wr b w off v) w off = v % 256 ^ w := by
  have whole := rd_wr_tail b w off v w (Nat.le_refl w)
  rwa [Nat.sub_self, Nat.pow_zero, Nat.div_one] at whole

theorem rd_wr_of_lt {b : Bytes} {w off v : Nat} (low : v < 256 ^ w) : rd (wr b w off v) w off = v := by
  rw [rd_wr, Nat.mod_eq_of_lt low]

private theorem rdBe_wrBe_tail (b : Bytes) (w off v k : Nat) (inside : k ≤ w) : rdBe (wrBe b w off v) k (off + (w - k)) = v % 256 ^ k := by
  induction k with
  | zero => rw [rdBe, Nat.pow_zero, Nat.mod_one]
  | succ k ih =>
    have step : off + (w - (k + 1)) + 1 = off + (w - k) := by omega
    have byte : (wrBe b w off v (off + (w - (k + 1)))).toNat = v / 256 ^ k % 256 := by
      rw [wrBe, if_pos (by omega), show off + w - 1 - (off + (w - (k + 1))) = k by omega]
      exact UInt8.toNat_ofNat'
    rw [rdBe, byte, step, ih (by omega), Nat.pow_succ, Nat.mod_mul, Nat.mul_comm (256 ^ k), Nat.add_comm]

theorem rdBe_wrBe (b : Bytes) (w off v : Nat) : rdBe (wrBe b w off v) w off = v % 256 ^ w := by
  have whole := rdBe_wrBe_tail b w off v w (Nat.le_refl w)
  rwa [Nat.sub_self] at whole

end
end Bytes
end SecOS.Library
