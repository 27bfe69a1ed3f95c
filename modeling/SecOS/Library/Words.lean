import Mathlib

/-! Sixty-four bit words as sets of bit positions. The sideways addition that machines without a
population count use acts on each byte alone. -/

namespace SecOS.Library
open List Finset BitVec

abbrev Word := BitVec 64

namespace Word

def setBits (x : Word) : Nat := ((Finset.range 64).filter (fun i => x.getLsbD i = true)).card

def zeroBits (x : Word) : Nat := ((Finset.range 64).filter (fun i => x.getLsbD i = false)).card

def bit (i : Nat) : Word := 1#64 <<< i

theorem getLsbD_bit {b i : Nat} (inside : i < 64) : (bit b).getLsbD i = decide (i = b) := by
  unfold bit
  rw [getLsbD_shiftLeft]
  by_cases same : i = b
  · subst same
    simp [inside]
  · by_cases before : i < b
    · simp [before, same]
    · have after : i - b ≠ 0 := by omega
      simp [inside, before, same, getLsbD_one, after]

def has (x mask : Word) : Bool := x &&& mask != 0#64

theorem has_bit (x : Word) {b : Nat} (low : b < 64) : x.has (bit b) = x.getLsbD b := by
  have same : (x &&& bit b = 0#64) ↔ x.getLsbD b = false := by
    constructor
    · intro empty
      have clear := congrArg (fun word => BitVec.getLsbD word b) empty
      simpa [getLsbD_and, getLsbD_bit low] using clear
    · intro clear
      apply eq_of_getLsbD_eq
      intro i inside
      rw [getLsbD_and, getLsbD_bit inside, getLsbD_zero]
      by_cases here : i = b
      · rw [here, clear]
        rfl
      · rw [decide_eq_false here, Bool.and_false]
  unfold has
  cases found : x.getLsbD b with
  | false => rw [same.mpr found]; rfl
  | true =>
    rw [bne_iff_ne]
    intro empty
    rw [same.mp empty] at found
    exact nomatch found

/-- Index of the lowest set bit; 64 for the zero word, where it is undefined. -/
def lowest (x : Word) : Nat := ((List.range 64).find? (fun i => x.getLsbD i)).getD 64

theorem lowest_spec {x : Word} (nonzero : x ≠ 0#64) : x.lowest < 64 ∧ x.getLsbD x.lowest = true := by
  unfold lowest
  cases found : (List.range 64).find? (fun i => x.getLsbD i) with
  | none =>
    refine absurd (eq_of_getLsbD_eq ?_) nonzero
    intro i inside
    have clear := List.find?_eq_none.mp found i (by simpa using inside)
    simpa using clear
  | some i =>
    have member := mem_of_find?_eq_some found
    exact ⟨by simpa using member, find?_some found⟩

theorem below_lowest {x : Word} {i : Nat} (below : i < x.lowest) (inside : i < 64) : x.getLsbD i = false := by
  unfold lowest at below
  cases found : (List.range 64).find? (fun i => x.getLsbD i) with
  | none => simpa using List.find?_eq_none.mp found i (by simpa using inside)
  | some first =>
    rw [found, Option.getD_some] at below
    obtain ⟨_, before, after, split, clear⟩ := List.find?_eq_some_iff_append.mp found
    have sorted : (before ++ first :: after).Pairwise (· < ·) := split ▸ pairwise_lt_range
    have member : i ∈ before ++ first :: after := split ▸ List.mem_range.mpr inside
    rcases mem_append.mp member with early | late
    · simpa using clear i early
    · rcases List.mem_cons.mp late with same | behind
      · omega
      · have ordered := rel_of_pairwise_cons (pairwise_append.mp sorted).2.1 behind
        omega

private theorem card_eq_sum (p : Nat → Prop) [DecidablePred p] :
    ((Finset.range 64).filter p).card = ∑ i ∈ Finset.range 64, if p i then 1 else 0 :=
  card_filter _ _

theorem zeroBits_or (old mask : Word) :
    zeroBits (old ||| mask) + setBits (old ^^^ (old ||| mask)) = zeroBits old := by
  simp only [zeroBits, setBits, card_eq_sum, ← sum_add_distrib]
  apply sum_congr rfl
  intro i _
  simp only [getLsbD_or, getLsbD_xor]
  cases old.getLsbD i <;> cases mask.getLsbD i <;> rfl

theorem zeroBits_and_not (old mask : Word) :
    zeroBits (old &&& ~~~mask) = zeroBits old + setBits (old ^^^ (old &&& ~~~mask)) := by
  simp only [zeroBits, setBits, card_eq_sum, ← sum_add_distrib]
  apply sum_congr rfl
  intro i member
  have inside : i < 64 := Finset.mem_range.mp member
  simp only [getLsbD_and, getLsbD_xor, getLsbD_not, inside, decide_true, Bool.true_and]
  cases old.getLsbD i <;> cases mask.getLsbD i <;> rfl

theorem zeroBits_allOnes : zeroBits (BitVec.allOnes 64) = 0 := by
  refine card_eq_zero.mpr (Finset.filter_eq_empty_iff.mpr ?_)
  intro i member clear
  rw [getLsbD_allOnes, decide_eq_false_iff_not] at clear
  exact clear (Finset.mem_range.mp member)

theorem zeroBits_le (x : Word) : zeroBits x ≤ 64 := by
  have bound := card_filter_le (Finset.range 64) (fun i => x.getLsbD i = false)
  rwa [card_range] at bound

theorem ne_allOnes {x : Word} (partly : x ≠ BitVec.allOnes 64) : ~~~x ≠ 0#64 := by
  intro none
  apply partly
  rw [← not_not (b := x), none, not_zero]

def run (b n : Nat) : Word := if n = 64 then BitVec.allOnes 64 else ((1#64 <<< n) - 1#64) <<< b

theorem getLsbD_run {b n i : Nat} (fits : b + n ≤ 64) (inside : i < 64) :
    (run b n).getLsbD i = decide (b ≤ i ∧ i < b + n) := by
  unfold run
  split
  next whole =>
    subst whole
    have first : b = 0 := by omega
    subst first
    rw [getLsbD_allOnes]
    simp [inside]
  · have below : n < 64 := by omega
    have one : (1#64 <<< n).toNat = 2 ^ n := by
      rw [toNat_shiftLeft]
      simp only [toNat_ofNat, Nat.shiftLeft_eq, Nat.one_mod, Nat.one_mul, Nat.reducePow]
      exact Nat.mod_eq_of_lt (Nat.pow_lt_pow_right (by decide) below)
    have ones : ((1#64 <<< n) - 1#64).toNat = 2 ^ n - 1 := by
      rw [toNat_sub_of_le, one]
      · rfl
      · rw [le_def, one]
        exact Nat.one_le_two_pow
    rw [getLsbD_shiftLeft]
    have bit : ((1#64 <<< n) - 1#64).getLsbD (i - b) = decide (i - b < n) := by
      rw [BitVec.getLsbD, ones, Nat.testBit_two_pow_sub_one]
    rw [bit]
    simp only [inside, decide_true, Bool.true_and]
    by_cases before : i < b
    · have outside : ¬ (b ≤ i ∧ i < b + n) := by omega
      simp [before, outside]
    · have same : (i - b < n) ↔ (b ≤ i ∧ i < b + n) := by omega
      simp [before, same]

/-- Population count by adding neighbouring fields of doubling width. -/
def sideways (x : Word) : Word :=
  let x := x - ((x >>> 1) &&& 0x5555555555555555#64)
  let x := (x &&& 0x3333333333333333#64) + ((x >>> 2) &&& 0x3333333333333333#64)
  let x := (x + (x >>> 4)) &&& 0x0F0F0F0F0F0F0F0F#64
  (x * 0x0101010101010101#64) >>> 56

private def pairs (mask x : Nat) : Nat := x - ((x >>> 1) &&& mask)
private def nibbles (mask x : Nat) : Nat := (x &&& mask) + ((x >>> 2) &&& mask)
private def octets (mask x : Nat) : Nat := (x + (x >>> 4)) &&& mask

private def ofBytes : List Nat → Nat
  | [] => 0
  | byte :: rest => byte + 256 * ofBytes rest

private theorem and_bytes {a m : Nat} (y rest : Nat) (low : a < 256) (narrow : m < 256) :
    (a + 256 * y) &&& (m + 256 * rest) = (a &&& m) + 256 * (y &&& rest) := by
  have both : a &&& m < 2 ^ 8 := Nat.lt_of_le_of_lt Nat.and_le_left low
  rw [Nat.add_comm a, Nat.add_comm m, Nat.add_comm (a &&& m)]
  apply Nat.eq_of_testBit_eq
  intro i
  rw [Nat.testBit_and, Nat.testBit_two_pow_mul_add (i := 8) y low, Nat.testBit_two_pow_mul_add (i := 8) rest narrow,
    Nat.testBit_two_pow_mul_add (i := 8) _ both]
  split <;> simp

/-- A shift by less than a byte brings bits of the next byte into this one; the
masks of the count are clear exactly there. -/
private theorem shifted_and {a m : Nat} (y rest shift : Nat) (small : shift = 1 ∨ shift = 2) (low : a < 256)
    (narrow : m < 256) (ignored : ∀ a < 256, ∀ high < 2 ^ shift, (a >>> shift + 256 / 2 ^ shift * high) &&& m = a >>> shift &&& m) :
    ((a + 256 * y) >>> shift) &&& (m + 256 * rest) = (a >>> shift &&& m) + 256 * (y >>> shift &&& rest) := by
  have split : (a + 256 * y) >>> shift = (a >>> shift + 256 / 2 ^ shift * (y % 2 ^ shift)) + 256 * (y >>> shift) ∧
      a >>> shift + 256 / 2 ^ shift * (y % 2 ^ shift) < 256 := by
    simp only [Nat.shiftRight_eq_div_pow]
    rcases small with rfl | rfl <;> omega
  rw [split.1, and_bytes _ _ split.2 narrow, ignored a low _ (Nat.mod_lt _ (Nat.two_pow_pos _))]

section
variable {a : Nat} (y rest : Nat)

private theorem pairs_cons (low : a < 256) : pairs (0x55 + 256 * rest) (a + 256 * y) = pairs 0x55 a + 256 * pairs rest y := by
  have masked := shifted_and (m := 0x55) y rest 1 (Or.inl rfl) low (by decide) (by decide +kernel)
  have first : a >>> 1 &&& 0x55 ≤ a := Nat.le_trans Nat.and_le_left (Nat.shiftRight_le _ _)
  have others : y >>> 1 &&& rest ≤ y := Nat.le_trans Nat.and_le_left (Nat.shiftRight_le _ _)
  simp only [pairs, masked]
  omega

private theorem nibbles_cons (low : a < 256) : nibbles (0x33 + 256 * rest) (a + 256 * y) = nibbles 0x33 a + 256 * nibbles rest y := by
  have masked := shifted_and (m := 0x33) y rest 2 (Or.inr rfl) low (by decide) (by decide +kernel)
  simp only [nibbles, masked, and_bytes y rest low (show 0x33 < 256 by decide)]
  omega

/-- Both nibbles of a byte hold a count of four bits. -/
private def Counted (byte : Nat) : Prop := byte < 256 ∧ byte % 16 ≤ 4 ∧ byte / 16 ≤ 4

private theorem octets_cons (counted : Counted a) (next : y % 16 ≤ 4) :
    octets (0x0F + 256 * rest) (a + 256 * y) = octets 0x0F a + 256 * octets rest y := by
  obtain ⟨low, units, tens⟩ := counted
  have split : (a + 256 * y) + (a + 256 * y) >>> 4 = (a + a >>> 4 + 16 * (y % 16)) + 256 * (y + y >>> 4) ∧
      a + a >>> 4 + 16 * (y % 16) < 256 := by
    simp only [Nat.shiftRight_eq_div_pow]
    omega
  have ignored : (a + a >>> 4 + 16 * (y % 16)) &&& 0x0F = (a + a >>> 4) &&& 0x0F := by
    have mask : (0x0F : Nat) = 2 ^ 4 - 1 := rfl
    rw [mask, Nat.and_two_pow_sub_one_eq_mod, Nat.and_two_pow_sub_one_eq_mod]
    omega
  simp only [octets, split.1, and_bytes _ rest split.2 (show 0x0F < 256 by decide), ignored]

end

private def byteBits (byte : Nat) : Nat := ((Finset.range 8).filter (fun i => byte.testBit i)).card

private theorem byte_counts : ∀ byte < 256, Counted (nibbles 0x33 (pairs 0x55 byte)) ∧ pairs 0x55 byte < 256 ∧
    octets 0x0F (nibbles 0x33 (pairs 0x55 byte)) = byteBits byte := by
  unfold Counted
  decide +kernel

private def repeated (mask : Nat) (bytes : List Nat) : Nat := ofBytes (List.replicate bytes.length mask)

/-- Byte by byte; the lowest nibble of what follows is a count again. -/
private theorem byte_steps (bytes : List Nat) (low : ∀ byte ∈ bytes, byte < 256) :
    nibbles (repeated 0x33 bytes) (pairs (repeated 0x55 bytes) (ofBytes bytes)) % 16 ≤ 4 ∧
      octets (repeated 0x0F bytes) (nibbles (repeated 0x33 bytes) (pairs (repeated 0x55 bytes) (ofBytes bytes))) =
        ofBytes (bytes.map byteBits) := by
  induction bytes with
  | nil => decide
  | cons byte rest ih =>
    obtain ⟨first, later⟩ := List.forall_mem_cons.mp low
    obtain ⟨next, counts⟩ := ih later
    obtain ⟨counted, paired, count⟩ := byte_counts byte first
    have grown (mask : Nat) : repeated mask (byte :: rest) = mask + 256 * repeated mask rest := rfl
    simp only [grown, ofBytes, pairs_cons _ _ first, nibbles_cons _ _ paired, octets_cons _ _ counted next, counts, count, List.map_cons,
      and_true]
    have units := counted.2.1
    omega

private theorem bytes_bits (bytes : List Nat) (low : ∀ byte ∈ bytes, byte < 256) :
    (∑ i ∈ Finset.range (8 * bytes.length), if (ofBytes bytes).testBit i then 1 else 0) = (bytes.map byteBits).sum := by
  induction bytes with
  | nil => rfl
  | cons byte rest ih =>
    obtain ⟨first, later⟩ := List.forall_mem_cons.mp low
    have bits (i : Nat) : (ofBytes (byte :: rest)).testBit i = if i < 8 then byte.testBit i else (ofBytes rest).testBit (i - 8) := by
      rw [ofBytes, Nat.add_comm]
      exact Nat.testBit_two_pow_mul_add (i := 8) _ first i
    have length : 8 * (byte :: rest).length = 8 + 8 * rest.length := by rw [length_cons, Nat.mul_add, Nat.add_comm]
    rw [length, sum_range_add, List.map_cons, List.sum_cons, ← ih later]
    congr 1
    · rw [byteBits, card_filter]
      apply sum_congr rfl
      intro i member
      rw [bits, if_pos (Finset.mem_range.mp member)]
    · apply sum_congr rfl
      intro i _
      rw [bits, if_neg (show ¬ 8 + i < 8 by omega), Nat.add_sub_cancel_left]

private def bytesOf (x : Word) : List Nat := (List.range 8).map fun i => x.toNat / 256 ^ i % 256

private theorem ofBytes_bytesOf (x : Word) : ofBytes (bytesOf x) = x.toNat := by
  have bound : x.toNat < 2 ^ 64 := x.isLt
  simp only [bytesOf, List.range, List.range.loop, List.map, ofBytes]
  omega

private theorem bytesOf_low (x : Word) : ∀ byte ∈ bytesOf x, byte < 256 :=
  List.forall_mem_map.mpr fun _ _ => Nat.mod_lt _ (by decide)

private theorem top_byte {low total : Nat} (fits : low < 2 ^ 56) (small : total < 256) (high : Nat) :
    (low + 2 ^ 56 * total + 2 ^ 64 * high) % 2 ^ 64 / 2 ^ 56 = total := by
  omega

/-- The last multiplication adds the eight byte counts into the top byte. -/
private theorem gather (counts : List Nat) (eight : counts.length = 8) (small : ∀ count ∈ counts, count ≤ 8) :
    ofBytes counts * 0x0101010101010101 % 2 ^ 64 / 2 ^ 56 = counts.sum := by
  match counts, eight with
  | [a, b, c, d, e, f, g, h], _ =>
    simp only [List.mem_cons, not_mem_nil, or_false, forall_eq_or_imp, forall_eq] at small
    simp only [ofBytes, List.sum_cons, sum_nil]
    have expand : (a + 256 * (b + 256 * (c + 256 * (d + 256 * (e + 256 * (f + 256 * (g + 256 * (h + 256 * 0)))))))) *
        0x0101010101010101 =
        (a + 256 * ((a + b) + 256 * ((a + b + c) + 256 * ((a + b + c + d) + 256 * ((a + b + c + d + e) +
          256 * ((a + b + c + d + e + f) + 256 * (a + b + c + d + e + f + g))))))) +
        2 ^ 56 * (a + b + c + d + e + f + g + h) +
        2 ^ 64 * ((b + c + d + e + f + g + h) + 256 * ((c + d + e + f + g + h) + 256 * ((d + e + f + g + h) +
          256 * ((e + f + g + h) + 256 * ((f + g + h) + 256 * ((g + h) + 256 * h)))))) := by
      ring
    rw [expand, top_byte]
    all_goals
      clear expand
      omega

private theorem pairs_word (x : Word) :
    (x - ((x >>> 1) &&& 0x5555555555555555#64)).toNat = pairs 0x5555555555555555 x.toNat := by
  rw [toNat_sub_of_le]
  · simp only [pairs, toNat_and, toNat_ushiftRight, toNat_ofNat, Nat.reducePow, Nat.reduceMod]
  · rw [le_def, toNat_and, toNat_ushiftRight]
    exact Nat.le_trans Nat.and_le_left (Nat.shiftRight_le _ _)

private theorem nibbles_word (y : Word) :
    ((y &&& 0x3333333333333333#64) + ((y >>> 2) &&& 0x3333333333333333#64)).toNat = nibbles 0x3333333333333333 y.toNat ∧
      nibbles 0x3333333333333333 y.toNat ≤ 0x6666666666666666 := by
  have left : y.toNat &&& 0x3333333333333333 ≤ 0x3333333333333333 := Nat.and_le_right
  have right : y.toNat >>> 2 &&& 0x3333333333333333 ≤ 0x3333333333333333 := Nat.and_le_right
  simp only [nibbles, toNat_add, toNat_and, toNat_ushiftRight, toNat_ofNat,
    Nat.reducePow, Nat.reduceMod]
  exact ⟨Nat.mod_eq_of_lt (by omega), by omega⟩

private theorem octets_word (y : Word) (room : y.toNat ≤ 0x6666666666666666) :
    ((y + (y >>> 4)) &&& 0x0F0F0F0F0F0F0F0F#64).toNat = octets 0x0F0F0F0F0F0F0F0F y.toNat := by
  have shifted : y.toNat >>> 4 ≤ y.toNat := Nat.shiftRight_le _ _
  simp only [octets, toNat_add, toNat_and, toNat_ushiftRight, toNat_ofNat,
    Nat.reducePow, Nat.reduceMod]
  rw [Nat.mod_eq_of_lt (by omega)]

private theorem sideways_bytes (x : Word) :
    (sideways x).toNat = octets 0x0F0F0F0F0F0F0F0F (nibbles 0x3333333333333333 (pairs 0x5555555555555555 x.toNat)) *
      0x0101010101010101 % 2 ^ 64 / 2 ^ 56 := by
  have room := nibbles_word (x - ((x >>> 1) &&& 0x5555555555555555#64))
  rw [pairs_word] at room
  have ones : (0x0101010101010101#64).toNat = 0x0101010101010101 := by decide
  rw [← room.1, ← octets_word _ (by rw [room.1]; exact room.2), ← ones, ← toNat_mul, ← Nat.shiftRight_eq_div_pow,
    ← toNat_ushiftRight]
  unfold sideways
  rfl

theorem sideways_eq_setBits (x : Word) : (sideways x).toNat = setBits x := by
  have eight : (bytesOf x).length = 8 := by simp [bytesOf]
  have mask (m : Nat) : repeated m (bytesOf x) = ofBytes (List.replicate 8 m) := by rw [repeated, eight]
  have stepped := (byte_steps (bytesOf x) (bytesOf_low x)).2
  rw [ofBytes_bytesOf, mask, mask, mask] at stepped
  have small : ∀ count ∈ (bytesOf x).map byteBits, count ≤ 8 :=
    List.forall_mem_map.mpr fun _ _ => Nat.le_trans (card_filter_le _ _) (by simp)
  have bits := bytes_bits (bytesOf x) (bytesOf_low x)
  rw [ofBytes_bytesOf, eight] at bits
  have gathered := gather _ ((length_map _).trans eight) small
  rw [← stepped, ← bits] at gathered
  rw [sideways_bytes]
  exact gathered.trans (card_eq_sum _).symm

end Word

theorem mask_split {v m : Nat} (low : v < 2 ^ 64) (mask : m < 2 ^ 64) : (v &&& (2 ^ 64 - 1 - m)) + (v &&& m) = v := by
  have split : (BitVec.ofNat 64 v &&& ~~~BitVec.ofNat 64 m) + (BitVec.ofNat 64 v &&& BitVec.ofNat 64 m) = BitVec.ofNat 64 v := by
    rw [add_eq_or_of_and_eq_zero]
    · ext i inside
      simp only [getElem_or, getElem_and, getElem_not]
      cases (BitVec.ofNat 64 v)[i] <;> cases (BitVec.ofNat 64 m)[i] <;> rfl
    · ext i inside
      simp only [getElem_and, getElem_not, BitVec.getElem_zero]
      cases (BitVec.ofNat 64 v)[i] <;> cases (BitVec.ofNat 64 m)[i] <;> rfl
  have sum := congrArg BitVec.toNat split
  simp only [toNat_add, toNat_and, toNat_not, toNat_ofNat, Nat.mod_eq_of_lt low, Nat.mod_eq_of_lt mask] at sum
  have first : v &&& (2 ^ 64 - 1 - m) ≤ v := Nat.and_le_left
  have second : v &&& m ≤ v := Nat.and_le_left
  omega

end SecOS.Library
