import SecOS.NtfsNames

/-! File names in UTF-16 and UTF-8. What the driver shows of a name it takes back as the same
name, surrogates without partners included. -/

namespace SecOS.Ntfs
open List

def utf8Of (units : List Nat) : List Nat := (points units).flatMap encodePoint

theorem putPoints_eq {cap : Nat} (ps : List Nat) : ∀ {out : List Nat}, out.length < cap →
    putPoints cap ps out = if (out ++ ps.flatMap encodePoint).length < cap then some (out ++ ps.flatMap encodePoint) else none := by
  induction ps with
  | nil =>
    intro out room
    rw [flatMap_nil, append_nil, if_pos room]
    rfl
  | cons c rest ih =>
    intro out room
    rw [putPoints, flatMap_cons, ← append_assoc]
    split
    · rw [if_neg]
      rw [length_append, length_append]
      omega
    · refine ih ?_
      rw [length_append]
      omega

theorem utf16To8_eq {cap : Nat} (room : 0 < cap) (units : List Nat) :
    utf16To8 units cap = if (utf8Of units).length < cap then some (utf8Of units) else none :=
  putPoints_eq (points units) room

theorem points_bound (units : List Nat) (small : ∀ c ∈ units, c < 0x10000) : ∀ p ∈ points units, p < 0x110000 := by
  induction units using points.induct with
  | case1 => exact nofun
  | case2 c =>
    intro p member
    have bound := small c mem_cons_self
    rw [points, mem_singleton] at member
    omega
  | case3 c d rest pair ih =>
    intro p member
    rw [points, if_pos pair] at member
    rcases mem_cons.mp member with here | later
    · omega
    · exact ih (fun c member => small c (mem_cons_of_mem _ (mem_cons_of_mem _ member))) p later
  | case4 c d rest single ih =>
    intro p member
    rw [points, if_neg single] at member
    rcases mem_cons.mp member with rfl | later
    · have bound := small p mem_cons_self
      omega
    · exact ih (fun c member => small c (mem_cons_of_mem _ member)) p later

theorem points_units (units : List Nat) (small : ∀ c ∈ units, c < 0x10000) : (points units).flatMap unitsOf = units := by
  have single : ∀ c, c < 0x10000 → unitsOf c = [c] := fun c low => if_neg (Nat.not_le_of_lt low)
  induction units using points.induct with
  | case1 => rfl
  | case2 c =>
    rw [points, flatMap_singleton]
    exact single c (small c mem_cons_self)
  | case3 c d rest pair ih =>
    rw [points, if_pos pair, flatMap_cons, ih fun c member => small c (mem_cons_of_mem _ (mem_cons_of_mem _ member))]
    have back : unitsOf (0x10000 + (c - 0xD800) * 1024 + (d - 0xDC00)) = [c, d] := by
      unfold unitsOf
      rw [if_pos (by omega)]
      have high : 0xD800 + (0x10000 + (c - 0xD800) * 1024 + (d - 0xDC00) - 0x10000) / 1024 = c := by omega
      have low : 0xDC00 + (0x10000 + (c - 0xD800) * 1024 + (d - 0xDC00) - 0x10000) % 1024 = d := by omega
      rw [high, low]
    rw [back]
    rfl
  | case4 c d rest apart ih =>
    rw [points, if_neg apart, flatMap_cons, ih fun c member => small c (mem_cons_of_mem _ member)]
    rw [single c (small c mem_cons_self)]
    rfl

theorem decode_point {p : Nat} (bound : p < 0x110000) (rest : List Nat) : ∃ lead tail bits need,
    encodePoint p ++ rest = lead :: tail ∧ decodeLead lead = some (bits, need) ∧ decodeTail need bits tail = some (p, rest) ∧
      misencoded need p = false := by
  have cont : ∀ c, (0x80 + c % 64) / 64 = 2 ∧ (0x80 + c % 64) % 64 = c % 64 := fun c => by omega
  unfold encodePoint
  split
  next ascii => exact ⟨p, rest, p, 0, rfl, if_pos ascii, rfl, rfl⟩
  split
  · refine ⟨0xC0 + p / 64, (0x80 + p % 64) :: rest, p / 64, 1, rfl, ?_, ?_, ?_⟩
    · unfold decodeLead
      rw [if_neg (by omega), if_pos (by omega)]
      congr 2
      omega
    · simp only [decodeTail, (cont p).1, (cont p).2, ne_eq, not_true_eq_false, if_false]
      congr 2
      omega
    · unfold misencoded
      exact decide_eq_false (by omega)
  split
  · refine ⟨0xE0 + p / 4096, (0x80 + p / 64 % 64) :: (0x80 + p % 64) :: rest, p / 4096, 2, rfl, ?_, ?_, ?_⟩
    · unfold decodeLead
      rw [if_neg (by omega), if_neg (by omega), if_pos (by omega)]
      congr 2
      omega
    · simp only [decodeTail, (cont p).1, (cont p).2, (cont (p / 64)).1, (cont (p / 64)).2, ne_eq, not_true_eq_false, if_false]
      congr 2
      omega
    · unfold misencoded
      exact decide_eq_false (by omega)
  · refine ⟨0xF0 + p / 262144, (0x80 + p / 4096 % 64) :: (0x80 + p / 64 % 64) :: (0x80 + p % 64) :: rest, p / 262144, 3, rfl, ?_, ?_, ?_⟩
    · unfold decodeLead
      rw [if_neg (by omega), if_neg (by omega), if_neg (by omega), if_pos (by omega)]
      congr 2
      omega
    · simp only [decodeTail, (cont p).1, (cont p).2, (cont (p / 64)).1, (cont (p / 64)).2, (cont (p / 4096)).1, (cont (p / 4096)).2, ne_eq,
        not_true_eq_false, if_false]
      congr 2
      omega
    · unfold misencoded
      exact decide_eq_false (by omega)

theorem decodeAll_eq (ps : List Nat) (bound : ∀ p ∈ ps, p < 0x110000) : ∀ {fuel : Nat} {out : List Nat},
    (ps.flatMap encodePoint).length ≤ fuel → (out ++ ps.flatMap unitsOf).length ≤ 255 →
      decodeAll fuel (ps.flatMap encodePoint) out = some (out ++ ps.flatMap unitsOf) := by
  induction ps with
  | nil =>
    intro fuel out _ _
    rw [flatMap_nil, flatMap_nil, append_nil, decodeAll]
  | cons p rest ih =>
    intro fuel out enough short
    rw [flatMap_cons] at enough ⊢
    rw [flatMap_cons, ← append_assoc] at short ⊢
    obtain ⟨lead, tail, bits, need, shape, first, sequence, fine⟩ := decode_point (bound p mem_cons_self) (rest.flatMap encodePoint)
    have shorter : (rest.flatMap encodePoint).length < (lead :: tail).length := by
      have some : 0 < (encodePoint p).length := by
        unfold encodePoint
        split
        · exact Nat.one_pos
        split
        · exact Nat.two_pos
        split
        · exact Nat.succ_pos _
        · exact Nat.succ_pos _
      rw [← shape, length_append]
      omega
    rw [shape] at enough ⊢
    cases fuel with
    | zero => exact absurd enough (Nat.not_succ_le_zero _)
    | succ fuel =>
      have units : ¬out.length + (unitsOf p).length > 255 := by
        rw [length_append, length_append] at short
        omega
      simp only [decodeAll, first, sequence, fine, Bool.false_eq_true, if_false, units]
      exact ih (fun p member => bound p (mem_cons_of_mem _ member)) (by omega) short

theorem utf8To16_utf8Of {units : List Nat} (small : ∀ c ∈ units, c < 0x10000) (short : units.length ≤ 255) :
    utf8To16 (utf8Of units) = some units := by
  have back := points_units units small
  unfold utf8To16 utf8Of
  rw [decodeAll_eq (points units) (points_bound units small) le_rfl (by rw [back]; exact short), back]
  rfl

/-- A shown name is taken back as it is, also one with half a surrogate pair. -/
theorem shown_name_back {units shown : List Nat} {cap : Nat} (room : 0 < cap) (small : ∀ c ∈ units, c < 0x10000) (short : units.length ≤ 255)
    (shows : utf16To8 units cap = some shown) : utf8To16 shown = some units := by
  rw [utf16To8_eq room, Option.ite_none_right_eq_some] at shows
  exact Option.some.inj shows.2 ▸ utf8To16_utf8Of small short

theorem half_pair_back : utf8To16 [0xED, 0xA0, 0x80] = some [0xD800] :=
  shown_name_back (Nat.succ_pos 3) (by decide) (by decide) rfl

end SecOS.Ntfs
