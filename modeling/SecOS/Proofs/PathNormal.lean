import SecOS.ResolvePath

/-! The bounded stack of parts against the one without a bound. What it has is always a
sublist of what it should have, and the two are equal again only at the root. -/

namespace SecOS.ResolvePath
open List

variable {cwd input : List UInt8} {kept parts : List Name} {outsz : Nat}

theorem scan_eq (l : List UInt8) (parts : List Name) (seg : Name) :
    scan parts seg l = (((l.splitOn slash).modifyHead (seg ++ ·)).filter (· ≠ [])).foldl place parts := by
  induction l generalizing parts seg with
  | nil => by_cases none : seg = [] <;> simp [scan, none]
  | cons b rest ih =>
    rw [scan, splitOn_cons_eq_if_modifyHead]
    by_cases sep : b = slash
    · have same : modifyHead (fun name => name) (rest.splitOn slash) = rest.splitOn slash := congrFun modifyHead_id _
      by_cases none : seg = [] <;> simp [sep, none, ih, same]
    · simp [sep, ih, Function.comp_def]

theorem components_slash (a b : List UInt8) : components (a ++ slash :: b) = components a ++ components b := by
  unfold components
  rw [splitOn_append_cons_self, filter_append]

theorem components_tmpOf (dir : cwd.length ≤ 255) (short : input.length ≤ 255) :
    components (tmpOf cwd input) = components (absolute cwd input) := by
  have whole (a b : List UInt8) (room : a.length + b.length ≤ 511) : append a b = a ++ b := by
    rw [append, take_of_length_le (by omega)]
  unfold tmpOf absolute
  dsimp only
  split
  · rw [whole [] input (by simp; omega), nil_append]
  by_cases empty : cwd = []
  · subst empty
    have one := whole [slash] input (by simp; omega)
    simp [whole [] [slash] (by decide), one]
  · rw [if_neg empty, whole [] cwd (by simp; omega), nil_append]
    by_cases ends : cwd.getLast? = some slash
    · obtain ⟨start, rfl⟩ := getLast?_eq_some_iff.mp ends
      rw [if_pos ends, whole _ input (by omega), components_slash, append_assoc, singleton_append, components_slash, components_slash]
      simp [components]
    · rw [if_neg ends, whole cwd [slash] (by simp; omega), whole _ input (by simp; omega), append_assoc, singleton_append]

theorem sublist_dropLast (sub : kept <+ parts) : kept.dropLast <+ parts.dropLast := by
  have tails := sub.reverse.tail
  rw [tail_reverse, tail_reverse] at tails
  exact reverse_sublist.mp tails

theorem place_sublist (sub : kept <+ parts) (few : kept.length ≤ 64) (seg : Name) :
    place kept seg <+ push parts seg ∧ (place kept seg).length ≤ 64 := by
  unfold place push
  split_ifs
  · exact ⟨sub, few⟩
  · exact ⟨sublist_dropLast sub, by rw [length_dropLast]; omega⟩
  · exact ⟨sub.append_right _, by rw [length_append, length_singleton]; omega⟩
  · exact ⟨sub.trans (sublist_append_left _ _), few⟩

theorem place_eq_iff (sub : kept <+ parts) (few : kept.length ≤ 64) (seg : Name) :
    place kept seg = push parts seg ↔ push parts seg = [] ∨ kept = parts ∧ (push parts seg).length ≤ 64 := by
  obtain ⟨below, short⟩ := place_sublist sub few seg
  constructor
  · intro same
    by_cases root : push parts seg = []
    · exact .inl root
    · refine .inr ⟨sub.eq_of_length_le ?_, same ▸ short⟩
      have long := congrArg length same
      have positive := length_pos_iff.mpr root
      unfold place push at long
      unfold push at positive
      split_ifs at long positive <;> (try simp only [length_append, length_dropLast, length_singleton] at long positive) <;> omega
  · rintro (root | ⟨rfl, room⟩)
    · rw [root] at below ⊢
      exact sublist_nil.mp below
    · unfold place
      unfold push at room ⊢
      split_ifs at room ⊢ <;> first | rfl | (rw [length_append, length_singleton] at room; omega)

theorem push_solid {seg : Name} (solid : [] ∉ parts) (part : seg ≠ []) : [] ∉ push parts seg := by
  unfold push
  split_ifs
  · exact solid
  · exact fun inside => solid (dropLast_subset _ inside)
  · simp [solid, part.symm]

theorem run_sublist (comps : List Name) : ∀ {kept parts : List Name}, kept <+ parts → kept.length ≤ 64 →
    comps.foldl place kept <+ comps.foldl push parts ∧ (comps.foldl place kept = comps.foldl push parts ↔ Shallow parts (kept = parts) comps) := by
  induction comps with
  | nil => exact fun sub _ => ⟨sub, Iff.rfl⟩
  | cons seg rest ih =>
    intro kept parts sub few
    obtain ⟨below, short⟩ := place_sublist sub few seg
    rw [Shallow, ← place_eq_iff sub few]
    exact ih below short

theorem joined_cons (part : Name) (parts : List Name) : joined (part :: parts) = slash :: part ++ joined parts := flatMap_cons

theorem emit_eq (parts : List Name) : ∀ {out : List UInt8}, out.length ≤ outsz - 1 →
    parts.foldl (emit outsz) out = (out ++ joined parts).take (outsz - 1) := by
  induction parts with
  | nil => exact fun fits => by simp [joined, take_of_length_le fits]
  | cons part rest ih =>
    intro out fits
    have one : emit outsz out part = (out ++ slash :: part).take (outsz - 1) := by
      unfold emit
      rw [take_append, take_of_length_le fits]
      by_cases room : out.length < outsz - 1
      · obtain ⟨n, left⟩ : ∃ n, outsz - 1 - out.length = n + 1 := ⟨outsz - 1 - out.length - 1, by omega⟩
        simp [room, left, Nat.sub_add_eq _ out.length]
      · simp [room, Nat.sub_eq_zero_of_le (Nat.not_lt.mp room)]
    rw [foldl_cons, one, ih (length_take_le _ _), joined_cons, ← append_assoc, take_append, @take_append _ (_ ++ _), take_take,
      Nat.min_self, length_take]
    congr 2
    omega

theorem joined_lt (sub : kept <+ parts) (other : kept ≠ parts) : (joined kept).length < (joined parts).length := by
  induction sub with
  | slnil => exact absurd rfl other
  | @cons kept parts part sub =>
    have least : (joined kept).length ≤ (joined parts).length := (sub.flatMap _).length_le
    rw [joined_cons, length_append, length_cons]
    omega
  | cons_cons part sub ih =>
    have less := ih fun same => other (same ▸ rfl)
    rw [joined_cons, joined_cons, length_append, length_append]
    omega

theorem resolved_iff (cwd input : List UInt8) (outsz : Nat) (dir : cwd.length ≤ 255) (short : input.length ≤ 255) (room : 512 ≤ outsz) :
    procResolvePath cwd input outsz = some (normalForm cwd input) ↔
      Shallow [] True (components (absolute cwd input)) ∧ (normalForm cwd input).length < outsz := by
  have scanned : scan [] [] (tmpOf cwd input) = (components (absolute cwd input)).foldl place [] := by
    rw [scan_eq, ← components_tmpOf dir short]
    exact congrArg (fun names => foldl place [] (filter (· ≠ []) names)) (congrFun modifyHead_id _)
  have filled : ∀ seg ∈ components (absolute cwd input), seg ≠ [] := fun seg member => by simpa using (mem_filter.mp member).2
  unfold procResolvePath normalForm
  rw [scanned]
  generalize components (absolute cwd input) = comps at filled ⊢
  obtain ⟨sub, same⟩ := run_sublist comps (Sublist.refl []) (Nat.zero_le 64)
  have solid : [] ∉ comps.foldl push [] := foldlRecOn (motive := ([] ∉ ·)) comps push not_mem_nil fun _ solid seg member => push_solid solid (filled seg member)
  dsimp only
  rw [← eq_self ([] : List Name), ← same, emit_eq _ (Nat.zero_le _), if_pos (show outsz > 1 by omega)]
  generalize comps.foldl place [] = kept at sub ⊢
  generalize comps.foldl push [] = parts at sub solid ⊢
  by_cases equal : kept = parts
  · subst equal
    by_cases none : kept = []
    all_goals
      simp [none, render]
      omega
  · have less := joined_lt sub equal
    refine iff_of_false (fun written => ?_) fun both => equal both.1
    cases parts with
    | nil => exact equal (sublist_nil.mp sub)
    | cons part rest =>
      have solid := length_pos_iff.mpr (ne_of_not_mem_cons solid).symm
      rw [render, if_neg (cons_ne_nil _ _)] at written
      split at written <;> have long := congrArg length (Option.some.inj written)
      · simp only [joined_cons, length_append, length_cons, length_nil] at long
        omega
      · rw [nil_append, length_take] at long
        omega

theorem up_and_down_resolved : procResolvePath [slash, 97] [dot, dot, slash, 98] 512 = some [slash, 98] :=
  (resolved_iff [slash, 97] [dot, dot, slash, 98] 512 (by decide) (by decide) (by decide)).mpr
    ⟨.inr ⟨.inl (by decide), by decide⟩, by decide⟩

/-- 65 components, of which the last is lost. -/
theorem deep_path_cut : ¬∀ cwd input : List UInt8, ∀ outsz : Nat, cwd.length ≤ 255 → input.length ≤ 255 → 512 ≤ outsz →
    procResolvePath cwd input outsz = some (normalForm cwd input) := by
  intro all
  have same := all [slash] (replicate 65 [slash, 97]).flatten 512 (by decide) (by decide +kernel) (by decide)
  exact absurd same (by decide +kernel)

end SecOS.ResolvePath
