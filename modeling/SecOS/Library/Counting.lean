import Mathlib

/-! Sums over a table, how one update moves them, and folds over ranges of indices
that are walked block by block. -/

namespace SecOS.Library
open Function List Finset

section
variable {ι α : Type*} [DecidableEq ι]

theorem sum_update (s : Finset ι) (f : ι → α) (g : α → Nat) {i : ι} (member : i ∈ s) (v : α) :
    ∑ x ∈ s, g (update f i v x) + g (f i) = ∑ x ∈ s, g (f x) + g v := by
  rw [← add_sum_erase _ _ member, ← add_sum_erase _ _ member]
  have rest : ∑ x ∈ s.erase i, g (update f i v x) = ∑ x ∈ s.erase i, g (f x) := by
    apply sum_congr rfl
    intro x different
    rw [update_of_ne (ne_of_mem_erase different)]
  rw [rest, update_self]
  omega

end

section
variable {α : Type*} (g : α → Nat)

theorem sum_middle (pre post : List α) (a : α) : ((pre ++ a :: post).map g).sum = ((pre ++ post).map g).sum + g a := by
  simp only [map_append, List.map_cons, sum_append, List.sum_cons]
  omega

theorem sum_set {l : List α} {n : Nat} {a : α} (found : l[n]? = some a) (b : α) :
    ((l.set n b).map g).sum = ((l.eraseIdx n).map g).sum + g b := by
  induction l generalizing n with
  | nil => cases found
  | cons head tail ih =>
    cases n with
    | zero =>
      simp only [set_cons_zero, eraseIdx_cons_zero, List.map_cons, List.sum_cons]
      omega
    | succ n =>
      have rest := ih found
      simp only [set_cons_succ, eraseIdx_cons_succ, List.map_cons, List.sum_cons]
      omega

theorem sum_erase {l : List α} {n : Nat} {a : α} (found : l[n]? = some a) :
    (l.map g).sum = ((l.eraseIdx n).map g).sum + g a := by
  obtain ⟨inside, rfl⟩ := List.getElem?_eq_some_iff.mp found
  have whole := sum_set g found l[n]
  rwa [set_getElem_self] at whole

theorem sum_indicator (p : α → Bool) (l : List α) : (l.map fun a => if p a then 1 else 0).sum = l.countP p := by
  induction l with
  | nil => rfl
  | cons a l ih =>
    rw [List.map_cons, List.sum_cons, countP_cons, ih]
    omega

theorem sum_snoc (l : List α) (a : α) : ((l ++ [a]).map g).sum = (l.map g).sum + g a := by
  rw [map_append, sum_append, List.map_cons, map_nil, List.sum_cons, sum_nil, Nat.add_zero]

end

section
variable {σ κ : Type*}

theorem foldl_remaining (P : σ → List κ → Prop) (step : σ → κ → σ) (spend : ∀ s k rest, P s (k :: rest) → P (step s k) rest)
    {l : List κ} {s : σ} (start : P s l) : P (l.foldl step s) [] := by
  induction l generalizing s with
  | nil => exact start
  | cons k rest ih => exact ih (spend s k rest start)

theorem foldlM_flatMap {ε : Type*} {block : κ → List Nat} {step : σ → Nat → Except ε σ} (l : List κ) (s : σ) :
    (l.flatMap block).foldlM step s = l.foldlM (fun s k => (block k).foldlM step s) s := by
  induction l generalizing s with
  | nil => rfl
  | cons k rest ih =>
    rw [flatMap_cons, foldlM_append, foldlM_cons]
    exact bind_congr ih

theorem range'_blocks (a n b : Nat) : List.range' (a * b) (n * b) = (List.range' a n).flatMap (fun k => List.range' (k * b) b) := by
  induction n generalizing a with
  | zero => rw [Nat.zero_mul]; rfl
  | succ n ih =>
    have next : a * b + b = (a + 1) * b := by rw [Nat.add_mul, Nat.one_mul]
    rw [range'_succ, flatMap_cons, ← ih, ← next, range'_append_1, Nat.add_mul, Nat.one_mul, Nat.add_comm]

theorem sum_Ico_list (a n : Nat) (g : Nat → Nat) : ∑ k ∈ Finset.Ico a (a + n), g k = ((List.range' a n).map g).sum := by
  rw [Nat.Ico_eq_range']
  have width : a + n - a = n := Nat.add_sub_cancel_left a n
  simp only [width]
  rfl

theorem sum_blocks (a n b : Nat) (g : Nat → Nat) :
    ((List.range' (a * b) (n * b)).map g).sum = ((List.range' a n).map fun k => ((List.range' (k * b) b).map g).sum).sum := by
  rw [range'_blocks, map_flatMap, flatMap_def, sum_flatten, List.map_map]
  rfl

end

end SecOS.Library
