import Mathlib

/-! Queues in a ring of slots. Between two indices one slot stays free, so that equal indices
mean an empty queue; a start and a length can use every slot. -/

namespace SecOS.Library
open Function List

structure Ring (size : Nat) (α : Type*) where
  slots : Nat → α
  head : Nat
  tail : Nat
  head_lt : head < size
  tail_lt : tail < size

namespace Ring
variable {size : Nat} {α : Type*}

theorem size_pos (r : Ring size α) : 0 < size := Nat.zero_lt_of_lt r.head_lt

def count (r : Ring size α) : Nat := (r.tail + size - r.head) % size

def contents (r : Ring size α) : List α := (List.range r.count).map fun i => r.slots ((r.head + i) % size)

/-- Write the free slot behind the queue; it has to be free. -/
def push (r : Ring size α) (v : α) : Ring size α :=
  { r with slots := update r.slots r.tail v, tail := (r.tail + 1) % size, tail_lt := Nat.mod_lt _ r.size_pos }

def front (r : Ring size α) : α := r.slots r.head

def pop (r : Ring size α) : Ring size α :=
  { r with head := (r.head + 1) % size, head_lt := Nat.mod_lt _ r.size_pos }

def clear (r : Ring size α) : Ring size α := { r with head := 0, tail := 0, head_lt := r.size_pos, tail_lt := r.size_pos }

/-- Drop the queue where it stands. -/
def discard (r : Ring size α) : Ring size α := { r with head := r.tail, head_lt := r.tail_lt }

def overwrite (r : Ring size α) (slots : Nat → α) : Ring size α := { r with slots := slots }

theorem wrap {i : Nat} (low : i < 2 * size) : i % size = if i < size then i else i - size := by
  split
  next inside => exact Nat.mod_eq_of_lt inside
  next outside =>
    rw [Nat.mod_eq_sub_mod (Nat.le_of_not_lt outside)]
    exact Nat.mod_eq_of_lt (by omega)

theorem count_eq (r : Ring size α) : r.count = if r.head ≤ r.tail then r.tail - r.head else r.tail + size - r.head := by
  have head := r.head_lt
  have tail := r.tail_lt
  unfold count
  rw [wrap (by omega)]
  split <;> split <;> omega

theorem count_lt (r : Ring size α) : r.count < size := Nat.mod_lt _ r.size_pos

theorem length_contents (r : Ring size α) : r.contents.length = r.count := by
  unfold contents
  rw [length_map, length_range]

theorem head_count (r : Ring size α) : (r.head + r.count) % size = r.tail := by
  have head := r.head_lt
  have tail := r.tail_lt
  rw [wrap (by have := r.count_lt; omega), r.count_eq]
  split <;> split <;> omega

variable {r : Ring size α}

theorem count_push (room : r.count + 1 < size) (v : α) : (r.push v).count = r.count + 1 := by
  have head := r.head_lt
  have tail := r.tail_lt
  rw [count_eq] at room ⊢
  rw [count_eq]
  change (if r.head ≤ (r.tail + 1) % size then (r.tail + 1) % size - r.head else (r.tail + 1) % size + size - r.head) = _
  rw [wrap (i := r.tail + 1) (by omega)]
  split at room <;> split <;> split <;> omega

theorem contents_push (room : r.count + 1 < size) (v : α) : (r.push v).contents = r.contents ++ [v] := by
  have head := r.head_lt
  unfold contents
  rw [count_push room, range_succ, map_append]
  congr 1
  · refine map_congr_left fun i member => ?_
    have low : i < r.count := List.mem_range.mp member
    -- an entry of the queue is not the free slot
    have apart : (r.head + i) % size ≠ r.tail := by
      rw [← r.head_count, wrap (by omega), wrap (by omega)]
      split <;> split <;> omega
    exact update_of_ne apart v r.slots
  · change [update r.slots r.tail v ((r.head + r.count) % size)] = [v]
    rw [r.head_count, update_self]

theorem count_pop (some : 0 < r.count) : r.pop.count + 1 = r.count := by
  have head := r.head_lt
  have tail := r.tail_lt
  rw [count_eq] at some ⊢
  rw [count_eq]
  change (if (r.head + 1) % size ≤ r.tail then r.tail - (r.head + 1) % size else r.tail + size - (r.head + 1) % size) + 1 = _
  rw [wrap (i := r.head + 1) (by omega)]
  split at some <;> split <;> split <;> omega

theorem contents_pop (some : 0 < r.count) : r.contents = r.front :: r.pop.contents := by
  unfold contents
  rw [← count_pop some, range_succ_eq_map, map_cons, map_map]
  congr 1
  · rw [Nat.add_zero, Nat.mod_eq_of_lt r.head_lt]
    rfl
  · refine map_congr_left fun i _ => ?_
    change r.slots ((r.head + (i + 1)) % size) = r.slots (((r.head + 1) % size + i) % size)
    rw [Nat.mod_add_mod, Nat.add_assoc, Nat.add_comm 1 i]

theorem contents_nil_iff : r.contents = [] ↔ r.count = 0 := by
  rw [← length_eq_zero_iff, r.length_contents]

theorem count_discard (r : Ring size α) : r.discard.count = 0 := by
  rw [count_eq]
  exact (if_pos le_rfl).trans (Nat.sub_self _)

theorem empty_iff : r.head = r.tail ↔ r.count = 0 := by
  have head := r.head_lt
  have tail := r.tail_lt
  rw [count_eq]
  split <;> omega

theorem full_iff : (r.tail + 1) % size = r.head ↔ r.count + 1 = size := by
  have head := r.head_lt
  have tail := r.tail_lt
  rw [count_eq, wrap (by omega)]
  split <;> split <;> omega

theorem of_contents_cons {v : α} {rest : List α} (is : r.contents = v :: rest) :
    0 < r.count ∧ r.front = v ∧ r.pop.contents = rest := by
  have some : 0 < r.count := by
    rw [← r.length_contents, is]
    exact Nat.succ_pos _
  rw [contents_pop some] at is
  exact ⟨some, (List.cons.inj is).1, (List.cons.inj is).2⟩

section
variable (size) (slots : Nat → α)

def window (head len : Nat) : List α := (List.range len).map fun i => slots ((head + i) % size)

def fill (slots : Nat → α) (pos : Nat) : List α → Nat → α
  | [] => slots
  | v :: rest => fill (update slots (pos % size) v) (pos + 1) rest

theorem length_window (head len : Nat) : (window size slots head len).length = len := by
  rw [window, length_map, length_range]

theorem window_add (head n len : Nat) :
    window size slots head (n + len) = window size slots head n ++ window size slots ((head + n) % size) len := by
  simp only [window, range_add, map_append, map_map, Function.comp_def, Nat.mod_add_mod, Nat.add_assoc]

variable {size slots} {head len : Nat}

theorem window_update (start : head < size) (room : len < size) (v : α) :
    window size (update slots ((head + len) % size) v) head (len + 1) = window size slots head len ++ [v] := by
  rw [window, range_succ, map_append, map_singleton, update_self, window]
  congr 1
  refine map_congr_left fun i member => update_of_ne ?_ _ _
  have before := List.mem_range.mp member
  rw [wrap (by omega), wrap (by omega)]
  split <;> split <;> omega

theorem window_fill (data : List α) {pos : Nat} (start : head < size) (room : len + data.length ≤ size)
    (here : pos % size = (head + len) % size) :
    window size (fill size slots pos data) head (len + data.length) = window size slots head len ++ data := by
  induction data generalizing slots len pos with
  | nil => exact (append_nil _).symm
  | cons v rest ih =>
    rw [length_cons] at room
    have more := @ih (update slots (pos % size) v) (len + 1) (pos + 1) (by omega)
      (by rw [← Nat.add_assoc, Nat.add_mod pos, here, ← Nat.add_mod])
    rw [here, window_update start (by omega), ← here, append_assoc] at more
    rw [length_cons, Nat.add_comm rest.length, ← Nat.add_assoc, fill]
    exact more

end

end Ring
end SecOS.Library
