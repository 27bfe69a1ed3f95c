import SecOS.Vma

/-! The bytes of a region table as a natural number, which `totalBytes` is as long as every region
lies in the user half. -/

namespace SecOS.Vma
open Vmm List

def size (v : Vma) : Nat := if v.live then v.stop - v.start else 0

def bytes (set : List Vma) : Nat := (set.map size).sum

def Proper (v : Vma) : Prop := v.live = true → v.start ≤ v.stop ∧ v.stop ≤ userTop

structure Sound (set : List Vma) : Prop where
  short : set.length ≤ vmaMax
  proper : ∀ v ∈ set, v.Proper

theorem sound_nil : Sound [] := ⟨Nat.zero_le _, nofun⟩

section
variable {set set' : List Vma} {v w : Vma} {i : Nat}

theorem size_of_live (live : v.live = true) : v.size = v.stop - v.start := if_pos live

theorem size_of_dead (dead : v.live = false) : v.size = 0 := by
  unfold size
  rw [dead]
  rfl

theorem size_le (proper : v.Proper) : v.size ≤ userTop := by
  unfold size
  split
  next live =>
    have bounds := proper live
    omega
  · exact Nat.zero_le _

theorem bytes_le (sound : Sound set) : bytes set ≤ vmaMax * userTop := by
  have bound : ∀ items : List Vma, (∀ v ∈ items, v.Proper) → bytes items ≤ items.length * userTop := by
    intro items proper
    induction items with
    | nil => exact Nat.zero_le _
    | cons v items ih =>
      have first := size_le (proper v mem_cons_self)
      have rest := ih fun w member => proper w (mem_cons_of_mem _ member)
      unfold bytes at rest ⊢
      rw [map_cons, sum_cons, length_cons, Nat.succ_mul]
      omega
  have all := bound set sound.proper
  have short := Nat.mul_le_mul_right userTop sound.short
  omega

theorem bytes_lt (sound : Sound set) : bytes set < 2 ^ 60 := by
  have bound := bytes_le sound
  unfold vmaMax userTop at bound
  omega

theorem totalBytes_eq (sound : Sound set) : totalBytes set = bytes set := by
  have sums : ∀ (items : List Vma) (total : Nat), (∀ v ∈ items, v.Proper) → total < 2 ^ 64 →
      (items.filter (·.live)).foldl (fun total v => (total + (v.stop + 2 ^ 64 - v.start)) % 2 ^ 64) total =
        (total + bytes items) % 2 ^ 64 := by
    intro items
    induction items with
    | nil =>
      intro total _ low
      exact (Nat.mod_eq_of_lt low).symm
    | cons v items ih =>
      intro total proper low
      have rest : ∀ w ∈ items, w.Proper := fun w member => proper w (mem_cons_of_mem _ member)
      have split : bytes (v :: items) = v.size + bytes items := by
        unfold bytes
        rw [map_cons, sum_cons]
      rw [split]
      cases live : v.live with
      | false =>
        rw [filter_cons_of_neg (by simp [live]), ih total rest low, size_of_dead live, Nat.zero_add]
      | true =>
        have bounds := proper v mem_cons_self live
        rw [filter_cons_of_pos live, foldl_cons, ih _ rest (Nat.mod_lt _ (by decide)), size_of_live live]
        omega
  have whole := sums set 0 sound.proper (by decide)
  have low := bytes_lt sound
  unfold totalBytes
  omega

theorem bytes_set (held : set[i]? = some v) (w : Vma) : bytes (set.set i w) + v.size = bytes set + w.size := by
  induction set generalizing i with
  | nil => cases held
  | cons u set ih =>
    cases i with
    | zero =>
      cases held
      simp only [bytes, set_cons_zero, map_cons, sum_cons]
      omega
    | succ i =>
      have rest := ih (i := i) held
      simp only [bytes, set_cons_succ, map_cons, sum_cons] at rest ⊢
      omega

theorem Sound.replace (sound : Sound set) (proper : w.Proper) : Sound (set.set i w) := by
  refine ⟨?_, ?_⟩
  · rw [length_set]
    exact sound.short
  · intro u member
    obtain old | rfl := mem_or_eq_of_mem_set member
    · exact sound.proper u old
    · exact proper

theorem Sound.held (sound : Sound set) (held : set[i]? = some v) : v.Proper := sound.proper v (mem_of_getElem? held)

theorem modify_eq_set (held : set[i]? = some v) (f : Vma → Vma) : set.modify i f = set.set i (f v) := by
  rw [modify_eq_set_getElem?, held]
  rfl

def Shrinks (set set' : List Vma) : Prop := Sound set → Sound set' ∧ bytes set' ≤ bytes set

theorem Shrinks.refl (set : List Vma) : Shrinks set set := fun sound => ⟨sound, le_rfl⟩

theorem Shrinks.trans {middle : List Vma} (first : Shrinks set middle) (second : Shrinks middle set') : Shrinks set set' := by
  intro sound
  obtain ⟨kept, less⟩ := first sound
  obtain ⟨still, least⟩ := second kept
  exact ⟨still, Nat.le_trans least less⟩

theorem Shrinks.foldl {f : List Vma → Nat → List Vma} (each : ∀ set i, Shrinks set (f set i)) (l : List Nat) (set : List Vma) :
    Shrinks set (l.foldl f set) := by
  induction l generalizing set with
  | nil => exact Shrinks.refl set
  | cons i l ih => exact (each set i).trans (ih (f set i))

section
variable (held : set[i]? = some v)
include held

theorem shrinks_modify {f : Vma → Vma} (proper : v.Proper → (f v).Proper)
    (less : v.Proper → (f v).size ≤ v.size) : Shrinks set (set.modify i f) := by
  intro sound
  have mine := sound.held held
  rw [modify_eq_set held]
  refine ⟨sound.replace (proper mine), ?_⟩
  have moved := bytes_set held (f v)
  have smaller := less mine
  omega

theorem shrinks_remove : Shrinks set (remove set i) :=
  shrinks_modify held (fun _ => nofun) (fun _ => Nat.zero_le _)

theorem shrinks_stop {stop : Nat} (low : v.start ≤ stop) (high : stop ≤ v.stop) :
    Shrinks set (set.modify i fun v => { v with stop := stop }) := by
  refine shrinks_modify held ?_ ?_
  · intro proper live
    exact ⟨low, Nat.le_trans high (proper live).2⟩
  · intro _
    unfold size
    change (if v.live = true then stop - v.start else 0) ≤ _
    split <;> omega

theorem shrinks_start {start : Nat} (low : v.start ≤ start) (high : start ≤ v.stop) :
    Shrinks set (set.modify i fun v => { v with start := start }) := by
  refine shrinks_modify held ?_ ?_
  · intro proper live
    exact ⟨high, (proper live).2⟩
  · intro _
    unfold size
    change (if v.live = true then v.stop - start else 0) ≤ _
    split <;> omega

end

theorem place_cases (placed : place set w = some set') :
    (∃ k old, set[k]? = some old ∧ old.live = false ∧ set' = set.set k w) ∨ (set.length < vmaMax ∧ set' = set ++ [w]) := by
  unfold place at placed
  split at placed
  next k found =>
    cases placed
    obtain ⟨inside, dead, _⟩ := List.findIdx?_eq_some_iff_getElem.mp found
    exact .inl ⟨k, set[k], getElem?_eq_getElem inside, by simpa using dead, rfl⟩
  · split at placed
    · cases placed
    · cases placed
      exact .inr ⟨by omega, rfl⟩

def Grows (set set' : List Vma) (n : Nat) : Prop := Sound set' ∧ bytes set' = bytes set + n

theorem place_grows (sound : Sound set) (proper : w.Proper) (placed : place set w = some set') : Grows set set' w.size := by
  obtain ⟨k, old, held, dead, rfl⟩ | ⟨room, rfl⟩ := place_cases placed
  · refine ⟨sound.replace proper, ?_⟩
    have moved := bytes_set held w
    rw [size_of_dead dead] at moved
    omega
  · refine ⟨⟨?_, ?_⟩, ?_⟩
    · rw [length_append, length_singleton]
      omega
    · intro u member
      obtain old | new := mem_append.mp member
      · exact sound.proper u old
      · rw [mem_singleton.mp new]
        exact proper
    · unfold bytes
      rw [map_append, sum_append, map_singleton, sum_singleton]

theorem place_slots (placed : place set w = some set') :
    ∃ k, set'[k]? = some w ∧ ∀ (i : Nat) (v : Vma), set[i]? = some v → v.live = true → i ≠ k ∧ set'[i]? = some v := by
  obtain ⟨k, old, held, dead, rfl⟩ | ⟨_, rfl⟩ := place_cases placed
  · have inside : k < set.length := (List.getElem?_eq_some_iff.mp held).1
    refine ⟨k, getElem?_set_self inside, ?_⟩
    intro i v there live
    have other : i ≠ k := by
      rintro rfl
      rw [held] at there
      cases there
      rw [dead] at live
      cases live
    exact ⟨other, by rw [getElem?_set_ne (Ne.symm other)]; exact there⟩
  · refine ⟨set.length, getElem?_concat_length, ?_⟩
    intro i v there _
    have inside : i < set.length := (List.getElem?_eq_some_iff.mp there).1
    exact ⟨by omega, by rw [getElem?_append_left inside]; exact there⟩

variable {flags : Flags}

theorem add_grows {start stop : Nat} {type : VmaType} {fileBase fileOff filePad fileLen : Nat} (sound : Sound set)
    (order : start ≤ stop) (high : stop ≤ userTop) (live : type ≠ .none)
    (added : add set start stop flags type fileBase fileOff filePad fileLen = some set') : Grows set set' (stop - start) := by
  have grown := place_grows sound (fun _ => ⟨order, high⟩) added
  rwa [size_of_live (by simpa [Vma.live] using live)] at grown

theorem Grows.modify {n : Nat} (grown : Grows set set' n) (f : Vma → Vma)
    (same : ∀ v, (f v).start = v.start ∧ (f v).stop = v.stop ∧ (f v).type = v.type) (i : Nat) : Grows set (set'.modify i f) n := by
  obtain ⟨sound, total⟩ := grown
  cases held : set'[i]? with
  | none =>
    rw [modify_eq_set_getElem?, held]
    exact ⟨sound, total⟩
  | some v =>
    obtain ⟨start, stop, type⟩ := same v
    have live : (f v).live = v.live := by unfold Vma.live; rw [type]
    have size : (f v).size = v.size := by unfold Vma.size; rw [live, start, stop]
    rw [modify_eq_set held]
    refine ⟨sound.replace ?_, ?_⟩
    · unfold Proper
      rw [live, start, stop]
      exact sound.held held
    · have moved := bytes_set held (f v)
      omega

theorem addPhys_grows {start stop phys : Nat} (sound : Sound set) (high : stop ≤ userTop)
    (added : addPhys set start stop flags phys = some set') : Grows set set' (stop - start) := by
  unfold addPhys at added
  split at added
  · cases added
  split at added
  · cases added
  next middle placed =>
    split at added
    · cases added
    · cases added
      apply (add_grows sound (by omega) high (by decide) placed).modify
      exact fun _ => ⟨rfl, rfl, rfl⟩

theorem addFile_grows {start stop inode voff : Nat} (sound : Sound set) (order : start ≤ stop) (high : stop ≤ userTop)
    (added : addFile set start stop flags inode voff = some set') : Grows set set' (stop - start) := by
  unfold addFile at added
  split at added
  · cases added
  next middle placed =>
    split at added
    · cases added
    · cases added
      apply (add_grows sound order high (by decide) placed).modify
      exact fun _ => ⟨rfl, rfl, rfl⟩

theorem upper_bounds (v : Vma) (addr : Nat) : (upper v addr).start = addr ∧ (upper v addr).stop = v.stop ∧ (upper v addr).type = v.type := by
  unfold upper
  dsimp only
  split
  · exact ⟨rfl, rfl, rfl⟩
  · split
    · exact ⟨rfl, rfl, rfl⟩
    split
    · exact ⟨rfl, rfl, rfl⟩
    · split <;> exact ⟨rfl, rfl, rfl⟩
  · exact ⟨rfl, rfl, rfl⟩

/-- The upper part is in the table; the region itself ends where it begins. -/
theorem Grows.cut {middle : List Vma} {addr j : Nat} (grown : Grows set middle (v.stop - addr)) (held : middle[i]? = some v)
    (live : v.live = true) (low : v.start ≤ addr) (high : addr ≤ v.stop) (apart : j ≠ i) (f : Vma → Vma)
    (same : ∀ v, (f v).start = v.start ∧ (f v).stop = v.stop ∧ (f v).type = v.type) :
    Sound ((middle.modify j f).modify i fun c => { c with stop := addr }) ∧
      bytes ((middle.modify j f).modify i fun c => { c with stop := addr }) = bytes set := by
  obtain ⟨kept, total⟩ := grown.modify f same j
  have here : (middle.modify j f)[i]? = some v := by
    rw [getElem?_modify, held]
    simp [apart]
  have bounds := kept.held here live
  rw [modify_eq_set here]
  refine ⟨kept.replace (fun _ => ⟨low, Nat.le_trans high bounds.2⟩), ?_⟩
  have moved := bytes_set here { v with stop := addr }
  have before := size_of_live live
  have after : Vma.size { v with stop := addr } = addr - v.start := size_of_live (v := { v with stop := addr }) live
  omega

theorem split_shrinks (set : List Vma) (i addr : Nat) : Shrinks set (split set i addr).1 := by
  unfold split
  split
  · exact Shrinks.refl set
  next v held =>
    split
    · exact Shrinks.refl set
    next alive =>
      have live : v.live = true := by simpa using alive
      split
      · exact Shrinks.refl set
      obtain ⟨start, stop, type⟩ := upper_bounds v addr
      dsimp only
      split
      · exact Shrinks.refl set
      next middle placed =>
        intro sound
        have bounds := sound.held held live
        have grown : Grows set middle (v.stop - addr) := by
          have both := add_grows sound (by omega) (by omega) (by rw [type]; simpa [Vma.live] using live) placed
          rwa [start, stop] at both
        obtain ⟨k, slot, kept⟩ := place_slots placed
        obtain ⟨other, still⟩ := kept i v held live
        split
        next missing =>
          exfalso
          have inside : k < middle.length := (List.getElem?_eq_some_iff.mp slot).1
          have skipped := List.find?_eq_none.mp missing k (List.mem_range.mpr inside)
          apply skipped
          have alive : (upper v addr).live = true := by
            unfold Vma.live at live ⊢
            rw [type]
            exact live
          simp only [slot, Option.any_some, start, Ne.symm other, ne_eq, not_false_eq_true, decide_true, beq_self_eq_true,
            Bool.and_true, Bool.true_and]
          exact alive
        next j found =>
          have apart : j ≠ i := by
            have passed := find?_some found
            simp only [Bool.and_eq_true, decide_eq_true_eq] at passed
            exact passed.1
          obtain ⟨kept, total⟩ := grown.cut still live (by omega) (by omega) apart
            (fun c => { c with fileInode := (upper v addr).fileInode, fileVoff := (upper v addr).fileVoff,
                               physBase := (upper v addr).physBase }) (fun _ => ⟨rfl, rfl, rfl⟩)
          exact ⟨kept, Nat.le_of_eq total⟩

theorem split_slot (addr : Nat) (held : set[i]? = some v) (live : v.live = true) :
    ∃ w, (split set i addr).1[i]? = some w ∧ w.start = v.start ∧ (w.stop = v.stop ∨ w.stop = addr) := by
  unfold split
  simp only [held]
  split
  · exact ⟨v, held, rfl, .inl rfl⟩
  split
  · exact ⟨v, held, rfl, .inl rfl⟩
  split
  · exact ⟨v, held, rfl, .inl rfl⟩
  next middle placed =>
    obtain ⟨_, _, kept⟩ := place_slots placed
    have still := (kept i v held live).2
    split
    · exact ⟨v, still, rfl, .inl rfl⟩
    next j found =>
      have apart : j ≠ i := by
        have passed := find?_some found
        simp only [Bool.and_eq_true, decide_eq_true_eq] at passed
        exact passed.1
      refine ⟨{ v with stop := addr }, ?_, rfl, .inr rfl⟩
      rw [getElem?_modify, getElem?_modify, still]
      simp [apart]

end
end SecOS.Vma
