import SecOS.PipeRing

/-! The ring of a pipe is a queue of bytes: what goes in comes out in order, and the list that
blocking writes are modelled with is what the ring holds. -/

namespace SecOS.PipeRing
open Library Pipes List

def Pipe.contents (p : Pipe) : List UInt8 := Ring.window pipeSize p.buf p.head p.len

def Pipe.queued (p : Pipe) : Pipes.Pipe := ⟨p.contents, p.readers⟩

def code : Written → Int
  | .epipe => -1
  | .wouldBlock => -2
  | .bytes n => n

section
variable {p : Pipe} {s : List UInt8} {atomic : Bool} {len : Nat}

theorem length_contents (p : Pipe) : p.contents.length = p.len := Ring.length_window ..

theorem read_contents (p : Pipe) (len : Nat) : p.contents = (pipeRead p len).2.2 ++ (pipeRead p len).1.contents := by
  unfold pipeRead
  split
  · rfl
  split
  · rfl
  have whole : p.len = min len p.len + (p.len - min len p.len) := (Nat.add_sub_of_le (Nat.min_le_right _ _)).symm
  have parts := Ring.window_add pipeSize p.buf p.head (min len p.len) (p.len - min len p.len)
  rw [← whole] at parts
  exact parts

theorem read_zero_iff (asked : 0 < len) : (pipeRead p len).2.1 = 0 ↔ p.contents = [] ∧ p.writers = 0 := by
  have empty : p.contents = [] ↔ p.len = 0 := by rw [← length_eq_zero_iff, length_contents]
  rw [empty, pipeRead, if_neg (by omega)]
  by_cases none : p.len = 0
  · rw [if_pos none]
    by_cases last : p.writers = 0 <;> simp [none, last]
  · rw [if_neg none]
    simp only [none, false_and, iff_false]
    omega

theorem fill_contents (p : Pipe) (s : List UInt8) :
    Ring.window pipeSize (Ring.fill pipeSize p.buf ((p.head + p.len) % pipeSize) (s.take (min s.length (pipeSize - p.len)))) p.head
      (p.len + min s.length (pipeSize - p.len)) = p.contents ++ s.take (pipeSize - p.len) := by
  have fits : s.take (min s.length (pipeSize - p.len)) = s.take (pipeSize - p.len) := List.take_eq_take_iff.mpr (by omega)
  have length : (s.take (pipeSize - p.len)).length = min s.length (pipeSize - p.len) := by rw [length_take, Nat.min_comm]
  have small := p.len_le
  rw [fits, ← length]
  exact Ring.window_fill _ p.head_lt (by omega) (Nat.mod_mod _ _)

theorem write_cases (p : Pipe) (s : List UInt8) (atomic : Bool) :
    (pipeWriteMode p s atomic = (p, -1) ∧ (s = [] ∨ p.readers = 0)) ∨
    (pipeWriteMode p s atomic = (p, -2) ∧ (pipeSize - p.len = 0 ∨ (atomic = true ∧ pipeSize - p.len < s.length)) ∧
      ¬(s = [] ∨ p.readers = 0)) ∨
    ((pipeWriteMode p s atomic).2 = (min s.length (pipeSize - p.len) : Nat) ∧ (pipeWriteMode p s atomic).1.readers = p.readers ∧
      (pipeWriteMode p s atomic).1.contents = p.contents ++ s.take (pipeSize - p.len) ∧
      ¬(pipeSize - p.len = 0 ∨ (atomic = true ∧ pipeSize - p.len < s.length)) ∧ ¬(s = [] ∨ p.readers = 0)) := by
  unfold pipeWriteMode
  by_cases nothing : s = []
  · exact .inl ⟨if_pos nothing, .inl nothing⟩
  by_cases broken : p.readers = 0
  · exact .inl ⟨by rw [if_neg nothing, if_pos broken], .inr broken⟩
  have live : ¬(s = [] ∨ p.readers = 0) := not_or.mpr ⟨nothing, broken⟩
  rw [if_neg nothing, if_neg broken]
  dsimp only
  by_cases full : pipeSize - p.len = 0 ∨ (atomic = true ∧ pipeSize - p.len < s.length)
  · exact .inr (.inl ⟨if_pos full, full, live⟩)
  · rw [if_neg full]
    exact .inr (.inr ⟨rfl, rfl, fill_contents p s, full, live⟩)

theorem write_refines : (Pipes.pipeWriteMode p.queued s atomic).1 = (pipeWriteMode p s atomic).1.queued ∧
    code (Pipes.pipeWriteMode p.queued s atomic).2.1 = (pipeWriteMode p s atomic).2 ∧
    (Pipes.pipeWriteMode p.queued s atomic).2.2 = s.take (pipeWriteMode p s atomic).2.toNat := by
  unfold Pipes.pipeWriteMode Pipe.queued
  dsimp only
  rw [length_contents]
  rcases write_cases p s atomic with ⟨result, refused⟩ | ⟨result, full, live⟩ | ⟨count, readers, stored, room, live⟩
  · rw [if_pos refused, result]
    exact ⟨rfl, rfl, rfl⟩
  · rw [if_neg live, if_pos full, result]
    exact ⟨rfl, rfl, rfl⟩
  · rw [if_neg live, if_neg room, count, stored, readers]
    exact ⟨rfl, by rw [code, length_take, Nat.min_comm], List.take_eq_take_iff.mpr (by omega)⟩

theorem read_refines : Pipes.pipeRead p.queued len = (pipeRead p len).1.queued := by
  have facts : (pipeRead p len).2.2.length = min len p.len ∧ (pipeRead p len).1.readers = p.readers := by
    unfold pipeRead
    split_ifs <;> simp [*, Ring.length_window]
  have rest := congrArg (drop (min len p.len)) (read_contents p len)
  rw [drop_left' facts.1] at rest
  rw [Pipes.pipeRead, Pipe.queued, Pipe.queued, ← rest, facts.2]
  congr 1
  exact List.drop_eq_drop_iff.mpr (by rw [length_contents]; omega)

theorem step_fifo {t : Session} (c : Call) (fifo : t.accepted = t.taken ++ t.pipe.contents) :
    (step t c).accepted = (step t c).taken ++ (step t c).pipe.contents := by
  have written : ∀ s atomic, t.accepted ++ s.take (pipeWriteMode t.pipe s atomic).2.toNat =
      t.taken ++ (pipeWriteMode t.pipe s atomic).1.contents := by
    intro s atomic
    rw [fifo, append_assoc]
    congr 1
    rcases write_cases t.pipe s atomic with ⟨result, _⟩ | ⟨result, _⟩ | ⟨count, _, stored, _⟩
    · rw [result]
      exact append_nil _
    · rw [result]
      exact append_nil _
    · rw [stored, count]
      congr 1
      exact List.take_eq_take_iff.mpr (by omega)
  cases c with
  | write s => exact written s _
  | writeSome s => exact written s _
  | read len =>
    rw [step, append_assoc, ← read_contents]
    exact fifo
  | ref writer =>
    cases writer <;> exact fifo
  | unref writer =>
    change t.accepted = t.taken ++ (pipeUnref t.pipe writer).contents
    unfold pipeUnref
    dsimp only
    split_ifs <;> exact fifo

/-- A pipe is a queue: reads return a prefix of what the writes accepted. A small write is all or
nothing, a read returns 0 at the end of the stream only, and a write waits only for room. -/
theorem pipe_fifo (buf : Nat → UInt8) (calls : List Call) :
    (run buf calls).taken <+: (run buf calls).accepted ∧
    (∀ s, s ≠ [] → s.length ≤ pipeBuf → (pipeWrite (run buf calls).pipe s).2 = s.length ∨
      (pipeWrite (run buf calls).pipe s = ((run buf calls).pipe, -2) ∨ pipeWrite (run buf calls).pipe s = ((run buf calls).pipe, -1))) ∧
    (∀ len, 0 < len → ((pipeRead (run buf calls).pipe len).2.1 = 0 ↔
      (run buf calls).taken = (run buf calls).accepted ∧ (run buf calls).pipe.writers = 0)) ∧
    ∀ s atomic, s ≠ [] → (run buf calls).pipe.readers ≠ 0 → (pipeWriteMode (run buf calls).pipe s atomic).2 = -2 →
      pipeSize - ((run buf calls).accepted.length - (run buf calls).taken.length) < if atomic then s.length else 1 := by
  have fifo : (run buf calls).accepted = (run buf calls).taken ++ (run buf calls).pipe.contents :=
    List.foldlRecOn (motive := fun t => t.accepted = t.taken ++ t.pipe.contents) calls step rfl (fun _ kept c _ => step_fifo c kept)
  generalize run buf calls = t at fifo
  refine ⟨⟨_, fifo.symm⟩, fun s some_ small => ?_, fun len asked => ?_, fun s atomic some_ open_ waits => ?_⟩
  · rcases write_cases t.pipe s (s.length ≤ pipeBuf) with ⟨result, _⟩ | ⟨result, _⟩ | ⟨count, _, _, room, _⟩
    · exact .inr (.inr result)
    · exact .inr (.inl result)
    · have whole : ¬pipeSize - t.pipe.len < s.length := fun short => room (.inr ⟨decide_eq_true small, short⟩)
      exact .inl (count.trans (by omega))
  · rw [read_zero_iff asked, fifo, self_eq_append_right]
  · rw [fifo, length_append, Nat.add_sub_cancel_left, length_contents]
    rcases write_cases t.pipe s atomic with ⟨_, refused⟩ | ⟨_, full, _⟩ | ⟨count, _⟩
    · exact absurd refused (not_or.mpr ⟨some_, open_⟩)
    · have length : s.length ≠ 0 := fun empty => some_ (eq_nil_of_length_eq_zero empty)
      split
      · omega
      next lax => simpa only [lax, Bool.false_eq_true, false_and, or_false, Nat.lt_one_iff] using full
    · omega

end

end SecOS.PipeRing
