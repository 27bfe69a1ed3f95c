import SecOS.Library.Counting
import SecOS.Pmm

/-! One section of the physical memory manager: `sec_mark` sets exactly the bits of its range,
reports how many of them changed, and keeps the summary in step. -/

namespace SecOS.Pmm
open Library Function Finset

def Section.used (s : Section) (i : Nat) : Bool := (s.bitmap (i / 64)).getLsbD (i % 64)

def Section.zeros (s : Section) : Nat := ∑ w ∈ Finset.range 4096, Word.zeroBits (s.bitmap w)

/-- Summary bit `w` is set exactly when bitmap word `w` is all ones. -/
def Section.Summarized (s : Section) : Prop :=
  ∀ w < 4096, (s.summary (w / 64)).getLsbD (w % 64) = true ↔ s.bitmap w = BitVec.allOnes 64

variable {s t : Section} {set : Bool}

theorem zeros_congr (same : t.bitmap = s.bitmap) : t.zeros = s.zeros := by
  unfold Section.zeros
  rw [same]

theorem popcount64_eq (x : Word) : (popcount64 x).toNat = Word.setBits x := Word.sideways_eq_setBits x

variable {s : Section}

theorem summary_updated {w : Nat} (inside : w < 4096)
    (others : ∀ v < 4096, v ≠ w → ((s.summary (v / 64)).getLsbD (v % 64) = true ↔ s.bitmap v = BitVec.allOnes 64)) :
    (secSummaryUpdate s w).Summarized := by
  intro v bound
  have low : v % 64 < 64 := Nat.mod_lt _ (by decide)
  have single : (1#64 <<< (w % 64)).getLsbD (v % 64) = decide (v % 64 = w % 64) := Word.getLsbD_bit low
  unfold secSummaryUpdate
  by_cases full : s.bitmap w = BitVec.allOnes 64 <;> simp only [full, if_true, if_false]
  all_goals
    by_cases group : v / 64 = w / 64
    · rw [group, update_self]
      simp only [BitVec.getLsbD_or, BitVec.getLsbD_and, BitVec.getLsbD_not, single, low, decide_true, Bool.true_and]
      by_cases same : v = w
      · subst same
        simp only [decide_true, full, Bool.or_true, Bool.not_true, Bool.and_false, Bool.false_eq_true]
      · have apart : v % 64 ≠ w % 64 := by omega
        simpa [apart, group] using others v bound same
    · rw [update_of_ne group]
      exact others v bound (fun same => group (same ▸ rfl))

theorem secSummaryUpdate_fields (s : Section) (w : Nat) :
    (secSummaryUpdate s w).free = s.free ∧
      (secSummaryUpdate s w).refs = s.refs ∧ (secSummaryUpdate s w).refsUsed = s.refsUsed ∧
      (secSummaryUpdate s w).bitmap = s.bitmap := by
  unfold secSummaryUpdate
  dsimp only
  split <;> exact ⟨rfl, rfl, rfl, rfl⟩

structure SameRefs (s t : Section) : Prop where
  refs : t.refs = s.refs
  refsUsed : t.refsUsed = s.refsUsed

theorem SameRefs.trans {t u : Section} (first : SameRefs s t) (last : SameRefs t u) : SameRefs s u :=
  ⟨last.refs.trans first.refs, last.refsUsed.trans first.refsUsed⟩

structure Rehinted (s t : Section) : Prop extends SameRefs s t where
  free : t.free = s.free
  summary : t.summary = s.summary
  bitmap : t.bitmap = s.bitmap

theorem Rehinted.refl (s : Section) : Rehinted s s := ⟨⟨rfl, rfl⟩, rfl, rfl, rfl⟩

theorem Rehinted.summarized (moved : Rehinted s t) (summarized : s.Summarized) : t.Summarized := by
  intro w inside
  rw [moved.summary, moved.bitmap]
  exact summarized w inside

theorem Rehinted.used (moved : Rehinted s t) (i : Nat) : t.used i = s.used i := by
  unfold Section.used
  rw [moved.bitmap]

private def marked (old mask : Word) (set : Bool) : Word := if set then old ||| mask else old &&& ~~~mask

private theorem marked_bit {old : Word} {b n i : Nat} (fits : b + n ≤ 64) (inside : i < 64) :
    (marked old (Word.run b n) set).getLsbD i = if b ≤ i ∧ i < b + n then set else old.getLsbD i := by
  unfold marked
  cases set <;>
    simp only [Bool.false_eq_true, if_true, if_false, BitVec.getLsbD_or, BitVec.getLsbD_and, BitVec.getLsbD_not,
      Word.getLsbD_run fits inside, inside, decide_true, Bool.true_and] <;>
    by_cases within : b ≤ i ∧ i < b + n <;> simp [within]

private theorem zeros_update (s : Section) (w : Nat) (nw : Word) (inside : w < 4096) :
    ({ s with bitmap := update s.bitmap w nw } : Section).zeros + Word.zeroBits (s.bitmap w) =
      s.zeros + Word.zeroBits nw := by
  exact sum_update _ s.bitmap Word.zeroBits (mem_range.mpr inside) nw

structure Marks (s t : Section) (lo hi : Nat) (set : Bool) (changed : Nat) : Prop where
  bits : ∀ i, t.used i = if lo ≤ i ∧ i < hi then set else s.used i
  count : if set then t.zeros + changed = s.zeros else t.zeros = s.zeros + changed
  summarized : t.Summarized
  same : SameRefs s t

private theorem markWord {w b n : Nat} (set : Bool) (inside : w < 4096) (fits : b + n ≤ 64)
    (summarized : s.Summarized) :
    Marks s (secSummaryUpdate { s with bitmap := update s.bitmap w (marked (s.bitmap w) (Word.run b n) set) } w)
      (64 * w + b) (64 * w + b + n) set
      (popcount64 (s.bitmap w ^^^ marked (s.bitmap w) (Word.run b n) set)).toNat := by
  obtain ⟨_, refs, refsUsed, bitmap⟩ :=
    secSummaryUpdate_fields { s with bitmap := update s.bitmap w (marked (s.bitmap w) (Word.run b n) set) } w
  refine ⟨?_, ?_, ?_, ⟨refs, refsUsed⟩⟩
  · intro i
    have low : i % 64 < 64 := Nat.mod_lt _ (by decide)
    unfold Section.used
    rw [bitmap]
    by_cases word : i / 64 = w
    · subst word
      simp only [update_self, marked_bit fits low]
      have same : (b ≤ i % 64 ∧ i % 64 < b + n) ↔ (64 * (i / 64) + b ≤ i ∧ i < 64 * (i / 64) + b + n) := by omega
      simp only [same]
    · simp only [update_of_ne word]
      rw [if_neg (by omega)]
  · have zeros := zeros_update s w (marked (s.bitmap w) (Word.run b n) set) inside
    have counted : (secSummaryUpdate { s with bitmap := update s.bitmap w (marked (s.bitmap w) (Word.run b n) set) } w).zeros =
        ({ s with bitmap := update s.bitmap w (marked (s.bitmap w) (Word.run b n) set) } : Section).zeros :=
      zeros_congr bitmap
    rw [counted, popcount64_eq]
    cases set
    · have cleared := Word.zeroBits_and_not (s.bitmap w) (Word.run b n)
      simp only [marked, Bool.false_eq_true, if_false] at zeros ⊢
      omega
    · have filled := Word.zeroBits_or (s.bitmap w) (Word.run b n)
      simp only [marked, if_true] at zeros ⊢
      omega
  · apply summary_updated inside
    intro v bound different
    simpa only [update_of_ne different] using summarized v bound

private theorem Marks.trans {t u : Section} {lo mid hi first last : Nat}
    (low : lo ≤ mid) (high : mid ≤ hi) (left : Marks s t lo mid set first) (right : Marks t u mid hi set last) :
    Marks s u lo hi set (first + last) := by
  refine ⟨?_, ?_, right.summarized, left.same.trans right.same⟩
  · intro i
    rw [right.bits, left.bits]
    by_cases early : lo ≤ i ∧ i < mid
    · rw [if_neg (by omega), if_pos early, if_pos (by omega)]
    · by_cases late : mid ≤ i ∧ i < hi
      · rw [if_pos late, if_pos (by omega)]
      · rw [if_neg late, if_neg early, if_neg (by omega)]
  · have before := left.count
    have after := right.count
    cases set <;> simp only [Bool.false_eq_true, if_true, if_false] at before after ⊢ <;> omega

theorem secMarkWords_marks {lo hi : Nat} (set : Bool) (changed : Nat) (ordered : lo ≤ hi) (fits : hi ≤ 2 ^ 18)
    (summarized : s.Summarized) :
    ∃ more, (secMarkWords s lo hi set changed).2 = changed + more ∧
      (secMarkWords s lo hi set changed).1.free = s.free ∧
      Marks s (secMarkWords s lo hi set changed).1 lo hi set more := by
  -- Strong induction on the frames left; one round covers at least one frame.
  induction left : hi - lo using Nat.strongRecOn generalizing s lo changed with
  | _ left ih =>
    subst left
    rw [secMarkWords]
    by_cases more : lo < hi
    · simp only [more, if_true]
      have low : lo % 64 < 64 := Nat.mod_lt _ (by decide)
      have room : lo % 64 + min (64 - lo % 64) (hi - lo) ≤ 64 := by omega
      have word := markWord set (show lo / 64 < 4096 by omega) room summarized
      have start : 64 * (lo / 64) + lo % 64 = lo := by omega
      rw [start] at word
      obtain ⟨rest, total, free, marks⟩ := ih (hi - (lo + min (64 - lo % 64) (hi - lo))) (by omega)
        (changed + (popcount64 (s.bitmap (lo / 64) ^^^
          marked (s.bitmap (lo / 64)) (Word.run (lo % 64) (min (64 - lo % 64) (hi - lo))) set)).toNat)
        (show lo + min (64 - lo % 64) (hi - lo) ≤ hi by omega) word.summarized rfl
      refine ⟨_, total.trans (Nat.add_assoc _ _ _), free.trans (secSummaryUpdate_fields _ _).1, ?_⟩
      exact word.trans (by omega) (by omega) marks
    · have empty : lo = hi := by omega
      subst empty
      simp only [Nat.lt_irrefl, if_false]
      refine ⟨0, rfl, trivial, ?_, ?_, summarized, ⟨rfl, rfl⟩⟩
      · intro i
        rw [if_neg (by omega)]
      · cases set <;> simp

theorem zeros_le (s : Section) : s.zeros ≤ 2 ^ 18 := by
  calc s.zeros ≤ ∑ _w ∈ Finset.range 4096, 64 := sum_le_sum (fun w _ => Word.zeroBits_le _)
    _ = 2 ^ 18 := by simp

/-- The free count `sec_mark` writes back, as a 32-bit field. -/
private def recount (set : Bool) (free changed : Nat) : Nat :=
  if set then (free + 2 ^ 32 - changed % 2 ^ 32) % 2 ^ 32 else (free + changed % 2 ^ 32) % 2 ^ 32

private theorem recount_exact {before after changed : Nat} (bound : before ≤ 2 ^ 18) (bound' : after ≤ 2 ^ 18)
    (count : if set then after + changed = before else after = before + changed) :
    recount set before changed = after := by
  unfold recount
  cases set <;> simp only [Bool.false_eq_true, if_true, if_false] at count ⊢ <;> omega

private theorem secMark_eq (s : Section) (lo hi : Nat) (set : Bool) :
    secMark s lo hi set = ({ (secMarkWords s lo hi set 0).1 with
      free := recount set (secMarkWords s lo hi set 0).1.free (secMarkWords s lo hi set 0).2 },
      (secMarkWords s lo hi set 0).2) := by
  unfold secMark recount
  cases set <;> simp only [Bool.false_eq_true, if_true, if_false]

theorem secMark_marks {lo hi : Nat} (set : Bool) (ordered : lo ≤ hi) (fits : hi ≤ 2 ^ 18)
    (summarized : s.Summarized) (counted : s.free = s.zeros) :
    Marks s (secMark s lo hi set).1 lo hi set (secMark s lo hi set).2 ∧
      (secMark s lo hi set).1.free = (secMark s lo hi set).1.zeros := by
  obtain ⟨more, total, free, marks⟩ := secMarkWords_marks set 0 ordered fits summarized
  rw [Nat.zero_add] at total
  rw [secMark_eq]
  generalize secMarkWords s lo hi set 0 = words at total free marks
  obtain ⟨t, changed⟩ := words
  simp only at total free marks ⊢
  subst total
  have exactly : recount set t.free changed = t.zeros := by
    rw [free, counted]
    exact recount_exact (zeros_le s) (zeros_le t) marks.count
  have bits : ({ t with free := recount set t.free changed } : Section).zeros = t.zeros := zeros_congr rfl
  refine ⟨⟨marks.bits, ?_, marks.summarized, ⟨marks.same.refs, marks.same.refsUsed⟩⟩, exactly.trans bits.symm⟩
  rw [bits]
  exact marks.count

private theorem zeros_words (s : Section) (words : Nat) :
    ∑ w ∈ Finset.range words, Word.zeroBits (s.bitmap w) =
      ∑ i ∈ Finset.range (words * 64), if s.used i = false then 1 else 0 := by
  induction words with
  | zero => simp
  | succ words ih =>
    have last : Word.zeroBits (s.bitmap words) =
        ∑ i ∈ Finset.range 64, if s.used (words * 64 + i) = false then 1 else 0 := by
      unfold Word.zeroBits
      rw [card_filter]
      apply sum_congr rfl
      intro i member
      have inside : i < 64 := mem_range.mp member
      have word : (words * 64 + i) / 64 = words := by omega
      have bit : (words * 64 + i) % 64 = i := by omega
      unfold Section.used
      rw [word, bit]
    rw [sum_range_succ, ih, Nat.succ_mul, sum_range_add, last]

theorem zeros_eq_card (s : Section) :
    s.zeros = ((Finset.range (2 ^ 18)).filter (fun i => s.used i = false)).card := by
  rw [card_filter]
  exact zeros_words s 4096

theorem Marks.taken {lo hi changed : Nat} (marks : Marks s t lo hi true changed) (fits : hi ≤ 2 ^ 18)
    (free : ∀ i, lo ≤ i → i < hi → s.used i = false) : changed = hi - lo := by
  have count : t.zeros + changed = s.zeros := by simpa using marks.count
  have split : (Finset.range (2 ^ 18)).filter (fun i => s.used i = false) =
      (Finset.range (2 ^ 18)).filter (fun i => t.used i = false) ∪ Finset.Ico lo hi := by
    ext i
    simp only [mem_union, mem_filter, mem_range, mem_Ico, marks.bits]
    by_cases within : lo ≤ i ∧ i < hi
    · rw [if_pos within]
      simp only [free i within.1 within.2, within, and_self, or_true, and_true, iff_true]
      omega
    · rw [if_neg within]
      simp only [within, or_false]
  have apart : Disjoint ((Finset.range (2 ^ 18)).filter (fun i => t.used i = false)) (Finset.Ico lo hi) := by
    rw [disjoint_left]
    intro i member inside
    have bounds := mem_Ico.mp inside
    have clear := (mem_filter.mp member).2
    rw [marks.bits, if_pos bounds] at clear
    exact Bool.noConfusion clear
  rw [zeros_eq_card t, zeros_eq_card s, split, card_union_of_disjoint apart, Nat.card_Ico] at count
  omega

theorem Marks.released {i changed : Nat} (marks : Marks s t i (i + 1) false changed) (fits : i < 2 ^ 18)
    (used : s.used i = true) : changed = 1 := by
  have count : t.zeros = s.zeros + changed := by simpa using marks.count
  have split : (Finset.range (2 ^ 18)).filter (fun j => t.used j = false) =
      insert i ((Finset.range (2 ^ 18)).filter (fun j => s.used j = false)) := by
    ext j
    simp only [mem_insert, mem_filter, mem_range, marks.bits]
    by_cases same : j = i
    · subst same
      simp only [fits, true_and, true_or, iff_true]
      rw [if_pos (by omega)]
    · rw [if_neg (by omega)]
      simp only [same, false_or]
  have fresh : i ∉ (Finset.range (2 ^ 18)).filter (fun j => s.used j = false) := by simp [used]
  rw [zeros_eq_card t, zeros_eq_card s, split, card_insert_of_notMem fresh] at count
  omega

end SecOS.Pmm
