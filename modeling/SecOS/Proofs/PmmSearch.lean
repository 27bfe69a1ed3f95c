import SecOS.Proofs.PmmSection

/-! The searches of the allocator inside one section. `sec_find` finds a free frame exactly when
there is one below its limit, and `run_in` returns only runs it has seen to be free. -/

namespace SecOS.Pmm
open Library Finset BitVec

private theorem low_mask {b i : Nat} (low : b < 64) (inside : i < 64) : ((1#64 <<< b) - 1#64).getLsbD i = decide (i < b) := by
  have mask := Word.getLsbD_run (b := 0) (n := b) (i := i) (by omega) inside
  have short : ¬b = 64 := by omega
  simpa [Word.run, short] using mask

private theorem scan_word (s : Section) {w i : Nat} (inside : i < 64) :
    (s.summary (w / 64) ||| ((1#64 <<< (w % 64)) - 1#64)).getLsbD i =
      ((s.summary (w / 64)).getLsbD i || decide (i < w % 64)) := by
  rw [getLsbD_or, low_mask (Nat.mod_lt _ (by decide)) inside]

variable {s : Section}

private theorem used_of_full {i : Nat} (full : s.bitmap (i / 64) = BitVec.allOnes 64) : s.used i = true := by
  unfold Section.used
  rw [full, getLsbD_allOnes, decide_eq_true (Nat.mod_lt _ (by decide))]

private theorem group_full {w v : Nat} (summarized : s.Summarized) (inside : v < 4096) (after : w ≤ v)
    (group : v / 64 = w / 64)
    (set : (s.summary (w / 64) ||| ((1#64 <<< (w % 64)) - 1#64)).getLsbD (v % 64) = true) :
    s.bitmap v = BitVec.allOnes 64 := by
  rw [scan_word s (Nat.mod_lt _ (by decide))] at set
  have late : ¬v % 64 < w % 64 := by omega
  rw [decide_eq_false late, Bool.or_false, ← group] at set
  exact (summarized v inside).mp set

private theorem scan_hit {w : Nat} (summarized : s.Summarized)
    (partly : s.summary (w / 64) ||| ((1#64 <<< (w % 64)) - 1#64) ≠ BitVec.allOnes 64) {word : Nat}
    (here : word = w / 64 * 64 + Word.lowest (~~~(s.summary (w / 64) ||| ((1#64 <<< (w % 64)) - 1#64)))) (inside : word < 4096) :
    word / 64 = w / 64 ∧ w ≤ word ∧ s.bitmap word ≠ BitVec.allOnes 64 ∧
      ∀ v, w ≤ v → v < word → s.bitmap v = BitVec.allOnes 64 := by
  generalize mask : s.summary (w / 64) ||| ((1#64 <<< (w % 64)) - 1#64) = sw at partly here
  obtain ⟨low, clear⟩ := Word.lowest_spec (Word.ne_allOnes partly)
  have group : word / 64 = w / 64 := by omega
  have bit : word % 64 = (~~~sw).lowest := by omega
  have unset : sw.getLsbD (word % 64) = false := by
    rw [bit]
    simpa [low] using clear
  have parts : (s.summary (w / 64)).getLsbD (word % 64) = false ∧ ¬word % 64 < w % 64 := by
    rw [← mask, scan_word s (by omega)] at unset
    simpa using unset
  refine ⟨group, by omega, ?_, ?_⟩
  · intro full
    have summary := (summarized word inside).mpr full
    rw [group, parts.1] at summary
    exact Bool.noConfusion summary
  · intro v after before
    apply group_full summarized (by omega) after (by omega)
    rw [mask]
    have skipped := Word.below_lowest (x := ~~~sw) (i := v % 64) (by omega) (Nat.mod_lt _ (by decide))
    have bound : v % 64 < 64 := Nat.mod_lt _ (by decide)
    simpa [bound] using skipped

private theorem first_clear {word : Nat} (partly : s.bitmap word ≠ BitVec.allOnes 64) :
    s.used (word * 64 + Word.lowest (~~~(s.bitmap word))) = false ∧ Word.lowest (~~~(s.bitmap word)) < 64 ∧
      ∀ i, i / 64 = word → i < word * 64 + Word.lowest (~~~(s.bitmap word)) → s.used i = true := by
  obtain ⟨low, clear⟩ := Word.lowest_spec (Word.ne_allOnes partly)
  refine ⟨?_, low, ?_⟩
  · have index : (word * 64 + Word.lowest (~~~(s.bitmap word))) / 64 = word := by omega
    have bit : (word * 64 + Word.lowest (~~~(s.bitmap word))) % 64 = Word.lowest (~~~(s.bitmap word)) := by omega
    unfold Section.used
    rw [index, bit]
    simpa [low] using clear
  · intro i index before
    subst index
    have bound : i % 64 < 64 := Nat.mod_lt _ (by decide)
    have skipped := Word.below_lowest (x := ~~~(s.bitmap (i / 64))) (i := i % 64) (by omega) bound
    unfold Section.used
    simpa [bound] using skipped

/-- What a scan of words `[w, stop)` for a frame below `max` has established. -/
def Scanned (s : Section) (w stop max : Nat) : Option (Nat × Nat) → Prop
  | some (word, f) => f / 64 = word ∧ f < max ∧ s.used f = false
  | none => ∀ f, w * 64 ≤ f → f < stop * 64 → f < max → s.used f = true

theorem secScan_spec {stop : Nat} (w max : Nat) (summarized : s.Summarized) (fits : stop ≤ 4096) :
    Scanned s w stop max (secScan s w stop max) := by
  induction left : stop - w using Nat.strongRecOn generalizing w with
  | _ left ih =>
    subst left
    rw [secScan]
    by_cases more : w < stop
    · simp only [more, if_true]
      by_cases full : s.summary (w / 64) ||| ((1#64 <<< (w % 64)) - 1#64) = BitVec.allOnes 64
      · simp only [full, if_true]
        have rest := ih (stop - (w / 64 + 1) * 64) (by omega) ((w / 64 + 1) * 64) rfl
        cases found : secScan s ((w / 64 + 1) * 64) stop max with
        | some hit =>
          rw [found] at rest
          exact rest
        | none =>
          rw [found] at rest
          intro f after before below
          by_cases later : (w / 64 + 1) * 64 * 64 ≤ f
          · exact rest f later before below
          · apply used_of_full
            apply group_full (w := w) summarized (by omega) (by omega) (by omega)
            rw [full, getLsbD_allOnes, decide_eq_true (Nat.mod_lt _ (by decide))]
      · simp only [full, if_false]
        generalize here : w / 64 * 64 + Word.lowest (~~~(s.summary (w / 64) ||| ((1#64 <<< (w % 64)) - 1#64))) = word
        by_cases beyond : stop ≤ word
        · simp only [beyond, if_true]
          obtain ⟨low, _⟩ := Word.lowest_spec (Word.ne_allOnes full)
          intro f after before _
          -- Every word before the first clear summary bit is full, also when that bit lies past the scan.
          apply used_of_full
          apply group_full (w := w) summarized (by omega) (by omega) (by omega)
          have bound : f / 64 % 64 < 64 := Nat.mod_lt _ (by decide)
          have skipped := Word.below_lowest (x := ~~~(s.summary (w / 64) ||| ((1#64 <<< (w % 64)) - 1#64)))
            (i := f / 64 % 64) (by omega) bound
          rw [getLsbD_not, decide_eq_true bound, Bool.true_and, Bool.not_eq_false'] at skipped
          exact skipped
        · simp only [beyond, if_false]
          obtain ⟨_, later, partly, before⟩ := scan_hit summarized full here.symm (by omega)
          obtain ⟨clear, low, lower⟩ := first_clear partly
          by_cases below : word * 64 + Word.lowest (~~~(s.bitmap word)) < max
          · simp only [below, if_true]
            exact ⟨by omega, below, clear⟩
          · simp only [below, if_false]
            intro f after _ bound
            by_cases same : f / 64 = word
            · exact lower f same (by omega)
            · exact used_of_full (before _ (by omega) (by omega))
    · simp only [more, if_false]
      intro f after before
      omega

/-- `sec_find` moves the hint and nothing else, and misses no free frame. -/
theorem secFind_spec {max : Nat} (summarized : s.Summarized) (counted : s.free = s.zeros) (fits : max ≤ 2 ^ 18) :
    match secFind s max with
    | some (t, f) => Rehinted s t ∧ f < max ∧ s.used f = false
    | none => ∀ f < max, s.used f = true := by
  unfold secFind
  by_cases empty : s.free = 0
  · simp only [empty, if_true]
    intro f below
    rw [counted, zeros_eq_card, card_eq_zero] at empty
    have absent := Finset.filter_eq_empty_iff.mp empty (mem_range.mpr (show f < 2 ^ 18 by omega))
    simpa using absent
  · simp only [empty, if_false]
    have low : (if s.hint < (max + 63) / 64 then s.hint else 0) ≤ (max + 63) / 64 := by split <;> omega
    generalize (if s.hint < (max + 63) / 64 then s.hint else 0) = start at low
    have first := secScan_spec start max summarized (show (max + 63) / 64 ≤ 4096 by omega)
    have second := secScan_spec 0 max summarized (show start ≤ 4096 by omega)
    cases ahead : secScan s start ((max + 63) / 64) max with
    | some hit =>
      rw [ahead] at first
      exact ⟨⟨⟨rfl, rfl⟩, rfl, rfl, rfl⟩, first.2.1, first.2.2⟩
    | none =>
      rw [ahead] at first
      cases behind : secScan s 0 start max with
      | some hit =>
        rw [behind] at second
        exact ⟨⟨⟨rfl, rfl⟩, rfl, rfl, rfl⟩, second.2.1, second.2.2⟩
      | none =>
        rw [behind] at second
        intro f below
        by_cases later : start * 64 ≤ f
        · exact first f later (by omega) below
        · exact second f (by omega) (by omega) below

def FreeRun (s : Section) (a n : Nat) : Prop := ∀ i, a ≤ i → i < a + n → s.used i = false

theorem FreeRun.le_zeros {a n : Nat} (free : FreeRun s a n) (fits : a + n ≤ 2 ^ 18) : n ≤ s.zeros := by
  rw [zeros_eq_card]
  calc n = (Finset.Ico a (a + n)).card := by rw [Nat.card_Ico, Nat.add_sub_cancel_left]
    _ ≤ _ := card_le_card ?_
  intro i member
  obtain ⟨after, before⟩ := mem_Ico.mp member
  exact mem_filter.mpr ⟨mem_range.mpr (by omega), free i after before⟩

/-- The run in hand ends at the current frame, and no run that is long enough starts before it. -/
private structure Scanning (s : Section) (max count f run runStart : Nat) : Prop where
  growing : run ≠ 0 → runStart + run = f ∧ FreeRun s runStart run
  short : run < count
  missed : ∀ a, a + count ≤ max → FreeRun s a count → f ≤ a + run

/-- The run found lies below the limit and is free from end to end; there is none if none is found. -/
def RunFound (s : Section) (max count : Nat) : Option Nat → Prop
  | some start => start + count ≤ max ∧ FreeRun s start count
  | none => ∀ a, a + count ≤ max → ¬FreeRun s a count

private theorem used_of_clear {i : Nat} (clear : s.bitmap (i / 64) = 0#64) : s.used i = false := by
  unfold Section.used
  rw [clear]
  exact getLsbD_zero

section
variable {s : Section} {max count f run runStart step : Nat}

section
variable (scanning : Scanning s max count f run runStart)
include scanning

/-- A round of the frame loop that passes `step` used frames. -/
private theorem Scanning.drops (moves : 0 < step)
    (used : ∀ i, f ≤ i → i < f + step → s.used i = true) (next : Nat) : Scanning s max count (f + step) 0 next := by
  have short := scanning.short
  refine ⟨fun nonzero => absurd rfl nonzero, by omega, ?_⟩
  intro a fits free
  have missed := scanning.missed a fits free
  by_contra early
  have clash := free (a ⊔ f) (by omega) (by omega)
  rw [used (a ⊔ f) (by omega) (by omega)] at clash
  exact Bool.noConfusion clash

private theorem Scanning.extends (room : f + step ≤ max) (free : FreeRun s f step)
    (rest : ∀ next, Scanning s max count (f + step) (run + step) next →
      RunFound s max count (runScan s max count (f + step) (run + step) next)) :
    RunFound s max count (if run + step ≥ count then some (if run = 0 then f else runStart)
      else runScan s max count (f + step) (run + step) (if run = 0 then f else runStart)) := by
  have grown : (if run = 0 then f else runStart) + (run + step) = f + step ∧
      FreeRun s (if run = 0 then f else runStart) (run + step) := by
    by_cases fresh : run = 0
    · rw [if_pos fresh, fresh, Nat.zero_add]
      exact ⟨rfl, free⟩
    · simp only [fresh, if_false]
      obtain ⟨length, earlier⟩ := scanning.growing fresh
      refine ⟨by omega, ?_⟩
      intro i after before
      by_cases old : i < f
      · exact earlier i after (by omega)
      · exact free i (by omega) (by omega)
  generalize (if run = 0 then f else runStart) = start at grown
  by_cases enough : run + step ≥ count
  · rw [if_pos enough]
    exact ⟨by omega, fun i after before => grown.2 i after (by omega)⟩
  · rw [if_neg enough]
    refine rest _ ⟨fun _ => grown, by omega, ?_⟩
    intro a fits all
    have missed := scanning.missed a fits all
    omega

private theorem Scanning.found :
    RunFound s max count (runScan s max count f run runStart) := by
  induction left : max - f using Nat.strongRecOn generalizing f run runStart with
  | _ left ih =>
    subst left
    rw [runScan]
    by_cases more : f < max
    · simp only [more, if_true]
      split
      next full =>
        refine ih (max - (f + 64)) (by omega) (scanning.drops (by decide) ?_ _) rfl
        intro i after before
        have word : i / 64 = f / 64 := by omega
        exact used_of_full (word ▸ full.2.2)
      · split
        next clear =>
          refine scanning.extends clear.2.1 ?_ (fun next grown => ih (max - (f + 64)) (by omega) grown rfl)
          intro i after before
          have word : i / 64 = f / 64 := by omega
          exact used_of_clear (word ▸ clear.2.2)
        · have single : ∀ i, f ≤ i → i < f + 1 → i = f := by omega
          split
          next free =>
            refine scanning.extends more ?_ (fun next grown => ih (max - (f + 1)) (by omega) grown rfl)
            exact fun i after before => single i after before ▸ free
          next used =>
            refine ih (max - (f + 1)) (by omega) (scanning.drops (by decide) ?_ _) rfl
            exact fun i after before => single i after before ▸ Bool.eq_true_of_not_eq_false used
    · simp only [more, if_false]
      intro a fits free
      have missed := scanning.missed a fits free
      have short := scanning.short
      omega

end

/-- The words that `run_in` skips or takes whole hide no run from it. -/
theorem runScan_spec (asked : 0 < count) : RunFound s max count (runScan s max count 0 0 0) :=
  Scanning.found ⟨fun nonzero => absurd rfl nonzero, asked, fun _ _ _ => Nat.zero_le _⟩

end
end SecOS.Pmm
