import SecOS.Proofs.SpaceDestroy

/-! What a fork borrows for its child: its tables, its references and the chunks that hold them.
Once they are gone the physical memory manager is back where it was. -/

namespace SecOS.Vmm
open Library Pmm

/-- `rest` and `base` are the leaves and owners there were at `m0`, `leaves` and `tables`
what has been posted for the child since. -/
structure Loan (device : Nat → Prop) (m0 : Pmm.State) (rest base : Nat → Nat) (m : Pmm.State) (leaves tables : Nat → Nat) : Prop where
  acc : Accounts device m (fun f => rest f + leaves f) (fun f => base f + tables f)
  covered : ∀ f, leaves f ≤ rest f
  stuck : ∀ f, count m0 f = 255 → count m f = 255
  sticky : ∀ f, count m f = 255 → 0 < count m0 f
  chunks : ∀ q p, chunkAt m0 q = some p → chunkAt m q = some p
  made : ∀ q p, chunkAt m q = some p → chunkAt m0 q = some p ∨ isFree m0 p = true
  lent : ∀ f, 0 < tables f → isFree m0 f = true
  free : ∀ f, isFree m f = true ↔ isFree m0 f = true ∧ tables f = 0 ∧ ∀ q, chunkAt m q ≠ some f
  mem : ∀ f, 0 < rest f ∨ device f → m.mem f = m0.mem f

section
variable {m m' : Pmm.State} {f : Nat}

theorem count_le (m : Pmm.State) (f : Nat) : count m f ≤ 255 := by
  unfold count
  cases chunkAt m (f / 4096) with
  | none => exact Nat.zero_le _
  | some p =>
    have byte := (m.mem p (f % 4096)).toNat_lt
    simp only
    omega

theorem chunk_of_count (positive : 0 < count m f) : ∃ p, chunkAt m (f / 4096) = some p := by
  cases chunk : chunkAt m (f / 4096) with
  | none =>
    rw [count_none chunk rfl] at positive
    exact absurd positive (Nat.lt_irrefl 0)
  | some p => exact ⟨p, rfl⟩

theorem count_of_chunk {q p : Nat} (rep : Rep m) (chunk : chunkAt m q = some p) : ∃ g, g / 4096 = q ∧ 0 < count m g := by
  have slot : ∀ k, k < 4096 → (q * 4096 + k) / 4096 = q ∧ (q * 4096 + k) % 4096 = k := fun k low => ⟨by omega, by omega⟩
  have place : q * 4096 / 4096 = q := Nat.mul_div_cancel _ (by decide)
  cases found : secOf m (q * 4096) with
  | none =>
    rw [← place, chunkAt_unmanaged found] at chunk
    exact nomatch chunk
  | some s =>
    rw [← place] at chunk
    obtain ⟨_, _, positive⟩ := rep.chunk_used found chunk
    obtain ⟨k, member⟩ := Finset.card_pos.mp positive
    obtain ⟨inside, nonzero⟩ := Finset.mem_filter.mp member
    obtain ⟨here, byte⟩ := slot k (Finset.mem_range.mp inside)
    refine ⟨q * 4096 + k, here, ?_⟩
    unfold count
    rw [here, byte, ← place, chunk]
    apply Nat.pos_of_ne_zero
    intro zero
    exact nonzero (UInt8.toNat_inj.mp zero)

end

section
variable {device : Nat → Prop} {m0 m m' : Pmm.State} {rest base leaves tables : Nat → Nat} {f : Nat}

theorem Loan.none (acc : Accounts device m0 rest base) : Loan device m0 rest base m0 (fun _ => 0) (fun _ => 0) where
  acc := acc
  covered _ := Nat.zero_le _
  stuck _ same := same
  sticky f full := by omega
  chunks _ _ same := same
  made _ _ same := .inl same
  lent _ never := absurd never (Nat.lt_irrefl 0)
  free f := by
    refine ⟨fun free => ⟨free, rfl, ?_⟩, fun all => all.1⟩
    intro q chunk
    rw [(acc.rep.held q f chunk).2] at free
    exact nomatch free
  mem _ _ := rfl

theorem Loan.repaid (start : Accounts device m0 rest base) (loan : Loan device m0 rest base m (fun _ => 0) (fun _ => 0)) :
    (∀ f, isFree m f = isFree m0 f) ∧ ∀ f, 0 < rest f ∨ device f → m.mem f = m0.mem f := by
  refine ⟨?_, loan.mem⟩
  have idle : ∀ f, isFree m0 f = true → ∀ q, chunkAt m q ≠ some f := by
    intro f free q chunk
    cases old : chunkAt m0 q with
    | some p =>
      have same := Option.some.inj ((loan.chunks q p old).symm.trans chunk)
      rw [← same, (start.rep.held q p old).2] at free
      exact nomatch free
    | none =>
      -- The chunk would be there for a frame that nobody shares any more.
      obtain ⟨g, here, positive⟩ := count_of_chunk loan.acc.rep chunk
      have zero : count m0 g = 0 := count_none (f := g) (here ▸ old) rfl
      have before := start.counts g
      have after := loan.acc.counts g
      have unstuck := loan.sticky g
      omega
  intro f
  rw [Bool.eq_iff_iff, loan.free]
  exact ⟨fun all => all.1, fun free => ⟨free, rfl, idle f free⟩⟩

theorem Loan.settled (loan : Loan device m0 rest base m (fun _ => 0) (fun _ => 0)) : Accounts device m rest base := loan.acc

theorem Loan.take (loan : Loan device m0 rest base m leaves tables) (takes : Takes m m' f 1)
    (acc : Accounts device m' (fun g => rest g + leaves g) (fun g => base g + credit tables f g)) :
    Loan device m0 rest base m' leaves (credit tables f) where
  acc := acc
  covered := loan.covered
  stuck g full := (takes.toSame.count g).trans (loan.stuck g full)
  sticky g full := loan.sticky g ((takes.toSame.count g).symm.trans full)
  chunks q p old := (takes.chunks q).trans (loan.chunks q p old)
  made q p chunk := loan.made q p ((takes.chunks q).symm.trans chunk)
  lent g posted := by
    rw [credit_apply, owns_some] at posted
    split at posted
    · exact ((loan.free g).mp (takes.was g (by omega) (by omega))).1
    · exact loan.lent g posted
  free g := by
    have old := loan.free g
    simp only [takes.bits, takes.chunks, credit_apply, owns_some]
    by_cases same : g = f
    · rw [if_pos (by omega), if_pos same]
      exact ⟨nofun, fun all => by omega⟩
    · rw [if_neg (by omega), if_neg same, Nat.add_zero]
      exact old
  mem g held := (congrFun takes.mem g).trans (loan.mem g held)

theorem Loan.repay (loan : Loan device m0 rest base m leaves tables) (posted : 0 < tables f) :
    Loan device m0 rest base (freeFrame m (f * frameSize)) leaves (debit tables f) := by
  obtain ⟨acc, gives⟩ := loan.acc.freeFixed (f := f) (by omega)
  have one := (loan.acc.single f (by omega)).1
  have idle := (loan.acc.held (f := f) (by omega)).2
  refine ⟨?_, loan.covered, ?_, ?_, ?_, ?_, ?_, ?_, ?_⟩
  · rwa [debit_rest posted] at acc
  · exact fun g full => (gives.toSame.count g).trans (loan.stuck g full)
  · exact fun g full => loan.sticky g ((gives.toSame.count g).symm.trans full)
  · exact fun q p old => (gives.chunks q).trans (loan.chunks q p old)
  · exact fun q p chunk => loan.made q p ((gives.chunks q).symm.trans chunk)
  · intro g some
    rw [debit_apply] at some
    exact loan.lent g (by omega)
  · intro g
    simp only [gives.bits, gives.chunks, debit_apply, owns_some]
    by_cases same : g = f
    · rw [if_pos same, if_pos same, same]
      exact ⟨fun _ => ⟨loan.lent f posted, by omega, idle⟩, fun _ => rfl⟩
    · rw [if_neg same, if_neg same]
      exact loan.free g
  · exact fun g held => (congrFun gives.mem g).trans (loan.mem g held)

section
variable (start : Accounts device m0 rest base)
include start

private theorem chunk_stays {q p : Nat} {more : Nat → Nat} (old : chunkAt m0 q = some p)
    (acc : Accounts device m' (fun g => rest g + more g) tables) (stuck : ∀ g, count m0 g = 255 → count m' g = 255) :
    chunkAt m' q ≠ none := by
  obtain ⟨g, here, positive⟩ := count_of_chunk start.rep old
  have before := start.counts g
  have after := acc.counts g
  have full := stuck g
  obtain ⟨p', chunk⟩ := chunk_of_count (m := m') (f := g) (by omega)
  rw [here] at chunk
  rw [chunk]
  rintro ⟨⟩

theorem Loan.recount {more : Nat → Nat} {value : Nat} (loan : Loan device m0 rest base m leaves tables)
    (acc : Accounts device m' (fun g => rest g + more g) (fun g => base g + tables g)) (recounts : Recounts m m' f value)
    (change : ChunkChange m m' (f / 4096)) (covered : ∀ g, more g ≤ rest g) (stuck : count m0 f = 255 → value = 255)
    (sticky : value = 255 → 0 < count m0 f) : Loan device m0 rest base m' more tables := by
  have stuck' : ∀ g, count m0 g = 255 → count m' g = 255 := by
    intro g full
    by_cases same : g = f
    · subst same
      exact recounts.here.trans (stuck full)
    · exact (recounts.others g same).trans (loan.stuck g full)
  have chunks : ∀ q p, chunkAt m0 q = some p → chunkAt m' q = some p := by
    intro q p old
    have still := loan.chunks q p old
    by_cases here : q = f / 4096
    · cases change with
      | kept same _ => rw [here, same, ← here, still]
      | made p' was _ _ _ =>
        rw [here, was] at still
        exact nomatch still
      | dropped p' _ now _ =>
        rw [← here] at now
        exact absurd now (chunk_stays start old acc stuck')
    · rw [recounts.chunks q here, still]
  have others : ∀ q, q ≠ f / 4096 → chunkAt m' q = chunkAt m q := recounts.chunks
  refine ⟨acc, covered, stuck', ?_, chunks, ?_, loan.lent, ?_, ?_⟩
  · intro g full
    by_cases same : g = f
    · subst same
      exact sticky (recounts.here.symm.trans full)
    · exact loan.sticky g ((recounts.others g same).symm.trans full)
  · intro q p chunk
    by_cases here : q = f / 4096
    · cases change with
      | kept same _ => exact loan.made q p (by rw [here, ← same, ← here, chunk])
      | made p' _ now free _ =>
        rw [here, now] at chunk
        exact .inr (Option.some.inj chunk ▸ ((loan.free p').mp free).1)
      | dropped p' _ now _ =>
        rw [here, now] at chunk
        exact nomatch chunk
    · exact loan.made q p (by rw [← others q here, chunk])
  · intro g
    have before := loan.free g
    cases change with
    | kept same bits =>
      have every : ∀ q, chunkAt m' q = chunkAt m q := by
        intro q
        by_cases here : q = f / 4096
        · rw [here, same]
        · exact others q here
      simp only [bits, every]
      exact before
    | made p was now free bits =>
      rw [bits]
      by_cases same : g = p
      · rw [if_pos same]
        exact ⟨nofun, fun all => absurd (same ▸ now) (all.2.2 _)⟩
      · rw [if_neg same, before]
        refine and_congr_right fun _ => and_congr_right fun _ => ⟨fun idle q chunk => ?_, fun idle q chunk => ?_⟩
        · by_cases here : q = f / 4096
          · rw [here, now] at chunk
            exact same (Option.some.inj chunk).symm
          · exact idle q (by rw [← others q here, chunk])
        · by_cases here : q = f / 4096
          · rw [here, was] at chunk
            exact nomatch chunk
          · exact idle q (by rw [others q here, chunk])
    | dropped p was now bits =>
      rw [bits]
      have elsewhere : ∀ q, chunkAt m' q = some g → chunkAt m q = some g ∧ q ≠ f / 4096 := by
        intro q chunk
        have here : q ≠ f / 4096 := by
          rintro rfl
          rw [now] at chunk
          exact nomatch chunk
        exact ⟨by rw [← others q here, chunk], here⟩
      by_cases same : g = p
      · rw [if_pos same]
        refine ⟨fun _ => ⟨?_, ?_, ?_⟩, fun _ => rfl⟩
        · rcases loan.made _ p was with old | free
          · exact absurd now (chunk_stays start old acc stuck')
          · exact same ▸ free
        · have unowned := (loan.acc.chunk _ p was).2.1
          rw [same]
          omega
        · intro q chunk
          obtain ⟨was', here⟩ := elsewhere q chunk
          exact here (loan.acc.rep.distinct q _ p (same ▸ was') was)
      · rw [if_neg same, before]
        refine and_congr_right fun _ => and_congr_right fun _ => ⟨fun idle q chunk => idle q (elsewhere q chunk).1, fun idle q chunk => ?_⟩
        by_cases here : q = f / 4096
        · rw [here, was] at chunk
          exact same (Option.some.inj chunk).symm
        · exact idle q (by rw [others q here, chunk])
  · intro g kept
    have outside : isFree m g = false ∧ ∀ q, chunkAt m q ≠ some g := by
      rcases kept with held | special
      · exact loan.acc.held (by omega)
      · exact loan.acc.apart special
    exact (quiet_recount recounts change g outside.1 outside.2).trans (loan.mem g kept)

section
variable (loan : Loan device m0 rest base m leaves tables)
include loan

theorem Loan.share (room : leaves f < rest f) :
    (∃ m', shareFrame m (f * frameSize) = (m', 0) ∧ Loan device m0 rest base m' (credit leaves f) tables) ∨
      shareFrame m (f * frameSize) = (m, -1) := by
  rcases loan.acc.share (f := f) (by omega) with ⟨m', shared, acc, recounts, change⟩ | ⟨refused, _, _⟩
  · refine .inl ⟨m', shared, ?_⟩
    rw [credit_rest] at acc
    refine loan.recount start acc recounts change ?_ ?_ ?_
    · intro g
      have bound := loan.covered g
      simp only [credit_apply, owns_some]
      split
      next same =>
        subst same
        omega
      · omega
    · intro full
      have now := loan.stuck f full
      omega
    · intro full
      have counts := loan.acc.counts f
      have before := start.counts f
      have sticky := loan.sticky f
      omega
  · exact .inr refused

private theorem Loan.dropped (posted : 0 < leaves f)
    (acc : Accounts device m' (debit (fun g => rest g + leaves g) f) (fun g => base g + tables g)) (dropped : Dropped m m' f) :
    Loan device m0 rest base m' (debit leaves f) tables := by
  rw [debit_rest posted] at acc
  have bound := loan.covered f
  have counts := loan.acc.counts f
  have low := count_le m f
  cases dropped with
  | freed was _ => omega
  | shared value was less recounts change =>
    refine loan.recount start acc recounts change ?_ ?_ ?_
    · intro g
      have bound := loan.covered g
      rw [debit_apply]
      omega
    · intro full
      rw [less, if_pos (loan.stuck f full)]
    · intro full
      apply loan.sticky f
      rw [less] at full
      split at full
      next same => exact same
      · omega

theorem Loan.unshare (posted : 0 < leaves f) :
    Loan device m0 rest base (unrefFrame m (f * frameSize)).1 (debit leaves f) tables := by
  have bound := loan.covered f
  obtain ⟨acc, dropped⟩ := loan.acc.unshare (f := f) (by omega)
  exact loan.dropped start posted acc dropped

end

theorem loan_settles : Settles (Loan device m0 rest base) where
  drop loan posted := by
    obtain ⟨acc, dropped⟩ := loan.acc.drop (Nat.add_pos_right _ posted)
    exact loan.dropped start posted acc dropped
  free loan posted := loan.repay posted

end

theorem Loan.grow {s s' : Space} (loan : Loan device m0 rest base m leaves s.tables)
    (grown : Grown device (fun f => rest f + leaves f) base m s m' s') : Loan device m0 rest base m' leaves s'.tables where
  acc := grown.acc
  covered := loan.covered
  stuck g full := (grown.same.count g).trans (loan.stuck g full)
  sticky g full := loan.sticky g ((grown.same.count g).symm.trans full)
  chunks q p old := (grown.same.chunks q).trans (loan.chunks q p old)
  made q p chunk := loan.made q p ((grown.same.chunks q).symm.trans chunk)
  lent g posted := by
    rcases grown.new g with same | free
    · exact loan.lent g (same ▸ posted)
    · exact ((loan.free g).mp free).1
  free g := by
    rw [grown.free, loan.free]
    simp only [grown.same.chunks]
    have bound := grown.more g
    refine ⟨fun all => ⟨all.1.1, all.2, all.1.2.2⟩, fun all => ⟨⟨all.1, by omega, all.2.2⟩, all.2.1⟩⟩
  mem g held := (congrFun grown.same.mem g).trans (loan.mem g held)

end
end SecOS.Vmm
