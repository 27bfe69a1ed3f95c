import SecOS.Proofs.PmmOperations

/-! The copy-on-write reference counts. `pmm_share_frame` and `pmm_unref_frame`
move the count of one frame and no other, even when the chunk that holds it is
allocated or dropped on the way. -/

namespace SecOS.Pmm
open Library Finset Option
open Function (update update_eq_self update_idem update_of_ne update_self)

theorem nonzeros_update (row : Nat → UInt8) {k : Nat} (inside : k < 4096) (v : UInt8) :
    nonzeros (update row k v) + (if row k ≠ 0 then 1 else 0) = nonzeros row + (if v ≠ 0 then 1 else 0) := by
  unfold nonzeros
  rw [card_filter, card_filter]
  exact sum_update _ row (fun value => if value ≠ 0 then 1 else 0) (mem_range.mpr inside) v

theorem nonzeros_le (row : Nat → UInt8) : nonzeros row ≤ 4096 :=
  (card_filter_le _ _).trans (card_range 4096).le

theorem nonzeros_zero {row : Nat → UInt8} (none : nonzeros row = 0) {k : Nat} (inside : k < 4096) : row k = 0 := by
  have absent := Finset.filter_eq_empty_iff.mp (card_eq_zero.mp none) (mem_range.mpr inside)
  simpa using absent

/-- The count of `f` is now `value`; every other count is what it was. -/
structure Recounts (m m' : State) (f value : Nat) : Prop where
  sectioned : m'.sectioned = m.sectioned
  nsec : m'.nsec = m.nsec
  managed : ∀ g, managed m' g = managed m g
  here : count m' f = value
  others : ∀ g ≠ f, count m' g = count m g
  chunks : ∀ q ≠ f / 4096, chunkAt m' q = chunkAt m q
  mem : ∀ p, chunkAt m (f / 4096) ≠ some p → chunkAt m' (f / 4096) ≠ some p → m'.mem p = m.mem p

/-- What moving a count may do to the chunk that holds it: nothing, allocate it, or drop it. -/
inductive ChunkChange (m m' : State) (q : Nat) : Prop where
  | kept (same : chunkAt m' q = chunkAt m q) (bits : ∀ g, isFree m' g = isFree m g)
  | made (p : Nat) (was : chunkAt m q = none) (now : chunkAt m' q = some p) (free : isFree m p = true)
      (bits : ∀ g, isFree m' g = if g = p then false else isFree m g)
  | dropped (p : Nat) (was : chunkAt m q = some p) (now : chunkAt m' q = none)
      (bits : ∀ g, isFree m' g = if g = p then true else isFree m g)

section
variable {m m' : State} {f : Nat} {s : Section}

theorem chunkAt_of (found : secOf m f = some s) : chunkAt m (f / 4096) = s.refs (f % 2 ^ 18 / 4096) := by
  obtain ⟨inside, present⟩ := secOf_some found
  have slot : f / 4096 = f / 2 ^ 18 * 64 + f % 2 ^ 18 / 4096 := by omega
  rw [slot]
  exact chunkAt_at inside present (by omega)

theorem chunkAt_unmanaged (found : secOf m f = none) : chunkAt m (f / 4096) = none := by
  unfold chunkAt
  have here : f / 4096 * 4096 / 2 ^ 18 = f / 2 ^ 18 := by omega
  have same : secOf m (f / 4096 * 4096) = secOf m f := by
    unfold secOf
    rw [here]
  rw [same, found]
  rfl

variable {v : UInt8} {p : Nat}

/-- Storing one count in chunk frame `p`, whose other counts are `row`, and settling the
chunk's slot and its number of shared frames. -/
theorem Rep.recount {p n : Nat} {r : Option Nat} (row : Nat → UInt8) (rep : Rep m) (found : secOf m f = some s)
    (change : Replaced m m' (f / 2 ^ 18) { s with
      refs := update s.refs (f % 2 ^ 18 / 4096) r
      refsUsed := update s.refsUsed (f % 2 ^ 18 / 4096) n })
    (frames : m'.freeFrames = m.freeFrames)
    (mem : m'.mem = update m.mem p (update row (f % 4096) v))
    (number : n = nonzeros (update row (f % 4096) v)) (slot : r = if n = 0 then none else some p)
    (held : managed m p = true ∧ isFree m p = false) (mine : ∀ q ≠ f / 4096, chunkAt m q ≠ some p)
    (old : ∀ g, g / 4096 = f / 4096 → count m g = (row (g % 4096)).toNat)
    (place : n ≠ 0 ∨ chunkAt m (f / 4096) = some p) :
    Rep m' ∧ Recounts m m' f v.toNat ∧ chunkAt m' (f / 4096) = r ∧ ∀ g, isFree m' g = isFree m g := by
  obtain ⟨inside, present⟩ := secOf_some found
  have here : f / 2 ^ 18 * 64 + f % 2 ^ 18 / 4096 = f / 4096 := by omega
  have chunks : ∀ q ≠ f / 4096, chunkAt m' q = chunkAt m q := by
    intro q other
    exact change.chunkAt_other inside present rfl (by omega)
  have chunk : chunkAt m' (f / 4096) = r := by
    rw [← here, chunkAt_at (change.nsec ▸ inside) (by rw [change.sec, update_self]) (by omega)]
    exact update_self _ _ _
  -- A count read back from the chunk: the slot may be gone only if all of them are zero.
  have read : ∀ g, g / 4096 = f / 4096 → count m' g = (update row (f % 4096) v (g % 4096)).toNat := by
    intro g same
    unfold count
    rw [same, chunk, slot, mem]
    by_cases empty : n = 0
    · rw [if_pos empty]
      have zero := nonzeros_zero (number.symm.trans empty) (Nat.mod_lt g (show 4096 > 0 by decide))
      rw [zero]
      rfl
    · rw [if_neg empty]
      simp only [update_self]
  refine ⟨rep.replace_chunk change frames inside present (by omega) rfl ?_ ?_ ?_ ?_,
    ⟨change.sectioned, change.nsec, change.managed inside present, ?_, ?_, chunks, ?_⟩, chunk, ?_⟩
  · intro q p' taken other
    rw [here] at other
    rw [mem, update_of_ne]
    rintro rfl
    exact mine q other taken
  · rw [slot]
    by_cases empty : n = 0
    · simp [empty]
    · simp [empty]
      omega
  · rw [slot, mem]
    by_cases empty : n = 0
    · rw [if_pos empty, empty]
      rfl
    · rw [if_neg empty]
      simpa only [shared, update_self] using number
  · intro p' taken
    rw [slot] at taken
    split at taken
    · cases taken
    · have same := Option.some.inj taken
      subst same
      rw [here]
      exact ⟨held.1, held.2, mine⟩
  · rw [read f rfl, update_self]
  · intro g other
    by_cases same : g / 4096 = f / 4096
    · rw [read g same, update_of_ne (by omega), old g same]
    · unfold count
      rw [chunks _ same]
      cases taken : chunkAt m (g / 4096) with
      | none => rfl
      | some p' =>
        have apart : p' ≠ p := by
          rintro rfl
          exact mine _ same taken
        simp only [mem, update_of_ne apart]
  · intro p' before after
    rw [mem, update_of_ne]
    rintro rfl
    rcases place with nonzero | was
    · rw [chunk, slot, if_neg nonzero] at after
      exact after rfl
    · exact before was
  · intro g
    by_cases near : g / 2 ^ 18 = f / 2 ^ 18
    · rw [change.isFree_here inside near, isFree_at inside present near]
      rfl
    · exact change.isFree_other near

theorem count_of (chunk : chunkAt m (f / 4096) = some p) {g : Nat} (same : g / 4096 = f / 4096) :
    count m g = (m.mem p (g % 4096)).toNat := by
  unfold count
  rw [same, chunk]

theorem count_none (chunk : chunkAt m (f / 4096) = none) {g : Nat} (same : g / 4096 = f / 4096) : count m g = 0 := by
  unfold count
  rw [same, chunk]

theorem Rep.chunk_used (rep : Rep m) (found : secOf m f = some s) (chunk : chunkAt m (f / 4096) = some p) :
    s.refs (f % 2 ^ 18 / 4096) = some p ∧ s.refsUsed (f % 2 ^ 18 / 4096) = nonzeros (m.mem p) ∧ 0 < nonzeros (m.mem p) := by
  obtain ⟨inside, present⟩ := secOf_some found
  have ok := rep.consistent.sections _ inside s present
  have slot := (chunkAt_of found).symm.trans chunk
  have used := ok.shares (f % 2 ^ 18 / 4096) (by omega)
  have positive := (ok.present (f % 2 ^ 18 / 4096) (by omega)).mp (by rw [slot]; exact some_ne_none p)
  rw [slot] at used
  change _ = nonzeros (m.mem p) at used
  exact ⟨slot, used, used ▸ positive⟩

theorem Rep.chunk_unused (rep : Rep m) (found : secOf m f = some s) (chunk : chunkAt m (f / 4096) = none) :
    s.refs (f % 2 ^ 18 / 4096) = none ∧ s.refsUsed (f % 2 ^ 18 / 4096) = 0 := by
  obtain ⟨inside, present⟩ := secOf_some found
  have ok := rep.consistent.sections _ inside s present
  have slot := (chunkAt_of found).symm.trans chunk
  have used := ok.shares (f % 2 ^ 18 / 4096) (by omega)
  rw [slot] at used
  exact ⟨slot, used⟩

theorem Rep.kept_count {p n : Nat} (rep : Rep m) (found : secOf m f = some s) (chunk : chunkAt m (f / 4096) = some p)
    (change : Replaced m m' (f / 2 ^ 18) { s with refsUsed := update s.refsUsed (f % 2 ^ 18 / 4096) n })
    (frames : m'.freeFrames = m.freeFrames) (mem : m'.mem = update m.mem p (update (m.mem p) (f % 4096) v))
    (number : n + (if m.mem p (f % 4096) ≠ 0 then 1 else 0) = nonzeros (m.mem p) + if v ≠ 0 then 1 else 0) (some_ : n ≠ 0) :
    Rep m' ∧ Recounts m m' f v.toNat ∧ ChunkChange m m' (f / 4096) := by
  have total := nonzeros_update (m.mem p) (Nat.mod_lt f (show 4096 > 0 by decide)) v
  have refs : update s.refs (f % 2 ^ 18 / 4096) (some p) = s.refs := by
    rw [← (rep.chunk_used found chunk).1, update_eq_self]
  rw [← refs] at change
  obtain ⟨kept, recounts, now, free⟩ := rep.recount (m.mem p) found change frames mem (by omega) (by rw [if_neg some_])
    (rep.held _ p chunk) (fun q other taken => other (rep.distinct q _ p taken chunk)) (fun g same => count_of chunk same) (Or.inr chunk)
  exact ⟨kept, recounts, .kept (now.trans chunk.symm) free⟩

theorem Rep.store_count (rep : Rep m) (found : secOf m f = some s)
    (chunk : chunkAt m (f / 4096) = some p) (was : m.mem p (f % 4096) ≠ 0) (becomes : v ≠ 0) :
    Rep (setCount m (p, f % 4096) v) ∧ Recounts m (setCount m (p, f % 4096) v) f v.toNat ∧
      ChunkChange m (setCount m (p, f % 4096) v) (f / 4096) := by
  obtain ⟨_, used, positive⟩ := rep.chunk_used found chunk
  refine rep.kept_count found chunk ?_ rfl rfl (by rw [if_pos was, if_pos becomes]) (Nat.ne_of_gt positive)
  rw [← used, update_eq_self]
  exact ⟨by rw [← (secOf_some found).2, update_eq_self]; rfl, rfl, rfl⟩

theorem refSlot_some (on : m.sectioned = true) (chunk : chunkAt m (f / 4096) = some p) (create : Bool) :
    refSlot m f create = (m, some (p, f % 4096)) := by
  have byte : f % 2 ^ 18 % 4096 = f % 4096 := by omega
  cases found : secOf m f with
  | none =>
    rw [chunkAt_unmanaged found] at chunk
    exact nomatch chunk
  | some s =>
    rw [chunkAt_of found] at chunk
    unfold refSlot
    simp only [on, if_true, found, chunk, byte]

theorem refSlot_none (on : m.sectioned = true) (chunk : chunkAt m (f / 4096) = none) :
    refSlot m f false = (m, none) := by
  unfold refSlot
  cases found : secOf m f with
  | none => simp only [on, if_true]
  | some s =>
    rw [chunkAt_of found] at chunk
    simp only [on, if_true, chunk, Bool.not_false]

theorem Recounts.same (m : State) (f : Nat) : Recounts m m f (count m f) :=
  ⟨rfl, rfl, fun _ => rfl, rfl, fun _ _ => rfl, fun _ _ => rfl, fun _ _ _ => rfl⟩

theorem Rep.first_count (rep : Rep m) (found : secOf m f = some s) (chunk : chunkAt m (f / 4096) = some p)
    (was : m.mem p (f % 4096) = 0)
    (result : m' = setCount (setSec m (f / 2 ^ 18) (refsUsedUp s (f % 2 ^ 18 / 4096))) (p, f % 4096) 1) :
    Rep m' ∧ Recounts m m' f 1 ∧ ChunkChange m m' (f / 4096) := by
  obtain ⟨_, used, positive⟩ := rep.chunk_used found chunk
  have bound := nonzeros_le (m.mem p)
  have wrapped : (s.refsUsed (f % 2 ^ 18 / 4096) + 1) % 2 ^ 16 = nonzeros (m.mem p) + 1 := by omega
  subst result
  refine rep.kept_count (n := nonzeros (m.mem p) + 1) (v := 1) found chunk ?_ rfl rfl ?_ (Nat.succ_ne_zero _)
  · rw [← wrapped]
    exact ⟨rfl, rfl, rfl⟩
  · rw [if_neg (not_not_intro was), if_pos (by decide)]

theorem Rep.new_count {n : State} {t : Section} (rep : Rep m) (takes : Takes m n p 1) (kept : Rep n)
    (found : secOf n f = some t) (chunk : chunkAt m (f / 4096) = none)
    (result : m' = setCount (setSec (refChunkNew n (f / 2 ^ 18) t (f % 2 ^ 18 / 4096) p) (f / 2 ^ 18)
      (refsUsedUp { t with refs := update t.refs (f % 2 ^ 18 / 4096) (some p) } (f % 2 ^ 18 / 4096))) (p, f % 4096) 1) :
    Rep m' ∧ Recounts m m' f 1 ∧ ChunkChange m m' (f / 4096) := by
  have gone : chunkAt n (f / 4096) = none := (takes.chunks _).trans chunk
  obtain ⟨slot, used⟩ := kept.chunk_unused found gone
  have number := nonzeros_update (fun _ => 0) (Nat.mod_lt f (show 4096 > 0 by decide)) 1
  have empty : nonzeros (fun _ => 0) = 0 := by simp [nonzeros]
  rw [if_neg (fun different => different rfl), if_pos (by decide), empty] at number
  have free : isFree m p = true := takes.was p le_rfl (by omega)
  have idle : ∀ q, chunkAt m q ≠ some p := by
    intro q taken
    have busy := (rep.held q p taken).2
    rw [free] at busy
    exact nomatch busy
  have busy : isFree n p = false := by
    rw [takes.bits, if_pos (by omega)]
  have ours : managed n p = true := by
    rw [takes.managed]
    unfold isFree at free
    unfold managed
    split at free
    next found => rw [found]; rfl
    · exact nomatch free
  have wrapped : (t.refsUsed (f % 2 ^ 18 / 4096) + 1) % 2 ^ 16 = 1 := by omega
  have change : Replaced n m' (f / 2 ^ 18) { t with
      refs := update t.refs (f % 2 ^ 18 / 4096) (some p)
      refsUsed := update t.refsUsed (f % 2 ^ 18 / 4096) 1 } := by
    rw [result, ← wrapped]
    exact ⟨update_idem _ _ _, rfl, rfl⟩
  have mem : m'.mem = update n.mem p (update (fun _ => 0) (f % 4096) 1) := by
    rw [result]
    change update (update n.mem p _) p (update (update n.mem p _ p) _ _) = _
    rw [update_self, update_idem]
  obtain ⟨rep', recounts, now, bits⟩ := kept.recount (fun _ => 0) found change (by rw [result]; rfl) mem (by omega)
    (by rw [if_neg (by omega)]) ⟨ours, busy⟩ (fun q _ taken => idle q ((takes.chunks q).symm.trans taken)) (fun g same => count_none gone same)
    (Or.inl (by omega))
  refine ⟨rep', ⟨recounts.sectioned.trans takes.sectioned, recounts.nsec.trans takes.nsec, ?_, recounts.here, ?_, ?_, ?_⟩,
    .made p chunk now free ?_⟩
  · intro g
    exact (recounts.managed g).trans (takes.managed g)
  · intro g other
    exact (recounts.others g other).trans (takes.toSame.count g)
  · intro q other
    exact (recounts.chunks q other).trans (takes.chunks q)
  · intro p' before after
    rw [recounts.mem p' (by rw [gone]; exact some_ne_none p' ∘ Eq.symm) after, takes.mem]
  · intro g
    rw [bits, takes.bits]
    have same : (p ≤ g ∧ g < p + 1) ↔ g = p := by omega
    simp only [same]

/-- Sharing a frame: one more reference, or the allocation of its chunk failed. A
failure may have taken frame 0, whose address reads as a failed allocation. -/
inductive ShareOutcome (m : State) (f : Nat) : State × Int → Prop where
  | shared {m' : State} (kept : Rep m') (ours : managed m f = true) (recounts : Recounts m m' f (min 255 (count m f + 1)))
      (chunk : ChunkChange m m' (f / 4096)) : ShareOutcome m f (m', 0)
  | refused (kept : Rep m) (why : managed m f = true → chunkAt m (f / 4096) = none ∧
      (m.nsec ≤ 2 ^ 33 → ∀ g, isFree m g = false)) : ShareOutcome m f (m, -1)
  | lost {m' : State} (kept : Rep m') (takes : Takes m m' 0 1) : ShareOutcome m f (m', -1)

private theorem byte_ne_zero (nonzero : v ≠ 0) : v.toNat ≠ 0 := by
  intro zero
  exact nonzero (UInt8.toNat_inj.mp zero)

theorem shareFrame_existing {addr : Nat} (rep : Rep m) (on : m.sectioned = true)
    (chunk : chunkAt m (addr / frameSize / 4096) = some p) : ShareOutcome m (addr / frameSize) (shareFrame m addr) := by
  unfold shareFrame
  generalize addr / frameSize = f at chunk
  simp only [refSlot_some on chunk]
  cases found : secOf m f with
  | none =>
    rw [chunkAt_unmanaged found] at chunk
    cases chunk
  | some s =>
    have ours : managed m f = true := by rw [managed, found]; rfl
    have value := count_of chunk (show f / 4096 = f / 4096 from rfl)
    by_cases zero : m.mem p (f % 4096) = 0
    · rw [zero] at value
      have sticky : (0 : UInt8) ≠ refSticky := by decide
      simp only [zero, if_true, ne_eq, sticky, not_false_eq_true]
      obtain ⟨kept, recounts, change⟩ := rep.first_count found chunk zero rfl
      refine .shared kept ours ?_ change
      rw [value]
      exact recounts
    · simp only [zero, if_false]
      by_cases full : m.mem p (f % 4096) = refSticky
      · simp only [full, ne_eq, not_true, if_false]
        rw [full] at value
        refine .shared rep ours ?_ (.kept rfl fun _ => rfl)
        have same := Recounts.same m f
        rw [value] at same ⊢
        exact same
      · simp only [full, ne_eq, not_false_eq_true, if_true]
        have small : (m.mem p (f % 4096)).toNat < 255 := by
          have bound := (m.mem p (f % 4096)).toNat_lt
          have apart : (m.mem p (f % 4096)).toNat ≠ 255 := fun equal => full (UInt8.toNat_inj.mp equal)
          omega
        have next : (m.mem p (f % 4096) + 1).toNat = (m.mem p (f % 4096)).toNat + 1 := by
          rw [UInt8.toNat_add]
          change ((m.mem p (f % 4096)).toNat + 1) % 256 = _
          omega
        have nonzero : m.mem p (f % 4096) + 1 ≠ 0 := by
          intro wrapped
          rw [wrapped] at next
          exact absurd next (by simp)
        obtain ⟨kept, recounts, change⟩ := rep.store_count found chunk zero nonzero
        refine .shared kept ours ?_ change
        rw [value, Nat.min_eq_right (by omega), ← next]
        exact recounts

theorem shareFrame_spec (rep : Rep m) (on : m.sectioned = true) (addr : Nat) :
    ShareOutcome m (addr / frameSize) (shareFrame m addr) := by
  cases chunk : chunkAt m (addr / frameSize / 4096) with
  | some p => exact shareFrame_existing rep on chunk
  | none =>
    unfold shareFrame
    generalize addr / frameSize = f at chunk
    cases found : secOf m f with
    | none =>
      have slot : refSlot m f true = (m, none) := by
        unfold refSlot
        simp only [on, if_true, found]
      simp only [slot]
      refine .refused rep fun ours => ?_
      rw [managed, found] at ours
      cases ours
    | some s =>
      have missing := (chunkAt_of found).symm.trans chunk
      have byte : f % 2 ^ 18 % 4096 = f % 4096 := by omega
      unfold refSlot
      simp only [on, if_true, found, missing, Bool.not_true, Bool.false_eq_true, if_false, byte]
      rcases allocFrameNolockBelow_spec rep on noLimit with ⟨p, address, kept, takes, _⟩ | ⟨nothing, unseen⟩
      · generalize allocFrameNolockBelow m noLimit = result at address kept takes
        obtain ⟨n, a⟩ := result
        simp only at address kept takes
        subst address
        by_cases zero : p * frameSize = 0
        · simp only [zero, if_true]
          have origin : p = 0 := by unfold frameSize at zero; omega
          exact .lost kept (origin ▸ takes)
        · have chunkFrame := frame_div p
          have ours : managed m f = true := by rw [managed, found]; rfl
          cases found' : secOf n f with
          | none =>
            have still := (takes.managed f).trans ours
            rw [managed, found'] at still
            cases still
          | some t =>
            simp only [zero, if_false, chunkFrame]
            have again : secOf (refChunkNew n (f / 2 ^ 18) t (f % 2 ^ 18 / 4096) p) f =
                some { t with refs := update t.refs (f % 2 ^ 18 / 4096) (some p) } := by
              have change : Replaced n (refChunkNew n (f / 2 ^ 18) t (f % 2 ^ 18 / 4096) p) (f / 2 ^ 18)
                { t with refs := update t.refs (f % 2 ^ 18 / 4096) (some p) } := ⟨rfl, rfl, rfl⟩
              exact change.secOf_here (secOf_some found').1 rfl
            have fresh : (refChunkNew n (f / 2 ^ 18) t (f % 2 ^ 18 / 4096) p).mem p (f % 4096) = 0 := by
              simp only [refChunkNew, update_self]
            have sticky : (0 : UInt8) ≠ refSticky := by decide
            simp only [again, fresh, if_true, ne_eq, sticky, not_false_eq_true]
            obtain ⟨rep', recounts, change⟩ := rep.new_count takes kept found' chunk rfl
            refine .shared rep' ours ?_ change
            rw [count_none chunk rfl]
            exact recounts
      · simp only [nothing, if_true]
        exact .refused rep fun _ => ⟨chunk, all_seen unseen⟩

/-- Dropping a reference: one less, or the frame had no extra reference. -/
inductive UnrefOutcome (m : State) (f : Nat) : State × Int → Prop where
  | dropped {m' : State} {value : Nat} (kept : Rep m') (ours : managed m f = true) (was : 0 < count m f)
      (recounts : Recounts m m' f value) (less : value = if count m f = 255 then 255 else count m f - 1)
      (chunk : ChunkChange m m' (f / 4096)) : UnrefOutcome m f (m', 1)
  | last (kept : Rep m) (was : count m f = 0) : UnrefOutcome m f (m, 0)

/-- The chunk of `f` gives up its frame: the count is stored as zero, the slot is
emptied, and the frame that backed the chunk goes back to the allocator. -/
theorem Rep.drop_chunk {n : State} (rep : Rep m) (found : secOf m f = some s) (chunk : chunkAt m (f / 4096) = some p)
    (was : m.mem p (f % 4096) ≠ 0) (alone : nonzeros (m.mem p) = 1)
    (sec : n.sec = update m.sec (f / 2 ^ 18) (some { s with
      refs := update s.refs (f % 2 ^ 18 / 4096) none
      refsUsed := update s.refsUsed (f % 2 ^ 18 / 4096) 0 }))
    (nsec : n.nsec = m.nsec) (sectioned : n.sectioned = m.sectioned) (frames : n.freeFrames = m.freeFrames)
    (mem : n.mem = update m.mem p (update (m.mem p) (f % 4096) 0)) :
    ∃ t, secOf n p = some t ∧
      Rep (giveFrame n (p / 2 ^ 18) (secMark t (p % 2 ^ 18) (p % 2 ^ 18 + 1) false).1) ∧
      Recounts m (giveFrame n (p / 2 ^ 18) (secMark t (p % 2 ^ 18) (p % 2 ^ 18 + 1) false).1) f 0 ∧
      ChunkChange m (giveFrame n (p / 2 ^ 18) (secMark t (p % 2 ^ 18) (p % 2 ^ 18 + 1) false).1) (f / 4096) := by
  have number := nonzeros_update (m.mem p) (Nat.mod_lt f (show 4096 > 0 by decide)) 0
  rw [if_pos was, if_neg (fun different => different rfl)] at number
  obtain ⟨ours, busy⟩ := rep.held _ p chunk
  obtain ⟨kept, recounts, now, free⟩ := rep.recount (m.mem p) found ⟨sec, nsec, sectioned⟩ frames mem (by omega)
    (by rw [if_pos rfl]) ⟨ours, busy⟩ (fun q other taken => other (rep.distinct q _ p taken chunk))
    (fun g same => count_of chunk same) (Or.inr chunk)
  have idle : ∀ q, chunkAt n q ≠ some p := by
    intro q taken
    by_cases same : q = f / 4096
    · rw [same, now] at taken
      cases taken
    · rw [recounts.chunks q same] at taken
      exact same (rep.distinct q _ p taken chunk)
  have still := (recounts.managed p).trans ours
  cases found' : secOf n p with
  | none =>
    rw [managed, found'] at still
    cases still
  | some t =>
    have used : t.used (p % 2 ^ 18) = true := by
      have taken := (free p).trans busy
      rw [isFree, found', Bool.not_eq_false'] at taken
      exact taken
    obtain ⟨result, gives⟩ := kept.give found' used idle (.refl _)
    refine ⟨t, rfl, result, ⟨gives.sectioned.trans recounts.sectioned, gives.nsec.trans recounts.nsec, ?_, ?_, ?_, ?_, ?_⟩, ?_⟩
    · intro g
      exact (gives.managed g).trans (recounts.managed g)
    · exact (gives.toSame.count f).trans recounts.here
    · intro g other
      exact (gives.toSame.count g).trans (recounts.others g other)
    · intro q other
      exact (gives.chunks q).trans (recounts.chunks q other)
    · intro p' before _
      rw [gives.mem]
      exact recounts.mem p' before (by rw [now]; exact some_ne_none p' ∘ Eq.symm)
    · refine .dropped p chunk ((gives.chunks _).trans now) ?_
      intro g
      rw [gives.bits, free]

theorem refChunkPut_spec (rep : Rep m) (found : secOf m f = some s) (chunk : chunkAt m (f / 4096) = some p)
    (was : m.mem p (f % 4096) ≠ 0)
    (result : m' = refChunkPut (setCount m (p, f % 4096) 0) (f / 2 ^ 18) (f % 2 ^ 18 / 4096)) :
    Rep m' ∧ Recounts m m' f 0 ∧ ChunkChange m m' (f / 4096) := by
  obtain ⟨slot, used, positive⟩ := rep.chunk_used found chunk
  obtain ⟨inside, present⟩ := secOf_some found
  have bound := nonzeros_le (m.mem p)
  have less : (s.refsUsed (f % 2 ^ 18 / 4096) + 2 ^ 16 - 1) % 2 ^ 16 = nonzeros (m.mem p) - 1 := by omega
  have here : (setCount m (p, f % 4096) 0).sec (f / 2 ^ 18) = some s := present
  unfold refChunkPut at result
  simp only [here, less] at result
  by_cases alone : nonzeros (m.mem p) = 1
  · have gone : nonzeros (m.mem p) - 1 = 0 := by omega
    rw [gone] at result
    simp only [ne_eq, not_true, if_false, slot, getD_some] at result
    obtain ⟨t, found', kept, recounts, change⟩ := rep.drop_chunk found chunk was alone
      (n := { setSec (setCount m (p, f % 4096) 0) (f / 2 ^ 18) { s with
        refs := update s.refs (f % 2 ^ 18 / 4096) none
        refsUsed := update s.refsUsed (f % 2 ^ 18 / 4096) 0 } with
          refChunks := (setSec (setCount m (p, f % 4096) 0) (f / 2 ^ 18) s).refChunks - 1 }) rfl rfl rfl rfl rfl
    simp only [setSec, setCount] at result found' kept recounts change
    simp only [found'] at result
    rw [result]
    exact ⟨kept, recounts, change⟩
  · have more : nonzeros (m.mem p) - 1 ≠ 0 := by omega
    simp only [ne_eq, more, not_false_eq_true, if_true] at result
    subst result
    refine rep.kept_count (v := 0) found chunk ⟨rfl, rfl, rfl⟩ rfl rfl ?_ more
    rw [if_pos was, if_neg (fun different => different rfl)]
    omega

theorem unrefFrame_spec (rep : Rep m) (on : m.sectioned = true) (addr : Nat) :
    UnrefOutcome m (addr / frameSize) (unrefFrame m addr) := by
  unfold unrefFrame
  generalize addr / frameSize = f
  cases chunk : chunkAt m (f / 4096) with
  | none =>
    simp only [refSlot_none on chunk]
    exact .last rep (count_none chunk rfl)
  | some p =>
    simp only [refSlot_some on chunk]
    have value := count_of chunk (show f / 4096 = f / 4096 from rfl)
    cases found : secOf m f with
    | none =>
      rw [chunkAt_unmanaged found] at chunk
      exact nomatch chunk
    | some s =>
      have ours : managed m f = true := by rw [managed, found]; rfl
      by_cases zero : m.mem p (f % 4096) = 0
      · rw [zero] at value ⊢
        simp only [gt_iff_lt, UInt8.lt_irrefl, if_false]
        exact .last rep value
      · have positive : m.mem p (f % 4096) > 0 := UInt8.pos_iff_ne_zero.mpr zero
        have was : 0 < count m f := value ▸ Nat.pos_of_ne_zero (byte_ne_zero zero)
        simp only [positive, if_true]
        by_cases full : m.mem p (f % 4096) = refSticky
        · simp only [full, ne_eq, not_true, if_false]
          rw [full] at value
          exact .dropped rep ours was (.same m f) (by rw [value]; rfl) (.kept rfl fun _ => rfl)
        · simp only [full, ne_eq, not_false_eq_true, if_true]
          have apart : (m.mem p (f % 4096)).toNat ≠ 255 := fun equal => full (UInt8.toNat_inj.mp equal)
          have next : (m.mem p (f % 4096) - 1).toNat = (m.mem p (f % 4096)).toNat - 1 := by
            have one : (1 : UInt8) ≤ m.mem p (f % 4096) :=
              UInt8.le_iff_toNat_le.mpr (show 1 ≤ _ from Nat.pos_of_ne_zero (byte_ne_zero zero))
            rw [UInt8.toNat_sub_of_le _ _ one]
            rfl
          by_cases last : m.mem p (f % 4096) - 1 = 0
          · rw [last] at next ⊢
            simp only [if_true]
            obtain ⟨kept, recounts, change⟩ := refChunkPut_spec rep found chunk zero rfl
            refine .dropped kept ours was recounts ?_ change
            rw [value, if_neg apart, ← next]
            rfl
          · simp only [last, if_false]
            obtain ⟨kept, recounts, change⟩ := rep.store_count found chunk zero last
            refine .dropped kept ours was recounts ?_ change
            rw [value, if_neg apart, next]

end
end SecOS.Pmm
