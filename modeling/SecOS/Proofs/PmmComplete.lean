import SecOS.Proofs.PmmRun

/-! Which requests the sectioned allocator serves. A single frame is looked for only in as many
sections as the limit covers, and that number wraps near the end of the address space. -/

namespace SecOS.Pmm
open Library

section
variable {m : State}

/-- The address of frame 0 stands for a failure, so it must never be handed out. -/
theorem address_ne {m' : State} {f n : Nat} (reserved : isFree m 0 = false) (takes : Takes m m' f n) (some_ : 0 < n) :
    f * frameSize ≠ 0 := by
  have free := takes.was f le_rfl (by omega)
  have origin : f ≠ 0 := by
    rintro rfl
    exact Bool.noConfusion (free.symm.trans reserved)
  unfold frameSize
  omega

/-- What a caller of `alloc_frame_nolock_below` relies on. -/
structure FrameServed (m : State) (limit : Nat) (result : State × Nat) : Prop where
  refused : result.2 = 0 → ∀ g, Below limit 1 g → isFree m g = false
  given : result.2 ≠ 0 → ∃ f, result.2 = f * frameSize ∧ Takes m result.1 f 1 ∧ Below limit 1 f
  zoned : limit = noLimit → result.2 ≠ 0 → result.2 < dma32Limit → ∀ g, 2 ^ 20 ≤ g → isFree m g = false

/-- The frames above 4 GiB that are not looked at: all of them for a limit in the last GiB of
the address space, those above 2^63 bytes without a limit. -/
def Skipped (limit f : Nat) : Prop := 2 ^ 20 ≤ f ∧ if limit = noLimit then 2 ^ 51 ≤ f else 2 ^ 64 - 2 ^ 30 < limit

theorem unseen_iff_skipped {limit f : Nat} (word : limit < 2 ^ 64) (below : Below limit 1 f) : Unseen limit f ↔ Skipped limit f := by
  unfold Unseen Skipped secCountBelow dma32Limit
  unfold Below noLimit frameSize at *
  split <;> omega

/-- Only skipped frames would do: all the others below the limit are used, but for those below
4 GiB that a caller without a limit should get last. -/
def Starved (m : State) (limit : Nat) : Prop :=
  (∃ g, isFree m g = true ∧ Below limit 1 g ∧ Skipped limit g) ∧
    ∀ g, isFree m g = true → Below limit 1 g → ¬Skipped limit g → limit = noLimit ∧ g < 2 ^ 20

end

/-- One section, in which only the frame at `address` is free. -/
def oneFrame (index address : Nat) : State :=
  freeFrame { tinyBoot with sectioned := true, nsec := index + 1, sec := fun i => if i = index then some emptySection else none } address

theorem oneFrame_rep (index address : Nat) (few : index < 5) : Rep (oneFrame index address) ∧ (oneFrame index address).sectioned = true := by
  have described := described_rep
    (m := { tinyBoot with sectioned := true, nsec := index + 1, sec := fun i => if i = index then some emptySection else none })
    ⟨rfl, fun i s found => by simp only at found; split at found <;> cases found; rfl⟩ (by simp only; omega) rfl
  have freed := freeContiguous_spec described.1 rfl address 1 (fun f _ _ q chunk => nomatch (described.2 q).symm.trans chunk)
  exact ⟨freed.1, freed.2.1.sectioned⟩

/-- One free frame, at 4 GiB. -/
def highMemory : State := oneFrame 4 (2 ^ 32)

theorem highMemory_rep : Rep highMemory ∧ highMemory.sectioned = true := oneFrame_rep 4 _ (by decide)

/-- With frame 0 in use, a run is returned exactly when a section has one below the limit; its
frames were free, and they and no others become used. -/
theorem run_served {m : State} (rep : Rep m) (on : m.sectioned = true) (reserved : isFree m 0 = false) (count limit : Nat)
    (asked : 1 ≤ count) :
    ((allocRunNolockBelow m count limit).2 ≠ 0 ↔ ∃ f, RunAt m count f ∧ Below limit count f) ∧
      ((allocRunNolockBelow m count limit).2 = 0 → (allocRunNolockBelow m count limit).1 = m) ∧
      ((allocRunNolockBelow m count limit).2 ≠ 0 → ∃ f, (allocRunNolockBelow m count limit).2 = f * frameSize ∧
        RunAt m count f ∧ Below limit count f ∧
        ∀ g, isFree (allocRunNolockBelow m count limit).1 g = if f ≤ g ∧ g < f + count then false else isFree m g) := by
  rcases allocRunNolockBelow_spec rep on count limit with ⟨f, address, _, takes, below, fits⟩ | ⟨nothing, absent⟩
  · have some_ : (allocRunNolockBelow m count limit).2 ≠ 0 := address ▸ address_ne reserved takes asked
    have run : RunAt m count f := ⟨fits, takes.was⟩
    exact ⟨⟨fun _ => ⟨f, run, below⟩, fun _ => some_⟩, fun zero => absurd zero some_, fun _ => ⟨f, address, run, below, takes.bits⟩⟩
  · rw [nothing]
    exact ⟨⟨fun some_ => absurd rfl some_, fun ⟨f, run, below⟩ => absurd run (absent asked f below)⟩, fun _ => rfl,
      fun some_ => absurd rfl some_⟩

theorem tiny_run_served : ∃ f, RunAt (lateInit tinyBoot) 3 f ∧ Below (2 ^ 32) 3 f :=
  have on : (lateInit tinyBoot).sectioned = true := by decide +kernel
  (run_served (lateInit_rep rfl on).1 on (by decide +kernel) 3 (2 ^ 32) (by decide)).1.mp (by decide +kernel)

/-- After `pmm_free_frame(NULL)` frame 0 is free; it is taken, and the answer is that of a failure. -/
theorem frame_zero_lost : Rep (oneFrame 0 0) ∧ RunAt (oneFrame 0 0) 1 0 ∧ (allocRunNolockBelow (oneFrame 0 0) 1 (2 ^ 32)).2 = 0 ∧
    isFree (allocRunNolockBelow (oneFrame 0 0) 1 (2 ^ 32)).1 0 = false := by
  have free : isFree (oneFrame 0 0) 0 = true := by decide +kernel
  refine ⟨(oneFrame_rep 0 0 (by decide)).1, ⟨by decide, fun g low high => ?_⟩, by decide +kernel, by decide +kernel⟩
  obtain rfl : g = 0 := by omega
  exact free

end SecOS.Pmm
