import SecOS.Proofs.MachineBalance

/-! Copy on write is safe: in every state that faults, forks, protections and unmaps reach, the
leaves agree with the reference counts, and a frame that one process can write is no other's. -/

namespace SecOS.Machine
open Library Pmm Vmm PageCache Function List

/-- What the boot code hands over: the allocator has been switched to sections, physical
addresses have 52 bits, the frames from 0 to the kernel's end are reserved, and device
memory is not handed out. -/
structure Ready (device : Nat → Prop) (boot : Pmm.State) : Prop where
  late : boot.sectioned = false
  ready : (lateInit boot).sectioned = true
  size : (lateInit boot).nsec ≤ 2 ^ 22
  low : isFree (lateInit boot) 0 = false
  apart : ∀ f, device f → isFree (lateInit boot) f = false

section
variable {device : Nat → Prop} {boot : Pmm.State}

private theorem cached_empty (f : Nat) : cached emptyCache f = 0 := Finset.sum_eq_zero fun _ _ => owns_none f

theorem booted_balanced (ready : Ready device boot) : Balanced device (booted boot) := by
  obtain ⟨rep, chunkless⟩ := lateInit_rep ready.late ready.ready
  have zero : ∀ f, count (lateInit boot) f = 0 := fun f => count_none (chunkless _) rfl
  have unowned : ∀ f, heldBy [] f + cached emptyCache f + tablesOf [] f = 0 := by
    intro f
    rw [cached_empty]
    rfl
  have none : ∀ {q f}, chunkAt (lateInit boot) q ≠ some f := by
    intro q f taken
    rw [chunkless q] at taken
    exact nomatch taken
  refine ⟨⟨rep, ready.ready, ready.size, ⟨ready.low, fun _ => none⟩, ?_, fun q f taken => absurd taken none, ?_, ?_, ?_⟩, ?_, ?_, ?_, ?_⟩
  · intro f free
    refine ⟨rfl, unowned f, zero f, ?_⟩
    intro special
    rw [booted, ready.apart f special] at free
    exact nomatch free
  · intro f posted
    have total := unowned f
    change 0 < 0 + (heldBy [] f + cached emptyCache f + tablesOf [] f) at posted
    omega
  · intro f posted
    have total := unowned f
    change 0 < heldBy [] f + cached emptyCache f + tablesOf [] f at posted
    omega
  · exact fun f => .inr (zero f)
  · exact fun _ _ valid => nomatch valid
  · exact fun _ member => nomatch member
  · exact fun _ member => nomatch member
  · exact fun _ member => nomatch member

/-- A megabyte of usable memory above one reserved megabyte, and no device. -/
def smallBoot : Pmm.State :=
  { tinyBoot with avail := [⟨0x100000, 0x200000⟩], earlyTop := fun _ => 0x200000, maxPhys := 0x200000 }

theorem smallBoot_ready : Ready (fun _ => False) smallBoot :=
  ⟨rfl, by decide +kernel, by decide +kernel, by decide +kernel, fun _ never => never.elim⟩

def heapPage : Vma := ⟨0x280000000, 0x280001000, ⟨flagUser ||| flagRw ||| flagNoexec, dataFlags_plain⟩, .anon, 0, 0, 0, 0, 0, 0, 0⟩

def noFiles : Vma.Env := ⟨fun _ => 0, ⟨fun _ => false, fun _ => 0, fun _ _ => 0⟩⟩

def forkRun : List Op := [.create true, .faultIn 0 noFiles heapPage 0x280000000, .fork 0 true]

private theorem forkRun_legal : ∀ op ∈ forkRun ++ [.cowFault 0 0x280000000 (some (flagUser ||| flagRw ||| flagNoexec))],
    Legal (fun _ => False) op := by
  intro op member
  simp only [forkRun, cons_append, nil_append, mem_cons, not_mem_nil, or_false] at member
  rcases member with rfl | rfl | rfl | rfl
  · trivial
  · exact ⟨mem_window.mpr (by decide), nofun⟩
  · trivial
  · trivial

/-- In every reachable state a frame held by a user leaf is in use, and the leaves that hold
it, over all live spaces, are one more than the references stored for it, unless the
stored count has stuck at its maximum. -/
theorem leaves_match_references (ready : Ready device boot) (ops : List Op) (legal : ∀ op ∈ ops, Legal device op) (f : Nat)
    (held : ∃ s ∈ (run (booted boot) ops).spaces, ∃ page ∈ window, owner (s.pte page) = some f) :
    (count (run (booted boot) ops).pmm f = 255 ∨
        leavesOf (run (booted boot) ops).spaces f = 1 + count (run (booted boot) ops).pmm f) ∧
      managed (run (booted boot) ops).pmm f = true ∧ isFree (run (booted boot) ops).pmm f = false := by
  have balanced := run_balanced (booted_balanced ready) ops legal
  generalize run (booted boot) ops = w at held balanced
  obtain ⟨s, member, page, inside, held⟩ := held
  have counted := leaf_counted inside held
  have bound := leaves_le member f
  refine ⟨?_, (balanced.acc.owned f (by omega)).1, (balanced.acc.held (by omega)).1⟩
  rcases balanced.acc.counts f with sticky | counts
  · exact .inl sticky
  · exact .inr (by omega)

theorem references_after_fork :
    leavesOf (run (booted smallBoot) forkRun).spaces 258 = 1 + count (run (booted smallBoot) forkRun).pmm 258 := by
  have leaves : ((run (booted smallBoot) forkRun).spaces.map fun s => owner (s.pte 0x280000)) = [some 258, some 258] := by decide +kernel
  obtain ⟨s, rest, shape, held, _⟩ := List.map_eq_cons_iff.mp leaves
  have member : s ∈ (run (booted smallBoot) forkRun).spaces := by
    rw [shape]
    exact mem_cons_self
  have outcome := leaves_match_references smallBoot_ready forkRun
    (fun op member => forkRun_legal op (mem_append_left _ member)) 258 ⟨s, member, 0x280000, mem_window.mpr (by decide), held⟩
  have one : count (run (booted smallBoot) forkRun).pmm 258 = 1 := by decide +kernel
  rcases outcome.1 with sticky | counts
  · rw [one] at sticky
    exact absurd sticky (by decide)
  · exact counts

private theorem writable_alone {w : World} {i j page q : Nat} {s t : Space} (balanced : Balanced device w) (found : w.spaces[i]? = some s)
    (inside : page ∈ window) (writes : writable (s.pte page) = true) (found' : w.spaces[j]? = some t) (inside' : q ∈ window)
    (taken : pteHasFrame (t.pte q) = true) (same : ptePhys (t.pte q) = ptePhys (s.pte page)) : j = i ∧ q = page := by
  have held : owner (s.pte page) = some (ptePhys (s.pte page) / frameSize) := by
    unfold writable at writes
    rw [Bool.and_eq_true, Bool.and_eq_true, Bool.not_eq_true'] at writes
    refine owner_some.mpr ⟨?_, writes.2, rfl⟩
    rw [pteHasFrame_eq, ← has_present, writes.1.1, Bool.true_or]
  have one := balanced.alone s (mem_of_getElem? found) page inside _ writes held
  have counted := leaf_counted inside held
  have held' : owner (t.pte q) = some (ptePhys (s.pte page) / frameSize) := by
    cases marked : (t.pte q).has flagDevice with
    | false => exact owner_some.mpr ⟨taken, marked, by rw [same]⟩
    | true =>
      -- Device memory is apart from every frame a leaf owns.
      have special := (balanced.plain t (mem_of_getElem? found') q inside' taken marked).2
      rw [same] at special
      exact absurd special (balanced.acc.owned _ (by omega)).2.2
  have counted' := leaf_counted inside' held'
  obtain ⟨m, c, spaces, kernel⟩ := w
  obtain ⟨pre, post, rfl, rfl⟩ := split_at found
  simp only [leavesOf_cons] at one
  by_cases here : j = pre.length
  · subst here
    obtain rfl : s = t := Option.some.inj (found.symm.trans found')
    refine ⟨rfl, ?_⟩
    by_contra apart
    have twice := leaves_twice inside' inside apart held' held
    omega
  · have other : t ∈ pre ++ post := by
      rw [← erase_at pre post s]
      exact List.mem_eraseIdx_iff_getElem?.mpr ⟨j, here, found'⟩
    have bound := leaves_le other (ptePhys (s.pte page) / frameSize)
    omega

/-- In every reachable state a present writable leaf is the only leaf, over all live spaces,
on its frame, and what its process stores is never seen by another one. -/
theorem writer_is_alone (ready : Ready device boot) (ops : List Op) (legal : ∀ op ∈ ops, Legal device op) (i page : Nat) (s : Space)
    (found : (run (booted boot) ops).spaces[i]? = some s) (inside : page ∈ window) (writes : writable (s.pte page) = true) :
    (∀ j t q, (run (booted boot) ops).spaces[j]? = some t → q ∈ window → pteHasFrame (t.pte q) = true →
        ptePhys (t.pte q) = ptePhys (s.pte page) → j = i ∧ q = page) ∧
      ∀ j t addr addr' value, (run (booted boot) ops).spaces[j]? = some t → j ≠ i → addr / 4096 = page → addr' / 4096 ∈ window →
        load (store (run (booted boot) ops).pmm s addr value) t addr' = load (run (booted boot) ops).pmm t addr' := by
  have balanced := run_balanced (booted_balanced ready) ops legal
  generalize run (booted boot) ops = w at found balanced
  refine ⟨fun j t q found' inside' taken same => writable_alone balanced found inside writes found' inside' taken same, ?_⟩
  intro j t addr addr' value found' other here inside'
  unfold load
  cases present : (t.pte (addr' / 4096)).has flagPresent with
  | false => simp [present]
  | true =>
    have taken : pteHasFrame (t.pte (addr' / 4096)) = true := by rw [pteHasFrame_eq, ← has_present, present, Bool.true_or]
    have apart : ptePhys (t.pte (addr' / 4096)) / frameSize ≠ ptePhys (s.pte page) / frameSize := by
      intro same
      have equal : ptePhys (t.pte (addr' / 4096)) = ptePhys (s.pte page) := by
        rw [← ptePhys_aligned, same, ptePhys_aligned]
      exact other (writable_alone balanced found inside writes found' inside' taken equal).1
    have stored : store w.pmm s addr value = { w.pmm with
        mem := update w.pmm.mem (ptePhys (s.pte page) / frameSize)
          (update (w.pmm.mem (ptePhys (s.pte page) / frameSize)) (addr % 4096) value) } := by
      unfold store
      rw [here]
      exact if_pos writes
    simp only [stored, update_of_ne apart]

/-- After the copy the parent writes its page, and the child still reads the old contents. -/
theorem writer_after_fork : ∃ s t : Space,
    (run (booted smallBoot) (forkRun ++ [.cowFault 0 0x280000000 (some (flagUser ||| flagRw ||| flagNoexec))])).spaces = [s, t] ∧
      writable (s.pte 0x280000) = true ∧ pteHasFrame (t.pte 0x280000) = true ∧
      load (store (run (booted smallBoot) (forkRun ++ [.cowFault 0 0x280000000 (some (flagUser ||| flagRw ||| flagNoexec))])).pmm s
          0x280000000 7) t 0x280000000 =
        load (run (booted smallBoot) (forkRun ++ [.cowFault 0 0x280000000 (some (flagUser ||| flagRw ||| flagNoexec))])).pmm t
          0x280000000 := by
  have leaves : ((run (booted smallBoot) (forkRun ++ [.cowFault 0 0x280000000 (some (flagUser ||| flagRw ||| flagNoexec))])).spaces.map
      fun s => (writable (s.pte 0x280000), pteHasFrame (s.pte 0x280000))) = [(true, true), (false, true)] := by decide +kernel
  obtain ⟨s, rest, shape, first, leaves⟩ := List.map_eq_cons_iff.mp leaves
  obtain ⟨t, rest, rfl, second, leaves⟩ := List.map_eq_cons_iff.mp leaves
  obtain rfl := List.map_eq_nil_iff.mp leaves
  refine ⟨s, t, shape, congrArg (·.1) first, congrArg (·.2) second, ?_⟩
  have inside : 0x280000 ∈ window := mem_window.mpr (by decide)
  exact (writer_is_alone smallBoot_ready _ forkRun_legal 0 0x280000 s (by rw [shape]; rfl) inside (congrArg (·.1) first)).2 1 t
    0x280000000 0x280000000 7 (by rw [shape]; rfl) (by decide) (by decide) (mem_window.mpr (by decide))

/-- `vmm_protect_in_space` keeps the frame of a leaf and adds the flags as they are: with address
bits among them it moves the leaf of one process to the frame of another, writable in both. -/
theorem protect_with_address_shares :
    ((run (booted smallBoot) [.create true, .faultIn 0 noFiles heapPage 0x280000000, .create true, .faultIn 1 noFiles heapPage 0x280000000,
        .protect 0 0x280000000 (flagUser ||| flagRw ||| flagNoexec ||| 0x5000)]).spaces.map
      fun s => (writable (s.pte 0x280000), ptePhys (s.pte 0x280000))) = [(true, 0x107000), (true, 0x107000)] := by
  decide +kernel

/-- A frame of the kernel, the page cache or the page tables has no other use and no user leaf. -/
theorem user_frames_apart (ready : Ready device boot) (ops : List Op) (legal : ∀ op ∈ ops, Legal device op) (f : Nat) :
    let w := run (booted boot) ops
    let kept := heldBy w.kernel f + cached w.cache f + tablesOf w.spaces f
    kept ≤ 1 ∧ (leavesOf w.spaces f = 0 ∨ kept = 0 ∧ ¬device f) := by
  have balanced := run_balanced (booted_balanced ready) ops legal
  have single := balanced.acc.single f
  have owned := balanced.acc.owned f
  grind

theorem forked_frames_apart : tablesOf (run (booted smallBoot) forkRun).spaces 258 ≤ 1 := by
  have apart := user_frames_apart smallBoot_ready forkRun (fun op member => forkRun_legal op (mem_append_left _ member)) 258
  omega

end
end SecOS.Machine
