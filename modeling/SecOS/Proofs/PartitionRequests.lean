import SecOS.Library.Schedule
import SecOS.Partition

/-! Which requests to a partition stay inside it. The bound is checked on a sum that wraps,
and the entries of a GPT are never compared with the size of the disk; those of an MBR are. -/

namespace SecOS.Partition
open Library

def Inside (disk : Disk) (p : Part) (lba count : Nat) : Prop :=
  ∀ s, lba ≤ s → s < lba + count → s < p.sectorCount ∧ p.startLba + s < disk.sectorCount

/-- Sectors reach the parent only from the partition and on the disk, and a request for others
is an error. -/
structure Confined (disk : Disk) (p : Part) (lba count : Nat) (outcome : Outcome) : Prop where
  only : ∀ at' n, outcome = .passed at' n → ∀ s, at' ≤ s → s < at' + n →
    p.startLba ≤ s ∧ s < p.startLba + p.sectorCount ∧ s < disk.sectorCount
  refused : ¬Inside disk p lba count → outcome = .refused

/-- Nothing is asked for, or the sum that is checked exceeds the partition, or it does not wrap
and the request ends on the disk. -/
def Contained (disk : Disk) (p : Part) (lba count : Nat) : Prop :=
  count = 0 ∨ p.sectorCount < (lba + count) % 2 ^ 64 ∨ lba + count < 2 ^ 64 ∧ p.startLba + lba + count ≤ disk.sectorCount

section
variable {disk : Disk} {p : Part} {lba count : Nat}

theorem confined_nothing (none : count = 0) : Confined disk p lba count .nothing :=
  ⟨nofun, fun outside => absurd (fun s low high => by omega) outside⟩

theorem confined_refused : Confined disk p lba count .refused := ⟨nofun, fun _ => rfl⟩

theorem confined_passed (small : lba < 2 ^ 64) (some : count ≠ 0) (checked : (lba + count) % 2 ^ 64 ≤ p.sectorCount) :
    Confined disk p lba count (.passed ((p.startLba + lba) % 2 ^ 64) count) ↔
      lba + count < 2 ^ 64 ∧ p.startLba + lba + count ≤ disk.sectorCount := by
  have limit := disk.small
  constructor
  · intro confined
    have first := confined.only _ _ rfl ((p.startLba + lba) % 2 ^ 64) le_rfl (by omega)
    have last := confined.only _ _ rfl ((p.startLba + lba) % 2 ^ 64 + count - 1) (by omega) (by omega)
    -- An address that wraps lies below the partition.
    have straight : p.startLba + lba < 2 ^ 64 := by
      by_contra wraps
      omega
    rw [Nat.mod_eq_of_lt straight] at last
    omega
  · rintro ⟨straight, ends⟩
    rw [Nat.mod_eq_of_lt straight] at checked
    rw [Nat.mod_eq_of_lt (by omega)]
    refine ⟨fun at' n passed s low high => ?_, fun outside => absurd (fun s low high => by omega) outside⟩
    cases passed
    omega

theorem partRead_confined (small : lba < 2 ^ 64) : Confined disk p lba count (partRead p lba count) ↔ Contained disk p lba count := by
  unfold partRead Contained
  split
  next none => exact ⟨fun _ => .inl none, fun _ => confined_nothing none⟩
  next some =>
    split
    next excess => exact ⟨fun _ => .inr (.inl excess), fun _ => confined_refused⟩
    next checked =>
      rw [confined_passed small some (by omega)]
      refine ⟨fun inside => .inr (.inr inside), fun contained => ?_⟩
      rcases contained with none | excess | inside
      · exact absurd none some
      · exact absurd excess checked
      · exact inside

theorem partWrite_confined (small : lba < 2 ^ 64) :
    Confined disk p lba count (partWrite disk p lba count) ↔ disk.writable = false ∨ Contained disk p lba count := by
  have reads : Confined disk p lba count (partRead p lba count) ↔ Contained disk p lba count := partRead_confined small
  unfold partRead at reads
  unfold partWrite
  split
  next none => exact ⟨fun _ => .inr (.inl none), fun _ => confined_nothing none⟩
  next some =>
    rw [if_neg some] at reads
    split
    next excess => exact ⟨fun _ => .inr (.inr (.inl excess)), fun _ => confined_refused⟩
    next checked =>
      rw [if_neg checked] at reads
      cases writes : disk.writable with
      | false => exact ⟨fun _ => .inl rfl, fun _ => confined_refused⟩
      | true =>
        rw [Bool.not_true, if_neg Bool.false_ne_true, reads]
        exact ⟨.inr, fun contained => contained.elim nofun id⟩

end

/-- The first entry of the table in sector 0 hands over to a GPT. -/
def Protective (disk : Disk) : Prop := ∃ sec0, disk.read 0 = some sec0 ∧ sec0 450 = 0xEE

def Listed (disks : Nat → Disk) (p : Part) : Prop :=
  ¬Protective (disks p.parent) → p.startLba + p.sectorCount ≤ (disks p.parent).sectorCount

section
variable {disks : Nat → Disk} {s : State} {parent : Nat}

theorem addPartition_listed (listed : ∀ p ∈ s.parts, Listed disks p) (disk : Disk) (start count num : Nat)
    (new : ¬Protective (disks parent) → start + count ≤ (disks parent).sectorCount) :
    ∀ p ∈ (addPartition s parent disk start count num).1.parts, Listed disks p := by
  unfold addPartition
  split
  · exact listed
  split
  · exact listed
  intro p member
  rcases List.mem_append.mp member with old | added
  · exact listed p old
  · rw [List.mem_singleton.mp added]
    exact new

variable {st : State × Nat}

theorem mbrEntry_listed (listed : ∀ p ∈ st.1.parts, Listed disks p) (sec0 : Bytes) (i : Nat) :
    ∀ p ∈ (mbrEntry parent (disks parent) sec0 st i).1.parts, Listed disks p := by
  unfold mbrEntry
  dsimp only
  split
  · exact listed
  split
  · exact listed
  · exact addPartition_listed listed _ _ _ _ fun _ => by omega

theorem probeMbr_listed (listed : ∀ p ∈ s.parts, Listed disks p) (sec0 : Bytes) :
    ∀ p ∈ (probeMbr s parent (disks parent) sec0).1.parts, Listed disks p := by
  unfold probeMbr
  split
  · exact listed
  · exact foldl_invariant (P := fun st : State × Nat => ∀ p ∈ st.1.parts, Listed disks p)
      (fun st i kept => mbrEntry_listed kept sec0 i) (List.range 4) listed

/-! Behind a protective entry nothing is asked of a partition. -/

section
variable (protective : Protective (disks parent))
include protective

theorem gptEntry_listed (listed : ∀ p ∈ s.parts, Listed disks p) (e : Bytes) (num : Nat) :
    ∀ p ∈ (gptEntry s parent (disks parent) e num).1.parts, Listed disks p := by
  unfold gptEntry
  dsimp only
  split
  · exact listed
  split
  · exact listed
  · exact addPartition_listed listed _ _ _ _ fun plain => absurd protective plain

theorem gptEntries_listed (sec : Bytes) (entSz numEnt left j i : Nat)
    (listed : ∀ p ∈ st.1.parts, Listed disks p) :
    ∀ p ∈ (gptEntries parent (disks parent) sec entSz numEnt left j i st).1.parts, Listed disks p := by
  induction left generalizing j i st with
  | zero => exact listed
  | succ left ih =>
    unfold gptEntries
    split
    · have entry := gptEntry_listed protective listed (sec.drop (j * entSz)) (i + 1)
      generalize gptEntry st.1 parent (disks parent) (sec.drop (j * entSz)) (i + 1) = r at entry
      obtain ⟨s', n⟩ := r
      exact ih _ _ entry
    · exact listed

theorem gptSectors_listed (entLba entSz perSec numEnt rounds i : Nat)
    (listed : ∀ p ∈ st.1.parts, Listed disks p) :
    ∀ p ∈ (gptSectors parent (disks parent) entLba entSz perSec numEnt rounds i st).1.parts, Listed disks p := by
  induction rounds generalizing i st with
  | zero => exact listed
  | succ rounds ih =>
    unfold gptSectors
    split
    · split
      · exact listed
      next sec _ => exact ih _ (gptEntries_listed protective sec entSz numEnt perSec 0 i listed)
    · exact listed

theorem probeGpt_listed (listed : ∀ p ∈ s.parts, Listed disks p) :
    ∀ p ∈ (probeGpt s parent (disks parent)).1.parts, Listed disks p := by
  unfold probeGpt
  split
  · exact listed
  split
  · exact listed
  dsimp only
  split
  · exact listed
  · exact gptSectors_listed protective _ _ _ _ _ _ listed

end

theorem probe_listed (listed : ∀ p ∈ s.parts, Listed disks p) (parent : Nat) :
    ∀ p ∈ (blockProbePartitions disks s parent).1.parts, Listed disks p := by
  unfold blockProbePartitions
  dsimp only
  split
  · exact listed
  have noted : ∀ p ∈ (if s.probed.length < maxProbed then { s with probed := s.probed ++ [parent] } else s).parts, Listed disks p := by
    split
    · exact listed
    · exact listed
  generalize (if s.probed.length < maxProbed then { s with probed := s.probed ++ [parent] } else s) = s at noted
  split
  · exact noted
  split
  · exact noted
  next sec0 found =>
    split
    · exact noted
    split
    next protective =>
      have handed : Protective (disks parent) := ⟨sec0, found, protective⟩
      have gpt := probeGpt_listed handed noted
      split
      next result =>
        rw [result] at gpt
        exact probeMbr_listed gpt sec0
      next result =>
        rw [result] at gpt
        exact gpt
    · exact probeMbr_listed noted sec0

theorem probeAll_listed (disks : Nat → Disk) (devs : Nat) (parents : List Nat) : ∀ p ∈ (probeAll disks devs parents).parts, Listed disks p :=
  foldl_invariant (P := fun s : State => ∀ p ∈ s.parts, Listed disks p) (fun _ parent listed => probe_listed listed parent) parents
    (fun _ member => nomatch member)

end

/-- For every content of the tables, every registered partition and every request: it is confined
exactly when it does not wrap into the partition and ends on the disk. A partition of a plain
MBR lies on the disk, so there the sum only has to stay below 2^64. -/
theorem partition_confined_iff (disks : Nat → Disk) (devs : Nat) (parents : List Nat) (p : Part)
    (member : p ∈ (probeAll disks devs parents).parts) (lba count : Nat) (small : lba < 2 ^ 64) :
    (Confined (disks p.parent) p lba count (partRead p lba count) ↔ Contained (disks p.parent) p lba count) ∧
      (Confined (disks p.parent) p lba count (partWrite (disks p.parent) p lba count) ↔
        (disks p.parent).writable = false ∨ Contained (disks p.parent) p lba count) ∧
      (¬Protective (disks p.parent) → lba + count < 2 ^ 64 → Contained (disks p.parent) p lba count) := by
  refine ⟨partRead_confined small, partWrite_confined small, fun plain straight => ?_⟩
  have listed := probeAll_listed disks devs parents p member plain
  unfold Contained
  rw [Nat.mod_eq_of_lt straight]
  omega

def smallDisk : Disk where
  name := [0x73, 0x64, 0x61]
  sectorSize := 512
  sectorCount := 64
  writable := true
  read := fun lba => if lba = 0 then some fun i => [(450, 0x83), (454, 8), (458, 16), (510, 0x55), (511, 0xAA)].lookup i |>.getD 0 else none
  small := by decide

def smallPart : Part := ⟨[0x73, 0x64, 0x61, 0x31], 0, 8, 512, 16, true⟩

private theorem smallPart_registered : smallPart ∈ (probeAll (fun _ => smallDisk) 1 [0]).parts := by
  have parts : (probeAll (fun _ => smallDisk) 1 [0]).parts = [smallPart] := by rfl
  rw [parts]
  exact List.mem_singleton_self _

/-- A read of the last two sectors and one that ends behind them. -/
theorem small_reads_confined : Confined smallDisk smallPart 14 2 (partRead smallPart 14 2) ∧ Confined smallDisk smallPart 15 2 (partRead smallPart 15 2) := by
  have last := partition_confined_iff (fun _ => smallDisk) 1 [0] smallPart smallPart_registered 14 2 (by decide)
  have excess := partition_confined_iff (fun _ => smallDisk) 1 [0] smallPart smallPart_registered 15 2 (by decide)
  exact ⟨last.1.mpr (by unfold Contained; decide), excess.1.mpr (by unfold Contained; decide)⟩

/-- The last sector number of 64 bits: the sum is 0, and the parent is asked for the sector
before the partition. -/
theorem wrapped_read_escapes : smallPart ∈ (probeAll (fun _ => smallDisk) 1 [0]).parts ∧
    partRead smallPart (2 ^ 64 - 1) 1 = .passed 7 1 ∧ ¬Confined smallDisk smallPart (2 ^ 64 - 1) 1 (partRead smallPart (2 ^ 64 - 1) 1) := by
  refine ⟨smallPart_registered, by decide, fun confined => ?_⟩
  have below := confined.only 7 1 (by decide) 7 le_rfl (by decide)
  exact absurd below.1 (by decide)

end SecOS.Partition
