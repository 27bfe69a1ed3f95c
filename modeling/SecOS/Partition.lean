import SecOS.Library.Bytes

/-! Partition tables and the devices made of them (fs/partition.c, the registry of
fs/block.c). Disks are numbered; what a disk returns for a sector does not change while its
table is read. A device that has a `read` is assumed throughout. -/

namespace SecOS.Partition
open Library

structure Disk where
  name : List UInt8
  sectorSize : Nat
  sectorCount : Nat
  writable : Bool
  /-- One sector, `none` when the driver reports anything but one sector read. -/
  read : Nat → Option Bytes
  small : sectorCount < 2 ^ 64

structure Part where
  name : List UInt8
  parent : Nat
  startLba : Nat
  sectorSize : Nat
  sectorCount : Nat
  writable : Bool

def maxParts : Nat := 16
def blockMaxDevs : Nat := 24
def maxProbed : Nat := 24

/-- What a request comes to: 0 without touching the parent, an error, or a request to the parent. -/
inductive Outcome where
  | nothing
  | refused
  | passed (lba count : Nat)
deriving DecidableEq

/-- `lba` has 64 bits, `count` 32. -/
def partRead (p : Part) (lba count : Nat) : Outcome :=
  if count = 0 then .nothing
  else if (lba + count) % 2 ^ 64 > p.sectorCount then .refused
  else .passed ((p.startLba + lba) % 2 ^ 64) count

def partWrite (parent : Disk) (p : Part) (lba count : Nat) : Outcome :=
  if count = 0 then .nothing
  else if (lba + count) % 2 ^ 64 > p.sectorCount then .refused
  else if !parent.writable then .refused
  else .passed ((p.startLba + lba) % 2 ^ 64) count

/-- `g_parts`, the number of devices in the registry, and `g_probed`. -/
structure State where
  parts : List Part
  devs : Nat
  probed : List Nat

def isDigit (c : UInt8) : Bool := 0x30 ≤ c && c ≤ 0x39

/-- Decimal digits, the last one first; `rounds` covers the number. -/
def digits : Nat → Nat → List UInt8
  | 0, _ => []
  | rounds + 1, v => if v = 0 then [] else UInt8.ofNat (0x30 + v % 10) :: digits rounds (v / 10)

/-- `<parent>p<num>`, without the `p` behind a letter. -/
def partName (parent : List UInt8) (num : Nat) : List UInt8 :=
  let base := (parent.takeWhile (· ≠ 0)).take 15
  let base := if base.getLast?.any isDigit then base ++ [0x70] else base
  let tail := if num = 0 then [0x30] else (digits num num).reverse
  (base ++ tail).take 19

def addPartition (s : State) (parent : Nat) (disk : Disk) (start count num : Nat) : State × Nat :=
  if s.parts.length ≥ maxParts ∨ count = 0 then (s, 0)
  else if s.devs ≥ blockMaxDevs then (s, 0)
  else ({ s with parts := s.parts ++ [⟨partName disk.name num, parent, start, disk.sectorSize, count, disk.writable⟩], devs := s.devs + 1 }, 1)

/-- One entry of the table: its type is not zero and its sectors are in order. -/
def gptEntry (s : State) (parent : Nat) (disk : Disk) (e : Bytes) (num : Nat) : State × Nat :=
  if (e.take 16).all (· == 0) then (s, 0)
  else
    let first := e.rd 8 32
    let last := e.rd 8 40
    if last < first then (s, 0) else addPartition s parent disk first ((last - first + 1) % 2 ^ 64) num

def gptEntries (parent : Nat) (disk : Disk) (sec : Bytes) (entSz numEnt : Nat) : Nat → Nat → Nat → State × Nat → State × Nat
  | 0, _, _, st => st
  | left + 1, j, i, (s, added) =>
    if i < numEnt then
      match gptEntry s parent disk (sec.drop (j * entSz)) (i + 1) with
      | (s, n) => gptEntries parent disk sec entSz numEnt left (j + 1) (i + 1) (s, added + n)
    else (s, added)

/-- The sectors of the table. Every sector has an entry, so there are never more rounds than entries. -/
def gptSectors (parent : Nat) (disk : Disk) (entLba entSz perSec numEnt : Nat) : Nat → Nat → State × Nat → State × Nat
  | 0, _, st => st
  | rounds + 1, i, (s, added) =>
    if i < numEnt ∧ s.parts.length < maxParts then
      match disk.read ((entLba + i / perSec) % 2 ^ 64) with
      | none => (s, added)
      | some sec => gptSectors parent disk entLba entSz perSec numEnt rounds (i + perSec)
          (gptEntries parent disk sec entSz numEnt perSec 0 i (s, added))
    else (s, added)

def efiPart : List UInt8 := [0x45, 0x46, 0x49, 0x20, 0x50, 0x41, 0x52, 0x54]

def probeGpt (s : State) (parent : Nat) (disk : Disk) : State × Nat :=
  match disk.read 1 with
  | none => (s, 0)
  | some hdr =>
    if hdr.take 8 ≠ efiPart then (s, 0)
    else
      let entSz := hdr.rd 4 84
      if entSz < 128 ∨ entSz > 512 then (s, 0)
      else
        let numEnt := min (hdr.rd 4 80) 256
        let perSec := max (disk.sectorSize / entSz) 1
        gptSectors parent disk (hdr.rd 8 72) entSz perSec numEnt numEnt 0 (s, 0)

def extendedTypes : List UInt8 := [0x05, 0x0F, 0x85]

/-- Entry `i` of the four primary ones: empty, extended and protective ones are skipped, and
so are those that do not lie on the disk. -/
def mbrEntry (parent : Nat) (disk : Disk) (sec0 : Bytes) (st : State × Nat) (i : Nat) : State × Nat :=
  let e := sec0.drop (446 + i * 16)
  if e 4 = 0 ∨ e 4 ∈ extendedTypes ∨ e 4 = 0xEE then st
  else
    let start := e.rd 4 8
    let cnt := e.rd 4 12
    if cnt = 0 ∨ start ≥ disk.sectorCount ∨ start + cnt > disk.sectorCount then st
    else match addPartition st.1 parent disk start cnt (i + 1) with
      | (s, n) => (s, st.2 + n)

def mbrFlags (sec0 : Bytes) : Bool := (List.range 4).all fun i => sec0 (446 + i * 16) == 0x00 || sec0 (446 + i * 16) == 0x80

def probeMbr (s : State) (parent : Nat) (disk : Disk) (sec0 : Bytes) : State × Nat :=
  if !mbrFlags sec0 then (s, 0) else (List.range 4).foldl (mbrEntry parent disk sec0) (s, 0)

def blockProbePartitions (disks : Nat → Disk) (s : State) (parent : Nat) : State × Nat :=
  let disk := disks parent
  if parent ∈ s.probed then (s, 0)
  else
    let s := if s.probed.length < maxProbed then { s with probed := s.probed ++ [parent] } else s
    if disk.sectorSize < 512 ∨ disk.sectorSize > 4096 then (s, 0)
    else match disk.read 0 with
      | none => (s, 0)
      | some sec0 =>
        if ¬(sec0 510 = 0x55 ∧ sec0 511 = 0xAA) then (s, 0)
        else if sec0 450 = 0xEE then
          match probeGpt s parent disk with
          | (s, 0) => probeMbr s parent disk sec0
          | (s, added) => (s, added)
        else probeMbr s parent disk sec0

/-- Disks that appear one after the other; `devs` base disks are registered. -/
def probeAll (disks : Nat → Disk) (devs : Nat) (parents : List Nat) : State :=
  parents.foldl (fun s parent => (blockProbePartitions disks s parent).1) ⟨[], devs, []⟩

end SecOS.Partition
