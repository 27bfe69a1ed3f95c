import SecOS.Pmm

/-! The file page cache (mm/pagecache.c): 128 slots of file pages in frames the
kernel owns, with a first-in first-out hand for eviction. Inodes are addresses,
0 for none; what a file system returns for an inode is part of `Files`. -/

namespace SecOS.PageCache
open Pmm Function

def entries : Nat := 128

/-- `size` is `ino->size`, which may be behind the size that the file system has. `byte` is what
its read puts into a zeroed page, 0 where it delivers nothing. -/
structure Files where
  readable : Nat → Bool
  size : Nat → Nat
  byte : Nat → Nat → UInt8

structure Entry where
  inode : Nat
  off : Nat
  phys : Nat
  valid : Bool
deriving DecidableEq

structure Cache where
  pc : Nat → Entry
  clock : Nat

def pcFill (files : Files) (inode off : Nat) (i : Nat) : UInt8 :=
  if files.readable inode ∧ off < files.size inode ∧ i < min (files.size inode - off) 4096 then files.byte inode (off + i)
  else 0

/-- The slot a miss will use: a free one, else the one under the hand. -/
def victim (m : Pmm.State) (c : Cache) : Pmm.State × Cache × Nat :=
  match (List.range entries).find? (fun i => !(c.pc i).valid) with
  | some i => (m, c, i)
  | none =>
    let i := c.clock % entries
    let m := if (c.pc i).phys ≠ 0 then freeFrame m (c.pc i).phys else m
    (m, { pc := update c.pc i { c.pc i with valid := false, phys := 0 }, clock := (c.clock + 1) % 2 ^ 32 }, i)

def getPhys (m : Pmm.State) (c : Cache) (files : Files) (inode off : Nat) : Pmm.State × Cache × Nat :=
  if inode = 0 then (m, c, 0)
  else
    let off := off / 4096 * 4096
    match (List.range entries).find? (fun i => (c.pc i).valid && (c.pc i).inode == inode && (c.pc i).off == off) with
    | some i => (m, c, (c.pc i).phys)
    | none =>
      let (m, c, i) := victim m c
      let (m, f) := allocFrame m
      if f = 0 then (m, c, 0)
      else
        ({ m with mem := update m.mem (f / frameSize) (pcFill files inode off) },
          { c with pc := update c.pc i ⟨inode, off, f, true⟩ }, f)

end SecOS.PageCache
