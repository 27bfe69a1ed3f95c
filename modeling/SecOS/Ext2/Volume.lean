import SecOS.Library.Bytes
import SecOS.Library.Writes

/-! A mounted volume (fs/ext2.c): its geometry, the metadata checksums, group descriptors,
inodes and the two block maps, read from the disk. Reads and writes of the device itself
are taken to succeed, and `g_mb`, `g_b`, `g_eb`, `g_tb`, `g_csb`, which every user fills
before it reads them, are local values here. -/

namespace SecOS.Ext2
open Library

abbrev Disk := Nat → Bytes

/-- What `ext2_read_super` keeps of the superblock and the journal reads. -/
structure Volume where
  blkSize : Nat
  inodesPerGroup : Nat
  inodeSize : Nat
  firstDataBlock : Nat
  descSize : Nat
  csum : Bool

def Volume.bgdtBlock (vol : Volume) : Nat := vol.firstDataBlock + 1

def crcRound (crc : BitVec 32) : BitVec 32 := if crc.getLsbD 0 then crc >>> 1 ^^^ 0x82F63B78#32 else crc >>> 1

def e2Crc32c (crc : BitVec 32) (bytes : List UInt8) : BitVec 32 :=
  bytes.foldl (fun crc byte => Nat.repeat crcRound 8 (crc ^^^ byte.toBitVec.setWidth 32)) crc

def sbFinalizeCsum (vol : Volume) (sb : Bytes) : Bytes :=
  if vol.csum then sb.wr32 0x3FC (e2Crc32c (BitVec.allOnes 32) (sb.take 0x3FC)).toNat else sb

def Volume.sbBlock (vol : Volume) : Nat := if vol.blkSize = 1024 then 1 else 0
def Volume.sbOffset (vol : Volume) : Nat := if vol.blkSize = 1024 then 0 else 1024

def readSuper (vol : Volume) (disk : Disk) : Bytes := (disk vol.sbBlock).drop vol.sbOffset

def putSuper (vol : Volume) (block sb : Bytes) : Bytes := block.copy vol.sbOffset sb 1024

def gdBlock (vol : Volume) (group : Nat) : Nat := vol.bgdtBlock + group * vol.descSize / vol.blkSize
def gdWithin (vol : Volume) (group : Nat) : Nat := group * vol.descSize % vol.blkSize

def gdRead (vol : Volume) (disk : Disk) (group : Nat) : Bytes := (disk (gdBlock vol group)).drop (gdWithin vol group)

def gdInodeTable (vol : Volume) (disk : Disk) (group : Nat) : Nat := (gdRead vol disk group).rd32 8

def inodeGroup (vol : Volume) (ino : Nat) : Nat := (ino - 1) / vol.inodesPerGroup
def inodeByte (vol : Volume) (ino : Nat) : Nat := (ino - 1) % vol.inodesPerGroup * vol.inodeSize

/-- The block of the inode table that holds an inode, in the table that starts at `itab`. -/
def inodeBlock (vol : Volume) (itab ino : Nat) : Nat := itab + inodeByte vol ino / vol.blkSize
def inodeWithin (vol : Volume) (ino : Nat) : Nat := inodeByte vol ino % vol.blkSize

def inodeRead (vol : Volume) (disk : Disk) (ino : Nat) : Option Bytes :=
  if ino = 0 then none
  else
    let itab := gdInodeTable vol disk (inodeGroup vol ino)
    if itab = 0 then none else some ((disk (inodeBlock vol itab ino)).drop (inodeWithin vol ino))

def extentMagic : Nat := 0xF30A
def extentsFlag : Nat := 0x00080000

/-- Where a depth-0 extent node, at `off` of a buffer, maps file block `fb`. -/
def leafBmap (node : Bytes) (fb : Nat) : Nat → Nat → Nat
  | 0, _ => 0
  | entries + 1, e =>
    let first := node.rd32 e
    if first ≤ fb ∧ fb < (first + node.rd16 (e + 4)) % 2 ^ 32 then (node.rd32 (e + 8) + (fb - first)) % 2 ^ 32
    else leafBmap node fb entries (e + 12)

/-- The child of an interior node that covers file block `fb`, 0 for none. -/
def indexChild (node : Bytes) (fb : Nat) : Nat → Nat → Nat
  | 0, _ => 0
  | 1, e => if node.rd32 e ≤ fb then node.rd32 (e + 4) else 0
  | entries + 2, e =>
    if node.rd32 e ≤ fb ∧ fb < node.rd32 (e + 12) then node.rd32 (e + 4) else indexChild node fb (entries + 1) (e + 12)

/-- The extent tree whose root is at the start of a buffer. A well-formed tree loses one
level with every step down and `eh_depth` has 16 bits, so the rounds are never used up. -/
def extentBmap (disk : Disk) (fb : Nat) : Nat → Bytes → Nat
  | 0, _ => 0
  | rounds + 1, node =>
    if node.rd16 0 ≠ extentMagic then 0
    else if node.rd16 6 = 0 then leafBmap node fb (node.rd16 2) 12
    else
      let child := indexChild node fb (node.rd16 2) 12
      if child = 0 then 0 else extentBmap disk fb rounds (disk child)

def depthRounds : Nat := 2 ^ 16

/-- Double indirect is the deepest indirect map that is read. -/
def indirectBmap (vol : Volume) (disk : Disk) (inode : Bytes) (fb : Nat) : Nat :=
  let ppb := vol.blkSize / 4
  if fb < 12 then inode.rd32 (40 + fb * 4)
  else if fb - 12 < ppb then
    let ind := inode.rd32 (40 + 12 * 4)
    if ind = 0 then 0 else (disk ind).rd32 ((fb - 12) * 4)
  else if fb - 12 - ppb < ppb * ppb then
    let dind := inode.rd32 (40 + 13 * 4)
    if dind = 0 then 0
    else
      let i1 := (disk dind).rd32 ((fb - 12 - ppb) / ppb * 4)
      if i1 = 0 then 0 else (disk i1).rd32 ((fb - 12 - ppb) % ppb * 4)
  else 0

def isExtents (inode : Bytes) : Bool := inode.rd32 32 &&& extentsFlag ≠ 0

def bmapRead (vol : Volume) (disk : Disk) (inode : Bytes) (fb : Nat) : Nat :=
  if isExtents inode then extentBmap disk fb depthRounds (inode.drop 40) else indirectBmap vol disk inode fb

end SecOS.Ext2
