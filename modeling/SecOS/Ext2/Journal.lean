import SecOS.Ext2.Volume

/-! The JBD2 journal (fs/ext2.c): the commit of a transaction of metadata blocks and the
recovery a mount runs first. Both issue their block writes to a device one by one, so that
the power can be cut between any two of them. -/

namespace SecOS.Ext2
open Library

def jbd2Magic : Nat := 0xc03b3998

def descriptorBlock : Nat := 1
def commitBlock : Nat := 2
def revokeBlock : Nat := 5

def flagEscape : Nat := 0x1
def flagSameUuid : Nat := 0x2
def flagLastTag : Nat := 0x8

def incompat64bit : Nat := 0x2
def incompatCsumV3 : Nat := 0x10

/-- What `jt_init` captures; `inode` is the journal's inode. -/
structure Journal where
  inode : Bytes
  first : Nat
  maxlen : Nat
  seq : Nat
  cap : Nat
  csum3 : Bool
  b64 : Bool
  csumSeed : BitVec 32
  uuid : Bytes

def tagSize (csum3 b64 : Bool) : Nat := if csum3 then 16 else if b64 then 12 else 8

def hasFlag (word flag : Nat) : Bool := word &&& flag ≠ 0

def jread (vol : Volume) (disk : Disk) (jin : Bytes) (lb : Nat) : Option Bytes :=
  let pb := bmapRead vol disk jin lb
  if pb = 0 then none else some (disk pb)

def jsbFinalizeCsum (jsb : Bytes) : Bytes :=
  if hasFlag (jsb.be32 40) (incompatCsumV3 ||| 0x8) then
    let jsb := jsb.wbe32 0xFC 0
    jsb.wbe32 0xFC (e2Crc32c (BitVec.allOnes 32) (jsb.take 1024)).toNat
  else jsb

def jtMax : Nat := 64

def journalInum (vol : Volume) (disk : Disk) : Nat :=
  if hasFlag ((readSuper vol disk).rd32 92) 0x4 then (readSuper vol disk).rd32 224 else 0

/-- None for a volume whose journal is not written. -/
def jtInit (vol : Volume) (disk : Disk) : Option Journal := do
  let inode ← inodeRead vol disk (journalInum vol disk)
  let jsb ← jread vol disk inode 0
  if jsb.be32 0 ≠ jbd2Magic then none
  else if hasFlag (jsb.be32 36) 0x1 then none
  else if hasFlag (jsb.be32 40) (0xFFFFFFFF - (incompat64bit + incompatCsumV3 + 0x1)) then none
  else
    let csum3 := hasFlag (jsb.be32 40) incompatCsumV3
    let b64 := hasFlag (jsb.be32 40) incompat64bit
    let uuid := jsb.drop 0x30
    let first := if jsb.be32 20 = 0 then 1 else jsb.be32 20
    let room := vol.blkSize - 12 - 16 - (if csum3 then 4 else 0)
    let cap := min (room / tagSize csum3 b64) jtMax
    if jsb.be32 16 < (first + cap + 2) % 2 ^ 32 then none
    else some {
      inode := inode, first := first, maxlen := jsb.be32 16, seq := jsb.be32 24, cap := cap, csum3 := csum3, b64 := b64
      csumSeed := e2Crc32c (BitVec.allOnes 32) (uuid.take 16), uuid := uuid }

def header (type seq : Nat) : Bytes := ((Bytes.zeros.wbe32 0 jbd2Magic).wbe32 4 type).wbe32 8 seq

/-- A block that starts with the magic number is stored with a zero first word. -/
def escaped (data : Bytes) : Bool := data.be32 0 = jbd2Magic

def stored (data : Bytes) : Bytes := if escaped data then data.wbe32 0 0 else data

def tagCsum (vol : Volume) (j : Journal) (data : Bytes) : BitVec 32 :=
  let c := e2Crc32c j.csumSeed ((Bytes.zeros.wbe32 0 j.seq).take 4)
  if escaped data then e2Crc32c (e2Crc32c c [0, 0, 0, 0]) ((data.drop 4).take (vol.blkSize - 4))
  else e2Crc32c c (data.take vol.blkSize)

def putTag (vol : Volume) (j : Journal) (desc : Bytes) (off blk flags : Nat) (data : Bytes) : Bytes :=
  let desc := desc.wbe32 off blk
  if j.csum3 then ((desc.wbe32 (off + 4) flags).wbe32 (off + 8) 0).wbe32 (off + 12) (tagCsum vol j data).toNat
  else
    let desc := (desc.wbe16 (off + 4) 0).wbe16 (off + 6) flags
    if j.b64 then desc.wbe32 (off + 8) 0 else desc

def tagFlags (leading last : Bool) (data : Bytes) : Nat :=
  (if leading then 0 else flagSameUuid) ||| (if last then flagLastTag else 0) ||| (if escaped data then flagEscape else 0)

def putTags (vol : Volume) (j : Journal) : Bool → List (Nat × Bytes) → Nat → Bytes → Bytes
  | _, [], _, desc => desc
  | leading, (blk, data) :: rest, off, desc =>
    let desc := putTag vol j desc off blk (tagFlags leading rest.isEmpty data) data
    let off := off + tagSize j.csum3 j.b64
    if leading then putTags vol j false rest (off + 16) (desc.copy off j.uuid 16) else putTags vol j false rest off desc

def descriptor (vol : Volume) (j : Journal) (txn : List (Nat × Bytes)) : Bytes :=
  let desc := putTags vol j true txn 12 (header descriptorBlock j.seq)
  if j.csum3 then desc.wbe32 (vol.blkSize - 4) (e2Crc32c j.csumSeed (desc.take vol.blkSize)).toNat else desc

def commitRecord (vol : Volume) (j : Journal) (now : Nat) : Bytes :=
  let commit := ((header commitBlock j.seq).wbe32 48 (now / 2 ^ 32)).wbe32 52 now
  if j.csum3 then commit.wbe32 16 (e2Crc32c j.csumSeed (commit.take vol.blkSize)).toNat else commit

def jwrite (vol : Volume) (j : Journal) (dev : Device Bytes) (lb : Nat) (block : Bytes) : Device Bytes :=
  let jp := bmapRead vol dev.disk j.inode lb
  if jp = 0 then dev else dev.write jp block

def jwriteAll (vol : Volume) (j : Journal) : Device Bytes → Nat → List (Nat × Bytes) → Device Bytes
  | dev, _, [] => dev
  | dev, lb, (_, data) :: rest => jwriteAll vol j (jwrite vol j dev lb (stored data)) (lb + 1) rest

def jsbSet (jsb : Bytes) (start seq : Nat) : Bytes := jsbFinalizeCsum ((jsb.wbe32 28 start).wbe32 24 seq)

/-- Publish or retire the transaction in the journal's superblock, at `at0`. -/
def jsbUpdate (vol : Volume) (j : Journal) (dev : Device Bytes) (at0 start seq : Nat) : Device Bytes :=
  match jread vol dev.disk j.inode 0 with
  | none => dev
  | some jsb => if at0 = 0 then dev else dev.write at0 (jsbSet jsb start seq)

def jtCommit (vol : Volume) (j : Journal) (now : Nat) (txn : List (Nat × Bytes)) (dev : Device Bytes) : Device Bytes :=
  if txn.isEmpty then dev
  else
    let dev := jwrite vol j dev j.first (descriptor vol j txn)
    let dev := jwriteAll vol j dev (j.first + 1) txn
    let dev := jwrite vol j dev (j.first + 1 + txn.length) (commitRecord vol j now)
    let at0 := bmapRead vol dev.disk j.inode 0
    let dev := jsbUpdate vol j dev at0 j.first j.seq
    let dev := dev.writeAll txn
    jsbUpdate vol j dev at0 0 ((j.seq + 1) % 2 ^ 32)

inductive Phase where
  | scan
  | revoke
  | replay
deriving DecidableEq

structure Recovery where
  dev : Device Bytes
  revoked : List (Nat × Nat)

structure JournalSuper where
  first : Nat
  maxlen : Nat
  seq : Nat
  start : Nat
  csum3 : Bool
  b64 : Bool

def JournalSuper.read (jsb : Bytes) : JournalSuper where
  first := jsb.be32 20
  maxlen := jsb.be32 16
  seq := jsb.be32 24
  start := jsb.be32 28
  csum3 := hasFlag (jsb.be32 40) incompatCsumV3
  b64 := hasFlag (jsb.be32 40) incompat64bit

def JournalSuper.next (js : JournalSuper) (lb : Nat) : Nat := if js.maxlen ≤ (lb + 1) % 2 ^ 32 then js.first else (lb + 1) % 2 ^ 32

def jrevTest (revoked : List (Nat × Nat)) (blk seq : Nat) : Bool := revoked.any fun r => r.1 = blk ∧ seq ≤ r.2

def unescaped (flags : Nat) (data : Bytes) : Bytes := if hasFlag flags flagEscape then data.wbe32 0 jbd2Magic else data

def replayBlock (vol : Volume) (jin : Bytes) (r : Recovery) (lb tgt flags seq : Nat) : Recovery :=
  match jread vol r.dev.disk jin lb with
  | none => r
  | some data => if jrevTest r.revoked tgt seq then r else { r with dev := r.dev.write (tgt % 2 ^ 32) (unescaped flags data) }

/-- The tags of one descriptor block. Returns the journal block after its data. -/
def passTags (vol : Volume) (jin : Bytes) (js : JournalSuper) (phase : Phase) (desc : Bytes) (seq : Nat) (off lb : Nat) (r : Recovery) :
    Nat × Recovery :=
  if off + tagSize js.csum3 js.b64 > vol.blkSize then (lb, r)
  else
    let flags := if js.csum3 then desc.be32 (off + 4) else desc.be16 (off + 6)
    let tgt := (if js.b64 then desc.be32 (off + 8) * 2 ^ 32 else 0) ||| desc.be32 off
    let r := if phase = .replay then replayBlock vol jin r lb tgt flags seq else r
    if hasFlag flags flagLastTag then (js.next lb, r)
    else passTags vol jin js phase desc seq (off + tagSize js.csum3 js.b64 + (if hasFlag flags flagSameUuid then 0 else 16)) (js.next lb) r
termination_by vol.blkSize - off
decreasing_by
  have : 0 < tagSize js.csum3 js.b64 := by unfold tagSize; split <;> [decide; split <;> decide]
  omega

/-- The records of a revoke block, as long as the table has room. -/
def revokeRecords (vol : Volume) (js : JournalSuper) (desc : Bytes) (seq : Nat) (revoked : List (Nat × Nat)) : List (Nat × Nat) :=
  let rsz := if js.b64 then 8 else 4
  let n := min ((min (desc.be32 12) vol.blkSize - 16) / rsz) (2048 - revoked.length)
  revoked ++ (List.range n).map fun k =>
    (if js.b64 then desc.be32 (16 + k * rsz) * 2 ^ 32 ||| desc.be32 (16 + k * rsz + 4) else desc.be32 (16 + k * rsz), seq)

/-- One pass over the log, from journal block `lb`: the number of committed transactions
it saw. None when it has not ended after so many rounds. -/
def jbd2Pass (vol : Volume) (jin : Bytes) (js : JournalSuper) (phase : Phase) (endSeq : Nat) :
    Nat → Nat → Nat → Nat → Recovery → Option (Nat × Recovery)
  | 0, _, _, _, _ => none
  | rounds + 1, lb, seq, committed, r =>
    if phase ≠ .scan ∧ endSeq ≤ seq then some (committed, r)
    else match jread vol r.dev.disk jin lb with
      | none => some (committed, r)
      | some desc =>
        if desc.be32 0 ≠ jbd2Magic ∨ desc.be32 8 ≠ seq then some (committed, r)
        else if desc.be32 4 = descriptorBlock then
          let (lb, r) := passTags vol jin js phase desc seq 12 (js.next lb) r
          jbd2Pass vol jin js phase endSeq rounds lb seq committed r
        else if desc.be32 4 = commitBlock then
          jbd2Pass vol jin js phase endSeq rounds (js.next lb) ((seq + 1) % 2 ^ 32) (committed + 1) r
        else if desc.be32 4 = revokeBlock then
          let r := if phase = .revoke then { r with revoked := revokeRecords vol js desc seq r.revoked } else r
          jbd2Pass vol jin js phase endSeq rounds (js.next lb) seq committed r
        else some (committed, r)

def clearRecover (vol : Volume) (dev : Device Bytes) : Device Bytes :=
  let sb := readSuper vol dev.disk
  if hasFlag (sb.rd32 96) 0x4 then
    dev.write vol.sbBlock (putSuper vol (dev.disk vol.sbBlock) (sbFinalizeCsum vol (sb.wr32 96 (sb.rd32 96 &&& 0xFFFFFFFB))))
  else dev

inductive MountError where
  | corruptJournal
  | endless
deriving DecidableEq

def jbd2Recover (vol : Volume) (rounds : Nat) (disk : Disk) : Except MountError (Device Bytes) :=
  if journalInum vol disk = 0 then .ok (.fresh disk)
  else match inodeRead vol disk (journalInum vol disk) with
    | none => .error .corruptJournal
    | some jin =>
      match jread vol disk jin 0 with
      | none => .error .corruptJournal
      | some jsb =>
        if jsb.be32 0 ≠ jbd2Magic then .error .corruptJournal
        else
          let js := JournalSuper.read jsb
          if js.start = 0 then .ok (clearRecover vol (.fresh disk))
          else
            let result := do
              let (committed, r) ← jbd2Pass vol jin js .scan 0 rounds js.start js.seq 0 ⟨.fresh disk, []⟩
              let endSeq := (js.seq + committed) % 2 ^ 32
              let (_, r) ← jbd2Pass vol jin js .revoke endSeq rounds js.start js.seq 0 r
              let (_, r) ← jbd2Pass vol jin js .replay endSeq rounds js.start js.seq 0 r
              let dev := match jread vol r.dev.disk jin 0 with
                | none => r.dev
                | some jsb =>
                  let jpb := bmapRead vol r.dev.disk jin 0
                  if jpb = 0 then r.dev else r.dev.write jpb (jsbSet jsb 0 endSeq)
              some (clearRecover vol dev)
            match result with
            | none => .error .endless
            | some dev => .ok dev

end SecOS.Ext2
