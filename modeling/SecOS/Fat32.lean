import SecOS.Library.Bytes
import SecOS.Library.Loops

/-! The FAT32 file system (fs/fat32.c) over a block device of 512-byte sectors. The loops
that follow a cluster chain take fuel; every other loop of the source has a bound of its
own. A device with a write path writes every sector it can read. -/

namespace SecOS.Fat32
open Library

def secsz : Nat := 512
def fatEoc : Nat := 0x0FFFFFF8
def attrDir : UInt8 := 0x10
def attrArchive : UInt8 := 0x20
def attrLfn : UInt8 := 0x0F
def attrVolume : UInt8 := 0x08
def dentFree : UInt8 := 0xE5
def dentEnd : UInt8 := 0x00
def slash : UInt8 := 0x2F
def dot : UInt8 := 0x2E
def space : UInt8 := 0x20
def perSector : Nat := 16
/-- `FAT_VCHUNK * FAT_VCHUNKS_MAX`. -/
def maxNodes : Nat := 64 * 512

/-- What a mount takes from the boot sector, with the checks it makes. -/
structure Geometry where
  secPerClus : Nat
  reserved : Nat
  numFats : Nat
  secPerFat : Nat
  rootClus : Nat
  totalSectors : Nat
  fsinfoSec : Nat
  clustered : 0 < secPerClus
  copied : 0 < numFats
  room : reserved + numFats * secPerFat < totalSectors

namespace Geometry
variable (g : Geometry)

def fatStart : Nat := g.reserved
def dataStart : Nat := g.reserved + g.numFats * g.secPerFat
def totalClusters : Nat := (g.totalSectors - g.dataStart) / g.secPerClus
def clusBytes : Nat := g.secPerClus * secsz

/-- `g_total_clusters + 2` in 32 bits. -/
def clusLimit : Nat := (g.totalClusters + 2) % 2 ^ 32

end Geometry

/-- `fat_node_t`: what an open file remembers of its directory entry. -/
structure Node where
  firstCluster : Nat
  size : Nat
  isDir : Bool
  entClus : Nat
  entOff : Nat
  dead : Bool
deriving DecidableEq

structure DentLoc where
  clus : Nat
  off : Nat
  raw : Bytes

/-- `stack` is what `path_resolve` finds in its location before it is set. -/
structure Volume where
  geo : Geometry
  ro : Bool
  capacity : Nat
  data : Nat → Bytes
  fsinfoDone : Bool
  nodes : List Node
  stack : DentLoc

/-- `optRo` is `-o ro`, `writes` that the device has a write path. -/
def fat32Mount (optRo writes : Bool) (capacity : Nat) (data : Nat → Bytes) (stack : DentLoc) : Option Volume :=
  if capacity = 0 then none
  else
    let bs := data 0
    let spc := (bs 13).toNat
    let rsvd := bs.rd16 14
    let nfats := (bs 16).toNat
    let spf := bs.rd32 36
    let root := bs.rd32 44
    let totalSectors := bs.rd32 32
    if bs.rd16 11 ≠ secsz ∨ spf = 0 then none
    else if bs 510 ≠ 0x55 ∨ bs 511 ≠ 0xAA then none
    else if bs.rd16 17 ≠ 0 ∨ bs.rd16 22 ≠ 0 ∨ bs.rd16 19 ≠ 0 then none
    else if totalSectors = 0 ∨ root < 2 then none
    else if fits : 0 < spc ∧ 0 < nfats ∧ rsvd + nfats * spf < totalSectors then
      some ⟨⟨spc, rsvd, nfats, spf, root, totalSectors, bs.rd16 48, fits.1, fits.2.1, fits.2.2⟩, optRo || !writes, capacity, data, false, [], stack⟩
    else none

def secRead (v : Volume) (lba : Nat) : Option Bytes := if lba < v.capacity then some (v.data lba) else none

def secWrite (v : Volume) (lba : Nat) (b : Bytes) : Option Volume :=
  if v.ro then none else if lba < v.capacity then some { v with data := Function.update v.data lba b } else none

def clusLba (v : Volume) (c : Nat) : Nat := v.geo.dataStart + (c - 2) * v.geo.secPerClus

def clusValid (v : Volume) (c : Nat) : Bool := 2 ≤ c && c < v.geo.clusLimit

/-- The sector of a cluster's entry, from the start of a copy, and the offset in it. -/
def entrySector (c : Nat) : Nat := c * 4 % 2 ^ 32 / secsz
def entryOffset (c : Nat) : Nat := c * 4 % 2 ^ 32 % secsz

def fatGet (v : Volume) (c : Nat) : Nat :=
  match secRead v (v.geo.fatStart + entrySector c) with
  | none => fatEoc
  | some sec => sec.rd32 (entryOffset c) % 2 ^ 28

def chainNext (v : Volume) (c : Nat) : Option Nat :=
  let n := fatGet v c
  if 2 ≤ n ∧ n < fatEoc then some n else none

def fatFsinfoInvalidate (v : Volume) : Volume :=
  let sec := v.geo.fsinfoSec
  let v := { v with fsinfoDone := true }
  if sec = 0 ∨ sec = 0xFFFF ∨ sec ≥ v.geo.reserved then v
  else match secRead v sec with
    | none => v
    | some fi =>
      if fi.rd32 0 ≠ 0x41615252 ∨ fi.rd32 484 ≠ 0x61417272 then v
      else if fi.rd32 488 = 0xFFFFFFFF ∧ fi.rd32 492 = 0xFFFFFFFF then v
      else (secWrite v sec ((fi.wr32 488 0xFFFFFFFF).wr32 492 0xFFFFFFFF)).getD v

/-- The loop over the copies of the table; `false` when a sector fails. -/
def fatSetCopies (c val : Nat) : List Nat → Volume → Volume × Bool
  | [], v => (v, true)
  | f :: rest, v =>
    let lba := v.geo.fatStart + f * v.geo.secPerFat + entrySector c
    match secRead v lba with
    | none => (v, false)
    | some sec =>
      let cur := sec.rd32 (entryOffset c)
      match secWrite v lba (sec.wr32 (entryOffset c) (cur / 2 ^ 28 * 2 ^ 28 + val % 2 ^ 28)) with
      | none => (v, false)
      | some v => fatSetCopies c val rest v

def fatSet (v : Volume) (c val : Nat) : Volume × Bool :=
  let v := if v.fsinfoDone then v else fatFsinfoInvalidate v
  fatSetCopies c val (List.range v.geo.numFats) v

def zeroSectors (c : Nat) : List Nat → Volume → Volume × Bool
  | [], v => (v, true)
  | s :: rest, v =>
    match secWrite v (clusLba v c + s) Bytes.zeros with
    | none => (v, false)
    | some v => zeroSectors c rest v

def clusZero (v : Volume) (c : Nat) : Volume × Bool := zeroSectors c (List.range v.geo.secPerClus) v

/-- The source returns 0 for none. -/
def fatAlloc (v : Volume) : Volume × Option Nat :=
  match (List.range' 2 (v.geo.clusLimit - 2)).find? fun c => fatGet v c == 0 with
  | none => (v, none)
  | some c =>
    match fatSet v c fatEoc with
    | (v, false) => (v, none)
    | (v, true) =>
      match clusZero v c with
      | (v, false) => (v, none)
      | (v, true) => (v, some c)

def freeStep (s : Volume × Nat) : Step (Volume × Nat) Volume :=
  let (v, c) := s
  if !clusValid v c then .done v
  else
    let v' := (fatSet v c 0).1
    match chainNext v c with
    | some n => .again (v', n)
    | none => .done v'

def fatFreeChain (fuel : Nat) (v : Volume) (c : Nat) : Option Volume := loop freeStep fuel (v, c)

structure Clock where
  tm : Nat
  dt : Nat

def fatStamp (now : Clock) (raw : Bytes) (create : Bool) : Bytes :=
  let raw := if create then ((raw.wr 1 13 0).wr16 14 now.tm).wr16 16 now.dt else raw
  ((raw.wr16 18 now.dt).wr16 22 now.tm).wr16 24 now.dt

def up (c : UInt8) : UInt8 := if 0x61 ≤ c ∧ c ≤ 0x7A then c - 0x20 else c

/-- Of a component that is not empty. -/
def nameTo83 (s : List UInt8) : Bytes :=
  let base := ((s.takeWhile (· ≠ dot)).take 8).map up
  let ext := ((s.dropWhile (· ≠ dot)).drop 1 |>.take 3).map up
  fun i => if i < 8 then base.getD i space else ext.getD (i - 8) space

def nameFrom83 (raw : Bytes) : List UInt8 :=
  let base := (raw.take 8).takeWhile (· ≠ space)
  let ext := ((raw.drop 8).take 3).takeWhile (· ≠ space)
  if raw 8 ≠ space then base ++ [dot] ++ ext else base

def rawEq (a b : Bytes) : Bool := (List.range 11).all fun i => a i == b i

/-- Entries that name nothing: free, part of a long name, the volume label. -/
def skipped (ent : Bytes) : Bool := ent 0 == dentFree || ent 11 == attrLfn || ent 11 &&& attrVolume != 0

/-- Look at the entries of a cluster in order until one of them settles the search. -/
def scanCluster {α : Type} (v : Volume) (c : Nat) (look : Nat → Bytes → Option α) (unread : α) : Option α :=
  (List.range v.geo.secPerClus).findSome? fun s =>
    match secRead v (clusLba v c + s) with
    | none => some unread
    | some sec => (List.range perSector).findSome? fun e => look (s * secsz + e * 32) (sec.drop (e * 32))

def lookFind (name : Bytes) (c off : Nat) (ent : Bytes) : Option (Option DentLoc) :=
  if ent 0 = dentEnd then some none
  else if skipped ent then none
  else if rawEq ent name then some (some ⟨c, off, ent⟩)
  else none

def findStep (v : Volume) (name : Bytes) (c : Nat) : Step Nat (Option DentLoc) :=
  if !clusValid v c then .done none
  else match scanCluster v c (lookFind name c) none with
    | some r => .done r
    | none =>
      match chainNext v c with
      | some n => .again n
      | none => .done none

def dirFind (v : Volume) (fuel dir : Nat) (name : Bytes) : Option (Option DentLoc) := loop (findStep v name) fuel dir

def dentWriteBack (v : Volume) (loc : DentLoc) : Volume × Bool :=
  let lba := clusLba v loc.clus + loc.off / secsz
  match secRead v lba with
  | none => (v, false)
  | some sec =>
    match secWrite v lba (sec.copy (loc.off % secsz) loc.raw 32) with
    | none => (v, false)
    | some v => (v, true)

inductive Slot where
  | at (clus off : Nat)
  | unreadable
  | full (last : Nat)
deriving DecidableEq

def lookSlot (c off : Nat) (ent : Bytes) : Option Slot :=
  if ent 0 = dentEnd ∨ ent 0 = dentFree then some (.at c off) else none

/-- The cluster and the last one that was valid. -/
def slotStep (v : Volume) (s : Nat × Nat) : Step (Nat × Nat) Slot :=
  let (c, last) := s
  if !clusValid v c then .done (.full last)
  else match scanCluster v c (lookSlot c) .unreadable with
    | some r => .done r
    | none =>
      match chainNext v c with
      | some n => .again (n, c)
      | none => .done (.full c)

def takeSlot (v : Volume) : Slot → Volume × Option (Nat × Nat)
  | .at c off => (v, some (c, off))
  | .unreadable => (v, none)
  | .full last =>
    match fatAlloc v with
    | (v, none) => (v, none)
    | (v, some nc) =>
      match fatSet v last nc with
      | (v, false) => (v, none)
      | (v, true) => (v, some (nc, 0))

def dirAllocSlot (v : Volume) (fuel dir : Nat) : Option (Volume × Option (Nat × Nat)) := do
  let slot ← loop (slotStep v) fuel (dir, dir)
  return takeSlot v slot

/-- The component buffer holds 63 bytes; the rest of a longer name is the next component. -/
def pieces : Nat → List UInt8 → List (List UInt8)
  | _, [] => []
  | 0, _ => []
  | n + 1, name => name.take 63 :: pieces n (name.drop 63)

def components (path : List UInt8) : List (List UInt8) := (path.splitOn slash).flatMap fun name => pieces name.length name

/-- `loc` is none for the root, unless it is named by more than one slash. -/
structure Found where
  firstCluster : Nat
  size : Nat
  isDir : Bool
  loc : Option DentLoc

def Found.root (v : Volume) : Found := ⟨v.geo.rootClus, 0, true, none⟩

def Found.entry (loc : DentLoc) : Found :=
  ⟨loc.raw.rd16 20 * 2 ^ 16 + loc.raw.rd16 26, loc.raw.rd32 28, loc.raw 11 &&& attrDir != 0, some loc⟩

def Found.dir (v : Volume) (f : Found) : Nat := if f.firstCluster = 0 then v.geo.rootClus else f.firstCluster

def resolveFrom (v : Volume) (fuel : Nat) : Nat → List (List UInt8) → Option (Option Found)
  | _, [] => some (some (Found.root v))
  | dir, comp :: rest => do
    let some loc ← dirFind v fuel dir (nameTo83 comp) | return none
    let found := Found.entry loc
    if rest.isEmpty then return some found
    else if !found.isDir then return none
    else resolveFrom v fuel (found.dir v) rest

/-- More slashes than one and nothing else are the root too, with a location that was never set. -/
def pathResolve (v : Volume) (fuel : Nat) (path : List UInt8) : Option (Option Found) :=
  if components path = [] ∧ 2 ≤ path.length then some (some { Found.root v with loc := some v.stack })
  else resolveFrom v fuel v.geo.rootClus (components path)

def lastName (path : List UInt8) : List UInt8 := (path.reverse.takeWhile (· ≠ slash)).reverse

def parentPath (path : List UInt8) : List UInt8 :=
  let plen := path.length - (lastName path).length - 1
  if plen = 0 then [slash] else path.take (min plen 255)

/-- The cluster of the parent directory and the name in it. -/
def splitParent (v : Volume) (fuel : Nat) (path : List UInt8) : Option (Option (Nat × Bytes)) :=
  if path.head? ≠ some slash ∨ lastName path = [] then some none
  else do
    let some found ← pathResolve v fuel (parentPath path) | return none
    if found.isDir then return some (found.dir v, nameTo83 ((lastName path).take 63)) else return none

def slotFind (v : Volume) (ec eo : Nat) : Option Nat := v.nodes.findIdx? fun n => !n.dead && n.entClus == ec && n.entOff == eo

/-- `memory` answers for the chunk the new node may need. -/
def inodeGet (v : Volume) (memory : Bool) (ec eo : Nat) : Volume × Option Nat :=
  match slotFind v ec eo with
  | some i => (v, some i)
  | none =>
    if v.nodes.length ≥ maxNodes ∨ !memory then (v, none)
    else ({ v with nodes := v.nodes ++ [⟨0, 0, false, ec, eo, false⟩] }, some v.nodes.length)

def Volume.setNode (v : Volume) (i : Nat) (change : Node → Node) : Volume := { v with nodes := v.nodes.modify i change }

def inodeKill (v : Volume) (ec eo : Nat) : Volume :=
  match slotFind v ec eo with
  | none => v
  | some i => v.setNode i fun n => { n with dead := true, firstCluster := 0, size := 0 }

def inodeMove (v : Volume) (oc oo nc no : Nat) : Volume :=
  match slotFind v oc oo with
  | none => v
  | some i => v.setNode i fun n => { n with entClus := nc, entOff := no }

def skipClusters (v : Volume) : Nat → Nat → Nat
  | 0, c => c
  | i + 1, c => if clusValid v c then skipClusters v i ((chainNext v c).getD 0) else c

def readSectors (v : Volume) (c inOff len : Nat) : List Nat → List UInt8 → Option (List UInt8)
  | [], out => some out
  | s :: rest, out =>
    if len ≤ out.length then some out
    else if s * secsz + secsz ≤ inOff then readSectors v c inOff len rest out
    else match secRead v (clusLba v c + s) with
      | none => none
      | some sec =>
        let start := inOff - s * secsz
        readSectors v c inOff len rest (out ++ (sec.drop start).take (min (secsz - start) (len - out.length)))

structure Reading where
  c : Nat
  inOff : Nat
  out : List UInt8

def readStep (v : Volume) (len : Nat) (r : Reading) : Step Reading (Option (List UInt8)) :=
  if r.out.length < len ∧ clusValid v r.c then
    match readSectors v r.c r.inOff len (List.range v.geo.secPerClus) r.out with
    | none => .done none
    | some out => .again ⟨(chainNext v r.c).getD 0, 0, out⟩
  else .done (some r.out)

def fatReadFile (v : Volume) (fuel : Nat) (nd : Node) (offset len : Nat) : Option (Option (List UInt8)) :=
  if nd.size ≤ offset then some (some [])
  else
    let len := if nd.size < (offset + len) % 2 ^ 64 then nd.size - offset else len
    let skip := offset / v.geo.clusBytes % 2 ^ 32
    loop (readStep v len) fuel ⟨skipClusters v skip nd.firstCluster, offset % v.geo.clusBytes, []⟩

structure Ensuring where
  v : Volume
  c : Nat
  count : Nat

def ensureStep (need : Nat) (e : Ensuring) : Step Ensuring (Volume × Bool) :=
  if e.count < need then
    match chainNext e.v e.c with
    | some n => .again ⟨e.v, n, e.count + 1⟩
    | none =>
      match fatAlloc e.v with
      | (v, none) => .done (v, false)
      | (v, some nc) =>
        match fatSet v e.c nc with
        | (v, false) => .done (v, false)
        | (v, true) => .again ⟨v, nc, e.count + 1⟩
  else .done (e.v, true)

/-- The volume, the first cluster and whether the chain is long enough now. -/
def fatEnsureClusters (v : Volume) (fuel first need : Nat) : Option (Volume × Nat × Bool) :=
  if need = 0 then some (v, first, true)
  else if clusValid v first then do
    let (v, ok) ← loop (ensureStep need) fuel ⟨v, first, 1⟩
    return (v, first, ok)
  else match fatAlloc v with
    | (v, none) => some (v, first, false)
    | (v, some nc) => do
      let (v, ok) ← loop (ensureStep need) fuel ⟨v, nc, 1⟩
      return (v, nc, ok)

def writeSectors (c inOff : Nat) : List Nat → Volume → List UInt8 → Volume × Option (List UInt8)
  | [], v, input => (v, some input)
  | s :: rest, v, input =>
    if input = [] then (v, some input)
    else if s * secsz + secsz ≤ inOff then writeSectors c inOff rest v input
    else
      let start := inOff - s * secsz
      let lba := clusLba v c + s
      match if start = 0 ∧ secsz ≤ input.length then some Bytes.zeros else secRead v lba with
      | none => (v, none)
      | some sec =>
        let n := min (secsz - start) input.length
        match secWrite v lba (sec.copy start (fun i => input.getD i 0) n) with
        | none => (v, none)
        | some v => writeSectors c inOff rest v (input.drop n)

structure Writing where
  v : Volume
  c : Nat
  inOff : Nat
  input : List UInt8

def writeStep (w : Writing) : Step Writing (Volume × Option (List UInt8)) :=
  if w.input ≠ [] ∧ clusValid w.v w.c then
    match writeSectors w.c w.inOff (List.range w.v.geo.secPerClus) w.v w.input with
    | (v, none) => .done (v, none)
    | (v, some input) => .again ⟨v, if input = [] then w.c else (chainNext v w.c).getD 0, 0, input⟩
  else .done (w.v, some w.input)

def entryUpdate (now : Clock) (v : Volume) (nd : Node) : Volume × Bool :=
  if nd.entClus = 0 then (v, true)
  else match secRead v (clusLba v nd.entClus + nd.entOff / secsz) with
    | none => (v, false)
    | some sec =>
      let raw := sec.drop (nd.entOff % secsz)
      let raw := ((raw.wr16 20 (nd.firstCluster / 2 ^ 16)).wr16 26 (nd.firstCluster % 2 ^ 16)).wr32 28 nd.size
      dentWriteBack v ⟨nd.entClus, nd.entOff, fatStamp now raw false⟩

def fatWriteFile (now : Clock) (v : Volume) (fuel : Nat) (nd : Node) (offset : Nat) (input : List UInt8) :
    Option (Volume × Node × Option Nat) :=
  if input = [] then some (v, nd, some 0)
  else do
    let newSize := max ((offset + input.length) % 2 ^ 64) nd.size
    let need := (newSize + v.geo.clusBytes - 1) % 2 ^ 64 / v.geo.clusBytes % 2 ^ 32
    let (v, first, ok) ← fatEnsureClusters v fuel nd.firstCluster need
    let nd := { nd with firstCluster := first }
    if !ok then return (v, nd, none)
    let skip := offset / v.geo.clusBytes % 2 ^ 32
    let (v, left) ← loop writeStep fuel ⟨v, skipClusters v skip first, offset % v.geo.clusBytes, input⟩
    let some left := left | return (v, nd, none)
    let nd := { nd with size := newSize % 2 ^ 32 }
    match entryUpdate now v nd with
    | (v, false) => return (v, nd, none)
    | (v, true) => return (v, nd, some (input.length - left.length))

def fat32Lookup (memory : Bool) (v : Volume) (fuel : Nat) (path : List UInt8) : Option (Volume × Option Nat) := do
  let some found ← pathResolve v fuel path | return (v, none)
  let (ec, eo) := match found.loc with
    | some loc => (loc.clus, loc.off)
    | none => (0, 0)
  match inodeGet v memory ec eo with
  | (v, none) => return (v, none)
  | (v, some i) =>
    return (v.setNode i fun n => { n with firstCluster := found.firstCluster, size := found.size, isDir := found.isDir }, some i)

structure Child where
  name : List UInt8
  isDir : Bool
  size : Nat
deriving DecidableEq

/-- The entries of a sector; `true` when the end of the directory was met. -/
def listEntries (sec : Bytes) : List Nat → List Child × Bool
  | [] => ([], false)
  | e :: rest =>
    let ent := sec.drop (e * 32)
    if ent 0 = dentEnd then ([], true)
    else
      let (others, ended) := listEntries sec rest
      let name := nameFrom83 ent
      if skipped ent ∨ name.head? = some dot then (others, ended)
      else (⟨name, ent 11 &&& attrDir != 0, ent.rd32 28⟩ :: others, ended)

/-- The entries of a cluster, and the result when the listing is over: whether it was read. -/
def listSectors (v : Volume) (c : Nat) : List Nat → List Child × Option Bool
  | [] => ([], none)
  | s :: rest =>
    match secRead v (clusLba v c + s) with
    | none => ([], some false)
    | some sec =>
      match listEntries sec (List.range perSector) with
      | (here, true) => (here, some true)
      | (here, false) =>
        let (others, excess) := listSectors v c rest
        (here ++ others, excess)

def listStep (v : Volume) (s : Nat × List Child) : Step (Nat × List Child) (List Child × Bool) :=
  let (c, seen) := s
  if !clusValid v c then .done (seen, true)
  else match listSectors v c (List.range v.geo.secPerClus) with
    | (here, some ok) => .done (seen ++ here, ok)
    | (here, none) => .again ((chainNext v c).getD 0, seen ++ here)

def fat32Readdir (v : Volume) (fuel : Nat) (path : List UInt8) : Option (List Child × Bool) := do
  let some found ← pathResolve v fuel path | return ([], false)
  if found.isDir then loop (listStep v) fuel (found.dir v, []) else return ([], false)

def fat32Read (v : Volume) (fuel i offset len : Nat) : Option (Option (List UInt8)) :=
  match v.nodes[i]? with
  | none => some none
  | some nd => if nd.isDir then some none else fatReadFile v fuel nd offset len

def fat32Write (now : Clock) (v : Volume) (fuel i offset : Nat) (input : List UInt8) : Option (Volume × Option Nat) :=
  match v.nodes[i]? with
  | none => some (v, none)
  | some nd =>
    if nd.isDir ∨ v.ro ∨ nd.dead then some (v, none)
    else do
      let (v, nd, r) ← fatWriteFile now v fuel nd offset input
      return (v.setNode i fun _ => nd, r)

def newEntry (now : Clock) (name : Bytes) : Bytes :=
  let raw := (Bytes.zeros.copy 0 name 11).wr 1 11 attrArchive.toNat
  fatStamp now raw true

def fat32Create (now : Clock) (v : Volume) (fuel : Nat) (path : List UInt8) (initial : List UInt8) : Option (Volume × Bool) :=
  if v.ro then some (v, false)
  else do
    let .none ← pathResolve v fuel path | return (v, false)
    let some (parent, name) ← splitParent v fuel path | return (v, false)
    match ← dirAllocSlot v fuel parent with
    | (v, none) => return (v, false)
    | (v, some (ec, eo)) =>
      match dentWriteBack v ⟨ec, eo, newEntry now name⟩ with
      | (v, false) => return (v, false)
      | (v, true) =>
        let (v, _, r) ← fatWriteFile now v fuel ⟨0, 0, false, ec, eo, false⟩ 0 initial
        return (v, r.isSome)

def freeFrom (fuel : Nat) (v : Volume) (fc : Nat) : Option Volume := if 2 ≤ fc then fatFreeChain fuel v fc else some v

def fat32Remove (v : Volume) (fuel : Nat) (path : List UInt8) : Option (Volume × Bool) :=
  if v.ro then some (v, false)
  else do
    let some found ← pathResolve v fuel path | return (v, false)
    let some loc := found.loc | return (v, false)
    let v ← freeFrom fuel v found.firstCluster
    return dentWriteBack (inodeKill v loc.clus loc.off) { loc with raw := loc.raw.wr 1 0 dentFree.toNat }

/-- The cluster that keeps the new end: a chain that is too short stays where it is. -/
def cutAt (v : Volume) : Nat → Nat → Nat
  | 0, c => c
  | i + 1, c => if clusValid v c then cutAt v i ((chainNext v c).getD c) else c

def zeroTail (c keep : Nat) : List Nat → Volume → Volume × Bool
  | [], v => (v, true)
  | s :: rest, v =>
    match secRead v (clusLba v c + s) with
    | none => (v, false)
    | some sec =>
      let start := if s = keep / secsz then keep % secsz else 0
      match secWrite v (clusLba v c + s) (sec.copy start Bytes.zeros (secsz - start)) with
      | none => (v, false)
      | some v => zeroTail c keep rest v

def freeTail (fuel : Nat) (v : Volume) : Option Nat → Option Volume
  | some n => fatFreeChain fuel v n
  | none => some v

/-- Shrink a chain to `need` clusters; the new first cluster and whether the rest was cleared. -/
def shrinkChain (v : Volume) (fuel fc need newSize : Nat) : Option (Volume × Nat × Bool) :=
  if need = 0 then do
    let v ← freeFrom fuel v fc
    return (v, 0, true)
  else do
    let c := cutAt v (need - 1) fc
    let tail := chainNext v c
    let v := (fatSet v c fatEoc).1
    let v ← freeTail fuel v tail
    let keep := newSize % v.geo.clusBytes
    if keep ≠ 0 ∧ clusValid v c then
      let first := keep / secsz
      let (v, ok) := zeroTail c keep (List.range' first (v.geo.secPerClus - first)) v
      return (v, fc, ok)
    else return (v, fc, true)

def resizeChain (v : Volume) (fuel : Nat) (found : Found) (need newSize : Nat) : Option (Volume × Nat × Bool) :=
  if newSize ≤ found.size then shrinkChain v fuel found.firstCluster need newSize
  else fatEnsureClusters v fuel found.firstCluster need

def fat32Truncate (now : Clock) (v : Volume) (fuel : Nat) (path : List UInt8) (newSize : Nat) : Option (Volume × Bool) :=
  if v.ro then some (v, false)
  else do
    let some found ← pathResolve v fuel path | return (v, false)
    let some loc := found.loc | return (v, false)
    if found.isDir then return (v, false)
    let need := (newSize + v.geo.clusBytes - 1) % 2 ^ 64 / v.geo.clusBytes % 2 ^ 32
    let (v, fc, ok) ← resizeChain v fuel found need newSize
    if !ok then return (v, false)
    let raw := ((loc.raw.wr16 20 (fc / 2 ^ 16)).wr16 26 (fc % 2 ^ 16)).wr32 28 newSize
    return dentWriteBack v { loc with raw := fatStamp now raw false }

/-- What a rename needs once the name is free: the old entry, its directory, the new one and
the new name. -/
structure Renaming where
  found : Found
  loc : DentLoc
  oparent : Nat
  parent : Nat
  name : Bytes

inductive Cleared where
  | failed
  | same
  | ready (r : Renaming)

def freeTarget (fuel : Nat) (v : Volume) (target found : Found) : Option Volume :=
  if target.firstCluster = found.firstCluster then some v else freeFrom fuel v target.firstCluster

def renameClear (v : Volume) (fuel : Nat) (oldp newp : List UInt8) : Option (Volume × Cleared) := do
  let some found ← pathResolve v fuel oldp | return (v, .failed)
  let some loc := found.loc | return (v, .failed)
  let some (parent, name) ← splitParent v fuel newp | return (v, .failed)
  let some (oparent, oname) ← splitParent v fuel oldp | return (v, .failed)
  if rawEq name oname ∧ parent = oparent then return (v, .same)
  let ready := Cleared.ready ⟨found, loc, oparent, parent, name⟩
  let some target ← pathResolve v fuel newp | return (v, ready)
  let some tl := target.loc | return (v, .failed)
  let v ← freeTarget fuel v target found
  match dentWriteBack (inodeKill v tl.clus tl.off) { tl with raw := tl.raw.wr 1 0 dentFree.toNat } with
  | (v, false) => return (v, .failed)
  | (v, true) => return (v, ready)

def fixParent (v : Volume) (r : Renaming) : Volume × Bool :=
  if r.found.isDir ∧ 2 ≤ r.found.firstCluster ∧ r.parent ≠ r.oparent then
    let lba := clusLba v r.found.firstCluster
    match secRead v lba with
    | none => (v, false)
    | some sec =>
      if sec 32 = dot ∧ sec 33 = dot then
        let pc := if r.parent = v.geo.rootClus then 0 else r.parent
        match secWrite v lba ((sec.wr16 52 (pc / 2 ^ 16)).wr16 58 (pc % 2 ^ 16)) with
        | none => (v, false)
        | some v => (v, true)
      else (v, true)
  else (v, true)

def renameMove (v : Volume) (r : Renaming) (ec eo : Nat) : Volume × Bool :=
  match dentWriteBack v ⟨ec, eo, r.loc.raw.copy 0 r.name 11⟩ with
  | (v, false) => (v, false)
  | (v, true) =>
    match dentWriteBack v { r.loc with raw := r.loc.raw.wr 1 0 dentFree.toNat } with
    | (v, false) => (v, false)
    | (v, true) => fixParent (inodeMove v r.loc.clus r.loc.off ec eo) r

def fat32Rename (v : Volume) (fuel : Nat) (oldp newp : List UInt8) : Option (Volume × Bool) :=
  if v.ro then some (v, false)
  else do
    match ← renameClear v fuel oldp newp with
    | (v, .failed) => return (v, false)
    | (v, .same) => return (v, true)
    | (v, .ready r) =>
      match ← dirAllocSlot v fuel r.parent with
      | (v, none) => return (v, false)
      | (v, some (ec, eo)) => return renameMove v r ec eo

inductive Op where
  | lookup (memory : Bool) (path : List UInt8)
  | readdir (path : List UInt8)
  | read (i offset len : Nat)
  | write (now : Clock) (i offset : Nat) (input : List UInt8)
  | create (now : Clock) (path initial : List UInt8)
  | truncate (now : Clock) (path : List UInt8) (newSize : Nat)
  | rename (oldp newp : List UInt8)
  | remove (path : List UInt8)

/-- The volume after an operation; nothing when the fuel is not enough. -/
def perform (v : Volume) (fuel : Nat) : Op → Option Volume
  | .lookup memory path => (·.1) <$> fat32Lookup memory v fuel path
  | .readdir path => (fun _ => v) <$> fat32Readdir v fuel path
  | .read i offset len => (fun _ => v) <$> fat32Read v fuel i offset len
  | .write now i offset input => (·.1) <$> fat32Write now v fuel i offset input
  | .create now path initial => (·.1) <$> fat32Create now v fuel path initial
  | .truncate now path newSize => (·.1) <$> fat32Truncate now v fuel path newSize
  | .rename oldp newp => (·.1) <$> fat32Rename v fuel oldp newp
  | .remove path => (·.1) <$> fat32Remove v fuel path

end SecOS.Fat32
