import SecOS.Library.Bytes
import SecOS.Library.Words
import SecOS.Library.Spans

/-! The kernel heap (mm/heap.c): one singly linked list of blocks, free and used, whose
headers lie in the memory they manage. A structure is read and written as a whole, with
the fields that the code does not assign kept; addresses are computed on 64 bits. A
detected corruption stops the machine, which is an error here; so is a walk along a list
that does not end. The release configuration: no poisoning and no periodic check. -/

namespace SecOS.Heap
open Library

def hdr : Nat := 48
def heapAlign : Nat := 16
def heapTail : Nat := 8
def heapMinSplit : Nat := 32
def pmmFrameSize : Nat := 4096

def magicUsed : Nat := 0xA110CA7E
def magicFree : Nat := 0xF7EEB10C
def magicAlign : Nat := 0xA1167ED0
def magicMerged : Nat := 0x3E46EDDD
def poisonU32 : Nat := 0xDEDEDEDE
def flagAligned : Nat := 1

structure Header where
  magic : Nat
  flags : Nat
  size : Nat
  req : Nat
  next : Nat
  caller : Nat
  check : Nat
deriving DecidableEq

def load (mem : Bytes) (a : Nat) : Header :=
  ⟨mem.rd 4 a, mem.rd 4 (a + 4), mem.rd 8 (a + 8), mem.rd 8 (a + 16), mem.rd 8 (a + 24), mem.rd 8 (a + 32), mem.rd 8 (a + 40)⟩

def store (mem : Bytes) (a : Nat) (h : Header) : Bytes :=
  ((((((mem.wr 4 a h.magic).wr 4 (a + 4) h.flags).wr 8 (a + 8) h.size).wr 8 (a + 16) h.req).wr 8 (a + 24) h.next).wr 8
    (a + 32) h.caller).wr 8 (a + 40) h.check

/-- `runs` are the regions obtained so far; the code keeps their bounds only. -/
structure State where
  mem : Bytes
  start : Nat
  totalAllocated : Nat
  totalFreed : Nat
  secret : Word
  lo : Nat
  hi : Nat
  runs : List Span

def hbMix (x : Word) : Word :=
  let x := 0xBF58476D1CE4E5B9#64 * (x ^^^ x >>> 30)
  let x := 0x94D049BB133111EB#64 * (x ^^^ x >>> 27)
  x ^^^ x >>> 31

/-- The keyed hash of a header at its address; the check field does not enter. -/
def hbCalc (secret : Word) (a : Nat) (h : Header) : Nat :=
  let x := secret ^^^ BitVec.ofNat 64 a
  let x := hbMix (x ^^^ BitVec.ofNat 64 (2 ^ 32 * h.magic + h.flags))
  let x := hbMix (x ^^^ BitVec.ofNat 64 h.size)
  let x := hbMix (x ^^^ BitVec.ofNat 64 h.req)
  let x := hbMix (x ^^^ BitVec.ofNat 64 h.next)
  (hbMix (x ^^^ BitVec.ofNat 64 h.caller)).toNat

def hbSeal (secret : Word) (a : Nat) (h : Header) : Header := { h with check := hbCalc secret a h }

def hbPayload (a : Nat) : Nat := (a + hdr) % 2 ^ 64

def hbTailValue (secret : Word) (payload : Nat) : Nat := (hbMix (secret ^^^ BitVec.ofNat 64 payload ^^^ 0x7A11CA9A11#64)).toNat

def hbTailWrite (mem : Bytes) (secret : Word) (a req : Nat) : Bytes :=
  mem.wr heapTail ((hbPayload a + req) % 2 ^ 64) (hbTailValue secret (hbPayload a))

def hbTailRead (mem : Bytes) (a req : Nat) : Nat := mem.rd heapTail ((hbPayload a + req) % 2 ^ 64)

inductive Kind where
  | outside
  | badMagic
  | checkMismatch
  | sizeRange
  | reqSize
  | listCycle
  | overlap
  | tailSmashed
  | freeMisaligned
  | freeOutside
  | stubMismatch
  | doubleFreeAligned
  | stubOwner
  | doubleFree
  | doubleFreePoisoned
  | freeNotBlock
  | freeRawAligned
  /-- A walk that the code would not leave. -/
  | endless
deriving DecidableEq, Repr

structure Fault where
  kind : Kind
  block : Nat
  expected : Nat
  found : Nat

def hbInHeap (h : State) (a : Nat) : Bool := a % heapAlign == 0 && decide (a ≥ h.lo) && decide ((a + hdr) % 2 ^ 64 ≤ h.hi)

def hbVerify (h : State) (a : Nat) : Except Fault Unit :=
  let b := load h.mem a
  if !hbInHeap h a then .error ⟨.outside, a, h.lo, a⟩
  else if b.magic ≠ magicUsed ∧ b.magic ≠ magicFree then .error ⟨.badMagic, a, magicUsed, b.magic⟩
  else if b.check ≠ hbCalc h.secret a b then .error ⟨.checkMismatch, a, hbCalc h.secret a b, b.check⟩
  else if b.size % heapAlign ≠ 0 ∨ (hbPayload a + b.size) % 2 ^ 64 > h.hi then
    .error ⟨.sizeRange, a, (h.hi + 2 ^ 64 - hbPayload a) % 2 ^ 64, b.size⟩
  else if b.magic = magicUsed ∧ (b.req + heapTail) % 2 ^ 64 > b.size then .error ⟨.reqSize, a, b.size, b.req⟩
  else .ok ()

def blockLimit (h : State) : Nat := (h.hi - h.lo) / heapAlign + 1

def physmapBase : Nat := 0xFFFF888000000000

def physToVirt (phys : Nat) : Nat := (physmapBase + phys) % 2 ^ 64

def heapTrackRegion (h : State) (base len : Nat) : State :=
  { h with lo := if h.lo = 0 ∨ base < h.lo then base else h.lo,
           hi := if (base + len) % 2 ^ 64 > h.hi then (base + len) % 2 ^ 64 else h.hi,
           runs := h.runs ++ [⟨base, len⟩] }

def freeHeader (secret : Word) (a size : Nat) : Header := hbSeal secret a ⟨magicFree, 0, size, 0, 0, 0, 0⟩

/-- `phys` is the first frame, `mem` the memory as it is. -/
def heapInit (mem : Bytes) (secret : Word) (phys : Nat) : State :=
  let start := physToVirt phys
  let h := heapTrackRegion ⟨mem, start, 0, 0, secret, 0, 0, []⟩ start pmmFrameSize
  { h with mem := store mem start (freeHeader secret start (pmmFrameSize - hdr)) }

/-- What the physical memory manager answers to a request for contiguous frames. -/
abbrev Grant := Nat → Option Nat

def framesFor (need : Nat) : Nat :=
  let frames := (need + hdr + pmmFrameSize - 1) % 2 ^ 64 / pmmFrameSize
  if frames = 0 then 1 else frames

def expandHeap (h : State) (grant : Grant) (last need : Nat) : State × Nat :=
  let frames := framesFor need
  match grant frames with
  | none => (h, 0)
  | some phys =>
    let nb := physToVirt phys
    let h := heapTrackRegion h nb (frames * pmmFrameSize % 2 ^ 64)
    let mem := store h.mem nb (freeHeader h.secret nb ((frames * pmmFrameSize + 2 ^ 64 - hdr) % 2 ^ 64))
    ({ h with mem := store mem last (hbSeal h.secret last { load mem last with next := nb }) }, nb)

def alignUp (size alignment : Nat) : Nat := (size + alignment - 1) % 2 ^ 64 / alignment * alignment

/-- First fit from `cur` on: the block before it and the block, 0 at the end of the list. -/
def findFree (h : State) (need : Nat) : Nat → Nat → Nat → Except Fault (Nat × Nat)
  | 0, _, cur => .error ⟨.endless, cur, 0, 0⟩
  | rounds + 1, last, cur =>
    if cur = 0 then .ok (last, 0)
    else match hbVerify h cur with
      | .error fault => .error fault
      | .ok _ =>
        let b := load h.mem cur
        if b.magic = magicFree ∧ b.size ≥ need then .ok (last, cur) else findFree h need rounds cur b.next

/-- Split the free block if the rest is worth a header, and mark it used. -/
def takeBlock (h : State) (cur need req caller : Nat) : State :=
  let b := load h.mem cur
  let remaining := (b.size + 2 ^ 64 - need) % 2 ^ 64
  let split := remaining ≥ hdr + heapMinSplit
  let nb := (hbPayload cur + need) % 2 ^ 64
  let mem := if split then store h.mem nb (hbSeal h.secret nb ⟨magicFree, 0, remaining - hdr, 0, b.next, b.caller, 0⟩) else h.mem
  let b := if split then { b with next := nb, size := need } else b
  let b := hbSeal h.secret cur { b with magic := magicUsed, flags := 0, req := req, caller := caller }
  { h with mem := hbTailWrite (store mem cur b) h.secret cur req, totalAllocated := (h.totalAllocated + b.size) % 2 ^ 64 }

def heapAllocLocked (h : State) (grant : Grant) (req caller : Nat) : Except Fault (State × Nat) :=
  let need := alignUp ((req + heapTail) % 2 ^ 64) heapAlign
  if need < req then .ok (h, 0)
  else match findFree h need (blockLimit h + 1) 0 h.start with
    | .error fault => .error fault
    | .ok (last, cur) =>
      if cur ≠ 0 then .ok (takeBlock h cur need req caller, cur)
      else
        let (h, nb) := expandHeap h grant last need
        if nb = 0 then .ok (h, 0) else .ok (takeBlock h nb need req caller, nb)

def kmalloc (h : State) (grant : Grant) (size caller : Nat) : Except Fault (State × Nat) :=
  if size = 0 ∨ h.start = 0 then .ok (h, 0)
  else match heapAllocLocked h grant size caller with
    | .error fault => .error fault
    | .ok (h, b) => if b = 0 then .ok (h, 0) else .ok (h, hbPayload b)

/-- The stub below the aligned pointer, and the owner that knows of it. -/
def alignBlock (h : State) (b size alignment caller : Nat) : State × Nat :=
  let p := hbPayload b
  let r := alignUp ((p + hdr) % 2 ^ 64) alignment
  let stub := (r + 2 ^ 64 - hdr) % 2 ^ 64
  let mem := store h.mem stub (hbSeal h.secret stub ⟨magicAlign, 0, size, size, b, caller, 0⟩)
  let owner := load mem b
  let req := ((r + 2 ^ 64 - p) % 2 ^ 64 + size) % 2 ^ 64
  let owner := hbSeal h.secret b { owner with flags := owner.flags ||| flagAligned, req := req }
  ({ h with mem := hbTailWrite (store mem b owner) h.secret b req }, r)

def kmallocAligned (h : State) (grant : Grant) (size alignment caller : Nat) : Except Fault (State × Nat) :=
  if size = 0 ∨ alignment = 0 ∨ alignment &&& (alignment - 1) ≠ 0 ∨ h.start = 0 then .ok (h, 0)
  else if alignment ≤ heapAlign then
    match heapAllocLocked h grant size caller with
    | .error fault => .error fault
    | .ok (h, b) => if b = 0 then .ok (h, 0) else .ok (h, hbPayload b)
  else
    let req := (size + alignment + hdr) % 2 ^ 64
    if req > size then
      match heapAllocLocked h grant req caller with
      | .error fault => .error fault
      | .ok (h, b) => if b = 0 then .ok (h, 0) else .ok (alignBlock h b size alignment caller)
    else .ok (h, 0)

def resolveStub (h : State) (p : Nat) (stub : Header) : Except Fault Nat :=
  let a := p - hdr
  if stub.check ≠ hbCalc h.secret a stub then .error ⟨.stubMismatch, a, hbCalc h.secret a stub, stub.check⟩
  else match hbVerify h stub.next with
    | .error fault => .error fault
    | .ok _ =>
      let owner := load h.mem stub.next
      let lo := (hbPayload stub.next + hdr) % 2 ^ 64
      let hi := (hbPayload stub.next + owner.req) % 2 ^ 64
      if owner.magic = magicFree then .error ⟨.doubleFreeAligned, p, magicUsed, owner.magic⟩
      else if owner.flags &&& flagAligned = 0 ∨ p < lo ∨ p ≥ hi then .error ⟨.stubOwner, p, stub.next, p⟩
      else .ok stub.next

def heapResolveLocked (h : State) (p : Nat) : Except Fault Nat :=
  let a := p - hdr
  let b := load h.mem a
  if p % heapAlign ≠ 0 then .error ⟨.freeMisaligned, p, alignUp p heapAlign, p⟩
  else if p < (h.lo + hdr) % 2 ^ 64 ∨ p > h.hi then .error ⟨.freeOutside, p, h.lo, p⟩
  else if b.magic = magicAlign then resolveStub h p b
  else if b.magic = magicFree ∨ b.magic = magicMerged then
    if b.check = hbCalc h.secret a b then .error ⟨.doubleFree, p, magicUsed, b.magic⟩
    else .error ⟨.checkMismatch, a, hbCalc h.secret a b, b.check⟩
  else if b.magic = poisonU32 then .error ⟨.doubleFreePoisoned, p, magicUsed, b.magic⟩
  else if b.magic ≠ magicUsed then .error ⟨.freeNotBlock, p, magicUsed, b.magic⟩
  else match hbVerify h a with
    | .error fault => .error fault
    | .ok _ => if b.flags &&& flagAligned ≠ 0 then .error ⟨.freeRawAligned, p, 0, b.flags⟩ else .ok a

/-- One pass over the list: a free block swallows a free successor that starts where it ends. -/
def coalesce (h : State) : Nat → Nat → Except Fault State
  | 0, cur => .error ⟨.endless, cur, 0, 0⟩
  | rounds + 1, cur =>
    let c := load h.mem cur
    if c.next = 0 then .ok h
    else match hbVerify h c.next with
      | .error fault => .error fault
      | .ok _ =>
        let n := load h.mem c.next
        if c.magic = magicFree ∧ n.magic = magicFree ∧ (hbPayload cur + c.size) % 2 ^ 64 = c.next then
          let mem := store h.mem cur (hbSeal h.secret cur { c with size := (c.size + (hdr + n.size)) % 2 ^ 64, next := n.next })
          let mem := store mem c.next (hbSeal h.secret c.next { n with magic := magicMerged })
          coalesce { h with mem := mem } rounds cur
        else coalesce h rounds c.next

def heapFreeBlockLocked (h : State) (a caller : Nat) : Except Fault State :=
  let b := load h.mem a
  let want := hbTailValue h.secret (hbPayload a)
  let got := hbTailRead h.mem a b.req
  if got ≠ want then .error ⟨.tailSmashed, a, want, got⟩
  else
    let freed := hbSeal h.secret a { b with magic := magicFree, flags := 0, req := 0, caller := caller }
    let h := { h with mem := store h.mem a freed, totalFreed := (h.totalFreed + b.size) % 2 ^ 64 }
    match hbVerify h h.start with
    | .error fault => .error fault
    | .ok _ => coalesce h (blockLimit h + 1) h.start

def kfree (h : State) (p caller : Nat) : Except Fault State :=
  if p = 0 ∨ h.start = 0 then .ok h
  else match heapResolveLocked h p with
    | .error fault => .error fault
    | .ok a => heapFreeBlockLocked h a caller

structure WalkStats where
  blocks : Nat
  usedBlocks : Nat
  freeBlocks : Nat
  usedBytes : Nat
  freeBytes : Nat
  largestFree : Nat
deriving DecidableEq

def checkBlock (h : State) (a : Nat) (s : WalkStats) : Except Fault WalkStats :=
  let b := load h.mem a
  let stop := (hbPayload a + b.size) % 2 ^ 64
  if s.blocks > blockLimit h then .error ⟨.listCycle, a, blockLimit h, s.blocks⟩
  else match hbVerify h a with
    | .error fault => .error fault
    | .ok _ =>
      if b.next ≠ 0 ∧ b.next > a ∧ b.next < stop then .error ⟨.overlap, a, stop, b.next⟩
      else if b.magic = magicUsed then
        if hbTailRead h.mem a b.req ≠ hbTailValue h.secret (hbPayload a) then
          .error ⟨.tailSmashed, a, hbTailValue h.secret (hbPayload a), hbTailRead h.mem a b.req⟩
        else .ok { s with usedBlocks := s.usedBlocks + 1, usedBytes := (s.usedBytes + b.size) % 2 ^ 64 }
      else .ok { s with freeBlocks := s.freeBlocks + 1, freeBytes := (s.freeBytes + b.size) % 2 ^ 64,
                        largestFree := if b.size > s.largestFree then b.size else s.largestFree }

def checkFrom (h : State) : Nat → Nat → WalkStats → Except Fault WalkStats
  | 0, cur, _ => .error ⟨.endless, cur, 0, 0⟩
  | rounds + 1, cur, s =>
    if cur = 0 then .ok s
    else match checkBlock h cur { s with blocks := s.blocks + 1 } with
      | .error fault => .error fault
      | .ok s => checkFrom h rounds (load h.mem cur).next s

def heapCheckLocked (h : State) : Except Fault WalkStats := checkFrom h (blockLimit h + 2) h.start ⟨0, 0, 0, 0, 0, 0⟩

structure Allocation where
  ptr : Nat
  size : Nat
deriving DecidableEq

structure World where
  heap : State
  live : List Allocation

inductive Event where
  | kmalloc (grant : Grant) (size caller : Nat)
  | kmallocAligned (grant : Grant) (size alignment caller : Nat)
  | kfree (p caller : Nat)
  | write (a : Nat) (value : UInt8)

def hold (live : List Allocation) (p size : Nat) : List Allocation := if p = 0 then live else ⟨p, size⟩ :: live

def step (w : World) : Event → Except Fault (World × Nat)
  | .kmalloc grant size caller =>
    match kmalloc w.heap grant size caller with
    | .error fault => .error fault
    | .ok (h, p) => .ok (⟨h, hold w.live p size⟩, p)
  | .kmallocAligned grant size alignment caller =>
    match kmallocAligned w.heap grant size alignment caller with
    | .error fault => .error fault
    | .ok (h, p) => .ok (⟨h, hold w.live p size⟩, p)
  | .kfree p caller =>
    match kfree w.heap p caller with
    | .error fault => .error fault
    | .ok h => .ok (⟨h, w.live.filter (·.ptr ≠ p)⟩, 0)
  | .write a value => .ok (⟨{ w.heap with mem := Function.update w.heap.mem a value }, w.live⟩, 0)

end SecOS.Heap
