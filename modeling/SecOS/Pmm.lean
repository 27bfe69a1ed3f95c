import SecOS.Library.Words

/-! The physical memory manager (mm/pmm.c): the early bump allocator, the
sectioned bitmap allocator that replaces it, and the copy-on-write reference
counts. Frames and addresses are natural numbers; the arithmetic that can wrap
is reduced explicitly. Reference-count chunks live in frames of the same memory
they count, so a chunk is a frame number and its bytes are read from `mem`. -/

namespace SecOS.Pmm
open Library Function

def frameSize : Nat := 4096
def dma32Limit : Nat := 0x100000000
def earlyLimit : Nat := 0x20000000
def refSticky : UInt8 := 0xFF

def noLimit : Nat := 2 ^ 64 - 1

def sectionBytes : Nat := 33928

theorem frame_div (f : Nat) : f * frameSize / frameSize = f := Nat.mul_div_cancel _ (by decide)

structure Range where
  start : Nat
  stop : Nat
deriving DecidableEq, Repr

/-- One gigabyte of frames: 4096 bitmap words, 64 summary words over them, and 64
lazily allocated chunks of 4096 reference counts each. -/
structure Section where
  free : Nat
  hint : Nat
  refs : Nat → Option Nat
  refsUsed : Nat → Nat
  summary : Nat → Word
  bitmap : Nat → Word

structure State where
  avail : List Range
  earlyCur : Nat → Nat
  earlyTop : Nat → Nat
  resv : List Range
  physmapReady : Bool
  maxPhys : Nat
  sectioned : Bool
  nsec : Nat
  sec : Nat → Option Section
  hintNormal : Nat
  hintDma32 : Nat
  freeFrames : Nat
  earlyUsed : Nat
  metaBytes : Nat
  refChunks : Nat
  mem : Nat → Nat → UInt8

def popcount64 (x : Word) : Word :=
  let x := x - ((x >>> 1) &&& 0x5555555555555555#64)
  let x := (x &&& 0x3333333333333333#64) + ((x >>> 2) &&& 0x3333333333333333#64)
  let x := (x + (x >>> 4)) &&& 0x0F0F0F0F0F0F0F0F#64
  (x * 0x0101010101010101#64) >>> 56

def alignMask (a : Nat) : Nat := 2 ^ 64 - 1 - (a + (2 ^ 64 - 1)) % 2 ^ 64

def alignUp (v a : Nat) : Nat := (v + a + (2 ^ 64 - 1)) % 2 ^ 64 &&& alignMask a
def alignDown (v a : Nat) : Nat := v &&& alignMask a

def resvOverlap (resv : List Range) (s e : Nat) : Option Range :=
  resv.find? (fun r => r.start < e && s < r.stop)

theorem resvOverlap_some {resv : List Range} {s e : Nat} {r : Range} (found : resvOverlap resv s e = some r) :
    r.start < e ∧ s < r.stop := by
  simpa using List.find?_some found

/-- One usable range, bottom up. Every jump goes to the end of a reserved range, so a
search that takes more rounds than there are such ranges never ends. -/
def earlyFit (resv : List Range) (size align top limit : Nat) : Nat → Nat → Option Nat
  | 0, _ => none
  | rounds + 1, cur =>
    let stop := (cur + size) % 2 ^ 64
    if stop > top ∨ stop > limit then none
    else match resvOverlap resv cur stop with
      | none => some cur
      | some r => earlyFit resv size align top limit rounds (alignUp r.stop align)

def earlyTake (state : State) (i cur size : Nat) : State :=
  let stop := (cur + size) % 2 ^ 64
  let start := max (alignUp (state.earlyCur i) frameSize) (alignDown cur frameSize)
  { state with
    earlyUsed := state.earlyUsed + (alignUp stop frameSize - start) / frameSize
    earlyCur := update state.earlyCur i stop }

def earlySearch (state : State) (size align limit i : Nat) : Option (Nat × Nat) :=
  (earlyFit state.resv size align (state.earlyTop i) limit (state.resv.length + 2) (alignUp (state.earlyCur i) align)).map (i, ·)

def earlyAlloc (state : State) (size align limit : Nat) : State × Nat :=
  match (List.range state.avail.length).findSome? (earlySearch state size align limit) with
  | none => (state, 0)
  | some (i, cur) => (earlyTake state i cur size, cur)

def earlyFitTop (resv : List Range) (size align cur start top : Nat) : Option Nat :=
  if top < size then none
  else
    let s := alignDown (top - size) align
    if s < cur ∨ s < start then none
    else match _found : resvOverlap resv s (s + size) with
      | none => some s
      | some r => earlyFitTop resv size align cur start r.start
termination_by top
decreasing_by
  have overlap := (resvOverlap_some _found).1
  have below : alignDown (top - size) align ≤ top - size := Nat.and_le_left
  simp only [s] at overlap
  omega

def earlyAllocTopFrom (state : State) (size align : Nat) : List Nat → State × Nat
  | [] => (state, 0)
  | i :: rest =>
    match earlyFitTop state.resv size align (state.earlyCur i) ((state.avail.getD i ⟨0, 0⟩).start) (state.earlyTop i) with
    | none => earlyAllocTopFrom state size align rest
    | some s =>
      let top := min (alignDown (state.earlyTop i) frameSize) (alignUp (s + size) frameSize)
      ({ state with
          earlyUsed := state.earlyUsed + (top - alignDown s frameSize) / frameSize
          earlyTop := update state.earlyTop i s }, s)

def earlyAllocTop (state : State) (size align : Nat) : State × Nat :=
  earlyAllocTopFrom state size align (List.range state.avail.length).reverse

def secOf (state : State) (frame : Nat) : Option Section :=
  if frame / 2 ^ 18 < state.nsec then state.sec (frame / 2 ^ 18) else none

def setSec (state : State) (index : Nat) (s : Section) : State :=
  { state with sec := update state.sec index (some s) }

def secSummaryUpdate (s : Section) (w : Nat) : Section :=
  let bit := 1#64 <<< (w % 64)
  if s.bitmap w = BitVec.allOnes 64 then
    { s with summary := update s.summary (w / 64) (s.summary (w / 64) ||| bit) }
  else
    { s with summary := update s.summary (w / 64) (s.summary (w / 64) &&& ~~~bit) }

/-- The word loop of `sec_mark`: frames `[lo, hi)` one bitmap word at a time. -/
def secMarkWords (s : Section) (lo hi : Nat) (set : Bool) (changed : Nat) : Section × Nat :=
  if lo < hi then
    let w := lo / 64
    let b := lo % 64
    let n := min (64 - b) (hi - lo)
    let mask : Word := if n = 64 then BitVec.allOnes 64 else ((1#64 <<< n) - 1#64) <<< b
    let old := s.bitmap w
    let nw := if set then old ||| mask else old &&& ~~~mask
    let s := secSummaryUpdate { s with bitmap := update s.bitmap w nw } w
    secMarkWords s (lo + n) hi set (changed + (popcount64 (old ^^^ nw)).toNat)
  else (s, changed)
termination_by hi - lo
decreasing_by
  have bit : lo % 64 < 64 := Nat.mod_lt _ (by decide)
  omega

def secMark (s : Section) (lo hi : Nat) (set : Bool) : Section × Nat :=
  let (s, changed) := secMarkWords s lo hi set 0
  if set then ({ s with free := (s.free + 2 ^ 32 - changed % 2 ^ 32) % 2 ^ 32 }, changed)
  else ({ s with free := (s.free + changed % 2 ^ 32) % 2 ^ 32 }, changed)

/-- `sec_mark` on the section at `index`, with `g_free_frames` kept in step. -/
def markSection (state : State) (index : Nat) (s : Section) (lo hi : Nat) (set : Bool) : State :=
  let (s, c) := secMark s lo hi set
  { setSec state index s with
    freeFrames := if set then (state.freeFrames + 2 ^ 64 - c) % 2 ^ 64 else (state.freeFrames + c) % 2 ^ 64 }

theorem section_step {lo hi : Nat} (more : lo < hi) : hi - min hi ((lo / 2 ^ 18 + 1) * 2 ^ 18) < hi - lo := by
  omega

/-- Sections without RAM are skipped; the global count follows the sections. -/
def framesMark (state : State) (lo hi : Nat) (set : Bool) : State :=
  if lo < hi then
    let index := lo / 2 ^ 18
    let base := index * 2 ^ 18
    let e := min hi ((index + 1) * 2 ^ 18)
    match (if index < state.nsec then state.sec index else none) with
    | none => framesMark state e hi set
    | some s => framesMark (markSection state index s (lo - base) (e - base) set) e hi set
  else state
termination_by hi - lo
decreasing_by all_goals exact section_step (by assumption)

/-- One pass of `sec_find` over words `[w, stop)`: the word and the frame found. -/
def secScan (s : Section) (w stop max : Nat) : Option (Nat × Nat) :=
  if w < stop then
    let sw := s.summary (w / 64) ||| ((1#64 <<< (w % 64)) - 1#64)
    if sw = BitVec.allOnes 64 then secScan s ((w / 64 + 1) * 64) stop max
    else
      let word := w / 64 * 64 + Word.lowest (~~~sw)
      if stop ≤ word then none
      else
        let f := word * 64 + Word.lowest (~~~(s.bitmap word))
        if f < max then some (word, f) else none
  else none
termination_by stop - w
decreasing_by omega

def secFind (s : Section) (max : Nat) : Option (Section × Nat) :=
  if s.free = 0 then none
  else
    let words := (max + 63) / 64
    let start := if s.hint < words then s.hint else 0
    match (secScan s start words max).or (secScan s 0 start max) with
    | some (word, f) => some ({ s with hint := word % 2 ^ 32 }, f)
    | none => none

def takeFrames (state : State) (index : Nat) (s : Section) (lo n : Nat) : State :=
  { setSec state index (secMark s lo (lo + n) true).1 with freeFrames := (state.freeFrames + 2 ^ 64 - n) % 2 ^ 64 }

/-- The rotating section loop of `alloc_in`, `left` sections still to try. The
result carries the new hint. -/
def allocInFrom (state : State) (sLo sHi fMax h : Nat) : Nat → Option (State × Nat × Nat)
  | 0 => none
  | left + 1 =>
    let k := (sHi - sLo) - (left + 1)
    let index := if h + k ≥ sHi then h + k - (sHi - sLo) else h + k
    let base := index * 2 ^ 18
    match state.sec index with
    | none => allocInFrom state sLo sHi fMax h left
    | some s =>
      if s.free = 0 ∨ fMax ≤ base then allocInFrom state sLo sHi fMax h left
      else match secFind s (min (2 ^ 18) (fMax - base)) with
        | none => allocInFrom state sLo sHi fMax h left
        | some (s, f) => some (takeFrames state index s f 1, base + f, index)

def allocIn (state : State) (sLo sHi fMax hint : Nat) : Option (State × Nat × Nat) :=
  let sHi := min sHi state.nsec
  if sLo ≥ sHi then none
  else
    let h := if hint ≥ sLo ∧ hint < sHi then hint else sLo
    allocInFrom state sLo sHi fMax h (sHi - sLo)

def secCountBelow (limit : Nat) : Nat := (limit + 2 ^ 30 - 1) % 2 ^ 64 / 2 ^ 30

def frameLimit (limit : Nat) : Nat := if limit = noLimit then noLimit else limit / frameSize

/-- Returns the physical address, 0 when nothing was found. Frame 0 is reserved
at boot, so 0 is never the address of a frame handed out. -/
def allocFrameNolockBelow (state : State) (limit : Nat) : State × Nat :=
  if !state.sectioned then earlyAlloc state frameSize frameSize (min limit earlyLimit)
  else
    let normal := if limit > dma32Limit then
        allocIn state (dma32Limit / 2 ^ 30) (secCountBelow (if limit = noLimit then noLimit / 2 else limit))
          (frameLimit limit) state.hintNormal
      else none
    match normal with
    | some (state, f, hint) => ({ state with hintNormal := hint }, f * frameSize)
    | none =>
      let lim := min limit dma32Limit
      match allocIn state 0 (secCountBelow lim) (lim / frameSize) state.hintDma32 with
      | some (state, f, hint) => ({ state with hintDma32 := hint }, f * frameSize)
      | none => (state, 0)

/-- The frame loop of `run_in` inside one section: the start of the first run of
`count` free frames below `max`. -/
def runScan (s : Section) (max count f run runStart : Nat) : Option Nat :=
  if f < max then
    let w := f / 64
    if f % 64 = 0 ∧ f + 64 ≤ max ∧ s.bitmap w = BitVec.allOnes 64 then
      runScan s max count (f + 64) 0 runStart
    else if f % 64 = 0 ∧ f + 64 ≤ max ∧ s.bitmap w = 0#64 then
      let runStart := if run = 0 then f else runStart
      if run + 64 ≥ count then some runStart else runScan s max count (f + 64) (run + 64) runStart
    else if (s.bitmap w).getLsbD (f % 64) = false then
      let runStart := if run = 0 then f else runStart
      if run + 1 ≥ count then some runStart else runScan s max count (f + 1) (run + 1) runStart
    else runScan s max count (f + 1) 0 runStart
  else none
termination_by max - f
decreasing_by all_goals omega

def runInFrom (state : State) (fMax count : Nat) : List Nat → Option (State × Nat)
  | [] => none
  | index :: rest =>
    let base := index * 2 ^ 18
    match state.sec index with
    | none => runInFrom state fMax count rest
    | some s =>
      if s.free < count then runInFrom state fMax count rest
      else if fMax ≤ base then none
      else match runScan s (min (2 ^ 18) (fMax - base)) count 0 0 0 with
        | none => runInFrom state fMax count rest
        | some start => some (takeFrames state index s start count, base + start)

def runIn (state : State) (sLo sHi fMax count : Nat) : Option (State × Nat) :=
  runInFrom state fMax count (List.range' sLo (min sHi state.nsec - sLo))

def allocRunNolockBelow (state : State) (count limit : Nat) : State × Nat :=
  if count = 0 ∨ count > 2 ^ 18 then (state, 0)
  else if !state.sectioned then earlyAlloc state (count * frameSize) frameSize (min limit earlyLimit)
  else
    let normal := if limit > dma32Limit then runIn state (dma32Limit / 2 ^ 30) state.nsec (frameLimit limit) count
      else none
    match normal with
    | some (state, f) => (state, f * frameSize)
    | none =>
      let lim := min limit dma32Limit
      match runIn state 0 (secCountBelow lim) (lim / frameSize) count with
      | some (state, f) => (state, f * frameSize)
      | none => (state, 0)

def sectionsNeeded (state : State) : Nat := (state.maxPhys + 2 ^ 30 - 1) % 2 ^ 64 / 2 ^ 30

def emptySection : Section where
  free := 0
  hint := 0
  refs := fun _ => none
  refsUsed := fun _ => 0
  summary := fun _ => BitVec.allOnes 64
  bitmap := fun _ => BitVec.allOnes 64

def describeSection (state : State) (index : Nat) : State :=
  match state.sec index with
  | some _ => state
  | none =>
    let (state, p) := earlyAllocTop state sectionBytes 64
    if p = 0 then state
    else { setSec state index emptySection with metaBytes := state.metaBytes + sectionBytes }

def describeRange (state : State) (r : Range) : State :=
  (List.range' (r.start / 2 ^ 30) ((r.stop - 1) / 2 ^ 30 + 1 - r.start / 2 ^ 30)).foldl describeSection state

def releaseRange (state : State) (i : Nat) : State :=
  let s := alignUp (state.earlyCur i) frameSize
  let e := alignDown (state.earlyTop i) frameSize
  if s < e then framesMark state (s / frameSize) (e / frameSize) false else state

def reserveRange (state : State) (r : Range) : State :=
  framesMark state (r.start / frameSize) (r.stop / frameSize) true

/-- Clear the section array and describe every section with usable memory. -/
def describeAll (state : State) (arrBytes : Nat) : State :=
  state.avail.foldl describeRange { state with sec := fun _ => none, metaBytes := arrBytes }

/-- No early allocation past this point: release what the early allocator did not
consume, then reserve the reserved ranges again. -/
def populate (state : State) : State :=
  let released := (List.range state.avail.length).foldl releaseRange { state with freeFrames := 0 }
  let state := released.resv.foldl reserveRange released
  { state with sectioned := true, hintNormal := dma32Limit / 2 ^ 30, hintDma32 := 0 }

def lateInit (state : State) : State :=
  if state.sectioned then state
  else if !state.physmapReady then state
  else
    let nsec := sectionsNeeded state
    let placed := earlyAllocTop { state with nsec := nsec } (nsec * 8) 64
    if placed.2 = 0 then placed.1 else populate (describeAll placed.1 (nsec * 8))

def allocFrame (state : State) : State × Nat := allocFrameNolockBelow state noLimit

def allocBelow (state : State) (limit : Nat) : State × Nat := allocFrameNolockBelow state limit

def allocContiguousBelow (state : State) (count limit : Nat) : State × Nat :=
  if count = 0 then (state, 0)
  else if count = 1 then allocFrameNolockBelow state limit
  else allocRunNolockBelow state count limit

def giveFrame (state : State) (index : Nat) (s : Section) : State :=
  { setSec state index s with freeFrames := (state.freeFrames + 1) % 2 ^ 64 }

/-- One round of the loop in `pmm_free_contiguous`. A frame that is free already
is left alone. -/
def freeOne (state : State) (f : Nat) : State :=
  match secOf state f with
  | none => state
  | some s =>
    let i := f % 2 ^ 18
    if (s.bitmap (i / 64)).getLsbD (i % 64) then
      let s := (secMark s i (i + 1) false).1
      let s := if s.hint > i / 64 then { s with hint := i / 64 } else s
      giveFrame state (f / 2 ^ 18) s
    else state

def freeContiguous (state : State) (addr count : Nat) : State :=
  let base := addr / frameSize
  if state.sectioned then (List.range' base ((base + count) % 2 ^ 64 - base)).foldl freeOne state else state

def freeFrame (state : State) (addr : Nat) : State := freeContiguous state addr 1

def refChunkNew (state : State) (index : Nat) (s : Section) (c chunk : Nat) : State :=
  { setSec state index { s with refs := update s.refs c (some chunk) } with
    mem := update state.mem chunk (fun _ => 0)
    refChunks := state.refChunks + 1 }

/-- A pointer to the count of `frame`: the chunk's frame and the byte in it. -/
def refSlot (state : State) (frame : Nat) (create : Bool) : State × Option (Nat × Nat) :=
  match (if state.sectioned then secOf state frame else none) with
  | none => (state, none)
  | some s =>
    let i := frame % 2 ^ 18
    let c := i / 4096
    match s.refs c with
    | some chunk => (state, some (chunk, i % 4096))
    | none =>
      if !create then (state, none)
      else
        let (state, p) := allocFrameNolockBelow state noLimit
        if p = 0 then (state, none)
        else
          let chunk := p / frameSize
          -- The allocation may have changed this very section, so it is read again.
          match secOf state frame with
          | none => (state, none)
          | some s => (refChunkNew state (frame / 2 ^ 18) s c chunk, some (chunk, i % 4096))

/-- Drop chunk `c` of section `index` once no frame in it is shared any more. -/
def refChunkPut (state : State) (index c : Nat) : State :=
  match state.sec index with
  | none => state
  | some s =>
    let used := (s.refsUsed c + 2 ^ 16 - 1) % 2 ^ 16
    let s := { s with refsUsed := update s.refsUsed c used }
    if used ≠ 0 then setSec state index s
    else
      let chunk := (s.refs c).getD 0
      let s := { s with refs := update s.refs c none }
      let state := { setSec state index s with refChunks := state.refChunks - 1 }
      match secOf state chunk with
      | none => state
      | some fs =>
        let i := chunk % 2 ^ 18
        giveFrame state (chunk / 2 ^ 18) (secMark fs i (i + 1) false).1

def setCount (state : State) (slot : Nat × Nat) (value : UInt8) : State :=
  { state with mem := update state.mem slot.1 (update (state.mem slot.1) slot.2 value) }

def refsUsedUp (s : Section) (c : Nat) : Section :=
  { s with refsUsed := update s.refsUsed c ((s.refsUsed c + 1) % 2 ^ 16) }

def shareFrame (state : State) (addr : Nat) : State × Int :=
  let frame := addr / frameSize
  match refSlot state frame true with
  | (state, none) => (state, -1)
  | (state, some slot) =>
    let count := state.mem slot.1 slot.2
    let c := frame % 2 ^ 18 / 4096
    let state := if count = 0 then
        match secOf state frame with
        | none => state
        | some s => setSec state (frame / 2 ^ 18) (refsUsedUp s c)
      else state
    (if count ≠ refSticky then setCount state slot (count + 1) else state, 0)

/-- Returns 1 while the frame is still shared, 0 when the caller may free it. -/
def unrefFrame (state : State) (addr : Nat) : State × Int :=
  let frame := addr / frameSize
  match refSlot state frame false with
  | (state, none) => (state, 0)
  | (state, some slot) =>
    let count := state.mem slot.1 slot.2
    if count > 0 then
      if count ≠ refSticky then
        let state := setCount state slot (count - 1)
        (if count - 1 = 0 then refChunkPut state (frame / 2 ^ 18) (frame % 2 ^ 18 / 4096) else state, 1)
      else (state, 1)
    else (state, 0)

def frameShared (state : State) (addr : Nat) : Bool :=
  match refSlot state (addr / frameSize) false with
  | (_, none) => false
  | (state, some slot) => state.mem slot.1 slot.2 > 0

end SecOS.Pmm
