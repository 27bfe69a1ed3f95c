import SecOS.Pmm

/-! From the firmware's memory map to the sectioned allocator (mm/pmm.c): the range
tables, `pmm_setup`, the early allocations with the bytes each one returned, and the
bytes `pmm_late_init` takes for its own tables. `g_ram`, which only the physmap reads, is
left out. -/

namespace SecOS.Pmm

def maxRanges : Nat := 256
def maxReserved : Nat := 16

def absorb (grown : Range) : List Range → List Range
  | [] => [grown]
  | r :: rest => if r.start ≤ grown.stop then absorb { grown with stop := max grown.stop r.stop } rest else grown :: r :: rest

def rangeAdd (list : List Range) (limit start stop : Nat) : List Range :=
  if stop ≤ start then list
  else
    let before := list.takeWhile (·.stop < start)
    match list.dropWhile (·.stop < start) with
    | [] => if limit ≤ list.length then list else list ++ [⟨start, stop⟩]
    | r :: rest =>
      if r.start ≤ stop then before ++ absorb ⟨min start r.start, max stop r.stop⟩ rest
      else if limit ≤ list.length then list
      else before ++ ⟨start, stop⟩ :: r :: rest

def addAvail (state : State) (addr len : Nat) : State :=
  if len = 0 then state
  else
    let s := alignUp addr frameSize
    let e := alignDown ((addr + len) % 2 ^ 64) frameSize
    if e ≤ s then state else { state with avail := rangeAdd state.avail maxRanges s e }

def reserve (state : State) (addr len : Nat) : State :=
  if len = 0 then state
  else if maxReserved ≤ state.resv.length then state
  else { state with resv := state.resv ++ [⟨alignDown addr frameSize, alignUp ((addr + len) % 2 ^ 64) frameSize⟩] }

/-- Protect the kernel image and everything below it, and start the cursors. -/
def setup (state : State) (kernelEnd : Nat) : State :=
  let state := reserve state 0 kernelEnd
  { state with
    earlyCur := fun i => (state.avail.getD i ⟨0, 0⟩).start
    earlyTop := fun i => (state.avail.getD i ⟨0, 0⟩).stop
    maxPhys := state.avail.foldl (fun top r => max top r.stop) 0 }

inductive Entry where
  | usable (addr len : Nat)
  | reserved (addr len : Nat)

def addEntry (state : State) : Entry → State
  | .usable addr len => addAvail state addr len
  | .reserved addr len => reserve state addr len

def blank : State where
  avail := []
  earlyCur := fun _ => 0
  earlyTop := fun _ => 0
  resv := []
  physmapReady := false
  maxPhys := 0
  sectioned := false
  nsec := 0
  sec := fun _ => none
  hintNormal := 0
  hintDma32 := 0
  freeFrames := 0
  earlyUsed := 0
  metaBytes := 0
  refChunks := 0
  mem := fun _ _ => 0

structure Request where
  size : Nat
  align : Nat
  limit : Nat

def place (p size : Nat) : List Range := if p = 0 then [] else [⟨p, p + size⟩]

def early (boot : State × List Range) (r : Request) : State × List Range :=
  ((earlyAlloc boot.1 r.size r.align r.limit).1, place (earlyAlloc boot.1 r.size r.align r.limit).2 r.size ++ boot.2)

/-- Up to the moment the physmap is there and `pmm_late_init` runs. -/
def boot (map : List Entry) (kernelEnd : Nat) (requests : List Request) : State × List Range :=
  let (state, taken) := requests.foldl early (setup (map.foldl addEntry blank) kernelEnd, [])
  ({ state with physmapReady := true }, taken)

def descriptorPlace (state : State) (index : Nat) : List Range :=
  match state.sec index with
  | some _ => []
  | none => place (earlyAllocTop state sectionBytes 64).2 sectionBytes

def descriptorPlaces (state : State) : List Nat → List Range
  | [] => []
  | index :: rest => descriptorPlaces (describeSection state index) rest ++ descriptorPlace state index

def rangeSections (r : Range) : List Nat := List.range' (r.start / 2 ^ 30) ((r.stop - 1) / 2 ^ 30 + 1 - r.start / 2 ^ 30)

def lateInitPlaces (state : State) : List Range :=
  if state.sectioned || !state.physmapReady then []
  else
    let nsec := sectionsNeeded state
    let placed := earlyAllocTop { state with nsec := nsec } (nsec * 8) 64
    if placed.2 = 0 then []
    else
      let start := { placed.1 with sec := fun _ => none, metaBytes := nsec * 8 }
      descriptorPlaces start (start.avail.flatMap rangeSections) ++ place placed.2 (nsec * 8)

end SecOS.Pmm
