import SecOS.Confine

/-! The memory system calls (kernel/syscall.c, drivers/fbdev.c). brk, mmap, munmap and
mprotect move the regions of the calling process; its pages follow by faults, so the page
tables are not part of this model. The other events are the ones that give a process its
regions: fork, spawn and execve. -/

namespace SecOS.UserMemory
open Library Vmm Elf Confine

def userMmapEnd : Nat := 0x3F0000000

def pgup (x : Nat) : Nat := (x + 0xFFF) % 2 ^ 64 / 4096 * 4096

def protRead (prot : Nat) : Bool := prot.testBit 0
def protWrite (prot : Nat) : Bool := prot.testBit 1
def protExec (prot : Nat) : Bool := prot.testBit 2
def mapShared (flags : Nat) : Bool := flags.testBit 0
def mapPrivate (flags : Nat) : Bool := flags.testBit 1
def mapAnonymous (flags : Nat) : Bool := flags.testBit 5

def m18ProtToFlags (prot : Nat) : Flags :=
  if !(protRead prot || protWrite prot || protExec prot) then ⟨flagProtnone ||| flagNoexec, by decide⟩
  else match protWrite prot, protExec prot with
    | true, true => ⟨flagUser ||| flagRw, by decide⟩
    | true, false => ⟨flagUser ||| flagRw ||| flagNoexec, dataFlags_plain⟩
    | false, true => ⟨flagUser, flagUser_plain⟩
    | false, false => ⟨flagUser ||| flagNoexec, by decide⟩

/-- The rounded length of a range in the user half, 0 if it is not one. -/
def m18UserSpan (addr len : Nat) : Nat :=
  if addr % 4096 ≠ 0 ∨ len = 0 then 0
  else if addr < userCodeBase ∨ addr ≥ userTop then 0
  else if len > userTop - addr then 0
  else if pgup len > userTop - addr then 0
  else pgup len

def overLimit (p : Process) (len : Nat) : Bool := p.memLimit ≠ 0 && decide ((Vma.totalBytes p.vmas + len) % 2 ^ 64 > p.memLimit)

def heapFlags : Flags := dataFlags

def lastPiece (p : Process) : Option Nat :=
  if p.brkCur > p.brkStart then
    match Vma.findMut p.vmas (p.brkCur - 1) with
    | none => none
    | some i => if p.vmas[i]?.any (fun h => h.stop == p.brkCur && h.type == .anon && h.flags == heapFlags) then some i else none
  else none

def growHeap (p : Process) (newBrk : Nat) : Option (List Vma) :=
  match lastPiece p with
  | some i => some (p.vmas.modify i fun h => { h with stop := newBrk })
  | none => Vma.add p.vmas p.brkCur newBrk heapFlags .anon 0 0 0 0

def trimHeap (brkStart newBrk old : Nat) (set : List Vma) (i : Nat) : List Vma :=
  match set[i]? with
  | none => set
  | some v =>
    if !v.live ∨ v.stop ≤ newBrk ∨ v.start ≥ old then set
    else if v.start < brkStart then set
    else if v.start ≥ newBrk then Vma.remove set i
    else set.modify i fun v => { v with stop := newBrk }

def ksysBrk (p : Process) (newBrk : Nat) : Process × Nat :=
  if newBrk = 0 then (p, p.brkCur)
  else
    let newBrk := pgup newBrk
    let old := p.brkCur
    if newBrk < p.brkStart ∨ newBrk ≥ userMmapBase then (p, old)
    else if newBrk = old then (p, old)
    else if newBrk > old then
      if overLimit p (newBrk - old) then (p, old)
      else match growHeap p newBrk with
        | none => (p, old)
        | some set => ({ p with vmas := set, brkCur := newBrk }, newBrk)
    else ({ p with vmas := (List.range vmaMax).foldl (trimHeap p.brkStart newBrk old) p.vmas, brkCur := newBrk }, newBrk)

/-- What an open descriptor names, and the access mode it was opened with. -/
inductive Node where
  | pipe
  | socket
  | nothing
  | framebuffer
  | inputClient
  | uncached
  | file (inode : Nat)

structure Fd where
  flags : Nat
  node : Node

structure Framebuffer where
  addr : Nat
  pitch : Nat
  height : Nat

def eacces : Int := -13
def enodev : Int := -19
def einval : Int := -22
def enomem : Int := -12

/-- `fb` is the framebuffer of the machine, if it has one. -/
def fbdevMmap (p : Process) (fb : Option Framebuffer) (len prot flags off : Nat) : Process × Except Int Nat :=
  match fb with
  | none => (p, .error enodev)
  | some fi =>
    if !mapShared flags || mapPrivate flags || mapAnonymous flags then (p, .error einval)
    else if protExec prot then (p, .error eacces)
    else if !(protRead prot || protWrite prot) then (p, .error einval)
    else if fi.addr % 4096 ≠ 0 ∨ off % 4096 ≠ 0 ∨ len = 0 then (p, .error einval)
    else
      let size := pgup (fi.pitch * fi.height)
      let len := pgup len
      if len = 0 ∨ off ≥ size ∨ len > size - off then (p, .error einval)
      else
        let base := p.mmapNext
        if base ≥ userMmapEnd ∨ len > userMmapEnd - base then (p, .error enomem)
        else if overLimit p len then (p, .error enomem)
        else
          let vf : Flags := if protWrite prot then ⟨flagUser ||| flagNoexec ||| flagRw, by decide⟩ else ⟨flagUser ||| flagNoexec, by decide⟩
          match Vma.addPhys p.vmas base (base + len) vf ((fi.addr + off) % 2 ^ 64) with
          | none => (p, .error enomem)
          | some set => ({ p with vmas := set, mmapNext := base + len }, .ok base)

/-- A mapping through a descriptor: the mode is checked first, and devices have their own
mapping or none. `none` goes on with the ordinary mapping. -/
def mmapDevice (p : Process) (fb : Option Framebuffer) (fd : Option Fd) (len prot flags off : Nat) :
    Option (Process × Except Int Nat) :=
  if mapAnonymous flags then none
  else match fd with
    | none => none
    | some ⟨mode, node⟩ =>
      match node with
      | .pipe | .socket | .nothing => none
      | node =>
        if mode % 4 = 1 then some (p, .error eacces)
        else if mapShared flags && protWrite prot && mode % 4 != 2 then some (p, .error eacces)
        else match node with
          | .framebuffer => some (fbdevMmap p fb len prot flags off)
          | .inputClient => some (p, .error enodev)
          | _ => none

def mmapRegion (p : Process) (fd : Option Fd) (base len prot flags : Nat) : Except Int (List Vma) :=
  if mapAnonymous flags then
    match Vma.add p.vmas base (base + len) (m18ProtToFlags prot) .anon 0 0 0 0 with
    | none => .error (-1)
    | some set => .ok set
  else match fd with
    | none => .error (-1)
    | some ⟨_, .pipe⟩ | some ⟨_, .socket⟩ | some ⟨_, .nothing⟩ => .error (-1)
    | some ⟨_, .framebuffer⟩ | some ⟨_, .inputClient⟩ | some ⟨_, .uncached⟩ => .error enodev
    | some ⟨_, .file inode⟩ =>
      match Vma.addFile p.vmas base (base + len) (m18ProtToFlags prot) inode 0 with
      | none => .error (-1)
      | some set => .ok set

/-- The address hint is ignored. `fd` is the descriptor, if the number is one in use. -/
def ksysMmap6 (p : Process) (fb : Option Framebuffer) (len prot flags : Nat) (fd : Option Fd) (off : Nat) :
    Process × Except Int Nat :=
  if len = 0 then (p, .error (-1))
  else match mmapDevice p fb fd len prot flags off with
    | some result => result
    | none =>
      if protWrite prot && protExec prot then (p, .error (-1))
      else
        let base := p.mmapNext
        if base ≥ userMmapEnd ∨ len > userMmapEnd - base then (p, .error (-1))
        else
          let len := pgup len
          if len > userMmapEnd - base then (p, .error (-1))
          else if overLimit p len then (p, .error (-1))
          else match mmapRegion p fd base len prot flags with
            | .error e => (p, .error e)
            | .ok set => ({ p with vmas := set, mmapNext := base + len }, .ok base)

/-- One region against the range `[addr, stop)`. A hole leaves two pieces of anonymous or
device memory; of a file the upper piece is dropped, and so it is when the table is full. -/
def unmapRegion (addr stop : Nat) (set : List Vma) (i : Nat) : List Vma :=
  match set[i]? with
  | none => set
  | some v =>
    if !v.live then set
    else if ¬ (addr < v.stop ∧ v.start < stop) then set
    else if addr ≤ v.start ∧ stop ≥ v.stop then Vma.remove set i
    else if addr ≤ v.start then set.modify i fun v => { v with start := stop }
    else if stop ≥ v.stop then set.modify i fun v => { v with stop := addr }
    else if v.type = .phys then (Vma.split set i stop).1.modify i fun v => { v with stop := addr }
    else
      let trimmed := set.modify i fun v => { v with stop := addr }
      if v.type = .anon then (Vma.add trimmed stop v.stop v.flags .anon 0 0 0 0).getD trimmed else trimmed

def ksysMunmap (p : Process) (addr len : Nat) : Process × Int :=
  let len := m18UserSpan addr len
  if len = 0 then (p, -1)
  else ({ p with vmas := (List.range vmaMax).foldl (unmapRegion addr (addr + len)) p.vmas }, 0)

/-- Cut region `i` at `addr` if it reaches over it; after a cut that failed nothing more is done. -/
def cutRegion (addr : Nat) (st : List Vma × Bool) (i : Nat) : List Vma × Bool :=
  if !st.2 then st
  else match st.1[i]? with
    | none => st
    | some v => if v.live ∧ v.start < addr ∧ addr < v.stop then Vma.split st.1 i addr else st

def cutRegions (addr : Nat) (set : List Vma) : List Vma × Bool := (List.range vmaMax).foldl (cutRegion addr) (set, true)

def protectRegion (addr stop : Nat) (flags : Flags) (v : Vma) : Vma :=
  if v.live ∧ addr ≤ v.start ∧ v.stop ≤ stop then { v with flags := flags } else v

def ksysMprotect (p : Process) (addr len prot : Nat) : Process × Int :=
  if protWrite prot && protExec prot then (p, -1)
  else
    let len := m18UserSpan addr len
    if len = 0 then (p, -1)
    else
      let stop := addr + len
      if !Vma.overlaps p.vmas addr stop then (p, -1)
      else if protExec prot && p.vmas.any (fun v => v.type = .phys && decide (addr < v.stop) && decide (v.start < stop)) then (p, -1)
      else
        let (set, cut) := cutRegions addr p.vmas
        if !cut then ({ p with vmas := set }, -1)
        else
          let (set, cut) := cutRegions stop set
          if !cut then ({ p with vmas := set }, -1)
          else ({ p with vmas := set.map (protectRegion addr stop (m18ProtToFlags prot)) }, 0)

def execArgMax : Nat := 128 * 1024
def execMaxStrs : Nat := 2048

/-- Append the strings of a user vector to the blob; `none` in the vector is a fault, and a
string that does not end within the room left is too long. -/
def execCopyStrv : List (Option (List UInt8)) → List UInt8 × Nat → Option (List UInt8 × Nat)
  | [], st => some st
  | none :: _, _ => none
  | some str :: rest, (blob, count) =>
    if count ≥ execMaxStrs then none
    else if blob.length + str.length + 1 > execArgMax then none
    else execCopyStrv rest (blob ++ str ++ [0], count + 1)

def execArgs (argv envp : List (Option (List UInt8))) : Option Args :=
  match execCopyStrv argv ([], 0) with
  | none => none
  | some (blob, argc) => (execCopyStrv envp (blob, 0)).map fun (blob, envc) => ⟨blob, argc, envc⟩

inductive Call where
  | brk (newBrk : Nat)
  | mmap (fb : Option Framebuffer) (len prot flags : Nat) (fd : Option Fd) (off : Nat)
  | munmap (addr len : Nat)
  | mprotect (addr len prot : Nat)

def perform (p : Process) : Call → Process
  | .brk newBrk => (ksysBrk p newBrk).1
  | .mmap fb len prot flags fd off => (ksysMmap6 p fb len prot flags fd off).1
  | .munmap addr len => (ksysMunmap p addr len).1
  | .mprotect addr len prot => (ksysMprotect p addr len prot).1

inductive Event where
  | call (i : Nat) (call : Call)
  | fork (i : Nat) (sup : Supply)
  | spawn (caller : Option Nat) (file : File) (sup : Supply)
  | execve (i : Nat) (file : File) (sup : Supply) (argv envp : List (Option (List UInt8)))
  | destroy (i : Nat)

def step (verify : Image → Bool) (s : System) : Event → System
  | .call i call =>
    match s.table i with
    | none => s
    | some p => s.put i (perform p call)
  | .fork i sup => (processFork s i sup).1
  | .spawn caller file sup => (ksysSpawnArgv verify s caller file sup).1
  | .execve i file sup argv envp =>
    match execArgs argv envp with
    | none => s
    | some args => ksysExecve verify s i file sup args
  | .destroy i => processDestroy s i

def run (verify : Image → Bool) (s : System) (events : List Event) : System := events.foldl (step verify) s

end SecOS.UserMemory
