import SecOS.Confine
import SecOS.Descriptors
import SecOS.Machine
import SecOS.Signal

/-! Replacing the image of a process, with all the memory it takes (`process_exec`,
`proc_image_build`, `proc_image_free`, `setup_user_args` and `uwrite` of kernel/process.c).
The kernel heap is the list of the blocks that are live; the frames it keeps for itself
are not modelled. The checks on pointers that callers never pass as null are left out. -/

namespace SecOS.Exec
open Library Pmm Vmm Elf
open Confine (Errno aslrSlide procStackPages userHeapBase userMmapBase)

/-- `bad` counts the blocks that were freed without being live. -/
structure Heap where
  live : List Nat
  bad : Nat
deriving DecidableEq

def kmalloc (h : Heap) : Option Nat → Heap × Option Nat
  | none => (h, none)
  | some a => if a ∈ h.live then (h, none) else ({ h with live := a :: h.live }, some a)

def kfree (h : Heap) (a : Nat) : Heap := if a ∈ h.live then { h with live := h.live.erase a } else { h with bad := h.bad + 1 }

/-- What the heap answers during the call, and the time stamp counter. -/
structure Supply where
  regions : Option Nat
  space : Option Nat
  manifest : Option Nat
  tsc : Nat → Word

structure Mem where
  pmm : Pmm.State
  cache : PageCache.Cache
  heap : Heap

def Mem.free (mem : Mem) (a : Nat) : Mem := { mem with heap := kfree mem.heap a }

structure SpaceBlock where
  space : Space
  block : Nat

def spaceCreate (mem : Mem) (answer : Option Nat) : Mem × Option SpaceBlock :=
  match kmalloc mem.heap answer with
  | (heap, got) =>
    match spaceCreateUser mem.pmm got.isSome, got with
    | (m, some s), some b => ({ mem with pmm := m, heap := heap }, some ⟨s, b⟩)
    | (m, _), _ => ({ mem with pmm := m }, none)

def destroy (mem : Mem) (sb : SpaceBlock) : Mem := { mem with pmm := spaceDestroy mem.pmm sb.space, heap := kfree mem.heap sb.block }

/-- What a write needs besides the space: the regions, what their faults read, and where
the kernel half, which every space shares, leads (0 for nowhere). -/
structure Stage where
  env : Vma.Env
  vmas : List Vma
  kernel : Nat → Nat

structure Target where
  pmm : Pmm.State
  cache : PageCache.Cache
  space : Space

def translate (kernel : Nat → Nat) (s : Space) (va : Nat) : Nat :=
  if va ≥ kernelBase then kernel va
  else
    let pte := s.pte (va / 4096)
    if pte.has flagPresent then ptePhys pte + va % 4096 else 0

/-- Where `va` is, after a fault if its page was not there. -/
def touch (g : Stage) (t : Target) (va : Nat) : Target × Option Nat :=
  if translate g.kernel t.space va ≠ 0 then (t, some (translate g.kernel t.space va))
  else match Vma.find g.vmas va with
    | none => (t, none)
    | some v =>
      match Vma.faultIn t.pmm t.cache t.space g.env v va with
      | (m, c, s, r) =>
        let t := ⟨m, c, s⟩
        if r ≠ 0 then (t, none) else if translate g.kernel s va = 0 then (t, none) else (t, some (translate g.kernel s va))

def poke (m : Pmm.State) (phys : Nat) (bytes : List UInt8) : Pmm.State :=
  let frame := phys / frameSize
  let row := m.mem frame
  { m with mem := Function.update m.mem frame fun i =>
      if phys % frameSize ≤ i ∧ i < phys % frameSize + bytes.length then bytes.getD (i - phys % frameSize) 0 else row i }

/-- Every round writes a byte, so there are never more rounds than bytes. -/
def uwrite (g : Stage) : Nat → Target → Nat → List UInt8 → Target × Bool
  | 0, t, _, bytes => (t, bytes.isEmpty)
  | rounds + 1, t, va, bytes =>
    if bytes = [] then (t, true)
    else match touch g t va with
      | (t, none) => (t, false)
      | (t, some phys) =>
        let chunk := min (0x1000 - va % 0x1000) bytes.length
        uwrite g rounds { t with pmm := poke t.pmm phys (bytes.take chunk) } ((va + chunk) % 2 ^ 64) (bytes.drop chunk)

def wordBytes (v : Nat) : List UInt8 := (List.range 8).map fun i => UInt8.ofNat (v / 256 ^ i)

/-- One pass over `count` strings: the slot and the place in the blob after it. -/
def argPass (g : Stage) (blob : List UInt8) (strbase : Nat) : Nat → Target → Nat → Nat → Target × Option (Nat × Nat)
  | 0, t, slot, off =>
    match uwrite g 8 t slot (wordBytes 0) with
    | (t, false) => (t, none)
    | (t, true) => (t, some ((slot + 8) % 2 ^ 64, off))
  | count + 1, t, slot, off =>
    if off ≥ blob.length then (t, none)
    else match uwrite g 8 t slot (wordBytes (strbase + off)) with
      | (t, false) => (t, none)
      | (t, true) => argPass g blob strbase count t ((slot + 8) % 2 ^ 64) (off + ((blob.drop off).takeWhile (· ≠ 0)).length + 1)

/-- The counts are `int`s. -/
structure Args where
  blob : List UInt8
  argc : Int
  envc : Int

/-- The words below the strings: the count, the two vectors and their ends. -/
def writeVectors (g : Stage) (args : Args) (strbase base : Nat) (t : Target) : Target × Option (Nat × Nat × Nat) :=
  match uwrite g 8 t base (wordBytes args.argc.toNat) with
  | (t, false) => (t, none)
  | (t, true) =>
    match argPass g args.blob strbase args.argc.toNat t ((base + 8) % 2 ^ 64) 0 with
    | (t, none) => (t, none)
    | (t, some (slot, off)) =>
      match argPass g args.blob strbase args.envc.toNat t slot off with
      | (t, none) => (t, none)
      | (t, some _) => (t, some (base, (base + 8) % 2 ^ 64, slot))

def add64 (a b : Nat) : Nat := (a + b) % 2 ^ 64
def sub64 (a b : Nat) : Nat := (a + 2 ^ 64 - b) % 2 ^ 64

def nslots (args : Args) : Nat := 1 + args.argc.toNat + 1 + args.envc.toNat + 1

/-- The strings end at the top of the stack, the vectors below them are aligned. -/
def strBase (stTop : Nat) (args : Args) : Nat := sub64 stTop args.blob.length
def vecTop (stTop : Nat) (args : Args) : Nat := strBase stTop args / 16 * 16
def vecBase (stTop : Nat) (args : Args) : Nat := sub64 (vecTop stTop args) (nslots args * 8) / 16 * 16

def setupUserArgs (g : Stage) (stTop stLo : Nat) (args : Args) (t : Target) : Target × Option (Nat × Nat × Nat) :=
  if args.argc < 0 ∨ args.envc < 0 then (t, none)
  else if args.blob.length > sub64 stTop stLo then (t, none)
  else if nslots args * 8 > sub64 (vecTop stTop args) stLo then (t, none)
  else if vecBase stTop args < add64 stLo 0x1000 then (t, none)
  else match uwrite g args.blob.length t (strBase stTop args) args.blob with
    | (t, false) => (t, none)
    | (t, true) => writeVectors g args (strBase stTop args) (vecBase stTop args) t

def procImageFree (mem : Mem) (mf : Option Nat) (image : Nat) (space : Option SpaceBlock) : Mem :=
  let mem := match mf with
    | none => mem
    | some b => mem.free b
  let mem := mem.free image
  match space with
  | none => mem
  | some sb => destroy mem sb

structure ProcImage where
  space : SpaceBlock
  vmas : List Vma
  entry : Nat
  stackTop : Nat
  stackLo : Nat
  footprint : Nat
  mf : Option (Nat × Manifest)

/-- The manifest, if there is memory for it and it is valid; none for an image that
reserves more memory than its manifest allows. -/
def buildManifest (mem : Mem) (sup : Supply) (im : Image) (entry footprint : Nat) : Mem × Option (Option (Nat × Manifest)) :=
  match kmalloc mem.heap sup.manifest with
  | (heap, none) => ({ mem with heap := heap }, some none)
  | (heap, some b) =>
    let mem := { mem with heap := heap }
    match elfManifestParse im with
    | .error _ => (mem.free b, some none)
    | .ok mf =>
      match elfManifestValidate mf entry with
      | .error _ => (mem.free b, some none)
      | .ok _ => if mf.maxMem ≠ 0 ∧ footprint > mf.maxMem then (mem.free b, none) else (mem, some (some (b, mf)))

def stackBytes (extraStack : Nat) : Nat := (procStackPages * 0x1000 + (extraStack + 0xFFF) % 2 ^ 64 / 4096 * 4096) % 2 ^ 64

def stackTop (sup : Supply) : Nat := userStackTop - aslrSlide (sup.tsc 0) (16 * 1024 * 1024)

def buildIn (sup : Supply) (mem : Mem) (im : Image) (extraStack : Nat) (sb : SpaceBlock) : Mem × Except Errno ProcImage :=
  match elfLoadImageLazy im [] with
  | .error _ => (procImageFree mem none im.base (some sb), .error .enoexec)
  | .ok loaded =>
    let stackLo := sub64 (stackTop sup) (stackBytes extraStack)
    match Vma.add loaded.vmas stackLo (stackTop sup) dataFlags .anon 0 0 0 0 with
    | none => (procImageFree mem none im.base (some sb), .error .enomem)
    | some vmas =>
      let footprint := (loaded.footprint + stackBytes extraStack) % 2 ^ 64
      match buildManifest mem sup im loaded.entry footprint with
      | (mem, none) => (procImageFree mem none im.base (some sb), .error .enomem)
      | (mem, some mf) => (mem, .ok ⟨sb, vmas, loaded.entry, stackTop sup, stackLo, footprint, mf⟩)

/-- The buffer at `im.base` becomes the pinned image. -/
def procImageBuild (verify : Image → Bool) (sup : Supply) (mem : Mem) (im : Image) (extraStack : Nat) : Mem × Except Errno ProcImage :=
  if !verify im then (procImageFree mem none im.base none, .error .eacces)
  else match spaceCreate mem sup.space with
    | (mem, none) => (procImageFree mem none im.base none, .error .enomem)
    | (mem, some sb) => buildIn sup mem im extraStack sb

/-- Handlers are 0 for the default, 1 for ignored, else an address. -/
structure Signals where
  handler : Nat → Nat
  restorer : Nat
  blocked : BitVec 64
  pending : BitVec 64
  suspended : Bool

/-- What is not in `conf` of the process: its memory and its signals. -/
structure Proc where
  conf : Confine.Process
  space : Option SpaceBlock
  image : Option Nat
  imageSize : Nat
  manifest : Option Nat
  signals : Signals

/-- The process, its slot and its place in the table of descriptors. -/
structure World where
  mem : Mem
  proc : Proc
  slot : Nat
  bindings : Confine.Bindings
  audit : List Confine.AuditRecord
  files : Descriptors.System
  place : Nat
  tf : Signal.Trapframe

/-- Caught signals go back to the default; the mask and what is pending stay. -/
def Signals.afterExec (s : Signals) : Signals :=
  { s with handler := fun n => if n < 32 ∧ s.handler n ≠ 0 ∧ s.handler n ≠ 1 then 0 else s.handler n, restorer := 0, suspended := false }

def swapIn (now : Nat) (sup : Supply) (w : World) (nv : Nat) (im : Image) (new : ProcImage) (args : Args) (stack : Nat × Nat × Nat) : World :=
  let brk := userHeapBase + aslrSlide (sup.tsc 1) (32 * 1024 * 1024)
  let old := w.proc
  let bound := Confine.capExecBound (some old.conf)
  let conf := { old.conf with driver := false, drvDevId := none, drvCaps := 0#32, vmas := new.vmas, manifest := new.mf.map (·.2) }
  let (conf, audit) := Confine.capExecTransition (Confine.procApplyCaps conf (new.mf.map (·.2))) bound "execve"
  let conf := { conf with entry := new.entry, stackTop := new.stackTop, brkStart := brk, brkCur := brk,
                          mmapNext := userMmapBase + aslrSlide (sup.tsc 2) (32 * 1024 * 1024), userMemBytes := new.footprint }
  let mem := w.mem.free nv
  let mem := match old.manifest with
    | none => mem
    | some b => mem.free b
  let mem := match old.image with
    | none => mem
    | some b => mem.free b
  let mem := match old.space with
    | none => mem
    | some sb => destroy mem sb
  let files := match w.files.procs[w.place]? with
    | none => w.files
    | some p => Descriptors.execCloexec now w.files w.place p
  let tf : Signal.Trapframe :=
    { r15 := 0, r14 := 0, r13 := 0, r12 := 0, r11 := 0, r10 := 0, r9 := 0, r8 := 0, rbp := 0, rcx := 0, rbx := 0, rax := 0, errCode := 0,
      intNo := w.tf.intNo, cs := 0x1B, ss := 0x23, rip := BitVec.ofNat 64 new.entry, rsp := BitVec.ofNat 64 stack.1, rflags := 0x202,
      rdi := BitVec.ofInt 64 args.argc, rsi := BitVec.ofNat 64 stack.2.1, rdx := BitVec.ofNat 64 stack.2.2 }
  { w with mem := mem, bindings := Confine.driverRemoveAllBindings w.bindings w.slot, audit := w.audit ++ audit, files := files, tf := tf,
           proc := ⟨conf, some new.space, some im.base, im.size, new.mf.map (·.1), old.signals.afterExec⟩ }

def argBytes (args : Args) : Nat := ((args.blob.length + (args.argc + args.envc + 3) * 8 + 32) % 2 ^ 64).toNat

/-- What the image is built from: the signature check, the files behind the page cache, the
kernel half of every space, and the clock. -/
structure Around where
  verify : Image → Bool
  files : PageCache.Files
  kernel : Nat → Nat
  now : Nat

/-- From the image on: the driver check, the arguments, the exchange. Faults of the new
image read its own buffer. -/
def execImage (a : Around) (sup : Supply) (w : World) (nv : Nat) (im : Image) (new : ProcImage) (args : Args) : World × Except Errno Unit :=
  if new.mf.any (·.2.procType == manifestProcTypeDriver) then
    ({ w with mem := (procImageFree w.mem (new.mf.map (·.1)) im.base (some new.space)).free nv }, .error .eacces)
  else match setupUserArgs ⟨⟨im.kmem, a.files⟩, new.vmas, a.kernel⟩ new.stackTop new.stackLo args ⟨w.mem.pmm, w.mem.cache, new.space.space⟩ with
    | (t, none) =>
      let mem := { w.mem with pmm := t.pmm, cache := t.cache }
      ({ w with mem := (procImageFree mem (new.mf.map (·.1)) im.base (some { new.space with space := t.space })).free nv }, .error .e2big)
    | (t, some stack) =>
      let new := { new with space := { new.space with space := t.space } }
      (swapIn a.now sup { w with mem := { w.mem with pmm := t.pmm, cache := t.cache } } nv im new args stack, .ok ())

def processExec (a : Around) (sup : Supply) (w : World) (im : Image) (args : Args) : World × Except Errno Unit :=
  if im.size < 4 ∨ !im.checkMagic then ({ w with mem := w.mem.free im.base }, .error .enoexec)
  else match kmalloc w.mem.heap sup.regions with
    | (_, none) => ({ w with mem := w.mem.free im.base }, .error .enomem)
    | (heap, some nv) =>
      match procImageBuild a.verify sup { w.mem with heap := heap } im (argBytes args) with
      | (mem, .error e) => ({ w with mem := mem.free nv }, .error e)
      | (mem, .ok new) => execImage a sup { w with mem := mem } nv im new args

end SecOS.Exec
