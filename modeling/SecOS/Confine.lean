import SecOS.Elf

/-! Capabilities and what carries them from image to image (kernel/cap.c, the loading,
exec and fork parts of kernel/process.c, SYS_SPAWN and execve of kernel/syscall.c, the
binding table of kernel/driver_if.c). A process is named by its slot of the table. The
path lookup and its permission checks have succeeded when a file is executed; the audit
ring is the list of all records. -/

namespace SecOS.Confine
open Library Elf

abbrev Caps := BitVec 32

namespace Caps

def net : Caps := 1#32 <<< 4
def fsRead : Caps := 1#32 <<< 6
def fsWrite : Caps := 1#32 <<< 7
def proc : Caps := 1#32 <<< 8
def ipc : Caps := 1#32 <<< 9
def signal : Caps := 1#32 <<< 10
def time : Caps := 1#32 <<< 11
def power : Caps := 1#32 <<< 12
def input : Caps := 1#32 <<< 13
def display : Caps := 1#32 <<< 14
def auditSetid : Caps := 1#32 <<< 15
def auditDriver : Caps := 1#32 <<< 31

def implicitSet : Caps := fsRead ||| fsWrite ||| proc ||| ipc ||| signal ||| time ||| power
def explicitSet : Caps := net ||| input ||| display
def all : Caps := implicitSet ||| explicitSet

def manifestMask : Caps := net ||| fsRead ||| fsWrite ||| proc ||| ipc ||| signal ||| time ||| power ||| input ||| display

def flagEnforce : Caps := 1#32 <<< 5
def flagSetid : Caps := 1#32 <<< 15
def flagSessionGateway : Caps := 1#32 <<< 16

def has (set cap : Caps) : Bool := set &&& cap != 0#32

def Within (set bound : Caps) : Prop := set &&& bound = set

instance (set bound : Caps) : Decidable (Within set bound) := inferInstanceAs (Decidable (_ = _))

end Caps

structure Cred where
  ruid : Nat
  euid : Nat
  suid : Nat
  rgid : Nat
  egid : Nat
  sgid : Nat
  groups : List Nat
deriving DecidableEq

def credInitRoot : Cred := ⟨0, 0, 0, 0, 0, 0, []⟩

structure Process where
  pid : Nat
  manifest : Option Manifest
  capNet : Bool
  capEnforce : Bool
  capMask : Caps
  noNewPrivs : Bool
  memLimit : Nat
  /-- `proc_type` is `PROC_TYPE_DRIVER`. -/
  driver : Bool
  drvDevId : Option Nat
  drvCaps : BitVec 32
  cred : Cred
  vmas : List Vma
  entry : Nat
  stackTop : Nat
  brkStart : Nat
  brkCur : Nat
  mmapNext : Nat
  userMemBytes : Nat
deriving DecidableEq

structure AuditRecord where
  pid : Nat
  cap : Caps
  syscallNum : Nat
  name : String
  allowed : Bool
deriving DecidableEq

def sysSpawn : Nat := 8
def sysFork : Nat := 18
def sysExecve : Nat := 60

def capEffective : Option Process → Caps
  | none => Caps.all
  | some p =>
    if p.pid = 0 then Caps.all
    else if p.capEnforce then
      let m := p.capMask &&& Caps.all
      if p.capNet then m else m &&& ~~~Caps.net
    else
      let m := Caps.implicitSet ||| (p.capMask &&& (Caps.input ||| Caps.display))
      if p.capNet then m ||| Caps.net else m

structure ExecBound where
  valid : Bool
  enforce : Bool
  nnp : Bool
  eff : Caps
deriving DecidableEq

def capExecBound (p : Option Process) : ExecBound :=
  let valid := p.any (·.pid ≠ 0)
  ⟨valid, valid && p.any (·.capEnforce), valid && p.any (·.noNewPrivs), capEffective p⟩

def lostRecords (pid : Nat) (lost : Caps) (what : String) : List AuditRecord :=
  ((List.range 32).filter (lost.getLsbD ·)).map fun b => ⟨pid, 1#32 <<< b, 0, what, false⟩

def capExecTransition (p : Process) (b : ExecBound) (what : String) : Process × List AuditRecord :=
  let gateway := p.manifest.any (fun mf => Caps.has mf.flags Caps.flagSessionGateway)
  if b.valid && b.nnp then
    let want := capEffective (some p)
    let got := want &&& b.eff
    ({ p with capEnforce := p.capEnforce || b.enforce, capMask := got, capNet := got.has Caps.net, noNewPrivs := true },
      lostRecords p.pid (want &&& ~~~got) what)
  else ({ p with noNewPrivs := p.capEnforce && !gateway }, [])

/-- Limits and capabilities of a manifest, `none` for no manifest. -/
def procApplyCaps (p : Process) : Option Manifest → Process
  | none => { p with capNet := false, capEnforce := false, capMask := 0#32, memLimit := 0 }
  | some mf =>
    { p with memLimit := mf.maxMem, capNet := Caps.has mf.flags Caps.net, capEnforce := Caps.has mf.flags Caps.flagEnforce,
             capMask := mf.flags &&& Caps.manifestMask }

inductive Errno where
  | eacces
  | enomem
  | enoexec
  | e2big
deriving DecidableEq, Repr

/-- What the allocators answer while an image is built: one answer for every call that
takes memory from the heap or the frame allocator, in any combination. `write i` is the
answer to the `i`-th write to the new stack, whose page may have to be made. -/
structure Supply where
  buffers : Bool
  pcb : Bool
  regions : Bool
  space : Bool
  image : Bool
  manifest : Bool
  write : Nat → Bool
  kstack : Bool
  trapframe : Bool
  tsc : Nat → Word

def Supply.full : Supply := ⟨true, true, true, true, true, true, fun _ => true, true, true, fun _ => 0⟩

def aslrSlide (tsc : Word) (span : Nat) : Nat :=
  if span < 0x2000 then 0
  else
    let x := tsc ^^^ tsc <<< 13
    let x := x ^^^ x >>> 7
    let x := x ^^^ x <<< 17
    x.toNat % (span / 4096) * 4096

structure ProcImage where
  entry : Nat
  stackTop : Nat
  stackLo : Nat
  footprint : Nat
  vmas : List Vma
  mf : Option Manifest

/-- The manifest step at the end of the build: without memory for it, or when it is not
valid for this entry, the image goes on without a manifest. -/
def buildManifest (sup : Supply) (im : Image) (entry footprint : Nat) : Except Errno (Option Manifest) :=
  if sup.manifest then
    match elfManifestParse im with
    | .error _ => .ok none
    | .ok mf =>
      match elfManifestValidate mf entry with
      | .error _ => .ok none
      | .ok _ => if mf.maxMem ≠ 0 ∧ footprint > mf.maxMem then .error .enomem else .ok (some mf)
  else .ok none

def procStackPages : Nat := 8

/-- `verify` is `elf_signature_verify`; `owned` says that the buffer itself is pinned. -/
def procImageBuild (verify : Image → Bool) (sup : Supply) (im : Image) (owned : Bool) (extraStack : Nat) : Except Errno ProcImage :=
  if !verify im then .error .eacces
  else if !sup.space then .error .enomem
  else if !owned && !sup.image then .error .enomem
  else match elfLoadImageLazy im [] with
    | .error _ => .error .enoexec
    | .ok loaded =>
      let stBytes := (procStackPages * 0x1000 + (extraStack + 0xFFF) % 2 ^ 64 / 4096 * 4096) % 2 ^ 64
      let stackTop := Vmm.userStackTop - aslrSlide (sup.tsc 0) (16 * 1024 * 1024)
      let stackLo := (stackTop + 2 ^ 64 - stBytes) % 2 ^ 64
      match Vma.add loaded.vmas stackLo stackTop dataFlags .anon 0 0 0 0 with
      | none => .error .enomem
      | some vmas =>
        let footprint := (loaded.footprint + stBytes) % 2 ^ 64
        match buildManifest sup im loaded.entry footprint with
        | .error e => .error e
        | .ok mf => .ok ⟨loaded.entry, stackTop, stackLo, footprint, vmas, mf⟩

/-- One pass over `count` strings: the number of writes so far, the slot and the place in the blob. -/
def argPass (write : Nat → Bool) (blob : List UInt8) : Nat → Nat × Nat × Nat → Option (Nat × Nat × Nat)
  | 0, (k, slot, off) => if write k then some (k + 1, slot + 8, off) else none
  | count + 1, (k, slot, off) =>
    if off ≥ blob.length then none
    else if !write k then none
    else argPass write blob count (k + 1, slot + 8, off + ((blob.drop off).takeWhile (· ≠ 0)).length + 1)

def setupUserArgs (write : Nat → Bool) (stTop stLo : Nat) (blob : List UInt8) (argc envc : Nat) : Option (Nat × Nat × Nat) :=
  let blen := blob.length
  if blen > (stTop + 2 ^ 64 - stLo) % 2 ^ 64 then none
  else
    let strbase := (stTop + 2 ^ 64 - blen) % 2 ^ 64
    let nslots := 1 + argc + 1 + envc + 1
    if nslots * 8 > (strbase / 16 * 16 + 2 ^ 64 - stLo) % 2 ^ 64 then none
    else
      let base := (strbase / 16 * 16 + 2 ^ 64 - nslots * 8) % 2 ^ 64 / 16 * 16
      if base < stLo + 0x1000 then none
      else if blen ≠ 0 ∧ !write 0 then none
      else if !write 1 then none
      else
        match argPass write blob argc (2, base + 8, 0) with
        | none => none
        | some (k, slot, off) =>
          match argPass write blob envc (k, slot, off) with
          | none => none
          | some _ => some (base, base + 8, slot)

structure Args where
  blob : List UInt8
  argc : Nat
  envc : Nat

def userHeapBase : Nat := 0x280000000
def userMmapBase : Nat := 0x300000000

/-- The process after the new image has taken its place, with the audit records. -/
def processExec (verify : Image → Bool) (sup : Supply) (p : Process) (im : Image) (args : Args) :
    Except Errno (Process × List AuditRecord) :=
  if im.size < 4 ∨ !im.checkMagic then .error .enoexec
  else if !sup.regions then .error .enomem
  else match procImageBuild verify sup im true (args.blob.length + (args.argc + args.envc + 3) * 8 + 32) with
    | .error e => .error e
    | .ok new =>
      if new.mf.any (·.procType == manifestProcTypeDriver) then .error .eacces
      else match setupUserArgs sup.write new.stackTop new.stackLo args.blob args.argc args.envc with
        | none => .error .e2big
        | some _ =>
          let brk := userHeapBase + aslrSlide (sup.tsc 1) (32 * 1024 * 1024)
          let bound := capExecBound (some p)
          let p := { p with driver := false, drvDevId := none, drvCaps := 0#32, vmas := new.vmas, manifest := new.mf }
          let (p, audit) := capExecTransition (procApplyCaps p new.mf) bound "execve"
          .ok ({ p with entry := new.entry, stackTop := new.stackTop, brkStart := brk, brkCur := brk,
                        mmapNext := userMmapBase + aslrSlide (sup.tsc 2) (32 * 1024 * 1024), userMemBytes := new.footprint }, audit)

structure File where
  image : Image
  mode : BitVec 32
  uid : Nat
  gid : Nat
  onRoot : Bool

def sIsuid : BitVec 32 := 0o4000#32
def sIsgid : BitVec 32 := 0o2000#32
def groupExec : BitVec 32 := 0o010#32

def wantsSetid (mode : BitVec 32) : Bool := Caps.has mode sIsuid || (Caps.has mode sIsgid && Caps.has mode groupExec)

def processManifestSetid (p : Process) : Bool := p.manifest.any (fun mf => Caps.has mf.flags Caps.flagSetid)

def setidAllowed (p : Process) (mode : BitVec 32) (setidFs nnp : Bool) : Bool × List AuditRecord :=
  let base := setidFs && processManifestSetid p
  if wantsSetid mode && base && nnp then (false, [⟨p.pid, Caps.auditSetid, sysExecve, "setid-nnp", false⟩]) else (base, [])

def credExecSetid (p : Process) (mode : BitVec 32) (fuid fgid : Nat) (allowed : Bool) : Process :=
  let euid := if wantsSetid mode && allowed && Caps.has mode sIsuid then fuid else p.cred.euid
  let egid := if wantsSetid mode && allowed && (Caps.has mode sIsgid && Caps.has mode groupExec) then fgid else p.cred.egid
  { p with cred := { p.cred with euid := euid, egid := egid, suid := euid, sgid := egid } }

structure Binding where
  proc : Nat
  deviceId : Nat
  caps : BitVec 32
deriving DecidableEq

abbrev Bindings := List (Option Binding)

def maxDriverBindings : Nat := 32

def devices : List (Nat × BitVec 32) := [(0, 0b11111#32), (1, 0b10001#32)]

def driverGetDevice (id : Nat) : Option (BitVec 32) := (devices.find? (·.1 == id)).map (·.2)

def driverRegisterBindingCaps (bindings : Bindings) (proc id : Nat) (caps : BitVec 32) : Option Bindings :=
  match driverGetDevice id with
  | none => none
  | some mask =>
    let new : Option Binding := some ⟨proc, id, caps &&& mask⟩
    match bindings.findIdx? (·.any fun b => b.proc == proc && b.deviceId == id) with
    | some i => some (bindings.set i new)
    | none =>
      match bindings.findIdx? (·.isNone) with
      | some i => some (bindings.set i new)
      | none => none

def driverRemoveAllBindings (bindings : Bindings) (proc : Nat) : Bindings :=
  bindings.map fun entry => if entry.any (·.proc == proc) then none else entry

def maxProcesses : Nat := 32

structure System where
  nextPid : Nat
  table : Nat → Option Process
  bindings : Bindings
  audit : List AuditRecord

def boot : System := ⟨1, fun _ => none, List.replicate maxDriverBindings none, []⟩

namespace System

def put (s : System) (i : Nat) (p : Process) : System := { s with table := Function.update s.table i (some p) }

def freeSlot (s : System) : Option Nat := (List.range maxProcesses).find? fun i => (s.table i).isNone

def log (s : System) (records : List AuditRecord) : System := { s with audit := s.audit ++ records }

end System

def allocPid (s : System) : System × Nat := ({ s with nextPid := (s.nextPid + 1) % 2 ^ 32 }, s.nextPid)

/-- The driver claim of a manifest: the binding table, and what the process gets of it. -/
def claimDriver (bindings : Bindings) (i : Nat) (p : Process) : Option Manifest → Bindings × Process
  | none => (bindings, p)
  | some mf =>
    if mf.procType ≠ manifestProcTypeDriver then (bindings, p)
    else match driverGetDevice mf.devId with
      | none => (bindings, p)
      | some mask =>
        match driverRegisterBindingCaps bindings i mf.devId (mf.devCaps &&& mask) with
        | none => (bindings, p)
        | some bindings => (bindings, { p with driver := true, drvDevId := some mf.devId, drvCaps := mf.devCaps &&& mask })

def newProcess (sup : Supply) (pid : Nat) (new : ProcImage) : Process × List AuditRecord :=
  let brk := userHeapBase + aslrSlide (sup.tsc 1) (32 * 1024 * 1024)
  let p : Process :=
    { pid := pid, manifest := new.mf, capNet := false, capEnforce := false, capMask := 0#32, noNewPrivs := false, memLimit := 0,
      driver := false, drvDevId := none, drvCaps := 0#32, cred := credInitRoot, vmas := new.vmas, entry := new.entry,
      stackTop := new.stackTop, brkStart := brk, brkCur := brk,
      mmapNext := userMmapBase + aslrSlide (sup.tsc 2) (32 * 1024 * 1024), userMemBytes := new.footprint }
  capExecTransition (procApplyCaps p new.mf) (capExecBound none) "load"

/-- The driver claim is registered before the table has a slot for the process, and
taken back on every later failure. -/
def processCreateFromElfArgs (verify : Image → Bool) (s : System) (im : Image) (sup : Supply) : System × Option Nat :=
  if !sup.pcb then (s, none)
  else match procImageBuild verify sup im false 0 with
    | .error _ => (s, none)
    | .ok new =>
      let (s, pid) := allocPid s
      let (p, audit) := newProcess sup pid new
      let s := s.log audit
      match s.freeSlot with
      | none => (s, none)
      | some i =>
        if !sup.kstack || !sup.trapframe then (s, none)
        else
          let (bindings, p) := claimDriver s.bindings i p new.mf
          ({ s with bindings := bindings }.put i p, some i)

/-- The exec rule for a spawned process: below `no_new_privs` it also loses a driver
binding, which the second value reports. -/
def spawnBound (current : Option Process) (p : Process) : Process × Bool × List AuditRecord :=
  let bound := capExecBound current
  let (p, audit) := capExecTransition p bound "spawn"
  if bound.valid && bound.nnp && p.driver then
    ({ p with driver := false, drvDevId := none, drvCaps := 0#32 }, true,
      audit ++ [⟨p.pid, Caps.auditDriver, sysSpawn, "spawn-nnp", false⟩])
  else (p, false, audit)

def spawnCred (current : Option Process) (p : Process) : Process :=
  match current with
  | some q => if q.pid ≠ 0 then { p with cred := q.cred } else p
  | none => p

/-- `caller` is the current process, `none` in kernel context. -/
def ksysSpawnArgv (verify : Image → Bool) (s : System) (caller : Option Nat) (file : File) (sup : Supply) : System × Option Nat :=
  let current := caller.bind s.table
  match processCreateFromElfArgs verify s file.image sup with
  | (s, none) => (s, none)
  | (s, some i) =>
    match s.table i with
    | none => (s, none)
    | some fresh =>
      let (p, refused, audit) := spawnBound current fresh
      let p := spawnCred current p
      let bound := capExecBound current
      let (allowed, refusal) := setidAllowed p file.mode file.onRoot (bound.valid && bound.nnp)
      let bindings := if refused then driverRemoveAllBindings s.bindings i else s.bindings
      (({ s with bindings := bindings }.log (audit ++ refusal)).put i (credExecSetid p file.mode file.uid file.gid allowed), some i)

def execMaxImage : Nat := 16 * 1024 * 1024

def ksysExecve (verify : Image → Bool) (s : System) (i : Nat) (file : File) (sup : Supply) (args : Args) : System :=
  match s.table i with
  | none => s
  | some p =>
    if !sup.buffers then s
    else if file.image.size = 0 ∨ file.image.size > execMaxImage then s
    else match processExec verify sup p file.image args with
      | .error _ => s
      | .ok (q, audit) =>
        let (allowed, refusal) := setidAllowed q file.mode file.onRoot p.noNewPrivs
        let s := { s with bindings := driverRemoveAllBindings s.bindings i }
        (s.log (audit ++ refusal)).put i (credExecSetid q file.mode file.uid file.gid allowed)

/-- The child's number is drawn before anything else is allocated. -/
def processFork (s : System) (i : Nat) (sup : Supply) : System × Option Nat :=
  match s.table i with
  | none => (s, none)
  | some parent =>
    if !sup.pcb then (s, none)
    else
      let (s, pid) := allocPid s
      if !sup.space || !sup.image || !sup.trapframe then (s, none)
      else match s.freeSlot with
        | none => (s, none)
        | some j =>
          if !sup.kstack then (s, none)
          else
            (s.put j { parent with pid := pid, manifest := if sup.manifest then parent.manifest else none,
                                   driver := false, drvDevId := none, drvCaps := 0#32 }, some j)

def capAllowed (p : Option Process) (cap : Caps) : Bool := p.all fun p => !p.capEnforce || p.capMask.has cap

/-- Only a confined process is refused anything, and every check of one is recorded. -/
def capCheck (s : System) (p : Option Process) (cap : Caps) (num : Nat) (name : String) : System × Bool :=
  (s.log ((p.filter (·.capEnforce)).toList.map fun q => ⟨q.pid, cap, num, name, capAllowed p cap⟩), capAllowed p cap)

/-- The gates of kernel/syscall_trap.c and kernel/syscall.c: a confined process needs `CAP_PROC`. -/
def trapFork (s : System) (i : Nat) (sup : Supply) : System × Option Nat :=
  let checked := capCheck s (s.table i) Caps.proc sysFork "fork"
  if checked.2 then processFork checked.1 i sup else (checked.1, none)

def trapSpawn (verify : Image → Bool) (s : System) (caller : Option Nat) (file : File) (sup : Supply) : System × Option Nat :=
  let checked := capCheck s (caller.bind s.table) Caps.proc sysSpawn "spawn"
  if checked.2 then ksysSpawnArgv verify checked.1 caller file sup else (checked.1, none)

def trapExecve (verify : Image → Bool) (s : System) (i : Nat) (file : File) (sup : Supply) (args : Args) : System :=
  let checked := capCheck s (s.table i) Caps.proc sysExecve "execve"
  if checked.2 then ksysExecve verify checked.1 i file sup args else checked.1

/-- `PR_SET_NO_NEW_PRIVS`. -/
def prctl (s : System) (i : Nat) : System :=
  match s.table i with
  | none => s
  | some p => s.put i { p with noNewPrivs := true }

def processDestroy (s : System) (i : Nat) : System :=
  { s with table := Function.update s.table i none, bindings := driverRemoveAllBindings s.bindings i }

inductive Event where
  | fork (i : Nat) (sup : Supply)
  | spawn (caller : Option Nat) (file : File) (sup : Supply)
  | execve (i : Nat) (file : File) (sup : Supply) (args : Args)
  | prctl (i : Nat)
  | setCred (i : Nat) (cred : Cred)
  | destroy (i : Nat)

def step (verify : Image → Bool) (s : System) : Event → System
  | .fork i sup => (trapFork s i sup).1
  | .spawn caller file sup => (trapSpawn verify s caller file sup).1
  | .execve i file sup args => trapExecve verify s i file sup args
  | .prctl i => prctl s i
  | .setCred i cred =>
    match s.table i with
    | none => s
    | some p => s.put i { p with cred := cred }
  | .destroy i => processDestroy s i

def run (verify : Image → Bool) (s : System) (events : List Event) : System := events.foldl (step verify) s

end SecOS.Confine
