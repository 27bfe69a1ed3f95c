import SecOS.Socket

/-! Descriptor tables and the objects behind them: pipes (kernel/pipe.c), sockets
(net/socket.c), pseudo-terminals (kernel/pty.c) and input clients (drivers/input.c), with
the calls that make, copy and drop descriptors (kernel/syscall.c, kernel/process.c). One
event is one call; the counters are kept under the locks of their objects. -/

namespace SecOS.Descriptors
open Function

def maxFds : Nat := 32
def pipeMax : Nat := 64
def ptyMax : Nat := 64
def inputMaxClient : Nat := 16

/-- What an entry names: a pipe end, a socket, or an inode. A pty has the inode of its
master and of its slave; it is named by its address. -/
inductive Object where
  | null
  | pipe (i : Fin pipeMax) (write : Bool)
  | sock (i : Fin Tcp.maxSock)
  | file (n : Nat)
  | master (a : Nat)
  | slave (a : Nat)
  | client (i : Fin inputMaxClient)
deriving DecidableEq

structure Fd where
  used : Bool
  object : Object
  cloexec : Bool
  flags : Nat
deriving DecidableEq

def Fd.free : Fd := ⟨false, .null, false, 0⟩

def Fd.fresh : Fd := ⟨true, .null, false, 0⟩

/-- `dead` once the process has exited and waits to be reaped. -/
structure Process where
  pid : Nat
  sid : Nat
  pgid : Nat
  fds : Fin maxFds → Fd
  ctty : Option Nat
  cttyDetached : Bool
  dead : Bool

def Process.setFd (p : Process) (i : Fin maxFds) (e : Fd) : Process := { p with fds := update p.fds i e }

structure Pipe where
  used : Bool
  readers : Nat
  writers : Nat
deriving DecidableEq

structure Pty where
  idx : Fin ptyMax
  mrefs : Nat
  srefs : Nat
  crefs : Nat
  session : Nat
  fgPgrp : Nat
  hungup : Bool
  slaveOpened : Bool
  locked : Bool
deriving DecidableEq

structure Client where
  used : Bool
  refs : Nat
deriving DecidableEq

/-- `slots` is `g_pty`, `ptys` the pty objects that have not been freed, by address. -/
structure System where
  procs : List Process
  pipes : Fin pipeMax → Pipe
  net : Tcp.Stack
  slots : Fin ptyMax → Option Nat
  ptys : Nat → Option Pty
  clients : Fin inputMaxClient → Client

def pipeAlloc (s : System) : Option (System × Fin pipeMax) :=
  match (List.finRange pipeMax).find? fun i => !(s.pipes i).used with
  | none => none
  | some i => some ({ s with pipes := update s.pipes i ⟨true, 1, 1⟩ }, i)

def Pipe.take (p : Pipe) (write : Bool) : Pipe :=
  if write then { p with writers := p.writers + 1 } else { p with readers := p.readers + 1 }

def Pipe.drop (p : Pipe) (write : Bool) : Pipe :=
  if write then { p with writers := p.writers - 1 } else { p with readers := p.readers - 1 }

def Pipe.settle (p : Pipe) : Pipe := if p.readers = 0 ∧ p.writers = 0 then { p with used := false } else p

def pipeRef (s : System) (i : Fin pipeMax) (write : Bool) : System :=
  { s with pipes := update s.pipes i ((s.pipes i).take write) }

def pipeUnref (s : System) (i : Fin pipeMax) (write : Bool) : System :=
  { s with pipes := update s.pipes i ((s.pipes i).drop write).settle }

/-- The pty an inode belongs to, among those in the table. -/
def ptyOf (s : System) (a : Nat) : Option Pty := if (List.finRange ptyMax).any fun i => s.slots i == some a then s.ptys a else none

def System.setPty (s : System) (a : Nat) (p : Pty) : System := { s with ptys := update s.ptys a (some p) }

def maybeDetach (s : System) (a : Nat) (p : Pty) : System :=
  if p.mrefs > 0 ∨ p.srefs > 0 ∨ p.crefs > 0 then s.setPty a p
  else
    let slots := if s.slots p.idx = some a then update s.slots p.idx none else s.slots
    { s with slots := slots, ptys := update s.ptys a none }

/-- The signals are left out. -/
def hangupSession (p : Pty) : Pty := { p with session := 0, fgPgrp := 0 }

def ptyRef (s : System) : Object → System
  | .master a =>
    match ptyOf s a with
    | some p => s.setPty a { p with mrefs := p.mrefs + 1 }
    | none => s
  | .slave a =>
    match ptyOf s a with
    | some p => s.setPty a { p with srefs := p.srefs + 1 }
    | none => s
  | _ => s

def ptyUnref (s : System) : Object → System
  | .master a =>
    match ptyOf s a with
    | some p =>
      let p := if p.mrefs = 1 then hangupSession { p with mrefs := 0, hungup := true } else { p with mrefs := p.mrefs - 1 }
      maybeDetach s a p
    | none => s
  | .slave a =>
    match ptyOf s a with
    | some p => maybeDetach s a { p with srefs := p.srefs - 1 }
    | none => s
  | _ => s

/-- The controlling terminal is reached by its address, not through the table. -/
def ptyCttyRef (s : System) : Option Nat → System
  | none => s
  | some a =>
    match s.ptys a with
    | some p => s.setPty a { p with crefs := p.crefs + 1 }
    | none => s

/-- The pty side of `ctty_drop`; the process has lost its pointer already. -/
def cttyUnref (s : System) (c : Process) (leaderHangup : Bool) : Option Nat → System
  | none => s
  | some a =>
    match s.ptys a with
    | some p =>
      let p := if leaderHangup ∧ c.pid = c.sid ∧ p.session = c.sid then hangupSession p else p
      maybeDetach s a { p with crefs := p.crefs - 1 }
    | none => s

def inputObjRef (s : System) : Object → System
  | .client i =>
    if (s.clients i).used then
      { s with clients := update s.clients i { s.clients i with refs := (s.clients i).refs + 1 } }
    else s
  | _ => s

def inputObjUnref (s : System) : Object → System
  | .client i =>
    if (s.clients i).used then
      let refs := (s.clients i).refs - 1
      { s with clients := update s.clients i ⟨decide (refs ≠ 0), refs⟩ }
    else s
  | _ => s

def fdEntryRef (s : System) : Object → System
  | .pipe i write => pipeRef s i write
  | .sock i => { s with net := Tcp.lRef s.net i }
  | object => inputObjRef (ptyRef s object) object

def fdEntryUnref (now : Nat) (s : System) : Object → System
  | .pipe i write => pipeUnref s i write
  | .sock i => { s with net := Tcp.lUnref now s.net i }
  | object => inputObjUnref (ptyUnref s object) object

def System.setProc (s : System) (n : Nat) (p : Process) : System := { s with procs := s.procs.set n p }

def System.setFd (s : System) (n : Nat) (p : Process) (i : Fin maxFds) (e : Fd) : System := s.setProc n (p.setFd i e)

def unusedFrom (p : Process) (low : Nat) : Option (Fin maxFds) := (List.finRange maxFds).find? fun i => decide (low ≤ i) && !(p.fds i).used

def fdAlloc (p : Process) : Option (Fin maxFds) := unusedFrom p 0

def ksysPipe (s : System) (n : Nat) (p : Process) (cloexec : Bool) (flags : Nat) : System :=
  match pipeAlloc s with
  | none => s
  | some (s, i) =>
    match fdAlloc p with
    | none => pipeUnref (pipeUnref s i false) i true
    | some rfd =>
      match fdAlloc (p.setFd rfd Fd.fresh) with
      | none => pipeUnref (pipeUnref s i false) i true
      | some wfd => s.setProc n ((p.setFd rfd ⟨true, .pipe i false, cloexec, flags⟩).setFd wfd ⟨true, .pipe i true, cloexec, flags⟩)

/-- What the path of an open leads to. Regular files, and every other node without a
counter, are one case. -/
inductive Node where
  | file (n : Nat)
  | ptmx
  | devtty
  | pts (i : Fin ptyMax)
  | event
  deriving DecidableEq

structure Opening where
  node : Node
  noctty : Bool
  cloexec : Bool
  flags : Nat
  /-- Where the heap puts a new pty, if it has room for one. -/
  memory : Option Nat
  allowed : Bool

/-- A pty table without a free slot refuses. The heap gives no address that is in use. -/
def ptyAlloc (s : System) (memory : Option Nat) : Option (System × Nat) :=
  match memory, (List.finRange ptyMax).find? fun i => (s.slots i).isNone with
  | some a, some i =>
    if (s.ptys a).isSome then none
    else some ({ s with slots := update s.slots i (some a),
                        ptys := update s.ptys a (some ⟨i, 1, 0, 0, 0, 0, false, false, true⟩) }, a)
  | _, _ => none

/-- `pty_proc_ctty`: the pty that controls the session of the process, unless it is the console. -/
def procCtty (s : System) (c : Process) : Option (Option Nat) :=
  match c.ctty with
  | some a =>
    match s.ptys a with
    | some p => if p.session ≠ 0 ∧ p.session = c.sid then some (some a) else some none
    | none => some none
  | none => if c.cttyDetached then some none else none

/-- `acquire_ctty` of a process without one. -/
def acquireCtty (s : System) (n : Nat) (c : Process) (a : Nat) (p : Pty) : System :=
  (s.setPty a { p with session := c.sid, fgPgrp := c.pgid, crefs := p.crefs + 1 }).setProc n { c with ctty := some a, cttyDetached := false }

/-- A session leader without a controlling terminal takes a slave it opens that controls
no session; one that has lost its terminal drops it first. -/
def openSlave (s : System) (n : Nat) (c : Process) (a : Nat) (p : Pty) (noctty : Bool) : System :=
  let p := { p with srefs := p.srefs + 1, slaveOpened := true }
  let s := s.setPty a p
  if !noctty ∧ c.pid ≠ 0 ∧ c.sid = c.pid ∧ p.session = 0 then
    match c.ctty with
    | none => if c.cttyDetached then acquireCtty s n c a p else s
    | some old =>
      if (s.ptys old).any fun t => t.session ≠ 0 ∧ t.session = c.sid then s
      else
        let c := { c with ctty := none }
        let s := cttyUnref (s.setProc n c) c false (some old)
        match s.ptys a with
        | some p => if p.session = 0 then acquireCtty s n c a p else s
        | none => s
  else s

/-- `pty_open_hook`: the object the descriptor gets, none for an error. -/
def ptyOpenHook (s : System) (n : Nat) (c : Process) (o : Opening) : System × Option Object :=
  match o.node with
  | .file k => (s, some (.file k))
  | .event => (s, some .null)
  | .ptmx =>
    match ptyAlloc s o.memory with
    | none => (s, none)
    | some (s, a) => (s, some (.master a))
  | .devtty =>
    match procCtty s c with
    | none => (s, some (.file 0))
    | some none => (s, none)
    | some (some a) =>
      match s.ptys a with
      | none => (s, none)
      | some p => (s.setPty a { p with srefs := p.srefs + 1, slaveOpened := true }, some (.slave a))
  | .pts i =>
    match s.slots i with
    | none => (s, none)
    | some a =>
      match ptyOf s a with
      | none => (s, none)
      | some p => if p.mrefs = 0 ∨ p.locked then (s, none) else (openSlave s n c a p o.noctty, some (.slave a))

/-- `devfs_open_hook`: an input device gives every open a client of its own. -/
def devfsOpenHook (s : System) (o : Opening) (object : Object) : System × Option Object :=
  match o.node with
  | .event =>
    if !o.allowed then (s, none)
    else match (List.finRange inputMaxClient).find? fun i => !(s.clients i).used with
      | none => (s, none)
      | some i => ({ s with clients := update s.clients i ⟨true, 1⟩ }, some (.client i))
  | _ => (s, some object)

/-- The last part of an open; the process may have got a controlling terminal meanwhile. -/
def openFd (s : System) (n : Nat) (o : Opening) (object : Object) : System :=
  match s.procs[n]? with
  | none => s
  | some c =>
    match fdAlloc c with
    | none => inputObjUnref (ptyUnref s object) object
    | some fd => s.setFd n c fd ⟨true, object, o.cloexec, o.flags⟩

def ksysOpen (s : System) (n : Nat) (c : Process) (o : Opening) : System :=
  match ptyOpenHook s n c o with
  | (s, none) => s
  | (s, some object) =>
    match devfsOpenHook s o object with
    | (s, none) => s
    | (s, some object) => openFd s n o object

def sysSocket (now : Nat) (s : System) (n : Nat) (c : Process) (stream : Bool) (flags : Nat) : System :=
  match Tcp.lCreate stream s.net with
  | (net, .error _) => { s with net := net }
  | (net, .ok sx) =>
    let s := { s with net := net }
    match fdAlloc c with
    | none => { s with net := Tcp.lUnref now s.net sx }
    | some fd => s.setFd n c fd ⟨true, .sock sx, false, flags⟩

def sysAccept (s : System) (n : Nat) (c : Process) (fd : Fin maxFds) : System :=
  match (c.fds fd).used, (c.fds fd).object with
  | true, .sock sx =>
    match fdAlloc c with
    | none => s
    | some nfd =>
      match Tcp.lAccept s.net sx with
      | (net, .error _) => { s with net := net }
      | (net, .ok nsx) => { s with net := net }.setFd n c nfd ⟨true, .sock nsx, false, 0⟩
  | _, _ => s

def ksysDup2 (now : Nat) (s : System) (n : Nat) (c : Process) (oldfd newfd : Fin maxFds) : System :=
  if !(c.fds oldfd).used ∨ oldfd = newfd then s
  else
    let s := fdEntryRef s (c.fds oldfd).object
    let old := c.fds newfd
    let s := s.setFd n c newfd { c.fds oldfd with cloexec := false }
    if old.used then fdEntryUnref now s old.object else s

/-- `fcntl(F_DUPFD)` and `F_DUPFD_CLOEXEC`; `dup` is the case from descriptor 0. -/
def dupFrom (s : System) (n : Nat) (c : Process) (fd : Fin maxFds) (low : Nat) (cloexec : Bool) : System :=
  if !(c.fds fd).used then s
  else match unusedFrom c low with
    | none => s
    | some i => fdEntryRef (s.setFd n c i { c.fds fd with cloexec := cloexec }) (c.fds fd).object

def ksysClose (now : Nat) (s : System) (n : Nat) (c : Process) (fd : Fin maxFds) : System :=
  if !(c.fds fd).used then s
  else fdEntryUnref now (s.setFd n c fd { c.fds fd with used := false, object := .null }) (c.fds fd).object

def newProcess (pid : Nat) : Process := ⟨pid, pid, pid, fun i => if i.val < 3 then Fd.fresh else Fd.free, none, false, false⟩

def inheritFd (parent : Process) (st : System × Process) (i : Fin maxFds) : System × Process :=
  let e := parent.fds i
  if e.used then (fdEntryRef st.1 e.object, st.2.setFd i { e with cloexec := false }) else st

def spawnInheritStdio (s : System) (parent child : Process) : System × Process :=
  ((List.finRange maxFds).filter (·.val < 3)).foldl (inheritFd parent) (s, child)

/-- Once the image is built; the spawner is none for the kernel itself. -/
def ksysSpawn (s : System) (parent : Option Process) (pid : Nat) : System :=
  match parent with
  | none => { s with procs := s.procs ++ [newProcess pid] }
  | some parent =>
    let (s, child) := spawnInheritStdio s parent (newProcess pid)
    if parent.pid = 0 then { s with procs := s.procs ++ [child] }
    else
      let child := { child with pgid := parent.pgid, sid := parent.sid, cttyDetached := parent.cttyDetached, ctty := parent.ctty }
      let s := ptyCttyRef s child.ctty
      { s with procs := s.procs ++ [child] }

/-- One entry of `process_release_pipes`; entries without a counter stay. -/
def releaseFd (now : Nat) (st : System × Process) (i : Fin maxFds) : System × Process :=
  let (s, p) := st
  let e := p.fds i
  if !e.used then st
  else match e.object with
    | .sock sx => ({ s with net := Tcp.lUnref now s.net sx }, p.setFd i { e with used := false, object := .null })
    | .pipe k w => (pipeUnref s k w, p.setFd i { e with used := false, object := .null })
    | .master a =>
      if (ptyOf s a).isSome then (ptyUnref s (.master a), p.setFd i { e with used := false, object := .null }) else st
    | .slave a =>
      if (ptyOf s a).isSome then (ptyUnref s (.slave a), p.setFd i { e with used := false, object := .null }) else st
    | .client k =>
      if (s.clients k).used then (inputObjUnref s (.client k), p.setFd i { e with used := false, object := .null }) else st
    | _ => st

/-- `process_release_pipes` of a process that is not in the table, or is written back to it. -/
def processReleasePipes (now : Nat) (s : System) (p : Process) : System × Process :=
  let (s, p) := (List.finRange maxFds).foldl (releaseFd now) (s, p)
  (cttyUnref s p true p.ctty, { p with ctty := none })

def forkRef (s : System) (e : Fd) : System := if e.used then fdEntryRef s e.object else s

inductive ForkEnd where
  | early
  | late
  | done
deriving DecidableEq

/-- A fork that fails before the references are taken leaves nothing; one that fails after
releases the child it has built. -/
def processFork (now : Nat) (s : System) (parent : Process) (pid : Nat) : ForkEnd → System
  | .early => s
  | .late =>
    let child := { parent with pid := pid }
    let s := ptyCttyRef ((List.finRange maxFds).foldl (fun s i => forkRef s (child.fds i)) s) child.ctty
    (processReleasePipes now s child).1
  | .done =>
    let child := { parent with pid := pid }
    let s := ptyCttyRef ((List.finRange maxFds).foldl (fun s i => forkRef s (child.fds i)) s) child.ctty
    { s with procs := s.procs ++ [child] }

def cloexecFd (now : Nat) (st : System × Process) (i : Fin maxFds) : System × Process :=
  let (s, p) := st
  let e := p.fds i
  if !e.used ∨ !e.cloexec then st else (fdEntryUnref now s e.object, p.setFd i Fd.free)

def execCloexec (now : Nat) (s : System) (n : Nat) (p : Process) : System :=
  let (s, p) := (List.finRange maxFds).foldl (cloexecFd now) (s, p)
  s.setProc n p

def ksysSetsid (s : System) (n : Nat) (c : Process) : System :=
  if c.pid = 0 ∨ s.procs.any fun q => !q.dead && q.pgid == c.pid then s
  else
    let s := s.setProc n { c with ctty := none, sid := c.pid, pgid := c.pid, cttyDetached := true }
    cttyUnref s c false c.ctty

/-- `sched_exit`, as far as descriptors go. -/
def exit (now : Nat) (s : System) (n : Nat) (p : Process) : System :=
  let (s, p) := processReleasePipes now s p
  s.setProc n { p with dead := true }

/-- `process_destroy` of a zombie, or of a process that never exited. -/
def processDestroy (now : Nat) (s : System) (n : Nat) (p : Process) : System :=
  let (s, _) := processReleasePipes now s p
  { s with procs := s.procs.eraseIdx n }

inductive Call where
  | pipe (cloexec : Bool) (flags : Nat)
  | open (o : Opening)
  | socket (stream : Bool) (flags : Nat)
  | accept (fd : Fin maxFds)
  | dup (fd : Fin maxFds)
  | dup2 (oldfd newfd : Fin maxFds)
  | dupfd (fd : Fin maxFds) (low : Nat) (cloexec : Bool)
  | close (fd : Fin maxFds)
  | spawn (pid : Nat)
  | fork (pid : Nat) (how : ForkEnd)
  | execve
  | setsid
  | exit

/-- A call of a process, the kernel starting or destroying one, TIOCSPTLCK on a pty, or
something the network layer does to sockets that exist. -/
inductive Event where
  | call (now n : Nat) (c : Call)
  | start (pid : Nat)
  | destroy (now n : Nat)
  | lock (a : Nat) (locked : Bool)
  | bind (i : Fin Tcp.maxSock) (port : Nat)
  | connect (o : Tcp.Outside) (i : Fin Tcp.maxSock) (ip : BitVec 32) (port : Nat)
  | listen (o : Tcp.Outside) (i : Fin Tcp.maxSock) (backlog : Nat)
  | send (o : Tcp.Outside) (i : Fin Tcp.maxSock) (data : List UInt8)
  | recv (i : Fin Tcp.maxSock) (len : Nat)
  | packet (o : Tcp.Outside) (ip : BitVec 32) (bytes : List UInt8)
  | tick (now : Nat) (leaves : Fin Tcp.maxConn → Bool)

def perform (now : Nat) (s : System) (n : Nat) (p : Process) : Call → System
  | .pipe cloexec flags => ksysPipe s n p cloexec flags
  | .open o => ksysOpen s n p o
  | .socket stream flags => sysSocket now s n p stream flags
  | .accept fd => sysAccept s n p fd
  | .dup fd => dupFrom s n p fd 0 false
  | .dup2 oldfd newfd => ksysDup2 now s n p oldfd newfd
  | .dupfd fd low cloexec => dupFrom s n p fd low cloexec
  | .close fd => ksysClose now s n p fd
  | .spawn pid => ksysSpawn s (some p) pid
  | .fork pid how => processFork now s p pid how
  | .execve => execCloexec now s n p
  | .setsid => ksysSetsid s n p
  | .exit => exit now s n p

def netEvent : Event → Option Tcp.Event
  | .bind i port => some (.bind i port)
  | .connect o i ip port => some (.connect o i ip port)
  | .listen o i backlog => some (.listen o i backlog)
  | .send o i data => some (.send o i data)
  | .recv i len => some (.recv i len)
  | .packet o ip bytes => some (.packet o ip bytes)
  | .tick now leaves => some (.tick now leaves)
  | _ => none

def step (s : System) (e : Event) : System :=
  match e with
  | .call now n c =>
    match s.procs[n]? with
    | none => s
    | some p => if p.dead then s else perform now s n p c
  | .start pid => ksysSpawn s none pid
  | .destroy now n =>
    match s.procs[n]? with
    | none => s
    | some p => processDestroy now s n p
  | .lock a locked =>
    match ptyOf s a with
    | none => s
    | some p => s.setPty a { p with locked := locked }
  | e =>
    match netEvent e with
    | none => s
    | some e => { s with net := Tcp.step s.net e }

def run (s : System) (events : List Event) : System := events.foldl step s

def boot : System := ⟨[], fun _ => ⟨false, 0, 0⟩, Tcp.boot, fun _ => none, fun _ => none, fun _ => ⟨false, 0⟩⟩

end SecOS.Descriptors
