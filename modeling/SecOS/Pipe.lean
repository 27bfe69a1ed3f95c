import Mathlib

/-! Pipes and blocking writes to them (kernel/pipe.c, ksys_write of kernel/syscall.c and the
trap layer of kernel/syscall_trap.c). A write that finds the pipe full goes to sleep with its
instruction pointer moved back, and runs again from the start when it is woken. The ring buffer
is the list of its valid bytes, and a process is its descriptors and the stack of its user
contexts. A call that runs again looks its descriptor up again. -/

namespace SecOS.Pipes

def pipeBuf : Nat := 4096
def pipeSize : Nat := pipeBuf

structure Pipe where
  queue : List UInt8
  readers : Nat
deriving DecidableEq

inductive Written where
  | bytes (n : Nat)
  | wouldBlock
  | epipe
deriving DecidableEq

def pipeRead (p : Pipe) (len : Nat) : Pipe := { p with queue := p.queue.drop len }

/-- The part of the data that was stored comes back, too. -/
def pipeWriteMode (p : Pipe) (data : List UInt8) (atomic : Bool) : Pipe × Written × List UInt8 :=
  if data = [] ∨ p.readers = 0 then (p, .epipe, [])
  else
    let space := pipeSize - p.queue.length
    if space = 0 ∨ (atomic ∧ space < data.length) then (p, .wouldBlock, [])
    else ({ p with queue := p.queue ++ data.take space }, .bytes (data.take space).length, data.take space)

/-- What a used descriptor refers to: the write end of a pipe, or anything else (a read end, a
file, a terminal, a socket). -/
inductive Object where
  | pipe (j : Nat)
  | other
deriving DecidableEq

/-- A call of write that began on a pipe. `parts` is what has been stored for it so far, one
entry for every time a pipe took something. -/
structure Call where
  fd : Nat
  pipe : Nat
  buf : List UInt8
  parts : List (List UInt8)
deriving DecidableEq

/-- How a write to something else than a pipe ends. One that finds a terminal full waits, or
finds a signal pending and gives up. -/
inductive Answer where
  | returns (r : Int)
  | waits
  | givesUp
deriving DecidableEq

/-- What the outside answers while a write runs: memory for the bounce buffer, a fault when the
chunk at an offset is copied, and whether a write that has to wait is on a descriptor that
does not block or finds a signal pending. A pending stop counts as waiting: the call runs
again after SIGCONT. The last answer is that of a descriptor that is not on a pipe. -/
structure Outside where
  memory : Bool
  fault : Nat → Bool
  nonblock : Bool
  interrupted : Bool
  elsewhere : Answer

def Outside.quiet : Outside := ⟨true, fun _ => false, false, false, .returns 0⟩

inductive Ended where
  | full
  | wouldBlock
  | failed (errno : Int)
deriving DecidableEq

def efault : Int := -14
def epipe : Int := -32
def eagain : Int := -11
def eintr : Int := -4

/-- The loop of `ksys_write`; every round stores a byte at least. -/
def writeLoop (o : Outside) (c : Call) : Nat → Pipe → Nat → List (List UInt8) → Pipe × Nat × List (List UInt8) × Ended
  | 0, p, done, parts => (p, done, parts, .full)
  | rounds + 1, p, done, parts =>
    if c.buf.length ≤ done then (p, done, parts, .full)
    else if o.fault done then (p, done, parts, .failed efault)
    else match pipeWriteMode p ((c.buf.drop done).take pipeBuf) (c.buf.length ≤ pipeBuf) with
      | (p, .wouldBlock, _) => (p, done, parts, .wouldBlock)
      | (p, .epipe, _) => (p, done, parts, .failed epipe)
      | (p, .bytes n, part) => writeLoop o c rounds p (done + n) (parts ++ [part])

/-- The pipe, the progress to remember and the parts; then the result, `none` for "would block". -/
def ksysWrite (o : Outside) (p : Pipe) (wdone : Nat) (c : Call) : Pipe × Nat × List (List UInt8) × Option Int :=
  if c.buf = [] then (p, wdone, c.parts, some (-1))
  else
    let done := if wdone ≥ c.buf.length then 0 else wdone
    if !o.memory then (p, 0, c.parts, some (if done ≠ 0 then done else -1))
    else match writeLoop o c c.buf.length p done c.parts with
      | (p, done, parts, .wouldBlock) => (p, done, parts, none)
      | (p, done, parts, .full) => (p, 0, parts, some done)
      | (p, done, parts, .failed e) => (p, 0, parts, some (if done ≠ 0 then done else e))

/-- SYS_WRITE: a write that would block gives up or waits, `none` if it waits. -/
def sysWrite (o : Outside) (p : Pipe) (wdone : Nat) (c : Call) : Pipe × Nat × List (List UInt8) × Option Int :=
  match ksysWrite o p wdone c with
  | (p, wdone, parts, some r) => (p, wdone, parts, some r)
  | (p, wdone, parts, none) =>
    if o.nonblock then (p, 0, parts, some (if wdone > 0 then wdone else eagain))
    else if o.interrupted then (p, 0, parts, some (if wdone > 0 then wdone else eintr))
    else (p, wdone, parts, none)

/-- A write whose descriptor is not on a pipe. Descriptors 1 and 2 are the console when they are
not used, any other one is refused. Giving up reports the progress that the process has, and
forgets it, whoever made it. -/
def writeElsewhere (o : Outside) (fd : Nat) (used : Bool) (wdone : Nat) : Nat × Option Int :=
  if !used && fd != 1 && fd != 2 then (wdone, some (-1))
  else match o.elsewhere with
    | .returns r => (wdone, some r)
    | .waits => (wdone, none)
    | .givesUp => (0, some (if wdone > 0 then wdone else eintr))

/-- The contexts, the running one first: `some c` is about to make the call `c` again. -/
structure Process where
  pipeWdone : Nat
  contexts : List (Option Call)
  fds : Nat → Option Object

structure Returned where
  call : Call
  ret : Int
deriving DecidableEq

structure System where
  pipes : Nat → Pipe
  procs : Nat → Process
  returned : List Returned

inductive Event where
  | write (i : Nat) (o : Outside) (fd : Nat) (buf : List UInt8)
  | rerun (i : Nat) (o : Outside)
  | handler (i : Nat)
  | sigreturn (i : Nat)
  /-- The descriptors of `closing` are those marked close-on-exec. -/
  | execve (i : Nat) (closing : List Nat)
  /-- The child has a copy of the descriptors and of the contexts; a call in them is a call of
  its own. -/
  | fork (i child : Nat)
  /-- `fd_alloc` finds descriptor `fd` unused: open, pipe, dup, socket, accept and the like. -/
  | install (i fd : Nat) (object : Object)
  | close (i fd : Nat)
  | dup2 (i oldfd newfd : Nat)
  | read (pipe len : Nat)
  /-- A read that would block, on a pipe, a terminal or an input device, does not wait: its
  descriptor does not block, or a signal is pending. -/
  | readGivesUp (i : Nat)
  | setReaders (pipe readers : Nat)

def System.put (s : System) (i : Nat) (p : Process) : System := { s with procs := Function.update s.procs i p }

def System.setFd (s : System) (i fd : Nat) (object : Option Object) : System :=
  s.put i { s.procs i with fds := Function.update (s.procs i).fds fd object }

def System.putPipe (s : System) (j : Nat) (p : Pipe) : System := { s with pipes := Function.update s.pipes j p }

/-- The end of a run of a call: it returns, or it waits to run again. -/
def System.settle (s : System) (i : Nat) (c : Call) (rest : List (Option Call)) (wdone : Nat) : Option Int → System
  | some r =>
    let s := s.put i { s.procs i with pipeWdone := wdone, contexts := none :: rest }
    { s with returned := s.returned ++ [⟨c, r⟩] }
  | none => s.put i { s.procs i with pipeWdone := wdone, contexts := some c :: rest }

def runCall (s : System) (i : Nat) (o : Outside) (c : Call) (rest : List (Option Call)) : System :=
  match (s.procs i).fds c.fd with
  | some (.pipe j) =>
    match sysWrite o (s.pipes j) (s.procs i).pipeWdone c with
    | (p, wdone, parts, result) => (s.putPipe j p).settle i { c with parts := parts } rest wdone result
  | object =>
    match writeElsewhere o c.fd object.isSome (s.procs i).pipeWdone with
    | (wdone, result) => s.settle i c rest wdone result

def step (s : System) : Event → System
  | .write i o fd buf =>
    match (s.procs i).contexts with
    | none :: rest =>
      match (s.procs i).fds fd with
      | some (.pipe j) => runCall s i o ⟨fd, j, buf, []⟩ rest
      | object => s.put i { s.procs i with pipeWdone := (writeElsewhere o fd object.isSome (s.procs i).pipeWdone).1 }
    | _ => s
  | .rerun i o =>
    match (s.procs i).contexts with
    | some c :: rest => runCall s i o c rest
    | _ => s
  | .handler i => s.put i { s.procs i with contexts := none :: (s.procs i).contexts }
  | .sigreturn i =>
    match (s.procs i).contexts with
    | none :: context :: rest => s.put i { s.procs i with contexts := context :: rest }
    | _ => s
  | .execve i closing =>
    match (s.procs i).contexts with
    | none :: _ => s.put i ⟨0, [none], fun fd => if fd ∈ closing then none else (s.procs i).fds fd⟩
    | _ => s
  | .fork i child =>
    s.put child ⟨0, (s.procs i).contexts.map (Option.map fun c => { c with parts := [] }), (s.procs i).fds⟩
  | .install i fd object => if (s.procs i).fds fd = none then s.setFd i fd (some object) else s
  | .close i fd => s.setFd i fd none
  | .dup2 i oldfd newfd =>
    if (s.procs i).fds oldfd = none then s else s.setFd i newfd ((s.procs i).fds oldfd)
  | .read pipe len => s.putPipe pipe (pipeRead (s.pipes pipe) len)
  | .readGivesUp i =>
    match (s.procs i).contexts with
    | none :: _ => s.put i { s.procs i with pipeWdone := 0 }
    | _ => s
  | .setReaders pipe readers => s.putPipe pipe { s.pipes pipe with readers := readers }

def run (s : System) (events : List Event) : System := events.foldl step s

def boot : System := ⟨fun _ => ⟨[], 0⟩, fun _ => ⟨0, [none], fun _ => none⟩, []⟩

end SecOS.Pipes
