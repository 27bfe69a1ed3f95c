import Mathlib

/-! Waiting for children (kernel/syscall_trap.c, kernel/sched.c, kernel/process.c): the exit
status of a child goes to a parent that is blocked in SYS_WAIT through a mailbox of one slot,
or stays in the zombie until it is asked for. Every event runs under the kernel lock. New, ready
and running are one state, and a process that can run may make any call. Masks, dispositions
and the wake sequence number decide the answers that the events carry. -/

namespace SecOS.Waiting
open Function

def maxProcesses : Nat := 32

instance : NeZero maxProcesses := ⟨by decide⟩

abbrev Slot := Fin maxProcesses

inductive State where
  | runnable
  | blocked
  | stopped
  | zombie
deriving DecidableEq

/-- `waitFrom` is not in the source: the process whose status is in the mailbox. -/
structure Proc where
  pid : Nat
  ppid : Nat
  spawnerPid : Nat
  state : State
  exitCode : Int
  collected : Bool
  waitPid : Int
  waitResult : Int
  waitReady : Bool
  waitFrom : Nat
  stopReport : Bool
  contReport : Bool
  stopSig : Nat
deriving DecidableEq

/-- `exits` and `handed` are the history: the processes that have ended with their status, and
the statuses that calls have returned with the process they are returned for. -/
structure System where
  nextPid : Nat
  initPid : Nat
  procs : Slot → Option Proc
  exits : List (Nat × Int)
  handed : List (Nat × Int)

def boot : System := ⟨1, 0, fun _ => none, [], []⟩

namespace System

def put (s : System) (i : Slot) (p : Proc) : System := { s with procs := update s.procs i (some p) }

def remove (s : System) (i : Slot) : System := { s with procs := update s.procs i none }

def modify (s : System) (i : Slot) (f : Proc → Proc) : System := { s with procs := update s.procs i ((s.procs i).map f) }

def foreach (s : System) (f : Proc → Proc) : System := { s with procs := fun i => (s.procs i).map f }

def find (s : System) (test : Proc → Bool) : Option Slot := (List.finRange maxProcesses).find? fun i => (s.procs i).any test

def findByPid (s : System) (pid : Nat) : Option Slot := s.find (·.pid == pid)

def hand (s : System) (pid : Nat) (status : Int) : System := { s with handed := s.handed ++ [(pid, status)] }

end System

/-- `signal_post` of a signal that is delivered: a blocked process loses its wait condition. -/
def signalPost (p : Proc) : Proc := if p.state = .blocked then { p with waitPid := -1, state := .runnable } else p

/-- `chld` says which processes SIGCHLD interrupts. -/
def notifyParentSigchld (chld : Slot → Bool) (s : System) (ppid : Nat) : System :=
  if ppid = 0 then s
  else match s.findByPid ppid with
    | none => s
    | some j =>
      match s.procs j with
      | none => s
      | some parent => if chld j then s.put j (signalPost parent) else s

def wakeWaitany (ppid : Nat) (p : Proc) : Proc :=
  if p.pid = ppid ∧ p.state = .blocked ∧ p.waitPid = -2 then { p with waitPid := -1, state := .runnable } else p

def schedWakeParentWaitany (s : System) (ppid : Nat) : System := if ppid = 0 then s else s.foreach (wakeWaitany ppid)

def waitsFor (pid : Nat) (p : Proc) : Bool := p.state = .blocked && decide (0 ≤ p.waitPid) && decide (p.waitPid = pid)

def wakeWaiter (pid : Nat) (code : Int) (p : Proc) : Proc :=
  if waitsFor pid p then { p with waitResult := code, waitReady := true, waitFrom := pid, waitPid := -1, state := .runnable } else p

/-- The waiters that were woken; `raced` says for which ones a signal on another CPU made the
process ready between the test and the exchange of its state, so that it does not count. -/
def schedWakeWaitpid (raced : Slot → Bool) (s : System) (pid : Nat) (code : Int) : System × Bool :=
  (s.foreach (wakeWaiter pid code),
    (List.finRange maxProcesses).any fun j => (s.procs j).any (waitsFor pid) && !raced j)

def reparent (dead init : Nat) (p : Proc) : Proc := if p.ppid = dead ∧ p.pid ≠ dead then { p with ppid := init } else p

def processReparentChildren (s : System) (dead : Nat) : System × Bool :=
  if s.initPid = 0 ∨ dead = s.initPid ∨ dead = 0 then (s, false)
  else if (s.find fun q => q.pid == s.initPid && q.state != .zombie).isNone then (s, false)
  else
    (s.foreach (reparent dead s.initPid),
      (s.find fun p => p.ppid == dead && p.pid != dead && p.state == .zombie && !p.collected).isSome)

def exitReparent (s : System) (pid : Nat) : System :=
  if s.initPid = 0 then s
  else if pid = s.initPid then { s with initPid := 0 }
  else
    let (s, zombie) := processReparentChildren s pid
    if zombie then schedWakeParentWaitany s s.initPid else s

/-- `sched_exit_current` and `sched_kill_current`. -/
def schedExit (chld raced : Slot → Bool) (s : System) (i : Slot) (p : Proc) (code : Int) : System :=
  let s := { s with exits := s.exits ++ [(p.pid, code)] }.put i { p with state := .zombie, exitCode := code }
  let s := exitReparent s p.pid
  let s := notifyParentSigchld chld s p.ppid
  let (s, woke) := schedWakeWaitpid raced s p.pid code
  let s := if woke then s.modify i fun p => { p with collected := true } else s
  schedWakeParentWaitany s p.ppid

def wExitcode (status : Nat) : Int := ((status % 256 * 256 : Nat) : Int)
def wSignaled (sig : Nat) : Int := ((sig % 128 : Nat) : Int)

inductive Signals where
  | quiet
  | stop (sig : Nat)
  | interrupted

/-- What a call finds: the pending signals, and whether a wake-up has happened since it began,
in which case it runs again instead of going to sleep. -/
structure Outside where
  signals : Signals
  moved : Bool
  chld : Slot → Bool

def Outside.still : Outside := ⟨.quiet, false, fun _ => false⟩

def schedStopCurrent (chld : Slot → Bool) (s : System) (i : Slot) (p : Proc) (sig : Nat) : System :=
  let s := s.put i { p with stopReport := true, contReport := false, stopSig := sig, state := .stopped }
  schedWakeParentWaitany (notifyParentSigchld chld s p.ppid) p.ppid

def eintr : Int := -4
def echild : Int := -10

/-- The value of a register as the number of a process, and as a C `int`. -/
def asPid (rdi : Nat) : Nat := rdi % 2 ^ 32
def asInt (rdi : Nat) : Int := if asPid rdi < 2 ^ 31 then asPid rdi else asPid rdi - 2 ^ 32

/-- The result is `none` for a call that waits. -/
def sysWait (s : System) (i : Slot) (cur : Proc) (rdi : Nat) (o : Outside) : System × Option Int :=
  if cur.waitReady then ((s.put i { cur with waitReady := false }).hand (asPid rdi) cur.waitResult, some cur.waitResult)
  else match s.findByPid (asPid rdi) with
    | none => (s, some (-1))
    | some j =>
      match s.procs j with
      | none => (s, some (-1))
      | some child =>
        if child.ppid ≠ cur.pid ∧ child.spawnerPid ≠ cur.pid then (s, some echild)
        else if child.state = .zombie then
          ((s.put j { child with collected := true }).hand (asPid rdi) child.exitCode, some child.exitCode)
        else match o.signals with
          | .stop sig => (schedStopCurrent o.chld s i cur sig, none)
          | .interrupted => (s, some eintr)
          | .quiet => (s.put i { cur with waitPid := asInt rdi, waitReady := false, state := if o.moved then .runnable else .blocked }, none)

def processFindZombieChild (s : System) (ppid : Nat) : Option Slot :=
  s.find fun p => p.ppid == ppid && p.state == .zombie && !p.collected

def processHasChildren (s : System) (ppid : Nat) : Bool :=
  (s.find fun p => p.ppid == ppid && !(p.state == .zombie && p.collected)).isSome

def stopReported (ppid : Nat) (p : Proc) : Bool := p.ppid == ppid && p.state == .stopped && p.stopReport
def contReported (ppid : Nat) (p : Proc) : Bool := p.ppid == ppid && p.state != .zombie && p.contReport

def takeReport (wantStop : Bool) (ppid : Nat) (p : Proc) : Proc :=
  if wantStop && stopReported ppid p then { p with stopReport := false } else { p with contReport := false }

def processTakeJobctlChild (s : System) (ppid : Nat) (wantStop wantCont : Bool) : Option (System × Nat) :=
  match s.find fun p => (wantStop && stopReported ppid p) || (wantCont && contReported ppid p) with
  | none => none
  | some j =>
    match s.procs j with
    | none => none
    | some p => some (s.put j (takeReport wantStop ppid p), p.pid)

/-- The result is the number of the child; its status goes to user memory. -/
def sysWaitany (s : System) (i : Slot) (cur : Proc) (opts : Nat) (o : Outside) : System × Option Int :=
  match processFindZombieChild s cur.pid with
  | some j =>
    match s.procs j with
    | none => (s, some echild)
    | some z => ((s.put j { z with collected := true }).hand z.pid z.exitCode, some z.pid)
  | none =>
    match processTakeJobctlChild s cur.pid (opts.testBit 1) (opts.testBit 3) with
    | some (s, pid) => (s, some pid)
    | none =>
      if !processHasChildren s cur.pid then (s, some echild)
      else if opts.testBit 0 then (s, some 0)
      else match o.signals with
        | .stop sig => (schedStopCurrent o.chld s i cur sig, none)
        | .interrupted => (s, some eintr)
        | .quiet => (s.put i { cur with waitPid := -2, state := if o.moved then .runnable else .blocked }, none)

def newProc (pid ppid spawnerPid : Nat) : Proc := ⟨pid, ppid, spawnerPid, .runnable, 0, false, -1, 0, false, 0, false, false, 0⟩

/-- The number is drawn first; `room` says that everything else the new process needs is there. -/
def create (room : Bool) (s : System) (ppid spawnerPid : Nat) : System :=
  let pid := s.nextPid
  let s := { s with nextPid := (s.nextPid + 1) % 2 ^ 32 }
  match (List.finRange maxProcesses).find? fun i => (s.procs i).isNone with
  | none => s
  | some i => if room then s.put i (newProc pid ppid spawnerPid) else s

def reapable (s : System) (p : Proc) : Bool :=
  p.state == .zombie &&
    (p.collected || p.ppid == 0 || (s.find fun q => q.pid == p.ppid && q.state != .zombie).isNone)

inductive Event where
  | fork (i : Slot) (room : Bool)
  | spawn (caller : Option Slot) (room : Bool)
  | setInit (i : Slot)
  | wait (i : Slot) (rdi : Nat) (o : Outside)
  | waitany (i : Slot) (opts : Nat) (o : Outside)
  | exit (i : Slot) (status : Nat) (chld raced : Slot → Bool)
  | kill (i : Slot) (sig : Nat) (chld raced : Slot → Bool)
  /-- A signal that does something is posted. -/
  | post (i : Slot)
  /-- SIGCONT to a stopped process. -/
  | cont (i : Slot) (chld : Slot → Bool)
  /-- SIGKILL to a stopped process. -/
  | resume (i : Slot)
  | stop (i : Slot) (sig : Nat) (chld : Slot → Bool)
  /-- The process sleeps in another call, and is woken from it. -/
  | block (i : Slot)
  | wake (i : Slot)
  | reap (i : Slot)

def running (s : System) (i : Slot) (f : Proc → System) : System :=
  match s.procs i with
  | none => s
  | some p => if p.state = .runnable then f p else s

def step (s : System) : Event → System
  | .fork i room => running s i fun p => create room s p.pid 0
  | .spawn none room => create room s 0 0
  | .spawn (some i) room => running s i fun p => create room s 0 p.pid
  | .setInit i => running s i fun p => { s with initPid := p.pid }
  | .wait i rdi o => running s i fun p => (sysWait s i p rdi o).1
  | .waitany i opts o => running s i fun p => (sysWaitany s i p opts o).1
  | .exit i status chld raced => running s i fun p => schedExit chld raced s i p (wExitcode status)
  | .kill i sig chld raced => running s i fun p => schedExit chld raced s i p (wSignaled sig)
  | .post i =>
    match s.procs i with
    | none => s
    | some p => s.put i (signalPost p)
  | .cont i chld =>
    match s.procs i with
    | none => s
    | some p =>
      if p.state = .stopped then
        let s := s.put i { p with state := .runnable, stopReport := false, contReport := true }
        schedWakeParentWaitany (notifyParentSigchld chld s p.ppid) p.ppid
      else s
  | .resume i =>
    match s.procs i with
    | none => s
    | some p => if p.state = .stopped then s.put i { p with state := .runnable, stopReport := false } else s
  | .stop i sig chld => running s i fun p => schedStopCurrent chld s i p sig
  | .block i => running s i fun p => s.put i { p with state := .blocked }
  | .wake i =>
    match s.procs i with
    | none => s
    | some p => if p.state = .blocked then s.put i { p with state := .runnable } else s
  | .reap i =>
    match s.procs i with
    | none => s
    | some p => if reapable s p then s.remove i else s

def run (s : System) (events : List Event) : System := events.foldl step s

end SecOS.Waiting
