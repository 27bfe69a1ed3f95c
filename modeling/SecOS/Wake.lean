import Mathlib

/-! One task and the calls other CPUs make on it, one memory access at a time:
blocking (sched_block_current and the table-scanning wakers of kernel/sched.c) and
signals (signal_post and signal_dispatch of kernel/signal.c, sched_stop_current). The
wakers visit every task under the process-table lock; the visit of this one is
modelled. `signal_post` takes no lock. The wake sequence number is not bounded. -/

namespace SecOS.Wake
open Function

inductive ProcState where
  | new | ready | running | blocked | zombie | stopped
deriving DecidableEq

inductive Disposition where
  | dfl | ign | caught
deriving DecidableEq

def nsig : Nat := 32
def sigkill : Nat := 9
def sigchld : Nat := 17
def sigcont : Nat := 18
def sigstop : Nat := 19
def sigtstp : Nat := 20
def sigttin : Nat := 21
def sigttou : Nat := 22
def sigurg : Nat := 23
def sigwinch : Nat := 28

def sigDefaultIgnore (sig : Nat) : Bool := sig == sigchld || sig == sigcont || sig == sigurg || sig == sigwinch
def sigDefaultStop (sig : Nat) : Bool := sig == sigstop || sig == sigtstp || sig == sigttin || sig == sigttou

inductive Wait where
  | pipe (pp : Nat)
  | poll
  | chan (c : Nat)
  | child (pid : Nat)
  | anyChild
deriving DecidableEq

structure Task where
  pid : Nat
  state : ProcState
  sigPending : Nat → Bool
  sigBlocked : Nat → Bool
  sigHandler : Nat → Disposition
  stopReport : Bool
  contReport : Bool
  stopSig : Nat
  waitPid : Int
  waitResult : Int
  waitReady : Bool
  recvChan : Int
  waitPipe : Nat
  pollWait : Bool
  wakeSnap : Nat

namespace Task

def armed (t : Task) : Wait → Bool
  | .pipe pp => t.waitPipe == pp
  | .poll => t.pollWait
  | .chan c => t.recvChan == c
  | .child pid => decide (0 ≤ t.waitPid) && t.waitPid == pid
  | .anyChild => t.waitPid == -2

def arm (t : Task) : Wait → Task
  | .pipe pp => { t with waitPipe := pp }
  | .poll => { t with pollWait := true }
  | .chan c => { t with recvChan := c }
  | .child pid => { t with waitPid := pid }
  | .anyChild => { t with waitPid := -2 }

/-- What a waker does to the fields of a task it has found; `code` goes to a waiter for
one child. -/
def disarm (t : Task) (code : Int) : Wait → Task
  | .pipe _ => { t with waitPipe := 0 }
  | .poll => { t with pollWait := false }
  | .chan _ => { t with recvChan := -1 }
  | .child _ => { t with waitResult := code, waitReady := true, waitPid := -1 }
  | .anyChild => { t with waitPid := -1 }

def tearDown (t : Task) : Task := { t with waitPid := -1, recvChan := -1, waitPipe := 0 }

def unmasked (t : Task) (sig : Nat) : Bool := sig == sigkill || sig == sigstop || !t.sigBlocked sig

/-- `sig_noop_mask`: signals whose delivery does nothing. -/
def noop (t : Task) (sig : Nat) : Bool :=
  !(sig == sigkill || sig == sigstop) && match t.sigHandler sig with
    | .ign => true
    | .dfl => sigDefaultIgnore sig
    | .caught => false

def interrupts (t : Task) (sig : Nat) : Bool := t.unmasked sig && !t.noop sig

def stops (t : Task) (sig : Nat) : Bool := sig == sigstop || (sigDefaultStop sig && t.sigHandler sig == .dfl)

/-- The signal `signal_dispatch` takes: the lowest pending one that is not masked. -/
def lowest (t : Task) : Option Nat := (List.range' 1 (nsig - 1)).find? fun sig => t.sigPending sig && t.unmasked sig

def setPending (t : Task) (sig : Nat) (value : Bool) : Task := { t with sigPending := update t.sigPending sig value }

end Task

/-- Where the task is: `user` stands for ring 3 and for kernel code that neither blocks
nor delivers signals, `off` for being on no CPU. -/
inductive Pc where
  | user
  | snapped (f : Wait)
  | unmet (f : Wait)
  | armed (f : Wait)
  | locked (f : Wait)
  | tested (f : Wait)
  | slept
  | moved
  | rerun
  | read (sig : Nat)
  | taken (sig : Nat)
  | stopping (sig : Nat)
  | off

/-- `sched_wake_pipe`, `sched_wake_chan`, `sched_wake_waitpid` and `sched_wake_parent_waitany`. -/
inductive Waker where
  | pipe (pp : Nat)
  | chan (c : Nat)
  | waitpid (pid : Nat) (code : Int)
  | parentWaitany (ppid : Nat)

/-- The waits a waker looks for in a task, in the order of its callback. -/
def Waker.waits (w : Waker) (pid : Nat) : List Wait :=
  match w with
  | .pipe pp => [.pipe pp, .poll]
  | .chan c => [.chan c]
  | .waitpid child _ => [.child child]
  | .parentWaitany ppid => if pid = ppid then [.anyChild] else []

/-- A parent of pid 0 is nobody: the call returns at once. -/
def Waker.void : Waker → Bool
  | .parentWaitany ppid => ppid == 0
  | _ => false

def Waker.code : Waker → Int
  | .waitpid _ code => code
  | _ => 0

inductive WakeAt where
  | published
  | bumped
  | scan (rest : List Wait)
  | found (f : Wait) (rest : List Wait)
  | cleared (rest : List Wait)

inductive PostAt where
  | start
  | resume
  | wakeStopped
  | bumpStopped
  | mark
  | note
  | judge
  | tear
  | wakeBlocked
  | bumpBlocked
deriving DecidableEq

inductive Call where
  | out
  | wake (w : Waker) (at_ : WakeAt)
  | post (sig : Nat) (at_ : PostAt)

inductive Holder where
  | task
  | call (n : Nat)
deriving DecidableEq

/-- `fresh`, `posted` and `contLast` are history: since the task's last snapshot what it
waits for was published, since then which signals became pending, and whether a SIGCONT
was posted after the last stop signal. `seq` is `g_wake_seq`, of 64 bits: a wake-up a nanosecond
takes more than five hundred years to bring it round. -/
structure State where
  task : Task
  seq : Nat
  lock : Option Holder
  satisfied : Wait → Bool
  pc : Pc
  call : Nat → Call
  waiting : Option Wait
  fresh : Bool
  posted : Nat → Bool
  contLast : Bool

def State.setCall (s : State) (n : Nat) (c : Call) : State := { s with call := update s.call n c }

/-- Entry of a blocking syscall: `wake_snap` is taken. -/
def enter (s : State) (f : Wait) : State :=
  { s with
    task := { s.task with wakeSnap := s.seq }
    pc := .snapped f
    waiting := some f
    fresh := false
    posted := fun _ => false }

/-- One access of the task's own kernel code. -/
def taskStep (s : State) : Pc → Option State
  | .user | .off => none
  | .snapped f => some { s with pc := if s.satisfied f then .user else .unmet f }
  | .unmet f => some { s with task := s.task.arm f, pc := .armed f }
  -- sched_block_current
  | .armed f => if s.lock = none then some { s with lock := some .task, pc := .locked f } else none
  | .locked f => some { s with pc := if s.seq = s.task.wakeSnap then .tested f else .moved }
  | .tested _ => some { s with task := { s.task with state := .blocked }, pc := .slept }
  | .slept => some { s with lock := none, pc := .off }
  | .moved => some { s with lock := none, pc := .rerun }
  | .rerun => some { s with task := { s.task with wakeSnap := s.seq }, pc := .user }
  -- signal_dispatch
  | .read sig => some { s with task := s.task.setPending sig false, pc := .taken sig }
  | .taken sig =>
    if sig = sigkill then some { s with task := { s.task with state := .zombie }, pc := .off }
    else if s.task.stops sig then some { s with task := { s.task with stopSig := sig }, pc := .stopping sig }
    else match s.task.sigHandler sig with
      | .ign => some { s with pc := .user }
      | .dfl =>
        if sigDefaultIgnore sig then some { s with pc := .user }
        else some { s with task := { s.task with state := .zombie }, pc := .off }
      | .caught =>
        some { s with task := { s.task with sigBlocked := update s.task.sigBlocked sig true }, pc := .user }
  -- sched_stop_current
  | .stopping _ => some { s with task := { s.task with stopReport := true, contReport := false, state := .stopped }, pc := .off }

/-- A table-scanning waker, with the condition already true. -/
def wakeStep (s : State) (n : Nat) (w : Waker) : WakeAt → Option State
  | .published => some ({ s with seq := s.seq + 1 }.setCall n (.wake w .bumped))
  | .bumped =>
    if s.lock = none then some ({ s with lock := some (.call n) }.setCall n (.wake w (.scan (w.waits s.task.pid)))) else none
  | .scan [] => some ({ s with lock := none }.setCall n .out)
  | .scan (f :: rest) =>
    some (s.setCall n (.wake w (if s.task.state = .blocked ∧ s.task.armed f then .found f rest else .scan rest)))
  | .found f rest => some ({ s with task := s.task.disarm w.code f }.setCall n (.wake w (.cleared rest)))
  | .cleared rest =>
    -- wake_locked
    if s.task.state = .blocked then some ({ s with task := { s.task with state := .ready } }.setCall n (.wake w (.scan rest)))
    else some (s.setCall n (.wake w (.scan rest)))

/-- `signal_post`; `sched_wake_task` is the pair of a compare-and-swap and a bump. -/
def postStep (s : State) (n sig : Nat) : PostAt → State
  | .start =>
    if sig = sigcont then
      let cleared := fun other => s.task.sigPending other && !sigDefaultStop other
      { s with task := { s.task with sigPending := cleared } }.setCall n (.post sig .resume)
    else if sig = sigkill then s.setCall n (.post sig .resume)
    else if sigDefaultStop sig then { s with task := s.task.setPending sigcont false }.setCall n (.post sig .mark)
    else s.setCall n (.post sig .mark)
  | .resume => s.setCall n (.post sig (if s.task.state = .stopped then .wakeStopped else .mark))
  | .wakeStopped =>
    if s.task.state = .stopped then { s with task := { s.task with state := .ready } }.setCall n (.post sig .bumpStopped)
    else s.setCall n (.post sig .mark)
  | .bumpStopped =>
    let reported := { s.task with stopReport := false, contReport := s.task.contReport || sig == sigcont }
    { s with seq := s.seq + 1, task := reported }.setCall n (.post sig .mark)
  | .mark =>
    { s with
      task := s.task.setPending sig true
      posted := update s.posted sig true
      contLast := s.contLast && !sigDefaultStop sig }.setCall n (.post sig .note)
  | .note => { s with seq := s.seq + 1 }.setCall n (.post sig .judge)
  | .judge =>
    if s.task.interrupts sig ∧ s.task.state = .blocked then s.setCall n (.post sig .tear) else s.setCall n .out
  | .tear => { s with task := s.task.tearDown }.setCall n (.post sig .wakeBlocked)
  | .wakeBlocked =>
    if s.task.state = .blocked then { s with task := { s.task with state := .ready } }.setCall n (.post sig .bumpBlocked)
    else s.setCall n .out
  | .bumpBlocked => { s with seq := s.seq + 1 }.setCall n .out

inductive Action where
  | enter (f : Wait)
  | task
  | dispatch
  | sigmask (blocked : Nat → Bool)
  | sigaction (sig : Nat) (disposition : Disposition)
  | preempt
  | resume
  | wake (n : Nat) (w : Waker)
  | post (n sig : Nat)
  | call (n : Nat)
  | consume (f : Wait)
  | note

def Pc.isUser : Pc → Bool
  | .user => true
  | _ => false

def Pc.isOff : Pc → Bool
  | .off => true
  | _ => false

def Call.isOut : Call → Bool
  | .out => true
  | _ => false

def step (s : State) : Action → Option State
  | .enter f => if s.pc.isUser then some (enter s f) else none
  | .task => taskStep s s.pc
  | .dispatch =>
    if s.pc.isUser then
      match s.task.lowest with
      | some sig => some { s with pc := .read sig }
      | none => some s
    else none
  | .sigmask blocked =>
    if s.pc.isUser then some { s with task := { s.task with sigBlocked := fun sig => blocked sig && sig != sigkill && sig != sigstop } }
    else none
  | .sigaction sig disposition =>
    if s.pc.isUser && sig != sigkill && sig != sigstop then
      some { s with task := { s.task with sigHandler := update s.task.sigHandler sig disposition } }
    else none
  | .preempt => if s.pc.isUser then some { s with task := { s.task with state := .ready }, pc := .off } else none
  | .resume =>
    if s.pc.isOff ∧ s.task.state = .ready then some { s with task := { s.task with state := .running }, pc := .user } else none
  | .wake n w =>
    -- The waker makes the condition true and then calls.
    if (s.call n).isOut && !w.void then
      let mine := s.waiting.any fun f => (w.waits s.task.pid).contains f
      let published := fun f => s.satisfied f || (w.waits s.task.pid).contains f
      some ({ s with satisfied := published, fresh := s.fresh || mine }.setCall n (.wake w .published))
    else none
  | .post n sig =>
    if (s.call n).isOut ∧ 0 < sig ∧ sig < nsig ∧ s.task.state ≠ .zombie then
      some ({ s with contLast := s.contLast || sig == sigcont }.setCall n (.post sig .start))
    else none
  | .call n =>
    match s.call n with
    | .out => none
    | .wake w stage => wakeStep s n w stage
    | .post sig stage => some (postStep s n sig stage)
  | .consume f => some { s with satisfied := update s.satisfied f false }
  | .note => some { s with seq := s.seq + 1 }

def started (pid : Nat) : State where
  task :=
    { pid := pid, state := .running, sigPending := fun _ => false, sigBlocked := fun _ => false, sigHandler := fun _ => .dfl,
      stopReport := false, contReport := false, stopSig := 0, waitPid := -1, waitResult := 0, waitReady := false,
      recvChan := -1, waitPipe := 0, pollWait := false, wakeSnap := 0 }
  seq := 1
  lock := none
  satisfied := fun _ => false
  pc := .user
  call := fun _ => .out
  waiting := none
  fresh := false
  posted := fun _ => false
  contLast := false

end SecOS.Wake
