import SecOS.Wake

/-! The process table and the CPUs that run it, one memory access at a time (kernel/process.c,
kernel/sched.c). A process is known by the number of its creation, `none` is a CPU's idle task.
Accesses that are not under `proc_lock` are steps of their own; the tables that are only written
under it change in one step. -/

namespace SecOS.Sched
open Function
open Wake (ProcState)

def maxProcesses : Nat := 32

structure Proc where
  pid : Nat
  ppid : Nat
  state : ProcState
  onCpu : Bool
  kstackTop : Bool
  kstackSlot : Nat
  collected : Bool
  cpuPin : Option Nat
  cpuAffinity : Nat
  readyTick : Nat

/-- Who asks for a task: a user task at the end of its quantum or in yield, an idle CPU,
or a task that has stopped running. -/
inductive Caller where
  | preempt
  | idle
  | gone

/-- The loop of `process_claim_next`, under the lock. -/
structure Search where
  start : Nat
  now : Nat
  k : Nat
  any : Option Nat

inductive ClaimAt where
  | peek (i : Nat)
  | peekCpu (i p : Nat)
  | acquire
  | scan (at_ : Search)
  | scanCpu (at_ : Search) (p : Nat)
  | mark (r : Nat)
  | take (r : Nat)
  | unlock (r : Option Nat)

/-- Its callers, `switch_to`, and `arch_switch_finish`, which moves to the CPU's own
stack before it drops the previous task. -/
inductive SwitchAt where
  | chosen (caller : Caller) (r : Option Nat)
  | requeue (next : Nat)
  | load (next : Option Nat)
  | enter (prev : Option Nat)
  | leave (prev : Option Nat)
  | drop (prev : Nat)

/-- `sched_reap_zombies`: `process_reap_one`, `process_destroy` and `proc_remove`. -/
inductive ReapAt where
  | acquire
  | scan (i : Nat)
  | scanCpu (i p : Nat)
  | reapable (i p : Nat)
  | orphan (i p j : Nat)
  | unlock (z : Option Nat)
  | free (z : Nat)
  | remove (z : Nat)

/-- `process_fork` and `process_create` from `proc_add` on; `undo` is where they have failed. -/
inductive CreateAt where
  | build (p : Nat)
  | promote (p : Nat)
  | publish (p : Nat)
  | undo (p : Nat)

/-- `process_destroy` of a process that the shell's `elfunload` has found in the table. -/
inductive UnloadAt where
  | free (p : Nat)
  | remove (p : Nat)

/-- `run` stands for ring 3, the idle loop and kernel code that touches none of this. -/
inductive Pc where
  | run
  | claim (caller : Caller) (at_ : ClaimAt)
  | switch (at_ : SwitchAt)
  | reap (at_ : ReapAt)
  | create (at_ : CreateAt)
  | unload (at_ : UnloadAt)
  | ttyWake (p : Nat)

structure Cpu where
  current : Option Nat
  pc : Pc

/-- `returned` is history: what `process_reap_one` has returned so far. -/
structure State where
  proc : Nat → Proc
  made : Nat
  table : Nat → Option Nat
  kstackSlotBusy : Nat → Bool
  lock : Option Nat
  cpu : Nat → Cpu
  ncpu : Nat
  online : Nat → Bool
  ticks : Nat
  returned : List Nat

namespace State

def setPc (s : State) (c : Nat) (pc : Pc) : State := { s with cpu := update s.cpu c { s.cpu c with pc := pc } }

def setProc (s : State) (p : Nat) (r : Proc) : State := { s with proc := update s.proc p r }

def setState (s : State) (p : Nat) (state : ProcState) : State := s.setProc p { s.proc p with state := state }

/-- `__sync_bool_compare_and_swap` on the state of a process. -/
def casState (s : State) (p : Nat) (before after : ProcState) : State :=
  if (s.proc p).state = before then s.setState p after else s

def after (s : State) (c : Nat) : Caller → Option Nat
  | .idle => none
  | .preempt | .gone => (s.cpu c).current

/-- Another CPU's task is left to it while that CPU is idle and was kicked just now. -/
def leftHome (s : State) (now p : Nat) : Bool :=
  let r := s.proc p
  decide (r.cpuAffinity < s.ncpu) && s.online r.cpuAffinity && (s.cpu r.cpuAffinity).current.isNone && r.readyTick != 0 &&
    decide (r.readyTick ≤ now) && decide (now - r.readyTick < 2)

def detach (s : State) (c i p : Nat) : State :=
  { s with table := update s.table i none, returned := p :: s.returned }.setPc c (.reap (.unlock (some p)))

def procRemove (s : State) (p : Nat) : State :=
  let found := (List.range maxProcesses).find? fun i => s.table i == some p
  let table := match found with
    | some i => update s.table i none
    | none => s.table
  let slot := (s.proc p).kstackSlot
  let freed := (found.isSome || (s.proc p).state == .zombie) && decide (slot < maxProcesses) && (table slot).isNone
  { s with table := table, kstackSlotBusy := if freed then update s.kstackSlotBusy slot false else s.kstackSlotBusy }

def procAdd (s : State) (c : Nat) (r : Proc) : State :=
  match (List.range maxProcesses).find? fun i => (s.table i).isNone && !s.kstackSlotBusy i with
  | some i =>
    { s with
      proc := update s.proc s.made { r with kstackSlot := i }
      made := s.made + 1
      table := update s.table i (some s.made)
      kstackSlotBusy := update s.kstackSlotBusy i true }.setPc c (.create (.build s.made))
  | none => s

end State

def claimStep (s : State) (c : Nat) (caller : Caller) : ClaimAt → Option State
  | .peek i =>
    if i < maxProcesses then
      match s.table i with
      | some p =>
        let fits := s.after c caller ≠ some p ∧ (s.proc p).state = .ready
        some (s.setPc c (.claim caller (if fits then .peekCpu i p else .peek (i + 1))))
      | none => some (s.setPc c (.claim caller (.peek (i + 1))))
    else some (s.setPc c (.switch (.chosen caller none)))
  | .peekCpu i p => some (s.setPc c (.claim caller (if (s.proc p).onCpu then .peek (i + 1) else .acquire)))
  | .acquire =>
    if s.lock = none then
      let start := match s.after c caller with
        | some cur => (((List.range maxProcesses).find? fun i => s.table i == some cur).map (· + 1)).getD 0
        | none => 0
      some ({ s with lock := some c }.setPc c (.claim caller (.scan ⟨start, s.ticks, 0, none⟩)))
    else none
  | .scan at_ =>
    let next := { at_ with k := at_.k + 1 }
    if at_.k < maxProcesses then
      match s.table ((at_.start + at_.k) % maxProcesses) with
      | some p =>
        let fits := s.after c caller ≠ some p ∧ (s.proc p).state = .ready
        some (s.setPc c (.claim caller (if fits then .scanCpu at_ p else .scan next)))
      | none => some (s.setPc c (.claim caller (.scan next)))
    else match at_.any with
      | some r => some (s.setPc c (.claim caller (.mark r)))
      | none => some (s.setPc c (.claim caller (.unlock none)))
  | .scanCpu at_ p =>
    let next := { at_ with k := at_.k + 1 }
    if (s.proc p).onCpu then some (s.setPc c (.claim caller (.scan next)))
    else if (s.proc p).cpuPin.any (· != c) then some (s.setPc c (.claim caller (.scan next)))
    else if (s.proc p).cpuAffinity = c then some (s.setPc c (.claim caller (.mark p)))
    else if at_.any.isSome ∨ s.leftHome at_.now p = true then some (s.setPc c (.claim caller (.scan next)))
    else some (s.setPc c (.claim caller (.scan { next with any := some p })))
  | .mark r => some ((s.setState r .running).setPc c (.claim caller (.take r)))
  | .take r => some ((s.setProc r { s.proc r with onCpu := true, cpuAffinity := c }).setPc c (.claim caller (.unlock (some r))))
  | .unlock r => some ({ s with lock := none }.setPc c (.switch (.chosen caller r)))

/-- What its callers do with the task, `switch_to` and `arch_switch_finish`. -/
def switchStep (s : State) (c : Nat) : SwitchAt → State
  | .chosen .preempt (some next) => s.setPc c (.switch (.requeue next))
  | .chosen .idle (some next) => s.setPc c (.switch (.load (some next)))
  | .chosen .preempt none | .chosen .idle none => s.setPc c .run
  | .chosen .gone next => s.setPc c (.switch (.load next))
  | .requeue next =>
    match (s.cpu c).current with
    | some cur =>
      let ready := { s.proc cur with state := .ready, readyTick := s.ticks }
      (if (s.proc cur).state = .running then s.setProc cur ready else s).setPc c (.switch (.load (some next)))
    | none => s.setPc c (.switch (.load (some next)))
  | .load next => { s with cpu := update s.cpu c ⟨next, .switch (.enter (s.cpu c).current)⟩ }
  | .enter prev =>
    match (s.cpu c).current with
    | some next => (s.setState next .running).setPc c (.switch (.leave prev))
    | none => s.setPc c (.switch (.leave prev))
  | .leave (some p) => s.setPc c (if (s.cpu c).current ≠ some p ∧ (s.proc p).pid ≠ 0 then .switch (.drop p) else .run)
  | .leave none => s.setPc c .run
  | .drop p => (s.setProc p { s.proc p with onCpu := false }).setPc c .run

def reapStep (s : State) (c : Nat) : ReapAt → Option State
  | .acquire => if s.lock = none then some ({ s with lock := some c }.setPc c (.reap (.scan 0))) else none
  | .scan i =>
    if i < maxProcesses then
      match s.table i with
      | some p => some (s.setPc c (.reap (if (s.proc p).state = .zombie then .scanCpu i p else .scan (i + 1))))
      | none => some (s.setPc c (.reap (.scan (i + 1))))
    else some (s.setPc c (.reap (.unlock none)))
  | .scanCpu i p => some (s.setPc c (.reap (if (s.proc p).onCpu then .scan (i + 1) else .reapable i p)))
  | .reapable i p =>
    if (s.proc p).collected ∨ (s.proc p).ppid = 0 then some (s.detach c i p) else some (s.setPc c (.reap (.orphan i p 0)))
  | .orphan i p j =>
    if j < maxProcesses then
      match s.table j with
      | some q =>
        let alive := (s.proc q).pid = (s.proc p).ppid ∧ (s.proc q).state ≠ .zombie
        some (s.setPc c (.reap (if alive then .scan (i + 1) else .orphan i p (j + 1))))
      | none => some (s.setPc c (.reap (.orphan i p (j + 1))))
    else some (s.detach c i p)
  | .unlock (some z) => some ({ s with lock := none }.setPc c (.reap (.free z)))
  | .unlock none => some ({ s with lock := none }.setPc c .run)
  | .free z => some ((s.setProc z { s.proc z with kstackTop := false }).setPc c (.reap (.remove z)))
  | .remove z => if s.lock = none then some ((s.procRemove z).setPc c (.reap .acquire)) else none

def createStep (s : State) (c : Nat) : CreateAt → Option State
  | .build p => some ((s.setProc p { s.proc p with kstackTop := true }).setPc c (.create (.promote p)))
  | .promote p => some ((s.setState p .new).setPc c (.create (.publish p)))
  | .publish p => some ((s.casState p .new .ready).setPc c .run)
  | .undo p => if s.lock = none then some ((s.procRemove p).setPc c .run) else none

/-- No memory for the kernel stack or, in `process_create`, for the trap frame after it. -/
def refuse (s : State) (c : Nat) : CreateAt → Option State
  | .build p | .promote p => some ((s.setProc p { s.proc p with kstackTop := false }).setPc c (.create (.undo p)))
  | .publish _ | .undo _ => none

def unloadStep (s : State) (c : Nat) : UnloadAt → Option State
  | .free p => some ((s.setProc p { s.proc p with kstackTop := false }).setPc c (.unload (.remove p)))
  | .remove p => if s.lock = none then some ((s.procRemove p).setPc c .run) else none

inductive Action where
  | cpu (c : Nat)
  | preempt (c : Nat)
  | block (c : Nat)
  | stop (c : Nat)
  | exit (c : Nat)
  | reap (c : Nat)
  | create (c pid ppid : Nat) (cpuPin : Option Nat) (cpuAffinity : Nat)
  | refuse (c : Nat)
  | unload (c i : Nat)
  | tty (c i : Nat)
  | wake (p : Nat)
  | continue_ (p : Nat)
  | collect (p : Nat)
  | reparent (p ppid : Nat)
  | tick

def Pc.isRun : Pc → Bool
  | .run => true
  | _ => false

def stopRunning (s : State) (c : Nat) (state : ProcState) : Option State :=
  match (s.cpu c).current with
  | some p => if (s.cpu c).pc.isRun then some ((s.setState p state).setPc c (.claim .gone (.peek 0))) else none
  | none => none

def step (s : State) : Action → Option State
  | .cpu c =>
    match (s.cpu c).pc with
    | .run => none
    | .claim caller at_ => claimStep s c caller at_
    | .switch at_ => some (switchStep s c at_)
    | .reap at_ => reapStep s c at_
    | .create at_ => createStep s c at_
    | .unload at_ => unloadStep s c at_
    | .ttyWake p => some ({ s.setState p .ready with lock := none }.setPc c .run)
  -- The timer tick and yield of a user task, and of an idle CPU with the reschedule IPI.
  | .preempt c =>
    if (s.cpu c).pc.isRun then some (s.setPc c (.claim (if (s.cpu c).current.isSome then .preempt else .idle) (.peek 0))) else none
  | .block c => if s.lock = none then stopRunning s c .blocked else none
  | .stop c => stopRunning s c .stopped
  | .exit c => stopRunning s c .zombie
  | .reap c => if (s.cpu c).pc.isRun then some (s.setPc c (.reap .acquire)) else none
  | .create c pid ppid cpuPin cpuAffinity =>
    if (s.cpu c).pc.isRun ∧ s.lock = none then
      some (s.procAdd c { pid, ppid, state := .blocked, onCpu := false, kstackTop := false, kstackSlot := 0, collected := false,
                          cpuPin, cpuAffinity, readyTick := 0 })
    else none
  | .refuse c =>
    match (s.cpu c).pc with
    | .create at_ => refuse s c at_
    | _ => none
  | .unload c i =>
    if (s.cpu c).pc.isRun ∧ s.lock = none then (s.table i).map fun p => s.setPc c (.unload (.free p)) else none
  | .tty c i =>
    if (s.cpu c).pc.isRun ∧ s.lock = none then
      match s.table i with
      | some p => some (if (s.proc p).state = .blocked then { s with lock := some c }.setPc c (.ttyWake p) else s)
      | none => some s
    else none
  -- sched_wake_task and wake_locked
  | .wake p => some (s.casState p .blocked .ready)
  | .continue_ p => some (s.casState p .stopped .ready)
  | .collect p => some (s.setProc p { s.proc p with collected := true })
  | .reparent p ppid => some (s.setProc p { s.proc p with ppid := ppid })
  | .tick => some { s with ticks := s.ticks + 1 }

def booted (ncpu : Nat) (online : Nat → Bool) : State where
  proc := fun _ => ⟨0, 0, .new, false, false, 0, false, none, 0, 0⟩
  made := 0
  table := fun _ => none
  kstackSlotBusy := fun _ => false
  lock := none
  cpu := fun _ => ⟨none, .run⟩
  ncpu := ncpu
  online := online
  ticks := 0
  returned := []

end SecOS.Sched
