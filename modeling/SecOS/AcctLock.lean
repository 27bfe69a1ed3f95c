import Mathlib

/-! The lock of the account database (`acct_lock` and `acct_unlock` of user/acct.c), one
system call at a time. A process is named by its pid; it may crash anywhere, and the pid of
a dead process may be given to a new one. A file keeps its contents for those who have it
open after its name is gone, so files are numbered and `name` says which one ACCT_LOCK is. -/

namespace SecOS.AcctLock
open Function

/-- Where a process stands. `tries` counts the rounds of `acct_lock`. -/
inductive Pc where
  /-- Outside of both calls, without the lock. -/
  | out
  /-- Before `open(O_CREAT | O_EXCL)`. -/
  | creating (tries : Nat)
  /-- Before `dprintf` of the pid to the new file. -/
  | writing (file : Nat)
  /-- After a successful `acct_lock` that created `file`, before the `unlink` of `acct_unlock`. -/
  | locked (file : Nat)
  /-- Before `open(O_RDONLY)`. -/
  | opening (tries : Nat)
  /-- Before `read`. -/
  | reading (tries : Nat) (file : Nat)
  /-- Before `kill(pid, 0)`; nothing was read for `none`. -/
  | asking (tries : Nat) (pid : Option Nat)
  /-- Before the `unlink` of a lock that counts as stale. -/
  | breaking (tries : Nat)
  | dead
deriving DecidableEq

structure State where
  pc : Nat → Pc
  /-- The file that is ACCT_LOCK. -/
  name : Option Nat
  /-- The pid in a file, `none` while it is empty. -/
  text : Nat → Option Nat
  /-- How many files there have been. -/
  files : Nat

def State.goto (s : State) (p : Nat) (pc : Pc) : State := { s with pc := update s.pc p pc }

def maxTries : Nat := 50

def State.again (s : State) (p tries : Nat) : State :=
  if tries + 1 < maxTries then s.goto p (.creating (tries + 1)) else s.goto p .out

inductive Action where
  /-- The next system call of a process; outside of the calls it begins `acct_lock`. -/
  | step (p : Nat)
  /-- `open(O_CREAT | O_EXCL)` fails for another reason than the file. -/
  | refuse (p : Nat)
  /-- `dprintf` leaves out the last `missing` digits of the pid, or writes nothing; its result
  is not looked at. -/
  | short (p missing : Nat)
  | crash (p : Nat)
  /-- A new process gets a free pid. -/
  | spawn (p : Nat)
deriving DecidableEq

/-- `acct_unlock` by a process that has the lock, and the steps of `acct_lock`. -/
def advance (s : State) (p : Nat) : State :=
  match s.pc p with
  | .dead => s
  | .out => s.goto p (.creating 0)
  | .creating tries =>
    match s.name with
    | none =>
      { s with name := some s.files, text := update s.text s.files none, files := s.files + 1 }.goto p (.writing s.files)
    | some _ => s.goto p (.opening tries)
  | .writing file => { s with text := update s.text file (some p) }.goto p (.locked file)
  | .locked _ => { s with name := none }.goto p .out
  | .opening tries =>
    match s.name with
    | none => s.goto p (.asking tries none)
    | some file => s.goto p (.reading tries file)
  | .reading tries file => s.goto p (.asking tries (s.text file))
  | .asking tries (some pid) => if 0 < pid ∧ s.pc pid = .dead then s.goto p (.breaking tries) else s.again p tries
  | .asking tries none => if tries > 10 then s.goto p (.breaking tries) else s.again p tries
  | .breaking tries => { s with name := none }.again p tries

def step (s : State) : Action → State
  | .step p => advance s p
  | .refuse p =>
    match s.pc p with
    | .creating _ => s.goto p .out
    | _ => s
  | .short p missing =>
    match s.pc p with
    | .writing file =>
      let digits := p / 10 ^ missing
      { s with text := update s.text file (if digits = 0 then none else some digits) }.goto p (.locked file)
    | _ => s
  | .crash p => s.goto p .dead
  | .spawn p => if s.pc p = .dead then s.goto p .out else s

def run (s : State) (actions : List Action) : State := actions.foldl step s

def boot : State := ⟨fun _ => .dead, none, fun _ => none, 0⟩

end SecOS.AcctLock
