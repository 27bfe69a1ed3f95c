import Mathlib

/-! The kernel lock (kernel/bkl.c), one access to its two variables at a time, and the places of
kernel/sched.c that give it up for a task. Any number of CPUs take steps in any order. -/

namespace SecOS.Bkl
open Function

/-- `bkl_self`: the task a CPU runs, or the CPU while it runs none. -/
inductive Owner where
  | cpu (c : Nat)
  | task (t : Nat)
deriving DecidableEq

/-- The next access of an owner. `bkl_resume` comes back from `bkl_acquire` with the depth it was given. -/
inductive Pc where
  | out
  /-- The first test of `bkl_acquire`. -/
  | enter (resume : Option Nat)
  /-- `g_bkl_depth++` -/
  | deepen (resume : Option Nat)
  | spin (resume : Option Nat)
  /-- `g_bkl_depth = 1` -/
  | won (resume : Option Nat)
  /-- The store of `bkl_resume`. -/
  | restore (depth : Nat)
  /-- `--g_bkl_depth` -/
  | lower
  /-- `g_bkl_depth = 0` in `bkl_release`, for `bkl_drop_for` or another. -/
  | clear (drop : Bool)
  /-- The store to `g_bkl_owner`. -/
  | free (drop : Bool)
  | dropped
deriving DecidableEq

structure State where
  owner : Option Owner
  depth : Nat
  current : Nat → Option Nat
  pc : Owner → Pc
  saved : Owner → Nat
  /-- The lock calls that have returned and are not matched by an unlock. -/
  calls : Owner → Nat
  /-- The unmatched calls when `bkl_suspend` was called. -/
  paused : Owner → Nat

def boot : State := ⟨none, 0, fun _ => none, fun _ => .out, fun _ => 0, fun _ => 0, fun _ => 0⟩

def State.self (s : State) (c : Nat) : Owner :=
  match s.current c with
  | some t => .task t
  | none => .cpu c

def State.goto (s : State) (a : Owner) (pc : Pc) : State := { s with pc := update s.pc a pc }

def State.count (s : State) (a : Owner) (n : Nat) : State := { s with calls := update s.calls a n }

/-- `bkl_acquire` returns, to `bkl_lock` or to `bkl_resume`. -/
def State.acquired (s : State) (a : Owner) : Option Nat → State
  | none => (s.count a (s.calls a + 1)).goto a .out
  | some d => s.goto a (.restore d)

def advance (s : State) (a : Owner) : Option State :=
  match s.pc a with
  | .out | .dropped => none
  | .enter resume => some (s.goto a (if s.owner = some a then .deepen resume else .spin resume))
  | .deepen resume => some ({ s with depth := (s.depth + 1) % 2 ^ 32 }.acquired a resume)
  | .spin resume => some (if s.owner = none then { s with owner := some a }.goto a (.won resume) else s)
  | .won resume => some ({ s with depth := 1 }.acquired a resume)
  | .restore d => some (({ s with depth := d }.count a (s.paused a)).goto a .out)
  | .lower =>
    let depth := (s.depth + 2 ^ 32 - 1) % 2 ^ 32
    some ({ s with depth := depth }.goto a (if depth = 0 then .clear false else .out))
  | .clear drop => some ({ s with depth := 0 }.goto a (.free drop))
  | .free drop => some ({ s with owner := none }.goto a (if drop then .dropped else .out))

inductive Action where
  | lock (c : Nat)
  | unlock (c : Nat)
  | suspend (c : Nat)
  | resume (c : Nat)
  /-- `bkl_drop_for` of the current task, in `switch_to` and `sched_block_current`. -/
  | dropFor (c : Nat)
  | next (c : Nat)
  /-- The CPU goes on with another task: one that gave up the lock is left, or one without it. -/
  | switch (c : Nat) (next : Option Nat)
deriving DecidableEq

/-- A lock call leaves room on the kernel stack for its own return address, so the nesting stays
below 2^32; `bkl_resume` follows `bkl_suspend`, with no lock call in between left open. -/
def step (s : State) : Action → Option State
  | .lock c =>
    if s.pc (s.self c) = .out ∧ s.calls (s.self c) + 1 < 2 ^ 32 then some (s.goto (s.self c) (.enter none)) else none
  | .unlock c =>
    if s.pc (s.self c) ≠ .out then none
    else if s.owner = some (s.self c) then some ((s.count (s.self c) (s.calls (s.self c) - 1)).goto (s.self c) .lower)
    else some s
  | .suspend c =>
    if s.pc (s.self c) ≠ .out then none
    else if s.owner = some (s.self c) then
      some ({ s.count (s.self c) 0 with
        saved := update s.saved (s.self c) s.depth
        paused := update s.paused (s.self c) (s.calls (s.self c)) }.goto (s.self c) (.clear false))
    else some { s with saved := update s.saved (s.self c) 0, paused := update s.paused (s.self c) 0 }
  | .resume c =>
    if s.pc (s.self c) = .out ∧ s.calls (s.self c) = 0 then
      some (if s.saved (s.self c) = 0 then s else s.goto (s.self c) (.enter (some (s.saved (s.self c)))))
    else none
  | .dropFor c =>
    if s.pc (s.self c) ≠ .out then none
    else if s.owner = some (s.self c) then some ((s.count (s.self c) 0).goto (s.self c) (.clear true))
    else some (s.goto (s.self c) .dropped)
  | .next c => advance s (s.self c)
  | .switch c next =>
    if s.pc (s.self c) = .dropped then some { s.goto (s.self c) .out with current := update s.current c next }
    else if s.owner ≠ some (s.self c) then some { s with current := update s.current c next }
    else none

end SecOS.Bkl
