import Mathlib

/-! The rate limit of the driver calls (`rl_init` and `driver_rate_check` of
kernel/driver_if.c). A table of RL_CAPACITY entries counts the calls of each triple of pid,
device and opcode in the current window; an entry whose pid is -1 is free. Null pointers
have been refused by `handle_driver_call`, and the ticks do not run backwards. -/

namespace SecOS.DriverRate

structure Triple where
  pid : BitVec 32
  deviceId : BitVec 32
  opcode : BitVec 32
deriving DecidableEq

/-- `rl_entry_t`. -/
structure Entry where
  key : Triple
  windowStartTick : Nat
  count : Nat

/-- A call as `driver_rate_check` sees it, with the tick it is made at. -/
structure Call where
  key : Triple
  now : Nat

abbrev Table : Type := Nat → Entry

def rlCapacity : Nat := 64
def rlWindowTicks : Nat := 100
def rlMaxCalls : Nat := 50

def rlInit : Table := fun _ => ⟨⟨-1, -1, 0⟩, 0, 0⟩

inductive Result where
  | ok
  | errRate
deriving DecidableEq

def Entry.free (e : Entry) : Bool := e.key.pid == -1

def Table.find (t : Table) (p : Entry → Bool) : Option Nat := (List.range rlCapacity).find? fun i => p (t i)

/-- The window is begun again if it is over, and the call counted if there is room in it. -/
def Entry.charge (e : Entry) (now : Nat) : Entry × Result :=
  let e := if now - e.windowStartTick > rlWindowTicks then { e with windowStartTick := now, count := 0 } else e
  if e.count ≥ rlMaxCalls then (e, .errRate) else ({ e with count := e.count + 1 }, .ok)

/-- The entry of the triple, or else a free one made its own. -/
def Table.slot (t : Table) (req : Call) : Option (Nat × Entry) :=
  match t.find fun e => e.key == req.key with
  | some i => some (i, t i)
  | none => (t.find Entry.free).map fun i => (i, ⟨req.key, req.now, 0⟩)

def driverRateCheck (t : Table) (req : Call) : Table × Result :=
  match t.slot req with
  | none => (t, .ok)
  | some (i, e) => (Function.update t i (e.charge req.now).1, (e.charge req.now).2)

def after (t : Table) (calls : List Call) : Table := calls.foldl (fun t req => (driverRateCheck t req).1) t

/-- The calls of a run that are let through. -/
def granted : Table → List Call → List Call
  | _, [] => []
  | t, req :: rest =>
    if (driverRateCheck t req).2 = .ok then req :: granted (driverRateCheck t req).1 rest else granted (driverRateCheck t req).1 rest

end SecOS.DriverRate
