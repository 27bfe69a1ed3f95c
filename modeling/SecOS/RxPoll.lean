import Mathlib

/-! The receive path of a network device (`net_dev_poll` of net/net_core.c), one memory
access at a time. A context is a CPU at one interrupt level: the handler of the device
and the timer tick call `net_dev_poll` from any of them at any time. The lock is taken by
an atomic exchange, which is also a barrier, so the accesses of all contexts interleave.
The device exists and has a `poll`. -/

namespace SecOS.RxPoll

/-- Where a context stands in `net_dev_poll`. -/
inductive Pc where
  | out
  /-- Before `rx_kick = 1`. -/
  | entry
  /-- Before `netlk_try`. -/
  | trying
  /-- Before the test of the inner loop. -/
  | testing
  /-- Before `rx_kick = 0`. -/
  | clearing
  /-- Before the call of `dev->poll`. -/
  | cleared
  /-- In `dev->poll`. -/
  | polling
  /-- Before `netlk_release`. -/
  | leaving
  /-- Before the test behind the release. -/
  | rechecking
deriving DecidableEq

/-- What has happened, in order: a call of `net_dev_poll` and one of `dev->poll`. -/
inductive Mark where
  | called (n : Nat)
  | polled (n : Nat)
deriving DecidableEq

structure State where
  rxKick : Bool
  locked : Bool
  pc : Nat → Pc
  log : List Mark

def State.goto (s : State) (n : Nat) (pc : Pc) : State := { s with pc := Function.update s.pc n pc }

def State.note (s : State) (mark : Mark) : State := { s with log := s.log ++ [mark] }

/-- The next access of context `n`; a context that is out starts a call. -/
def step (s : State) (n : Nat) : State :=
  match s.pc n with
  | .out => (s.note (.called n)).goto n .entry
  | .entry => { s with rxKick := true }.goto n .trying
  | .trying => if s.locked then s.goto n .out else { s with locked := true }.goto n .testing
  | .testing => if s.rxKick then s.goto n .clearing else s.goto n .leaving
  | .clearing => { s with rxKick := false }.goto n .cleared
  | .cleared => (s.note (.polled n)).goto n .polling
  | .polling => s.goto n .testing
  | .leaving => { s with locked := false }.goto n .rechecking
  | .rechecking => if s.rxKick then s.goto n .trying else s.goto n .out

def registered : State := ⟨false, false, fun _ => .out, []⟩

def run (s : State) (schedule : List Nat) : State := schedule.foldl step s

end SecOS.RxPoll
