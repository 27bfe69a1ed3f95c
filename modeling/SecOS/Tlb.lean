import Mathlib

/-! TLB shootdown (arch/x86/tlb.c) and the address-space switch (mm/vmm.c), one memory access
at a time on any number of CPUs. A space is named by its PML4, and 0 is the kernel half. A page
table entry is reduced to the number of stores made to it: a translation is stale when it was
read before a store. A TLB is filled at any time from the loaded space or the kernel half. -/

namespace SecOS.Tlb
open Function

def flushAllThreshold : Nat := 32

structure Request where
  kernel : Bool
  pml4 : Nat
  page : Nat
  npages : Nat
deriving DecidableEq

/-- The pages a request names; with no count, every page. -/
def Request.Covers (r : Request) (page : Nat) : Prop := r.npages = 0 ∨ (r.page ≤ page ∧ page < r.page + r.npages ∧ page < 2 ^ 52)

/-- A running `tlb_shootdown`, with the number of stores each page table entry of
its space had seen when it was called. -/
structure Call where
  request : Request
  since : Nat → Nat

/-- Where a context is in `tlb_poll`: outside, before the test of `tlb_pending`, past it,
flushing the `i`-th page of the request it read, or about to clear `tlb_pending`. -/
inductive Poll where
  | out
  | entered
  | tested
  | flushing (r : Request) (i : Nat)
  | flushed

/-- Where a CPU is in `tlb_shootdown` or in `vmm_switch_space`. -/
inductive Pc where
  | out
  | localFlush (call : Call) (i : Nat)
  | locking (call : Call)
  | publish (call : Call)
  | marking (call : Call) (i targets : Nat)
  | raise (call : Call)
  | waiting (call : Call) (i : Nat)
  | lower (call : Call)
  | unlocking (call : Call)
  | returned (call : Call)
  | loadCr3 (space old : Nat)
  | record (space old : Nat)
  | dropBit (space old : Nat)

/-- On a CPU context 0 is the running thread; the others are interrupt handlers, nested to any
depth, and threads that were switched away, whose polls stand where they were left. -/
structure State where
  table : Nat → Nat → Nat
  tlb : Nat → Nat → Nat → Option Nat
  cr3 : Nat → Nat
  activeSpace : Nat → Nat
  activeCpus : Nat → Nat → Bool
  req : Request
  pending : Nat → Bool
  inflight : Bool
  lock : Option Nat
  pc : Nat → Pc
  polls : Nat → Nat → Poll

structure Machine where
  cpuCount : Nat
  contexts : Nat
  online : Nat → Bool

def Machine.runs (k : Machine) (c : Nat) : Bool := decide (c < k.cpuCount) && k.online c

namespace State

def setPc (s : State) (c : Nat) (pc : Pc) : State := { s with pc := update s.pc c pc }
def setPoll (s : State) (c n : Nat) (p : Poll) : State := { s with polls := update s.polls c (update (s.polls c) n p) }
def setPending (s : State) (c : Nat) (value : Bool) : State := { s with pending := update s.pending c value }

def store (s : State) (space page : Nat) : State :=
  { s with table := update s.table space (update (s.table space) page (s.table space page + 1)) }

def fill (s : State) (c space page : Nat) : State :=
  let entry := update (s.tlb c space) page (some (s.table space page))
  { s with tlb := update s.tlb c (update (s.tlb c) space entry) }

def setActive (s : State) (space c : Nat) (value : Bool) : State :=
  { s with activeCpus := update s.activeCpus space (update (s.activeCpus space) c value) }

def writeCr3 (s : State) (c space : Nat) : State :=
  { s with cr3 := update s.cr3 c space, tlb := update s.tlb c fun _ _ => none }

def invlpg (s : State) (c page : Nat) : State :=
  { s with tlb := update s.tlb c fun space => update (s.tlb c space) page none }

end State

/-- `tlb_flush_local` from the `i`-th page on: one more page, or the end. A user request
matters only where its space is loaded. -/
def flushLocal (s : State) (c : Nat) (r : Request) (i : Nat) : State × Bool :=
  if !r.kernel && s.cr3 c != r.pml4 then (s, true)
  else if r.npages = 0 ∨ r.npages > flushAllThreshold then (s.writeCr3 c (s.cr3 c), true)
  else if i < r.npages then (s.invlpg c ((r.page + i) % 2 ^ 52), false)
  else (s, true)

/-- One access of `tlb_poll` on CPU `c`, or its entry. The request is read while the flag is up, and
its initiator writes it only before it raises the flag. -/
def pollStep (s : State) (c : Nat) : Poll → State × Poll
  | .out => (s, .entered)
  | .entered => (s, if s.pending c then .tested else .out)
  | .tested => (s, .flushing s.req 0)
  | .flushing r i =>
    match flushLocal s c r i with
    | (s, true) => (s, .flushed)
    | (s, false) => (s, .flushing r (i + 1))
  | .flushed => (s.setPending c false, .out)

/-- Interrupts are off from `spin_lock_irqsave` to `spin_unlock_irqrestore`. -/
def Pc.masked : Pc → Bool
  | .locking _ | .publish _ | .marking .. | .raise _ | .waiting .. | .lower _ | .unlocking _ => true
  | _ => false

/-- The spin loops that poll: any lock of the kernel, and `tlb_lock` itself. -/
def Pc.spins : Pc → Bool
  | .out | .locking _ => true
  | _ => false

def codeStep (k : Machine) (s : State) (c : Nat) : Pc → Option State
  | .out => none
  | .localFlush call i =>
    match flushLocal s c call.request i with
    | (s, false) => some (s.setPc c (.localFlush call (i + 1)))
    | (s, true) => some (s.setPc c (if k.cpuCount ≤ 1 then .returned call else .locking call))
  | .locking call => if s.lock = none then some ({ s with lock := some c }.setPc c (.publish call)) else none
  | .publish call => some ({ s with req := call.request }.setPc c (.marking call 0 0))
  | .marking call i targets =>
    if i < k.cpuCount then
      if i = c ∨ k.online i = false ∨ (call.request.kernel = false ∧ s.activeCpus call.request.pml4 i = false) then
        some (s.setPc c (.marking call (i + 1) targets))
      else some ((s.setPending i true).setPc c (.marking call (i + 1) (targets + 1)))
    else some (s.setPc c (if targets = 0 then .unlocking call else .raise call))
  | .raise call => some ({ s with inflight := true }.setPc c (.waiting call 0))
  | .waiting call i =>
    -- One scan over the flags; a flag still up starts it again.
    if i < k.cpuCount then some (s.setPc c (.waiting call (if i ≠ c ∧ s.pending i = true then 0 else i + 1)))
    else some (s.setPc c (.lower call))
  | .lower call => some ({ s with inflight := false }.setPc c (.unlocking call))
  | .unlocking call => some ({ s with lock := none }.setPc c (.returned call))
  | .returned _ => some (s.setPc c .out)
  | .loadCr3 space old => some ((s.writeCr3 c space).setPc c (.record space old))
  | .record space old => some ({ s with activeSpace := update s.activeSpace c space }.setPc c (.dropBit space old))
  | .dropBit space old =>
    if old ≠ space ∧ old ≠ 0 then some ((s.setActive old c false).setPc c .out) else some (s.setPc c .out)

/-- The entry of `tlb_shootdown`; a null space is the kernel's. -/
def shootdown (s : State) (c space va npages : Nat) : State :=
  s.setPc c (.localFlush ⟨⟨space == 0, space, va / 4096, npages⟩, s.table space⟩ 0)

/-- The entry of `vmm_switch_space`: the new space gains this CPU. -/
def switchSpace (s : State) (c space : Nat) : State :=
  let marked := if space ≠ 0 then s.setActive space c true else s
  marked.setPc c (.loadCr3 space (s.activeSpace c))

inductive Action where
  | store (space page : Nat)
  | fill (c space page : Nat)
  | shootdown (c space va npages : Nat)
  | switchSpace (c space : Nat)
  | code (c : Nat)
  | poll (c n : Nat)
  | preempt (c n : Nat)

def Poll.isOut : Poll → Bool
  | .out => true
  | _ => false

def Pc.isOut : Pc → Bool
  | .out => true
  | _ => false

/-- Another thread takes the place of the running one, which may be in the middle of a poll. -/
def preempt (s : State) (c n : Nat) : State :=
  { s with polls := update s.polls c fun m => s.polls c (if m = 0 then n else if m = n then 0 else m) }

/-- The running thread polls where it spins, once it has seen `g_tlb_inflight`. Any other context
may poll wherever interrupts are on: the shootdown handler, any handler that waits for a lock,
and a thread that is resumed, also while another poll of the CPU is under way. -/
def step (k : Machine) (s : State) : Action → Option State
  | .store space page => some (s.store space page)
  | .fill c space page => if k.runs c ∧ (space = 0 ∨ space = s.cr3 c) then some (s.fill c space page) else none
  | .shootdown c space va npages =>
    if k.runs c && (s.pc c).isOut && (s.polls c 0).isOut then some (shootdown s c space va npages) else none
  | .switchSpace c space =>
    if k.runs c && (s.pc c).isOut && (s.polls c 0).isOut then some (switchSpace s c space) else none
  | .code c => if k.runs c && (s.polls c 0).isOut then codeStep k s c (s.pc c) else none
  | .poll c n =>
    if k.runs c && decide (n < k.contexts) &&
        (if n = 0 then !(s.polls c 0).isOut || (s.inflight && (s.pc c).spins) else !(s.pc c).masked) then
      let (s, p) := pollStep s c (s.polls c n)
      some (s.setPoll c n p)
    else none
  | .preempt c n => if k.runs c && decide (n < k.contexts) && (s.pc c).isOut then some (preempt s c n) else none

def booted : State where
  table := fun _ _ => 0
  tlb := fun _ _ _ => none
  cr3 := fun _ => 0
  activeSpace := fun _ => 0
  activeCpus := fun _ _ => false
  req := ⟨false, 0, 0, 0⟩
  pending := fun _ => false
  inflight := false
  lock := none
  pc := fun _ => .out
  polls := fun _ _ => .out

end SecOS.Tlb
