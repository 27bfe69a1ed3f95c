import SecOS.Library.Ring

/-! Input devices (drivers/input.c): one device and the clients that have it open. What the
device accepts goes to the ring of every client, or only to the one that has grabbed it; an
overflow drops what a ring holds and leaves a marker. In a ring the source's `tail`, the next
event to read, is `head` of the library, and its `head` is `tail`. -/

namespace SecOS.Input
open Library

def evdevRing : Nat := 256
abbrev maxClient : Nat := 16
def kcCnt : Nat := 0x300
def evSyn : Nat := 0
def evKey : Nat := 1
def evRel : Nat := 2
def evAbs : Nat := 3
def absY : Nat := 1
def synReport : Nat := 0
def synDropped : Nat := 3

structure InputEvent where
  ns : Nat
  type : Nat
  code : Nat
  value : Int
deriving DecidableEq

abbrev EventRing : Type := Ring evdevRing InputEvent

/-- An open of the device. What was read since the open is recorded besides. -/
structure Client where
  used : Bool
  refs : Int
  clockMono : Bool
  ring : EventRing
  reads : List InputEvent

/-- What has happened to a device, for the specification: the events it accepted, with the time
of both clocks, and who opened, closed, grabbed or released it or chose a clock. -/
inductive Record where
  | event (mo rt type code : Nat) (value : Int)
  | opened (i : Fin maxClient)
  | closed (i : Fin maxClient)
  | grabbed (i : Fin maxClient)
  | released
  | clock (i : Fin maxClient) (mono : Bool)

structure Dev where
  keystate : Nat → Bool
  absinfo : Nat → Int
  pending : Nat
  grab : Option (Fin maxClient)
  clients : Fin maxClient → Client
  log : List Record

def Dev.set (d : Dev) (i : Fin maxClient) (c : Client) : Dev := { d with clients := Function.update d.clients i c }

def Dev.note (d : Dev) (r : Record) : Dev := { d with log := d.log ++ [r] }

/-- One slot of the ring stays empty; when only that one is left, everything queued is dropped. -/
def clientPush (ring : EventRing) (ev : InputEvent) : EventRing :=
  if (ring.tail + 1) % evdevRing = ring.head then
    let ring := ring.discard.push { ev with type := evSyn, code := synDropped, value := 0 }
    if ev.type = evSyn ∧ ev.code = synReport then ring else ring.push ev
  else ring.push ev

/-- The loop of `input_read`: at most `max` events. -/
def takeEvents : Nat → EventRing → List InputEvent × EventRing
  | 0, ring => ([], ring)
  | max + 1, ring =>
    if ring.head = ring.tail then ([], ring)
    else
      let (out, rest) := takeEvents max ring.pop
      (ring.front :: out, rest)

def deliver (mo rt type code : Nat) (value : Int) (d : Dev) : Dev :=
  { d with clients := fun i =>
      let c := d.clients i
      if !c.used ∨ d.grab.isSome ∧ d.grab ≠ some i then c
      else { c with ring := clientPush c.ring ⟨if c.clockMono then mo else rt, type, code, value⟩ } }

/-- What the device makes of an event: nothing, or the value to deliver. -/
def accept (type code : Nat) (value : Int) (d : Dev) : Option (Dev × Int) :=
  if type = evKey then
    if code ≥ kcCnt then none
    else if value ≠ 0 then
      if d.keystate code then some (d, 2) else some ({ d with keystate := Function.update d.keystate code true }, value)
    else if d.keystate code then some ({ d with keystate := Function.update d.keystate code false }, value) else none
  else if type = evRel then
    if value = 0 then none else some (d, value)
  else if type = evAbs ∧ code ≤ absY then
    if d.absinfo code = value then none else some ({ d with absinfo := Function.update d.absinfo code value }, value)
  else some (d, value)

inductive Op where
  | event (mo rt type code : Nat) (value : Int)
  | sync (mo rt : Nat)
  | open
  | ref (i : Fin maxClient)
  | unref (i : Fin maxClient)
  | read (i : Fin maxClient) (max : Nat)
  | grab (i : Fin maxClient) (hold : Bool)
  | setClock (i : Fin maxClient) (mono : Bool)

def step (d : Dev) : Op → Dev
  | .event mo rt type code value =>
    match accept type code value d with
    | none => d
    | some (d, value) => deliver mo rt type code value ({ d with pending := d.pending + 1 }.note (.event mo rt type code value))
  | .sync mo rt =>
    if d.pending = 0 then d else deliver mo rt evSyn synReport 0 ({ d with pending := 0 }.note (.event mo rt evSyn synReport 0))
  | .open =>
    match (List.finRange maxClient).find? fun i => !(d.clients i).used with
    | none => d
    | some i => (d.set i ⟨true, 1, false, (d.clients i).ring.clear, []⟩).note (.opened i)
  | .ref i =>
    let c := d.clients i
    if c.used then d.set i { c with refs := c.refs + 1 } else d
  | .unref i =>
    let c := d.clients i
    if !c.used then d
    else if c.refs - 1 ≤ 0 then
      ({ d with grab := if d.grab = some i then none else d.grab }.set i { c with used := false, refs := 0 }).note (.closed i)
    else d.set i { c with refs := c.refs - 1 }
  | .read i max =>
    let c := d.clients i
    if c.used then
      let (out, ring) := takeEvents max c.ring
      d.set i { c with ring := ring, reads := c.reads ++ out }
    else d
  | .grab i hold =>
    if !(d.clients i).used then d
    else if hold then (if d.grab.isSome ∧ d.grab ≠ some i then d else { d with grab := some i }.note (.grabbed i))
    else if d.grab = some i then { d with grab := none }.note .released else d
  | .setClock i mono =>
    let c := d.clients i
    if c.used then (d.set i { c with clockMono := mono }).note (.clock i mono) else d

def emptyRing : EventRing := ⟨fun _ => ⟨0, 0, 0, 0⟩, 0, 0, Nat.succ_pos 255, Nat.succ_pos 255⟩

/-- A device that is registered, with nobody listening. -/
def registered (absinfo : Nat → Int) : Dev := ⟨fun _ => false, absinfo, 0, none, fun _ => ⟨false, 0, false, emptyRing, []⟩, []⟩

end SecOS.Input
