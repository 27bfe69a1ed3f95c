import Mathlib

/-! The DHCP client (net/dhcp.c). One exchange at a time: the callback of UDP port 68 records
every reply with the right transaction in one place, and a poll moves the exchange on from
what is recorded there. Interfaces are numbered. -/

namespace SecOS.Dhcp
open Function

abbrev Packet := List UInt8

def opRequest : UInt8 := 1
def opReply : UInt8 := 2

def discover : UInt8 := 1
def offer : UInt8 := 2
def request : UInt8 := 3
def ack : UInt8 := 5
def nak : UInt8 := 6

def optSubnet : UInt8 := 1
def optRouter : UInt8 := 3
def optDns : UInt8 := 6
def optReqIp : UInt8 := 50
def optMsgType : UInt8 := 53
def optServerId : UInt8 := 54
def optParamList : UInt8 := 55
def optEnd : UInt8 := 255

def magic : List UInt8 := [0x63, 0x82, 0x53, 0x63]

def dhcpAttempts : Nat := 4
def dhcpStepMs : Nat := 1000

/-- Addresses have their first byte lowest. -/
def rd32be (p : List UInt8) (i : Nat) : UInt32 :=
  UInt32.ofNat ((p.getD i 0).toNat + 256 * ((p.getD (i + 1) 0).toNat + 256 * ((p.getD (i + 2) 0).toNat + 256 * (p.getD (i + 3) 0).toNat)))

def bytes (v : UInt32) : List UInt8 :=
  [UInt8.ofNat v.toNat, UInt8.ofNat (v.toNat / 256), UInt8.ofNat (v.toNat / 65536), UInt8.ofNat (v.toNat / 16777216)]

/-- Go through the options of a message; `f` takes the code and the value of each. -/
def options {α : Type*} (f : α → UInt8 → List UInt8 → α) : Nat → List UInt8 → α → α
  | 0, _, acc => acc
  | _ + 1, [], acc => acc
  | fuel + 1, code :: rest, acc =>
    if code = optEnd then acc
    else if code = 0 then options f fuel rest acc
    else match rest with
      | [] => acc
      | l :: rest => if rest.length < l.toNat then acc else options f fuel (rest.drop l.toNat) (f acc code (rest.take l.toNat))

structure Offered where
  yiaddr : UInt32
  mask : UInt32
  router : UInt32
  dns : UInt32
  serverId : UInt32
deriving DecidableEq

structure Reply extends Offered where
  msg : UInt8
deriving DecidableEq

def replyOption (r : Reply) (code : UInt8) (v : List UInt8) : Reply :=
  if code = optMsgType ∧ 1 ≤ v.length then { r with msg := v.getD 0 0 }
  else if code = optSubnet ∧ 4 ≤ v.length then { r with mask := rd32be v 0 }
  else if code = optRouter ∧ 4 ≤ v.length then { r with router := rd32be v 0 }
  else if code = optDns ∧ 4 ≤ v.length then { r with dns := rd32be v 0 }
  else if code = optServerId ∧ 4 ≤ v.length then { r with serverId := rd32be v 0 }
  else r

/-- The reply in a datagram for transaction `xid`, which is compared with its highest byte first. -/
def reply (xid : UInt32) (data : Packet) : Option Reply :=
  if data.length < 240 then none
  else if data.getD 0 0 ≠ opReply then none
  else if (data.drop 4).take 4 ≠ (bytes xid).reverse then none
  else if (data.drop 236).take 4 ≠ magic then none
  else some (options replyOption data.length (data.drop 240) ⟨⟨rd32be data 16, 0, 0, 0, 0⟩, 0⟩)

structure DhcpState where
  xid : UInt32
  offered : Offered
  gotOffer : Bool
  gotAck : Bool
  gotNak : Bool

def DhcpState.record (st : DhcpState) (r : Reply) : DhcpState :=
  { st with
    offered := r.toOffered
    gotOffer := st.gotOffer || r.msg == offer
    gotAck := st.gotAck || r.msg == ack
    gotNak := st.gotNak || r.msg == nak }

def dhcpCb (st : DhcpState) (data : Packet) : DhcpState :=
  match reply st.xid data with
  | none => st
  | some r => st.record r

def dhcpBuild (mac : List UInt8) (st : DhcpState) (msg : UInt8) : Packet :=
  [opRequest, 1, 6, 0] ++ (bytes st.xid).reverse ++ [0, 0, 0x80, 0] ++ List.replicate 16 0 ++ (List.range 6).map (mac.getD · 0) ++
    List.replicate 202 0 ++ magic ++ [optMsgType, 1, msg] ++
    (if msg = request then [optReqIp, 4] ++ bytes st.offered.yiaddr ++ [optServerId, 4] ++ bytes st.offered.serverId else []) ++
    [optParamList, 3, optSubnet, optRouter, optDns, optEnd]

inductive Phase where
  | idle
  | discover
  | request
  | bound
  | failed
deriving DecidableEq

structure Conf where
  ip : UInt32
  netmask : UInt32
  gateway : UInt32
  dns : UInt32
deriving DecidableEq

/-- `port` says that the callback is bound to port 68, `sent` is everything handed to
`udp_output`, and `lease` is `g_lease_dev`. -/
structure State where
  mac : Nat → List UInt8
  conf : Nat → Conf
  port : Bool
  dev : Option Nat
  st : DhcpState
  phase : Phase
  attempt : Nat
  deadline : Nat
  old : Conf
  lease : Option Nat
  sent : List Packet

def blank : DhcpState := ⟨0, ⟨0, 0, 0, 0, 0⟩, false, false, false⟩

def boot (mac : Nat → List UInt8) (conf : Nat → Conf) : State :=
  ⟨mac, conf, false, none, blank, .idle, 0, 0, ⟨0, 0, 0, 0⟩, none, []⟩

/-- `sending` is the clock when the message has gone out. -/
def dhcpSend (s : State) (msg : UInt8) (sending : Nat) : State :=
  match s.dev with
  | none => s
  | some dev => { s with sent := s.sent ++ [dhcpBuild (s.mac dev) s.st msg], deadline := sending + dhcpStepMs }

def dhcpDiscover (s : State) (sending : Nat) : State :=
  dhcpSend { s with st := { s.st with gotOffer := false, gotAck := false, gotNak := false }, phase := .discover } discover sending

def dhcpRestore (s : State) : State :=
  match s.dev with
  | none => s
  | some dev => { s with conf := update s.conf dev s.old }

def Offered.conf (o : Offered) : Conf :=
  ⟨o.yiaddr, if o.mask = 0 then 0x00FFFFFF else o.mask, o.router, if o.dns = 0 then o.serverId else o.dns⟩

def dhcpFinish (s : State) (ok : Bool) : State :=
  let s := { s with port := false }
  if !ok then { dhcpRestore s with phase := .failed }
  else match s.dev with
    | none => s
    | some dev => { s with conf := update s.conf dev s.st.offered.conf, lease := some dev, phase := .bound }

def State.busy (s : State) : Bool := s.phase = .discover ∨ s.phase = .request

/-- An exchange nobody polls any more is given up. -/
def takenOver (s : State) : State := if s.busy then dhcpRestore { s with port := false } else s

def xidOf (mac : List UInt8) (now : Nat) : UInt32 :=
  ((mac.getD 2 0).toUInt32 <<< 24) ^^^ ((mac.getD 3 0).toUInt32 <<< 16) ^^^ ((mac.getD 4 0).toUInt32 <<< 8) ^^^
    (mac.getD 5 0).toUInt32 ^^^ UInt32.ofNat now

/-- The new exchange of `dev`; `binds` is the answer of `udp_bind`. -/
def begin (s : State) (dev now sending : Nat) (binds : Bool) : State × Int :=
  let s := { s with
    dev := some dev
    old := s.conf dev
    st := { blank with xid := xidOf (s.mac dev) now }
    attempt := 0
    lease := if s.lease = some dev then none else s.lease
    conf := update s.conf dev ⟨0, 0, 0, 0⟩ }
  if !binds then ({ dhcpRestore s with phase := .failed }, -16)
  else (dhcpDiscover { s with port := true } sending, 0)

def refuses (s : State) (now : Nat) : Bool := s.busy ∧ now < s.deadline + 2 * dhcpStepMs

def dhcpStart (s : State) (dev : Option Nat) (now sending : Nat) (binds : Bool) : State × Int :=
  match dev with
  | none => (s, -19)
  | some dev => if refuses s now then (s, -16) else begin (takenOver s) dev now sending binds

def retry (s : State) (sending : Nat) : State :=
  let s := { s with attempt := s.attempt + 1 }
  if dhcpAttempts ≤ s.attempt then dhcpFinish s false else dhcpDiscover s sending

def polled (s : State) (now sending : Nat) : State :=
  match s.phase with
  | .discover =>
    if s.st.gotOffer then dhcpSend { s with st := { s.st with gotAck := false, gotNak := false }, phase := .request } request sending
    else if s.deadline ≤ now then retry s sending
    else s
  | .request =>
    if s.st.gotAck then dhcpFinish s true
    else if s.st.gotNak ∨ s.deadline ≤ now then retry s sending
    else s
  | _ => s

def dhcpPoll (s : State) (dev : Option Nat) (now sending : Nat) : State × Phase :=
  if dev.isSome ∧ dev ≠ s.dev then (s, .idle)
  else (polled s now sending, (polled s now sending).phase)

def dhcpHasLease (s : State) (dev : Option Nat) : Bool := dev.isSome ∧ s.lease = dev

inductive Action where
  | start (dev : Option Nat) (now sending : Nat) (binds : Bool)
  | poll (dev : Option Nat) (now sending : Nat)
  | datagram (data : Packet)

def step (s : State) : Action → State
  | .start dev now sending binds => (dhcpStart s dev now sending binds).1
  | .poll dev now sending => (dhcpPoll s dev now sending).1
  | .datagram data => if s.port then { s with st := dhcpCb s.st data } else s

end SecOS.Dhcp
