import SecOS.Confine

/-! The id system calls, numbers 100 to 109 (`cred_syscall` of kernel/cred.c). Arguments are
the 64-bit registers; ids have 32 bits. What the user's memory answers is an argument. -/

namespace SecOS.Ids
open Confine (Cred)

def unchanged : Nat := 0xffffffff

def ngroupsMax : Nat := 32

def ePerm : Int := -1
def eFault : Int := -14
def eInval : Int := -22
def eNosys : Int := -38

abbrev Word := BitVec 64

def id32 (w : Word) : Nat := w.toNat % 2 ^ 32

inductive IdNumber where
  | getuid
  | geteuid
  | getgid
  | getegid
  | setuid
  | setgid
  | setresuid
  | setresgid
  | getgroups
  | setgroups
deriving DecidableEq

def IdNumber.ofNat? : Nat → Option IdNumber
  | 100 => some .getuid
  | 101 => some .geteuid
  | 102 => some .getgid
  | 103 => some .getegid
  | 104 => some .setuid
  | 105 => some .setgid
  | 106 => some .setresuid
  | 107 => some .setresgid
  | 108 => some .getgroups
  | 109 => some .setgroups
  | _ => none

/-- The user's memory during a call: whether the answer can be stored, and the group list
read from it, none for a fault. -/
structure UserIds where
  stores : Bool
  groups : Nat → Option (List Nat)

structure Triple where
  real : Nat
  effective : Nat
  saved : Nat
deriving DecidableEq

def isOneOf (v : Nat) (ids : Triple) : Bool := v == ids.real || v == ids.effective || v == ids.saved

def setSlot (old new : Nat) : Nat := if new ≠ unchanged then new else old

def setRes (ids : Triple) (r e s : Nat) (priv : Bool) : Option Triple :=
  if !priv && (r != unchanged && !isOneOf r ids) then none
  else if !priv && (e != unchanged && !isOneOf e ids) then none
  else if !priv && (s != unchanged && !isOneOf s ids) then none
  else some ⟨setSlot ids.real r, setSlot ids.effective e, setSlot ids.saved s⟩

def uids (cr : Cred) : Triple := ⟨cr.ruid, cr.euid, cr.suid⟩
def gids (cr : Cred) : Triple := ⟨cr.rgid, cr.egid, cr.sgid⟩

def withUids (cr : Cred) (ids : Triple) : Cred := { cr with ruid := ids.real, euid := ids.effective, suid := ids.saved }
def withGids (cr : Cred) (ids : Triple) : Cred := { cr with rgid := ids.real, egid := ids.effective, sgid := ids.saved }

/-- `setuid` and `setgid`. -/
def setId (ids : Triple) (v : Nat) (priv : Bool) : Except Int Triple :=
  if v = unchanged then .error eInval
  else if priv then .ok ⟨v, v, v⟩
  else if v = ids.real ∨ v = ids.saved then .ok { ids with effective := v }
  else .error ePerm

def credSyscall (num : IdNumber) (a0 a1 a2 : Word) (user : UserIds) (cr : Cred) : Cred × Int :=
  let priv := cr.euid == 0
  match num with
  | .getuid => (cr, if a0 ≠ 0 ∧ !user.stores then eFault else cr.ruid)
  | .getgid => (cr, if a0 ≠ 0 ∧ !user.stores then eFault else cr.rgid)
  | .geteuid => (cr, cr.euid)
  | .getegid => (cr, cr.egid)
  | .setuid =>
    match setId (uids cr) (id32 a0) priv with
    | .ok ids => (withUids cr ids, 0)
    | .error e => (cr, e)
  | .setgid =>
    match setId (gids cr) (id32 a0) priv with
    | .ok ids => (withGids cr ids, 0)
    | .error e => (cr, e)
  | .setresuid =>
    match setRes (uids cr) (id32 a0) (id32 a1) (id32 a2) priv with
    | some ids => (withUids cr ids, 0)
    | none => (cr, ePerm)
  | .setresgid =>
    match setRes (gids cr) (id32 a0) (id32 a1) (id32 a2) priv with
    | some ids => (withGids cr ids, 0)
    | none => (cr, ePerm)
  | .getgroups =>
    let n := a0.toInt
    (cr, if n < 0 then eInval
      else if n = 0 then cr.groups.length
      else if a0.toNat < cr.groups.length then eInval
      else if cr.groups ≠ [] ∧ !user.stores then eFault
      else cr.groups.length)
  | .setgroups =>
    let n := a0.toInt
    if !priv then (cr, ePerm)
    else if n < 0 ∨ n > ngroupsMax then (cr, eInval)
    else if n = 0 then ({ cr with groups := [] }, 0)
    else match user.groups a0.toNat with
      | none => (cr, eFault)
      | some groups => ({ cr with groups := groups.take a0.toNat }, 0)

/-- The system call with its number; others of the range do not exist. -/
structure IdCall where
  num : Nat
  a0 : Word
  a1 : Word
  a2 : Word
  user : UserIds

def sysId (cr : Cred) (call : IdCall) : Cred × Int :=
  match IdNumber.ofNat? call.num with
  | none => (cr, eNosys)
  | some num => credSyscall num call.a0 call.a1 call.a2 call.user cr

def afterIds (cr : Cred) (calls : List IdCall) : Cred := calls.foldl (fun cr call => (sysId cr call).1) cr

end SecOS.Ids
