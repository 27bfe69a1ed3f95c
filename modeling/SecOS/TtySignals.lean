import SecOS.Tty

/-! The signals of a pseudo-terminal (kernel/tty.c, kernel/pty.c): queued in an array of eight
while the lock is held, and posted once it is dropped. -/

namespace SecOS.Tty

inductive Signal where
  | int
  | quit
  | tstp
  | hup
  | cont
deriving DecidableEq

/-- A signal for a process group, or for a process with `toPid`. -/
structure TtySig where
  id : Nat
  sig : Signal
  toPid : Bool
deriving DecidableEq

def psigMax : Nat := 8

structure Pty where
  tty : Terminal
  session : Nat
  fgPgrp : Nat
  psig : List TtySig
  mrefs : Nat
  srefs : Nat

def ttyEmitSig (s : TtySig) (p : Pty) : Pty :=
  if s.id = 0 then p else if p.psig.length < psigMax then { p with psig := p.psig ++ [s] } else p

def isigSig (tio : Termios) (c : UInt8) : Option Signal :=
  if !tio.isig then none
  else if ccIs tio.vintr c then some .int
  else if ccIs tio.vquit c then some .quit
  else if ccIs tio.vsusp c then some .tstp
  else none

/-- The signal that `process_byte` finds in a byte. -/
def raised (t : Terminal) (c : UInt8) : Option Signal :=
  if t.lnext then none else (translate t.tio (strip t.tio c)).bind (isigSig t.tio)

def ttyInputByte (now : Nat) (p : Pty) (c : UInt8) : Pty :=
  let p' := { p with tty := processByte p.tty c now }
  match raised p.tty c with
  | none => p'
  | some sig => ttyEmitSig ⟨p.fgPgrp, sig, false⟩ p'

/-- `tty_take_sigs`, with what `finish` then posts. -/
def finish (p : Pty) : Pty × List TtySig := ({ p with psig := [] }, p.psig)

/-- The bytes of a write that find room. -/
def admitted (t : Terminal) (bytes : List UInt8) : List UInt8 := bytes.take (ttyInputRoom t).toNat

/-- `pty_write` of the master. -/
def writeMaster (now : Nat) (bytes : List UInt8) (p : Pty) : Pty × List TtySig :=
  if bytes = [] then (p, []) else finish ((admitted p.tty bytes).foldl (ttyInputByte now) p)

def hangupSession (p : Pty) : Pty :=
  let p := ttyEmitSig ⟨p.fgPgrp, .cont, false⟩ (ttyEmitSig ⟨p.fgPgrp, .hup, false⟩ p)
  let p := ttyEmitSig ⟨p.session, .cont, true⟩ (ttyEmitSig ⟨p.session, .hup, true⟩ p)
  { p with session := 0, fgPgrp := 0 }

/-- `pty_unref` of the master side. -/
def unrefMaster (p : Pty) : Pty × List TtySig :=
  finish (if p.mrefs = 1 then hangupSession { p with mrefs := 0, tty := { p.tty with hungup := true } } else { p with mrefs := p.mrefs - 1 })

end SecOS.Tty
