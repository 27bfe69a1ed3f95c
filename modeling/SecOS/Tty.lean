import SecOS.Library.Ring

/-! The line discipline of a pseudo-terminal (kernel/tty.c): bytes that the master writes are
edited into a line in canonical mode, and queued for the slave. What a terminal throws away
for want of space is kept in a list of its own. Echo and signals are left out. -/

namespace SecOS.Tty
open Library

def ttyLine : Nat := 1024
def tqSize : Nat := 4096

/-- The flags and characters of a `struct tty_termios` that input looks at. -/
structure Termios where
  istrip : Bool
  inlcr : Bool
  igncr : Bool
  icrnl : Bool
  iutf8 : Bool
  isig : Bool
  icanon : Bool
  noflsh : Bool
  iexten : Bool
  echo : Bool
  echok : Bool
  echoke : Bool
  vintr : UInt8
  vquit : UInt8
  vsusp : UInt8
  verase : UInt8
  vkill : UInt8
  vwerase : UInt8
  vreprint : UInt8
  vlnext : UInt8
  veof : UInt8
  veol : UInt8
  veol2 : UInt8
  vmin : UInt8
  vtime : UInt8

def ccIs (cc c : UInt8) : Bool := cc ≠ 0 ∧ cc = c

/-- An entry of the read queue: the byte and its flags TQ_EOL and TQ_EOF. -/
structure Entry where
  byte : UInt8
  eol : Bool
  eof : Bool
deriving DecidableEq

def tqEof : Entry := ⟨0, false, true⟩

/-- What is thrown away: an entry that does not fit in the queue, or a byte for a line that
has so many already. -/
inductive Loss where
  | queue (v : Entry)
  | line (pending : Nat) (c : UInt8)

/-- `tty_t`. The line that is edited has its last byte first. -/
structure Terminal where
  tio : Termios
  line : List UInt8
  lnext : Bool
  q : Ring tqSize Entry
  lastRx : Nat
  vtimeStart : Nat
  vtimePid : Nat
  hungup : Bool
  lost : List Loss

def qSpace (t : Terminal) : Nat := tqSize - 1 - t.q.count

def qPush (t : Terminal) (v : Entry) : Terminal :=
  if qSpace t > 0 then { t with q := t.q.push v } else { t with lost := t.lost ++ [.queue v] }

def flushInput (t : Terminal) : Terminal := { t with line := [], lnext := false, q := t.q.clear }

/-- The bytes of a line go to the queue, the last one marked. -/
def commitBytes : List UInt8 → Terminal → Terminal
  | [], t => t
  | c :: rest, t => commitBytes rest (qPush t ⟨c, rest.isEmpty, false⟩)

def canonCommit (t : Terminal) (eofMarker : Bool) : Terminal :=
  if eofMarker ∧ t.line = [] then qPush t tqEof
  else { commitBytes t.line.reverse t with line := [] }

def continues (tio : Termios) (c : UInt8) : Bool := tio.iutf8 ∧ c &&& 0xC0 = 0x80

def canonEraseOne (tio : Termios) : List UInt8 → List UInt8
  | [] => []
  | c :: rest => if continues tio c ∧ rest ≠ [] then canonEraseOne tio rest else rest

/-- Erase while the last byte is of a kind; every round erases at least one byte. -/
def eraseWhile (tio : Termios) (p : UInt8 → Bool) : Nat → List UInt8 → List UInt8
  | 0, line => line
  | _ + 1, [] => []
  | fuel + 1, c :: rest => if p c then eraseWhile tio p fuel (canonEraseOne tio (c :: rest)) else c :: rest

def blank (c : UInt8) : Bool := c = 0x20 ∨ c = 0x09

def wordErase (tio : Termios) (line : List UInt8) : List UInt8 :=
  let line := eraseWhile tio blank line.length line
  eraseWhile tio (fun c => !blank c) line.length line

def killLine (tio : Termios) (line : List UInt8) : List UInt8 :=
  if tio.echo ∧ !tio.echoke ∧ tio.echok then [] else eraseWhile tio (fun _ => true) line.length line

def store (t : Terminal) (c : UInt8) : Terminal :=
  if t.line.length < ttyLine - 1 then { t with line := c :: t.line }
  else { t with lost := t.lost ++ [.line t.line.length c] }

/-- The byte that ends a line replaces the last one of a full line. -/
def endLine (t : Terminal) (c : UInt8) : Terminal :=
  if t.line.length < ttyLine then { t with line := c :: t.line } else { t with line := c :: t.line.tail }

/-! The keys of canonical mode. -/

def isErase (tio : Termios) (c : UInt8) : Bool := ccIs tio.verase c ∨ c = 0x08 ∨ c = 0x7F

def isEol (tio : Termios) (c : UInt8) : Bool := c = 0x0A ∨ ccIs tio.veol c ∨ (tio.iexten ∧ ccIs tio.veol2 c)

def canonByte (t : Terminal) (c : UInt8) : Terminal :=
  if t.tio.iexten ∧ ccIs t.tio.vlnext c then { t with lnext := true }
  else if isErase t.tio c then { t with line := canonEraseOne t.tio t.line }
  else if ccIs t.tio.vkill c then { t with line := killLine t.tio t.line }
  else if t.tio.iexten ∧ ccIs t.tio.vwerase c then { t with line := wordErase t.tio t.line }
  else if t.tio.iexten ∧ ccIs t.tio.vreprint c then t
  else if ccIs t.tio.veof c then canonCommit t true
  else if isEol t.tio c then canonCommit (endLine t c) false
  else store t c

def isSignal (tio : Termios) (c : UInt8) : Bool := tio.isig ∧ (ccIs tio.vintr c ∨ ccIs tio.vquit c ∨ ccIs tio.vsusp c)

def strip (tio : Termios) (c : UInt8) : UInt8 := if tio.istrip then c &&& 0x7F else c

def translate (tio : Termios) (c : UInt8) : Option UInt8 :=
  if c = 0x0D then
    if tio.igncr then none else if tio.icrnl then some 0x0A else some c
  else if c = 0x0A ∧ tio.inlcr then some 0x0D
  else some c

def inputByte (t : Terminal) (c : UInt8) (now : Nat) : Terminal :=
  if isSignal t.tio c then
    if t.tio.noflsh then t else flushInput t
  else if !t.tio.icanon then { qPush t ⟨c, false, false⟩ with lastRx := now }
  else canonByte t c

def literalByte (t : Terminal) (c : UInt8) : Terminal :=
  let t := { t with lnext := false }
  if t.tio.icanon then store t c else qPush t ⟨c, false, false⟩

def processByte (t : Terminal) (c : UInt8) (now : Nat) : Terminal :=
  if t.lnext then literalByte t (strip t.tio c)
  else match translate t.tio (strip t.tio c) with
    | none => t
    | some c => inputByte t c now

def ttyInputRoom (t : Terminal) : Int :=
  let room : Int := qSpace t - t.line.length - 1
  if t.tio.icanon ∧ t.line.length ≥ ttyLine - 1 ∧ room > 0 then room
  else if room > 0 then room else 0

/-- A write by the master: how many bytes it takes, none if it would have to wait. -/
def ptyWrite (t : Terminal) (bytes : List UInt8) (now : Nat) : Terminal × Nat :=
  if bytes = [] then (t, 0)
  else if ttyInputRoom t ≤ 0 then (t, 0)
  else
    let n := min bytes.length (ttyInputRoom t).toNat
    ((bytes.take n).foldl (fun t c => processByte t c now) t, n)

def readableCount (t : Terminal) : Nat :=
  if !t.tio.icanon then t.q.count
  else (t.q.contents.reverse.dropWhile fun v => !(v.eol || v.eof)).length

def takeLine : Nat → Terminal → Terminal × List UInt8
  | 0, t => (t, [])
  | len + 1, t =>
    if t.q.count = 0 then (t, [])
    else if t.q.front.eof then (t, [])
    else if t.q.front.eol then ({ t with q := t.q.pop }, [t.q.front.byte])
    else
      let (t', out) := takeLine len { t with q := t.q.pop }
      (t', t.q.front.byte :: out)

/-- Bytes of any kind; an EOF that was left over is skipped. -/
def takeRaw : Nat → Nat → Terminal → Terminal × List UInt8
  | 0, _, t => (t, [])
  | _ + 1, 0, t => (t, [])
  | left + 1, len + 1, t =>
    if t.q.front.eof then takeRaw left (len + 1) { t with q := t.q.pop }
    else
      let (t', out) := takeRaw left len { t with q := t.q.pop }
      (t', t.q.front.byte :: out)

def take (t : Terminal) (len : Nat) : Terminal × List UInt8 :=
  if t.tio.icanon then
    if 0 < t.q.count ∧ t.q.front.eof then ({ t with q := t.q.pop }, []) else takeLine len t
  else takeRaw t.q.count len t

/-- Who reads: the answer of the job-control check (0 to go on), whether a signal is pending
and whether the read may wait. -/
structure Reader where
  pid : Nat
  refused : Int
  signal : Bool
  nonblock : Bool

structure Clock where
  now : Nat
  hz : Nat

def waitInput (r : Reader) : Int :=
  if r.signal then -4
  else if r.nonblock then -11
  else if r.pid = 0 then -11
  else -2

/-- There is a line, or an end of file, to be taken. -/
def lineReady (t : Terminal) : Bool := readableCount t > 0 ∨ (0 < t.q.count ∧ t.q.front.eof)

def anyReady (t : Terminal) : Bool := if t.tio.icanon then lineReady t else 0 < t.q.count

def found (r : Terminal × List UInt8) : Terminal × Except Int (List UInt8) := (r.1, .ok r.2)

def waiting (t : Terminal) (r : Reader) : Terminal × Except Int (List UInt8) :=
  (if waitInput r ≠ -2 then { t with vtimePid := 0 } else t, .error (waitInput r))

/-- VTIME is in tenths of a second. -/
def tlen (t : Terminal) (clock : Clock) : Nat := t.tio.vtime.toNat * (if clock.hz = 0 then 1000 else clock.hz) / 10

/-- The timer of a read belongs to the process that waits. -/
def arm (t : Terminal) (r : Reader) (clock : Clock) : Terminal :=
  if t.vtimePid ≠ r.pid + 1 then { t with vtimePid := r.pid + 1, vtimeStart := clock.now } else t

/-- Non-canonical reads, with VMIN and VTIME. -/
def readRaw (t : Terminal) (len : Nat) (r : Reader) (clock : Clock) : Terminal × Except Int (List UInt8) :=
  if t.tio.vmin = 0 ∧ t.tio.vtime = 0 then found (take t len)
  else if t.tio.vmin > 0 ∧ t.q.count ≥ min t.tio.vmin.toNat len then found (take { t with vtimePid := 0 } len)
  else if t.tio.vmin > 0 ∧ t.tio.vtime > 0 ∧ t.q.count > 0 ∧ clock.now - t.lastRx ≥ tlen t clock then found (take t len)
  else if t.tio.vmin = 0 then
    if t.q.count > 0 then found (take { t with vtimePid := 0 } len)
    else if clock.now - (arm t r clock).vtimeStart ≥ tlen t clock then ({ arm t r clock with vtimePid := 0 }, .ok [])
    else waiting (arm t r clock) r
  else waiting t r

def ttyLdiscRead (t : Terminal) (len : Nat) (r : Reader) (clock : Clock) : Terminal × Except Int (List UInt8) :=
  if len = 0 then (t, .error (-1))
  else if r.refused ≠ 0 then (t, .error r.refused)
  else if t.hungup then
    if anyReady t then found (take t len) else (t, .error (-5))
  else if t.tio.icanon then
    if lineReady t then found (take t len) else waiting t r
  else readRaw t len r clock

/-- The entries of the queue one by one; an EOF loses whatever else it carries. -/
def plainEofs (q : Ring tqSize Entry) : Ring tqSize Entry :=
  q.overwrite ((List.range q.count).foldl (fun slots i =>
    let k := (q.head + i) % tqSize
    if (slots k).eof then Function.update slots k tqEof else slots) q.slots)

def markLast (q : Ring tqSize Entry) : Ring tqSize Entry :=
  let k := (q.tail + tqSize - 1) % tqSize
  q.overwrite (Function.update q.slots k { q.slots k with eol := true })

/-- New settings without a flush. The line of canonical mode becomes readable as it is. -/
def tcsets (t : Terminal) (tio : Termios) : Terminal :=
  let wasCanon := t.tio.icanon
  let t := { t with tio := tio }
  if wasCanon ∧ !tio.icanon then
    let t := { t.line.reverse.foldl (fun t c => qPush t ⟨c, false, false⟩) t with line := [] }
    { t with q := plainEofs t.q, vtimePid := 0 }
  else if !wasCanon ∧ tio.icanon ∧ t.q.count > 0 then { t with q := markLast t.q, vtimePid := 0 }
  else { t with vtimePid := 0 }

def opened (tio : Termios) : Terminal :=
  ⟨tio, [], false, ⟨fun _ => ⟨0, false, false⟩, 0, 0, by decide, by decide⟩, 0, 0, 0, false, []⟩

inductive Action where
  | write (bytes : List UInt8) (now : Nat)
  | read (len : Nat) (reader : Reader) (clock : Clock)
  | set (tio : Termios)

/-- With the bytes that writes have reported as taken, and what each read has returned. -/
structure Session where
  tty : Terminal
  accepted : List UInt8
  reads : List (List UInt8)

def step (s : Session) : Action → Session
  | .write bytes now => { s with tty := (ptyWrite s.tty bytes now).1, accepted := s.accepted ++ bytes.take (ptyWrite s.tty bytes now).2 }
  | .read len reader clock =>
    let (t, result) := ttyLdiscRead s.tty len reader clock
    { s with tty := t, reads := s.reads ++ result.toOption.toList }
  | .set tio => { s with tty := tcsets s.tty tio }

def session (tio : Termios) : Session := ⟨opened tio, [], []⟩

end SecOS.Tty
