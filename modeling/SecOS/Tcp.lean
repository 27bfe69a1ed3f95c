import Mathlib

/-! The TCP transport (net/tcp.c): the control blocks, their state machine, the
retransmission timer and the connection table. Sequence numbers have 32 bits. A buffer is
the list of the bytes it holds; what leaves is returned as a list of segments. The clock,
the initial sequence numbers, the heap and the neighbour table answer as they like: their
answers are arguments. The tick counter, of 64 bits and in milliseconds, does not wrap. -/

namespace SecOS.Tcp

def maxConn : Nat := 64

instance : NeZero maxConn := ⟨by decide⟩

def rxBuf : Nat := 65536
def txBuf : Nat := 65536
def mss : Nat := 1460
def rtoTicks : Nat := 600
def maxRetx : Nat := 6
def timeWaitTicks : Nat := 2000
def maxBacklog : Nat := 4
def orphanTicks : Nat := 10000
def arpRetry : Nat := 20

abbrev Seq := BitVec 32

def seqLt (a b : Seq) : Bool := (a - b).toInt < 0
def seqLeq (a b : Seq) : Bool := (a - b).toInt ≤ 0
def seqGt (a b : Seq) : Bool := (a - b).toInt > 0

structure Flags where
  fin : Bool := false
  syn : Bool := false
  rst : Bool := false
  psh : Bool := false
  ack : Bool := false
deriving DecidableEq

/-- A segment; `ip` is the host at the other end. -/
structure Segment where
  ip : BitVec 32
  srcPort : Nat
  dstPort : Nat
  seq : Seq
  ack : Seq
  flags : Flags
  wnd : Nat
  data : List UInt8
deriving DecidableEq

def beNat (bytes : List UInt8) : Nat := bytes.foldl (fun n b => n * 256 + b.toNat) 0

/-- The header of an incoming segment, none if it is not whole. The urgent pointer, the
checksum and the options are not looked at. -/
def Segment.parse (ip : BitVec 32) (seg : List UInt8) : Option Segment :=
  let field := fun off len => beNat ((seg.drop off).take len)
  let doff := field 12 1 / 16 * 4
  let flags := field 13 1
  if seg.length < 20 ∨ doff < 20 ∨ doff > seg.length then none
  else some ⟨ip, field 0 2, field 2 2, BitVec.ofNat 32 (field 4 4), BitVec.ofNat 32 (field 8 4),
    ⟨flags.testBit 0, flags.testBit 1, flags.testBit 2, flags.testBit 3, flags.testBit 4⟩, field 14 2, seg.drop doff⟩

inductive TcpState where
  | closed
  | listen
  | synSent
  | synRcvd
  | established
  | finWait1
  | finWait2
  | closeWait
  | closing
  | lastAck
  | timeWait
deriving DecidableEq, Repr

/-- `struct tcp_conn`. The last four fields are a history that the code does not keep: the
bytes accepted from and returned to the user, whether the connection has been established,
and how often the slot was given out. -/
structure Conn where
  used : Bool
  state : TcpState
  remoteIp : BitVec 32
  localPort : Nat
  remotePort : Nat
  iss : Seq
  sndUna : Seq
  sndNxt : Seq
  rcvNxt : Seq
  sndWnd : Nat
  tx : List UInt8
  rx : List UInt8
  finPending : Bool
  finSent : Bool
  reset : Bool
  rtoDeadline : Nat
  retries : Nat
  twDeadline : Nat
  listener : Option (Fin maxConn)
  accepted : Bool
  orphan : Bool
  orphanDeadline : Nat
  synUnsent : Bool
  synRetryAt : Nat
  backlog : Nat
  written : List UInt8
  delivered : List UInt8
  opened : Bool
  generation : Nat
deriving DecidableEq

def Conn.blank : Conn :=
  ⟨false, .closed, 0, 0, 0, 0, 0, 0, 0, 0, [], [], false, false, false, 0, 0, 0, none, false, false, 0, false, 0, 0, [], [], false, 0⟩

def connFree (c : Conn) : Conn := { c with used := false, state := .closed }

def connClosed (c : Conn) : Conn :=
  if c.orphan || (c.listener.isSome && !c.accepted) then connFree c else { c with state := .closed }

/-- The segment; the window is the room of the receive buffer, as far as 16 bits say it. -/
def tcpXmit (c : Conn) (flags : Flags) (data : List UInt8) (seq : Seq) : Segment :=
  ⟨c.remoteIp, c.localPort, c.remotePort, seq, c.rcvNxt, flags, min (rxBuf - c.rx.length) 65535, data⟩

def pureAck (c : Conn) : Segment := tcpXmit c { ack := true } [] c.sndNxt

def armRto (now : Nat) (c : Conn) : Conn := { c with rtoDeadline := now + rtoTicks, retries := 0 }

/-- The loop of `tcp_output` from `off` bytes sent on; every round sends a byte at least. -/
def outputData (now wnd : Nat) : Nat → Nat → Conn → Conn × List Segment
  | 0, _, c => (c, [])
  | rounds + 1, off, c =>
    if off < c.tx.length ∧ off < wnd then
      let chunk := min (min (c.tx.length - off) mss) (wnd - off)
      let seg := tcpXmit c { ack := true, psh := true } ((c.tx.drop off).take chunk) c.sndNxt
      let (c, segs) := outputData now wnd rounds (off + chunk) (armRto now { c with sndNxt := c.sndNxt + BitVec.ofNat 32 chunk })
      (c, seg :: segs)
    else (c, [])

def outputFin (now : Nat) (c : Conn) : Conn × List Segment :=
  if c.finPending ∧ !c.finSent ∧ (c.sndNxt - c.sndUna).toNat = c.tx.length then
    let seg := tcpXmit c { ack := true, fin := true } [] c.sndNxt
    let c := armRto now { c with finSent := true, sndNxt := c.sndNxt + 1 }
    ({ c with state := match c.state with | .established => .finWait1 | .closeWait => .lastAck | state => state }, [seg])
  else (c, [])

def tcpOutput (now : Nat) (c : Conn) : Conn × List Segment :=
  let wnd := if c.sndWnd = 0 then 1 else c.sndWnd
  let (c, data) := outputData now wnd c.tx.length (c.sndNxt - c.sndUna).toNat c
  let (c, fin) := outputFin now c
  (c, data ++ fin)

/-- Active open on a fresh block; `leaves` is whether the SYN got past the neighbour table. -/
def startConnect (now : Nat) (leaves : Bool) (iss : Seq) (port : Nat) (ip : BitVec 32) (dport : Nat) (c : Conn) : Conn × List Segment :=
  let c := { c with remoteIp := ip, remotePort := dport, localPort := port, iss := iss, sndUna := iss, sndNxt := iss, rcvNxt := 0,
                    state := .synSent }
  let seg := tcpXmit c { syn := true } [] c.iss
  (armRto now { c with synUnsent := !leaves, synRetryAt := now + arpRetry, sndNxt := c.iss + 1 }, [seg])

def tcpWrite (now : Nat) (data : List UInt8) (c : Conn) : Conn × List Segment × Option Nat :=
  if c.state ≠ .established ∧ c.state ≠ .closeWait then (c, [], none)
  else
    let data := data.take (txBuf - c.tx.length)
    let (c, segs) := tcpOutput now { c with tx := c.tx ++ data, written := c.written ++ data }
    (c, segs, some data.length)

def tcpRead (len : Nat) (c : Conn) : Conn × List Segment × Option (List UInt8) :=
  if c.rx.length = 0 then
    if c.state = .closeWait ∨ c.state = .closed ∨ c.state = .lastAck ∨ c.state = .timeWait then (c, [], none) else (c, [], some [])
  else
    let data := c.rx.take len
    let c := { c with rx := c.rx.drop len, delivered := c.delivered ++ data }
    (c, if c.state = .established ∨ c.state = .finWait1 ∨ c.state = .finWait2 then [pureAck c] else [], some data)

def startClose (now : Nat) (c : Conn) : Conn × List Segment :=
  if c.state = .established ∨ c.state = .closeWait then tcpOutput now { c with finPending := true }
  else if c.state = .synSent ∨ c.state = .listen then ({ c with state := .closed }, [])
  else (c, [])

/-- A reset counts only at the exact place; inside the window it draws an acknowledgement. -/
def inputRst (c : Conn) (s : Segment) : Conn × List Segment :=
  let ok := if c.state = .synSent then s.flags.ack && s.ack == c.sndNxt else s.seq == c.rcvNxt
  if ok then (connClosed { c with reset := true }, [])
  else if c.state ≠ .synSent ∧ seqGt s.seq c.rcvNxt ∧ seqLt s.seq (c.rcvNxt + BitVec.ofNat 32 (rxBuf - c.rx.length)) then (c, [pureAck c])
  else (c, [])

def inputSynSent (now : Nat) (c : Conn) (s : Segment) : Conn × List Segment :=
  if s.flags.syn ∧ s.flags.ack then
    if s.ack ≠ c.sndNxt then (c, [])
    else
      let c := { c with rcvNxt := s.seq + 1, sndUna := s.ack, state := .established, opened := true }
      ({ c with rtoDeadline := 0 }, [pureAck c])
  else if s.flags.syn then
    let c := { c with rcvNxt := s.seq + 1, state := .synRcvd }
    (armRto now c, [tcpXmit c { syn := true, ack := true } [] c.iss])
  else (c, [])

/-- How many bytes of the send buffer an acknowledgement of `acked` units covers. -/
def ackedData (c : Conn) (ack : Seq) : Nat :=
  let acked := (ack - c.sndUna).toNat
  let databytes := if c.state = .synRcvd then acked - 1 else acked
  let databytes := if c.finSent ∧ seqLeq c.sndNxt ack then databytes - 1 else databytes
  min databytes c.tx.length

def applyAck (now : Nat) (c : Conn) (ack : Seq) : Conn :=
  let c := { c with tx := c.tx.drop (ackedData c ack), sndUna := ack }
  if c.sndUna = c.sndNxt then { c with rtoDeadline := 0 } else armRto now c

/-- The acknowledgement of a segment; the flag tells that this closed the connection. -/
def inputAck (now : Nat) (c : Conn) (s : Segment) : Conn × Bool :=
  if s.flags.ack ∧ seqGt s.ack c.sndUna ∧ seqLeq s.ack c.sndNxt then
    let c := applyAck now c s.ack
    match c.state with
    | .synRcvd => ({ c with state := .established, opened := true }, false)
    | .finWait1 => (if c.sndUna = c.sndNxt then { c with state := .finWait2 } else c, false)
    | .closing => (if c.sndUna = c.sndNxt then { c with state := .timeWait, twDeadline := now + timeWaitTicks } else c, false)
    | .lastAck => if c.sndUna = c.sndNxt then (connClosed c, true) else (c, false)
    | _ => (c, false)
  else (c, false)

def rxAccept (c : Conn) (data : List UInt8) : Conn × Nat :=
  let data := data.take (rxBuf - c.rx.length)
  ({ c with rx := c.rx ++ data }, data.length)

/-- Data in order is taken as far as there is room; any data is answered. -/
def inputData (c : Conn) (s : Segment) : Conn × List Segment :=
  if s.data ≠ [] ∧ (c.state = .established ∨ c.state = .finWait1 ∨ c.state = .finWait2) then
    let c := if s.seq = c.rcvNxt then
        let (c, got) := rxAccept c s.data
        { c with rcvNxt := c.rcvNxt + BitVec.ofNat 32 got }
      else c
    (c, [pureAck c])
  else (c, [])

def inputFin (now : Nat) (c : Conn) (s : Segment) : Conn × List Segment :=
  if s.flags.fin ∧ s.seq + BitVec.ofNat 32 s.data.length = c.rcvNxt then
    let c := { c with rcvNxt := c.rcvNxt + 1 }
    let c := match c.state with
      | .established => { c with state := .closeWait }
      | .finWait1 => { c with state := .closing }
      | .finWait2 => { c with state := .timeWait, twDeadline := now + timeWaitTicks }
      | _ => c
    (c, [pureAck c])
  else (c, [])

def connAbort (c : Conn) : Conn × List Segment := (connFree c, [tcpXmit c { rst := true, ack := true } [] c.sndNxt])

/-- A segment for a connection that is neither listening nor closed. -/
def connInput (now : Nat) (c : Conn) (s : Segment) : Conn × List Segment :=
  if s.flags.rst then inputRst c s
  else
    let c := { c with sndWnd := s.wnd }
    if c.state = .synSent then inputSynSent now c s
    else
      let (c, closed) := inputAck now c s
      if closed then (c, [])
      else if c.orphan ∧ s.data ≠ [] ∧ (c.state = .finWait1 ∨ c.state = .finWait2) then connAbort c
      else
        let (c, first) := inputData c s
        let (c, second) := inputFin now c s
        let (c, third) := tcpOutput now c
        (c, first ++ second ++ third)

def retransmit (c : Conn) : List Segment :=
  match c.state with
  | .synSent => [tcpXmit c { syn := true } [] c.iss]
  | .synRcvd => [tcpXmit c { syn := true, ack := true } [] c.iss]
  | _ =>
    let unacked := (c.sndNxt - c.sndUna).toNat
    let databytes := min (if c.finSent then unacked - 1 else unacked) c.tx.length
    if databytes ≠ 0 then [tcpXmit c { ack := true, psh := true } (c.tx.take (min databytes mss)) c.sndUna]
    else if c.finSent then [tcpXmit c { ack := true, fin := true } [] (c.sndNxt - 1)]
    else []

def connTick (now : Nat) (leaves : Bool) (c : Conn) : Conn × List Segment :=
  if !c.used then (c, [])
  else if c.state = .timeWait then (if now ≥ c.twDeadline then connClosed c else c, [])
  else if c.orphan ∧ (c.state = .closed ∨ now ≥ c.orphanDeadline) then (connFree c, [])
  else if c.state = .closed then (c, [])
  else if c.state = .synSent ∧ c.synUnsent then
    if now ≥ c.synRetryAt then
      (if leaves then armRto now { c with synUnsent := false } else { c with synRetryAt := now + arpRetry },
        [tcpXmit c { syn := true } [] c.iss])
    else (c, [])
  else if c.rtoDeadline ≠ 0 ∧ now ≥ c.rtoDeadline ∧ c.sndUna ≠ c.sndNxt then
    let c := { c with retries := c.retries + 1 }
    if c.retries > maxRetx then (connClosed { c with reset := true }, [])
    else ({ c with rtoDeadline := now + rtoTicks * 2 ^ (if c.retries < 4 then c.retries else 4) }, retransmit c)
  else (c, [])

structure Table where
  conns : Fin maxConn → Conn
  eph : Nat

def Table.set (t : Table) (i : Fin maxConn) (c : Conn) : Table := { t with conns := Function.update t.conns i c }

def slots : List (Fin maxConn) := List.finRange maxConn

def portTaken (t : Table) (port : Nat) : Bool := slots.any fun i => (t.conns i).used && (t.conns i).localPort == port

def nextEph (port : Nat) : Nat := if (port + 1) % 2 ^ 16 = 0 then 49152 else (port + 1) % 2 ^ 16

/-- A port that no block has, 0 for none; with the next one to try. -/
def ephPort (t : Table) : Nat → Nat → Nat × Nat
  | 0, eph => (0, eph)
  | rounds + 1, eph => if portTaken t eph then ephPort t rounds (nextEph eph) else (eph, nextEph eph)

def ephRounds : Nat := 16384

def recyclable (c : Conn) : Bool := c.used && c.orphan && c.state = .timeWait

def closest (t : Table) : List (Fin maxConn) → Option (Fin maxConn) → Option (Fin maxConn)
  | [], best => best
  | i :: rest, best =>
    let better := match best with
      | none => true
      | some b => (t.conns i).twDeadline < (t.conns b).twDeadline
    closest t rest (if recyclable (t.conns i) && better then some i else best)

def reclaimTimeWait (t : Table) : Table × Option (Fin maxConn) :=
  match closest t slots none with
  | none => (t, none)
  | some i => (t.set i (connFree (t.conns i)), some i)

/-- A zeroed block; `memory` is whether the heap has the two buffers. -/
def takeSlot (memory : Bool) (t : Table) (i : Fin maxConn) : Table × Option (Fin maxConn) :=
  let c := { Conn.blank with generation := (t.conns i).generation + 1 }
  if memory then (t.set i { c with used := true }, some i) else (t.set i c, none)

def tcpAlloc (memory : Bool) (t : Table) : Table × Option (Fin maxConn) :=
  match slots.find? fun i => !(t.conns i).used with
  | some i => takeSlot memory t i
  | none =>
    match reclaimTimeWait t with
    | (t, some i) => takeSlot memory t i
    | (t, none) => (t, none)

/-- `tcp_start_connect` with the port it picks. -/
def tcpStartConnect (now : Nat) (leaves : Bool) (iss : Seq) (ip : BitVec 32) (dport : Nat) (t : Table) (i : Fin maxConn) :
    Table × List Segment :=
  let (port, eph) := ephPort t ephRounds t.eph
  let (c, segs) := startConnect now leaves iss port ip dport (t.conns i)
  ({ t with eph := eph }.set i c, segs)

def findListener (t : Table) (port : Nat) : Option (Fin maxConn) :=
  slots.find? fun i => (t.conns i).used && (t.conns i).state = .listen && (t.conns i).localPort == port

/-- One listener for each port; the number of children waiting is kept between 1 and 4. -/
def tcpStartListen (port backlog : Nat) (t : Table) (i : Fin maxConn) : Option Table :=
  if port = 0 ∨ slots.any fun j => j ≠ i && (t.conns j).used && (t.conns j).state = .listen && (t.conns j).localPort == port then none
  else some (t.set i { t.conns i with localPort := port, state := .listen, backlog := min (max backlog 1) maxBacklog })

def queued (l : Fin maxConn) (c : Conn) : Bool := c.used && c.listener == some l && !c.accepted

def listenerQueued (t : Table) (l : Fin maxConn) : Nat := slots.countP fun i => queued l (t.conns i)

def acceptable (l : Fin maxConn) (c : Conn) : Bool := queued l c && (c.state = .established || c.state = .closeWait)

def tcpAcceptReady (t : Table) (l : Fin maxConn) : Table × Option (Fin maxConn) :=
  match slots.find? fun i => acceptable l (t.conns i) with
  | none => (t, none)
  | some i => (t.set i { t.conns i with accepted := true }, some i)

def matchesConn (ip : BitVec 32) (sport dport : Nat) (c : Conn) : Bool :=
  c.used && c.state ≠ .listen && c.state ≠ .closed && c.localPort == dport && c.remotePort == sport && c.remoteIp == ip

def findConn (t : Table) (ip : BitVec 32) (sport dport : Nat) : Option (Fin maxConn) :=
  slots.find? fun i => matchesConn ip sport dport (t.conns i)

def childOf (now : Nat) (iss : Seq) (l : Fin maxConn) (s : Segment) (c : Conn) : Conn × List Segment :=
  let c := { c with remoteIp := s.ip, remotePort := s.srcPort, localPort := s.dstPort, listener := some l, iss := iss, rcvNxt := s.seq + 1,
                    sndUna := iss, sndNxt := iss, sndWnd := s.wnd, state := .synRcvd }
  let seg := tcpXmit c { syn := true, ack := true } [] c.iss
  (armRto now { c with sndNxt := c.iss + 1 }, [seg])

/-- `tcp_input`, of a segment with its header taken apart. -/
def tcpInput (now : Nat) (iss : Seq) (memory : Bool) (t : Table) (s : Segment) : Table × List Segment :=
  match findConn t s.ip s.srcPort s.dstPort with
  | some i =>
    let (c, segs) := connInput now (t.conns i) s
    (t.set i c, segs)
  | none =>
    match findListener t s.dstPort with
    | none => (t, [])
    | some l =>
      if s.flags.syn ∧ !s.flags.ack ∧ listenerQueued t l < (t.conns l).backlog then
        match tcpAlloc memory t with
        | (t, none) => (t, [])
        | (t, some i) =>
          let (c, segs) := childOf now iss l s (t.conns i)
          (t.set i c, segs)
      else (t, [])

def tcpTick (now : Nat) (leaves : Fin maxConn → Bool) (t : Table) : Table × List Segment :=
  ({ t with conns := fun i => (connTick now (leaves i) (t.conns i)).1 }, slots.flatMap fun i => (connTick now (leaves i) (t.conns i)).2)

def dropChild (l : Fin maxConn) (c : Conn) : Conn × List Segment :=
  if c.used && c.listener == some l then
    if c.accepted then ({ c with listener := none }, [])
    else (connFree c, if c.state ≠ .closed then [tcpXmit c { rst := true, ack := true } [] c.sndNxt] else [])
  else (c, [])

def tcpRelease (now : Nat) (t : Table) (i : Fin maxConn) : Table × List Segment :=
  let c := t.conns i
  if !c.used then (t, [])
  else if c.state = .listen then
    let t' : Table := { t with conns := fun j => (dropChild i (t.conns j)).1 }
    (t'.set i (connFree c), slots.flatMap fun j => (dropChild i (t.conns j)).2)
  else if c.state = .closed ∨ c.state = .synSent ∨ c.state = .synRcvd then (t.set i (connFree c), [])
  else if c.rx ≠ [] ∧ c.state ≠ .timeWait then
    let (c, segs) := connAbort c
    (t.set i c, segs)
  else
    let (c, segs) := startClose now { c with orphan := true, orphanDeadline := now + orphanTicks }
    (t.set i c, segs)

/-- What the transport is asked to do, each under the stack lock. A block is started as soon
as it is allocated. -/
inductive Call where
  | connect (now : Nat) (leaves memory : Bool) (iss : Seq) (ip : BitVec 32) (port : Nat)
  | listen (memory : Bool) (port backlog : Nat)
  | accept (l : Fin maxConn)
  | write (now : Nat) (i : Fin maxConn) (data : List UInt8)
  | read (i : Fin maxConn) (len : Nat)
  | close (now : Nat) (i : Fin maxConn)
  | release (now : Nat) (i : Fin maxConn)
  | free (i : Fin maxConn)
  /-- A packet from `ip`, of any bytes. -/
  | input (now : Nat) (iss : Seq) (memory : Bool) (ip : BitVec 32) (bytes : List UInt8)
  | tick (now : Nat) (leaves : Fin maxConn → Bool)

def perform (t : Table) : Call → Table × List Segment
  | .connect now leaves memory iss ip port =>
    match tcpAlloc memory t with
    | (t, none) => (t, [])
    | (t, some i) => tcpStartConnect now leaves iss ip port t i
  | .listen memory port backlog =>
    match tcpAlloc memory t with
    | (t, none) => (t, [])
    | (t, some i) => ((tcpStartListen port backlog t i).getD (t.set i (connFree (t.conns i))), [])
  | .accept l => ((tcpAcceptReady t l).1, [])
  | .write now i data => (t.set i (tcpWrite now data (t.conns i)).1, (tcpWrite now data (t.conns i)).2.1)
  | .read i len => (t.set i (tcpRead len (t.conns i)).1, (tcpRead len (t.conns i)).2.1)
  | .close now i => (t.set i (startClose now (t.conns i)).1, (startClose now (t.conns i)).2)
  | .release now i => tcpRelease now t i
  | .free i => (t.set i (connFree (t.conns i)), [])
  | .input now iss memory ip bytes =>
    match Segment.parse ip bytes with
    | none => (t, [])
    | some s => tcpInput now iss memory t s
  | .tick now leaves => tcpTick now leaves t

def emptyTable : Table := ⟨fun _ => Conn.blank, 49152⟩

def afterCalls (calls : List Call) : Table × List Segment := calls.foldl (fun r call => perform r.1 call) (emptyTable, [])

end SecOS.Tcp
