import SecOS.Tcp

/-! Two endpoints of one connection and the network between them. The network keeps all that
was ever sent and delivers any of it, in any order and as often as it likes; a segment that
it never delivers is lost. -/

namespace SecOS.Tcp

inductive Side where
  | left
  | right
deriving DecidableEq

def Side.other : Side → Side
  | .left => .right
  | .right => .left

/-- The place of `sndUna` in the stream: the SYN is at 0, the byte `n` at `n + 1`, and the FIN
behind the last byte. -/
def unaPosition (c : Conn) : Nat :=
  match c.state with
  | .synSent | .synRcvd => 0
  | .finWait2 | .timeWait => c.written.length + 2
  | _ => c.written.length - c.tx.length + 1

/-- The place in the stream at which a segment of `c` starts. -/
def position (c : Conn) (s : Segment) : Nat := unaPosition c + (s.seq - c.sndUna).toNat

def rcvPosition (c : Conn) : Nat :=
  match c.state with
  | .synSent => 0
  | .closeWait | .closing | .lastAck | .timeWait => c.delivered.length + c.rx.length + 2
  | _ => c.delivered.length + c.rx.length + 1

/-- `none` is an end that listens. -/
structure Link where
  ends : Side → Option Conn
  /-- What a side has sent, with the places in its stream. -/
  sent : Side → List (Nat × Segment)

def Link.idle : Link := ⟨fun _ => none, fun _ => []⟩

def Link.move (k : Link) (side : Side) (r : Conn × List Segment) : Link :=
  ⟨Function.update k.ends side (some r.1), Function.update k.sent side (k.sent side ++ r.2.map fun s => (position r.1 s, s))⟩

def Conn.allocated : Conn := { Conn.blank with used := true }

inductive LinkEvent where
  | connect (now : Nat) (leaves : Bool) (iss : Seq) (port : Nat) (ip : BitVec 32) (dport : Nat)
  /-- The segment `n` of the other side arrives from `ip`; `iss` and `l` are for a child. -/
  | deliver (n now : Nat) (ip : BitVec 32) (iss : Seq) (l : Fin maxConn)
  | accept
  | write (now : Nat) (data : List UInt8)
  | read (len : Nat)
  | close (now : Nat)
  | tick (now : Nat) (leaves : Bool)

/-- Segments within half of the sequence space of what the receiver waits for. -/
def near (c : Conn) (pos : Nat) : Bool := pos < rcvPosition c + 2 ^ 31 && rcvPosition c < pos + 2 ^ 31

def deliverTo (now : Nat) (iss : Seq) (l : Fin maxConn) (pos : Nat) (s : Segment) : Option Conn → Option (Conn × List Segment)
  | none => if s.flags.syn ∧ !s.flags.ack then some (childOf now iss l s Conn.allocated) else none
  | some c => if c.used ∧ c.state ≠ .listen ∧ c.state ≠ .closed ∧ near c pos then some (connInput now c s) else none

def endStep (peerSent : List (Nat × Segment)) (c : Option Conn) : LinkEvent → Option (Conn × List Segment)
  | .connect now leaves iss port ip dport =>
    match c with
    | none => some (startConnect now leaves iss port ip dport Conn.allocated)
    | some _ => none
  | .deliver n now ip iss l =>
    match peerSent[n]? with
    | none => none
    | some (pos, s) => deliverTo now iss l pos { s with ip := ip } c
  | .accept =>
    match c with
    | none => none
    | some c => if c.listener.any fun l => acceptable l c then some ({ c with accepted := true }, []) else none
  | .write now data => (c.filter (·.used)).map fun c => ((tcpWrite now data c).1, (tcpWrite now data c).2.1)
  | .read len => (c.filter (·.used)).map fun c => ((tcpRead len c).1, (tcpRead len c).2.1)
  | .close now => (c.filter (·.used)).map fun c => startClose now c
  | .tick now leaves => c.map fun c => connTick now leaves c

def linkStep (k : Link) (e : Side × LinkEvent) : Link :=
  match endStep (k.sent e.1.other) (k.ends e.1) e.2 with
  | none => k
  | some r => k.move e.1 r

def Link.delivered (k : Link) (side : Side) : List UInt8 := ((k.ends side).map (·.delivered)).getD []

def Link.written (k : Link) (side : Side) : List UInt8 := ((k.ends side).map (·.written)).getD []

def linkRun (events : List (Side × LinkEvent)) : Link := events.foldl linkStep Link.idle

end SecOS.Tcp
