import SecOS.Tcp

/-! The sockets over the TCP transport (net/socket.c). A stream socket points to a control
block; datagram sockets share the table and have none. Everything runs under the stack
lock, so an event is one call, one incoming segment or one tick. -/

namespace SecOS.Tcp

def maxSock : Nat := 64
def connectTicks : Nat := 20000

inductive Errno where
  | again
  | badf
  | inval
  | pipe
  | nobufs
  | notconn
  | connrefused
  | addrinuse
  | netdown
  | opnotsupp
  | isconn
  | timedout
  | already
  | inprogress
deriving DecidableEq, Repr

structure Sock where
  used : Bool
  stream : Bool
  refs : Int
  port : Nat
  tcp : Option (Fin maxConn)
  listening : Bool
  connecting : Bool
  connDeadline : Nat
deriving DecidableEq

def Sock.blank : Sock := ⟨false, false, 0, 0, none, false, false, 0⟩

/-- `out` is what has left during the current event. -/
structure Stack where
  table : Table
  socks : Fin maxSock → Sock
  out : List Segment

def Stack.put (k : Stack) (i : Fin maxSock) (s : Sock) : Stack := { k with socks := Function.update k.socks i s }

def Stack.after (k : Stack) (r : Table × List Segment) : Stack := { k with table := r.1, out := k.out ++ r.2 }

/-- What the outside answers during a call: the clock, the device, the heap, the random
numbers and the neighbour table. -/
structure Outside where
  now : Nat
  device : Bool
  memory : Bool
  iss : Seq
  leaves : Bool

def lCreate (stream : Bool) (k : Stack) : Stack × Except Errno (Fin maxSock) :=
  match (List.finRange maxSock).find? fun i => !(k.socks i).used with
  | none => (k, .error .nobufs)
  | some i => (k.put i { Sock.blank with used := true, stream := stream, refs := 1 }, .ok i)

def sockRelease (now : Nat) (k : Stack) (i : Fin maxSock) : Stack :=
  let s := k.socks i
  let k := match s.stream, s.tcp with
    | true, some c => k.after (tcpRelease now k.table c)
    | _, _ => k
  k.put i { s with used := false, tcp := if s.stream then none else s.tcp }

def lRef (k : Stack) (i : Fin maxSock) : Stack :=
  if (k.socks i).used then k.put i { k.socks i with refs := (k.socks i).refs + 1 } else k

def lUnref (now : Nat) (k : Stack) (i : Fin maxSock) : Stack :=
  if (k.socks i).used then
    let k := k.put i { k.socks i with refs := (k.socks i).refs - 1 }
    if (k.socks i).refs ≤ 0 then sockRelease now k i else k
  else k

/-- The datagram half is left out. -/
def lBind (port : Nat) (k : Stack) (i : Fin maxSock) : Stack × Except Errno Unit :=
  let s := k.socks i
  if !s.used then (k, .error .badf)
  else if !s.stream then (k, .ok ())
  else if s.tcp.isSome then (k, .error .inval)
  else (k.put i { s with port := port }, .ok ())

def lConnect (o : Outside) (ip : BitVec 32) (port : Nat) (k : Stack) (i : Fin maxSock) : Stack × Except Errno Unit :=
  let s := k.socks i
  if !s.used then (k, .error .badf)
  else if !o.device then (k, .error .netdown)
  else if !s.stream then (k, .ok ())
  else if s.listening then (k, .error .inval)
  else match s.tcp with
    | none =>
      match tcpAlloc o.memory k.table with
      | (t, none) => ({ k with table := t }, .error .nobufs)
      | (t, some c) =>
        let k := k.after (tcpStartConnect o.now o.leaves o.iss ip port t c)
        (k.put i { s with tcp := some c, connecting := true, connDeadline := o.now + connectTicks }, .error .inprogress)
    | some c =>
      if !s.connecting then (k, .error .isconn)
      else
        let state := (k.table.conns c).state
        if state = .established ∨ state = .closeWait then (k.put i { s with connecting := false }, .ok ())
        else
          let reset := (k.table.conns c).reset || state = .closed
          if reset ∨ o.now ≥ s.connDeadline then
            let k := k.after (tcpRelease o.now k.table c)
            (k.put i { s with tcp := none, connecting := false }, .error (if reset then .connrefused else .timedout))
          else (k, .error .already)

def lListen (o : Outside) (backlog : Nat) (k : Stack) (i : Fin maxSock) : Stack × Except Errno Unit :=
  let s := k.socks i
  if !s.used ∨ !s.stream then (k, .error .opnotsupp)
  else if s.listening then (k, .ok ())
  else if s.tcp.isSome ∨ s.port = 0 then (k, .error .inval)
  else if !o.device then (k, .error .netdown)
  else match tcpAlloc o.memory k.table with
    | (t, none) => ({ k with table := t }, .error .nobufs)
    | (t, some c) =>
      match tcpStartListen s.port backlog t c with
      | none => ({ k with table := t.set c (connFree (t.conns c)) }, .error .addrinuse)
      | some t => ({ k with table := t }.put i { s with tcp := some c, listening := true }, .ok ())

def lAccept (k : Stack) (i : Fin maxSock) : Stack × Except Errno (Fin maxSock) :=
  let s := k.socks i
  if !s.used ∨ !s.listening then (k, .error .inval)
  else match s.tcp with
    | none => (k, .error .again)
    | some l =>
      if slots.countP (fun j => acceptable l (k.table.conns j)) = 0 then (k, .error .again)
      else match lCreate true k with
        | (k, .error e) => (k, .error e)
        | (k, .ok n) =>
          match tcpAcceptReady k.table l with
          | (_, none) => (k.put n { k.socks n with used := false }, .error .again)
          | (t, some c) => ({ k with table := t }.put n { k.socks n with tcp := some c }, .ok n)

def lSend (o : Outside) (data : List UInt8) (k : Stack) (i : Fin maxSock) : Stack × Except Errno Nat :=
  let s := k.socks i
  if !s.used then (k, .error .badf)
  else if !o.device then (k, .error .netdown)
  else match s.stream, s.listening, s.tcp with
    | true, false, some c =>
      let state := (k.table.conns c).state
      if state ≠ .established ∧ state ≠ .closeWait then (k, .error .pipe)
      else if data = [] then (k, .ok 0)
      else
        let (conn, segs, n) := tcpWrite o.now data (k.table.conns c)
        let k := k.after (k.table.set c conn, segs)
        match n with
        | none => (k, .error .pipe)
        | some n => (k, if n > 0 then .ok n else .error .again)
    | _, _, _ => (k, .error .notconn)

def lRecv (len : Nat) (k : Stack) (i : Fin maxSock) : Stack × Except Errno (List UInt8) :=
  let s := k.socks i
  if !s.used ∨ len = 0 then (k, .error .inval)
  else match s.stream, s.listening, s.tcp with
    | true, false, some c =>
      let (conn, segs, data) := tcpRead len (k.table.conns c)
      let k := k.after (k.table.set c conn, segs)
      match data with
      | none => (k, .ok [])
      | some data => (k, if data ≠ [] then .ok data else .error .again)
    | _, _, _ => (k, .error .notconn)

inductive Event where
  | create (stream : Bool)
  | ref (i : Fin maxSock)
  | close (now : Nat) (i : Fin maxSock)
  | bind (i : Fin maxSock) (port : Nat)
  | connect (o : Outside) (i : Fin maxSock) (ip : BitVec 32) (port : Nat)
  | listen (o : Outside) (i : Fin maxSock) (backlog : Nat)
  | accept (i : Fin maxSock)
  | send (o : Outside) (i : Fin maxSock) (data : List UInt8)
  | recv (i : Fin maxSock) (len : Nat)
  /-- A packet from `ip`, of any bytes. -/
  | packet (o : Outside) (ip : BitVec 32) (bytes : List UInt8)
  | tick (now : Nat) (leaves : Fin maxConn → Bool)

def stepOn (k : Stack) : Event → Stack
  | .create stream => (lCreate stream k).1
  | .ref i => lRef k i
  | .close now i => lUnref now k i
  | .bind i port => (lBind port k i).1
  | .connect o i ip port => (lConnect o ip port k i).1
  | .listen o i backlog => (lListen o backlog k i).1
  | .accept i => (lAccept k i).1
  | .send o i data => (lSend o data k i).1
  | .recv i len => (lRecv len k i).1
  | .packet o ip bytes =>
    match Segment.parse ip bytes with
    | none => k
    | some s => k.after (tcpInput o.now o.iss o.memory k.table s)
  | .tick now leaves => k.after (tcpTick now leaves k.table)

def step (k : Stack) (e : Event) : Stack := stepOn { k with out := [] } e

def run (k : Stack) (events : List Event) : Stack := events.foldl step k

def boot : Stack := ⟨emptyTable, fun _ => Sock.blank, []⟩

end SecOS.Tcp
