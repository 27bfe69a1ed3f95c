import SecOS.Tcp

/-! The bytes of packets on their way out (net/ipv4.c, net/tcp.c, net/udp.c) with the Internet
checksum (net/net_core.c). Of routing only whether the next hop is resolved is kept. -/

namespace SecOS.NetSend

def netMtu : Nat := 1500
def netFrameMax : Nat := 1536
def protoTcp : UInt8 := 6
def protoUdp : UInt8 := 17

def be16 (v : Nat) : List UInt8 := [.ofNat (v / 256), .ofNat v]

def be32 (v : Nat) : List UInt8 := be16 (v / 65536) ++ be16 v

/-- An address is kept with its first byte lowest. -/
def octets (ip : Nat) : List UInt8 := [.ofNat ip, .ofNat (ip / 256), .ofNat (ip / 65536), .ofNat (ip / 16777216)]

def sum16 : List UInt8 → Nat
  | a :: b :: rest => a.toNat * 256 + b.toNat + sum16 rest
  | [a] => a.toNat * 256
  | [] => 0

def carry (sum : Nat) : Nat := if sum / 65536 = 0 then sum else carry (sum % 65536 + sum / 65536)
termination_by sum

def netChecksum (data : List UInt8) : Nat := 65535 - carry (sum16 data % 2 ^ 32)

/-- The field of zero between `pre` and `post` is overwritten with the checksum, which `ahead` goes
into as well; `forZero` is what is sent for a checksum of zero. -/
def checked (forZero : Nat) (ahead pre post : List UInt8) : List UInt8 :=
  let csum := netChecksum (ahead ++ (pre ++ (be16 0 ++ post)))
  pre ++ (be16 (if csum = 0 then forZero else csum) ++ post)

structure Route where
  resolved : Bool
  id : Nat
  src : Nat
  dst : Nat

def ipv4Send (r : Route) (proto : UInt8) (payload : List UInt8) : Option (List UInt8) :=
  if payload.length > netMtu - 20 ∨ !r.resolved then none
  else some (checked 0 [] ([0x45, 0] ++ be16 (20 + payload.length) ++ be16 r.id ++ [0x40, 0, 64, proto]) (octets r.src ++ octets r.dst) ++ payload)

def pseudo (r : Route) (proto : UInt8) (len : Nat) : List UInt8 := octets r.src ++ octets r.dst ++ [0, proto] ++ be16 len

structure TcpFields where
  localPort : Nat
  remotePort : Nat
  seq : Nat
  rcvNxt : Nat
  flags : UInt8
  rxLen : Nat
  data : List UInt8

def tcpXmit (r : Route) (t : TcpFields) : Option (List UInt8) :=
  let option := if t.flags &&& 2 ≠ 0 then [2, 4] ++ be16 Tcp.mss else []
  let hdr := 20 + option.length
  ipv4Send r protoTcp (checked 0 (pseudo r protoTcp (hdr + t.data.length))
    (be16 t.localPort ++ be16 t.remotePort ++ be32 t.seq ++ be32 t.rcvNxt ++ [.ofNat (hdr / 4 * 16), t.flags] ++
      be16 (min 65535 (Tcp.rxBuf - t.rxLen))) ([0, 0] ++ option ++ t.data))

/-- Zero would say that there is no checksum. -/
def udpOutput (r : Route) (srcPort dstPort : Nat) (data : List UInt8) : Option (List UInt8) :=
  if data.length > netFrameMax - 12 - 8 then none
  else
    let ulen := 8 + data.length
    ipv4Send r protoUdp (checked 0xFFFF (pseudo r protoUdp ulen) (be16 srcPort ++ be16 dstPort ++ be16 ulen) data)

end SecOS.NetSend
