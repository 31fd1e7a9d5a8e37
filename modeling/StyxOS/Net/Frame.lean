import StyxOS.Library.Bytes

/-! # Frames

The Ethernet frames that `net_proto.c` builds, and the transmit side of the
network card that takes them.
-/

namespace StyxOS

open ByteMem

def be16 (v : UInt16) : List UInt8 := beBytes 2 v.toNat

def be32 (v : UInt32) : List UInt8 := beBytes 4 v.toNat

@[simp] theorem length_be16 (v : UInt16) : (be16 v).length = 2 := length_beBytes 2 _

@[simp] theorem length_be32 (v : UInt32) : (be32 v).length = 4 := length_beBytes 4 _

/-- The sum of the 16-bit words of a packet; an odd byte at the end is the high byte of a word. -/
def wordSum : List UInt8 → UInt32
  | [] => 0
  | [b] => b.toUInt32 <<< 8
  | b :: c :: bs => (b.toUInt32 <<< 8 ||| c.toUInt32) + wordSum bs

/-- One round of the loop that folds the carries of a checksum back. -/
def foldCarry (sum : UInt32) : UInt32 := (sum &&& (0xFFFF : UInt32)) + sum >>> 16

theorem toNat_lowHalf (v : UInt32) : (v &&& (0xFFFF : UInt32)).toNat = v.toNat % 2 ^ 16 := by
  rw [UInt32.toNat_and]
  exact Nat.and_two_pow_sub_one_eq_mod _ 16

theorem toNat_highHalf (v : UInt32) : (v >>> 16).toNat = v.toNat / 2 ^ 16 := by
  rw [UInt32.toNat_shiftRight]
  exact Nat.shiftRight_eq_div_pow _ _

theorem toNat_foldCarry (sum : UInt32) :
    (foldCarry sum).toNat = sum.toNat % 2 ^ 16 + sum.toNat / 2 ^ 16 := by
  have hs := sum.toNat_lt
  rw [foldCarry, UInt32.toNat_add, toNat_lowHalf, toNat_highHalf]
  omega

theorem foldCarry_foldCarry_lt (sum : UInt32) : (foldCarry (foldCarry sum)).toNat < 2 ^ 16 := by
  have hs := sum.toNat_lt
  rw [toNat_foldCarry, toNat_foldCarry]
  omega

/-- The end of a checksum: carries folded back, complemented. -/
def finishChecksum (sum : UInt32) : UInt16 := ~~~ (foldCarry (foldCarry sum)).toUInt16

def ipChecksum (hdr : List UInt8) : UInt16 := finishChecksum (wordSum hdr)

/-- Lengths of `net_proto.h`. -/
def netMaxFrame : ℕ := 1514
def netEthHdrLen : ℕ := 14
def netIpHdrLen : ℕ := 20
def netUdpHdrLen : ℕ := 8
def netTcpHdrLen : ℕ := 20
def netUdpPayloadMax : ℕ := netMaxFrame - netEthHdrLen - netIpHdrLen - netUdpHdrLen
def netTcpPayloadMax : ℕ := netMaxFrame - netEthHdrLen - netIpHdrLen - netTcpHdrLen

def tcpSyn : UInt8 := 0x02
def tcpPsh : UInt8 := 0x08
def tcpAck : UInt8 := 0x10

structure Flow where
  srcMac : List UInt8
  dstMac : List UInt8
  srcIp : UInt32
  dstIp : UInt32
  srcPort : UInt16
  dstPort : UInt16

def ethHeader (f : Flow) : List UInt8 := f.dstMac ++ f.srcMac ++ [0x08, 0x00]

def ipHeader (f : Flow) (id protocol : UInt8) (totalLen : UInt16) : List UInt8 :=
  let hdr (csum : UInt16) :=
    [0x45, 0x00] ++ be16 totalLen ++ [0x00, id, 0x40, 0x00, 64, protocol] ++ be16 csum ++
      be32 f.srcIp ++ be32 f.dstIp
  hdr (ipChecksum (hdr 0))

/-- `net_build_udp`; `none` is its length of zero. -/
def netBuildUdp (f : Flow) (payload : List UInt8) : Option (List UInt8) :=
  if payload.length = 0 ∨ netUdpPayloadMax < payload.length then none
  else
    let udpLen := UInt16.ofNat (netUdpHdrLen + payload.length)
    some (ethHeader f ++
      ipHeader f 0x01 17 (UInt16.ofNat (netIpHdrLen + netUdpHdrLen + payload.length)) ++
      be16 f.srcPort ++ be16 f.dstPort ++ be16 udpLen ++ [0, 0] ++ payload)

/-- The frame that `net_build_tcp` builds once its checks have passed. -/
def tcpFrame (f : Flow) (seqNum ackNum : UInt32) (flags : UInt8) (windowSize : UInt16)
    (payload : List UInt8) : List UInt8 :=
  let tcp (csum : UInt16) :=
    be16 f.srcPort ++ be16 f.dstPort ++ be32 seqNum ++ be32 ackNum ++ [0x50, flags] ++
      be16 windowSize ++ be16 csum ++ [0, 0] ++ payload
  let tcpLen := UInt16.ofNat (netTcpHdrLen + payload.length)
  let sum := wordSum (be32 f.srcIp) + wordSum (be32 f.dstIp) + 6 + tcpLen.toUInt32 +
    wordSum (tcp 0)
  ethHeader f ++ ipHeader f 0x02 6 (UInt16.ofNat (netIpHdrLen + netTcpHdrLen + payload.length)) ++
    tcp (finishChecksum sum)

def e1000BufferSize : ℕ := 2048

/-- The transmit side of the network card: whether it is active, whether the ring has a free
descriptor at each attempt to send, and the frames it took. -/
structure Nic where
  active : Bool
  free : ℕ → Bool
  attempts : ℕ
  sent : List (List UInt8)

def e1000SendPacket (nic : Nic) (data : List UInt8) : Bool × Nic :=
  if !nic.active || data.length = 0 || e1000BufferSize < data.length then (false, nic)
  else
    (nic.free nic.attempts,
      { nic with
        attempts := nic.attempts + 1
        sent := if nic.free nic.attempts then nic.sent ++ [data] else nic.sent })

end StyxOS
