import Repath.Dpdk.Mbuf

/-!
# Ethernet, IPv4 and UDP headers

Field offsets of the three headers and the stores both control planes make into
them.  `hopa_cp.c` and the two vswitchd builds fill the same fields in the same
order, with their own addresses and lengths.
-/

namespace Repath

namespace RteEtherHdr
@[simp] def dAddr : Nat := 0
@[simp] def sAddr : Nat := 6
@[simp] def etherType : Nat := 12
@[simp] def size : Nat := 14
end RteEtherHdr

namespace RteIpv4Hdr
@[simp] def versionIhl : Nat := 0
@[simp] def typeOfService : Nat := 1
@[simp] def totalLength : Nat := 2
@[simp] def packetId : Nat := 4
@[simp] def fragmentOffset : Nat := 6
@[simp] def timeToLive : Nat := 8
@[simp] def nextProtoId : Nat := 9
@[simp] def hdrChecksum : Nat := 10
@[simp] def srcAddr : Nat := 12
@[simp] def dstAddr : Nat := 16
@[simp] def size : Nat := 20
end RteIpv4Hdr

namespace RteUdpHdr
@[simp] def srcPort : Nat := 0
@[simp] def dstPort : Nat := 2
@[simp] def dgramLen : Nat := 4
@[simp] def dgramCksum : Nat := 6
@[simp] def size : Nat := 8
end RteUdpHdr

/-! Where a received frame is read: `rte_pktmbuf_mtod_offset` skips the Ethernet
header, and `ipv4_hdr + 1` and `udp_hdr + 1` skip one header each. -/

@[simp] def ipv4Off : Nat := RteEtherHdr.size
@[simp] def udpOff : Nat := ipv4Off + RteIpv4Hdr.size
@[simp] def hopaOff : Nat := udpOff + RteUdpHdr.size

def rteEtherTypeIpv4 : UInt16 := 0x0800
def ipprotoUdp : UInt8 := 17

def ipv4Addr (a b c d : UInt32) : UInt32 :=
  ((a &&& 0xff) <<< 24) ||| ((b &&& 0xff) <<< 16) ||| ((c &&& 0xff) <<< 8) ||| (d &&& 0xff)

/-- The checksum routines of DPDK, as functions of the memory they are called
on.  The value is the one stored, read in network byte order. -/
structure RteCksum where
  /-- `rte_ipv4_cksum` of the header at an offset. -/
  ipv4 : Mem → Nat → UInt16
  /-- `rte_ipv4_udptcp_cksum` of the IPv4 and UDP headers at two offsets. -/
  ipv4Udptcp : Mem → Nat → Nat → UInt16
  deriving Inhabited

structure Endpoints where
  srcMac : Nat
  dstMac : Nat
  srcIp : UInt32
  dstIp : UInt32
  deriving DecidableEq, Repr

def fillEthHeader (ends : Endpoints) (ethHdr : Nat) (m : Mem) : Mem :=
  let m := m.putN 6 (ethHdr + RteEtherHdr.sAddr) ends.srcMac
  let m := m.putN 6 (ethHdr + RteEtherHdr.dAddr) ends.dstMac
  m.put16 (ethHdr + RteEtherHdr.etherType) rteEtherTypeIpv4

/-- `payload` is the size of the HOPA header the packet carries. -/
def fillIpv4Header (cksum : RteCksum) (ends : Endpoints) (payload : UInt16) (ipv4Hdr : Nat)
    (m : Mem) : Mem :=
  let m := m.put8 (ipv4Hdr + RteIpv4Hdr.versionIhl) (((4 : UInt8) <<< 4) + 5)
  let m := m.put8 (ipv4Hdr + RteIpv4Hdr.typeOfService) 0
  let m := m.put16 (ipv4Hdr + RteIpv4Hdr.totalLength) (20 + 8 + payload)
  let m := m.put16 (ipv4Hdr + RteIpv4Hdr.packetId) 5462
  let m := m.put16 (ipv4Hdr + RteIpv4Hdr.fragmentOffset) 0
  let m := m.put8 (ipv4Hdr + RteIpv4Hdr.timeToLive) 64
  let m := m.put8 (ipv4Hdr + RteIpv4Hdr.nextProtoId) ipprotoUdp
  let m := m.put32 (ipv4Hdr + RteIpv4Hdr.srcAddr) ends.srcIp
  let m := m.put32 (ipv4Hdr + RteIpv4Hdr.dstAddr) ends.dstIp
  -- the sum runs over the header as it stands, old checksum bytes included
  m.put16 (ipv4Hdr + RteIpv4Hdr.hdrChecksum) (cksum.ipv4 m ipv4Hdr)

def fillUdpPorts (srcPort dstPort payload : UInt16) (udpHdr : Nat) (m : Mem) : Mem :=
  let m := m.put16 (udpHdr + RteUdpHdr.srcPort) srcPort
  let m := m.put16 (udpHdr + RteUdpHdr.dstPort) dstPort
  m.put16 (udpHdr + RteUdpHdr.dgramLen) (8 + payload)

/-! ### Fields of a received frame -/

def etherTypeOf (m : RteMbuf) : UInt16 := m.data.get16 RteEtherHdr.etherType
def nextProtoIdOf (m : RteMbuf) : UInt8 := m.data.get8 (ipv4Off + RteIpv4Hdr.nextProtoId)
def srcPortOf (m : RteMbuf) : UInt16 := m.data.get16 (udpOff + RteUdpHdr.srcPort)
def dstPortOf (m : RteMbuf) : UInt16 := m.data.get16 (udpOff + RteUdpHdr.dstPort)
def dgramLenOf (m : RteMbuf) : UInt16 := m.data.get16 (udpOff + RteUdpHdr.dgramLen)

/-! ### Message kinds, shared by both programs -/

inductive HopaModule
  | hopaCp
  | hopaDp
  deriving DecidableEq, Repr

def HopaModule.code : HopaModule → UInt8
  | .hopaCp => 0
  | .hopaDp => 1

inductive HopaCpFlag
  | probe
  | repath
  | repathAck
  deriving DecidableEq, Repr

def HopaCpFlag.code : HopaCpFlag → UInt8
  | .probe => 0
  | .repath => 1
  | .repathAck => 2

/-- The case of `switch (cp_flag)` a byte selects, `none` being `default`. -/
def HopaCpFlag.ofCode (b : UInt8) : Option HopaCpFlag :=
  if b = HopaCpFlag.probe.code then some .probe
  else if b = HopaCpFlag.repath.code then some .repath
  else if b = HopaCpFlag.repathAck.code then some .repathAck
  else none

@[simp] theorem HopaCpFlag.ofCode_code (f : HopaCpFlag) : HopaCpFlag.ofCode f.code = some f := by
  cases f <;> rfl

abbrev pathNb : Nat := 4

/-- A path by its index in the delay table. -/
abbrev PathId := Fin pathNb

end Repath
