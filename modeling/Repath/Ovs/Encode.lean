import Repath.Dpdk.Headers

/-!
# Encoders of the two vswitchd builds

`cq` and `yy` carry the same encoders and differ in the addresses they write.
Both encoders of a build fill the same headers; they differ in the number added
to the UDP destination port and in the HOPA header.  The UDP checksum and the
three padding bytes of the HOPA header are not written.
-/

namespace Repath.Ovs

inductive Node
  | cq
  | yy
  deriving DecidableEq, Repr

def srcPort : UInt16 := 4444
def dstPort : UInt16 := 8880

def Node.endpoints : Node → Endpoints
  | .cq =>
    { srcMac := 0x08c0ebbfef9b, dstMac := 0x08c0ebbfef83,
      srcIp := ipv4Addr 192 168 201 2, dstIp := ipv4Addr 192 168 201 1 }
  | .yy =>
    { srcMac := 0x08c0ebbfef83, dstMac := 0x08c0ebbfef9b,
      srcIp := ipv4Addr 192 168 201 1, dstIp := ipv4Addr 192 168 201 2 }

/-- `struct hopa_cp_hdr` of `dpif-netdev.h`.  A `rte_be64_t` field is kept as
the number its bytes spell in network order. -/
structure HopaCpHdr where
  flag : UInt8
  cpFlag : UInt8
  probePathId : UInt8
  repathId : UInt8
  rsvd : UInt8
  seq : UInt64
  ack : UInt64
  ts : UInt64
  deriving DecidableEq, Repr

namespace HopaCpHdr

@[simp] def offFlag : Nat := 0
@[simp] def offCpFlag : Nat := 1
@[simp] def offProbePathId : Nat := 2
@[simp] def offRepathId : Nat := 3
@[simp] def offRsvd : Nat := 4
@[simp] def offSeq : Nat := 8
@[simp] def offAck : Nat := 16
@[simp] def offTs : Nat := 24
@[simp] def size : Nat := 32

def ofMem (m : Mem) (off : Nat) : HopaCpHdr :=
  { flag := m.get8 (off + offFlag), cpFlag := m.get8 (off + offCpFlag),
    probePathId := m.get8 (off + offProbePathId), repathId := m.get8 (off + offRepathId),
    rsvd := m.get8 (off + offRsvd), seq := m.get64 (off + offSeq),
    ack := m.get64 (off + offAck), ts := m.get64 (off + offTs) }

end HopaCpHdr

def fillHopaCpHdr (hdr : HopaCpHdr) (hopaCpHdr : Nat) (m : Mem) : Mem :=
  let m := m.put8 (hopaCpHdr + HopaCpHdr.offFlag) hdr.flag
  let m := m.put8 (hopaCpHdr + HopaCpHdr.offCpFlag) hdr.cpFlag
  let m := m.put8 (hopaCpHdr + HopaCpHdr.offProbePathId) hdr.probePathId
  let m := m.put8 (hopaCpHdr + HopaCpHdr.offRepathId) hdr.repathId
  let m := m.put8 (hopaCpHdr + HopaCpHdr.offRsvd) hdr.rsvd
  let m := m.put64 (hopaCpHdr + HopaCpHdr.offSeq) hdr.seq
  let m := m.put64 (hopaCpHdr + HopaCpHdr.offAck) hdr.ack
  m.put64 (hopaCpHdr + HopaCpHdr.offTs) hdr.ts

/-- The common body of the encoders, on the buffer `rte_pktmbuf_alloc` gave. -/
def encodeCpPkt (node : Node) (cksum : RteCksum) (buf : RteMbuf) (portNb : UInt8)
    (hdr : HopaCpHdr) : RteMbuf :=
  let mbuf := rtePktmbufReset buf
  let (ethHdr, mbuf) := rtePktmbufAppend mbuf RteEtherHdr.size
  let mbuf := mbuf.store (fillEthHeader node.endpoints ethHdr)
  let (ipv4Hdr, mbuf) := rtePktmbufAppend mbuf RteIpv4Hdr.size
  let mbuf := mbuf.store (fillIpv4Header cksum node.endpoints 32 ipv4Hdr)
  let (udpHdr, mbuf) := rtePktmbufAppend mbuf RteUdpHdr.size
  let mbuf := mbuf.store (fillUdpPorts srcPort (dstPort + portNb.toUInt16) 32 udpHdr)
  let (hopaCpHdr, mbuf) := rtePktmbufAppend mbuf HopaCpHdr.size
  mbuf.store (fillHopaCpHdr hdr hopaCpHdr)

def probeHdr (pathId : UInt8) (senderTs : UInt64) : HopaCpHdr :=
  { flag := HopaModule.hopaCp.code, cpFlag := HopaCpFlag.probe.code, probePathId := pathId,
    repathId := 0, rsvd := 0, seq := 0, ack := 0, ts := senderTs }

/-- `probe_path_id = 65535` keeps the low byte. -/
def repathHdr (repathId : UInt8) : HopaCpHdr :=
  { flag := HopaModule.hopaCp.code, cpFlag := HopaCpFlag.repath.code,
    probePathId := UInt8.ofNat 65535, repathId := repathId, rsvd := 0, seq := 0, ack := 0,
    ts := 0 }

/-- `alloc` is `none` when `hopa_cp_mp` is null or `rte_pktmbuf_alloc` fails; the
encoder then returns a null pointer.  The result of `clock_gettime` is not
checked, so `clock` is whatever `ts` holds. -/
def encodeProbePkt (node : Node) (cksum : RteCksum) (alloc : Option RteMbuf)
    (clock : Timespec) (pathId : UInt8) : Option RteMbuf :=
  alloc.map fun buf => encodeCpPkt node cksum buf pathId (probeHdr pathId clock.ns)

def encodeRepathPkt (node : Node) (cksum : RteCksum) (alloc : Option RteMbuf)
    (repathId : UInt8) : Option RteMbuf :=
  alloc.map fun buf => encodeCpPkt node cksum buf repathId (repathHdr repathId)

/-- The pointers one round of `hopa_cp_send` hands to the out ring, a null one
where the encoder returned null.  `alloc` and `clock` give what the calls of the
round return.  `cq` probes every path, `yy` always announces path 2. -/
def hopaCpSend (node : Node) (cksum : RteCksum) (alloc : Nat → Option RteMbuf)
    (clock : Nat → Timespec) : List (Option RteMbuf) :=
  match node with
  | .cq => (List.range pathNb).map fun i =>
      encodeProbePkt .cq cksum (alloc i) (clock i) (UInt8.ofNat i)
  | .yy => [encodeRepathPkt .yy cksum (alloc 0) 2]

/-- The header `dp_netdev_recirculate` copies out of a frame. -/
def hdrOf (mbuf : RteMbuf) : HopaCpHdr := HopaCpHdr.ofMem mbuf.data hopaOff

structure IsCpFrame (mbuf : RteMbuf) (hdr : HopaCpHdr) : Prop where
  pktLen : mbuf.pktLen = 74
  dataLen : mbuf.dataLen = 74
  etherType : etherTypeOf mbuf = rteEtherTypeIpv4
  proto : nextProtoIdOf mbuf = ipprotoUdp
  src : srcPortOf mbuf = srcPort
  dgramLen : dgramLenOf mbuf = 40
  hdr : hdrOf mbuf = hdr

theorem isCpFrame_encodeCpPkt (node : Node) (cksum : RteCksum) (buf : RteMbuf) (portNb : UInt8)
    (hdr : HopaCpHdr) : IsCpFrame (encodeCpPkt node cksum buf portNb hdr) hdr := by
  constructor <;>
    simp [encodeCpPkt, etherTypeOf, nextProtoIdOf, srcPortOf, dgramLenOf, hdrOf, HopaCpHdr.ofMem,
      fillEthHeader, fillIpv4Header, fillUdpPorts, fillHopaCpHdr]

end Repath.Ovs
