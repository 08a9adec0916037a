import Repath.Dpdk.Headers

/-!
# Encoders of `hopa_cp.c`

Every packet starts as the UDP packet of `encode_udp_pkt` and gets the HOPA
header appended, field by field.  Header fields an encoder does not assign keep
what the buffer held.
-/

namespace Repath.HopaCp

def srcPort : UInt16 := 1234
def dstPortPath1 : UInt16 := 5678

def endpoints : Endpoints :=
  { srcMac := 0x08c0ebbfef9a, dstMac := 0x08c0ebbfef82,
    srcIp := ipv4Addr 192 168 200 2, dstIp := ipv4Addr 192 168 200 1 }

/-! `struct hopa_cp_hdr` of `hopa_cp.h`: the fields lie at these offsets, with
alignment padding before `ts`, `seq` and after `rsvd`. -/

namespace HopaCpHdr
@[simp] def offFlag : Nat := 0
@[simp] def offCpFlag : Nat := 1
@[simp] def offTs : Nat := 8
@[simp] def offRepathId : Nat := 16
@[simp] def offSeq : Nat := 24
@[simp] def offAck : Nat := 32
@[simp] def offRsvd : Nat := 40
@[simp] def size : Nat := 48
end HopaCpHdr

/-- `alloc` is the buffer `rte_pktmbuf_alloc` takes from `mbuf_pool`, or `none`
when it fails.  `main` does not get past a null `mbuf_pool`. -/
def encodeUdpPkt (cksum : RteCksum) (alloc : Option RteMbuf) (dstPort : UInt16) :
    Except Stop RteMbuf :=
  match alloc with
  | none => .error .rteExit
  | some buf =>
    let mbuf := rtePktmbufReset buf
    let (ethHdr, mbuf) := rtePktmbufAppend mbuf RteEtherHdr.size
    let mbuf := mbuf.store (fillEthHeader endpoints ethHdr)
    let (ipv4Hdr, mbuf) := rtePktmbufAppend mbuf RteIpv4Hdr.size
    let mbuf := mbuf.store (fillIpv4Header cksum endpoints 48 ipv4Hdr)
    let (udpHdr, mbuf) := rtePktmbufAppend mbuf RteUdpHdr.size
    let mbuf := mbuf.store fun m =>
      let m := fillUdpPorts srcPort dstPort 48 udpHdr m
      m.put16 (udpHdr + RteUdpHdr.dgramCksum) (cksum.ipv4Udptcp m ipv4Hdr udpHdr)
    .ok mbuf

/-- The stores all three encoders make into the appended HOPA header. -/
def fillHopaCpHdr (cpFlag : HopaCpFlag) (repathId : UInt8) (hopaCpHdr : Nat) (m : Mem) : Mem :=
  let m := m.put8 (hopaCpHdr + HopaCpHdr.offFlag) HopaModule.hopaCp.code
  let m := m.put8 (hopaCpHdr + HopaCpHdr.offCpFlag) cpFlag.code
  let m := m.put8 (hopaCpHdr + HopaCpHdr.offRsvd) 0
  let m := m.put8 (hopaCpHdr + HopaCpHdr.offRepathId) repathId
  let m := m.put64 (hopaCpHdr + HopaCpHdr.offSeq) 0
  m.put64 (hopaCpHdr + HopaCpHdr.offAck) 0

/-- `clock` is the result of `clock_gettime`, `none` when it fails. -/
def encodeProbePkt (cksum : RteCksum) (alloc : Option RteMbuf) (clock : Option Timespec)
    (pathId : UInt8) : Except Stop RteMbuf := do
  let mbuf ← encodeUdpPkt cksum alloc (dstPortPath1 - 1 + pathId.toUInt16)
  let (hopaCpHdr, mbuf) := rtePktmbufAppend mbuf HopaCpHdr.size
  let mbuf := mbuf.store (fillHopaCpHdr .probe 0 hopaCpHdr)
  match clock with
  | none => .error .rteExit
  | some ts => .ok (mbuf.store fun m => m.put64 (hopaCpHdr + HopaCpHdr.offTs) ts.ns)

def encodeRepathPkt (cksum : RteCksum) (alloc : Option RteMbuf) (optPathId repathId : UInt8) :
    Except Stop RteMbuf := do
  let mbuf ← encodeUdpPkt cksum alloc (dstPortPath1 - 1 + optPathId.toUInt16)
  let (hopaCpHdr, mbuf) := rtePktmbufAppend mbuf HopaCpHdr.size
  .ok (mbuf.store (fillHopaCpHdr .repath repathId hopaCpHdr))

def encodeRepathAckPkt (cksum : RteCksum) (alloc : Option RteMbuf) (optPathId : UInt8) :
    Except Stop RteMbuf := do
  let mbuf ← encodeUdpPkt cksum alloc (dstPortPath1 - 1 + optPathId.toUInt16)
  let (hopaCpHdr, mbuf) := rtePktmbufAppend mbuf HopaCpHdr.size
  .ok (mbuf.store (fillHopaCpHdr .repathAck 0 hopaCpHdr))

/-! ### Fields of a received HOPA header -/

def flagOf (mbuf : RteMbuf) : UInt8 := mbuf.data.get8 (hopaOff + HopaCpHdr.offFlag)
def cpFlagOf (mbuf : RteMbuf) : UInt8 := mbuf.data.get8 (hopaOff + HopaCpHdr.offCpFlag)
def tsOf (mbuf : RteMbuf) : UInt64 := mbuf.data.get64 (hopaOff + HopaCpHdr.offTs)
def repathIdOf (mbuf : RteMbuf) : UInt8 := mbuf.data.get8 (hopaOff + HopaCpHdr.offRepathId)

/-! ### What the encoders build -/

/-- The frame of a control packet of kind `cpFlag` sent to `dstPort`. -/
structure IsCpFrame (mbuf : RteMbuf) (dstPort : UInt16) (cpFlag : HopaCpFlag)
    (repathId : UInt8) : Prop where
  pktLen : mbuf.pktLen = 90
  dataLen : mbuf.dataLen = 90
  etherType : etherTypeOf mbuf = rteEtherTypeIpv4
  proto : nextProtoIdOf mbuf = ipprotoUdp
  src : srcPortOf mbuf = srcPort
  dst : dstPortOf mbuf = dstPort
  flag : flagOf mbuf = HopaModule.hopaCp.code
  cpFlag : cpFlagOf mbuf = cpFlag.code
  repath : repathIdOf mbuf = repathId

theorem isCpFrame_fill {cksum : RteCksum} {alloc : Option RteMbuf} {dstPort : UInt16}
    {mbuf : RteMbuf} (h : encodeUdpPkt cksum alloc dstPort = .ok mbuf)
    (cpFlag : HopaCpFlag) (repathId : UInt8) :
    IsCpFrame ((rtePktmbufAppend mbuf HopaCpHdr.size).2.store
      (fillHopaCpHdr cpFlag repathId mbuf.dataLen)) dstPort cpFlag repathId := by
  cases alloc with
  | none => cases h
  | some buf =>
      obtain rfl := Except.ok.inj h
      constructor <;>
        simp [etherTypeOf, nextProtoIdOf, srcPortOf, dstPortOf, flagOf, cpFlagOf, repathIdOf,
          fillEthHeader, fillIpv4Header, fillUdpPorts, fillHopaCpHdr]

theorem IsCpFrame.store_ts {mbuf : RteMbuf} {dstPort : UInt16} {cpFlag : HopaCpFlag}
    {repathId : UInt8} (h : IsCpFrame mbuf dstPort cpFlag repathId) (ts : UInt64) :
    IsCpFrame (mbuf.store fun m => m.put64 (hopaOff + HopaCpHdr.offTs) ts)
      dstPort cpFlag repathId := by
  obtain ⟨hpkt, hdata, heth, hproto, hsrc, hdst, hflag, hcp, hrep⟩ := h
  simp only [etherTypeOf, nextProtoIdOf, srcPortOf, dstPortOf, flagOf, cpFlagOf,
    repathIdOf] at heth hproto hsrc hdst hflag hcp hrep
  constructor <;>
    simp_all [etherTypeOf, nextProtoIdOf, srcPortOf, dstPortOf, flagOf, cpFlagOf, repathIdOf]

theorem encodeProbePkt_ok {cksum : RteCksum} {alloc : Option RteMbuf}
    {clock : Option Timespec} {pathId : UInt8} {mbuf : RteMbuf}
    (h : encodeProbePkt cksum alloc clock pathId = .ok mbuf) :
    ∃ ts, clock = some ts ∧ tsOf mbuf = ts.ns ∧
      IsCpFrame mbuf (dstPortPath1 - 1 + pathId.toUInt16) .probe 0 := by
  rw [encodeProbePkt] at h
  cases hudp : encodeUdpPkt cksum alloc (dstPortPath1 - 1 + pathId.toUInt16) with
  | error e => rw [hudp] at h; cases h
  | ok udp =>
      rw [hudp] at h
      cases clock with
      | none => cases h
      | some ts =>
          obtain rfl := Except.ok.inj h
          have hframe := isCpFrame_fill hudp .probe 0
          have hlen : udp.dataLen = 42 := by
            have := hframe.dataLen
            simpa using this
          refine ⟨ts, rfl, ?_, ?_⟩
          · simp [tsOf, hlen]
          · have hoff : hopaOff + HopaCpHdr.offTs = udp.dataLen + HopaCpHdr.offTs := by
              simp [hlen]
            have hstore := hframe.store_ts ts.ns
            rw [hoff] at hstore
            exact hstore

theorem encodeRepathPkt_ok {cksum : RteCksum} {alloc : Option RteMbuf}
    {optPathId repathId : UInt8} {mbuf : RteMbuf}
    (h : encodeRepathPkt cksum alloc optPathId repathId = .ok mbuf) :
    IsCpFrame mbuf (dstPortPath1 - 1 + optPathId.toUInt16) .repath repathId := by
  rw [encodeRepathPkt] at h
  cases hudp : encodeUdpPkt cksum alloc (dstPortPath1 - 1 + optPathId.toUInt16) with
  | error e => rw [hudp] at h; cases h
  | ok udp =>
      rw [hudp] at h
      obtain rfl := Except.ok.inj h
      exact isCpFrame_fill hudp .repath repathId

theorem encodeRepathAckPkt_ok {cksum : RteCksum} {alloc : Option RteMbuf}
    {optPathId : UInt8} {mbuf : RteMbuf}
    (h : encodeRepathAckPkt cksum alloc optPathId = .ok mbuf) :
    IsCpFrame mbuf (dstPortPath1 - 1 + optPathId.toUInt16) .repathAck 0 := by
  rw [encodeRepathAckPkt] at h
  cases hudp : encodeUdpPkt cksum alloc (dstPortPath1 - 1 + optPathId.toUInt16) with
  | error e => rw [hudp] at h; cases h
  | ok udp =>
      rw [hudp] at h
      obtain rfl := Except.ok.inj h
      exact isCpFrame_fill hudp .repathAck 0

end Repath.HopaCp
