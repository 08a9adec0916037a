import Repath.HopaCp.Encode
import Repath.Lib.OnesComplement
import Repath.Ovs.Encode

/-!
# IPv4 header checksums

All encoders of both programs store the checksum of the header as it stands, and
none clears the checksum field first.  What the field held in the buffer's last
use is counted in, so the header a recycled buffer carries is valid only when
that was a zero of one's-complement arithmetic.
-/

namespace Repath

/-- The ten words of the IPv4 header at an offset. -/
def ipv4Words (m : Mem) (ipv4Hdr : Nat) : List Nat :=
  (List.range 10).map fun i => (m.get16 (ipv4Hdr + 2 * i)).toNat

/-- `rte_ipv4_cksum` is the complement of the sum of the twenty bytes. -/
def ComplementsSum (cksum : RteCksum) : Prop :=
  ∀ m ipv4Hdr, (cksum.ipv4 m ipv4Hdr).toNat = 65535 - OnesComplement.sum (ipv4Words m ipv4Hdr)

def ValidIpv4Cksum (mbuf : RteMbuf) : Prop :=
  OnesComplement.sum (ipv4Words mbuf.data ipv4Off) = 0xFFFF

/-- The bytes where the checksum field will lie held a zero. -/
def NeutralField (buf : RteMbuf) : Prop :=
  buf.data.get16 (ipv4Off + RteIpv4Hdr.hdrChecksum) = 0 ∨
    buf.data.get16 (ipv4Off + RteIpv4Hdr.hdrChecksum) = 0xFFFF

theorem le_of_mem_ipv4Words {m : Mem} {ipv4Hdr : Nat} {is : List Nat} :
    ∀ w ∈ is.map fun i => (m.get16 (ipv4Hdr + 2 * i)).toNat, w ≤ 65535 := by
  intro w hw
  obtain ⟨i, -, rfl⟩ := List.mem_map.mp hw
  exact Nat.le_of_lt_succ (UInt16.toNat_lt _)

theorem ipv4Words_split (m : Mem) (ipv4Hdr : Nat) :
    ipv4Words m ipv4Hdr = [0, 1, 2, 3, 4].map (fun i => (m.get16 (ipv4Hdr + 2 * i)).toNat) ++
      (m.get16 (ipv4Hdr + RteIpv4Hdr.hdrChecksum)).toNat ::
        [6, 7, 8, 9].map fun i => (m.get16 (ipv4Hdr + 2 * i)).toNat := rfl

/-- Storing the checksum leaves the other nine words alone. -/
theorem ipv4Words_put16 (m : Mem) (ipv4Hdr : Nat) (c : UInt16) :
    ipv4Words (m.put16 (ipv4Hdr + RteIpv4Hdr.hdrChecksum) c) ipv4Hdr =
      [0, 1, 2, 3, 4].map (fun i => (m.get16 (ipv4Hdr + 2 * i)).toNat) ++
        c.toNat :: [6, 7, 8, 9].map fun i => (m.get16 (ipv4Hdr + 2 * i)).toNat := by
  rw [ipv4Words_split, Mem.get16_put16]
  simp (disch := omega) [Mem.get16_putN_of_disjoint]

/-- A checksum stored over a header whose identification is not 0. -/
theorem sum_put16_iff {cksum : RteCksum} (h : ComplementsSum cksum) {m : Mem} {ipv4Hdr : Nat}
    (hpos : m.get16 (ipv4Hdr + RteIpv4Hdr.packetId) ≠ 0) :
    OnesComplement.sum (ipv4Words
        (m.put16 (ipv4Hdr + RteIpv4Hdr.hdrChecksum) (cksum.ipv4 m ipv4Hdr)) ipv4Hdr) = 0xFFFF ↔
      m.get16 (ipv4Hdr + RteIpv4Hdr.hdrChecksum) = 0 ∨
        m.get16 (ipv4Hdr + RteIpv4Hdr.hdrChecksum) = 0xFFFF := by
  have hword : 0 < (m.get16 (ipv4Hdr + 2 * 2)).toNat :=
    Nat.pos_of_ne_zero fun he => hpos (UInt16.toNat_inj.mp he)
  have hrest : 0 < ([0, 1, 2, 3, 4].map fun i => (m.get16 (ipv4Hdr + 2 * i)).toNat).sum +
      ([6, 7, 8, 9].map fun i => (m.get16 (ipv4Hdr + 2 * i)).toNat).sum := by
    simp only [List.map_cons, List.map_nil, List.sum_cons]
    omega
  have hc := h m ipv4Hdr
  rw [ipv4Words_split] at hc
  rw [ipv4Words_put16, OnesComplement.sum_stored_iff le_of_mem_ipv4Words le_of_mem_ipv4Words
    (Nat.le_of_lt_succ (UInt16.toNat_lt _)) hrest hc]
  rw [← UInt16.toNat_inj, ← UInt16.toNat_inj]
  rfl

theorem sum_fillIpv4Header_iff {cksum : RteCksum} (h : ComplementsSum cksum) (ends : Endpoints)
    (payload : UInt16) (ipv4Hdr : Nat) (m : Mem) :
    OnesComplement.sum (ipv4Words (fillIpv4Header cksum ends payload ipv4Hdr m) ipv4Hdr) =
        0xFFFF ↔
      m.get16 (ipv4Hdr + RteIpv4Hdr.hdrChecksum) = 0 ∨
        m.get16 (ipv4Hdr + RteIpv4Hdr.hdrChecksum) = 0xFFFF := by
  rw [fillIpv4Header, sum_put16_iff h]
  · simp (disch := omega) [Mem.get16_putN_of_disjoint]
  · simp (disch := omega) [Mem.get16_putN_of_disjoint]

/-- A frame is valid exactly when its IPv4 header was filled in over a neutral
checksum field. -/
theorem validIpv4Cksum_iff {cksum : RteCksum} (h : ComplementsSum cksum) (ends : Endpoints)
    (payload : UInt16) {buf mbuf : RteMbuf}
    (hwords : ∀ i < 10, mbuf.data.get16 (14 + 2 * i) =
      (fillIpv4Header cksum ends payload 14 (fillEthHeader ends 0 buf.data)).get16 (14 + 2 * i)) :
    ValidIpv4Cksum mbuf ↔ NeutralField buf := by
  have hsame : ipv4Words mbuf.data ipv4Off = ipv4Words
      (fillIpv4Header cksum ends payload 14 (fillEthHeader ends 0 buf.data)) 14 :=
    List.map_congr_left fun i hi => congrArg UInt16.toNat (hwords i (List.mem_range.mp hi))
  rw [ValidIpv4Cksum, hsame, sum_fillIpv4Header_iff h, NeutralField]
  simp [fillEthHeader]

/-! ### The encoders -/

theorem validIpv4Cksum_encodeUdpPkt {cksum : RteCksum} (h : ComplementsSum cksum)
    {buf mbuf : RteMbuf} {dstPort : UInt16}
    (hok : HopaCp.encodeUdpPkt cksum (some buf) dstPort = .ok mbuf) :
    ValidIpv4Cksum mbuf ↔ NeutralField buf := by
  obtain rfl := Except.ok.inj hok
  refine validIpv4Cksum_iff h HopaCp.endpoints 48 fun i hi => ?_
  simp (disch := omega) [fillUdpPorts, Mem.get16_putN_of_disjoint]

theorem validIpv4Cksum_encodeCpPkt {cksum : RteCksum} (h : ComplementsSum cksum)
    (node : Ovs.Node) (buf : RteMbuf) (portNb : UInt8) (hdr : Ovs.HopaCpHdr) :
    ValidIpv4Cksum (Ovs.encodeCpPkt node cksum buf portNb hdr) ↔ NeutralField buf := by
  refine validIpv4Cksum_iff h node.endpoints 32 fun i hi => ?_
  simp (disch := omega) [Ovs.encodeCpPkt, fillUdpPorts, Ovs.fillHopaCpHdr,
    Mem.get16_putN_of_disjoint]

theorem validIpv4Cksum_store (mbuf : RteMbuf) {f : Mem → Mem}
    (hf : ∀ m off, off + 2 ≤ 42 → (f m).get16 off = m.get16 off) :
    ValidIpv4Cksum (mbuf.store f) ↔ ValidIpv4Cksum mbuf := by
  have hsame : ipv4Words (f mbuf.data) ipv4Off = ipv4Words mbuf.data ipv4Off := by
    refine List.map_congr_left fun i hi => ?_
    have hi' := List.mem_range.mp hi
    rw [hf _ _ (by simp only [ipv4Off, RteEtherHdr.size]; omega)]
  rw [ValidIpv4Cksum, ValidIpv4Cksum, data_store, hsame]

theorem dataLen_encodeUdpPkt {cksum : RteCksum} {buf udp : RteMbuf} {dstPort : UInt16}
    (hok : HopaCp.encodeUdpPkt cksum (some buf) dstPort = .ok udp) : udp.dataLen = 42 := by
  obtain rfl := Except.ok.inj hok
  rfl

/-- The HOPA header that `hopa_cp.c` appends lies behind the IPv4 header. -/
theorem validIpv4Cksum_fillHopaCpHdr {cksum : RteCksum} (h : ComplementsSum cksum)
    {buf udp : RteMbuf} {dstPort : UInt16}
    (hok : HopaCp.encodeUdpPkt cksum (some buf) dstPort = .ok udp) (cpFlag : HopaCpFlag)
    (repathId : UInt8) :
    ValidIpv4Cksum ((rtePktmbufAppend udp HopaCp.HopaCpHdr.size).2.store
      (HopaCp.fillHopaCpHdr cpFlag repathId udp.dataLen)) ↔ NeutralField buf := by
  have hlen := dataLen_encodeUdpPkt hok
  rw [validIpv4Cksum_store]
  · show ValidIpv4Cksum udp ↔ NeutralField buf
    exact validIpv4Cksum_encodeUdpPkt h hok
  · intro m off hoff
    simp (disch := omega) [hlen, HopaCp.fillHopaCpHdr, Mem.get16_putN_of_disjoint]

/-- Every encoder of the two programs gives a valid header checksum exactly when the
buffer's last use left a zero in the checksum field. -/
theorem encoders_checksum_iff {cksum : RteCksum} (h : ComplementsSum cksum) (buf : RteMbuf) :
    (∀ dstPort, ∃ mbuf, HopaCp.encodeUdpPkt cksum (some buf) dstPort = .ok mbuf ∧
      (ValidIpv4Cksum mbuf ↔ NeutralField buf)) ∧
    (∀ clock pathId, ∃ mbuf,
      HopaCp.encodeProbePkt cksum (some buf) (some clock) pathId = .ok mbuf ∧
      (ValidIpv4Cksum mbuf ↔ NeutralField buf)) ∧
    (∀ optPathId repathId, ∃ mbuf,
      HopaCp.encodeRepathPkt cksum (some buf) optPathId repathId = .ok mbuf ∧
      (ValidIpv4Cksum mbuf ↔ NeutralField buf)) ∧
    (∀ optPathId, ∃ mbuf, HopaCp.encodeRepathAckPkt cksum (some buf) optPathId = .ok mbuf ∧
      (ValidIpv4Cksum mbuf ↔ NeutralField buf)) ∧
    (∀ node clock pathId, ∃ mbuf,
      Ovs.encodeProbePkt node cksum (some buf) clock pathId = some mbuf ∧
      (ValidIpv4Cksum mbuf ↔ NeutralField buf)) ∧
    (∀ node repathId, ∃ mbuf, Ovs.encodeRepathPkt node cksum (some buf) repathId = some mbuf ∧
      (ValidIpv4Cksum mbuf ↔ NeutralField buf)) := by
  have hudp : ∀ dstPort, ∃ udp, HopaCp.encodeUdpPkt cksum (some buf) dstPort = .ok udp :=
    fun _ => ⟨_, rfl⟩
  refine ⟨fun dstPort => ?_, fun clock pathId => ?_, fun optPathId repathId => ?_,
    fun optPathId => ?_, fun node clock pathId => ?_, fun node repathId => ?_⟩
  · obtain ⟨udp, hok⟩ := hudp dstPort
    exact ⟨udp, hok, validIpv4Cksum_encodeUdpPkt h hok⟩
  · obtain ⟨udp, hok⟩ := hudp (HopaCp.dstPortPath1 - 1 + pathId.toUInt16)
    have hlen := dataLen_encodeUdpPkt hok
    have hfill := validIpv4Cksum_fillHopaCpHdr h hok .probe 0
    rw [HopaCp.encodeProbePkt, hok]
    refine ⟨_, rfl, (validIpv4Cksum_store _ fun m off hoff => ?_).trans hfill⟩
    simp (disch := omega) [hlen, Mem.get16_putN_of_disjoint]
  · obtain ⟨udp, hok⟩ := hudp (HopaCp.dstPortPath1 - 1 + optPathId.toUInt16)
    rw [HopaCp.encodeRepathPkt, hok]
    exact ⟨_, rfl, validIpv4Cksum_fillHopaCpHdr h hok .repath repathId⟩
  · obtain ⟨udp, hok⟩ := hudp (HopaCp.dstPortPath1 - 1 + optPathId.toUInt16)
    rw [HopaCp.encodeRepathAckPkt, hok]
    exact ⟨_, rfl, validIpv4Cksum_fillHopaCpHdr h hok .repathAck 0⟩
  · exact ⟨_, rfl, validIpv4Cksum_encodeCpPkt h node buf pathId _⟩
  · exact ⟨_, rfl, validIpv4Cksum_encodeCpPkt h node buf repathId _⟩

/-! ### A fresh and a recycled buffer -/

/-- The routine of DPDK; no UDP checksum is looked at here. -/
def complementCksum : RteCksum :=
  { ipv4 := fun m ipv4Hdr => UInt16.ofNat (65535 - OnesComplement.sum (ipv4Words m ipv4Hdr)),
    ipv4Udptcp := fun _ _ _ => 0 }

theorem complementsSum_complementCksum : ComplementsSum complementCksum := by
  intro m ipv4Hdr
  show (UInt16.ofNat _).toNat = _
  rw [UInt16.toNat_ofNat']
  exact Nat.mod_eq_of_lt (by omega)

theorem encoders_checksum_fresh : NeutralField zeroBuf ∧
    ∃ mbuf, HopaCp.encodeUdpPkt complementCksum (some zeroBuf) 5678 = .ok mbuf ∧
      ValidIpv4Cksum mbuf := by
  have hfresh : NeutralField zeroBuf := Or.inl rfl
  obtain ⟨hudp, -⟩ := encoders_checksum_iff complementsSum_complementCksum zeroBuf
  obtain ⟨mbuf, hok, hvalid⟩ := hudp 5678
  exact ⟨hfresh, mbuf, hok, hvalid.mpr hfresh⟩

/-- A buffer all of whose bytes were 1. -/
def onesBuf : RteMbuf := { zeroBuf with data := fun _ => 1 }

theorem not_neutralField_onesBuf : ¬ NeutralField onesBuf := by
  intro h
  rcases h with h | h
  · exact absurd h (by decide)
  · exact absurd h (by decide)

/-- In a buffer full of ones every encoder leaves an invalid checksum. -/
theorem not_valid_recycled :
    (∃ mbuf, HopaCp.encodeUdpPkt complementCksum (some onesBuf) 5678 = .ok mbuf ∧
      ¬ ValidIpv4Cksum mbuf) ∧
    (∃ mbuf, Ovs.encodeProbePkt .cq complementCksum (some onesBuf) ⟨0, 0⟩ 0 = some mbuf ∧
      ¬ ValidIpv4Cksum mbuf) ∧
    (∃ mbuf, Ovs.encodeRepathPkt .yy complementCksum (some onesBuf) 2 = some mbuf ∧
      ¬ ValidIpv4Cksum mbuf) := by
  have hC := complementsSum_complementCksum
  have hudp : ∃ udp, HopaCp.encodeUdpPkt complementCksum (some onesBuf) 5678 = .ok udp := ⟨_, rfl⟩
  obtain ⟨udp, hok⟩ := hudp
  refine ⟨⟨udp, hok, fun h => ?_⟩, ⟨_, rfl, fun h => ?_⟩, ⟨_, rfl, fun h => ?_⟩⟩
  · exact not_neutralField_onesBuf ((validIpv4Cksum_encodeUdpPkt hC hok).mp h)
  · exact not_neutralField_onesBuf ((validIpv4Cksum_encodeCpPkt hC .cq onesBuf 0 _).mp h)
  · exact not_neutralField_onesBuf ((validIpv4Cksum_encodeCpPkt hC .yy onesBuf 2 _).mp h)

end Repath
