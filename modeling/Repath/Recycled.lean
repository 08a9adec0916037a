import Repath.UdpChecksum

/-!
# What a recycled buffer leaves in a frame

Two buffers that get the same packet written give frames that agree on every byte that
is written from the arguments alone.  The rest are the bytes nobody writes, and the
checksums, which count in what their own fields and the HOPA header held.
-/

namespace Repath

/-- The frames are byte for byte equal. -/
def SameFrame (mbuf mbuf' : RteMbuf) : Prop :=
  mbuf.dataLen = mbuf'.dataLen ∧ Set.EqOn mbuf.data mbuf'.data (Set.Iio mbuf.dataLen)

/-- The IPv4 header that is summed up. -/
def fillIpv4Fields (ends : Endpoints) (payload : UInt16) (ipv4Hdr : Nat) (m : Mem) : Mem :=
  let m := m.put8 (ipv4Hdr + RteIpv4Hdr.versionIhl) (((4 : UInt8) <<< 4) + 5)
  let m := m.put8 (ipv4Hdr + RteIpv4Hdr.typeOfService) 0
  let m := m.put16 (ipv4Hdr + RteIpv4Hdr.totalLength) (20 + 8 + payload)
  let m := m.put16 (ipv4Hdr + RteIpv4Hdr.packetId) 5462
  let m := m.put16 (ipv4Hdr + RteIpv4Hdr.fragmentOffset) 0
  let m := m.put8 (ipv4Hdr + RteIpv4Hdr.timeToLive) 64
  let m := m.put8 (ipv4Hdr + RteIpv4Hdr.nextProtoId) ipprotoUdp
  let m := m.put32 (ipv4Hdr + RteIpv4Hdr.srcAddr) ends.srcIp
  m.put32 (ipv4Hdr + RteIpv4Hdr.dstAddr) ends.dstIp

theorem fillIpv4Header_eq (cksum : RteCksum) (ends : Endpoints) (payload : UInt16)
    (ipv4Hdr : Nat) (m : Mem) : fillIpv4Header cksum ends payload ipv4Hdr m =
      (fillIpv4Fields ends payload ipv4Hdr m).put16 (ipv4Hdr + RteIpv4Hdr.hdrChecksum)
        (cksum.ipv4 (fillIpv4Fields ends payload ipv4Hdr m) ipv4Hdr) := rfl

section Headers

variable {m m' : Mem} {s : Set Nat} (ends : Endpoints) (payload : UInt16)

theorem eqOn_fillEthHeader_iff : Set.EqOn (fillEthHeader ends 0 m) (fillEthHeader ends 0 m') s ↔
    Set.EqOn m m' (s \ Set.Ico 0 14) := by
  have hcover : Set.Ico 12 14 ∪ Set.Ico 0 6 ∪ Set.Ico 6 12 = Set.Ico 0 14 := by
    ext i
    simp only [Set.mem_union, Set.mem_Ico]
    omega
  rw [fillEthHeader, fillEthHeader]
  simp only [Mem.eqOn_putN_iff, Set.sdiff_sdiff, RteEtherHdr.sAddr, RteEtherHdr.dAddr,
    RteEtherHdr.etherType, Nat.add_zero, Nat.reduceAdd, hcover]

theorem eqOn_fillIpv4Fields_iff :
    Set.EqOn (fillIpv4Fields ends payload 14 m) (fillIpv4Fields ends payload 14 m') s ↔
      Set.EqOn m m' (s \ (Set.Ico 14 24 ∪ Set.Ico 26 34)) := by
  have hcover : Set.Ico 30 34 ∪ Set.Ico 26 30 ∪ Set.Ico 23 24 ∪ Set.Ico 22 23 ∪ Set.Ico 20 22 ∪
      Set.Ico 18 20 ∪ Set.Ico 16 18 ∪ Set.Ico 15 16 ∪ Set.Ico 14 15 =
        Set.Ico 14 24 ∪ Set.Ico 26 34 := by
    ext i
    simp only [Set.mem_union, Set.mem_Ico]
    omega
  rw [fillIpv4Fields, fillIpv4Fields]
  simp only [Mem.eqOn_putN_iff, Set.sdiff_sdiff, RteIpv4Hdr.versionIhl, RteIpv4Hdr.typeOfService,
    RteIpv4Hdr.totalLength, RteIpv4Hdr.packetId, RteIpv4Hdr.fragmentOffset, RteIpv4Hdr.timeToLive,
    RteIpv4Hdr.nextProtoId, RteIpv4Hdr.srcAddr, RteIpv4Hdr.dstAddr, Nat.add_zero, Nat.reduceAdd,
    hcover]

theorem eqOn_fillUdpPorts_iff (srcPort dstPort : UInt16) :
    Set.EqOn (fillUdpPorts srcPort dstPort payload 34 m)
        (fillUdpPorts srcPort dstPort payload 34 m') s ↔ Set.EqOn m m' (s \ Set.Ico 34 40) := by
  have hcover : Set.Ico 38 40 ∪ Set.Ico 36 38 ∪ Set.Ico 34 36 = Set.Ico 34 40 := by
    ext i
    simp only [Set.mem_union, Set.mem_Ico]
    omega
  rw [fillUdpPorts, fillUdpPorts]
  simp only [Mem.eqOn_putN_iff, Set.sdiff_sdiff, RteUdpHdr.srcPort, RteUdpHdr.dstPort,
    RteUdpHdr.dgramLen, Nat.add_zero, Nat.reduceAdd, hcover]

theorem sum_ipv4Words (m : Mem) (ipv4Hdr : Nat) : OnesComplement.sum (ipv4Words m ipv4Hdr) =
    OnesComplement.ofNat (ipv4Words m ipv4Hdr).sum :=
  OnesComplement.sum_eq_ofNat le_of_mem_ipv4Words

theorem sum_ipv4Words_fillIpv4Fields :
    0 < (ipv4Words (fillIpv4Fields ends payload 14 m) 14).sum ∧
    (ipv4Words (fillIpv4Fields ends payload 14 m) 14).sum ≡
      Mem.getN 10 (fillIpv4Fields ends payload 14 m) 14 +
        (m.get16 (ipv4Off + RteIpv4Hdr.hdrChecksum)).toNat +
        Mem.getN 8 (fillIpv4Fields ends payload 14 m) 26 [MOD 65535] := by
  have hpacketId : (fillIpv4Fields ends payload 14 m).get16 (14 + 2 * 2) = 5462 := by
    simp [fillIpv4Fields]
  have hold : Mem.getN 2 (fillIpv4Fields ends payload 14 m) 24 = Mem.getN 2 m 24 := by
    simp (disch := omega) [fillIpv4Fields, Mem.getN_putN_of_disjoint]
  constructor
  · rw [ipv4Words_split, List.sum_append]
    simp only [List.map_cons, List.sum_cons, hpacketId]
    show 0 < _ + (_ + (5462 + _)) + _
    omega
  · have hsum := Mem.sum_words_modEq (fillIpv4Fields ends payload 14 m) 14 10
    have hsplit := Mem.getN_modEq_fieldSum (fillIpv4Fields ends payload 14 m) 14 [10, 2, 8]
    apply hsum.trans (hsplit.trans _)
    simp [Mem.fieldSum, Mem.weight, Mem.toNat_get16, hold, Nat.add_assoc]
    rfl

/-- What the old checksum field counts for decides on the new one. -/
theorem cksum_fillIpv4Fields_eq_iff {cksum : RteCksum} (h : ComplementsSum cksum) :
    cksum.ipv4 (fillIpv4Fields ends payload 14 m) 14 =
        cksum.ipv4 (fillIpv4Fields ends payload 14 m') 14 ↔
      (m.get16 (ipv4Off + RteIpv4Hdr.hdrChecksum)).toNat ≡
        (m'.get16 (ipv4Off + RteIpv4Hdr.hdrChecksum)).toNat [MOD 65535] := by
  obtain ⟨hpos, hsum⟩ := sum_ipv4Words_fillIpv4Fields (m := m) ends payload
  obtain ⟨hpos', hsum'⟩ := sum_ipv4Words_fillIpv4Fields (m := m') ends payload
  have hfront : Mem.getN 10 (fillIpv4Fields ends payload 14 m) 14 =
      Mem.getN 10 (fillIpv4Fields ends payload 14 m') 14 := by
    apply Mem.getN_congr_on
    rw [eqOn_fillIpv4Fields_iff]
    exact fun i hi => absurd (Or.inl hi.1) hi.2
  have haddr : Mem.getN 8 (fillIpv4Fields ends payload 14 m) 26 =
      Mem.getN 8 (fillIpv4Fields ends payload 14 m') 26 := by
    apply Mem.getN_congr_on
    rw [eqOn_fillIpv4Fields_iff]
    exact fun i hi => absurd (Or.inr hi.1) hi.2
  have hle := OnesComplement.ofNat_le (ipv4Words (fillIpv4Fields ends payload 14 m) 14).sum
  have hle' := OnesComplement.ofNat_le (ipv4Words (fillIpv4Fields ends payload 14 m') 14).sum
  have hofNat := OnesComplement.ofNat_eq_ofNat_iff hpos hpos'
  rw [← UInt16.toNat_inj, h, h, sum_ipv4Words, sum_ipv4Words]
  rw [hfront, haddr] at hsum
  simp only [Nat.ModEq] at hsum hsum' ⊢
  omega

/-- The IPv4 header shows of the buffer what its checksum field counted for. -/
theorem eqOn_fillIpv4Header_iff {cksum : RteCksum} (h : ComplementsSum cksum)
    (hs : Set.Ico 24 26 ⊆ s) : Set.EqOn (fillIpv4Header cksum ends payload 14 m)
        (fillIpv4Header cksum ends payload 14 m') s ↔
      (m.get16 (ipv4Off + RteIpv4Hdr.hdrChecksum)).toNat ≡
        (m'.get16 (ipv4Off + RteIpv4Hdr.hdrChecksum)).toNat [MOD 65535] ∧
      Set.EqOn m m' (s \ Set.Ico 14 34) := by
  have hcover : Set.Ico 24 (24 + 2) ∪ (Set.Ico 14 24 ∪ Set.Ico 26 34) = Set.Ico 14 34 := by
    ext i
    simp only [Set.mem_union, Set.mem_Ico]
    omega
  have hfield : Set.Ico (14 + RteIpv4Hdr.hdrChecksum) (14 + RteIpv4Hdr.hdrChecksum + 2) ⊆ s := hs
  rw [fillIpv4Header_eq, fillIpv4Header_eq, Mem.eqOn_put16_iff_of_subset hfield,
    cksum_fillIpv4Fields_eq_iff ends payload h, eqOn_fillIpv4Fields_iff, Set.sdiff_sdiff]
  show _ ∧ Set.EqOn m m' (s \ (Set.Ico 24 (24 + 2) ∪ _)) ↔ _
  rw [hcover]

/-- The three headers, up to the UDP checksum. -/
theorem eqOn_fillHeaders_iff {cksum : RteCksum} (h : ComplementsSum cksum)
    (srcPort dstPort : UInt16) (hs : Set.Ico 24 26 ⊆ s) :
    Set.EqOn
        (fillUdpPorts srcPort dstPort payload 34
          (fillIpv4Header cksum ends payload 14 (fillEthHeader ends 0 m)))
        (fillUdpPorts srcPort dstPort payload 34
          (fillIpv4Header cksum ends payload 14 (fillEthHeader ends 0 m'))) s ↔
      (m.get16 (ipv4Off + RteIpv4Hdr.hdrChecksum)).toNat ≡
        (m'.get16 (ipv4Off + RteIpv4Hdr.hdrChecksum)).toNat [MOD 65535] ∧
      Set.EqOn m m' (s \ Set.Iio 40) := by
  have hcover : Set.Ico 34 40 ∪ (Set.Ico 14 34 ∪ Set.Ico 0 14) = Set.Iio 40 := by
    ext i
    simp only [Set.mem_union, Set.mem_Ico, Set.mem_Iio]
    omega
  have hfield : Set.Ico 24 26 ⊆ s \ Set.Ico 34 40 := by
    intro i hi
    refine ⟨hs hi, fun hout => ?_⟩
    simp only [Set.mem_Ico] at hi hout
    omega
  have hword : ∀ m, (fillEthHeader ends 0 m).get16 (ipv4Off + RteIpv4Hdr.hdrChecksum) =
      m.get16 (ipv4Off + RteIpv4Hdr.hdrChecksum) := by
    intro m
    simp [fillEthHeader]
  rw [eqOn_fillUdpPorts_iff, eqOn_fillIpv4Header_iff ends payload h hfield, hword, hword,
    eqOn_fillEthHeader_iff, Set.sdiff_sdiff, Set.sdiff_sdiff, hcover]

/-- The checksum apart, the IPv4 header shows nothing of the buffer. -/
theorem getN_fillIpv4Header_congr (cksum : RteCksum) (m m' : Mem) {k off : Nat}
    (hoff : 14 ≤ off ∧ off + k ≤ 24 ∨ 26 ≤ off ∧ off + k ≤ 34) :
    Mem.getN k (fillIpv4Header cksum ends payload 14 m) off =
      Mem.getN k (fillIpv4Header cksum ends payload 14 m') off := by
  have hbeside : off + k ≤ 14 + RteIpv4Hdr.hdrChecksum ∨
      14 + RteIpv4Hdr.hdrChecksum + 2 ≤ off := by
    simp only [RteIpv4Hdr.hdrChecksum]
    omega
  rw [fillIpv4Header_eq, fillIpv4Header_eq, Mem.getN_putN_of_disjoint _ _ hbeside,
    Mem.getN_putN_of_disjoint _ _ hbeside]
  apply Mem.getN_congr_on
  rw [eqOn_fillIpv4Fields_iff]
  intro i hi
  apply absurd ?_ hi.2
  have hin := hi.1
  simp only [Set.mem_union, Set.mem_Ico] at hin ⊢
  omega

end Headers

/-! ### `hopa_cp.c` -/

namespace HopaCp

section Udp

variable (cksum : RteCksum) (dstPort : UInt16) (m m' : Mem)

theorem pseudoWords_udpMem : pseudoWords (udpMem cksum dstPort m) ipv4Off =
    pseudoWords (udpMem cksum dstPort m') ipv4Off := by
  apply pseudoWords_congr
  intro k off hoff
  have hports : ∀ m, Mem.getN k (udpMem cksum dstPort m) off =
      Mem.getN k (fillIpv4Header cksum endpoints 48 14 (fillEthHeader endpoints 0 m)) off := by
    intro m
    simp (disch := omega) [udpMem, fillUdpPorts, Mem.getN_putN_of_disjoint]
  rw [hports, hports, getN_fillIpv4Header_congr endpoints 48 cksum _ _ hoff]

theorem getN_ports_udpMem : Mem.getN 6 (udpMem cksum dstPort m) udpOff =
    Mem.getN 6 (udpMem cksum dstPort m') udpOff := by
  apply Mem.getN_congr_on
  rw [udpMem, udpMem, eqOn_fillUdpPorts_iff]
  exact fun i hi => absurd hi.1 hi.2

/-- What the checksum field and the place of the HOPA header count for decides on the
checksum. -/
theorem cksum_udpMem_eq_iff {cksum : RteCksum} (h : ComplementsUdpSum cksum) :
    cksum.ipv4Udptcp (udpMem cksum dstPort m) ipv4Off udpOff =
        cksum.ipv4Udptcp (udpMem cksum dstPort m') ipv4Off udpOff ↔
      (m.get16 (udpOff + RteUdpHdr.dgramCksum)).toNat + Mem.getN 48 m hopaOff ≡
        (m'.get16 (udpOff + RteUdpHdr.dgramCksum)).toNat + Mem.getN 48 m' hopaOff
        [MOD 65535] := by
  have hsum : ∀ m, (udpWords (udpMem cksum dstPort m) ipv4Off udpOff).sum ≡
      (pseudoWords (udpMem cksum dstPort m') ipv4Off).sum +
        (Mem.getN 6 (udpMem cksum dstPort m') udpOff +
          ((m.get16 (udpOff + RteUdpHdr.dgramCksum)).toNat + Mem.getN 48 m hopaOff))
        [MOD 65535] := by
    intro m
    have hwords := sum_udpWords_modEq udpOff (l4Length_udpMem cksum dstPort m)
    rwa [pseudoWords_udpMem cksum dstPort m m', getN_ports_udpMem cksum dstPort m m',
      Mem.toNat_get16, getN_udpMem _ _ _ 2 (by decide), getN_udpMem _ _ _ (2 * 24) (by decide),
      ← Mem.toNat_get16] at hwords
  have hpos : ∀ m, 0 < (udpWords (udpMem cksum dstPort m) ipv4Off udpOff).sum := fun m =>
    sum_udpWords_pos udpOff (sum_pseudoWords_pos (plainUdp_udpMem cksum dstPort m).nextProtoId)
  rw [← UInt16.toNat_inj, h _ _ _ (plainUdp_udpMem cksum dstPort m),
    h _ _ _ (plainUdp_udpMem cksum dstPort m'),
    OnesComplement.checkWord_eq_iff (fun w hw => le_of_mem_udpWords hw)
      (fun w hw => le_of_mem_udpWords hw) (hpos m) (hpos m')]
  have hsum₁ := hsum m
  have hsum₂ := hsum m'
  simp only [Nat.ModEq] at hsum₁ hsum₂ ⊢
  omega

end Udp

/-- The alignment padding of the HOPA header, as places of the frame. -/
def padPlaces : Set Nat := Set.Ico 44 50 ∪ Set.Ico 59 66 ∪ Set.Ico 83 90

def tsPlaces : Set Nat := Set.Ico 50 58

/-- The buffers agree in what a frame shows of them: the places that are not written,
and what the two checksums count in. -/
structure SameResidue (places : Set Nat) (m m' : Mem) : Prop where
  unwritten : Set.EqOn m m' places
  hdrChecksum : (m.get16 (ipv4Off + RteIpv4Hdr.hdrChecksum)).toNat ≡
    (m'.get16 (ipv4Off + RteIpv4Hdr.hdrChecksum)).toNat [MOD 65535]
  dgramCksum : (m.get16 (udpOff + RteUdpHdr.dgramCksum)).toNat + Mem.getN 48 m hopaOff ≡
    (m'.get16 (udpOff + RteUdpHdr.dgramCksum)).toNat + Mem.getN 48 m' hopaOff [MOD 65535]

section Frames

variable {cksum : RteCksum} {buf buf' udp udp' : RteMbuf} {dstPort : UInt16} {s : Set Nat}

theorem eqOn_udpMem_iff (h : ComplementsSum cksum) {m m' : Mem} (hs : Set.Ico 24 26 ⊆ s) :
    Set.EqOn (udpMem cksum dstPort m) (udpMem cksum dstPort m') (s \ Set.Ico 40 42) ↔
      (m.get16 (ipv4Off + RteIpv4Hdr.hdrChecksum)).toNat ≡
        (m'.get16 (ipv4Off + RteIpv4Hdr.hdrChecksum)).toNat [MOD 65535] ∧
      Set.EqOn m m' (s \ Set.Iio 42) := by
  have hcover : Set.Ico 40 42 ∪ Set.Iio 40 = Set.Iio 42 := by
    ext i
    simp only [Set.mem_union, Set.mem_Ico, Set.mem_Iio]
    omega
  have hfield : Set.Ico 24 26 ⊆ s \ Set.Ico 40 42 := by
    intro i hi
    refine ⟨hs hi, fun hout => ?_⟩
    simp only [Set.mem_Ico] at hi hout
    omega
  rw [udpMem, udpMem, eqOn_fillHeaders_iff endpoints 48 h srcPort dstPort hfield, Set.sdiff_sdiff,
    hcover]

theorem eqOn_encodeUdpPkt_iff (h : ComplementsSum cksum) (hudp : ComplementsUdpSum cksum)
    (hok : encodeUdpPkt cksum (some buf) dstPort = .ok udp)
    (hok' : encodeUdpPkt cksum (some buf') dstPort = .ok udp') (hs : Set.Iio 42 ⊆ s) :
    Set.EqOn udp.data udp'.data s ↔ SameResidue (s \ Set.Iio 42) buf.data buf'.data := by
  have hcksum : Set.Ico 24 26 ⊆ s := fun i hi => hs (hi.2.trans (by decide))
  have hfield : Set.Ico (udpOff + RteUdpHdr.dgramCksum) (udpOff + RteUdpHdr.dgramCksum + 2) ⊆ s :=
    fun i hi => hs hi.2
  rw [data_encodeUdpPkt hok, data_encodeUdpPkt hok', Mem.eqOn_put16_iff_of_subset hfield,
    cksum_udpMem_eq_iff dstPort _ _ hudp]
  show _ ∧ Set.EqOn _ _ (s \ Set.Ico 40 42) ↔ _
  rw [eqOn_udpMem_iff h hcksum]
  exact ⟨fun hall => ⟨hall.2.2, hall.2.1, hall.1⟩,
    fun hall => ⟨hall.dgramCksum, hall.hdrChecksum, hall.unwritten⟩⟩

theorem eqOn_fillHopaCpHdr_iff (cpFlag : HopaCpFlag) (repathId : UInt8) {m m' : Mem} :
    Set.EqOn (fillHopaCpHdr cpFlag repathId hopaOff m) (fillHopaCpHdr cpFlag repathId hopaOff m')
      s ↔ Set.EqOn m m' (s \ (Set.Ico 42 44 ∪ Set.Ico 58 59 ∪ Set.Ico 66 83)) := by
  have hcover : Set.Ico 74 82 ∪ Set.Ico 66 74 ∪ Set.Ico 58 59 ∪ Set.Ico 82 83 ∪ Set.Ico 43 44 ∪
      Set.Ico 42 43 = Set.Ico 42 44 ∪ Set.Ico 58 59 ∪ Set.Ico 66 83 := by
    ext i
    simp only [Set.mem_union, Set.mem_Ico]
    omega
  rw [fillHopaCpHdr, fillHopaCpHdr]
  simp only [Mem.eqOn_putN_iff, Set.sdiff_sdiff, hopaOff, udpOff, ipv4Off, RteEtherHdr.size,
    RteIpv4Hdr.size, RteUdpHdr.size, HopaCpHdr.offFlag, HopaCpHdr.offCpFlag, HopaCpHdr.offRsvd,
    HopaCpHdr.offRepathId, HopaCpHdr.offSeq, HopaCpHdr.offAck, Nat.add_zero, Nat.reduceAdd, hcover]

/-- The frame of an encoder that writes `f` behind the packet of `encode_udp_pkt`. -/
theorem sameFrame_append_iff (hok : encodeUdpPkt cksum (some buf) dstPort = .ok udp)
    (hok' : encodeUdpPkt cksum (some buf') dstPort = .ok udp') (f : Nat → Mem → Mem) :
    SameFrame ((rtePktmbufAppend udp HopaCpHdr.size).2.store (f udp.dataLen))
      ((rtePktmbufAppend udp' HopaCpHdr.size).2.store (f udp'.dataLen)) ↔
      Set.EqOn (f hopaOff udp.data) (f hopaOff udp'.data) (Set.Iio 90) := by
  have hlen : udp.dataLen = hopaOff := dataLen_encodeUdpPkt hok
  have hlen' : udp'.dataLen = hopaOff := dataLen_encodeUdpPkt hok'
  rw [SameFrame, dataLen_store, dataLen_store, dataLen_rtePktmbufAppend, dataLen_rtePktmbufAppend,
    hlen, hlen']
  exact and_iff_right rfl

/-- An encoder that leaves the time stamp alone. -/
theorem sameFrame_fillHopaCpHdr_iff (h : ComplementsSum cksum) (hudp : ComplementsUdpSum cksum)
    (hok : encodeUdpPkt cksum (some buf) dstPort = .ok udp)
    (hok' : encodeUdpPkt cksum (some buf') dstPort = .ok udp') (cpFlag : HopaCpFlag)
    (repathId : UInt8) :
    SameFrame
      ((rtePktmbufAppend udp HopaCpHdr.size).2.store (fillHopaCpHdr cpFlag repathId udp.dataLen))
      ((rtePktmbufAppend udp' HopaCpHdr.size).2.store
        (fillHopaCpHdr cpFlag repathId udp'.dataLen)) ↔
      SameResidue (padPlaces ∪ tsPlaces) buf.data buf'.data := by
  have hplaces : (Set.Iio 90 \ (Set.Ico 42 44 ∪ Set.Ico 58 59 ∪ Set.Ico 66 83)) \ Set.Iio 42 =
      padPlaces ∪ tsPlaces := by
    ext i
    simp only [padPlaces, tsPlaces, Set.mem_sdiff, Set.mem_union, Set.mem_Ico, Set.mem_Iio]
    omega
  rw [sameFrame_append_iff hok hok', eqOn_fillHopaCpHdr_iff, eqOn_encodeUdpPkt_iff h hudp hok hok',
    hplaces]
  intro i hi
  simp only [Set.mem_sdiff, Set.mem_union, Set.mem_Ico, Set.mem_Iio] at hi ⊢
  omega

/-- `encode_probe_pkt` writes the time stamp last. -/
theorem sameFrame_put_ts_iff (h : ComplementsSum cksum) (hudp : ComplementsUdpSum cksum)
    (hok : encodeUdpPkt cksum (some buf) dstPort = .ok udp)
    (hok' : encodeUdpPkt cksum (some buf') dstPort = .ok udp') (cpFlag : HopaCpFlag)
    (repathId : UInt8) (ts : UInt64) :
    SameFrame
      (((rtePktmbufAppend udp HopaCpHdr.size).2.store
        (fillHopaCpHdr cpFlag repathId udp.dataLen)).store
          fun m => m.put64 (udp.dataLen + HopaCpHdr.offTs) ts)
      (((rtePktmbufAppend udp' HopaCpHdr.size).2.store
        (fillHopaCpHdr cpFlag repathId udp'.dataLen)).store
          fun m => m.put64 (udp'.dataLen + HopaCpHdr.offTs) ts) ↔
      SameResidue padPlaces buf.data buf'.data := by
  have hplaces : ((Set.Iio 90 \ Set.Ico 50 58) \
      (Set.Ico 42 44 ∪ Set.Ico 58 59 ∪ Set.Ico 66 83)) \ Set.Iio 42 = padPlaces := by
    ext i
    simp only [padPlaces, Set.mem_sdiff, Set.mem_union, Set.mem_Ico, Set.mem_Iio]
    omega
  have hframe := sameFrame_append_iff hok hok' fun hopaCpHdr m =>
    (fillHopaCpHdr cpFlag repathId hopaCpHdr m).put64 (hopaCpHdr + HopaCpHdr.offTs) ts
  apply hframe.trans
  rw [Mem.eqOn_putN_iff]
  show Set.EqOn _ _ (Set.Iio 90 \ Set.Ico 50 58) ↔ _
  rw [eqOn_fillHopaCpHdr_iff, eqOn_encodeUdpPkt_iff h hudp hok hok', hplaces]
  intro i hi
  simp only [Set.mem_sdiff, Set.mem_union, Set.mem_Ico, Set.mem_Iio] at hi ⊢
  omega

end Frames

section Encoders

variable {cksum : RteCksum}

theorem exists_encodeUdpPkt_two (cksum : RteCksum) (buf buf' : RteMbuf) (dstPort : UInt16) :
    ∃ udp udp', encodeUdpPkt cksum (some buf) dstPort = .ok udp ∧
      encodeUdpPkt cksum (some buf') dstPort = .ok udp' := ⟨_, _, rfl, rfl⟩

theorem exists_encodeProbePkt_sameFrame_iff (h : ComplementsSum cksum)
    (hudp : ComplementsUdpSum cksum) (buf buf' : RteMbuf) (clock : Timespec) (pathId : UInt8) :
    ∃ mbuf mbuf', encodeProbePkt cksum (some buf) (some clock) pathId = .ok mbuf ∧
      encodeProbePkt cksum (some buf') (some clock) pathId = .ok mbuf' ∧
      (SameFrame mbuf mbuf' ↔ SameResidue padPlaces buf.data buf'.data) := by
  obtain ⟨udp, udp', hok, hok'⟩ :=
    exists_encodeUdpPkt_two cksum buf buf' (dstPortPath1 - 1 + pathId.toUInt16)
  rw [encodeProbePkt, encodeProbePkt, hok, hok']
  exact ⟨_, _, rfl, rfl, sameFrame_put_ts_iff h hudp hok hok' .probe 0 clock.ns⟩

theorem exists_encodeRepathPkt_sameFrame_iff (h : ComplementsSum cksum)
    (hudp : ComplementsUdpSum cksum) (buf buf' : RteMbuf) (optPathId repathId : UInt8) :
    ∃ mbuf mbuf', encodeRepathPkt cksum (some buf) optPathId repathId = .ok mbuf ∧
      encodeRepathPkt cksum (some buf') optPathId repathId = .ok mbuf' ∧
      (SameFrame mbuf mbuf' ↔ SameResidue (padPlaces ∪ tsPlaces) buf.data buf'.data) := by
  obtain ⟨udp, udp', hok, hok'⟩ :=
    exists_encodeUdpPkt_two cksum buf buf' (dstPortPath1 - 1 + optPathId.toUInt16)
  rw [encodeRepathPkt, encodeRepathPkt, hok, hok']
  exact ⟨_, _, rfl, rfl, sameFrame_fillHopaCpHdr_iff h hudp hok hok' .repath repathId⟩

theorem exists_encodeRepathAckPkt_sameFrame_iff (h : ComplementsSum cksum)
    (hudp : ComplementsUdpSum cksum) (buf buf' : RteMbuf) (optPathId : UInt8) :
    ∃ mbuf mbuf', encodeRepathAckPkt cksum (some buf) optPathId = .ok mbuf ∧
      encodeRepathAckPkt cksum (some buf') optPathId = .ok mbuf' ∧
      (SameFrame mbuf mbuf' ↔ SameResidue (padPlaces ∪ tsPlaces) buf.data buf'.data) := by
  obtain ⟨udp, udp', hok, hok'⟩ :=
    exists_encodeUdpPkt_two cksum buf buf' (dstPortPath1 - 1 + optPathId.toUInt16)
  rw [encodeRepathAckPkt, encodeRepathAckPkt, hok, hok']
  exact ⟨_, _, rfl, rfl, sameFrame_fillHopaCpHdr_iff h hudp hok hok' .repathAck 0⟩

end Encoders

end HopaCp

/-! ### The vswitchd builds -/

namespace Ovs

/-- The UDP checksum and the padding of the HOPA header, as places of the frame. -/
def unwrittenPlaces : Set Nat := Set.Ico 40 42 ∪ Set.Ico 47 50

/-- The buffers agree in what a frame shows of them. -/
structure SameResidue (m m' : Mem) : Prop where
  unwritten : Set.EqOn m m' unwrittenPlaces
  hdrChecksum : (m.get16 (ipv4Off + RteIpv4Hdr.hdrChecksum)).toNat ≡
    (m'.get16 (ipv4Off + RteIpv4Hdr.hdrChecksum)).toNat [MOD 65535]

theorem eqOn_fillHopaCpHdr_iff (hdr : HopaCpHdr) {m m' : Mem} {s : Set Nat} :
    Set.EqOn (fillHopaCpHdr hdr 42 m) (fillHopaCpHdr hdr 42 m') s ↔
      Set.EqOn m m' (s \ (Set.Ico 42 47 ∪ Set.Ico 50 74)) := by
  have hcover : Set.Ico 66 74 ∪ Set.Ico 58 66 ∪ Set.Ico 50 58 ∪ Set.Ico 46 47 ∪ Set.Ico 45 46 ∪
      Set.Ico 44 45 ∪ Set.Ico 43 44 ∪ Set.Ico 42 43 = Set.Ico 42 47 ∪ Set.Ico 50 74 := by
    ext i
    simp only [Set.mem_union, Set.mem_Ico]
    omega
  rw [fillHopaCpHdr, fillHopaCpHdr]
  simp only [Mem.eqOn_putN_iff, Set.sdiff_sdiff, HopaCpHdr.offFlag, HopaCpHdr.offCpFlag,
    HopaCpHdr.offProbePathId, HopaCpHdr.offRepathId, HopaCpHdr.offRsvd, HopaCpHdr.offSeq,
    HopaCpHdr.offAck, HopaCpHdr.offTs, Nat.add_zero, Nat.reduceAdd, hcover]

theorem sameFrame_encodeCpPkt_iff {cksum : RteCksum} (h : ComplementsSum cksum) (node : Node)
    (buf buf' : RteMbuf) (portNb : UInt8) (hdr : HopaCpHdr) :
    SameFrame (encodeCpPkt node cksum buf portNb hdr) (encodeCpPkt node cksum buf' portNb hdr) ↔
      SameResidue buf.data buf'.data := by
  have hplaces : (Set.Iio 74 \ (Set.Ico 42 47 ∪ Set.Ico 50 74)) \ Set.Iio 40 =
      unwrittenPlaces := by
    ext i
    simp only [unwrittenPlaces, Set.mem_sdiff, Set.mem_union, Set.mem_Ico, Set.mem_Iio]
    omega
  have hfield : Set.Ico 24 26 ⊆ Set.Iio 74 \ (Set.Ico 42 47 ∪ Set.Ico 50 74) := by
    intro i hi
    simp only [Set.mem_sdiff, Set.mem_union, Set.mem_Ico, Set.mem_Iio] at hi ⊢
    omega
  let headers : Mem → Mem := fun m =>
    fillUdpPorts srcPort (dstPort + portNb.toUInt16) 32 34
      (fillIpv4Header cksum node.endpoints 32 14 (fillEthHeader node.endpoints 0 m))
  have hlen : (encodeCpPkt node cksum buf portNb hdr).dataLen =
      (encodeCpPkt node cksum buf' portNb hdr).dataLen := rfl
  rw [SameFrame, and_iff_right hlen]
  show Set.EqOn (fillHopaCpHdr hdr 42 (headers buf.data)) (fillHopaCpHdr hdr 42 (headers buf'.data))
    (Set.Iio 74) ↔ _
  rw [eqOn_fillHopaCpHdr_iff, eqOn_fillHeaders_iff node.endpoints 32 h _ _ hfield, hplaces]
  exact ⟨fun hall => ⟨hall.2, hall.1⟩, fun hall => ⟨hall.hdrChecksum, hall.unwritten⟩⟩

end Ovs

/-! ### All encoders -/

/-- Two buffers give the same frame exactly when they agree in the places that the
encoder does not write and in what the checksums count in. -/
theorem encoders_same_frame_iff {cksum : RteCksum} (h : ComplementsSum cksum)
    (hudp : ComplementsUdpSum cksum) (buf buf' : RteMbuf) :
    (∀ clock pathId, ∃ mbuf mbuf',
      HopaCp.encodeProbePkt cksum (some buf) (some clock) pathId = .ok mbuf ∧
      HopaCp.encodeProbePkt cksum (some buf') (some clock) pathId = .ok mbuf' ∧
      (SameFrame mbuf mbuf' ↔ HopaCp.SameResidue HopaCp.padPlaces buf.data buf'.data)) ∧
    (∀ optPathId repathId, ∃ mbuf mbuf',
      HopaCp.encodeRepathPkt cksum (some buf) optPathId repathId = .ok mbuf ∧
      HopaCp.encodeRepathPkt cksum (some buf') optPathId repathId = .ok mbuf' ∧
      (SameFrame mbuf mbuf' ↔
        HopaCp.SameResidue (HopaCp.padPlaces ∪ HopaCp.tsPlaces) buf.data buf'.data)) ∧
    (∀ optPathId, ∃ mbuf mbuf',
      HopaCp.encodeRepathAckPkt cksum (some buf) optPathId = .ok mbuf ∧
      HopaCp.encodeRepathAckPkt cksum (some buf') optPathId = .ok mbuf' ∧
      (SameFrame mbuf mbuf' ↔
        HopaCp.SameResidue (HopaCp.padPlaces ∪ HopaCp.tsPlaces) buf.data buf'.data)) ∧
    (∀ node clock pathId, ∃ mbuf mbuf',
      Ovs.encodeProbePkt node cksum (some buf) clock pathId = some mbuf ∧
      Ovs.encodeProbePkt node cksum (some buf') clock pathId = some mbuf' ∧
      (SameFrame mbuf mbuf' ↔ Ovs.SameResidue buf.data buf'.data)) ∧
    (∀ node repathId, ∃ mbuf mbuf',
      Ovs.encodeRepathPkt node cksum (some buf) repathId = some mbuf ∧
      Ovs.encodeRepathPkt node cksum (some buf') repathId = some mbuf' ∧
      (SameFrame mbuf mbuf' ↔ Ovs.SameResidue buf.data buf'.data)) := by
  refine ⟨HopaCp.exists_encodeProbePkt_sameFrame_iff h hudp buf buf',
    HopaCp.exists_encodeRepathPkt_sameFrame_iff h hudp buf buf',
    HopaCp.exists_encodeRepathAckPkt_sameFrame_iff h hudp buf buf', fun node clock pathId => ?_,
    fun node repathId => ?_⟩
  · exact ⟨_, _, rfl, rfl, Ovs.sameFrame_encodeCpPkt_iff h node buf buf' pathId _⟩
  · exact ⟨_, _, rfl, rfl, Ovs.sameFrame_encodeCpPkt_iff h node buf buf' repathId _⟩

theorem complementsSum_dpdkCksum : ComplementsSum dpdkCksum := by
  intro m ipv4Hdr
  have hipv4 : dpdkCksum.ipv4 = complementCksum.ipv4 := rfl
  rw [hipv4]
  exact complementsSum_complementCksum m ipv4Hdr

/-- A buffer that held an Ethernet header of ones and else zeros. -/
def headBuf : RteMbuf := { zeroBuf with data := fun i => if i < 14 then 1 else 0 }

/-- The Ethernet header a buffer held is not seen in a frame. -/
theorem encoders_same_frame_head :
    (∃ mbuf mbuf', HopaCp.encodeProbePkt dpdkCksum (some zeroBuf) (some ⟨0, 5⟩) 1 = .ok mbuf ∧
      HopaCp.encodeProbePkt dpdkCksum (some headBuf) (some ⟨0, 5⟩) 1 = .ok mbuf' ∧
      SameFrame mbuf mbuf') ∧
    (∃ mbuf mbuf', Ovs.encodeRepathPkt .yy dpdkCksum (some zeroBuf) 2 = some mbuf ∧
      Ovs.encodeRepathPkt .yy dpdkCksum (some headBuf) 2 = some mbuf' ∧
      SameFrame mbuf mbuf') := by
  have hbehind : ∀ i, 14 ≤ i → zeroBuf.data i = headBuf.data i := by
    intro i hi
    show 0 = if i < 14 then 1 else 0
    exact (if_neg (Nat.not_lt.mpr hi)).symm
  obtain ⟨hprobe, -, -, -, hrepath⟩ := encoders_same_frame_iff complementsSum_dpdkCksum
    complementsUdpSum_dpdkCksum zeroBuf headBuf
  obtain ⟨mbuf, mbuf', hok, hok', hiff⟩ := hprobe ⟨0, 5⟩ 1
  obtain ⟨frame, frame', hframe, hframe', hsame⟩ := hrepath .yy 2
  refine ⟨⟨mbuf, mbuf', hok, hok', hiff.mpr ⟨fun i hi => hbehind i ?_, by decide, by decide⟩⟩,
    ⟨frame, frame', hframe, hframe', hsame.mpr ⟨fun i hi => hbehind i ?_, by decide⟩⟩⟩
  · simp only [HopaCp.padPlaces, Set.mem_union, Set.mem_Ico] at hi
    omega
  · simp only [Ovs.unwrittenPlaces, Set.mem_union, Set.mem_Ico] at hi
    omega

/-- A zeroed buffer and one full of ones give different frames: the padding shows. -/
theorem not_sameFrame_recycled :
    (∃ mbuf mbuf', HopaCp.encodeRepathPkt dpdkCksum (some zeroBuf) 0 2 = .ok mbuf ∧
      HopaCp.encodeRepathPkt dpdkCksum (some onesBuf) 0 2 = .ok mbuf' ∧
      ¬ SameFrame mbuf mbuf') ∧
    (∃ mbuf mbuf', Ovs.encodeProbePkt .cq dpdkCksum (some zeroBuf) ⟨0, 0⟩ 0 = some mbuf ∧
      Ovs.encodeProbePkt .cq dpdkCksum (some onesBuf) ⟨0, 0⟩ 0 = some mbuf' ∧
      ¬ SameFrame mbuf mbuf') := by
  have hdiff : ∀ i, zeroBuf.data i ≠ onesBuf.data i := fun i => by
    show (0 : UInt8) ≠ 1
    decide
  obtain ⟨mbuf, mbuf', hok, hok', hiff⟩ := HopaCp.exists_encodeRepathPkt_sameFrame_iff
    complementsSum_dpdkCksum complementsUdpSum_dpdkCksum zeroBuf onesBuf 0 2
  have hframes := Ovs.sameFrame_encodeCpPkt_iff complementsSum_dpdkCksum .cq zeroBuf onesBuf 0
    (Ovs.probeHdr 0 0)
  refine ⟨⟨mbuf, mbuf', hok, hok', fun hsame => ?_⟩, ⟨_, _, rfl, rfl, fun hsame => ?_⟩⟩
  · have hpad : 44 ∈ HopaCp.padPlaces ∪ HopaCp.tsPlaces :=
      Or.inl (Or.inl (Or.inl ⟨by decide, by decide⟩))
    exact hdiff 44 ((hiff.mp hsame).unwritten hpad)
  · have hpad : 47 ∈ Ovs.unwrittenPlaces := Or.inr ⟨by decide, by decide⟩
    exact hdiff 47 ((hframes.mp hsame).unwritten hpad)

end Repath
