import Repath.Checksum
import Repath.Lib.WordSum

/-!
# UDP checksums

`hopa_cp.c` takes the UDP checksum before it appends the HOPA header, so the sum runs
over what the buffer held where the header will lie, the checksum field included.  The
vswitchd builds take none and send what the buffer held.
-/

namespace Repath

/-- The length of the datagram by the IPv4 header. -/
def l4Length (m : Mem) (ipv4Hdr : Nat) : Nat :=
  (m.get16 (ipv4Hdr + RteIpv4Hdr.totalLength)).toNat - RteIpv4Hdr.size

/-- Addresses, protocol and length. -/
def pseudoWords (m : Mem) (ipv4Hdr : Nat) : List Nat :=
  m.words (ipv4Hdr + RteIpv4Hdr.srcAddr) 4 ++
    [(m.get8 (ipv4Hdr + RteIpv4Hdr.nextProtoId)).toNat, l4Length m ipv4Hdr]

/-- What a UDP checksum is the sum of, for a datagram of an even length. -/
def udpWords (m : Mem) (ipv4Hdr udpHdr : Nat) : List Nat :=
  pseudoWords m ipv4Hdr ++ m.words udpHdr (l4Length m ipv4Hdr / 2)

/-- An IPv4 header without options over a UDP datagram of an even length. -/
structure PlainUdp (m : Mem) (ipv4Hdr : Nat) : Prop where
  versionIhl : m.get8 (ipv4Hdr + RteIpv4Hdr.versionIhl) = 0x45
  nextProtoId : m.get8 (ipv4Hdr + RteIpv4Hdr.nextProtoId) = ipprotoUdp
  totalLength : RteIpv4Hdr.size ≤ (m.get16 (ipv4Hdr + RteIpv4Hdr.totalLength)).toNat
  even : 2 ∣ l4Length m ipv4Hdr

/-- `rte_ipv4_udptcp_cksum` is the complement of the sum of the words present, the
checksum field among them, and 65535 where that is 0. -/
def ComplementsUdpSum (cksum : RteCksum) : Prop :=
  ∀ m ipv4Hdr udpHdr, PlainUdp m ipv4Hdr →
    (cksum.ipv4Udptcp m ipv4Hdr udpHdr).toNat =
      OnesComplement.checkWord (udpWords m ipv4Hdr udpHdr)

/-- No checksum, or one that verifies over the frame as it stands. -/
def AcceptableUdpCksum (mbuf : RteMbuf) : Prop :=
  mbuf.data.get16 (udpOff + RteUdpHdr.dgramCksum) = 0 ∨
    OnesComplement.sum (udpWords mbuf.data ipv4Off udpOff) = 0xFFFF

instance (mbuf : RteMbuf) : Decidable (AcceptableUdpCksum mbuf) :=
  inferInstanceAs (Decidable (_ ∨ _))

/-! ### Sums -/

section Sums

variable {m m' : Mem} {ipv4Hdr udpHdr k : Nat}

theorem le_of_mem_udpWords {w : Nat} (h : w ∈ udpWords m ipv4Hdr udpHdr) : w ≤ 65535 := by
  rw [udpWords, pseudoWords] at h
  rcases List.mem_append.mp h with h | h
  · rcases List.mem_append.mp h with h | h
    · exact m.le_of_mem_words h
    · have hproto := (m.get8 (ipv4Hdr + RteIpv4Hdr.nextProtoId)).toNat_lt
      have hlen := (m.get16 (ipv4Hdr + RteIpv4Hdr.totalLength)).toNat_lt
      simp only [List.mem_cons, List.not_mem_nil, or_false, l4Length] at h
      omega
  · exact m.le_of_mem_words h

theorem sum_pseudoWords_pos (h : m.get8 (ipv4Hdr + RteIpv4Hdr.nextProtoId) = ipprotoUdp) :
    0 < (pseudoWords m ipv4Hdr).sum := by
  rw [pseudoWords, h, List.sum_append, List.sum_cons]
  show 0 < _ + (17 + _)
  omega

theorem sum_udpWords_pos (udpHdr : Nat) (h : 0 < (pseudoWords m ipv4Hdr).sum) :
    0 < (udpWords m ipv4Hdr udpHdr).sum := by
  rw [udpWords, List.sum_append]
  omega

theorem sum_udpWords_eq_max_iff (udpHdr : Nat) (h : 0 < (pseudoWords m ipv4Hdr).sum) :
    OnesComplement.sum (udpWords m ipv4Hdr udpHdr) = 0xFFFF ↔
      (udpWords m ipv4Hdr udpHdr).sum % 65535 = 0 :=
  OnesComplement.sum_eq_max_iff (fun _ hw => le_of_mem_udpWords hw) (sum_udpWords_pos udpHdr h)

/-- The pseudo-header, the ports and the length, the checksum, and the payload. -/
theorem sum_udpWords_modEq (udpHdr : Nat) (hlen : l4Length m ipv4Hdr = 8 + 2 * k) :
    (udpWords m ipv4Hdr udpHdr).sum ≡ (pseudoWords m ipv4Hdr).sum + (Mem.getN 6 m udpHdr +
      ((m.get16 (udpHdr + RteUdpHdr.dgramCksum)).toNat + Mem.getN (2 * k) m (udpHdr + 8)))
      [MOD 65535] := by
  have hhalf : l4Length m ipv4Hdr / 2 = 4 + k := by omega
  have hfields : [6, 2, 2 * k].sum = 2 * (4 + k) := by
    simp only [List.sum_cons, List.sum_nil]
    omega
  rw [udpWords, hhalf, List.sum_append]
  apply Nat.ModEq.add_left
  have hsum := Mem.sum_words_modEq m udpHdr (4 + k)
  have hsplit := Mem.getN_modEq_fieldSum m udpHdr [6, 2, 2 * k]
  rw [hfields] at hsplit
  have hcksum := Mem.toNat_get16 m (udpHdr + 6)
  apply hsum.trans (hsplit.trans _)
  simp [Mem.fieldSum, Mem.weight, hcksum]
  rfl

/-- A frame over which the checksum was taken while it looked like `m`. -/
theorem acceptable_stored_iff {cksum : RteCksum} (h : ComplementsUdpSum cksum) {mbuf : RteMbuf}
    (hplain : PlainUdp m ipv4Off) (hlen : l4Length m ipv4Off = 8 + 2 * k)
    (hpseudo : pseudoWords mbuf.data ipv4Off = pseudoWords m ipv4Off)
    (hports : Mem.getN 6 mbuf.data udpOff = Mem.getN 6 m udpOff)
    (hcksum : mbuf.data.get16 (udpOff + RteUdpHdr.dgramCksum) =
      cksum.ipv4Udptcp m ipv4Off udpOff) :
    AcceptableUdpCksum mbuf ↔
      Mem.getN (2 * k) mbuf.data hopaOff ≡
        (m.get16 (udpOff + RteUdpHdr.dgramCksum)).toNat + Mem.getN (2 * k) m hopaOff
        [MOD 65535] := by
  have hlen' : l4Length mbuf.data ipv4Off = 8 + 2 * k := by
    have hlast := congrArg List.getLast? hpseudo
    simp only [pseudoWords, List.getLast?_append, List.getLast?_cons_cons, List.getLast?_singleton,
      Option.some_or, Option.some.injEq] at hlast
    rw [hlast, hlen]
  have hpos := sum_pseudoWords_pos hplain.nextProtoId
  have hpos' : 0 < (pseudoWords mbuf.data ipv4Off).sum := by rwa [hpseudo]
  -- the word stored is never 0, and it makes the sum it was taken of a zero
  have hword := h m ipv4Off udpOff hplain
  have hwords : ∀ w ∈ udpWords m ipv4Off udpOff, w ≤ 65535 := fun w hw => le_of_mem_udpWords hw
  have hne := OnesComplement.checkWord_pos hwords
  have hzero := OnesComplement.checkWord_add hwords (sum_udpWords_pos udpOff hpos)
  rw [← hword] at hne hzero
  have hnonzero : mbuf.data.get16 (udpOff + RteUdpHdr.dgramCksum) ≠ 0 := by
    rw [hcksum]
    intro he
    rw [he] at hne
    exact absurd hne (Nat.lt_irrefl 0)
  have hbefore := sum_udpWords_modEq udpOff hlen
  have hafter := sum_udpWords_modEq udpOff hlen'
  rw [hpseudo, hports, hcksum] at hafter
  rw [AcceptableUdpCksum, or_iff_right hnonzero, sum_udpWords_eq_max_iff udpOff hpos']
  simp only [Nat.ModEq] at hbefore hafter ⊢
  show _ ↔ Mem.getN (2 * k) mbuf.data (udpOff + 8) % 65535 =
    ((m.get16 (udpOff + RteUdpHdr.dgramCksum)).toNat + Mem.getN (2 * k) m (udpOff + 8)) % 65535
  omega

/-- The pseudo-header leaves out the checksum of the IPv4 header. -/
theorem pseudoWords_congr (h : ∀ k off, 14 ≤ off ∧ off + k ≤ 24 ∨ 26 ≤ off ∧ off + k ≤ 34 →
    Mem.getN k m' off = Mem.getN k m off) : pseudoWords m' ipv4Off = pseudoWords m ipv4Off := by
  have hlen : m'.get16 (ipv4Off + RteIpv4Hdr.totalLength) =
      m.get16 (ipv4Off + RteIpv4Hdr.totalLength) := congrArg UInt16.ofNat (h 2 _ (by decide))
  have hproto : m'.get8 (ipv4Off + RteIpv4Hdr.nextProtoId) =
      m.get8 (ipv4Off + RteIpv4Hdr.nextProtoId) := congrArg UInt8.ofNat (h 1 _ (by decide))
  have haddr : m'.words (ipv4Off + RteIpv4Hdr.srcAddr) 4 =
      m.words (ipv4Off + RteIpv4Hdr.srcAddr) 4 := by
    refine List.map_congr_left fun i hi => ?_
    have hi' := List.mem_range.mp hi
    rw [Mem.toNat_get16, Mem.toNat_get16]
    apply h
    right
    simp only [ipv4Off, RteEtherHdr.size, RteIpv4Hdr.srcAddr]
    omega
  rw [pseudoWords, pseudoWords, haddr, hproto, l4Length, hlen, l4Length]

end Sums

/-! ### `hopa_cp.c` -/

namespace HopaCp

/-- What the buffer held in the checksum field and in the fields of the HOPA header
that all encoders write. -/
def overwritten (m : Mem) : Nat :=
  (m.get16 (udpOff + RteUdpHdr.dgramCksum)).toNat + (m.get16 (hopaOff + HopaCpHdr.offFlag)).toNat +
    256 * (m.get8 (hopaOff + HopaCpHdr.offRepathId)).toNat +
    (m.get64 (hopaOff + HopaCpHdr.offSeq)).toNat + (m.get64 (hopaOff + HopaCpHdr.offAck)).toNat +
    256 * (m.get8 (hopaOff + HopaCpHdr.offRsvd)).toNat

/-- What the buffer held in the fields that no encoder writes. -/
def padding (m : Mem) : Nat :=
  Mem.getN 6 m (hopaOff + 2) + Mem.getN 7 m (hopaOff + 17) + Mem.getN 7 m (hopaOff + 41)

/-- The HOPA header counts by its fields. -/
theorem getN_hopaCpHdr_modEq (m : Mem) :
    (m.get16 (udpOff + RteUdpHdr.dgramCksum)).toNat + Mem.getN 48 m hopaOff ≡
      overwritten m + (m.get64 (hopaOff + HopaCpHdr.offTs)).toNat + padding m [MOD 65535] := by
  have hsplit := Mem.getN_modEq_fieldSum m hopaOff [2, 6, 8, 1, 7, 8, 8, 1, 7]
  simp only [overwritten, padding, Mem.toNat_get16, Mem.toNat_get64, Mem.toNat_get8]
  simp [Nat.ModEq, Mem.fieldSum, Mem.weight] at hsplit ⊢
  omega

theorem getN_fillHopaCpHdr_modEq (cpFlag : HopaCpFlag) (repathId : UInt8) (m : Mem) :
    Mem.getN 48 (fillHopaCpHdr cpFlag repathId hopaOff m) hopaOff ≡
      cpFlag.code.toNat + 256 * repathId.toNat + (m.get64 (hopaOff + HopaCpHdr.offTs)).toNat +
        padding m [MOD 65535] := by
  have hsplit := Mem.getN_modEq_fieldSum (fillHopaCpHdr cpFlag repathId hopaOff m) hopaOff
    [1, 1, 6, 8, 1, 7, 8, 8, 1, 7]
  apply hsplit.trans
  simp (disch := omega) [Nat.ModEq, Mem.fieldSum, Mem.weight, fillHopaCpHdr, padding,
    HopaModule.code, Mem.getN_putN_of_disjoint, Mem.getN_putN_same, Mem.toNat_get64]
  omega

/-- The time stamp goes in over what stood in its place. -/
theorem getN_put_ts_modEq (m : Mem) (ts : UInt64) :
    Mem.getN 48 (m.put64 (hopaOff + HopaCpHdr.offTs) ts) hopaOff +
        (m.get64 (hopaOff + HopaCpHdr.offTs)).toNat ≡
      Mem.getN 48 m hopaOff + ts.toNat [MOD 65535] := by
  have hsplit := Mem.getN_modEq_fieldSum m hopaOff [8, 8, 32]
  have hsplit' := Mem.getN_modEq_fieldSum (m.put64 (hopaOff + HopaCpHdr.offTs) ts) hopaOff
    [8, 8, 32]
  have hts := ts.toNat_lt
  simp (disch := omega) [Nat.ModEq, Mem.fieldSum, Mem.weight, Mem.getN_putN_of_disjoint,
    Mem.getN_putN_same, Mem.toNat_get64] at hsplit hsplit' ⊢
  omega

/-- What `encode_udp_pkt` takes the UDP checksum of. -/
def udpMem (cksum : RteCksum) (dstPort : UInt16) (m : Mem) : Mem :=
  fillUdpPorts srcPort dstPort 48 34
    (fillIpv4Header cksum endpoints 48 14 (fillEthHeader endpoints 0 m))

section UdpMem

variable (cksum : RteCksum) (dstPort : UInt16) (m : Mem)

theorem l4Length_udpMem : l4Length (udpMem cksum dstPort m) ipv4Off = 8 + 2 * 24 := by
  simp [l4Length, udpMem, fillUdpPorts, fillIpv4Header]

theorem plainUdp_udpMem : PlainUdp (udpMem cksum dstPort m) ipv4Off where
  versionIhl := by
    simp [udpMem, fillUdpPorts, fillIpv4Header]
    rfl
  nextProtoId := by simp [udpMem, fillUdpPorts, fillIpv4Header]
  totalLength := by simp [udpMem, fillUdpPorts, fillIpv4Header]
  even := by
    rw [l4Length_udpMem]
    exact ⟨28, rfl⟩

theorem getN_udpMem (k : Nat) {off : Nat} (hoff : 40 ≤ off) :
    Mem.getN k (udpMem cksum dstPort m) off = Mem.getN k m off := by
  simp (disch := omega) [udpMem, fillUdpPorts, fillIpv4Header, fillEthHeader,
    Mem.getN_putN_of_disjoint]

end UdpMem

theorem data_encodeUdpPkt {cksum : RteCksum} {buf udp : RteMbuf} {dstPort : UInt16}
    (hok : encodeUdpPkt cksum (some buf) dstPort = .ok udp) :
    udp.data = (udpMem cksum dstPort buf.data).put16 (udpOff + RteUdpHdr.dgramCksum)
      (cksum.ipv4Udptcp (udpMem cksum dstPort buf.data) ipv4Off udpOff) := by
  obtain rfl := Except.ok.inj hok
  rfl

/-- A HOPA header written behind that packet leaves an acceptable checksum exactly when
it counts as much as what it was written over, the checksum field included. -/
theorem acceptable_append_iff {cksum : RteCksum} (h : ComplementsUdpSum cksum)
    {buf udp mbuf : RteMbuf} {dstPort : UInt16}
    (hok : encodeUdpPkt cksum (some buf) dstPort = .ok udp) {f : Mem → Mem}
    (hdata : mbuf.data = f udp.data)
    (hf : ∀ m k off, off + k ≤ 42 → Mem.getN k (f m) off = Mem.getN k m off) :
    AcceptableUdpCksum mbuf ↔ Mem.getN 48 mbuf.data hopaOff ≡
      overwritten buf.data + (buf.data.get64 (hopaOff + HopaCpHdr.offTs)).toNat + padding buf.data
      [MOD 65535] := by
  have hudp := data_encodeUdpPkt hok
  have hsame : ∀ k off, off + k ≤ 40 →
      Mem.getN k mbuf.data off = Mem.getN k (udpMem cksum dstPort buf.data) off := by
    intro k off hoff
    rw [hdata, hf _ _ _ (by omega), hudp]
    exact Mem.getN_putN_of_disjoint _ _ (Or.inl hoff)
  have hcksum : mbuf.data.get16 (udpOff + RteUdpHdr.dgramCksum) =
      cksum.ipv4Udptcp (udpMem cksum dstPort buf.data) ipv4Off udpOff := by
    have hstored := hf udp.data 2 (udpOff + RteUdpHdr.dgramCksum) (by decide)
    rw [hdata, Mem.get16, hstored, hudp]
    exact Mem.get16_put16 _ _ _
  have hpseudo := pseudoWords_congr fun k off hoff => hsame k off (by omega)
  rw [acceptable_stored_iff h (plainUdp_udpMem cksum dstPort buf.data)
    (l4Length_udpMem cksum dstPort buf.data) hpseudo (hsame 6 _ (by decide)) hcksum,
    Mem.toNat_get16, getN_udpMem _ _ _ 2 (by decide), getN_udpMem _ _ _ _ (by decide),
    ← Mem.toNat_get16]
  have hfields := getN_hopaCpHdr_modEq buf.data
  exact ⟨fun he => he.trans hfields, fun he => he.trans hfields.symm⟩

theorem getN_fillHopaCpHdr_of_le (cpFlag : HopaCpFlag) (repathId : UInt8) (m : Mem) (k off : Nat)
    (hoff : off + k ≤ 42) :
    Mem.getN k (fillHopaCpHdr cpFlag repathId hopaOff m) off = Mem.getN k m off := by
  simp (disch := omega) [fillHopaCpHdr, Mem.getN_putN_of_disjoint]

/-- Behind the UDP header the packet of `encode_udp_pkt` is the buffer as it was. -/
theorem getN_encodeUdpPkt {cksum : RteCksum} {buf udp : RteMbuf} {dstPort : UInt16}
    (hok : encodeUdpPkt cksum (some buf) dstPort = .ok udp) (k : Nat) {off : Nat}
    (hoff : 42 ≤ off) : Mem.getN k udp.data off = Mem.getN k buf.data off := by
  rw [data_encodeUdpPkt hok, ← getN_udpMem cksum dstPort buf.data k (by omega)]
  exact Mem.getN_putN_of_disjoint _ _ (Or.inr hoff)

theorem padding_encodeUdpPkt {cksum : RteCksum} {buf udp : RteMbuf} {dstPort : UInt16}
    (hok : encodeUdpPkt cksum (some buf) dstPort = .ok udp) :
    padding udp.data = padding buf.data := by
  rw [padding, getN_encodeUdpPkt hok 6 (by decide), getN_encodeUdpPkt hok 7 (by decide),
    getN_encodeUdpPkt hok 7 (by decide)]
  rfl

theorem get64_ts_encodeUdpPkt {cksum : RteCksum} {buf udp : RteMbuf} {dstPort : UInt16}
    (hok : encodeUdpPkt cksum (some buf) dstPort = .ok udp) :
    udp.data.get64 (hopaOff + HopaCpHdr.offTs) = buf.data.get64 (hopaOff + HopaCpHdr.offTs) :=
  congrArg UInt64.ofNat (getN_encodeUdpPkt hok 8 (by decide))

/-- An encoder that leaves the time stamp alone. -/
theorem acceptable_fillHopaCpHdr_iff {cksum : RteCksum} (h : ComplementsUdpSum cksum)
    {buf udp : RteMbuf} {dstPort : UInt16}
    (hok : encodeUdpPkt cksum (some buf) dstPort = .ok udp) (cpFlag : HopaCpFlag)
    (repathId : UInt8) :
    AcceptableUdpCksum ((rtePktmbufAppend udp HopaCpHdr.size).2.store
      (fillHopaCpHdr cpFlag repathId udp.dataLen)) ↔
      cpFlag.code.toNat + 256 * repathId.toNat ≡ overwritten buf.data [MOD 65535] := by
  have hlen : udp.dataLen = hopaOff := dataLen_encodeUdpPkt hok
  rw [hlen, acceptable_append_iff h hok (f := fillHopaCpHdr cpFlag repathId hopaOff) rfl
    (getN_fillHopaCpHdr_of_le cpFlag repathId)]
  have hwritten := getN_fillHopaCpHdr_modEq cpFlag repathId udp.data
  rw [padding_encodeUdpPkt hok, get64_ts_encodeUdpPkt hok] at hwritten
  simp only [Nat.ModEq] at hwritten ⊢
  show Mem.getN 48 (fillHopaCpHdr cpFlag repathId hopaOff udp.data) hopaOff % 65535 = _ ↔ _
  omega

/-- `encode_probe_pkt` writes the time stamp last. -/
theorem acceptable_put_ts_iff {cksum : RteCksum} (h : ComplementsUdpSum cksum)
    {buf udp : RteMbuf} {dstPort : UInt16}
    (hok : encodeUdpPkt cksum (some buf) dstPort = .ok udp) (cpFlag : HopaCpFlag)
    (repathId : UInt8) (ts : UInt64) :
    AcceptableUdpCksum (((rtePktmbufAppend udp HopaCpHdr.size).2.store
      (fillHopaCpHdr cpFlag repathId udp.dataLen)).store
        fun m => m.put64 (udp.dataLen + HopaCpHdr.offTs) ts) ↔
      cpFlag.code.toNat + 256 * repathId.toNat + ts.toNat ≡
        overwritten buf.data + (buf.data.get64 (hopaOff + HopaCpHdr.offTs)).toNat
        [MOD 65535] := by
  have hlen : udp.dataLen = hopaOff := dataLen_encodeUdpPkt hok
  have hbehind : ∀ m k off, off + k ≤ 42 → Mem.getN k ((fillHopaCpHdr cpFlag repathId hopaOff
      m).put64 (hopaOff + HopaCpHdr.offTs) ts) off = Mem.getN k m off := by
    intro m k off hoff
    rw [← getN_fillHopaCpHdr_of_le cpFlag repathId m k off hoff]
    apply Mem.getN_putN_of_disjoint
    left
    exact hoff.trans (by decide)
  rw [hlen, acceptable_append_iff h hok (f := fun m => (fillHopaCpHdr cpFlag repathId hopaOff
    m).put64 (hopaOff + HopaCpHdr.offTs) ts) rfl hbehind]
  have hstamped := getN_put_ts_modEq (fillHopaCpHdr cpFlag repathId hopaOff udp.data) ts
  have hwritten := getN_fillHopaCpHdr_modEq cpFlag repathId udp.data
  rw [padding_encodeUdpPkt hok] at hwritten
  have hold : (fillHopaCpHdr cpFlag repathId hopaOff udp.data).get64 (hopaOff + HopaCpHdr.offTs) =
      udp.data.get64 (hopaOff + HopaCpHdr.offTs) := by
    simp [fillHopaCpHdr]
  rw [hold] at hstamped
  simp only [Nat.ModEq] at hstamped hwritten ⊢
  show Mem.getN 48 ((fillHopaCpHdr cpFlag repathId hopaOff udp.data).put64
    (hopaOff + HopaCpHdr.offTs) ts) hopaOff % 65535 = _ ↔ _
  omega

section Encoders

variable {cksum : RteCksum}

theorem exists_encodeProbePkt_acceptable_iff (h : ComplementsUdpSum cksum) (buf : RteMbuf)
    (clock : Timespec) (pathId : UInt8) : ∃ mbuf,
    encodeProbePkt cksum (some buf) (some clock) pathId = .ok mbuf ∧
      (AcceptableUdpCksum mbuf ↔ clock.ns.toNat ≡ overwritten buf.data +
        (buf.data.get64 (hopaOff + HopaCpHdr.offTs)).toNat [MOD 65535]) := by
  have hudp : ∃ udp, encodeUdpPkt cksum (some buf) (dstPortPath1 - 1 + pathId.toUInt16) =
    .ok udp := ⟨_, rfl⟩
  obtain ⟨udp, hok⟩ := hudp
  have hts := acceptable_put_ts_iff h hok .probe 0 clock.ns
  rw [encodeProbePkt, hok]
  refine ⟨_, rfl, hts.trans ?_⟩
  simp [HopaCpFlag.code]

theorem exists_encodeRepathPkt_acceptable_iff (h : ComplementsUdpSum cksum) (buf : RteMbuf)
    (optPathId repathId : UInt8) : ∃ mbuf,
    encodeRepathPkt cksum (some buf) optPathId repathId = .ok mbuf ∧
      (AcceptableUdpCksum mbuf ↔ 1 + 256 * repathId.toNat ≡ overwritten buf.data [MOD 65535]) := by
  have hudp : ∃ udp, encodeUdpPkt cksum (some buf) (dstPortPath1 - 1 + optPathId.toUInt16) =
    .ok udp := ⟨_, rfl⟩
  obtain ⟨udp, hok⟩ := hudp
  rw [encodeRepathPkt, hok]
  exact ⟨_, rfl, acceptable_fillHopaCpHdr_iff h hok .repath repathId⟩

theorem exists_encodeRepathAckPkt_acceptable_iff (h : ComplementsUdpSum cksum) (buf : RteMbuf)
    (optPathId : UInt8) : ∃ mbuf,
    encodeRepathAckPkt cksum (some buf) optPathId = .ok mbuf ∧
      (AcceptableUdpCksum mbuf ↔ 2 ≡ overwritten buf.data [MOD 65535]) := by
  have hudp : ∃ udp, encodeUdpPkt cksum (some buf) (dstPortPath1 - 1 + optPathId.toUInt16) =
    .ok udp := ⟨_, rfl⟩
  obtain ⟨udp, hok⟩ := hudp
  rw [encodeRepathAckPkt, hok]
  exact ⟨_, rfl, acceptable_fillHopaCpHdr_iff h hok .repathAck 0⟩

end Encoders

end HopaCp

/-! ### The vswitchd builds -/

namespace Ovs

/-- What a HOPA header counts for, without its padding. -/
def hdrSum (hdr : HopaCpHdr) : Nat :=
  256 * hdr.flag.toNat + hdr.cpFlag.toNat + 256 * hdr.probePathId.toNat + hdr.repathId.toNat +
    256 * hdr.rsvd.toNat + hdr.seq.toNat + hdr.ack.toNat + hdr.ts.toNat

/-- The checksum field held a 0, or a number that makes the sum a zero: 18371 is what
the addresses, ports and lengths count for, but for the number added to the port. -/
def StaleAcceptable (m : Mem) (portNb : UInt8) (hdr : HopaCpHdr) : Prop :=
  m.get16 (udpOff + RteUdpHdr.dgramCksum) = 0 ∨
    (m.get16 (udpOff + RteUdpHdr.dgramCksum)).toNat + 18371 + portNb.toNat + hdrSum hdr +
      Mem.getN 3 m (hopaOff + 5) ≡ 0 [MOD 65535]

instance (m : Mem) (portNb : UInt8) (hdr : HopaCpHdr) : Decidable (StaleAcceptable m portNb hdr) :=
  inferInstanceAs (Decidable (_ ∨ _))

section Frame

variable (node : Node) (cksum : RteCksum) (buf : RteMbuf) (portNb : UInt8) (hdr : HopaCpHdr)

theorem l4Length_encodeCpPkt :
    l4Length (encodeCpPkt node cksum buf portNb hdr).data ipv4Off = 8 + 2 * 16 := by
  simp [l4Length, encodeCpPkt, fillUdpPorts, fillIpv4Header, fillHopaCpHdr]

theorem nextProtoId_encodeCpPkt : (encodeCpPkt node cksum buf portNb hdr).data.get8
    (ipv4Off + RteIpv4Hdr.nextProtoId) = ipprotoUdp := by
  simp [encodeCpPkt, fillUdpPorts, fillIpv4Header, fillHopaCpHdr]

theorem sum_pseudoWords_encodeCpPkt :
    (pseudoWords (encodeCpPkt node cksum buf portNb hdr).data ipv4Off).sum ≡ 5007 [MOD 65535] := by
  have haddr : Mem.getN 8 (encodeCpPkt node cksum buf portNb hdr).data 26 ≡ 4950 [MOD 65535] := by
    have hsplit := Mem.getN_modEq_fieldSum (encodeCpPkt node cksum buf portNb hdr).data 26 [4, 4]
    apply hsplit.trans
    simp (disch := omega) [Nat.ModEq, Mem.fieldSum, Mem.weight, encodeCpPkt, fillUdpPorts,
      fillIpv4Header, fillHopaCpHdr, Mem.getN_putN_of_disjoint, Mem.getN_putN_same]
    cases node with
    | cq => rfl
    | yy => rfl
  have hwords := (Mem.sum_words_modEq (encodeCpPkt node cksum buf portNb hdr).data 26 4).trans haddr
  rw [pseudoWords, nextProtoId_encodeCpPkt, l4Length_encodeCpPkt, List.sum_append]
  exact hwords.add_right 57

theorem getN_ports_encodeCpPkt :
    Mem.getN 6 (encodeCpPkt node cksum buf portNb hdr).data udpOff ≡ 13364 + portNb.toNat
      [MOD 65535] := by
  have hport : (dstPort + portNb.toUInt16).toNat = 8880 + portNb.toNat := by
    have hlt := portNb.toNat_lt
    rw [UInt16.toNat_add, UInt8.toNat_toUInt16]
    show (8880 + portNb.toNat) % 65536 = _
    omega
  have hsplit := Mem.getN_modEq_fieldSum (encodeCpPkt node cksum buf portNb hdr).data udpOff
    [2, 2, 2]
  apply hsplit.trans
  simp (disch := omega) [Nat.ModEq, Mem.fieldSum, Mem.weight, encodeCpPkt, fillUdpPorts,
    fillHopaCpHdr, Mem.getN_putN_of_disjoint, Mem.getN_putN_same, hport, srcPort]
  have hlt := portNb.toNat_lt
  omega

theorem getN_hopaCpHdr_encodeCpPkt :
    Mem.getN 32 (encodeCpPkt node cksum buf portNb hdr).data hopaOff ≡
      hdrSum hdr + Mem.getN 3 buf.data (hopaOff + 5) [MOD 65535] := by
  have hsplit := Mem.getN_modEq_fieldSum (encodeCpPkt node cksum buf portNb hdr).data hopaOff
    [1, 1, 1, 1, 1, 3, 8, 8, 8]
  apply hsplit.trans
  simp (disch := omega) [Nat.ModEq, Mem.fieldSum, Mem.weight, encodeCpPkt, fillUdpPorts,
    fillIpv4Header, fillEthHeader, fillHopaCpHdr, hdrSum, Mem.getN_putN_of_disjoint,
    Mem.getN_putN_same]
  omega

/-- The frame of a vswitchd build carries what the buffer held as its checksum. -/
theorem acceptable_encodeCpPkt_iff :
    AcceptableUdpCksum (encodeCpPkt node cksum buf portNb hdr) ↔
      StaleAcceptable buf.data portNb hdr := by
  have hstale : (encodeCpPkt node cksum buf portNb hdr).data.get16
      (udpOff + RteUdpHdr.dgramCksum) = buf.data.get16 (udpOff + RteUdpHdr.dgramCksum) := by
    simp [encodeCpPkt, fillUdpPorts, fillIpv4Header, fillEthHeader, fillHopaCpHdr]
  have hpos := sum_pseudoWords_pos (nextProtoId_encodeCpPkt node cksum buf portNb hdr)
  have hsum := sum_udpWords_modEq udpOff
    (l4Length_encodeCpPkt node cksum buf portNb hdr)
  have hpseudo := sum_pseudoWords_encodeCpPkt node cksum buf portNb hdr
  have hports := getN_ports_encodeCpPkt node cksum buf portNb hdr
  have hhopa := getN_hopaCpHdr_encodeCpPkt node cksum buf portNb hdr
  rw [AcceptableUdpCksum, StaleAcceptable, hstale, sum_udpWords_eq_max_iff udpOff hpos]
  apply or_congr_right
  rw [hstale] at hsum
  have htotal := hsum.trans (hpseudo.add (hports.add ((Nat.ModEq.refl _).add hhopa)))
  simp only [Nat.ModEq] at htotal ⊢
  omega

end Frame

end Ovs

/-! ### All encoders -/

/-- Every encoder of the two programs, with the contents of its buffer for which the
frame it completes carries an acceptable UDP checksum. -/
theorem encoders_udp_cksum_iff {cksum : RteCksum} (h : ComplementsUdpSum cksum) (buf : RteMbuf) :
    (∀ clock pathId, ∃ mbuf,
      HopaCp.encodeProbePkt cksum (some buf) (some clock) pathId = .ok mbuf ∧
      (AcceptableUdpCksum mbuf ↔ clock.ns.toNat ≡ HopaCp.overwritten buf.data +
        (buf.data.get64 (hopaOff + HopaCp.HopaCpHdr.offTs)).toNat [MOD 65535])) ∧
    (∀ optPathId repathId, ∃ mbuf,
      HopaCp.encodeRepathPkt cksum (some buf) optPathId repathId = .ok mbuf ∧
      (AcceptableUdpCksum mbuf ↔
        1 + 256 * repathId.toNat ≡ HopaCp.overwritten buf.data [MOD 65535])) ∧
    (∀ optPathId, ∃ mbuf, HopaCp.encodeRepathAckPkt cksum (some buf) optPathId = .ok mbuf ∧
      (AcceptableUdpCksum mbuf ↔ 2 ≡ HopaCp.overwritten buf.data [MOD 65535])) ∧
    (∀ node clock pathId, ∃ mbuf,
      Ovs.encodeProbePkt node cksum (some buf) clock pathId = some mbuf ∧
      (AcceptableUdpCksum mbuf ↔
        Ovs.StaleAcceptable buf.data pathId (Ovs.probeHdr pathId clock.ns))) ∧
    (∀ node repathId, ∃ mbuf, Ovs.encodeRepathPkt node cksum (some buf) repathId = some mbuf ∧
      (AcceptableUdpCksum mbuf ↔
        Ovs.StaleAcceptable buf.data repathId (Ovs.repathHdr repathId))) := by
  refine ⟨HopaCp.exists_encodeProbePkt_acceptable_iff h buf,
    HopaCp.exists_encodeRepathPkt_acceptable_iff h buf,
    HopaCp.exists_encodeRepathAckPkt_acceptable_iff h buf, fun node clock pathId => ?_,
    fun node repathId => ?_⟩
  · exact ⟨_, rfl, Ovs.acceptable_encodeCpPkt_iff node cksum buf pathId _⟩
  · exact ⟨_, rfl, Ovs.acceptable_encodeCpPkt_iff node cksum buf repathId _⟩

/-- Both routines of DPDK. -/
def dpdkCksum : RteCksum :=
  { ipv4 := complementCksum.ipv4
    ipv4Udptcp := fun m ipv4Hdr udpHdr =>
      UInt16.ofNat (OnesComplement.checkWord (udpWords m ipv4Hdr udpHdr)) }

theorem complementsUdpSum_dpdkCksum : ComplementsUdpSum dpdkCksum := by
  intro m ipv4Hdr udpHdr _
  show (UInt16.ofNat _).toNat = _
  rw [UInt16.toNat_ofNat']
  exact Nat.mod_eq_of_lt (Nat.lt_succ_of_le (OnesComplement.checkWord_le _))

/-- In a zeroed buffer a probe is acceptable whose time stamp counts as a zero. -/
theorem encoders_udp_cksum_zeroed :
    ∃ mbuf, HopaCp.encodeProbePkt dpdkCksum (some zeroBuf) (some ⟨0, 65535⟩) 1 = .ok mbuf ∧
      AcceptableUdpCksum mbuf := by
  obtain ⟨hprobe, -⟩ := encoders_udp_cksum_iff complementsUdpSum_dpdkCksum zeroBuf
  obtain ⟨mbuf, hok, hiff⟩ := hprobe ⟨0, 65535⟩ 1
  exact ⟨mbuf, hok, hiff.mpr (by decide)⟩

/-- In a zeroed buffer `encode_repath_pkt` leaves the checksum of a header of zeros, and
in a buffer full of ones the vswitchd builds send the ones. -/
theorem not_acceptable_recycled :
    (∃ mbuf, HopaCp.encodeRepathPkt dpdkCksum (some zeroBuf) 0 2 = .ok mbuf ∧
      ¬ AcceptableUdpCksum mbuf) ∧
    (∃ mbuf, Ovs.encodeProbePkt .cq dpdkCksum (some onesBuf) ⟨0, 0⟩ 0 = some mbuf ∧
      ¬ AcceptableUdpCksum mbuf) ∧
    (∃ mbuf, Ovs.encodeRepathPkt .yy dpdkCksum (some onesBuf) 2 = some mbuf ∧
      ¬ AcceptableUdpCksum mbuf) := by
  have hC := complementsUdpSum_dpdkCksum
  obtain ⟨mbuf, hok, hiff⟩ := HopaCp.exists_encodeRepathPkt_acceptable_iff hC zeroBuf 0 2
  refine ⟨⟨mbuf, hok, fun hacc => ?_⟩, ⟨_, rfl, fun hacc => ?_⟩, ⟨_, rfl, fun hacc => ?_⟩⟩
  · exact absurd (hiff.mp hacc) (by decide)
  · exact absurd ((Ovs.acceptable_encodeCpPkt_iff .cq dpdkCksum onesBuf 0 _).mp hacc) (by decide)
  · exact absurd ((Ovs.acceptable_encodeCpPkt_iff .yy dpdkCksum onesBuf 2 _).mp hacc) (by decide)

end Repath
