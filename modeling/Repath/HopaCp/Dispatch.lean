import Repath.Dpdk.Frame
import Repath.HopaCp.Progress

/-!
# Soundness of the dispatch in `lcore_stats`

The packet loop classifies a frame by five fields at fixed offsets.  It reads
neither the EtherType nor the header length nor the fragment field, and no
length, so a frame may be read past its end or handled without being a HOPA
packet.
-/

namespace Repath.HopaCp

open Exec

/-- `classify` with every read checked against the frame's length. -/
def classifyFrame (f : Frame) : Except Stop Handler := do
  let nextProtoId ← f.get Mem.get8 (ipv4Off + RteIpv4Hdr.nextProtoId) 1
  if nextProtoId = ipprotoUdp then
    let srcPort ← f.get Mem.get16 (udpOff + RteUdpHdr.srcPort) 2
    if srcPort = HopaCp.srcPort then
      let flag ← f.get Mem.get8 (hopaOff + HopaCpHdr.offFlag) 1
      if flag = HopaModule.hopaCp.code then
        let cpFlag ← f.get Mem.get8 (hopaOff + HopaCpHdr.offCpFlag) 1
        match HopaCpFlag.ofCode cpFlag with
        | some .probe => .ok .probe
        | some .repath => .ok .repath
        | some .repathAck => .ok .repathAck
        | none => .ok .skip
      else if flag = HopaModule.hopaDp.code then .ok .dpTs
      else .ok .skip
    else .ok .skip
  else .ok .skip

/-- The fields a handler reads of the packet it is given. -/
def handlerReads (f : Frame) : Handler → Except Stop Unit
  | .probe => do
    let _ ← f.get Mem.get16 (udpOff + RteUdpHdr.dstPort) 2
    let _ ← f.get Mem.get64 (hopaOff + HopaCpHdr.offTs) 8
    .ok ()
  | _ => .ok ()

/-- `lcoreStats` with every read checked. -/
def lcoreStatsFrame (pf : Platform) (f : Frame) (clock : Option Timespec)
    (alloc : Option RteMbuf) (s : State) : Except Stop (State × List RteMbuf) := do
  let h ← classifyFrame f
  handlerReads f h
  lcoreStats pf { mbuf := f.mbuf, clock := clock, alloc := alloc } s

/-- `sizeof(struct hopa_dp_hdr)`. -/
def hopaDpHdrSize : Nat := 32

/-- Size of the HOPA header a handler is for. -/
def hopaHdrSize : Handler → Nat
  | .probe => HopaCpHdr.size
  | .repath => HopaCpHdr.size
  | .repathAck => HopaCpHdr.size
  | .dpTs => hopaDpHdrSize
  | .skip => 0

/-- A HOPA packet for handler `h`. -/
structure IsHopaPacket (f : Frame) (h : Handler) : Prop where
  carriesUdp : CarriesUdp f.mbuf
  src : ownSrcPort f.mbuf = srcPort
  holdsHdr : hopaOff + hopaHdrSize h ≤ f.length

/-- The classification and the handler stay inside the frame, a handler runs only
on a HOPA packet, and a frame for which none runs changes nothing. -/
def DispatchSound (pf : Platform) (f : Frame) : Prop :=
  ∃ h, classifyFrame f = .ok h ∧ handlerReads f h = .ok () ∧
    (h ≠ .skip → IsHopaPacket f h) ∧
    (h = .skip → ∀ clock alloc s, lcoreStatsFrame pf f clock alloc s = .ok (s, []))

/-- The frame holds the fields that the classification goes on to read. -/
def Classifiable (f : Frame) : Prop :=
  24 ≤ f.length ∧ (nextProtoIdOf f.mbuf = ipprotoUdp → 36 ≤ f.length ∧
    (srcPortOf f.mbuf = srcPort → 43 ≤ f.length ∧
      (flagOf f.mbuf = HopaModule.hopaCp.code → 44 ≤ f.length)))

/-- The fields that the classification leaves out. -/
def PlainIpv4 (m : RteMbuf) : Prop :=
  etherTypeOf m = rteEtherTypeIpv4 ∧ versionIhlOf m = 0x45 ∧ ¬ IsFragment m

/-! ### The classification -/

theorem classifyFrame_classifiable {f : Frame} (h : Classifiable f) :
    classifyFrame f = .ok (classify f.mbuf) := by
  obtain ⟨h24, h⟩ := h
  rw [classifyFrame, classify, Frame.get_of_le _ h24]
  show (if nextProtoIdOf f.mbuf = ipprotoUdp then _ else _) = _
  by_cases hproto : nextProtoIdOf f.mbuf = ipprotoUdp
  · obtain ⟨h36, h⟩ := h hproto
    rw [if_pos hproto, if_pos hproto, Frame.get_of_le _ h36]
    show (if srcPortOf f.mbuf = srcPort then _ else _) = _
    by_cases hsrc : srcPortOf f.mbuf = srcPort
    · obtain ⟨h43, h⟩ := h hsrc
      rw [if_pos hsrc, if_pos hsrc, Frame.get_of_le _ h43]
      show (if flagOf f.mbuf = HopaModule.hopaCp.code then _ else _) = _
      by_cases hflag : flagOf f.mbuf = HopaModule.hopaCp.code
      · rw [if_pos hflag, if_pos hflag, Frame.get_of_le _ (h hflag)]
        show (match HopaCpFlag.ofCode (cpFlagOf f.mbuf) with
          | some .probe => _ | some .repath => _ | some .repathAck => _ | none => _) = _
        cases HopaCpFlag.ofCode (cpFlagOf f.mbuf) with
        | none => rfl
        | some cpFlag => cases cpFlag <;> rfl
      · rw [if_neg hflag, if_neg hflag]
        show (if flagOf f.mbuf = HopaModule.hopaDp.code then _ else _) = _
        by_cases hdp : flagOf f.mbuf = HopaModule.hopaDp.code
        · rw [if_pos hdp, if_pos hdp]
        · rw [if_neg hdp, if_neg hdp]
    · rw [if_neg hsrc, if_neg hsrc]
  · rw [if_neg hproto, if_neg hproto]

theorem classifiable_of_classifyFrame {f : Frame} {h : Handler}
    (hok : classifyFrame f = .ok h) : Classifiable f := by
  obtain ⟨nextProtoId, hread, hok⟩ := bind_eq_ok_iff.mp hok
  obtain ⟨h24, rfl⟩ := Frame.get_eq_ok_iff.mp hread
  refine ⟨h24, fun hproto => ?_⟩
  change (if nextProtoIdOf f.mbuf = ipprotoUdp then _ else _) = _ at hok
  rw [if_pos hproto] at hok
  obtain ⟨sport, hread, hok⟩ := bind_eq_ok_iff.mp hok
  obtain ⟨h36, rfl⟩ := Frame.get_eq_ok_iff.mp hread
  refine ⟨h36, fun hsrc => ?_⟩
  change (if srcPortOf f.mbuf = srcPort then _ else _) = _ at hok
  rw [if_pos hsrc] at hok
  obtain ⟨flag, hread, hok⟩ := bind_eq_ok_iff.mp hok
  obtain ⟨h43, rfl⟩ := Frame.get_eq_ok_iff.mp hread
  refine ⟨h43, fun hflag => ?_⟩
  change (if flagOf f.mbuf = HopaModule.hopaCp.code then _ else _) = _ at hok
  rw [if_pos hflag] at hok
  obtain ⟨cpFlag, hread, -⟩ := bind_eq_ok_iff.mp hok
  exact (Frame.get_eq_ok_iff.mp hread).1

theorem classify_fields {m : RteMbuf} (h : classify m ≠ .skip) :
    nextProtoIdOf m = ipprotoUdp ∧ srcPortOf m = srcPort := by
  by_cases hproto : nextProtoIdOf m = ipprotoUdp
  · by_cases hsrc : srcPortOf m = srcPort
    · exact ⟨hproto, hsrc⟩
    · exact absurd (by rw [classify, if_pos hproto, if_neg hsrc]) h
  · exact absurd (by rw [classify, if_neg hproto]) h

theorem handlerReads_of_holdsHdr {f : Frame} {h : Handler}
    (hlen : hopaOff + hopaHdrSize h ≤ f.length) : handlerReads f h = .ok () := by
  cases h with
  | probe =>
      have hread : ∀ off n, off + n ≤ 90 → off + n ≤ f.length := fun off n ho => ho.trans hlen
      rw [handlerReads, Frame.get_of_le _ (hread _ _ (by decide)),
        Frame.get_of_le _ (hread _ _ (by decide))]
      rfl
  | repath => rfl
  | repathAck => rfl
  | dpTs => rfl
  | skip => rfl

/-! ### Soundness -/

theorem isHopaPacket_iff {f : Frame} (h : classify f.mbuf ≠ .skip) :
    IsHopaPacket f (classify f.mbuf) ↔
      PlainIpv4 f.mbuf ∧ hopaOff + hopaHdrSize (classify f.mbuf) ≤ f.length := by
  obtain ⟨hproto, hsrc⟩ := classify_fields h
  constructor
  · intro hp
    have hihl := versionIhl_iff.mp ⟨hp.carriesUdp.version, hp.carriesUdp.hdrLen⟩
    exact ⟨⟨hp.carriesUdp.etherType, hihl, hp.carriesUdp.whole⟩, hp.holdsHdr⟩
  · intro hplain
    obtain ⟨⟨heth, hihl, hwhole⟩, hlen⟩ := hplain
    obtain ⟨hversion, hhdrLen⟩ := versionIhl_iff.mpr hihl
    have hudp : CarriesUdp f.mbuf := ⟨heth, hversion, hhdrLen, hwhole, hproto⟩
    exact ⟨hudp, hudp.ownSrcPort.trans hsrc, hlen⟩

/-- The dispatch is sound on a frame if and only if the frame holds the fields the
classification reads, and one that is handed to a handler has a plain IPv4 header
and holds the handler's HOPA header. -/
theorem dispatchSound_iff (pf : Platform) (f : Frame) :
    DispatchSound pf f ↔ Classifiable f ∧ (classify f.mbuf ≠ .skip →
      PlainIpv4 f.mbuf ∧ hopaOff + hopaHdrSize (classify f.mbuf) ≤ f.length) := by
  constructor
  · intro hsound
    obtain ⟨h, hok, -, hpacket, -⟩ := hsound
    have hclass := classifiable_of_classifyFrame hok
    obtain rfl := Except.ok.inj ((classifyFrame_classifiable hclass).symm.trans hok)
    exact ⟨hclass, fun hskip => (isHopaPacket_iff hskip).mp (hpacket hskip)⟩
  · intro hcond
    obtain ⟨hclass, hplain⟩ := hcond
    have hok := classifyFrame_classifiable hclass
    by_cases hskip : classify f.mbuf = .skip
    · rw [hskip] at hok
      refine ⟨.skip, hok, rfl, fun hne => absurd rfl hne, fun _ clock alloc s => ?_⟩
      rw [lcoreStatsFrame, hok]
      show lcoreStats pf _ s = _
      rw [lcoreStats, hskip]
    · have hlen := (hplain hskip).2
      exact ⟨_, hok, handlerReads_of_holdsHdr hlen,
        fun _ => (isHopaPacket_iff hskip).mpr (hplain hskip), fun he => absurd he hskip⟩

/-- On a sound dispatch the checks never fire. -/
theorem lcoreStatsFrame_eq {pf : Platform} {f : Frame} (h : DispatchSound pf f)
    (clock : Option Timespec) (alloc : Option RteMbuf) (s : State) :
    lcoreStatsFrame pf f clock alloc s =
      lcoreStats pf { mbuf := f.mbuf, clock := clock, alloc := alloc } s := by
  obtain ⟨h, hok, hreads, -⟩ := h
  rw [lcoreStatsFrame, hok]
  show (handlerReads f h >>= fun _ => _) = _
  rw [hreads]
  rfl

theorem exists_probe_etherType (etherType : UInt16) : ∃ f : Frame,
    classify f.mbuf = .probe ∧ etherTypeOf f.mbuf = etherType ∧ f.length = 90 := by
  have hudp : ∃ udp, encodeUdpPkt default (some zeroBuf) 5678 = .ok udp := ⟨_, rfl⟩
  obtain ⟨udp, hudp⟩ := hudp
  have hframe := isCpFrame_fill hudp .probe 0
  let m := (rtePktmbufAppend udp HopaCpHdr.size).2.store (fillHopaCpHdr .probe 0 udp.dataLen)
  let m' := m.store fun d => d.put16 RteEtherHdr.etherType etherType
  have hproto : nextProtoIdOf m' = nextProtoIdOf m := by simp [m', nextProtoIdOf]
  have hsrc : srcPortOf m' = srcPortOf m := by simp [m', srcPortOf]
  have hflag : flagOf m' = flagOf m := by simp [m', flagOf]
  have hcp : cpFlagOf m' = cpFlagOf m := by simp [m', cpFlagOf]
  have hkind : classify m' = .probe := by
    rw [classify, hproto, hsrc, hflag, hcp]
    exact classify_of_isCpFrame hframe
  have heth : etherTypeOf m' = etherType := by simp [m', etherTypeOf]
  have hlen : m'.dataLen = 90 := hframe.dataLen
  have hpkt : m'.pktLen = 90 := hframe.pktLen
  exact ⟨⟨m', hpkt.trans hlen.symm⟩, hkind, heth, hlen⟩

/-- An empty frame is read past its end, and a frame of another EtherType runs the
PROBE handler. -/
theorem not_dispatchSound : ¬ DispatchSound default emptyFrame ∧
    ∃ f : Frame, etherTypeOf f.mbuf = 0x86dd ∧ classify f.mbuf = .probe ∧
      ¬ DispatchSound default f := by
  constructor
  · intro h
    obtain ⟨h, hok, -⟩ := h
    exact absurd (classifiable_of_classifyFrame hok).1 (by decide)
  · obtain ⟨f, hkind, heth, -⟩ := exists_probe_etherType 0x86dd
    refine ⟨f, heth, hkind, fun h => ?_⟩
    obtain ⟨h, hok, -, hpacket, -⟩ := h
    obtain rfl := Except.ok.inj
      ((classifyFrame_classifiable (classifiable_of_classifyFrame hok)).symm.trans hok)
    have hipv4 := (hpacket (by rw [hkind]; decide)).carriesUdp.etherType
    rw [heth] at hipv4
    exact absurd hipv4 (by decide)

end Repath.HopaCp
