import Repath.Dpdk.Frame
import Repath.Ovs.Delivery

/-!
# Exactness of the control-packet filter

The tap of `dp_netdev_recirculate` reads a frame at fixed offsets and compares
its length last.  It looks at neither the header length nor the fragment field
of the IPv4 header, and a short frame is read past its end.
-/

namespace Repath.Ovs

open Exec

/-- The 32 bytes at `udp_hdr + 1`. -/
def copiedBytes (m : RteMbuf) : List UInt8 := m.data.read hopaOff HopaCpHdr.size

/-- The body of the loop over the batch for one frame, up to the copy: the bytes
copied out, if any. -/
def tapFrame (f : Frame) : Except Stop (Option (List UInt8)) := do
  let etherType ← f.get Mem.get16 RteEtherHdr.etherType 2
  if etherType = rteEtherTypeIpv4 then
    let nextProtoId ← f.get Mem.get8 (ipv4Off + RteIpv4Hdr.nextProtoId) 1
    if nextProtoId = ipprotoUdp then
      let dgramLen ← f.get Mem.get16 (udpOff + RteUdpHdr.dgramLen) 2
      let srcPort ← f.get Mem.get16 (udpOff + RteUdpHdr.srcPort) 2
      -- the three comparisons are joined by `&`, so both fields are read
      if dgramLen = 40 ∧ srcPort = Ovs.srcPort ∧ f.mbuf.pktLen = 74 then
        let hdr ← f.get (fun m off => m.read off HopaCpHdr.size) hopaOff HopaCpHdr.size
        .ok (some hdr)
      else .ok none
    else .ok none
  else .ok none

/-- What the tap is there to copy out. -/
structure IsControlPacket (f : Frame) : Prop where
  carriesUdp : CarriesUdp f.mbuf
  length : f.length = 74
  src : ownSrcPort f.mbuf = srcPort
  dgramLen : ownDgramLen f.mbuf = 40

/-- The tap stays inside the frame and copies out a control header if and only if
the frame is a control packet, and then its UDP payload. -/
def TapExact (f : Frame) : Prop :=
  ∃ hdr, tapFrame f = .ok hdr ∧ (hdr.isSome = true ↔ IsControlPacket f) ∧
    ∀ bytes, hdr = some bytes → bytes = udpPayload f.mbuf

/-- The frame holds the Ethernet header, and the IPv4 and UDP fields that the tap
goes on to read. -/
def Readable (f : Frame) : Prop :=
  14 ≤ f.length ∧ (etherTypeOf f.mbuf = rteEtherTypeIpv4 → 24 ≤ f.length ∧
    (nextProtoIdOf f.mbuf = ipprotoUdp → 40 ≤ f.length))

instance (f : Frame) : Decidable (Readable f) := inferInstanceAs (Decidable (_ ∧ _))

/-! ### What the tap does -/

theorem tapFrame_readable {f : Frame} (h : Readable f) :
    tapFrame f = .ok (if IsHopaCp f.mbuf then some (copiedBytes f.mbuf) else none) := by
  obtain ⟨h14, h⟩ := h
  rw [tapFrame, Frame.get_of_le _ (by simpa using h14)]
  show (if etherTypeOf f.mbuf = rteEtherTypeIpv4 then _ else _) = _
  by_cases heth : etherTypeOf f.mbuf = rteEtherTypeIpv4
  · obtain ⟨h24, h⟩ := h heth
    rw [if_pos heth, Frame.get_of_le _ (by simpa using h24)]
    show (if nextProtoIdOf f.mbuf = ipprotoUdp then _ else _) = _
    by_cases hproto : nextProtoIdOf f.mbuf = ipprotoUdp
    · have h40 := h hproto
      have hread : ∀ off, off + 2 ≤ 40 → off + 2 ≤ f.length := fun off ho => ho.trans h40
      rw [if_pos hproto, Frame.get_of_le _ (hread _ (by decide)),
        Frame.get_of_le _ (hread _ (by decide))]
      show (if dgramLenOf f.mbuf = 40 ∧ srcPortOf f.mbuf = srcPort ∧ f.mbuf.pktLen = 74
        then _ else _) = _
      by_cases hrest : dgramLenOf f.mbuf = 40 ∧ srcPortOf f.mbuf = srcPort ∧ f.mbuf.pktLen = 74
      · have hlen : f.length = 74 := f.single.symm.trans hrest.2.2
        rw [if_pos hrest, if_pos ⟨heth, hproto, hrest⟩, Frame.get_of_le _ (by simp [hlen])]
        rfl
      · rw [if_neg hrest, if_neg fun hcp => hrest hcp.2.2]
    · rw [if_neg hproto, if_neg fun hcp => hproto hcp.2.1]
  · rw [if_neg heth, if_neg fun hcp => heth hcp.1]

theorem readable_of_tapFrame {f : Frame} {hdr : Option (List UInt8)}
    (h : tapFrame f = .ok hdr) : Readable f := by
  obtain ⟨etherType, hread, h⟩ := bind_eq_ok_iff.mp h
  obtain ⟨h14, rfl⟩ := Frame.get_eq_ok_iff.mp hread
  refine ⟨h14, fun heth => ?_⟩
  change (if etherTypeOf f.mbuf = rteEtherTypeIpv4 then _ else _) = _ at h
  rw [if_pos heth] at h
  obtain ⟨nextProtoId, hread, h⟩ := bind_eq_ok_iff.mp h
  obtain ⟨h24, rfl⟩ := Frame.get_eq_ok_iff.mp hread
  refine ⟨h24, fun hproto => ?_⟩
  change (if nextProtoIdOf f.mbuf = ipprotoUdp then _ else _) = _ at h
  rw [if_pos hproto] at h
  obtain ⟨dgramLen, hread, -⟩ := bind_eq_ok_iff.mp h
  exact (Frame.get_eq_ok_iff.mp hread).1

/-- The round of `dp_netdev_recirculate` for a frame stores the header that the
tap copies out. -/
theorem copyHdr_of_tapFrame (dp : Datapath) (acc : List HopaCpHdr × Nat) {f : Frame}
    {hdr : Option (List UInt8)} (h : tapFrame f = .ok hdr) :
    copyHdr dp acc f.mbuf = if hdr.isSome then
      if acc.1.length < recvSlots ∧ dp.malloc acc.2 = true then
        .ok (acc.1 ++ [hdrOf f.mbuf], acc.2 + 1)
      else .error .undefined
    else .ok acc := by
  rw [tapFrame_readable (readable_of_tapFrame h)] at h
  obtain rfl := Except.ok.inj h
  rw [copyHdr]
  by_cases hcp : IsHopaCp f.mbuf
  · rw [if_pos hcp, if_pos hcp]
    rfl
  · rw [if_neg hcp, if_neg hcp]
    rfl

/-! ### Exactness -/

theorem IsControlPacket.isHopaCp {f : Frame} (h : IsControlPacket f) : IsHopaCp f.mbuf := by
  refine ⟨h.carriesUdp.etherType, h.carriesUdp.proto, ?_, ?_, f.single.trans h.length⟩
  · rw [← h.carriesUdp.ownDgramLen, h.dgramLen]
  · rw [← h.carriesUdp.ownSrcPort, h.src]

/-- A frame that passes the filter is a control packet exactly when its IPv4 header
has no options and it is no fragment. -/
theorem isControlPacket_iff {f : Frame} (h : IsHopaCp f.mbuf) :
    IsControlPacket f ↔ versionIhlOf f.mbuf = 0x45 ∧ ¬ IsFragment f.mbuf := by
  obtain ⟨heth, hproto, hdgram, hsrc, hlen⟩ := h
  constructor
  · intro hcp
    exact ⟨versionIhl_iff.mp ⟨hcp.carriesUdp.version, hcp.carriesUdp.hdrLen⟩,
      hcp.carriesUdp.whole⟩
  · intro hplain
    obtain ⟨hversion, hhdrLen⟩ := versionIhl_iff.mpr hplain.1
    have hudp : CarriesUdp f.mbuf := ⟨heth, hversion, hhdrLen, hplain.2, hproto⟩
    exact {
      carriesUdp := hudp
      length := f.single.symm.trans hlen
      src := hudp.ownSrcPort.trans hsrc
      dgramLen := hudp.ownDgramLen.trans hdgram }

theorem copiedBytes_eq_udpPayload {f : Frame} (h : IsControlPacket f) :
    copiedBytes f.mbuf = udpPayload f.mbuf := by
  rw [udpPayload, h.dgramLen, h.carriesUdp.ownUdpOff]
  rfl

/-- The tap is exact on a frame if and only if the frame holds every field that the
tap reads of it, and it passes the filter only as a packet that has a plain IPv4
header and is no fragment. -/
theorem tapExact_iff (f : Frame) :
    TapExact f ↔ Readable f ∧
      (IsHopaCp f.mbuf → versionIhlOf f.mbuf = 0x45 ∧ ¬ IsFragment f.mbuf) := by
  constructor
  · intro h
    obtain ⟨hdr, hok, hiff, -⟩ := h
    have hread := readable_of_tapFrame hok
    refine ⟨hread, fun hcp => ?_⟩
    rw [tapFrame_readable hread, if_pos hcp] at hok
    obtain rfl := Except.ok.inj hok
    exact (isControlPacket_iff hcp).mp (hiff.mp rfl)
  · intro h
    obtain ⟨hread, hplain⟩ := h
    refine ⟨_, tapFrame_readable hread, ?_, ?_⟩
    · by_cases hcp : IsHopaCp f.mbuf
      · rw [if_pos hcp]
        exact ⟨fun _ => (isControlPacket_iff hcp).mpr (hplain hcp), fun _ => rfl⟩
      · rw [if_neg hcp]
        exact iff_of_false (by decide) fun h => hcp h.isHopaCp
    · intro bytes hbytes
      by_cases hcp : IsHopaCp f.mbuf
      · rw [if_pos hcp] at hbytes
        obtain rfl := Option.some.inj hbytes
        exact copiedBytes_eq_udpPayload ((isControlPacket_iff hcp).mpr (hplain hcp))
      · rw [if_neg hcp] at hbytes
        cases hbytes

/-! ### Frames on which the tap is not exact -/

/-- A probe of `cq` whose first IPv4 byte is `versionIhl`. -/
def probeWith (versionIhl : UInt8) : Frame :=
  { mbuf := probeFrame.store fun m => m.put8 (ipv4Off + RteIpv4Hdr.versionIhl) versionIhl,
    single := rfl }

theorem isHopaCp_probeWith (versionIhl : UInt8) : IsHopaCp (probeWith versionIhl).mbuf := by
  have h := isCpFrame_probeFrame
  refine ⟨?_, ?_, ?_, ?_, h.pktLen⟩
  · rw [← h.etherType]
    simp [probeWith, etherTypeOf]
  · rw [← h.proto]
    simp [probeWith, nextProtoIdOf]
  · rw [← h.dgramLen]
    simp [probeWith, dgramLenOf]
  · rw [← h.src]
    simp [probeWith, srcPortOf]

theorem versionIhlOf_probeWith (versionIhl : UInt8) :
    versionIhlOf (probeWith versionIhl).mbuf = versionIhl := by
  simp [probeWith, versionIhlOf]

/-- An empty frame is read past its end, and a probe with an IP option is taken for
a control packet. -/
theorem not_tapExact : ¬ TapExact emptyFrame ∧ ¬ TapExact (probeWith 0x46) := by
  constructor
  · intro h
    obtain ⟨hdr, hok, -⟩ := h
    exact absurd (readable_of_tapFrame hok).1 (by decide)
  · intro h
    obtain ⟨hdr, hok, hiff, -⟩ := h
    have hcp := isHopaCp_probeWith 0x46
    rw [tapFrame_readable (readable_of_tapFrame hok), if_pos hcp] at hok
    obtain rfl := Except.ok.inj hok
    have hplain := ((isControlPacket_iff hcp).mp (hiff.mp rfl)).1
    rw [versionIhlOf_probeWith] at hplain
    exact absurd hplain (by decide)

end Repath.Ovs
