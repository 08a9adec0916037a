import Repath.Ovs.Recirculate

/-!
# How often a control packet is delivered

The tap sits on the path of every recirculated packet, whatever made it
recirculate.  A packet of the peer is enqueued whenever TUNNEL_POP has decapsulated
it and again by every RECIRC after that; a packet of this node is enqueued by RECIRC.
-/

namespace Repath.Ovs

open Exec

section Room

variable {dp : Datapath} {t : Tap} {ring : BoundedFifo HopaCpHdr inRingCap} {hdr : HopaCpHdr}
  (hring : t.hopaCpInRing = some ring)

include hring

theorem length_tapTimes {k : Nat} {t' : Tap} {ring' : BoundedFifo HopaCpHdr inRingCap}
    (hrun : tapTimes dp hdr k t = .ok t') (hring' : t'.hopaCpInRing = some ring') :
    ring'.items.length = ring.items.length + min k ring.free := by
  obtain ⟨ring₂, hring₂, hitems⟩ := items_tapTimes hring hrun
  obtain rfl := Option.some.inj (hring'.symm.trans hring₂)
  rw [hitems, List.length_append, List.length_replicate]

variable (hroom : 2 ≤ ring.free)

include hroom

theorem tapTimes_once_iff (k : Nat) :
    (∃ t' ring', tapTimes dp hdr k t = .ok t' ∧ t'.hopaCpInRing = some ring' ∧
      ring'.items = ring.items ++ [hdr]) ↔ dp.malloc t.mallocs = true ∧ k = 1 := by
  constructor
  · intro h
    obtain ⟨t', ring', hrun, hring', hitems⟩ := h
    have hlen := length_tapTimes hring hrun hring'
    rw [hitems, List.length_append, List.length_singleton] at hlen
    obtain rfl : k = 1 := by omega
    refine ⟨?_, rfl⟩
    by_contra hmalloc
    rw [tapTimes, hring] at hrun
    simp only [if_neg hmalloc] at hrun
    cases hrun
  · intro h
    obtain ⟨hmalloc, rfl⟩ := h
    have hfits : [hdr].length ≤ ring.free := Nat.le_of_succ_le hroom
    have hrun : tapTimes dp hdr 1 t = .ok
        { hopaCpInRing := some (ring.enqueueBurst [hdr]).1, mallocs := t.mallocs + 1 } := by
      rw [tapTimes, hring]
      exact if_pos hmalloc
    exact ⟨_, _, hrun, rfl, BoundedFifo.items_enqueueBurst_of_room hfits⟩

theorem tapTimes_never_iff (k : Nat) :
    (∃ t', tapTimes dp hdr k t = .ok t' ∧ t'.hopaCpInRing = some ring) ↔ k = 0 := by
  constructor
  · intro h
    obtain ⟨t', hrun, hring'⟩ := h
    have hlen := length_tapTimes hring hrun hring'
    omega
  · rintro rfl
    exact ⟨t, rfl, hring⟩

end Room

/-- Exactly one copy: the packet is decapsulated once, and not recirculated after. -/
theorem peerCopies_eq_one_iff (dp : Datapath) (inners : List (Nat × DpPacket)) :
    peerCopies dp inners = 1 ↔ ∃ room inner, inners = [(room, inner)] ∧
      (room = 0 ∨ ∀ id, .recirc id ∉ dp.flow inner) := by
  constructor
  · intro h
    match inners, h with
    | [(room, inner)], h =>
        refine ⟨room, inner, rfl, (flowCopies_eq_zero_iff dp room inner).mp ?_⟩
        rw [peerCopies, List.map_singleton, List.sum_singleton] at h
        exact Nat.add_left_cancel h
    | p :: q :: inners, h =>
        rw [peerCopies, List.map_cons, List.map_cons, List.sum_cons, List.sum_cons] at h
        omega
  · intro h
    obtain ⟨room, inner, rfl, hflow⟩ := h
    have hzero := (flowCopies_eq_zero_iff dp room inner).mpr hflow
    rw [peerCopies, List.map_singleton, List.sum_singleton, hzero]

/-- A control packet of the peer arrives encapsulated.  It is enqueued exactly once when
its header can be allocated and the flows decapsulate it exactly once, to a packet
whose flow has no RECIRC or that is already at the maximum depth.  A control packet of
this node is never enqueued exactly when its flow has no RECIRC. -/
theorem enqueued_once_iff {dp : Datapath} {t : Tap} {ring : BoundedFifo HopaCpHdr inRingCap}
    {hdr : HopaCpHdr} (hbare : DropsBare dp) (hring : t.hopaCpInRing = some ring)
    (hroom : 2 ≤ ring.free) (hflag : hdr.flag = HopaModule.hopaCp.code) :
    (∀ packet : DpPacket, Encapsulates dp packet.mbuf hdr →
      ((∃ t' ring', dpNetdevInput dp t packet = .ok t' ∧
          t'.hopaCpInRing = some ring' ∧ ring'.items = ring.items ++ [hdr]) ↔
        dp.malloc t.mallocs = true ∧
          ∃ room inner, decapsulated dp maxRecircDepth packet = [(room, inner)] ∧
            (room = 0 ∨ ∀ id, .recirc id ∉ dp.flow inner))) ∧
    (∀ packet : DpPacket, IsCpFrame packet.mbuf hdr →
      ((∃ t', dpNetdevInput dp t packet = .ok t' ∧ t'.hopaCpInRing = some ring) ↔
        ∀ id, .recirc id ∉ dp.flow packet)) := by
  constructor
  · intro packet h
    rw [dpNetdevInput_eq, executeFlow_encapsulated hbare hflag maxRecircDepth packet t h,
      tapTimes_once_iff hring hroom, peerCopies_eq_one_iff]
  · intro packet h
    rw [dpNetdevInput_eq, executeFlow_bare hbare hflag maxRecircDepth packet t h,
      tapTimes_never_iff hring hroom, flowCopies_eq_zero_iff]
    exact or_iff_right (by decide)

/-! ### A VXLAN datapath -/

/-- `netdev_vxlan_pop_header`: the flags word after the outer UDP header is
`0x08000000` and the reserved byte after the VNI is 0, or the packet is dropped. -/
def vxlanPop (mbuf : RteMbuf) : Option RteMbuf :=
  if mbuf.data.get8 hopaOff = 8 ∧ mbuf.data.get8 (hopaOff + 1) = 0 ∧
      mbuf.data.get8 (hopaOff + 2) = 0 ∧ mbuf.data.get8 (hopaOff + 3) = 0 ∧
      mbuf.data.get8 (hopaOff + 7) = 0 then
    some { mbuf with data := fun i => mbuf.data (i + 50), dataLen := mbuf.dataLen - 50,
                     pktLen := mbuf.pktLen - 50 }
  else none

/-- A frame behind 50 bytes of outer headers with VNI 0. -/
def vxlanPush (mbuf : RteMbuf) : RteMbuf :=
  { mbuf with
    data := fun i => if i < 50 then (if i = hopaOff then 8 else 0) else mbuf.data (i - 50),
    dataLen := mbuf.dataLen + 50, pktLen := mbuf.pktLen + 50 }

theorem vxlanPop_vxlanPush (mbuf : RteMbuf) : vxlanPop (vxlanPush mbuf) = some mbuf := by
  have hflags : (vxlanPush mbuf).data.get8 hopaOff = 8 ∧
      (vxlanPush mbuf).data.get8 (hopaOff + 1) = 0 ∧
      (vxlanPush mbuf).data.get8 (hopaOff + 2) = 0 ∧
      (vxlanPush mbuf).data.get8 (hopaOff + 3) = 0 ∧
      (vxlanPush mbuf).data.get8 (hopaOff + 7) = 0 := ⟨rfl, rfl, rfl, rfl, rfl⟩
  rw [vxlanPop, if_pos hflags]
  have hdata : (fun i => (vxlanPush mbuf).data (i + 50)) = mbuf.data := by
    funext i
    have hout : ¬ i + 50 < 50 := by omega
    simp only [vxlanPush, if_neg hout, Nat.add_sub_cancel]
  simp only [hdata]
  rfl

/-- The HOPA flag lies where the VXLAN flags begin. -/
theorem vxlanPop_bare {mbuf : RteMbuf} {hdr : HopaCpHdr} (h : IsCpFrame mbuf hdr)
    (hflag : hdr.flag = HopaModule.hopaCp.code) : vxlanPop mbuf = none := by
  have hbyte : mbuf.data.get8 hopaOff = HopaModule.hopaCp.code :=
    (congrArg HopaCpHdr.flag h.hdr).trans hflag
  rw [vxlanPop, if_neg]
  intro hvx
  rw [hbyte] at hvx
  exact absurd hvx.1 (by decide)

/-- VXLAN on port 1.  Packets of the uplink, port 0, are decapsulated; the flow of any
other packet that was not recirculated is `acts`. -/
def vxlanDatapath (acts : List OvsAction) : Datapath :=
  { flow := fun packet =>
      if packet.recircId = 0 then if packet.inPort = 0 then [.tunnelPop 1] else acts
      else [.other],
    tnlPort := fun portno => if portno = 1 then some vxlanPop else none,
    malloc := fun _ => true }

theorem vxlanDatapath_tnlPort {acts : List OvsAction} {portno : UInt32}
    {popHeader : RteMbuf → Option RteMbuf}
    (h : (vxlanDatapath acts).tnlPort portno = some popHeader) : popHeader = vxlanPop := by
  have hport : (if portno = 1 then some vxlanPop else none) = some popHeader := h
  split at hport
  · exact (Option.some.inj hport).symm
  · cases hport

theorem dropsBare_vxlanDatapath (acts : List OvsAction) : DropsBare (vxlanDatapath acts) := by
  intro portno popHeader hport mbuf hdr hframe hflag
  obtain rfl := vxlanDatapath_tnlPort hport
  exact vxlanPop_bare hframe hflag

def probeFrame : RteMbuf := encodeCpPkt .cq default zeroBuf 0 (probeHdr 0 0)

theorem isCpFrame_probeFrame : IsCpFrame probeFrame (probeHdr 0 0) :=
  isCpFrame_encodeCpPkt .cq default zeroBuf 0 (probeHdr 0 0)

/-- A probe of the peer as it comes from the uplink. -/
def peerProbe : DpPacket := ⟨vxlanPush probeFrame, 0, 0⟩

/-- A probe of this node as it comes from `pf1hpf`. -/
def ownProbe : DpPacket := ⟨probeFrame, 2, 0⟩

theorem encapsulates_peerProbe (acts : List OvsAction) :
    Encapsulates (vxlanDatapath acts) peerProbe.mbuf (probeHdr 0 0) where
  outer := by
    intro h
    exact absurd h.2.2.2.2 (by decide)
  inner := by
    intro portno popHeader hport inner hpop
    obtain rfl := vxlanDatapath_tnlPort hport
    obtain rfl := Option.some.inj ((vxlanPop_vxlanPush probeFrame).symm.trans hpop)
    exact isCpFrame_probeFrame

theorem decapsulated_peerProbe (acts : List OvsAction) :
    decapsulated (vxlanDatapath acts) maxRecircDepth peerProbe = [(5, ⟨probeFrame, 1, 0⟩)] := by
  have hpop : decapsulate (vxlanDatapath acts) 1 peerProbe = some ⟨probeFrame, 1, 0⟩ := by
    simp [decapsulate, vxlanDatapath, peerProbe, vxlanPop_vxlanPush]
  have hflow : (vxlanDatapath acts).flow peerProbe = [.tunnelPop 1] := rfl
  rw [maxRecircDepth, decapsulated, hflow, List.flatMap_singleton]
  show ((decapsulate (vxlanDatapath acts) 1 peerProbe).map (Prod.mk 5)).toList = _
  rw [hpop]
  rfl

theorem tapStart_room : 2 ≤ (BoundedFifo.empty : BoundedFifo HopaCpHdr inRingCap).free := by
  decide

theorem probeHdr_flag : (probeHdr 0 0).flag = HopaModule.hopaCp.code := rfl

theorem enqueued_once_forwarding :
    (∃ t' ring', dpNetdevInput (vxlanDatapath [.other]) .start peerProbe = .ok t' ∧
      t'.hopaCpInRing = some ring' ∧ ring'.items = [probeHdr 0 0]) ∧
    (∃ t', dpNetdevInput (vxlanDatapath [.other]) .start ownProbe = .ok t' ∧
      t'.hopaCpInRing = some BoundedFifo.empty) := by
  obtain ⟨hpeer, hown⟩ := enqueued_once_iff (dropsBare_vxlanDatapath [.other]) tapStart_ring
    tapStart_room probeHdr_flag
  constructor
  · refine (hpeer peerProbe (encapsulates_peerProbe [.other])).mpr
      ⟨rfl, _, _, decapsulated_peerProbe [.other], Or.inr ?_⟩
    intro id hid
    cases List.mem_singleton.mp hid
  · refine (hown ownProbe isCpFrame_probeFrame).mpr ?_
    intro id hid
    cases List.mem_singleton.mp hid

/-- A flow that recirculates once: the peer does not enqueue the probe exactly
once, and its sender enqueues it. -/
theorem not_enqueued_once_recirculating :
    (¬ ∃ t' ring', dpNetdevInput (vxlanDatapath [.recirc 1]) .start peerProbe = .ok t' ∧
      t'.hopaCpInRing = some ring' ∧ ring'.items = [probeHdr 0 0]) ∧
    (¬ ∃ t', dpNetdevInput (vxlanDatapath [.recirc 1]) .start ownProbe = .ok t' ∧
      t'.hopaCpInRing = some BoundedFifo.empty) := by
  have hbare := dropsBare_vxlanDatapath [.recirc 1]
  constructor
  · rw [dpNetdevInput_eq, executeFlow_encapsulated hbare probeHdr_flag _ _ _
      (encapsulates_peerProbe [.recirc 1]), decapsulated_peerProbe]
    intro h
    have honce := ((tapTimes_once_iff tapStart_ring tapStart_room 2).mp h).2
    exact absurd honce (by decide)
  · rw [dpNetdevInput_eq, executeFlow_bare hbare probeHdr_flag _ _ _ isCpFrame_probeFrame]
    intro h
    have hnever := (tapTimes_never_iff tapStart_ring tapStart_room 1).mp h
    exact absurd hnever (by decide)

end Repath.Ovs
