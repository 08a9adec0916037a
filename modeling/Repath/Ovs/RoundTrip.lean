import Repath.Ovs.Recirculate
import Repath.Ovs.Progress

/-!
# From an encoder of one node to the handler of the other

The frame an encoder builds in any buffer passes the filter of the tap, and
`hopa_cp_progress` reads off the copied header what the encoder was given.
-/

namespace Repath.Ovs

structure Delivers (sent received : RteMbuf) : Prop where
  pktLen : received.pktLen = sent.pktLen
  dataLen : received.dataLen = sent.dataLen
  bytes : ∀ i < sent.pktLen, received.data i = sent.data i

theorem IsCpFrame.delivered {sent received : RteMbuf} {hdr : HopaCpHdr} (h : IsCpFrame sent hdr)
    (hd : Delivers sent received) : IsCpFrame received hdr := by
  have hbytes : ∀ i < 74, received.data i = sent.data i := h.pktLen ▸ hd.bytes
  have h8 : ∀ off, off + 1 ≤ 74 → received.data.get8 off = sent.data.get8 off := by
    intro off hoff
    rw [Mem.get8, Mem.get8, Mem.getN_congr hbytes hoff]
  have h16 : ∀ off, off + 2 ≤ 74 → received.data.get16 off = sent.data.get16 off := by
    intro off hoff
    rw [Mem.get16, Mem.get16, Mem.getN_congr hbytes hoff]
  have h64 : ∀ off, off + 8 ≤ 74 → received.data.get64 off = sent.data.get64 off := by
    intro off hoff
    rw [Mem.get64, Mem.get64, Mem.getN_congr hbytes hoff]
  exact {
    pktLen := hd.pktLen.trans h.pktLen
    dataLen := hd.dataLen.trans h.dataLen
    etherType := (h16 _ (by decide)).trans h.etherType
    proto := (h8 _ (by decide)).trans h.proto
    src := (h16 _ (by decide)).trans h.src
    dgramLen := (h16 _ (by decide)).trans h.dgramLen
    hdr := by
      rw [← h.hdr, hdrOf, hdrOf, HopaCpHdr.ofMem, HopaCpHdr.ofMem]
      simp (disch := decide) only [h8, h64] }

section

variable {dp : Datapath} {t : Tap} {ring : BoundedFifo HopaCpHdr inRingCap}
  (hring : t.hopaCpInRing = some ring) (hroom : 1 ≤ ring.free)
  (hmalloc : dp.malloc t.mallocs = true)

include hring hroom hmalloc

theorem exists_tapBatch {frame : RteMbuf} {hdr : HopaCpHdr} (hframe : IsCpFrame frame hdr) :
    ∃ t' ring', tapBatch dp t [frame] = .ok t' ∧ t'.hopaCpInRing = some ring' ∧
      ring'.items = ring.items ++ [hdr] := by
  have htap := tapBatch_singleton dp hring hframe
  rw [if_pos hmalloc] at htap
  exact ⟨_, _, htap, rfl, BoundedFifo.items_enqueueBurst_of_room hroom⟩

/-- Whatever the buffer held and whichever node encodes: a delivered probe of path
`p` passes the filter, and processing its header stores the delay under `p`, leaves
the other entries alone and selects the minimum.  A delivered REPATH to `q` passes
and selects `q`. -/
theorem wire_round_trip (node : Node) (cksum : RteCksum) (buf : RteMbuf) (s : CpState)
    (clock : Timespec) :
    (∀ (p : PathId) (sender : Timespec), ∃ frame,
      encodeProbePkt node cksum (some buf) sender (UInt8.ofNat p) = some frame ∧
      ∀ received, Delivers frame received → ∃ t' ring' hdr,
        tapBatch dp t [received] = .ok t' ∧ t'.hopaCpInRing = some ring' ∧
        ring'.items = ring.items ++ [hdr] ∧
        ∃ s', hopaCpProgress s { hdr := hdr, clock := clock } = .ok s' ∧
          s'.allPathsDelayList =
            s.allPathsDelayList.set p (1000000000 + clock.ns - sender.ns) ∧
          SelectsMin s') ∧
    (∀ q : PathId, ∃ frame,
      encodeRepathPkt node cksum (some buf) (UInt8.ofNat q) = some frame ∧
      ∀ received, Delivers frame received → ∃ t' ring' hdr,
        tapBatch dp t [received] = .ok t' ∧ t'.hopaCpInRing = some ring' ∧
        ring'.items = ring.items ++ [hdr] ∧
        ∃ s', hopaCpProgress s { hdr := hdr, clock := clock } = .ok s' ∧
          s'.allPathsDelayList = s.allPathsDelayList ∧ s'.bestPathId.toNat = q) := by
  have htoNat : ∀ p : PathId, (UInt8.ofNat p).toNat = p := by decide
  constructor
  · intro p sender
    refine ⟨_, rfl, fun received hd => ?_⟩
    have hframe := (isCpFrame_encodeCpPkt node cksum buf (UInt8.ofNat p)
      (probeHdr (UInt8.ofNat p) sender.ns)).delivered hd
    obtain ⟨t', ring', htap, hring', hitems⟩ := exists_tapBatch hring hroom hmalloc hframe
    refine ⟨t', ring', _, htap, hring', hitems, ?_⟩
    let rx : Rx := { hdr := probeHdr (UInt8.ofNat p) sender.ns, clock := clock }
    have hpath : rx.hdr.probePathId.toNat = p := htoNat p
    have hlt : rx.hdr.probePathId.toNat < pathNb := by
      rw [hpath]
      exact p.isLt
    obtain ⟨best, hok, hmin⟩ := exists_hopaCpProbePktProgress (s := s) hlt
    rw [hopaCpProgress_probe (isKind_probeHdr _ _ _)]
    refine ⟨_, hok, ?_, hmin⟩
    simp only [hpath]
    rfl
  · intro q
    refine ⟨_, rfl, fun received hd => ?_⟩
    have hframe := (isCpFrame_encodeCpPkt node cksum buf (UInt8.ofNat q)
      (repathHdr (UInt8.ofNat q))).delivered hd
    obtain ⟨t', ring', htap, hring', hitems⟩ := exists_tapBatch hring hroom hmalloc hframe
    refine ⟨t', ring', _, htap, hring', hitems, { s with bestPathId := UInt8.ofNat q }, ?_, rfl,
      htoNat q⟩
    exact hopaCpProgress_repath (isKind_repathHdr _ _)

end

def idleDatapath : Datapath :=
  { flow := fun _ => [], tnlPort := fun _ => none, malloc := fun _ => true }

theorem wire_round_trip_path_one : ∃ frame,
    encodeProbePkt .cq default (some zeroBuf) ⟨0, 7⟩ 1 = some frame ∧
    ∀ received, Delivers frame received → ∃ t' ring' hdr,
      tapBatch idleDatapath .start [received] = .ok t' ∧ t'.hopaCpInRing = some ring' ∧
      ring'.items = [hdr] ∧
      ∃ s', hopaCpProgress .start { hdr := hdr, clock := ⟨0, 5⟩ } = .ok s' ∧
        s'.allPathsDelayList = CpState.start.allPathsDelayList.set 1 999999998 ∧
        SelectsMin s' := by
  have hroom : 1 ≤ (BoundedFifo.empty : BoundedFifo HopaCpHdr inRingCap).free := by decide
  have hmalloc : idleDatapath.malloc Tap.start.mallocs = true := rfl
  exact (wire_round_trip tapStart_ring hroom hmalloc .cq default zeroBuf .start ⟨0, 5⟩).1 1 ⟨0, 7⟩

end Repath.Ovs
