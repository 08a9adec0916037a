import Mathlib.Data.List.FinRange
import Repath.HopaCp.Selection

/-!
# Probing rounds of `hopa_cp.c`

`lcore_probe` numbers the paths `1 .. 4`, the delay table numbers them `0 .. 3`.
A probe for path `i` of the table leaves on UDP port `5678 + i`, and the handler
maps that port back to `i`.
-/

namespace Repath.HopaCp

open Selection Exec

def probeMbuf (pf : Platform) (alloc : Option RteMbuf) (clock : Option Timespec) (i : PathId) :
    Except Stop RteMbuf :=
  encodeProbePkt pf.cksum alloc clock (UInt8.ofNat (i + 1))

def lcoreProbe (pf : Platform) (alloc : PathId → Option RteMbuf)
    (clock : PathId → Option Timespec) : Except Stop (List RteMbuf) :=
  (List.finRange pathNb).mapM fun i => probeMbuf pf (alloc i) (clock i) i

def probePort (i : PathId) : UInt16 := dstPortPath1 + UInt16.ofNat i

theorem probePort_sub : ∀ i : PathId, (probePort i - dstPortPath1).toUInt8.toNat = i := by
  decide

theorem probeMbuf_ok {pf : Platform} {alloc : Option RteMbuf} {clock : Option Timespec}
    {i : PathId} {m : RteMbuf} (h : probeMbuf pf alloc clock i = .ok m) :
    ∃ ts, clock = some ts ∧ tsOf m = ts.ns ∧ IsCpFrame m (probePort i) .probe 0 := by
  obtain ⟨ts, hclock, hts, hframe⟩ := encodeProbePkt_ok h
  have hport : ∀ i : PathId, dstPortPath1 - 1 + (UInt8.ofNat (i + 1)).toUInt16 = probePort i := by
    decide
  rw [hport] at hframe
  exact ⟨ts, hclock, hts, hframe⟩

theorem lcoreProbe_ok {pf : Platform} {alloc : PathId → Option RteMbuf}
    {clock : PathId → Option Timespec} {ms : List RteMbuf}
    (h : lcoreProbe pf alloc clock = .ok ms) (i : PathId) :
    ∃ m, ms[i.val]? = some m ∧ IsCpFrame m (probePort i) .probe 0 := by
  have hi : (List.finRange pathNb)[i.val]? = some i := by
    rw [List.getElem?_eq_getElem (by rw [List.length_finRange]; exact i.isLt),
      List.getElem_finRange]
    rfl
  obtain ⟨m, hget, hm⟩ := getElem?_of_mapM_ok h hi
  obtain ⟨-, -, -, hframe⟩ := probeMbuf_ok hm
  exact ⟨m, hget, hframe⟩

theorem pathIdOf_of_isCpFrame {m : RteMbuf} {i : PathId}
    (h : IsCpFrame m (probePort i) .probe 0) : (pathIdOf m).toNat = i := by
  rw [pathIdOf, h.dst]
  exact probePort_sub i

theorem probe?_of_probeMbuf {pf : Platform} {alloc : Option RteMbuf} {ts : Timespec}
    {i : PathId} {rx : Rx} {receiver : Timespec}
    (h : probeMbuf pf alloc (some ts) i = .ok rx.mbuf) (hclock : rx.clock = some receiver) :
    probe? rx = some { path := i, senderTs := ts.ns, receiverTs := receiver.ns } := by
  obtain ⟨ts', hts', hns, hframe⟩ := probeMbuf_ok h
  obtain rfl := Option.some.inj hts'
  exact probe?_eq_some_iff.mpr ⟨classify_of_isCpFrame hframe, pathIdOf_of_isCpFrame hframe, hns,
    receiver, hclock, rfl⟩

/-- The packet of `lcore_probe` that arrives as the probe `q`. -/
def rxOf (pf : Platform) (q : Probe) : Rx :=
  { mbuf := (probeMbuf pf (some zeroBuf) (some ⟨0, q.senderTs⟩) q.path).toOption.getD zeroBuf,
    clock := some ⟨0, q.receiverTs⟩, alloc := none }

theorem probe?_rxOf (pf : Platform) (q : Probe) : probe? (rxOf pf q) = some q := by
  have hm : probeMbuf pf (some zeroBuf) (some ⟨0, q.senderTs⟩) q.path =
      .ok (rxOf pf q).mbuf := rfl
  have h := probe?_of_probeMbuf hm rfl
  rwa [Timespec.ns_zero, Timespec.ns_zero] at h

/-! ### Packets that are no probes -/

/-- A REPATH to `q`, with a buffer for its acknowledgement. -/
def repathRx (pf : Platform) (q : UInt8) : Rx :=
  { mbuf := (encodeRepathPkt pf.cksum (some zeroBuf) q q).toOption.getD zeroBuf,
    clock := none, alloc := some zeroBuf }

def repathAckRx (pf : Platform) (q : UInt8) : Rx :=
  { mbuf := (encodeRepathAckPkt pf.cksum (some zeroBuf) q).toOption.getD zeroBuf,
    clock := none, alloc := none }

theorem classify_repathRx (pf : Platform) (q : UInt8) :
    classify (repathRx pf q).mbuf = .repath := by
  have hm : encodeRepathPkt pf.cksum (some zeroBuf) q q = .ok (repathRx pf q).mbuf := rfl
  exact classify_of_isCpFrame (encodeRepathPkt_ok hm)

theorem classify_repathAckRx (pf : Platform) (q : UInt8) :
    classify (repathAckRx pf q).mbuf = .repathAck := by
  have hm : encodeRepathAckPkt pf.cksum (some zeroBuf) q = .ok (repathAckRx pf q).mbuf := rfl
  exact classify_of_isCpFrame (encodeRepathAckPkt_ok hm)

theorem probe?_repathRx (pf : Platform) (q : UInt8) : probe? (repathRx pf q) = none := by
  apply probe?_eq_none_of_ne
  rw [classify_repathRx]
  decide

theorem probe?_repathAckRx (pf : Platform) (q : UInt8) : probe? (repathAckRx pf q) = none := by
  apply probe?_eq_none_of_ne
  rw [classify_repathAckRx]
  decide

theorem selecting_repathRx (pf : Platform) (q : UInt8) : Selecting (repathRx pf q) := by
  rw [Selecting, classify_repathRx]
  exact ⟨nofun, fun _ => rfl, nofun⟩

theorem selecting_repathAckRx (pf : Platform) (q : UInt8) : Selecting (repathAckRx pf q) := by
  rw [Selecting, classify_repathAckRx]
  exact ⟨nofun, nofun, nofun⟩

end Repath.HopaCp
