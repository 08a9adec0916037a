import Repath.HopaCp.Probe

/-!
# Wire round trip of `hopa_cp.c`

What the encoders write is what `lcore_stats` reads: a probe reaches its handler,
which decodes the path from the UDP port, and a REPATH or an acknowledgement
reaches its own, which leaves the table and the selected path alone.
-/

namespace Repath.HopaCp

open Selection Exec

/-- The probe of path `i`, received, is stored under path `i`. -/
theorem lcoreStats_probeMbuf {pf : Platform} {buf m : RteMbuf} {sender receiver : Timespec}
    {i : PathId} (s : State) (alloc : Option RteMbuf)
    (h : probeMbuf pf (some buf) (some sender) i = .ok m) :
    ∃ s', lcoreStats pf { mbuf := m, clock := some receiver, alloc := alloc } s = .ok (s', []) ∧
      s'.allPathsDelayList =
        s.allPathsDelayList.set i (receiver.ns - sender.ns + 1000000000) i.isLt ∧
      ∃ p : PathId, s'.optPathId.toNat = p ∧
        Argmin.IsFirstMin s'.allPathsDelayList.get p := by
  obtain ⟨ts, hts, htsOf, hframe⟩ := probeMbuf_ok h
  obtain rfl := Option.some.inj hts
  obtain ⟨s', hok, htable, hmin⟩ := lcoreStats_of_pathIdOf pf s receiver alloc
    (classify_of_isCpFrame hframe) (pathIdOf_of_isCpFrame hframe)
  exact ⟨s', hok, by rw [htable, htsOf], hmin⟩

/-- A received REPATH is answered and changes neither the table nor the selected
path. -/
theorem lcoreStats_repath {pf : Platform} {m : RteMbuf} (s : State) (clock : Option Timespec)
    (ackBuf : RteMbuf) (hkind : classify m = .repath) :
    ∃ s' ack, lcoreStats pf { mbuf := m, clock := clock, alloc := some ackBuf } s =
        .ok (s', [ack]) ∧
      s'.allPathsDelayList = s.allPathsDelayList ∧ s'.optPathId = s.optPathId := by
  have hack : ∃ ack, encodeRepathAckPkt pf.cksum (some ackBuf) s.optPathId = .ok ack := ⟨_, rfl⟩
  obtain ⟨ack, hack⟩ := hack
  refine ⟨{ s with retranTimer := true }, ack, ?_, rfl, rfl⟩
  rw [lcoreStats, hkind]
  show hopaCpRepathPktProgress pf _ s = _
  rw [hopaCpRepathPktProgress, hack]
  rfl

/-- Whatever the buffer held, the state of the receiver and the path selected at
the sender: the probe of path `i` is stored under path `i` and the least entry
selected, a REPATH and an acknowledgement get to their handlers and leave the
table and the selected path alone. -/
theorem encoders_round_trip (pf : Platform) (buf : RteMbuf) (s : State) :
    (∀ (i : PathId) (sender receiver : Timespec), ∃ m,
      probeMbuf pf (some buf) (some sender) i = .ok m ∧ classify m = .probe ∧
      ∀ alloc, ∃ s',
        lcoreStats pf { mbuf := m, clock := some receiver, alloc := alloc } s = .ok (s', []) ∧
        s'.allPathsDelayList =
          s.allPathsDelayList.set i (receiver.ns - sender.ns + 1000000000) i.isLt ∧
        ∃ p : PathId, s'.optPathId.toNat = p ∧
          Argmin.IsFirstMin s'.allPathsDelayList.get p) ∧
    (∀ optPathId repathId, ∃ m,
      encodeRepathPkt pf.cksum (some buf) optPathId repathId = .ok m ∧ classify m = .repath ∧
      repathIdOf m = repathId ∧
      ∀ clock ackBuf, ∃ s' ack,
        lcoreStats pf { mbuf := m, clock := clock, alloc := some ackBuf } s = .ok (s', [ack]) ∧
        s'.allPathsDelayList = s.allPathsDelayList ∧ s'.optPathId = s.optPathId) ∧
    (∀ optPathId, ∃ m,
      encodeRepathAckPkt pf.cksum (some buf) optPathId = .ok m ∧ classify m = .repathAck ∧
      ∀ clock alloc, ∃ s',
        lcoreStats pf { mbuf := m, clock := clock, alloc := alloc } s = .ok (s', []) ∧
        s'.allPathsDelayList = s.allPathsDelayList ∧ s'.optPathId = s.optPathId) := by
  refine ⟨fun i sender receiver => ?_, fun optPathId repathId => ?_, fun optPathId => ?_⟩
  · have hm : ∃ m, probeMbuf pf (some buf) (some sender) i = .ok m := ⟨_, rfl⟩
    obtain ⟨m, hm⟩ := hm
    obtain ⟨-, -, -, hframe⟩ := probeMbuf_ok hm
    exact ⟨m, hm, classify_of_isCpFrame hframe, fun alloc => lcoreStats_probeMbuf s alloc hm⟩
  · have hm : ∃ m, encodeRepathPkt pf.cksum (some buf) optPathId repathId = .ok m := ⟨_, rfl⟩
    obtain ⟨m, hm⟩ := hm
    have hframe := encodeRepathPkt_ok hm
    have hkind : classify m = .repath := classify_of_isCpFrame hframe
    exact ⟨m, hm, hkind, hframe.repath, fun clock ackBuf =>
      lcoreStats_repath s clock ackBuf hkind⟩
  · have hm : ∃ m, encodeRepathAckPkt pf.cksum (some buf) optPathId = .ok m := ⟨_, rfl⟩
    obtain ⟨m, hm⟩ := hm
    have hkind : classify m = .repathAck := classify_of_isCpFrame (encodeRepathAckPkt_ok hm)
    refine ⟨m, hm, hkind, fun clock alloc => ⟨{ s with retranTimer := false }, ?_, rfl, rfl⟩⟩
    rw [lcoreStats, hkind]
    rfl

end Repath.HopaCp
