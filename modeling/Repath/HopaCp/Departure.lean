import Repath.HopaCp.Probe

/-!
# Where REPATH and REPATH_ACK leave

Both encoders add `opt_path_id`, which counts paths from 0, to the port below
the first probe port.  The packets leave on the port below the probe port of the
selected path, for path 0 on a port that no path has.
-/

namespace Repath.HopaCp

open Selection Exec

def departurePort (optPathId : UInt8) : UInt16 := dstPortPath1 - 1 + optPathId.toUInt16

theorem departurePort_add_one {optPathId : UInt8} {p : PathId} (hp : optPathId.toNat = p) :
    departurePort optPathId + 1 = probePort p := by
  have hport : ∀ i : PathId, departurePort (UInt8.ofNat i) + 1 = probePort i := by decide
  obtain rfl : optPathId = UInt8.ofNat p := by rw [← hp, UInt8.ofNat_toNat]
  exact hport p

theorem departurePort_ne {optPathId : UInt8} {p : PathId} (hp : optPathId.toNat = p) :
    departurePort optPathId ≠ probePort p := by
  rw [← departurePort_add_one hp]
  grind

theorem departurePort_decodes_ne {optPathId : UInt8} {p : PathId} (hp : optPathId.toNat = p) :
    (departurePort optPathId - dstPortPath1).toUInt8 ≠ optPathId := by
  have hne : ∀ i : PathId,
      (departurePort (UInt8.ofNat i) - dstPortPath1).toUInt8 ≠ UInt8.ofNat i := by decide
  obtain rfl : optPathId = UInt8.ofNat p := by rw [← hp, UInt8.ofNat_toNat]
  exact hne p

theorem dstPortOf_hopaDpTsPktProgress {pf : Platform} {rx : Rx} {s s' : State} {m : RteMbuf}
    (h : hopaDpTsPktProgress pf rx s = .ok (s', [m])) :
    dstPortOf m = departurePort s.optPathId := by
  obtain ⟨isRepath, info, -, rfl, hout⟩ := hopaDpTsPktProgress_ok h
  rcases hout with hsent | hquiet
  · obtain ⟨-, m', hm', hlist⟩ := hsent
    obtain rfl := List.singleton_injective hlist
    exact (encodeRepathPkt_ok hm').dst
  · cases hquiet.2

theorem dstPortOf_hopaCpRepathPktProgress {pf : Platform} {rx : Rx} {s s' : State}
    {m : RteMbuf} (h : hopaCpRepathPktProgress pf rx s = .ok (s', [m])) :
    dstPortOf m = departurePort s.optPathId := by
  obtain ⟨ack, hack, rfl, hlist⟩ := hopaCpRepathPktProgress_ok h
  obtain rfl := List.singleton_injective hlist
  exact (encodeRepathAckPkt_ok hack).dst

/-- After any run, neither a REPATH nor an acknowledgement leaves on the port of
the selected path's probes, and its port decodes to another path. -/
theorem leaves_off_probe_port {pf : Platform} {info : CurPathInfo} {rxs : List Rx} {s : State}
    (hrun : exec (step pf) (.start info) rxs = .ok s) {rx : Rx} {s' : State} {m : RteMbuf}
    (hm : hopaDpTsPktProgress pf rx s = .ok (s', [m]) ∨
      hopaCpRepathPktProgress pf rx s = .ok (s', [m])) :
    pathIdOf m ≠ s.optPathId ∧ ∃ p : PathId, s.optPathId.toNat = p ∧
      ∀ alloc clock probes, lcoreProbe pf alloc clock = .ok probes →
        ∃ probe, probes[p.val]? = some probe ∧ dstPortOf m ≠ dstPortOf probe := by
  have hport : dstPortOf m = departurePort s.optPathId := by
    rcases hm with hdp | hrepath
    · exact dstPortOf_hopaDpTsPktProgress hdp
    · exact dstPortOf_hopaCpRepathPktProgress hrepath
  obtain ⟨p, hp, -⟩ := (tracks_of_exec hrun).selects
  refine ⟨?_, p, hp, ?_⟩
  · rw [pathIdOf, hport]
    exact departurePort_decodes_ne hp
  · intro alloc clock probes hprobes
    obtain ⟨probe, hget, hframe⟩ := lcoreProbe_ok hprobes p
    refine ⟨probe, hget, ?_⟩
    rw [hport, hframe.dst]
    exact departurePort_ne hp

theorem exists_repath_start : ∃ s' m,
    hopaDpTsPktProgress default ⟨zeroBuf, none, some zeroBuf⟩ (.start risingInfo) =
      .ok (s', [m]) :=
  ⟨_, _, rfl⟩

theorem exists_repathAck_start : ∃ s' m,
    hopaCpRepathPktProgress default ⟨zeroBuf, none, some zeroBuf⟩ (.start risingInfo) =
      .ok (s', [m]) :=
  ⟨_, _, rfl⟩

theorem leaves_off_probe_port_start :
    ∃ s' m, hopaDpTsPktProgress default ⟨zeroBuf, none, some zeroBuf⟩ (.start risingInfo) =
        .ok (s', [m]) ∧
      pathIdOf m ≠ (State.start risingInfo).optPathId ∧ ∃ p : PathId,
        (State.start risingInfo).optPathId.toNat = p ∧
        ∀ alloc clock probes, lcoreProbe default alloc clock = .ok probes →
          ∃ probe, probes[p.val]? = some probe ∧ dstPortOf m ≠ dstPortOf probe := by
  obtain ⟨s', m, hm⟩ := exists_repath_start
  exact ⟨s', m, hm, leaves_off_probe_port (exec_nil (step default) _) (Or.inl hm)⟩

/-- In the initial state path 0 is selected and its probes leave on port 5678, the
REPATH and the acknowledgement on port 5677. -/
theorem repath_on_port_5677 :
    (∃ s' m, hopaDpTsPktProgress default ⟨zeroBuf, none, some zeroBuf⟩ (.start risingInfo) =
      .ok (s', [m]) ∧ dstPortOf m = 5677) ∧
    (∃ s' m, hopaCpRepathPktProgress default ⟨zeroBuf, none, some zeroBuf⟩ (.start risingInfo) =
      .ok (s', [m]) ∧ dstPortOf m = 5677) ∧
    (State.start risingInfo).optPathId = 0 ∧
    ∃ probes, lcoreProbe default (fun _ => some zeroBuf) (fun _ => some ⟨0, 0⟩) = .ok probes ∧
      ∃ probe, probes[0]? = some probe ∧ dstPortOf probe = 5678 := by
  obtain ⟨s₁, repath, hrepath⟩ := exists_repath_start
  obtain ⟨s₂, ack, hack⟩ := exists_repathAck_start
  have hround : ∃ probes, lcoreProbe default (fun _ => some zeroBuf)
      (fun _ => some ⟨0, 0⟩) = .ok probes := ⟨_, rfl⟩
  obtain ⟨probes, hprobes⟩ := hround
  obtain ⟨probe, hget, hframe⟩ := lcoreProbe_ok hprobes 0
  exact ⟨⟨s₁, repath, hrepath, dstPortOf_hopaDpTsPktProgress hrepath⟩,
    ⟨s₂, ack, hack, dstPortOf_hopaCpRepathPktProgress hack⟩, rfl,
    probes, hprobes, probe, hget, hframe.dst⟩

end Repath.HopaCp
