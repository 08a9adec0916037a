import Repath.HopaCp.Probe

/-!
# Probes on other ports

The probe handler takes the low byte of the UDP destination port's distance from
5678 as the path, unchecked.  Ports a multiple of 256 away from a path's port
count for that path, and all others store outside the table.
-/

namespace Repath.HopaCp

open Selection Exec

/-- The delay a probe packet stores when the clock reads `ts`. -/
def delayOf (mbuf : RteMbuf) (ts : Timespec) : UInt64 := ts.ns - tsOf mbuf + 1000000000

/-- The store is inside the table, a path's port changes that path's entry and no
other, and any other port changes nothing. -/
def StoresOwnEntry (pf : Platform) (mbuf : RteMbuf) (ts : Timespec) (alloc : Option RteMbuf)
    (s : State) : Prop :=
  ∃ s' outs, lcoreStats pf { mbuf := mbuf, clock := some ts, alloc := alloc } s =
      .ok (s', outs) ∧
    (∀ i : PathId, dstPortOf mbuf = probePort i →
      s'.allPathsDelayList = s.allPathsDelayList.set i (delayOf mbuf ts) i.isLt) ∧
    ((∀ i : PathId, dstPortOf mbuf ≠ probePort i) →
      s'.allPathsDelayList = s.allPathsDelayList ∧ s'.optPathId = s.optPathId)

theorem pathIdOf_of_probePort {mbuf : RteMbuf} {i : PathId} (h : dstPortOf mbuf = probePort i) :
    (pathIdOf mbuf).toNat = i := by
  rw [pathIdOf, h]
  exact probePort_sub i

theorem lcoreStats_outside {pf : Platform} {mbuf : RteMbuf} (s : State) (ts : Timespec)
    (alloc : Option RteMbuf) (hkind : classify mbuf = .probe)
    (hout : ¬ (pathIdOf mbuf).toNat < pathNb) :
    lcoreStats pf { mbuf := mbuf, clock := some ts, alloc := alloc } s = .error .undefined := by
  rw [lcoreStats_probe pf s hkind, hopaCpProbePktProgress]
  simp only [storeDelay, dif_neg hout]
  rfl

/-- In a reachable state a PROBE is handled as its port says exactly when the port
is a path's, or lies a multiple of 256 away from one whose entry already holds
the delay. -/
theorem storesOwnEntry_iff {pf : Platform} {info : CurPathInfo} {rxs : List Rx} {s : State}
    (hrun : exec (step pf) (.start info) rxs = .ok s) {mbuf : RteMbuf}
    (hkind : classify mbuf = .probe) (ts : Timespec) (alloc : Option RteMbuf) :
    StoresOwnEntry pf mbuf ts alloc s ↔
      (∃ i : PathId, dstPortOf mbuf = probePort i) ∨
        ∃ i : PathId, (pathIdOf mbuf).toNat = i ∧
          s.allPathsDelayList.get i = delayOf mbuf ts := by
  constructor
  · intro h
    obtain ⟨s', outs, hok, -, hother⟩ := h
    by_cases hport : ∃ i : PathId, dstPortOf mbuf = probePort i
    · exact Or.inl hport
    · obtain ⟨htable, -⟩ := hother fun i hi => hport ⟨i, hi⟩
      by_cases hpath : (pathIdOf mbuf).toNat < pathNb
      · let i : PathId := ⟨_, hpath⟩
        have hi : (pathIdOf mbuf).toNat = i := rfl
        refine Or.inr ⟨i, hi, ?_⟩
        obtain ⟨s₂, hok₂, htable₂, -⟩ := lcoreStats_of_pathIdOf pf s ts alloc hkind hi
        obtain ⟨rfl, -⟩ := Prod.mk.inj (Except.ok.inj (hok.symm.trans hok₂))
        rw [← htable, htable₂, get_set, Function.update_self]
        rfl
      · rw [lcoreStats_outside s ts alloc hkind hpath] at hok
        cases hok
  · intro h
    rcases h with hport | halias
    · obtain ⟨i, hi⟩ := hport
      obtain ⟨s', hok, htable, -⟩ := lcoreStats_of_pathIdOf pf s ts alloc hkind
        (pathIdOf_of_probePort hi)
      refine ⟨s', [], hok, fun j hj => ?_, fun hnone => absurd hi (hnone i)⟩
      obtain rfl : i = j := Fin.ext ((pathIdOf_of_probePort hi).symm.trans
        (pathIdOf_of_probePort hj))
      exact htable
    · obtain ⟨i, hi, hentry⟩ := halias
      obtain ⟨s', hok, htable, p, hp, hmin⟩ :=
        lcoreStats_of_pathIdOf pf s ts alloc hkind hi
      refine ⟨s', [], hok, fun j hj => ?_, fun _ => ?_⟩
      · obtain rfl : i = j := Fin.ext (hi.symm.trans (pathIdOf_of_probePort hj))
        exact htable
      · -- the entry is rewritten with what it held, so the same minimum is found
        have hsame : s'.allPathsDelayList = s.allPathsDelayList := by
          rw [htable]
          show s.allPathsDelayList.set i (delayOf mbuf ts) = _
          rw [← hentry]
          exact Vector.set_getElem_self i.isLt
        have hT := tracks_of_exec hrun
        rw [hsame, hT.table_eq] at hmin
        refine ⟨hsame, UInt8.toNat_inj.mp ?_⟩
        rw [hp, ← hT.selects_iff.mp hmin]

theorem exists_probe_on (dstPort : UInt16) : ∃ m, classify m = .probe ∧ dstPortOf m = dstPort := by
  have hudp : ∃ udp, encodeUdpPkt default (some zeroBuf) dstPort = .ok udp := ⟨_, rfl⟩
  obtain ⟨udp, hudp⟩ := hudp
  have hframe := isCpFrame_fill hudp .probe 0
  exact ⟨_, classify_of_isCpFrame hframe, hframe.dst⟩

theorem storesOwnEntry_iff_path_one : ∃ m, classify m = .probe ∧
    StoresOwnEntry default m ⟨0, 5⟩ none (.start default) := by
  obtain ⟨m, hkind, hport⟩ := exists_probe_on 5679
  refine ⟨m, hkind, (storesOwnEntry_iff (exec_nil (step default) _) hkind ⟨0, 5⟩ none).mpr ?_⟩
  exact Or.inl ⟨1, hport⟩

/-- A PROBE on port 5682 stores past the table, one on port 5934 counts for path
0. -/
theorem probe_on_other_port :
    (∃ m, classify m = .probe ∧ dstPortOf m = 5682 ∧
      ¬ StoresOwnEntry default m ⟨0, 5⟩ none (.start default)) ∧
    (∃ m ts, classify m = .probe ∧ dstPortOf m = 5934 ∧
      ¬ StoresOwnEntry default m ts none (.start default)) := by
  constructor
  · obtain ⟨m, hkind, hport⟩ := exists_probe_on 5682
    have hout : ¬ (pathIdOf m).toNat < pathNb := by
      rw [pathIdOf, hport]
      decide
    refine ⟨m, hkind, hport, fun h => ?_⟩
    obtain ⟨s', outs, hok, -⟩ := h
    rw [lcoreStats_outside _ _ _ hkind hout] at hok
    cases hok
  · obtain ⟨m, hkind, hport⟩ := exists_probe_on 5934
    have hid : (pathIdOf m).toNat = (0 : PathId) := by
      rw [pathIdOf, hport]
      decide
    refine ⟨m, ⟨0, tsOf m⟩, hkind, hport, fun h => ?_⟩
    obtain ⟨s', outs, hok, -, hother⟩ := h
    obtain ⟨s₂, hok₂, htable₂, -⟩ := lcoreStats_of_pathIdOf default (.start default)
      ⟨0, tsOf m⟩ none hkind hid
    obtain ⟨rfl, -⟩ := Prod.mk.inj (Except.ok.inj (hok.symm.trans hok₂))
    have hport' : ∀ i : PathId, dstPortOf m ≠ probePort i := by
      rw [hport]
      decide
    have hentry : s'.allPathsDelayList.get 0 = 1000000000 := by
      rw [htable₂, get_set, Function.update_self, Timespec.ns_zero]
      grind
    rw [(hother hport').1] at hentry
    exact absurd hentry (by decide)

end Repath.HopaCp
