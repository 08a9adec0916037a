import Repath.HopaCp.Probe
import Repath.Ovs.Selection

/-!
# Path selection of both control planes

What the selector says about a list of probes holds of `hopa_cp.c` and of
`ovs-vswitchd.c`, for the probes of any run of either: which table and which
path a run ends with, when the clocks of the two ends may differ, and when an
unmeasured path is selected.
-/

namespace Repath

open Selection Exec

/-- Every state a run of `hopa_cp.c` reaches has the table and the path that the
probes of the run determine, and a run of PROBEs of the four paths, REPATHs and
acknowledgements reaches one.  A run of `hopa_cp_progress` without REPATHs
reaches such a state too. -/
theorem run_tracks_probes :
    (∀ (pf : HopaCp.Platform) (info : HopaCp.CurPathInfo) (rxs : List HopaCp.Rx),
      (∀ s, exec (HopaCp.step pf) (.start info) rxs = .ok s →
        Tracks s.allPathsDelayList s.optPathId (rxs.filterMap HopaCp.probe?)) ∧
      ((∀ rx ∈ rxs, HopaCp.Selecting rx) →
        ∃ s, exec (HopaCp.step pf) (.start info) rxs = .ok s)) ∧
    (∀ rxs : List Ovs.Rx, (∀ rx ∈ rxs, Ovs.Selecting rx) →
      ∃ s, exec Ovs.hopaCpProgress .start rxs = .ok s ∧
        Tracks s.allPathsDelayList s.bestPathId (rxs.filterMap Ovs.probe?)) := by
  refine ⟨fun pf info rxs => ⟨fun s hrun => ?_, fun hrxs => ?_⟩, fun rxs hrxs => ?_⟩
  · exact HopaCp.tracks_of_exec hrun
  · exact HopaCp.exists_exec _ _ hrxs
  · exact Ovs.exists_exec_tracks hrxs

/-- Path 0 is probed twice, and the second time it is the fastest. -/
def mixedProbes : List Probe := [⟨0, 0, 30⟩, ⟨2, 0, 5⟩, ⟨0, 0, 3⟩, ⟨1, 0, 9⟩]

theorem selects_mixedProbes : Selects mixedProbes 0 := ⟨by decide +kernel, by decide +kernel⟩

/-- The probes, with a REPATH and a REPATH_ACK between them. -/
def hopaCpMixed : List HopaCp.Rx :=
  [HopaCp.rxOf default ⟨0, 0, 30⟩, HopaCp.rxOf default ⟨2, 0, 5⟩, HopaCp.repathRx default 2,
   HopaCp.rxOf default ⟨0, 0, 3⟩, HopaCp.repathAckRx default 2, HopaCp.rxOf default ⟨1, 0, 9⟩]

def ovsMixed : List Ovs.Rx :=
  [Ovs.rxOf ⟨0, 0, 30⟩, Ovs.rxOf ⟨2, 0, 5⟩, Ovs.repathAckRx, Ovs.rxOf ⟨0, 0, 3⟩,
   Ovs.rxOf ⟨1, 0, 9⟩]

theorem run_tracks_probes_mixed :
    (∃ s, exec (HopaCp.step default) (.start default) hopaCpMixed = .ok s ∧
      Tracks s.allPathsDelayList s.optPathId mixedProbes ∧ s.optPathId.toNat = 0) ∧
    (∃ s, exec Ovs.hopaCpProgress .start ovsMixed = .ok s ∧
      Tracks s.allPathsDelayList s.bestPathId mixedProbes ∧ s.bestPathId.toNat = 0) := by
  constructor
  · have hprobe : ∀ q, HopaCp.Selecting (HopaCp.rxOf default q) := fun q =>
      HopaCp.selecting_of_probe? (by rw [HopaCp.probe?_rxOf]; rfl)
    have hall : ∀ rx ∈ hopaCpMixed, HopaCp.Selecting rx := by
      simp [hopaCpMixed, hprobe, HopaCp.selecting_repathRx, HopaCp.selecting_repathAckRx]
    have hprobes : hopaCpMixed.filterMap HopaCp.probe? = mixedProbes := by
      simp [hopaCpMixed, HopaCp.probe?_rxOf, HopaCp.probe?_repathRx, HopaCp.probe?_repathAckRx,
        mixedProbes]
    obtain ⟨htracks, hexists⟩ := run_tracks_probes.1 default default hopaCpMixed
    obtain ⟨s, hs⟩ := hexists hall
    have hT := htracks s hs
    rw [hprobes] at hT
    exact ⟨s, hs, hT, hT.selects_iff.mp selects_mixedProbes⟩
  · have hprobe : ∀ q, Ovs.Selecting (Ovs.rxOf q) := fun q =>
      Ovs.selecting_of_probe? (by rw [Ovs.probe?_rxOf]; rfl)
    have hall : ∀ rx ∈ ovsMixed, Ovs.Selecting rx := by
      simp [ovsMixed, hprobe, Ovs.selecting_repathAckRx]
    have hprobes : ovsMixed.filterMap Ovs.probe? = mixedProbes := by
      simp [ovsMixed, Ovs.probe?_rxOf, Ovs.probe?_repathAckRx, mixedProbes]
    obtain ⟨s, hs, hT⟩ := run_tracks_probes.2 ovsMixed hall
    rw [hprobes] at hT
    exact ⟨s, hs, hT, hT.selects_iff.mp selects_mixedProbes⟩

/-! ### Offset of the sender's clock -/

theorem hopaCp_offset_iff (pf : HopaCp.Platform) (info : HopaCp.CurPathInfo) (c : Int)
    {rxs : List HopaCp.Rx} (hrxs : ∀ rx ∈ rxs, (HopaCp.probe? rx).isSome)
    (hall : ∀ p, Measured (rxs.filterMap HopaCp.probe?) p) :
    ∃ s s', exec (HopaCp.step pf) (.start info) rxs = .ok s ∧
      exec (HopaCp.step pf) (.start info) (rxs.map (.shift c)) = .ok s' ∧
      (s.optPathId = s'.optPathId ↔ SameSide c (rxs.filterMap HopaCp.probe?)) := by
  have hshift : ∀ rx ∈ rxs.map (.shift c), (HopaCp.probe? rx).isSome := by
    intro rx hrx
    obtain ⟨rx', hrx', rfl⟩ := List.mem_map.mp hrx
    rw [HopaCp.probe?_shift, Option.isSome_map]
    exact hrxs rx' hrx'
  obtain ⟨s, hs⟩ := HopaCp.exists_exec pf (.start info) fun rx hrx =>
    HopaCp.selecting_of_probe? (hrxs rx hrx)
  obtain ⟨s', hs'⟩ := HopaCp.exists_exec pf (.start info) fun rx hrx =>
    HopaCp.selecting_of_probe? (hshift rx hrx)
  have hT := HopaCp.tracks_of_exec hs
  have hT' := HopaCp.tracks_of_exec hs'
  rw [filterMap_map_of_comm (HopaCp.probe?_shift c)] at hT'
  exact ⟨s, s', hs, hs', hT.shift_iff hT' hall⟩

theorem ovs_offset_iff (c : Int) {rxs : List Ovs.Rx} (hrxs : ∀ rx ∈ rxs, (Ovs.probe? rx).isSome)
    (hall : ∀ p, Measured (rxs.filterMap Ovs.probe?) p) :
    ∃ s s', exec Ovs.hopaCpProgress .start rxs = .ok s ∧
      exec Ovs.hopaCpProgress .start (rxs.map (.shift c)) = .ok s' ∧
      (s.bestPathId = s'.bestPathId ↔ SameSide c (rxs.filterMap Ovs.probe?)) := by
  have hshift : ∀ rx ∈ rxs.map (.shift c), (Ovs.probe? rx).isSome := by
    intro rx hrx
    obtain ⟨rx', hrx', rfl⟩ := List.mem_map.mp hrx
    rw [Ovs.probe?_shift, Option.isSome_map]
    exact hrxs rx' hrx'
  obtain ⟨s, hs, hT⟩ := Ovs.exists_exec_tracks fun rx hrx =>
    Ovs.selecting_of_probe? (hrxs rx hrx)
  obtain ⟨s', hs', hT'⟩ := Ovs.exists_exec_tracks fun rx hrx =>
    Ovs.selecting_of_probe? (hshift rx hrx)
  rw [filterMap_map_of_comm (Ovs.probe?_shift c)] at hT'
  exact ⟨s, s', hs, hs', hT.shift_iff hT' hall⟩

/-- On probes of all four paths, moving the sender's clock by `c` keeps the
selected path exactly when `c` separates no two of the stored delays. -/
theorem clock_offset_iff (c : Int) :
    (∀ (pf : HopaCp.Platform) (info : HopaCp.CurPathInfo) (rxs : List HopaCp.Rx),
      (∀ rx ∈ rxs, (HopaCp.probe? rx).isSome) →
      (∀ p, Measured (rxs.filterMap HopaCp.probe?) p) →
      ∃ s s', exec (HopaCp.step pf) (.start info) rxs = .ok s ∧
        exec (HopaCp.step pf) (.start info) (rxs.map (.shift c)) = .ok s' ∧
        (s.optPathId = s'.optPathId ↔ SameSide c (rxs.filterMap HopaCp.probe?))) ∧
    (∀ rxs : List Ovs.Rx, (∀ rx ∈ rxs, (Ovs.probe? rx).isSome) →
      (∀ p, Measured (rxs.filterMap Ovs.probe?) p) →
      ∃ s s', exec Ovs.hopaCpProgress .start rxs = .ok s ∧
        exec Ovs.hopaCpProgress .start (rxs.map (.shift c)) = .ok s' ∧
        (s.bestPathId = s'.bestPathId ↔ SameSide c (rxs.filterMap Ovs.probe?))) :=
  ⟨fun pf info _ hrxs hall => hopaCp_offset_iff pf info c hrxs hall,
    fun _ hrxs hall => ovs_offset_iff c hrxs hall⟩

/-- Path 0 is 10 ns faster than the others.  An offset of 1000000005 ns makes its
delay wrap around and no other. -/
def crossingProbes : List Probe := [⟨0, 0, 0⟩, ⟨1, 0, 10⟩, ⟨2, 0, 10⟩, ⟨3, 0, 10⟩]

theorem measured_crossingProbes : ∀ p, Measured crossingProbes p := by decide

theorem isSome_probe?_map (ps : List Probe) :
    (∀ rx ∈ ps.map (HopaCp.rxOf default), (HopaCp.probe? rx).isSome) ∧
      (∀ rx ∈ ps.map Ovs.rxOf, (Ovs.probe? rx).isSome) := by
  constructor
  · intro rx hrx
    obtain ⟨q, -, rfl⟩ := List.mem_map.mp hrx
    rw [HopaCp.probe?_rxOf]
    rfl
  · intro rx hrx
    obtain ⟨q, -, rfl⟩ := List.mem_map.mp hrx
    rw [Ovs.probe?_rxOf]
    rfl

theorem clock_offset_iff_crossing :
    (∃ s s', exec (HopaCp.step default) (.start default)
        (crossingProbes.map (HopaCp.rxOf default)) = .ok s ∧
      exec (HopaCp.step default) (.start default)
        ((crossingProbes.map (HopaCp.rxOf default)).map (.shift 7)) = .ok s' ∧
      s.optPathId = s'.optPathId) ∧
    (∃ s s', exec Ovs.hopaCpProgress .start (crossingProbes.map Ovs.rxOf) = .ok s ∧
      exec Ovs.hopaCpProgress .start ((crossingProbes.map Ovs.rxOf).map (.shift 7)) = .ok s' ∧
      s.bestPathId = s'.bestPathId) := by
  have hside : SameSide 7 crossingProbes := by decide +kernel
  constructor
  · obtain ⟨s, s', hs, hs', hiff⟩ := (clock_offset_iff 7).1 default default
      (crossingProbes.map (HopaCp.rxOf default)) (isSome_probe?_map crossingProbes).1
      (by rw [filterMap_map_of_some (HopaCp.probe?_rxOf default)]; exact measured_crossingProbes)
    rw [filterMap_map_of_some (HopaCp.probe?_rxOf default)] at hiff
    exact ⟨s, s', hs, hs', hiff.mpr hside⟩
  · obtain ⟨s, s', hs, hs', hiff⟩ := (clock_offset_iff 7).2
      (crossingProbes.map Ovs.rxOf) (isSome_probe?_map crossingProbes).2
      (by rw [filterMap_map_of_some Ovs.probe?_rxOf]; exact measured_crossingProbes)
    rw [filterMap_map_of_some Ovs.probe?_rxOf] at hiff
    exact ⟨s, s', hs, hs', hiff.mpr hside⟩

/-- Both programs select another path when the sender's clock is 1000000005 ns
ahead, although every timestamp stays a 64-bit number. -/
theorem clock_offset_changes_selection :
    (∀ q ∈ crossingProbes, 0 ≤ (q.senderTs.toNat : Int) + 1000000005 ∧
      (q.senderTs.toNat : Int) + 1000000005 < 2 ^ 64) ∧
    (∃ s s', exec (HopaCp.step default) (.start default)
        (crossingProbes.map (HopaCp.rxOf default)) = .ok s ∧
      exec (HopaCp.step default) (.start default)
        ((crossingProbes.map (HopaCp.rxOf default)).map (.shift 1000000005)) = .ok s' ∧
      s.optPathId ≠ s'.optPathId) ∧
    (∃ s s', exec Ovs.hopaCpProgress .start (crossingProbes.map Ovs.rxOf) = .ok s ∧
      exec Ovs.hopaCpProgress .start
        ((crossingProbes.map Ovs.rxOf).map (.shift 1000000005)) = .ok s' ∧
      s.bestPathId ≠ s'.bestPathId) := by
  have hside : ¬ SameSide 1000000005 crossingProbes := by decide +kernel
  refine ⟨by decide, ?_, ?_⟩
  · obtain ⟨s, s', hs, hs', hiff⟩ := hopaCp_offset_iff default default 1000000005
      (isSome_probe?_map crossingProbes).1
      (by rw [filterMap_map_of_some (HopaCp.probe?_rxOf default)]; exact measured_crossingProbes)
    rw [filterMap_map_of_some (HopaCp.probe?_rxOf default)] at hiff
    exact ⟨s, s', hs, hs', fun he => hside (hiff.mp he)⟩
  · obtain ⟨s, s', hs, hs', hiff⟩ := ovs_offset_iff 1000000005
      (isSome_probe?_map crossingProbes).2
      (by rw [filterMap_map_of_some Ovs.probe?_rxOf]; exact measured_crossingProbes)
    rw [filterMap_map_of_some Ovs.probe?_rxOf] at hiff
    exact ⟨s, s', hs, hs', fun he => hside (hiff.mp he)⟩

/-! ### Unmeasured paths -/

theorem hopaCp_measured_iff (pf : HopaCp.Platform) (info : HopaCp.CurPathInfo)
    {rxs : List HopaCp.Rx} (hrxs : ∀ rx ∈ rxs, HopaCp.Selecting rx) :
    ∃ s, exec (HopaCp.step pf) (.start info) rxs = .ok s ∧
      ((∃ p : PathId, s.optPathId.toNat = p ∧ Measured (rxs.filterMap HopaCp.probe?) p) ↔
        Holds (rxs.filterMap HopaCp.probe?)) := by
  obtain ⟨s, hs⟩ := HopaCp.exists_exec pf (.start info) hrxs
  exact ⟨s, hs, (HopaCp.tracks_of_exec hs).measured_iff⟩

theorem ovs_measured_iff {rxs : List Ovs.Rx} (hrxs : ∀ rx ∈ rxs, Ovs.Selecting rx) :
    ∃ s, exec Ovs.hopaCpProgress .start rxs = .ok s ∧
      ((∃ p : PathId, s.bestPathId.toNat = p ∧ Measured (rxs.filterMap Ovs.probe?) p) ↔
        Holds (rxs.filterMap Ovs.probe?)) := by
  obtain ⟨s, hs, hT⟩ := Ovs.exists_exec_tracks hrxs
  exact ⟨s, hs, hT.measured_iff⟩

/-- In every reachable state the selected path is a measured one exactly when some
measured path holds its place against the initial table entry. -/
theorem selected_measured_iff (pf : HopaCp.Platform) (info : HopaCp.CurPathInfo) :
    (∀ rxs : List HopaCp.Rx, (∀ rx ∈ rxs, HopaCp.Selecting rx) →
      ∃ s, exec (HopaCp.step pf) (.start info) rxs = .ok s ∧
        ((∃ p : PathId, s.optPathId.toNat = p ∧ Measured (rxs.filterMap HopaCp.probe?) p) ↔
          Holds (rxs.filterMap HopaCp.probe?))) ∧
    (∀ rxs : List Ovs.Rx, (∀ rx ∈ rxs, Ovs.Selecting rx) →
      ∃ s, exec Ovs.hopaCpProgress .start rxs = .ok s ∧
        ((∃ p : PathId, s.bestPathId.toNat = p ∧ Measured (rxs.filterMap Ovs.probe?) p) ↔
          Holds (rxs.filterMap Ovs.probe?))) :=
  ⟨fun _ hrxs => hopaCp_measured_iff pf info hrxs, fun _ hrxs => ovs_measured_iff hrxs⟩

theorem selected_measured_iff_single :
    (∃ s, exec (HopaCp.step default) (.start default)
        ([⟨2, 0, 5⟩].map (HopaCp.rxOf default)) = .ok s ∧
      ∃ p : PathId, s.optPathId.toNat = p ∧ Measured [⟨2, 0, 5⟩] p) ∧
    (∃ s, exec Ovs.hopaCpProgress .start ([⟨2, 0, 5⟩].map Ovs.rxOf) = .ok s ∧
      ∃ p : PathId, s.bestPathId.toNat = p ∧ Measured [⟨2, 0, 5⟩] p) := by
  have hholds : Holds [⟨2, 0, 5⟩] := by decide +kernel
  constructor
  · obtain ⟨s, hs, hiff⟩ := (selected_measured_iff default default).1 _ fun rx hrx =>
      HopaCp.selecting_of_probe? ((isSome_probe?_map [⟨2, 0, 5⟩]).1 rx hrx)
    rw [filterMap_map_of_some (HopaCp.probe?_rxOf default)] at hiff
    exact ⟨s, hs, hiff.mpr hholds⟩
  · obtain ⟨s, hs, hiff⟩ := (selected_measured_iff default default).2 _ fun rx hrx =>
      Ovs.selecting_of_probe? ((isSome_probe?_map [⟨2, 0, 5⟩]).2 rx hrx)
    rw [filterMap_map_of_some Ovs.probe?_rxOf] at hiff
    exact ⟨s, hs, hiff.mpr hholds⟩

/-- One PROBE of path 0 that arrives 4 s after its timestamp stores more than
`0xFFFFFFFF`, and a path that was never probed is selected. -/
theorem unmeasured_path_selected :
    (∃ s, exec (HopaCp.step default) (.start default)
        ([⟨0, 0, 4000000000⟩].map (HopaCp.rxOf default)) = .ok s ∧
      ¬ ∃ p : PathId, s.optPathId.toNat = p ∧ Measured [⟨0, 0, 4000000000⟩] p) ∧
    (∃ s, exec Ovs.hopaCpProgress .start ([⟨0, 0, 4000000000⟩].map Ovs.rxOf) = .ok s ∧
      ¬ ∃ p : PathId, s.bestPathId.toNat = p ∧ Measured [⟨0, 0, 4000000000⟩] p) := by
  have hholds : ¬ Holds [⟨0, 0, 4000000000⟩] := by decide +kernel
  constructor
  · obtain ⟨s, hs, hiff⟩ := hopaCp_measured_iff default default fun rx hrx =>
      HopaCp.selecting_of_probe? ((isSome_probe?_map [⟨0, 0, 4000000000⟩]).1 rx hrx)
    rw [filterMap_map_of_some (HopaCp.probe?_rxOf default)] at hiff
    exact ⟨s, hs, fun h => hholds (hiff.mp h)⟩
  · obtain ⟨s, hs, hiff⟩ := ovs_measured_iff fun rx hrx =>
      Ovs.selecting_of_probe? ((isSome_probe?_map [⟨0, 0, 4000000000⟩]).2 rx hrx)
    rw [filterMap_map_of_some Ovs.probe?_rxOf] at hiff
    exact ⟨s, hs, fun h => hholds (hiff.mp h)⟩

end Repath
