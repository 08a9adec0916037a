import Repath.Ovs.Progress

/-!
# Path selection of a vswitchd node refines the selector

A run of `hopa_cp_progress` over PROBE headers of the four paths, mixed with any
headers that are neither PROBE nor REPATH, ends in the table and the selected
path that the probes determine.
-/

namespace Repath.Ovs

open Selection Exec

def probe? (rx : Rx) : Option Probe :=
  if IsKind rx .probe then
    if h : rx.hdr.probePathId.toNat < pathNb then
      some { path := ⟨rx.hdr.probePathId.toNat, h⟩, senderTs := rx.hdr.ts,
             receiverTs := rx.clock.ns }
    else none
  else none

/-- A PROBE of one of the four paths, a REPATH_ACK, an unknown or a non-CP
header. -/
def Selecting (rx : Rx) : Prop :=
  (IsKind rx .probe → rx.hdr.probePathId.toNat < pathNb) ∧ ¬ IsKind rx .repath

theorem probe?_eq_some_iff {rx : Rx} {q : Probe} :
    probe? rx = some q ↔ IsKind rx .probe ∧ rx.hdr.probePathId.toNat = q.path ∧
      rx.hdr.ts = q.senderTs ∧ rx.clock.ns = q.receiverTs := by
  rw [probe?]
  by_cases hprobe : IsKind rx .probe
  · rw [if_pos hprobe]
    by_cases hpath : rx.hdr.probePathId.toNat < pathNb
    · rw [dif_pos hpath, Option.some.injEq]
      constructor
      · intro h
        subst h
        exact ⟨hprobe, rfl, rfl, rfl⟩
      · intro h
        obtain ⟨-, hp, hs, hr⟩ := h
        cases q
        simp only [Probe.mk.injEq]
        exact ⟨Fin.ext hp, hs, hr⟩
    · rw [dif_neg hpath]
      constructor
      · exact nofun
      · intro h
        exact absurd (h.2.1 ▸ q.path.isLt) hpath
  · rw [if_neg hprobe]
    exact ⟨nofun, fun h => absurd h.1 hprobe⟩

theorem selecting_of_probe? {rx : Rx} (h : (probe? rx).isSome) : Selecting rx := by
  obtain ⟨q, hq⟩ := Option.isSome_iff_exists.mp h
  obtain ⟨hprobe, hpath, -, -⟩ := probe?_eq_some_iff.mp hq
  refine ⟨fun _ => hpath ▸ q.path.isLt, fun hrepath => ?_⟩
  have hkind := hprobe.2.symm.trans hrepath.2
  cases hkind

theorem tracks_hopaCpProgress {s : CpState} {rx : Rx} {ps : List Probe} (hrx : Selecting rx)
    (h : Tracks s.allPathsDelayList s.bestPathId ps) :
    ∃ s', hopaCpProgress s rx = .ok s' ∧
      Tracks s'.allPathsDelayList s'.bestPathId (ps ++ (probe? rx).toList) := by
  by_cases hprobe : IsKind rx .probe
  · obtain ⟨best, hok, hmin⟩ := exists_hopaCpProbePktProgress (s := s) (hrx.1 hprobe)
    let q : Probe := { path := ⟨rx.hdr.probePathId.toNat, hrx.1 hprobe⟩, senderTs := rx.hdr.ts,
                       receiverTs := rx.clock.ns }
    have hq : probe? rx = some q := probe?_eq_some_iff.mpr ⟨hprobe, rfl, rfl, rfl⟩
    have hdelay : 1000000000 + rx.clock.ns - rx.hdr.ts = q.delay := by
      show 1000000000 + rx.clock.ns - rx.hdr.ts = rx.clock.ns - rx.hdr.ts + 1000000000
      grind
    rw [hdelay] at hok hmin
    rw [hopaCpProgress_probe hprobe, hq]
    exact ⟨_, hok, h.observe (q := q) hmin⟩
  · have hq : probe? rx = none := by rw [probe?, if_neg hprobe]
    rw [hopaCpProgress_other hprobe hrx.2, hq, Option.toList_none, List.append_nil]
    exact ⟨s, rfl, h⟩

theorem exists_exec_tracks {rxs : List Rx} (hrxs : ∀ rx ∈ rxs, Selecting rx) :
    ∃ s, exec hopaCpProgress CpState.start rxs = .ok s ∧
      Tracks s.allPathsDelayList s.bestPathId (rxs.filterMap probe?) := by
  refine exists_exec_invariant (P := fun js (s : CpState) =>
    Tracks s.allPathsDelayList s.bestPathId (js.filterMap probe?)) tracks_start ?_
  intro js s rx hrx hP
  obtain ⟨s', hs', hT⟩ := tracks_hopaCpProgress (hrxs rx hrx) hP
  exact ⟨s', hs', by rwa [filterMap_snoc]⟩

def Rx.shift (c : Int) (rx : Rx) : Rx :=
  { rx with hdr := { rx.hdr with ts := rx.hdr.ts + UInt64.ofInt c } }

theorem probe?_shift (c : Int) (rx : Rx) :
    probe? (rx.shift c) = (probe? rx).map (Probe.shift c) := by
  rw [probe?, probe?]
  by_cases hprobe : IsKind rx .probe
  · have hshift : IsKind (rx.shift c) .probe := hprobe
    rw [if_pos hprobe, if_pos hshift]
    by_cases hpath : rx.hdr.probePathId.toNat < pathNb
    · have hpath' : (rx.shift c).hdr.probePathId.toNat < pathNb := hpath
      rw [dif_pos hpath, dif_pos hpath']
      rfl
    · have hpath' : ¬ (rx.shift c).hdr.probePathId.toNat < pathNb := hpath
      rw [dif_neg hpath, dif_neg hpath']
      rfl
  · have hshift : ¬ IsKind (rx.shift c) .probe := hprobe
    rw [if_neg hprobe, if_neg hshift]
    rfl

def rxOf (q : Probe) : Rx :=
  { hdr := probeHdr (UInt8.ofNat q.path) q.senderTs, clock := ⟨0, q.receiverTs⟩ }

theorem probe?_rxOf (q : Probe) : probe? (rxOf q) = some q := by
  have hpath : ∀ p : PathId, (UInt8.ofNat p).toNat = p := by decide
  exact probe?_eq_some_iff.mpr ⟨isKind_probeHdr _ _ _, hpath q.path, rfl, Timespec.ns_zero _⟩

def repathAckRx : Rx :=
  { hdr := { repathHdr 0 with cpFlag := HopaCpFlag.repathAck.code }, clock := ⟨0, 0⟩ }

theorem probe?_repathAckRx : probe? repathAckRx = none := by decide

theorem selecting_repathAckRx : Selecting repathAckRx := ⟨by decide, by decide⟩

end Repath.Ovs
