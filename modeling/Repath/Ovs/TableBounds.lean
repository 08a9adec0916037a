import Repath.Ovs.Progress

/-!
# Range of the path numbers a vswitchd node takes from the wire

A PROBE names its path in `probe_path_id`, a REPATH in `repath_id`.  Neither
byte is checked.  The table and `best_path_id` stay in range over a run exactly
when every header of the run names a path below `PATH_NB`.
-/

namespace Repath.Ovs

open Exec

/-- The header names a path outside `0 .. 3` in the field its handler reads. -/
def NamesOutside (rx : Rx) : Prop :=
  (IsKind rx .probe ∧ ¬ rx.hdr.probePathId.toNat < pathNb) ∨
    (IsKind rx .repath ∧ ¬ rx.hdr.repathId.toNat < pathNb)

/-- Along the run from `s` every store is inside the table, the selected path is
in range in every state, and a header that names a path outside the range
changes nothing. -/
def InBounds (s : CpState) (rxs : List Rx) : Prop :=
  Safe hopaCpProgress (fun s => s.bestPathId.toNat < pathNb)
    (fun s rx s' => NamesOutside rx → s' = s) s rxs

theorem exists_hopaCpProgress_of_inside {s : CpState} {rx : Rx}
    (hs : s.bestPathId.toNat < pathNb) (hrx : ¬ NamesOutside rx) :
    ∃ s', hopaCpProgress s rx = .ok s' ∧ s'.bestPathId.toNat < pathNb := by
  by_cases hprobe : IsKind rx .probe
  · have hpath : rx.hdr.probePathId.toNat < pathNb := by
      by_contra hout
      exact hrx (Or.inl ⟨hprobe, hout⟩)
    obtain ⟨best, hok, p, hp, -⟩ := exists_hopaCpProbePktProgress (s := s) hpath
    rw [hopaCpProgress_probe hprobe]
    exact ⟨_, hok, by rw [hp]; exact p.isLt⟩
  · by_cases hrepath : IsKind rx .repath
    · have hpath : rx.hdr.repathId.toNat < pathNb := by
        by_contra hout
        exact hrx (Or.inr ⟨hrepath, hout⟩)
      rw [hopaCpProgress_repath hrepath]
      exact ⟨_, rfl, hpath⟩
    · rw [hopaCpProgress_other hprobe hrepath]
      exact ⟨s, rfl, hs⟩

theorem hopaCpProgress_of_outside {s s' : CpState} {rx : Rx} (hrx : NamesOutside rx)
    (h : hopaCpProgress s rx = .ok s') : ¬ s'.bestPathId.toNat < pathNb := by
  rcases hrx with hprobe | hrepath
  · rw [hopaCpProgress_probe hprobe.1, hopaCpProbePktProgress_outside hprobe.2] at h
    cases h
  · rw [hopaCpProgress_repath hrepath.1] at h
    obtain rfl := Except.ok.inj h
    exact hrepath.2

theorem inBounds_iff_of_lt {s : CpState} (rxs : List Rx) (hs : s.bestPathId.toNat < pathNb) :
    InBounds s rxs ↔ ∀ rx ∈ rxs, ¬ NamesOutside rx := by
  induction rxs generalizing s with
  | nil => exact ⟨fun _ rx hrx => absurd hrx List.not_mem_nil, fun _ => hs⟩
  | cons rx rest ih =>
      rw [List.forall_mem_cons]
      constructor
      · intro h
        obtain ⟨-, s', hok, -, hrest⟩ := h
        have hs' := hrest.here
        exact ⟨fun hout => hopaCpProgress_of_outside hout hok hs', (ih hs').mp hrest⟩
      · intro h
        obtain ⟨s', hok, hs'⟩ := exists_hopaCpProgress_of_inside hs h.1
        exact ⟨hs, s', hok, fun hout => absurd hout h.1, (ih hs').mpr h.2⟩

/-- From the initial state a run stays in bounds exactly when none of its headers
names a path outside `0 .. 3`. -/
theorem inBounds_start_iff (rxs : List Rx) :
    InBounds CpState.start rxs ↔ ∀ rx ∈ rxs, ¬ NamesOutside rx :=
  inBounds_iff_of_lt rxs (by decide)

/-- One PROBE of path 4 stores past the table; one REPATH to path 4 selects it. -/
theorem not_inBounds_path_four :
    ¬ InBounds CpState.start [{ hdr := probeHdr 4 0, clock := ⟨0, 0⟩ }] ∧
      ¬ InBounds CpState.start [{ hdr := repathHdr 4, clock := ⟨0, 0⟩ }] := by
  refine ⟨fun h => ?_, fun h => ?_⟩
  · obtain ⟨-, s', hok, -, hs'⟩ := h
    exact absurd hok (by rw [hopaCpProgress_probe (isKind_probeHdr 4 0 _),
      hopaCpProbePktProgress_outside (by decide)]; exact nofun)
  · obtain ⟨-, s', hok, -, hs'⟩ := h
    rw [hopaCpProgress_repath (isKind_repathHdr 4 _)] at hok
    obtain rfl := Except.ok.inj hok
    exact absurd hs'.here (by decide)

end Repath.Ovs
