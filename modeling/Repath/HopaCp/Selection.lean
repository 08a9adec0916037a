import Repath.Lib.Exec
import Repath.HopaCp.Progress

/-!
# Path selection of `hopa_cp.c` refines the selector

A PROBE is counted for the path its UDP destination port decodes to.  Whatever
other packets a run of `lcore_stats` holds, the state it reaches has the table
and the selected path that the run's probes determine.
-/

namespace Repath.HopaCp

open Selection Exec

/-- The probe a packet is, when it is a PROBE of one of the four paths and the
clock can be read. -/
def probe? (rx : Rx) : Option Probe :=
  match rx.clock with
  | none => none
  | some ts =>
    if classify rx.mbuf = .probe then
      if h : (pathIdOf rx.mbuf).toNat < pathNb then
        some { path := ⟨(pathIdOf rx.mbuf).toNat, h⟩, senderTs := tsOf rx.mbuf,
               receiverTs := ts.ns }
      else none
    else none

theorem probe?_eq_some_iff {rx : Rx} {q : Probe} :
    probe? rx = some q ↔ classify rx.mbuf = .probe ∧ (pathIdOf rx.mbuf).toNat = q.path ∧
      tsOf rx.mbuf = q.senderTs ∧ ∃ ts, rx.clock = some ts ∧ ts.ns = q.receiverTs := by
  rw [probe?]
  cases hclock : rx.clock with
  | none => exact ⟨nofun, fun h => by obtain ⟨-, -, -, ts, hts, -⟩ := h; cases hts⟩
  | some ts =>
      by_cases hprobe : classify rx.mbuf = .probe
      · simp only [if_pos hprobe]
        by_cases hpath : (pathIdOf rx.mbuf).toNat < pathNb
        · rw [dif_pos hpath, Option.some.injEq]
          constructor
          · intro h
            subst h
            exact ⟨hprobe, rfl, rfl, ts, rfl, rfl⟩
          · intro h
            obtain ⟨-, hp, hs, ts', hts, hr⟩ := h
            obtain rfl := Option.some.inj hts
            cases q
            simp only [Probe.mk.injEq]
            exact ⟨Fin.ext hp, hs, hr⟩
        · rw [dif_neg hpath]
          exact ⟨nofun, fun h => absurd (h.2.1 ▸ q.path.isLt) hpath⟩
      · simp only [if_neg hprobe]
        exact ⟨nofun, fun h => absurd h.1 hprobe⟩

theorem probe?_eq_none_of_ne {rx : Rx} (h : classify rx.mbuf ≠ .probe) : probe? rx = none := by
  cases hq : probe? rx with
  | none => rfl
  | some q => exact absurd (probe?_eq_some_iff.mp hq).1 h

/-- A step keeps the relation to the probes.  A PROBE of another port does not
get to a next state. -/
theorem tracks_step {pf : Platform} {s s' : State} {rx : Rx} {ps : List Probe}
    (hT : Tracks s.allPathsDelayList s.optPathId ps) (h : step pf s rx = .ok s') :
    Tracks s'.allPathsDelayList s'.optPathId (ps ++ (probe? rx).toList) := by
  obtain ⟨outs, h⟩ := step_eq_ok_iff.mp h
  by_cases hkind : classify rx.mbuf = .probe
  · rw [lcoreStats_probe pf s hkind] at h
    cases hprog : hopaCpProbePktProgress rx s with
    | error e => rw [hprog] at h; cases h
    | ok t =>
        rw [hprog] at h
        obtain ⟨rfl, -⟩ := Prod.mk.inj (Except.ok.inj h)
        obtain ⟨ts, best, hpath, hclock, rfl, hmin⟩ := hopaCpProbePktProgress_ok hprog
        let q : Probe := { path := ⟨(pathIdOf rx.mbuf).toNat, hpath⟩,
                           senderTs := tsOf rx.mbuf, receiverTs := ts.ns }
        have hq : probe? rx = some q :=
          probe?_eq_some_iff.mpr ⟨hkind, rfl, rfl, ts, hclock, rfl⟩
        rw [hq]
        exact hT.observe (q := q) hmin
  · obtain ⟨htable, hopt⟩ := lcoreStats_of_not_probe hkind h
    rw [probe?_eq_none_of_ne hkind, Option.toList_none, List.append_nil, htable, hopt]
    exact hT

theorem tracks_of_exec {pf : Platform} {info : CurPathInfo} {s : State} {rxs : List Rx}
    (h : exec (step pf) (State.start info) rxs = .ok s) :
    Tracks s.allPathsDelayList s.optPathId (rxs.filterMap probe?) := by
  refine exec_invariant (P := fun js (s : State) =>
    Tracks s.allPathsDelayList s.optPathId (js.filterMap probe?)) tracks_start ?_ h
  intro js s rx s' _ hP hs'
  rw [filterMap_snoc]
  exact tracks_step hP hs'

theorem exists_step_of_probe? {pf : Platform} {rx : Rx} (s : State) (h : (probe? rx).isSome) :
    ∃ s', step pf s rx = .ok s' := by
  obtain ⟨q, hq⟩ := Option.isSome_iff_exists.mp h
  obtain ⟨hkind, hpath, -, ts, hclock, -⟩ := probe?_eq_some_iff.mp hq
  have hlt : (pathIdOf rx.mbuf).toNat < pathNb := hpath ▸ q.path.isLt
  obtain ⟨best, hok, -⟩ := exists_hopaCpProbePktProgress s hclock hlt
  have hstats := lcoreStats_probe pf s hkind
  rw [hok] at hstats
  exact ⟨_, step_eq_ok_iff.mpr ⟨[], hstats⟩⟩

/-- A packet that `lcore_stats` gets past: a PROBE of one of the four paths with a
readable clock, a REPATH with a buffer for its answer, or a packet that is no
data-plane packet. -/
def Selecting (rx : Rx) : Prop :=
  (classify rx.mbuf = .probe → (probe? rx).isSome) ∧
    (classify rx.mbuf = .repath → rx.alloc.isSome) ∧ classify rx.mbuf ≠ .dpTs

theorem exists_step_of_selecting {pf : Platform} {rx : Rx} (s : State) (h : Selecting rx) :
    ∃ s', step pf s rx = .ok s' := by
  cases hkind : classify rx.mbuf with
  | probe => exact exists_step_of_probe? s (h.1 hkind)
  | repath =>
      obtain ⟨buf, hbuf⟩ := Option.isSome_iff_exists.mp (h.2.1 hkind)
      have hack : ∃ ack, encodeRepathAckPkt pf.cksum rx.alloc s.optPathId = .ok ack := by
        rw [hbuf]
        exact ⟨_, rfl⟩
      obtain ⟨ack, hack⟩ := hack
      refine ⟨{ s with retranTimer := true }, step_eq_ok_iff.mpr ⟨[ack], ?_⟩⟩
      rw [lcoreStats, hkind]
      show hopaCpRepathPktProgress pf rx s = _
      rw [hopaCpRepathPktProgress, hack]
      rfl
  | repathAck =>
      refine ⟨hopaCpRepathAckPktProgress s, step_eq_ok_iff.mpr ⟨[], ?_⟩⟩
      rw [lcoreStats, hkind]
  | dpTs => exact absurd hkind h.2.2
  | skip =>
      refine ⟨s, step_eq_ok_iff.mpr ⟨[], ?_⟩⟩
      rw [lcoreStats, hkind]

theorem exists_exec (pf : Platform) {rxs : List Rx} (s : State) (h : ∀ rx ∈ rxs, Selecting rx) :
    ∃ s', exec (step pf) s rxs = .ok s' := by
  have hrun : ∃ s', exec (step pf) s rxs = .ok s' ∧ True :=
    exists_exec_invariant (P := fun _ _ => True) trivial fun js t rx hrx _ => by
      obtain ⟨t', ht'⟩ := exists_step_of_selecting t (h rx hrx)
      exact ⟨t', ht', trivial⟩
  obtain ⟨s', hs', -⟩ := hrun
  exact ⟨s', hs'⟩

theorem selecting_of_probe? {rx : Rx} (h : (probe? rx).isSome) : Selecting rx := by
  obtain ⟨q, hq⟩ := Option.isSome_iff_exists.mp h
  obtain ⟨hkind, -⟩ := probe?_eq_some_iff.mp hq
  refine ⟨fun _ => h, fun hrepath => ?_, fun hdp => ?_⟩
  · rw [hkind] at hrepath
    cases hrepath
  · rw [hkind] at hdp
    cases hdp

/-! ### Offset of the sender's clock -/

def Rx.shift (c : Int) (rx : Rx) : Rx :=
  { rx with mbuf := rx.mbuf.store fun m =>
      m.put64 (hopaOff + HopaCpHdr.offTs) (tsOf rx.mbuf + UInt64.ofInt c) }

theorem classify_shift (c : Int) (rx : Rx) :
    classify (rx.shift c).mbuf = classify rx.mbuf := by
  simp [classify, Rx.shift, nextProtoIdOf, srcPortOf, flagOf, cpFlagOf]

theorem pathIdOf_shift (c : Int) (rx : Rx) :
    pathIdOf (rx.shift c).mbuf = pathIdOf rx.mbuf := by
  simp [pathIdOf, Rx.shift, dstPortOf]

theorem tsOf_shift (c : Int) (rx : Rx) :
    tsOf (rx.shift c).mbuf = tsOf rx.mbuf + UInt64.ofInt c := by
  simp [tsOf, Rx.shift]

theorem probe?_shift (c : Int) (rx : Rx) :
    probe? (rx.shift c) = (probe? rx).map (Probe.shift c) := by
  have hclock : (rx.shift c).clock = rx.clock := rfl
  simp only [probe?, hclock, classify_shift, pathIdOf_shift, tsOf_shift]
  cases rx.clock with
  | none => rfl
  | some ts =>
      by_cases hprobe : classify rx.mbuf = .probe
      · simp only [if_pos hprobe]
        by_cases hpath : (pathIdOf rx.mbuf).toNat < pathNb
        · rw [dif_pos hpath, dif_pos hpath]
          rfl
        · rw [dif_neg hpath, dif_neg hpath]
          rfl
      · simp only [if_neg hprobe]
        rfl

end Repath.HopaCp
