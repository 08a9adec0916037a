import Repath.HopaCp.PathCheck

/-!
# The delay range that `one_path_check` keeps

The check keeps the largest and the smallest delay it has seen, and sets the
threshold seven tenths of the way from the smallest to the largest.  `R` is taken as
exactly seven tenths here.
-/

namespace Repath.HopaCp

open Exec

/-- `min_dt + R * (max_dt - min_dt)`, truncated, with `R` exactly `7 / 10`. -/
def exactThresDt (minDt maxDt : UInt64) : UInt64 :=
  UInt64.ofNat (minDt.toNat + 7 * (maxDt - minDt).toNat / 10)

def exactPlatform (cksum : RteCksum) : Platform := { cksum := cksum, thresDt := exactThresDt }

theorem toNat_exactThresDt {minDt maxDt : UInt64} (h : minDt ≤ maxDt) :
    (exactThresDt minDt maxDt).toNat =
      minDt.toNat + 7 * (maxDt.toNat - minDt.toNat) / 10 := by
  have hmax := maxDt.toNat_lt
  have hle := UInt64.le_iff_toNat_le.mp h
  rw [exactThresDt, UInt64.toNat_ofNat', UInt64.toNat_sub_of_le _ _ h]
  apply Nat.mod_eq_of_lt
  omega

theorem exactThresDt_mem {minDt maxDt : UInt64} (h : minDt ≤ maxDt) :
    minDt ≤ exactThresDt minDt maxDt ∧ exactThresDt minDt maxDt ≤ maxDt := by
  have hle := UInt64.le_iff_toNat_le.mp h
  rw [UInt64.le_iff_toNat_le, UInt64.le_iff_toNat_le, toNat_exactThresDt h]
  omega

/-- What is set in `cur_path_info` between two calls. -/
structure Sample where
  curDt : UInt64
  curTs : UInt64
  lastTs : UInt64
  deriving DecidableEq, Repr

def CurPathInfo.setSample (x : Sample) (info : CurPathInfo) : CurPathInfo :=
  { info with curDt := x.curDt, curTs := x.curTs, lastTs := x.lastTs }

/-- Neither divisor of the call is zero. -/
def Sample.Divides (x : Sample) : Prop :=
  x.curTs - x.lastTs ≠ 0 ∧ 2 * (x.curTs - x.lastTs) ≠ 0

instance (x : Sample) : Decidable x.Divides := inferInstanceAs (Decidable (_ ∧ _))

/-- One call on the path information the last one left.  The state carries what the
last call returned. -/
def callCheck (cksum : RteCksum) (r : Bool × CurPathInfo) (x : Sample) :
    Except Stop (Bool × CurPathInfo) :=
  onePathCheck (exactPlatform cksum) (r.2.setSample x)

/-- The delay and the threshold lie between the two extrema. -/
structure CurPathInfo.InRange (info : CurPathInfo) : Prop where
  minDt_le_curDt : info.minDt ≤ info.curDt
  curDt_le_maxDt : info.curDt ≤ info.maxDt
  minDt_le_thresDt : info.minDt ≤ info.thresDt
  thresDt_le_maxDt : info.thresDt ≤ info.maxDt

/-- The extrema are those of the initial values and all samples. -/
structure Extremal (info : CurPathInfo) (samples : List Sample) (info' : CurPathInfo) :
    Prop where
  greatest : IsGreatest (insert info.maxDt {d | ∃ y ∈ samples, y.curDt = d}) info'.maxDt
  least : IsLeast (insert info.minDt {d | ∃ y ∈ samples, y.curDt = d}) info'.minDt

theorem extremal_start (info : CurPathInfo) : Extremal info [] info := by
  have hnone : {d : UInt64 | ∃ y ∈ ([] : List Sample), y.curDt = d} = ∅ := by
    apply Set.eq_empty_of_forall_notMem
    intro d hd
    obtain ⟨y, hy, -⟩ := hd
    exact absurd hy List.not_mem_nil
  constructor
  · rw [hnone, insert_empty_eq]
    exact isGreatest_singleton
  · rw [hnone, insert_empty_eq]
    exact isLeast_singleton

theorem insert_delays_snoc (d₀ : UInt64) (samples : List Sample) (x : Sample) :
    insert d₀ {d | ∃ y ∈ samples ++ [x], y.curDt = d} =
      insert x.curDt (insert d₀ {d | ∃ y ∈ samples, y.curDt = d}) := by
  ext d
  simp only [Set.mem_insert_iff, Set.mem_ofPred_eq, List.mem_append, List.mem_singleton]
  constructor
  · intro h
    rcases h with h | ⟨y, hy | rfl, hd⟩
    · exact Or.inr (Or.inl h)
    · exact Or.inr (Or.inr ⟨y, hy, hd⟩)
    · exact Or.inl hd.symm
  · intro h
    rcases h with h | h | ⟨y, hy, hd⟩
    · exact Or.inr ⟨x, Or.inr rfl, h.symm⟩
    · exact Or.inl h
    · exact Or.inr ⟨y, Or.inl hy, hd⟩

section Call

variable (cksum : RteCksum) {info info' : CurPathInfo} {samples : List Sample} {x : Sample}

/-- A call counts its sample in. -/
theorem extremal_checked (h : Extremal info samples info') :
    Extremal info (samples ++ [x])
      ((info'.setSample x).checked (exactPlatform cksum)) := by
  constructor
  · rw [insert_delays_snoc, CurPathInfo.checked, sampled_eq, max_comm]
    exact h.greatest.insert x.curDt
  · rw [insert_delays_snoc, CurPathInfo.checked, sampled_eq, min_comm]
    exact h.least.insert x.curDt

theorem inRange_checked (info : CurPathInfo) : (info.checked (exactPlatform cksum)).InRange := by
  have hrange : min info.minDt info.curDt ≤ max info.maxDt info.curDt :=
    (min_le_right _ _).trans (le_max_right _ _)
  have hthres := exactThresDt_mem hrange
  rw [CurPathInfo.checked, sampled_eq]
  exact {
    minDt_le_curDt := min_le_right _ _
    curDt_le_maxDt := le_max_right _ _
    minDt_le_thresDt := hthres.1
    thresDt_le_maxDt := hthres.2 }

theorem exists_exec_extremal (info : CurPathInfo) {samples : List Sample}
    (h : ∀ y ∈ samples, y.Divides) :
    ∃ r, exec (callCheck cksum) (false, info) samples = .ok r ∧ Extremal info samples r.2 := by
  refine exists_exec_invariant (P := fun js (r : Bool × CurPathInfo) => Extremal info js r.2)
    (extremal_start info) fun js r y hy hr => ?_
  exact ⟨_, onePathCheck_eq_ok_iff.mpr ⟨h y hy, rfl⟩, extremal_checked cksum hr⟩

end Call

/-- After each of a sequence of calls the delay and the threshold lie between the
extrema, these are those of the initial values and all samples, and a sample at
least as large as everything before makes the call return true. -/
theorem delay_range_run (cksum : RteCksum) (info : CurPathInfo) (samples : List Sample)
    (x : Sample) (h : ∀ y ∈ samples ++ [x], y.Divides) :
    ∃ isRepath info', exec (callCheck cksum) (false, info) (samples ++ [x]) =
        .ok (isRepath, info') ∧
      info'.curDt = x.curDt ∧ info'.InRange ∧ Extremal info (samples ++ [x]) info' ∧
      ((∀ y ∈ samples, y.curDt ≤ x.curDt) → info.maxDt ≤ x.curDt → isRepath = true) := by
  obtain ⟨r, hrun, hextremal⟩ := exists_exec_extremal cksum info
    fun y hy => h y (List.mem_append_left _ hy)
  have hcall : callCheck cksum r x = _ := onePathCheck_eq_ok_iff.mpr
    ⟨h x (List.mem_append_right _ (List.mem_singleton_self x)), rfl⟩
  have hlast := extremal_checked cksum (x := x) hextremal
  have hrange := inRange_checked cksum (r.2.setSample x)
  have hcurDt : ((r.2.setSample x).checked (exactPlatform cksum)).curDt = x.curDt := by
    rw [CurPathInfo.checked, sampled_eq]
    rfl
  let last := (r.2.setSample x).checked (exactPlatform cksum)
  refine ⟨last.isRepath last.halfGrad, last, ?_, hcurDt, hrange, hlast, fun hall hinit => ?_⟩
  · rw [exec_append_of_ok _ hrun]
    exact exec_cons_of_ok [] hcall
  · -- the sample is the new maximum, which the threshold does not pass
    have hmax : ((r.2.setSample x).checked (exactPlatform cksum)).maxDt ≤ x.curDt := by
      rcases hlast.greatest.1 with hfirst | ⟨y, hy, hd⟩
      · exact hfirst.trans_le hinit
      · rw [← hd]
        rcases List.mem_append.mp hy with hy | hy
        · exact hall y hy
        · rw [List.mem_singleton.mp hy]
    have hforce : last.thresDt ≤ x.curDt := hrange.thresDt_le_maxDt.trans hmax
    rw [CurPathInfo.isRepath, hcurDt]
    simp [hforce]

/-- Two samples above the initial maximum, over a range that starts upside down. -/
theorem delay_range_run_rising :
    ∃ isRepath info', exec (callCheck default) (false, { (default : CurPathInfo) with minDt := 9 })
        [⟨5, 1, 0⟩, ⟨7, 2, 1⟩] = .ok (isRepath, info') ∧
      info'.InRange ∧ isRepath = true := by
  obtain ⟨isRepath, info', hrun, -, hrange, -, hforce⟩ := delay_range_run default
    { (default : CurPathInfo) with minDt := 9 } [⟨5, 1, 0⟩] ⟨7, 2, 1⟩ (by decide)
  exact ⟨isRepath, info', hrun, hrange, hforce (by decide) (by decide)⟩

end Repath.HopaCp
