import Mathlib.Data.Rat.Floor
import Mathlib.Tactic.Positivity
import Repath.HopaCp.DelayRange

/-!
# The repath decision in exact arithmetic

`one_path_check` computes with unsigned words and truncating divisions.  Both part
from the formulas: a falling delay makes the difference to the last one wrap around
to a huge gradient, and two different gradients can have the same truncated quotient.
Nothing else does below `2 ^ 62`.
-/

namespace Repath.HopaCp

def CurPathInfo.fields (info : CurPathInfo) : List UInt64 :=
  [info.maxDt, info.minDt, info.last3DtGrad, info.last2DtGrad, info.last1DtGrad,
    info.curDtGrad, info.last3Dt, info.last1Dt, info.curDt, info.curTs, info.lastTs,
    info.thresDt, info.deltaT]

/-- All fields are below `2 ^ 62`. -/
def CurPathInfo.Small (info : CurPathInfo) : Prop :=
  ∀ f ∈ info.fields, f < 0x4000000000000000

instance (info : CurPathInfo) : Decidable info.Small :=
  List.decidableBAll (· < 0x4000000000000000) info.fields

/-- The decision as its formulas state it, with signed differences and exact quotients,
on the extrema and the threshold that count the current delay in. -/
def CurPathInfo.ExactDecision (info : CurPathInfo) : Prop :=
  let minDt : ℤ := min info.minDt.toNat info.curDt.toNat
  let maxDt : ℤ := max info.maxDt.toNat info.curDt.toNat
  let thresDt : ℤ := minDt + ⌊(7 / 10 : ℚ) * (maxDt - minDt : ℤ)⌋
  let deltaT : ℤ := info.curTs.toNat - info.lastTs.toNat
  let curDt : ℤ := info.curDt.toNat
  let last1Dt : ℤ := info.last1Dt.toNat
  (thresDt - minDt ≤ 2 * (info.last3Dt.toNat : ℤ) ∧
      0 < info.last1DtGrad.toNat ∧ 0 < info.last2DtGrad.toNat ∧ 0 < info.last3DtGrad.toNat) ∨
    ((thresDt - minDt : ℤ) : ℚ) / ((2 * deltaT : ℤ) : ℚ) ≤
      ((curDt - last1Dt : ℤ) : ℚ) / (deltaT : ℚ) ∨
    thresDt ≤ curDt

/-! ### The inputs of the decision -/

namespace CurPathInfo

variable (info : CurPathInfo)

/-- How far the threshold lies above the smallest delay. -/
def thresRise : Nat :=
  7 * (max info.maxDt.toNat info.curDt.toNat - min info.minDt.toNat info.curDt.toNat) / 10

def elapsed : Nat := info.curTs.toNat - info.lastTs.toNat

/-- The stored delay is large and the stored gradients are not zero. -/
def Trend : Prop :=
  info.thresRise ≤ 2 * info.last3Dt.toNat ∧
    0 < info.last1DtGrad ∧ 0 < info.last2DtGrad ∧ 0 < info.last3DtGrad

/-- The delay reaches the threshold. -/
def Forced : Prop :=
  min info.minDt.toNat info.curDt.toNat + info.thresRise ≤ info.curDt.toNat

/-- The delay does not fall, and it climbs by half the rise of the threshold or a
multiple of the double time step tells the two heights apart. -/
def Separated : Prop :=
  info.last1Dt ≤ info.curDt ∧
    (info.thresRise ≤ 2 * (info.curDt.toNat - info.last1Dt.toNat) ∨
      ∃ m, 2 * (info.curDt.toNat - info.last1Dt.toNat) < m * (2 * info.elapsed) ∧
        m * (2 * info.elapsed) ≤ info.thresRise)

end CurPathInfo

/-- Truncated quotients differ exactly when a multiple of the divisor lies between. -/
theorem div_lt_div_iff_exists_multiple {x y k : Nat} (hk : 0 < k) :
    x / k < y / k ↔ ∃ m, x < m * k ∧ m * k ≤ y := by
  constructor
  · intro h
    exact ⟨y / k, (Nat.div_lt_iff_lt_mul hk).mp h, Nat.div_mul_le_self y k⟩
  · intro h
    obtain ⟨m, hlow, hhigh⟩ := h
    calc x / k < m := (Nat.div_lt_iff_lt_mul hk).mpr hlow
      _ ≤ y / k := (Nat.le_div_iff_mul_le hk).mpr hhigh

theorem floor_seven_tenths (n : Nat) : ⌊(7 / 10 : ℚ) * (n : ℤ)⌋ = ((7 * n / 10 : ℕ) : ℤ) := by
  have hfrac : (7 / 10 : ℚ) * (n : ℤ) = (((7 * n : ℕ) : ℤ) : ℚ) / ((10 : ℕ) : ℚ) := by
    push_cast
    ring
  rw [hfrac, Rat.floor_intCast_div_natCast]
  rfl

/-- Comparing a gradient with half the rise over the time step takes no division. -/
theorem half_rise_le_iff {rise grad delta : ℤ} (h : 0 < delta) :
    (rise : ℚ) / ((2 * delta : ℤ) : ℚ) ≤ (grad : ℚ) / (delta : ℚ) ↔ rise ≤ 2 * grad := by
  have hpos : (0 : ℚ) < delta := Int.cast_pos.mpr h
  have hdouble : (0 : ℚ) < (2 * delta : ℤ) := Int.cast_pos.mpr (by omega)
  rw [div_le_div_iff₀ hdouble hpos]
  have hassoc : (grad : ℚ) * ((2 * delta : ℤ) : ℚ) = ((2 * grad : ℤ) : ℚ) * delta := by
    push_cast
    ring
  rw [hassoc, mul_le_mul_iff_left₀ hpos]
  exact Int.cast_le

section Exact

variable {info : CurPathInfo}

/-- The exact decision over natural numbers: a falling delay has no gradient. -/
theorem exactDecision_iff (h : info.lastTs < info.curTs) :
    info.ExactDecision ↔ info.Trend ∨
      (info.last1Dt ≤ info.curDt ∧
        info.thresRise ≤ 2 * (info.curDt.toNat - info.last1Dt.toNat)) ∨ info.Forced := by
  have hts := UInt64.lt_iff_toNat_lt.mp h
  have hrange : (max info.maxDt.toNat info.curDt.toNat : ℤ) -
      (min info.minDt.toNat info.curDt.toNat : ℤ) =
      ((max info.maxDt.toNat info.curDt.toNat - min info.minDt.toNat info.curDt.toNat : ℕ) : ℤ) :=
    by omega
  have hrise : ⌊(7 / 10 : ℚ) * (((max info.maxDt.toNat info.curDt.toNat : ℤ) -
      (min info.minDt.toNat info.curDt.toNat : ℤ) : ℤ) : ℚ)⌋ = (info.thresRise : ℤ) := by
    rw [hrange, floor_seven_tenths]
    rfl
  have hdelta : (0 : ℤ) < info.curTs.toNat - info.lastTs.toNat := by omega
  simp only [CurPathInfo.ExactDecision]
  rw [hrise, half_rise_le_iff hdelta, add_sub_cancel_left]
  simp only [CurPathInfo.Trend, CurPathInfo.Forced, UInt64.lt_iff_toNat_lt,
    UInt64.le_iff_toNat_le, UInt64.toNat_zero]
  omega

end Exact

/-! ### The decision of the machine -/

theorem toNat_max (x y : UInt64) : (max x y).toNat = max x.toNat y.toNat :=
  Monotone.map_max (f := UInt64.toNat) fun _ _ h => UInt64.le_iff_toNat_le.mp h

theorem toNat_min (x y : UInt64) : (min x y).toNat = min x.toNat y.toNat :=
  Monotone.map_min (f := UInt64.toNat) fun _ _ h => UInt64.le_iff_toNat_le.mp h

theorem toNat_double {x : UInt64} (h : x < 0x4000000000000000) :
    (2 * x).toNat = 2 * x.toNat := by
  have hlt : x.toNat < 4611686018427387904 := UInt64.lt_iff_toNat_lt.mp h
  rw [UInt64.toNat_mul]
  show 2 * x.toNat % 2 ^ 64 = 2 * x.toNat
  omega

section Machine

variable (cksum : RteCksum) (info : CurPathInfo)

theorem toNat_minDt : (info.checked (exactPlatform cksum)).minDt.toNat =
    min info.minDt.toNat info.curDt.toNat := by
  rw [CurPathInfo.checked, sampled_eq]
  exact toNat_min _ _

/-- The stored threshold does not wrap around. -/
theorem toNat_thresDt : (info.checked (exactPlatform cksum)).thresDt.toNat =
    min info.minDt.toNat info.curDt.toNat + info.thresRise := by
  have hrange : min info.minDt info.curDt ≤ max info.maxDt info.curDt :=
    (min_le_right _ _).trans (le_max_right _ _)
  rw [CurPathInfo.checked, sampled_eq]
  show (exactThresDt _ _).toNat = _
  rw [toNat_exactThresDt hrange, toNat_min, toNat_max]
  rfl

theorem toNat_thresDt_sub_minDt :
    ((info.checked (exactPlatform cksum)).thresDt -
      (info.checked (exactPlatform cksum)).minDt).toNat = info.thresRise := by
  have hle := (inRange_checked cksum info).minDt_le_thresDt
  rw [UInt64.toNat_sub_of_le _ _ hle, toNat_thresDt, toNat_minDt]
  omega

theorem curDt_checked (pf : Platform) : (info.checked pf).curDt = info.curDt := by
  rw [CurPathInfo.checked, sampled_eq]

theorem forced_iff : (info.checked (exactPlatform cksum)).thresDt ≤
    (info.checked (exactPlatform cksum)).curDt ↔ info.Forced := by
  rw [curDt_checked, UInt64.le_iff_toNat_le, toNat_thresDt]
  rfl

end Machine

section Small

variable {info : CurPathInfo} (cksum : RteCksum)

theorem toNat_deltaT (hts : info.lastTs < info.curTs) :
    (info.curTs - info.lastTs).toNat = info.elapsed :=
  UInt64.toNat_sub_of_le _ _ (le_of_lt hts)

theorem deltaT_small (hts : info.lastTs < info.curTs) (hsmall : info.Small) :
    info.curTs - info.lastTs < 0x4000000000000000 := by
  have hcur : info.curTs < 0x4000000000000000 := hsmall _ (by simp [CurPathInfo.fields])
  apply lt_of_le_of_lt ?_ hcur
  rw [UInt64.le_iff_toNat_le, UInt64.toNat_sub_of_le _ _ (le_of_lt hts)]
  omega

theorem divides_of_small (hts : info.lastTs < info.curTs) (hsmall : info.Small) :
    info.Divides := by
  have hlt := UInt64.lt_iff_toNat_lt.mp hts
  have hdelta := toNat_deltaT hts
  have hdouble := toNat_double (deltaT_small hts hsmall)
  rw [hdelta] at hdouble
  rw [CurPathInfo.elapsed] at hdelta hdouble
  constructor
  · intro hzero
    rw [hzero] at hdelta
    have : (0 : Nat) = info.curTs.toNat - info.lastTs.toNat := hdelta
    omega
  · intro hzero
    rw [hzero] at hdouble
    have : (0 : Nat) = 2 * (info.curTs.toNat - info.lastTs.toNat) := hdouble
    omega

/-- The gradient test compares truncated quotients of the wrapped difference. -/
theorem gradient_iff (hts : info.lastTs < info.curTs) (hsmall : info.Small) :
    (info.checked (exactPlatform cksum)).halfGrad ≤
        (info.checked (exactPlatform cksum)).curDtGrad ↔
      info.thresRise / (2 * info.elapsed) ≤
        2 * (info.curDt - info.last1Dt).toNat / (2 * info.elapsed) := by
  have hdelta : (info.checked (exactPlatform cksum)).deltaT = info.curTs - info.lastTs := by
    rw [CurPathInfo.checked, sampled_eq]
  have hgrad : (info.checked (exactPlatform cksum)).curDtGrad =
      (info.curDt - info.last1Dt) / (info.curTs - info.lastTs) := by
    rw [CurPathInfo.checked, sampled_eq]
  rw [CurPathInfo.halfGrad, hgrad, hdelta, UInt64.le_iff_toNat_le, UInt64.toNat_div,
    UInt64.toNat_div, toNat_thresDt_sub_minDt, toNat_double (deltaT_small hts hsmall),
    toNat_deltaT hts, Nat.mul_div_mul_left _ _ Nat.two_pos]

/-- A falling delay passes the gradient test, whatever the threshold. -/
theorem gradient_of_falling (hsmall : info.Small) (hfall : info.curDt < info.last1Dt) :
    info.thresRise ≤ 2 * (info.curDt - info.last1Dt).toNat := by
  have hcur : info.curDt.toNat < 4611686018427387904 :=
    UInt64.lt_iff_toNat_lt.mp (hsmall _ (by simp [CurPathInfo.fields]))
  have hlast : info.last1Dt.toNat < 4611686018427387904 :=
    UInt64.lt_iff_toNat_lt.mp (hsmall _ (by simp [CurPathInfo.fields]))
  have hmax : info.maxDt.toNat < 4611686018427387904 :=
    UInt64.lt_iff_toNat_lt.mp (hsmall _ (by simp [CurPathInfo.fields]))
  rw [Word.toNat_sub_eq, if_neg (not_le.mpr hfall), CurPathInfo.thresRise]
  omega

theorem isRepath_iff (hts : info.lastTs < info.curTs) (hsmall : info.Small) :
    (info.checked (exactPlatform cksum)).isRepath
        (info.checked (exactPlatform cksum)).halfGrad = true ↔
      info.Trend ∨ info.thresRise / (2 * info.elapsed) ≤
        2 * (info.curDt - info.last1Dt).toNat / (2 * info.elapsed) ∨ info.Forced := by
  have hlast3 : info.last3Dt < 0x4000000000000000 := hsmall _ (by simp [CurPathInfo.fields])
  have hstored : (info.checked (exactPlatform cksum)).last3Dt = info.last3Dt ∧
      (info.checked (exactPlatform cksum)).last3DtGrad = info.last3DtGrad ∧
      (info.checked (exactPlatform cksum)).last2DtGrad = info.last2DtGrad ∧
      (info.checked (exactPlatform cksum)).last1DtGrad = info.last1DtGrad := by
    rw [CurPathInfo.checked, sampled_eq]
    exact ⟨rfl, rfl, rfl, rfl⟩
  obtain ⟨h3, h3g, h2g, h1g⟩ := hstored
  have htrend : (info.checked (exactPlatform cksum)).thresDt -
      (info.checked (exactPlatform cksum)).minDt ≤ 2 * info.last3Dt ↔
      info.thresRise ≤ 2 * info.last3Dt.toNat := by
    rw [UInt64.le_iff_toNat_le, toNat_thresDt_sub_minDt, toNat_double hlast3]
  rw [← gradient_iff cksum hts hsmall, ← forced_iff cksum, CurPathInfo.isRepath, h3, h3g, h2g, h1g,
    CurPathInfo.Trend, ← htrend]
  simp only [Bool.or_eq_true, Bool.and_eq_true, decide_eq_true_iff, ge_iff_le, gt_iff_lt]
  rw [and_assoc, or_assoc]

/-- Two decisions that differ in one of their tests agree where another test decides, or
where the two do. -/
theorem or_iff_or_iff {t g e f : Prop} : (t ∨ g ∨ f ↔ t ∨ e ∨ f) ↔ t ∨ f ∨ (g ↔ e) := by
  tauto

/-- Where the gradient tests of the machine and of the formulas agree. -/
theorem gradients_agree_iff (hts : info.lastTs < info.curTs) (hsmall : info.Small) :
    (info.thresRise / (2 * info.elapsed) ≤
        2 * (info.curDt - info.last1Dt).toNat / (2 * info.elapsed) ↔
      info.last1Dt ≤ info.curDt ∧
        info.thresRise ≤ 2 * (info.curDt.toNat - info.last1Dt.toNat)) ↔ info.Separated := by
  have hlt := UInt64.lt_iff_toNat_lt.mp hts
  have hpos : 0 < 2 * info.elapsed := by
    rw [CurPathInfo.elapsed]
    omega
  rw [CurPathInfo.Separated, ← div_lt_div_iff_exists_multiple hpos, ← not_le]
  by_cases hfall : info.last1Dt ≤ info.curDt
  · rw [UInt64.toNat_sub_of_le _ _ hfall]
    constructor
    · intro hagree
      refine ⟨hfall, ?_⟩
      by_cases hexact : info.thresRise ≤ 2 * (info.curDt.toNat - info.last1Dt.toNat)
      · exact Or.inl hexact
      · exact Or.inr fun hquot => hexact (hagree.mp hquot).2
    · intro hsep
      rcases hsep.2 with hexact | hquot
      · exact ⟨fun _ => ⟨hfall, hexact⟩, fun _ => Nat.div_le_div_right hexact⟩
      · exact ⟨fun h => absurd h hquot, fun h => Nat.div_le_div_right h.2⟩
  · have hpass := Nat.div_le_div_right (c := 2 * info.elapsed)
      (gradient_of_falling hsmall (not_le.mp hfall))
    constructor
    · intro hagree
      exact absurd (hagree.mp hpass).1 hfall
    · intro hsep
      exact absurd hsep.1 hfall

end Small

/-- The check returns what the formulas state exactly when the gradient is not what
decides, or the gradient tests agree. -/
theorem decision_exact_iff (cksum : RteCksum) (info : CurPathInfo)
    (hts : info.lastTs < info.curTs) (hsmall : info.Small) :
    (∃ isRepath info', onePathCheck (exactPlatform cksum) info = .ok (isRepath, info') ∧
      (isRepath = true ↔ info.ExactDecision)) ↔
      info.Trend ∨ info.Forced ∨ info.Separated := by
  have hcheck : onePathCheck (exactPlatform cksum) info = _ :=
    onePathCheck_eq_ok_iff.mpr ⟨divides_of_small hts hsmall, rfl⟩
  rw [← gradients_agree_iff hts hsmall]
  constructor
  · intro h
    obtain ⟨isRepath, info', hrun, hexact⟩ := h
    rw [hcheck] at hrun
    obtain ⟨rfl, -⟩ := Prod.mk.inj (Except.ok.inj hrun)
    rw [isRepath_iff cksum hts hsmall, exactDecision_iff hts] at hexact
    exact or_iff_or_iff.mp hexact
  · intro h
    refine ⟨_, _, hcheck, ?_⟩
    rw [isRepath_iff cksum hts hsmall, exactDecision_iff hts]
    exact or_iff_or_iff.mpr h

/-- A delay that climbs to the threshold over a range from 0 to 10. -/
def climbingInfo : CurPathInfo :=
  { (default : CurPathInfo) with maxDt := 10, curDt := 8, curTs := 1 }

theorem decision_exact_iff_climbing :
    ∃ isRepath info', onePathCheck (exactPlatform default) climbingInfo = .ok (isRepath, info') ∧
      (isRepath = true ↔ climbingInfo.ExactDecision) := by
  have hforced : climbingInfo.Forced := by
    show min 0 8 + 7 * (max 10 8 - min 0 8) / 10 ≤ 8
    omega
  exact (decision_exact_iff default climbingInfo (by decide) (by decide)).mpr
    (Or.inr (Or.inl hforced))

/-- A delay that falls from 4 to 3 over the same range. -/
def fallingInfo : CurPathInfo :=
  { (default : CurPathInfo) with maxDt := 10, last1Dt := 4, curDt := 3, curTs := 1 }

/-- The falling delay satisfies the check, by its gradient alone, and not the
formulas. -/
theorem falling_delay_repaths :
    fallingInfo.lastTs < fallingInfo.curTs ∧ fallingInfo.Small ∧
      (∃ info', onePathCheck (exactPlatform default) fallingInfo = .ok (true, info')) ∧
      ¬ fallingInfo.ExactDecision := by
  refine ⟨by decide, by decide, ⟨_, rfl⟩, fun hexact => ?_⟩
  rcases (exactDecision_iff (by decide)).mp hexact with htrend | hgrad | hforced
  · exact absurd htrend.2.1 (by decide)
  · exact absurd hgrad.1 (by decide)
  · have hthres : min 0 3 + 7 * (max 10 3 - min 0 3) / 10 ≤ 3 := hforced
    omega

end Repath.HopaCp
