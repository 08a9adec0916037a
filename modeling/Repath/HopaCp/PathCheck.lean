import Mathlib.Order.Bounds.Basic
import Repath.Lib.Word
import Repath.HopaCp.Progress

/-!
# The repath check of `hopa_cp.c`

`one_path_check` divides twice, by the distance of the two timestamps of
`cur_path_info` and by its double.  Before that it stores the distance, the running
extrema of the delay and the threshold between them.  No other statement of the
program writes `cur_path_info`: its timestamps are whatever `malloc` left there.
-/

namespace Repath.HopaCp

open Exec

/-- `cur_path_info` after the stores that stand before the first division. -/
def CurPathInfo.sampled (pf : Platform) (info : CurPathInfo) : CurPathInfo :=
  let info := { info with deltaT := info.curTs - info.lastTs }
  let info := if info.curDt > info.maxDt then { info with maxDt := info.curDt } else info
  let info := if info.curDt < info.minDt then { info with minDt := info.curDt } else info
  { info with thresDt := pf.thresDt info.minDt info.maxDt }

/-- What the check returns, read off the stored fields and the second quotient. -/
def CurPathInfo.isRepath (halfGrad : UInt64) (info : CurPathInfo) : Bool :=
  let b2 := decide (2 * info.last3Dt ≥ info.thresDt - info.minDt)
  let b3 := decide (info.last1DtGrad > 0) && decide (info.last2DtGrad > 0) &&
    decide (info.last3DtGrad > 0)
  let b4 := decide (info.curDtGrad ≥ halfGrad)
  ((b2 && b3) || b4) || decide (info.curDt ≥ info.thresDt)

/-- The whole of what the check stores. -/
def CurPathInfo.checked (pf : Platform) (info : CurPathInfo) : CurPathInfo :=
  let info := info.sampled pf
  { info with curDtGrad := (info.curDt - info.last1Dt) / info.deltaT }

def CurPathInfo.halfGrad (info : CurPathInfo) : UInt64 :=
  (info.thresDt - info.minDt) / (2 * info.deltaT)

/-- Neither divisor of the check is zero. -/
def CurPathInfo.Divides (info : CurPathInfo) : Prop :=
  info.curTs - info.lastTs ≠ 0 ∧ 2 * (info.curTs - info.lastTs) ≠ 0

instance (info : CurPathInfo) : Decidable info.Divides := inferInstanceAs (Decidable (_ ∧ _))

/-! ### Fields after the stores -/

section Fields

variable (pf : Platform) (info : CurPathInfo)

theorem sampled_eq : info.sampled pf = { info with
    deltaT := info.curTs - info.lastTs
    maxDt := max info.maxDt info.curDt
    minDt := min info.minDt info.curDt
    thresDt := pf.thresDt (min info.minDt info.curDt) (max info.maxDt info.curDt) } := by
  have hmax : max info.maxDt info.curDt =
      if info.maxDt < info.curDt then info.curDt else info.maxDt := max_def_lt _ _
  have hmin : min info.minDt info.curDt =
      if info.curDt < info.minDt then info.curDt else info.minDt := by
    rw [min_comm]
    exact min_def_lt _ _
  rw [hmax, hmin, CurPathInfo.sampled]
  by_cases hup : info.maxDt < info.curDt
  · by_cases hdown : info.curDt < info.minDt
    · simp [hup, hdown]
    · simp [hup, hdown]
  · by_cases hdown : info.curDt < info.minDt
    · simp [hup, hdown]
    · simp [hup, hdown]

end Fields

theorem onePathCheck_eq (pf : Platform) (info : CurPathInfo) :
    onePathCheck pf info = (do
      let info := info.sampled pf
      let curDtGrad ← divide (info.curDt - info.last1Dt) info.deltaT
      let info := { info with curDtGrad := curDtGrad }
      let halfGrad ← divide (info.thresDt - info.minDt) (2 * info.deltaT)
      .ok (info.isRepath halfGrad, info)) := rfl

theorem divide_eq_ok_iff {a b q : UInt64} : divide a b = .ok q ↔ b ≠ 0 ∧ q = a / b := by
  rw [divide]
  by_cases hb : b = 0
  · rw [if_pos hb]
    exact ⟨fun h => (nomatch h), fun h => absurd hb h.1⟩
  · rw [if_neg hb]
    exact ⟨fun h => ⟨hb, (Except.ok.inj h).symm⟩, fun h => congrArg Except.ok h.2.symm⟩

/-- The check returns exactly when it does not divide by zero. -/
theorem onePathCheck_eq_ok_iff {pf : Platform} {info : CurPathInfo} {r : Bool × CurPathInfo} :
    onePathCheck pf info = .ok r ↔
      info.Divides ∧
        r = ((info.checked pf).isRepath (info.checked pf).halfGrad, info.checked pf) := by
  have hdelta : (info.sampled pf).deltaT = info.curTs - info.lastTs := by rw [sampled_eq]
  rw [onePathCheck_eq, CurPathInfo.Divides, ← hdelta]
  constructor
  · intro h
    obtain ⟨curDtGrad, hgrad, hrest⟩ := bind_eq_ok_iff.mp h
    obtain ⟨halfGrad, hhalf, hret⟩ := bind_eq_ok_iff.mp hrest
    obtain ⟨hne, rfl⟩ := divide_eq_ok_iff.mp hgrad
    obtain ⟨hdouble, rfl⟩ := divide_eq_ok_iff.mp hhalf
    exact ⟨⟨hne, hdouble⟩, (Except.ok.inj hret).symm⟩
  · intro h
    obtain ⟨⟨hne, hdouble⟩, rfl⟩ := h
    apply bind_eq_ok_iff.mpr
    refine ⟨_, divide_eq_ok_iff.mpr ⟨hne, rfl⟩, ?_⟩
    apply bind_eq_ok_iff.mpr
    exact ⟨_, divide_eq_ok_iff.mpr ⟨hdouble, rfl⟩, rfl⟩

/-! ### Division by zero -/

theorem double_eq_zero_iff {d : UInt64} (h : d ≠ 0) : 2 * d = 0 ↔ d = 0x8000000000000000 := by
  have hlt := d.toNat_lt
  have hpos : d.toNat ≠ 0 := fun he => h (UInt64.toNat_inj.mp he)
  rw [← UInt64.toNat_inj, ← UInt64.toNat_inj, UInt64.toNat_mul]
  show 2 * d.toNat % 2 ^ 64 = 0 ↔ d.toNat = 9223372036854775808
  omega

theorem divides_iff {info : CurPathInfo} : info.Divides ↔
    info.curTs - info.lastTs ≠ 0 ∧ info.curTs - info.lastTs ≠ 0x8000000000000000 := by
  rw [CurPathInfo.Divides]
  constructor
  · intro h
    exact ⟨h.1, fun he => h.2 ((double_eq_zero_iff h.1).mpr he)⟩
  · intro h
    exact ⟨h.1, fun he => h.2 ((double_eq_zero_iff h.1).mp he)⟩

/-- No packet changes the two timestamps. -/
theorem timestamps_of_step {pf : Platform} {rx : Rx} {s s' : State}
    (h : step pf s rx = .ok s') :
    s'.curPathInfo.curTs = s.curPathInfo.curTs ∧ s'.curPathInfo.lastTs = s.curPathInfo.lastTs := by
  obtain ⟨outs, h⟩ := step_eq_ok_iff.mp h
  rw [lcoreStats] at h
  cases hkind : classify rx.mbuf with
  | probe =>
      rw [hkind] at h
      obtain ⟨t, hprobe, hret⟩ := bind_eq_ok_iff.mp h
      obtain ⟨ts, best, hpath, -, rfl, -⟩ := hopaCpProbePktProgress_ok hprobe
      obtain ⟨rfl, -⟩ := Prod.mk.inj (Except.ok.inj hret)
      exact ⟨rfl, rfl⟩
  | repath =>
      rw [hkind] at h
      obtain ⟨ack, -, rfl, -⟩ := hopaCpRepathPktProgress_ok h
      exact ⟨rfl, rfl⟩
  | repathAck =>
      rw [hkind] at h
      obtain ⟨rfl, -⟩ := Prod.mk.inj (Except.ok.inj h)
      exact ⟨rfl, rfl⟩
  | dpTs =>
      rw [hkind] at h
      obtain ⟨isRepath, info, hcheck, rfl, -⟩ := hopaDpTsPktProgress_ok h
      obtain ⟨-, hr⟩ := onePathCheck_eq_ok_iff.mp hcheck
      obtain ⟨-, rfl⟩ := Prod.mk.inj hr
      rw [CurPathInfo.checked, sampled_eq]
      exact ⟨rfl, rfl⟩
  | skip =>
      rw [hkind] at h
      obtain ⟨rfl, -⟩ := Prod.mk.inj (Except.ok.inj h)
      exact ⟨rfl, rfl⟩

theorem timestamps_of_exec {pf : Platform} {info : CurPathInfo} {rxs : List Rx} {s : State}
    (hrun : exec (step pf) (.start info) rxs = .ok s) :
    s.curPathInfo.curTs = info.curTs ∧ s.curPathInfo.lastTs = info.lastTs := by
  refine exec_invariant
    (P := fun _ s => s.curPathInfo.curTs = info.curTs ∧ s.curPathInfo.lastTs = info.lastTs)
    ⟨rfl, rfl⟩ (fun _ s rx s' _ hs hstep => ?_) hrun
  obtain ⟨hcur, hlast⟩ := timestamps_of_step hstep
  exact ⟨hcur.trans hs.1, hlast.trans hs.2⟩

/-- In every reachable state the check's divisors are not zero exactly when the
timestamps that `malloc` left behind lie neither `0` nor `2 ^ 63` apart. -/
theorem divides_reachable_iff (pf : Platform) (info : CurPathInfo) :
    (∀ (rxs : List Rx) (s : State), exec (step pf) (.start info) rxs = .ok s →
      s.curPathInfo.Divides) ↔
      info.curTs - info.lastTs ≠ 0 ∧ info.curTs - info.lastTs ≠ 0x8000000000000000 := by
  constructor
  · intro h
    exact divides_iff.mp (h [] (.start info) rfl)
  · intro h rxs s hrun
    obtain ⟨hcur, hlast⟩ := timestamps_of_exec hrun
    rw [divides_iff, hcur, hlast]
    exact h

/-- A data-plane packet, by the fields that `lcore_stats` looks at. -/
def dataFrame : RteMbuf := zeroBuf.store fun m =>
  let m := m.put8 (ipv4Off + RteIpv4Hdr.nextProtoId) ipprotoUdp
  let m := m.put16 (udpOff + RteUdpHdr.srcPort) srcPort
  m.put8 (hopaOff + HopaCpHdr.offFlag) HopaModule.hopaDp.code

/-- Over a zeroed `cur_path_info` the first data-plane packet divides by zero, and so
it does when the timestamps are `2 ^ 63` apart. -/
theorem data_packet_divides_by_zero :
    (¬ ∀ (rxs : List Rx) (s : State), exec (step default) (.start default) rxs = .ok s →
      s.curPathInfo.Divides) ∧
    lcoreStats default ⟨dataFrame, none, none⟩ (.start default) = .error .undefined ∧
    lcoreStats default ⟨dataFrame, none, none⟩
      (.start { (default : CurPathInfo) with curTs := 0x8000000000000000 }) =
        .error .undefined := by
  refine ⟨fun h => ?_, rfl, rfl⟩
  exact absurd (h [] (.start default) rfl) (by decide)

end Repath.HopaCp
