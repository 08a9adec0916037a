import Repath.Lib.Exec
import Repath.HopaCp.Encode
import Repath.Selection.MinDelay

/-!
# Packet processing in `hopa_cp.c`

`lcore_stats` takes packets from the in ring, classifies each by bytes at fixed
offsets and calls one handler.  A handler maps the control-plane state to the
next one and yields the packets it hands to the out ring.  The retransmission
timer is an armed flag; `timerExpiry` is what `rte_timer_manage` does when it
runs out.
-/

namespace Repath.HopaCp

open Selection Exec

/-- The fields of `struct cur_path_info` that `one_path_check` uses. -/
structure CurPathInfo where
  maxDt : UInt64
  minDt : UInt64
  last3DtGrad : UInt64
  last2DtGrad : UInt64
  last1DtGrad : UInt64
  curDtGrad : UInt64
  last3Dt : UInt64
  last1Dt : UInt64
  curDt : UInt64
  curTs : UInt64
  lastTs : UInt64
  thresDt : UInt64
  deltaT : UInt64
  deriving DecidableEq, Repr, Inhabited

structure State where
  allPathsDelayList : Vector UInt64 pathNb
  curPathInfo : CurPathInfo
  optPathId : UInt8
  /-- Whether `retran_timer` is armed. -/
  retranTimer : Bool
  deriving DecidableEq

/-- The state after `lcore_stats` has set up the timer; `curPathInfo` is what
`malloc` returned. -/
def State.start (curPathInfo : CurPathInfo) : State :=
  { allPathsDelayList := Vector.replicate pathNb 0xFFFFFFFF, curPathInfo := curPathInfo,
    optPathId := 0, retranTimer := false }

/-- What the source leaves to DPDK and to floating point.  `thresDt minDt maxDt`
is the value that `min_dt + R * (max_dt - min_dt)` stores. -/
structure Platform where
  cksum : RteCksum
  thresDt : UInt64 → UInt64 → UInt64
  deriving Inhabited

/-- A packet from the in ring, with the clock reading and the fresh buffer its
handler gets, `none` being a failed call. -/
structure Rx where
  mbuf : RteMbuf
  clock : Option Timespec
  alloc : Option RteMbuf

/-! ### Repath decision -/

def divide (a b : UInt64) : Except Stop UInt64 :=
  if b = 0 then .error .undefined else .ok (a / b)

def onePathCheck (pf : Platform) (info : CurPathInfo) : Except Stop (Bool × CurPathInfo) := do
  let info := { info with deltaT := info.curTs - info.lastTs }
  let info := if info.curDt > info.maxDt then { info with maxDt := info.curDt } else info
  let info := if info.curDt < info.minDt then { info with minDt := info.curDt } else info
  let info := { info with thresDt := pf.thresDt info.minDt info.maxDt }
  let curDtGrad ← divide (info.curDt - info.last1Dt) info.deltaT
  let info := { info with curDtGrad := curDtGrad }
  let halfGrad ← divide (info.thresDt - info.minDt) (2 * info.deltaT)
  let b2 := decide (2 * info.last3Dt ≥ info.thresDt - info.minDt)
  let b3 := decide (info.last1DtGrad > 0) && decide (info.last2DtGrad > 0) &&
    decide (info.last3DtGrad > 0)
  let b4 := decide (info.curDtGrad ≥ halfGrad)
  let isTryRepath := (b2 && b3) || b4
  let isForceRepath := decide (info.curDt ≥ info.thresDt)
  .ok (isTryRepath || isForceRepath, info)

/-- Path information on which the repath check says yes. -/
def risingInfo : CurPathInfo := { (default : CurPathInfo) with curTs := 1 }

/-! ### Handlers -/

/-- The path a PROBE packet is counted for, read off its UDP destination port. -/
def pathIdOf (mbuf : RteMbuf) : UInt8 := (dstPortOf mbuf - dstPortPath1).toUInt8

def hopaCpProbePktProgress (rx : Rx) (s : State) : Except Stop State :=
  match rx.clock with
  | none => .error .rteExit
  | some ts => do
    let receiverTs := ts.ns
    let senderTs := tsOf rx.mbuf
    let table ← storeDelay s.allPathsDelayList (pathIdOf rx.mbuf)
      (receiverTs - senderTs + 1000000000)
    match getMinDelayPathId table.toArray pathNb with
    | none => .error .undefined
    | some optPathId => .ok { s with allPathsDelayList := table, optPathId := optPathId }

def hopaCpRepathPktProgress (pf : Platform) (rx : Rx) (s : State) :
    Except Stop (State × List RteMbuf) := do
  let repathAckMbuf ← encodeRepathAckPkt pf.cksum rx.alloc s.optPathId
  .ok ({ s with retranTimer := true }, [repathAckMbuf])

def hopaCpRepathAckPktProgress (s : State) : State := { s with retranTimer := false }

def hopaDpTsPktProgress (pf : Platform) (rx : Rx) (s : State) :
    Except Stop (State × List RteMbuf) := do
  let (isRepath, info) ← onePathCheck pf s.curPathInfo
  let s := { s with curPathInfo := info }
  if isRepath then
    let repathMbuf ← encodeRepathPkt pf.cksum rx.alloc s.optPathId s.optPathId
    .ok (s, [repathMbuf])
  else .ok (s, [])

def timerCb (s : State) : State × List RteMbuf := ({ s with retranTimer := true }, [])

/-- An armed single-shot timer runs out: it is stopped and its callback runs. -/
def timerExpiry (s : State) : State × List RteMbuf :=
  if s.retranTimer then timerCb { s with retranTimer := false } else (s, [])

/-! ### Dispatch -/

inductive Handler
  | probe
  | repath
  | repathAck
  | dpTs
  /-- No handler: not HOPA, or an unknown flag. -/
  | skip
  deriving DecidableEq, Repr

def classify (mbuf : RteMbuf) : Handler :=
  if nextProtoIdOf mbuf = ipprotoUdp then
    if srcPortOf mbuf = srcPort then
      if flagOf mbuf = HopaModule.hopaCp.code then
        match HopaCpFlag.ofCode (cpFlagOf mbuf) with
        | some .probe => .probe
        | some .repath => .repath
        | some .repathAck => .repathAck
        | none => .skip
      else if flagOf mbuf = HopaModule.hopaDp.code then .dpTs
      else .skip
    else .skip
  else .skip

/-- One iteration of the packet loop of `lcore_stats`. -/
def lcoreStats (pf : Platform) (rx : Rx) (s : State) : Except Stop (State × List RteMbuf) :=
  match classify rx.mbuf with
  | .probe => do
    let s ← hopaCpProbePktProgress rx s
    .ok (s, [])
  | .repath => hopaCpRepathPktProgress pf rx s
  | .repathAck => .ok (hopaCpRepathAckPktProgress s, [])
  | .dpTs => hopaDpTsPktProgress pf rx s
  | .skip => .ok (s, [])

/-- The same iteration with the emitted packets left out. -/
def step (pf : Platform) (s : State) (rx : Rx) : Except Stop State :=
  (lcoreStats pf rx s).map Prod.fst

theorem classify_of_isCpFrame {mbuf : RteMbuf} {dstPort : UInt16} {cpFlag : HopaCpFlag}
    {repathId : UInt8} (h : IsCpFrame mbuf dstPort cpFlag repathId) :
    classify mbuf = match cpFlag with
      | .probe => .probe
      | .repath => .repath
      | .repathAck => .repathAck := by
  rw [classify, if_pos h.proto, if_pos h.src, if_pos h.flag, h.cpFlag, HopaCpFlag.ofCode_code]
  cases cpFlag <;> rfl

/-! ### What a handler does -/

/-- A PROBE of one of the four paths stores its delay in that path's entry and
selects the first minimum of the new table. -/
theorem exists_hopaCpProbePktProgress {rx : Rx} {ts : Timespec} (s : State)
    (hclock : rx.clock = some ts) (hpath : (pathIdOf rx.mbuf).toNat < pathNb) :
    ∃ best, hopaCpProbePktProgress rx s = .ok
        { s with
          allPathsDelayList := s.allPathsDelayList.set (pathIdOf rx.mbuf).toNat
            (ts.ns - tsOf rx.mbuf + 1000000000),
          optPathId := best } ∧
      ∃ p : PathId, best.toNat = p ∧
        Argmin.IsFirstMin (s.allPathsDelayList.set (pathIdOf rx.mbuf).toNat
          (ts.ns - tsOf rx.mbuf + 1000000000)).get p := by
  obtain ⟨best, hbest, -, hmin⟩ := exists_getMinDelayPathId
    (s.allPathsDelayList.set (pathIdOf rx.mbuf).toNat (ts.ns - tsOf rx.mbuf + 1000000000))
  refine ⟨best, ?_, hmin⟩
  rw [hopaCpProbePktProgress, hclock]
  simp only [storeDelay, dif_pos hpath]
  change (match getMinDelayPathId _ _ with
    | none => Except.error Stop.undefined
    | some optPathId => Except.ok _) = _
  rw [hbest]

theorem hopaCpProbePktProgress_ok {rx : Rx} {s s' : State}
    (h : hopaCpProbePktProgress rx s = .ok s') :
    ∃ ts best, ∃ hpath : (pathIdOf rx.mbuf).toNat < pathNb, rx.clock = some ts ∧
      s' = { s with
        allPathsDelayList := s.allPathsDelayList.set (pathIdOf rx.mbuf).toNat
          (ts.ns - tsOf rx.mbuf + 1000000000),
        optPathId := best } ∧
      ∃ p : PathId, best.toNat = p ∧
        Argmin.IsFirstMin s'.allPathsDelayList.get p := by
  cases hclock : rx.clock with
  | none =>
      rw [hopaCpProbePktProgress, hclock] at h
      cases h
  | some ts =>
      by_cases hpath : (pathIdOf rx.mbuf).toNat < pathNb
      · obtain ⟨best, hok, hmin⟩ := exists_hopaCpProbePktProgress s hclock hpath
        obtain rfl := Except.ok.inj (hok.symm.trans h)
        exact ⟨ts, best, hpath, rfl, rfl, hmin⟩
      · rw [hopaCpProbePktProgress, hclock] at h
        simp only [storeDelay, dif_neg hpath] at h
        cases h

theorem hopaCpRepathPktProgress_ok {pf : Platform} {rx : Rx} {s s' : State}
    {outs : List RteMbuf} (h : hopaCpRepathPktProgress pf rx s = .ok (s', outs)) :
    ∃ ack, encodeRepathAckPkt pf.cksum rx.alloc s.optPathId = .ok ack ∧
      s' = { s with retranTimer := true } ∧ outs = [ack] := by
  obtain ⟨ack, hack, hret⟩ := bind_eq_ok_iff.mp h
  have hpair := Prod.mk.inj (Except.ok.inj hret)
  exact ⟨ack, hack, hpair.1.symm, hpair.2.symm⟩

/-- A data-plane packet runs the repath check on the stored path information and
is answered by a REPATH for the selected path when the check says so. -/
theorem hopaDpTsPktProgress_ok {pf : Platform} {rx : Rx} {s s' : State}
    {outs : List RteMbuf} (h : hopaDpTsPktProgress pf rx s = .ok (s', outs)) :
    ∃ isRepath info, onePathCheck pf s.curPathInfo = .ok (isRepath, info) ∧
      s' = { s with curPathInfo := info } ∧
      ((isRepath = true ∧ ∃ m, encodeRepathPkt pf.cksum rx.alloc s.optPathId s.optPathId =
          .ok m ∧ outs = [m]) ∨
        (isRepath = false ∧ outs = [])) := by
  obtain ⟨⟨isRepath, info⟩, hcheck, h⟩ := bind_eq_ok_iff.mp h
  refine ⟨isRepath, info, hcheck, ?_⟩
  cases isRepath with
  | false =>
      have hpair := Prod.mk.inj (Except.ok.inj h)
      exact ⟨hpair.1.symm, Or.inr ⟨rfl, hpair.2.symm⟩⟩
  | true =>
      obtain ⟨m, hm, hret⟩ := bind_eq_ok_iff.mp h
      have hpair := Prod.mk.inj (Except.ok.inj hret)
      exact ⟨hpair.1.symm, Or.inl ⟨rfl, m, hm, hpair.2.symm⟩⟩

theorem lcoreStats_of_not_probe {pf : Platform} {rx : Rx} {s s' : State}
    {outs : List RteMbuf} (hkind : classify rx.mbuf ≠ .probe)
    (h : lcoreStats pf rx s = .ok (s', outs)) :
    s'.allPathsDelayList = s.allPathsDelayList ∧ s'.optPathId = s.optPathId := by
  rw [lcoreStats] at h
  cases hc : classify rx.mbuf with
  | probe => exact absurd hc hkind
  | repath =>
      rw [hc] at h
      obtain ⟨ack, -, rfl, -⟩ := hopaCpRepathPktProgress_ok h
      exact ⟨rfl, rfl⟩
  | repathAck =>
      rw [hc] at h
      obtain ⟨rfl, -⟩ := Prod.mk.inj (Except.ok.inj h)
      exact ⟨rfl, rfl⟩
  | dpTs =>
      rw [hc] at h
      obtain ⟨-, info, -, rfl, -⟩ := hopaDpTsPktProgress_ok h
      exact ⟨rfl, rfl⟩
  | skip =>
      rw [hc] at h
      obtain ⟨rfl, -⟩ := Prod.mk.inj (Except.ok.inj h)
      exact ⟨rfl, rfl⟩

theorem lcoreStats_probe (pf : Platform) {rx : Rx} (s : State)
    (hkind : classify rx.mbuf = .probe) :
    lcoreStats pf rx s = (hopaCpProbePktProgress rx s).map fun s => (s, []) := by
  rw [lcoreStats, hkind]
  cases hopaCpProbePktProgress rx s <;> rfl

/-- A PROBE whose port decodes to path `i` is stored under path `i`. -/
theorem lcoreStats_of_pathIdOf (pf : Platform) {mbuf : RteMbuf} {i : PathId} (s : State)
    (ts : Timespec) (alloc : Option RteMbuf) (hkind : classify mbuf = .probe)
    (hi : (pathIdOf mbuf).toNat = i) :
    ∃ s', lcoreStats pf { mbuf := mbuf, clock := some ts, alloc := alloc } s = .ok (s', []) ∧
      s'.allPathsDelayList =
        s.allPathsDelayList.set i (ts.ns - tsOf mbuf + 1000000000) ∧
      ∃ p : PathId, s'.optPathId.toNat = p ∧ Argmin.IsFirstMin s'.allPathsDelayList.get p := by
  let rx : Rx := { mbuf := mbuf, clock := some ts, alloc := alloc }
  have hpath : (pathIdOf rx.mbuf).toNat < pathNb := hi ▸ i.isLt
  have hclock : rx.clock = some ts := rfl
  obtain ⟨best, hok, hmin⟩ := exists_hopaCpProbePktProgress s hclock hpath
  have hstats := lcoreStats_probe pf s (show classify rx.mbuf = .probe from hkind)
  rw [hok] at hstats
  refine ⟨_, hstats, ?_, hmin⟩
  have hid : (pathIdOf rx.mbuf).toNat = i := hi
  simp only [hid]
  rfl

theorem step_eq_ok_iff {pf : Platform} {rx : Rx} {s s' : State} :
    step pf s rx = .ok s' ↔ ∃ outs, lcoreStats pf rx s = .ok (s', outs) := by
  constructor
  · intro h
    rw [step] at h
    cases hr : lcoreStats pf rx s with
    | error e => rw [hr] at h; cases h
    | ok r =>
        rw [hr] at h
        obtain rfl := Except.ok.inj h
        exact ⟨r.2, rfl⟩
  · intro h
    obtain ⟨outs, h⟩ := h
    rw [step, h]
    rfl

end Repath.HopaCp
