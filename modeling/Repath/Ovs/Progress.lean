import Repath.Lib.Exec
import Repath.Ovs.Encode
import Repath.Selection.MinDelay

/-!
# Header processing in the vswitchd builds

`hopa_cp_progress` takes received headers from the in ring and hands each to the
handler of its message kind.  The two builds have the same handlers.
-/

namespace Repath.Ovs

open Selection

structure CpState where
  allPathsDelayList : Vector UInt64 pathNb
  bestPathId : UInt8
  deriving DecidableEq

def CpState.start : CpState :=
  { allPathsDelayList := Vector.replicate pathNb 0xFFFFFFFF, bestPathId := 0 }

def SelectsMin (s : CpState) : Prop :=
  ∃ p : PathId, s.bestPathId.toNat = p ∧
    Argmin.IsFirstMin s.allPathsDelayList.get p

structure Rx where
  hdr : HopaCpHdr
  clock : Timespec
  deriving DecidableEq

def hopaCpProbePktProgress (s : CpState) (rx : Rx) : Except Stop CpState := do
  let pathId := rx.hdr.probePathId
  let senderTs := rx.hdr.ts
  let receiverTs := rx.clock.ns
  let table ← storeDelay s.allPathsDelayList pathId (1000000000 + receiverTs - senderTs)
  match getMinDelayPathId table.toArray (UInt8.ofNat pathNb) with
  | none => .error .undefined
  | some bestPathId => .ok { allPathsDelayList := table, bestPathId := bestPathId }

def hopaCpRepathPktProgress (s : CpState) (rx : Rx) : CpState :=
  { s with bestPathId := rx.hdr.repathId }

def hopaCpRepathAckPktProgress (s : CpState) : CpState := s

/-- The body of the loop of `hopa_cp_progress` for one header. -/
def hopaCpProgress (s : CpState) (rx : Rx) : Except Stop CpState :=
  if rx.hdr.flag = HopaModule.hopaCp.code then
    match HopaCpFlag.ofCode rx.hdr.cpFlag with
    | some .probe => hopaCpProbePktProgress s rx
    | some .repath => .ok (hopaCpRepathPktProgress s rx)
    | some .repathAck => .ok (hopaCpRepathAckPktProgress s)
    | none => .ok s
  else .ok s

/-! ### Message kinds -/

def IsKind (rx : Rx) (cpFlag : HopaCpFlag) : Prop :=
  rx.hdr.flag = HopaModule.hopaCp.code ∧ HopaCpFlag.ofCode rx.hdr.cpFlag = some cpFlag

instance (rx : Rx) (cpFlag : HopaCpFlag) : Decidable (IsKind rx cpFlag) :=
  inferInstanceAs (Decidable (_ ∧ _))

theorem isKind_probeHdr (pathId : UInt8) (senderTs : UInt64) (clock : Timespec) :
    IsKind { hdr := probeHdr pathId senderTs, clock := clock } .probe :=
  ⟨rfl, rfl⟩

theorem isKind_repathHdr (repathId : UInt8) (clock : Timespec) :
    IsKind { hdr := repathHdr repathId, clock := clock } .repath :=
  ⟨rfl, rfl⟩

theorem hopaCpProgress_probe {s : CpState} {rx : Rx} (h : IsKind rx .probe) :
    hopaCpProgress s rx = hopaCpProbePktProgress s rx := by
  rw [hopaCpProgress, if_pos h.1, h.2]

theorem hopaCpProgress_repath {s : CpState} {rx : Rx} (h : IsKind rx .repath) :
    hopaCpProgress s rx = .ok { s with bestPathId := rx.hdr.repathId } := by
  rw [hopaCpProgress, if_pos h.1, h.2]
  rfl

theorem hopaCpProgress_other {s : CpState} {rx : Rx} (hprobe : ¬ IsKind rx .probe)
    (hrepath : ¬ IsKind rx .repath) : hopaCpProgress s rx = .ok s := by
  rw [hopaCpProgress]
  by_cases hflag : rx.hdr.flag = HopaModule.hopaCp.code
  · rw [if_pos hflag]
    cases hkind : HopaCpFlag.ofCode rx.hdr.cpFlag with
    | none => rfl
    | some kind =>
        cases kind with
        | probe => exact absurd ⟨hflag, hkind⟩ hprobe
        | repath => exact absurd ⟨hflag, hkind⟩ hrepath
        | repathAck => rfl
  · rw [if_neg hflag]

theorem exists_hopaCpProbePktProgress {s : CpState} {rx : Rx}
    (hpath : rx.hdr.probePathId.toNat < pathNb) :
    ∃ best, hopaCpProbePktProgress s rx = .ok
        { allPathsDelayList := s.allPathsDelayList.set rx.hdr.probePathId.toNat
            (1000000000 + rx.clock.ns - rx.hdr.ts),
          bestPathId := best } ∧
      ∃ p : PathId, best.toNat = p ∧
        Argmin.IsFirstMin (s.allPathsDelayList.set rx.hdr.probePathId.toNat
          (1000000000 + rx.clock.ns - rx.hdr.ts)).get p := by
  obtain ⟨best, -, hbest, hmin⟩ := exists_getMinDelayPathId
    (s.allPathsDelayList.set rx.hdr.probePathId.toNat
      (1000000000 + rx.clock.ns - rx.hdr.ts))
  refine ⟨best, ?_, hmin⟩
  rw [hopaCpProbePktProgress]
  simp only [storeDelay, dif_pos hpath]
  change (match getMinDelayPathId _ _ with
    | none => Except.error Stop.undefined
    | some bestPathId => Except.ok _) = _
  rw [hbest]

theorem hopaCpProbePktProgress_outside {s : CpState} {rx : Rx}
    (hpath : ¬ rx.hdr.probePathId.toNat < pathNb) :
    hopaCpProbePktProgress s rx = .error .undefined := by
  rw [hopaCpProbePktProgress]
  simp only [storeDelay, dif_neg hpath]
  rfl

end Repath.Ovs
