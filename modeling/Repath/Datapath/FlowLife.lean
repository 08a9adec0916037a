import Mathlib.Data.List.Basic
import Mathlib.Logic.Function.Basic
import Repath.Lib.Exec
import Repath.Lib.RefCount

/-!
# The life of a datapath flow

A flow is added to the tables of a PMD thread, may be cached and offloaded to the
hardware under a mark, and is removed again.  Every table, cache entry, queued
request and mark that points to it holds a reference, and the last one frees it.
The PMD threads talk to the thread that offloads flows through a queue only, so a
flow can be gone from the tables while a request for it is still under way.

`dp_netdev_pmd_remove_flow` marks the flow dead after it has queued the request, and
`dp_netdev_flow_offload_put` looks at that once, before its work.  Both are two
steps here, so that the threads may interleave in between.
-/

namespace Repath.Datapath

inductive OffloadOp
  | add
  | mod
  | del
  deriving DecidableEq

/-- `INVALID_FLOW_MARK`. -/
def invalidFlowMark : Nat := 0

/-- A flow, without its reference count. -/
structure NetdevFlow where
  pmdId : Nat
  inPort : Nat
  megaUfid : Nat
  /-- `dp_netdev_flow_is_simple_match` of its match. -/
  simple : Bool
  simpleMatchMark : Nat
  dead : Bool
  mark : Nat

/-- The tables of all PMD threads and of the thread that offloads their flows.  Flows
are named by their addresses. -/
structure FlowState where
  flows : Nat → NetdevFlow
  refCnt : Nat → Nat
  /-- `netdev_is_flow_api_enabled`. -/
  flowApi : Bool
  flowTable : List Nat
  nFlows : Nat × Nat → Nat
  simpleMatchTable : List Nat
  nSimpleFlows : Nat × Nat → Nat
  /-- Flows in the middle of `dp_netdev_pmd_remove_flow`. -/
  leaving : List Nat
  /-- The entries of the exact match caches. -/
  emc : List (Option Nat)
  queue : List (Nat × OffloadOp)
  /-- The request being worked on. -/
  current : Option (Nat × OffloadOp)
  /-- The marks handed out by `flow_mark_pool`. -/
  markPool : List Nat
  megaflowToMark : List (Nat × Nat)
  markToFlow : List Nat

variable (s : FlowState) (f : Nat)

/-- `dp_netdev_flow_ref`. -/
def dpNetdevFlowRef : FlowState × Bool :=
  if s.refCnt f = 0 then (s, false)
  else ({ s with refCnt := Function.update s.refCnt f (s.refCnt f + 1) }, true)

/-- `dp_netdev_flow_unref`; the flow is freed when the count is zero. -/
def dpNetdevFlowUnref : FlowState :=
  { s with refCnt := Function.update s.refCnt f (s.refCnt f - 1) }

/-- The PMD thread and the port by which flows are counted. -/
def FlowState.port : Nat × Nat := ((s.flows f).pmdId, (s.flows f).inPort)

/-! ### The PMD threads -/

/-- `dp_netdev_simple_match_lookup` in the table of a PMD thread. -/
def simpleMatchLookup (pmdId mark : Nat) : Option Nat :=
  s.simpleMatchTable.find? fun g =>
    (s.flows g).pmdId = pmdId ∧ (s.flows g).simpleMatchMark = mark

/-- `dp_netdev_simple_match_remove`. -/
def simpleMatchRemove : FlowState :=
  if simpleMatchLookup s (s.flows f).pmdId (s.flows f).simpleMatchMark = some f then
    dpNetdevFlowUnref
      { s with simpleMatchTable := s.simpleMatchTable.erase f,
               nSimpleFlows :=
                 Function.update s.nSimpleFlows (s.port f) (s.nSimpleFlows (s.port f) - 1) } f
  else s

/-- `dp_netdev_simple_match_insert`. -/
def simpleMatchInsert : FlowState :=
  let r := dpNetdevFlowRef s f
  if r.2 then
    -- avoid double insertion
    let s := simpleMatchRemove r.1 f
    { s with simpleMatchTable := f :: s.simpleMatchTable,
             nSimpleFlows :=
               Function.update s.nSimpleFlows (s.port f) (s.nSimpleFlows (s.port f) + 1) }
  else s

/-- `queue_netdev_flow_put` and `queue_netdev_flow_del`. -/
def queueNetdevFlow (op : OffloadOp) : FlowState :=
  if s.flowApi then
    let s := (dpNetdevFlowRef s f).1
    { s with queue := s.queue ++ [(f, op)] }
  else s

/-- `dp_netdev_flow_add`, with the flow it allocates at `f`. -/
def dpNetdevFlowAdd (flow : NetdevFlow) : FlowState :=
  let s := { s with
    flows := Function.update s.flows f { flow with dead := false, mark := invalidFlowMark },
    refCnt := Function.update s.refCnt f 1,
    flowTable := f :: s.flowTable,
    nFlows := Function.update s.nFlows (flow.pmdId, flow.inPort)
      (s.nFlows (flow.pmdId, flow.inPort) + 1) }
  let s := if flow.simple then simpleMatchInsert s f else s
  queueNetdevFlow s f .add

/-- `dp_netdev_pmd_remove_flow` up to the request for the hardware. -/
def removeUnlink : FlowState :=
  let s := simpleMatchRemove s f
  let s := { s with
    flowTable := s.flowTable.erase f,
    nFlows := Function.update s.nFlows (s.port f) (s.nFlows (s.port f) - 1),
    leaving := f :: s.leaving }
  queueNetdevFlow s f .del

/-- The rest of `dp_netdev_pmd_remove_flow`. -/
def removeKill : FlowState :=
  dpNetdevFlowUnref
    { s with flows := Function.update s.flows f { s.flows f with dead := true },
             leaving := s.leaving.erase f } f

/-- `emc_change_entry` on the entry `i`. -/
def emcChangeEntry (i : Nat) : FlowState :=
  match s.emc[i]? with
  | none => s
  | some entry =>
    if entry = some f then s
    else
      let s := match entry with
        | some old => dpNetdevFlowUnref s old
        | none => s
      let r := dpNetdevFlowRef s f
      { r.1 with emc := s.emc.set i (if r.2 then some f else none) }

/-- `emc_clear_entry`. -/
def emcClearEntry (i : Nat) : FlowState :=
  match s.emc[i]? with
  | some (some old) => { dpNetdevFlowUnref s old with emc := s.emc.set i none }
  | _ => s

/-! ### The thread that offloads flows -/

def megaflowToMarkFind (megaUfid : Nat) : Nat :=
  ((s.megaflowToMark.find? fun d => d.1 = megaUfid).map Prod.snd).getD invalidFlowMark

def FlowState.setMark (mark : Nat) : FlowState :=
  { s with flows := Function.update s.flows f { s.flows f with mark := mark } }

/-- `mark_to_flow_associate`, which does not check that it gets its reference. -/
def markToFlowAssociate (mark : Nat) : FlowState :=
  let s := (dpNetdevFlowRef s f).1
  { s.setMark f mark with markToFlow := f :: s.markToFlow }

/-- `flow_mark_has_no_ref`. -/
def flowMarkHasNoRef (mark : Nat) : Bool := !s.markToFlow.any fun g => (s.flows g).mark == mark

/-- `mark_to_flow_disassociate`. -/
def markToFlowDisassociate : FlowState :=
  let mark := (s.flows f).mark
  if mark = invalidFlowMark then s
  else
    let s := { s.setMark f invalidFlowMark with markToFlow := s.markToFlow.erase f }
    let s := if flowMarkHasNoRef s mark then
        { s with markPool := s.markPool.erase mark,
                 megaflowToMark :=
                   s.megaflowToMark.eraseP fun d => d.1 = (s.flows f).megaUfid }
      else s
    dpNetdevFlowUnref s f

inductive FlowFault
  | assertion
  deriving DecidableEq

/-- `dp_netdev_flow_offload_put` of a flow that was not dead.  `alloc` is the mark
that `flow_mark_alloc` returns, `ok` tells whether the port takes the flow. -/
def offloadPut (op : OffloadOp) (alloc : Option Nat) (ok : Bool) : Except FlowFault FlowState :=
  if op = .mod ∧ (s.flows f).mark ≠ invalidFlowMark then
    .ok (if ok then s else markToFlowDisassociate s f)
  else
    let mark := megaflowToMarkFind s (s.flows f).megaUfid
    if mark ≠ invalidFlowMark then
      if (s.flows f).mark ≠ invalidFlowMark then
        if (s.flows f).mark = mark then .ok s else .error .assertion
      else .ok (markToFlowAssociate s f mark)
    else
      match alloc with
      | none => .ok s
      | some mark =>
        if ok then
          .ok (markToFlowAssociate
            { s with markPool := mark :: s.markPool,
                     megaflowToMark := ((s.flows f).megaUfid, mark) :: s.megaflowToMark } f mark)
        else .ok s

/-- The next request; one to put a flow that is dead is given up at once. -/
def offloadStart : FlowState :=
  match s.current, s.queue with
  | none, (f, op) :: queue =>
    if op ≠ .del ∧ (s.flows f).dead then dpNetdevFlowUnref { s with queue := queue } f
    else { s with queue := queue, current := some (f, op) }
  | _, _ => s

/-- The work on a request, and `dp_netdev_free_offload`. -/
def offloadFinish (alloc : Option Nat) (ok : Bool) : Except FlowFault FlowState :=
  match s.current with
  | none => .ok s
  | some (f, op) =>
    let done (s : FlowState) : FlowState := dpNetdevFlowUnref { s with current := none } f
    match op with
    | .del => .ok (done (markToFlowDisassociate s f))
    | op => (offloadPut s f op alloc ok).map done

/-- `mark_to_flow_find` of a PMD thread. -/
def markToFlowFind (pmdId mark : Nat) : Option Nat :=
  s.markToFlow.find? fun g =>
    (s.flows g).mark = mark ∧ (s.flows g).pmdId = pmdId ∧ (s.flows g).dead = false

/-- `dp_netdev_simple_match_enabled`. -/
def simpleMatchEnabled (pmdId inPort : Nat) : Bool :=
  s.nFlows (pmdId, inPort) == s.nSimpleFlows (pmdId, inPort)

/-! ### Runs -/

inductive FlowEvent
  | enableFlowApi
  | add (f : Nat) (flow : NetdevFlow)
  | modify (f : Nat)
  | unlink (f : Nat)
  | kill (f : Nat)
  | emcChange (i f : Nat)
  | emcClear (i : Nat)
  | offloadStart
  | offloadFinish (alloc : Option Nat) (ok : Bool)

def flowStep (s : FlowState) : FlowEvent → Except FlowFault FlowState
  | .enableFlowApi => .ok { s with flowApi := true }
  | .add f flow => .ok (dpNetdevFlowAdd s f flow)
  | .modify f => .ok (queueNetdevFlow s f .mod)
  | .unlink f => .ok (removeUnlink s f)
  | .kill f => .ok (removeKill s f)
  | .emcChange i f => .ok (emcChangeEntry s f i)
  | .emcClear i => .ok (emcClearEntry s i)
  | .offloadStart => .ok (offloadStart s)
  | .offloadFinish alloc ok => offloadFinish s alloc ok

/-- What the callers see to: memory is allocated where it is free, a flow is only added
where the lookup found none and removed while it is in the tables, and the pool hands
out marks that are not in use. -/
def FlowGuard (s : FlowState) : FlowEvent → Prop
  | .add f flow => s.refCnt f = 0 ∧
      (flow.simple = true → simpleMatchLookup s flow.pmdId flow.simpleMatchMark = none)
  | .modify f => f ∈ s.flowTable
  | .unlink f => f ∈ s.flowTable
  | .kill f => f ∈ s.leaving
  | .offloadFinish (some mark) _ => mark ≠ invalidFlowMark ∧ mark ∉ s.markPool
  | _ => True

instance (s : FlowState) : (e : FlowEvent) → Decidable (FlowGuard s e)
  | .enableFlowApi => .isTrue trivial
  | .add f flow => inferInstanceAs (Decidable (s.refCnt f = 0 ∧
      (flow.simple = true → simpleMatchLookup s flow.pmdId flow.simpleMatchMark = none)))
  | .modify f => inferInstanceAs (Decidable (f ∈ s.flowTable))
  | .unlink f => inferInstanceAs (Decidable (f ∈ s.flowTable))
  | .kill f => inferInstanceAs (Decidable (f ∈ s.leaving))
  | .emcChange _ _ => .isTrue trivial
  | .emcClear _ => .isTrue trivial
  | .offloadStart => .isTrue trivial
  | .offloadFinish (some mark) _ =>
      inferInstanceAs (Decidable (mark ≠ invalidFlowMark ∧ mark ∉ s.markPool))
  | .offloadFinish none _ => .isTrue trivial

/-- No flows, with `n` entries in the caches. -/
def FlowState.start (n : Nat) : FlowState where
  flows _ := { pmdId := 0, inPort := 0, megaUfid := 0, simple := false, simpleMatchMark := 0,
               dead := false, mark := invalidFlowMark }
  refCnt _ := 0
  flowApi := false
  flowTable := []
  nFlows _ := 0
  simpleMatchTable := []
  nSimpleFlows _ := 0
  leaving := []
  emc := List.replicate n none
  queue := []
  current := none
  markPool := []
  megaflowToMark := []
  markToFlow := []

end Repath.Datapath
