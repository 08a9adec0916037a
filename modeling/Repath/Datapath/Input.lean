import Repath.Datapath.Batches
import Repath.Lib.Compaction
import Repath.Ovs.RxqRecv

/-!
# The receive pipeline of `dpif-netdev.c`

`dp_netdev_input__` classifies a batch in stages.  `dfc_processing` looks for each
packet in the caches, `smc_lookup_batch` for those it missed in the signature cache,
and `fast_path_processing` for the rest in the classifier, with an upcall for what
the classifier does not know.  A stage moves the packets it misses to the front of
the batch.  From the first miss on, the packets go through a flow map that keeps a
place for those still to be classified, and `index_map` remembers whose place it is.

The tables and caches of the thread and what is called on them are parameters.  The
front of `packets_`, `missed_keys` and `index_map` are one list of records after
`dfc_processing`, as all three are compacted in step.
-/

namespace Repath.Datapath

open Compaction
open Repath.Ovs (netdevMaxBurst)

def ethHeaderLen : Nat := 14

/-- What the pipeline calls.  `T` is all that a PMD thread keeps on its flows. -/
structure Calls (T P K F : Type) where
  size : P → Nat
  tcpFlags : P → UInt16
  /-- `netdev_is_flow_api_enabled`. -/
  netdevFlowApi : Bool
  recircDepth : Nat
  /-- The restoration of a partly offloaded packet fails in `dp_netdev_hw_flow`. -/
  recoverFails : P → Bool
  /-- The flow of the packet's mark. -/
  markToFlow : T → P → Option F
  mdIsValid : Bool
  /-- `dp_netdev_simple_match_enabled` for the port of the batch. -/
  simpleMatchEnabled : T → Bool
  simpleMatchLookup : T → P → Option F
  /-- `miniflow_extract` and the hash. -/
  key : P → K
  emcInsertMin : Nat
  emcLookup : T → K → Option F
  smcEnableDb : Bool
  /-- `smc_entry_get` and the check of the flows it finds. -/
  smcLookup : T → P → K → Option F
  emcProbabilisticInsert : T → K → F → T
  smcInsert : T → K → F → T
  inPort : P → Nat
  keyInPort : K → Nat
  /-- `dpcls_lookup` of one key in the classifier of a port. -/
  dpclsLookup : T → Nat → K → Option F
  /-- `handle_packet_upcall`, which takes the packet over, and whether it fails.  A
  recirculation nested in it is taken not to touch the batches under way. -/
  handlePacketUpcall : T → P → K → T × Bool

variable {T P K F : Type}

/-- `dp_netdev_pmd_lookup_flow`. -/
def Calls.lookupFlow (calls : Calls T P K F) (t : T) (key : K) : Option F :=
  calls.dpclsLookup t (calls.keyInPort key) key

def Calls.classified (calls : Calls T P K F) (packet : P) (flow : F) : Classified F P :=
  { flow := flow, packet := packet, tcpFlags := calls.tcpFlags packet }

/-- The variables of `dfc_processing`: `missed_keys` and `index_map` as one list. -/
structure Dfc (F P K : Type) where
  batches : Batches F P
  flowMap : List (Option (Classified F P))
  missed : List (K × Nat)
  batchEnable : Bool
  dropped : List P
  nPhwolHit : Nat
  nSimpleHit : Nat
  nEmcHit : Nat

def Dfc.start : Dfc F P K :=
  { batches := .start, flowMap := [], missed := [], batchEnable := true, dropped := [],
    nPhwolHit := 0, nSimpleHit := 0, nEmcHit := 0 }

variable [DecidableEq F]

/-- `dfc_processing_enqueue_classified_packet`. -/
def enqueueClassified (calls : Calls T P K F) (s : Dfc F P K) (packet : P) (flow : F) :
    Dfc F P K :=
  if s.batchEnable then
    { s with batches := queueBatches calls.size s.batches (calls.classified packet flow) }
  else { s with flowMap := s.flowMap ++ [some (calls.classified packet flow)] }

/-- The body of the loop of `dfc_processing`. -/
def dfcBody (calls : Calls T P K F) (t : T) (s : Dfc F P K) (_i : Nat) (packet : P) :
    Dfc F P K × Option P :=
  let simpleMatch := !calls.mdIsValid && calls.simpleMatchEnabled t
  let curMin := if simpleMatch then 0 else calls.emcInsertMin
  let hw := calls.netdevFlowApi && calls.recircDepth = 0
  if calls.size packet < ethHeaderLen then ({ s with dropped := s.dropped ++ [packet] }, none)
  else if hw && calls.recoverFails packet then ({ s with dropped := s.dropped ++ [packet] }, none)
  else
    match if hw then calls.markToFlow t packet else none with
    | some flow =>
      let s := { s with nPhwolHit := s.nPhwolHit + 1 }
      (enqueueClassified calls s packet flow, none)
    | none =>
      match if simpleMatch then calls.simpleMatchLookup t packet else none with
      | some flow =>
        let s := { s with nSimpleHit := s.nSimpleHit + 1 }
        (enqueueClassified calls s packet flow, none)
      | none =>
        let key := calls.key packet
        match if curMin ≠ 0 then calls.emcLookup t key else none with
        | some flow =>
          let s := { s with nEmcHit := s.nEmcHit + 1 }
          (enqueueClassified calls s packet flow, none)
        | none =>
          -- the place of the packet, an `uint8_t`, for the stages to come
          ({ s with missed := s.missed ++ [(key, s.flowMap.length % 2 ^ 8)],
                    flowMap := s.flowMap ++ [none], batchEnable := false }, some packet)

/-- A packet not yet classified, its key and its place in the flow map. -/
structure Missed (P K : Type) where
  packet : P
  key : K
  recvIdx : Nat

structure Smc (T F P : Type) where
  tables : T
  flowMap : List (Option (Classified F P))
  nSmcHit : Nat

/-- The body of the loop of `smc_lookup_batch`. -/
def smcBody (calls : Calls T P K F) (s : Smc T F P) (_i : Nat) (m : Missed P K) :
    Smc T F P × Option (Missed P K) :=
  match calls.smcLookup s.tables m.packet m.key with
  | some flow =>
    ({ tables := calls.emcProbabilisticInsert s.tables m.key flow,
       flowMap := s.flowMap.set m.recvIdx (some (calls.classified m.packet flow)),
       nSmcHit := s.nSmcHit + 1 }, none)
  | none => (s, some m)

/-- What the loop over the packets without a rule leaves behind: the rules, and the
packets handed to the slow path. -/
structure Slow (T F P K : Type) where
  tables : T
  rules : List (Missed P K × Option F)
  upcalled : List P
  upcallOkCnt : Nat
  upcallFailCnt : Nat

/-- The loop of upcalls in `fast_path_processing`. -/
def upcallLoop (calls : Calls T P K F) : T → List (Missed P K × Option F) → Slow T F P K
  | t, [] =>
    { tables := t, rules := [], upcalled := [], upcallOkCnt := 0, upcallFailCnt := 0 }
  | t, (m, some flow) :: rest =>
    let r := upcallLoop calls t rest
    { r with rules := (m, some flow) :: r.rules }
  | t, (m, none) :: rest =>
    -- an earlier upcall may have installed a flow for this packet
    match calls.lookupFlow t m.key with
    | some flow =>
      let r := upcallLoop calls t rest
      { r with rules := (m, some flow) :: r.rules }
    | none =>
      let u := calls.handlePacketUpcall t m.packet m.key
      let r := upcallLoop calls u.1 rest
      { tables := r.tables, rules := (m, none) :: r.rules, upcalled := m.packet :: r.upcalled,
        upcallOkCnt := if u.2 then r.upcallOkCnt else r.upcallOkCnt + 1,
        upcallFailCnt := if u.2 then r.upcallFailCnt + 1 else r.upcallFailCnt }

/-- The last loop of `fast_path_processing`. -/
def enqueueRules (calls : Calls T P K F) (s : T × List (Option (Classified F P)))
    (rules : List (Missed P K × Option F)) : T × List (Option (Classified F P)) :=
  rules.foldl (fun s r =>
    match r.2 with
    | none => s
    | some flow =>
      (calls.emcProbabilisticInsert (calls.smcInsert s.1 r.1.key flow) r.1.key flow,
        s.2.set r.1.recvIdx (some (calls.classified r.1.packet flow)))) s

structure FastPath (T F P : Type) where
  tables : T
  flowMap : List (Option (Classified F P))
  upcalled : List P
  /-- Deleted because `upcall_rwlock` was taken. -/
  lost : List P
  maskedHit : Nat
  miss : Nat
  lostCnt : Nat

/-- `fast_path_processing`; `acquired` tells whether the lock for upcalls was free. -/
def fastPathProcessing (calls : Calls T P K F) (t : T) (flowMap : List (Option (Classified F P)))
    (acquired : Bool) (inPort : Nat) (missed : List (Missed P K)) : FastPath T F P :=
  let rules := missed.map fun m => (m, calls.dpclsLookup t inPort m.key)
  let anyMiss := rules.any fun r => r.2.isNone
  if anyMiss && !acquired then
    let lost := (rules.filter fun r => r.2.isNone).map fun r => r.1.packet
    let e := enqueueRules calls (t, flowMap) rules
    { tables := e.1, flowMap := e.2, upcalled := [], lost := lost,
      maskedHit := missed.length - lost.length, miss := 0, lostCnt := lost.length }
  else
    let slow := if anyMiss then upcallLoop calls t rules
      else { tables := t, rules := rules, upcalled := [], upcallOkCnt := 0, upcallFailCnt := 0 }
    let e := enqueueRules calls (slow.tables, flowMap) slow.rules
    { tables := e.1, flowMap := e.2, upcalled := slow.upcalled, lost := [],
      maskedHit := missed.length - slow.upcallOkCnt - slow.upcallFailCnt,
      miss := slow.upcallOkCnt, lostCnt := slow.upcallFailCnt }

/-- The fast path for the packets the caches left over, if there are any. -/
def fastPathRest (calls : Calls T P K F) (t : T) (flowMap : List (Option (Classified F P)))
    (acquired : Bool) : List (Missed P K) → FastPath T F P
  | [] => { tables := t, flowMap := flowMap, upcalled := [], lost := [], maskedHit := 0, miss := 0,
            lostCnt := 0 }
  | m :: rest => fastPathProcessing calls t flowMap acquired (calls.inPort m.packet) (m :: rest)

/-- What a batch leaves behind, when the batches per flow are about to be executed. -/
structure InputRun (T F P : Type) where
  tables : T
  batches : List (PacketBatchPerFlow F P)
  batchOf : F → Option Nat
  dropped : List P
  upcalled : List P
  lost : List P
  nPhwolHit : Nat
  nSimpleHit : Nat
  nEmcHit : Nat
  nSmcHit : Nat
  maskedHit : Nat
  miss : Nat
  lostCnt : Nat

/-- `dp_netdev_input__`. -/
def dpNetdevInput (calls : Calls T P K F) (t : T) (acquired : Bool) (packets : List P) :
    InputRun T F P :=
  let simpleMatch := !calls.mdIsValid && calls.simpleMatchEnabled t
  let d := compact (dfcBody calls t) .start packets
  let missed := List.zipWith (fun packet m => (⟨packet, m.1, m.2⟩ : Missed P K)) d.2 d.1.missed
  let s := if !simpleMatch && calls.smcEnableDb
    then compact (smcBody calls) { tables := t, flowMap := d.1.flowMap, nSmcHit := 0 } missed
    else ({ tables := t, flowMap := d.1.flowMap, nSmcHit := 0 }, missed)
  let f := fastPathRest calls s.1.tables s.1.flowMap acquired s.2
  let b := queueAll calls.size d.1.batches (f.flowMap.filterMap id)
  { tables := f.tables, batches := b.batches, batchOf := resetBatches b, dropped := d.1.dropped,
    upcalled := f.upcalled, lost := f.lost, nPhwolHit := d.1.nPhwolHit,
    nSimpleHit := d.1.nSimpleHit, nEmcHit := d.1.nEmcHit, nSmcHit := s.1.nSmcHit,
    maskedHit := f.maskedHit, miss := f.miss, lostCnt := f.lostCnt }

end Repath.Datapath
