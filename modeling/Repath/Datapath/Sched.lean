import Mathlib.Algebra.GroupWithZero.Nat
import Mathlib.Data.List.Sort
import Mathlib.Logic.Function.Basic

/-!
# Which thread polls which queue

Receive queues are spread over the PMD threads of the NUMA nodes: pinned queues go to
the core the user names, and the others, by one of three algorithms, to a thread that is
not isolated, of the queue's own NUMA node if there is one.
-/

namespace Repath.Datapath

inductive SchedAssignmentType
  | roundrobin
  | cycles
  | group
  deriving DecidableEq

structure Rxq where
  port : Nat
  queueId : Nat
  /-- The NUMA node of the port's device. -/
  numaId : Nat
  /-- The core it is pinned to; `none` is `OVS_CORE_UNSPEC`. -/
  coreId : Option Nat
  cyclesIntrvl : List Nat
  /-- `RXQ_CYCLES_PROC_HIST`. -/
  cyclesHist : Nat
  deriving DecidableEq

/-- `struct sched_numa_list`, with its NUMA nodes and PMDs.  A NUMA node is named by
`numa_id` and a PMD by the core of its thread. -/
structure SchedNumaList where
  numas : List Nat
  pmds : Nat → List Nat
  nIsolated : Nat → Nat
  rrCurIndex : Nat → Nat
  rrIdxInc : Nat → Bool
  numa : Nat → Nat
  pmdProcCycles : Nat → Nat
  rxqs : Nat → List Rxq
  isolated : Nat → Bool

/-- The PMDs of all NUMA nodes. -/
def SchedNumaList.allPmds (l : SchedNumaList) : List Nat := l.numas.flatMap l.pmds

def SchedNumaList.empty : SchedNumaList where
  numas := []
  pmds _ := []
  nIsolated _ := 0
  rrCurIndex _ := 0
  rrIdxInc _ := true
  numa _ := 0
  pmdProcCycles _ := 0
  rxqs _ := []
  isolated _ := false

/-- One round of `sched_numa_list_populate`; a thread is its core and NUMA node. -/
def populateThread (l : SchedNumaList) (thread : Nat × Nat) : SchedNumaList :=
  let l := if thread.2 ∈ l.numas then l else { l with numas := l.numas ++ [thread.2] }
  { l with
    pmds := Function.update l.pmds thread.2 (l.pmds thread.2 ++ [thread.1]),
    numa := Function.update l.numa thread.1 thread.2 }

/-- `sched_numa_list_populate`. -/
def schedNumaListPopulate (threads : List (Nat × Nat)) : SchedNumaList :=
  let l := threads.foldl populateThread .empty
  { l with pmds := fun numa => (l.pmds numa).insertionSort (· ≤ ·) }

variable (l : SchedNumaList)

/-- `sched_pmd_find_by_pmd` of the thread on a core. -/
def schedPmdFindByPmd (core : Nat) : Option Nat := l.allPmds.find? fun pmd => pmd = core

def schedPmdAddRxq (pmd : Nat) (rxq : Rxq) (cycles : Nat) : SchedNumaList :=
  { l with
    rxqs := Function.update l.rxqs pmd (l.rxqs pmd ++ [rxq]),
    pmdProcCycles :=
      Function.update l.pmdProcCycles pmd ((l.pmdProcCycles pmd + cycles) % 2 ^ 64) }

def schedNumaNonisoPmdCount (numa : Nat) : Nat := (l.pmds numa).length - l.nIsolated numa

/-- `compare_rxq_cycles`, by which queues are sorted. -/
def compareRxqCycles (a b : Rxq) : Int :=
  if a.cyclesHist ≠ b.cyclesHist then
    if a.cyclesHist < b.cyclesHist then 1 else -1
  else if a.port ≠ b.port then
    if a.port > b.port then 1 else -1
  else (a.queueId : Int) - b.queueId

def SchedNumaList.pmdNum (hasCyc : Bool) (pmd : Nat) : Nat :=
  if hasCyc then l.pmdProcCycles pmd else (l.rxqs pmd).length

/-- One round of `sched_pmd_get_lowest`. -/
def lowestOf (hasCyc : Bool) (lowest : Option Nat × Nat) (pmd : Nat) : Option Nat × Nat :=
  if l.isolated pmd then lowest
  else if l.pmdNum hasCyc pmd < lowest.2 then (some pmd, l.pmdNum hasCyc pmd)
  else lowest

/-- `sched_pmd_get_lowest`. -/
def schedPmdGetLowest (numa : Nat) (hasCyc : Bool) : Option Nat :=
  ((l.pmds numa).foldl (lowestOf l hasCyc) (none, 2 ^ 64 - 1)).1

/-- `sched_pmd_next_rr`: the index of the PMD, and the index moved on. -/
def schedPmdNextRr (numa : Nat) (updown : Bool) : Nat × SchedNumaList :=
  let numaIdx := l.rrCurIndex numa
  let setIdx (i : Nat) : SchedNumaList :=
    { l with rrCurIndex := Function.update l.rrCurIndex numa i }
  let setInc (up : Bool) : SchedNumaList :=
    { l with rrIdxInc := Function.update l.rrIdxInc numa up }
  (numaIdx,
    if l.rrIdxInc numa then
      if l.rrCurIndex numa = (l.pmds numa).length - 1 then
        if updown then setInc false else setIdx 0
      else setIdx (l.rrCurIndex numa + 1)
    else
      if l.rrCurIndex numa = 0 then setInc true else setIdx (l.rrCurIndex numa - 1))

/-- The loop of `sched_pmd_next_noniso_rr`. -/
def nonisoLoop (numa : Nat) (updown : Bool) : Nat → SchedNumaList → Option Nat × SchedNumaList
  | 0, l => (none, l)
  | fuel + 1, l =>
    let r := schedPmdNextRr l numa updown
    match (l.pmds numa)[r.1]? with
    | none => (none, l)
    | some pmd =>
      if l.isolated pmd then nonisoLoop numa updown fuel r.2 else (some pmd, r.2)

/-- `sched_pmd_next_noniso_rr`. -/
def schedPmdNextNonisoRr (numa : Nat) (updown : Bool) : Option Nat × SchedNumaList :=
  nonisoLoop numa updown ((l.pmds numa).length * 2) l

/-- `sched_pmd_next`. -/
def schedPmdNext (numa : Nat) (algo : SchedAssignmentType) (hasProc : Bool) :
    Option Nat × SchedNumaList :=
  if algo = .group then (schedPmdGetLowest l numa hasProc, l)
  else schedPmdNextNonisoRr l numa (algo = .cycles)

/-- `sched_numa_list_next`: the node after `numa`, or the first. -/
def schedNumaListNext (numa : Option Nat) : Option Nat :=
  match numa.bind fun n => (l.numas.dropWhile fun m => m ≠ n).tail.head? with
  | some next => some next
  | none => l.numas.head?

/-- The search for any NUMA node with available PMDs. -/
def crossNuma : Nat → Option Nat → Option Nat × Option Nat
  | 0, last => (none, last)
  | fuel + 1, last =>
    match schedNumaListNext l last with
    | none => (none, none)
    | some numa =>
      if schedNumaNonisoPmdCount l numa ≠ 0 then (some numa, some numa)
      else crossNuma fuel (some numa)

/-- The NUMA node for a queue, and `last_cross_numa`. -/
def selectNuma (last : Option Nat) (numaId : Nat) : Option Nat × Option Nat :=
  if numaId ∈ l.numas ∧ schedNumaNonisoPmdCount l numaId ≠ 0 then (some numaId, last)
  else crossNuma l l.numas.length last

/-- The state of `sched_numa_list_schedule`: `pending` has the queues that are not
pinned, `unpolled` those that get no PMD. -/
structure Scheduling where
  list : SchedNumaList
  pending : List Rxq
  lastCrossNuma : Option Nat
  unpolled : List Rxq

/-- The cycle history is taken from the intervals, save for round robin. -/
def setCycleHist (algo : SchedAssignmentType) (rxq : Rxq) : Rxq :=
  if algo = .roundrobin then rxq
  else { rxq with cyclesHist := rxq.cyclesIntrvl.foldl (fun hist c => (hist + c) % 2 ^ 64) 0 }

/-- `sched_numa_list_schedule` on one queue: pin it, or leave it for later. -/
def pinRxq (pmdIso : Bool) (st : Scheduling) (rxq : Rxq) : Scheduling :=
  match rxq.coreId.bind (schedPmdFindByPmd st.list) with
  | none => { st with pending := st.pending ++ [rxq] }
  | some pmd =>
    let l := st.list
    let l :=
      if pmdIso ∧ l.isolated pmd = false then
        { l with
          isolated := Function.update l.isolated pmd true,
          nIsolated := Function.update l.nIsolated (l.numa pmd) (l.nIsolated (l.numa pmd) + 1) }
      else l
    { st with list := schedPmdAddRxq l pmd rxq rxq.cyclesHist }

/-- `sched_numa_list_schedule` on one queue that is not pinned. -/
def assignRxq (algo : SchedAssignmentType) (st : Scheduling) (rxq : Rxq) : Scheduling :=
  match selectNuma st.list st.lastCrossNuma rxq.numaId with
  | (none, last) => { st with lastCrossNuma := last, unpolled := st.unpolled ++ [rxq] }
  | (some numa, last) =>
    match schedPmdNext st.list numa algo (rxq.cyclesHist ≠ 0) with
    | (none, l) =>
      { st with list := l, lastCrossNuma := last, unpolled := st.unpolled ++ [rxq] }
    | (some pmd, l) =>
      { st with list := schedPmdAddRxq l pmd rxq rxq.cyclesHist, lastCrossNuma := last }

/-- The queues in the order in which they are assigned. -/
def sortRxqs (algo : SchedAssignmentType) (rxqs : List Rxq) : List Rxq :=
  if algo = .roundrobin then rxqs
  else rxqs.insertionSort fun a b => compareRxqCycles a b ≤ 0

/-- `sched_numa_list_schedule` of the queues of the ports that PMDs poll. -/
def schedNumaListSchedule (pmdIso : Bool) (algo : SchedAssignmentType) (rxqs : List Rxq) :
    Scheduling :=
  let st := (rxqs.map (setCycleHist algo)).foldl (pinRxq pmdIso)
    { list := l, pending := [], lastCrossNuma := none, unpolled := [] }
  (sortRxqs algo st.pending).foldl (assignRxq algo) st

/-- The NUMA nodes of the threads, when the hash map is walked in the given order. -/
def populateIn (order : List Nat) (threads : List (Nat × Nat)) : SchedNumaList :=
  { schedNumaListPopulate threads with numas := order }

/-- `rxq_scheduling`. -/
def rxqScheduling (threads : List (Nat × Nat)) (order : List Nat) (pmdIso : Bool)
    (algo : SchedAssignmentType) (rxqs : List Rxq) : Scheduling :=
  schedNumaListSchedule (populateIn order threads) pmdIso algo rxqs

end Repath.Datapath
