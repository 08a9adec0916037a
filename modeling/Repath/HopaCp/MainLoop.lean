import Mathlib.Logic.Function.Basic
import Mathlib.Data.List.Perm.Subperm
import Repath.Lib.BoundedFifo
import Repath.HopaCp.Progress

/-!
# The two threads of `hopa_cp.c`

`main` moves packets between the NIC and two rings: a burst it receives goes to the
in ring, and a burst it takes off the out ring is transmitted in as many calls as
the NIC wants.  On the other core the sender runs `lcore_probe` and the receiver
`lcore_stats`.

Buffers are named by their addresses.  A step is what one thread does up to its
next call of a ring, the pool or the NIC, or what the NIC does with a buffer.
-/

namespace Repath.HopaCp

open Exec

abbrev Addr := Nat

def burstSize : Nat := 32

/-- The entries that fit on a ring of 1024 slots. -/
def ringCap : Nat := 1023

/-- `-s`: the sender runs `lcore_probe`, the receiver `lcore_stats`. -/
inductive Role
  | sender
  | receiver
  deriving DecidableEq, Repr

/-- The next call of `main`. -/
inductive MainPc
  | rxBurst
  | enqueue
  | dequeue
  | txBurst
  deriving DecidableEq, Repr

structure Process where
  store : Addr → RteMbuf
  /-- The free buffers of `mbuf_pool`. -/
  mbufPool : List Addr
  /-- Buffers the NIC may receive a packet into. -/
  rxDesc : List Addr
  /-- Buffers handed to the NIC that it has not given back. -/
  txDesc : List Addr
  hopaInRing : BoundedFifo Addr ringCap
  hopaOutRing : BoundedFifo Addr ringCap
  mainPc : MainPc
  /-- The entries of `recv_mbuf` that are still to be enqueued. -/
  recvMbuf : List Addr
  /-- The `total_num` entries of `send_mbuf`. -/
  sendMbuf : List Addr
  /-- Set when a burst is begun; `main` reads it in the transmit loop only. -/
  offset : Nat
  /-- What the worker has built and not enqueued: `mbufs` of `lcore_probe`, or the
  packet of a handler of `lcore_stats`. -/
  mbufs : List Addr
  /-- The entries of `bufs` still to be freed, and those of them still to be handled. -/
  bufs : List Addr
  todo : List Addr
  cp : State

def Process.start (store : Addr → RteMbuf) (curPathInfo : CurPathInfo) (mp : List Addr) :
    Process :=
  { store := store, mbufPool := mp, rxDesc := [], txDesc := [], hopaInRing := .empty,
    hopaOutRing := .empty, mainPc := .rxBurst, recvMbuf := [], sendMbuf := [], offset := 0,
    mbufs := [], bufs := [], todo := [], cp := .start curPathInfo }

/-! ### `main` -/

/-- What `rte_eth_rx_burst` delivers: at most a burst of packets, in buffers that the
NIC may receive into. -/
def Process.received (s : Process) (burst : List (Addr × RteMbuf)) : List (Addr × RteMbuf) :=
  if (burst.map Prod.fst).Subperm s.rxDesc ∧ burst.length ≤ burstSize then burst else []

def writeBurst (store : Addr → RteMbuf) (burst : List (Addr × RteMbuf)) : Addr → RteMbuf :=
  burst.foldl (fun store p => Function.update store p.1 p.2) store

def Process.rxBurst (burst : List (Addr × RteMbuf)) (s : Process) : Process :=
  let recvMbuf := burst.map Prod.fst
  { s with
    store := writeBurst s.store burst
    rxDesc := s.rxDesc.diff recvMbuf
    recvMbuf := recvMbuf
    mainPc := if 0 < recvMbuf.length then .enqueue else .dequeue }

/-- The count that `rte_ring_sp_enqueue_burst` returns is ignored. -/
def Process.enqueueIn (s : Process) : Process :=
  { s with
    hopaInRing := (s.hopaInRing.enqueueBurst s.recvMbuf).1
    recvMbuf := []
    mainPc := .dequeue }

/-- `offset` keeps its last value when there is nothing to transmit. -/
def Process.dequeueOut (s : Process) : Process :=
  let (sendMbuf, ring) := s.hopaOutRing.dequeueBurst burstSize
  { s with
    hopaOutRing := ring
    sendMbuf := sendMbuf
    offset := if 0 < sendMbuf.length then 0 else s.offset
    mainPc := if 0 < sendMbuf.length then .txBurst else .rxBurst }

/-- `rte_eth_tx_burst` takes the first `txNum` of the entries offered. -/
def Process.txBurst (txNum : Nat) (s : Process) : Process :=
  let txNum := min txNum (s.sendMbuf.length - s.offset)
  let offset := s.offset + txNum
  { s with
    txDesc := s.txDesc ++ (s.sendMbuf.drop s.offset).take txNum
    offset := offset
    mainPc := if offset < s.sendMbuf.length then .txBurst else .rxBurst }

def Process.main (burst : List (Addr × RteMbuf)) (txNum : Nat) (s : Process) : Process :=
  match s.mainPc with
  | .rxBurst => s.rxBurst (s.received burst)
  | .enqueue => s.enqueueIn
  | .dequeue => s.dequeueOut
  | .txBurst => s.txBurst txNum

/-! ### `lcore_probe` and `lcore_stats` -/

/-- `rte_pktmbuf_alloc`: an `alloc` that is not free stands for a failed call. -/
def Process.allocated (s : Process) (alloc : Option Addr) : Option Addr :=
  alloc.filter (· ∈ s.mbufPool)

/-- The packets built go to `mbufs`, the first in the buffer that was allocated. -/
def Process.emit (alloc : Option Addr) (outs : List RteMbuf) (s : Process) : Process :=
  match alloc, outs with
  | some a, mbuf :: _ =>
    { s with
      store := Function.update s.store a mbuf
      mbufPool := s.mbufPool.erase a
      mbufs := s.mbufs ++ [a] }
  | _, _ => s

/-- `rte_ring_mp_enqueue_burst` of `mbufs`, whose count is ignored. -/
def Process.enqueueOut (s : Process) : Process :=
  { s with
    hopaOutRing := (s.hopaOutRing.enqueueBurst s.mbufs).1
    mbufs := [] }

def Process.lcoreProbe (pf : Platform) (alloc : Option Addr) (clock : Option Timespec)
    (s : Process) : Except Stop Process :=
  if s.mbufs.length < pathNb then do
    let alloc := s.allocated alloc
    let mbuf ← encodeProbePkt pf.cksum (alloc.map s.store) clock (UInt8.ofNat (s.mbufs.length + 1))
    .ok (s.emit alloc [mbuf])
  else .ok s.enqueueOut

/-- `bufs[i]` is handed to its handler. -/
def Process.handle (pf : Platform) (alloc : Option Addr) (clock : Option Timespec) (a : Addr)
    (s : Process) : Except Stop Process := do
  let alloc := s.allocated alloc
  let (cp, outs) ← HopaCp.lcoreStats pf
    { mbuf := s.store a, clock := clock, alloc := alloc.map s.store } s.cp
  .ok (Process.emit alloc outs { s with cp := cp, todo := s.todo.tail })

/-- The head of the loop: `timerOut` says whether `rte_timer_manage` is called and
finds the timer run out. -/
def Process.dequeueIn (timerOut : Bool) (s : Process) : Process :=
  let (bufs, ring) := s.hopaInRing.dequeueBurst burstSize
  { s with
    cp := if timerOut then (timerExpiry s.cp).1 else s.cp
    hopaInRing := ring
    bufs := bufs
    todo := bufs }

/-- A handler's packet is enqueued before the next packet is handled, and all are
handled before the first is freed. -/
def Process.lcoreStats (pf : Platform) (alloc : Option Addr) (clock : Option Timespec)
    (timerOut : Bool) (s : Process) : Except Stop Process :=
  match s.mbufs, s.todo, s.bufs with
  | _ :: _, _, _ => .ok s.enqueueOut
  | [], a :: _, _ => s.handle pf alloc clock a
  | [], [], a :: bufs => .ok { s with mbufPool := s.mbufPool ++ [a], bufs := bufs }
  | [], [], [] => .ok (s.dequeueIn timerOut)

/-! ### Steps -/

inductive ProcessAction
  /-- The NIC gets a free buffer to receive into. -/
  | refill (a : Addr)
  /-- The NIC has sent a packet and frees its buffer. -/
  | sent (a : Addr)
  | main (burst : List (Addr × RteMbuf)) (txNum : Nat)
  | worker (alloc : Option Addr) (clock : Option Timespec) (timerOut : Bool)

def Process.refill (a : Addr) (s : Process) : Process :=
  if a ∈ s.mbufPool then { s with mbufPool := s.mbufPool.erase a, rxDesc := s.rxDesc ++ [a] }
  else s

def Process.sent (a : Addr) (s : Process) : Process :=
  if a ∈ s.txDesc then { s with txDesc := s.txDesc.erase a, mbufPool := s.mbufPool ++ [a] }
  else s

def Process.step (role : Role) (pf : Platform) (s : Process) :
    ProcessAction → Except Stop Process
  | .refill a => .ok (s.refill a)
  | .sent a => .ok (s.sent a)
  | .main burst txNum => .ok (s.main burst txNum)
  | .worker alloc clock timerOut =>
    match role with
    | .sender => s.lcoreProbe pf alloc clock
    | .receiver => s.lcoreStats pf alloc clock timerOut

/-! ### What the steps keep to -/

theorem received_subperm (s : Process) (burst : List (Addr × RteMbuf)) :
    ((s.received burst).map Prod.fst).Subperm s.rxDesc := by
  rw [Process.received]
  split
  · rename_i h
    exact h.1
  · exact List.nil_subperm

theorem mem_mbufPool_of_allocated {s : Process} {alloc : Option Addr} {a : Addr}
    (h : s.allocated alloc = some a) : a ∈ s.mbufPool := by
  obtain ⟨-, hmem⟩ := Option.filter_eq_some_iff.mp h
  exact of_decide_eq_true hmem

@[simp] theorem Process.emit_nil (alloc : Option Addr) (s : Process) : s.emit alloc [] = s := by
  cases alloc <;> rfl

/-- All that was taken off the out ring is still to be transmitted. -/
theorem drop_offset_dequeueOut (s : Process) :
    s.dequeueOut.sendMbuf.drop s.dequeueOut.offset = s.dequeueOut.sendMbuf := by
  by_cases hpos : 0 < s.dequeueOut.sendMbuf.length
  · have hoffset : s.dequeueOut.offset = 0 := if_pos hpos
    rw [hoffset, List.drop_zero]
  · have hnil : s.dequeueOut.sendMbuf = [] :=
      List.length_eq_zero_iff.mp (Nat.eq_zero_of_not_pos hpos)
    rw [hnil, List.drop_nil]

end Repath.HopaCp
