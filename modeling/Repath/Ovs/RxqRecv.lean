import Repath.Lib.BoundedFifo
import Repath.Lib.Cells
import Repath.Lib.Exec
import Repath.Ovs.Encode

/-!
# Injection of control packets in `netdev-dpdk.c`

`hopa_cp_send` puts pointers to control packets on the out ring.  A poll of port
`pf1hpf` reads the number of packets on the ring, asks the NIC for what is left
of a burst, takes the control packets off the ring and copies them over the
packets that the next slots of the batch point to.  Those slots are whatever the
caller's array holds, since the NIC fills only the slots before them.  The copied
`struct rte_mbuf` points to the data area of the control packet, which nobody
frees, so the copy is modelled as one of the whole packet.

A poll is two steps, so that control packets may be enqueued between the reading
of the ring's length and the rest.  No ingress policer is set.  The state keeps,
for comparison, the control packets the ring accepted and those delivered in
batches.
-/

namespace Repath.Ovs

open Exec Cells

abbrev Addr := Nat

/-- `rte_ring_create` with 1024 slots. -/
def outRingCap : Nat := 1023

/-- Length of `batch->packets`. -/
def netdevMaxBurst : Nat := 32

/-- Length of `hopa_cp_send_mbuf`. -/
def sendSlots : Nat := 32

structure Port where
  name : String
  up : Bool
  deriving DecidableEq

structure Rxq where
  store : Addr → RteMbuf
  hopaCpOutRing : BoundedFifo (Option Addr) outRingCap
  hopaCpSendMbuf : List (Option Addr)
  /-- `nb_cp` of a poll that is under way. -/
  nbCp : Option Nat
  /-- The packets the last poll returned, `none` for `EAGAIN`. -/
  batch : Option (List RteMbuf)
  accepted : List RteMbuf
  delivered : List RteMbuf

def Rxq.start (store : Addr → RteMbuf) : Rxq :=
  { store := store, hopaCpOutRing := .empty, hopaCpSendMbuf := List.replicate sendSlots none,
    nbCp := none, batch := none, accepted := [], delivered := [] }

def roundLength : Node → Nat
  | .cq => pathNb
  | .yy => 1

/-- One round of `hopa_cp_send`; `alloc` and `clock` give what the calls of the
round return. -/
def sendRound (node : Node) (cksum : RteCksum) (alloc : Nat → Option Addr)
    (clock : Nat → Timespec) (s : Rxq) : Rxq :=
  let mbufs := (List.range (roundLength node)).map alloc
  let frames := hopaCpSend node cksum (fun i => (alloc i).map s.store) clock
  let cells := (mbufs.reduceOption).zip frames.reduceOption
  let (ring, count) := s.hopaCpOutRing.enqueueBurst mbufs
  { s with store := overlay s.store cells, hopaCpOutRing := ring,
           accepted := s.accepted ++ (frames.take count).reduceOption }

/-- `nb_cp` as the poll of a port reads it.  Ports other than `pf1hpf` only ask
the NIC, as `pf1hpf` does when the ring is empty. -/
def readNbCp (port : Port) (ring : BoundedFifo (Option Addr) outRingCap) : Nat :=
  if port.name = "pf1hpf" then ring.count else 0

/-- The count passed to `rte_eth_rx_burst`, an `int` converted to `uint16_t`. -/
def rxRequest (nbCp : Nat) : UInt16 :=
  if nbCp = 0 then UInt16.ofNat netdevMaxBurst else UInt16.ofInt (netdevMaxBurst - nbCp)

/-- The rest of a poll, with the packets the NIC delivers and what
`batch->packets` held before. -/
def rxqRecv (nbCp : Nat) (burst : List (Addr × RteMbuf)) (slots : List (Option Addr)) (s : Rxq) :
    Except Stop Rxq :=
  let nbRx := burst.length
  if netdevMaxBurst < nbRx then .error .undefined
  else
    let store := overlay s.store burst
    let packets := burst.map (fun p => some p.1) ++ slots.drop nbRx
    if nbCp = 0 then
      if nbRx = 0 then .ok { s with nbCp := none, batch := none }
      else .ok { s with store := store, nbCp := none,
                        batch := some ((packets.take nbRx).reduceOption.map store) }
    else if sendSlots < nbCp then .error .undefined
    else
      let (mbufs, ring) := s.hopaCpOutRing.dequeueBurst nbCp
      let sendMbuf := mbufs ++ s.hopaCpSendMbuf.drop mbufs.length
      match copyAll (packets.drop nbRx) (sendMbuf.take nbCp) store with
      | none => .error .undefined
      | some store =>
        let batch := (packets.take (nbRx + nbCp)).reduceOption.map store
        .ok { s with store := store, hopaCpOutRing := ring, hopaCpSendMbuf := sendMbuf,
                     nbCp := none, batch := some batch,
                     delivered := s.delivered ++ batch.drop nbRx }

/-- The slots of the batch that a poll returns. -/
def batchSlots (nbCp : Nat) (burst : List (Addr × RteMbuf)) (slots : List (Option Addr)) :
    List (Option Addr) :=
  (burst.map (fun p => some p.1) ++ slots.drop burst.length).take (burst.length + nbCp)

inductive RxqAction
  | send (alloc : Nat → Option Addr) (clock : Nat → Timespec)
  | pollStart (port : Port)
  | pollEnd (burst : List (Addr × RteMbuf)) (slots : List (Option Addr))

def Rxq.step (node : Node) (cksum : RteCksum) (s : Rxq) : RxqAction → Except Stop Rxq
  | .send alloc clock => .ok (sendRound node cksum alloc clock s)
  | .pollStart port =>
    if port.up then .ok { s with nbCp := some (readNbCp port s.hopaCpOutRing), batch := none }
    else .ok { s with nbCp := none, batch := none }
  | .pollEnd burst slots =>
    match s.nbCp with
    | none => .ok s
    | some nbCp => rxqRecv nbCp burst slots s

/-! ### What is asked of a run -/

/-- The control packets on the ring, oldest first.  A failed allocation leaves a
null pointer among them. -/
def Rxq.queue (s : Rxq) : List Addr := s.hopaCpOutRing.items.reduceOption

/-- What DPDK promises: buffers it hands out are not in use, the NIC delivers at
most what was requested, and `batch->packets` has its length.  An allocation may
fail. -/
def Contract (node : Node) (s : Rxq) : RxqAction → Prop
  | .send alloc _ => ((List.range (roundLength node)).map alloc).reduceOption.Nodup ∧
      ∀ a ∈ ((List.range (roundLength node)).map alloc).reduceOption, a ∉ s.queue
  | .pollStart _ => True
  | .pollEnd burst slots => slots.length = netdevMaxBurst ∧ (burst.map Prod.fst).Nodup ∧
      (∀ a ∈ burst.map Prod.fst, a ∉ s.queue) ∧
      ∀ n, s.nbCp = some n → burst.length ≤ (rxRequest n).toNat

/-- The poll found at most 32 pointers on the ring, none of them null, and the slots
it copies the packets to point to different packets that are neither in the NIC's
burst nor on the ring. -/
def Fits (s : Rxq) : RxqAction → Prop
  | .send _ _ => True
  | .pollStart _ => True
  | .pollEnd burst slots => ∀ n, s.nbCp = some n → n ≤ sendSlots ∧
      none ∉ s.hopaCpOutRing.items.take n ∧
      ∃ dst : List Addr, (slots.drop burst.length).take n = dst.map some ∧ dst.length = n ∧
        dst.Nodup ∧ ∀ a ∈ dst, a ∉ burst.map Prod.fst ∧ a ∉ s.queue

/-- The poll found at most 32 pointers on the ring, and these and the slots it
copies the packets to may be followed. -/
def Followable (s : Rxq) : RxqAction → Prop
  | .send _ _ => True
  | .pollStart _ => True
  | .pollEnd burst slots => ∀ n, s.nbCp = some n → n ≤ sendSlots ∧
      none ∉ s.hopaCpOutRing.items.take n ∧
      ∃ dst : List Addr, (slots.drop burst.length).take n = dst.map some ∧ dst.length = n

/-- Every accepted control packet was delivered in its turn or is still on the
ring, unchanged. -/
def Rxq.Accounted (s : Rxq) : Prop := s.accepted = s.delivered ++ s.queue.map s.store

/-- A poll requests from the NIC what is left of 32 packets, and a batch it returns
has at most 32 packets: those of the NIC, then the control packets accepted
longest ago. -/
def PollOk (s : Rxq) (a : RxqAction) (s' : Rxq) : Prop :=
  match a with
  | .send _ _ => True
  | .pollStart _ => True
  | .pollEnd burst _ => ∀ n, s.nbCp = some n → (rxRequest n).toNat + n = netdevMaxBurst ∧
      (s'.batch = none → burst = [] ∧ n = 0) ∧
      ∀ batch, s'.batch = some batch → batch.length ≤ netdevMaxBurst ∧
        batch = burst.map Prod.snd ++ (s.accepted.drop s.delivered.length).take n

end Repath.Ovs
