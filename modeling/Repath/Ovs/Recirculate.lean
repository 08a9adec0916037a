import Mathlib.Algebra.BigOperators.Group.List.Basic
import Repath.Lib.BoundedFifo
import Repath.Lib.Exec
import Repath.Ovs.Encode

/-!
# Reception of control packets in `dpif-netdev.c`

`dp_netdev_recirculate` copies the header of every packet that looks like a
control packet into the in ring and then runs the actions of the packets' flows.
The actions TUNNEL_POP and RECIRC call it again, one level deeper.  The flow
table, the tunnel ports and `netdev_pop_header` are parameters, and so is the
success of `rte_malloc`.

However a control packet is recirculated, the in ring sees a number of copies of
its header, one after the other.  `flowCopies` counts those that the actions of its
flow make, from the flows alone, and `decapsulated` lists the packets that the flows
of an encapsulated packet turn it into.
-/

namespace Repath.Ovs

open Exec

/-- `rte_ring_create` with 1024 slots. -/
def inRingCap : Nat := 1023

/-- Length of `hopa_cp_recv_cp_hdr`. -/
def recvSlots : Nat := 32

def maxRecircDepth : Nat := 6

/-- `hopa_cp_in_ring`, `none` before `hopa_cp_init`, and the number of calls of
`rte_malloc` so far. -/
structure Tap where
  hopaCpInRing : Option (BoundedFifo HopaCpHdr inRingCap)
  mallocs : Nat

def Tap.start : Tap := { hopaCpInRing := some BoundedFifo.empty, mallocs := 0 }

theorem tapStart_ring : Tap.start.hopaCpInRing = some BoundedFifo.empty := rfl

structure DpPacket where
  mbuf : RteMbuf
  inPort : UInt32
  recircId : UInt32

/-- Actions of a flow.  `other` stands for those that neither recirculate a packet nor
change its headers. -/
inductive OvsAction
  | tunnelPop (portno : UInt32)
  | recirc (recircId : UInt32)
  | other
  deriving DecidableEq, Repr

structure Datapath where
  /-- The actions of the flow a packet matches. -/
  flow : DpPacket → List OvsAction
  /-- The port of a number and what `netdev_pop_header` makes of a packet there,
  `none` when it drops it. -/
  tnlPort : UInt32 → Option (RteMbuf → Option RteMbuf)
  /-- Whether the `n`-th `rte_malloc` succeeds. -/
  malloc : Nat → Bool

/-- The filter on `ether_type`, `next_proto_id`, `dgram_len`, `src_port` and
`pkt_len`. -/
def IsHopaCp (mbuf : RteMbuf) : Prop :=
  etherTypeOf mbuf = rteEtherTypeIpv4 ∧ nextProtoIdOf mbuf = ipprotoUdp ∧
    dgramLenOf mbuf = 40 ∧ srcPortOf mbuf = srcPort ∧ mbuf.pktLen = 74

instance (mbuf : RteMbuf) : Decidable (IsHopaCp mbuf) := inferInstanceAs (Decidable (_ ∧ _))

/-- One round of the loop over the batch: the headers copied so far and the
number of `rte_malloc` calls. -/
def copyHdr (dp : Datapath) (acc : List HopaCpHdr × Nat) (mbuf : RteMbuf) :
    Except Stop (List HopaCpHdr × Nat) :=
  if IsHopaCp mbuf then
    if acc.1.length < recvSlots ∧ dp.malloc acc.2 = true then
      .ok (acc.1 ++ [hdrOf mbuf], acc.2 + 1)
    else .error .undefined
  else .ok acc

/-- The part of `dp_netdev_recirculate` before `dp_netdev_input__`. -/
def tapBatch (dp : Datapath) (t : Tap) (mbufs : List RteMbuf) : Except Stop Tap :=
  match t.hopaCpInRing with
  | none => .ok t
  | some ring => do
    let (hdrs, mallocs) ← mbufs.foldlM (copyHdr dp) ([], t.mallocs)
    .ok { hopaCpInRing := some (ring.enqueueBurst hdrs).1, mallocs := mallocs }

/-- `dp_execute_cb`, with `recirculate` for the next level unless the depth is
used up. -/
def executeCb (dp : Datapath) (recirculate : Option (Tap → DpPacket → Except Stop Tap))
    (packet : DpPacket) (t : Tap) : OvsAction → Except Stop Tap
  | .tunnelPop portno =>
    match recirculate with
    | none => .ok t
    | some recirculate =>
      match dp.tnlPort portno with
      | none => .ok t
      | some popHeader =>
        match popHeader packet.mbuf with
        | none => .ok t
        | some inner => recirculate t { packet with mbuf := inner, inPort := portno }
  | .recirc recircId =>
    match recirculate with
    | none => .ok t
    | some recirculate => recirculate t { packet with recircId := recircId }
  | .other => .ok t

/-- `dp_netdev_recirculate` for one packet, `room` levels below the maximum depth:
the tap, then the actions of the packet's flow in order. -/
def dpNetdevRecirculate (dp : Datapath) : Nat → Tap → DpPacket → Except Stop Tap
  | 0, t, packet => do
    let t ← tapBatch dp t [packet.mbuf]
    (dp.flow packet).foldlM (executeCb dp none packet) t
  | room + 1, t, packet => do
    let t ← tapBatch dp t [packet.mbuf]
    (dp.flow packet).foldlM (executeCb dp (some (dpNetdevRecirculate dp room)) packet) t

/-- An action of a packet that came from a port, at depth 0. -/
def dpExecuteCb (dp : Datapath) (packet : DpPacket) : Tap → OvsAction → Except Stop Tap :=
  executeCb dp (some (dpNetdevRecirculate dp (maxRecircDepth - 1))) packet

def dpNetdevInput (dp : Datapath) (t : Tap) (packet : DpPacket) : Except Stop Tap :=
  (dp.flow packet).foldlM (dpExecuteCb dp packet) t

/-! ### The tap -/

theorem IsCpFrame.isHopaCp {mbuf : RteMbuf} {hdr : HopaCpHdr} (h : IsCpFrame mbuf hdr) :
    IsHopaCp mbuf :=
  ⟨h.etherType, h.proto, h.dgramLen, h.src, h.pktLen⟩

theorem tapBatch_singleton (dp : Datapath) {t : Tap} {mbuf : RteMbuf} {hdr : HopaCpHdr}
    {ring : BoundedFifo HopaCpHdr inRingCap} (hring : t.hopaCpInRing = some ring)
    (h : IsCpFrame mbuf hdr) :
    tapBatch dp t [mbuf] = if dp.malloc t.mallocs = true then
      .ok { hopaCpInRing := some (ring.enqueueBurst [hdr]).1, mallocs := t.mallocs + 1 }
      else .error .undefined := by
  have hslot : ([] : List HopaCpHdr).length < recvSlots := by decide
  rw [tapBatch, hring]
  simp only [List.foldlM_cons, List.foldlM_nil, copyHdr, if_pos h.isHopaCp, hslot, true_and, h.hdr]
  by_cases hmalloc : dp.malloc t.mallocs = true
  · rw [if_pos hmalloc, if_pos hmalloc]
    rfl
  · rw [if_neg hmalloc, if_neg hmalloc]
    rfl

theorem tapBatch_of_not_isHopaCp (dp : Datapath) (t : Tap) {mbuf : RteMbuf}
    (h : ¬ IsHopaCp mbuf) : tapBatch dp t [mbuf] = .ok t := by
  rw [tapBatch]
  cases hring : t.hopaCpInRing with
  | none => rfl
  | some ring =>
      simp only [List.foldlM_cons, List.foldlM_nil, copyHdr, if_neg h]
      have hsame : (ring.enqueueBurst []).1 = ring := by
        apply BoundedFifo.ext
        rw [BoundedFifo.items_enqueueBurst_take, List.take_nil, List.append_nil]
      show Except.ok { t with hopaCpInRing := some (ring.enqueueBurst []).1 } = _
      rw [hsame, ← hring]

/-- `hdr` is copied and enqueued `k` times, one after the other. -/
def tapTimes (dp : Datapath) (hdr : HopaCpHdr) : Nat → Tap → Except Stop Tap
  | 0, t => .ok t
  | k + 1, t =>
    match t.hopaCpInRing with
    | none => tapTimes dp hdr k t
    | some ring =>
      if dp.malloc t.mallocs = true then
        tapTimes dp hdr k
          { hopaCpInRing := some (ring.enqueueBurst [hdr]).1, mallocs := t.mallocs + 1 }
      else .error .undefined

theorem tapTimes_add (dp : Datapath) (hdr : HopaCpHdr) (k l : Nat) (t : Tap) :
    tapTimes dp hdr (k + l) t = tapTimes dp hdr k t >>= tapTimes dp hdr l := by
  induction k generalizing t with
  | zero =>
      rw [Nat.zero_add]
      rfl
  | succ k ih =>
      rw [Nat.succ_add, tapTimes, tapTimes]
      cases t.hopaCpInRing with
      | none => exact ih t
      | some ring =>
          by_cases hmalloc : dp.malloc t.mallocs = true
          · simp only [if_pos hmalloc]
            exact ih _
          · simp only [if_neg hmalloc]
            rfl

theorem tapBatch_eq_tapTimes (dp : Datapath) (t : Tap) {mbuf : RteMbuf} {hdr : HopaCpHdr}
    (h : IsCpFrame mbuf hdr) : tapBatch dp t [mbuf] = tapTimes dp hdr 1 t := by
  rw [tapTimes]
  cases hring : t.hopaCpInRing with
  | none =>
      rw [tapBatch, hring]
      rfl
  | some ring => exact tapBatch_singleton dp hring h

/-- The ring takes the copies that fit. -/
theorem items_tapTimes {dp : Datapath} {hdr : HopaCpHdr} {k : Nat} {t t' : Tap}
    {ring : BoundedFifo HopaCpHdr inRingCap} (hring : t.hopaCpInRing = some ring)
    (hrun : tapTimes dp hdr k t = .ok t') : ∃ ring', t'.hopaCpInRing = some ring' ∧
      ring'.items = ring.items ++ List.replicate (min k ring.free) hdr := by
  induction k generalizing t ring with
  | zero =>
      obtain rfl := Except.ok.inj hrun
      refine ⟨ring, hring, ?_⟩
      rw [Nat.zero_min, List.replicate_zero, List.append_nil]
  | succ k ih =>
      rw [tapTimes, hring] at hrun
      by_cases hmalloc : dp.malloc t.mallocs = true
      · simp only [if_pos hmalloc] at hrun
        obtain ⟨ring', hring', hitems⟩ := ih rfl hrun
        refine ⟨ring', hring', ?_⟩
        have hone : (ring.enqueueBurst [hdr]).1.items =
            ring.items ++ List.replicate (min 1 ring.free) hdr := by
          rw [BoundedFifo.items_enqueueBurst_take]
          cases ring.free with
          | zero => rfl
          | succ n =>
              rw [Nat.min_eq_left (Nat.succ_pos n), List.take_succ_cons, List.take_nil]
              rfl
        have hfree : (ring.enqueueBurst [hdr]).1.free = ring.free - min 1 ring.free := by
          have hlen := congrArg List.length hone
          rw [List.length_append, List.length_replicate] at hlen
          show inRingCap - (ring.enqueueBurst [hdr]).1.items.length =
            inRingCap - ring.items.length - min 1 ring.free
          omega
        rw [hitems, hone, List.append_assoc, List.replicate_append_replicate, hfree]
        congr 2
        omega
      · simp only [if_neg hmalloc] at hrun
        cases hrun

/-! ### What is enqueued for one packet -/

/-- The level that TUNNEL_POP and RECIRC call, with `room` levels left. -/
def nextLevel (dp : Datapath) : Nat → Option (Tap → DpPacket → Except Stop Tap)
  | 0 => none
  | room + 1 => some (dpNetdevRecirculate dp room)

/-- The actions of the flow of a packet. -/
def executeFlow (dp : Datapath) (room : Nat) (packet : DpPacket) (t : Tap) : Except Stop Tap :=
  (dp.flow packet).foldlM (executeCb dp (nextLevel dp room) packet) t

theorem dpNetdevRecirculate_eq (dp : Datapath) (room : Nat) (t : Tap) (packet : DpPacket) :
    dpNetdevRecirculate dp room t packet =
      tapBatch dp t [packet.mbuf] >>= executeFlow dp room packet := by
  cases room with
  | zero => rfl
  | succ room => rfl

theorem dpNetdevInput_eq (dp : Datapath) (t : Tap) (packet : DpPacket) :
    dpNetdevInput dp t packet = executeFlow dp maxRecircDepth packet t := rfl

/-- At the maximum depth every action is passed over. -/
theorem executeFlow_zero (dp : Datapath) (packet : DpPacket) (t : Tap) :
    executeFlow dp 0 packet t = .ok t := by
  rw [executeFlow, nextLevel]
  induction dp.flow packet with
  | nil => rfl
  | cons a acts ih =>
      cases a with
      | tunnelPop portno => exact ih
      | recirc id => exact ih
      | other => exact ih

/-- Actions that each only enqueue copies together enqueue the sum of these. -/
theorem foldlM_tapTimes {dp : Datapath} {hdr : HopaCpHdr} {f : Tap → OvsAction → Except Stop Tap}
    {n : OvsAction → Nat} (hf : ∀ t a, f t a = tapTimes dp hdr (n a) t) (acts : List OvsAction)
    (t : Tap) : acts.foldlM f t = tapTimes dp hdr (acts.map n).sum t := by
  induction acts generalizing t with
  | nil => rfl
  | cons a acts ih =>
      rw [List.foldlM_cons, List.map_cons, List.sum_cons, tapTimes_add, hf]
      exact congrArg (tapTimes dp hdr (n a) t >>= ·) (funext ih)

/-- A control packet that is no tunnel packet: `netdev_pop_header` drops it. -/
def DropsBare (dp : Datapath) : Prop :=
  ∀ portno popHeader, dp.tnlPort portno = some popHeader → ∀ mbuf hdr, IsCpFrame mbuf hdr →
    hdr.flag = HopaModule.hopaCp.code → popHeader mbuf = none

/-- How often the actions of its flow enqueue a control packet, with `room` levels
left. -/
def flowCopies (dp : Datapath) : Nat → DpPacket → Nat
  | 0, _ => 0
  | room + 1, packet =>
    ((dp.flow packet).map fun
      | .recirc recircId => 1 + flowCopies dp room { packet with recircId := recircId }
      | _ => 0).sum

theorem flowCopies_eq_zero_iff (dp : Datapath) (room : Nat) (packet : DpPacket) :
    flowCopies dp room packet = 0 ↔ room = 0 ∨ ∀ id, .recirc id ∉ dp.flow packet := by
  cases room with
  | zero => exact ⟨fun _ => Or.inl rfl, fun _ => rfl⟩
  | succ room =>
      rw [flowCopies, List.sum_eq_zero_iff_forall_eq_nat]
      constructor
      · intro h
        refine Or.inr fun id hid => ?_
        have hone := h _ (List.mem_map_of_mem hid)
        exact absurd hone (by simp)
      · intro h n hn
        obtain ⟨a, ha, rfl⟩ := List.mem_map.mp hn
        cases a with
        | recirc id =>
            rcases h with hzero | hnone
            · cases hzero
            · exact absurd ha (hnone id)
        | tunnelPop portno => rfl
        | other => rfl

section Bare

variable {dp : Datapath} {hdr : HopaCpHdr} (hbare : DropsBare dp)
  (hflag : hdr.flag = HopaModule.hopaCp.code)

include hbare hflag

/-- The recirculations of a control packet come down to taps of its header. -/
theorem executeFlow_bare (room : Nat) : ∀ (packet : DpPacket) (t : Tap),
    IsCpFrame packet.mbuf hdr →
    executeFlow dp room packet t = tapTimes dp hdr (flowCopies dp room packet) t := by
  -- induction on the levels left: a RECIRC runs the flow of the next level
  induction room with
  | zero =>
      intro packet t _
      exact executeFlow_zero dp packet t
  | succ room ih =>
      intro packet t hframe
      rw [executeFlow, nextLevel, flowCopies]
      apply foldlM_tapTimes
      intro t a
      cases a with
      | tunnelPop portno =>
          cases hport : dp.tnlPort portno with
          | none =>
              simp only [executeCb, hport]
              rfl
          | some popHeader =>
              simp only [executeCb, hport,
                hbare portno popHeader hport packet.mbuf hdr hframe hflag]
              rfl
      | recirc id =>
          show dpNetdevRecirculate dp room t { packet with recircId := id } = _
          rw [dpNetdevRecirculate_eq, tapBatch_eq_tapTimes dp t hframe, tapTimes_add]
          exact congrArg (tapTimes dp hdr 1 t >>= ·) (funext fun t => ih _ t hframe)
      | other => rfl

theorem dpNetdevRecirculate_bare {room : Nat} {packet : DpPacket} (t : Tap)
    (hframe : IsCpFrame packet.mbuf hdr) :
    dpNetdevRecirculate dp room t packet =
      tapTimes dp hdr (1 + flowCopies dp room packet) t := by
  rw [dpNetdevRecirculate_eq, tapBatch_eq_tapTimes dp t hframe, tapTimes_add]
  exact congrArg (tapTimes dp hdr 1 t >>= ·)
    (funext fun t => executeFlow_bare hbare hflag room packet t hframe)

end Bare

/-! ### A packet of the peer -/

/-- What TUNNEL_POP makes of a packet, `none` when the port or its
`netdev_pop_header` drops it. -/
def decapsulate (dp : Datapath) (portno : UInt32) (packet : DpPacket) : Option DpPacket :=
  (dp.tnlPort portno).bind fun popHeader =>
    (popHeader packet.mbuf).map fun inner => { packet with mbuf := inner, inPort := portno }

/-- The packets that TUNNEL_POP makes of an encapsulated packet while the actions of
its flow are executed, its RECIRCs followed, each with the levels left below it. -/
def decapsulated (dp : Datapath) : Nat → DpPacket → List (Nat × DpPacket)
  | 0, _ => []
  | room + 1, packet => (dp.flow packet).flatMap fun
    | .tunnelPop portno => ((decapsulate dp portno packet).map (Prod.mk room)).toList
    | .recirc recircId => decapsulated dp room { packet with recircId := recircId }
    | .other => []

/-- A frame around a control packet: the tap does not take it for one, and a tunnel
port that does not drop it gives the control packet back. -/
structure Encapsulates (dp : Datapath) (mbuf : RteMbuf) (hdr : HopaCpHdr) : Prop where
  outer : ¬ IsHopaCp mbuf
  inner : ∀ portno popHeader, dp.tnlPort portno = some popHeader → ∀ inner,
    popHeader mbuf = some inner → IsCpFrame inner hdr

theorem Encapsulates.isCpFrame {dp : Datapath} {packet inner : DpPacket} {hdr : HopaCpHdr}
    {portno : UInt32} (h : Encapsulates dp packet.mbuf hdr)
    (hpop : decapsulate dp portno packet = some inner) : IsCpFrame inner.mbuf hdr := by
  obtain ⟨popHeader, hport, hpop⟩ := Option.bind_eq_some_iff.mp hpop
  obtain ⟨mbuf, hinner, rfl⟩ := Option.map_eq_some_iff.mp hpop
  exact h.inner portno popHeader hport mbuf hinner

theorem executeCb_tunnelPop {dp : Datapath} {room : Nat} {packet : DpPacket} {portno : UInt32}
    (t : Tap) : executeCb dp (some (dpNetdevRecirculate dp room)) packet t (.tunnelPop portno) =
      match decapsulate dp portno packet with
      | none => .ok t
      | some inner => dpNetdevRecirculate dp room t inner := by
  rw [executeCb, decapsulate]
  cases dp.tnlPort portno with
  | none => rfl
  | some popHeader =>
      show (match popHeader packet.mbuf with | none => _ | some inner => _) = _
      cases hinner : popHeader packet.mbuf with
      | none => simp only [Option.bind_some, hinner, Option.map_none]
      | some inner => simp only [Option.bind_some, hinner, Option.map_some]

/-- How often the packets that an encapsulated packet is turned into are enqueued. -/
def peerCopies (dp : Datapath) (inners : List (Nat × DpPacket)) : Nat :=
  (inners.map fun p => 1 + flowCopies dp p.1 p.2).sum

theorem executeFlow_encapsulated {dp : Datapath} {hdr : HopaCpHdr} (hbare : DropsBare dp)
    (hflag : hdr.flag = HopaModule.hopaCp.code) (room : Nat) : ∀ (packet : DpPacket) (t : Tap),
      Encapsulates dp packet.mbuf hdr →
      executeFlow dp room packet t =
        tapTimes dp hdr (peerCopies dp (decapsulated dp room packet)) t := by
  induction room with
  | zero =>
      intro packet t _
      exact executeFlow_zero dp packet t
  | succ room ih =>
      intro packet t h
      rw [executeFlow, nextLevel, decapsulated, peerCopies, List.map_flatMap, List.flatMap,
        List.sum_flatten, List.map_map]
      apply foldlM_tapTimes
      intro t a
      cases a with
      | tunnelPop portno =>
          rw [executeCb_tunnelPop]
          cases hpop : decapsulate dp portno packet with
          | none => simp [hpop, tapTimes]
          | some inner =>
              simp only [dpNetdevRecirculate_bare hbare hflag t (h.isCpFrame hpop)]
              simp [hpop]
      | recirc id =>
          show dpNetdevRecirculate dp room t { packet with recircId := id } = _
          rw [dpNetdevRecirculate_eq, tapBatch_of_not_isHopaCp dp t h.outer]
          exact ih { packet with recircId := id } t h
      | other => rfl

end Repath.Ovs
