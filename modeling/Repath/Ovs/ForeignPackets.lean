import Repath.Ovs.Injection

/-!
# What a poll writes to

A poll copies the control packets over the packets that stale slots of the batch
point to.  It leaves foreign packets alone only when these slots are the control
packets' own buffers.
-/

namespace Repath.Ovs

open Exec Cells

def pf1hpf : Port := { name := "pf1hpf", up := true }

/-- One call of `netdev_dpdk_rxq_recv` on `pf1hpf`. -/
def pollCall (burst : List (Addr × RteMbuf)) (slots : List (Option Addr)) : List RxqAction :=
  [.pollStart pf1hpf, .pollEnd burst slots]

/-- The buffer came from the NIC or from the ring in this call. -/
def Obtained (burst : List (Addr × RteMbuf)) (queue : List Addr) (a : Addr) : Prop :=
  a ∈ burst.map Prod.fst ∨ a ∈ queue

/-- The call returns, changes no other buffer, and the slots of its batch are
different buffers it obtained. -/
def TouchesOwn (node : Node) (cksum : RteCksum) (s : Rxq) (queue : List Addr)
    (burst : List (Addr × RteMbuf)) (slots : List (Option Addr)) : Prop :=
  ∃ s', exec (Rxq.step node cksum) s (pollCall burst slots) = .ok s' ∧
    (∀ a, ¬ Obtained burst queue a → s'.store a = s.store a) ∧
    (batchSlots queue.length burst slots).Nodup ∧
    ∀ slot ∈ batchSlots queue.length burst slots, ∃ a, slot = some a ∧ Obtained burst queue a

section Call

variable {s : Rxq} {queue : List Addr} {burst : List (Addr × RteMbuf)}
  {slots : List (Option Addr)}

/-- The call is `rxqRecv` at the ring's occupancy. -/
theorem exec_pollCall (node : Node) (cksum : RteCksum)
    (hring : s.hopaCpOutRing.items = queue.map some) :
    exec (Rxq.step node cksum) s (pollCall burst slots) =
      rxqRecv queue.length burst slots
        { s with nbCp := some queue.length, batch := none } := by
  have hcount : s.hopaCpOutRing.count = queue.length := by
    rw [BoundedFifo.count, hring, List.length_map]
  have hstart : Rxq.step node cksum s (.pollStart pf1hpf) =
      .ok { s with nbCp := some queue.length, batch := none } := by
    rw [← hcount]
    rfl
  rw [pollCall, exec_cons_of_ok _ hstart, exec_cons]
  show (rxqRecv _ _ _ _ >>= fun s' => exec (Rxq.step node cksum) s' []) = _
  cases rxqRecv queue.length burst slots { s with nbCp := some queue.length, batch := none } <;> rfl

/-- A poll that can follow its slots returns and changes only the buffers of the
NIC's burst and those the slots point to. -/
theorem exists_rxqRecv (hring : s.hopaCpOutRing.items = queue.map some)
    (hqueue : queue.length ≤ sendSlots) (hlen : burst.length ≤ netdevMaxBurst)
    {dst : List Addr} (hslots : (slots.drop burst.length).take queue.length = dst.map some)
    (hdst : dst.length = queue.length) :
    ∃ s', rxqRecv queue.length burst slots s = .ok s' ∧
      ∀ a, a ∉ burst.map Prod.fst → a ∉ dst → s'.store a = s.store a := by
  by_cases hn : queue.length = 0
  · obtain ⟨batch, hok, -, -⟩ := exists_rxqRecv_zero slots s hlen
    rw [hn]
    exact ⟨_, hok, fun a ha _ => overlay_of_not_mem s.store ha⟩
  · obtain ⟨store, hcopy, hframe⟩ := exists_copyAll_frame queue dst
      ((slots.drop burst.length).drop queue.length) (overlay s.store burst) hdst
    rw [← hslots, List.take_append_drop] at hcopy
    have hitems : s.hopaCpOutRing.items.take queue.length = queue.map some := by
      rw [hring, ← List.map_take, List.take_length]
    have hrecv := rxqRecv_of_copyAll hn hitems rfl hqueue hlen hslots hdst hcopy
    refine ⟨_, hrecv, fun a hnic ha => ?_⟩
    show store a = s.store a
    rw [hframe a ha, overlay_of_not_mem s.store hnic]

/-- A poll of at most 32 control packets touches no foreign packet exactly when the
stale slots it copies to are different buffers of the packets it takes off the
ring. -/
theorem touchesOwn_iff (node : Node) (cksum : RteCksum)
    (hring : s.hopaCpOutRing.items = queue.map some) (hqueue : queue.length ≤ sendSlots)
    (hburst : (burst.map Prod.fst).Nodup) (hfresh : ∀ a ∈ burst.map Prod.fst, a ∉ queue)
    (hreq : burst.length ≤ (rxRequest queue.length).toNat)
    (hslots : slots.length = netdevMaxBurst) :
    TouchesOwn node cksum s queue burst slots ↔
      ((slots.drop burst.length).take queue.length).Nodup ∧
        ∀ slot ∈ (slots.drop burst.length).take queue.length, ∃ a ∈ queue, slot = some a := by
  have hrequest := rxRequest_add hqueue
  rw [TouchesOwn, exec_pollCall node cksum hring, batchSlots_eq]
  constructor
  · intro h
    obtain ⟨-, -, -, hnodup, hown⟩ := h
    obtain ⟨-, hdst, hdisj⟩ := List.nodup_append.mp hnodup
    refine ⟨hdst, fun slot hslot => ?_⟩
    obtain ⟨a, rfl, ha⟩ := hown slot (List.mem_append_right _ hslot)
    rcases ha with ha | ha
    · exact absurd rfl (hdisj _ (List.mem_map_of_mem ha) _ hslot)
    · exact ⟨a, ha, rfl⟩
  · intro h
    obtain ⟨hnodup, hown⟩ := h
    -- the slots are buffers
    have hnull : none ∉ (slots.drop burst.length).take queue.length := by
      intro hmem
      obtain ⟨a, -, ha⟩ := hown none hmem
      cases ha
    obtain ⟨dst, hdst, hdstlen⟩ := exists_of_none_not_mem hnull
    have hlen : dst.length = queue.length := by
      rw [hdstlen, List.length_take, List.length_drop]
      omega
    have hmem : ∀ a ∈ dst, a ∈ queue := by
      intro a ha
      obtain ⟨b, hb, hab⟩ := hown (some a) (hdst ▸ List.mem_map_of_mem ha)
      exact Option.some.inj hab ▸ hb
    obtain ⟨s', hok, hframe⟩ := exists_rxqRecv
      (s := { s with nbCp := some queue.length, batch := none }) hring hqueue
      (by omega) hdst hlen
    refine ⟨s', hok, fun a ha => ?_, ?_, fun slot hslot => ?_⟩
    · exact hframe a (fun hnic => ha (Or.inl hnic)) fun hd => ha (Or.inr (hmem a hd))
    · refine List.nodup_append.mpr ⟨?_, hnodup, fun x hx y hy he => ?_⟩
      · exact hburst.map (Option.some_injective _)
      · obtain ⟨a, ha, rfl⟩ := List.mem_map.mp hx
        obtain ⟨b, hb, hab⟩ := hown y hy
        exact hfresh a ha (Option.some.inj (he.trans hab) ▸ hb)
    · rcases List.mem_append.mp hslot with hslot | hslot
      · obtain ⟨a, ha, rfl⟩ := List.mem_map.mp hslot
        exact ⟨a, rfl, Or.inl ha⟩
      · obtain ⟨a, ha, rfl⟩ := hown slot hslot
        exact ⟨a, rfl, Or.inr ha⟩

end Call

/-! ### One queued packet -/

/-- The buffer at address 0 holds 74 bytes and is on the ring. -/
def oneQueued : Rxq :=
  { Rxq.start fun a => if a = 0 then { zeroBuf with dataLen := 74, pktLen := 74 } else zeroBuf with
    hopaCpOutRing := { items := [some 0], bounded := by decide } }

/-- The only slot that is written points to the queued packet. -/
def ownSlots : List (Option Addr) := some 0 :: List.replicate 31 none

theorem touchesOwn_iff_own_slot : TouchesOwn .cq default oneQueued [0] [] ownSlots := by
  have hburst : (([] : List (Addr × RteMbuf)).map Prod.fst).Nodup := List.nodup_nil
  refine (touchesOwn_iff .cq default (s := oneQueued) rfl (by decide) hburst
    (fun a ha => absurd ha List.not_mem_nil) (by decide) rfl).mpr ⟨?_, fun slot hslot => ?_⟩
  · exact List.nodup_singleton _
  · exact ⟨0, List.mem_singleton_self 0, List.mem_singleton.mp hslot⟩

/-- With the slots of another batch the packet at address 2000 is overwritten, and
the returned batch is that packet. -/
theorem foreign_packet_overwritten :
    (∃ s', exec (Rxq.step .cq default) oneQueued (pollCall [] freeSlots) = .ok s' ∧
      (oneQueued.store 2000).dataLen = 0 ∧ (s'.store 2000).dataLen = 74) ∧
    ¬ TouchesOwn .cq default oneQueued [0] [] freeSlots := by
  constructor
  · exact ⟨_, rfl, rfl, rfl⟩
  · intro h
    obtain ⟨-, -, -, -, hown⟩ := h
    obtain ⟨a, ha, hobtained⟩ := hown (some 2000) (by decide)
    obtain rfl := Option.some.inj ha
    rcases hobtained with hnic | hqueue
    · exact absurd hnic List.not_mem_nil
    · exact absurd hqueue (by decide)

end Repath.Ovs
