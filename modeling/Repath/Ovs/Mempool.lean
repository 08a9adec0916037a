import Repath.Lib.Places
import Repath.Ovs.Injection

/-!
# Where the mbufs of `hopa_cp_mp` are

`hopa_cp_send` takes a buffer from the pool for one packet after the other, keeps
the pointers in its array and enqueues the array when it is full.  A poll moves
the pointers off the ring, but the packets of the batch it returns are those that
the slots of the batch point to.  Whoever releases a packet of a batch gives it to
the pool that its `struct rte_mbuf` names, and a poll has copied that name along.
-/

namespace Repath.Ovs

open Exec Cells Places

structure CpSystem where
  rxq : Rxq
  /-- The free buffers of `hopa_cp_mp`. -/
  hopaCpMp : List Addr
  /-- `mbufs` of `hopa_cp_send`, as far as its loop has got. -/
  mbufs : List (Option Addr)
  /-- Packets of returned batches that are not released yet. -/
  inUse : List Addr

def CpSystem.start (store : Addr → RteMbuf) (mp : List Addr) : CpSystem :=
  { rxq := .start store, hopaCpMp := mp, mbufs := [], inUse := [] }

/-- The `i`th packet of a round. -/
def encodeNth (node : Node) (cksum : RteCksum) (clock : Timespec) (i : Nat) (buf : RteMbuf) :
    Option RteMbuf :=
  match node with
  | .cq => encodeProbePkt .cq cksum (some buf) clock (UInt8.ofNat i)
  | .yy => encodeRepathPkt .yy cksum (some buf) 2

/-- The encoder's stores into the buffer at `a`. -/
def writeFrame (store : Addr → RteMbuf) (a : Addr) : Option RteMbuf → Addr → RteMbuf
  | none => store
  | some frame => Function.update store a frame

def CpSystem.setStore (s : CpSystem) (store : Addr → RteMbuf) : CpSystem :=
  { s with rxq := { s.rxq with store := store } }

/-- `mbufs[i] = encode_..(i)`.  An `alloc` that is not free stands for a failed
allocation. -/
def CpSystem.encode (node : Node) (cksum : RteCksum) (alloc : Option Addr) (clock : Timespec)
    (s : CpSystem) : CpSystem :=
  match alloc.filter (· ∈ s.hopaCpMp) with
  | none => { s with mbufs := s.mbufs ++ [none] }
  | some a =>
    let frame := encodeNth node cksum clock s.mbufs.length (s.rxq.store a)
    { s.setStore (writeFrame s.rxq.store a frame) with
      hopaCpMp := s.hopaCpMp.erase a, mbufs := s.mbufs ++ [some a] }

/-- `rte_ring_mp_enqueue_burst` of the array, whose result is only logged. -/
def CpSystem.enqueue (s : CpSystem) : CpSystem :=
  let (ring, count) := s.rxq.hopaCpOutRing.enqueueBurst s.mbufs
  { s with rxq := { s.rxq with
             hopaCpOutRing := ring,
             accepted := s.rxq.accepted ++ (s.mbufs.take count).reduceOption.map s.rxq.store },
           mbufs := [] }

/-- The packets of the batch that the end of a poll returns. -/
def CpSystem.returned (s : CpSystem) (burst : List (Addr × RteMbuf))
    (slots : List (Option Addr)) : List Addr :=
  match s.rxq.nbCp with
  | none => []
  | some n => (batchSlots n burst slots).reduceOption

/-- `rte_pktmbuf_free` of a packet of a returned batch. -/
def CpSystem.release (a : Addr) (s : CpSystem) : CpSystem :=
  if a ∈ s.inUse then
    { s with inUse := s.inUse.erase a,
             hopaCpMp := if (s.rxq.store a).pool = .hopaCpMp then s.hopaCpMp ++ [a]
               else s.hopaCpMp }
  else s

inductive CpAction
  | send (alloc : Option Addr) (clock : Timespec)
  | pollStart (port : Port)
  | pollEnd (burst : List (Addr × RteMbuf)) (slots : List (Option Addr))
  | release (a : Addr)

def CpSystem.step (node : Node) (cksum : RteCksum) (s : CpSystem) :
    CpAction → Except Stop CpSystem
  | .send alloc clock =>
    if s.mbufs.length < roundLength node then .ok (s.encode node cksum alloc clock)
    else .ok s.enqueue
  | .pollStart port => do
    let rxq ← s.rxq.step node cksum (.pollStart port)
    .ok { s with rxq := rxq }
  | .pollEnd burst slots => do
    let rxq ← s.rxq.step node cksum (.pollEnd burst slots)
    .ok { s with rxq := rxq, inUse := s.inUse ++ s.returned burst slots }
  | .release a => .ok (s.release a)

/-! ### What is asked of a run -/

/-- Held by `hopa_cp_send`, on the ring, in a returned batch, or free. -/
def CpSystem.places (s : CpSystem) : List Addr :=
  s.hopaCpMp ++ s.mbufs.reduceOption ++ s.rxq.hopaCpOutRing.items.reduceOption ++ s.inUse

/-- Every buffer of `hopa_cp_mp` is in one place, and no other was given to it. -/
def CpSystem.Conserved (mp : List Addr) (s : CpSystem) : Prop :=
  ExactlyOnce mp s.places ∧ ∀ a ∈ s.hopaCpMp, a ∈ mp

/-- What DPDK promises: the NIC delivers at most what was requested, in buffers of
other pools. -/
def CpSystem.Contract (mp : List Addr) (s : CpSystem) : CpAction → Prop
  | .send _ _ => True
  | .pollStart _ => True
  | .pollEnd burst _ => (∀ p ∈ burst, p.1 ∉ mp ∧ p.2.pool ≠ .hopaCpMp) ∧
      ∀ n, s.rxq.nbCp = some n → burst.length ≤ (rxRequest n).toNat
  | .release _ => True

/-- An enqueue leaves out null pointers only, and a poll finds at most 32 pointers,
none of them null, and slots that point to these packets, in some order. -/
def CpSystem.Keeps (node : Node) (s : CpSystem) : CpAction → Prop
  | .send _ _ => s.mbufs.length < roundLength node ∨
      ∀ a, some a ∉ s.mbufs.drop s.rxq.hopaCpOutRing.free
  | .pollStart _ => True
  | .pollEnd burst slots => ∀ n, s.rxq.nbCp = some n → n ≤ sendSlots ∧
      none ∉ s.rxq.hopaCpOutRing.items.take n ∧
      ((slots.drop burst.length).take n).Perm (s.rxq.hopaCpOutRing.items.take n)
  | .release _ => True

/-! ### The invariant -/

structure CpSystem.Inv (mp : List Addr) (s : CpSystem) : Prop where
  once : ExactlyOnce mp s.places
  free : ∀ a ∈ s.hopaCpMp, a ∈ mp
  held : ∀ a, some a ∈ s.mbufs → a ∈ mp
  queued : ∀ a, some a ∈ s.rxq.hopaCpOutRing.items → a ∈ mp
  pool : ∀ a ∈ mp, (s.rxq.store a).pool = .hopaCpMp
  foreign : ∀ a ∈ s.inUse, a ∉ mp → (s.rxq.store a).pool ≠ .hopaCpMp
  counted : s.rxq.Counted

theorem cpSystemInv_start {store : Addr → RteMbuf} {mp : List Addr} (hnodup : mp.Nodup)
    (hpool : ∀ a ∈ mp, (store a).pool = .hopaCpMp) : (CpSystem.start store mp).Inv mp where
  once := by
    have hplaces : (CpSystem.start store mp).places = mp := by
      show mp ++ [] ++ [] ++ [] = mp
      rw [List.append_nil, List.append_nil, List.append_nil]
    rw [hplaces]
    exact exactlyOnce_of_nodup hnodup
  free := fun _ ha => ha
  held := fun _ ha => absurd ha List.not_mem_nil
  queued := fun _ ha => absurd ha List.not_mem_nil
  pool := hpool
  foreign := fun _ ha => absurd ha List.not_mem_nil
  counted := counted_none rfl

theorem pool_encodeNth {node : Node} {cksum : RteCksum} {clock : Timespec} {i : Nat}
    {buf frame : RteMbuf} (hok : encodeNth node cksum clock i buf = some frame) :
    frame.pool = buf.pool := by
  cases node with
  | cq => exact (Option.some.inj hok) ▸ rfl
  | yy => exact (Option.some.inj hok) ▸ rfl

theorem pool_writeFrame {node : Node} {cksum : RteCksum} {clock : Timespec} {i : Nat}
    {store : Addr → RteMbuf} (a x : Addr) :
    (writeFrame store a (encodeNth node cksum clock i (store a)) x).pool = (store x).pool := by
  cases hframe : encodeNth node cksum clock i (store a) with
  | none => rfl
  | some frame =>
      show (Function.update store a frame x).pool = _
      by_cases hx : x = a
      · rw [hx, Function.update_self]
        exact pool_encodeNth hframe
      · rw [Function.update_of_ne hx]

/-- What an enqueue leaves out is in no place any more. -/
theorem places_enqueue (s : CpSystem) : (s.enqueue.places ++
    (s.mbufs.drop s.rxq.hopaCpOutRing.free).reduceOption).Perm s.places := by
  apply List.perm_iff_count.mpr
  intro a
  have hqueue := congrArg (fun ps : List (Option Addr) => ps.reduceOption.count a)
    (s.rxq.hopaCpOutRing.items_enqueueBurst_append s.mbufs)
  simp only [CpSystem.places, CpSystem.enqueue, List.reduceOption_append, List.reduceOption_nil,
    List.count_append, List.count_nil] at hqueue ⊢
  omega

section Steps

variable {mp : List Addr} {s : CpSystem} (h : s.Inv mp)

include h

theorem cpSystemInv_encode (node : Node) (cksum : RteCksum) (alloc : Option Addr)
    (clock : Timespec) : (s.encode node cksum alloc clock).Inv mp := by
  rw [CpSystem.encode]
  cases halloc : alloc.filter (· ∈ s.hopaCpMp) with
  | none =>
      have hplaces : ({ s with mbufs := s.mbufs ++ [none] } : CpSystem).places = s.places := by
        simp only [CpSystem.places, List.reduceOption_append, List.reduceOption_singleton,
          Option.toList_none, List.append_nil]
      exact { h with
        once := by
          rw [hplaces]
          exact h.once
        held := fun a ha => h.held a (by simpa using ha) }
  | some a =>
      have hfree : a ∈ s.hopaCpMp := by
        obtain ⟨-, hmem⟩ := Option.filter_eq_some_iff.mp halloc
        simpa using hmem
      let store := writeFrame s.rxq.store a
        (encodeNth node cksum clock s.mbufs.length (s.rxq.store a))
      have hstore : ∀ x, (store x).pool = (s.rxq.store x).pool := pool_writeFrame a
      let t : CpSystem :=
        { s.setStore store with
          hopaCpMp := s.hopaCpMp.erase a
          mbufs := s.mbufs ++ [some a] }
      have hmove : t.places.Perm s.places := by
        apply List.perm_iff_count.mpr
        intro x
        have hcount := count_erase_add hfree x
        simp only [t, CpSystem.places, CpSystem.setStore, List.reduceOption_append,
          List.reduceOption_singleton, Option.toList_some, List.count_append]
        omega
      exact {
        once := h.once.of_perm hmove
        free := fun x hx => h.free x (List.mem_of_mem_erase hx)
        held := by
          intro x hx
          rcases List.mem_append.mp hx with hx | hx
          · exact h.held x hx
          · obtain rfl := Option.some.inj (List.mem_singleton.mp hx)
            exact h.free x hfree
        queued := h.queued
        pool := fun x hx => (hstore x).trans (h.pool x hx)
        foreign := by
          intro x hx hmp
          show (store x).pool ≠ _
          rw [hstore x]
          exact h.foreign x hx hmp
        counted := h.counted }

theorem exactlyOnce_enqueue : ExactlyOnce mp s.enqueue.places ↔
    ∀ a, some a ∉ s.mbufs.drop s.rxq.hopaCpOutRing.free := by
  rw [exactlyOnce_iff_of_lost h.once (places_enqueue s)]
  · rw [List.eq_nil_iff_forall_not_mem]
    exact forall_congr' fun a => not_congr List.reduceOption_mem_iff
  · intro a ha
    exact h.held a (List.mem_of_mem_drop (List.reduceOption_mem_iff.mp ha))

theorem cpSystemInv_enqueue
    (hfits : ∀ a, some a ∉ s.mbufs.drop s.rxq.hopaCpOutRing.free) : s.enqueue.Inv mp where
  once := (exactlyOnce_enqueue h).mpr hfits
  free := h.free
  held := fun _ ha => absurd ha List.not_mem_nil
  queued := by
    intro a ha
    have hitems : s.enqueue.rxq.hopaCpOutRing.items = _ :=
      BoundedFifo.items_enqueueBurst_take s.rxq.hopaCpOutRing s.mbufs
    rw [hitems] at ha
    rcases List.mem_append.mp ha with ha | ha
    · exact h.queued a ha
    · exact h.held a (List.mem_of_mem_take ha)
  pool := h.pool
  foreign := h.foreign
  counted := counted_enqueue h.counted s.mbufs rfl rfl

theorem cpSystemInv_release (a : Addr) : (s.release a).Inv mp := by
  rw [CpSystem.release]
  by_cases hmem : a ∈ s.inUse
  · rw [if_pos hmem]
    have herase := count_erase_add hmem
    by_cases hpool : (s.rxq.store a).pool = .hopaCpMp
    · -- the packet is one of the pool's own buffers
      have hmp : a ∈ mp := by
        by_contra hmp
        exact h.foreign a hmem hmp hpool
      rw [if_pos hpool]
      exact { h with
        once := by
          apply h.once.of_perm
          apply List.perm_iff_count.mpr
          intro x
          have hcount := herase x
          simp only [CpSystem.places, List.count_append]
          omega
        free := by
          intro x hx
          rcases List.mem_append.mp hx with hx | hx
          · exact h.free x hx
          · exact (List.mem_singleton.mp hx) ▸ hmp
        foreign := fun x hx => h.foreign x (List.mem_of_mem_erase hx) }
    · have hmp : a ∉ mp := fun hmp => hpool (h.pool a hmp)
      rw [if_neg hpool]
      exact { h with
        once := by
          intro x hx
          have hother : [a].count x = 0 := by
            apply List.count_eq_zero.mpr
            intro hmem
            exact hmp (List.mem_singleton.mp hmem ▸ hx)
          have hcount := herase x
          have hold := h.once x hx
          simp only [CpSystem.places, List.count_append] at hold ⊢
          omega
        foreign := fun x hx => h.foreign x (List.mem_of_mem_erase hx) }
  · rw [if_neg hmem]
    exact h

end Steps

/-! ### Polling -/

section Poll

variable {mp : List Addr} {s : CpSystem} {burst : List (Addr × RteMbuf)}
  {slots : List (Option Addr)} {n : Nat}

theorem pollEnd_eq {node : Node} {cksum : RteCksum} (hn : s.rxq.nbCp = some n) :
    s.step node cksum (.pollEnd burst slots) = (rxqRecv n burst slots s.rxq >>= fun rxq =>
      .ok { s with rxq := rxq, inUse := s.inUse ++ (batchSlots n burst slots).reduceOption }) := by
  rw [CpSystem.step, Rxq.step, hn, CpSystem.returned, hn]

theorem returned_eq {dst : List Addr}
    (hslots : (slots.drop burst.length).take n = dst.map some) :
    (batchSlots n burst slots).reduceOption = burst.map Prod.fst ++ dst := by
  rw [batchSlots_eq, hslots, ← List.map_append, reduceOption_map_some]

section Dequeued

variable {rxq : Rxq} {src dst : List Addr}
  (hitems : s.rxq.hopaCpOutRing.items.take n = src.map some)
  (hring : rxq.hopaCpOutRing = (s.rxq.hopaCpOutRing.dequeueBurst n).2)

include hitems

theorem src_subset (h : s.Inv mp) : ∀ a ∈ src, a ∈ mp := by
  intro a ha
  apply h.queued a
  apply List.mem_of_mem_take (i := n)
  rw [hitems]
  exact List.mem_map_of_mem ha

include hring

/-- A poll takes the packets `src` off the ring and puts those of the NIC and `dst`
into use. -/
theorem places_poll : (CpSystem.places
      { s with rxq := rxq, inUse := s.inUse ++ (burst.map Prod.fst ++ dst) } ++ src).Perm
    (s.places ++ (burst.map Prod.fst ++ dst)) := by
  have hqueue : s.rxq.hopaCpOutRing.items.reduceOption =
      src ++ (s.rxq.hopaCpOutRing.items.drop n).reduceOption := by
    calc s.rxq.hopaCpOutRing.items.reduceOption
      _ = (s.rxq.hopaCpOutRing.items.take n ++ s.rxq.hopaCpOutRing.items.drop n).reduceOption := by
          exact congrArg List.reduceOption (s.rxq.hopaCpOutRing.dequeueBurst_append n).symm
      _ = src ++ (s.rxq.hopaCpOutRing.items.drop n).reduceOption := by
          rw [List.reduceOption_append, hitems, reduceOption_map_some]
  apply List.perm_iff_count.mpr
  intro a
  rw [CpSystem.places, CpSystem.places, hqueue]
  simp only [hring, BoundedFifo.items_dequeueBurst, List.count_append]
  omega

/-- After a poll the buffers are conserved exactly when the slots pointed to the
packets dequeued. -/
theorem exactlyOnce_poll (h : s.Inv mp) (hnic : ∀ p ∈ burst, p.1 ∉ mp ∧ p.2.pool ≠ .hopaCpMp)
    (hlen : dst.length = src.length) :
    ExactlyOnce mp (CpSystem.places
      { s with rxq := rxq, inUse := s.inUse ++ (burst.map Prod.fst ++ dst) }) ↔
      dst.Perm src := by
  have hburst : ∀ a ∈ mp, (burst.map Prod.fst).count a = 0 := by
    intro a ha
    apply List.count_eq_zero.mpr
    intro hmem
    obtain ⟨p, hp, rfl⟩ := List.mem_map.mp hmem
    exact (hnic p hp).1 ha
  rw [exactlyOnce_iff_of_moved h.once (places_poll hitems hring)]
  constructor
  · intro hcount
    apply List.Perm.symm
    apply perm_of_count_eq (src_subset hitems h) (Nat.le_of_eq hlen)
    intro a ha
    rw [hcount a ha, List.count_append, hburst a ha, Nat.zero_add]
  · intro hperm a ha
    rw [List.count_append, hburst a ha, Nat.zero_add, hperm.count_eq]

theorem cpSystemInv_poll (h : s.Inv mp)
    (hnic : ∀ p ∈ burst, p.1 ∉ mp ∧ p.2.pool ≠ .hopaCpMp) (hperm : dst.Perm src)
    {target : List (Option Addr)}
    (hcopy : copyAll target (src.map some) (overlay s.rxq.store burst) = some rxq.store)
    (hframe : ∀ a, a ∉ dst → rxq.store a = overlay s.rxq.store burst a)
    (hnbCp : rxq.nbCp = none) :
    CpSystem.Inv mp
      { s with rxq := rxq, inUse := s.inUse ++ (burst.map Prod.fst ++ dst) } where
  once := (exactlyOnce_poll hitems hring h hnic hperm.length_eq).mpr hperm
  free := h.free
  held := h.held
  queued := by
    intro a ha
    have hmem : some a ∈ s.rxq.hopaCpOutRing.items.drop n := by
      rw [← BoundedFifo.items_dequeueBurst, ← hring]
      exact ha
    exact h.queued a (List.mem_of_mem_drop hmem)
  pool := by
    have hkept : ∀ a ∈ {a | a ∈ mp}, (overlay s.rxq.store burst a).pool = .hopaCpMp := by
      intro a ha
      have hout : a ∉ burst.map Prod.fst := by
        intro hmem
        obtain ⟨p, hp, rfl⟩ := List.mem_map.mp hmem
        exact (hnic p hp).1 ha
      rw [overlay_of_not_mem s.rxq.store hout]
      exact h.pool a ha
    exact copyAll_invariant (p := fun m => m.pool = .hopaCpMp) (S := {a | a ∈ mp}) hcopy
      (src_subset hitems h) hkept
  foreign := by
    intro a ha hmp
    have hdst : a ∉ dst := fun hd => hmp (src_subset hitems h a (hperm.mem_iff.mp hd))
    rw [hframe a hdst]
    by_cases hburst : a ∈ burst.map Prod.fst
    · obtain ⟨p, hp, hcell⟩ := overlay_of_mem s.rxq.store hburst
      rw [hcell]
      exact (hnic p hp).2
    · rw [overlay_of_not_mem s.rxq.store hburst]
      rcases List.mem_append.mp ha with ha | ha
      · exact h.foreign a ha hmp
      · rcases List.mem_append.mp ha with ha | ha
        · exact absurd ha hburst
        · exact absurd ha hdst
  counted := counted_none hnbCp

end Dequeued

/-- A poll whose slots point to the packets it dequeues returns. -/
theorem exists_poll (h : s.Inv mp)
    (hnic : ∀ p ∈ burst, p.1 ∉ mp ∧ p.2.pool ≠ .hopaCpMp)
    (hreq : burst.length ≤ (rxRequest n).toNat) (hn : s.rxq.nbCp = some n)
    (hsend : n ≤ sendSlots) (hnull : none ∉ s.rxq.hopaCpOutRing.items.take n)
    (hperm : ((slots.drop burst.length).take n).Perm (s.rxq.hopaCpOutRing.items.take n)) :
    ∃ rxq, rxqRecv n burst slots s.rxq = .ok rxq ∧ CpSystem.Inv mp
      { s with rxq := rxq, inUse := s.inUse ++ (batchSlots n burst slots).reduceOption } := by
  have hlen : burst.length + n ≤ netdevMaxBurst := by
    have hrequest := rxRequest_add hsend
    omega
  have hcount := h.counted n hn
  -- the packets dequeued, and the packets the slots point to
  obtain ⟨src, hsrc, hsrclen⟩ := exists_of_none_not_mem hnull
  obtain ⟨dst, hdst, hdstlen⟩ := exists_of_none_not_mem fun hmem => hnull (hperm.mem_iff.mp hmem)
  have hmoved : dst.Perm src := by
    rw [hdst, hsrc] at hperm
    have hreduced : (dst.map some).reduceOption.Perm (src.map some).reduceOption :=
      hperm.filterMap id
    rwa [reduceOption_map_some, reduceOption_map_some] at hreduced
  rw [returned_eq hdst]
  by_cases h0 : n = 0
  · subst h0
    have hburst : burst.length ≤ netdevMaxBurst := by omega
    obtain ⟨batch, hok, -, -⟩ := exists_rxqRecv_zero slots s.rxq hburst
    have hnil : src = [] := List.map_eq_nil_iff.mp (hsrc.symm.trans List.take_zero)
    subst hnil
    have hring : s.rxq.hopaCpOutRing = (s.rxq.hopaCpOutRing.dequeueBurst 0).2 :=
      BoundedFifo.ext List.drop_zero.symm
    have hcopy : copyAll [] (([] : List Addr).map some) (overlay s.rxq.store burst) =
      some (overlay s.rxq.store burst) := rfl
    exact ⟨_, hok, cpSystemInv_poll hsrc hring h hnic hmoved hcopy (fun _ _ => rfl) rfl⟩
  · have hlength : (s.rxq.hopaCpOutRing.items.take n).length = n :=
      BoundedFifo.length_dequeueBurst hcount
    obtain ⟨store, hcopy, hframe⟩ := exists_copyAll_frame src dst
      ((slots.drop burst.length).drop n) (overlay s.rxq.store burst) hmoved.length_eq
    rw [← hdst, List.take_append_drop] at hcopy
    have hok := rxqRecv_of_copyAll h0 hsrc (hsrclen.trans hlength) hsend (by omega) hdst
      (hmoved.length_eq.trans (hsrclen.trans hlength)) hcopy
    exact ⟨_, hok, cpSystemInv_poll hsrc rfl h hnic hmoved hcopy hframe rfl⟩

end Poll

/-! ### Runs -/

section Run

variable {node : Node} {cksum : RteCksum} {mp : List Addr} {s : CpSystem} {a : CpAction}

theorem cpSystemInv_step (h : s.Inv mp) (hc : s.Contract mp a) (hk : s.Keeps node a) :
    ∃ s', s.step node cksum a = .ok s' ∧ s'.Inv mp := by
  cases a with
  | send alloc clock =>
      rw [CpSystem.step]
      by_cases hroom : s.mbufs.length < roundLength node
      · rw [if_pos hroom]
        exact ⟨_, rfl, cpSystemInv_encode h node cksum alloc clock⟩
      · rw [if_neg hroom]
        rcases hk with hk | hk
        · exact absurd hk hroom
        · exact ⟨_, rfl, cpSystemInv_enqueue h hk⟩
  | pollStart port =>
      rw [CpSystem.step, Rxq.step]
      split
      · exact ⟨_, rfl, { h with counted := counted_pollStart port s.rxq none }⟩
      · exact ⟨_, rfl, { h with counted := counted_none rfl }⟩
  | pollEnd burst slots =>
      obtain ⟨hnic, hreq⟩ := hc
      cases hn : s.rxq.nbCp with
      | none =>
          have hidle : s.step node cksum (.pollEnd burst slots) = .ok s := by
            rw [CpSystem.step, Rxq.step, hn, CpSystem.returned, hn]
            show Except.ok { s with inUse := s.inUse ++ [] } = _
            rw [List.append_nil]
          exact ⟨s, hidle, h⟩
      | some n =>
          obtain ⟨hsend, hnull, hperm⟩ := hk n hn
          obtain ⟨rxq, hok, hInv⟩ := exists_poll h hnic (hreq n hn) hn hsend hnull hperm
          rw [pollEnd_eq hn, hok]
          exact ⟨_, rfl, hInv⟩
  | release x => exact ⟨_, rfl, cpSystemInv_release h x⟩

theorem keeps_of_step {s' : CpSystem} (h : s.Inv mp) (hc : s.Contract mp a)
    (hok : s.step node cksum a = .ok s') (hs' : s'.Conserved mp) : s.Keeps node a := by
  cases a with
  | send alloc clock =>
      by_cases hroom : s.mbufs.length < roundLength node
      · exact Or.inl hroom
      · rw [CpSystem.step, if_neg hroom] at hok
        obtain rfl := Except.ok.inj hok
        exact Or.inr ((exactlyOnce_enqueue h).mp hs'.1)
  | pollStart port => trivial
  | pollEnd burst slots =>
      intro n hn
      rw [pollEnd_eq hn] at hok
      obtain ⟨rxq, hrecv, hok⟩ := bind_eq_ok_iff.mp hok
      obtain rfl := Except.ok.inj hok
      by_cases h0 : n = 0
      · subst h0
        refine ⟨Nat.zero_le _, List.not_mem_nil, ?_⟩
        rw [List.take_zero, List.take_zero]
      · obtain ⟨hsend, src, dst, store, hsrc, hsrclen, hdst, hdstlen, -, rfl⟩ :=
          rxqRecv_ok h0 (h.counted n hn) hrecv
        have honce := hs'.1
        rw [returned_eq hdst] at honce
        have hmoved := (exactlyOnce_poll hsrc rfl h hc.1 (hdstlen.trans hsrclen.symm)).mp honce
        rw [hsrc, hdst]
        refine ⟨hsend, fun hnull => ?_, hmoved.map some⟩
        obtain ⟨x, -, hx⟩ := List.mem_map.mp hnull
        cases hx
  | release x => trivial

/-- In a run no control buffer is lost and none of another pool is given to
`hopa_cp_mp` exactly when every enqueue fits, but for null pointers, and every poll
finds at most 32 packets and slots that point to just these packets. -/
theorem conserved_iff_keeps (store : Addr → RteMbuf) (hnodup : mp.Nodup)
    (hpool : ∀ a ∈ mp, (store a).pool = .hopaCpMp) (acts : List CpAction)
    (henv : Guarded (CpSystem.step node cksum) (CpSystem.Contract mp) (.start store mp) acts) :
    Safe (CpSystem.step node cksum) (CpSystem.Conserved mp) (fun _ _ _ => True)
        (.start store mp) acts ↔
      Guarded (CpSystem.step node cksum) (CpSystem.Keeps node) (.start store mp) acts := by
  refine safe_iff_guarded (I := CpSystem.Inv mp) (fun s h => ⟨h.once, h.free⟩)
    (fun s a h hc hk => ?_) (fun s a s' h hc hok hs' => keeps_of_step h hc hok hs') acts _
    (cpSystemInv_start hnodup hpool) henv
  obtain ⟨s', hok, hInv⟩ := cpSystemInv_step h hc hk
  exact ⟨s', hok, hInv, trivial⟩

end Run

/-! ### One REPATH of `yy` -/

/-- Buffer 0 is the only one of `hopa_cp_mp`. -/
def onePool (a : Addr) : RteMbuf :=
  { zeroBuf with pool := if a = 0 then .hopaCpMp else .dpdkMp 1 }

/-- A round of `yy`, and a poll of the packet with the slots given. -/
def repathRun (slots : List (Option Addr)) : List CpAction :=
  [.send (some 0) ⟨0, 0⟩, .send none ⟨0, 0⟩, .pollStart ⟨"pf1hpf", true⟩, .pollEnd [] slots]

theorem contract_repathRun (slots : List (Option Addr)) :
    Guarded (CpSystem.step .yy default) (CpSystem.Contract [0]) (.start onePool [0])
      (repathRun slots) := by
  refine ⟨trivial, fun _ _ => ⟨trivial, fun _ _ => ⟨trivial, fun _ _ => ⟨⟨?_, ?_⟩,
    fun _ _ => trivial⟩⟩⟩⟩
  · exact fun p hp => absurd hp List.not_mem_nil
  · exact fun n _ => Nat.zero_le _

theorem conserved_iff_keeps_own_slot :
    Safe (CpSystem.step .yy default) (CpSystem.Conserved [0]) (fun _ _ _ => True)
      (.start onePool [0]) (repathRun (some 0 :: List.replicate 31 none)) := by
  have hpool : ∀ a ∈ [0], (onePool a).pool = .hopaCpMp := by
    intro a ha
    obtain rfl := List.mem_singleton.mp ha
    rfl
  refine (conserved_iff_keeps onePool (List.nodup_singleton 0) hpool _
    (contract_repathRun _)).mpr ⟨Or.inl (by decide), fun s₁ h₁ => ?_⟩
  obtain rfl := Except.ok.inj h₁
  refine ⟨Or.inr fun a ha => ?_, fun s₂ h₂ => ⟨trivial, fun s₃ h₃ => ?_⟩⟩
  · exact absurd ha List.not_mem_nil
  · obtain rfl := Except.ok.inj h₂
    obtain rfl := Except.ok.inj h₃
    refine ⟨fun n hn => ?_, fun _ _ => trivial⟩
    obtain rfl : 1 = n := Option.some.inj hn
    exact ⟨by decide, by decide, List.Perm.refl _⟩

/-- With the slots of another batch buffer 0 is in no place after the poll, and the
packet it was copied over is given to `hopa_cp_mp` when it is released. -/
theorem control_mbuf_lost :
    Guarded (CpSystem.step .yy default) (CpSystem.Contract [0]) (.start onePool [0])
      (repathRun freeSlots) ∧
    (∃ s, exec (CpSystem.step .yy default) (.start onePool [0]) (repathRun freeSlots) = .ok s ∧
      0 ∉ s.places ∧ (s.release 2000).hopaCpMp = [2000]) ∧
    ¬ Safe (CpSystem.step .yy default) (CpSystem.Conserved [0]) (fun _ _ _ => True)
      (.start onePool [0]) (repathRun freeSlots) := by
  have hrun : ∃ s, exec (CpSystem.step .yy default) (.start onePool [0]) (repathRun freeSlots) =
      .ok s ∧ s.places = [2000] ∧ (s.release 2000).hopaCpMp = [2000] := ⟨_, rfl, rfl, rfl⟩
  obtain ⟨s, hrun, hplaces, hpool⟩ := hrun
  refine ⟨contract_repathRun _, ⟨s, hrun, ?_, hpool⟩, fun hsafe => ?_⟩
  · rw [hplaces]
    decide
  · rw [← List.append_nil (repathRun freeSlots)] at hsafe
    have hconserved : s.Conserved [0] := (hsafe.rest hrun).here
    have honce := hconserved.1 0 (List.mem_singleton_self 0)
    rw [hplaces] at honce
    exact absurd honce (by decide)

end Repath.Ovs
