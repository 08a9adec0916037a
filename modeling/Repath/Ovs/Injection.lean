import Repath.Ovs.RxqRecv

/-!
# Injected packets arrive once and in order

`Rxq.Inv` relates the ring to the packets accepted and delivered so far.  A round
of `hopa_cp_send` keeps it, and so does a poll that fits, which then returns the
packets of the NIC followed by the oldest control packets.
-/

namespace Repath.Ovs

open Exec Cells

/-- The ring holds different packets, whose cells are the accepted packets still to
be delivered. -/
structure Rxq.Inv (s : Rxq) : Prop where
  nodup : s.queue.Nodup
  accepted : s.Accounted
  nbCp : ∀ n, s.nbCp = some n → n ≤ s.hopaCpOutRing.count

theorem rxqInv_start (store : Addr → RteMbuf) : (Rxq.start store).Inv where
  nodup := List.nodup_nil
  accepted := rfl
  nbCp n hn := by cases hn

theorem readNbCp_le (port : Port) (ring : BoundedFifo (Option Addr) outRingCap) :
    readNbCp port ring ≤ ring.count := by
  rw [readNbCp]
  split
  · exact Nat.le_refl _
  · exact Nat.zero_le _

theorem rxRequest_add {n : Nat} (h : n ≤ sendSlots) :
    (rxRequest n).toNat + n = netdevMaxBurst := by
  have hle : n ≤ 32 := h
  rw [rxRequest]
  split
  · rename_i h0
    rw [h0]
    rfl
  · show (UInt16.ofInt ((32 : Nat) - (n : Int))).toNat + n = 32
    rw [UInt16.ofInt, UInt16.toNat_ofNat']
    omega

/-! ### The occupancy that a poll has read -/

/-- It is still there: only the poll takes pointers off the ring. -/
def Rxq.Counted (s : Rxq) : Prop := ∀ n, s.nbCp = some n → n ≤ s.hopaCpOutRing.count

theorem counted_enqueue {s s' : Rxq} (h : s.Counted) (mbufs : List (Option Addr))
    (hnbCp : s'.nbCp = s.nbCp)
    (hring : s'.hopaCpOutRing = (s.hopaCpOutRing.enqueueBurst mbufs).1) : s'.Counted := by
  intro n hn
  rw [hnbCp] at hn
  have hle : n ≤ s.hopaCpOutRing.items.length := h n hn
  show n ≤ s'.hopaCpOutRing.items.length
  rw [hring, BoundedFifo.items_enqueueBurst, List.length_append]
  exact Nat.le_add_right_of_le hle

theorem counted_pollStart (port : Port) (s : Rxq) (batch : Option (List RteMbuf)) :
    Rxq.Counted { s with nbCp := some (readNbCp port s.hopaCpOutRing), batch := batch } := by
  intro n hn
  obtain rfl := Option.some.inj hn
  exact readNbCp_le port _

/-- No occupancy has been read. -/
theorem counted_none {s : Rxq} (h : s.nbCp = none) : s.Counted := by
  intro n hn
  rw [h] at hn
  cases hn

/-! ### Enqueueing -/

/-- The encoders write a frame into every buffer the round got. -/
theorem exists_hopaCpSend_eq (node : Node) (cksum : RteCksum) (alloc : Nat → Option RteMbuf)
    (clock : Nat → Timespec) : ∃ frame : Nat → RteMbuf → RteMbuf,
      hopaCpSend node cksum alloc clock =
        (List.range (roundLength node)).map fun i => (alloc i).map (frame i) := by
  cases node with
  | cq =>
      exact ⟨fun i buf => encodeCpPkt .cq cksum buf (UInt8.ofNat i)
        (probeHdr (UInt8.ofNat i) (clock i).ns), rfl⟩
  | yy => exact ⟨fun _ buf => encodeCpPkt .yy cksum buf 2 (repathHdr 2), rfl⟩

/-- A round writes a frame into each buffer it got, in buffers of its own, and
enqueues the pointers that fit, the null ones included. -/
theorem exists_sendRound_eq {node : Node} (cksum : RteCksum) {alloc : Nat → Option Addr}
    (clock : Nat → Timespec) (s : Rxq)
    (hnodup : ((List.range (roundLength node)).map alloc).reduceOption.Nodup) :
    ∃ store : Addr → RteMbuf,
      (∀ a, a ∉ ((List.range (roundLength node)).map alloc).reduceOption → store a = s.store a) ∧
      sendRound node cksum alloc clock s =
        { s with store := store,
                 hopaCpOutRing := (s.hopaCpOutRing.enqueueBurst
                   ((List.range (roundLength node)).map alloc)).1,
                 accepted := s.accepted ++ (((List.range (roundLength node)).map alloc).take
                   (s.hopaCpOutRing.enqueueBurst
                     ((List.range (roundLength node)).map alloc)).2).reduceOption.map store } := by
  obtain ⟨frame, hframes⟩ :=
    exists_hopaCpSend_eq node cksum (fun i => (alloc i).map s.store) clock
  generalize hmbufs : (List.range (roundLength node)).map alloc = mbufs at hnodup ⊢
  generalize hfs : hopaCpSend node cksum (fun i => (alloc i).map s.store) clock = frames
    at hframes
  have hsome : mbufs.map Option.isSome = frames.map Option.isSome := by
    rw [← hmbufs, hframes, List.map_map, List.map_map]
    apply List.map_congr_left
    intro i _
    show (alloc i).isSome = (((alloc i).map s.store).map (frame i)).isSome
    rw [Option.isSome_map, Option.isSome_map]
  -- the cells written, and what the store then holds
  let store := overlay s.store (mbufs.reduceOption.zip frames.reduceOption)
  have hwritten : mbufs.map (Option.map store) = frames :=
    map_overlay_reduceOption s.store hsome hnodup
  refine ⟨store, ?_, ?_⟩
  · intro a ha
    apply overlay_of_not_mem
    rwa [List.map_fst_zip (Nat.le_of_eq (length_reduceOption hsome))]
  · rw [sendRound, hmbufs, hfs, ← List.reduceOption_map, List.map_take, hwritten]

theorem queue_sendRound (node : Node) (cksum : RteCksum) (alloc : Nat → Option Addr)
    (clock : Nat → Timespec) (s : Rxq) :
    (sendRound node cksum alloc clock s).queue =
      s.queue ++ (((List.range (roundLength node)).map alloc).take
        (s.hopaCpOutRing.enqueueBurst
          ((List.range (roundLength node)).map alloc)).2).reduceOption := by
  rw [Rxq.queue, Rxq.queue, ← List.reduceOption_append]
  rfl

theorem rxqInv_sendRound {node : Node} {cksum : RteCksum} {alloc : Nat → Option Addr}
    {clock : Nat → Timespec} {s : Rxq} (h : s.Inv) (hc : Contract node s (.send alloc clock)) :
    (sendRound node cksum alloc clock s).Inv := by
  obtain ⟨hnodup, hfresh⟩ := hc
  obtain ⟨store, hframe, hsend⟩ := exists_sendRound_eq cksum clock s hnodup
  have hqueue := queue_sendRound node cksum alloc clock s
  generalize (List.range (roundLength node)).map alloc = mbufs at hnodup hfresh hframe hsend hqueue
  generalize hcount : (s.hopaCpOutRing.enqueueBurst mbufs).2 = count at hsend hqueue
  have hsub : (mbufs.take count).reduceOption.Sublist mbufs.reduceOption :=
    (List.take_sublist count mbufs).filterMap id
  have hold : s.queue.map store = s.queue.map s.store :=
    List.map_congr_left fun a ha => hframe a fun hm => hfresh a hm ha
  constructor
  · rw [hqueue]
    apply List.Nodup.append h.nodup (hnodup.sublist hsub)
    intro a hq hm
    exact hfresh a (hsub.subset hm) hq
  · rw [Rxq.Accounted, hqueue, hsend, List.map_append]
    show s.accepted ++ _ = s.delivered ++ (s.queue.map store ++ _)
    rw [h.accepted, hold, List.append_assoc]
  · exact counted_enqueue h.nbCp _ rfl rfl

/-! ### Polling -/

theorem take_packets (burst : List (Addr × RteMbuf)) (dst : List Addr)
    (rest : List (Option Addr)) :
    ((burst.map (fun p => some p.1) ++ (dst.map some ++ rest)).take
      (burst.length + dst.length)).reduceOption = burst.map Prod.fst ++ dst := by
  have hsplit : burst.map (fun p => some p.1) ++ dst.map some =
      (burst.map Prod.fst ++ dst).map some := by
    rw [List.map_append, List.map_map]
    rfl
  have hlen : ((burst.map Prod.fst ++ dst).map some).length = burst.length + dst.length := by
    rw [List.length_map, List.length_append, List.length_map]
  rw [← List.append_assoc, hsplit, List.take_left' hlen, reduceOption_map_some]

/-- The pointers a poll dequeues, when none of them is null. -/
theorem exists_dequeued {s : Rxq} {n : Nat} (hn : n ≤ s.hopaCpOutRing.count)
    (hnull : none ∉ s.hopaCpOutRing.items.take n) :
    ∃ src : List Addr, s.hopaCpOutRing.items.take n = src.map some ∧ src.length = n := by
  obtain ⟨src, hsrc, hlen⟩ := exists_of_none_not_mem hnull
  exact ⟨src, hsrc, hlen.trans (BoundedFifo.length_dequeueBurst hn)⟩

theorem queue_split {s : Rxq} {n : Nat} {src : List Addr}
    (h : s.hopaCpOutRing.items.take n = src.map some) :
    s.queue = src ++ (s.hopaCpOutRing.items.drop n).reduceOption := by
  rw [Rxq.queue, ← List.take_append_drop n s.hopaCpOutRing.items, List.reduceOption_append, h,
    reduceOption_map_some, ← h, List.take_append_drop]

theorem batchSlots_eq (n : Nat) (burst : List (Addr × RteMbuf)) (slots : List (Option Addr)) :
    batchSlots n burst slots =
      (burst.map Prod.fst).map some ++ (slots.drop burst.length).take n := by
  have hlen : burst.length = (burst.map fun p => some p.1).length := (List.length_map _).symm
  rw [batchSlots, hlen, List.take_length_add_append, List.map_map]
  rfl

theorem burst_of_rxqRecv {n : Nat} {burst : List (Addr × RteMbuf)} {slots : List (Option Addr)}
    {s s' : Rxq} (h : rxqRecv n burst slots s = .ok s') : burst.length ≤ netdevMaxBurst := by
  by_contra hlen
  rw [rxqRecv, if_pos (Nat.lt_of_not_le hlen)] at h
  cases h

/-- A poll that finds no control packet stores what the NIC delivers, and returns no
batch where that is nothing. -/
theorem exists_rxqRecv_zero {burst : List (Addr × RteMbuf)} (slots : List (Option Addr)) (s : Rxq)
    (hlen : burst.length ≤ netdevMaxBurst) : ∃ batch : Option (List RteMbuf),
      rxqRecv 0 burst slots s =
        .ok { s with store := overlay s.store burst, nbCp := none, batch := batch } ∧
      (batch = none → burst = []) ∧
      ∀ mbufs, batch = some mbufs → mbufs = (burst.map Prod.fst).map (overlay s.store burst) := by
  have htake := take_packets burst [] (slots.drop burst.length)
  rw [List.map_nil, List.nil_append, List.length_nil, List.append_nil] at htake
  rw [rxqRecv, if_neg (Nat.not_lt.mpr hlen), if_pos rfl]
  split
  · rename_i h0
    obtain rfl := List.length_eq_zero_iff.mp h0
    exact ⟨none, rfl, fun _ => rfl, fun _ h => by cases h⟩
  · refine ⟨_, rfl, ?_, ?_⟩
    · intro h
      cases h
    · intro mbufs h
      rw [← Option.some.inj h]
      exact congrArg (List.map (overlay s.store burst)) htake

/-- What the copies leave: the buffers the slots point to are in the batch, and those
dequeued are off the ring. -/
def Rxq.polled (s : Rxq) (n : Nat) (burst : List (Addr × RteMbuf)) (src dst : List Addr)
    (store : Addr → RteMbuf) : Rxq :=
  { s with store := store, hopaCpOutRing := (s.hopaCpOutRing.dequeueBurst n).2,
           hopaCpSendMbuf := src.map some ++ s.hopaCpSendMbuf.drop n, nbCp := none,
           batch := some ((burst.map Prod.fst ++ dst).map store),
           delivered := s.delivered ++
             ((burst.map Prod.fst ++ dst).map store).drop burst.length }

section Copies

variable {s : Rxq} {burst : List (Addr × RteMbuf)} {slots : List (Option Addr)} {n : Nat}
  (hn : n ≠ 0)

include hn

/-- A poll that can follow its pointers: the copies decide what the store and the
batch hold. -/
theorem rxqRecv_of_copyAll {src dst : List Addr} {store : Addr → RteMbuf}
    (hitems : s.hopaCpOutRing.items.take n = src.map some) (hsrc : src.length = n)
    (hsend : n ≤ sendSlots) (hlen : burst.length ≤ netdevMaxBurst)
    (hslots : (slots.drop burst.length).take n = dst.map some) (hdst : dst.length = n)
    (hcopy : copyAll (slots.drop burst.length) (src.map some) (overlay s.store burst) =
      some store) :
    rxqRecv n burst slots s = .ok (s.polled n burst src dst store) := by
  have htake := take_packets burst dst ((slots.drop burst.length).drop n)
  rw [hdst, ← hslots, List.take_append_drop] at htake
  have hdropleft : (burst.map (fun p => some p.1) ++ slots.drop burst.length).drop burst.length =
      slots.drop burst.length := List.drop_left' (List.length_map _)
  have hmbufs : (src.map some ++ s.hopaCpSendMbuf.drop n).take n = src.map some := by
    apply List.take_left'
    rw [List.length_map, hsrc]
  simp only [rxqRecv, if_neg (show ¬ netdevMaxBurst < burst.length by omega), if_neg hn,
    if_neg (show ¬ sendSlots < n by omega), BoundedFifo.dequeueBurst, hitems, List.length_map,
    hsrc, hdropleft, hmbufs, hcopy, Rxq.polled]
  rw [htake]

/-- A poll that returns could follow its pointers. -/
theorem rxqRecv_ok {s' : Rxq} (hcount : n ≤ s.hopaCpOutRing.count)
    (h : rxqRecv n burst slots s = .ok s') :
    n ≤ sendSlots ∧ ∃ (src dst : List Addr) (store : Addr → RteMbuf),
      s.hopaCpOutRing.items.take n = src.map some ∧ src.length = n ∧
      (slots.drop burst.length).take n = dst.map some ∧ dst.length = n ∧
      copyAll (slots.drop burst.length) (src.map some) (overlay s.store burst) = some store ∧
      s' = s.polled n burst src dst store := by
  have hpackets : (burst.map (fun p => some p.1) ++ slots.drop burst.length).drop burst.length =
      slots.drop burst.length := List.drop_left' (List.length_map _)
  have hlength : (s.hopaCpOutRing.items.take n).length = n :=
    BoundedFifo.length_dequeueBurst hcount
  have hmbufs : (s.hopaCpOutRing.items.take n ++
      s.hopaCpSendMbuf.drop (s.hopaCpOutRing.items.take n).length).take n =
        s.hopaCpOutRing.items.take n := List.take_left' hlength
  have hret := h
  simp only [rxqRecv, BoundedFifo.dequeueBurst, hpackets, hmbufs, if_neg hn] at h
  split at h
  · cases h
  · split at h
    · cases h
    · rename_i hsend
      split at h
      · cases h
      · rename_i store hcopy
        obtain ⟨src, hsrc⟩ := src_of_copyAll hcopy
        obtain ⟨dst, hslots, hdst⟩ := dst_of_copyAll hcopy
        have hsrclen : src.length = n := by rw [← hlength, hsrc, List.length_map]
        rw [hlength] at hslots hdst
        rw [hsrc] at hcopy
        have hsend' : n ≤ sendSlots := by omega
        have hok := rxqRecv_of_copyAll hn hsrc hsrclen hsend' (burst_of_rxqRecv hret) hslots
          hdst hcopy
        exact ⟨hsend', src, dst, store, hsrc, hsrclen, hslots, hdst, hcopy,
          Except.ok.inj (hret.symm.trans hok)⟩

end Copies

section Poll

variable {s : Rxq} {burst : List (Addr × RteMbuf)} (h : s.Inv)
  (hfresh : ∀ a ∈ burst.map Prod.fst, a ∉ s.queue)

include hfresh

theorem overlay_queue {a : Addr} (ha : a ∈ s.queue) : overlay s.store burst a = s.store a :=
  overlay_of_not_mem s.store fun hmem => hfresh a hmem ha

variable (hburst : (burst.map Prod.fst).Nodup)

include h hburst

theorem rxqRecv_zero (slots : List (Option Addr)) (hlen : burst.length ≤ netdevMaxBurst) :
    ∃ s', rxqRecv 0 burst slots s = .ok s' ∧ s'.Inv ∧
      (s'.batch = none → burst = []) ∧
      ∀ batch, s'.batch = some batch → batch = burst.map Prod.snd := by
  have hkept : s.queue.map (overlay s.store burst) = s.queue.map s.store :=
    List.map_congr_left fun a ha => overlay_queue hfresh ha
  obtain ⟨batch, hrecv, hnone, hsome⟩ := exists_rxqRecv_zero slots s hlen
  refine ⟨_, hrecv, ?_, hnone, fun mbufs hmbufs => ?_⟩
  · exact {
      nodup := h.nodup
      accepted := by
        show s.accepted = s.delivered ++ s.queue.map (overlay s.store burst)
        rw [hkept]
        exact h.accepted
      nbCp := counted_none rfl }
  · rw [hsome mbufs hmbufs]
    exact map_overlay s.store hburst

omit h in
/-- What the copies leave behind: the cells of the batch hold the NIC's packets and
then the `n` oldest control packets, and those still on the ring are untouched. -/
theorem exists_copied {n : Nat} {src dst left : List Addr} (rest : List (Option Addr))
    (hsplit : s.queue = src ++ left) (hsrc : src.length = n) (hdst : dst.length = n)
    (hnodup : dst.Nodup) (hfree : ∀ a ∈ dst, a ∉ burst.map Prod.fst ∧ a ∉ s.queue) :
    ∃ store, copyAll (dst.map some ++ rest) (src.map some) (overlay s.store burst) =
        some store ∧
      (burst.map Prod.fst ++ dst).map store = burst.map Prod.snd ++ src.map s.store ∧
      left.map store = left.map s.store := by
  have hmem : ∀ a ∈ src, a ∈ s.queue := fun a ha => hsplit ▸ List.mem_append_left left ha
  have hmem' : ∀ a ∈ left, a ∈ s.queue := fun a ha => hsplit ▸ List.mem_append_right src ha
  have hdisj : ∀ a ∈ dst, a ∉ src := fun a ha hs => (hfree a ha).2 (hmem a hs)
  obtain ⟨store, hcopy, hcopied, hframe⟩ := exists_copyAll src dst rest
    (overlay s.store burst) (hdst.trans hsrc.symm) hnodup hdisj
  have hnic : (burst.map Prod.fst).map store = burst.map Prod.snd := by
    rw [← map_overlay s.store hburst]
    refine List.map_congr_left fun a ha => hframe a fun hd => ?_
    exact (hfree a hd).1 ha
  have hctrl : dst.map store = src.map s.store := by
    rw [hcopied]
    exact List.map_congr_left fun a ha => overlay_queue hfresh (hmem a ha)
  refine ⟨store, hcopy, by rw [List.map_append, hnic, hctrl], ?_⟩
  refine List.map_congr_left fun a ha => ?_
  rw [hframe a fun hd => (hfree a hd).2 (hmem' a ha), overlay_queue hfresh (hmem' a ha)]

theorem rxqRecv_pos {n : Nat} {slots : List (Option Addr)} {src dst : List Addr} (hn : n ≠ 0)
    (hitems : s.hopaCpOutRing.items.take n = src.map some) (hsrc : src.length = n)
    (hsend : n ≤ sendSlots) (hlen : burst.length + n ≤ netdevMaxBurst)
    (hslots : (slots.drop burst.length).take n = dst.map some) (hdst : dst.length = n)
    (hnodup : dst.Nodup)
    (hfree : ∀ a ∈ dst, a ∉ burst.map Prod.fst ∧ a ∉ s.queue) :
    ∃ s', rxqRecv n burst slots s = .ok s' ∧ s'.Inv ∧
      s'.batch = some (burst.map Prod.snd ++ src.map s.store) := by
  let rest := (slots.drop burst.length).drop n
  let left := (s.hopaCpOutRing.items.drop n).reduceOption
  have hdrop : slots.drop burst.length = dst.map some ++ rest := by
    rw [← hslots]
    exact (List.take_append_drop n _).symm
  have hsplit : s.queue = src ++ left := queue_split hitems
  obtain ⟨store, hcopy, hbatch, hkept⟩ :=
    exists_copied hfresh hburst rest hsplit hsrc hdst hnodup hfree
  rw [← hdrop] at hcopy
  have hnew : (burst.map Prod.snd ++ src.map s.store).drop burst.length =
      src.map s.store := List.drop_left' (List.length_map _)
  have hrecv := rxqRecv_of_copyAll hn hitems hsrc hsend (by omega) hslots hdst hcopy
  rw [Rxq.polled, hbatch, hnew] at hrecv
  refine ⟨_, hrecv, ?_, rfl⟩
  exact {
    nodup := by
      show left.Nodup
      have := h.nodup
      rw [hsplit] at this
      exact this.of_append_right
    accepted := by
      show s.accepted = s.delivered ++ src.map s.store ++ left.map store
      rw [hkept, List.append_assoc, ← List.map_append, ← hsplit]
      exact h.accepted
    nbCp := counted_none rfl }

end Poll

theorem rxqInv_pollEnd {node : Node} {s : Rxq} {burst : List (Addr × RteMbuf)}
    {slots : List (Option Addr)} (h : s.Inv) (hc : Contract node s (.pollEnd burst slots))
    (hf : Fits s (.pollEnd burst slots)) {n : Nat} (hn : s.nbCp = some n) :
    ∃ s', rxqRecv n burst slots s = .ok s' ∧ s'.Inv ∧ PollOk s (.pollEnd burst slots) s' := by
  obtain ⟨-, hburst, hfresh, hreq⟩ := hc
  obtain ⟨hsend, hnull, dst, hslots, hdst, hnodup, hfree⟩ := hf n hn
  have hrequest := rxRequest_add hsend
  have hlen : burst.length + n ≤ netdevMaxBurst := by
    have := hreq n hn
    omega
  by_cases h0 : n = 0
  · subst h0
    obtain ⟨s', hok, hInv, hnone, hbatch⟩ :=
      rxqRecv_zero h hfresh hburst slots (by omega)
    refine ⟨s', hok, hInv, fun m hm => ?_⟩
    obtain rfl := Option.some.inj (hn.symm.trans hm)
    refine ⟨hrequest, fun he => ⟨hnone he, rfl⟩, fun batch hb => ?_⟩
    rw [hbatch batch hb, List.take_zero, List.append_nil, List.length_map]
    exact ⟨by omega, rfl⟩
  · obtain ⟨src, hitems, hsrc⟩ := exists_dequeued (h.nbCp n hn) hnull
    obtain ⟨s', hok, hInv, hbatch⟩ :=
      rxqRecv_pos h hfresh hburst h0 hitems hsrc hsend hlen hslots hdst hnodup hfree
    refine ⟨s', hok, hInv, fun m hm => ?_⟩
    obtain rfl := Option.some.inj (hn.symm.trans hm)
    refine ⟨hrequest, fun he => ?_, fun batch hb => ?_⟩
    · rw [he] at hbatch
      cases hbatch
    · obtain rfl := Option.some.inj (hb.symm.trans hbatch)
      have holdest : s.accepted.drop s.delivered.length = s.queue.map s.store := by
        rw [h.accepted]
        exact List.drop_left' rfl
      have hfirst : (s.queue.map s.store).take n = src.map s.store := by
        rw [queue_split hitems, List.map_append]
        exact List.take_left' ((List.length_map _).trans hsrc)
      rw [holdest, hfirst]
      refine ⟨?_, rfl⟩
      rw [List.length_append, List.length_map, List.length_map]
      omega

theorem rxqInv_step {node : Node} {cksum : RteCksum} {s : Rxq} {a : RxqAction} (h : s.Inv)
    (hc : Contract node s a) (hf : Fits s a) :
    ∃ s', s.step node cksum a = .ok s' ∧ s'.Inv ∧ PollOk s a s' := by
  cases a with
  | send alloc clock => exact ⟨_, rfl, rxqInv_sendRound h hc, trivial⟩
  | pollStart port =>
      rw [Rxq.step]
      split
      · exact ⟨_, rfl, { h with nbCp := counted_pollStart port s none }, trivial⟩
      · exact ⟨_, rfl, { h with nbCp := counted_none rfl }, trivial⟩
  | pollEnd burst slots =>
      cases hn : s.nbCp with
      | none =>
          refine ⟨s, ?_, h, fun n hn' => ?_⟩
          · rw [Rxq.step, hn]
          · rw [hn] at hn'
            cases hn'
      | some n =>
          rw [Rxq.step, hn]
          exact rxqInv_pollEnd h hc hf hn

theorem followable_of_rxqRecv {n : Nat} {burst : List (Addr × RteMbuf)}
    {slots : List (Option Addr)} {s s' : Rxq} (hn : n ≤ s.hopaCpOutRing.count)
    (h : rxqRecv n burst slots s = .ok s') : s'.nbCp = none ∧ n ≤ sendSlots ∧
      none ∉ s.hopaCpOutRing.items.take n ∧
      ∃ dst : List Addr, (slots.drop burst.length).take n = dst.map some ∧ dst.length = n := by
  by_cases h0 : n = 0
  · subst h0
    obtain ⟨batch, hok, -, -⟩ := exists_rxqRecv_zero slots s (burst_of_rxqRecv h)
    obtain rfl := Except.ok.inj (hok.symm.trans h)
    exact ⟨rfl, Nat.zero_le _, List.not_mem_nil, [], List.take_zero, rfl⟩
  · obtain ⟨hsend, src, dst, store, hitems, -, hslots, hdst, -, rfl⟩ := rxqRecv_ok h0 hn h
    refine ⟨rfl, hsend, ?_, dst, hslots, hdst⟩
    rw [hitems]
    intro hnull
    obtain ⟨a, -, ha⟩ := List.mem_map.mp hnull
    cases ha

theorem followable_of_step {node : Node} {cksum : RteCksum} {s s' : Rxq} {a : RxqAction}
    (hcount : s.Counted) (h : s.step node cksum a = .ok s') : s'.Counted ∧ Followable s a := by
  cases a with
  | send alloc clock =>
      obtain rfl := Except.ok.inj h
      exact ⟨counted_enqueue hcount _ rfl rfl, trivial⟩
  | pollStart port =>
      rw [Rxq.step] at h
      split at h
      · obtain rfl := Except.ok.inj h
        exact ⟨counted_pollStart port s none, trivial⟩
      · obtain rfl := Except.ok.inj h
        exact ⟨counted_none rfl, trivial⟩
  | pollEnd burst slots =>
      rw [Rxq.step] at h
      cases hn : s.nbCp with
      | none =>
          rw [hn] at h
          obtain rfl := Except.ok.inj h
          refine ⟨hcount, fun n hn' => ?_⟩
          rw [hn] at hn'
          cases hn'
      | some n =>
          rw [hn] at h
          obtain ⟨hnone, hfollow⟩ := followable_of_rxqRecv (hcount n hn) h
          refine ⟨counted_none hnone, fun m hm => ?_⟩
          obtain rfl := Option.some.inj (hn.symm.trans hm)
          exact hfollow

/-- In every run whose polls fit, no array is overrun, every batch holds at most 32
packets, those of the NIC followed by the oldest control packets, and every
accepted control packet is delivered once and in order or still queued.  In a run
of which this holds no poll finds more than 32 pointers on the ring, or follows a
null one or a slot that points nowhere. -/
theorem polls_deliver (node : Node) (cksum : RteCksum) (store : Addr → RteMbuf)
    (acts : List RxqAction)
    (henv : Guarded (Rxq.step node cksum) (Contract node) (.start store) acts) :
    (Guarded (Rxq.step node cksum) Fits (.start store) acts →
      Safe (Rxq.step node cksum) Rxq.Accounted PollOk (.start store) acts) ∧
    (Safe (Rxq.step node cksum) Rxq.Accounted PollOk (.start store) acts →
      Guarded (Rxq.step node cksum) Followable (.start store) acts) := by
  constructor
  · intro hfits
    refine safe_of_guarded (I := Rxq.Inv) ?_ ?_ acts _ (rxqInv_start store) (henv.and hfits)
    · intro s h
      exact h.accepted
    · intro s a h hG
      exact rxqInv_step h hG.1 hG.2
  · intro hsafe
    have hstart : (Rxq.start store).Counted := fun n hn => by cases hn
    exact guarded_of_safe (fun s a s' hs h => followable_of_step hs h) acts _ hstart hsafe

/-! ### Runs -/

/-- What `batch->packets` holds before a poll: 32 packets. -/
def freeSlots : List (Option Addr) := (List.range netdevMaxBurst).map fun i => some (2000 + i)

/-- A repath is announced and polled behind a packet of the NIC, then a round gets
no buffer. -/
def oneRepath : List RxqAction :=
  [.send (fun _ => some 0) (fun _ => ⟨0, 0⟩), .pollStart ⟨"pf1hpf", true⟩,
   .pollEnd [(1000, zeroBuf)] freeSlots, .send (fun _ => none) (fun _ => ⟨0, 0⟩)]

theorem polls_deliver_one_repath :
    Safe (Rxq.step .yy default) Rxq.Accounted PollOk (.start fun _ => zeroBuf) oneRepath := by
  refine (polls_deliver .yy default _ oneRepath ?_).1 ?_
  · refine ⟨⟨List.nodup_singleton 0, fun _ _ => List.not_mem_nil⟩, fun s₁ h₁ =>
      ⟨trivial, fun s₂ h₂ => ⟨⟨rfl, List.nodup_singleton 1000, fun a ha => ?_, fun n hn => ?_⟩,
        fun s₃ _ => ⟨⟨List.nodup_nil, fun a ha => absurd ha List.not_mem_nil⟩,
          fun _ _ => trivial⟩⟩⟩⟩
    · obtain rfl := Except.ok.inj h₁
      obtain rfl := Except.ok.inj h₂
      obtain rfl := List.mem_singleton.mp ha
      decide
    · obtain rfl := Except.ok.inj h₁
      obtain rfl := Except.ok.inj h₂
      obtain rfl : 1 = n := Option.some.inj hn
      decide
  · refine ⟨trivial, fun s₁ h₁ => ⟨trivial, fun s₂ h₂ => ⟨fun n hn => ?_, fun _ _ =>
      ⟨trivial, fun _ _ => trivial⟩⟩⟩⟩
    obtain rfl := Except.ok.inj h₁
    obtain rfl := Except.ok.inj h₂
    obtain rfl : 1 = n := Option.some.inj hn
    refine ⟨by decide, ?_, [2001], rfl, rfl, List.nodup_singleton 2001, fun a ha => ?_⟩
    · intro hnull
      cases List.mem_singleton.mp hnull
    · obtain rfl := List.mem_singleton.mp ha
      exact ⟨by decide, by decide⟩

/-- The `r`th round of `cq`, in buffers of its own, and a poll of a port that is
down. -/
def blockedRound (r : Nat) : List RxqAction :=
  [.send (fun i => some (4 * r + i)) (fun _ => ⟨0, 0⟩), .pollStart ⟨"pf1hpf", false⟩]

def blockedRounds (k : Nat) : List RxqAction := (List.range k).flatMap blockedRound

theorem exec_blockedRounds (cksum : RteCksum) (store : Addr → RteMbuf) {k : Nat}
    (hk : 4 * k ≤ outRingCap) :
    Guarded (Rxq.step .cq cksum) (Contract .cq) (.start store) (blockedRounds k) ∧
    ∃ s, exec (Rxq.step .cq cksum) (.start store) (blockedRounds k) = .ok s ∧
      s.hopaCpOutRing.items = (List.range (4 * k)).map some := by
  induction k with
  | zero => exact ⟨trivial, _, rfl, rfl⟩
  | succ k ih =>
      obtain ⟨hG, s, hrun, hitems⟩ := ih (by omega)
      have hsplit : blockedRounds (k + 1) = blockedRounds k ++ blockedRound k := by
        rw [blockedRounds, List.range_succ, List.flatMap_append, List.flatMap_singleton]
        rfl
      have hround : (List.range pathNb).map (fun i => some (4 * k + i)) =
          ((List.range 4).map (4 * k + ·)).map some := by
        rw [List.map_map]
        rfl
      rw [hsplit]
      constructor
      · refine hG.append fun t ht => ?_
        obtain rfl := Except.ok.inj (hrun.symm.trans ht)
        have hmbufs : ((List.range pathNb).map (fun i => some (4 * k + i))).reduceOption =
            (List.range 4).map (4 * k + ·) := by
          rw [hround, reduceOption_map_some]
        refine ⟨⟨?_, ?_⟩, fun _ _ => ⟨trivial, fun _ _ => trivial⟩⟩
        · show ((List.range pathNb).map _).reduceOption.Nodup
          rw [hmbufs]
          exact List.nodup_range.map fun i j h => Nat.add_left_cancel h
        · show ∀ a ∈ ((List.range pathNb).map _).reduceOption, a ∉ s.queue
          intro a ha hmem
          rw [hmbufs] at ha
          rw [Rxq.queue, hitems, reduceOption_map_some] at hmem
          obtain ⟨i, -, rfl⟩ := List.mem_map.mp ha
          have := List.mem_range.mp hmem
          omega
      · rw [exec_append, hrun]
        refine ⟨_, rfl, ?_⟩
        show (s.hopaCpOutRing.enqueueBurst _).1.items = _
        have hcount : s.hopaCpOutRing.count = 4 * k := by
          rw [BoundedFifo.count, hitems, List.length_map, List.length_range]
        rw [BoundedFifo.items_enqueueBurst_of_room, hitems]
        · show (List.range (4 * k)).map some ++
            (List.range pathNb).map (fun i => some (4 * k + i)) = _
          rw [hround, ← List.map_append, Nat.mul_succ, List.range_add]
        · rw [BoundedFifo.free, hcount, List.length_map, List.length_range]
          show 4 ≤ outRingCap - 4 * k
          omega

/-- After nine rounds the poll wraps the request around and dequeues 36 packets
into an array of 32. -/
theorem blocked_port_overruns :
    Guarded (Rxq.step .cq default) (Contract .cq) (.start fun _ => zeroBuf)
      (blockedRounds 9 ++ [.pollStart ⟨"pf1hpf", true⟩, .pollEnd [] freeSlots]) ∧
    rxRequest 36 = 65532 ∧
    ¬ Safe (Rxq.step .cq default) Rxq.Accounted PollOk (.start fun _ => zeroBuf)
      (blockedRounds 9 ++ [.pollStart ⟨"pf1hpf", true⟩, .pollEnd [] freeSlots]) := by
  obtain ⟨hG, s, hrun, hitems⟩ := exec_blockedRounds default (fun _ => zeroBuf)
    (k := 9) (by decide)
  have hcount : s.hopaCpOutRing.count = 36 := by
    rw [BoundedFifo.count, hitems, List.length_map, List.length_range]
  have hstart : Rxq.step .cq default s (.pollStart ⟨"pf1hpf", true⟩) =
      .ok { s with nbCp := some 36, batch := none } := by
    rw [← hcount]
    rfl
  refine ⟨hG.append fun t ht => ⟨trivial, fun s' hs' => ⟨⟨rfl, List.nodup_nil, ?_, ?_⟩,
    fun _ _ => trivial⟩⟩, rfl, fun hsafe => ?_⟩
  · exact fun a ha => absurd ha List.not_mem_nil
  · exact fun n _ => Nat.zero_le _
  · obtain ⟨-, s', hs', -, -, s'', hs'', -⟩ := hsafe.rest hrun
    obtain rfl := Except.ok.inj (hstart.symm.trans hs')
    cases hs''

end Repath.Ovs
