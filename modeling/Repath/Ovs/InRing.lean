import Mathlib.Data.List.Range
import Mathlib.Data.List.Perm.Basic
import Repath.Ovs.Delivery
import Repath.Ovs.Progress

/-!
# Header blocks between the tap and `hopa_cp_progress`

`dp_netdev_recirculate` copies a control header into a fresh block and enqueues
the blocks of a batch; `hopa_cp_progress` takes up to 32 blocks off the ring, and
hands over and frees one after the other.  A block is named by the number of the
`rte_malloc` call that returned it.

A call of the tap is one step, since nothing else sees the blocks it has not
enqueued yet.  The state keeps, for comparison, the headers of the control packets
that found room on the ring and the headers handed to the handlers.
-/

namespace Repath.Ovs

open Exec

/-- Length of `hopa_cp_hdrs` in `hopa_cp_progress`. -/
def progressSlots : Nat := 32

structure PacketBatch where
  packets : List RteMbuf
  bounded : packets.length ≤ recvSlots

/-- The headers of the control packets of a batch. -/
def PacketBatch.hdrs (b : PacketBatch) : List HopaCpHdr :=
  (b.packets.filter (IsHopaCp ·)).map hdrOf

/-- The staging array, the blocks' contents and the calls of `rte_malloc` while a
batch is looked through. -/
structure Staging where
  hopaCpRecvCpHdr : List Nat
  heap : Nat → HopaCpHdr
  mallocs : Nat

/-- The body of the loop over the batch; `malloc n` says whether the `n`th
`rte_malloc` succeeds.  Without a block the copy writes through a null pointer. -/
def copyBlock (malloc : Nat → Bool) (st : Staging) (mbuf : RteMbuf) : Except Stop Staging :=
  if IsHopaCp mbuf then
    if st.hopaCpRecvCpHdr.length < recvSlots ∧ malloc st.mallocs = true then
      .ok { hopaCpRecvCpHdr := st.hopaCpRecvCpHdr ++ [st.mallocs],
            heap := Function.update st.heap st.mallocs (hdrOf mbuf),
            mallocs := st.mallocs + 1 }
    else .error .undefined
  else .ok st

structure InRing where
  hopaCpInRing : BoundedFifo Nat inRingCap
  heap : Nat → HopaCpHdr
  mallocs : Nat
  /-- The blocks of `hopa_cp_hdrs` still to be processed. -/
  hopaCpHdrs : List Nat
  freed : List Nat
  cp : CpState
  accepted : List HopaCpHdr
  processed : List HopaCpHdr

def InRing.start (heap : Nat → HopaCpHdr) : InRing :=
  { hopaCpInRing := .empty, heap := heap, mallocs := 0, hopaCpHdrs := [], freed := [],
    cp := .start, accepted := [], processed := [] }

inductive InRingAction
  | recirculate (batch : PacketBatch)
  | dequeue
  | process (clock : Timespec)

/-- The tap, with its burst enqueue whose result is ignored. -/
def InRing.recirculate (malloc : Nat → Bool) (batch : PacketBatch) (s : InRing) :
    Except Stop InRing := do
  let st ← batch.packets.foldlM (copyBlock malloc)
    { hopaCpRecvCpHdr := [], heap := s.heap, mallocs := s.mallocs }
  .ok { s with hopaCpInRing := (s.hopaCpInRing.enqueueBurst st.hopaCpRecvCpHdr).1,
               heap := st.heap, mallocs := st.mallocs,
               accepted := s.accepted ++ batch.hdrs.take s.hopaCpInRing.free }

/-- `dequeue` starts an iteration of `hopa_cp_progress`, `process` is one round of
its loop over the blocks. -/
def InRing.step (malloc : Nat → Bool) (s : InRing) : InRingAction → Except Stop InRing
  | .recirculate batch => s.recirculate malloc batch
  | .dequeue =>
    if s.hopaCpHdrs = [] then
      let (hdrs, ring) := s.hopaCpInRing.dequeueBurst progressSlots
      .ok { s with hopaCpInRing := ring, hopaCpHdrs := hdrs }
    else .ok s
  | .process clock =>
    match s.hopaCpHdrs with
    | [] => .ok s
    | b :: rest => do
      let cp ← hopaCpProgress s.cp { hdr := s.heap b, clock := clock }
      .ok { s with hopaCpHdrs := rest, freed := s.freed ++ [b], cp := cp,
                   processed := s.processed ++ [s.heap b] }

/-! ### What is asked of a run -/

/-- Every block ever allocated is on the ring, being processed or freed, once, and
the headers handed over are those accepted, in order, but for the ones still
waiting. -/
def InRing.Conserved (s : InRing) : Prop :=
  (s.hopaCpInRing.items ++ s.hopaCpHdrs ++ s.freed).Perm (List.range s.mallocs) ∧
    s.accepted = s.processed ++ (s.hopaCpHdrs ++ s.hopaCpInRing.items).map s.heap

/-- A call of the tap returns: it writes through no failed allocation. -/
def InRing.Returns (malloc : Nat → Bool) (s : InRing) : InRingAction → Prop
  | .recirculate batch => ∃ s', s.recirculate malloc batch = .ok s'
  | .dequeue => True
  | .process _ => True

/-- Every control packet of a batch gets a block, and the blocks fit on the ring. -/
def InRing.Room (malloc : Nat → Bool) (s : InRing) : InRingAction → Prop
  | .recirculate batch => (∀ i < batch.hdrs.length, malloc (s.mallocs + i) = true) ∧
      batch.hdrs.length ≤ s.hopaCpInRing.free
  | .dequeue => True
  | .process _ => True

/-! ### The loop over a batch -/

/-- The loop returns exactly when every control packet gets a block.  The blocks are
then numbered on from the calls before, and hold the headers in order. -/
theorem copyBlocks_ok {malloc : Nat → Bool} : ∀ {packets : List RteMbuf} {st st' : Staging},
    packets.foldlM (copyBlock malloc) st = .ok st' →
    let hdrs := (packets.filter (IsHopaCp ·)).map hdrOf
    (∀ i < hdrs.length, malloc (st.mallocs + i) = true) ∧
      st'.hopaCpRecvCpHdr = st.hopaCpRecvCpHdr ++ List.range' st.mallocs hdrs.length ∧
      st'.mallocs = st.mallocs + hdrs.length ∧
      (List.range' st.mallocs hdrs.length).map st'.heap = hdrs ∧
      ∀ b < st.mallocs, st'.heap b = st.heap b := by
  intro packets
  induction packets with
  | nil =>
      intro st st' h
      obtain rfl := Except.ok.inj h
      refine ⟨fun i hi => absurd hi (Nat.not_lt_zero i), ?_, rfl, rfl, fun _ _ => rfl⟩
      exact (List.append_nil _).symm
  | cons mbuf packets ih =>
      intro st st' h
      obtain ⟨st₁, hbody, hrest⟩ := bind_eq_ok_iff.mp h
      obtain ⟨hmalloc, hrecv, hmallocs, hheap, hkept⟩ := ih hrest
      rw [copyBlock] at hbody
      by_cases hcp : IsHopaCp mbuf
      · rw [if_pos hcp] at hbody
        split at hbody
        · rename_i hroom
          obtain rfl := Except.ok.inj hbody
          dsimp only at hmalloc hrecv hmallocs hheap hkept
          simp only [List.filter_cons, hcp, decide_true, if_true, List.map_cons,
            List.length_cons]
          refine ⟨fun i hi => ?_, ?_, ?_, ?_, fun b hb => ?_⟩
          · cases i with
            | zero => exact hroom.2
            | succ i =>
                have hnext := hmalloc i (by omega)
                rwa [Nat.add_assoc, Nat.add_comm 1 i] at hnext
          · rw [hrecv, List.append_assoc, List.singleton_append, List.range'_succ]
          · rw [hmallocs]
            omega
          · rw [List.range'_succ, List.map_cons, hheap,
              hkept st.mallocs (Nat.lt_succ_self st.mallocs), Function.update_self]
          · have hne : b ≠ st.mallocs := by omega
            rw [hkept b (Nat.lt_succ_of_lt hb), Function.update_of_ne hne]
        · cases hbody
      · rw [if_neg hcp] at hbody
        obtain rfl := Except.ok.inj hbody
        simp only [List.filter_cons, hcp, decide_false, Bool.false_eq_true, if_false]
        exact ⟨hmalloc, hrecv, hmallocs, hheap, hkept⟩

theorem exists_copyBlocks {malloc : Nat → Bool} : ∀ (packets : List RteMbuf) (st : Staging),
    st.hopaCpRecvCpHdr.length + packets.length ≤ recvSlots →
    (∀ i < (packets.filter (IsHopaCp ·)).length, malloc (st.mallocs + i) = true) →
    ∃ st', packets.foldlM (copyBlock malloc) st = .ok st' := by
  intro packets
  induction packets with
  | nil => exact fun st _ _ => ⟨st, rfl⟩
  | cons mbuf packets ih =>
      intro st hlen hmalloc
      rw [List.length_cons] at hlen
      rw [List.foldlM_cons, copyBlock]
      by_cases hcp : IsHopaCp mbuf
      · simp only [List.filter_cons, hcp, decide_true, if_true, List.length_cons] at hmalloc
        have hroom : st.hopaCpRecvCpHdr.length < recvSlots ∧ malloc st.mallocs = true :=
          ⟨by omega, hmalloc 0 (Nat.succ_pos _)⟩
        rw [if_pos hcp, if_pos hroom]
        apply ih
        · rw [List.length_append, List.length_singleton]
          omega
        · intro i hi
          have hnext := hmalloc (i + 1) (Nat.succ_lt_succ hi)
          rwa [Nat.add_comm i 1, ← Nat.add_assoc] at hnext
      · simp only [List.filter_cons, hcp, decide_false, Bool.false_eq_true, if_false] at hmalloc
        rw [if_neg hcp]
        exact ih st (by omega) hmalloc

/-! ### Steps -/

theorem PacketBatch.length_hdrs (b : PacketBatch) :
    b.hdrs.length = (b.packets.filter (IsHopaCp ·)).length := List.length_map _

/-- What a call of the tap that returns has done. -/
theorem recirculate_ok {malloc : Nat → Bool} {batch : PacketBatch} {s s' : InRing}
    (h : s.recirculate malloc batch = .ok s') :
    (∀ i < batch.hdrs.length, malloc (s.mallocs + i) = true) ∧
      ∃ heap : Nat → HopaCpHdr,
        (List.range' s.mallocs batch.hdrs.length).map heap = batch.hdrs ∧
        (∀ b < s.mallocs, heap b = s.heap b) ∧
        s' = { s with
          hopaCpInRing :=
            (s.hopaCpInRing.enqueueBurst (List.range' s.mallocs batch.hdrs.length)).1
          heap := heap
          mallocs := s.mallocs + batch.hdrs.length
          accepted := s.accepted ++ batch.hdrs.take s.hopaCpInRing.free } := by
  obtain ⟨st, hloop, hret⟩ := bind_eq_ok_iff.mp h
  obtain ⟨hmalloc, hrecv, hmallocs, hheap, hkept⟩ := copyBlocks_ok hloop
  obtain rfl := Except.ok.inj hret
  refine ⟨hmalloc, st.heap, hheap, hkept, ?_⟩
  have hrecv' : st.hopaCpRecvCpHdr = List.range' s.mallocs batch.hdrs.length := hrecv
  have hmallocs' : st.mallocs = s.mallocs + batch.hdrs.length := hmallocs
  rw [hrecv', hmallocs']

theorem count_recirculate {malloc : Nat → Bool} {batch : PacketBatch} {s s' : InRing}
    (h : s.recirculate malloc batch = .ok s')
    (hroom : batch.hdrs.length ≤ s.hopaCpInRing.free) :
    s'.hopaCpInRing.count = s.hopaCpInRing.count + batch.hdrs.length := by
  obtain ⟨-, heap, -, -, rfl⟩ := recirculate_ok h
  have hitems : (s.hopaCpInRing.enqueueBurst (List.range' s.mallocs batch.hdrs.length)).1.items =
      s.hopaCpInRing.items ++ List.range' s.mallocs batch.hdrs.length :=
    BoundedFifo.items_enqueueBurst_of_room (by rwa [List.length_range'])
  rw [BoundedFifo.count, hitems, List.length_append, List.length_range']
  rfl

theorem recirculate_returns_iff {malloc : Nat → Bool} {batch : PacketBatch} {s : InRing} :
    (∃ s', s.recirculate malloc batch = .ok s') ↔
      ∀ i < batch.hdrs.length, malloc (s.mallocs + i) = true := by
  constructor
  · intro h
    obtain ⟨s', h⟩ := h
    exact (recirculate_ok h).1
  · intro h
    rw [batch.length_hdrs] at h
    obtain ⟨st, hst⟩ := exists_copyBlocks batch.packets
      { hopaCpRecvCpHdr := [], heap := s.heap, mallocs := s.mallocs }
      (by simpa using batch.bounded) h
    rw [InRing.recirculate, hst]
    exact ⟨_, rfl⟩

theorem mem_blocks_lt {s : InRing} (h : s.Conserved) {b : Nat}
    (hb : b ∈ s.hopaCpHdrs ++ s.hopaCpInRing.items) : b < s.mallocs := by
  rw [← List.mem_range, ← h.1.mem_iff]
  rcases List.mem_append.mp hb with hb | hb
  · exact List.mem_append_left _ (List.mem_append_right _ hb)
  · exact List.mem_append_left _ (List.mem_append_left _ hb)

section Step

variable {malloc : Nat → Bool} {s s' : InRing} (h : s.Conserved)

include h

/-- The blocks that do not fit on the ring are in no place. -/
theorem conserved_recirculate_iff {batch : PacketBatch}
    (hok : s.recirculate malloc batch = .ok s') :
    s'.Conserved ↔ batch.hdrs.length ≤ s.hopaCpInRing.free := by
  obtain ⟨-, heap, hheap, hkept, rfl⟩ := recirculate_ok hok
  have hitems := BoundedFifo.items_enqueueBurst_take s.hopaCpInRing
    (List.range' s.mallocs batch.hdrs.length)
  have hold := h.1.length_eq
  simp only [List.length_append, List.length_range] at hold
  constructor
  · intro hnew
    have hlen := hnew.1.length_eq
    rw [hitems] at hlen
    simp only [List.length_append, List.length_take, List.length_range',
      List.length_range] at hlen
    omega
  · intro hfits
    have hall : (List.range' s.mallocs batch.hdrs.length).take s.hopaCpInRing.free =
        List.range' s.mallocs batch.hdrs.length :=
      List.take_of_length_le (by rwa [List.length_range'])
    have hrange : List.range (s.mallocs + batch.hdrs.length) =
        List.range s.mallocs ++ List.range' s.mallocs batch.hdrs.length := by
      have hsplit := List.range'_append_1 (s := 0) (m := s.mallocs) (n := batch.hdrs.length)
      rw [Nat.zero_add] at hsplit
      rw [List.range_eq_range', List.range_eq_range', hsplit]
    have hwaiting : (s.hopaCpHdrs ++ s.hopaCpInRing.items).map heap =
        (s.hopaCpHdrs ++ s.hopaCpInRing.items).map s.heap :=
      List.map_congr_left fun b hb => hkept b (mem_blocks_lt h hb)
    constructor
    · rw [hitems, hall, hrange]
      apply List.perm_iff_count.mpr
      intro b
      have hcount := h.1.count_eq b
      simp only [List.count_append] at hcount ⊢
      omega
    · show s.accepted ++ batch.hdrs.take s.hopaCpInRing.free = s.processed ++
        (s.hopaCpHdrs ++ (s.hopaCpInRing.enqueueBurst _).1.items).map heap
      rw [hitems, hall, ← List.append_assoc, List.map_append, hwaiting, hheap,
        List.take_of_length_le hfits, h.2, List.append_assoc]

theorem conserved_dequeue (hok : s.step malloc .dequeue = .ok s') : s'.Conserved := by
  rw [InRing.step] at hok
  split at hok
  · rename_i hidle
    obtain rfl := Except.ok.inj hok
    obtain ⟨hblocks, haccepted⟩ := h
    rw [hidle, List.append_nil] at hblocks
    rw [hidle, List.nil_append] at haccepted
    constructor
    · apply List.Perm.trans _ hblocks
      apply List.Perm.append_right
      exact List.perm_append_comm.trans
        (List.Perm.of_eq (s.hopaCpInRing.dequeueBurst_append progressSlots))
    · have hqueue := s.hopaCpInRing.dequeueBurst_append progressSlots
      rw [← hqueue] at haccepted
      exact haccepted
  · obtain rfl := Except.ok.inj hok
    exact h

theorem conserved_process {clock : Timespec} (hok : s.step malloc (.process clock) = .ok s') :
    s'.Conserved := by
  rw [InRing.step] at hok
  cases hhdrs : s.hopaCpHdrs with
  | nil =>
      rw [hhdrs] at hok
      obtain rfl := Except.ok.inj hok
      exact h
  | cons b rest =>
      rw [hhdrs] at hok
      obtain ⟨cp, -, hret⟩ := bind_eq_ok_iff.mp hok
      obtain rfl := Except.ok.inj hret
      obtain ⟨hblocks, haccepted⟩ := h
      rw [hhdrs] at hblocks haccepted
      constructor
      · apply List.Perm.trans _ hblocks
        apply List.perm_iff_count.mpr
        intro x
        simp only [List.count_append, List.count_cons, List.count_nil]
        omega
      · rw [haccepted, List.append_assoc]
        rfl

end Step

/-! ### Runs -/

theorem conserved_start (heap : Nat → HopaCpHdr) : (InRing.start heap).Conserved :=
  ⟨List.Perm.refl _, rfl⟩

/-- In every interleaving no block is lost, freed twice or out of order, and no call
writes through a failed allocation, exactly when every control packet of every
batch gets a block and the blocks of the batch fit on the ring. -/
theorem inRing_conserved_iff (malloc : Nat → Bool) (heap : Nat → HopaCpHdr)
    (acts : List InRingAction) :
    (Along (InRing.step malloc) InRing.Conserved (fun _ _ _ => True) (.start heap) acts ∧
        Guarded (InRing.step malloc) (InRing.Returns malloc) (.start heap) acts) ↔
      Guarded (InRing.step malloc) (InRing.Room malloc) (.start heap) acts := by
  refine along_and_guarded_iff (fun (s : InRing) (h : s.Conserved) => h) (fun s a s' h hG hok => ?_)
    (fun s a h hG => ?_) (fun s a h hG hN => ?_) acts _ (conserved_start heap)
  · cases a with
    | recirculate batch => exact ⟨(conserved_recirculate_iff h hok).mpr hG.2, trivial⟩
    | dequeue => exact ⟨conserved_dequeue h hok, trivial⟩
    | process clock => exact ⟨conserved_process h hok, trivial⟩
  · cases a with
    | recirculate batch => exact recirculate_returns_iff.mpr hG.1
    | dequeue => trivial
    | process clock => trivial
  · cases a with
    | recirculate batch =>
        obtain ⟨s', hok⟩ := hN
        refine ⟨s', hok, fun hs' => hG ⟨(recirculate_ok hok).1, ?_⟩⟩
        exact (conserved_recirculate_iff h hok).mp hs'
    | dequeue => exact absurd trivial hG
    | process clock => exact absurd trivial hG

/-! ### The tap that sees headers only -/

/-- The headers behind the blocks on the ring. -/
def InRing.tap (s : InRing) : Tap :=
  { hopaCpInRing := some (s.hopaCpInRing.map s.heap), mallocs := s.mallocs }

theorem copyHdrs_of_copyBlocks {dp : Datapath} : ∀ {packets : List RteMbuf} {st st' : Staging},
    packets.foldlM (copyBlock dp.malloc) st = .ok st' → ∀ hdrs : List HopaCpHdr,
    hdrs.length = st.hopaCpRecvCpHdr.length →
    packets.foldlM (copyHdr dp) (hdrs, st.mallocs) =
      .ok (hdrs ++ (packets.filter (IsHopaCp ·)).map hdrOf, st'.mallocs) := by
  intro packets
  induction packets with
  | nil =>
      intro st st' h hdrs _
      obtain rfl := Except.ok.inj h
      show Except.ok (hdrs, st.mallocs) = _
      rw [List.filter_nil, List.map_nil, List.append_nil]
  | cons mbuf packets ih =>
      intro st st' h hdrs hlen
      obtain ⟨st₁, hbody, hrest⟩ := bind_eq_ok_iff.mp h
      rw [copyBlock] at hbody
      rw [List.foldlM_cons, copyHdr]
      by_cases hcp : IsHopaCp mbuf
      · rw [if_pos hcp] at hbody
        split at hbody
        · rename_i hroom
          obtain rfl := Except.ok.inj hbody
          have hnext := ih hrest (hdrs ++ [hdrOf mbuf]) (by
            rw [List.length_append, List.length_append, hlen]
            rfl)
          have hroom' : hdrs.length < recvSlots ∧ dp.malloc st.mallocs = true := hlen ▸ hroom
          rw [if_pos hcp, if_pos hroom']
          show packets.foldlM (copyHdr dp) (hdrs ++ [hdrOf mbuf], st.mallocs + 1) = _
          rw [hnext]
          simp only [List.filter_cons, hcp, decide_true, if_true, List.map_cons,
            List.append_assoc, List.singleton_append]
        · cases hbody
      · rw [if_neg hcp] at hbody
        obtain rfl := Except.ok.inj hbody
        rw [if_neg hcp]
        simp only [List.filter_cons, hcp, decide_false, Bool.false_eq_true, if_false]
        exact ih hrest hdrs hlen

/-- Read through its blocks, a call of the tap is `tapBatch`. -/
theorem tapBatch_of_recirculate {dp : Datapath} {batch : PacketBatch} {s s' : InRing}
    (h : s.Conserved) (hok : s.recirculate dp.malloc batch = .ok s') :
    tapBatch dp s.tap batch.packets = .ok s'.tap := by
  obtain ⟨st, hloop, -⟩ := bind_eq_ok_iff.mp hok
  have hmallocs : st.mallocs = s.mallocs + batch.hdrs.length := (copyBlocks_ok hloop).2.2.1
  have hhdrs : batch.packets.foldlM (copyHdr dp) ([], s.mallocs) = .ok (batch.hdrs, st.mallocs) :=
    copyHdrs_of_copyBlocks hloop [] rfl
  obtain ⟨-, heap, hheap, hkept, rfl⟩ := recirculate_ok hok
  have hqueue : s.hopaCpInRing.map s.heap = s.hopaCpInRing.map heap :=
    BoundedFifo.map_congr fun b hb =>
      (hkept b (mem_blocks_lt h (List.mem_append_right _ hb))).symm
  have hring := BoundedFifo.map_enqueueBurst heap s.hopaCpInRing
    (List.range' s.mallocs batch.hdrs.length)
  rw [hheap, ← hqueue] at hring
  show (batch.packets.foldlM (copyHdr dp) ([], s.mallocs) >>= fun acc => Except.ok
    (Tap.mk (some ((s.hopaCpInRing.map s.heap).enqueueBurst acc.1).1) acc.2)) = _
  rw [hhdrs, hmallocs]
  show Except.ok (Tap.mk (some ((s.hopaCpInRing.map s.heap).enqueueBurst batch.hdrs).1)
    (s.mallocs + batch.hdrs.length)) = _
  rw [← hring]
  rfl

/-! ### A failed allocation and a full ring -/

def oneProbe : PacketBatch := { packets := [probeFrame], bounded := by decide }

def fullBatch : PacketBatch :=
  { packets := List.replicate recvSlots probeFrame
    bounded := Nat.le_of_eq List.length_replicate }

theorem length_hdrs_fullBatch : fullBatch.hdrs.length = recvSlots := by
  have hcp : IsHopaCp probeFrame := isCpFrame_probeFrame.isHopaCp
  have hall : fullBatch.packets.filter (IsHopaCp ·) = fullBatch.packets := by
    rw [List.filter_eq_self]
    intro m hm
    rw [List.eq_of_mem_replicate hm]
    exact decide_eq_true hcp
  rw [PacketBatch.length_hdrs, hall]
  exact List.length_replicate

theorem exec_fullBatches (heap : Nat → HopaCpHdr) {k : Nat} (hk : recvSlots * k ≤ inRingCap) :
    ∃ s, exec (InRing.step fun _ => true) (.start heap)
        (List.replicate k (.recirculate fullBatch)) = .ok s ∧
      s.Conserved ∧ s.hopaCpInRing.count = recvSlots * k := by
  induction k with
  | zero => exact ⟨_, rfl, conserved_start heap, rfl⟩
  | succ k ih =>
      rw [Nat.mul_succ] at hk
      obtain ⟨s, hrun, hs, hcount⟩ := ih (by omega)
      have hreturns : ∃ s', s.recirculate (fun _ => true) fullBatch = .ok s' :=
        recirculate_returns_iff.mpr fun _ _ => rfl
      obtain ⟨s', hok⟩ := hreturns
      have hroom : fullBatch.hdrs.length ≤ s.hopaCpInRing.free := by
        rw [length_hdrs_fullBatch, BoundedFifo.free, hcount]
        omega
      have hstep : InRing.step (fun _ => true) s (.recirculate fullBatch) = .ok s' := hok
      have hlast : exec (InRing.step fun _ => true) s [.recirculate fullBatch] = .ok s' :=
        (exec_cons_of_ok [] hstep).trans (exec_nil _ s')
      refine ⟨s', ?_, (conserved_recirculate_iff hs hok).mpr hroom, ?_⟩
      · rw [List.replicate_succ', exec_append_of_ok _ hrun]
        exact hlast
      · rw [count_recirculate hok hroom, hcount, length_hdrs_fullBatch, Nat.mul_succ]

/-- A control packet whose block cannot be allocated is written through a null
pointer, and of 32 batches of 32 control packets the ring has no room for the last
block, which is lost. -/
theorem header_block_lost :
    ¬ (Along (InRing.step fun _ => false) InRing.Conserved (fun _ _ _ => True)
          (.start fun _ => probeHdr 0 0) [.recirculate oneProbe] ∧
        Guarded (InRing.step fun _ => false) (InRing.Returns fun _ => false)
          (.start fun _ => probeHdr 0 0) [.recirculate oneProbe]) ∧
      ¬ (Along (InRing.step fun _ => true) InRing.Conserved (fun _ _ _ => True)
          (.start fun _ => probeHdr 0 0) (List.replicate 32 (.recirculate fullBatch)) ∧
        Guarded (InRing.step fun _ => true) (InRing.Returns fun _ => true)
          (.start fun _ => probeHdr 0 0) (List.replicate 32 (.recirculate fullBatch))) := by
  constructor
  · intro h
    have hmalloc := recirculate_returns_iff.mp h.2.1
    have hone : 0 < oneProbe.hdrs.length := by
      have hcp : IsHopaCp probeFrame := isCpFrame_probeFrame.isHopaCp
      rw [PacketBatch.length_hdrs]
      show 0 < ([probeFrame].filter (IsHopaCp ·)).length
      rw [List.filter_cons, if_pos (decide_eq_true hcp)]
      exact Nat.succ_pos _
    exact Bool.noConfusion (hmalloc 0 hone)
  · intro h
    obtain ⟨s, hrun, hs, hcount⟩ := exec_fullBatches (fun _ => probeHdr 0 0) (k := 31) (by decide)
    have hsplit : List.replicate 32 (InRingAction.recirculate fullBatch) =
        List.replicate 31 (.recirculate fullBatch) ++ [.recirculate fullBatch] :=
      List.replicate_succ'
    obtain ⟨halong, -⟩ := h
    rw [hsplit] at halong
    have hlast := halong.rest hrun
    have hreturns : ∃ s', s.recirculate (fun _ => true) fullBatch = .ok s' :=
      recirculate_returns_iff.mpr fun _ _ => rfl
    obtain ⟨s', hok⟩ := hreturns
    have hfits := (conserved_recirculate_iff hs hok).mp (hlast.2 s' hok).2
    rw [length_hdrs_fullBatch, BoundedFifo.free, hcount] at hfits
    exact absurd hfits (by decide)

end Repath.Ovs
