import Repath.Lib.Places
import Repath.HopaCp.MainLoop

/-!
# Where the mbufs of `mbuf_pool` are

A buffer is free, owned by the NIC, on one of the two rings, or held by a thread
that goes on to enqueue, transmit or free it.  Every step of a process moves buffers
from place to place, but for the two burst enqueues, which drop what does not fit.
-/

namespace Repath.HopaCp

open Exec Places

def Process.places (s : Process) : List Addr :=
  s.mbufPool ++ s.rxDesc ++ s.txDesc ++ s.hopaInRing.items ++ s.hopaOutRing.items ++
    s.recvMbuf ++ s.sendMbuf.drop s.offset ++ s.mbufs ++ s.bufs

/-- Every buffer of the pool is in one place. -/
def Process.Conserved (mp : List Addr) (s : Process) : Prop := ExactlyOnce mp s.places

/-- How many packets a worker has built when it enqueues them. -/
def roundLength : Role → Nat
  | .sender => pathNb
  | .receiver => 1

/-- The buffers that a burst enqueue of the step leaves out. -/
def Process.dropped (role : Role) (s : Process) : ProcessAction → List Addr
  | .refill _ => []
  | .sent _ => []
  | .main _ _ => if s.mainPc = .enqueue then s.recvMbuf.drop s.hopaInRing.free else []
  | .worker _ _ _ =>
    if roundLength role ≤ s.mbufs.length then s.mbufs.drop s.hopaOutRing.free else []

/-- A burst received fits on the in ring when it is enqueued, and packets built fit on
the out ring. -/
def Process.Fits (role : Role) (s : Process) : ProcessAction → Prop
  | .refill _ => True
  | .sent _ => True
  | .main _ _ => s.mainPc = .enqueue → s.recvMbuf.length ≤ s.hopaInRing.free
  | .worker _ _ _ => roundLength role ≤ s.mbufs.length → s.mbufs.length ≤ s.hopaOutRing.free

theorem drop_or_nil_iff {c : Prop} [Decidable c] {xs : List Addr} {n : Nat} :
    (if c then xs.drop n else []) = [] ↔ (c → xs.length ≤ n) := by
  by_cases hc : c
  · rw [if_pos hc, List.drop_eq_nil_iff]
    exact ⟨fun h _ => h, fun h => h hc⟩
  · rw [if_neg hc]
    exact ⟨fun _ h => absurd h hc, fun _ => rfl⟩

theorem dropped_eq_nil_iff (role : Role) (s : Process) (a : ProcessAction) :
    s.dropped role a = [] ↔ s.Fits role a := by
  cases a with
  | refill b => exact ⟨fun _ => trivial, fun _ => rfl⟩
  | sent b => exact ⟨fun _ => trivial, fun _ => rfl⟩
  | main burst txNum => exact drop_or_nil_iff
  | worker alloc clock timerOut => exact drop_or_nil_iff

/-! ### What a step moves -/

section Moves

variable (s : Process)

theorem places_emit {alloc : Option Addr} (outs : List RteMbuf)
    (hfree : ∀ a, alloc = some a → a ∈ s.mbufPool) : (s.emit alloc outs).places.Perm s.places := by
  cases alloc with
  | none => exact List.Perm.refl _
  | some a =>
      cases outs with
      | nil => rw [Process.emit_nil]
      | cons mbuf outs =>
          apply List.perm_iff_count.mpr
          intro x
          have hcount := count_erase_add (hfree a rfl) x
          simp only [Process.places, Process.emit, List.count_append]
          omega

theorem places_refill (a : Addr) : (s.refill a).places.Perm s.places := by
  rw [Process.refill]
  by_cases ha : a ∈ s.mbufPool
  · rw [if_pos ha]
    apply List.perm_iff_count.mpr
    intro x
    have hcount := count_erase_add ha x
    simp only [Process.places, List.count_append]
    omega
  · rw [if_neg ha]

theorem places_sent (a : Addr) : (s.sent a).places.Perm s.places := by
  rw [Process.sent]
  by_cases ha : a ∈ s.txDesc
  · rw [if_pos ha]
    apply List.perm_iff_count.mpr
    intro x
    have hcount := count_erase_add ha x
    simp only [Process.places, List.count_append]
    omega
  · rw [if_neg ha]

theorem places_enqueueOut :
    (s.enqueueOut.places ++ s.mbufs.drop s.hopaOutRing.free).Perm s.places := by
  apply List.perm_iff_count.mpr
  intro x
  have hcount := congrArg (List.count x) (s.hopaOutRing.items_enqueueBurst_append s.mbufs)
  simp only [Process.places, Process.enqueueOut, List.count_append, List.count_nil] at hcount ⊢
  omega

theorem places_enqueueIn :
    (s.enqueueIn.places ++ s.recvMbuf.drop s.hopaInRing.free).Perm s.places := by
  apply List.perm_iff_count.mpr
  intro x
  have hcount := congrArg (List.count x) (s.hopaInRing.items_enqueueBurst_append s.recvMbuf)
  simp only [Process.places, Process.enqueueIn, List.count_append, List.count_nil] at hcount ⊢
  omega

/-- Only what is about to be enqueued or transmitted is left in the arrays of `main`. -/
structure Process.Tidy (s : Process) : Prop where
  recv : s.mainPc ≠ .enqueue → s.recvMbuf = []
  send : s.mainPc ≠ .txBurst → s.sendMbuf.length ≤ s.offset

theorem places_rxBurst {s : Process} (h : s.recvMbuf = []) {burst : List (Addr × RteMbuf)}
    (hburst : (burst.map Prod.fst).Subperm s.rxDesc) : (s.rxBurst burst).places.Perm s.places := by
  apply List.perm_iff_count.mpr
  intro x
  have hle := hburst.count_le x
  have hdiff := List.count_diff x s.rxDesc (burst.map Prod.fst)
  simp only [Process.places, Process.rxBurst, List.count_append, h, List.count_nil]
  omega

theorem places_dequeueOut {s : Process} (h : s.sendMbuf.length ≤ s.offset) :
    s.dequeueOut.places.Perm s.places := by
  apply List.perm_iff_count.mpr
  intro x
  have hcount := congrArg (List.count x) (s.hopaOutRing.dequeueBurst_append burstSize)
  have hsent : (s.sendMbuf.drop s.offset).count x = 0 := by
    rw [List.drop_eq_nil_of_le h, List.count_nil]
  have hrest := congrArg (List.count x) (drop_offset_dequeueOut s)
  simp only [Process.places, Process.dequeueOut, List.count_append] at hcount hrest ⊢
  omega

theorem places_txBurst (txNum : Nat) : (s.txBurst txNum).places.Perm s.places := by
  apply List.perm_iff_count.mpr
  intro x
  have hsplit : ∀ n, ((s.sendMbuf.drop s.offset).take n).count x +
      (s.sendMbuf.drop (s.offset + n)).count x = (s.sendMbuf.drop s.offset).count x := by
    intro n
    rw [← List.drop_drop, ← List.count_append, List.take_append_drop]
  have hcount := hsplit (min txNum (s.sendMbuf.length - s.offset))
  simp only [Process.places, Process.txBurst, List.count_append]
  omega

theorem places_dequeueIn {s : Process} (timerOut : Bool) (h : s.bufs = []) :
    (s.dequeueIn timerOut).places.Perm s.places := by
  apply List.perm_iff_count.mpr
  intro x
  have hcount := congrArg (List.count x) (s.hopaInRing.dequeueBurst_append burstSize)
  simp only [Process.places, Process.dequeueIn, List.count_append, h, List.count_nil] at hcount ⊢
  omega

end Moves

/-! ### Steps -/

theorem tidy_rxBurst {s : Process} (h : s.sendMbuf.length ≤ s.offset)
    (burst : List (Addr × RteMbuf)) : (s.rxBurst burst).Tidy := by
  refine ⟨fun hne => ?_, fun _ => h⟩
  by_contra hrecv
  exact hne (if_pos (List.length_pos_iff.mpr hrecv))

theorem tidy_dequeueOut {s : Process} (h : s.recvMbuf = []) : s.dequeueOut.Tidy := by
  refine ⟨fun _ => h, fun hne => ?_⟩
  by_contra hsend
  exact hne (if_pos (Nat.zero_lt_of_lt (Nat.lt_of_not_le hsend)))

theorem tidy_txBurst {s : Process} (h : s.recvMbuf = []) (txNum : Nat) :
    (s.txBurst txNum).Tidy := by
  refine ⟨fun _ => h, fun hne => ?_⟩
  by_contra hsend
  exact hne (if_pos (Nat.lt_of_not_le hsend))

theorem tidy_main {s : Process} (h : s.Tidy) (burst : List (Addr × RteMbuf)) (txNum : Nat) :
    (s.main burst txNum).Tidy := by
  rw [Process.main]
  cases hpc : s.mainPc with
  | rxBurst => exact tidy_rxBurst (h.send (by simp [hpc])) (s.received burst)
  | enqueue => exact ⟨fun _ => rfl, fun _ => h.send (by simp [hpc])⟩
  | dequeue => exact tidy_dequeueOut (h.recv (by simp [hpc]))
  | txBurst => exact tidy_txBurst (h.recv (by simp [hpc])) txNum

theorem places_main {s : Process} (h : s.Tidy) (burst : List (Addr × RteMbuf)) (txNum : Nat) :
    ((s.main burst txNum).places ++
      if s.mainPc = .enqueue then s.recvMbuf.drop s.hopaInRing.free else []).Perm s.places := by
  rw [Process.main]
  cases hpc : s.mainPc with
  | rxBurst =>
      rw [if_neg (by simp), List.append_nil]
      exact places_rxBurst (h.recv (by simp [hpc])) (received_subperm s burst)
  | enqueue =>
      rw [if_pos rfl]
      exact places_enqueueIn s
  | dequeue =>
      rw [if_neg (by simp), List.append_nil]
      exact places_dequeueOut (h.send (by simp [hpc]))
  | txBurst =>
      rw [if_neg (by simp), List.append_nil]
      exact places_txBurst s txNum

theorem tidy_emit {s : Process} (h : s.Tidy) (alloc : Option Addr) (outs : List RteMbuf) :
    (s.emit alloc outs).Tidy := by
  cases alloc with
  | none => exact h
  | some a =>
      cases outs with
      | nil => rwa [Process.emit_nil]
      | cons mbuf outs => exact ⟨h.recv, h.send⟩

/-- What a step of the worker can do. -/
inductive Worked (role : Role) (alloc : Option Addr) (s : Process) : Process → Prop
  | enqueue : roundLength role ≤ s.mbufs.length → Worked role alloc s s.enqueueOut
  | build (cp : State) (todo : List Addr) (outs : List RteMbuf) :
      s.mbufs.length < roundLength role →
      Worked role alloc s (Process.emit (s.allocated alloc) outs { s with cp := cp, todo := todo })
  | free (a : Addr) (bufs : List Addr) :
      s.mbufs.length < roundLength role → s.bufs = a :: bufs →
      Worked role alloc s { s with mbufPool := s.mbufPool ++ [a], bufs := bufs }
  | dequeue (timerOut : Bool) :
      s.mbufs.length < roundLength role → s.bufs = [] →
      Worked role alloc s (s.dequeueIn timerOut)

theorem worked_lcoreProbe {pf : Platform} {alloc : Option Addr} {clock : Option Timespec}
    {s s' : Process} (hok : s.lcoreProbe pf alloc clock = .ok s') : Worked .sender alloc s s' := by
  rw [Process.lcoreProbe] at hok
  by_cases hbuilding : s.mbufs.length < pathNb
  · rw [if_pos hbuilding] at hok
    obtain ⟨mbuf, -, hret⟩ := bind_eq_ok_iff.mp hok
    obtain rfl := Except.ok.inj hret
    exact .build s.cp s.todo [mbuf] hbuilding
  · rw [if_neg hbuilding] at hok
    obtain rfl := Except.ok.inj hok
    exact .enqueue (Nat.not_lt.mp hbuilding)

theorem worked_lcoreStats {pf : Platform} {alloc : Option Addr} {clock : Option Timespec}
    {timerOut : Bool} {s s' : Process} (hok : s.lcoreStats pf alloc clock timerOut = .ok s') :
    Worked .receiver alloc s s' := by
  unfold Process.lcoreStats at hok
  split at hok
  · rename_i b mbufs hmbufs
    obtain rfl := Except.ok.inj hok
    exact .enqueue (by simp [hmbufs, roundLength])
  · rename_i a todo hmbufs htodo
    obtain ⟨⟨cp, outs⟩, -, hret⟩ := bind_eq_ok_iff.mp hok
    obtain rfl := Except.ok.inj hret
    exact .build cp s.todo.tail outs (by simp [hmbufs, roundLength])
  · rename_i a bufs hmbufs htodo hbufs
    obtain rfl := Except.ok.inj hok
    exact .free a bufs (by simp [hmbufs, roundLength]) hbufs
  · rename_i hmbufs htodo hbufs
    obtain rfl := Except.ok.inj hok
    exact .dequeue timerOut (by simp [hmbufs, roundLength]) hbufs

theorem worked_of_step {role : Role} {pf : Platform} {alloc : Option Addr}
    {clock : Option Timespec} {timerOut : Bool} {s s' : Process}
    (hok : s.step role pf (.worker alloc clock timerOut) = .ok s') : Worked role alloc s s' := by
  cases role with
  | sender => exact worked_lcoreProbe hok
  | receiver => exact worked_lcoreStats hok

theorem Worked.tidy {role : Role} {alloc : Option Addr} {s s' : Process}
    (hwork : Worked role alloc s s') (h : s.Tidy) : s'.Tidy := by
  cases hwork with
  | enqueue hbuilt => exact ⟨h.recv, h.send⟩
  | build cp todo outs hbuilding =>
      have hbase : Process.Tidy { s with cp := cp, todo := todo } := ⟨h.recv, h.send⟩
      exact tidy_emit hbase (s.allocated alloc) outs
  | free a bufs hbuilding hbufs => exact ⟨h.recv, h.send⟩
  | dequeue timerOut hbuilding hbufs => exact ⟨h.recv, h.send⟩

theorem Worked.places {role : Role} {alloc : Option Addr} {s s' : Process}
    (hwork : Worked role alloc s s') :
    (s'.places ++ if roundLength role ≤ s.mbufs.length then s.mbufs.drop s.hopaOutRing.free
      else []).Perm s.places := by
  cases hwork with
  | enqueue hbuilt =>
      rw [if_pos hbuilt]
      exact places_enqueueOut s
  | build cp todo outs hbuilding =>
      rw [if_neg (Nat.not_le.mpr hbuilding), List.append_nil]
      exact places_emit { s with cp := cp, todo := todo } outs fun a ha =>
        mem_mbufPool_of_allocated ha
  | free a bufs hbuilding hbufs =>
      rw [if_neg (Nat.not_le.mpr hbuilding), List.append_nil]
      apply List.perm_iff_count.mpr
      intro x
      simp only [Process.places, hbufs, List.count_append, List.count_cons, List.count_nil]
      omega
  | dequeue timerOut hbuilding hbufs =>
      rw [if_neg (Nat.not_le.mpr hbuilding), List.append_nil]
      exact places_dequeueIn timerOut hbufs

/-! ### Runs -/

theorem tidy_start (store : Addr → RteMbuf) (info : CurPathInfo) (mp : List Addr) :
    (Process.start store info mp).Tidy := ⟨fun _ => rfl, fun _ => Nat.le_refl 0⟩

theorem places_start (store : Addr → RteMbuf) (info : CurPathInfo) (mp : List Addr) :
    (Process.start store info mp).places = mp := by
  simp [Process.places, Process.start]

section Run

variable {role : Role} {pf : Platform}

theorem tidy_step {s s' : Process} {a : ProcessAction} (h : s.Tidy)
    (hok : s.step role pf a = .ok s') : s'.Tidy := by
  cases a with
  | refill b =>
      obtain rfl := Except.ok.inj hok
      rw [Process.refill]
      split
      · exact ⟨h.recv, h.send⟩
      · exact h
  | sent b =>
      obtain rfl := Except.ok.inj hok
      rw [Process.sent]
      split
      · exact ⟨h.recv, h.send⟩
      · exact h
  | main burst txNum =>
      obtain rfl := Except.ok.inj hok
      exact tidy_main h burst txNum
  | worker alloc clock timerOut => exact (worked_of_step hok).tidy h

/-- A step moves buffers, but for those an enqueue drops. -/
theorem places_step {s s' : Process} {a : ProcessAction} (h : s.Tidy)
    (hok : s.step role pf a = .ok s') : (s'.places ++ s.dropped role a).Perm s.places := by
  cases a with
  | refill b =>
      obtain rfl := Except.ok.inj hok
      rw [Process.dropped, List.append_nil]
      exact places_refill s b
  | sent b =>
      obtain rfl := Except.ok.inj hok
      rw [Process.dropped, List.append_nil]
      exact places_sent s b
  | main burst txNum =>
      obtain rfl := Except.ok.inj hok
      exact places_main h burst txNum
  | worker alloc clock timerOut => exact (worked_of_step hok).places

/-- The invariant: nothing has been dropped so far. -/
structure Process.Inv (mp : List Addr) (s : Process) : Prop where
  tidy : s.Tidy
  all : s.places.Perm mp

theorem processInv_start (store : Addr → RteMbuf) (info : CurPathInfo) (mp : List Addr) :
    (Process.start store info mp).Inv mp :=
  ⟨tidy_start store info mp, List.Perm.of_eq (places_start store info mp)⟩

theorem processInv_step {mp : List Addr} {s s' : Process} {a : ProcessAction} (h : s.Inv mp)
    (hfits : s.Fits role a) (hok : s.step role pf a = .ok s') : s'.Inv mp := by
  have hmove := places_step h.tidy hok
  rw [(dropped_eq_nil_iff role s a).mpr hfits, List.append_nil] at hmove
  exact ⟨tidy_step h.tidy hok, hmove.trans h.all⟩

theorem Process.Inv.conserved {mp : List Addr} (hnodup : mp.Nodup) {s : Process} (h : s.Inv mp) :
    s.Conserved mp := (exactlyOnce_of_nodup hnodup).of_perm h.all

theorem not_conserved_of_not_fits {mp : List Addr} (hnodup : mp.Nodup) {s s' : Process}
    {a : ProcessAction} (h : s.Inv mp) (hfits : ¬ s.Fits role a)
    (hok : s.step role pf a = .ok s') : ¬ s'.Conserved mp := by
  intro hconserved
  have hmove := places_step h.tidy hok
  have hdropped : s.dropped role a = [] := by
    apply (exactlyOnce_iff_of_lost (h.conserved hnodup) hmove _).mp hconserved
    intro b hb
    exact (hmove.trans h.all).mem_iff.mp (List.mem_append_right _ hb)
  exact hfits ((dropped_eq_nil_iff role s a).mp hdropped)

end Run

/-- A step that drops something returns. -/
theorem exists_step_of_not_fits {role : Role} (pf : Platform) {s : Process} {a : ProcessAction}
    (h : ¬ s.Fits role a) : ∃ s', s.step role pf a = .ok s' := by
  cases a with
  | refill b => exact ⟨_, rfl⟩
  | sent b => exact ⟨_, rfl⟩
  | main burst txNum => exact ⟨_, rfl⟩
  | worker alloc clock timerOut =>
      have hbuilt : roundLength role ≤ s.mbufs.length := by
        by_contra hbuilding
        exact h fun hbuilt => absurd hbuilt hbuilding
      cases role with
      | sender =>
          refine ⟨s.enqueueOut, ?_⟩
          show s.lcoreProbe pf alloc clock = _
          rw [Process.lcoreProbe]
          exact if_neg (Nat.not_lt.mpr hbuilt)
      | receiver =>
          refine ⟨s.enqueueOut, ?_⟩
          show s.lcoreStats pf alloc clock timerOut = _
          rw [Process.lcoreStats.eq_def]
          cases hmbufs : s.mbufs with
          | nil =>
            rw [hmbufs] at hbuilt
            exact absurd hbuilt (by decide)
          | cons b mbufs => rfl

/-- In every interleaving no buffer of the pool is lost or in two places exactly when
every burst enqueue finds room for its whole burst. -/
theorem mbufs_conserved_iff (role : Role) (pf : Platform) (store : Addr → RteMbuf)
    (info : CurPathInfo) {mp : List Addr} (hnodup : mp.Nodup) (acts : List ProcessAction) :
    Along (Process.step role pf) (Process.Conserved mp) (fun _ _ _ => True)
        (.start store info mp) acts ↔
      Guarded (Process.step role pf) (Process.Fits role) (.start store info mp) acts := by
  refine along_iff_guarded (fun (s : Process) (h : s.Inv mp) => h.conserved hnodup)
    (fun _ _ _ h hfits hok => ⟨processInv_step h hfits hok, trivial⟩)
    (fun s a h hfits => ?_) acts _ (processInv_start store info mp)
  obtain ⟨s', hok⟩ := exists_step_of_not_fits pf hfits
  exact ⟨s', hok, not_conserved_of_not_fits hnodup h hfits hok⟩

/-- Packet 0 is received and put on the in ring. -/
theorem mbufs_conserved_one :
    Along (Process.step .receiver default) (Process.Conserved [0]) (fun _ _ _ => True)
      (.start (fun _ => zeroBuf) default [0]) [.refill 0, .main [(0, zeroBuf)] 0, .main [] 0] := by
  refine (mbufs_conserved_iff .receiver default (fun _ => zeroBuf) default
    (List.nodup_singleton 0) _).mpr ⟨trivial, fun s₁ h₁ => ?_⟩
  obtain rfl := Except.ok.inj h₁
  refine ⟨fun he => (nomatch he), fun s₂ h₂ => ⟨fun _ => ?_, fun _ _ => trivial⟩⟩
  obtain rfl := Except.ok.inj h₂
  decide

/-! ### A sender that receives -/

/-- A packet arrives in the buffer `a`. -/
def arrive (a : Addr) : List ProcessAction := [.refill a, .main [(a, zeroBuf)] 0]

/-- `main` enqueues a packet and finds nothing to transmit. -/
def receiveOne (a : Addr) : List ProcessAction := arrive a ++ [.main [] 0, .main [] 0]

/-- A process at the head of its loop with `k` packets on the in ring, none on the out
ring, and those from `k` on of its `n` buffers free. -/
structure Filled (n k : Nat) (s : Process) : Prop where
  inv : s.Inv (List.range n)
  pc : s.mainPc = .rxBurst
  queued : s.hopaInRing.count = k
  idle : s.hopaOutRing.items = []
  free : ∀ a, k ≤ a → a < n → a ∈ s.mbufPool

theorem filled_start (store : Addr → RteMbuf) (info : CurPathInfo) (n : Nat) :
    Filled n 0 (.start store info (List.range n)) where
  inv := processInv_start store info (List.range n)
  pc := rfl
  queued := rfl
  idle := rfl
  free := fun _ _ ha => List.mem_range.mpr ha

section Receive

variable (role : Role) (pf : Platform) {n k : Nat} {s : Process}

theorem exec_arrive (h : Filled n k s) (hk : k < n) :
    ∃ t, exec (Process.step role pf) s (arrive k) = .ok t ∧
      t.Inv (List.range n) ∧ t.mainPc = .enqueue ∧ t.recvMbuf = [k] ∧
      t.hopaInRing = s.hopaInRing ∧ t.hopaOutRing = s.hopaOutRing ∧
      t.mbufPool = s.mbufPool.erase k := by
  let r : Process := { s with mbufPool := s.mbufPool.erase k, rxDesc := s.rxDesc ++ [k] }
  have hrefill : s.step role pf (.refill k) = .ok r := by
    rw [Process.step, Process.refill, if_pos (h.free k (Nat.le_refl k) hk)]
  have hmain : r.step role pf (.main [(k, zeroBuf)] 0) = .ok (r.rxBurst [(k, zeroBuf)]) := by
    have hburst : r.received [(k, zeroBuf)] = [(k, zeroBuf)] := by
      rw [Process.received]
      exact if_pos ⟨(List.sublist_append_right s.rxDesc [k]).subperm, Nat.succ_pos 31⟩
    rw [Process.step, Process.main, show r.mainPc = .rxBurst from h.pc]
    show Except.ok (r.rxBurst (r.received [(k, zeroBuf)])) = _
    rw [hburst]
  have hrefilled : s.Fits role (.refill k) := trivial
  have hInv : r.Inv (List.range n) := processInv_step h.inv hrefilled hrefill
  have hfits : r.Fits role (.main [(k, zeroBuf)] 0) := fun he => by
    cases h.pc.symm.trans he
  refine ⟨r.rxBurst [(k, zeroBuf)], ?_, processInv_step hInv hfits hmain, rfl, rfl, rfl, rfl, rfl⟩
  rw [arrive, exec_cons_of_ok _ hrefill, exec_cons_of_ok _ hmain]
  rfl

theorem exec_receiveOne (h : Filled n k s) (hk : k < n) (hroom : k < ringCap) :
    ∃ t, exec (Process.step role pf) s (receiveOne k) = .ok t ∧ Filled n (k + 1) t := by
  obtain ⟨t, hrun, hInv, hpc, hrecv, hin, hout, hpool⟩ := exec_arrive role pf h hk
  have hfits : t.Fits role (.main [] 0) := by
    intro _
    have hqueued := h.queued
    rw [hrecv, hin, BoundedFifo.free, List.length_singleton]
    omega
  have henqueue : t.step role pf (.main [] 0) = .ok t.enqueueIn := by
    rw [Process.step, Process.main, hpc]
  have hInv' := processInv_step hInv hfits henqueue
  have hdequeue : t.enqueueIn.step role pf (.main [] 0) = .ok t.enqueueIn.dequeueOut := rfl
  have hfits' : t.enqueueIn.Fits role (.main [] 0) := fun he => (nomatch he)
  have hempty : t.enqueueIn.hopaOutRing.items = [] := hout ▸ h.idle
  have hitems : t.enqueueIn.hopaInRing.items = s.hopaInRing.items ++ [k] := by
    show (t.hopaInRing.enqueueBurst t.recvMbuf).1.items = _
    rw [BoundedFifo.items_enqueueBurst_of_room (hfits hpc), hin, hrecv]
  refine ⟨t.enqueueIn.dequeueOut, ?_, ?_⟩
  · rw [receiveOne, exec_append_of_ok _ hrun, exec_cons_of_ok _ henqueue]
    exact exec_cons_of_ok _ hdequeue
  · exact {
      inv := processInv_step hInv' hfits' hdequeue
      pc := by
        show (if 0 < (t.enqueueIn.hopaOutRing.items.take burstSize).length then _ else _) = _
        rw [hempty]
        rfl
      queued := by
        show t.enqueueIn.hopaInRing.items.length = k + 1
        rw [hitems, List.length_append]
        exact congrArg (· + 1) h.queued
      idle := by
        show t.enqueueIn.hopaOutRing.items.drop burstSize = []
        rw [hempty]
        rfl
      free := by
        intro a ha han
        show a ∈ t.mbufPool
        rw [hpool]
        have hne : a ≠ k := by omega
        exact (List.mem_erase_of_ne hne).mpr (h.free a (by omega) han) }

theorem exec_receiveAll (store : Addr → RteMbuf) (info : CurPathInfo) (hk : k ≤ n)
    (hroom : k ≤ ringCap) :
    ∃ t, exec (Process.step role pf) (.start store info (List.range n))
        ((List.range k).flatMap receiveOne) = .ok t ∧ Filled n k t := by
  induction k with
  | zero => exact ⟨_, rfl, filled_start store info n⟩
  | succ k ih =>
      obtain ⟨s, hrun, hs⟩ := ih (by omega) (by omega)
      obtain ⟨t, hone, ht⟩ := exec_receiveOne role pf hs (by omega) (by omega)
      refine ⟨t, ?_, ht⟩
      rw [List.range_succ, List.flatMap_append, exec_append_of_ok _ hrun, List.flatMap_singleton]
      exact hone

/-- With one packet more than the in ring takes, the last is lost. -/
theorem not_along_receiveAll (store : Addr → RteMbuf) (info : CurPathInfo)
    (hn : n = ringCap + 1) :
    ¬ Along (Process.step role pf) (Process.Conserved (List.range n)) (fun _ _ _ => True)
      (.start store info (List.range n)) ((List.range n).flatMap receiveOne) := by
  intro halong
  have hlt : ringCap < n := by omega
  obtain ⟨s, hrun, hs⟩ :=
    exec_receiveAll role pf store info (Nat.le_of_lt hlt) (Nat.le_refl ringCap)
  obtain ⟨t, harrive, hInv, hpc, hrecv, hin, -, -⟩ := exec_arrive role pf hs hlt
  have hsplit : (List.range n).flatMap receiveOne =
      (List.range ringCap).flatMap receiveOne ++ (arrive ringCap ++ [.main [] 0, .main [] 0]) := by
    rw [hn, List.range_succ, List.flatMap_append, List.flatMap_singleton, receiveOne]
  rw [hsplit] at halong
  have hlast := (halong.rest hrun).rest harrive
  have hfull : ¬ t.Fits role (.main [] 0) := by
    intro hfits
    have hroom := hfits hpc
    rw [hrecv, hin, BoundedFifo.free, hs.queued, Nat.sub_self] at hroom
    exact absurd hroom (Nat.not_succ_le_zero 0)
  have henqueue : t.step role pf (.main [] 0) = .ok t.enqueueIn := by
    rw [Process.step, Process.main, hpc]
  exact not_conserved_of_not_fits List.nodup_range hInv hfull henqueue
    (hlast.2 _ henqueue).2.here

end Receive

/-- The sender takes nothing off its in ring: the 1024th packet it receives is lost. -/
theorem received_mbuf_lost :
    ¬ Along (Process.step .sender default) (Process.Conserved (List.range 1024))
      (fun _ _ _ => True) (.start (fun _ => zeroBuf) default (List.range 1024))
      ((List.range 1024).flatMap receiveOne) :=
  not_along_receiveAll .sender default (fun _ => zeroBuf) default rfl

end Repath.HopaCp
