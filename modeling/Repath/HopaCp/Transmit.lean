import Repath.HopaCp.Conservation

/-!
# What `main` transmits

The transmit loop offers the NIC the rest of `send_mbuf` until all of it is taken, and
only then takes the next packets off the out ring.  A `Transmit` is a process with the
packets that the out ring has accepted and those that the NIC has taken, both oldest
first.  What the NIC takes in a step is what joins the packets it owns.

`offset` is the loop's own: it is set when a burst is begun, and keeps its last value
while `main` finds the out ring empty.
-/

namespace Repath.HopaCp

open Exec

structure Transmit where
  process : Process
  accepted : List Addr
  handed : List Addr
  /-- What the NIC has taken since `main` last took packets off the out ring. -/
  handedRound : List Addr

inductive TransmitAction
  /-- Some thread enqueues a burst on the out ring. -/
  | enqueue (mbufs : List Addr)
  | process (a : ProcessAction)

/-- What the NIC takes in a step from `s` to `s'`. -/
def Process.handed (s s' : Process) : List Addr := s'.txDesc.drop s.txDesc.length

/-- What the out ring accepts of the worker in the step. -/
def Process.accepted (role : Role) (s : Process) : ProcessAction → List Addr
  | .refill _ => []
  | .sent _ => []
  | .main _ _ => []
  | .worker _ _ _ =>
    if roundLength role ≤ s.mbufs.length then
      s.mbufs.take (s.hopaOutRing.enqueueBurst s.mbufs).2
    else []

/-- `handedRound` begins anew when `main` takes packets off the out ring. -/
def Process.kept (round : List Addr) (s : Process) : ProcessAction → List Addr
  | .refill _ => round
  | .sent _ => round
  | .main _ _ => if s.mainPc = .dequeue then [] else round
  | .worker _ _ _ => round

def Transmit.start (store : Addr → RteMbuf) (curPathInfo : CurPathInfo) (mp : List Addr) :
    Transmit :=
  { process := .start store curPathInfo mp, accepted := [], handed := [], handedRound := [] }

def Transmit.enqueue (mbufs : List Addr) (t : Transmit) : Transmit :=
  let (ring, n) := t.process.hopaOutRing.enqueueBurst mbufs
  { t with
    process := { t.process with hopaOutRing := ring }
    accepted := t.accepted ++ mbufs.take n }

def Transmit.observe (role : Role) (a : ProcessAction) (s' : Process) (t : Transmit) : Transmit :=
  { process := s'
    accepted := t.accepted ++ t.process.accepted role a
    handed := t.handed ++ t.process.handed s'
    handedRound := t.process.kept t.handedRound a ++ t.process.handed s' }

def Transmit.step (role : Role) (pf : Platform) (t : Transmit) :
    TransmitAction → Except Stop Transmit
  | .enqueue mbufs => .ok (t.enqueue mbufs)
  | .process a => do
    let s' ← t.process.step role pf a
    .ok (t.observe role a s')

/-- The rest of `send_mbuf` and the contents of the out ring. -/
def Process.unsent (s : Process) : List Addr :=
  s.sendMbuf.drop s.offset ++ s.hopaOutRing.items

/-- Every packet accepted has been taken or is still to be transmitted, in order.
`offset` stays within the packets dequeued, if any were, and below their number where
they are offered to the NIC. -/
structure Transmit.InOrder (t : Transmit) : Prop where
  offset_le : 0 < t.process.sendMbuf.length → t.process.offset ≤ t.process.sendMbuf.length
  offset_lt : t.process.mainPc = .txBurst → t.process.offset < t.process.sendMbuf.length
  queued : t.handed ++ t.process.sendMbuf.drop t.process.offset ++ t.process.hopaOutRing.items =
    t.accepted

/-- A step from inside the transmit loop leaves it exactly when all packets dequeued
have been taken. -/
def LeavesWhenHanded (t : Transmit) (_ : TransmitAction) (t' : Transmit) : Prop :=
  t.process.mainPc = .txBurst →
    (t'.process.mainPc ≠ .txBurst ↔ t'.handedRound = t'.process.sendMbuf)

/-! ### What a step hands over -/

section Step

variable {role : Role} {pf : Platform} {s s' : Process} {a : ProcessAction}

/-- What `rte_eth_tx_burst` takes of the entries that `main` offers. -/
def Process.taken (s : Process) : ProcessAction → List Addr
  | .refill _ => []
  | .sent _ => []
  | .main _ txNum =>
    if s.mainPc = .txBurst then
      (s.sendMbuf.drop s.offset).take (min txNum (s.sendMbuf.length - s.offset))
    else []
  | .worker _ _ _ => []

theorem handed_of_txDesc {taken : List Addr} (h : s'.txDesc = s.txDesc ++ taken) :
    s.handed s' = taken := by
  rw [Process.handed, h]
  exact List.drop_left' rfl

theorem txDesc_main (burst : List (Addr × RteMbuf)) (txNum : Nat) :
    (s.main burst txNum).txDesc = s.txDesc ++ s.taken (.main burst txNum) := by
  rw [Process.main, Process.taken]
  cases hpc : s.mainPc with
  | rxBurst => exact (List.append_nil _).symm
  | enqueue => exact (List.append_nil _).symm
  | dequeue => exact (List.append_nil _).symm
  | txBurst => rfl

theorem txDesc_emit (alloc : Option Addr) (outs : List RteMbuf) :
    (s.emit alloc outs).txDesc = s.txDesc := by
  cases alloc with
  | none => rfl
  | some a =>
      cases outs with
      | nil => rfl
      | cons mbuf outs => rfl

theorem Worked.txDesc {alloc : Option Addr} (hwork : Worked role alloc s s') :
    s'.txDesc = s.txDesc := by
  cases hwork with
  | enqueue hbuilt => rfl
  | build cp todo outs hbuilding =>
      exact txDesc_emit (s := { s with cp := cp, todo := todo }) (s.allocated alloc) outs
  | free a bufs hbuilding hbufs => rfl
  | dequeue timerOut hbuilding hbufs => rfl

/-- Only `main` hands packets to the NIC, those it offers. -/
theorem handed_of_step (hok : s.step role pf a = .ok s') : s.handed s' = s.taken a := by
  cases a with
  | refill b =>
      obtain rfl := Except.ok.inj hok
      apply handed_of_txDesc
      rw [Process.refill]
      split
      · exact (List.append_nil _).symm
      · exact (List.append_nil _).symm
  | sent b =>
      obtain rfl := Except.ok.inj hok
      rw [Process.handed, Process.sent]
      apply List.drop_eq_nil_of_le
      split
      · exact List.length_erase_le
      · exact Nat.le_refl _
  | main burst txNum =>
      obtain rfl := Except.ok.inj hok
      exact handed_of_txDesc (txDesc_main burst txNum)
  | worker alloc clock timerOut =>
      apply handed_of_txDesc
      rw [(worked_of_step hok).txDesc]
      exact (List.append_nil _).symm

theorem unsent_dequeueOut (h : s.sendMbuf.length ≤ s.offset) :
    s.dequeueOut.unsent = s.unsent := by
  rw [Process.unsent, Process.unsent, List.drop_eq_nil_of_le h, drop_offset_dequeueOut]
  exact s.hopaOutRing.dequeueBurst_append burstSize

theorem unsent_txBurst (txNum : Nat) :
    (s.sendMbuf.drop s.offset).take (min txNum (s.sendMbuf.length - s.offset)) ++
      (s.txBurst txNum).unsent = s.unsent := by
  rw [Process.unsent, Process.unsent, ← List.append_assoc]
  show _ ++ s.sendMbuf.drop (s.offset + _) ++ s.hopaOutRing.items = _
  rw [← List.drop_drop, List.take_append_drop]

theorem unsent_main (h : s.Tidy) (burst : List (Addr × RteMbuf)) (txNum : Nat) :
    s.taken (.main burst txNum) ++ (s.main burst txNum).unsent = s.unsent := by
  rw [Process.main, Process.taken]
  cases hpc : s.mainPc with
  | rxBurst => rfl
  | enqueue => rfl
  | dequeue => exact unsent_dequeueOut (h.send (by simp [hpc]))
  | txBurst => exact unsent_txBurst txNum

/-- The step is none of `main`'s transmit path. -/
structure Process.SameTx (s s' : Process) : Prop where
  mainPc : s'.mainPc = s.mainPc
  sendMbuf : s'.sendMbuf = s.sendMbuf
  offset : s'.offset = s.offset

theorem sameTx_emit (alloc : Option Addr) (outs : List RteMbuf) : s.SameTx (s.emit alloc outs) ∧
    (s.emit alloc outs).hopaOutRing = s.hopaOutRing := by
  cases alloc with
  | none => exact ⟨⟨rfl, rfl, rfl⟩, rfl⟩
  | some a =>
      cases outs with
      | nil =>
          rw [Process.emit_nil]
          exact ⟨⟨rfl, rfl, rfl⟩, rfl⟩
      | cons mbuf outs => exact ⟨⟨rfl, rfl, rfl⟩, rfl⟩

/-- The worker only adds to the out ring. -/
theorem Worked.unsent {alloc : Option Addr} (clock : Option Timespec) (timerOut : Bool)
    (hwork : Worked role alloc s s') : s.SameTx s' ∧
      s'.hopaOutRing.items =
        s.hopaOutRing.items ++ s.accepted role (.worker alloc clock timerOut) := by
  rw [Process.accepted]
  cases hwork with
  | enqueue hbuilt =>
      rw [if_pos hbuilt]
      exact ⟨⟨rfl, rfl, rfl⟩, s.hopaOutRing.items_enqueueBurst s.mbufs⟩
  | build cp todo outs hbuilding =>
      rw [if_neg (Nat.not_le.mpr hbuilding), List.append_nil]
      obtain ⟨hsame, hring⟩ :=
        sameTx_emit (s := { s with cp := cp, todo := todo }) (s.allocated alloc) outs
      exact ⟨⟨hsame.mainPc, hsame.sendMbuf, hsame.offset⟩, congrArg BoundedFifo.items hring⟩
  | free a bufs hbuilding hbufs =>
      rw [if_neg (Nat.not_le.mpr hbuilding), List.append_nil]
      exact ⟨⟨rfl, rfl, rfl⟩, rfl⟩
  | dequeue timerOut hbuilding hbufs =>
      rw [if_neg (Nat.not_le.mpr hbuilding), List.append_nil]
      exact ⟨⟨rfl, rfl, rfl⟩, rfl⟩

theorem sameTx_refill (b : Addr) : s.SameTx (s.refill b) ∧
    (s.refill b).hopaOutRing = s.hopaOutRing := by
  rw [Process.refill]
  split
  · exact ⟨⟨rfl, rfl, rfl⟩, rfl⟩
  · exact ⟨⟨rfl, rfl, rfl⟩, rfl⟩

theorem sameTx_sent (b : Addr) : s.SameTx (s.sent b) ∧
    (s.sent b).hopaOutRing = s.hopaOutRing := by
  rw [Process.sent]
  split
  · exact ⟨⟨rfl, rfl, rfl⟩, rfl⟩
  · exact ⟨⟨rfl, rfl, rfl⟩, rfl⟩

theorem Process.SameTx.unsent (hsame : s.SameTx s') {queued : List Addr}
    (hring : s'.hopaOutRing.items = s.hopaOutRing.items ++ queued) :
    s'.unsent = s.unsent ++ queued := by
  rw [Process.unsent, Process.unsent, hsame.sendMbuf, hsame.offset, hring, List.append_assoc]

/-- A step is `main`'s, or it is none of the transmit path and at most adds to the
out ring. -/
theorem main_or_sameTx (hok : s.step role pf a = .ok s') :
    (∃ burst txNum, a = .main burst txNum ∧ s' = s.main burst txNum) ∨
      s.SameTx s' ∧ s'.hopaOutRing.items = s.hopaOutRing.items ++ s.accepted role a ∧
        s.taken a = [] ∧ ∀ round, s.kept round a = round := by
  cases a with
  | refill b =>
      obtain rfl := Except.ok.inj hok
      obtain ⟨hsame, hring⟩ := sameTx_refill (s := s) b
      refine Or.inr ⟨hsame, ?_, rfl, fun _ => rfl⟩
      rw [hring, Process.accepted, List.append_nil]
  | sent b =>
      obtain rfl := Except.ok.inj hok
      obtain ⟨hsame, hring⟩ := sameTx_sent (s := s) b
      refine Or.inr ⟨hsame, ?_, rfl, fun _ => rfl⟩
      rw [hring, Process.accepted, List.append_nil]
  | main burst txNum =>
      obtain rfl := Except.ok.inj hok
      exact Or.inl ⟨burst, txNum, rfl, rfl⟩
  | worker alloc clock timerOut =>
      obtain ⟨hsame, hring⟩ := (worked_of_step hok).unsent clock timerOut
      exact Or.inr ⟨hsame, hring, rfl, fun _ => rfl⟩

/-- What is taken goes off the front of the unsent packets, what is accepted joins
them at the end. -/
theorem unsent_step (h : s.Tidy) (hok : s.step role pf a = .ok s') :
    s.taken a ++ s'.unsent = s.unsent ++ s.accepted role a := by
  rcases main_or_sameTx hok with ⟨burst, txNum, rfl, rfl⟩ | ⟨hsame, hring, htaken, -⟩
  · rw [Process.accepted, List.append_nil]
    exact unsent_main h burst txNum
  · rw [htaken, List.nil_append]
    exact hsame.unsent hring

/-- The part of `send_mbuf` before `offset` has been taken, and the loop goes on while
there is more. -/
structure Process.Round (round : List Addr) (s : Process) : Prop where
  busy : s.mainPc = .txBurst → s.offset < s.sendMbuf.length
  bound : 0 < s.sendMbuf.length → s.offset ≤ s.sendMbuf.length
  taken : round = s.sendMbuf.take s.offset

theorem Process.SameTx.round {round : List Addr} (hsame : s.SameTx s') (h : s.Round round) :
    s'.Round round := by
  constructor
  · rw [hsame.mainPc, hsame.offset, hsame.sendMbuf]
    exact h.busy
  · rw [hsame.offset, hsame.sendMbuf]
    exact h.bound
  · rw [hsame.sendMbuf, hsame.offset]
    exact h.taken

theorem round_rxBurst {round : List Addr} (h : s.Round round) (burst : List (Addr × RteMbuf)) :
    (s.rxBurst burst).Round round where
  busy := by
    rw [Process.rxBurst]
    show (if _ then MainPc.enqueue else .dequeue) = .txBurst → _
    split
    · intro he
      cases he
    · intro he
      cases he
  bound := h.bound
  taken := h.taken

theorem round_dequeueOut (s : Process) : s.dequeueOut.Round [] where
  busy := by
    show (if 0 < s.dequeueOut.sendMbuf.length then MainPc.txBurst else .rxBurst) = .txBurst →
      (if 0 < s.dequeueOut.sendMbuf.length then 0 else s.offset) < s.dequeueOut.sendMbuf.length
    split
    · rename_i hpos
      exact fun _ => hpos
    · intro he
      cases he
  bound := by
    intro hpos
    have hoffset : s.dequeueOut.offset = 0 := if_pos hpos
    rw [hoffset]
    exact Nat.zero_le _
  taken := by
    by_cases hpos : 0 < s.dequeueOut.sendMbuf.length
    · have hoffset : s.dequeueOut.offset = 0 := if_pos hpos
      rw [hoffset, List.take_zero]
    · have hnil : s.dequeueOut.sendMbuf = [] :=
        List.length_eq_zero_iff.mp (Nat.eq_zero_of_not_pos hpos)
      rw [hnil, List.take_nil]

theorem round_txBurst {round : List Addr} (h : s.Round round) (txNum : Nat) :
    (s.txBurst txNum).Round (round ++
      (s.sendMbuf.drop s.offset).take (min txNum (s.sendMbuf.length - s.offset))) where
  busy := by
    show (if (s.txBurst txNum).offset < s.sendMbuf.length then MainPc.txBurst else .rxBurst) =
      .txBurst → _
    split
    · rename_i hlt
      exact fun _ => hlt
    · intro he
      cases he
  bound := by
    intro hpos
    have hle := h.bound hpos
    show s.offset + min txNum (s.sendMbuf.length - s.offset) ≤ s.sendMbuf.length
    omega
  taken := by
    rw [h.taken]
    exact List.take_add.symm

theorem round_main {round : List Addr} (h : s.Round round) (burst : List (Addr × RteMbuf))
    (txNum : Nat) : (s.main burst txNum).Round
      (s.kept round (.main burst txNum) ++ s.taken (.main burst txNum)) := by
  rw [Process.main, Process.kept, Process.taken]
  cases hpc : s.mainPc with
  | rxBurst =>
      rw [if_neg (by simp), if_neg (by simp), List.append_nil]
      exact round_rxBurst h (s.received burst)
  | enqueue =>
      rw [if_neg (by simp), if_neg (by simp), List.append_nil]
      exact {
        busy := by
          intro he
          cases he
        bound := h.bound
        taken := h.taken }
  | dequeue =>
      rw [if_pos rfl, if_neg (by simp), List.append_nil]
      exact round_dequeueOut s
  | txBurst =>
      rw [if_neg (by simp), if_pos rfl]
      exact round_txBurst h txNum

theorem round_step {round : List Addr} (h : s.Round round) (hok : s.step role pf a = .ok s') :
    s'.Round (s.kept round a ++ s.taken a) := by
  rcases main_or_sameTx hok with ⟨burst, txNum, rfl, rfl⟩ | ⟨hsame, -, htaken, hkept⟩
  · exact round_main h burst txNum
  · rw [htaken, hkept, List.append_nil]
    exact hsame.round h

end Step

/-! ### Runs -/

/-- The invariant of a run. -/
structure Transmit.Inv (t : Transmit) : Prop where
  tidy : t.process.Tidy
  round : t.process.Round t.handedRound
  unsent : t.handed ++ t.process.unsent = t.accepted

theorem Transmit.Inv.inOrder {t : Transmit} (h : t.Inv) : t.InOrder where
  offset_le := h.round.bound
  offset_lt := h.round.busy
  queued := by
    rw [List.append_assoc]
    exact h.unsent

/-- Outside the loop all of `send_mbuf` has been taken, inside it there is a rest. -/
theorem Transmit.Inv.left_iff {t : Transmit} (h : t.Inv) :
    t.process.mainPc ≠ .txBurst ↔ t.handedRound = t.process.sendMbuf := by
  rw [h.round.taken, List.take_eq_self_iff]
  constructor
  · exact h.tidy.send
  · intro hall hpc
    exact absurd hall (Nat.not_le.mpr (h.round.busy hpc))

theorem transmitInv_start (store : Addr → RteMbuf) (info : CurPathInfo) (mp : List Addr) :
    (Transmit.start store info mp).Inv where
  tidy := tidy_start store info mp
  round := {
    busy := by
      intro he
      cases he
    bound := fun _ => Nat.zero_le _
    taken := rfl }
  unsent := rfl

theorem transmitInv_enqueue {t : Transmit} (h : t.Inv) (mbufs : List Addr) :
    (t.enqueue mbufs).Inv where
  tidy := ⟨h.tidy.recv, h.tidy.send⟩
  round := ⟨h.round.busy, h.round.bound, h.round.taken⟩
  unsent := by
    have hsame : t.process.SameTx (t.enqueue mbufs).process := ⟨rfl, rfl, rfl⟩
    rw [hsame.unsent (t.process.hopaOutRing.items_enqueueBurst mbufs)]
    show t.handed ++ (t.process.unsent ++ mbufs.take (t.process.hopaOutRing.enqueueBurst mbufs).2) =
      t.accepted ++ mbufs.take (t.process.hopaOutRing.enqueueBurst mbufs).2
    rw [← List.append_assoc, h.unsent]

theorem transmitInv_step {role : Role} {pf : Platform} {t t' : Transmit} {act : TransmitAction}
    (h : t.Inv) (hok : t.step role pf act = .ok t') : t'.Inv := by
  cases act with
  | enqueue mbufs =>
      obtain rfl := Except.ok.inj hok
      exact transmitInv_enqueue h mbufs
  | process a =>
      obtain ⟨s', hstep, hret⟩ := bind_eq_ok_iff.mp hok
      obtain rfl := Except.ok.inj hret
      have hhanded := handed_of_step hstep
      refine ⟨tidy_step h.tidy hstep, ?_, ?_⟩
      · show s'.Round (t.process.kept t.handedRound a ++ t.process.handed s')
        rw [hhanded]
        exact round_step h.round hstep
      · show t.handed ++ t.process.handed s' ++ s'.unsent =
          t.accepted ++ t.process.accepted role a
        rw [hhanded, List.append_assoc, unsent_step h.tidy hstep, ← List.append_assoc, h.unsent]

/-- In every interleaving the packets that the NIC has taken, the rest of `send_mbuf`
and the contents of the out ring are the packets that the ring has accepted, in order.
The transmit loop never offers more than it has dequeued, and it is left exactly when
`send_mbuf` has been taken. -/
theorem transmitted_in_order (role : Role) (pf : Platform) (store : Addr → RteMbuf)
    (info : CurPathInfo) (mp : List Addr) (acts : List TransmitAction) :
    Along (Transmit.step role pf) Transmit.InOrder LeavesWhenHanded (.start store info mp) acts :=
  along_of_invariant (fun _ h => h.inOrder)
    (fun _ _ _ h hok =>
      ⟨transmitInv_step h hok, fun _ => (transmitInv_step h hok).left_iff⟩)
    acts _ (transmitInv_start store info mp)

/-! ### A run -/

/-- Four packets go out in two partial transmissions and one that takes nothing, then
`main` finds the out ring empty, and a fifth packet is enqueued. -/
def twoRounds : List TransmitAction :=
  [.enqueue [1, 2, 3], .enqueue [4], .process (.main [] 0), .process (.main [] 0),
   .process (.main [] 1), .process (.main [] 0), .process (.main [] 3),
   .process (.main [] 0), .process (.main [] 0), .enqueue [5]]

theorem transmitted_in_order_two_rounds :
    Along (Transmit.step .sender default) Transmit.InOrder LeavesWhenHanded
      (.start (fun _ => zeroBuf) default []) twoRounds ∧
    (exec (Transmit.step .sender default) (.start (fun _ => zeroBuf) default []) twoRounds).map
      (fun t => (t.accepted, t.handed, t.process.txDesc, t.process.unsent)) =
        .ok ([1, 2, 3, 4, 5], [1, 2, 3, 4], [1, 2, 3, 4], [5]) :=
  ⟨transmitted_in_order .sender default (fun _ => zeroBuf) default [] twoRounds, by decide⟩

/-- `main` has transmitted four packets and finds the out ring empty: `offset` is then
4 and `total_num` 0. -/
theorem offset_stale_after_empty_dequeue :
    ¬ Along (Transmit.step .sender default)
      (fun t => t.process.offset ≤ t.process.sendMbuf.length) (fun _ _ _ => True)
      (.start (fun _ => zeroBuf) default []) twoRounds := by
  intro h
  obtain ⟨t, hrun, hoffset, htotal⟩ : ∃ t, exec (Transmit.step .sender default)
      (.start (fun _ => zeroBuf) default []) twoRounds = .ok t ∧ t.process.offset = 4 ∧
      t.process.sendMbuf.length = 0 := ⟨_, rfl, rfl, rfl⟩
  rw [← List.append_nil twoRounds] at h
  have hle := (h.rest hrun).here
  rw [hoffset, htotal] at hle
  exact absurd hle (by decide)

end Repath.HopaCp
