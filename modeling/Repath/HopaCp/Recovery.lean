import Repath.HopaCp.Progress

/-!
# Loss recovery between two nodes

Two nodes run `lcore_stats`.  The wire keeps every packet put on it and may
deliver any of them at any time, so packets are lost, repeated and reordered.
The source numbers neither REPATHs nor acknowledgements.  The model numbers a
node's REPATHs in the order they are sent, and an acknowledgement by the REPATH
it answers.
-/

namespace Repath.HopaCp

open Selection Exec

inductive Side
  | left
  | right
  deriving DecidableEq, Repr

def Side.peer : Side → Side
  | .left => .right
  | .right => .left

structure Node where
  state : State
  /-- The REPATHs the node has sent, oldest first. -/
  sent : List RteMbuf
  /-- The numbers of those acknowledged. -/
  acked : List Nat

def Node.Outstanding (n : Node) : Prop := n.sent ≠ [] ∧ n.sent.length - 1 ∉ n.acked

/-- A packet on the wire.  `repath` is the number of the REPATH it is or answers. -/
structure Msg where
  dst : Side
  frame : RteMbuf
  repath : Nat

structure Net where
  node : Side → Node
  wire : List Msg

def Net.start (info : Side → CurPathInfo) : Net :=
  { node := fun side => { state := .start (info side), sent := [], acked := [] }, wire := [] }

/-- `buf` is the buffer an encoder gets when it asks for one. -/
inductive Action
  /-- The data plane hands a packet with its timestamp to the node. -/
  | dataPlane (side : Side) (mbuf buf : RteMbuf)
  | probe (side : Side) (mbuf : RteMbuf) (clock : Timespec)
  /-- Packet `i` of the wire arrives. -/
  | deliver (i : Nat) (buf : RteMbuf)
  | expire (side : Side)

def Net.setNode (net : Net) (side : Side) (n : Node) : Net :=
  { net with node := Function.update net.node side n }

def Net.emit (net : Net) (dst : Side) (repath : Nat) (outs : List RteMbuf) : Net :=
  { net with wire := net.wire ++ outs.map fun m => { dst := dst, frame := m, repath := repath } }

def Net.step (pf : Platform) (net : Net) : Action → Except Stop Net
  | .dataPlane side mbuf buf => do
    let n := net.node side
    let (s, outs) ← hopaDpTsPktProgress pf { mbuf := mbuf, clock := none, alloc := some buf }
      n.state
    .ok ((net.setNode side { n with state := s, sent := n.sent ++ outs }).emit side.peer
      n.sent.length outs)
  | .probe side mbuf clock => do
    let n := net.node side
    let s ← hopaCpProbePktProgress { mbuf := mbuf, clock := some clock, alloc := none } n.state
    .ok (net.setNode side { n with state := s })
  | .deliver i buf =>
    match net.wire[i]? with
    | none => .ok net
    | some msg => do
      let n := net.node msg.dst
      let (s, outs) ← lcoreStats pf { mbuf := msg.frame, clock := none, alloc := some buf } n.state
      let acked := if classify msg.frame = .repathAck then msg.repath :: n.acked else n.acked
      .ok ((net.setNode msg.dst { n with state := s, acked := acked }).emit msg.dst.peer
        msg.repath outs)
  | .expire side =>
    let n := net.node side
    let (s, outs) := timerExpiry n.state
    .ok ((net.setNode side { n with state := s }).emit side.peer (n.sent.length - 1) outs)

/-! ### The property and when it holds -/

def Net.Timed (net : Net) : Prop :=
  ∀ side, (net.node side).state.retranTimer = true ↔ (net.node side).Outstanding

def Resends (net : Net) (a : Action) (net' : Net) : Prop :=
  match a with
  | .expire side => (net.node side).state.retranTimer = true →
      ∃ m, (net.node side).sent.getLast? = some m ∧
        net'.wire = net.wire ++ [{ dst := side.peer, frame := m,
                                   repath := (net.node side).sent.length - 1 }]
  | .dataPlane _ _ _ => True
  | .probe _ _ _ => True
  | .deliver _ _ => True

/-- The repath check does not ask for a REPATH. -/
def Steady (pf : Platform) (net : Net) (a : Action) : Prop :=
  match a with
  | .dataPlane side _ _ => ∀ info, onePathCheck pf (net.node side).state.curPathInfo ≠
      .ok (true, info)
  | .probe _ _ _ => True
  | .deliver _ _ => True
  | .expire _ => True

structure Net.Quiet (net : Net) : Prop where
  wire : net.wire = []
  sent : ∀ side, (net.node side).sent = []
  acked : ∀ side, (net.node side).acked = []
  timer : ∀ side, (net.node side).state.retranTimer = false

theorem quiet_start (info : Side → CurPathInfo) : (Net.start info).Quiet where
  wire := rfl
  sent _ := rfl
  acked _ := rfl
  timer _ := rfl

theorem Net.Quiet.timed {net : Net} (h : net.Quiet) : net.Timed := by
  intro side
  rw [h.timer side]
  constructor
  · intro harmed
    cases harmed
  · intro hout
    exact absurd (h.sent side) hout.1

@[simp] theorem node_setNode_self (net : Net) (side : Side) (n : Node) :
    (net.setNode side n).node side = n := by
  simp [Net.setNode]

theorem node_setNode_of_ne {side other : Side} (net : Net) (n : Node) (h : other ≠ side) :
    (net.setNode side n).node other = net.node other := by
  simp [Net.setNode, h]

theorem Net.Quiet.setNode {net : Net} (h : net.Quiet) (side : Side) {n : Node}
    (hsent : n.sent = []) (hacked : n.acked = []) (htimer : n.state.retranTimer = false) :
    (net.setNode side n).Quiet where
  wire := h.wire
  sent other := by
    by_cases ho : other = side
    · rw [ho, node_setNode_self]
      exact hsent
    · rw [node_setNode_of_ne net n ho]
      exact h.sent other
  acked other := by
    by_cases ho : other = side
    · rw [ho, node_setNode_self]
      exact hacked
    · rw [node_setNode_of_ne net n ho]
      exact h.acked other
  timer other := by
    by_cases ho : other = side
    · rw [ho, node_setNode_self]
      exact htimer
    · rw [node_setNode_of_ne net n ho]
      exact h.timer other

@[simp] theorem emit_nil (net : Net) (dst : Side) (repath : Nat) :
    net.emit dst repath [] = net := by
  rw [Net.emit, List.map_nil, List.append_nil]

@[simp] theorem emit_node (net : Net) (dst : Side) (repath : Nat) (outs : List RteMbuf) :
    (net.emit dst repath outs).node = net.node := rfl

theorem quiet_step {pf : Platform} {net net' : Net} {a : Action} (h : net.Quiet)
    (hG : Steady pf net a) (hs : net.step pf a = .ok net') :
    net'.Quiet ∧ Resends net a net' := by
  cases a with
  | dataPlane side mbuf buf =>
      obtain ⟨⟨s, outs⟩, hok, hs⟩ := bind_eq_ok_iff.mp hs
      obtain rfl := Except.ok.inj hs
      obtain ⟨isRepath, info, hcheck, rfl, hout⟩ := hopaDpTsPktProgress_ok hok
      rcases hout with hyes | hno
      · exact absurd (hyes.1 ▸ hcheck) (hG info)
      · obtain ⟨-, rfl⟩ := hno
        rw [emit_nil]
        refine ⟨h.setNode side ?_ (h.acked side) (h.timer side), trivial⟩
        rw [List.append_nil]
        exact h.sent side
  | probe side mbuf clock =>
      obtain ⟨s, hok, hs⟩ := bind_eq_ok_iff.mp hs
      obtain rfl := Except.ok.inj hs
      obtain ⟨-, -, -, -, rfl, -⟩ := hopaCpProbePktProgress_ok hok
      exact ⟨h.setNode side (h.sent side) (h.acked side) (h.timer side), trivial⟩
  | deliver i buf =>
      rw [Net.step, h.wire, List.getElem?_nil] at hs
      obtain rfl := Except.ok.inj hs
      exact ⟨h, trivial⟩
  | expire side =>
      have htimer := h.timer side
      have hexp : timerExpiry (net.node side).state = ((net.node side).state, []) := by
        rw [timerExpiry, htimer, if_neg (by decide)]
      simp only [Net.step, hexp, emit_nil] at hs
      obtain rfl := Except.ok.inj hs
      refine ⟨h.setNode side (h.sent side) (h.acked side) htimer, fun harmed => ?_⟩
      rw [htimer] at harmed
      cases harmed

theorem not_timed_of_not_steady {pf : Platform} {net : Net} {a : Action} (h : net.Quiet)
    (hG : ¬ Steady pf net a) : ∃ net', net.step pf a = .ok net' ∧ ¬ net'.Timed := by
  cases a with
  | dataPlane side mbuf buf =>
      simp only [Steady, not_forall, not_not] at hG
      obtain ⟨info, hcheck⟩ := hG
      let rx : Rx := { mbuf := mbuf, clock := none, alloc := some buf }
      obtain ⟨m, hm⟩ : ∃ m, encodeRepathPkt pf.cksum rx.alloc
          (net.node side).state.optPathId (net.node side).state.optPathId = .ok m := ⟨_, rfl⟩
      have hok : hopaDpTsPktProgress pf rx (net.node side).state =
          .ok ({ (net.node side).state with curPathInfo := info }, [m]) := by
        rw [hopaDpTsPktProgress, hcheck]
        exact bind_eq_ok_iff.mpr ⟨(true, info), rfl, bind_eq_ok_iff.mpr ⟨m, hm, rfl⟩⟩
      refine ⟨_, bind_eq_ok_iff.mpr ⟨_, hok, rfl⟩, fun htimed => ?_⟩
      have harmed := (htimed side).mpr
      simp only [emit_node, node_setNode_self, h.sent side, List.nil_append] at harmed
      rw [h.timer side] at harmed
      have hout : Node.Outstanding
          { net.node side with state := { (net.node side).state with curPathInfo := info },
                               sent := [m] } := by
        refine ⟨List.cons_ne_nil m [], ?_⟩
        rw [h.acked side]
        exact List.not_mem_nil
      cases harmed hout
  | probe side mbuf clock => exact absurd trivial hG
  | deliver i buf => exact absurd trivial hG
  | expire side => exact absurd trivial hG

/-- Along a run the timers follow the outstanding REPATHs, and expiries resend
them, exactly when no repath check of the run asks for a REPATH. -/
theorem recovers_iff (pf : Platform) (info : Side → CurPathInfo) (acts : List Action) :
    Along (Net.step pf) Net.Timed Resends (.start info) acts ↔
      Guarded (Net.step pf) (Steady pf) (.start info) acts := by
  have hstep : ∀ net a net', net.Quiet → Steady pf net a → net.step pf a = .ok net' →
      net'.Quiet ∧ Resends net a net' := fun _ _ _ h hG hs => quiet_step h hG hs
  have hout : ∀ net a, net.Quiet → ¬ Steady pf net a →
      ∃ net', net.step pf a = .ok net' ∧ ¬ net'.Timed :=
    fun _ _ h hG => not_timed_of_not_steady h hG
  exact along_iff_guarded (fun _ h => Net.Quiet.timed h) hstep hout acts _ (quiet_start info)

/-- One REPATH of the left node is enough: it is outstanding and no timer runs. -/
theorem repath_without_timer :
    ¬ Along (Net.step default) Net.Timed Resends (.start fun _ => risingInfo)
      [.dataPlane .left zeroBuf zeroBuf] := by
  intro h
  have hasked : ¬ Steady default (.start fun _ => risingInfo)
      (.dataPlane .left zeroBuf zeroBuf) := fun hG => hG _ rfl
  obtain ⟨net, hnet, hbad⟩ := not_timed_of_not_steady (quiet_start _) hasked
  exact hbad (h.2 net hnet).2

end Repath.HopaCp
