import Mathlib.Data.List.Nodup
import Repath.Datapath.FlowLife

/-!
# References to flows

The reference count of a flow is the number of places that point to it, in every
state that the threads can reach.  The simple match table of a thread has the simple
flows of its flow table, one for each mark, and the counters that decide whether
that table may stand in for all others count the flows of a port.
-/

namespace Repath.Datapath

open RefCount

/-- The requests under way, the one being worked on first. -/
def FlowState.pipeline (s : FlowState) : List (Nat × OffloadOp) := s.current.toList ++ s.queue

/-- The flows in the caches. -/
def FlowState.cached (s : FlowState) : List Nat := s.emc.filterMap id

/-- Every place that holds a reference, with the flow it points to. -/
def FlowState.refs (s : FlowState) : List Nat :=
  s.flowTable ++ s.leaving ++ s.simpleMatchTable ++ s.cached ++ s.pipeline.map Prod.fst ++
    s.markToFlow

theorem count_refs (s : FlowState) (g : Nat) :
    s.refs.count g = s.flowTable.count g + s.leaving.count g + s.simpleMatchTable.count g +
      s.cached.count g + (s.pipeline.map Prod.fst).count g + s.markToFlow.count g := by
  simp only [FlowState.refs, List.count_append]

theorem mem_refs {s : FlowState} {g : Nat} :
    g ∈ s.refs ↔ g ∈ s.flowTable ∨ g ∈ s.leaving ∨ g ∈ s.simpleMatchTable ∨ g ∈ s.cached ∨
      g ∈ s.pipeline.map Prod.fst ∨ g ∈ s.markToFlow := by
  simp only [FlowState.refs, List.mem_append, or_assoc]

/-! ### The tables of the PMD threads -/

structure FlowState.Tables (s : FlowState) : Prop where
  nodup : (s.flowTable ++ s.leaving).Nodup
  simpleNodup : s.simpleMatchTable.Nodup
  simpleIff : ∀ f, f ∈ s.simpleMatchTable ↔ f ∈ s.flowTable ∧ (s.flows f).simple = true
  simpleUnique : ∀ f ∈ s.simpleMatchTable, ∀ g ∈ s.simpleMatchTable,
    (s.flows f).pmdId = (s.flows g).pmdId →
      (s.flows f).simpleMatchMark = (s.flows g).simpleMatchMark → f = g
  nFlows : ∀ k, s.nFlows k = s.flowTable.countP fun f => s.port f = k
  nSimpleFlows : ∀ k, s.nSimpleFlows k = s.simpleMatchTable.countP fun f => s.port f = k
  alive : ∀ f ∈ s.flowTable ++ s.leaving, (s.flows f).dead = false

def NetdevFlow.withoutMark (flow : NetdevFlow) : NetdevFlow := { flow with mark := invalidFlowMark }

/-- Nothing has changed that the tables of the PMD threads depend on. -/
structure SameTables (s s' : FlowState) : Prop where
  flowTable : s'.flowTable = s.flowTable
  leaving : s'.leaving = s.leaving
  simpleMatchTable : s'.simpleMatchTable = s.simpleMatchTable
  nFlows : s'.nFlows = s.nFlows
  nSimpleFlows : s'.nSimpleFlows = s.nSimpleFlows
  flows : ∀ f, (s'.flows f).withoutMark = (s.flows f).withoutMark

theorem SameTables.refl (s : FlowState) : SameTables s s where
  flowTable := rfl
  leaving := rfl
  simpleMatchTable := rfl
  nFlows := rfl
  nSimpleFlows := rfl
  flows _ := rfl

theorem SameTables.trans {s t u : FlowState} (h : SameTables s t) (h' : SameTables t u) :
    SameTables s u where
  flowTable := h'.flowTable.trans h.flowTable
  leaving := h'.leaving.trans h.leaving
  simpleMatchTable := h'.simpleMatchTable.trans h.simpleMatchTable
  nFlows := h'.nFlows.trans h.nFlows
  nSimpleFlows := h'.nSimpleFlows.trans h.nSimpleFlows
  flows f := (h'.flows f).trans (h.flows f)

section Same

variable {s s' : FlowState} (h : SameTables s s') (f : Nat)
include h

theorem SameTables.pmdId : (s'.flows f).pmdId = (s.flows f).pmdId := by
  have hflow := congrArg NetdevFlow.pmdId (h.flows f)
  exact hflow

theorem SameTables.simple : (s'.flows f).simple = (s.flows f).simple := by
  have hflow := congrArg NetdevFlow.simple (h.flows f)
  exact hflow

theorem SameTables.simpleMatchMark :
    (s'.flows f).simpleMatchMark = (s.flows f).simpleMatchMark := by
  have hflow := congrArg NetdevFlow.simpleMatchMark (h.flows f)
  exact hflow

theorem SameTables.dead : (s'.flows f).dead = (s.flows f).dead := by
  have hflow := congrArg NetdevFlow.dead (h.flows f)
  exact hflow

theorem SameTables.megaUfid : (s'.flows f).megaUfid = (s.flows f).megaUfid := by
  have hflow := congrArg NetdevFlow.megaUfid (h.flows f)
  exact hflow

theorem SameTables.port : s'.port f = s.port f := by
  have hflow := congrArg (fun flow : NetdevFlow => (flow.pmdId, flow.inPort)) (h.flows f)
  exact hflow

end Same

theorem FlowState.Tables.of_same {s s' : FlowState} (h : s.Tables) (hs : SameTables s s') :
    s'.Tables where
  nodup := by
    rw [hs.flowTable, hs.leaving]
    exact h.nodup
  simpleNodup := by
    rw [hs.simpleMatchTable]
    exact h.simpleNodup
  simpleIff f := by
    rw [hs.simpleMatchTable, hs.flowTable, hs.simple]
    exact h.simpleIff f
  simpleUnique f hf g hg := by
    rw [hs.simpleMatchTable] at hf hg
    rw [hs.pmdId, hs.pmdId, hs.simpleMatchMark, hs.simpleMatchMark]
    exact h.simpleUnique f hf g hg
  nFlows k := by
    rw [hs.nFlows, hs.flowTable]
    simp only [hs.port]
    exact h.nFlows k
  nSimpleFlows k := by
    rw [hs.nSimpleFlows, hs.simpleMatchTable]
    simp only [hs.port]
    exact h.nSimpleFlows k
  alive f hf := by
    rw [hs.flowTable, hs.leaving] at hf
    rw [hs.dead]
    exact h.alive f hf

theorem flowRef_eq {s : FlowState} {f : Nat} (h : s.refCnt f ≠ 0) :
    dpNetdevFlowRef s f =
      ({ s with refCnt := Function.update s.refCnt f (s.refCnt f + 1) }, true) := if_neg h

theorem sameTables_cnt (s : FlowState) (refCnt : Nat → Nat) :
    SameTables s { s with refCnt := refCnt } where
  flowTable := rfl
  leaving := rfl
  simpleMatchTable := rfl
  nFlows := rfl
  nSimpleFlows := rfl
  flows _ := rfl

theorem sameTables_ref (s : FlowState) (f : Nat) : SameTables s (dpNetdevFlowRef s f).1 := by
  unfold dpNetdevFlowRef
  by_cases h : s.refCnt f = 0
  · rw [if_pos h]
    exact SameTables.refl s
  · rw [if_neg h]
    exact sameTables_cnt s _

theorem sameTables_queue (s : FlowState) (f : Nat) (op : OffloadOp) :
    SameTables s (queueNetdevFlow s f op) := by
  have href := sameTables_ref s f
  unfold queueNetdevFlow
  cases s.flowApi with
  | false => exact SameTables.refl s
  | true => exact { href with }

/-! ### The simple match table -/

theorem simpleMatchLookup_of_mem {s : FlowState} (h : s.Tables) {f : Nat}
    (hf : f ∈ s.simpleMatchTable) :
    simpleMatchLookup s (s.flows f).pmdId (s.flows f).simpleMatchMark = some f := by
  unfold simpleMatchLookup
  cases hfind : s.simpleMatchTable.find? fun g => decide ((s.flows g).pmdId = (s.flows f).pmdId ∧
      (s.flows g).simpleMatchMark = (s.flows f).simpleMatchMark) with
  | none =>
      have hno := List.find?_eq_none.mp hfind f hf
      exact absurd (decide_eq_true ⟨rfl, rfl⟩) hno
  | some g =>
      have hg := List.find?_some hfind
      obtain ⟨hpmd, hmark⟩ := of_decide_eq_true hg
      rw [h.simpleUnique g (List.mem_of_find?_eq_some hfind) f hf hpmd hmark]

theorem simpleMatchRemove_of_mem {s : FlowState} (h : s.Tables) {f : Nat}
    (hf : f ∈ s.simpleMatchTable) :
    simpleMatchRemove s f = dpNetdevFlowUnref
      { s with simpleMatchTable := s.simpleMatchTable.erase f,
               nSimpleFlows :=
                 Function.update s.nSimpleFlows (s.port f) (s.nSimpleFlows (s.port f) - 1) } f :=
  if_pos (simpleMatchLookup_of_mem h hf)

theorem simpleMatchRemove_of_not_mem {s : FlowState} {f : Nat} (hf : f ∉ s.simpleMatchTable) :
    simpleMatchRemove s f = s :=
  if_neg fun hfind => hf (List.mem_of_find?_eq_some hfind)

theorem simpleMatchInsert_eq {s : FlowState} {f : Nat} (hcnt : s.refCnt f ≠ 0)
    (hf : f ∉ s.simpleMatchTable) :
    simpleMatchInsert s f =
      { s with refCnt := Function.update s.refCnt f (s.refCnt f + 1),
               simpleMatchTable := f :: s.simpleMatchTable,
               nSimpleFlows :=
                 Function.update s.nSimpleFlows (s.port f) (s.nSimpleFlows (s.port f) + 1) } := by
  have hremove := simpleMatchRemove_of_not_mem (f := f)
    (s := { s with refCnt := Function.update s.refCnt f (s.refCnt f + 1) }) hf
  unfold simpleMatchInsert
  rw [flowRef_eq hcnt]
  dsimp only
  rw [if_pos rfl, hremove]
  rfl

/-- The simple flows of a port are counted apart. -/
theorem simpleMatchEnabled_iff {s : FlowState} (h : s.Tables) (pmdId inPort : Nat) :
    simpleMatchEnabled s pmdId inPort = true ↔
      ∀ f ∈ s.flowTable, s.port f = (pmdId, inPort) → (s.flows f).simple = true := by
  have hperm : s.simpleMatchTable.Perm (s.flowTable.filter fun f => (s.flows f).simple) := by
    apply (List.perm_ext_iff_of_nodup h.simpleNodup
      ((List.nodup_append.mp h.nodup).1.filter _)).mpr
    intro f
    rw [List.mem_filter]
    exact h.simpleIff f
  have hsplit := List.countP_eq_countP_filter_add s.flowTable
    (fun f => decide (s.port f = (pmdId, inPort))) fun f => (s.flows f).simple
  unfold simpleMatchEnabled
  rw [beq_iff_eq, h.nFlows, h.nSimpleFlows, hperm.countP_eq, hsplit]
  constructor
  · intro hcount f hf hport
    by_contra hsimple
    have hzero : ((s.flowTable.filter fun f => !(s.flows f).simple).countP
        fun f => decide (s.port f = (pmdId, inPort))) = 0 := by omega
    have hno := List.countP_eq_zero.mp hzero f
      (List.mem_filter.mpr ⟨hf, by simpa using hsimple⟩)
    exact hno (decide_eq_true hport)
  · intro hall
    rw [Nat.add_eq_left, List.countP_eq_zero]
    intro f hf hport
    obtain ⟨hf, hsimple⟩ := List.mem_filter.mp hf
    rw [hall f hf (of_decide_eq_true hport)] at hsimple
    cases hsimple

/-- The tables with one more flow. -/
def FlowState.withFlow (s : FlowState) (f : Nat) (flow : NetdevFlow) : FlowState :=
  { s with
    flows := Function.update s.flows f { flow with dead := false, mark := invalidFlowMark },
    refCnt := Function.update s.refCnt f 1,
    flowTable := f :: s.flowTable,
    nFlows := Function.update s.nFlows (flow.pmdId, flow.inPort)
      (s.nFlows (flow.pmdId, flow.inPort) + 1) }

section WithFlow

variable {s : FlowState} {f : Nat} {flow : NetdevFlow}

theorem withFlow_flows_self :
    (s.withFlow f flow).flows f = { flow with dead := false, mark := invalidFlowMark } :=
  Function.update_self f _ s.flows

theorem withFlow_flows_of_ne {g : Nat} (hg : g ≠ f) : (s.withFlow f flow).flows g = s.flows g :=
  Function.update_of_ne hg _ s.flows

theorem withFlow_port_self : (s.withFlow f flow).port f = (flow.pmdId, flow.inPort) := by
  unfold FlowState.port
  rw [withFlow_flows_self]

theorem withFlow_port_of_ne {g : Nat} (hg : g ≠ f) : (s.withFlow f flow).port g = s.port g := by
  unfold FlowState.port
  rw [withFlow_flows_of_ne hg]

theorem countP_withFlow {xs : List Nat} (hf : f ∉ xs) (k : Nat × Nat) :
    (xs.countP fun g => (s.withFlow f flow).port g = k) = xs.countP fun g => s.port g = k := by
  apply List.countP_congr
  intro g hg
  have hne : g ≠ f := fun he => hf (he ▸ hg)
  rw [withFlow_port_of_ne hne]

/-- A simple flow gets its place in the simple match table, other flows get none. -/
theorem tables_withFlow (h : s.Tables) (hf : f ∉ s.flowTable) (hleft : f ∉ s.leaving)
    (hmark : flow.simple = true →
      simpleMatchLookup s flow.pmdId flow.simpleMatchMark = none) :
    FlowState.Tables (if flow.simple then simpleMatchInsert (s.withFlow f flow) f
      else s.withFlow f flow) := by
  have hsimple : f ∉ s.simpleMatchTable := fun hmem => hf ((h.simpleIff f).mp hmem).1
  have hne : ∀ g ∈ s.simpleMatchTable, g ≠ f := fun g hg he => hsimple (he ▸ hg)
  have hnodup : (f :: s.flowTable ++ s.leaving).Nodup := by
    rw [List.cons_append]
    refine List.nodup_cons.mpr ⟨?_, h.nodup⟩
    rw [List.mem_append]
    exact fun hmem => hmem.elim hf hleft
  have hcount : ∀ k, (s.withFlow f flow).nFlows k =
      (f :: s.flowTable).countP fun g => (s.withFlow f flow).port g = k := by
    intro k
    rw [List.countP_cons, countP_withFlow hf, withFlow_port_self, ← h.nFlows k]
    show Function.update s.nFlows _ _ k = _
    by_cases hk : k = (flow.pmdId, flow.inPort)
    · subst hk
      simp
    · rw [Function.update_of_ne hk, if_neg (by simpa using Ne.symm hk)]
      rfl
  have halive : ∀ g ∈ f :: s.flowTable ++ s.leaving,
      ((s.withFlow f flow).flows g).dead = false := by
    intro g hg
    rw [List.cons_append] at hg
    by_cases hgf : g = f
    · rw [hgf, withFlow_flows_self]
    · rw [withFlow_flows_of_ne hgf]
      exact h.alive g ((List.mem_cons.mp hg).resolve_left hgf)
  cases hs : flow.simple with
  | false =>
      rw [if_neg Bool.false_ne_true]
      exact
        { nodup := hnodup
          simpleNodup := h.simpleNodup
          simpleIff := by
            intro g
            show g ∈ s.simpleMatchTable ↔ g ∈ f :: s.flowTable ∧ _
            by_cases hg : g = f
            · rw [hg, withFlow_flows_self]
              simp [hsimple, hs]
            · rw [withFlow_flows_of_ne hg, h.simpleIff g]
              simp [hg]
          simpleUnique := by
            intro g hg g' hg'
            rw [withFlow_flows_of_ne (hne g hg), withFlow_flows_of_ne (hne g' hg')]
            exact h.simpleUnique g hg g' hg'
          nFlows := hcount
          nSimpleFlows := by
            intro k
            show s.nSimpleFlows k = _
            rw [h.nSimpleFlows k]
            exact (countP_withFlow hsimple k).symm
          alive := halive }
  | true =>
      have hone : (s.withFlow f flow).refCnt f ≠ 0 := by
        show Function.update s.refCnt f 1 f ≠ 0
        rw [Function.update_self]
        exact Nat.one_ne_zero
      rw [if_pos rfl, simpleMatchInsert_eq hone hsimple]
      have hother : ∀ g ∈ s.simpleMatchTable, ¬ ((s.flows g).pmdId = flow.pmdId ∧
          (s.flows g).simpleMatchMark = flow.simpleMatchMark) := by
        intro g hg hsame
        exact List.find?_eq_none.mp (hmark hs) g hg (decide_eq_true hsame)
      exact
        { nodup := hnodup
          simpleNodup := List.nodup_cons.mpr ⟨hsimple, h.simpleNodup⟩
          simpleIff := by
            intro g
            show g ∈ f :: s.simpleMatchTable ↔
              g ∈ f :: s.flowTable ∧ ((s.withFlow f flow).flows g).simple = true
            by_cases hg : g = f
            · rw [hg, withFlow_flows_self]
              simp [hs]
            · rw [withFlow_flows_of_ne hg, List.mem_cons, List.mem_cons, h.simpleIff g]
              simp [hg]
          simpleUnique := by
            intro g hg g' hg'
            show ((s.withFlow f flow).flows g).pmdId = ((s.withFlow f flow).flows g').pmdId →
              ((s.withFlow f flow).flows g).simpleMatchMark =
                ((s.withFlow f flow).flows g').simpleMatchMark → g = g'
            rcases List.mem_cons.mp hg with rfl | hg
            · rcases List.mem_cons.mp hg' with rfl | hg'
              · exact fun _ _ => rfl
              · rw [withFlow_flows_self, withFlow_flows_of_ne (hne g' hg')]
                exact fun hpmd hmk => absurd ⟨hpmd.symm, hmk.symm⟩ (hother g' hg')
            · rw [withFlow_flows_of_ne (hne g hg)]
              rcases List.mem_cons.mp hg' with rfl | hg'
              · rw [withFlow_flows_self]
                exact fun hpmd hmk => absurd ⟨hpmd, hmk⟩ (hother g hg)
              · rw [withFlow_flows_of_ne (hne g' hg')]
                exact h.simpleUnique g hg g' hg'
          nFlows := hcount
          nSimpleFlows := by
            intro k
            show Function.update s.nSimpleFlows ((s.withFlow f flow).port f) _ k =
              (f :: s.simpleMatchTable).countP fun g => (s.withFlow f flow).port g = k
            rw [List.countP_cons, countP_withFlow hsimple, ← h.nSimpleFlows k]
            by_cases hk : k = (s.withFlow f flow).port f
            · subst hk
              simp
              rfl
            · rw [Function.update_of_ne hk, if_neg (by simpa using Ne.symm hk)]
              rfl
          alive := halive }

end WithFlow

/-- The tables with a flow on its way out. -/
def FlowState.withoutFlow (s : FlowState) (f : Nat) : FlowState :=
  { s with
    refCnt := if f ∈ s.simpleMatchTable then Function.update s.refCnt f (s.refCnt f - 1)
      else s.refCnt,
    simpleMatchTable := s.simpleMatchTable.erase f,
    nSimpleFlows := if f ∈ s.simpleMatchTable
      then Function.update s.nSimpleFlows (s.port f) (s.nSimpleFlows (s.port f) - 1)
      else s.nSimpleFlows,
    flowTable := s.flowTable.erase f,
    nFlows := Function.update s.nFlows (s.port f) (s.nFlows (s.port f) - 1),
    leaving := f :: s.leaving }

section WithoutFlow

variable {s : FlowState} {f : Nat}

theorem removeUnlink_eq (h : s.Tables) :
    removeUnlink s f = queueNetdevFlow (s.withoutFlow f) f .del := by
  unfold removeUnlink FlowState.withoutFlow
  by_cases hf : f ∈ s.simpleMatchTable
  · rw [simpleMatchRemove_of_mem h hf, if_pos hf, if_pos hf]
    rfl
  · rw [simpleMatchRemove_of_not_mem hf, if_neg hf, if_neg hf, List.erase_of_not_mem hf]

/-- One occurrence less of what is counted. -/
theorem countP_erase_of_mem {xs : List Nat} (hf : f ∈ xs) (k : Nat × Nat) :
    (xs.countP fun g => s.port g = k) =
      ((xs.erase f).countP fun g => s.port g = k) + if s.port f = k then 1 else 0 := by
  rw [(List.perm_cons_erase hf).countP_eq, List.countP_cons]
  simp only [decide_eq_true_eq]

theorem tables_withoutFlow (h : s.Tables) (hf : f ∈ s.flowTable) : (s.withoutFlow f).Tables := by
  have hperm : (s.flowTable.erase f ++ f :: s.leaving).Perm (s.flowTable ++ s.leaving) :=
    List.perm_middle.trans ((List.perm_cons_erase hf).symm.append_right s.leaving)
  have htable : s.flowTable.Nodup := (List.nodup_append.mp h.nodup).1
  exact
    { nodup := hperm.nodup_iff.mpr h.nodup
      simpleNodup := h.simpleNodup.erase f
      simpleIff := by
        intro g
        show g ∈ s.simpleMatchTable.erase f ↔ g ∈ s.flowTable.erase f ∧ (s.flows g).simple = true
        rw [h.simpleNodup.mem_erase_iff, htable.mem_erase_iff, h.simpleIff g, and_assoc]
      simpleUnique := fun g hg g' hg' =>
        h.simpleUnique g (List.mem_of_mem_erase hg) g' (List.mem_of_mem_erase hg')
      nFlows := by
        intro k
        show Function.update s.nFlows (s.port f) _ k =
          (s.flowTable.erase f).countP fun g => s.port g = k
        have hcount := countP_erase_of_mem (s := s) hf k
        rw [← h.nFlows k] at hcount
        by_cases hk : k = s.port f
        · subst hk
          rw [Function.update_self, hcount, if_pos rfl, Nat.add_sub_cancel]
        · rw [Function.update_of_ne hk, hcount, if_neg (Ne.symm hk), Nat.add_zero]
      nSimpleFlows := by
        intro k
        show (if f ∈ s.simpleMatchTable
          then Function.update s.nSimpleFlows (s.port f) (s.nSimpleFlows (s.port f) - 1)
          else s.nSimpleFlows) k = (s.simpleMatchTable.erase f).countP fun g => s.port g = k
        by_cases hs : f ∈ s.simpleMatchTable
        · have hcount := countP_erase_of_mem (s := s) hs k
          rw [← h.nSimpleFlows k] at hcount
          rw [if_pos hs]
          by_cases hk : k = s.port f
          · subst hk
            rw [Function.update_self, hcount, if_pos rfl, Nat.add_sub_cancel]
          · rw [Function.update_of_ne hk, hcount, if_neg (Ne.symm hk), Nat.add_zero]
        · rw [if_neg hs, List.erase_of_not_mem hs]
          exact h.nSimpleFlows k
      alive := fun g hg => h.alive g (hperm.mem_iff.mp hg) }

theorem tables_removeKill (h : s.Tables) (hf : f ∈ s.leaving) : (removeKill s f).Tables := by
  obtain ⟨-, hleaving, hdisjoint⟩ := List.nodup_append.mp h.nodup
  have hsub : (s.flowTable ++ s.leaving.erase f).Sublist (s.flowTable ++ s.leaving) :=
    List.Sublist.append_left List.erase_sublist s.flowTable
  have hne : ∀ g ∈ s.flowTable ++ s.leaving.erase f, g ≠ f := by
    intro g hg
    rcases List.mem_append.mp hg with hg | hg
    · exact hdisjoint g hg f hf
    · exact (hleaving.mem_erase_iff.mp hg).1
  -- only the flow that leaves is marked dead, and it is in no table
  have hflows : ∀ g, ((removeKill s f).flows g).pmdId = (s.flows g).pmdId ∧
      ((removeKill s f).flows g).inPort = (s.flows g).inPort ∧
      ((removeKill s f).flows g).simple = (s.flows g).simple ∧
      ((removeKill s f).flows g).simpleMatchMark = (s.flows g).simpleMatchMark := by
    intro g
    show (Function.update s.flows f _ g).pmdId = _ ∧ (Function.update s.flows f _ g).inPort = _ ∧
      (Function.update s.flows f _ g).simple = _ ∧
      (Function.update s.flows f _ g).simpleMatchMark = _
    by_cases hg : g = f
    · subst hg
      rw [Function.update_self]
      exact ⟨rfl, rfl, rfl, rfl⟩
    · rw [Function.update_of_ne hg]
      exact ⟨rfl, rfl, rfl, rfl⟩
  have hport : ∀ g, (removeKill s f).port g = s.port g := by
    intro g
    unfold FlowState.port
    rw [(hflows g).1, (hflows g).2.1]
  exact
    { nodup := h.nodup.sublist hsub
      simpleNodup := h.simpleNodup
      simpleIff := by
        intro g
        rw [(hflows g).2.2.1]
        exact h.simpleIff g
      simpleUnique := by
        intro g hg g' hg'
        rw [(hflows g).1, (hflows g').1, (hflows g).2.2.2, (hflows g').2.2.2]
        exact h.simpleUnique g hg g' hg'
      nFlows := by
        intro k
        simp only [hport]
        exact h.nFlows k
      nSimpleFlows := by
        intro k
        simp only [hport]
        exact h.nSimpleFlows k
      alive := by
        intro g hg
        show (Function.update s.flows f _ g).dead = false
        rw [Function.update_of_ne (hne g hg)]
        exact h.alive g (hsub.subset hg) }

end WithoutFlow

/-! ### What the other steps leave alone -/

theorem sameTables_emcChange (s : FlowState) (f i : Nat) :
    SameTables s (emcChangeEntry s f i) := by
  unfold emcChangeEntry
  cases s.emc[i]? with
  | none => exact SameTables.refl s
  | some entry =>
      dsimp only
      by_cases he : entry = some f
      · rw [if_pos he]
        exact SameTables.refl s
      · rw [if_neg he]
        cases entry with
        | none => exact { sameTables_ref s f with }
        | some old =>
            have hold : SameTables s (dpNetdevFlowUnref s old) := sameTables_cnt s _
            exact { hold.trans (sameTables_ref (dpNetdevFlowUnref s old) f) with }

theorem sameTables_emcClear (s : FlowState) (i : Nat) : SameTables s (emcClearEntry s i) := by
  unfold emcClearEntry
  cases s.emc[i]? with
  | none => exact SameTables.refl s
  | some entry =>
      cases entry with
      | none => exact SameTables.refl s
      | some old => exact { SameTables.refl s with }

theorem sameTables_setMark (s : FlowState) (f mark : Nat) : SameTables s (s.setMark f mark) where
  flowTable := rfl
  leaving := rfl
  simpleMatchTable := rfl
  nFlows := rfl
  nSimpleFlows := rfl
  flows g := by
    show (Function.update s.flows f _ g).withoutMark = _
    by_cases hg : g = f
    · subst hg
      rw [Function.update_self]
      rfl
    · rw [Function.update_of_ne hg]

theorem sameTables_associate (s : FlowState) (f mark : Nat) :
    SameTables s (markToFlowAssociate s f mark) :=
  { (sameTables_ref s f).trans (sameTables_setMark (dpNetdevFlowRef s f).1 f mark) with }

theorem sameTables_disassociate (s : FlowState) (f : Nat) :
    SameTables s (markToFlowDisassociate s f) := by
  unfold markToFlowDisassociate
  dsimp only
  by_cases hmark : (s.flows f).mark = invalidFlowMark
  · rw [if_pos hmark]
    exact SameTables.refl s
  · rw [if_neg hmark]
    have hset := sameTables_setMark s f invalidFlowMark
    cases flowMarkHasNoRef
      { s.setMark f invalidFlowMark with markToFlow := s.markToFlow.erase f } (s.flows f).mark with
    | false => exact { hset with }
    | true => exact { hset with }

theorem sameTables_put {s s' : FlowState} {f : Nat} {op : OffloadOp} {alloc : Option Nat}
    {ok : Bool} (h : offloadPut s f op alloc ok = .ok s') : SameTables s s' := by
  unfold offloadPut at h
  dsimp only at h
  split at h
  · obtain rfl := Except.ok.inj h
    cases ok with
    | false => exact sameTables_disassociate s f
    | true => exact SameTables.refl s
  · split at h
    · split at h
      · split at h
        · obtain rfl := Except.ok.inj h
          exact SameTables.refl s
        · cases h
      · obtain rfl := Except.ok.inj h
        exact sameTables_associate s f _
    · cases alloc with
      | none =>
          obtain rfl := Except.ok.inj h
          exact SameTables.refl s
      | some mark =>
          cases ok with
          | false =>
              obtain rfl := Except.ok.inj h
              exact SameTables.refl s
          | true =>
              obtain rfl := Except.ok.inj h
              exact { sameTables_associate { s with
                markPool := mark :: s.markPool,
                megaflowToMark := ((s.flows f).megaUfid, mark) :: s.megaflowToMark } f mark with }

theorem sameTables_start (s : FlowState) : SameTables s (offloadStart s) := by
  unfold offloadStart
  split
  · split
    · exact { SameTables.refl s with }
    · exact { SameTables.refl s with }
  · exact SameTables.refl s

theorem sameTables_finish {s s' : FlowState} {alloc : Option Nat} {ok : Bool}
    (h : offloadFinish s alloc ok = .ok s') : SameTables s s' := by
  unfold offloadFinish at h
  cases hc : s.current with
  | none =>
      rw [hc] at h
      obtain rfl := Except.ok.inj h
      exact SameTables.refl s
  | some item =>
      obtain ⟨f, op⟩ := item
      rw [hc] at h
      cases op with
      | del =>
          obtain rfl := Except.ok.inj h
          exact { sameTables_disassociate s f with }
      | add =>
          obtain ⟨t, ht, rfl⟩ := Exec.map_eq_ok_iff.mp h
          exact { sameTables_put ht with }
      | mod =>
          obtain ⟨t, ht, rfl⟩ := Exec.map_eq_ok_iff.mp h
          exact { sameTables_put ht with }

/-- The tables of the PMD threads, step by step. -/
theorem tables_step {s s' : FlowState} {e : FlowEvent} (h : s.Tables)
    (hrefs : Counted s.refCnt s.refs) (hguard : FlowGuard s e) (hstep : flowStep s e = .ok s') :
    s'.Tables := by
  cases e with
  | enableFlowApi =>
      obtain rfl := Except.ok.inj hstep
      exact h.of_same { SameTables.refl s with }
  | add f flow =>
      obtain rfl := Except.ok.inj hstep
      have hfree : f ∉ s.refs := hrefs.not_mem hguard.1
      rw [mem_refs] at hfree
      have hadded := tables_withFlow h (fun hf => hfree (Or.inl hf))
        (fun hf => hfree (Or.inr (Or.inl hf))) hguard.2
      exact hadded.of_same (sameTables_queue _ f .add)
  | modify f =>
      obtain rfl := Except.ok.inj hstep
      exact h.of_same (sameTables_queue s f .mod)
  | unlink f =>
      obtain rfl := Except.ok.inj hstep
      rw [removeUnlink_eq h]
      exact (tables_withoutFlow h hguard).of_same (sameTables_queue _ f .del)
  | kill f =>
      obtain rfl := Except.ok.inj hstep
      exact tables_removeKill h hguard
  | emcChange i f =>
      obtain rfl := Except.ok.inj hstep
      exact h.of_same (sameTables_emcChange s f i)
  | emcClear i =>
      obtain rfl := Except.ok.inj hstep
      exact h.of_same (sameTables_emcClear s i)
  | offloadStart =>
      obtain rfl := Except.ok.inj hstep
      exact h.of_same (sameTables_start s)
  | offloadFinish alloc ok => exact h.of_same (sameTables_finish hstep)

/-! ### The counts -/

section Counts

variable {s : FlowState} {f : Nat}

theorem counted_queue (h : Counted s.refCnt s.refs) (hf : f ∈ s.refs) (op : OffloadOp) :
    Counted (queueNetdevFlow s f op).refCnt (queueNetdevFlow s f op).refs := by
  unfold queueNetdevFlow
  rw [flowRef_eq (h.pos hf)]
  cases s.flowApi with
  | false => exact h
  | true =>
      rw [if_pos rfl]
      apply (h.acquire f).perm
      apply List.perm_iff_count.mpr
      intro g
      rw [List.count_cons, count_refs, count_refs]
      simp only [FlowState.pipeline, FlowState.cached, List.map_append, List.count_append,
        List.map_singleton, List.count_singleton]
      omega

theorem counted_withFlow (h : Counted s.refCnt s.refs) (hfree : s.refCnt f = 0)
    (flow : NetdevFlow) :
    let t := if flow.simple then simpleMatchInsert (s.withFlow f flow) f else s.withFlow f flow
    Counted t.refCnt t.refs ∧ f ∈ t.refs := by
  intro t
  have hone : Counted (s.withFlow f flow).refCnt (s.withFlow f flow).refs := h.fresh hfree
  have hmem : f ∈ (s.withFlow f flow).refs := mem_refs.mpr (Or.inl List.mem_cons_self)
  have hsimple : f ∉ s.simpleMatchTable := by
    intro hin
    exact h.not_mem hfree (mem_refs.mpr (Or.inr (Or.inr (Or.inl hin))))
  cases hflow : flow.simple with
  | false =>
      have ht : t = s.withFlow f flow := by
        show (if flow.simple then _ else _) = _
        rw [hflow, if_neg Bool.false_ne_true]
      rw [ht]
      exact ⟨hone, hmem⟩
  | true =>
      have ht : t = _ := (if_pos hflow).trans (simpleMatchInsert_eq (hone.pos hmem) hsimple)
      rw [ht]
      refine ⟨(hone.acquire f).perm ?_, mem_refs.mpr (Or.inl List.mem_cons_self)⟩
      apply List.perm_iff_count.mpr
      intro g
      rw [List.count_cons, count_refs, count_refs]
      simp only [FlowState.pipeline, FlowState.cached, List.count_cons]
      omega

theorem counted_withoutFlow (h : Counted s.refCnt s.refs) (hf : f ∈ s.flowTable) :
    Counted (s.withoutFlow f).refCnt (s.withoutFlow f).refs ∧ f ∈ (s.withoutFlow f).refs := by
  refine ⟨?_, mem_refs.mpr (Or.inr (Or.inl List.mem_cons_self))⟩
  have hmove : ∀ g, s.flowTable.count g = (s.flowTable.erase f).count g +
      if f = g then 1 else 0 := by
    intro g
    rw [(List.perm_cons_erase hf).count_eq, List.count_cons]
    simp only [beq_iff_eq]
  unfold FlowState.withoutFlow
  by_cases hs : f ∈ s.simpleMatchTable
  · rw [if_pos hs]
    apply h.release
    apply List.perm_iff_count.mpr
    intro g
    have hsimple := (List.perm_cons_erase hs).count_eq g
    rw [List.count_cons] at hsimple
    rw [List.count_cons, count_refs, count_refs, hmove g, hsimple]
    simp only [FlowState.pipeline, FlowState.cached, List.count_cons, beq_iff_eq]
    omega
  · rw [if_neg hs, List.erase_of_not_mem hs]
    apply h.perm
    apply List.perm_iff_count.mpr
    intro g
    rw [count_refs, count_refs, hmove g]
    simp only [FlowState.pipeline, FlowState.cached, List.count_cons, beq_iff_eq]
    omega

theorem counted_removeKill (h : Counted s.refCnt s.refs) (hf : f ∈ s.leaving) :
    Counted (removeKill s f).refCnt (removeKill s f).refs := by
  apply h.release
  apply List.perm_iff_count.mpr
  intro g
  have hleft := (List.perm_cons_erase hf).count_eq g
  rw [List.count_cons] at hleft
  rw [List.count_cons, count_refs, count_refs, hleft]
  show _ = s.flowTable.count g + (s.leaving.erase f).count g + s.simpleMatchTable.count g +
    s.cached.count g + (s.pipeline.map Prod.fst).count g + s.markToFlow.count g + _
  omega

/-- The caches with one entry changed. -/
theorem count_cached_set {emc : List (Option Nat)} {i : Nat} {entry : Option Nat}
    (h : emc[i]? = some entry) (entry' : Option Nat) (g : Nat) :
    ((emc.set i entry').filterMap id).count g + entry.toList.count g =
      (emc.filterMap id).count g + entry'.toList.count g := by
  have hcons : ∀ (e : Option Nat) (es : List (Option Nat)),
      ((e :: es).filterMap id).count g = e.toList.count g + (es.filterMap id).count g := by
    intro e es
    cases e with
    | none => simp
    | some a => simp [List.count_cons, Nat.add_comm]
  induction emc generalizing i with
  | nil => cases h
  | cons e es ih =>
      cases i with
      | zero =>
          obtain rfl := Option.some.inj h
          rw [List.set_cons_zero, hcons, hcons]
          omega
      | succ i =>
          rw [List.set_cons_succ, hcons, hcons]
          have hrest := ih h
          omega

theorem counted_emcClear (h : Counted s.refCnt s.refs) (i : Nat) :
    Counted (emcClearEntry s i).refCnt (emcClearEntry s i).refs := by
  unfold emcClearEntry
  cases hi : s.emc[i]? with
  | none => exact h
  | some entry =>
      cases entry with
      | none => exact h
      | some old =>
          apply h.release
          apply List.perm_iff_count.mpr
          intro g
          have hset := count_cached_set hi none g
          rw [List.count_cons, count_refs, count_refs]
          simp only [FlowState.cached, FlowState.pipeline, Option.toList_some, Option.toList_none,
            List.count_singleton, List.count_nil, beq_iff_eq, dpNetdevFlowUnref] at hset ⊢
          omega

/-- The places other than the caches that hold references are the same. -/
structure SameHolders (s t : FlowState) : Prop where
  flowTable : t.flowTable = s.flowTable
  leaving : t.leaving = s.leaving
  simpleMatchTable : t.simpleMatchTable = s.simpleMatchTable
  current : t.current = s.current
  queue : t.queue = s.queue
  markToFlow : t.markToFlow = s.markToFlow

theorem SameHolders.refl (s : FlowState) : SameHolders s s := ⟨rfl, rfl, rfl, rfl, rfl, rfl⟩

theorem counted_emcChange (h : Counted s.refCnt s.refs) (f i : Nat) :
    Counted (emcChangeEntry s f i).refCnt (emcChangeEntry s f i).refs := by
  unfold emcChangeEntry
  cases hi : s.emc[i]? with
  | none => exact h
  | some entry =>
      dsimp only
      by_cases he : entry = some f
      · rw [if_pos he]
        exact h
      · rw [if_neg he]
        -- the entry gives up what it held, and then may hold `f`
        have hgiven : ∀ t : FlowState, SameHolders s t →
            Counted t.refCnt { s with emc := s.emc.set i none }.refs →
            Counted { (dpNetdevFlowRef t f).1 with
                emc := s.emc.set i (if (dpNetdevFlowRef t f).2 then some f else none) }.refCnt
              { (dpNetdevFlowRef t f).1 with
                emc := s.emc.set i (if (dpNetdevFlowRef t f).2 then some f else none) }.refs := by
          intro t ht hcnt
          by_cases hz : t.refCnt f = 0
          · have hr : dpNetdevFlowRef t f = (t, false) := if_pos hz
            rw [hr, if_neg Bool.false_ne_true]
            apply hcnt.perm
            apply List.perm_iff_count.mpr
            intro g
            rw [count_refs, count_refs]
            simp only [FlowState.cached, FlowState.pipeline, ht.flowTable, ht.leaving,
              ht.simpleMatchTable, ht.current, ht.queue, ht.markToFlow]
          · rw [flowRef_eq hz, if_pos rfl]
            apply (hcnt.acquire f).perm
            apply List.perm_iff_count.mpr
            intro g
            have hnone := count_cached_set hi none g
            have hsome := count_cached_set hi (some f) g
            rw [List.count_cons, count_refs, count_refs]
            simp only [FlowState.cached, FlowState.pipeline, ht.flowTable, ht.leaving,
              ht.simpleMatchTable, ht.current, ht.queue, ht.markToFlow, Option.toList_some,
              Option.toList_none, List.count_singleton, List.count_nil, beq_iff_eq] at *
            omega
        cases entry with
        | none =>
            apply hgiven s (SameHolders.refl s)
            apply h.perm
            apply List.perm_iff_count.mpr
            intro g
            have hset := count_cached_set hi none g
            rw [count_refs, count_refs]
            simp only [FlowState.cached, FlowState.pipeline, Option.toList_none,
              List.count_nil] at hset ⊢
            omega
        | some old =>
            have hclear := counted_emcClear h i
            unfold emcClearEntry at hclear
            rw [hi] at hclear
            exact hgiven (dpNetdevFlowUnref s old) { SameHolders.refl s with } hclear

end Counts

end Repath.Datapath
