import Repath.Datapath.FlowMarks
import Repath.Lib.History

/-!
# Flows along a run

Every guarded step of the threads can be taken and keeps references, tables, marks and
requests in order.  A flow that is gone from the tables is in the hardware only as long
as a request to delete it is the last of the requests for it.
-/

namespace Repath.Datapath

open RefCount History

/-! ### Requests under way -/

structure FlowState.Pending (s : FlowState) : Prop where
  idle : s.flowApi = false → s.pipeline = [] ∧ s.markToFlow = []
  last : ∀ f ∉ s.flowTable, f ∈ s.markToFlow ∨ f ∈ s.pipeline.map Prod.fst →
    (writes s.pipeline f).getLast? = some .del

section Writes

variable {f g : Nat} {op : OffloadOp} {items : List (Nat × OffloadOp)}

theorem writes_append (items' : List (Nat × OffloadOp)) :
    writes (items ++ items') f = writes items f ++ writes items' f := List.filterMap_append

theorem writes_cons_self : writes ((f, op) :: items) f = op :: writes items f :=
  List.filterMap_cons_some (if_pos rfl)

theorem writes_cons_of_ne (hg : g ≠ f) : writes ((g, op) :: items) f = writes items f :=
  List.filterMap_cons_none (if_neg hg)

theorem mem_fst_iff : f ∈ items.map Prod.fst ↔ writes items f ≠ [] := by
  rw [List.mem_map]
  constructor
  · intro h
    obtain ⟨item, hitem, rfl⟩ := h
    exact List.ne_nil_of_mem (mem_writes.mpr hitem)
  · intro h
    obtain ⟨op, hop⟩ := List.exists_mem_of_ne_nil _ h
    exact ⟨(f, op), mem_writes.mp hop, rfl⟩

/-- A request that was not the last one, or was none to delete, leaves the last one. -/
theorem getLast?_of_cons (h : (writes ((f, op) :: items) f).getLast? = some .del)
    (hop : op ≠ .del ∨ f ∈ items.map Prod.fst) : (writes items f).getLast? = some .del := by
  rw [writes_cons_self] at h
  have hne : writes items f ≠ [] := by
    intro hnil
    rw [hnil, List.getLast?_singleton] at h
    have hdel := Option.some.inj h
    exact hop.elim (fun hop => hop hdel) fun hin => mem_fst_iff.mp hin hnil
  rwa [List.getLast?_cons_of_ne_nil hne] at h

end Writes

section Pending

variable {s t : FlowState}

theorem FlowState.Pending.of_same (h : s.Pending) (htable : t.flowTable = s.flowTable)
    (hflows : t.markToFlow = s.markToFlow) (hitems : t.pipeline = s.pipeline)
    (hapi : t.flowApi = s.flowApi) : t.Pending where
  idle := by
    rw [hapi, hitems, hflows]
    exact h.idle
  last := by
    rw [htable, hflows, hitems]
    exact h.last

theorem queue_fields (s : FlowState) (f : Nat) (op : OffloadOp) :
    (queueNetdevFlow s f op).flowApi = s.flowApi ∧
      (queueNetdevFlow s f op).markToFlow = s.markToFlow ∧
      (queueNetdevFlow s f op).pipeline =
        s.pipeline ++ if s.flowApi then [(f, op)] else [] := by
  unfold queueNetdevFlow dpNetdevFlowRef
  cases hapi : s.flowApi with
  | false =>
      rw [if_neg Bool.false_ne_true, if_neg Bool.false_ne_true, List.append_nil]
      exact ⟨hapi, rfl, rfl⟩
  | true =>
      rw [if_pos rfl, if_pos rfl]
      by_cases hz : s.refCnt f = 0
      · rw [if_pos hz]
        exact ⟨hapi, rfl, (List.append_assoc _ _ _).symm⟩
      · rw [if_neg hz]
        exact ⟨rfl, rfl, (List.append_assoc _ _ _).symm⟩

/-- A request for `f`; where `f` is in no table the request is to delete it. -/
theorem pending_queue {f : Nat} {op : OffloadOp}
    (hidle : s.flowApi = false → s.pipeline = [] ∧ s.markToFlow = [])
    (hothers : ∀ g ∉ s.flowTable, g ≠ f → g ∈ s.markToFlow ∨ g ∈ s.pipeline.map Prod.fst →
      (writes s.pipeline g).getLast? = some .del)
    (hf : f ∉ s.flowTable → op = .del) : (queueNetdevFlow s f op).Pending := by
  obtain ⟨hapi, hflows, hitems⟩ := queue_fields s f op
  have htable := (sameTables_queue s f op).flowTable
  cases henabled : s.flowApi with
  | false =>
      obtain ⟨hnone, hmarks⟩ := hidle henabled
      rw [henabled, if_neg Bool.false_ne_true, List.append_nil, hnone] at hitems
      rw [hmarks] at hflows
      exact
        { idle := fun _ => ⟨hitems, hflows⟩
          last := by
            intro g _ hin
            rw [hflows, hitems] at hin
            simp at hin }
  | true =>
      rw [henabled] at hapi hitems
      rw [if_pos rfl] at hitems
      exact
        { idle := by
            intro hoff
            rw [hapi] at hoff
            cases hoff
          last := by
            intro g hg hin
            rw [htable] at hg
            rw [hitems, writes_append]
            by_cases hgf : g = f
            · subst hgf
              rw [hf hg, writes_cons_self, List.getLast?_append]
              rfl
            · have hold := hothers g hg hgf
              rw [hflows, hitems, List.map_append, List.mem_append] at hin
              rw [writes_cons_of_ne (Ne.symm hgf), show writes [] g = [] from rfl,
                List.append_nil]
              apply hold
              rcases hin with hin | hin | hin
              · exact Or.inl hin
              · exact Or.inr hin
              · exact absurd (List.mem_singleton.mp hin) hgf }

/-- The first request is done with. -/
theorem pending_done {f : Nat} {op : OffloadOp} (h : s.Pending)
    (hitems : s.pipeline = (f, op) :: t.pipeline) (htable : t.flowTable = s.flowTable)
    (hapi : t.flowApi = s.flowApi) (hflows : ∀ g ∈ t.markToFlow, g = f ∨ g ∈ s.markToFlow)
    (hdel : f ∉ s.flowTable → op = .del → f ∉ t.markToFlow) : t.Pending where
  idle := by
    intro hoff
    rw [hapi] at hoff
    have hnone := (h.idle hoff).1
    rw [hitems] at hnone
    cases hnone
  last := by
    intro g hg hin
    rw [htable] at hg
    have hlast := h.last g hg
    rw [hitems] at hlast
    by_cases hgf : g = f
    · subst hgf
      apply getLast?_of_cons (hlast (Or.inr List.mem_cons_self))
      by_cases hop : op = .del
      · exact Or.inr (hin.resolve_left (hdel hg hop))
      · exact Or.inl hop
    · rw [writes_cons_of_ne (Ne.symm hgf)] at hlast
      apply hlast
      rcases hin with hin | hin
      · exact Or.inl ((hflows g hin).resolve_left hgf)
      · exact Or.inr (List.mem_cons_of_mem f hin)

end Pending

/-! ### Every step -/

theorem sameMarks_queue (s : FlowState) (f : Nat) (op : OffloadOp) :
    SameMarks s (queueNetdevFlow s f op) := by
  unfold queueNetdevFlow dpNetdevFlowRef
  cases s.flowApi with
  | false => exact SameMarks.refl s
  | true =>
      rw [if_pos rfl]
      by_cases hz : s.refCnt f = 0
      · rw [if_pos hz]
        exact { SameMarks.refl s with }
      · rw [if_neg hz]
        exact { SameMarks.refl s with }

/-- A flow whose memory is free has no mark. -/
theorem sameMarks_withFlow {s : FlowState} {f : Nat} (h : s.Marks) (hf : f ∉ s.markToFlow)
    (flow : NetdevFlow) : SameMarks s (s.withFlow f flow) where
  markToFlow := rfl
  megaflowToMark := rfl
  markPool := rfl
  mark g := by
    by_cases hg : g = f
    · subst hg
      rw [withFlow_flows_self]
      by_contra hmark
      exact hf ((h.markIff g).mp (Ne.symm hmark))
    · rw [withFlow_flows_of_ne hg]
  megaUfid g hg := by
    have hne : g ≠ f := fun he => hf (he ▸ hg)
    rw [withFlow_flows_of_ne hne]

theorem sameMarks_kill (s : FlowState) (f : Nat) : SameMarks s (removeKill s f) where
  markToFlow := rfl
  megaflowToMark := rfl
  markPool := rfl
  mark g := by
    show (Function.update s.flows f _ g).mark = _
    by_cases hg : g = f
    · subst hg
      rw [Function.update_self]
    · rw [Function.update_of_ne hg]
  megaUfid g _ := by
    show (Function.update s.flows f _ g).megaUfid = _
    by_cases hg : g = f
    · subst hg
      rw [Function.update_self]
    · rw [Function.update_of_ne hg]

/-- The caches do not matter to requests and marks. -/
structure SameOffload (s t : FlowState) : Prop where
  flows : t.flows = s.flows
  flowApi : t.flowApi = s.flowApi
  current : t.current = s.current
  queue : t.queue = s.queue
  markToFlow : t.markToFlow = s.markToFlow
  megaflowToMark : t.megaflowToMark = s.megaflowToMark
  markPool : t.markPool = s.markPool

theorem SameOffload.refl (s : FlowState) : SameOffload s s := ⟨rfl, rfl, rfl, rfl, rfl, rfl, rfl⟩

section SameOffload

variable {s t : FlowState}

theorem SameOffload.sameMarks (h : SameOffload s t) : SameMarks s t where
  markToFlow := h.markToFlow
  megaflowToMark := h.megaflowToMark
  markPool := h.markPool
  mark f := by rw [h.flows]
  megaUfid f _ := by rw [h.flows]

theorem SameOffload.pipeline (h : SameOffload s t) : t.pipeline = s.pipeline := by
  unfold FlowState.pipeline
  rw [h.current, h.queue]

theorem sameOffload_ref (s : FlowState) (f : Nat) : SameOffload s (dpNetdevFlowRef s f).1 := by
  unfold dpNetdevFlowRef
  by_cases h : s.refCnt f = 0
  · rw [if_pos h]
    exact SameOffload.refl s
  · rw [if_neg h]
    exact { SameOffload.refl s with }

theorem sameOffload_emcChange (s : FlowState) (f i : Nat) :
    SameOffload s (emcChangeEntry s f i) := by
  unfold emcChangeEntry
  cases s.emc[i]? with
  | none => exact SameOffload.refl s
  | some entry =>
      dsimp only
      by_cases he : entry = some f
      · rw [if_pos he]
        exact SameOffload.refl s
      · rw [if_neg he]
        cases entry with
        | none => exact { sameOffload_ref s f with }
        | some old => exact { sameOffload_ref (dpNetdevFlowUnref s old) f with }

theorem sameOffload_emcClear (s : FlowState) (i : Nat) : SameOffload s (emcClearEntry s i) := by
  unfold emcClearEntry
  cases s.emc[i]? with
  | none => exact SameOffload.refl s
  | some entry =>
      cases entry with
      | none => exact SameOffload.refl s
      | some old => exact { SameOffload.refl s with }

theorem simpleMatchInsert_fields {f : Nat} (hcnt : s.refCnt f ≠ 0) (hf : f ∉ s.simpleMatchTable)
    (simple : Bool) {t : FlowState} (ht : t = if simple then simpleMatchInsert s f else s) :
    SameOffload s t ∧ t.flowTable = s.flowTable ∧ t.leaving = s.leaving ∧
      ∀ g ≠ f, t.refCnt g = s.refCnt g := by
  subst ht
  cases simple with
  | false => exact ⟨SameOffload.refl s, rfl, rfl, fun _ _ => rfl⟩
  | true =>
      rw [if_pos rfl, simpleMatchInsert_eq hcnt hf]
      exact ⟨{ SameOffload.refl s with }, rfl, rfl, fun g hg => Function.update_of_ne hg _ s.refCnt⟩

end SameOffload

/-- No flow is held that was not held before. -/
def Sheds (s t : FlowState) : Prop := ∀ g, t.refCnt g ≠ 0 → s.refCnt g ≠ 0

section Sheds

variable {s t u : FlowState}

theorem Sheds.trans (h : Sheds s t) (h' : Sheds t u) : Sheds s u := fun g hg => h g (h' g hg)

theorem sheds_ref (s : FlowState) (f : Nat) : Sheds s (dpNetdevFlowRef s f).1 := by
  unfold dpNetdevFlowRef
  intro g hg
  by_cases h : s.refCnt f = 0
  · rw [if_pos h] at hg
    exact hg
  · rw [if_neg h] at hg
    by_cases hgf : g = f
    · rw [hgf]
      exact h
    · change Function.update s.refCnt f _ g ≠ 0 at hg
      rwa [Function.update_of_ne hgf] at hg

theorem sheds_unref (s : FlowState) (f : Nat) : Sheds s (dpNetdevFlowUnref s f) := by
  intro g hg
  change Function.update s.refCnt f _ g ≠ 0 at hg
  by_cases hgf : g = f
  · rw [hgf, Function.update_self] at hg
    rw [hgf]
    omega
  · rwa [Function.update_of_ne hgf] at hg

theorem sheds_queue (s : FlowState) (f : Nat) (op : OffloadOp) :
    Sheds s (queueNetdevFlow s f op) := by
  have href := sheds_ref s f
  unfold queueNetdevFlow
  cases s.flowApi with
  | false => exact fun _ hg => hg
  | true => exact href

theorem sheds_withoutFlow (s : FlowState) (f : Nat) : Sheds s (s.withoutFlow f) := by
  have hunref := sheds_unref s f
  intro g hg
  change (if f ∈ s.simpleMatchTable then _ else _ : Nat → Nat) g ≠ 0 at hg
  by_cases hf : f ∈ s.simpleMatchTable
  · rw [if_pos hf] at hg
    exact hunref g hg
  · rwa [if_neg hf] at hg

theorem sheds_emcChange (s : FlowState) (f i : Nat) : Sheds s (emcChangeEntry s f i) := by
  unfold emcChangeEntry
  cases s.emc[i]? with
  | none => exact fun _ hg => hg
  | some entry =>
      dsimp only
      by_cases he : entry = some f
      · rw [if_pos he]
        exact fun _ hg => hg
      · rw [if_neg he]
        cases entry with
        | none => exact sheds_ref s f
        | some old => exact (sheds_unref s old).trans (sheds_ref (dpNetdevFlowUnref s old) f)

theorem sheds_emcClear (s : FlowState) (i : Nat) : Sheds s (emcClearEntry s i) := by
  unfold emcClearEntry
  cases s.emc[i]? with
  | none => exact fun _ hg => hg
  | some entry =>
      cases entry with
      | none => exact fun _ hg => hg
      | some old => exact sheds_unref s old

end Sheds

theorem mem_of_refCnt {s : FlowState} {f : Nat} (h : Counted s.refCnt s.refs)
    (hf : s.refCnt f ≠ 0) : f ∈ s.refs := by
  by_contra hnot
  rw [h f, List.count_eq_zero.mpr hnot] at hf
  exact hf rfl

/-- What holds in every state that the threads reach.  A flow that is still pointed to
is in its tables or is dead. -/
structure FlowState.Sound (s : FlowState) : Prop where
  tables : s.Tables
  counted : Counted s.refCnt s.refs
  marks : s.Marks
  pending : s.Pending
  gone : ∀ f ∈ s.refs, f ∈ s.flowTable ∨ f ∈ s.leaving ∨ (s.flows f).dead = true

section Steps

variable {s t : FlowState}

/-- The flows that are held stay where they are. -/
theorem FlowState.Sound.gone_of_sheds (h : s.Sound) (hcnt : Counted t.refCnt t.refs)
    (hsheds : Sheds s t)
    (hkept : ∀ g, g ∈ s.flowTable ∨ g ∈ s.leaving ∨ (s.flows g).dead = true →
      g ∈ t.flowTable ∨ g ∈ t.leaving ∨ (t.flows g).dead = true) :
    ∀ g ∈ t.refs, g ∈ t.flowTable ∨ g ∈ t.leaving ∨ (t.flows g).dead = true := by
  intro g hg
  apply hkept g
  apply h.gone g
  exact mem_of_refCnt h.counted (hsheds g (hcnt.pos hg))

theorem SameTables.kept (h : SameTables s t) (g : Nat)
    (hg : g ∈ s.flowTable ∨ g ∈ s.leaving ∨ (s.flows g).dead = true) :
    g ∈ t.flowTable ∨ g ∈ t.leaving ∨ (t.flows g).dead = true := by
  rwa [h.flowTable, h.leaving, h.dead]

theorem sound_add (h : s.Sound) {f : Nat} {flow : NetdevFlow} (hguard : FlowGuard s (.add f flow)) :
    (dpNetdevFlowAdd s f flow).Sound := by
  have hout := h.counted.not_mem hguard.1
  rw [mem_refs] at hout
  have hmarks : f ∉ s.markToFlow := fun hin =>
    hout (Or.inr (Or.inr (Or.inr (Or.inr (Or.inr hin)))))
  have hsimple : f ∉ s.simpleMatchTable := fun hin => hout (Or.inr (Or.inr (Or.inl hin)))
  have hone : (s.withFlow f flow).refCnt f ≠ 0 := by
    show Function.update s.refCnt f 1 f ≠ 0
    rw [Function.update_self]
    exact Nat.one_ne_zero
  have hadded := counted_withFlow h.counted hguard.1 flow
  obtain ⟨u, hu⟩ : ∃ u, u = if flow.simple then simpleMatchInsert (s.withFlow f flow) f
      else s.withFlow f flow := ⟨_, rfl⟩
  obtain ⟨hoffload, htable, hleaving, hrefs⟩ :=
    simpleMatchInsert_fields hone hsimple flow.simple hu
  dsimp only at hadded
  rw [← hu] at hadded
  have hstep : dpNetdevFlowAdd s f flow = queueNetdevFlow u f .add := by
    rw [hu]
    rfl
  have htables : (dpNetdevFlowAdd s f flow).Tables :=
    tables_step (e := .add f flow) h.tables h.counted hguard rfl
  rw [hstep] at htables ⊢
  have hsame := sameTables_queue u f .add
  have hcounted := counted_queue hadded.1 hadded.2 .add
  exact
    { tables := htables
      counted := hcounted
      marks := ((h.marks.of_same (sameMarks_withFlow h.marks hmarks flow)).of_same
        hoffload.sameMarks).of_same (sameMarks_queue u f .add)
      pending := by
        have hidle : u.flowApi = false → u.pipeline = [] ∧ u.markToFlow = [] := by
          rw [hoffload.flowApi, hoffload.pipeline, hoffload.markToFlow]
          exact h.pending.idle
        apply pending_queue hidle
        · intro g hg _
          rw [htable] at hg
          rw [hoffload.markToFlow, hoffload.pipeline]
          exact h.pending.last g fun hin => hg (List.mem_cons_of_mem f hin)
        · intro hnot
          rw [htable] at hnot
          exact absurd List.mem_cons_self hnot
      gone := by
        intro g hg
        rw [hsame.flowTable, hsame.leaving, hsame.dead, htable, hleaving, hoffload.flows]
        by_cases hgf : g = f
        · exact Or.inl (List.mem_cons.mpr (Or.inl hgf))
        · have hcnt := sheds_queue u f .add g (hcounted.pos hg)
          rw [hrefs g hgf] at hcnt
          have hold : s.refCnt g ≠ 0 := by
            change Function.update s.refCnt f 1 g ≠ 0 at hcnt
            rwa [Function.update_of_ne hgf] at hcnt
          rw [withFlow_flows_of_ne hgf]
          exact (h.gone g (mem_of_refCnt h.counted hold)).imp_left (List.mem_cons_of_mem f) }

/-- Steps that leave the tables of the PMD threads and the marks alone. -/
theorem sound_of_same (h : s.Sound) (htables : SameTables s t)
    (hcnt : Counted t.refCnt t.refs) (hmarks : t.Marks) (hpending : t.Pending)
    (hsheds : Sheds s t) : t.Sound where
  tables := h.tables.of_same htables
  counted := hcnt
  marks := hmarks
  pending := hpending
  gone := h.gone_of_sheds hcnt hsheds htables.kept

theorem sound_unlink (h : s.Sound) {f : Nat} (hf : f ∈ s.flowTable) : (removeUnlink s f).Sound := by
  have htable : s.flowTable.Nodup := (List.nodup_append.mp h.tables.nodup).1
  obtain ⟨hleft, hmem⟩ := counted_withoutFlow h.counted hf
  have htables := tables_withoutFlow h.tables hf
  rw [removeUnlink_eq h.tables]
  have hsame := sameTables_queue (s.withoutFlow f) f .del
  have hcounted := counted_queue hleft hmem .del
  exact
    { tables := htables.of_same hsame
      counted := hcounted
      marks := by
        have hmarks : (s.withoutFlow f).Marks := h.marks.of_same { SameMarks.refl s with }
        exact hmarks.of_same (sameMarks_queue (s.withoutFlow f) f .del)
      pending := by
        apply pending_queue (s := s.withoutFlow f) h.pending.idle
        · intro g hg hgf
          apply h.pending.last g
          intro hin
          exact hg (htable.mem_erase_iff.mpr ⟨hgf, hin⟩)
        · exact fun _ => rfl
      gone := by
        apply h.gone_of_sheds hcounted
          ((sheds_withoutFlow s f).trans (sheds_queue (s.withoutFlow f) f .del))
        intro g hg
        rw [hsame.flowTable, hsame.leaving, hsame.dead]
        show g ∈ s.flowTable.erase f ∨ g ∈ f :: s.leaving ∨ _
        by_cases hgf : g = f
        · exact Or.inr (Or.inl (List.mem_cons.mpr (Or.inl hgf)))
        · rw [htable.mem_erase_iff, List.mem_cons]
          rcases hg with hg | hg | hg
          · exact Or.inl ⟨hgf, hg⟩
          · exact Or.inr (Or.inl (Or.inr hg))
          · exact Or.inr (Or.inr hg) }

theorem sound_kill (h : s.Sound) {f : Nat} (hf : f ∈ s.leaving) : (removeKill s f).Sound := by
  have hleaving : s.leaving.Nodup := (List.nodup_append.mp h.tables.nodup).2.1
  have hcounted := counted_removeKill h.counted hf
  exact
    { tables := tables_removeKill h.tables hf
      counted := hcounted
      marks := h.marks.of_same (sameMarks_kill s f)
      pending := h.pending.of_same rfl rfl rfl rfl
      gone := by
        apply h.gone_of_sheds hcounted (sheds_unref s f)
        intro g hg
        show g ∈ s.flowTable ∨ g ∈ s.leaving.erase f ∨
          (Function.update s.flows f { s.flows f with dead := true } g).dead = true
        by_cases hgf : g = f
        · subst hgf
          rw [Function.update_self]
          exact Or.inr (Or.inr rfl)
        · rw [hleaving.mem_erase_iff, Function.update_of_ne hgf]
          exact hg.imp_right (Or.imp_left fun hg => ⟨hgf, hg⟩) }

/-- The first request gives up its reference. -/
theorem counted_done {f : Nat} {op : OffloadOp} (h : Counted s.refCnt s.refs)
    (hitems : s.pipeline = (f, op) :: t.pipeline) (htables : SameTables s t)
    (hemc : t.emc = s.emc) (hmarks : t.markToFlow = s.markToFlow)
    (hcnt : t.refCnt = Function.update s.refCnt f (s.refCnt f - 1)) : Counted t.refCnt t.refs := by
  rw [hcnt]
  apply h.release
  apply List.perm_iff_count.mpr
  intro g
  rw [List.count_cons, count_refs, count_refs, hitems, htables.flowTable, htables.leaving,
    htables.simpleMatchTable, hmarks, List.map_cons, List.count_cons]
  simp only [FlowState.cached, hemc]
  omega

/-- A request to put a flow that is dead is given up. -/
theorem sound_start (h : s.Sound) : (offloadStart s).Sound := by
  have hsame := sameTables_start s
  cases hcurrent : s.current with
  | some item =>
      have hstep : offloadStart s = s := by
        unfold offloadStart
        rw [hcurrent]
      rw [hstep]
      exact h
  | none =>
      cases hqueue : s.queue with
      | nil =>
          have hstep : offloadStart s = s := by
            unfold offloadStart
            rw [hcurrent, hqueue]
          rw [hstep]
          exact h
      | cons item queue =>
          obtain ⟨f, op⟩ := item
          have hitems : s.pipeline = (f, op) :: queue := by
            unfold FlowState.pipeline
            rw [hcurrent, hqueue]
            rfl
          by_cases hskip : op ≠ .del ∧ (s.flows f).dead
          · have hstep : offloadStart s = dpNetdevFlowUnref { s with queue := queue } f := by
              unfold offloadStart
              rw [hcurrent, hqueue]
              exact if_pos hskip
            rw [hstep] at hsame ⊢
            have hrest : (dpNetdevFlowUnref { s with queue := queue } f).pipeline = queue := by
              show s.current.toList ++ queue = queue
              rw [hcurrent]
              rfl
            rw [← hrest] at hitems
            apply sound_of_same h hsame
            · exact counted_done h.counted hitems hsame rfl rfl rfl
            · exact h.marks.of_same { SameMarks.refl s with }
            · exact pending_done h.pending hitems rfl rfl (fun g hg => Or.inr hg)
                fun _ hdel => absurd hdel hskip.1
            · exact sheds_unref s f
          · have hstep : offloadStart s = { s with queue := queue, current := some (f, op) } := by
              unfold offloadStart
              rw [hcurrent, hqueue]
              exact if_neg hskip
            rw [hstep] at hsame ⊢
            apply sound_of_same h hsame
            · apply h.counted.perm
              apply List.perm_iff_count.mpr
              intro g
              rw [count_refs, count_refs, hitems]
              rfl
            · exact h.marks.of_same { SameMarks.refl s with }
            · exact h.pending.of_same rfl rfl hitems.symm rfl
            · exact fun _ hg => hg

/-- A request has been worked on. -/
theorem sound_done {f : Nat} {op : OffloadOp} (h : s.Sound) (hcurrent : s.current = some (f, op))
    (hsame : SameTables s t) (hworked : Worked f s t) (hdel : op = .del → f ∉ t.markToFlow) :
    (dpNetdevFlowUnref { t with current := none } f).Sound := by
  have hrest : s.pipeline = (f, op) :: s.queue := by
    unfold FlowState.pipeline
    rw [hcurrent]
    rfl
  have hitems : t.pipeline = (f, op) :: t.queue := by
    unfold FlowState.pipeline
    rw [hworked.current, hcurrent]
    rfl
  have hsame' : SameTables t (dpNetdevFlowUnref { t with current := none } f) :=
    { SameTables.refl t with }
  have hcounted : Counted (dpNetdevFlowUnref { t with current := none } f).refCnt
      (dpNetdevFlowUnref { t with current := none } f).refs :=
    counted_done hworked.counted hitems hsame' rfl rfl rfl
  have hf : f ∈ s.refs := by
    rw [mem_refs, hrest]
    exact Or.inr (Or.inr (Or.inr (Or.inr (Or.inl List.mem_cons_self))))
  exact
    { tables := (h.tables.of_same hsame).of_same hsame'
      counted := hcounted
      marks := hworked.marks.of_same { SameMarks.refl t with }
      pending := by
        have hdone : s.pipeline =
            (f, op) :: (dpNetdevFlowUnref { t with current := none } f).pipeline := by
          rw [hrest, ← hworked.queue]
          rfl
        exact pending_done h.pending hdone hsame.flowTable hworked.flowApi hworked.others
          fun _ => hdel
      gone := by
        intro g hg
        have hin : g ∈ t.refs :=
          mem_of_refCnt hworked.counted (sheds_unref t f g (hcounted.pos hg))
        apply (hsame.trans hsame').kept g
        apply h.gone g
        rw [mem_refs, hsame.flowTable, hsame.leaving, hsame.simpleMatchTable, hitems,
          hworked.queue, ← hrest, FlowState.cached, hworked.emc] at hin
        rcases hin with hin | hin | hin | hin | hin | hin
        · exact mem_refs.mpr (Or.inl hin)
        · exact mem_refs.mpr (Or.inr (Or.inl hin))
        · exact mem_refs.mpr (Or.inr (Or.inr (Or.inl hin)))
        · exact mem_refs.mpr (Or.inr (Or.inr (Or.inr (Or.inl hin))))
        · exact mem_refs.mpr (Or.inr (Or.inr (Or.inr (Or.inr (Or.inl hin)))))
        · rcases hworked.others g hin with rfl | hin
          · exact hf
          · exact mem_refs.mpr (Or.inr (Or.inr (Or.inr (Or.inr (Or.inr hin))))) }

theorem exists_finish (h : s.Sound) {alloc : Option Nat} {ok : Bool}
    (hguard : FlowGuard s (.offloadFinish alloc ok)) :
    ∃ t, offloadFinish s alloc ok = .ok t ∧ t.Sound ∧ t.pipeline = s.queue := by
  unfold offloadFinish
  cases hcurrent : s.current with
  | none =>
      refine ⟨s, rfl, h, ?_⟩
      unfold FlowState.pipeline
      rw [hcurrent]
      rfl
  | some item =>
      obtain ⟨f, op⟩ := item
      have hf : f ∈ s.refs := by
        rw [mem_refs, FlowState.pipeline, hcurrent]
        exact Or.inr (Or.inr (Or.inr (Or.inr (Or.inl List.mem_cons_self))))
      have halloc : ∀ mark, alloc = some mark → mark ≠ invalidFlowMark ∧ mark ∉ s.markPool := by
        intro mark hmark
        subst hmark
        exact hguard
      have hput : op ≠ .del → ∃ t, (offloadPut s f op alloc ok).map
          (fun t => dpNetdevFlowUnref { t with current := none } f) = .ok t ∧ t.Sound ∧
            t.pipeline = s.queue := by
        intro hop
        obtain ⟨t, ht, hworked⟩ := exists_put h.marks h.counted hf op halloc ok
        rw [ht]
        exact ⟨_, rfl, sound_done h hcurrent (sameTables_put ht) hworked
          (fun hdel => absurd hdel hop), hworked.queue⟩
      cases op with
      | add => exact hput (by decide)
      | mod => exact hput (by decide)
      | del =>
          obtain ⟨hworked, hout⟩ := worked_disassociate h.marks h.counted f
          exact ⟨_, rfl, sound_done h hcurrent (sameTables_disassociate s f) hworked
            (fun _ => hout), hworked.queue⟩

/-- Every guarded step can be taken. -/
theorem sound_step (h : s.Sound) (e : FlowEvent) (hguard : FlowGuard s e) :
    ∃ t, flowStep s e = .ok t ∧ t.Sound := by
  cases e with
  | enableFlowApi =>
      have hsame : SameTables s { s with flowApi := true } := { SameTables.refl s with }
      refine ⟨{ s with flowApi := true }, rfl, ?_⟩
      apply sound_of_same h hsame
      · exact h.counted
      · exact h.marks.of_same { SameMarks.refl s with }
      · exact { idle := nofun, last := h.pending.last }
      · exact fun _ hg => hg
  | add f flow => exact ⟨_, rfl, sound_add h hguard⟩
  | modify f =>
      refine ⟨_, rfl, ?_⟩
      have hf : f ∈ s.refs := mem_refs.mpr (Or.inl hguard)
      apply sound_of_same h (sameTables_queue s f .mod)
      · exact counted_queue h.counted hf .mod
      · exact h.marks.of_same (sameMarks_queue s f .mod)
      · exact pending_queue h.pending.idle (fun g hg _ => h.pending.last g hg)
          fun hnot => absurd hguard hnot
      · exact sheds_queue s f .mod
  | unlink f => exact ⟨_, rfl, sound_unlink h hguard⟩
  | kill f => exact ⟨_, rfl, sound_kill h hguard⟩
  | emcChange i f =>
      refine ⟨_, rfl, ?_⟩
      have hsame := sameTables_emcChange s f i
      have hoffload := sameOffload_emcChange s f i
      exact sound_of_same h hsame (counted_emcChange h.counted f i)
        (h.marks.of_same hoffload.sameMarks)
        (h.pending.of_same hsame.flowTable hoffload.markToFlow hoffload.pipeline hoffload.flowApi)
        (sheds_emcChange s f i)
  | emcClear i =>
      refine ⟨_, rfl, ?_⟩
      have hsame := sameTables_emcClear s i
      have hoffload := sameOffload_emcClear s i
      exact sound_of_same h hsame (counted_emcClear h.counted i)
        (h.marks.of_same hoffload.sameMarks)
        (h.pending.of_same hsame.flowTable hoffload.markToFlow hoffload.pipeline hoffload.flowApi)
        (sheds_emcClear s i)
  | offloadStart => exact ⟨_, rfl, sound_start h⟩
  | offloadFinish alloc ok =>
      obtain ⟨t, ht, hsound, -⟩ := exists_finish h hguard
      exact ⟨t, ht, hsound⟩

end Steps

theorem cached_start (n : Nat) : (FlowState.start n).cached = [] := by
  show (List.replicate n (none : Option Nat)).filterMap id = []
  induction n with
  | zero => rfl
  | succ n ih =>
      rw [List.replicate_succ]
      exact ih

theorem refs_start (n : Nat) : (FlowState.start n).refs = [] := by
  unfold FlowState.refs
  rw [cached_start]
  rfl

theorem sound_empty (n : Nat) : (FlowState.start n).Sound where
  tables :=
    { nodup := List.nodup_nil
      simpleNodup := List.nodup_nil
      simpleIff := by simp [FlowState.start]
      simpleUnique := by simp [FlowState.start]
      nFlows := fun _ => rfl
      nSimpleFlows := fun _ => rfl
      alive := by simp [FlowState.start] }
  counted := by
    rw [refs_start]
    exact counted_nil
  marks :=
    { markIff := by simp [FlowState.start]
      nodup := List.nodup_nil
      entry := by simp [FlowState.start]
      used := by simp [FlowState.start]
      ufids := List.nodup_nil
      marks := List.nodup_nil
      valid := by simp [FlowState.start]
      pool := List.Perm.nil }
  pending :=
    { idle := fun _ => ⟨rfl, rfl⟩
      last := by simp [FlowState.start, FlowState.pipeline] }
  gone := by simp [refs_start]

theorem exists_run {s : FlowState} (h : s.Sound) {es : List FlowEvent}
    (hguard : Exec.Guarded flowStep FlowGuard s es) :
    ∃ t, Exec.exec flowStep s es = .ok t ∧ t.Sound :=
  Exec.exists_exec_of_guarded (fun _ e h hguard => sound_step h e hguard) h hguard

end Repath.Datapath
