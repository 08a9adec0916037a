import Repath.Datapath.FlowRefs

/-!
# Flows in the hardware

A megaflow that is offloaded has a mark of its own, and the flows of the PMD threads
that stand for it share the mark.  The mark goes back to the pool with the last of
them.  A flow that is removed while a request for it is under way is followed by the
request to delete it, so no mark outlives its flows.
-/

namespace Repath.Datapath

open RefCount

/-! ### Marks -/

/-- Marks and megaflows belong together one to one, and each mark but `spare` has a
flow. -/
structure FlowState.MarksBut (s : FlowState) (spare : Nat) : Prop where
  markIff : ∀ f, (s.flows f).mark ≠ invalidFlowMark ↔ f ∈ s.markToFlow
  nodup : s.markToFlow.Nodup
  entry : ∀ f ∈ s.markToFlow, ((s.flows f).megaUfid, (s.flows f).mark) ∈ s.megaflowToMark
  used : ∀ d ∈ s.megaflowToMark, d.2 ≠ spare → ∃ f ∈ s.markToFlow, (s.flows f).mark = d.2
  ufids : (s.megaflowToMark.map Prod.fst).Nodup
  marks : (s.megaflowToMark.map Prod.snd).Nodup
  valid : ∀ d ∈ s.megaflowToMark, d.2 ≠ invalidFlowMark
  pool : s.markPool.Perm (s.megaflowToMark.map Prod.snd)

/-- Every mark has a flow, as no megaflow has the invalid one. -/
def FlowState.Marks (s : FlowState) : Prop := s.MarksBut invalidFlowMark

theorem find_of_mem {s : FlowState} {spare : Nat} (h : s.MarksBut spare) {d : Nat × Nat}
    (hd : d ∈ s.megaflowToMark) : megaflowToMarkFind s d.1 = d.2 := by
  have hone : ∀ xs : List (Nat × Nat), (xs.map Prod.fst).Nodup → d ∈ xs →
      xs.find? (fun x => decide (x.1 = d.1)) = some d := by
    intro xs
    induction xs with
    | nil =>
        intro _ hmem
        cases hmem
    | cons x xs ih =>
        intro hxs hmem
        obtain ⟨hx, hxs⟩ := List.nodup_cons.mp hxs
        rcases List.mem_cons.mp hmem with rfl | hmem
        · exact List.find?_cons_of_pos (decide_eq_true rfl)
        · have hne : x.1 ≠ d.1 := fun he => hx (he ▸ List.mem_map_of_mem hmem)
          rw [List.find?_cons_of_neg (by simpa using hne)]
          exact ih hxs hmem
  unfold megaflowToMarkFind
  rw [hone _ h.ufids hd]
  rfl

theorem mem_of_find {s : FlowState} {megaUfid : Nat}
    (h : megaflowToMarkFind s megaUfid ≠ invalidFlowMark) :
    (megaUfid, megaflowToMarkFind s megaUfid) ∈ s.megaflowToMark := by
  unfold megaflowToMarkFind at h ⊢
  cases hfind : s.megaflowToMark.find? fun d => decide (d.1 = megaUfid) with
  | none =>
      rw [hfind] at h
      exact absurd rfl h
  | some d =>
      have hd := List.find?_some hfind
      have hmem := List.mem_of_find?_eq_some hfind
      rw [← of_decide_eq_true hd]
      exact hmem

theorem mem_markPool {s : FlowState} (h : s.Marks) (mark : Nat) :
    mark ∈ s.markPool ↔ ∃ f ∈ s.markToFlow, (s.flows f).mark = mark := by
  rw [h.pool.mem_iff, List.mem_map]
  constructor
  · intro hmark
    obtain ⟨d, hd, rfl⟩ := hmark
    exact h.used d hd (h.valid d hd)
  · intro hflow
    obtain ⟨f, hf, rfl⟩ := hflow
    exact ⟨_, h.entry f hf, rfl⟩

/-- Flows share a mark when they share a megaflow. -/
theorem mark_eq_iff {s : FlowState} {spare : Nat} (h : s.MarksBut spare) {f g : Nat}
    (hf : f ∈ s.markToFlow) (hg : g ∈ s.markToFlow) :
    (s.flows f).mark = (s.flows g).mark ↔ (s.flows f).megaUfid = (s.flows g).megaUfid := by
  have hmf := find_of_mem h (h.entry f hf)
  have hmg := find_of_mem h (h.entry g hg)
  dsimp only at hmf hmg
  constructor
  · intro hmark
    have hsame := List.inj_on_of_nodup_map h.marks (h.entry f hf) (h.entry g hg) hmark
    exact congrArg Prod.fst hsame
  · intro hufid
    rw [← hmf, ← hmg, hufid]

/-- Nothing has changed that marks depend on. -/
structure SameMarks (s t : FlowState) : Prop where
  markToFlow : t.markToFlow = s.markToFlow
  megaflowToMark : t.megaflowToMark = s.megaflowToMark
  markPool : t.markPool = s.markPool
  mark : ∀ f, (t.flows f).mark = (s.flows f).mark
  megaUfid : ∀ f ∈ s.markToFlow, (t.flows f).megaUfid = (s.flows f).megaUfid

theorem SameMarks.refl (s : FlowState) : SameMarks s s :=
  ⟨rfl, rfl, rfl, fun _ => rfl, fun _ _ => rfl⟩

theorem FlowState.Marks.of_same {s t : FlowState} (h : s.Marks) (hs : SameMarks s t) :
    t.Marks where
  markIff f := by
    rw [hs.mark, hs.markToFlow]
    exact h.markIff f
  nodup := by
    rw [hs.markToFlow]
    exact h.nodup
  entry f hf := by
    rw [hs.markToFlow] at hf
    rw [hs.mark, hs.megaUfid f hf, hs.megaflowToMark]
    exact h.entry f hf
  used d hd hne := by
    rw [hs.megaflowToMark] at hd
    obtain ⟨f, hf, hmark⟩ := h.used d hd hne
    refine ⟨f, ?_, ?_⟩
    · rw [hs.markToFlow]
      exact hf
    · rw [hs.mark, hmark]
  ufids := by
    rw [hs.megaflowToMark]
    exact h.ufids
  marks := by
    rw [hs.megaflowToMark]
    exact h.marks
  valid d hd := by
    rw [hs.megaflowToMark] at hd
    exact h.valid d hd
  pool := by
    rw [hs.markPool, hs.megaflowToMark]
    exact h.pool

section SetMark

variable {s : FlowState} {f : Nat}

theorem setMark_mark_self (mark : Nat) : ((s.setMark f mark).flows f).mark = mark := by
  show (Function.update s.flows f _ f).mark = mark
  rw [Function.update_self]

theorem setMark_mark_of_ne {g : Nat} (hg : g ≠ f) (mark : Nat) :
    ((s.setMark f mark).flows g).mark = (s.flows g).mark := by
  show (Function.update s.flows f _ g).mark = _
  rw [Function.update_of_ne hg]

theorem setMark_megaUfid (mark g : Nat) :
    ((s.setMark f mark).flows g).megaUfid = (s.flows g).megaUfid :=
  (sameTables_setMark s f mark).megaUfid g

/-- A flow joins the others of its megaflow, or is the first of them. -/
theorem marks_join {mark : Nat} (h : s.MarksBut mark) (hf : (s.flows f).mark = invalidFlowMark)
    (hmem : ((s.flows f).megaUfid, mark) ∈ s.megaflowToMark) :
    FlowState.Marks { s.setMark f mark with markToFlow := f :: s.markToFlow } := by
  have hvalid : mark ≠ invalidFlowMark := h.valid _ hmem
  have hout : f ∉ s.markToFlow := fun hin => (h.markIff f).mpr hin hf
  have hne : ∀ g ∈ s.markToFlow, g ≠ f := fun g hg he => hout (he ▸ hg)
  exact
    { markIff := by
        intro g
        show ((s.setMark f mark).flows g).mark ≠ _ ↔ g ∈ f :: s.markToFlow
        by_cases hg : g = f
        · subst hg
          rw [setMark_mark_self]
          simp [hvalid]
        · rw [setMark_mark_of_ne hg, h.markIff g]
          simp [hg]
      nodup := List.nodup_cons.mpr ⟨hout, h.nodup⟩
      entry := by
        intro g hg
        show (((s.setMark f mark).flows g).megaUfid, ((s.setMark f mark).flows g).mark) ∈
          s.megaflowToMark
        rw [setMark_megaUfid]
        rcases List.mem_cons.mp hg with rfl | hg
        · rw [setMark_mark_self]
          exact hmem
        · rw [setMark_mark_of_ne (hne g hg)]
          exact h.entry g hg
      used := by
        intro d hd _
        show ∃ g ∈ f :: s.markToFlow, ((s.setMark f mark).flows g).mark = d.2
        by_cases hd2 : d.2 = mark
        · refine ⟨f, List.mem_cons_self, ?_⟩
          rw [setMark_mark_self, hd2]
        · obtain ⟨g, hg, hmark⟩ := h.used d hd hd2
          refine ⟨g, List.mem_cons_of_mem f hg, ?_⟩
          rw [setMark_mark_of_ne (hne g hg), hmark]
      ufids := h.ufids
      marks := h.marks
      valid := h.valid
      pool := h.pool }

/-- A flow leaves the others of its megaflow, and may have been the last. -/
theorem marks_leave (h : s.Marks) (hf : f ∈ s.markToFlow) :
    FlowState.MarksBut { s.setMark f invalidFlowMark with markToFlow := s.markToFlow.erase f }
      (s.flows f).mark := by
  have hne : ∀ g ∈ s.markToFlow.erase f, g ≠ f := fun g hg => (h.nodup.mem_erase_iff.mp hg).1
  exact
    { markIff := by
        intro g
        show ((s.setMark f invalidFlowMark).flows g).mark ≠ _ ↔ g ∈ s.markToFlow.erase f
        rw [h.nodup.mem_erase_iff]
        by_cases hg : g = f
        · subst hg
          rw [setMark_mark_self]
          simp
        · rw [setMark_mark_of_ne hg, h.markIff g]
          simp [hg]
      nodup := h.nodup.erase f
      entry := by
        intro g hg
        show (((s.setMark f invalidFlowMark).flows g).megaUfid,
          ((s.setMark f invalidFlowMark).flows g).mark) ∈ s.megaflowToMark
        rw [setMark_megaUfid, setMark_mark_of_ne (hne g hg)]
        exact h.entry g (List.mem_of_mem_erase hg)
      used := by
        intro d hd hspare
        obtain ⟨g, hg, hmark⟩ := h.used d hd (h.valid d hd)
        have hgf : g ≠ f := by
          intro he
          subst he
          exact hspare hmark.symm
        refine ⟨g, h.nodup.mem_erase_iff.mpr ⟨hgf, hg⟩, ?_⟩
        show ((s.setMark f invalidFlowMark).flows g).mark = _
        rw [setMark_mark_of_ne hgf, hmark]
      ufids := h.ufids
      marks := h.marks
      valid := h.valid
      pool := h.pool }

end SetMark

theorem MarksBut.full {s : FlowState} {mark : Nat} (h : s.MarksBut mark)
    (hused : flowMarkHasNoRef s mark = false) : s.Marks :=
  { h with
    used := by
      intro d hd _
      by_cases hd2 : d.2 = mark
      · unfold flowMarkHasNoRef at hused
        rw [Bool.not_eq_false', List.any_eq_true] at hused
        obtain ⟨g, hg, hmark⟩ := hused
        exact ⟨g, hg, (beq_iff_eq.mp hmark).trans hd2.symm⟩
      · exact h.used d hd hd2 }

/-- The mark that no flow has any more goes back to the pool. -/
theorem marks_free {s : FlowState} {mark megaUfid : Nat} (h : s.MarksBut mark)
    (hmem : (megaUfid, mark) ∈ s.megaflowToMark) (hnone : flowMarkHasNoRef s mark = true) :
    FlowState.Marks { s with markPool := s.markPool.erase mark,
                             megaflowToMark :=
                               s.megaflowToMark.eraseP fun d => d.1 = megaUfid } := by
  obtain ⟨d, before, after, -, hd, hsplit, herase⟩ :=
    List.exists_of_eraseP (p := fun d : Nat × Nat => decide (d.1 = megaUfid)) hmem
      (decide_eq_true rfl)
  have hd1 : d.1 = megaUfid := of_decide_eq_true hd
  have hin : d ∈ s.megaflowToMark := by simp [hsplit]
  have hd2 : d.2 = mark := by
    have hfind := find_of_mem h hin
    rw [hd1] at hfind
    exact hfind.symm.trans (find_of_mem h hmem)
  have hperm : s.megaflowToMark.Perm ((megaUfid, mark) ::
      s.megaflowToMark.eraseP fun d => decide (d.1 = megaUfid)) := by
    rw [herase, hsplit, ← hd1, ← hd2]
    exact List.perm_middle
  generalize (s.megaflowToMark.eraseP fun d => decide (d.1 = megaUfid)) = rest at hperm ⊢
  have hufids := (hperm.map Prod.fst).nodup_iff.mp h.ufids
  have hmarks := (hperm.map Prod.snd).nodup_iff.mp h.marks
  rw [List.map_cons, List.nodup_cons] at hufids hmarks
  have hno : ∀ g ∈ s.markToFlow, (s.flows g).mark ≠ mark := by
    intro g hg he
    unfold flowMarkHasNoRef at hnone
    rw [Bool.not_eq_true', List.any_eq_false] at hnone
    exact hnone g hg (beq_iff_eq.mpr he)
  exact
    { markIff := h.markIff
      nodup := h.nodup
      entry := by
        intro g hg
        have hin := hperm.mem_iff.mp (h.entry g hg)
        rcases List.mem_cons.mp hin with he | hin
        · exact absurd (congrArg Prod.snd he) (hno g hg)
        · exact hin
      used := by
        intro d hd _
        apply h.used d (hperm.mem_iff.mpr (List.mem_cons_of_mem _ hd))
        intro he
        apply hmarks.1
        rw [show (megaUfid, mark).2 = d.2 from he.symm]
        exact List.mem_map_of_mem hd
      ufids := hufids.2
      marks := hmarks.2
      valid := fun d hd => h.valid d (hperm.mem_iff.mpr (List.mem_cons_of_mem _ hd))
      pool := by
        have hpool := h.pool.trans (hperm.map Prod.snd)
        rw [List.map_cons] at hpool
        exact (List.cons_perm_iff_perm_erase.mp hpool.symm).2.symm }

theorem marks_disassociate {s : FlowState} (h : s.Marks) (f : Nat) :
    (markToFlowDisassociate s f).Marks := by
  unfold markToFlowDisassociate
  dsimp only
  by_cases hmark : (s.flows f).mark = invalidFlowMark
  · rw [if_pos hmark]
    exact h
  · rw [if_neg hmark]
    have hf : f ∈ s.markToFlow := (h.markIff f).mp hmark
    have hleave := marks_leave h hf
    have hmem := h.entry f hf
    cases hnone : flowMarkHasNoRef
        { s.setMark f invalidFlowMark with markToFlow := s.markToFlow.erase f }
        (s.flows f).mark with
    | false =>
        rw [if_neg Bool.false_ne_true]
        exact (MarksBut.full hleave hnone).of_same { SameMarks.refl _ with }
    | true =>
        rw [if_pos rfl]
        have hfree := marks_free hleave hmem hnone
        rw [show (({ s.setMark f invalidFlowMark with
          markToFlow := s.markToFlow.erase f } : FlowState).flows f).megaUfid =
            (s.flows f).megaUfid from setMark_megaUfid invalidFlowMark f]
        exact hfree.of_same { SameMarks.refl _ with }

/-- Which fields the two changes of marks touch. -/
theorem disassociate_fields (s : FlowState) (f : Nat) :
    (markToFlowDisassociate s f).markToFlow =
        (if (s.flows f).mark = invalidFlowMark then s.markToFlow else s.markToFlow.erase f) ∧
      (markToFlowDisassociate s f).refCnt =
        (if (s.flows f).mark = invalidFlowMark then s.refCnt
          else Function.update s.refCnt f (s.refCnt f - 1)) ∧
      (markToFlowDisassociate s f).emc = s.emc ∧
      (markToFlowDisassociate s f).current = s.current ∧
      (markToFlowDisassociate s f).queue = s.queue ∧
      (markToFlowDisassociate s f).flowApi = s.flowApi := by
  unfold markToFlowDisassociate
  dsimp only
  by_cases hm : (s.flows f).mark = invalidFlowMark
  · rw [if_pos hm, if_pos hm, if_pos hm]
    exact ⟨rfl, rfl, rfl, rfl, rfl, rfl⟩
  · rw [if_neg hm, if_neg hm, if_neg hm]
    cases flowMarkHasNoRef
        { s.setMark f invalidFlowMark with markToFlow := s.markToFlow.erase f }
        (s.flows f).mark with
    | false => exact ⟨rfl, rfl, rfl, rfl, rfl, rfl⟩
    | true => exact ⟨rfl, rfl, rfl, rfl, rfl, rfl⟩

theorem associate_fields {s : FlowState} {f : Nat} (hcnt : s.refCnt f ≠ 0) (mark : Nat) :
    markToFlowAssociate s f mark =
      { s.setMark f mark with
        refCnt := Function.update s.refCnt f (s.refCnt f + 1),
        markToFlow := f :: s.markToFlow } := by
  unfold markToFlowAssociate
  rw [flowRef_eq hcnt]
  rfl

theorem marks_associate {s : FlowState} {f mark : Nat} (h : s.MarksBut mark)
    (hf : (s.flows f).mark = invalidFlowMark)
    (hmem : ((s.flows f).megaUfid, mark) ∈ s.megaflowToMark) :
    (markToFlowAssociate s f mark).Marks := by
  have hjoin := marks_join h hf hmem
  unfold markToFlowAssociate dpNetdevFlowRef
  by_cases hz : s.refCnt f = 0
  · rw [if_pos hz]
    exact hjoin
  · rw [if_neg hz]
    exact hjoin.of_same { SameMarks.refl _ with }

/-- What the work on a request leaves in order. -/
structure Worked (f : Nat) (s t : FlowState) : Prop where
  marks : t.Marks
  counted : Counted t.refCnt t.refs
  others : ∀ g ∈ t.markToFlow, g = f ∨ g ∈ s.markToFlow
  emc : t.emc = s.emc
  current : t.current = s.current
  queue : t.queue = s.queue
  flowApi : t.flowApi = s.flowApi

theorem Worked.refl {s : FlowState} (h : s.Marks) (hcnt : Counted s.refCnt s.refs) (f : Nat) :
    Worked f s s :=
  ⟨h, hcnt, fun _ hg => Or.inr hg, rfl, rfl, rfl, rfl⟩

theorem worked_disassociate {s : FlowState} (h : s.Marks) (hcnt : Counted s.refCnt s.refs)
    (f : Nat) : Worked f s (markToFlowDisassociate s f) ∧
      f ∉ (markToFlowDisassociate s f).markToFlow := by
  obtain ⟨hflows, hrefs, hemc, hcurrent, hqueue, hapi⟩ := disassociate_fields s f
  have hsame := sameTables_disassociate s f
  have hcount : ∀ g, (markToFlowDisassociate s f).refs.count g = s.flowTable.count g +
      s.leaving.count g + s.simpleMatchTable.count g + s.cached.count g +
      (s.pipeline.map Prod.fst).count g + (markToFlowDisassociate s f).markToFlow.count g := by
    intro g
    rw [count_refs]
    simp only [FlowState.cached, FlowState.pipeline, hsame.flowTable, hsame.leaving,
      hsame.simpleMatchTable, hemc, hcurrent, hqueue]
  by_cases hm : (s.flows f).mark = invalidFlowMark
  · rw [if_pos hm] at hflows hrefs
    have hout : f ∉ s.markToFlow := fun hin => (h.markIff f).mpr hin hm
    refine ⟨⟨marks_disassociate h f, ?_, ?_, hemc, hcurrent, hqueue, hapi⟩, by rwa [hflows]⟩
    · rw [hrefs]
      apply hcnt.perm
      apply List.perm_iff_count.mpr
      intro g
      rw [count_refs, hcount, hflows]
    · rw [hflows]
      exact fun g hg => Or.inr hg
  · rw [if_neg hm] at hflows hrefs
    have hin : f ∈ s.markToFlow := (h.markIff f).mp hm
    refine ⟨⟨marks_disassociate h f, ?_, ?_, hemc, hcurrent, hqueue, hapi⟩, ?_⟩
    · rw [hrefs]
      apply hcnt.release
      apply List.perm_iff_count.mpr
      intro g
      have herase := (List.perm_cons_erase hin).count_eq g
      rw [List.count_cons] at herase
      rw [List.count_cons, count_refs, hcount, hflows, herase]
      omega
    · rw [hflows]
      exact fun g hg => Or.inr (List.mem_of_mem_erase hg)
    · rw [hflows]
      exact fun he => (h.nodup.mem_erase_iff.mp he).1 rfl

theorem worked_associate {s : FlowState} {f mark : Nat} (h : s.MarksBut mark)
    (hcnt : Counted s.refCnt s.refs) (hf : f ∈ s.refs)
    (hmark : (s.flows f).mark = invalidFlowMark)
    (hmem : ((s.flows f).megaUfid, mark) ∈ s.megaflowToMark) :
    Worked f s (markToFlowAssociate s f mark) := by
  have hmarks := marks_associate h hmark hmem
  rw [associate_fields (hcnt.pos hf)] at hmarks ⊢
  refine ⟨hmarks, ?_, fun g hg => List.mem_cons.mp hg, rfl, rfl, rfl, rfl⟩
  apply (hcnt.acquire f).perm
  apply List.perm_iff_count.mpr
  intro g
  rw [List.count_cons, count_refs, count_refs]
  show _ = s.flowTable.count g + s.leaving.count g + s.simpleMatchTable.count g +
    s.cached.count g + (s.pipeline.map Prod.fst).count g + (f :: s.markToFlow).count g
  rw [List.count_cons]
  omega

/-- The assertion of `dp_netdev_flow_offload_put` holds. -/
theorem exists_put {s : FlowState} (h : s.Marks) (hcnt : Counted s.refCnt s.refs) {f : Nat}
    (hf : f ∈ s.refs) (op : OffloadOp) {alloc : Option Nat}
    (halloc : ∀ mark, alloc = some mark → mark ≠ invalidFlowMark ∧ mark ∉ s.markPool) (ok : Bool) :
    ∃ t, offloadPut s f op alloc ok = .ok t ∧ Worked f s t := by
  unfold offloadPut
  dsimp only
  by_cases hmod : op = .mod ∧ (s.flows f).mark ≠ invalidFlowMark
  · rw [if_pos hmod]
    cases ok with
    | true => exact ⟨s, rfl, Worked.refl h hcnt f⟩
    | false => exact ⟨_, rfl, (worked_disassociate h hcnt f).1⟩
  · rw [if_neg hmod]
    by_cases hfind : megaflowToMarkFind s (s.flows f).megaUfid = invalidFlowMark
    · -- the megaflow is new to the hardware
      rw [if_neg (not_not_intro hfind)]
      have hmark : (s.flows f).mark = invalidFlowMark := by
        by_contra hmark
        have hentry := h.entry f ((h.markIff f).mp hmark)
        have hsame := find_of_mem h hentry
        exact hmark (hsame.symm.trans hfind)
      cases halloc' : alloc with
      | none => exact ⟨s, rfl, Worked.refl h hcnt f⟩
      | some mark =>
          obtain ⟨hvalid, hnew⟩ := halloc mark halloc'
          cases ok with
          | false => exact ⟨s, rfl, Worked.refl h hcnt f⟩
          | true =>
              have hbut : FlowState.MarksBut { s with
                  markPool := mark :: s.markPool,
                  megaflowToMark := ((s.flows f).megaUfid, mark) :: s.megaflowToMark } mark :=
                { markIff := h.markIff
                  nodup := h.nodup
                  entry := fun g hg => List.mem_cons_of_mem _ (h.entry g hg)
                  used := by
                    intro d hd hne
                    rcases List.mem_cons.mp hd with rfl | hd
                    · exact absurd rfl hne
                    · exact h.used d hd (h.valid d hd)
                  ufids := by
                    refine List.nodup_cons.mpr ⟨?_, h.ufids⟩
                    intro hin
                    obtain ⟨d, hd, hd1⟩ := List.mem_map.mp hin
                    have hsame := find_of_mem h hd
                    rw [show d.1 = (s.flows f).megaUfid from hd1, hfind] at hsame
                    exact h.valid d hd hsame.symm
                  marks := List.nodup_cons.mpr
                    ⟨fun hin => hnew (h.pool.mem_iff.mpr hin), h.marks⟩
                  valid := List.forall_mem_cons.mpr ⟨hvalid, h.valid⟩
                  pool := h.pool.cons mark }
              exact ⟨_, rfl, { worked_associate hbut hcnt hf hmark List.mem_cons_self with }⟩
    · rw [if_pos hfind]
      by_cases hmark : (s.flows f).mark = invalidFlowMark
      · rw [if_neg (not_not_intro hmark)]
        exact ⟨_, rfl, worked_associate
          { h with used := fun d hd _ => h.used d hd (h.valid d hd) } hcnt hf hmark
          (mem_of_find hfind)⟩
      · rw [if_pos hmark]
        have hentry := h.entry f ((h.markIff f).mp hmark)
        rw [if_pos (find_of_mem h hentry).symm]
        exact ⟨s, rfl, Worked.refl h hcnt f⟩

end Repath.Datapath
