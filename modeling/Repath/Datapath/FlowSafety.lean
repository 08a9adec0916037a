import Repath.Datapath.FlowRuns

/-!
# What the threads may rely on

Over every run of the PMD threads and of the thread that offloads their flows: a flow
stays as long as anything points to it and no longer, marks and megaflows are paired
one to one, and when all requests are served the hardware has flows of the tables only.
-/

namespace Repath.Datapath

open RefCount History

/-- Two flows of one megaflow on two threads, offloaded, and the first of them removed
while a change of it is under way. -/
def twoThreads : List FlowEvent :=
  let flow (pmdId : Nat) : NetdevFlow :=
    { pmdId := pmdId, inPort := 1, megaUfid := 7, simple := true, simpleMatchMark := 5,
      dead := false, mark := 0 }
  [.enableFlowApi, .add 10 (flow 0), .add 11 (flow 1), .emcChange 0 10, .offloadStart,
    .offloadFinish (some 3) true, .offloadStart, .offloadFinish none true, .modify 10, .unlink 10,
    .offloadStart, .kill 10, .offloadFinish none true]

/-- A flow is freed when, and only when, nothing points to it.  One that anything still
points to and that is not dead is in its tables, or on its way out of them. -/
theorem flow_references_exact (n : Nat) (es : List FlowEvent)
    (hguard : Exec.Guarded flowStep FlowGuard (FlowState.start n) es) :
    ∃ s, Exec.exec flowStep (FlowState.start n) es = .ok s ∧
      (∀ f, s.refCnt f = s.refs.count f) ∧
      ∀ f ∈ s.refs, (s.flows f).dead = false → f ∈ s.flowTable ∨ f ∈ s.leaving := by
  obtain ⟨s, hrun, hs⟩ := exists_run (sound_empty n) hguard
  refine ⟨s, hrun, hs.counted, ?_⟩
  intro f hf halive
  rcases hs.gone f hf with hin | hin | hdead
  · exact Or.inl hin
  · exact Or.inr hin
  · rw [halive] at hdead
    cases hdead

theorem flow_references_exact_two_threads :
    ∃ s, Exec.exec flowStep (FlowState.start 2) twoThreads = .ok s ∧
      (∀ f, s.refCnt f = s.refs.count f) ∧
      ∀ f ∈ s.refs, (s.flows f).dead = false → f ∈ s.flowTable ∨ f ∈ s.leaving :=
  flow_references_exact 2 twoThreads (by decide)

/-- A mark stands for one megaflow and a megaflow has one mark, and the marks taken from
the pool are those of the flows in the hardware. -/
theorem offload_marks_exact (n : Nat) (es : List FlowEvent)
    (hguard : Exec.Guarded flowStep FlowGuard (FlowState.start n) es) :
    ∃ s, Exec.exec flowStep (FlowState.start n) es = .ok s ∧
      (∀ f, (s.flows f).mark ≠ invalidFlowMark ↔ f ∈ s.markToFlow) ∧
      (∀ f ∈ s.markToFlow, ∀ g ∈ s.markToFlow,
        (s.flows f).mark = (s.flows g).mark ↔ (s.flows f).megaUfid = (s.flows g).megaUfid) ∧
      s.markPool.Nodup ∧
      ∀ mark, mark ∈ s.markPool ↔ ∃ f ∈ s.markToFlow, (s.flows f).mark = mark := by
  obtain ⟨s, hrun, hs⟩ := exists_run (sound_empty n) hguard
  exact ⟨s, hrun, hs.marks.markIff, fun f hf g hg => mark_eq_iff hs.marks hf hg,
    hs.marks.pool.nodup_iff.mpr hs.marks.marks, mem_markPool hs.marks⟩

theorem offload_marks_exact_two_threads :
    ∃ s, Exec.exec flowStep (FlowState.start 2) twoThreads = .ok s ∧
      (∀ f, (s.flows f).mark ≠ invalidFlowMark ↔ f ∈ s.markToFlow) ∧
      (∀ f ∈ s.markToFlow, ∀ g ∈ s.markToFlow,
        (s.flows f).mark = (s.flows g).mark ↔ (s.flows f).megaUfid = (s.flows g).megaUfid) ∧
      s.markPool.Nodup ∧
      ∀ mark, mark ∈ s.markPool ↔ ∃ f ∈ s.markToFlow, (s.flows f).mark = mark :=
  offload_marks_exact 2 twoThreads (by decide)

/-- A thread that receives a packet with a mark finds a flow of its own that stands for
the marked megaflow, if one is in its tables, and never one that is gone. -/
theorem mark_lookup_live (n : Nat) (es : List FlowEvent)
    (hguard : Exec.Guarded flowStep FlowGuard (FlowState.start n) es) :
    ∃ s, Exec.exec flowStep (FlowState.start n) es = .ok s ∧ ∀ pmdId mark,
      (∀ g, markToFlowFind s pmdId mark = some g →
        (s.flows g).pmdId = pmdId ∧ (s.flows g).mark = mark ∧ s.refCnt g ≠ 0 ∧
          (g ∈ s.flowTable ∨ g ∈ s.leaving)) ∧
      ∀ f ∈ s.flowTable, (s.flows f).pmdId = pmdId → (s.flows f).mark = mark →
        mark ≠ invalidFlowMark → ∃ g, markToFlowFind s pmdId mark = some g ∧
          (s.flows g).megaUfid = (s.flows f).megaUfid := by
  obtain ⟨s, hrun, hs⟩ := exists_run (sound_empty n) hguard
  refine ⟨s, hrun, fun pmdId mark => ⟨?_, ?_⟩⟩
  · intro g hg
    have hmem : g ∈ s.refs := mem_refs.mpr
      (Or.inr (Or.inr (Or.inr (Or.inr (Or.inr (List.mem_of_find?_eq_some hg))))))
    have hfound := List.find?_some hg
    obtain ⟨hmark, hpmd, halive⟩ := of_decide_eq_true hfound
    refine ⟨hpmd, hmark, hs.counted.pos hmem, ?_⟩
    rcases hs.gone g hmem with hin | hin | hdead
    · exact Or.inl hin
    · exact Or.inr hin
    · rw [halive] at hdead
      cases hdead
  · intro f hf hpmd hmark hvalid
    have hin : f ∈ s.markToFlow := by
      apply (hs.marks.markIff f).mp
      rw [hmark]
      exact hvalid
    have halive := hs.tables.alive f (List.mem_append_left _ hf)
    cases hfind : markToFlowFind s pmdId mark with
    | none =>
        have hno := List.find?_eq_none.mp hfind f hin
        exact absurd (decide_eq_true ⟨hmark, hpmd, halive⟩) hno
    | some g =>
        have hfound := List.find?_some hfind
        refine ⟨g, rfl, (mark_eq_iff hs.marks (List.mem_of_find?_eq_some hfind) hin).mp ?_⟩
        rw [hmark]
        exact (of_decide_eq_true hfound).1

theorem mark_lookup_live_two_threads :
    ∃ s, Exec.exec flowStep (FlowState.start 2) twoThreads = .ok s ∧ ∀ pmdId mark,
      (∀ g, markToFlowFind s pmdId mark = some g →
        (s.flows g).pmdId = pmdId ∧ (s.flows g).mark = mark ∧ s.refCnt g ≠ 0 ∧
          (g ∈ s.flowTable ∨ g ∈ s.leaving)) ∧
      ∀ f ∈ s.flowTable, (s.flows f).pmdId = pmdId → (s.flows f).mark = mark →
        mark ≠ invalidFlowMark → ∃ g, markToFlowFind s pmdId mark = some g ∧
          (s.flows g).megaUfid = (s.flows f).megaUfid :=
  mark_lookup_live 2 twoThreads (by decide)

/-! ### Requests served -/

/-- The thread that offloads flows takes its requests one by one. -/
def serveRequests (answers : List (Option Nat × Bool)) : List FlowEvent :=
  answers.flatMap fun a => [.offloadStart, .offloadFinish a.1 a.2]

theorem length_queue_start (s : FlowState) :
    (offloadStart s).queue.length ≤ s.pipeline.length - 1 := by
  unfold offloadStart FlowState.pipeline
  cases hcurrent : s.current with
  | some item => simp
  | none =>
      cases hqueue : s.queue with
      | nil => simp [hqueue]
      | cons item queue =>
          obtain ⟨f, op⟩ := item
          dsimp only
          by_cases hskip : op ≠ .del ∧ (s.flows f).dead
          · rw [if_pos hskip]
            simp [dpNetdevFlowUnref]
          · rw [if_neg hskip]
            simp

theorem exists_serve {answers : List (Option Nat × Bool)} {s : FlowState} (h : s.Sound)
    (hguard : Exec.Guarded flowStep FlowGuard s (serveRequests answers))
    (hlen : s.pipeline.length ≤ answers.length) :
    ∃ t, Exec.exec flowStep s (serveRequests answers) = .ok t ∧ t.Sound ∧ t.pipeline = [] := by
  induction answers generalizing s with
  | nil => exact ⟨s, rfl, h, List.length_eq_zero_iff.mp (Nat.le_zero.mp hlen)⟩
  | cons a answers ih =>
      have hfinish := (hguard.2 _ rfl).1
      obtain ⟨t, ht, hsound, hrest⟩ := exists_finish (sound_start h) hfinish
      have hqueue := length_queue_start s
      have hguard' := (hguard.2 _ rfl).2 t ht
      have hlen' : t.pipeline.length ≤ answers.length := by
        rw [hrest]
        rw [List.length_cons] at hlen
        omega
      obtain ⟨u, hu, hdone⟩ := ih hsound hguard' hlen'
      have hstart : flowStep s .offloadStart = .ok (offloadStart s) := rfl
      have hwork : flowStep (offloadStart s) (.offloadFinish a.1 a.2) = .ok t := ht
      refine ⟨u, ?_, hdone⟩
      show Exec.exec flowStep s
        (.offloadStart :: .offloadFinish a.1 a.2 :: serveRequests answers) = _
      rw [Exec.exec_cons_of_ok _ hstart, Exec.exec_cons_of_ok _ hwork]
      exact hu

/-- Once its requests are served, the hardware has flows of the tables only, no mark is
lost, and a removed flow that no cache remembers is freed. -/
theorem offload_drains (n : Nat) (es : List FlowEvent) (answers : List (Option Nat × Bool))
    (hguard : Exec.Guarded flowStep FlowGuard (FlowState.start n) (es ++ serveRequests answers))
    (hlen : ∀ s, Exec.exec flowStep (FlowState.start n) es = .ok s →
      s.pipeline.length ≤ answers.length) :
    ∃ s, Exec.exec flowStep (FlowState.start n) (es ++ serveRequests answers) = .ok s ∧
      s.pipeline = [] ∧
      (∀ f ∈ s.markToFlow, f ∈ s.flowTable ∧ (s.flows f).dead = false) ∧
      (∀ mark ∈ s.markPool, ∃ f ∈ s.flowTable, (s.flows f).mark = mark) ∧
      ∀ f, f ∉ s.flowTable → f ∉ s.leaving → f ∉ s.cached → s.refCnt f = 0 := by
  obtain ⟨s, hrun, hs⟩ := exists_run (sound_empty n) hguard.left
  obtain ⟨t, hserve, ht, hnone⟩ := exists_serve hs (hguard.right hrun) (hlen s hrun)
  have htable : ∀ f ∈ t.markToFlow, f ∈ t.flowTable := by
    intro f hf
    by_contra hout
    have hlast := ht.pending.last f hout (Or.inl hf)
    rw [hnone] at hlast
    cases hlast
  refine ⟨t, (Exec.exec_append_of_ok _ hrun).trans hserve, hnone, ?_, ?_, ?_⟩
  · exact fun f hf => ⟨htable f hf, ht.tables.alive f (List.mem_append_left _ (htable f hf))⟩
  · intro mark hmark
    obtain ⟨f, hf, hfm⟩ := (mem_markPool ht.marks mark).mp hmark
    exact ⟨f, htable f hf, hfm⟩
  · intro f hout hleft hcached
    rw [ht.counted f, List.count_eq_zero, mem_refs, hnone]
    rintro (hin | hin | hin | hin | hin | hin)
    · exact hout hin
    · exact hleft hin
    · exact hout ((ht.tables.simpleIff f).mp hin).1
    · exact hcached hin
    · cases hin
    · exact hout (htable f hin)

theorem offload_drains_two_threads :
    ∃ s, Exec.exec flowStep (FlowState.start 2)
        (twoThreads ++ serveRequests [(some 4, true), (none, false)]) = .ok s ∧
      s.pipeline = [] ∧
      (∀ f ∈ s.markToFlow, f ∈ s.flowTable ∧ (s.flows f).dead = false) ∧
      (∀ mark ∈ s.markPool, ∃ f ∈ s.flowTable, (s.flows f).mark = mark) ∧
      ∀ f, f ∉ s.flowTable → f ∉ s.leaving → f ∉ s.cached → s.refCnt f = 0 := by
  apply offload_drains 2 twoThreads [(some 4, true), (none, false)] (by decide)
  intro s hs
  obtain rfl := Except.ok.inj hs
  decide

/-! ### Simple matches -/

/-- The simple match table may stand in for the other tables of a port exactly when all
flows of the port are simple, and then a lookup in it finds the flow for its key. -/
theorem simple_match_exact (n : Nat) (es : List FlowEvent)
    (hguard : Exec.Guarded flowStep FlowGuard (FlowState.start n) es) :
    ∃ s, Exec.exec flowStep (FlowState.start n) es = .ok s ∧ ∀ pmdId,
      (∀ inPort, simpleMatchEnabled s pmdId inPort = true ↔
        ∀ f ∈ s.flowTable, s.port f = (pmdId, inPort) → (s.flows f).simple = true) ∧
      ∀ mark f, simpleMatchLookup s pmdId mark = some f ↔ f ∈ s.flowTable ∧
        (s.flows f).simple = true ∧ (s.flows f).pmdId = pmdId ∧
          (s.flows f).simpleMatchMark = mark := by
  obtain ⟨s, hrun, hs⟩ := exists_run (sound_empty n) hguard
  have h := hs.tables
  refine ⟨s, hrun, fun pmdId => ⟨fun inPort => simpleMatchEnabled_iff h pmdId inPort, ?_⟩⟩
  intro mark f
  rw [← and_assoc, ← h.simpleIff f]
  constructor
  · intro hfind
    have hfound := List.find?_some hfind
    exact ⟨List.mem_of_find?_eq_some hfind, of_decide_eq_true hfound⟩
  · intro hf
    obtain ⟨hmem, rfl, rfl⟩ := hf
    exact simpleMatchLookup_of_mem h hmem

theorem simple_match_exact_two_threads :
    ∃ s, Exec.exec flowStep (FlowState.start 2) twoThreads = .ok s ∧ ∀ pmdId,
      (∀ inPort, simpleMatchEnabled s pmdId inPort = true ↔
        ∀ f ∈ s.flowTable, s.port f = (pmdId, inPort) → (s.flows f).simple = true) ∧
      ∀ mark f, simpleMatchLookup s pmdId mark = some f ↔ f ∈ s.flowTable ∧
        (s.flows f).simple = true ∧ (s.flows f).pmdId = pmdId ∧
          (s.flows f).simpleMatchMark = mark :=
  simple_match_exact 2 twoThreads (by decide)

end Repath.Datapath
