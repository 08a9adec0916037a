import Mathlib.Data.List.GetD
import Repath.Datapath.SchedRun
import Repath.Lib.ListScheduling

/-!
# Load of the threads

Round robin, in either direction, gives the PMDs of a NUMA node that are not isolated the
same number of queues, but for one.  The group algorithm looks at the cycles instead: no
PMD could be relieved by moving one of its queues to another PMD of its node.
-/

namespace Repath.Datapath

open ListScheduling RoundRobin

/-- The queues of a PMD that are not pinned to it. -/
def SchedNumaList.unpinned (l : SchedNumaList) (p : Nat) : List Rxq :=
  (l.rxqs p).filter fun r => r.coreId ≠ some p

section Add

variable {l : SchedNumaList} {p : Nat} {r : Rxq} {n : Nat} {w : Walk} {cycles : Nat}

theorem unpinned_add (hr : r.coreId ≠ some p) (q : Nat) :
    (schedPmdAddRxq (l.withWalk n w) p r cycles).unpinned q =
      Function.update l.unpinned p (l.unpinned p ++ [r]) q := by
  unfold SchedNumaList.unpinned
  show (Function.update l.rxqs p (l.rxqs p ++ [r]) q).filter _ = _
  by_cases hq : q = p
  · subst hq
    rw [Function.update_self, Function.update_self, List.filter_append,
      List.filter_cons_of_pos (by simpa using hr)]
    rfl
  · rw [Function.update_of_ne hq, Function.update_of_ne hq]

end Add

/-- A queue on its way to be assigned is pinned to no PMD. -/
theorem coreId_ne {l : SchedNumaList} {r : Rxq} (h : l.target r = none) {p : Nat}
    (hp : p ∈ l.allPmds) : r.coreId ≠ some p := by
  intro hcore
  rw [target_eq_some_iff.mpr ⟨hcore, hp⟩] at h
  cases h

/-- A PMD is on one NUMA node. -/
theorem SchedNumaList.Settled.node_unique {l : SchedNumaList} (h : l.Settled) {m n p : Nat}
    (hm : m ∈ l.numas) (hn : n ∈ l.numas) (hpm : p ∈ l.pmds m) (hpn : p ∈ l.pmds n) : m = n :=
  (h.numa m hm p hpm).symm.trans (h.numa n hn p hpn)

theorem SchedNumaList.Settled.pmds_nodup {l : SchedNumaList} (h : l.Settled) {n : Nat}
    (hn : n ∈ l.numas) : (l.pmds n).Nodup := (List.nodup_flatMap.mp h.pmdsNodup).1 n hn

/-! ### Round robin -/

/-- The PMDs of each NUMA node have taken turns. -/
def TakingTurns (l : SchedNumaList) (st : Scheduling) : Prop :=
  ∀ n ∈ l.numas, Even (l.pmds n).length (l.takes n)
    (fun i => (st.list.unpinned ((l.pmds n).getD i 0)).length) (st.list.walk n)

theorem takes_congr {l l' : SchedNumaList} (h : Kept l l') (n : Nat) : l'.takes n = l.takes n := by
  funext i
  unfold SchedNumaList.takes
  rw [h.pmds, h.isolated]

theorem takingTurns_step {l : SchedNumaList} (hl : l.Settled) {algo : SchedAssignmentType}
    (halgo : algo ≠ .group) {done : List Rxq} {st : Scheduling} (h : Placing l done st)
    (hturns : TakingTurns l st) {r : Rxq} (hr : l.target r = none) :
    TakingTurns l (assignRxq algo st r) := by
  have hall : st.list.allPmds = l.allPmds := allPmds_congr h.kept.numas h.kept.pmds
  have hbound : st.list.Bounded algo := fun hgroup => absurd hgroup halgo
  have hcases := assignRxq_cases r (hl.of_kept h.kept)
    (by rw [h.kept.numas, h.kept.pmds]; exact h.walks) hbound
  rw [hall, h.kept.numas, h.kept.pmds] at hcases
  rcases hcases with ⟨last, -, hstep⟩ | ⟨n, p, w, last, hn, hp, -, -, -, hnext, hstep⟩
  · rw [hstep]
    exact hturns
  · rw [hstep]
    have hne : r.coreId ≠ some p := coreId_ne hr (List.mem_flatMap.mpr ⟨n, hn, hp⟩)
    -- the index of `p` in its node, and the walk after it
    obtain ⟨i, hfound, hget⟩ : ∃ i, firstFree (l.pmds n).length (algo = .cycles) (l.takes n)
        ((l.pmds n).length * 2) (st.list.walk n) = (some i, w) ∧ (l.pmds n)[i]? = some p := by
      unfold schedPmdNext schedPmdNextNonisoRr at hnext
      rw [if_neg halgo, nonisoLoop_eq (by rw [h.kept.pmds]; exact h.walks n hn),
        takes_congr h.kept, h.kept.pmds] at hnext
      obtain ⟨hfst, hsnd⟩ := Prod.mk.inj hnext
      obtain ⟨i, hi, hget⟩ := Option.bind_eq_some_iff.mp hfst
      have hw := congrArg (fun l' => SchedNumaList.walk l' n) hsnd
      rw [walk_withWalk, walk_withWalk] at hw
      exact ⟨i, Prod.ext hi hw, hget⟩
    obtain ⟨hi, hfree, -, heven⟩ := (hturns n hn).firstFree (h.walks n hn) hfound
    intro m hm
    by_cases hmn : m = n
    · subst hmn
      show Even _ _ _ ((st.list.withWalk m w).walk m)
      rw [walk_withWalk]
      apply heven.congr
      intro j hj _
      rw [unpinned_add hne]
      have hpi : (l.pmds m).getD i 0 = p := by
        rw [List.getD_eq_getElem?_getD, hget]
        rfl
      by_cases hji : j = i
      · subst hji
        rw [hpi, Function.update_self, Function.update_self, List.length_append]
        rfl
      · have hjp : (l.pmds m).getD j 0 ≠ p := by
          rw [← hpi, List.getD_eq_getElem _ _ hj, List.getD_eq_getElem _ _ hi]
          exact fun he => hji ((hl.pmds_nodup hm).getElem_inj_iff.mp he)
        rw [Function.update_of_ne hji, Function.update_of_ne hjp]
    · have hwalk : (schedPmdAddRxq (st.list.withWalk n w) p r r.cyclesHist).walk m =
          st.list.walk m := by
        show Walk.mk (Function.update st.list.rrCurIndex n w.cur m)
          (Function.update st.list.rrIdxInc n w.up m) = _
        rw [Function.update_of_ne hmn, Function.update_of_ne hmn]
        rfl
      show Even _ _ _ ((schedPmdAddRxq (st.list.withWalk n w) p r r.cyclesHist).walk m)
      rw [hwalk]
      apply (hturns m hm).congr
      intro j hj _
      rw [unpinned_add hne]
      have hjp : (l.pmds m).getD j 0 ≠ p := by
        rw [List.getD_eq_getElem _ _ hj]
        intro he
        exact hmn (hl.node_unique hm hn (he ▸ List.getElem_mem hj) hp)
      rw [Function.update_of_ne hjp]

section Round

variable {l : SchedNumaList} (hl : l.Fresh) (pmdIso : Bool) {algo : SchedAssignmentType}
  (rxqs : List Rxq)
include hl

/-- The queues that are assigned are pinned to no PMD. -/
theorem target_of_pending {r : Rxq}
    (hr : r ∈ sortRxqs algo (pinAll l pmdIso algo rxqs).pending) :
    (pinAll l pmdIso algo rxqs).list.target r = none := by
  have h := pinned_pinAll hl pmdIso algo rxqs
  rw [(sortRxqs_perm algo _).mem_iff, h.pending] at hr
  rw [target_congr (allPmds_congr h.numas h.pmds)]
  exact of_decide_eq_true (List.mem_filter.mp hr).2

/-- No queue is assigned yet. -/
theorem unpinned_pinAll (p : Nat) : (pinAll l pmdIso algo rxqs).list.unpinned p = [] := by
  have h := pinned_pinAll hl pmdIso algo rxqs
  unfold SchedNumaList.unpinned
  rw [List.filter_eq_nil_iff]
  intro r hr
  simp [(target_eq_some_iff.mp (h.pinned p r hr)).1]

theorem takingTurns_schedule (halgo : algo ≠ .group) :
    TakingTurns (pinAll l pmdIso algo rxqs).list (schedNumaListSchedule l pmdIso algo rxqs) := by
  have h := pinned_pinAll hl pmdIso algo rxqs
  have hsettled := settled_pinned hl h
  have hrun : ∀ rest done : List Rxq, ∀ st : Scheduling,
      Placing (pinAll l pmdIso algo rxqs).list done st →
      TakingTurns (pinAll l pmdIso algo rxqs).list st →
      (∀ r ∈ rest, (pinAll l pmdIso algo rxqs).list.target r = none) →
        TakingTurns (pinAll l pmdIso algo rxqs).list (rest.foldl (assignRxq algo) st) := by
    intro rest
    induction rest with
    | nil => exact fun _ _ _ hturns _ => hturns
    | cons r rest ih =>
        intro done st hplacing hturns hrest
        obtain ⟨hr, hrest⟩ := List.forall_mem_cons.mp hrest
        have hbound : st.list.Bounded algo := fun hgroup => absurd hgroup halgo
        exact ih _ _ (placing_step hsettled hplacing hbound r)
          (takingTurns_step hsettled halgo hplacing hturns hr) hrest
  apply hrun _ _ _ (placing_pinned hl h)
  · intro n _
    rw [h.walk n]
    apply (even_start _ _).congr
    intro i _ _
    rw [unpinned_pinAll hl]
    rfl
  · exact fun r hr => target_of_pending hl pmdIso rxqs hr

end Round

section Threads

variable {threads : List (Nat × Nat)} {order : List Nat}

/-- No thread gets two queues more than another one of its NUMA node. -/
theorem rxq_scheduling_fair (hcores : (threads.map Prod.fst).Nodup)
    (horder : order.Perm (schedNumaListPopulate threads).numas) (pmdIso : Bool)
    {algo : SchedAssignmentType} (halgo : algo ≠ .group) (rxqs : List Rxq) :
    let st := rxqScheduling threads order pmdIso algo rxqs
    ∀ t ∈ threads, ∀ u ∈ threads, t.2 = u.2 →
      st.list.isolated t.1 = false → st.list.isolated u.1 = false →
        (st.list.unpinned t.1).length ≤ (st.list.unpinned u.1).length + 1 := by
  intro st t ht u hu hnode htfree hufree
  have h := holds_populate hcores horder
  have hpinned := pinned_pinAll h.fresh pmdIso algo rxqs
  have hfits : CyclesFit algo (rxqs.map (setCycleHist algo)) := fun hgroup => absurd hgroup halgo
  have hplacing : Placing _ _ st := placing_schedule h.fresh pmdIso algo rxqs hfits
  have hturns : TakingTurns _ st := takingTurns_schedule h.fresh pmdIso rxqs halgo
  obtain ⟨-, htmem, hnuma⟩ := h.node t ht
  obtain ⟨-, humem, -⟩ := h.node u hu
  rw [hplacing.kept.isolated] at htfree hufree
  rw [← hnode] at humem
  rw [← hpinned.pmds] at htmem humem
  rw [← hpinned.numas] at hnuma
  obtain ⟨i, hi, hti⟩ := List.getElem_of_mem htmem
  obtain ⟨j, hj, huj⟩ := List.getElem_of_mem humem
  have hle := (hturns t.2 hnuma).le hi hj ((takes_iff hi).mpr (by rw [hti]; exact htfree))
    ((takes_iff hj).mpr (by rw [huj]; exact hufree))
  rwa [List.getD_eq_getElem _ _ hi, List.getD_eq_getElem _ _ hj, hti, huj] at hle

theorem rxq_scheduling_fair_some :
    let st := rxqScheduling someThreads [1, 0] true .cycles someRxqs
    (st.list.unpinned 0).length ≤ (st.list.unpinned 1).length + 1 :=
  rxq_scheduling_fair (by decide) (by decide) true (by decide) someRxqs (0, 0) (by decide) (1, 0)
    (by decide) rfl (by decide) (by decide)

end Threads

/-! ### Cycles -/

/-- What the queues of a PMD take. -/
def SchedNumaList.load (l : SchedNumaList) (p : Nat) : Nat :=
  ((l.rxqs p).map Rxq.cyclesHist).sum

/-- No PMD of a node could be relieved by moving one of its queues. -/
def Relieved (l : SchedNumaList) (st : Scheduling) : Prop :=
  ∀ n ∈ l.numas, Balanced (fun p => p ∈ l.pmds n ∧ l.isolated p = false) st.list.load
    fun p => (st.list.unpinned p).map Rxq.cyclesHist

theorem load_add {l : SchedNumaList} {p : Nat} {r : Rxq} {n : Nat} {w : Walk} {cycles : Nat}
    (q : Nat) : (schedPmdAddRxq (l.withWalk n w) p r cycles).load q =
      Function.update l.load p (l.load p + r.cyclesHist) q := by
  unfold SchedNumaList.load
  show ((Function.update l.rxqs p (l.rxqs p ++ [r]) q).map Rxq.cyclesHist).sum = _
  by_cases hq : q = p
  · subst hq
    rw [Function.update_self, Function.update_self, cyclesSum_append]
    simp
  · rw [Function.update_of_ne hq, Function.update_of_ne hq]

/-- While all sums fit, the cycles that a PMD counts are those of its queues. -/
theorem pmdProcCycles_eq {l : SchedNumaList} {st : Scheduling} {done rest all : List Rxq}
    (h : Placing l done st) (hall : (l.allPmds.flatMap l.rxqs ++ (done ++ rest)).Perm all)
    (hfits : (all.map Rxq.cyclesHist).sum < 2 ^ 64 - 1) {p : Nat} (hp : p ∈ l.allPmds) :
    st.list.pmdProcCycles p = st.list.load p := by
  have hle := (rxqs_le h hall hp).1
  rw [h.cycles p]
  exact Nat.mod_eq_of_lt (by omega)

theorem relieved_step {l : SchedNumaList} (hl : l.Settled) {done rest all : List Rxq}
    {st : Scheduling} (h : Placing l done st) {r : Rxq}
    (hall : (l.allPmds.flatMap l.rxqs ++ (done ++ r :: rest)).Perm all)
    (hfits : CyclesFit .group all) (hrelieved : Relieved l st) (hr : l.target r = none)
    (hpinned : ∀ p, ∀ s ∈ l.rxqs p, s.coreId = some p)
    (hsorted : ∀ s ∈ done, r.cyclesHist ≤ s.cyclesHist) :
    Relieved l (assignRxq .group st r) := by
  have hpmds : st.list.allPmds = l.allPmds := allPmds_congr h.kept.numas h.kept.pmds
  have hcases := assignRxq_cases r (hl.of_kept h.kept)
    (by rw [h.kept.numas, h.kept.pmds]; exact h.walks) (bounded_of_fits h hall hfits)
  rw [hpmds, h.kept.numas, h.kept.pmds] at hcases
  have hsum := (hfits rfl).1
  rcases hcases with ⟨last, -, hstep⟩ | ⟨n, p, w, last, hn, hp, hiso, -, -, hnext, hstep⟩
  · rw [hstep]
    exact hrelieved
  · rw [hstep]
    have hmem : ∀ q ∈ l.pmds n, q ∈ l.allPmds := fun q hq => List.mem_flatMap.mpr ⟨n, hn, hq⟩
    have hne : r.coreId ≠ some p := coreId_ne hr (hmem p hp)
    have hjobs : ∀ q, ((schedPmdAddRxq (st.list.withWalk n w) p r r.cyclesHist).unpinned q).map
        Rxq.cyclesHist = Function.update (fun p => (st.list.unpinned p).map Rxq.cyclesHist) p
          ((st.list.unpinned p).map Rxq.cyclesHist ++ [r.cyclesHist]) q := by
      intro q
      rw [unpinned_add hne]
      by_cases hq : q = p
      · subst hq
        rw [Function.update_self, Function.update_self, List.map_append]
        rfl
      · rw [Function.update_of_ne hq, Function.update_of_ne hq]
    -- the group algorithm looks for the least cycles, unless the queue takes none
    have hleast : 0 < r.cyclesHist → ∀ q, q ∈ l.pmds n ∧ l.isolated q = false →
        st.list.load p ≤ st.list.load q := by
      intro hpos q hq
      have hfound : schedPmdGetLowest st.list n true = some p := by
        have hfst := congrArg Prod.fst hnext
        unfold schedPmdNext at hfst
        rw [if_pos rfl, decide_eq_true (Nat.ne_of_gt hpos)] at hfst
        exact hfst
      obtain ⟨-, -, hmin⟩ := schedPmdGetLowest_some hfound
      rw [h.kept.pmds, h.kept.isolated] at hmin
      have hle := hmin q hq.1 hq.2
      unfold SchedNumaList.pmdNum at hle
      rwa [if_pos rfl, if_pos rfl, pmdProcCycles_eq h hall hsum (hmem p hp),
        pmdProcCycles_eq h hall hsum (hmem q hq.1)] at hle
    have hshort : ∀ q, ∀ c ∈ (st.list.unpinned q).map Rxq.cyclesHist, r.cyclesHist ≤ c := by
      intro q c hc
      obtain ⟨s, hs, rfl⟩ := List.mem_map.mp hc
      obtain ⟨hs, hcore⟩ := List.mem_filter.mp hs
      rcases h.placed q s hs with hold | ⟨hdone, -, -⟩
      · exact absurd (hpinned q s hold) (of_decide_eq_true hcore)
      · exact hsorted s hdone
    intro m hm
    by_cases hmn : m = n
    · subst hmn
      exact ((hrelieved m hm).assign hleast fun q _ => hshort q).congr
        (fun q _ => load_add q) fun q _ => hjobs q
    · have hother : ∀ q, q ∈ l.pmds m ∧ l.isolated q = false → q ≠ p := by
        intro q hq he
        exact hmn (hl.node_unique hm hn (he ▸ hq.1) hp)
      apply (hrelieved m hm).congr
      · intro q hq
        rw [load_add, Function.update_of_ne (hother q hq)]
      · intro q hq
        rw [hjobs, Function.update_of_ne (hother q hq)]

theorem compareRxqCycles_le_iff {a b : Rxq} : compareRxqCycles a b ≤ 0 ↔
    b.cyclesHist < a.cyclesHist ∨ a.cyclesHist = b.cyclesHist ∧
      (a.port < b.port ∨ a.port = b.port ∧ a.queueId ≤ b.queueId) := by
  unfold compareRxqCycles
  split
  · split <;> omega
  · split
    · split <;> omega
    · omega

instance : IsTrans Rxq fun a b => compareRxqCycles a b ≤ 0 where
  trans a b c hab hbc := by
    rw [compareRxqCycles_le_iff] at hab hbc ⊢
    omega

instance : Std.Total fun a b : Rxq => compareRxqCycles a b ≤ 0 where
  total a b := by
    rw [compareRxqCycles_le_iff, compareRxqCycles_le_iff]
    omega

/-- The queues are sorted by falling cycles. -/
theorem sortRxqs_sorted {algo : SchedAssignmentType} (halgo : algo ≠ .roundrobin)
    (rxqs : List Rxq) :
    (sortRxqs algo rxqs).Pairwise fun a b => b.cyclesHist ≤ a.cyclesHist := by
  unfold sortRxqs
  rw [if_neg halgo]
  apply (List.pairwise_insertionSort (fun a b => compareRxqCycles a b ≤ 0) rxqs).imp
  intro a b hab
  rw [compareRxqCycles_le_iff] at hab
  omega

theorem relieved_schedule {l : SchedNumaList} (hl : l.Fresh) (pmdIso : Bool) (rxqs : List Rxq)
    (hfits : CyclesFit .group (rxqs.map (setCycleHist .group))) :
    Relieved (pinAll l pmdIso .group rxqs).list (schedNumaListSchedule l pmdIso .group rxqs) := by
  have h := pinned_pinAll hl pmdIso .group rxqs
  have hsettled := settled_pinned hl h
  have hpinned : ∀ p, ∀ s ∈ (pinAll l pmdIso .group rxqs).list.rxqs p, s.coreId = some p :=
    fun p s hs => (target_eq_some_iff.mp (h.pinned p s hs)).1
  have hrun : ∀ rest done : List Rxq, ∀ st : Scheduling,
      Placing (pinAll l pmdIso .group rxqs).list done st →
      Relieved (pinAll l pmdIso .group rxqs).list st →
      ((pinAll l pmdIso .group rxqs).list.allPmds.flatMap
        (pinAll l pmdIso .group rxqs).list.rxqs ++ (done ++ rest)).Perm
          (rxqs.map (setCycleHist .group)) →
      (done ++ rest).Pairwise (fun a b => b.cyclesHist ≤ a.cyclesHist) →
      (∀ r ∈ rest, (pinAll l pmdIso .group rxqs).list.target r = none) →
        Relieved (pinAll l pmdIso .group rxqs).list (rest.foldl (assignRxq .group) st) := by
    intro rest
    induction rest with
    | nil => exact fun _ _ _ hrelieved _ _ _ => hrelieved
    | cons r rest ih =>
        intro done st hplacing hrelieved hall hsorted hrest
        obtain ⟨hr, hrest⟩ := List.forall_mem_cons.mp hrest
        have hshort : ∀ s ∈ done, r.cyclesHist ≤ s.cyclesHist := fun s hs =>
          (List.pairwise_append.mp hsorted).2.2 s hs r List.mem_cons_self
        have hstep := relieved_step hsettled hplacing hall hfits hrelieved hr hpinned hshort
        have hplacing' := placing_step hsettled hplacing (bounded_of_fits hplacing hall hfits) r
        rw [List.append_cons] at hall hsorted
        exact ih _ _ hplacing' hstep hall hsorted hrest
  apply hrun _ [] _ (placing_pinned hl h)
  · intro n _
    apply (balanced_empty _ _).congr (fun _ _ => rfl)
    intro p _
    rw [unpinned_pinAll hl]
    rfl
  · exact pinAll_perm hl pmdIso .group rxqs
  · have hsort : SchedAssignmentType.group ≠ .roundrobin := by decide
    exact sortRxqs_sorted hsort _
  · exact fun r hr => target_of_pending hl pmdIso rxqs hr

/-- The group algorithm leaves no thread that could hand a queue to another thread of its
NUMA node and have less to do than that one then has. -/
theorem rxq_scheduling_balanced {threads : List (Nat × Nat)} {order : List Nat}
    (hcores : (threads.map Prod.fst).Nodup)
    (horder : order.Perm (schedNumaListPopulate threads).numas) (pmdIso : Bool) (rxqs : List Rxq)
    (hfits : CyclesFit .group (rxqs.map (setCycleHist .group))) :
    let st := rxqScheduling threads order pmdIso .group rxqs
    ∀ t ∈ threads, ∀ u ∈ threads, t.2 = u.2 →
      st.list.isolated t.1 = false → st.list.isolated u.1 = false →
        ∀ r ∈ st.list.unpinned t.1, 0 < r.cyclesHist →
          st.list.pmdProcCycles t.1 ≤ st.list.pmdProcCycles u.1 + r.cyclesHist := by
  intro st t ht u hu hnode htfree hufree r hr hpos
  have h := holds_populate hcores horder
  have hpinned := pinned_pinAll h.fresh pmdIso .group rxqs
  have hplacing : Placing _ _ st := placing_schedule h.fresh pmdIso .group rxqs hfits
  have hrelieved : Relieved _ st := relieved_schedule h.fresh pmdIso rxqs hfits
  have hperm := pinAll_perm h.fresh pmdIso .group rxqs
  rw [List.nil_append, ← List.append_nil (sortRxqs _ _)] at hperm
  have hall := allPmds_congr hpinned.numas hpinned.pmds
  have hload : ∀ v ∈ threads, st.list.pmdProcCycles v.1 = st.list.load v.1 := by
    intro v hv
    apply pmdProcCycles_eq hplacing hperm (hfits rfl).1
    rw [hall]
    exact h.cores.mem_iff.mpr (List.mem_map_of_mem hv)
  obtain ⟨-, htmem, hnuma⟩ := h.node t ht
  obtain ⟨-, humem, -⟩ := h.node u hu
  rw [hplacing.kept.isolated] at htfree hufree
  rw [← hnode] at humem
  rw [← hpinned.pmds] at htmem humem
  rw [← hpinned.numas] at hnuma
  rw [hload t ht, hload u hu]
  exact hrelieved t.2 hnuma t.1 ⟨htmem, htfree⟩ r.cyclesHist (List.mem_map_of_mem hr) hpos u.1
    ⟨humem, hufree⟩

theorem rxq_scheduling_balanced_some :
    let st := rxqScheduling someThreads [1, 0] true .group someRxqs
    st.list.pmdProcCycles 0 ≤ st.list.pmdProcCycles 1 + 9 :=
  rxq_scheduling_balanced (by decide) (by decide) true someRxqs (by decide) (0, 0) (by decide)
    (1, 0) (by decide) rfl (by decide) (by decide)
    ⟨1, 0, 0, none, [5, 4], 9⟩ (by decide) (by decide)

end Repath.Datapath
