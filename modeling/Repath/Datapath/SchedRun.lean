import Mathlib.Algebra.BigOperators.Group.List.Basic
import Mathlib.Algebra.GroupWithZero.Nat
import Repath.Datapath.SchedAssign

/-!
# A round of scheduling

Queues are pinned first, and the rest is assigned one by one.  The isolation of PMDs is
settled by then, so each assignment finds the same PMDs to choose from.
-/

namespace Repath.Datapath

open RoundRobin

/-- The PMD a queue is pinned to. -/
def SchedNumaList.target (l : SchedNumaList) (r : Rxq) : Option Nat :=
  r.coreId.bind (schedPmdFindByPmd l)

theorem target_eq_some_iff {l : SchedNumaList} {r : Rxq} {p : Nat} :
    l.target r = some p ↔ r.coreId = some p ∧ p ∈ l.allPmds := by
  unfold SchedNumaList.target schedPmdFindByPmd
  constructor
  · intro h
    obtain ⟨core, hcore, hfind⟩ := Option.bind_eq_some_iff.mp h
    have hp : p = core :=
      of_decide_eq_true (List.find?_some (p := fun pmd => decide (pmd = core)) hfind)
    exact ⟨hcore.trans (congrArg some hp.symm), List.mem_of_find?_eq_some hfind⟩
  · intro h
    rw [h.1, Option.bind_some]
    cases hfind : l.allPmds.find? fun pmd => decide (pmd = p) with
    | none =>
        have hno := List.find?_eq_none.mp hfind p h.2
        exact absurd (decide_eq_true rfl) hno
    | some q =>
        have hq : q = p :=
          of_decide_eq_true (List.find?_some (p := fun pmd => decide (pmd = p)) hfind)
        rw [hq]

/-- A queue more for one PMD. -/
theorem flatMap_add_perm {ps : List Nat} (h : ps.Nodup) {p : Nat} (hp : p ∈ ps)
    (rxqs : Nat → List Rxq) (r : Rxq) :
    (ps.flatMap (Function.update rxqs p (rxqs p ++ [r]))).Perm (r :: ps.flatMap rxqs) := by
  have hsplit := List.perm_cons_erase hp
  have hothers : (ps.erase p).flatMap (Function.update rxqs p (rxqs p ++ [r])) =
      (ps.erase p).flatMap rxqs := by
    apply List.flatMap_congr
    intro q hq
    exact Function.update_of_ne (h.mem_erase_iff.mp hq).1 _ rxqs
  have hnew := hsplit.flatMap_right (Function.update rxqs p (rxqs p ++ [r]))
  have hold := hsplit.flatMap_right rxqs
  rw [List.flatMap_cons, hothers, Function.update_self, List.append_assoc] at hnew
  rw [List.flatMap_cons] at hold
  exact hnew.trans (List.perm_middle.trans (hold.symm.cons r))

/-! ### Pinned queues -/

/-- What pinning the queues `done` leads to. -/
structure Pinned (l : SchedNumaList) (pmdIso : Bool) (done : List Rxq) (st : Scheduling) :
    Prop where
  numas : st.list.numas = l.numas
  pmds : st.list.pmds = l.pmds
  numa : st.list.numa = l.numa
  walk : ∀ n, st.list.walk n = { cur := 0, up := true }
  pending : st.pending = done.filter fun r => l.target r = none
  unpolled : st.unpolled = []
  pinned : ∀ p, ∀ r ∈ st.list.rxqs p, l.target r = some p
  perm : (l.allPmds.flatMap st.list.rxqs ++ st.pending).Perm done
  isolated : ∀ p, st.list.isolated p = true ↔ pmdIso = true ∧ st.list.rxqs p ≠ []
  counts : st.list.CountsIsolated
  cycles : ∀ p, st.list.pmdProcCycles p = ((st.list.rxqs p).map Rxq.cyclesHist).sum % 2 ^ 64

theorem cycles_add {l : SchedNumaList} (r : Rxq) {p q : Nat}
    (h : ∀ q, l.pmdProcCycles q = ((l.rxqs q).map Rxq.cyclesHist).sum % 2 ^ 64) :
    (schedPmdAddRxq l p r r.cyclesHist).pmdProcCycles q =
      (((schedPmdAddRxq l p r r.cyclesHist).rxqs q).map Rxq.cyclesHist).sum % 2 ^ 64 := by
  show Function.update l.pmdProcCycles p _ q =
    ((Function.update l.rxqs p (l.rxqs p ++ [r]) q).map Rxq.cyclesHist).sum % 2 ^ 64
  by_cases hq : q = p
  · subst hq
    rw [Function.update_self, Function.update_self, h q, List.map_append, List.sum_append]
    simp
  · rw [Function.update_of_ne hq, Function.update_of_ne hq]
    exact h q

/-- Isolating one PMD more. -/
def SchedNumaList.isolate (l : SchedNumaList) (p : Nat) : SchedNumaList :=
  { l with
    isolated := Function.update l.isolated p true,
    nIsolated := Function.update l.nIsolated (l.numa p) (l.nIsolated (l.numa p) + 1) }

theorem countsIsolated_isolate {l : SchedNumaList} (h : l.CountsIsolated)
    (hnodup : l.allPmds.Nodup) (hnuma : ∀ n ∈ l.numas, ∀ p ∈ l.pmds n, l.numa p = n) {p : Nat}
    (hp : p ∈ l.allPmds) (hiso : l.isolated p = false) : (l.isolate p).CountsIsolated := by
  intro n hn
  show Function.update l.nIsolated (l.numa p) _ n =
    (l.pmds n).countP (Function.update l.isolated p true)
  obtain ⟨m, hm, hpm⟩ := List.mem_flatMap.mp hp
  have hpn := hnuma m hm p hpm
  by_cases hnp : n = l.numa p
  · have hin : p ∈ l.pmds n := by
      rw [hnp, hpn]
      exact hpm
    have hpmds : (l.pmds n).Nodup := (List.nodup_flatMap.mp hnodup).1 n hn
    have hsplit := List.perm_cons_erase hin
    have hothers : ((l.pmds n).erase p).countP (Function.update l.isolated p true) =
        ((l.pmds n).erase p).countP l.isolated := by
      apply List.countP_congr
      intro q hq
      rw [Function.update_of_ne (hpmds.mem_erase_iff.mp hq).1]
    rw [← hnp, Function.update_self, h n hn, hsplit.countP_eq, hsplit.countP_eq,
      List.countP_cons_of_neg (by simpa using hiso), List.countP_cons_of_pos (by simp), hothers]
  · rw [Function.update_of_ne hnp, h n hn]
    apply List.countP_congr
    intro q hq
    have hqp : q ≠ p := by
      intro he
      subst he
      exact hnp (hnuma n hn q hq).symm
    rw [Function.update_of_ne hqp]

theorem pinned_empty {l : SchedNumaList} (h : l.Fresh) (pmdIso : Bool) :
    Pinned l pmdIso [] { list := l, pending := [], lastCrossNuma := none, unpolled := [] } where
  numas := rfl
  pmds := rfl
  numa := rfl
  walk n := by
    unfold SchedNumaList.walk
    rw [h.rrCurIndex, h.rrIdxInc]
  pending := rfl
  unpolled := rfl
  pinned p r hr := by
    rw [h.rxqs] at hr
    cases hr
  perm := by
    have hnil : l.allPmds.flatMap l.rxqs = [] := by
      rw [List.flatMap_eq_nil_iff]
      exact fun p _ => h.rxqs p
    rw [hnil]
    exact List.Perm.nil
  isolated p := by
    rw [h.isolated, h.rxqs]
    simp
  counts n _ := by
    rw [h.nIsolated]
    symm
    rw [List.countP_eq_zero]
    intro p _
    rw [h.isolated]
    exact Bool.false_ne_true
  cycles p := by
    rw [h.pmdProcCycles, h.rxqs]
    rfl

theorem allPmds_congr {l l' : SchedNumaList} (hnumas : l'.numas = l.numas)
    (hpmds : l'.pmds = l.pmds) : l'.allPmds = l.allPmds := by
  unfold SchedNumaList.allPmds
  rw [hnumas, hpmds]

theorem target_congr {l l' : SchedNumaList} (h : l'.allPmds = l.allPmds) (r : Rxq) :
    l'.target r = l.target r := by
  unfold SchedNumaList.target schedPmdFindByPmd
  rw [h]

theorem pinned_step {l : SchedNumaList} (hl : l.Fresh) {pmdIso : Bool} {done : List Rxq}
    {st : Scheduling} (h : Pinned l pmdIso done st) (r : Rxq) :
    Pinned l pmdIso (done ++ [r]) (pinRxq pmdIso st r) := by
  have hall : st.list.allPmds = l.allPmds := allPmds_congr h.numas h.pmds
  have htarget : r.coreId.bind (schedPmdFindByPmd st.list) = l.target r := target_congr hall r
  unfold pinRxq
  rw [htarget]
  cases hr : l.target r with
  | none =>
      exact
        { h with
          pending := by
            show st.pending ++ [r] = _
            rw [h.pending, List.filter_append, List.filter_cons_of_pos (by simp [hr])]
            rfl
          perm := by
            show (l.allPmds.flatMap st.list.rxqs ++ (st.pending ++ [r])).Perm _
            rw [← List.append_assoc]
            exact h.perm.append_right [r] }
  | some p =>
      have hp : p ∈ l.allPmds := (target_eq_some_iff.mp hr).2
      obtain ⟨l', hl'⟩ : ∃ l', l' = if pmdIso ∧ st.list.isolated p = false then st.list.isolate p
          else st.list := ⟨_, rfl⟩
      have hfields : l'.numas = st.list.numas ∧ l'.pmds = st.list.pmds ∧ l'.numa = st.list.numa ∧
          (∀ n, l'.walk n = st.list.walk n) ∧ l'.rxqs = st.list.rxqs ∧
          l'.pmdProcCycles = st.list.pmdProcCycles := by
        rw [hl']
        split
        · exact ⟨rfl, rfl, rfl, fun _ => rfl, rfl, rfl⟩
        · exact ⟨rfl, rfl, rfl, fun _ => rfl, rfl, rfl⟩
      obtain ⟨hnumas, hpmds, hnuma, hwalk, hrxqs, hcycles⟩ := hfields
      have hisolated : ∀ q, l'.isolated q = true ↔
          st.list.isolated q = true ∨ pmdIso = true ∧ q = p := by
        intro q
        rw [hl']
        by_cases hiso : pmdIso = true ∧ st.list.isolated p = false
        · rw [if_pos hiso]
          show Function.update st.list.isolated p true q = true ↔ _
          by_cases hq : q = p
          · subst hq
            rw [Function.update_self]
            exact ⟨fun _ => Or.inr ⟨hiso.1, rfl⟩, fun _ => rfl⟩
          · rw [Function.update_of_ne hq]
            exact ⟨Or.inl, fun h => h.resolve_right fun h => hq h.2⟩
        · rw [if_neg hiso]
          constructor
          · exact Or.inl
          · rintro (hq | ⟨honly, rfl⟩)
            · exact hq
            · by_contra hfalse
              exact hiso ⟨honly, Bool.not_eq_true _ ▸ hfalse⟩
      have hcounts : l'.CountsIsolated := by
        rw [hl']
        split
        · rename_i hiso
          apply countsIsolated_isolate h.counts _ _ _ hiso.2
          · rw [hall]
            exact hl.pmdsNodup
          · rw [h.numas, h.pmds, h.numa]
            exact hl.numa
          · rw [hall]
            exact hp
        · exact h.counts
      show Pinned l pmdIso (done ++ [r]) { st with
        list := schedPmdAddRxq (if pmdIso ∧ st.list.isolated p = false then st.list.isolate p
          else st.list) p r r.cyclesHist }
      rw [← hl']
      have hadd : ∀ q, (schedPmdAddRxq l' p r r.cyclesHist).rxqs q =
          Function.update st.list.rxqs p (st.list.rxqs p ++ [r]) q := by
        intro q
        show Function.update l'.rxqs p (l'.rxqs p ++ [r]) q = _
        rw [hrxqs]
      exact
        { numas := hnumas.trans h.numas
          pmds := hpmds.trans h.pmds
          numa := hnuma.trans h.numa
          walk := fun n => (hwalk n).trans (h.walk n)
          pending := by
            show st.pending = _
            rw [h.pending, List.filter_append, List.filter_cons_of_neg (by simp [hr])]
            simp
          unpolled := h.unpolled
          pinned := by
            intro q s hs
            rw [hadd q] at hs
            by_cases hq : q = p
            · subst hq
              rw [Function.update_self, List.mem_append, List.mem_singleton] at hs
              rcases hs with hs | rfl
              · exact h.pinned q s hs
              · exact hr
            · rw [Function.update_of_ne hq] at hs
              exact h.pinned q s hs
          perm := by
            show (l.allPmds.flatMap (Function.update l'.rxqs p (l'.rxqs p ++ [r])) ++
              st.pending).Perm _
            rw [hrxqs]
            have hmore := flatMap_add_perm hl.pmdsNodup hp st.list.rxqs r
            exact (hmore.append_right st.pending).trans
              ((h.perm.cons r).trans (List.perm_append_singleton r done).symm)
          isolated := by
            intro q
            show l'.isolated q = true ↔ _
            rw [hadd q, hisolated q, h.isolated q]
            by_cases hq : q = p
            · subst hq
              rw [Function.update_self]
              simp
              tauto
            · rw [Function.update_of_ne hq]
              simp [hq]
          counts := hcounts
          cycles := by
            intro q
            apply cycles_add r
            intro q'
            rw [hcycles, hrxqs]
            exact h.cycles q' }

theorem pinned_foldl {l : SchedNumaList} (hl : l.Fresh) (pmdIso : Bool) (rxqs : List Rxq) :
    Pinned l pmdIso rxqs (rxqs.foldl (pinRxq pmdIso)
      { list := l, pending := [], lastCrossNuma := none, unpolled := [] }) := by
  induction rxqs using List.reverseRec with
  | nil => exact pinned_empty hl pmdIso
  | append_singleton rxqs r ih =>
      rw [List.foldl_append]
      exact pinned_step hl ih r

/-! ### Other queues -/

/-- What stays the same while queues are assigned. -/
structure SchedNumaList.Settled (l : SchedNumaList) : Prop where
  numasNodup : l.numas.Nodup
  pmdsNodup : l.allPmds.Nodup
  numa : ∀ n ∈ l.numas, ∀ p ∈ l.pmds n, l.numa p = n
  counts : l.CountsIsolated

structure Kept (l l' : SchedNumaList) : Prop where
  numas : l'.numas = l.numas
  pmds : l'.pmds = l.pmds
  numa : l'.numa = l.numa
  isolated : l'.isolated = l.isolated
  nIsolated : l'.nIsolated = l.nIsolated

theorem SchedNumaList.Settled.of_kept {l l' : SchedNumaList} (h : l.Settled) (hkept : Kept l l') :
    l'.Settled where
  numasNodup := by
    rw [hkept.numas]
    exact h.numasNodup
  pmdsNodup := by
    rw [allPmds_congr hkept.numas hkept.pmds]
    exact h.pmdsNodup
  numa := by
    rw [hkept.numas, hkept.pmds, hkept.numa]
    exact h.numa
  counts n hn := by
    rw [hkept.numas] at hn
    rw [hkept.nIsolated, hkept.pmds, hkept.isolated]
    exact h.counts n hn

theorem settled_pinned {l : SchedNumaList} (hl : l.Fresh) {pmdIso : Bool} {done : List Rxq}
    {st : Scheduling} (h : Pinned l pmdIso done st) : st.list.Settled where
  numasNodup := by
    rw [h.numas]
    exact hl.numasNodup
  pmdsNodup := by
    rw [allPmds_congr h.numas h.pmds]
    exact hl.pmdsNodup
  numa := by
    rw [h.numas, h.pmds, h.numa]
    exact hl.numa
  counts := h.counts

/-- No sum is so large that a PMD is taken for none. -/
def SchedNumaList.Bounded (l : SchedNumaList) (algo : SchedAssignmentType) : Prop :=
  algo = .group → ∀ p ∈ l.allPmds,
    l.pmdProcCycles p < 2 ^ 64 - 1 ∧ (l.rxqs p).length < 2 ^ 64 - 1

/-- A queue that is not pinned gets a PMD that is not isolated, if there is any. -/
theorem assignRxq_cases {st : Scheduling} {algo : SchedAssignmentType} (r : Rxq)
    (h : st.list.Settled)
    (hwalk : ∀ n ∈ st.list.numas, (st.list.walk n).cur < (st.list.pmds n).length)
    (hbound : st.list.Bounded algo) :
    (∃ last, (∀ p ∈ st.list.allPmds, st.list.isolated p = true) ∧
      assignRxq algo st r =
        { st with lastCrossNuma := last, unpolled := st.unpolled ++ [r] }) ∨
    ∃ n p w last, n ∈ st.list.numas ∧ p ∈ st.list.pmds n ∧ st.list.isolated p = false ∧
      (r.numaId ∈ st.list.numas → (∃ q ∈ st.list.pmds r.numaId, st.list.isolated q = false) →
        n = r.numaId) ∧
      w.cur < (st.list.pmds n).length ∧
      schedPmdNext st.list n algo (r.cyclesHist ≠ 0) = (some p, st.list.withWalk n w) ∧
      assignRxq algo st r =
        { st with
          list := schedPmdAddRxq (st.list.withWalk n w) p r r.cyclesHist,
          lastCrossNuma := last } := by
  unfold assignRxq
  obtain ⟨found, last, hselect⟩ : ∃ found last,
      selectNuma st.list st.lastCrossNuma r.numaId = (found, last) := ⟨_, _, rfl⟩
  have hfst := congrArg Prod.fst hselect
  rw [hselect]
  cases found with
  | none => exact Or.inl ⟨last, selectNuma_none h.counts h.numasNodup hfst, rfl⟩
  | some n =>
      obtain ⟨hn, hex, hown⟩ := selectNuma_some h.counts h.numasNodup hfst
      have hmem : ∀ p ∈ st.list.pmds n, p ∈ st.list.allPmds := fun p hp =>
        List.mem_flatMap.mpr ⟨n, hn, hp⟩
      have hnum : algo = .group → ∀ p ∈ st.list.pmds n,
          st.list.pmdNum (decide (r.cyclesHist ≠ 0)) p < 2 ^ 64 - 1 := by
        intro hgroup p hp
        obtain ⟨hcycles, hlen⟩ := hbound hgroup p (hmem p hp)
        unfold SchedNumaList.pmdNum
        split
        · exact hcycles
        · exact hlen
      obtain ⟨p, l', hnext⟩ := exists_schedPmdNext (hwalk n hn) hex hnum
      obtain ⟨hp, hiso, w, hw, rfl⟩ := schedPmdNext_some (hwalk n hn) hnext
      refine Or.inr ⟨n, p, w, last, hn, hp, hiso, hown, hw, hnext, ?_⟩
      dsimp only
      rw [hnext]

/-- What assigning the queues `done` leads to, from what pinning led to. -/
structure Placing (l : SchedNumaList) (done : List Rxq) (st : Scheduling) : Prop where
  kept : Kept l st.list
  walks : ∀ n ∈ l.numas, (st.list.walk n).cur < (l.pmds n).length
  perm : (l.allPmds.flatMap st.list.rxqs ++ st.unpolled).Perm (l.allPmds.flatMap l.rxqs ++ done)
  placed : ∀ p, ∀ r ∈ st.list.rxqs p, r ∈ l.rxqs p ∨ r ∈ done ∧ l.isolated p = false ∧
    (r.numaId ∈ l.numas → (∃ q ∈ l.pmds r.numaId, l.isolated q = false) → l.numa p = r.numaId)
  unpolled : ∀ r ∈ st.unpolled, r ∈ done ∧ ∀ p ∈ l.allPmds, l.isolated p = true
  cycles : ∀ p, st.list.pmdProcCycles p = ((st.list.rxqs p).map Rxq.cyclesHist).sum % 2 ^ 64

theorem placing_step {l : SchedNumaList} (hl : l.Settled) {algo : SchedAssignmentType}
    {done : List Rxq} {st : Scheduling} (h : Placing l done st) (hbound : st.list.Bounded algo)
    (r : Rxq) : Placing l (done ++ [r]) (assignRxq algo st r) := by
  have hall : st.list.allPmds = l.allPmds := allPmds_congr h.kept.numas h.kept.pmds
  have hold : ∀ p, ∀ s ∈ st.list.rxqs p, s ∈ l.rxqs p ∨ s ∈ done ++ [r] ∧ l.isolated p = false ∧
      (s.numaId ∈ l.numas → (∃ q ∈ l.pmds s.numaId, l.isolated q = false) →
        l.numa p = s.numaId) := by
    intro p s hs
    exact (h.placed p s hs).imp_right fun ⟨hdone, hrest⟩ => ⟨List.mem_append_left [r] hdone, hrest⟩
  have hcases := assignRxq_cases r (hl.of_kept h.kept)
    (by rw [h.kept.numas, h.kept.pmds]; exact h.walks) hbound
  rw [hall, h.kept.numas, h.kept.pmds, h.kept.isolated] at hcases
  rcases hcases with ⟨last, hiso, hstep⟩ | ⟨n, p, w, last, hn, hp, hiso, hown, hw, -, hstep⟩
  · rw [hstep]
    exact
      { kept := h.kept
        walks := h.walks
        perm := by
          show (l.allPmds.flatMap st.list.rxqs ++ (st.unpolled ++ [r])).Perm _
          rw [← List.append_assoc, ← List.append_assoc]
          exact h.perm.append_right [r]
        placed := hold
        unpolled := by
          intro s hs
          rcases List.mem_append.mp hs with hs | hs
          · obtain ⟨hdone, hall⟩ := h.unpolled s hs
            exact ⟨List.mem_append_left [r] hdone, hall⟩
          · exact ⟨List.mem_append_right done hs, hiso⟩
        cycles := h.cycles }
  · rw [hstep]
    have hpall : p ∈ l.allPmds := List.mem_flatMap.mpr ⟨n, hn, hp⟩
    exact
      { kept := { h.kept with }
        walks := by
          intro m hm
          show ((st.list.withWalk n w).walk m).cur < _
          by_cases hmn : m = n
          · subst hmn
            rw [walk_withWalk]
            exact hw
          · show Function.update st.list.rrCurIndex n w.cur m < _
            rw [Function.update_of_ne hmn]
            exact h.walks m hm
        perm := by
          show (l.allPmds.flatMap (Function.update st.list.rxqs p (st.list.rxqs p ++ [r])) ++
            st.unpolled).Perm _
          have hmore := flatMap_add_perm hl.pmdsNodup hpall st.list.rxqs r
          rw [← List.append_assoc]
          exact (hmore.append_right st.unpolled).trans
            ((h.perm.cons r).trans (List.perm_append_singleton r _).symm)
        placed := by
          intro q s hs
          change s ∈ Function.update st.list.rxqs p (st.list.rxqs p ++ [r]) q at hs
          by_cases hq : q = p
          · subst hq
            rw [Function.update_self, List.mem_append, List.mem_singleton] at hs
            rcases hs with hs | rfl
            · exact hold q s hs
            · refine Or.inr ⟨List.mem_append_right done List.mem_cons_self, hiso, fun hin hex => ?_⟩
              rw [hl.numa n hn q hp]
              exact hown hin hex
          · rw [Function.update_of_ne hq] at hs
            exact hold q s hs
        unpolled := by
          intro s hs
          obtain ⟨hdone, hall⟩ := h.unpolled s hs
          exact ⟨List.mem_append_left [r] hdone, hall⟩
        cycles := fun q => cycles_add r h.cycles }


/-! ### The whole round -/

/-- The queues of one PMD are some of all queues. -/
theorem le_flatMap (f : List Rxq → Nat) (hadd : ∀ xs ys, f (xs ++ ys) = f xs + f ys)
    (hperm : ∀ xs ys, xs.Perm ys → f xs = f ys) {ps : List Nat} {p : Nat} (hp : p ∈ ps)
    (rxqs : Nat → List Rxq) : f (rxqs p) ≤ f (ps.flatMap rxqs) := by
  have hsplit := (List.perm_cons_erase hp).flatMap_right rxqs
  rw [List.flatMap_cons] at hsplit
  rw [hperm _ _ hsplit, hadd]
  exact Nat.le_add_right _ _

/-- The cycles of all queues and their number fit. -/
def CyclesFit (algo : SchedAssignmentType) (rxqs : List Rxq) : Prop :=
  algo = .group →
    (rxqs.map Rxq.cyclesHist).sum < 2 ^ 64 - 1 ∧ rxqs.length < 2 ^ 64 - 1

instance (algo : SchedAssignmentType) (rxqs : List Rxq) : Decidable (CyclesFit algo rxqs) :=
  inferInstanceAs (Decidable (algo = .group → _ ∧ _))

theorem cyclesSum_append (xs ys : List Rxq) : ((xs ++ ys).map Rxq.cyclesHist).sum =
    (xs.map Rxq.cyclesHist).sum + (ys.map Rxq.cyclesHist).sum := by
  rw [List.map_append, List.sum_append]

theorem cyclesSum_perm (xs ys : List Rxq) (h : xs.Perm ys) :
    (xs.map Rxq.cyclesHist).sum = (ys.map Rxq.cyclesHist).sum := (h.map _).sum_eq

/-- No PMD has more than all queues together. -/
theorem rxqs_le {l : SchedNumaList} {st : Scheduling} {done rest all : List Rxq}
    (h : Placing l done st) (hall : (l.allPmds.flatMap l.rxqs ++ (done ++ rest)).Perm all)
    {p : Nat} (hp : p ∈ l.allPmds) :
    ((st.list.rxqs p).map Rxq.cyclesHist).sum ≤ (all.map Rxq.cyclesHist).sum ∧
      (st.list.rxqs p).length ≤ all.length := by
  have hcycles := le_flatMap (fun xs => (xs.map Rxq.cyclesHist).sum) cyclesSum_append
    cyclesSum_perm hp st.list.rxqs
  have hlen := le_flatMap List.length (fun _ _ => List.length_append)
    (fun _ _ h => h.length_eq) hp st.list.rxqs
  have hsum := cyclesSum_perm _ _ h.perm
  have hsum' := cyclesSum_perm _ _ hall
  have hlength := h.perm.length_eq
  have hlength' := hall.length_eq
  simp only [cyclesSum_append, List.length_append] at hsum hsum' hlength hlength'
  exact ⟨by omega, by omega⟩

theorem bounded_of_fits {l : SchedNumaList} {st : Scheduling} {algo : SchedAssignmentType}
    {done rest all : List Rxq} (h : Placing l done st)
    (hall : (l.allPmds.flatMap l.rxqs ++ (done ++ rest)).Perm all) (hfits : CyclesFit algo all) :
    st.list.Bounded algo := by
  intro hgroup p hp
  rw [allPmds_congr h.kept.numas h.kept.pmds] at hp
  obtain ⟨hsum, hlen⟩ := hfits hgroup
  obtain ⟨hcycles, hlength⟩ := rxqs_le h hall hp
  have hmod := Nat.mod_le ((st.list.rxqs p).map Rxq.cyclesHist).sum (2 ^ 64)
  rw [h.cycles p]
  exact ⟨by omega, by omega⟩

theorem placing_foldl {l : SchedNumaList} (hl : l.Settled) {algo : SchedAssignmentType}
    {all : List Rxq} (hfits : CyclesFit algo all) : ∀ {rest done : List Rxq} {st : Scheduling},
    (l.allPmds.flatMap l.rxqs ++ (done ++ rest)).Perm all → Placing l done st →
      Placing l (done ++ rest) (rest.foldl (assignRxq algo) st) := by
  intro rest
  induction rest with
  | nil =>
      intro done st _ h
      rw [List.append_nil]
      exact h
  | cons r rest ih =>
      intro done st hall h
      have hstep := placing_step hl h (bounded_of_fits h hall hfits) r
      rw [List.append_cons] at hall ⊢
      exact ih hall hstep

theorem sortRxqs_perm (algo : SchedAssignmentType) (rxqs : List Rxq) :
    (sortRxqs algo rxqs).Perm rxqs := by
  unfold sortRxqs
  split
  · exact List.Perm.refl rxqs
  · exact List.perm_insertionSort _ rxqs

/-- The state after the queues that are pinned. -/
def pinAll (l : SchedNumaList) (pmdIso : Bool) (algo : SchedAssignmentType) (rxqs : List Rxq) :
    Scheduling :=
  (rxqs.map (setCycleHist algo)).foldl (pinRxq pmdIso)
    { list := l, pending := [], lastCrossNuma := none, unpolled := [] }

theorem placing_pinned {l : SchedNumaList} (hl : l.Fresh) {pmdIso : Bool} {done : List Rxq}
    {st : Scheduling} (h : Pinned l pmdIso done st) : Placing st.list [] st where
  kept := ⟨rfl, rfl, rfl, rfl, rfl⟩
  walks n hn := by
    rw [h.walk n, h.pmds]
    rw [h.numas] at hn
    exact List.length_pos_of_ne_nil (hl.nonempty n hn)
  perm := by
    rw [h.unpolled]
  placed := fun _ _ hr => Or.inl hr
  unpolled r hr := by
    rw [h.unpolled] at hr
    cases hr
  cycles := h.cycles

section Round

variable {l : SchedNumaList} (hl : l.Fresh) (pmdIso : Bool) (algo : SchedAssignmentType)
  (rxqs : List Rxq)
include hl

theorem pinned_pinAll :
    Pinned l pmdIso (rxqs.map (setCycleHist algo)) (pinAll l pmdIso algo rxqs) :=
  pinned_foldl hl pmdIso _

theorem pinAll_perm : ((pinAll l pmdIso algo rxqs).list.allPmds.flatMap
    (pinAll l pmdIso algo rxqs).list.rxqs ++
      ([] ++ sortRxqs algo (pinAll l pmdIso algo rxqs).pending)).Perm
    (rxqs.map (setCycleHist algo)) := by
  have h := pinned_pinAll hl pmdIso algo rxqs
  rw [List.nil_append, allPmds_congr h.numas h.pmds]
  exact (List.Perm.append_left _ (sortRxqs_perm algo _)).trans h.perm

theorem placing_schedule (hfits : CyclesFit algo (rxqs.map (setCycleHist algo))) :
    Placing (pinAll l pmdIso algo rxqs).list (sortRxqs algo (pinAll l pmdIso algo rxqs).pending)
      (schedNumaListSchedule l pmdIso algo rxqs) := by
  have h := pinned_pinAll hl pmdIso algo rxqs
  have hrun := placing_foldl (settled_pinned hl h) hfits (pinAll_perm hl pmdIso algo rxqs)
    (placing_pinned hl h)
  rwa [List.nil_append] at hrun

end Round

theorem coreId_setCycleHist (algo : SchedAssignmentType) (r : Rxq) :
    (setCycleHist algo r).coreId = r.coreId := by
  unfold setCycleHist
  split <;> rfl

section Threads

variable {threads : List (Nat × Nat)} {order : List Nat}

/-- Each queue gets one PMD thread, or none if all of them are isolated and it is pinned to
none of their cores. -/
theorem rxq_scheduling_assigns (hcores : (threads.map Prod.fst).Nodup)
    (horder : order.Perm (schedNumaListPopulate threads).numas) (pmdIso : Bool)
    (algo : SchedAssignmentType) (rxqs : List Rxq)
    (hfits : CyclesFit algo (rxqs.map (setCycleHist algo))) :
    let st := rxqScheduling threads order pmdIso algo rxqs
    ((threads.map Prod.fst).flatMap st.list.rxqs ++ st.unpolled).Perm
        (rxqs.map (setCycleHist algo)) ∧
      (∀ r ∈ st.unpolled, (∀ t ∈ threads, r.coreId ≠ some t.1) ∧
        ∀ t ∈ threads, st.list.isolated t.1 = true) ∧
      ∀ r ∈ rxqs.map (setCycleHist algo), (∀ t ∈ threads, r.coreId ≠ some t.1) →
        (∀ t ∈ threads, st.list.isolated t.1 = true) → r ∈ st.unpolled := by
  intro st
  have h := holds_populate hcores horder
  have hpinned := pinned_pinAll h.fresh pmdIso algo rxqs
  have hplacing : Placing _ _ st := placing_schedule h.fresh pmdIso algo rxqs hfits
  have hperm := pinAll_perm h.fresh pmdIso algo rxqs
  have hall := allPmds_congr hpinned.numas hpinned.pmds
  rw [List.nil_append] at hperm
  have hmem : ∀ t ∈ threads, t.1 ∈ (populateIn order threads).allPmds := fun t ht =>
    h.cores.mem_iff.mpr (List.mem_map_of_mem ht)
  have hassigned : ((threads.map Prod.fst).flatMap st.list.rxqs ++ st.unpolled).Perm
      (rxqs.map (setCycleHist algo)) := by
    have hmore := hplacing.perm.trans hperm
    rw [hall] at hmore
    exact ((h.cores.flatMap_right st.list.rxqs).symm.append_right st.unpolled).trans hmore
  refine ⟨hassigned, ?_, ?_⟩
  · intro r hr
    obtain ⟨hdone, hiso⟩ := hplacing.unpolled r hr
    rw [hall] at hiso
    constructor
    · intro t ht hcore
      rw [(sortRxqs_perm algo _).mem_iff, hpinned.pending] at hdone
      have hnone := of_decide_eq_true (List.mem_filter.mp hdone).2
      rw [target_eq_some_iff.mpr ⟨hcore, hmem t ht⟩] at hnone
      cases hnone
    · intro t ht
      rw [hplacing.kept.isolated]
      exact hiso t.1 (hmem t ht)
  · intro r hr hother hiso
    rcases List.mem_append.mp (hassigned.mem_iff.mpr hr) with hpolled | hunpolled
    · obtain ⟨p, hp, hin⟩ := List.mem_flatMap.mp hpolled
      obtain ⟨t, ht, rfl⟩ := List.mem_map.mp hp
      -- A thread has the queues pinned to it and, unless it is isolated, some others.
      rcases hplacing.placed t.1 r hin with hold | ⟨-, hfree, -⟩
      · exact absurd (target_eq_some_iff.mp (hpinned.pinned t.1 r hold)).1 (hother t ht)
      · rw [← hplacing.kept.isolated, hiso t ht] at hfree
        cases hfree
    · exact hunpolled

/-- Three threads on one NUMA node and one on another. -/
def someThreads : List (Nat × Nat) := [(0, 0), (1, 0), (2, 0), (4, 1)]

/-- Queues of three ports; one is pinned to core 2 and one to a core without a thread. -/
def someRxqs : List Rxq :=
  [⟨1, 0, 0, none, [5, 4], 1⟩, ⟨1, 1, 0, some 2, [7], 2⟩, ⟨2, 0, 1, none, [3], 0⟩,
    ⟨2, 1, 0, none, [6], 4⟩, ⟨3, 0, 2, some 9, [2], 0⟩]

/-- Where core 2 has the only thread, the queue pinned to it isolates it. -/
theorem rxq_scheduling_assigns_some :
    let st := rxqScheduling someThreads [1, 0] true .cycles someRxqs
    ((someThreads.map Prod.fst).flatMap st.list.rxqs ++ st.unpolled).Perm
        (someRxqs.map (setCycleHist .cycles)) ∧
      (∀ r ∈ st.unpolled, (∀ t ∈ someThreads, r.coreId ≠ some t.1) ∧
        ∀ t ∈ someThreads, st.list.isolated t.1 = true) ∧
      ∀ r ∈ someRxqs.map (setCycleHist .cycles),
        r.coreId ≠ some 2 → r ∈ (rxqScheduling [(2, 0)] [0] true .cycles someRxqs).unpolled := by
  intro st
  have hall := @rxq_scheduling_assigns someThreads [1, 0] (by decide) (by decide) true .cycles
    someRxqs (by decide)
  have hone := @rxq_scheduling_assigns [(2, 0)] [0] (by decide) (by decide) true .cycles
    someRxqs (by decide)
  refine ⟨hall.1, hall.2.1, fun r hr hcore => hone.2.2 r hr ?_ (by decide)⟩
  intro t ht
  rw [List.mem_singleton.mp ht]
  exact hcore

/-- Pinned queues are where they belong, the cores they are pinned to have no others, and
a queue that is not pinned stays on its NUMA node if any thread there is to be had. -/
theorem rxq_scheduling_places (hcores : (threads.map Prod.fst).Nodup)
    (horder : order.Perm (schedNumaListPopulate threads).numas) (pmdIso : Bool)
    (algo : SchedAssignmentType) (rxqs : List Rxq)
    (hfits : CyclesFit algo (rxqs.map (setCycleHist algo))) :
    let st := rxqScheduling threads order pmdIso algo rxqs
    ∀ t ∈ threads,
      (st.list.isolated t.1 = true ↔ pmdIso = true ∧ ∃ r ∈ rxqs, r.coreId = some t.1) ∧
      ∀ r ∈ st.list.rxqs t.1,
        (∀ u ∈ threads, r.coreId = some u.1 → u.1 = t.1) ∧
        (r.coreId ≠ some t.1 → st.list.isolated t.1 = false ∧
          ∀ u ∈ threads, u.2 = r.numaId → st.list.isolated u.1 = false → t.2 = r.numaId) := by
  intro st t ht
  have h := holds_populate hcores horder
  have hpinned := pinned_pinAll h.fresh pmdIso algo rxqs
  have hplacing : Placing _ _ st := placing_schedule h.fresh pmdIso algo rxqs hfits
  have hmem : ∀ t ∈ threads, t.1 ∈ (populateIn order threads).allPmds := fun t ht =>
    h.cores.mem_iff.mpr (List.mem_map_of_mem ht)
  rw [hplacing.kept.isolated]
  constructor
  · rw [hpinned.isolated t.1, and_congr_right_iff]
    intro _
    constructor
    · intro hne
      obtain ⟨r, hr⟩ := List.exists_mem_of_ne_nil _ hne
      have hcore := (target_eq_some_iff.mp (hpinned.pinned t.1 r hr)).1
      have hin : r ∈ rxqs.map (setCycleHist algo) :=
        hpinned.perm.mem_iff.mp (List.mem_append_left _
          (List.mem_flatMap.mpr ⟨t.1, hmem t ht, hr⟩))
      obtain ⟨s, hs, rfl⟩ := List.mem_map.mp hin
      exact ⟨s, hs, (coreId_setCycleHist algo s).symm.trans hcore⟩
    · intro hex hnil
      obtain ⟨s, hs, hcore⟩ := hex
      have htarget : (populateIn order threads).target (setCycleHist algo s) = some t.1 :=
        target_eq_some_iff.mpr ⟨(coreId_setCycleHist algo s).trans hcore, hmem t ht⟩
      have hin := hpinned.perm.mem_iff.mpr (List.mem_map_of_mem hs)
      rcases List.mem_append.mp hin with hin | hin
      · obtain ⟨p, -, hp⟩ := List.mem_flatMap.mp hin
        have hsame := (hpinned.pinned p _ hp).symm.trans htarget
        rw [Option.some.inj hsame, hnil] at hp
        cases hp
      · rw [hpinned.pending] at hin
        have hnone := of_decide_eq_true (List.mem_filter.mp hin).2
        rw [htarget] at hnone
        cases hnone
  · intro r hr
    rcases hplacing.placed t.1 r hr with hold | ⟨hdone, hiso, hown⟩
    · have htarget := hpinned.pinned t.1 r hold
      obtain ⟨hcore, -⟩ := target_eq_some_iff.mp htarget
      refine ⟨fun u _ hu => ?_, fun hne => absurd hcore hne⟩
      exact Option.some.inj (hu.symm.trans hcore)
    · rw [(sortRxqs_perm algo _).mem_iff, hpinned.pending] at hdone
      have hnone := of_decide_eq_true (List.mem_filter.mp hdone).2
      refine ⟨fun u hu hcore => ?_, fun _ => ⟨hiso, fun u hu hnuma hfree => ?_⟩⟩
      · rw [target_eq_some_iff.mpr ⟨hcore, hmem u hu⟩] at hnone
        cases hnone
      · obtain ⟨-, hpmds, hnode⟩ := h.node u hu
        rw [hpinned.numas, hpinned.pmds, hpinned.numa, (h.node t ht).1] at hown
        rw [hnuma] at hpmds hnode
        exact hown hnode ⟨u.1, hpmds, hfree⟩

theorem rxq_scheduling_places_some :
    let st := rxqScheduling someThreads [1, 0] true .group someRxqs
    (st.list.isolated 0 = true ↔ true = true ∧ ∃ r ∈ someRxqs, r.coreId = some 0) ∧
      ∀ r ∈ st.list.rxqs 0,
        (∀ u ∈ someThreads, r.coreId = some u.1 → u.1 = 0) ∧
        (r.coreId ≠ some 0 → st.list.isolated 0 = false ∧
          ∀ u ∈ someThreads, u.2 = r.numaId → st.list.isolated u.1 = false → 0 = r.numaId) :=
  rxq_scheduling_places (by decide) (by decide) true .group someRxqs (by decide) (0, 0) (by decide)

end Threads

end Repath.Datapath
