import Mathlib.Data.List.Nodup
import Mathlib.Data.List.Perm.Basic
import Mathlib.Data.List.TakeWhile
import Repath.Datapath.Sched
import Repath.Lib.Grouping
import Repath.Lib.RoundRobin

/-!
# Every queue gets one thread

Whatever the algorithm, each queue ends up with exactly one PMD, or with none when all
PMDs are isolated.  A pinned queue gets its core, an isolated core gets pinned queues
only, and a queue leaves its NUMA node only if no thread there may take it.
-/

namespace Repath.Datapath

open Grouping RoundRobin

/-! ### What is populated -/

/-- The list before the first queue. -/
structure SchedNumaList.Fresh (l : SchedNumaList) : Prop where
  numasNodup : l.numas.Nodup
  pmdsNodup : l.allPmds.Nodup
  numa : ∀ n ∈ l.numas, ∀ p ∈ l.pmds n, l.numa p = n
  nonempty : ∀ n ∈ l.numas, l.pmds n ≠ []
  nIsolated : ∀ n, l.nIsolated n = 0
  rrCurIndex : ∀ n, l.rrCurIndex n = 0
  rrIdxInc : ∀ n, l.rrIdxInc n = true
  pmdProcCycles : ∀ p, l.pmdProcCycles p = 0
  rxqs : ∀ p, l.rxqs p = []
  isolated : ∀ p, l.isolated p = false

/-- What is known of the threads populated so far. -/
structure Populated (l : SchedNumaList) (threads : List (Nat × Nat)) : Prop where
  numas : l.numas = keys (threads.map Prod.swap)
  pmds : ∀ n, l.pmds n = members n (threads.map Prod.swap)
  numa : ∀ t ∈ threads, l.numa t.1 = t.2
  rest : l.nIsolated = SchedNumaList.empty.nIsolated ∧
    l.rrCurIndex = SchedNumaList.empty.rrCurIndex ∧ l.rrIdxInc = SchedNumaList.empty.rrIdxInc ∧
    l.pmdProcCycles = SchedNumaList.empty.pmdProcCycles ∧
    l.rxqs = SchedNumaList.empty.rxqs ∧ l.isolated = SchedNumaList.empty.isolated

theorem populateThread_eq (l : SchedNumaList) (t : Nat × Nat) :
    populateThread l t =
      { l with
        numas := if t.2 ∈ l.numas then l.numas else l.numas ++ [t.2],
        pmds := Function.update l.pmds t.2 (l.pmds t.2 ++ [t.1]),
        numa := Function.update l.numa t.1 t.2 } := by
  unfold populateThread
  by_cases hin : t.2 ∈ l.numas
  · rw [if_pos hin, if_pos hin]
  · rw [if_neg hin, if_neg hin]

theorem populated_thread {l : SchedNumaList} {threads : List (Nat × Nat)}
    (h : Populated l threads) {t : Nat × Nat} (ht : t.1 ∉ threads.map Prod.fst) :
    Populated (populateThread l t) (threads ++ [t]) where
  numas := by
    rw [populateThread_eq, List.map_append, List.map_singleton]
    show (if t.2 ∈ l.numas then l.numas else l.numas ++ [t.2]) = keys (_ ++ [(t.2, t.1)])
    rw [keys_snoc, h.numas]
  pmds n := by
    rw [populateThread_eq, List.map_append, List.map_singleton]
    show Function.update l.pmds t.2 _ n = members n (_ ++ [(t.2, t.1)])
    rw [members_snoc, ← h.pmds n]
    by_cases hn : n = t.2
    · subst hn
      rw [Function.update_self, if_pos rfl]
    · rw [Function.update_of_ne hn, if_neg (Ne.symm hn), List.append_nil]
  numa u hu := by
    rw [populateThread_eq]
    show Function.update l.numa t.1 t.2 u.1 = u.2
    rcases List.mem_append.mp hu with hu | hu
    · have hne : u.1 ≠ t.1 := fun he => ht (he ▸ List.mem_map_of_mem hu)
      rw [Function.update_of_ne hne]
      exact h.numa u hu
    · rw [List.mem_singleton.mp hu, Function.update_self]
  rest := by
    rw [populateThread_eq]
    exact h.rest

theorem populated_foldl {threads : List (Nat × Nat)} (h : (threads.map Prod.fst).Nodup) :
    Populated (threads.foldl populateThread .empty) threads := by
  induction threads using List.reverseRec with
  | nil => exact
      { numas := rfl
        pmds := fun _ => rfl
        numa := by simp
        rest := ⟨rfl, rfl, rfl, rfl, rfl, rfl⟩ }
  | append_singleton threads t ih =>
      rw [List.map_append, List.nodup_append] at h
      obtain ⟨hthreads, -, hne⟩ := h
      rw [List.foldl_append]
      exact populated_thread (ih hthreads) fun hin => hne t.1 hin t.1 (by simp) rfl

theorem mem_pmds {l : SchedNumaList} {threads : List (Nat × Nat)} (h : Populated l threads)
    {n p : Nat} : p ∈ l.pmds n ↔ (p, n) ∈ threads := by
  rw [h.pmds, members, List.mem_filterMap]
  constructor
  · intro hmem
    obtain ⟨x, hx, hxp⟩ := hmem
    obtain ⟨t, ht, rfl⟩ := List.mem_map.mp hx
    by_cases hn : t.swap.1 = n
    · rw [if_pos hn] at hxp
      obtain rfl := Option.some.inj hxp
      subst hn
      exact ht
    · rw [if_neg hn] at hxp
      cases hxp
  · intro hmem
    exact ⟨(n, p), List.mem_map.mpr ⟨(p, n), hmem, rfl⟩, if_pos rfl⟩

/-- A thread is on one NUMA node. -/
theorem allPmds_perm {l : SchedNumaList} {threads : List (Nat × Nat)} (h : Populated l threads) :
    l.allPmds.Perm (threads.map Prod.fst) := by
  have hgroup := flatMap_group_perm (threads.map Prod.swap)
  have hall : l.allPmds = (group (threads.map Prod.swap)).flatMap Prod.snd := by
    unfold SchedNumaList.allPmds group
    rw [List.flatMap_map, h.numas]
    exact List.flatMap_congr fun n _ => h.pmds n
  rw [hall]
  rw [List.map_map] at hgroup
  exact hgroup

/-- The list has the threads, each on its NUMA node. -/
structure SchedNumaList.Holds (l : SchedNumaList) (threads : List (Nat × Nat)) : Prop where
  fresh : l.Fresh
  cores : l.allPmds.Perm (threads.map Prod.fst)
  node : ∀ t ∈ threads, l.numa t.1 = t.2 ∧ t.1 ∈ l.pmds t.2 ∧ t.2 ∈ l.numas

/-- `sched_numa_list_populate`, in whatever order the map of NUMA nodes is walked. -/
theorem holds_populate {threads : List (Nat × Nat)} (h : (threads.map Prod.fst).Nodup)
    {order : List Nat} (horder : order.Perm (schedNumaListPopulate threads).numas) :
    (populateIn order threads).Holds threads := by
  have hpop := populated_foldl h
  obtain ⟨hiso, hidx, hinc, hcycles, hrxqs, hisolated⟩ := hpop.rest
  have hperm : ∀ n, ((populateIn order threads).pmds n).Perm
      ((threads.foldl populateThread .empty).pmds n) := fun n => List.perm_insertionSort _ _
  have hnumas : (threads.foldl populateThread .empty).numas.Nodup := by
    rw [hpop.numas]
    exact nodup_keys _
  have hall : (populateIn order threads).allPmds.Perm (threads.map Prod.fst) :=
    ((List.Perm.flatMap_left _ fun n _ => hperm n).trans (horder.flatMap_right _)).trans
      (allPmds_perm hpop)
  have hmem : ∀ t ∈ threads, t.1 ∈ (populateIn order threads).pmds t.2 := fun t ht =>
    (hperm t.2).mem_iff.mpr ((mem_pmds hpop).mpr ht)
  have hnode : ∀ n, n ∈ order ↔ n ∈ keys (threads.map Prod.swap) := by
    intro n
    rw [← hpop.numas]
    exact horder.mem_iff
  exact
    { fresh :=
        { numasNodup := horder.nodup_iff.mpr hnumas
          pmdsNodup := hall.nodup_iff.mpr h
          numa := fun n _ p hp => hpop.numa (p, n) ((mem_pmds hpop).mp ((hperm n).mem_iff.mp hp))
          nonempty := by
            intro n hn hnil
            obtain ⟨p, hp⟩ := mem_keys.mp ((hnode n).mp hn)
            obtain ⟨t, ht, hswap⟩ := List.mem_map.mp hp
            obtain rfl : t = (p, n) := Prod.swap_injective hswap
            have hin := hmem (p, n) ht
            dsimp only at hin
            rw [hnil] at hin
            cases hin
          nIsolated := fun n => congrFun hiso n
          rrCurIndex := fun n => congrFun hidx n
          rrIdxInc := fun n => congrFun hinc n
          pmdProcCycles := fun p => congrFun hcycles p
          rxqs := fun p => congrFun hrxqs p
          isolated := fun p => congrFun hisolated p }
      cores := hall
      node := fun t ht => ⟨hpop.numa t ht, hmem t ht,
        (hnode t.2).mpr (mem_keys.mpr ⟨t.1, List.mem_map.mpr ⟨t, ht, rfl⟩⟩)⟩ }

/-! ### The search for a NUMA node -/

section Search

variable {l : SchedNumaList}

/-- `n_isolated` is what its name says. -/
def SchedNumaList.CountsIsolated (l : SchedNumaList) : Prop :=
  ∀ n ∈ l.numas, l.nIsolated n = (l.pmds n).countP l.isolated

theorem nonisoPmdCount_ne_zero_iff (h : l.CountsIsolated) {n : Nat} (hn : n ∈ l.numas) :
    schedNumaNonisoPmdCount l n ≠ 0 ↔ ∃ p ∈ l.pmds n, l.isolated p = false := by
  unfold schedNumaNonisoPmdCount
  rw [h n hn, List.length_eq_countP_add_countP l.isolated, Nat.add_sub_cancel_left, Ne,
    List.countP_eq_zero]
  push Not
  simp

/-- The NUMA node with the index `i` has a PMD to offer. -/
def SchedNumaList.offers (l : SchedNumaList) (i : Nat) : Bool :=
  match l.numas[i]? with
  | some n => schedNumaNonisoPmdCount l n ≠ 0
  | none => false

theorem dropWhile_getElem {xs : List Nat} (h : xs.Nodup) {i : Nat} (hi : i < xs.length) :
    (xs.dropWhile fun m => m ≠ xs[i]) = xs.drop i := by
  induction xs generalizing i with
  | nil => cases hi
  | cons x xs ih =>
      obtain ⟨hx, hxs⟩ := List.nodup_cons.mp h
      cases i with
      | zero => simp
      | succ i =>
          have hi' : i < xs.length := Nat.lt_of_succ_lt_succ hi
          have hne : x ≠ xs[i] := fun he => hx (he ▸ List.getElem_mem hi')
          rw [List.getElem_cons_succ, List.dropWhile_cons_of_pos (by simpa using hne),
            List.drop_succ_cons]
          exact ih hxs hi'

/-- The list of NUMA nodes is walked in circles. -/
theorem schedNumaListNext_eq (h : l.numas.Nodup) {i : Nat} (hi : i < l.numas.length) :
    schedNumaListNext l (some l.numas[i]) =
      l.numas[(Walk.next l.numas.length false { cur := i, up := true }).cur]? := by
  unfold schedNumaListNext Walk.next
  rw [Option.bind_some, dropWhile_getElem h hi, List.tail_drop, List.head?_drop]
  by_cases hlast : i = l.numas.length - 1
  · have hnone : l.numas[i + 1]? = none := List.getElem?_eq_none (by omega)
    rw [hnone, if_pos rfl, if_pos hlast, if_neg Bool.false_ne_true]
    exact List.head?_eq_getElem?
  · have hsome : i + 1 < l.numas.length := by omega
    rw [List.getElem?_eq_getElem hsome, if_pos rfl, if_neg hlast]
    exact (List.getElem?_eq_getElem hsome).symm

theorem crossNuma_eq (h : l.numas.Nodup) : ∀ {fuel : Nat} {last : Option Nat} {w : Walk},
    w.cur < l.numas.length → w.up = true → schedNumaListNext l last = l.numas[w.cur]? →
      (crossNuma l fuel last).1 =
        (firstFree l.numas.length false l.offers fuel w).1.bind fun i => l.numas[i]? := by
  intro fuel
  induction fuel with
  | zero => exact fun _ _ _ => rfl
  | succ fuel ih =>
      intro last w hw hup hnext
      have hget := List.getElem?_eq_getElem hw
      unfold crossNuma firstFree
      rw [hnext, hget]
      have hoffers : l.offers w.cur = decide (schedNumaNonisoPmdCount l l.numas[w.cur] ≠ 0) := by
        unfold SchedNumaList.offers
        rw [hget]
      by_cases hfree : schedNumaNonisoPmdCount l l.numas[w.cur] ≠ 0
      · rw [hoffers, if_pos (decide_eq_true hfree)]
        dsimp only
        rw [if_pos hfree, Option.bind_some, hget]
      · rw [hoffers, if_neg (by simpa using hfree)]
        dsimp only
        rw [if_neg hfree]
        have hw' : w = { cur := w.cur, up := true } := by rw [← hup]
        have hstep := schedNumaListNext_eq h hw
        rw [← hw'] at hstep
        refine ih (next_lt hw) ?_ hstep
        rw [hw']
        unfold Walk.next
        rw [if_pos rfl]
        split <;> rfl

theorem exists_next (h : l.numas.Nodup) (hne : l.numas ≠ []) (last : Option Nat) :
    ∃ w : Walk, w.cur < l.numas.length ∧ w.up = true ∧
      schedNumaListNext l last = l.numas[w.cur]? := by
  have hpos : 0 < l.numas.length := List.length_pos_of_ne_nil hne
  have hstart : ∃ w : Walk, w.cur < l.numas.length ∧ w.up = true ∧
      l.numas.head? = l.numas[w.cur]? :=
    ⟨{ cur := 0, up := true }, hpos, rfl, List.head?_eq_getElem?⟩
  cases last with
  | none => exact hstart
  | some n =>
      by_cases hn : n ∈ l.numas
      · obtain ⟨i, hi, rfl⟩ := List.getElem_of_mem hn
        refine ⟨Walk.next l.numas.length false { cur := i, up := true }, next_lt hi, ?_,
          schedNumaListNext_eq h hi⟩
        unfold Walk.next
        rw [if_pos rfl]
        split <;> rfl
      · have hdrop : (l.numas.dropWhile fun m => m ≠ n) = [] := by
          rw [List.dropWhile_eq_nil_iff]
          intro m hm
          exact decide_eq_true fun he => hn (he ▸ hm)
        have hnext : schedNumaListNext l (some n) = l.numas.head? := by
          unfold schedNumaListNext
          rw [Option.bind_some, hdrop]
          rfl
        rw [hnext]
        exact hstart

theorem offers_iff (h : l.CountsIsolated) {i : Nat} (hi : i < l.numas.length) :
    l.offers i = true ↔ ∃ p ∈ l.pmds l.numas[i], l.isolated p = false := by
  unfold SchedNumaList.offers
  rw [List.getElem?_eq_getElem hi, decide_eq_true_iff]
  exact nonisoPmdCount_ne_zero_iff h (List.getElem_mem hi)

/-- The node found has a PMD to offer, and it is the queue's own if that has one. -/
theorem selectNuma_some (h : l.CountsIsolated) (hnodup : l.numas.Nodup) {last : Option Nat}
    {numaId n : Nat} (hfound : (selectNuma l last numaId).1 = some n) :
    n ∈ l.numas ∧ (∃ p ∈ l.pmds n, l.isolated p = false) ∧
      (numaId ∈ l.numas → (∃ p ∈ l.pmds numaId, l.isolated p = false) → n = numaId) := by
  unfold selectNuma at hfound
  by_cases hown : numaId ∈ l.numas ∧ schedNumaNonisoPmdCount l numaId ≠ 0
  · rw [if_pos hown] at hfound
    obtain rfl := Option.some.inj hfound
    exact ⟨hown.1, (nonisoPmdCount_ne_zero_iff h hown.1).mp hown.2, fun _ _ => rfl⟩
  · rw [if_neg hown] at hfound
    have hnot : numaId ∈ l.numas → ¬ ∃ p ∈ l.pmds numaId, l.isolated p = false := by
      intro hin hex
      exact hown ⟨hin, (nonisoPmdCount_ne_zero_iff h hin).mpr hex⟩
    by_cases hnil : l.numas = []
    · rw [hnil] at hfound
      cases hfound
    · obtain ⟨w, hw, hup, hnext⟩ := exists_next hnodup hnil last
      rw [crossNuma_eq hnodup hw hup hnext] at hfound
      obtain ⟨i, hi, hget⟩ := Option.bind_eq_some_iff.mp hfound
      obtain ⟨v, -, -, hlt, hfree, -⟩ := firstFree_some (P := fun _ => True)
        (fun _ _ _ _ => trivial) trivial hw (Prod.ext hi rfl)
      rw [List.getElem?_eq_getElem hlt] at hget
      obtain rfl := Option.some.inj hget
      exact ⟨List.getElem_mem hlt, (offers_iff h hlt).mp hfree,
        fun hin hex => absurd hex (hnot hin)⟩

theorem selectNuma_none (h : l.CountsIsolated) (hnodup : l.numas.Nodup) {last : Option Nat}
    {numaId : Nat} (hnone : (selectNuma l last numaId).1 = none) :
    ∀ p ∈ l.allPmds, l.isolated p = true := by
  intro p hp
  obtain ⟨n, hn, hpn⟩ := List.mem_flatMap.mp hp
  by_contra hiso
  rw [Bool.not_eq_true] at hiso
  unfold selectNuma at hnone
  by_cases hown : numaId ∈ l.numas ∧ schedNumaNonisoPmdCount l numaId ≠ 0
  · rw [if_pos hown] at hnone
    cases hnone
  · rw [if_neg hown] at hnone
    obtain ⟨w, hw, hup, hnext⟩ := exists_next hnodup (List.ne_nil_of_mem hn) last
    rw [crossNuma_eq hnodup hw hup hnext] at hnone
    obtain ⟨i, hi, rfl⟩ := List.getElem_of_mem hn
    have hfree := (offers_iff h hi).mpr ⟨p, hpn, hiso⟩
    obtain ⟨j, w', hfound⟩ := exists_firstFree hi hfree hw (dist_lt_of_up hup hw hi)
    obtain ⟨v, -, -, hlt, -, -⟩ := firstFree_some (P := fun _ => True)
      (fun _ _ _ _ => trivial) trivial hw hfound
    rw [hfound, Option.bind_some, List.getElem?_eq_getElem hlt] at hnone
    cases hnone

end Search

/-! ### The search for a PMD -/

section Pmds

variable {l : SchedNumaList} {numa : Nat}

def SchedNumaList.walk (l : SchedNumaList) (numa : Nat) : Walk :=
  { cur := l.rrCurIndex numa, up := l.rrIdxInc numa }

def SchedNumaList.withWalk (l : SchedNumaList) (numa : Nat) (w : Walk) : SchedNumaList :=
  { l with
    rrCurIndex := Function.update l.rrCurIndex numa w.cur,
    rrIdxInc := Function.update l.rrIdxInc numa w.up }

theorem withWalk_walk (l : SchedNumaList) (numa : Nat) : l.withWalk numa (l.walk numa) = l := by
  unfold SchedNumaList.withWalk SchedNumaList.walk
  rw [Function.update_eq_self, Function.update_eq_self]

theorem walk_withWalk (l : SchedNumaList) (numa : Nat) (w : Walk) :
    (l.withWalk numa w).walk numa = w := by
  unfold SchedNumaList.withWalk SchedNumaList.walk
  dsimp only
  rw [Function.update_self, Function.update_self]

theorem withWalk_withWalk (l : SchedNumaList) (numa : Nat) (w w' : Walk) :
    (l.withWalk numa w).withWalk numa w' = l.withWalk numa w' := by
  unfold SchedNumaList.withWalk
  dsimp only
  rw [Function.update_idem, Function.update_idem]

theorem schedPmdNextRr_eq (l : SchedNumaList) (numa : Nat) (updown : Bool) :
    schedPmdNextRr l numa updown = ((l.walk numa).cur,
      l.withWalk numa ((l.walk numa).next (l.pmds numa).length updown)) := by
  unfold schedPmdNextRr Walk.next SchedNumaList.withWalk SchedNumaList.walk
  dsimp only
  have hcur := Function.update_eq_self numa l.rrCurIndex
  have hup := Function.update_eq_self numa l.rrIdxInc
  cases hinc : l.rrIdxInc numa with
  | true =>
      rw [hinc] at hup
      rw [if_pos rfl, if_pos rfl]
      split
      · cases updown with
        | true =>
            rw [if_pos rfl, if_pos rfl]
            dsimp only
            rw [hcur]
        | false =>
            rw [if_neg Bool.false_ne_true, if_neg Bool.false_ne_true]
            dsimp only
            rw [hup]
      · dsimp only
        rw [hup]
  | false =>
      rw [hinc] at hup
      rw [if_neg Bool.false_ne_true, if_neg Bool.false_ne_true]
      split
      · dsimp only
        rw [hcur]
      · dsimp only
        rw [hup]

/-- The PMD with the index `i` may take a queue that is not pinned. -/
def SchedNumaList.takes (l : SchedNumaList) (numa i : Nat) : Bool :=
  match (l.pmds numa)[i]? with
  | some p => !l.isolated p
  | none => false

theorem nonisoLoop_eq {updown : Bool} : ∀ {fuel : Nat} {l : SchedNumaList},
    (l.walk numa).cur < (l.pmds numa).length →
      nonisoLoop numa updown fuel l =
        let r := firstFree (l.pmds numa).length updown (l.takes numa) fuel (l.walk numa)
        (r.1.bind fun i => (l.pmds numa)[i]?, l.withWalk numa r.2) := by
  intro fuel
  induction fuel with
  | zero =>
      intro l _
      show (none, l) = (none, l.withWalk numa (l.walk numa))
      rw [withWalk_walk]
  | succ fuel ih =>
      intro l hcur
      have hget := List.getElem?_eq_getElem hcur
      unfold nonisoLoop firstFree
      rw [schedPmdNextRr_eq]
      dsimp only
      rw [hget]
      dsimp only
      have htakes : l.takes numa (l.walk numa).cur =
          !l.isolated (l.pmds numa)[(l.walk numa).cur] := by
        unfold SchedNumaList.takes
        rw [hget]
      cases hiso : l.isolated (l.pmds numa)[(l.walk numa).cur] with
      | false =>
          rw [htakes, hiso, if_neg Bool.false_ne_true, Bool.not_false, if_pos rfl, Option.bind_some,
            hget]
      | true =>
          rw [htakes, hiso, if_pos rfl, Bool.not_true, if_neg Bool.false_ne_true]
          have hstep := ih (l := l.withWalk numa ((l.walk numa).next (l.pmds numa).length updown))
            (by rw [walk_withWalk]; exact next_lt hcur)
          rw [hstep, walk_withWalk]
          dsimp only
          rw [withWalk_withWalk]
          rfl

theorem takes_iff {l : SchedNumaList} {i : Nat} (hi : i < (l.pmds numa).length) :
    l.takes numa i = true ↔ l.isolated (l.pmds numa)[i] = false := by
  unfold SchedNumaList.takes
  rw [List.getElem?_eq_getElem hi]
  simp

theorem lowestOf_foldl (l : SchedNumaList) (hasCyc : Bool) (ps : List Nat)
    (start : Option Nat × Nat) :
    let r := ps.foldl (lowestOf l hasCyc) start
    r.2 ≤ start.2 ∧ (∀ q ∈ ps, l.isolated q = false → r.2 ≤ l.pmdNum hasCyc q) ∧
      (r = start ∨ ∃ p ∈ ps, l.isolated p = false ∧ r = (some p, l.pmdNum hasCyc p)) := by
  induction ps generalizing start with
  | nil => simp
  | cons p ps ih =>
      obtain ⟨hle, hall, hcases⟩ := ih (lowestOf l hasCyc start p)
      have hround : (lowestOf l hasCyc start p).2 ≤ start.2 ∧
          (l.isolated p = false → (lowestOf l hasCyc start p).2 ≤ l.pmdNum hasCyc p) ∧
          (lowestOf l hasCyc start p = start ∨
            l.isolated p = false ∧ lowestOf l hasCyc start p = (some p, l.pmdNum hasCyc p)) := by
        unfold lowestOf
        cases hiso : l.isolated p with
        | true => simp
        | false =>
            rw [if_neg Bool.false_ne_true]
            split
            · rename_i hlt
              exact ⟨Nat.le_of_lt hlt, fun _ => Nat.le_refl _, Or.inr ⟨rfl, rfl⟩⟩
            · rename_i hge
              exact ⟨Nat.le_refl _, fun _ => Nat.le_of_not_lt hge, Or.inl rfl⟩
      obtain ⟨hle', hp, hcases'⟩ := hround
      refine ⟨Nat.le_trans hle hle', ?_, ?_⟩
      · intro q hq hiso
        rcases List.mem_cons.mp hq with rfl | hq
        · exact Nat.le_trans hle (hp hiso)
        · exact hall q hq hiso
      · rcases hcases with hsame | hfound
        · rcases hcases' with hstart | hnew
          · exact Or.inl (hsame.trans hstart)
          · exact Or.inr ⟨p, List.mem_cons_self, hnew.1, hsame.trans hnew.2⟩
        · obtain ⟨q, hq, hiso, hr⟩ := hfound
          exact Or.inr ⟨q, List.mem_cons_of_mem p hq, hiso, hr⟩

theorem schedPmdGetLowest_some {l : SchedNumaList} {hasCyc : Bool} {p : Nat}
    (h : schedPmdGetLowest l numa hasCyc = some p) :
    p ∈ l.pmds numa ∧ l.isolated p = false ∧
      ∀ q ∈ l.pmds numa, l.isolated q = false → l.pmdNum hasCyc p ≤ l.pmdNum hasCyc q := by
  obtain ⟨-, hall, hcases⟩ := lowestOf_foldl l hasCyc (l.pmds numa) (none, 2 ^ 64 - 1)
  unfold schedPmdGetLowest at h
  rcases hcases with hnone | hfound
  · rw [hnone] at h
    cases h
  · obtain ⟨q, hq, hiso, hr⟩ := hfound
    rw [hr] at h hall
    obtain rfl := Option.some.inj h
    exact ⟨hq, hiso, hall⟩

theorem exists_schedPmdGetLowest {l : SchedNumaList} {hasCyc : Bool}
    (hex : ∃ p ∈ l.pmds numa, l.isolated p = false)
    (hbound : ∀ p ∈ l.pmds numa, l.pmdNum hasCyc p < 2 ^ 64 - 1) :
    ∃ p, schedPmdGetLowest l numa hasCyc = some p := by
  obtain ⟨p, hp, hiso⟩ := hex
  obtain ⟨-, hall, hcases⟩ := lowestOf_foldl l hasCyc (l.pmds numa) (none, 2 ^ 64 - 1)
  unfold schedPmdGetLowest
  rcases hcases with hnone | hfound
  · rw [hnone] at hall
    exact absurd (hall p hp hiso) (Nat.not_le.mpr (hbound p hp))
  · obtain ⟨q, -, -, hr⟩ := hfound
    exact ⟨q, by rw [hr]⟩

/-- The PMD that is next takes queues that are not pinned. -/
theorem schedPmdNext_some {l l' : SchedNumaList} {algo : SchedAssignmentType} {hasProc : Bool}
    {p : Nat} (hwalk : (l.walk numa).cur < (l.pmds numa).length)
    (h : schedPmdNext l numa algo hasProc = (some p, l')) :
    p ∈ l.pmds numa ∧ l.isolated p = false ∧
      ∃ w : Walk, w.cur < (l.pmds numa).length ∧ l' = l.withWalk numa w := by
  unfold schedPmdNext at h
  by_cases hgroup : algo = .group
  · rw [if_pos hgroup] at h
    obtain ⟨hp, rfl⟩ := Prod.mk.inj h
    obtain ⟨hmem, hiso, -⟩ := schedPmdGetLowest_some hp
    exact ⟨hmem, hiso, l.walk numa, hwalk, (withWalk_walk l numa).symm⟩
  · rw [if_neg hgroup, schedPmdNextNonisoRr, nonisoLoop_eq hwalk] at h
    obtain ⟨hp, rfl⟩ := Prod.mk.inj h
    obtain ⟨i, hi, hget⟩ := Option.bind_eq_some_iff.mp hp
    obtain ⟨v, hv, hvi, hlt, htakes, hw'⟩ := firstFree_some
      (P := fun w => w.cur < (l.pmds numa).length) (fun _ _ hw _ => next_lt hw) hwalk hwalk
      (Prod.ext hi rfl)
    rw [List.getElem?_eq_getElem hlt] at hget
    obtain rfl := Option.some.inj hget
    have hnext : (v.next (l.pmds numa).length (algo = .cycles)).cur < (l.pmds numa).length :=
      next_lt hv
    exact ⟨List.getElem_mem hlt, (takes_iff hlt).mp htakes, _,
      (congrArg Walk.cur hw').trans_lt hnext, rfl⟩

theorem exists_schedPmdNext {l : SchedNumaList} {algo : SchedAssignmentType} {hasProc : Bool}
    (hwalk : (l.walk numa).cur < (l.pmds numa).length)
    (hex : ∃ p ∈ l.pmds numa, l.isolated p = false)
    (hbound : algo = .group → ∀ p ∈ l.pmds numa, l.pmdNum hasProc p < 2 ^ 64 - 1) :
    ∃ p l', schedPmdNext l numa algo hasProc = (some p, l') := by
  unfold schedPmdNext
  by_cases hgroup : algo = .group
  · obtain ⟨p, hp⟩ := exists_schedPmdGetLowest hex (hbound hgroup)
    rw [if_pos hgroup, hp]
    exact ⟨p, l, rfl⟩
  · obtain ⟨p, hp, hiso⟩ := hex
    obtain ⟨i, hi, rfl⟩ := List.getElem_of_mem hp
    have hdist : (l.walk numa).dist (l.pmds numa).length (algo = .cycles) i <
        2 * (l.pmds numa).length := dist_lt hwalk hi
    rw [Nat.mul_comm] at hdist
    obtain ⟨j, w', hfound⟩ := exists_firstFree hi ((takes_iff hi).mpr hiso) hwalk hdist
    obtain ⟨v, -, -, hlt, -, -⟩ := firstFree_some (P := fun _ => True)
      (fun _ _ _ _ => trivial) trivial hwalk hfound
    rw [if_neg hgroup, schedPmdNextNonisoRr, nonisoLoop_eq hwalk, hfound]
    dsimp only
    rw [Option.bind_some, List.getElem?_eq_getElem hlt]
    exact ⟨_, _, rfl⟩

end Pmds

end Repath.Datapath
