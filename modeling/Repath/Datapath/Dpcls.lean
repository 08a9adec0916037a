import Mathlib.Data.List.Basic
import Mathlib.Data.List.Nodup
import Mathlib.Data.List.Perm.Basic
import Repath.Ovs.RxqRecv

/-!
# The datapath classifier

A classifier keeps its rules in subtables, one for each mask.  `dpcls_lookup` goes
through the subtables in the order of their hit counts and leaves out the keys that
are found already, which it remembers in a bitmap.  As the rules do not overlap, the
order makes no difference.

The search of a single subtable is chosen at run time among several implementations
and is a parameter here.
-/

namespace Repath.Datapath

open Repath.Ovs (netdevMaxBurst)

/-- The 64-bit units of a flow that are present, with their values. -/
abbrev Miniflow := List (Nat × UInt64)

def Miniflow.value (mf : Miniflow) (idx : Nat) : UInt64 :=
  ((mf.find? fun x => x.1 = idx).map Prod.snd).getD 0

structure DpclsRule (F : Type) where
  flow : F
  mask : Miniflow
  key : Miniflow
  deriving DecidableEq

variable {F : Type}

/-- `dpcls_rule_matches_key`. -/
def dpclsRuleMatchesKey (rule : DpclsRule F) (target : Miniflow) : Bool :=
  (rule.key.zip rule.mask).all fun x => target.value x.1.1 &&& x.2.2 == x.1.2

structure DpclsSubtable (F : Type) where
  mask : Miniflow
  rules : List (DpclsRule F)

/-- The subtables in the order of the search. -/
abbrev Dpcls (F : Type) := List (DpclsSubtable F)

def Dpcls.rules (cls : Dpcls F) : List (DpclsRule F) := cls.flatMap DpclsSubtable.rules

/-- `dpcls_insert`, with `dpcls_find_subtable` and `dpcls_create_subtable`. -/
def dpclsInsert (rule : DpclsRule F) : Dpcls F → Dpcls F
  | [] => [{ mask := rule.mask, rules := [rule] }]
  | st :: cls =>
    if st.mask = rule.mask then { st with rules := st.rules ++ [rule] } :: cls
    else st :: dpclsInsert rule cls

/-- `dpcls_remove`, which destroys a subtable with its last rule. -/
def dpclsRemove [DecidableEq F] (rule : DpclsRule F) : Dpcls F → Dpcls F
  | [] => []
  | st :: cls =>
    if st.mask = rule.mask then
      match st.rules.erase rule with
      | [] => cls
      | r :: rs => { st with rules := r :: rs } :: cls
    else st :: dpclsRemove rule cls

/-- `dpcls_sort_subtable_vector`. -/
def dpclsSortSubtableVector (hitCnt : Miniflow → Nat) (cls : Dpcls F) : Dpcls F :=
  cls.mergeSort fun a b => hitCnt b.mask ≤ hitCnt a.mask

/-- Every rule is in the subtable of its mask, and no subtable is empty. -/
structure Dpcls.Wf (cls : Dpcls F) : Prop where
  masks : (cls.map DpclsSubtable.mask).Nodup
  nonempty : ∀ st ∈ cls, st.rules ≠ []
  home : ∀ st ∈ cls, ∀ r ∈ st.rules, r.mask = st.mask

theorem wf_nil : Dpcls.Wf ([] : Dpcls F) where
  masks := List.nodup_nil
  nonempty := by simp
  home := by simp

theorem wf_cons {st : DpclsSubtable F} {cls : Dpcls F} :
    Dpcls.Wf (st :: cls) ↔ st.mask ∉ cls.map DpclsSubtable.mask ∧ st.rules ≠ [] ∧
      (∀ r ∈ st.rules, r.mask = st.mask) ∧ Dpcls.Wf cls := by
  constructor
  · intro h
    exact ⟨(List.nodup_cons.mp h.masks).1, h.nonempty st List.mem_cons_self,
      h.home st List.mem_cons_self, (List.nodup_cons.mp h.masks).2,
      fun s hs => h.nonempty s (List.mem_cons_of_mem st hs),
      fun s hs => h.home s (List.mem_cons_of_mem st hs)⟩
  · intro h
    obtain ⟨hmask, hne, hhome, hcls⟩ := h
    exact ⟨List.nodup_cons.mpr ⟨hmask, hcls.masks⟩,
      List.forall_mem_cons.mpr ⟨hne, hcls.nonempty⟩, List.forall_mem_cons.mpr ⟨hhome, hcls.home⟩⟩

theorem Dpcls.Wf.perm {cls cls' : Dpcls F} (h : cls.Wf) (hp : cls'.Perm cls) : cls'.Wf where
  masks := (hp.map DpclsSubtable.mask).nodup_iff.mpr h.masks
  nonempty st hst := h.nonempty st (hp.mem_iff.mp hst)
  home st hst := h.home st (hp.mem_iff.mp hst)

theorem rules_cons (st : DpclsSubtable F) (cls : Dpcls F) :
    Dpcls.rules (st :: cls) = st.rules ++ cls.rules := List.flatMap_cons

theorem sort_perm (hitCnt : Miniflow → Nat) (cls : Dpcls F) :
    (dpclsSortSubtableVector hitCnt cls).Perm cls := List.mergeSort_perm cls _

theorem mem_masks_insert {rule : DpclsRule F} {cls : Dpcls F} {mask : Miniflow}
    (h : mask ∈ (dpclsInsert rule cls).map DpclsSubtable.mask) :
    mask = rule.mask ∨ mask ∈ cls.map DpclsSubtable.mask := by
  induction cls with
  | nil =>
      rw [dpclsInsert, List.map_singleton, List.mem_singleton] at h
      exact Or.inl h
  | cons st cls ih =>
      rw [dpclsInsert] at h
      by_cases hmask : st.mask = rule.mask
      · rw [if_pos hmask] at h
        exact Or.inr h
      · rw [if_neg hmask, List.map_cons] at h
        rcases List.mem_cons.mp h with h | h
        · exact Or.inr (List.mem_cons.mpr (Or.inl h))
        · rcases ih h with h | h
          · exact Or.inl h
          · exact Or.inr (List.mem_cons_of_mem _ h)

theorem insert_wf {cls : Dpcls F} (h : cls.Wf) (rule : DpclsRule F) :
    (dpclsInsert rule cls).Wf := by
  induction cls with
  | nil => exact wf_cons.mpr ⟨by simp, by simp, by simp, wf_nil⟩
  | cons st cls ih =>
      obtain ⟨hmask, hne, hhome, hcls⟩ := wf_cons.mp h
      rw [dpclsInsert]
      by_cases hm : st.mask = rule.mask
      · rw [if_pos hm]
        refine wf_cons.mpr ⟨hmask, by simp, ?_, hcls⟩
        intro r hr
        rcases List.mem_append.mp hr with hr | hr
        · exact hhome r hr
        · rw [List.mem_singleton.mp hr]
          exact hm.symm
      · rw [if_neg hm]
        refine wf_cons.mpr ⟨?_, hne, hhome, ih hcls⟩
        intro hmem
        rcases mem_masks_insert hmem with hmem | hmem
        · exact hm hmem
        · exact hmask hmem

theorem insert_rules (cls : Dpcls F) (rule : DpclsRule F) :
    (dpclsInsert rule cls).rules.Perm (rule :: cls.rules) := by
  induction cls with
  | nil => exact List.Perm.refl _
  | cons st cls ih =>
      rw [dpclsInsert]
      by_cases hm : st.mask = rule.mask
      · rw [if_pos hm, rules_cons, rules_cons, List.append_assoc]
        exact List.perm_middle
      · rw [if_neg hm, rules_cons, rules_cons]
        exact (ih.append_left st.rules).trans List.perm_middle

section Remove

variable [DecidableEq F]

theorem remove_masks_sublist (rule : DpclsRule F) (cls : Dpcls F) :
    ((dpclsRemove rule cls).map DpclsSubtable.mask).Sublist (cls.map DpclsSubtable.mask) := by
  induction cls with
  | nil => exact List.Sublist.refl []
  | cons st cls ih =>
      rw [dpclsRemove]
      by_cases hm : st.mask = rule.mask
      · rw [if_pos hm]
        cases st.rules.erase rule with
        | nil => exact List.sublist_cons_self _ _
        | cons r rs => exact List.Sublist.refl _
      · rw [if_neg hm]
        exact ih.cons_cons _

theorem remove_wf {cls : Dpcls F} (h : cls.Wf) (rule : DpclsRule F) :
    (dpclsRemove rule cls).Wf := by
  induction cls with
  | nil => exact h
  | cons st cls ih =>
      obtain ⟨hmask, hne, hhome, hcls⟩ := wf_cons.mp h
      rw [dpclsRemove]
      by_cases hm : st.mask = rule.mask
      · rw [if_pos hm]
        have hsub : ∀ r ∈ st.rules.erase rule, r.mask = st.mask :=
          fun r hr => hhome r (List.mem_of_mem_erase hr)
        cases hrest : st.rules.erase rule with
        | nil => exact hcls
        | cons r rs =>
            rw [hrest] at hsub
            exact wf_cons.mpr ⟨hmask, by simp, hsub, hcls⟩
      · rw [if_neg hm]
        exact wf_cons.mpr ⟨fun hmem => hmask ((remove_masks_sublist rule cls).subset hmem), hne,
          hhome, ih hcls⟩

/-- The rule is found in the subtable of its mask. -/
theorem remove_rules {cls : Dpcls F} (h : cls.Wf) {rule : DpclsRule F} (hr : rule ∈ cls.rules) :
    cls.rules.Perm (rule :: Dpcls.rules (dpclsRemove rule cls)) := by
  induction cls with
  | nil => cases hr
  | cons st cls ih =>
      obtain ⟨hmask, hne, hhome, hcls⟩ := wf_cons.mp h
      rw [rules_cons] at hr ⊢
      rw [dpclsRemove]
      by_cases hm : st.mask = rule.mask
      · rw [if_pos hm]
        have hin : rule ∈ st.rules := by
          rcases List.mem_append.mp hr with hr | hr
          · exact hr
          · obtain ⟨s, hs, hrs⟩ := List.mem_flatMap.mp hr
            exfalso
            apply hmask
            rw [hm, hcls.home s hs rule hrs]
            exact List.mem_map_of_mem hs
        have herase := (List.perm_cons_erase hin).append_right (Dpcls.rules cls)
        cases hrest : st.rules.erase rule with
        | nil =>
            rw [hrest] at herase
            exact herase
        | cons r rs =>
            rw [hrest] at herase
            exact herase
      · rw [if_neg hm, rules_cons]
        have hin : rule ∈ Dpcls.rules cls := by
          rcases List.mem_append.mp hr with hr | hr
          · exact absurd (hhome rule hr) (Ne.symm hm)
          · exact hr
        exact ((ih hcls hin).append_left st.rules).trans List.perm_middle

end Remove

/-! ### Lookup -/

/-- A search of one subtable for the keys in a bitmap: the bitmap of those it found,
and the rules with the found ones filled in. -/
abbrev LookupFunc (F : Type) :=
  DpclsSubtable F → BitVec 32 → List Miniflow → List (Option (DpclsRule F)) →
    BitVec 32 × List (Option (DpclsRule F))

/-- What every implementation of the search does. -/
structure LookupFunc.Spec (lookupFunc : LookupFunc F) : Prop where
  found : ∀ st keysMap keys rules i, (lookupFunc st keysMap keys rules).1.getLsbD i = true ↔
    keysMap.getLsbD i = true ∧
      ∃ key, keys[i]? = some key ∧ ∃ r ∈ st.rules, dpclsRuleMatchesKey r key = true
  length : ∀ st keysMap keys rules, (lookupFunc st keysMap keys rules).2.length = rules.length
  filled : ∀ st keysMap keys rules i key, i < rules.length →
    (lookupFunc st keysMap keys rules).1.getLsbD i = true → keys[i]? = some key →
      ∃ r ∈ st.rules, dpclsRuleMatchesKey r key = true ∧
        (lookupFunc st keysMap keys rules).2[i]? = some (some r)
  kept : ∀ st keysMap keys rules i, (lookupFunc st keysMap keys rules).1.getLsbD i = false →
    (lookupFunc st keysMap keys rules).2[i]? = rules[i]?

def count1bits (bits : BitVec 32) : Nat :=
  ((List.range 32).filter fun i => bits.getLsbD i).length

structure DpclsLookup (F : Type) where
  allFound : Bool
  rules : List (Option (DpclsRule F))
  numLookups : Nat

/-- The loop over the subtables. -/
def dpclsLookupLoop (lookupFunc : LookupFunc F) (keys : List Miniflow) :
    Dpcls F → BitVec 32 → List (Option (DpclsRule F)) → Nat → Nat → DpclsLookup F
  | [], _, rules, lookupsMatch, _ =>
    { allFound := false, rules := rules, numLookups := lookupsMatch }
  | st :: cls, keysMap, rules, lookupsMatch, subtablePos =>
    let r := lookupFunc st keysMap keys rules
    let lookupsMatch := lookupsMatch + count1bits r.1 * subtablePos
    let keysMap := keysMap &&& ~~~r.1
    if keysMap = 0 then { allFound := true, rules := r.2, numLookups := lookupsMatch }
    else dpclsLookupLoop lookupFunc keys cls keysMap r.2 lookupsMatch (subtablePos + 1)

/-- `dpcls_lookup`. -/
def dpclsLookup (lookupFunc : LookupFunc F) (cls : Dpcls F) (keys : List Miniflow) :
    DpclsLookup F :=
  let keysMap := BitVec.allOnes 32
  let keysMap := if keys.length ≠ 32 then keysMap >>> (32 - keys.length) else keysMap
  dpclsLookupLoop lookupFunc keys cls keysMap (List.replicate keys.length none) 0 1

/-- The bitmap has the keys without a rule. -/
structure Searching (keys : List Miniflow) (keysMap : BitVec 32)
    (rules : List (Option (DpclsRule F))) : Prop where
  length : rules.length = keys.length
  bits : ∀ i, keysMap.getLsbD i = true ↔ rules[i]? = some none

theorem searching_start {keys : List Miniflow} (h : keys.length ≤ 32) :
    Searching keys (if keys.length ≠ 32 then BitVec.allOnes 32 >>> (32 - keys.length)
      else BitVec.allOnes 32) (List.replicate keys.length (none : Option (DpclsRule F))) where
  length := List.length_replicate
  bits i := by
    rw [List.getElem?_replicate]
    by_cases hlen : keys.length = 32
    · rw [if_neg (by simpa using hlen)]
      simp only [BitVec.getLsbD_allOnes, hlen]
      by_cases hi : i < 32 <;> simp [hi]
    · rw [if_pos hlen]
      simp only [BitVec.getLsbD_ushiftRight, BitVec.getLsbD_allOnes, decide_eq_true_eq]
      by_cases hi : i < keys.length
      · simp only [hi, if_true, iff_true]
        omega
      · simp only [hi, if_false, reduceCtorEq, iff_false]
        omega

theorem searching_step {lookupFunc : LookupFunc F} (hspec : lookupFunc.Spec)
    {keys : List Miniflow} {keysMap : BitVec 32} {rules : List (Option (DpclsRule F))}
    (h : Searching keys keysMap rules) (st : DpclsSubtable F) :
    Searching keys (keysMap &&& ~~~(lookupFunc st keysMap keys rules).1)
      (lookupFunc st keysMap keys rules).2 where
  length := (hspec.length st keysMap keys rules).trans h.length
  bits i := by
    have hbits := h.bits i
    rw [BitVec.getLsbD_and, BitVec.getLsbD_not]
    cases hfound : (lookupFunc st keysMap keys rules).1.getLsbD i with
    | true =>
        obtain ⟨hmap, key, hkey, -⟩ := (hspec.found st keysMap keys rules i).mp hfound
        have hlt : i < rules.length := (List.getElem?_eq_some_iff.mp (hbits.mp hmap)).1
        obtain ⟨r, -, -, hfilled⟩ := hspec.filled st keysMap keys rules i key hlt hfound hkey
        rw [hfilled]
        simp
    | false =>
        rw [hspec.kept st keysMap keys rules i hfound, ← hbits]
        constructor
        · intro hand
          exact (Bool.and_eq_true_iff.mp hand).1
        · intro hmap
          have hlt := BitVec.lt_of_getLsbD hmap
          simp [hmap, hlt]

/-- What the loop does about the key at place `i`, if it has no rule yet. -/
structure Answered (cls : Dpcls F) (key : Miniflow) (rules rules' : List (Option (DpclsRule F)))
    (i : Nat) : Prop where
  kept : ∀ rule, rules[i]? = some (some rule) → rules'[i]? = some (some rule)
  answer : rules[i]? = some none →
    (rules'[i]? = some none ∧ ∀ r ∈ cls.rules, dpclsRuleMatchesKey r key = false) ∨
      ∃ r ∈ cls.rules, dpclsRuleMatchesKey r key = true ∧ rules'[i]? = some (some r)

theorem rules_singleton (st : DpclsSubtable F) : Dpcls.rules [st] = st.rules := by
  rw [rules_cons]
  exact List.append_nil _

theorem search_answered {lookupFunc : LookupFunc F} (hspec : lookupFunc.Spec)
    {keys : List Miniflow} {keysMap : BitVec 32} {rules : List (Option (DpclsRule F))}
    (h : Searching keys keysMap rules) (st : DpclsSubtable F) {i : Nat} {key : Miniflow}
    (hkey : keys[i]? = some key) :
    Answered [st] key rules (lookupFunc st keysMap keys rules).2 i where
  kept rule hr := by
    rw [hspec.kept st keysMap keys rules i, hr]
    rw [Bool.eq_false_iff]
    intro hfound
    have hnone := (h.bits i).mp ((hspec.found st keysMap keys rules i).mp hfound).1
    rw [hr] at hnone
    cases hnone
  answer hr := by
    have hlt : i < rules.length := by
      rw [h.length]
      exact (List.getElem?_eq_some_iff.mp hkey).1
    rw [rules_singleton]
    cases hfound : (lookupFunc st keysMap keys rules).1.getLsbD i with
    | true =>
        obtain ⟨r, hmem, hmatch, hfilled⟩ :=
          hspec.filled st keysMap keys rules i key hlt hfound hkey
        exact Or.inr ⟨r, hmem, hmatch, hfilled⟩
    | false =>
        left
        rw [hspec.kept st keysMap keys rules i hfound]
        refine ⟨hr, ?_⟩
        intro r hmem
        rw [Bool.eq_false_iff]
        intro hmatch
        have hiff := hspec.found st keysMap keys rules i
        rw [hfound] at hiff
        exact Bool.false_ne_true (hiff.mpr ⟨(h.bits i).mpr hr, key, hkey, r, hmem, hmatch⟩)

theorem lookupLoop_spec {lookupFunc : LookupFunc F} (hspec : lookupFunc.Spec)
    {keys : List Miniflow} (cls : Dpcls F) : ∀ {keysMap : BitVec 32}
      {rules : List (Option (DpclsRule F))} (lookupsMatch subtablePos : Nat),
      Searching keys keysMap rules → keysMap ≠ 0 →
        let r := dpclsLookupLoop lookupFunc keys cls keysMap rules lookupsMatch subtablePos
        r.rules.length = keys.length ∧
          (r.allFound = true ↔ ∀ i : Nat, r.rules[i]? ≠ some none) ∧
          ∀ (i : Nat) key, keys[i]? = some key → Answered cls key rules r.rules i := by
  induction cls with
  | nil =>
      intro keysMap rules lookupsMatch subtablePos h hne
      refine ⟨h.length, ?_, ?_⟩
      · constructor
        · intro hfalse
          cases hfalse
        · intro hall
          exfalso
          apply hne
          apply BitVec.eq_of_getLsbD_eq
          intro i hi
          show _ = (0#32).getLsbD i
          rw [BitVec.getLsbD_zero, Bool.eq_false_iff]
          exact fun hmap => hall i ((h.bits i).mp hmap)
      · intro i key hkey
        exact { kept := fun _ hr => hr
                answer := fun hr => Or.inl ⟨hr, by simp [Dpcls.rules]⟩ }
  | cons st cls ih =>
      intro keysMap rules lookupsMatch subtablePos h hne
      have hstep := searching_step hspec h st
      have hhere : ∀ (i : Nat) key, keys[i]? = some key →
          Answered [st] key rules (lookupFunc st keysMap keys rules).2 i :=
        fun i key hkey => search_answered hspec h st hkey
      rw [dpclsLookupLoop]
      dsimp only
      by_cases hzero : keysMap &&& ~~~(lookupFunc st keysMap keys rules).1 = 0
      · -- every key is found, and the other subtables are left out
        rw [if_pos hzero]
        have hfull : ∀ i : Nat, (lookupFunc st keysMap keys rules).2[i]? ≠ some none := by
          intro i hnone
          have hbit := (hstep.bits i).mpr hnone
          rw [hzero] at hbit
          exact absurd hbit (by simp)
        refine ⟨hstep.length, ⟨fun _ => hfull, fun _ => rfl⟩, ?_⟩
        intro i key hkey
        obtain ⟨hkept, hanswer⟩ := hhere i key hkey
        refine ⟨hkept, ?_⟩
        intro hr
        rcases hanswer hr with ⟨hnone, -⟩ | ⟨r, hmem, hmatch, hfilled⟩
        · exact absurd hnone (hfull i)
        · rw [rules_cons]
          rw [rules_singleton] at hmem
          exact Or.inr ⟨r, List.mem_append_left _ hmem, hmatch, hfilled⟩
      · rw [if_neg hzero]
        obtain ⟨hlen, hall, hrest⟩ := ih (lookupsMatch + _) (subtablePos + 1) hstep hzero
        refine ⟨hlen, hall, ?_⟩
        intro i key hkey
        obtain ⟨hkept, hanswer⟩ := hhere i key hkey
        obtain ⟨hkept', hanswer'⟩ := hrest i key hkey
        refine ⟨fun rule hr => hkept' rule (hkept rule hr), ?_⟩
        intro hr
        rw [rules_cons]
        rcases hanswer hr with ⟨hnone, hno⟩ | ⟨r, hmem, hmatch, hfilled⟩
        · rw [rules_singleton] at hno
          rcases hanswer' hnone with ⟨hnone', hno'⟩ | ⟨r, hmem, hmatch, hfilled⟩
          · refine Or.inl ⟨hnone', ?_⟩
            intro r hmem
            rcases List.mem_append.mp hmem with hmem | hmem
            · exact hno r hmem
            · exact hno' r hmem
          · exact Or.inr ⟨r, List.mem_append_right _ hmem, hmatch, hfilled⟩
        · rw [rules_singleton] at hmem
          exact Or.inr ⟨r, List.mem_append_left _ hmem, hmatch, hkept' r hfilled⟩

/-- The rule of a key, where no two rules in the classifier match it. -/
theorem dpclsLookup_eq {lookupFunc : LookupFunc F} (hspec : lookupFunc.Spec) {cls : Dpcls F}
    {present : List (DpclsRule F)} (hp : cls.rules.Perm present) {keys : List Miniflow}
    (hpos : 0 < keys.length) (hlen : keys.length ≤ netdevMaxBurst)
    (hdisjoint : ∀ key ∈ keys, ∀ r ∈ present, ∀ s ∈ present,
      dpclsRuleMatchesKey r key = true → dpclsRuleMatchesKey s key = true → r = s) :
    (dpclsLookup lookupFunc cls keys).rules =
        keys.map (fun key => present.find? fun r => dpclsRuleMatchesKey r key) ∧
      (dpclsLookup lookupFunc cls keys).allFound =
        keys.all fun key => present.any fun r => dpclsRuleMatchesKey r key := by
  have hstart := searching_start (F := F) (h := hlen)
  have hne : (if keys.length ≠ 32 then BitVec.allOnes 32 >>> (32 - keys.length)
      else BitVec.allOnes 32) ≠ 0 := by
    intro hzero
    have hbit := (hstart.bits 0).mpr (by rw [List.getElem?_replicate, if_pos hpos])
    rw [hzero] at hbit
    exact absurd hbit (by simp)
  obtain ⟨hlength, hall, hanswers⟩ := lookupLoop_spec hspec cls 0 1 hstart hne
  change (dpclsLookup lookupFunc cls keys).rules.length = _ at hlength
  change (dpclsLookup lookupFunc cls keys).allFound = true ↔
    ∀ i : Nat, (dpclsLookup lookupFunc cls keys).rules[i]? ≠ some none at hall
  change ∀ (i : Nat) key, keys[i]? = some key →
    Answered cls key _ (dpclsLookup lookupFunc cls keys).rules i at hanswers
  have hrules : (dpclsLookup lookupFunc cls keys).rules =
      keys.map fun key => present.find? fun r => dpclsRuleMatchesKey r key := by
    apply List.ext_getElem?
    intro i
    rw [List.getElem?_map]
    cases hkey : keys[i]? with
    | none =>
        rw [Option.map_none]
        apply List.getElem?_eq_none
        rw [hlength]
        exact List.getElem?_eq_none_iff.mp hkey
    | some key =>
        rw [Option.map_some]
        have hlt : i < keys.length := (List.getElem?_eq_some_iff.mp hkey).1
        rcases (hanswers i key hkey).answer (by rw [List.getElem?_replicate, if_pos hlt]) with
          ⟨hnone, hno⟩ | ⟨r, hmem, hmatch, hfilled⟩
        · rw [hnone]
          symm
          apply congrArg
          rw [List.find?_eq_none]
          intro r hr
          rw [hno r (hp.mem_iff.mpr hr)]
          exact Bool.false_ne_true
        · rw [hfilled]
          symm
          apply congrArg
          cases hfind : present.find? fun r => dpclsRuleMatchesKey r key with
          | none =>
              rw [List.find?_eq_none] at hfind
              exact absurd hmatch (hfind r (hp.mem_iff.mp hmem))
          | some s =>
              have hs := List.find?_some hfind
              rw [hdisjoint key (List.mem_of_getElem? hkey) s (List.mem_of_find?_eq_some hfind) r
                (hp.mem_iff.mp hmem) hs hmatch]
  refine ⟨hrules, ?_⟩
  rw [Bool.eq_iff_iff, hall, hrules, List.all_eq_true]
  constructor
  · intro hfull key hkey
    obtain ⟨i, hi⟩ := List.mem_iff_getElem?.mp hkey
    have hsome := hfull i
    rw [List.getElem?_map, hi, Option.map_some] at hsome
    rw [List.any_eq_true]
    by_contra hno
    apply hsome
    rw [List.find?_eq_none.mpr]
    intro r hr hmatch
    exact hno ⟨r, hr, hmatch⟩
  · intro hany i hnone
    rw [List.getElem?_map] at hnone
    obtain ⟨key, hkey, hfind⟩ := Option.map_eq_some_iff.mp hnone
    obtain ⟨r, hr, hmatch⟩ := List.any_eq_true.mp (hany key (List.mem_of_getElem? hkey))
    rw [List.find?_eq_none] at hfind
    exact hfind r hr hmatch

/-! ### Runs -/

inductive DpclsOp (F : Type)
  | insert (rule : DpclsRule F)
  | remove (rule : DpclsRule F)
  | sort (hitCnt : Miniflow → Nat)

variable [DecidableEq F]

def dpclsStep (cls : Dpcls F) : DpclsOp F → Dpcls F
  | .insert rule => dpclsInsert rule cls
  | .remove rule => dpclsRemove rule cls
  | .sort hitCnt => dpclsSortSubtableVector hitCnt cls

/-- The rules that are in a classifier, whatever its subtables. -/
def presentStep (present : List (DpclsRule F)) : DpclsOp F → List (DpclsRule F)
  | .insert rule => rule :: present
  | .remove rule => present.erase rule
  | .sort _ => present

/-- Only rules that are in the classifier are removed. -/
def Admissible : List (DpclsRule F) → List (DpclsOp F) → Prop
  | _, [] => True
  | present, op :: ops =>
    (match op with
      | .remove rule => rule ∈ present
      | _ => True) ∧ Admissible (presentStep present op) ops

theorem step_holds {cls : Dpcls F} {present : List (DpclsRule F)} (hwf : cls.Wf)
    (hp : cls.rules.Perm present) {op : DpclsOp F}
    (hop : match op with
      | .remove rule => rule ∈ present
      | _ => True) :
    Dpcls.Wf (dpclsStep cls op) ∧
      (Dpcls.rules (dpclsStep cls op)).Perm (presentStep present op) := by
  cases op with
  | insert rule => exact ⟨insert_wf hwf rule, (insert_rules cls rule).trans (hp.cons rule)⟩
  | remove rule =>
      refine ⟨remove_wf hwf rule, ?_⟩
      have hmem : rule ∈ Dpcls.rules cls := hp.mem_iff.mpr hop
      have hrest := (remove_rules hwf hmem).symm.trans hp
      exact (List.cons_perm_iff_perm_erase.mp hrest).2
  | sort hitCnt =>
      have hsort := sort_perm hitCnt cls
      exact ⟨hwf.perm hsort, (hsort.flatMap_right DpclsSubtable.rules).trans hp⟩

theorem run_holds (ops : List (DpclsOp F)) : ∀ {cls : Dpcls F} {present : List (DpclsRule F)},
    cls.Wf → cls.rules.Perm present → Admissible present ops →
      Dpcls.Wf (ops.foldl dpclsStep cls) ∧
        (Dpcls.rules (ops.foldl dpclsStep cls)).Perm (ops.foldl presentStep present) := by
  induction ops with
  | nil => exact fun hwf hp _ => ⟨hwf, hp⟩
  | cons op ops ih =>
      intro cls present hwf hp hops
      obtain ⟨hwf', hp'⟩ := step_holds hwf hp hops.1
      exact ih hwf' hp' hops.2

/-- After any run of insertions, removals and sorts a batch of keys is looked up as by
a search through the rules that are present, and the subtables are those of the masks
in use. -/
theorem dpcls_lookup_run {lookupFunc : LookupFunc F} (hspec : lookupFunc.Spec)
    (ops : List (DpclsOp F)) (hops : Admissible [] ops) {keys : List Miniflow}
    (hpos : 0 < keys.length) (hlen : keys.length ≤ netdevMaxBurst)
    (hdisjoint : ∀ key ∈ keys, ∀ r ∈ ops.foldl presentStep [], ∀ s ∈ ops.foldl presentStep [],
      dpclsRuleMatchesKey r key = true → dpclsRuleMatchesKey s key = true → r = s) :
    let cls := ops.foldl dpclsStep []
    let present := ops.foldl presentStep []
    (dpclsLookup lookupFunc cls keys).rules =
        keys.map (fun key => present.find? fun r => dpclsRuleMatchesKey r key) ∧
      (dpclsLookup lookupFunc cls keys).allFound =
        keys.all (fun key => present.any fun r => dpclsRuleMatchesKey r key) ∧
      (cls.map DpclsSubtable.mask).Nodup ∧
      ∀ mask, mask ∈ cls.map DpclsSubtable.mask ↔ ∃ r ∈ present, r.mask = mask := by
  intro cls present
  obtain ⟨hwf, hp⟩ := run_holds ops wf_nil (List.Perm.refl _) hops
  obtain ⟨hrules, hall⟩ := dpclsLookup_eq hspec hp hpos hlen hdisjoint
  refine ⟨hrules, hall, hwf.masks, ?_⟩
  intro mask
  rw [List.mem_map]
  constructor
  · intro h
    obtain ⟨st, hst, rfl⟩ := h
    obtain ⟨r, hr⟩ := List.exists_mem_of_ne_nil _ (hwf.nonempty st hst)
    exact ⟨r, hp.mem_iff.mp (List.mem_flatMap.mpr ⟨st, hst, hr⟩), hwf.home st hst r hr⟩
  · intro h
    obtain ⟨r, hr, rfl⟩ := h
    obtain ⟨st, hst, hrst⟩ := List.mem_flatMap.mp (hp.mem_iff.mpr hr)
    exact ⟨st, hst, (hwf.home st hst r hrst).symm⟩

/-- A search one key after the other. -/
def searchEach : LookupFunc F := fun st keysMap keys rules =>
  let matching (i : Nat) : Option (DpclsRule F) :=
    if keysMap.getLsbD i then
      keys[i]?.bind fun key => st.rules.find? fun r => dpclsRuleMatchesKey r key
    else none
  ((BitVec.ofBoolListLE ((List.range 32).map fun i => (matching i).isSome)).cast (by simp),
    rules.mapIdx fun i rule => (matching i).or rule)

omit [DecidableEq F] in
theorem searchEach_spec : LookupFunc.Spec (searchEach : LookupFunc F) := by
  have hbit : ∀ st keysMap keys rules i,
      ((searchEach : LookupFunc F) st keysMap keys rules).1.getLsbD i =
        (if keysMap.getLsbD i then
          keys[i]?.bind fun key => st.rules.find? fun r => dpclsRuleMatchesKey r key
        else none).isSome := by
    intro st keysMap keys rules i
    unfold searchEach
    dsimp only
    rw [BitVec.getLsbD_cast, BitVec.getLsbD_ofBoolListLE]
    by_cases hi : i < 32
    · simp [hi]
    · rw [BitVec.getLsbD_of_ge keysMap i (by omega)]
      simp [hi]
  constructor
  · intro st keysMap keys rules i
    rw [hbit]
    cases hmap : keysMap.getLsbD i with
    | false => simp
    | true =>
        rw [if_pos rfl]
        cases hkey : keys[i]? with
        | none => simp
        | some key => simp
  · intro st keysMap keys rules
    exact List.length_mapIdx
  · intro st keysMap keys rules i key hi hfound hkey
    rw [hbit] at hfound
    obtain ⟨r, hr⟩ := Option.isSome_iff_exists.mp hfound
    have hfind := (Option.ite_none_right_eq_some.mp hr).2
    rw [hkey, Option.bind_some] at hfind
    have hmatch := List.find?_some hfind
    refine ⟨r, List.mem_of_find?_eq_some hfind, hmatch, ?_⟩
    show (rules.mapIdx _)[i]? = _
    rw [List.getElem?_mapIdx, List.getElem?_eq_getElem hi, Option.map_some]
    dsimp only
    rw [hr]
    rfl
  · intro st keysMap keys rules i hfound
    rw [hbit, Option.isSome_eq_false_iff, Option.isNone_iff_eq_none] at hfound
    show (rules.mapIdx _)[i]? = _
    rw [List.getElem?_mapIdx]
    dsimp only
    rw [hfound]
    simp

theorem dpcls_lookup_run_sample :
    (dpclsLookup searchEach ([DpclsOp.insert ⟨1, [(0, 255)], [(0, 7)]⟩,
        .insert ⟨2, [(1, 15)], [(1, 3)]⟩, .sort fun mask => mask.length,
        .insert ⟨3, [(0, 255)], [(0, 9)]⟩, .remove ⟨3, [(0, 255)], [(0, 9)]⟩].foldl dpclsStep [])
      [[(0, 263), (1, 1)], [(1, 19)]]).rules =
      [some (⟨1, [(0, 255)], [(0, 7)]⟩ : DpclsRule Nat), some ⟨2, [(1, 15)], [(1, 3)]⟩] :=
  (dpcls_lookup_run searchEach_spec _ (by simp [Admissible, presentStep]) (by decide) (by decide)
    (by decide)).1.trans (by decide)

end Repath.Datapath
