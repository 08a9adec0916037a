import Mathlib.Data.List.Basic
import Mathlib.Data.List.Induction
import Mathlib.Data.List.Nodup
import Mathlib.Data.List.Perm.Basic

/-!
# Grouping by key

The groups of a sequence of keyed elements stand in the order in which their keys
first occur, and a group holds its elements in the order of the sequence.  One more
element goes to the end of the group of its key, or starts a group of its own.
-/

namespace Grouping

variable {κ α : Type} [DecidableEq κ]

/-- The elements with the given key, in order. -/
def members (k : κ) (xs : List (κ × α)) : List α :=
  xs.filterMap fun x => if x.1 = k then some x.2 else none

/-- The keys in the order of their first occurrence. -/
def keys (xs : List (κ × α)) : List κ := (xs.map Prod.fst).eraseDups

def group (xs : List (κ × α)) : List (κ × List α) := (keys xs).map fun k => (k, members k xs)

@[simp] theorem group_nil : group ([] : List (κ × α)) = [] := rfl

theorem mem_keys {k : κ} {xs : List (κ × α)} : k ∈ keys xs ↔ ∃ a, (k, a) ∈ xs := by
  unfold keys
  rw [List.mem_eraseDups, List.mem_map]
  constructor
  · intro h
    obtain ⟨x, hx, rfl⟩ := h
    exact ⟨x.2, hx⟩
  · intro h
    obtain ⟨a, ha⟩ := h
    exact ⟨(k, a), ha, rfl⟩

theorem members_snoc (k k' : κ) (xs : List (κ × α)) (a : α) :
    members k (xs ++ [(k', a)]) = members k xs ++ if k' = k then [a] else [] := by
  unfold members
  rw [List.filterMap_append]
  by_cases h : k' = k <;> simp [h]

theorem members_of_not_mem {k : κ} {xs : List (κ × α)} (h : k ∉ keys xs) : members k xs = [] := by
  apply List.filterMap_eq_nil_iff.mpr
  intro x hx
  apply if_neg
  intro hk
  exact h (mem_keys.mpr ⟨x.2, hk ▸ hx⟩)

theorem keys_snoc (xs : List (κ × α)) (k : κ) (a : α) :
    keys (xs ++ [(k, a)]) = if k ∈ keys xs then keys xs else keys xs ++ [k] := by
  unfold keys
  rw [List.map_append, List.eraseDups_append]
  by_cases h : k ∈ xs.map Prod.fst
  · have hgone : ([k].removeAll (xs.map Prod.fst)) = [] := by simp [List.removeAll, h]
    rw [List.map_singleton, hgone, if_pos (List.mem_eraseDups.mpr h)]
    exact List.append_nil _
  · have hstays : ([k].removeAll (xs.map Prod.fst)) = [k] := by simp [List.removeAll, h]
    rw [List.map_singleton, hstays, if_neg fun hk => h (List.mem_eraseDups.mp hk)]
    rfl

/-- One more element of a key that has a group. -/
theorem group_snoc_mem {xs : List (κ × α)} {k : κ} (h : k ∈ keys xs) (a : α) :
    group (xs ++ [(k, a)]) = (group xs).map fun g => if g.1 = k then (g.1, g.2 ++ [a]) else g := by
  unfold group
  rw [keys_snoc, if_pos h, List.map_map]
  apply List.map_congr_left
  intro j _
  show (j, members j (xs ++ [(k, a)])) =
    if j = k then (j, members j xs ++ [a]) else (j, members j xs)
  rw [members_snoc]
  by_cases hj : j = k
  · rw [if_pos hj, if_pos hj.symm]
  · rw [if_neg hj, if_neg (Ne.symm hj), List.append_nil]

/-- The first element of its key. -/
theorem group_snoc_new {xs : List (κ × α)} {k : κ} (h : k ∉ keys xs) (a : α) :
    group (xs ++ [(k, a)]) = group xs ++ [(k, [a])] := by
  unfold group
  rw [keys_snoc, if_neg h, List.map_append, List.map_singleton, members_snoc, if_pos rfl,
    members_of_not_mem h]
  refine congrArg (· ++ [(k, [a])]) (List.map_congr_left fun j hj => ?_)
  have hne : k ≠ j := fun hk => h (hk ▸ hj)
  rw [members_snoc, if_neg hne, List.append_nil]

theorem nodup_keys (xs : List (κ × α)) : (keys xs).Nodup := by
  induction xs using List.reverseRec with
  | nil => exact List.nodup_nil
  | append_singleton xs x ih =>
      rw [keys_snoc]
      by_cases h : x.1 ∈ keys xs
      · rwa [if_pos h]
      · rw [if_neg h]
        rw [← List.concat_eq_append]
        exact ih.concat h

/-- The group of a key. -/
theorem flatMap_filter_group (xs : List (κ × α)) (k : κ) :
    ((group xs).filter fun g => decide (g.1 = k)).flatMap Prod.snd = members k xs := by
  have hnodup := nodup_keys xs
  have hall : ∀ ks : List κ, ks.Nodup →
      ((ks.map fun j => (j, members j xs)).filter fun g => decide (g.1 = k)).flatMap Prod.snd =
        if k ∈ ks then members k xs else [] := by
    intro ks
    induction ks with
    | nil => exact fun _ => rfl
    | cons j ks ih =>
        intro hks
        obtain ⟨hj, hks⟩ := List.nodup_cons.mp hks
        rw [List.map_cons, List.filter_cons]
        by_cases hjk : j = k
        · subst hjk
          rw [if_pos (decide_eq_true rfl), List.flatMap_cons, ih hks, if_neg hj,
            if_pos List.mem_cons_self, List.append_nil]
        · rw [if_neg (by simpa using hjk), ih hks]
          simp [Ne.symm hjk]
  unfold group
  rw [hall (keys xs) hnodup]
  by_cases hk : k ∈ keys xs
  · rw [if_pos hk]
  · rw [if_neg hk, members_of_not_mem hk]

/-- The groups together hold every element once. -/
theorem flatMap_group_perm (xs : List (κ × α)) :
    ((group xs).flatMap Prod.snd).Perm (xs.map Prod.snd) := by
  induction xs using List.reverseRec with
  | nil => exact List.Perm.refl _
  | append_singleton xs x ih =>
      obtain ⟨k, a⟩ := x
      rw [List.map_append, List.map_singleton]
      by_cases h : k ∈ keys xs
      · -- the group of `k` is the one that grows
        obtain ⟨pre, post, hsplit⟩ := List.append_of_mem h
        have hnodup := nodup_keys xs
        rw [hsplit] at hnodup
        have hpre : ∀ j ∈ pre, j ≠ k := by
          intro j hj he
          have hdisj := (List.nodup_append.mp hnodup).2.2 j hj k List.mem_cons_self
          exact hdisj he
        have hpost : ∀ j ∈ post, j ≠ k := by
          intro j hj he
          exact (List.nodup_cons.mp (List.nodup_append.mp hnodup).2.1).1 (he ▸ hj)
        have hsame : ∀ js : List κ, (∀ j ∈ js, j ≠ k) →
            js.flatMap (fun j => members j (xs ++ [(k, a)])) =
              js.flatMap fun j => members j xs := by
          intro js hjs
          apply List.flatMap_congr
          intro j hj
          rw [members_snoc, if_neg (Ne.symm (hjs j hj)), List.append_nil]
        have hold : (group xs).flatMap Prod.snd =
            pre.flatMap (fun j => members j xs) ++
              (members k xs ++ post.flatMap fun j => members j xs) := by
          unfold group
          rw [List.flatMap_map, hsplit, List.flatMap_append, List.flatMap_cons]
        have hnew : (group (xs ++ [(k, a)])).flatMap Prod.snd =
            pre.flatMap (fun j => members j xs) ++
              (members k xs ++ ([a] ++ post.flatMap fun j => members j xs)) := by
          unfold group
          rw [keys_snoc, if_pos h, List.flatMap_map, hsplit, List.flatMap_append,
            List.flatMap_cons, hsame pre hpre, hsame post hpost, members_snoc, if_pos rfl,
            List.append_assoc]
        rw [hnew]
        refine (((List.perm_append_comm.append_left _).append_left _).trans ?_).trans
          (ih.append_right [a])
        rw [hold]
        simp only [List.append_assoc]
        exact List.Perm.refl _
      · rw [group_snoc_new h, List.flatMap_append]
        exact ih.append_right [a]

end Grouping
