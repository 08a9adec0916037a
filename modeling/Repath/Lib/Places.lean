import Mathlib.Data.List.Nodup
import Mathlib.Data.List.Perm.Subperm

/-!
# Conservation of tokens

The places of a system, as one list, hold every token of a universe exactly once.
A step moves tokens between places, takes some in and loses some.  It keeps the
count exactly when it loses of each token as many as it takes in.
-/

namespace Places

variable {α : Type} [DecidableEq α]

def ExactlyOnce (u places : List α) : Prop := ∀ a ∈ u, places.count a = 1

theorem ExactlyOnce.of_perm {u before after : List α} (h : ExactlyOnce u before)
    (hmove : after.Perm before) : ExactlyOnce u after := by
  intro a ha
  rw [hmove.count_eq]
  exact h a ha

theorem exactlyOnce_of_nodup {u : List α} (h : u.Nodup) : ExactlyOnce u u := by
  intro a ha
  rw [h.count, if_pos ha]

/-- A token leaves the place `xs`. -/
theorem count_erase_add {xs : List α} {a : α} (h : a ∈ xs) (b : α) :
    (xs.erase a).count b + [a].count b = xs.count b := by
  have hcount := (List.perm_cons_erase h).count_eq b
  rw [← List.singleton_append, List.count_append] at hcount
  omega

theorem exactlyOnce_iff_of_moved {u before after gained lost : List α}
    (h : ExactlyOnce u before) (hmove : (after ++ lost).Perm (before ++ gained)) :
    ExactlyOnce u after ↔ ∀ a ∈ u, lost.count a = gained.count a := by
  have hcount : ∀ a ∈ u, after.count a + lost.count a = 1 + gained.count a := by
    intro a ha
    have hperm := hmove.count_eq a
    rw [List.count_append, List.count_append, h a ha] at hperm
    exact hperm
  constructor
  · intro hafter a ha
    have hold := hcount a ha
    rw [hafter a ha] at hold
    omega
  · intro hlost a ha
    have hold := hcount a ha
    rw [hlost a ha] at hold
    omega

/-- A step that only loses tokens keeps the count exactly when it loses none. -/
theorem exactlyOnce_iff_of_lost {u before after lost : List α} (h : ExactlyOnce u before)
    (hmove : (after ++ lost).Perm before) (hlost : ∀ a ∈ lost, a ∈ u) :
    ExactlyOnce u after ↔ lost = [] := by
  have hmove' : (after ++ lost).Perm (before ++ []) := by rwa [List.append_nil]
  rw [exactlyOnce_iff_of_moved h hmove']
  constructor
  · intro hzero
    apply List.eq_nil_iff_forall_not_mem.mpr
    intro a ha
    have hcount := hzero a (hlost a ha)
    rw [List.count_nil] at hcount
    exact List.count_eq_zero.mp hcount ha
  · intro hnil a _
    rw [hnil]

/-- Lists of one length that agree on a universe holding the first are
permutations of each other. -/
theorem perm_of_count_eq {u xs ys : List α} (hsub : ∀ a ∈ xs, a ∈ u)
    (hlen : ys.length ≤ xs.length) (h : ∀ a ∈ u, xs.count a = ys.count a) : xs.Perm ys := by
  apply List.Subperm.perm_of_length_le _ hlen
  apply List.subperm_ext_iff.mpr
  intro a ha
  exact Nat.le_of_eq (h a (hsub a ha))

end Places
