import Mathlib.Data.List.Basic

/-!
# One more element at the end of a list
-/

namespace Snoc

variable {α : Type}

theorem getElem?_snoc_iff {xs : List α} {x y : α} {i : Nat} :
    (xs ++ [x])[i]? = some y ↔ xs[i]? = some y ∨ (i = xs.length ∧ y = x) := by
  rw [List.getElem?_append]
  by_cases hi : i < xs.length
  · rw [if_pos hi]
    constructor
    · exact Or.inl
    · intro h
      rcases h with h | ⟨h, -⟩
      · exact h
      · exact absurd h (Nat.ne_of_lt hi)
  · rw [if_neg hi]
    constructor
    · intro h
      obtain ⟨hlen, hx⟩ := List.getElem?_eq_some_iff.mp h
      rw [List.length_singleton] at hlen
      rw [List.getElem_singleton] at hx
      exact Or.inr ⟨by omega, hx.symm⟩
    · intro h
      rcases h with h | ⟨rfl, rfl⟩
      · exact absurd (List.getElem?_eq_some_iff.mp h).1 hi
      · rw [Nat.sub_self, List.getElem?_cons_zero]

end Snoc
