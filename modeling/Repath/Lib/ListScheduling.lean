import Mathlib.Logic.Function.Basic
import Mathlib.Data.List.Basic

/-!
# List scheduling

Jobs are given, the longest first, each to a machine that has the least to do.  Then no
machine could do better by handing one of its jobs to another machine: without the job
it has no more to do than any other.
-/

namespace ListScheduling

variable {ι : Type}

/-- Without any one of its jobs a machine of `M` has no more to do than another. -/
def Balanced (M : ι → Prop) (load : ι → Nat) (jobs : ι → List Nat) : Prop :=
  ∀ i, M i → ∀ c ∈ jobs i, 0 < c → ∀ j, M j → load i ≤ load j + c

variable {M : ι → Prop} {load load' : ι → Nat} {jobs jobs' : ι → List Nat}

theorem balanced_empty (M : ι → Prop) (load : ι → Nat) : Balanced M load fun _ => [] := by
  intro i _ c hc
  cases hc

theorem Balanced.congr (h : Balanced M load jobs) (hload : ∀ i, M i → load' i = load i)
    (hjobs : ∀ i, M i → jobs' i = jobs i) : Balanced M load' jobs' := by
  intro i hi c hc hpos j hj
  rw [hjobs i hi] at hc
  rw [hload i hi, hload j hj]
  exact h i hi c hc hpos j hj

variable [DecidableEq ι] in
/-- A job that is no longer than those before it goes to a least loaded machine. -/
theorem Balanced.assign (h : Balanced M load jobs) {i : ι} {c : Nat}
    (hleast : 0 < c → ∀ j, M j → load i ≤ load j)
    (hshort : ∀ k, M k → ∀ c' ∈ jobs k, c ≤ c') :
    Balanced M (Function.update load i (load i + c)) (Function.update jobs i (jobs i ++ [c])) := by
  have hmore : ∀ j, load j ≤ Function.update load i (load i + c) j := by
    intro j
    by_cases hj : j = i
    · rw [hj, Function.update_self]
      exact Nat.le_add_right (load i) c
    · exact Nat.le_of_eq (Function.update_of_ne hj _ load).symm
  intro k hk c' hc' hpos j hj
  have hj' := hmore j
  by_cases hki : k = i
  · subst hki
    rw [Function.update_self] at hc' ⊢
    rcases List.mem_append.mp hc' with hold | hnew
    · by_cases hc : 0 < c
      · have hmin := hleast hc j hj
        have hle := hshort k hk c' hold
        omega
      · have hmin := h k hk c' hold hpos j hj
        omega
    · obtain rfl := List.mem_singleton.mp hnew
      have hmin := hleast hpos j hj
      omega
  · rw [Function.update_of_ne hki] at hc' ⊢
    have hmin := h k hk c' hc' hpos j hj
    omega

end ListScheduling
