import Mathlib.Data.List.Basic
import Mathlib.Logic.Function.Basic

/-!
# Walks over a row of places

A walk goes over the places `0 .. n - 1` again and again, either from the first to the
last each time, or up and down, with the turning points visited twice.  It visits every
place within `2 * n` steps, and if the places that are free take turns in the order of
the walk, none of them gets more than one turn ahead of another.
-/

namespace RoundRobin

structure Walk where
  cur : Nat
  up : Bool
  deriving DecidableEq

/-- The place after the current one; `bounce` walks go up and down. -/
def Walk.next (n : Nat) (bounce : Bool) (w : Walk) : Walk :=
  if w.up then
    if w.cur = n - 1 then
      if bounce then { w with up := false } else { w with cur := 0 }
    else { w with cur := w.cur + 1 }
  else
    if w.cur = 0 then { w with up := true } else { w with cur := w.cur - 1 }

/-- The first free place among those that the next `fuel` steps visit. -/
def firstFree (n : Nat) (bounce : Bool) (free : Nat → Bool) : Nat → Walk → Option Nat × Walk
  | 0, w => (none, w)
  | fuel + 1, w =>
    if free w.cur then (some w.cur, w.next n bounce)
    else firstFree n bounce free fuel (w.next n bounce)

variable {n : Nat} {bounce : Bool} {w : Walk} {i : Nat}

theorem next_lt (h : w.cur < n) : (w.next n bounce).cur < n := by
  unfold Walk.next
  cases w.up with
  | true =>
      rw [if_pos rfl]
      by_cases hlast : w.cur = n - 1
      · rw [if_pos hlast]
        cases bounce with
        | true => exact h
        | false => exact Nat.zero_lt_of_lt h
      · rw [if_neg hlast]
        show w.cur + 1 < n
        omega
  | false =>
      rw [if_neg Bool.false_ne_true]
      by_cases hfirst : w.cur = 0
      · rw [if_pos hfirst]
        exact h
      · rw [if_neg hfirst]
        show w.cur - 1 < n
        omega

/-! ### Every place is visited -/

/-- Steps to the next visit of `i`. -/
def Walk.dist (n : Nat) (bounce : Bool) (w : Walk) (i : Nat) : Nat :=
  if w.up then
    if w.cur ≤ i then i - w.cur
    else if bounce then (n - 1 - w.cur) + 1 + (n - 1 - i) else n - w.cur + i
  else
    if i ≤ w.cur then w.cur - i else w.cur + 1 + i

theorem dist_lt (h : w.cur < n) (hi : i < n) : w.dist n bounce i < 2 * n := by
  unfold Walk.dist
  cases w.up <;> cases bounce <;> simp only [Bool.false_eq_true, if_true, if_false] <;>
    split <;> omega

theorem dist_lt_of_up (hup : w.up = true) (h : w.cur < n) (hi : i < n) :
    w.dist n false i < n := by
  unfold Walk.dist
  rw [hup]
  simp only [Bool.false_eq_true, if_true, if_false]
  split <;> omega

theorem dist_next (h : w.cur < n) (hi : i < n) (hne : w.cur ≠ i) :
    (w.next n bounce).dist n bounce i + 1 = w.dist n bounce i := by
  obtain ⟨cur, up⟩ := w
  dsimp only at h hne
  unfold Walk.next Walk.dist
  cases up with
  | true =>
      by_cases hlast : cur = n - 1
      · cases bounce with
        | true =>
            simp only [hlast, if_true, Bool.false_eq_true, if_false]
            split <;> split <;> omega
        | false =>
            simp only [hlast, if_true, Bool.false_eq_true, if_false]
            split <;> split <;> omega
      · simp only [hlast, if_true, if_false]
        by_cases hle : cur ≤ i
        · rw [if_pos (by omega), if_pos hle]
          omega
        · rw [if_neg (by omega), if_neg hle]
          split <;> omega
  | false =>
      by_cases hfirst : cur = 0
      · simp only [hfirst, if_true, Bool.false_eq_true, if_false]
        split <;> split <;> omega
      · simp only [hfirst, Bool.false_eq_true, if_false]
        split <;> split <;> omega

theorem exists_firstFree {free : Nat → Bool} (hi : i < n) (hfree : free i = true) :
    ∀ {fuel : Nat} {w : Walk}, w.cur < n → w.dist n bounce i < fuel →
      ∃ j w', firstFree n bounce free fuel w = (some j, w') := by
  intro fuel
  induction fuel with
  | zero =>
      intro w _ hdist
      omega
  | succ fuel ih =>
      intro w hw hdist
      unfold firstFree
      by_cases hcur : free w.cur = true
      · rw [if_pos hcur]
        exact ⟨_, _, rfl⟩
      · rw [if_neg hcur]
        have hne : w.cur ≠ i := fun he => hcur (he ▸ hfree)
        have hstep : (w.next n bounce).dist n bounce i + 1 = w.dist n bounce i :=
          dist_next hw hi hne
        exact ih (next_lt hw) (by omega)

/-- What a successful search finds, and where it leaves the walk. -/
theorem firstFree_some {free : Nat → Bool} {P : Walk → Prop}
    (hskip : ∀ w, P w → w.cur < n → free w.cur = false → P (w.next n bounce)) :
    ∀ {fuel : Nat} {w w' : Walk} {j : Nat}, P w → w.cur < n →
      firstFree n bounce free fuel w = (some j, w') →
        ∃ v, P v ∧ v.cur = j ∧ j < n ∧ free j = true ∧ w' = v.next n bounce := by
  intro fuel
  induction fuel with
  | zero =>
      intro w w' j _ _ h
      cases h
  | succ fuel ih =>
      intro w w' j hP hw h
      unfold firstFree at h
      by_cases hcur : free w.cur = true
      · rw [if_pos hcur] at h
        obtain ⟨hj, hw'⟩ := Prod.mk.inj h
        obtain rfl := Option.some.inj hj
        exact ⟨w, hP, rfl, hw, hcur, hw'.symm⟩
      · rw [if_neg hcur] at h
        exact ih (hskip w hP hw (Bool.not_eq_true _ ▸ hcur)) (next_lt hw) h

/-! ### Turns -/

/-- The place has been visited since the walk was last at a turning point. -/
def Walk.passed (w : Walk) (i : Nat) : Prop := if w.up then i < w.cur else w.cur < i

instance (w : Walk) (i : Nat) : Decidable (w.passed i) :=
  inferInstanceAs (Decidable (if w.up then i < w.cur else w.cur < i))

/-- Each free place has had `base` turns, and one more where the walk has passed. -/
def Even (n : Nat) (free : Nat → Bool) (turns : Nat → Nat) (w : Walk) : Prop :=
  ∃ base, ∀ i < n, free i = true → turns i = base + if w.passed i then 1 else 0

theorem not_passed_cur (w : Walk) : ¬ w.passed w.cur := by
  unfold Walk.passed
  cases w.up <;> simp

/-- A step passes the current place, or turns after it has passed all places. -/
theorem passed_next (bounce : Bool) (h : w.cur < n) :
    (∀ i < n, (w.next n bounce).passed i ↔ w.passed i ∨ i = w.cur) ∨
      ∀ i < n, (w.passed i ↔ i ≠ w.cur) ∧ ¬ (w.next n bounce).passed i := by
  obtain ⟨cur, up⟩ := w
  dsimp only at h
  unfold Walk.next Walk.passed
  cases up with
  | true =>
      by_cases hlast : cur = n - 1
      · right
        intro i hi
        cases bounce with
        | true =>
            simp only [hlast, if_true, Bool.false_eq_true, if_false]
            omega
        | false =>
            simp only [hlast, if_true, Bool.false_eq_true, if_false]
            omega
      · left
        intro i hi
        simp only [hlast, if_true, if_false]
        omega
  | false =>
      by_cases hfirst : cur = 0
      · right
        intro i hi
        simp only [hfirst, if_true, Bool.false_eq_true, if_false]
        omega
      · left
        intro i hi
        simp only [hfirst, Bool.false_eq_true, if_false]
        omega

theorem Even.next {free : Nat → Bool} {turns turns' : Nat → Nat} (bounce : Bool)
    (h : Even n free turns w) (hw : w.cur < n)
    (hturns : ∀ i < n, free i = true → turns' i = turns i + if i = w.cur then 1 else 0) :
    Even n free turns' (w.next n bounce) := by
  obtain ⟨base, hbase⟩ := h
  have hcur := not_passed_cur w
  rcases passed_next bounce hw with hpass | hturn
  · refine ⟨base, fun i hi hfree => ?_⟩
    rw [hturns i hi hfree, hbase i hi hfree]
    by_cases hic : i = w.cur
    · have hnext := (hpass i hi).mpr (Or.inr hic)
      have hnot : ¬ w.passed i := hic ▸ hcur
      rw [if_pos hic, if_neg hnot, if_pos hnext]
    · simp only [hpass i hi, hic, or_false, if_false, Nat.add_zero]
  · refine ⟨base + 1, fun i hi hfree => ?_⟩
    obtain ⟨hpassed, hnot⟩ := hturn i hi
    rw [hturns i hi hfree, hbase i hi hfree, if_neg hnot]
    by_cases hic : i = w.cur
    · rw [if_pos hic, if_neg fun hp => hpassed.mp hp hic]
    · rw [if_neg hic, if_pos (hpassed.mpr hic)]

theorem Even.congr {free : Nat → Bool} {turns turns' : Nat → Nat} (h : Even n free turns w)
    (hturns : ∀ i < n, free i = true → turns' i = turns i) : Even n free turns' w := by
  obtain ⟨base, hbase⟩ := h
  refine ⟨base, fun i hi hfree => ?_⟩
  rw [hturns i hi hfree]
  exact hbase i hi hfree

theorem Even.skip {free : Nat → Bool} {turns : Nat → Nat} (bounce : Bool)
    (h : Even n free turns w) (hw : w.cur < n) (hcur : free w.cur = false) :
    Even n free turns (w.next n bounce) := by
  apply h.next bounce hw
  intro i _ hfree
  have hne : i ≠ w.cur := by
    intro he
    rw [he, hcur] at hfree
    cases hfree
  rw [if_neg hne, Nat.add_zero]

/-- The place that the search finds takes its turn. -/
theorem Even.firstFree {free : Nat → Bool} {turns : Nat → Nat} {fuel j : Nat} {w' : Walk}
    (h : Even n free turns w) (hw : w.cur < n)
    (hfound : firstFree n bounce free fuel w = (some j, w')) :
    j < n ∧ free j = true ∧ w'.cur < n ∧
      Even n free (Function.update turns j (turns j + 1)) w' := by
  obtain ⟨v, hv, hvj, hj, hfree, hv'⟩ :=
    firstFree_some (fun w h hw hcur => h.skip bounce hw hcur) h hw hfound
  subst hvj hv'
  refine ⟨hj, hfree, next_lt hj, hv.next bounce hj ?_⟩
  intro i _ _
  by_cases hi : i = v.cur
  · rw [hi, Function.update_self, if_pos rfl]
  · rw [Function.update_of_ne hi, if_neg hi, Nat.add_zero]

theorem Even.le {free : Nat → Bool} {turns : Nat → Nat} (h : Even n free turns w) {i j : Nat}
    (hi : i < n) (hj : j < n) (hfi : free i = true) (hfj : free j = true) :
    turns i ≤ turns j + 1 := by
  obtain ⟨base, hbase⟩ := h
  rw [hbase i hi hfi, hbase j hj hfj]
  split <;> split <;> omega

/-- Nobody has had a turn before the first step. -/
theorem even_start (n : Nat) (free : Nat → Bool) :
    Even n free (fun _ => 0) { cur := 0, up := true } := by
  refine ⟨0, fun i _ _ => ?_⟩
  unfold Walk.passed
  simp

end RoundRobin
