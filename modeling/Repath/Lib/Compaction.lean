import Mathlib.Algebra.BigOperators.Group.List.Basic
import Mathlib.Algebra.GroupWithZero.Nat
import Mathlib.Data.List.Basic

/-!
# In-place compaction of an array

A loop reads the elements of an array in order and stores those it keeps at the
front of the same array.  The write position never passes the read position, so
every element is read before its slot is written, and the front of the array ends
up as the list an out-of-place pass would have returned.

The body threads a state, sees the index of the element and may keep another
element in its place.
-/

namespace Compaction

variable {σ α : Type}

/-- The out-of-place pass over the elements from index `i` on. -/
def kept (body : σ → Nat → α → σ × Option α) : Nat → σ → List α → σ × List α
  | _, s, [] => (s, [])
  | i, s, x :: xs =>
    let r := body s i x
    let rest := kept body (i + 1) r.1 xs
    (rest.1, r.2.toList ++ rest.2)

/-- `n` iterations of the loop, with `i` elements read and `cnt` of them kept. -/
def loop (body : σ → Nat → α → σ × Option α) : Nat → Nat → Nat → σ → List α → σ × Nat × List α
  | 0, _, cnt, s, xs => (s, cnt, xs)
  | n + 1, i, cnt, s, xs =>
    match xs[i]? with
    | none => (s, cnt, xs)
    | some x =>
      match body s i x with
      | (s', none) => loop body n (i + 1) cnt s' xs
      | (s', some y) => loop body n (i + 1) (cnt + 1) s' (xs.set cnt y)

/-- The whole loop: the state it ends in and the elements below the final count. -/
def compact (body : σ → Nat → α → σ × Option α) (s : σ) (xs : List α) : σ × List α :=
  let r := loop body xs.length 0 0 s xs
  (r.1, r.2.2.take r.2.1)

variable {body : σ → Nat → α → σ × Option α}

theorem take_succ_set {xs : List α} {cnt : Nat} (h : cnt < xs.length) (y : α) :
    (xs.set cnt y).take (cnt + 1) = xs.take cnt ++ [y] := by
  rw [List.take_add_one, List.getElem?_set_self h, List.take_set_of_le (Nat.le_refl cnt)]
  rfl

theorem loop_eq (n : Nat) : ∀ {i cnt : Nat} {s : σ} {xs : List α}, cnt ≤ i → i + n = xs.length →
    loop body n i cnt s xs =
      ((kept body i s (xs.drop i)).1, cnt + (kept body i s (xs.drop i)).2.length,
        xs.take cnt ++ (kept body i s (xs.drop i)).2 ++
          xs.drop (cnt + (kept body i s (xs.drop i)).2.length)) := by
  induction n with
  | zero =>
      intro i cnt s xs hcnt hlen
      rw [List.drop_of_length_le (by omega)]
      simp [loop, kept]
  | succ n ih =>
      intro i cnt s xs hcnt hlen
      have hi : i < xs.length := by omega
      have hx : xs[i]? = some xs[i] := List.getElem?_eq_getElem hi
      rw [List.drop_eq_getElem_cons hi, kept, loop, hx]
      dsimp only
      rcases hbody : body s i xs[i] with ⟨s', _ | y⟩
      · dsimp only
        rw [ih (by omega) (by omega)]
        simp
      · dsimp only
        rw [ih (by omega) (by rw [List.length_set]; omega), take_succ_set (by omega)]
        rw [List.drop_set_of_lt (by omega), List.drop_set_of_lt (by omega)]
        simp only [Option.toList_some, List.length_cons, List.append_assoc, List.cons_append,
          List.nil_append, Prod.mk.injEq, true_and]
        rw [show cnt + 1 + (kept body (i + 1) s' (xs.drop (i + 1))).2.length =
          cnt + ((kept body (i + 1) s' (xs.drop (i + 1))).2.length + 1) by omega]
        exact ⟨rfl, rfl⟩

/-- The loop in place agrees with the pass out of place. -/
theorem compact_eq_kept (s : σ) (xs : List α) : compact body s xs = kept body 0 s xs := by
  rw [compact, loop_eq xs.length (Nat.le_refl 0) (Nat.zero_add _)]
  simp

theorem kept_append (i : Nat) (s : σ) (xs ys : List α) :
    kept body i s (xs ++ ys) =
      ((kept body (i + xs.length) (kept body i s xs).1 ys).1,
        (kept body i s xs).2 ++ (kept body (i + xs.length) (kept body i s xs).1 ys).2) := by
  induction xs generalizing i s with
  | nil => simp [kept]
  | cons x xs ih =>
      simp only [List.cons_append, kept, ih, List.length_cons, List.append_assoc]
      rw [show i + (xs.length + 1) = i + 1 + xs.length by omega]

/-- What every iteration preserves holds at the end. -/
theorem kept_invariant {Q : σ → Prop} (hbody : ∀ s i x, Q s → Q (body s i x).1) (i : Nat) {s : σ}
    (xs : List α) (hs : Q s) : Q (kept body i s xs).1 := by
  induction xs generalizing i s with
  | nil => exact hs
  | cons x xs ih => exact ih (i + 1) (hbody s i x hs)

/-- The elements at the indexes that `p` selects, the first of them having index `i`. -/
def pick (p : Nat → Bool) : Nat → List α → List α
  | _, [] => []
  | i, x :: xs => if p i then x :: pick p (i + 1) xs else pick p (i + 1) xs

/-- A body that decides by the index alone. -/
theorem kept_pick {p : Nat → Bool}
    (hbody : ∀ s i x, (body s i x).2 = if p i then some x else none) (i : Nat) (s : σ)
    (xs : List α) : (kept body i s xs).2 = pick p i xs := by
  induction xs generalizing i s with
  | nil => rfl
  | cons x xs ih =>
      rw [kept, pick]
      dsimp only
      rw [hbody, ih]
      by_cases hp : p i
      · rw [if_pos hp, if_pos hp]
        rfl
      · rw [if_neg hp, if_neg hp]
        rfl

theorem pick_succ (p : Nat → Bool) (i : Nat) (xs : List α) :
    pick p (i + 1) xs = pick (fun j => p (j + 1)) i xs := by
  induction xs generalizing i with
  | nil => rfl
  | cons x xs ih => rw [pick, pick, ih]

theorem pick_congr {p q : Nat → Bool} (i : Nat) (xs : List α)
    (h : ∀ j, i ≤ j → j < i + xs.length → p j = q j) : pick p i xs = pick q i xs := by
  induction xs generalizing i with
  | nil => rfl
  | cons x xs ih =>
      have hrest := ih (i + 1) fun j hj hlt =>
        h j (by omega) (by rw [List.length_cons]; omega)
      rw [pick, pick, h i (Nat.le_refl i) (by rw [List.length_cons]; omega), hrest]

theorem pick_true {p : Nat → Bool} (i : Nat) (xs : List α)
    (h : ∀ j, i ≤ j → j < i + xs.length → p j = true) : pick p i xs = xs := by
  induction xs generalizing i with
  | nil => rfl
  | cons x xs ih =>
      rw [pick, if_pos (h i (Nat.le_refl i) (by rw [List.length_cons]; omega))]
      rw [ih (i + 1) fun j hj hlt => h j (by omega) (by rw [List.length_cons]; omega)]

theorem pick_false (i : Nat) (xs : List α) : pick (fun _ => false) i xs = [] := by
  induction xs generalizing i with
  | nil => rfl
  | cons x xs ih => exact ih (i + 1)

theorem pick_lt (k i : Nat) (xs : List α) :
    pick (fun j => decide (j < k)) i xs = xs.take (k - i) := by
  induction xs generalizing i with
  | nil => rw [pick, List.take_nil]
  | cons x xs ih =>
      rw [pick, ih]
      by_cases hi : i < k
      · rw [if_pos (decide_eq_true hi), show k - i = (k - (i + 1)) + 1 by omega,
          List.take_succ_cons]
      · rw [if_neg (by simpa using hi), show k - i = 0 by omega, show k - (i + 1) = 0 by omega]
        rfl

/-- Picking more of the elements makes no sum over them smaller. -/
theorem sum_pick_mono {p q : Nat → Bool} (f : α → Nat) (i : Nat) (xs : List α)
    (h : ∀ j, i ≤ j → j < i + xs.length → p j = true → q j = true) :
    ((pick p i xs).map f).sum ≤ ((pick q i xs).map f).sum := by
  induction xs generalizing i with
  | nil => exact Nat.le_refl 0
  | cons x xs ih =>
      have hrest := ih (i + 1) fun j hj hlt =>
        h j (by omega) (by rw [List.length_cons]; omega)
      have hhere := h i (Nat.le_refl i) (by rw [List.length_cons]; omega)
      rw [pick, pick]
      by_cases hp : p i
      · rw [if_pos hp, if_pos (hhere hp)]
        simpa using hrest
      · rw [if_neg hp]
        by_cases hq : q i
        · rw [if_pos hq, List.map_cons, List.sum_cons]
          omega
        · rw [if_neg hq]
          exact hrest

end Compaction
