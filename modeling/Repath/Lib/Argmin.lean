import Mathlib.Order.Monotone.Basic
import Mathlib.Order.Bounds.Basic
import Mathlib.Order.Fin.Basic

/-!
# First minimum of a finite family

`IsFirstMin f p` says that `p` holds the least value of `f` and that no smaller
index holds it.  The index is unique, and an upward scan that moves only on a
strictly smaller entry computes it.

A rotation cuts a linear order at `c` and puts the part below `c` above the
rest, keeping the order inside either part.  Subtraction modulo a power of two
is one.  The first minimum survives a rotation exactly when the cut leaves all
entries on one side.
-/

namespace Argmin

variable {ι α β : Type*} [LinearOrder ι] [LinearOrder α] [LinearOrder β]

/-- `p` is the lowest index that holds the minimum of `f`. -/
structure IsFirstMin (f : ι → α) (p : ι) : Prop where
  le : ∀ i, f p ≤ f i
  lt : ∀ i, i < p → f p < f i

namespace IsFirstMin

theorem unique {f : ι → α} {p q : ι} (hp : IsFirstMin f p) (hq : IsFirstMin f q) :
    p = q := by
  rcases lt_trichotomy p q with h | h | h
  · exact absurd (hp.le q) (not_le.mpr (hq.lt p h))
  · exact h
  · exact absurd (hq.le p) (not_le.mpr (hp.lt q h))

theorem comp_of_strictMonoOn {f : ι → α} {g : α → β} {s : Set α} {p : ι}
    (hp : IsFirstMin f p) (hg : StrictMonoOn g s) (hs : ∀ i, f i ∈ s) :
    IsFirstMin (g ∘ f) p where
  le i := hg.monotoneOn (hs p) (hs i) (hp.le i)
  lt i hi := hg (hs p) (hs i) (hp.lt i hi)

/-- Entries outside `M` all hold `top`.  The first minimum lies in `M` exactly
when `M` is everything, or when some entry of `M` beats `top`, by its value or
by standing in front of every entry outside `M`. -/
theorem mem_iff_of_const {f : ι → α} {p : ι} {M : Set ι} {top : α}
    (hp : IsFirstMin f p) (htop : ∀ i, i ∉ M → f i = top) :
    p ∈ M ↔ (∀ i, i ∈ M) ∨
      ∃ q ∈ M, f q < top ∨ (f q = top ∧ ∀ u, u ∉ M → q < u) := by
  constructor
  · intro hpM
    by_cases hall : ∀ i, i ∈ M
    · exact Or.inl hall
    · push Not at hall
      obtain ⟨v, hv⟩ := hall
      have hle : f p ≤ top := htop v hv ▸ hp.le v
      refine Or.inr ⟨p, hpM, ?_⟩
      rcases hle.lt_or_eq with hlt | heq
      · exact Or.inl hlt
      · refine Or.inr ⟨heq, fun u hu => ?_⟩
        rcases lt_trichotomy p u with h | h | h
        · exact h
        · exact absurd (h ▸ hpM) hu
        · have hlt := hp.lt u h
          rw [htop u hu, heq] at hlt
          exact absurd hlt (lt_irrefl top)
  · intro h
    rcases h with hall | hbeats
    · exact hall p
    · obtain ⟨q, hqM, hq⟩ := hbeats
      by_contra hpM
      have hptop := htop p hpM
      rcases hq with hlt | ⟨heq, hfront⟩
      · exact absurd (hp.le q) (not_le.mpr (hptop ▸ hlt))
      · have hlt := hp.lt q (hfront p hpM)
        rw [hptop, heq] at hlt
        exact absurd hlt (lt_irrefl top)

end IsFirstMin

/-- The first minimum is the least of the indices whose entry is at most every
entry. -/
theorem isFirstMin_iff_isLeast {f : ι → α} {p : ι} :
    IsFirstMin f p ↔ IsLeast {i | ∀ j, f i ≤ f j} p := by
  constructor
  · intro hp
    refine ⟨hp.le, fun i hi => ?_⟩
    by_contra hlt
    exact absurd (hi p) (not_le.mpr (hp.lt i (not_le.mp hlt)))
  · intro hp
    refine ⟨hp.1, fun i hi => ?_⟩
    by_contra hge
    have hmin : ∀ j, f i ≤ f j := fun j => (not_lt.mp hge).trans (hp.1 j)
    exact absurd (hp.2 hmin) (not_le.mpr hi)

/-- The index an upward scan holds after it has looked at the entries `0 .. n`. -/
def scan (f : Nat → α) : Nat → Nat
  | 0 => 0
  | n + 1 => if f (n + 1) < f (scan f n) then n + 1 else scan f n

theorem scan_le (f : Nat → α) (n : Nat) : scan f n ≤ n := by
  induction n with
  | zero => exact Nat.le_refl 0
  | succ n ih =>
      rw [scan]
      split
      · exact Nat.le_refl _
      · exact Nat.le_succ_of_le ih

/-- The scan looks at no entry past `n`. -/
theorem scan_congr {f g : Nat → α} {n : Nat} (h : ∀ i ≤ n, f i = g i) : scan f n = scan g n := by
  induction n with
  | zero => rfl
  | succ n ih =>
      have hprefix : scan f n = scan g n := ih fun i hi => h i (Nat.le_succ_of_le hi)
      have hheld := h (scan g n) (Nat.le_succ_of_le (scan_le g n))
      rw [scan, scan, hprefix, h (n + 1) (Nat.le_refl _), hheld]

theorem scan_min (f : Nat → α) (n : Nat) : ∀ i ≤ n, f (scan f n) ≤ f i := by
  induction n with
  | zero =>
      intro i hi
      obtain rfl : i = 0 := by omega
      exact le_refl _
  | succ n ih =>
      intro i hi
      rw [scan]
      split
      · rename_i hlt
        by_cases hin : i ≤ n
        · exact hlt.le.trans (ih i hin)
        · obtain rfl : i = n + 1 := by omega
          exact le_refl _
      · rename_i hge
        by_cases hin : i ≤ n
        · exact ih i hin
        · obtain rfl : i = n + 1 := by omega
          exact not_lt.mp hge

theorem scan_first (f : Nat → α) (n : Nat) : ∀ i < scan f n, f (scan f n) < f i := by
  induction n with
  | zero => intro i hi; simp [scan] at hi
  | succ n ih =>
      intro i hi
      rw [scan] at hi ⊢
      split at hi
      · rename_i hlt
        rw [if_pos hlt]
        exact hlt.trans_le (scan_min f n i (by omega))
      · rename_i hge
        rw [if_neg hge]
        exact ih i hi

theorem isFirstMin_scan {n : Nat} (f : Nat → α) (g : Fin (n + 1) → α)
    (hfg : ∀ i : Fin (n + 1), f i = g i) :
    IsFirstMin g ⟨scan f n, Nat.lt_succ_of_le (scan_le f n)⟩ where
  le i := by
    rw [← hfg, ← hfg]
    exact scan_min f n i (Nat.le_of_lt_succ i.isLt)
  lt i hi := by
    rw [← hfg, ← hfg]
    exact scan_first f n i hi

/-- `g` keeps the order on either side of the cut `c` and moves everything below
the cut above everything else. -/
structure IsRotation (c : α) (g : α → β) : Prop where
  above : StrictMonoOn g {x | c ≤ x}
  below : StrictMonoOn g {x | x < c}
  cross : ∀ x y, c ≤ x → y < c → g x < g y

/-- The first minimum is the same before and after a rotation exactly when the
cut separates no two entries. -/
theorem IsRotation.firstMin_eq_iff {c : α} {g : α → β} {f : ι → α} {p q : ι}
    (hg : IsRotation c g) (hp : IsFirstMin f p) (hq : IsFirstMin (g ∘ f) q) :
    p = q ↔ (∀ i, c ≤ f i) ∨ (∀ i, f i < c) := by
  constructor
  · intro hpq
    subst hpq
    by_contra hmix
    push Not at hmix
    obtain ⟨⟨i, hi⟩, ⟨j, hj⟩⟩ := hmix
    -- the minimum sits below the cut, so the rotation lifts it above entry `j`
    have hpc : f p < c := (hp.le i).trans_lt hi
    exact absurd (hq.le j) (not_le.mpr (hg.cross (f j) (f p) hj hpc))
  · intro h
    rcases h with hall | hall
    · exact (hp.comp_of_strictMonoOn hg.above hall).unique hq
    · exact (hp.comp_of_strictMonoOn hg.below hall).unique hq

end Argmin
