import Mathlib.Data.List.Infix

/-!
# Token buckets

A bucket holds at most `cap` tokens, gains tokens before each arrival and loses
those that the arrival takes.  A sequence of arrivals conforms when no window of
it takes more than a full bucket and what is gained inside the window.

What a policer lets through conforms, and a bucket that starts full serves a
sequence without running dry exactly when the sequence conforms.
-/

namespace TokenBucket

/-- The tokens gained since the arrival before, and those the arrival takes. -/
structure Arrival where
  gain : Nat
  need : Nat

def totalGain : List Arrival → Nat
  | [] => 0
  | a :: as => a.gain + totalGain as

def totalNeed : List Arrival → Nat
  | [] => 0
  | a :: as => a.need + totalNeed as

/-- The first arrival of a window finds a full bucket at best. -/
def Conforms (cap : Nat) (as : List Arrival) : Prop :=
  ∀ pre a w post, as = pre ++ a :: (w ++ post) → a.need + totalNeed w ≤ cap + totalGain w

theorem conforms_nil (cap : Nat) : Conforms cap [] := by
  intro pre a w post h
  exact absurd h (by simp)

theorem conforms_cons {cap : Nat} {a : Arrival} {as : List Arrival} :
    Conforms cap (a :: as) ↔
      (∀ w, w <+: as → a.need + totalNeed w ≤ cap + totalGain w) ∧ Conforms cap as := by
  constructor
  · intro h
    constructor
    · intro w hw
      obtain ⟨post, rfl⟩ := hw
      exact h [] a w post rfl
    · intro pre b w post hsplit
      exact h (a :: pre) b w post (by rw [hsplit]; rfl)
  · intro h pre b w post hsplit
    cases pre with
    | nil =>
        obtain ⟨rfl, rfl⟩ := List.cons.inj hsplit
        exact h.1 w (List.prefix_append w post)
    | cons c pre =>
        obtain ⟨rfl, hrest⟩ := List.cons.inj hsplit
        exact h.2 pre b w post hrest

/-- From one level to another, each arrival having taken no more than was there. -/
inductive Policed (cap : Nat) : Nat → List Arrival → Nat → Prop
  | nil (level : Nat) : Policed cap level [] level
  | cons {level mid last : Nat} {a : Arrival} {as : List Arrival}
      (htake : a.need + mid ≤ min cap (level + a.gain)) (hrest : Policed cap mid as last) :
      Policed cap level (a :: as) last

theorem Policed.total_of_prefix {cap level last : Nat} {as : List Arrival}
    (h : Policed cap level as last) : ∀ w, w <+: as → totalNeed w ≤ level + totalGain w := by
  induction h with
  | nil level =>
      intro w hw
      obtain rfl := List.prefix_nil.mp hw
      exact Nat.zero_le _
  | cons htake _ ih =>
      intro w hw
      cases w with
      | nil => exact Nat.zero_le _
      | cons b w =>
          obtain ⟨rfl, hw'⟩ := List.cons_prefix_cons.mp hw
          have hlater := ih w hw'
          rw [totalNeed, totalGain]
          omega

/-- Whatever level it started from, what was let through conforms. -/
theorem Policed.conforms {cap level last : Nat} {as : List Arrival}
    (h : Policed cap level as last) : Conforms cap as := by
  induction h with
  | nil level => exact conforms_nil cap
  | cons htake hrest ih =>
      apply conforms_cons.mpr
      refine ⟨fun w hw => ?_, ih⟩
      have hlater := hrest.total_of_prefix w hw
      omega

/-- Serve the arrivals in order.  `none` when one of them asks for more than is
there. -/
def serve (cap : Nat) : Nat → List Arrival → Option Nat
  | level, [] => some level
  | level, a :: as =>
    if a.need ≤ min cap (level + a.gain) then serve cap (min cap (level + a.gain) - a.need) as
    else none

theorem serve_isSome_iff {cap level : Nat} {as : List Arrival} :
    (serve cap level as).isSome = true ↔
      (∀ w, w <+: as → totalNeed w ≤ level + totalGain w) ∧ Conforms cap as := by
  induction as generalizing level with
  | nil =>
      refine ⟨fun _ => ⟨fun w hw => ?_, conforms_nil cap⟩, fun _ => rfl⟩
      obtain rfl := List.prefix_nil.mp hw
      exact Nat.zero_le _
  | cons a as ih =>
      rw [serve, conforms_cons]
      by_cases hneed : a.need ≤ min cap (level + a.gain)
      · rw [if_pos hneed, ih]
        constructor
        · intro h
          refine ⟨fun w hw => ?_, fun w hw => ?_, h.2⟩
          · cases w with
            | nil => exact Nat.zero_le _
            | cons b w =>
                obtain ⟨rfl, hw'⟩ := List.cons_prefix_cons.mp hw
                have hlater := h.1 w hw'
                rw [totalNeed, totalGain]
                omega
          · have hlater := h.1 w hw
            omega
        · intro h
          refine ⟨fun w hw => ?_, h.2.2⟩
          have hwhole := h.1 (a :: w) (List.cons_prefix_cons.mpr ⟨rfl, hw⟩)
          have hwindow := h.2.1 w hw
          rw [totalNeed, totalGain] at hwhole
          omega
      · rw [if_neg hneed]
        constructor
        · intro h
          cases h
        · intro h
          have hwhole := h.1 [a] (List.cons_prefix_cons.mpr ⟨rfl, List.nil_prefix⟩)
          have hwindow := h.2.1 [] List.nil_prefix
          simp only [totalNeed, totalGain] at hwhole hwindow
          omega

/-- A bucket that starts full never runs dry exactly on the conforming sequences. -/
theorem serve_full_iff {cap : Nat} {as : List Arrival} :
    (serve cap cap as).isSome = true ↔ Conforms cap as := by
  rw [serve_isSome_iff]
  refine ⟨fun h => h.2, fun h => ⟨fun w hw => ?_, h⟩⟩
  cases w with
  | nil => exact Nat.zero_le _
  | cons a w =>
      obtain ⟨post, rfl⟩ := hw
      have hwindow := h [] a w post rfl
      rw [totalNeed, totalGain]
      omega

theorem serve_cons {cap level : Nat} {a : Arrival} {as : List Arrival}
    (h : (serve cap level (a :: as)).isSome = true) :
    a.need ≤ min cap (level + a.gain) ∧
      (serve cap (min cap (level + a.gain) - a.need) as).isSome = true := by
  rw [serve] at h
  by_cases hneed : a.need ≤ min cap (level + a.gain)
  · rw [if_pos hneed] at h
    exact ⟨hneed, h⟩
  · rw [if_neg hneed] at h
    cases h

end TokenBucket
