import Mathlib.Algebra.BigOperators.Group.List.Basic
import Mathlib.Algebra.GroupWithZero.Nat

/-!
# One's-complement sums of 16-bit words

Words are added with end-around carry.  The sum of words that are not all zero is
the number between 1 and 65535 that agrees with their ordinary sum modulo 65535,
so a word of 65535 counts like a word of 0.
-/

namespace OnesComplement

def add (a b : Nat) : Nat := if a + b < 65536 then a + b else a + b - 65535

def sum (ws : List Nat) : Nat := ws.foldr add 0

/-- What a sum of words comes to when their ordinary sum is `n`. -/
def ofNat (n : Nat) : Nat := if n = 0 then 0 else (n - 1) % 65535 + 1

theorem add_ofNat {w : Nat} (hw : w ≤ 65535) (n : Nat) : add w (ofNat n) = ofNat (w + n) := by
  rw [add, ofNat, ofNat]
  by_cases hn : n = 0
  · subst hn
    rw [if_pos rfl, Nat.add_zero, if_pos (by omega)]
    split <;> omega
  · have hsum : w + n ≠ 0 := by omega
    rw [if_neg hn, if_neg hsum]
    split <;> omega

theorem sum_eq_ofNat {ws : List Nat} (h : ∀ w ∈ ws, w ≤ 65535) : sum ws = ofNat ws.sum := by
  induction ws with
  | nil => rfl
  | cons w ws ih =>
      rw [List.forall_mem_cons] at h
      have hrest : ws.foldr add 0 = ofNat ws.sum := ih h.2
      rw [sum, List.foldr_cons, hrest, add_ofNat h.1, List.sum_cons]

theorem ofNat_eq_max_iff {n : Nat} (hn : 0 < n) : ofNat n = 65535 ↔ n % 65535 = 0 := by
  rw [ofNat, if_neg (by omega)]
  omega

theorem ofNat_eq_ofNat_iff {a b : Nat} (ha : 0 < a) (hb : 0 < b) :
    ofNat a = ofNat b ↔ a % 65535 = b % 65535 := by
  rw [ofNat, ofNat, if_neg (by omega), if_neg (by omega)]
  omega

theorem ofNat_le (n : Nat) : ofNat n ≤ 65535 := by
  rw [ofNat]
  split
  · exact Nat.zero_le _
  · omega

/-- The complement of a sum, with 65535 in the place of 0. -/
def checkWord (ws : List Nat) : Nat := if sum ws = 65535 then 65535 else 65535 - sum ws

theorem ofNat_of_pos {n : Nat} (hn : 0 < n) : ofNat n = (n - 1) % 65535 + 1 := by
  rw [ofNat]
  exact if_neg (by omega)

theorem checkWord_le (ws : List Nat) : checkWord ws ≤ 65535 := by
  rw [checkWord]
  split
  · exact Nat.le_refl 65535
  · exact Nat.sub_le 65535 _

section CheckWord

variable {ws ws' : List Nat}

theorem checkWord_pos (h : ∀ w ∈ ws, w ≤ 65535) : 0 < checkWord ws := by
  have hle := ofNat_le ws.sum
  rw [checkWord, sum_eq_ofNat h]
  split
  · exact Nat.succ_pos _
  · omega

theorem checkWord_add (h : ∀ w ∈ ws, w ≤ 65535) (hpos : 0 < ws.sum) :
    (checkWord ws + ws.sum) % 65535 = 0 := by
  rw [checkWord, sum_eq_ofNat h, ofNat_of_pos hpos]
  split
  · omega
  · omega

theorem checkWord_eq_iff (h : ∀ w ∈ ws, w ≤ 65535) (h' : ∀ w ∈ ws', w ≤ 65535)
    (hpos : 0 < ws.sum) (hpos' : 0 < ws'.sum) :
    checkWord ws = checkWord ws' ↔ ws.sum % 65535 = ws'.sum % 65535 := by
  have hle := ofNat_le ws.sum
  have hle' := ofNat_le ws'.sum
  have hne : 0 < ofNat ws.sum := by
    rw [ofNat_of_pos hpos]
    exact Nat.succ_pos _
  have hne' : 0 < ofNat ws'.sum := by
    rw [ofNat_of_pos hpos']
    exact Nat.succ_pos _
  rw [← ofNat_eq_ofNat_iff hpos hpos', checkWord, checkWord, sum_eq_ofNat h, sum_eq_ofNat h']
  split
  · split
    · omega
    · omega
  · split
    · omega
    · omega

end CheckWord

theorem sum_eq_max_iff {ws : List Nat} (h : ∀ w ∈ ws, w ≤ 65535) (hpos : 0 < ws.sum) :
    sum ws = 65535 ↔ ws.sum % 65535 = 0 := by
  rw [sum_eq_ofNat h]
  exact ofNat_eq_max_iff hpos

/-- A check word that is the complement of a sum over what stood in its place makes
the sum come out as 65535 exactly when that was a zero, of either sign. -/
theorem sum_stored_iff {pre post : List Nat} {x c : Nat} (hpre : ∀ w ∈ pre, w ≤ 65535)
    (hpost : ∀ w ∈ post, w ≤ 65535) (hx : x ≤ 65535) (hpos : 0 < pre.sum + post.sum)
    (hc : c = 65535 - sum (pre ++ x :: post)) :
    sum (pre ++ c :: post) = 65535 ↔ x = 0 ∨ x = 65535 := by
  have hwords : ∀ y ≤ 65535, ∀ w ∈ pre ++ y :: post, w ≤ 65535 := by
    intro y hy w hw
    rcases List.mem_append.mp hw with hw | hw
    · exact hpre w hw
    · rcases List.mem_cons.mp hw with rfl | hw
      · exact hy
      · exact hpost w hw
  have hsum : ∀ y, (pre ++ y :: post).sum = pre.sum + post.sum + y := by
    intro y
    rw [List.sum_append, List.sum_cons]
    omega
  rw [sum_eq_ofNat (hwords x hx), hsum x, ofNat, if_neg (by omega)] at hc
  have hcle : c ≤ 65535 := by omega
  rw [sum_eq_ofNat (hwords c hcle), hsum c, ofNat_eq_max_iff (by omega)]
  omega

end OnesComplement
