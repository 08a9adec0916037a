import Mathlib.Algebra.GroupWithZero.Nat
import Repath.Lib.Argmin

/-!
# 64-bit words as a linear order

Words compare as unsigned numbers.  Subtracting a constant modulo `2 ^ 64`
rotates that order at the constant.
-/

namespace Word

instance instLinearOrder : LinearOrder UInt64 where
  le_refl a := UInt64.le_refl a
  le_trans _ _ _ := UInt64.le_trans
  lt_iff_le_not_ge a b := by
    simp only [UInt64.lt_iff_toNat_lt, UInt64.le_iff_toNat_le]
    omega
  le_antisymm _ _ := UInt64.le_antisymm
  le_total a b := UInt64.le_total a b
  toDecidableLE := inferInstance
  toDecidableLT := inferInstance

/-- `x - c` is `x` moved down by `c`, wrapping around below `c`. -/
theorem toNat_sub_eq (x c : UInt64) :
    (x - c).toNat = if c ≤ x then x.toNat - c.toNat else 2 ^ 64 + x.toNat - c.toNat := by
  have hx := x.toNat_lt
  have hc := c.toNat_lt
  rw [UInt64.toNat_sub]
  split
  · rename_i h
    rw [UInt64.le_iff_toNat_le] at h
    omega
  · rename_i h
    rw [UInt64.le_iff_toNat_le] at h
    omega

theorem isRotation_sub (c : UInt64) : Argmin.IsRotation c fun x : UInt64 => x - c where
  above := by
    intro x hx y hy hxy
    show x - c < y - c
    simp only [Set.mem_ofPred_eq] at hx hy
    rw [UInt64.lt_iff_toNat_lt] at hxy ⊢
    rw [toNat_sub_eq, toNat_sub_eq, if_pos hx, if_pos hy]
    rw [UInt64.le_iff_toNat_le] at hx
    omega
  below := by
    intro x hx y hy hxy
    show x - c < y - c
    simp only [Set.mem_ofPred_eq] at hx hy
    rw [UInt64.lt_iff_toNat_lt] at hxy ⊢
    rw [toNat_sub_eq, toNat_sub_eq, if_neg (not_le.mpr hx), if_neg (not_le.mpr hy)]
    have hc := c.toNat_lt
    omega
  cross := by
    intro x y hx hy
    show x - c < y - c
    rw [UInt64.lt_iff_toNat_lt, toNat_sub_eq, toNat_sub_eq, if_pos hx,
      if_neg (not_le.mpr hy)]
    have hxlt := x.toNat_lt
    rw [UInt64.le_iff_toNat_le] at hx
    omega

end Word
