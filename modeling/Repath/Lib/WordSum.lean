import Mathlib.Data.List.Induction
import Mathlib.Data.Nat.ModEq
import Repath.Lib.Memory
import Repath.Lib.OnesComplement

/-!
# Word sums of memory regions

Modulo 65535 the sum of the 16-bit words of a region is the number that its bytes spell,
since `256 ^ 2` is 1 there.  So a region can be cut into fields of any width: a field
counts by its number, or by 256 times that where an odd number of bytes follows.
-/

theorem beNat_append (xs ys : List UInt8) :
    beNat (xs ++ ys) = beNat xs * 256 ^ ys.length + beNat ys := by
  induction ys using List.reverseRec with
  | nil => simp [beNat]
  | append_singleton ys b ih =>
    rw [← List.append_assoc, beNat_append_singleton, ih, beNat_append_singleton,
      List.length_append, List.length_singleton, Nat.pow_succ]
    ring

theorem beNat_lt (bs : List UInt8) : beNat bs < 256 ^ bs.length := by
  induction bs using List.reverseRec with
  | nil => simp [beNat]
  | append_singleton bs b ih =>
    have hb := b.toNat_lt
    rw [beNat_append_singleton, List.length_append, List.length_singleton, Nat.pow_succ]
    omega

namespace Mem

variable (m : Mem)

theorem read_add (off a b : Nat) : m.read off (a + b) = m.read off a ++ m.read (off + a) b := by
  rw [read, List.range_add, List.map_append, List.map_map]
  congr 1
  refine List.map_congr_left fun i _ => ?_
  show m (off + (a + i)) = m (off + a + i)
  rw [Nat.add_assoc]

theorem getN_add (off a b : Nat) :
    getN (a + b) m off = getN a m off * 256 ^ b + getN b m (off + a) := by
  rw [getN, read_add, beNat_append, length_read, getN, getN]

theorem getN_lt (n off : Nat) : getN n m off < 256 ^ n := by
  have h := beNat_lt (m.read off n)
  rwa [length_read] at h

theorem toNat_get8 (off : Nat) : (m.get8 off).toNat = getN 1 m off := by
  rw [get8, UInt8.toNat_ofNat']
  exact Nat.mod_eq_of_lt (getN_lt m 1 off)

theorem toNat_get16 (off : Nat) : (m.get16 off).toNat = getN 2 m off := by
  rw [get16, UInt16.toNat_ofNat']
  exact Nat.mod_eq_of_lt (getN_lt m 2 off)

theorem toNat_get64 (off : Nat) : (m.get64 off).toNat = getN 8 m off := by
  rw [get64, UInt64.toNat_ofNat']
  exact Nat.mod_eq_of_lt (getN_lt m 8 off)

/-- The `n` words from an offset on. -/
def words (off n : Nat) : List Nat := (List.range n).map fun i => (m.get16 (off + 2 * i)).toNat

theorem le_of_mem_words {off n w : Nat} (h : w ∈ m.words off n) : w ≤ 65535 := by
  obtain ⟨i, -, rfl⟩ := List.mem_map.mp h
  exact Nat.le_of_lt_succ (UInt16.toNat_lt _)

/-- What a byte counts for when `n` bytes follow it. -/
def weight (n : Nat) : Nat := if n % 2 = 0 then 1 else 256

theorem pow_modEq_weight (n : Nat) : 256 ^ n ≡ weight n [MOD 65535] := by
  have heven : ∀ k, 256 ^ (2 * k) ≡ 1 [MOD 65535] := by
    intro k
    have hsq : 256 ^ 2 ≡ 1 [MOD 65535] := by decide
    rw [Nat.pow_mul]
    exact (hsq.pow k).trans (by rw [one_pow])
  rw [weight]
  by_cases hn : n % 2 = 0
  · rw [if_pos hn, ← Nat.div_add_mod n 2, hn]
    exact heven (n / 2)
  · have hodd : n = 2 * (n / 2) + 1 := by omega
    rw [if_neg hn, hodd, Nat.pow_succ]
    exact (heven (n / 2)).mul_right 256

theorem getN_add_modEq (off a b : Nat) :
    getN (a + b) m off ≡ weight b * getN a m off + getN b m (off + a) [MOD 65535] := by
  rw [getN_add, Nat.mul_comm]
  exact ((pow_modEq_weight b).mul_right _).add_right _

theorem sum_words_modEq (off n : Nat) : (m.words off n).sum ≡ getN (2 * n) m off [MOD 65535] := by
  induction n with
  | zero => rfl
  | succ n ih =>
    rw [words, List.range_succ, List.map_append, List.sum_append, Nat.mul_succ]
    have hsplit := getN_add_modEq m off (2 * n) 2
    rw [weight, if_pos rfl, Nat.one_mul] at hsplit
    apply Nat.ModEq.trans ?_ hsplit.symm
    rw [List.map_singleton, List.sum_singleton, toNat_get16]
    exact ih.add_right _

/-- The fields of the given widths from an offset on, each by its weight. -/
def fieldSum : Nat → List Nat → Nat
  | _, [] => 0
  | off, k :: ks => weight ks.sum * getN k m off + fieldSum (off + k) ks

theorem getN_modEq_fieldSum (off : Nat) (ks : List Nat) :
    getN ks.sum m off ≡ fieldSum m off ks [MOD 65535] := by
  induction ks generalizing off with
  | nil => rfl
  | cons k ks ih =>
    rw [List.sum_cons, fieldSum]
    exact (getN_add_modEq m off k ks.sum).trans ((ih (off + k)).add_left _)

end Mem
