import Mathlib.Data.List.GetD
import Mathlib.Data.Set.Function
import Mathlib.Order.Interval.Set.Basic
import Mathlib.Tactic.Ring

/-!
# Byte memory and big-endian numbers

A memory assigns a byte to every offset.  `getN` and `putN` read and write
numbers of a given width in network byte order.  A read returns what the last
write to the same field stored, and a write to a disjoint field leaves it alone.
-/

/-- The `n` low-order bytes of `x`, most significant first. -/
def beBytes : Nat → Nat → List UInt8
  | 0, _ => []
  | n + 1, x => beBytes n (x / 256) ++ [UInt8.ofNat (x % 256)]

def beNat (bs : List UInt8) : Nat := bs.foldl (fun acc b => acc * 256 + b.toNat) 0

@[simp] theorem length_beBytes (n x : Nat) : (beBytes n x).length = n := by
  induction n generalizing x with
  | zero => rfl
  | succ n ih => rw [beBytes, List.length_append, ih, List.length_singleton]

theorem beNat_append_singleton (bs : List UInt8) (b : UInt8) :
    beNat (bs ++ [b]) = beNat bs * 256 + b.toNat := by
  rw [beNat, List.foldl_append]
  rfl

theorem beNat_beBytes (n x : Nat) : beNat (beBytes n x) = x % 256 ^ n := by
  induction n generalizing x with
  | zero => rw [beBytes, Nat.pow_zero, Nat.mod_one]; rfl
  | succ n ih =>
      rw [beBytes, beNat_append_singleton, ih]
      have hb : (UInt8.ofNat (x % 256)).toNat = x % 256 := by
        rw [UInt8.toNat_ofNat']
        exact Nat.mod_eq_of_lt (Nat.mod_lt x (by decide))
      rw [hb, Nat.pow_succ', Nat.mod_mul]
      ring

abbrev Mem := Nat → UInt8

namespace Mem

def write (m : Mem) (off : Nat) (bs : List UInt8) : Mem := fun i =>
  if off ≤ i ∧ i < off + bs.length then bs.getD (i - off) 0 else m i

def read (m : Mem) (off n : Nat) : List UInt8 := (List.range n).map fun i => m (off + i)

@[simp] theorem length_read (m : Mem) (off n : Nat) : (m.read off n).length = n := by
  rw [read, List.length_map, List.length_range]

theorem read_write_same (m : Mem) (off : Nat) (bs : List UInt8) :
    (m.write off bs).read off bs.length = bs := by
  refine List.ext_getElem (length_read _ _ _) fun i h _ => ?_
  rw [length_read] at h
  have hin : off ≤ off + i ∧ off + i < off + bs.length := ⟨by omega, by omega⟩
  have hsub : off + i - off = i := by omega
  simp only [read, List.getElem_map, List.getElem_range, write]
  rw [if_pos hin, hsub, List.getD_eq_getElem bs 0 h]

theorem read_write_of_disjoint (m : Mem) {off off' n : Nat} {bs : List UInt8}
    (h : off' + n ≤ off ∨ off + bs.length ≤ off') :
    (m.write off bs).read off' n = m.read off' n := by
  refine List.map_congr_left fun i hi => ?_
  rw [List.mem_range] at hi
  have hout : ¬ (off ≤ off' + i ∧ off' + i < off + bs.length) := by omega
  rw [write, if_neg hout]

def getN (n : Nat) (m : Mem) (off : Nat) : Nat := beNat (m.read off n)

def putN (n : Nat) (m : Mem) (off x : Nat) : Mem := m.write off (beBytes n x)

theorem getN_putN_same (n : Nat) (m : Mem) (off x : Nat) :
    getN n (putN n m off x) off = x % 256 ^ n := by
  have h := read_write_same m off (beBytes n x)
  rw [length_beBytes] at h
  rw [getN, putN, h, beNat_beBytes]

theorem getN_putN_of_disjoint {n k : Nat} (m : Mem) {off off' : Nat} (x : Nat)
    (h : off' + n ≤ off ∨ off + k ≤ off') :
    getN n (putN k m off x) off' = getN n m off' := by
  rw [getN, putN, read_write_of_disjoint m (by rwa [length_beBytes]), getN]

theorem read_congr {m m' : Mem} {k off n : Nat} (h : ∀ i < k, m i = m' i) (hk : off + n ≤ k) :
    m.read off n = m'.read off n := by
  refine List.map_congr_left fun i hi => ?_
  rw [List.mem_range] at hi
  exact h (off + i) (by omega)

theorem getN_congr {m m' : Mem} {k off n : Nat} (h : ∀ i < k, m i = m' i) (hk : off + n ≤ k) :
    getN n m off = getN n m' off := by
  rw [getN, read_congr h hk, getN]

/-! ### Fields of machine-word width -/

def get8 (m : Mem) (off : Nat) : UInt8 := UInt8.ofNat (getN 1 m off)
def get16 (m : Mem) (off : Nat) : UInt16 := UInt16.ofNat (getN 2 m off)
def get32 (m : Mem) (off : Nat) : UInt32 := UInt32.ofNat (getN 4 m off)
def get64 (m : Mem) (off : Nat) : UInt64 := UInt64.ofNat (getN 8 m off)

abbrev put8 (m : Mem) (off : Nat) (x : UInt8) : Mem := putN 1 m off x.toNat
abbrev put16 (m : Mem) (off : Nat) (x : UInt16) : Mem := putN 2 m off x.toNat
abbrev put32 (m : Mem) (off : Nat) (x : UInt32) : Mem := putN 4 m off x.toNat
abbrev put64 (m : Mem) (off : Nat) (x : UInt64) : Mem := putN 8 m off x.toNat

@[simp] theorem get8_put8 (m : Mem) (off : Nat) (x : UInt8) :
    (m.put8 off x).get8 off = x := by
  rw [get8, getN_putN_same, Nat.mod_eq_of_lt (show x.toNat < 256 ^ 1 from x.toNat_lt),
    UInt8.ofNat_toNat]

@[simp] theorem get16_put16 (m : Mem) (off : Nat) (x : UInt16) :
    (m.put16 off x).get16 off = x := by
  rw [get16, getN_putN_same, Nat.mod_eq_of_lt (show x.toNat < 256 ^ 2 from x.toNat_lt),
    UInt16.ofNat_toNat]

@[simp] theorem get32_put32 (m : Mem) (off : Nat) (x : UInt32) :
    (m.put32 off x).get32 off = x := by
  rw [get32, getN_putN_same, Nat.mod_eq_of_lt (show x.toNat < 256 ^ 4 from x.toNat_lt),
    UInt32.ofNat_toNat]

@[simp] theorem get64_put64 (m : Mem) (off : Nat) (x : UInt64) :
    (m.put64 off x).get64 off = x := by
  rw [get64, getN_putN_same, Nat.mod_eq_of_lt (show x.toNat < 256 ^ 8 from x.toNat_lt),
    UInt64.ofNat_toNat]

/-! The side conditions below compare literal offsets, so `simp` settles them
when it reads a field of a frame written field by field. -/

section Disjoint

variable (m : Mem) {k off off' : Nat}

@[simp] theorem get8_putN_of_disjoint (x : Nat) (h : off' + 1 ≤ off ∨ off + k ≤ off') :
    (putN k m off x).get8 off' = m.get8 off' := by
  rw [get8, getN_putN_of_disjoint m x h, get8]

@[simp] theorem get16_putN_of_disjoint (x : Nat) (h : off' + 2 ≤ off ∨ off + k ≤ off') :
    (putN k m off x).get16 off' = m.get16 off' := by
  rw [get16, getN_putN_of_disjoint m x h, get16]

@[simp] theorem get32_putN_of_disjoint (x : Nat) (h : off' + 4 ≤ off ∨ off + k ≤ off') :
    (putN k m off x).get32 off' = m.get32 off' := by
  rw [get32, getN_putN_of_disjoint m x h, get32]

@[simp] theorem get64_putN_of_disjoint (x : Nat) (h : off' + 8 ≤ off ∨ off + k ≤ off') :
    (putN k m off x).get64 off' = m.get64 off' := by
  rw [get64, getN_putN_of_disjoint m x h, get64]

end Disjoint

/-! ### Memories that agree on a set of offsets -/

section EqOn

variable {m m' : Mem} {k off : Nat} {s : Set Nat}

theorem write_of_mem {bs : List UInt8} {i : Nat} (h : i ∈ Set.Ico off (off + bs.length)) :
    m.write off bs i = bs.getD (i - off) 0 := if_pos h

theorem write_of_notMem {bs : List UInt8} {i : Nat} (h : i ∉ Set.Ico off (off + bs.length)) :
    m.write off bs i = m i := if_neg h

theorem eqOn_write_iff (bs : List UInt8) : Set.EqOn (m.write off bs) (m'.write off bs) s ↔
    Set.EqOn m m' (s \ Set.Ico off (off + bs.length)) := by
  constructor
  · intro h i hi
    rw [← write_of_notMem (m := m) hi.2, ← write_of_notMem (m := m') hi.2]
    exact h hi.1
  · intro h i hi
    by_cases hin : i ∈ Set.Ico off (off + bs.length)
    · rw [write_of_mem hin, write_of_mem hin]
    · rw [write_of_notMem hin, write_of_notMem hin]
      exact h ⟨hi, hin⟩

theorem eqOn_putN_iff (x : Nat) : Set.EqOn (putN k m off x) (putN k m' off x) s ↔
    Set.EqOn m m' (s \ Set.Ico off (off + k)) := by
  rw [putN, putN, eqOn_write_iff, length_beBytes]

theorem getN_congr_on (h : Set.EqOn m m' (Set.Ico off (off + k))) :
    getN k m off = getN k m' off := by
  have hread : m.read off k = m'.read off k := by
    refine List.map_congr_left fun i hi => ?_
    rw [List.mem_range] at hi
    exact h ⟨by omega, by omega⟩
  rw [getN, hread, getN]

/-- Different numbers written to one field differ there. -/
theorem eqOn_putN_iff_of_subset {x x' : Nat} (hx : x < 256 ^ k) (hx' : x' < 256 ^ k)
    (hs : Set.Ico off (off + k) ⊆ s) : Set.EqOn (putN k m off x) (putN k m' off x') s ↔
      x = x' ∧ Set.EqOn m m' (s \ Set.Ico off (off + k)) := by
  constructor
  · intro h
    have heq : x = x' := by
      have hget := getN_congr_on (h.mono hs)
      rwa [getN_putN_same, getN_putN_same, Nat.mod_eq_of_lt hx, Nat.mod_eq_of_lt hx'] at hget
    subst heq
    exact ⟨rfl, (eqOn_putN_iff x).mp h⟩
  · intro h
    obtain ⟨rfl, hrest⟩ := h
    exact (eqOn_putN_iff x).mpr hrest

theorem eqOn_put16_iff_of_subset {x x' : UInt16} (hs : Set.Ico off (off + 2) ⊆ s) :
    Set.EqOn (m.put16 off x) (m'.put16 off x') s ↔
      x = x' ∧ Set.EqOn m m' (s \ Set.Ico off (off + 2)) := by
  rw [eqOn_putN_iff_of_subset x.toNat_lt x'.toNat_lt hs, UInt16.toNat_inj]

end EqOn

end Mem
