import Mathlib.Data.Fin.VecNotation
import Repath.Selection.Selector

/-!
# The delay table and the two `get_min_delay_path_id` loops

`hopa_cp.c` counts with an `int` and keeps the result in a byte, `ovs-vswitchd.c`
counts with a byte.  Both loops compare entry `i` with the entry of the index
held so far and move only on a strictly smaller one, so both return the first
minimum.  An index outside the array makes the result `none`.
-/

namespace Repath

def storeDelay (allPathsDelayList : Vector UInt64 pathNb) (pathId : UInt8) (delay : UInt64) :
    Except Stop (Vector UInt64 pathNb) :=
  if h : pathId.toNat < pathNb then .ok (allPathsDelayList.set pathId.toNat delay)
  else .error .undefined

namespace HopaCp

/-- `k` more rounds from index `i` on, with `pathId` held. -/
def minDelayLoop (allPathsDelayList : Array UInt64) : Nat → Nat → UInt8 → Option UInt8
  | 0, _, pathId => some pathId
  | k + 1, i, pathId => do
    let delay ← allPathsDelayList[i]?
    let held ← allPathsDelayList[pathId.toNat]?
    minDelayLoop allPathsDelayList k (i + 1) (if delay < held then UInt8.ofNat i else pathId)

/-- `for (int i = 1; i < length; i++)`. -/
def getMinDelayPathId (allPathsDelayList : Array UInt64) (length : Nat) : Option UInt8 :=
  minDelayLoop allPathsDelayList (length - 1) 1 0

end HopaCp

namespace Ovs

/-- The loop on a byte index, for at most `fuel` tests of its condition. -/
def minDelayLoop (allPathsDelayList : Array UInt64) (length : UInt8) :
    Nat → UInt8 → UInt8 → Option UInt8
  | 0, _, _ => none
  | fuel + 1, i, pathId =>
    if i < length then do
      let delay ← allPathsDelayList[i.toNat]?
      let held ← allPathsDelayList[pathId.toNat]?
      minDelayLoop allPathsDelayList length fuel (i + 1) (if delay < held then i else pathId)
    else some pathId

/-- `for (uint8_t i = 1; i < length; i++)`; a byte index takes at most 256
values. -/
def getMinDelayPathId (allPathsDelayList : Array UInt64) (length : UInt8) : Option UInt8 :=
  minDelayLoop allPathsDelayList length 256 1 0

end Ovs

namespace Selection

open Argmin

def entries (a : Array UInt64) (i : Nat) : UInt64 := a.getD i 0

theorem getElem?_eq_entries {a : Array UInt64} {i : Nat} (h : i < a.size) :
    a[i]? = some (entries a i) := by
  rw [entries, Array.getElem?_eq_getElem h, Array.getD_eq_getD_getElem?,
    Array.getElem?_eq_getElem h, Option.getD_some]

theorem toNat_ofNat_scan {a : Array UInt64} {n : Nat} (h : n < 256) :
    (UInt8.ofNat (scan (entries a) n)).toNat = scan (entries a) n := by
  have hle := scan_le (entries a) n
  rw [UInt8.toNat_ofNat']
  exact Nat.mod_eq_of_lt (by omega)

theorem held_scan_succ (a : Array UInt64) (n : Nat) :
    (if entries a (n + 1) < entries a (scan (entries a) n) then UInt8.ofNat (n + 1)
      else UInt8.ofNat (scan (entries a) n)) = UInt8.ofNat (scan (entries a) (n + 1)) := by
  rw [scan]
  split
  · rfl
  · rfl

theorem minDelayLoop_eq_scan {a : Array UInt64} (k : Nat) : ∀ n : Nat,
    n + k < a.size → n + k < 256 →
      HopaCp.minDelayLoop a k (n + 1) (UInt8.ofNat (scan (entries a) n)) =
        some (UInt8.ofNat (scan (entries a) (n + k))) := by
  induction k with
  | zero => exact fun n _ _ => rfl
  | succ k ih =>
      intro n hsize hbyte
      have hheld : scan (entries a) n < a.size := by
        have hle := scan_le (entries a) n
        omega
      rw [HopaCp.minDelayLoop, toNat_ofNat_scan (by omega), getElem?_eq_entries (by omega),
        getElem?_eq_entries hheld]
      simp only [Option.bind_eq_bind, Option.bind_some]
      rw [held_scan_succ, ih (n + 1) (by omega) (by omega), show n + 1 + k = n + (k + 1) by omega]

/-- The byte-indexed loop runs the same rounds: its index does not wrap below
`length`, and `fuel` covers the tests that are left. -/
theorem minDelayLoop_ovs {a : Array UInt64} {length : UInt8} (k : Nat) :
    ∀ (fuel i : Nat) (pathId : UInt8), i + k = length.toNat → k < fuel →
      Ovs.minDelayLoop a length fuel (UInt8.ofNat i) pathId =
        HopaCp.minDelayLoop a k i pathId := by
  have hlength := length.toNat_lt
  induction k with
  | zero =>
      intro fuel i pathId hi hfuel
      obtain ⟨fuel, rfl⟩ : ∃ f, fuel = f + 1 := ⟨fuel - 1, by omega⟩
      have hstop : ¬ UInt8.ofNat i < length := by
        rw [UInt8.lt_iff_toNat_lt, UInt8.toNat_ofNat', Nat.mod_eq_of_lt (by omega)]
        omega
      rw [Ovs.minDelayLoop, if_neg hstop]
      rfl
  | succ k ih =>
      intro fuel i pathId hi hfuel
      obtain ⟨fuel, rfl⟩ : ∃ f, fuel = f + 1 := ⟨fuel - 1, by omega⟩
      have htoNat : (UInt8.ofNat i).toNat = i := by
        rw [UInt8.toNat_ofNat']
        exact Nat.mod_eq_of_lt (by omega)
      have hgo : UInt8.ofNat i < length := by
        rw [UInt8.lt_iff_toNat_lt, htoNat]
        omega
      have hnext : UInt8.ofNat i + 1 = UInt8.ofNat (i + 1) :=
        (UInt8.ofNat_add i 1).symm
      rw [Ovs.minDelayLoop, if_pos hgo, HopaCp.minDelayLoop, htoNat, hnext]
      cases a[i]? with
      | none => rfl
      | some delay =>
          cases a[pathId.toNat]? with
          | none => rfl
          | some held => exact ih fuel (i + 1) _ (by omega) (by omega)

theorem getMinDelayPathId_eq_scan {a : Array UInt64} {n : Nat} (hsize : n < a.size)
    (hbyte : n < 256) :
    HopaCp.getMinDelayPathId a (n + 1) = some (UInt8.ofNat (scan (entries a) n)) := by
  have h := minDelayLoop_eq_scan (a := a) n 0 (by omega) (by omega)
  rw [Nat.zero_add n] at h
  exact h

theorem getMinDelayPathId_ovs {a : Array UInt64} {length : UInt8} (h : 0 < length.toNat) :
    Ovs.getMinDelayPathId a length = HopaCp.getMinDelayPathId a length.toNat := by
  have hlength := length.toNat_lt
  exact minDelayLoop_ovs (length.toNat - 1) 256 1 0 (by omega) (by omega)

theorem exists_getMinDelayPathId (table : Vector UInt64 pathNb) :
    ∃ best : UInt8, HopaCp.getMinDelayPathId table.toArray pathNb = some best ∧
      Ovs.getMinDelayPathId table.toArray (UInt8.ofNat pathNb) = some best ∧
      ∃ p : PathId, best.toNat = p ∧ IsFirstMin table.get p := by
  have hsize : 3 < table.toArray.size := by rw [Vector.size_toArray]; decide
  have hmin := getMinDelayPathId_eq_scan hsize (by decide)
  refine ⟨_, hmin, (getMinDelayPathId_ovs (by decide)).trans hmin, _,
    toNat_ofNat_scan (by decide), isFirstMin_scan (entries table.toArray) _ fun i => ?_⟩
  have hi : (i : Nat) < table.toArray.size := by rw [Vector.size_toArray]; exact i.isLt
  have h := getElem?_eq_entries hi
  rw [Array.getElem?_eq_getElem hi, Option.some.injEq] at h
  rw [← h]
  rfl

/-! ### The two loops on any array -/

theorem entries_append {a rest : Array UInt64} {i : Nat} (h : i < a.size) :
    entries (a ++ rest) i = entries a i := by
  rw [entries, entries, Array.getD_eq_getD_getElem?, Array.getD_eq_getD_getElem?,
    Array.getElem?_append_left h]

/-- Both loops return the least index whose entry is at most every entry, and look
at nothing behind the `a.size` entries they are given. -/
theorem min_delay_loops_agree (a : Array UInt64) (hpos : 0 < a.size) (hbyte : a.size ≤ 255) :
    ∃ best : UInt8, ∃ p : Fin a.size, best.toNat = p ∧
      IsLeast {i : Fin a.size | ∀ j : Fin a.size, a[i] ≤ a[j]} p ∧
      ∀ rest : Array UInt64,
        HopaCp.getMinDelayPathId (a ++ rest) a.size = some best ∧
        Ovs.getMinDelayPathId (a ++ rest) (UInt8.ofNat a.size) = some best := by
  obtain ⟨n, hn⟩ : ∃ n, a.size = n + 1 := ⟨a.size - 1, by omega⟩
  have hle := scan_le (entries a) n
  have hlt : scan (entries a) n < a.size := by omega
  refine ⟨UInt8.ofNat (scan (entries a) n), ⟨scan (entries a) n, hlt⟩,
    toNat_ofNat_scan (by omega), ?_, fun rest => ?_⟩
  · have hentry : ∀ i : Fin a.size, entries a i = a[i] := by
      intro i
      have h := getElem?_eq_entries i.isLt
      rw [Array.getElem?_eq_getElem i.isLt, Option.some.injEq] at h
      exact h.symm
    apply isFirstMin_iff_isLeast.mp
    constructor
    · intro i
      rw [← hentry, ← hentry]
      exact scan_min (entries a) n i (by omega)
    · intro i hi
      rw [← hentry, ← hentry]
      exact scan_first (entries a) n i hi
  · have hsize : n < (a ++ rest).size := by
      rw [Array.size_append]
      omega
    have hscan : scan (entries (a ++ rest)) n = scan (entries a) n :=
      scan_congr fun i hi => entries_append (by omega)
    have hhopa : HopaCp.getMinDelayPathId (a ++ rest) a.size =
        some (UInt8.ofNat (scan (entries a) n)) := by
      rw [hn, getMinDelayPathId_eq_scan hsize (by omega), hscan]
    have hlength : (UInt8.ofNat a.size).toNat = a.size := by
      rw [UInt8.toNat_ofNat']
      exact Nat.mod_eq_of_lt (by omega)
    refine ⟨hhopa, ?_⟩
    rw [getMinDelayPathId_ovs (by omega), hlength]
    exact hhopa

/-- The lower of two equal minima. -/
theorem min_delay_loops_agree_tie :
    HopaCp.getMinDelayPathId #[7, 3, 9, 3] 4 = some 1 ∧
      Ovs.getMinDelayPathId #[7, 3, 9, 3] 4 = some 1 := by
  obtain ⟨best, p, hp, hmin, hloops⟩ :=
    min_delay_loops_agree #[7, 3, 9, 3] (by decide) (by decide)
  have hbest : p = 1 := hmin.unique ⟨by decide, fun i hi => ?_⟩
  · obtain ⟨hhopa, hovs⟩ := hloops #[]
    have hone : best = 1 := by
      apply UInt8.toNat_inj.mp
      rw [hp, hbest]
      rfl
    rw [hone] at hhopa hovs
    exact ⟨hhopa, hovs⟩
  · revert i
    decide

end Selection

end Repath
