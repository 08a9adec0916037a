import Mathlib.Logic.Function.Basic
import Mathlib.Data.List.Basic

/-!
# Last writer wins

A history is the list of writes to a table, oldest first.  `latest` reads the
table off the history: a key holds the value of its last write, or its initial
value when nothing wrote it.
-/

namespace History

variable {κ ν μ : Type*} [DecidableEq κ]

/-- The values written to `k`, oldest first. -/
def writes (h : List (κ × ν)) (k : κ) : List ν :=
  h.filterMap fun e => if e.1 = k then some e.2 else none

def latest (table : κ → ν) (h : List (κ × ν)) (k : κ) : ν :=
  (writes h k).getLast?.getD (table k)

def Written (h : List (κ × ν)) (k : κ) : Prop := ∃ v, (k, v) ∈ h

theorem mem_writes {h : List (κ × ν)} {k : κ} {v : ν} : v ∈ writes h k ↔ (k, v) ∈ h := by
  simp only [writes, List.mem_filterMap]
  constructor
  · intro h
    obtain ⟨⟨k', v'⟩, he, hv⟩ := h
    by_cases hk : k' = k
    · subst hk
      rw [if_pos rfl, Option.some.injEq] at hv
      exact hv ▸ he
    · rw [if_neg hk] at hv
      exact absurd hv (by simp)
  · intro he
    exact ⟨(k, v), he, if_pos rfl⟩

@[simp] theorem latest_nil (table : κ → ν) (k : κ) : latest table [] k = table k := rfl

theorem latest_snoc (table : κ → ν) (h : List (κ × ν)) (k : κ) (v : ν) :
    latest table (h ++ [(k, v)]) = Function.update (latest table h) k v := by
  funext k'
  by_cases hk : k' = k
  · subst hk
    simp [latest, writes]
  · rw [Function.update_of_ne hk]
    simp [latest, writes, Ne.symm hk]

theorem latest_of_not_written {table : κ → ν} {h : List (κ × ν)} {k : κ}
    (hk : ¬ Written h k) : latest table h k = table k := by
  have hnil : writes h k = [] := by
    refine List.eq_nil_iff_forall_not_mem.mpr fun v hv => hk ⟨v, mem_writes.mp hv⟩
  rw [latest, hnil, List.getLast?_nil, Option.getD_none]

theorem writes_map (g : ν → μ) (h : List (κ × ν)) (k : κ) :
    writes (h.map fun e => (e.1, g e.2)) k = (writes h k).map g := by
  rw [writes, writes, List.filterMap_map, List.map_filterMap]
  congr 1
  funext e
  by_cases hk : e.1 = k <;> simp [hk]

theorem latest_map {g : ν → μ} {h : List (κ × ν)} {k : κ} (table : κ → ν) (table' : κ → μ)
    (hk : Written h k) :
    latest table' (h.map fun e => (e.1, g e.2)) k = g (latest table h k) := by
  obtain ⟨v, hv⟩ := hk
  have hne : writes h k ≠ [] := List.ne_nil_of_mem (mem_writes.mpr hv)
  rw [latest, latest, writes_map, List.getLast?_map,
    List.getLast?_eq_some_getLast hne, Option.map_some, Option.getD_some, Option.getD_some]

end History
