import Mathlib.Data.Fintype.EquivFin
import Repath.Lib.Word
import Repath.Lib.History
import Repath.Dpdk.Headers

/-!
# Path selection

What path selection is for, stated on the list of probes received so far: each
path holds the delay of its last probe, and the selected path is the first one
that holds the least delay.  `Tracks` is the relation a control plane's table
and selected path have to this list, and `Tracks.observe` the step that keeps
it.

The sender's timestamp comes from another clock.  `selects_shift_iff` says when
an offset of that clock leaves the selection alone, and `measured_iff` when the
initial table entry lets an unmeasured path win.
-/

namespace Repath.Selection

structure Probe where
  path : PathId
  senderTs : UInt64
  receiverTs : UInt64
  deriving DecidableEq, Repr

def Probe.delay (q : Probe) : UInt64 := q.receiverTs - q.senderTs + 1000000000

def unmeasured : UInt64 := 0xFFFFFFFF

def delays (ps : List Probe) : List (PathId × UInt64) := ps.map fun q => (q.path, q.delay)

def delayTable (ps : List Probe) : PathId → UInt64 :=
  History.latest (fun _ => unmeasured) (delays ps)

def Measured (ps : List Probe) (p : PathId) : Prop := ∃ q ∈ ps, q.path = p

instance (ps : List Probe) (p : PathId) : Decidable (Measured ps p) :=
  inferInstanceAs (Decidable (∃ q ∈ ps, q.path = p))

def Selects (ps : List Probe) (p : PathId) : Prop := Argmin.IsFirstMin (delayTable ps) p

theorem written_delays_iff {ps : List Probe} {p : PathId} :
    History.Written (delays ps) p ↔ Measured ps p := by
  constructor
  · intro h
    obtain ⟨v, hv⟩ := h
    obtain ⟨q, hq, he⟩ := List.mem_map.mp hv
    exact ⟨q, hq, congrArg Prod.fst he⟩
  · intro h
    obtain ⟨q, hq, hp⟩ := h
    exact ⟨q.delay, List.mem_map.mpr ⟨q, hq, by rw [hp]⟩⟩

theorem delayTable_snoc (ps : List Probe) (q : Probe) :
    delayTable (ps ++ [q]) = Function.update (delayTable ps) q.path q.delay := by
  rw [delayTable, delays, List.map_append]
  exact History.latest_snoc _ _ _ _

theorem delayTable_of_not_measured {ps : List Probe} {p : PathId} (h : ¬ Measured ps p) :
    delayTable ps p = unmeasured :=
  History.latest_of_not_written fun hw => h (written_delays_iff.mp hw)

/-! ### Refinement by a control plane -/

/-- A delay table and a selected path hold what the probes `ps` determine. -/
structure Tracks (table : Vector UInt64 pathNb) (best : UInt8) (ps : List Probe) : Prop where
  table_eq : table.get = delayTable ps
  selects : ∃ p : PathId, best.toNat = p ∧ Selects ps p

theorem get_replicate (d : UInt64) : (Vector.replicate pathNb d).get = fun _ => d := by
  funext i
  show (Vector.replicate pathNb d)[i.val] = d
  rw [Vector.getElem_replicate]

theorem get_set (table : Vector UInt64 pathNb) (p : PathId) (d : UInt64) :
    (table.set p d).get = Function.update table.get p d := by
  funext i
  show (table.set p d)[i.val] = _
  rw [Vector.getElem_set]
  by_cases hi : i = p
  · subst hi
    rw [if_pos rfl, Function.update_self]
  · have hne : (p : Nat) ≠ i := fun he => hi (Fin.ext he.symm)
    rw [if_neg hne, Function.update_of_ne hi]
    rfl

theorem tracks_start : Tracks (Vector.replicate pathNb unmeasured) 0 [] where
  table_eq := get_replicate unmeasured
  selects := by
    refine ⟨0, rfl, ?_, ?_⟩
    · intro i
      exact le_refl _
    · intro i hi
      exact absurd hi (Fin.not_lt_zero i)

theorem Tracks.observe {table : Vector UInt64 pathNb} {best best' : UInt8} {ps : List Probe}
    {q : Probe} (h : Tracks table best ps)
    (hbest : ∃ p : PathId, best'.toNat = p ∧
      Argmin.IsFirstMin (table.set q.path q.delay).get p) :
    Tracks (table.set q.path q.delay) best' (ps ++ [q]) := by
  have htable : (table.set q.path q.delay).get = delayTable (ps ++ [q]) := by
    rw [get_set, h.table_eq, delayTable_snoc]
  obtain ⟨p, hp, hmin⟩ := hbest
  exact { table_eq := htable, selects := ⟨p, hp, by rwa [htable] at hmin⟩ }

theorem Tracks.selects_iff {table : Vector UInt64 pathNb} {best : UInt8} {ps : List Probe}
    (h : Tracks table best ps) {p : PathId} : Selects ps p ↔ best.toNat = p := by
  obtain ⟨p', hp', hsel⟩ := h.selects
  constructor
  · intro hp
    rw [hp', hsel.unique hp]
  · intro hp
    rwa [show p = p' from Fin.ext (hp.symm.trans hp')]

/-! ### Offset of the sender's clock -/

def Probe.shift (c : Int) (q : Probe) : Probe :=
  { q with senderTs := q.senderTs + UInt64.ofInt c }

theorem delay_shift (c : Int) (q : Probe) :
    (q.shift c).delay = q.delay - UInt64.ofInt c := by
  show q.receiverTs - (q.senderTs + UInt64.ofInt c) + 1000000000 =
    q.receiverTs - q.senderTs + 1000000000 - UInt64.ofInt c
  grind

theorem delays_shift (c : Int) (ps : List Probe) :
    delays (ps.map (Probe.shift c)) =
      (delays ps).map fun e => (e.1, e.2 - UInt64.ofInt c) := by
  simp only [delays, List.map_map]
  refine List.map_congr_left fun q _ => ?_
  simp only [Function.comp_apply, delay_shift]
  rfl

theorem delayTable_shift {ps : List Probe} (c : Int) (hall : ∀ p, Measured ps p) :
    delayTable (ps.map (Probe.shift c)) =
      (fun d => d - UInt64.ofInt c) ∘ delayTable ps := by
  funext p
  rw [delayTable, delays_shift]
  exact History.latest_map (g := fun d => d - UInt64.ofInt c) _ _
    (written_delays_iff.mpr (hall p))

/-- The delays of the last probes all lie on one side of `c` modulo `2 ^ 64`, so
that either none or all of them wrap around when `c` is taken off. -/
def SameSide (c : Int) (ps : List Probe) : Prop :=
  (∀ i, UInt64.ofInt c ≤ delayTable ps i) ∨ (∀ i, delayTable ps i < UInt64.ofInt c)

instance (c : Int) (ps : List Probe) : Decidable (SameSide c ps) :=
  inferInstanceAs (Decidable (_ ∨ _))

theorem selects_shift_iff {ps : List Probe} {c : Int} {p q : PathId}
    (hall : ∀ p, Measured ps p) (hp : Selects ps p)
    (hq : Selects (ps.map (Probe.shift c)) q) :
    p = q ↔ SameSide c ps := by
  rw [Selects, delayTable_shift c hall] at hq
  exact (Word.isRotation_sub (UInt64.ofInt c)).firstMin_eq_iff hp hq

theorem Tracks.shift_iff {table table' : Vector UInt64 pathNb} {best best' : UInt8}
    {ps : List Probe} {c : Int} (h : Tracks table best ps)
    (h' : Tracks table' best' (ps.map (Probe.shift c))) (hall : ∀ p, Measured ps p) :
    best = best' ↔ SameSide c ps := by
  obtain ⟨p, hp, hsel⟩ := h.selects
  obtain ⟨q, hq, hsel'⟩ := h'.selects
  rw [← selects_shift_iff hall hsel hsel', ← UInt8.toNat_inj, hp, hq, Fin.val_inj]

/-! ### Unmeasured paths -/

/-- Some measured path holds its place against every unmeasured one: all paths
are measured, or one holds less than the initial entry, or one holds just the
initial entry and stands in front of every unmeasured path. -/
def Holds (ps : List Probe) : Prop :=
  (∀ p, Measured ps p) ∨ ∃ q, Measured ps q ∧
    (delayTable ps q < unmeasured ∨
      (delayTable ps q = unmeasured ∧ ∀ u, ¬ Measured ps u → q < u))

instance (ps : List Probe) : Decidable (Holds ps) := inferInstanceAs (Decidable (_ ∨ _))

theorem measured_iff {ps : List Probe} {p : PathId} (hp : Selects ps p) :
    Measured ps p ↔ Holds ps :=
  hp.mem_iff_of_const (M := {i | Measured ps i}) fun _ hi => delayTable_of_not_measured hi

theorem Tracks.measured_iff {table : Vector UInt64 pathNb} {best : UInt8} {ps : List Probe}
    (h : Tracks table best ps) :
    (∃ p : PathId, best.toNat = p ∧ Measured ps p) ↔ Holds ps := by
  obtain ⟨p, hp, hsel⟩ := h.selects
  rw [← Selection.measured_iff hsel]
  constructor
  · intro hm
    obtain ⟨q, hq, hmeas⟩ := hm
    rwa [show p = q from Fin.ext (hp.symm.trans hq)]
  · intro hm
    exact ⟨p, hp, hm⟩

end Repath.Selection
