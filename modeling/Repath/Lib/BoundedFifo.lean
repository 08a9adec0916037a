import Mathlib.Data.List.Basic

/-!
# Bounded queue with burst operations

A queue of fixed capacity.  A burst enqueue accepts as many leading entries as
fit and reports how many.  A burst dequeue takes at most the requested number
from the front.
-/

structure BoundedFifo (α : Type) (cap : Nat) where
  items : List α
  bounded : items.length ≤ cap
  deriving DecidableEq

namespace BoundedFifo

variable {α β : Type} {cap : Nat}

def empty : BoundedFifo α cap := { items := [], bounded := Nat.zero_le cap }

def count (q : BoundedFifo α cap) : Nat := q.items.length

def free (q : BoundedFifo α cap) : Nat := cap - q.count

/-- Append the entries that fit.  The second component is their number. -/
def enqueueBurst (q : BoundedFifo α cap) (xs : List α) : BoundedFifo α cap × Nat :=
  let n := min xs.length q.free
  ({ items := q.items ++ xs.take n,
     bounded := by
       have hq := q.bounded
       simp only [List.length_append, List.length_take, free, count, n]
       omega }, n)

def dequeueBurst (q : BoundedFifo α cap) (n : Nat) : List α × BoundedFifo α cap :=
  (q.items.take n,
    { items := q.items.drop n,
      bounded := by
        have hq := q.bounded
        rw [List.length_drop]
        omega })

@[ext] theorem ext {q r : BoundedFifo α cap} (h : q.items = r.items) : q = r := by
  cases q
  cases r
  cases h
  rfl

@[simp] theorem items_empty : (empty : BoundedFifo α cap).items = [] := rfl

theorem items_enqueueBurst (q : BoundedFifo α cap) (xs : List α) :
    (q.enqueueBurst xs).1.items = q.items ++ xs.take (q.enqueueBurst xs).2 := rfl

/-- The entries that fit are those before the free slots run out. -/
theorem items_enqueueBurst_take (q : BoundedFifo α cap) (xs : List α) :
    (q.enqueueBurst xs).1.items = q.items ++ xs.take q.free := by
  rw [items_enqueueBurst]
  show q.items ++ xs.take (min xs.length q.free) = _
  rw [← List.take_take, List.take_of_length_le (List.length_take_le' _ _)]

theorem items_enqueueBurst_of_room {q : BoundedFifo α cap} {xs : List α}
    (h : xs.length ≤ q.free) : (q.enqueueBurst xs).1.items = q.items ++ xs := by
  have hn : (q.enqueueBurst xs).2 = xs.length := Nat.min_eq_left h
  rw [items_enqueueBurst, hn, List.take_length]

/-- What is on the queue after a burst enqueue, with what did not fit behind it. -/
theorem items_enqueueBurst_append (q : BoundedFifo α cap) (xs : List α) :
    (q.enqueueBurst xs).1.items ++ xs.drop q.free = q.items ++ xs := by
  rw [items_enqueueBurst_take, List.append_assoc, List.take_append_drop]

@[simp] theorem fst_dequeueBurst (q : BoundedFifo α cap) (n : Nat) :
    (q.dequeueBurst n).1 = q.items.take n := rfl

@[simp] theorem items_dequeueBurst (q : BoundedFifo α cap) (n : Nat) :
    (q.dequeueBurst n).2.items = q.items.drop n := rfl

theorem dequeueBurst_append (q : BoundedFifo α cap) (n : Nat) :
    (q.dequeueBurst n).1 ++ (q.dequeueBurst n).2.items = q.items :=
  List.take_append_drop n q.items

def map (f : α → β) (q : BoundedFifo α cap) : BoundedFifo β cap :=
  { items := q.items.map f,
    bounded := by
      rw [List.length_map]
      exact q.bounded }

@[simp] theorem items_map (f : α → β) (q : BoundedFifo α cap) :
    (q.map f).items = q.items.map f := rfl

@[simp] theorem free_map (f : α → β) (q : BoundedFifo α cap) : (q.map f).free = q.free := by
  rw [free, count, items_map, List.length_map]
  rfl

theorem map_enqueueBurst (f : α → β) (q : BoundedFifo α cap) (xs : List α) :
    (q.enqueueBurst xs).1.map f = ((q.map f).enqueueBurst (xs.map f)).1 := by
  apply ext
  rw [items_map, items_enqueueBurst_take, items_enqueueBurst_take, items_map, free_map,
    List.map_append, List.map_take]

theorem map_congr {f g : α → β} {q : BoundedFifo α cap} (h : ∀ a ∈ q.items, f a = g a) :
    q.map f = q.map g :=
  ext (List.map_congr_left h)

theorem length_dequeueBurst {q : BoundedFifo α cap} {n : Nat} (h : n ≤ q.count) :
    (q.dequeueBurst n).1.length = n := by
  rw [fst_dequeueBurst, List.length_take]
  exact Nat.min_eq_left h

end BoundedFifo
