import Mathlib.Data.List.Count
import Mathlib.Data.List.Perm.Basic
import Mathlib.Logic.Function.Basic

/-!
# Reference counts

The references that a state holds are a list of objects, one element for each place
that keeps a pointer.  Counts are right when the count of every object is the number
of times it occurs in the list.  Taking a reference adds an element and one to the
count of its object, and dropping one takes both away.
-/

namespace RefCount

variable {α : Type} [DecidableEq α]

def Counted (cnt : α → Nat) (refs : List α) : Prop := ∀ a, cnt a = refs.count a

variable {cnt : α → Nat} {refs refs' : List α} {a : α}

theorem counted_nil : Counted (fun _ : α => 0) [] := fun _ => rfl

theorem Counted.perm (h : Counted cnt refs) (hp : refs.Perm refs') : Counted cnt refs' := by
  intro b
  rw [h b, hp.count_eq]

theorem Counted.pos (h : Counted cnt refs) (ha : a ∈ refs) : cnt a ≠ 0 := by
  rw [h a]
  exact Nat.ne_of_gt (List.count_pos_iff.mpr ha)

theorem Counted.not_mem (h : Counted cnt refs) (ha : cnt a = 0) : a ∉ refs := by
  rw [h a] at ha
  exact List.count_eq_zero.mp ha

theorem Counted.acquire (h : Counted cnt refs) (a : α) :
    Counted (Function.update cnt a (cnt a + 1)) (a :: refs) := by
  intro b
  by_cases hb : b = a
  · subst hb
    rw [Function.update_self, List.count_cons_self, h b]
  · rw [Function.update_of_ne hb, List.count_cons_of_ne (Ne.symm hb), h b]

theorem Counted.release (h : Counted cnt refs) (hp : refs.Perm (a :: refs')) :
    Counted (Function.update cnt a (cnt a - 1)) refs' := by
  intro b
  have hb := h.perm hp b
  by_cases hba : b = a
  · subst hba
    rw [List.count_cons_self] at hb
    rw [Function.update_self, hb, Nat.add_sub_cancel]
  · rw [List.count_cons_of_ne (Ne.symm hba)] at hb
    rw [Function.update_of_ne hba, hb]

/-- The first reference to an object whose memory is free. -/
theorem Counted.fresh (h : Counted cnt refs) (ha : cnt a = 0) :
    Counted (Function.update cnt a 1) (a :: refs) := by
  have hone := h.acquire a
  rwa [ha] at hone

end RefCount
