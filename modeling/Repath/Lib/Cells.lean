import Mathlib.Data.List.Basic
import Mathlib.Data.List.Nodup
import Mathlib.Data.List.ReduceOption
import Mathlib.Logic.Function.Basic

/-!
# Cells and pointers

A store gives every address a cell.  A pointer is an address or, as `none`,
nothing that may be followed.  `overlay` writes a list of cells, `copyAll` runs
`*dst[i] = *src[i]` for one index after the other and fails at the first pointer
that may not be followed.
-/

namespace Cells

variable {α : Type}

theorem reduceOption_map_some (as : List α) : (as.map some).reduceOption = as := by
  rw [List.reduceOption, List.filterMap_map]
  exact List.filterMap_some

theorem exists_map_some {β : Type} {f : β → Option α} {xs : List β}
    (h : ∀ x ∈ xs, (f x).isSome) :
    ∃ as : List α, xs.map f = as.map some ∧ as.length = xs.length := by
  induction xs with
  | nil => exact ⟨[], rfl, rfl⟩
  | cons x xs ih =>
      rw [List.forall_mem_cons] at h
      obtain ⟨a, ha⟩ := Option.isSome_iff_exists.mp h.1
      obtain ⟨as, hmap, hlen⟩ := ih h.2
      exact ⟨a :: as, by rw [List.map_cons, List.map_cons, ha, hmap], by
        rw [List.length_cons, List.length_cons, hlen]⟩

theorem exists_of_none_not_mem {ps : List (Option α)} (h : none ∉ ps) :
    ∃ as : List α, ps = as.map some ∧ as.length = ps.length := by
  have hsome : ∀ p ∈ ps, (id p).isSome := by
    intro p hp
    cases p with
    | none => exact absurd hp h
    | some a => rfl
  obtain ⟨as, has, hlen⟩ := exists_map_some hsome
  rw [List.map_id] at has
  exact ⟨as, has, hlen⟩

def overlay (m : Nat → α) (cells : List (Nat × α)) : Nat → α := fun a =>
  (cells.lookup a).getD (m a)

theorem overlay_of_not_mem (m : Nat → α) {cells : List (Nat × α)} {a : Nat}
    (h : a ∉ cells.map Prod.fst) : overlay m cells a = m a := by
  have hnone : cells.lookup a = none := by
    rw [List.lookup_eq_none_iff]
    intro p hp
    have hne : a ≠ p.1 := fun he => h (List.mem_map.mpr ⟨p, hp, he.symm⟩)
    simpa using hne
  rw [overlay, hnone, Option.getD_none]

theorem overlay_of_mem (m : Nat → α) {cells : List (Nat × α)} {a : Nat}
    (h : a ∈ cells.map Prod.fst) : ∃ p ∈ cells, overlay m cells a = p.2 := by
  cases hlook : cells.lookup a with
  | none =>
      rw [List.lookup_eq_none_iff] at hlook
      obtain ⟨p, hp, rfl⟩ := List.mem_map.mp h
      exact absurd (hlook p hp) (by simp)
  | some x =>
      obtain ⟨front, back, hsplit, -⟩ := List.lookup_eq_some_iff.mp hlook
      refine ⟨(a, x), ?_, by rw [overlay, hlook, Option.getD_some]⟩
      rw [hsplit]
      exact List.mem_append_right front List.mem_cons_self

theorem map_overlay (m : Nat → α) {cells : List (Nat × α)} (h : (cells.map Prod.fst).Nodup) :
    (cells.map Prod.fst).map (overlay m cells) = cells.map Prod.snd := by
  induction cells with
  | nil => rfl
  | cons p cells ih =>
      obtain ⟨a, x⟩ := p
      rw [List.map_cons, List.nodup_cons] at h
      have hhead : overlay m ((a, x) :: cells) a = x := by
        simp [overlay]
      have htail : ∀ b ∈ cells.map Prod.fst, overlay m ((a, x) :: cells) b = overlay m cells b := by
        intro b hb
        have hne : (b == a) = false := beq_eq_false_iff_ne.mpr fun he => h.1 (he ▸ hb)
        simp [overlay, List.lookup_cons, hne]
      simp only [List.map_cons, hhead]
      rw [List.map_congr_left htail, ih h.2]

theorem eq_of_reduceOption {as bs : List (Option α)}
    (hsome : as.map Option.isSome = bs.map Option.isSome)
    (h : as.reduceOption = bs.reduceOption) : as = bs := by
  induction as generalizing bs with
  | nil => exact (List.map_eq_nil_iff.mp hsome.symm).symm
  | cons a as ih =>
      cases bs with
      | nil => cases hsome
      | cons b bs =>
          rw [List.map_cons, List.map_cons, List.cons.injEq] at hsome
          cases a with
          | none =>
              obtain rfl : b = none :=
                Option.not_isSome_iff_eq_none.mp (hsome.1 ▸ Bool.false_ne_true)
              rw [List.reduceOption_cons_of_none, List.reduceOption_cons_of_none] at h
              rw [ih hsome.2 h]
          | some x =>
              obtain ⟨y, rfl⟩ := Option.isSome_iff_exists.mp hsome.1.symm
              rw [List.reduceOption_cons_of_some, List.reduceOption_cons_of_some,
                List.cons.injEq] at h
              rw [h.1, ih hsome.2 h.2]

theorem length_reduceOption {β : Type} {as : List (Option α)} {bs : List (Option β)}
    (h : as.map Option.isSome = bs.map Option.isSome) :
    as.reduceOption.length = bs.reduceOption.length := by
  have hcount := congrArg (List.countP id) h
  rw [List.countP_map, List.countP_map] at hcount
  rw [List.reduceOption_length_eq, List.reduceOption_length_eq, ← List.countP_eq_length_filter,
    ← List.countP_eq_length_filter]
  exact hcount

/-- Pointers that are not null read back what was written through them. -/
theorem map_overlay_reduceOption (m : Nat → α) {ptrs : List (Option Nat)}
    {cells : List (Option α)} (hsome : ptrs.map Option.isSome = cells.map Option.isSome)
    (h : ptrs.reduceOption.Nodup) :
    ptrs.map (Option.map (overlay m (ptrs.reduceOption.zip cells.reduceOption))) = cells := by
  have hlen := length_reduceOption hsome
  apply eq_of_reduceOption
  · rw [← hsome, List.map_map]
    exact List.map_congr_left fun p _ => Option.isSome_map
  · rw [List.reduceOption_map]
    have hfst : (ptrs.reduceOption.zip cells.reduceOption).map Prod.fst = ptrs.reduceOption :=
      List.map_fst_zip (Nat.le_of_eq hlen)
    have hsnd : (ptrs.reduceOption.zip cells.reduceOption).map Prod.snd = cells.reduceOption :=
      List.map_snd_zip (Nat.le_of_eq hlen.symm)
    have hread := map_overlay m (hfst.symm ▸ h)
    rwa [hfst, hsnd] at hread

/-- `*dst[i] = *src[i]` for every index of `src`, in order. -/
def copyAll : List (Option Nat) → List (Option Nat) → (Nat → α) → Option (Nat → α)
  | _, [], m => some m
  | some d :: dst, some s :: src, m => copyAll dst src (Function.update m d (m s))
  | _, _ :: _, _ => none

/-- Different destinations, none of them a source, end up with the contents of the
sources, and no other cell changes. -/
theorem exists_copyAll : ∀ (src dst : List Nat) (rest : List (Option Nat)) (m : Nat → α),
    dst.length = src.length → dst.Nodup → (∀ a ∈ dst, a ∉ src) →
    ∃ m', copyAll (dst.map some ++ rest) (src.map some) m = some m' ∧
      dst.map m' = src.map m ∧ ∀ a, a ∉ dst → m' a = m a := by
  intro src
  induction src with
  | nil =>
      intro dst rest m hlen _ _
      obtain rfl := List.length_eq_zero_iff.mp hlen
      exact ⟨m, by cases rest <;> rfl, rfl, fun _ _ => rfl⟩
  | cons s src ih =>
      intro dst rest m hlen hnodup hdisj
      cases dst with
      | nil => cases hlen
      | cons d dst =>
          rw [List.nodup_cons] at hnodup
          have hsrc : ∀ a ∈ dst, a ∉ src := fun a ha hs =>
            hdisj a (List.mem_cons_of_mem d ha) (List.mem_cons_of_mem s hs)
          obtain ⟨m', hok, hcopied, hframe⟩ := ih dst rest (Function.update m d (m s))
            (Nat.succ.inj hlen) hnodup.2 hsrc
          refine ⟨m', hok, ?_, ?_⟩
          · have hd : m' d = m s := by rw [hframe d hnodup.1, Function.update_self]
            have hkept : src.map (Function.update m d (m s)) = src.map m := by
              refine List.map_congr_left fun a ha => ?_
              have hne : a ≠ d := fun he =>
                hdisj d List.mem_cons_self (List.mem_cons_of_mem s (he ▸ ha))
              rw [Function.update_of_ne hne]
            rw [List.map_cons, List.map_cons, hd, hcopied, hkept]
          · intro a ha
            rw [List.mem_cons, not_or] at ha
            rw [hframe a ha.2, Function.update_of_ne ha.1]

/-- Whatever the destinations are, no other cell changes. -/
theorem exists_copyAll_frame : ∀ (src dst : List Nat) (rest : List (Option Nat)) (m : Nat → α),
    dst.length = src.length →
    ∃ m', copyAll (dst.map some ++ rest) (src.map some) m = some m' ∧
      ∀ a, a ∉ dst → m' a = m a := by
  intro src
  induction src with
  | nil =>
      intro dst rest m hlen
      obtain rfl := List.length_eq_zero_iff.mp hlen
      exact ⟨m, by cases rest <;> rfl, fun _ _ => rfl⟩
  | cons s src ih =>
      intro dst rest m hlen
      cases dst with
      | nil => cases hlen
      | cons d dst =>
          obtain ⟨m', hok, hframe⟩ := ih dst rest (Function.update m d (m s)) (Nat.succ.inj hlen)
          refine ⟨m', hok, fun a ha => ?_⟩
          rw [List.mem_cons, not_or] at ha
          rw [hframe a ha.2, Function.update_of_ne ha.1]

theorem dst_of_copyAll : ∀ {src dst : List (Option Nat)} {m m' : Nat → α},
    copyAll dst src m = some m' →
    ∃ as : List Nat, dst.take src.length = as.map some ∧ as.length = src.length := by
  intro src
  induction src with
  | nil => exact fun _ => ⟨[], by rw [List.length_nil, List.take_zero, List.map_nil], rfl⟩
  | cons s src ih =>
      intro dst m m' h
      match dst, s, h with
      | some d :: dst, some s, h =>
          obtain ⟨as, htake, hlen⟩ := ih h
          refine ⟨d :: as, ?_, by rw [List.length_cons, List.length_cons, hlen]⟩
          rw [List.length_cons, List.take_succ_cons, htake, List.map_cons]

theorem src_of_copyAll : ∀ {src dst : List (Option Nat)} {m m' : Nat → α},
    copyAll dst src m = some m' → ∃ as : List Nat, src = as.map some := by
  intro src
  induction src with
  | nil => exact fun _ => ⟨[], rfl⟩
  | cons s src ih =>
      intro dst m m' h
      match dst, s, h with
      | some d :: dst, some s, h =>
          obtain ⟨as, has⟩ := ih h
          exact ⟨s :: as, by rw [has, List.map_cons]⟩

/-- A property of all cells that are read or kept survives the copies. -/
theorem copyAll_invariant {p : α → Prop} {S : Set Nat} :
    ∀ {src : List Nat} {dst : List (Option Nat)} {m m' : Nat → α},
      copyAll dst (src.map some) m = some m' → (∀ a ∈ src, a ∈ S) → (∀ a ∈ S, p (m a)) →
      ∀ a ∈ S, p (m' a) := by
  intro src
  induction src with
  | nil =>
      intro dst m m' h _ hp
      obtain rfl : m = m' := Option.some.inj ((show copyAll dst [] m = some m by
        cases dst <;> rfl).symm.trans h)
      exact hp
  | cons s src ih =>
      intro dst m m' h hsrc hp
      match dst, h with
      | some d :: dst, h =>
          refine ih h (fun a ha => hsrc a (List.mem_cons_of_mem s ha)) fun a ha => ?_
          by_cases hd : a = d
          · rw [hd, Function.update_self]
            exact hp s (hsrc s List.mem_cons_self)
          · rw [Function.update_of_ne hd]
            exact hp a ha

end Cells
