import Mathlib.Algebra.BigOperators.Group.List.Basic
import Mathlib.Algebra.GroupWithZero.Nat
import Mathlib.Logic.Function.Basic
import Repath.Lib.Grouping
import Repath.Lib.Snoc

/-!
# Batches per flow

`dp_netdev_queue_batches` appends a classified packet to the batch of its flow.  A
flow finds its batch through a pointer of its own, which is null while the flow has
none and is set back before the batches are executed.  The batches in use come out
as the packets grouped by flow.
-/

namespace Repath.Datapath

open Grouping Snoc

/-- A packet with the flow it was classified to and its TCP flags. -/
structure Classified (F P : Type) where
  flow : F
  packet : P
  tcpFlags : UInt16

structure PacketBatchPerFlow (F P : Type) where
  byteCount : Nat
  tcpFlags : UInt16
  flow : F
  array : List P

variable {F P : Type}

def packetBatchPerFlowInit (flow : F) : PacketBatchPerFlow F P :=
  { byteCount := 0, tcpFlags := 0, flow := flow, array := [] }

def packetBatchPerFlowUpdate (size : P → Nat) (batch : PacketBatchPerFlow F P) (packet : P)
    (tcpFlags : UInt16) : PacketBatchPerFlow F P :=
  { batch with byteCount := (batch.byteCount + size packet) % 2 ^ 32,
               tcpFlags := batch.tcpFlags ||| tcpFlags,
               array := batch.array ++ [packet] }

/-- The batches in use, and for every flow the place its `batch` points to. -/
structure Batches (F P : Type) where
  batchOf : F → Option Nat
  batches : List (PacketBatchPerFlow F P)

variable [DecidableEq F]

/-- `dp_netdev_queue_batches`. -/
def queueBatches (size : P → Nat) (b : Batches F P) (c : Classified F P) : Batches F P :=
  match b.batchOf c.flow with
  | some i =>
    { b with batches := b.batches.modify i fun batch =>
        packetBatchPerFlowUpdate size batch c.packet c.tcpFlags }
  | none =>
    { batchOf := Function.update b.batchOf c.flow (some b.batches.length),
      batches := b.batches ++
        [packetBatchPerFlowUpdate size (packetBatchPerFlowInit c.flow) c.packet c.tcpFlags] }

def queueAll (size : P → Nat) (b : Batches F P) (cs : List (Classified F P)) : Batches F P :=
  cs.foldl (queueBatches size) b

/-- The loop that sets the `batch` of every flow in use back to null. -/
def resetBatches (b : Batches F P) : F → Option Nat :=
  b.batches.foldl (fun batchOf batch => Function.update batchOf batch.flow none) b.batchOf

def Batches.start : Batches F P := { batchOf := fun _ => none, batches := [] }

/-- The batch that the packets of one flow make up. -/
def batchOfGroup (size : P → Nat) (g : F × List (Classified F P)) : PacketBatchPerFlow F P :=
  g.2.foldl (fun batch c => packetBatchPerFlowUpdate size batch c.packet c.tcpFlags)
    (packetBatchPerFlowInit g.1)

def keyed (cs : List (Classified F P)) : List (F × Classified F P) := cs.map fun c => (c.flow, c)

theorem members_keyed (cs : List (Classified F P)) (flow : F) :
    members flow (keyed cs) = cs.filter fun c => c.flow = flow := by
  unfold members keyed
  rw [List.filterMap_map]
  induction cs with
  | nil => rfl
  | cons c cs ih =>
      by_cases hc : c.flow = flow
      · simpa [hc, Function.comp_def] using ih
      · simpa [hc, Function.comp_def] using ih

/-- The batches are the groups of the packets queued so far, and the pointers of
the flows lead to them. -/
structure Batches.Holds (size : P → Nat) (queued : List (Classified F P)) (b : Batches F P) :
    Prop where
  grouped : b.batches = (group (keyed queued)).map (batchOfGroup size)
  pointed : ∀ f i, b.batchOf f = some i ↔ (keys (keyed queued))[i]? = some f

theorem holds_start (size : P → Nat) : (Batches.start : Batches F P).Holds size [] where
  grouped := rfl
  pointed f i := by
    constructor
    · intro h
      cases h
    · intro h
      cases h

theorem Batches.Holds.length {size : P → Nat} {queued : List (Classified F P)} {b : Batches F P}
    (h : b.Holds size queued) : b.batches.length = (keys (keyed queued)).length := by
  rw [h.grouped, List.length_map, group, List.length_map]

omit [DecidableEq F] in
theorem batchOfGroup_snoc (size : P → Nat) (f : F) (cs : List (Classified F P))
    (c : Classified F P) : batchOfGroup size (f, cs ++ [c]) =
      packetBatchPerFlowUpdate size (batchOfGroup size (f, cs)) c.packet c.tcpFlags := by
  unfold batchOfGroup
  rw [List.foldl_append]
  rfl

theorem holds_queueBatches {size : P → Nat} {queued : List (Classified F P)} {b : Batches F P}
    (h : b.Holds size queued) (c : Classified F P) :
    (queueBatches size b c).Holds size (queued ++ [c]) := by
  have hkeyed : keyed (queued ++ [c]) = keyed queued ++ [(c.flow, c)] := List.map_append
  unfold queueBatches
  cases hb : b.batchOf c.flow with
  | some i =>
      have hi := (h.pointed c.flow i).mp hb
      have hmem : c.flow ∈ keys (keyed queued) := List.mem_of_getElem? hi
      refine ⟨?_, ?_⟩
      · rw [hkeyed, group_snoc_mem hmem, List.map_map]
        apply List.ext_getElem?
        intro j
        rw [List.getElem?_modify, h.grouped, group]
        simp only [List.getElem?_map]
        cases hj : (keys (keyed queued))[j]? with
        | none => simp
        | some f =>
            by_cases hij : i = j
            · subst hij
              obtain rfl := Option.some.inj (hi.symm.trans hj)
              simp [batchOfGroup_snoc]
            · have hne : f ≠ c.flow := by
                intro he
                subst he
                exact hij ((List.getElem?_inj (List.getElem?_eq_some_iff.mp hi).1
                  (nodup_keys _)).mp (hi.trans hj.symm))
              simp [hij, hne]
      · intro f j
        rw [hkeyed, keys_snoc, if_pos hmem]
        exact h.pointed f j
  | none =>
      have hnew : c.flow ∉ keys (keyed queued) := by
        intro hmem
        obtain ⟨i, hi⟩ := List.mem_iff_getElem?.mp hmem
        rw [(h.pointed c.flow i).mpr hi] at hb
        cases hb
      refine ⟨?_, ?_⟩
      · rw [hkeyed, group_snoc_new hnew, List.map_append, ← h.grouped]
        rfl
      · intro f j
        dsimp only
        rw [hkeyed, keys_snoc, if_neg hnew, h.length]
        rw [getElem?_snoc_iff]
        by_cases hf : f = c.flow
        · subst hf
          rw [Function.update_self]
          constructor
          · intro hj
            exact Or.inr ⟨(Option.some.inj hj).symm, rfl⟩
          · intro hj
            rcases hj with hj | ⟨rfl, -⟩
            · exact absurd (List.mem_of_getElem? hj) hnew
            · rfl
        · rw [Function.update_of_ne hf, h.pointed f j]
          constructor
          · exact Or.inl
          · intro hj
            rcases hj with hj | ⟨-, hj⟩
            · exact hj
            · exact absurd hj hf

theorem holds_queueAll {size : P → Nat} (cs : List (Classified F P)) :
    ∀ {queued : List (Classified F P)} {b : Batches F P}, b.Holds size queued →
      (queueAll size b cs).Holds size (queued ++ cs) := by
  induction cs with
  | nil =>
      intro queued b h
      rwa [List.append_nil]
  | cons c cs ih =>
      intro queued b h
      have hrest := ih (holds_queueBatches h c)
      rwa [List.append_assoc, List.singleton_append] at hrest

/-- After the reset no flow points to a batch. -/
theorem resetBatches_eq {size : P → Nat} {queued : List (Classified F P)} {b : Batches F P}
    (h : b.Holds size queued) : resetBatches b = fun _ => none := by
  have hfold : ∀ (batches : List (PacketBatchPerFlow F P)) (batchOf : F → Option Nat) (f : F),
      batches.foldl (fun (batchOf : F → Option Nat) batch =>
        Function.update batchOf batch.flow none) batchOf f =
        if ∃ batch ∈ batches, batch.flow = f then none else batchOf f := by
    intro batches
    induction batches with
    | nil =>
        intro batchOf f
        simp
    | cons batch batches ih =>
        intro batchOf f
        rw [List.foldl_cons, ih]
        by_cases hf : batch.flow = f
        · subst hf
          simp
        · rw [Function.update_of_ne (Ne.symm hf)]
          simp [hf]
  funext f
  unfold resetBatches
  rw [hfold]
  by_cases hex : ∃ batch ∈ b.batches, batch.flow = f
  · rw [if_pos hex]
  · rw [if_neg hex]
    cases hb : b.batchOf f with
    | none => rfl
    | some i =>
        exfalso
        apply hex
        have hflow : ∀ g : F × List (Classified F P), (batchOfGroup size g).flow = g.1 := by
          intro g
          obtain ⟨f, cs⟩ := g
          induction cs using List.reverseRec with
          | nil => rfl
          | append_singleton cs c ih =>
              rw [batchOfGroup_snoc]
              exact ih
        have hmem : f ∈ keys (keyed queued) := List.mem_of_getElem? ((h.pointed f i).mp hb)
        refine ⟨batchOfGroup size (f, members f (keyed queued)), ?_, hflow _⟩
        rw [h.grouped]
        exact List.mem_map_of_mem (List.mem_map_of_mem hmem)

omit [DecidableEq F] in
theorem batchOfGroup_array (size : P → Nat) (f : F) (cs : List (Classified F P)) :
    (batchOfGroup size (f, cs)).flow = f ∧
      (batchOfGroup size (f, cs)).array = cs.map Classified.packet ∧
      (batchOfGroup size (f, cs)).byteCount = (cs.map fun c => size c.packet).sum % 2 ^ 32 := by
  induction cs using List.reverseRec with
  | nil => exact ⟨rfl, rfl, rfl⟩
  | append_singleton cs c ih =>
      obtain ⟨hflow, harray, hbytes⟩ := ih
      rw [batchOfGroup_snoc]
      refine ⟨hflow, ?_, ?_⟩
      · show (batchOfGroup size (f, cs)).array ++ [c.packet] = _
        rw [harray, List.map_append]
        rfl
      · show ((batchOfGroup size (f, cs)).byteCount + size c.packet) % 2 ^ 32 = _
        rw [hbytes, List.map_append, List.sum_append, Nat.mod_add_mod]
        rfl

end Repath.Datapath
