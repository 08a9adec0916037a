import Repath.Datapath.Input

/-!
# Every packet once and each flow in order

The stages of the pipeline are read as passes over one list of slots, one for each
packet in the order of arrival.  A slot is either decided or holds the key of a
packet that is still to be classified.  A pass leaves the decided slots and decides
some of the others, and the arrays of the pipeline stay the image of the slots from
the first miss on.
-/

namespace Repath.Datapath

open Compaction Grouping
open Repath.Ovs (netdevMaxBurst)

/-- What became of a packet. -/
inductive Outcome (F : Type)
  | dropped
  | flow (flow : F)
  | upcalled
  | lost
  deriving DecidableEq

inductive Slot (K F : Type)
  | done (outcome : Outcome F)
  | pending (key : K)

variable {T P K F S : Type}

/-- The flow map's entry for a slot. -/
def view (calls : Calls T P K F) (x : P × Slot K F) : Option (Classified F P) :=
  match x.2 with
  | .done (.flow flow) => some (calls.classified x.1 flow)
  | _ => none

/-- The records of the packets still to be classified, the first slot being the
`i`-th of the flow map. -/
def pend : Nat → List (P × Slot K F) → List (Missed P K)
  | _, [] => []
  | i, (p, .pending key) :: xs => { packet := p, key := key, recvIdx := i } :: pend (i + 1) xs
  | i, (_, .done _) :: xs => pend (i + 1) xs

/-- One pass: `g` is asked about the undecided slots in order. -/
def resolve (g : S → P → K → S × Slot K F) : S → List (P × Slot K F) → S × List (P × Slot K F)
  | s, [] => (s, [])
  | s, (p, .pending key) :: xs =>
    let r := g s p key
    let rest := resolve g r.1 xs
    (rest.1, (p, r.2) :: rest.2)
  | s, (p, .done o) :: xs =>
    let rest := resolve g s xs
    (rest.1, (p, .done o) :: rest.2)

theorem pend_append (xs ys : List (P × Slot K F)) : ∀ i,
    pend i (xs ++ ys) = pend i xs ++ pend (i + xs.length) ys := by
  induction xs with
  | nil => exact fun i => rfl
  | cons x xs ih =>
      intro i
      obtain ⟨p, o | key⟩ := x
      · show pend (i + 1) (xs ++ ys) = _
        rw [ih, List.length_cons, show i + (xs.length + 1) = i + 1 + xs.length by omega]
        rfl
      · show _ :: pend (i + 1) (xs ++ ys) = _
        rw [ih, List.length_cons, show i + (xs.length + 1) = i + 1 + xs.length by omega]
        rfl

theorem fst_resolve (g : S → P → K → S × Slot K F) (xs : List (P × Slot K F)) : ∀ s,
    (resolve g s xs).2.map Prod.fst = xs.map Prod.fst := by
  induction xs with
  | nil => exact fun _ => rfl
  | cons x xs ih =>
      intro s
      obtain ⟨p, o | key⟩ := x
      · exact congrArg (p :: ·) (ih s)
      · exact congrArg (p :: ·) (ih (g s p key).1)

/-- A pass over slots that are all decided. -/
theorem resolve_of_pend_nil (g : S → P → K → S × Slot K F) {xs : List (P × Slot K F)} {i : Nat}
    (h : pend i xs = []) (s : S) : resolve g s xs = (s, xs) := by
  induction xs generalizing i with
  | nil => rfl
  | cons x xs ih =>
      obtain ⟨p, o | key⟩ := x
      · rw [resolve, ih h]
      · cases h

theorem resolve_append (g : S → P → K → S × Slot K F) (xs ys : List (P × Slot K F)) : ∀ s,
    resolve g s (xs ++ ys) = ((resolve g (resolve g s xs).1 ys).1,
      (resolve g s xs).2 ++ (resolve g (resolve g s xs).1 ys).2) := by
  induction xs with
  | nil => exact fun _ => rfl
  | cons x xs ih =>
      intro s
      obtain ⟨p, o | key⟩ := x
      · simp only [List.cons_append, resolve, ih]
      · simp only [List.cons_append, resolve, ih]

def Slot.isDropped : Slot K F → Bool
  | .done .dropped => true
  | _ => false

def keepUndropped (xs : List (P × Slot K F)) : List (P × Slot K F) :=
  xs.filter fun x => !x.2.isDropped

/-- Slots of dropped packets may be left out of a pass that drops none. -/
theorem resolve_keepUndropped {g : S → P → K → S × Slot K F}
    (hg : ∀ s p key, (g s p key).2.isDropped = false) (xs : List (P × Slot K F)) : ∀ s,
    resolve g s (keepUndropped xs) =
      ((resolve g s xs).1, keepUndropped (resolve g s xs).2) := by
  induction xs with
  | nil => exact fun _ => rfl
  | cons x xs ih =>
      intro s
      unfold keepUndropped at ih ⊢
      obtain ⟨p, o | key⟩ := x
      · by_cases hd : (Slot.done o : Slot K F).isDropped
        · simp [hd, resolve, ih]
        · simp [hd, resolve, ih]
      · have hkey : (Slot.pending key : Slot K F).isDropped = false := rfl
        simp [hkey, resolve, ih, hg]

/-- The packets queued for execution. -/
def hits (calls : Calls T P K F) (xs : List (P × Slot K F)) : List (Classified F P) :=
  xs.filterMap (view calls)

theorem hits_append (calls : Calls T P K F) (xs ys : List (P × Slot K F)) :
    hits calls (xs ++ ys) = hits calls xs ++ hits calls ys := List.filterMap_append

theorem hits_keepUndropped (calls : Calls T P K F) (xs : List (P × Slot K F)) :
    hits calls (keepUndropped xs) = hits calls xs := by
  unfold hits keepUndropped
  rw [List.filterMap_filter]
  apply List.filterMap_congr
  intro x _
  obtain ⟨p, o | key⟩ := x
  · cases o <;> rfl
  · rfl


/-! ### The caches -/

/-- What `dfc_processing` finds for a packet. -/
def dfcSlot (calls : Calls T P K F) (t : T) (packet : P) : Slot K F :=
  let simpleMatch := !calls.mdIsValid && calls.simpleMatchEnabled t
  let hw := calls.netdevFlowApi && calls.recircDepth = 0
  if calls.size packet < ethHeaderLen || hw && calls.recoverFails packet then .done .dropped
  else
    match (if hw then calls.markToFlow t packet else none)
      <|> (if simpleMatch then calls.simpleMatchLookup t packet else none)
      <|> (if (if simpleMatch then 0 else calls.emcInsertMin) ≠ 0
        then calls.emcLookup t (calls.key packet) else none) with
    | some flow => .done (.flow flow)
    | none => .pending (calls.key packet)

/-- The packets of `xs` in slots. -/
def dfcSlots (calls : Calls T P K F) (t : T) (packets : List P) : List (P × Slot K F) :=
  packets.map fun p => (p, dfcSlot calls t p)

/-- The packets to which the caches gave a flow. -/
def Dfc.nHit (s : Dfc F P K) : Nat := s.nPhwolHit + s.nSimpleHit + s.nEmcHit

theorem keepUndropped_snoc (xs : List (P × Slot K F)) (x : P × Slot K F) :
    keepUndropped (xs ++ [x]) =
      keepUndropped xs ++ if x.2.isDropped then [] else [x] := by
  unfold keepUndropped
  rw [List.filter_append]
  cases hx : x.2.isDropped <;> simp [hx]

theorem hits_snoc (calls : Calls T P K F) (xs : List (P × Slot K F)) (p : P) (flow : F) :
    hits calls (xs ++ [(p, .done (.flow flow))]) =
      hits calls xs ++ [calls.classified p flow] := by
  rw [hits_append]
  rfl

section Dfc

variable [DecidableEq F]

/-- What the body of the loop does, by what is found for the packet. -/
theorem dfcBody_eq (calls : Calls T P K F) (t : T) (s : Dfc F P K) (i : Nat) (packet : P) :
    (dfcSlot calls t packet = .done .dropped ∧
      dfcBody calls t s i packet = ({ s with dropped := s.dropped ++ [packet] }, none)) ∨
    (∃ flow phwol simple emc, dfcSlot calls t packet = .done (.flow flow) ∧
      phwol + simple + emc = s.nHit + 1 ∧
      dfcBody calls t s i packet = (enqueueClassified calls
        { s with nPhwolHit := phwol, nSimpleHit := simple, nEmcHit := emc } packet flow, none)) ∨
    (dfcSlot calls t packet = .pending (calls.key packet) ∧
      dfcBody calls t s i packet =
        ({ s with missed := s.missed ++ [(calls.key packet, s.flowMap.length % 2 ^ 8)],
                  flowMap := s.flowMap ++ [none], batchEnable := false }, some packet)) := by
  unfold dfcSlot dfcBody Dfc.nHit
  dsimp only
  by_cases hlen : calls.size packet < ethHeaderLen
  · exact Or.inl ⟨by simp [hlen], by rw [if_pos hlen]⟩
  rw [if_neg hlen]
  generalize (calls.netdevFlowApi && decide (calls.recircDepth = 0)) = hw
  generalize (!calls.mdIsValid && calls.simpleMatchEnabled t) = simple
  by_cases hrec : hw && calls.recoverFails packet
  · exact Or.inl ⟨by simp [hrec], by rw [if_pos hrec]⟩
  rw [if_neg hrec, if_neg (by simp [hlen, hrec])]
  right
  generalize (if hw then calls.markToFlow t packet else none) = byMark
  generalize (if simple then calls.simpleMatchLookup t packet else none) = bySimple
  generalize (if (if simple then 0 else calls.emcInsertMin) ≠ 0
    then calls.emcLookup t (calls.key packet) else none) = byEmc
  cases byMark with
  | some flow => exact Or.inl ⟨flow, _, _, _, rfl, by omega, rfl⟩
  | none =>
      cases bySimple with
      | some flow => exact Or.inl ⟨flow, _, _, _, rfl, by omega, rfl⟩
      | none =>
          cases byEmc with
          | some flow => exact Or.inl ⟨flow, _, _, _, rfl, by omega, rfl⟩
          | none => exact Or.inr ⟨rfl, rfl⟩

/-- The slots before the first miss are queued, those from there on are in the flow
map. -/
structure Dfc.Holds (calls : Calls T P K F) (slots head tail : List (P × Slot K F))
    (s : Dfc F P K) : Prop where
  split : keepUndropped slots = head ++ tail
  decided : pend 0 head = []
  queued : s.batches.Holds calls.size (hits calls head)
  mapped : s.flowMap = tail.map (view calls)
  missed : s.missed = (pend 0 tail).map fun m => (m.key, m.recvIdx % 2 ^ 8)
  enabled : s.batchEnable = tail.isEmpty
  dropped : s.dropped = (slots.filter fun x => x.2.isDropped).map Prod.fst
  counted : s.nHit + (pend 0 tail).length = (keepUndropped slots).length

theorem dfc_start (calls : Calls T P K F) :
    (Dfc.start : Dfc F P K).Holds calls [] [] [] where
  split := rfl
  decided := rfl
  queued := holds_start calls.size
  mapped := rfl
  missed := rfl
  enabled := rfl
  dropped := rfl
  counted := rfl

/-- One packet of the batch, and whether it stays in the array. -/
theorem dfc_step {calls : Calls T P K F} {t : T} {slots head tail : List (P × Slot K F)}
    {s : Dfc F P K} (h : s.Holds calls slots head tail) (i : Nat) (packet : P) :
    ∃ head' tail', (dfcBody calls t s i packet).1.Holds calls
        (slots ++ [(packet, dfcSlot calls t packet)]) head' tail' ∧
      (pend 0 tail').map Missed.packet =
        (pend 0 tail).map Missed.packet ++ (dfcBody calls t s i packet).2.toList := by
  rcases dfcBody_eq calls t s i packet with ⟨hslot, hbody⟩ |
    ⟨flow, phwol, simple, emc, hslot, hcount, hbody⟩ | ⟨hslot, hbody⟩
  · -- too short, or dropped by the device
    refine ⟨head, tail, ?_, by simp [hbody]⟩
    have hd : (Slot.done .dropped : Slot K F).isDropped = true := rfl
    rw [hbody, hslot]
    exact
      { split := by rw [keepUndropped_snoc, hd, if_pos rfl, List.append_nil, h.split]
        decided := h.decided
        queued := h.queued
        mapped := h.mapped
        missed := h.missed
        enabled := h.enabled
        dropped := by
          rw [List.filter_append, List.map_append, ← h.dropped]
          rfl
        counted := by
          rw [keepUndropped_snoc, hd, if_pos rfl, List.append_nil]
          exact h.counted }
  · have hd : (Slot.done (.flow flow) : Slot K F).isDropped = false := rfl
    have hdropped : s.dropped =
        ((slots ++ [(packet, (Slot.done (.flow flow) : Slot K F))]).filter
          fun x => x.2.isDropped).map Prod.fst := by
      rw [List.filter_append, List.map_append, ← h.dropped]
      exact (List.append_nil _).symm
    have hcounted : phwol + simple + emc + (pend 0 tail).length =
        (keepUndropped (slots ++ [(packet, Slot.done (.flow flow))])).length := by
      have hold := h.counted
      rw [keepUndropped_snoc, hd, if_neg Bool.false_ne_true, List.length_append,
        List.length_singleton]
      omega
    rw [hbody, hslot]
    unfold enqueueClassified
    cases tail with
    | nil =>
        -- batches are still being filled
        have henabled : s.batchEnable = true := h.enabled
        refine ⟨head ++ [(packet, .done (.flow flow))], [], ?_, rfl⟩
        dsimp only
        rw [if_pos henabled]
        exact
          { split := by
              rw [keepUndropped_snoc, hd, if_neg Bool.false_ne_true, h.split, List.append_nil,
                List.append_nil]
            decided := by
              rw [pend_append, h.decided]
              rfl
            queued := by
              rw [hits_snoc]
              exact holds_queueBatches h.queued _
            mapped := h.mapped
            missed := h.missed
            enabled := henabled
            dropped := hdropped
            counted := hcounted }
    | cons x tail =>
        have henabled : ¬ s.batchEnable = true := by simp [h.enabled]
        have hpend : pend 0 (x :: tail ++ [(packet, Slot.done (.flow flow))]) =
            pend 0 (x :: tail) := by
          rw [pend_append]
          exact List.append_nil _
        refine ⟨head, x :: tail ++ [(packet, .done (.flow flow))], ?_, ?_⟩
        · dsimp only
          rw [if_neg henabled]
          exact
            { split := by
                rw [keepUndropped_snoc, hd, if_neg Bool.false_ne_true, h.split,
                  List.append_assoc]
              decided := h.decided
              queued := h.queued
              mapped := by
                rw [List.map_append, ← h.mapped]
                rfl
              missed := by
                rw [hpend]
                exact h.missed
              enabled := h.enabled
              dropped := hdropped
              counted := by
                rw [hpend]
                exact hcounted }
        · rw [hpend]
          exact (List.append_nil _).symm
  · have hd : (Slot.pending (calls.key packet) : Slot K F).isDropped = false := rfl
    have hpend : pend 0 (tail ++ [(packet, (Slot.pending (calls.key packet) : Slot K F))]) =
        pend 0 tail ++ [⟨packet, calls.key packet, tail.length⟩] := by
      rw [pend_append, Nat.zero_add]
      rfl
    refine ⟨head, tail ++ [(packet, .pending (calls.key packet))], ?_, ?_⟩
    · rw [hbody, hslot]
      exact
        { split := by
            rw [keepUndropped_snoc, hd, if_neg Bool.false_ne_true, h.split, List.append_assoc]
          decided := h.decided
          queued := h.queued
          mapped := by
            rw [List.map_append, ← h.mapped]
            rfl
          missed := by
            rw [hpend, List.map_append, ← h.missed, h.mapped, List.length_map]
            rfl
          enabled := by simp
          dropped := by
            rw [List.filter_append, List.map_append, ← h.dropped]
            exact (List.append_nil _).symm
          counted := by
            have hold := h.counted
            rw [keepUndropped_snoc, hd, if_neg Bool.false_ne_true, hpend, List.length_append,
              List.length_append, ← hold]
            exact (Nat.add_assoc _ _ _).symm }
    · rw [hpend, hbody, List.map_append]
      rfl

/-- The whole loop. -/
theorem dfc_run (calls : Calls T P K F) (t : T) (packets : List P) :
    ∃ head tail, (compact (dfcBody calls t) .start packets).1.Holds calls
        (dfcSlots calls t packets) head tail ∧
      (compact (dfcBody calls t) .start packets).2 = (pend 0 tail).map Missed.packet := by
  rw [compact_eq_kept]
  induction packets using List.reverseRec with
  | nil => exact ⟨[], [], dfc_start calls, rfl⟩
  | append_singleton packets packet ih =>
      obtain ⟨head, tail, hold, hkept⟩ := ih
      obtain ⟨head', tail', hnew, hmore⟩ := dfc_step (t := t) hold (0 + packets.length) packet
      refine ⟨head', tail', ?_, ?_⟩
      · rw [kept_append, dfcSlots, List.map_append]
        exact hnew
      · rw [kept_append, hmore, ← hkept]
        show _ ++ (_ ++ []) = _
        rw [List.append_nil]

end Dfc

/-! ### The signature cache -/

/-- What `smc_lookup_batch` does about one packet. -/
def smcPass (calls : Calls T P K F) (t : T) (packet : P) (key : K) : T × Slot K F :=
  match calls.smcLookup t packet key with
  | some flow => (calls.emcProbabilisticInsert t key flow, .done (.flow flow))
  | none => (t, .pending key)

/-- The entry of one slot is written. -/
theorem set_view {β : Type} (pre : List β) (x y : β) (ys : List β) :
    (pre ++ x :: ys).set pre.length y = (pre ++ [y]) ++ ys := by
  simp

/-- The loop is a pass over the slots of the flow map, of which `pre` are behind. -/
theorem smc_run (calls : Calls T P K F) (xs : List (P × Slot K F)) :
    ∀ (i : Nat) (t : T) (pre : List (Option (Classified F P))) (n : Nat),
      ∃ n', kept (smcBody calls) i
          { tables := t, flowMap := pre ++ xs.map (view calls), nSmcHit := n }
          (pend pre.length xs) =
        ({ tables := (resolve (smcPass calls) t xs).1,
           flowMap := pre ++ (resolve (smcPass calls) t xs).2.map (view calls),
           nSmcHit := n' }, pend pre.length (resolve (smcPass calls) t xs).2) ∧
        n' + (pend pre.length (resolve (smcPass calls) t xs).2).length =
          n + (pend pre.length xs).length := by
  induction xs with
  | nil => exact fun i t pre n => ⟨n, rfl, rfl⟩
  | cons x xs ih =>
      intro i t pre n
      obtain ⟨p, o | key⟩ := x
      · -- a decided slot is passed over
        have hrest := ih i t (pre ++ [view calls (p, .done o)]) n
        rw [List.length_append, List.length_singleton, List.append_assoc] at hrest
        obtain ⟨n', hrun, hcount⟩ := hrest
        refine ⟨n', hrun.trans ?_, hcount⟩
        rw [resolve, List.map_cons, List.append_assoc]
        rfl
      · rw [pend, resolve, kept, smcBody, smcPass]
        dsimp only
        cases hfound : calls.smcLookup t p key with
        | some flow =>
            have hrest := ih (i + 1) (calls.emcProbabilisticInsert t key flow)
              (pre ++ [some (calls.classified p flow)]) (n + 1)
            rw [List.length_append, List.length_singleton] at hrest
            obtain ⟨n', hrun, hcount⟩ := hrest
            refine ⟨n', ?_, ?_⟩
            · dsimp only
              rw [List.map_cons, set_view, hrun, List.append_assoc]
              rfl
            · dsimp only
              rw [List.length_cons, pend]
              omega
        | none =>
            have hrest := ih (i + 1) t (pre ++ [none]) n
            rw [List.length_append, List.length_singleton, List.append_assoc] at hrest
            obtain ⟨n', hrun, hcount⟩ := hrest
            refine ⟨n', ?_, ?_⟩
            · dsimp only
              rw [List.map_cons, show view calls (p, .pending key) = none from rfl]
              rw [show pre ++ none :: xs.map (view calls) = pre ++ ([none] ++ xs.map (view calls))
                from rfl, hrun, List.append_assoc]
              rfl
            · dsimp only
              rw [List.length_cons, pend, List.length_cons]
              omega

/-! ### The classifier and the slow path -/

/-- What the fast path does about one packet once the classifier was asked at `t₀`. -/
def upcallPass (calls : Calls T P K F) (t₀ : T) (inPort : Nat) (t : T) (packet : P) (key : K) :
    T × Slot K F :=
  match calls.dpclsLookup t₀ inPort key with
  | some flow => (t, .done (.flow flow))
  | none =>
    match calls.lookupFlow t key with
    | some flow => (t, .done (.flow flow))
    | none => ((calls.handlePacketUpcall t packet key).1, .done .upcalled)

/-- The same with the lock for upcalls taken. -/
def lostPass (calls : Calls T P K F) (t₀ : T) (inPort : Nat) (t : T) (_packet : P) (key : K) :
    T × Slot K F :=
  match calls.dpclsLookup t₀ inPort key with
  | some flow => (t, .done (.flow flow))
  | none => (t, .done .lost)

/-- What the classifier says of the packets still to be classified. -/
def rulesAt (calls : Calls T P K F) (t₀ : T) (inPort : Nat) (missed : List (Missed P K)) :
    List (Missed P K × Option F) :=
  missed.map fun m => (m, calls.dpclsLookup t₀ inPort m.key)

/-- The packets that a test on the outcome picks. -/
def packetsWith (is : Outcome F → Bool) (xs : List (P × Slot K F)) : List P :=
  xs.filterMap fun x =>
    match x.2 with
    | .done o => if is o then some x.1 else none
    | .pending _ => none

def Outcome.isUpcalled : Outcome F → Bool
  | .upcalled => true
  | _ => false

def Outcome.isLost : Outcome F → Bool
  | .lost => true
  | _ => false

/-- The keys that a pass from `xs` to `ys` found a flow for, with the flow. -/
def found : List (P × Slot K F) → List (P × Slot K F) → List (K × F)
  | (_, .pending key) :: xs, (_, .done (.flow flow)) :: ys => (key, flow) :: found xs ys
  | _ :: xs, _ :: ys => found xs ys
  | _, _ => []

def insertFound (calls : Calls T P K F) (t : T) (kfs : List (K × F)) : T :=
  kfs.foldl (fun t kf => calls.emcProbabilisticInsert (calls.smcInsert t kf.1 kf.2) kf.1 kf.2) t

/-- What the rules of the packets in `xs` amount to, when a pass has decided them as
in `ys`. -/
structure Settles (calls : Calls T P K F) (xs ys : List (P × Slot K F))
    (pre : List (Option (Classified F P))) (rules : List (Missed P K × Option F)) : Prop where
  enqueued : ∀ t, enqueueRules calls (t, pre ++ xs.map (view calls)) rules =
    (insertFound calls t (found xs ys), pre ++ ys.map (view calls))

theorem settles_nil (calls : Calls T P K F) (pre : List (Option (Classified F P))) :
    Settles calls ([] : List (P × Slot K F)) [] pre [] where
  enqueued _ := rfl

theorem settles_done {calls : Calls T P K F} {xs ys : List (P × Slot K F)} {p : P} {o : Outcome F}
    {pre : List (Option (Classified F P))} {rules : List (Missed P K × Option F)}
    (h : Settles calls xs ys (pre ++ [view calls (p, (.done o : Slot K F))]) rules) :
    Settles calls ((p, .done o) :: xs) ((p, .done o) :: ys) pre rules where
  enqueued t := by
    have hrest := h.enqueued t
    rw [List.append_assoc, List.append_assoc] at hrest
    exact hrest

theorem settles_flow {calls : Calls T P K F} {xs ys : List (P × Slot K F)} {p : P} {key : K}
    {flow : F} {pre : List (Option (Classified F P))} {rules : List (Missed P K × Option F)}
    (h : Settles calls xs ys (pre ++ [some (calls.classified p flow)]) rules) :
    Settles calls ((p, .pending key) :: xs) ((p, .done (.flow flow)) :: ys) pre
      ((⟨p, key, pre.length⟩, some flow) :: rules) where
  enqueued t := by
    have hrest := h.enqueued (calls.emcProbabilisticInsert (calls.smcInsert t key flow) key flow)
    rw [List.append_assoc, List.append_assoc] at hrest
    show enqueueRules calls (_, List.set _ _ _) rules = _
    rw [List.map_cons, set_view, List.append_assoc]
    exact hrest

/-- A packet that gets no flow. -/
theorem settles_none {calls : Calls T P K F} {xs ys : List (P × Slot K F)} {m : Missed P K}
    {o : Outcome F} {pre : List (Option (Classified F P))}
    {rules : List (Missed P K × Option F)} (ho : o = .upcalled ∨ o = .lost)
    (h : Settles calls xs ys (pre ++ [none]) rules) :
    Settles calls ((m.packet, .pending m.key) :: xs) ((m.packet, .done o) :: ys) pre
      ((m, none) :: rules) where
  enqueued t := by
    have hrest := h.enqueued t
    rw [List.append_assoc, List.append_assoc] at hrest
    obtain rfl | rfl := ho
    · exact hrest
    · exact hrest

/-- The loop of upcalls is a pass over the slots. -/
theorem upcall_run (calls : Calls T P K F) (t₀ : T) (inPort : Nat) (xs : List (P × Slot K F)) :
    ∀ (t : T) (pre : List (Option (Classified F P))),
      (upcallLoop calls t (rulesAt calls t₀ inPort (pend pre.length xs))).tables =
        (resolve (upcallPass calls t₀ inPort) t xs).1 ∧
      Settles calls xs (resolve (upcallPass calls t₀ inPort) t xs).2 pre
        (upcallLoop calls t (rulesAt calls t₀ inPort (pend pre.length xs))).rules := by
  induction xs with
  | nil => exact fun t pre => ⟨rfl, settles_nil calls pre⟩
  | cons x xs ih =>
      intro t pre
      obtain ⟨p, o | key⟩ := x
      · have hrest := ih t (pre ++ [view calls (p, .done o)])
        rw [List.length_append, List.length_singleton] at hrest
        exact ⟨hrest.1, settles_done hrest.2⟩
      · rw [pend, rulesAt, List.map_cons, resolve, upcallPass]
        dsimp only
        cases hrule : calls.dpclsLookup t₀ inPort key with
        | some flow =>
            have hrest := ih t (pre ++ [some (calls.classified p flow)])
            rw [List.length_append, List.length_singleton] at hrest
            exact ⟨hrest.1, settles_flow hrest.2⟩
        | none =>
            rw [upcallLoop]
            dsimp only
            cases hagain : calls.lookupFlow t key with
            | some flow =>
                have hrest := ih t (pre ++ [some (calls.classified p flow)])
                rw [List.length_append, List.length_singleton] at hrest
                exact ⟨hrest.1, settles_flow hrest.2⟩
            | none =>
                have hrest := ih (calls.handlePacketUpcall t p key).1 (pre ++ [none])
                rw [List.length_append, List.length_singleton] at hrest
                exact ⟨hrest.1, settles_none (m := ⟨p, key, pre.length⟩) (Or.inl rfl) hrest.2⟩

theorem lost_run (calls : Calls T P K F) (t₀ : T) (inPort : Nat) (t : T)
    (xs : List (P × Slot K F)) : ∀ pre : List (Option (Classified F P)),
      (resolve (lostPass calls t₀ inPort) t xs).1 = t ∧
      Settles calls xs (resolve (lostPass calls t₀ inPort) t xs).2 pre
        (rulesAt calls t₀ inPort (pend pre.length xs)) := by
  induction xs with
  | nil => exact fun pre => ⟨rfl, settles_nil calls pre⟩
  | cons x xs ih =>
      intro pre
      obtain ⟨p, o | key⟩ := x
      · have hrest := ih (pre ++ [view calls (p, .done o)])
        rw [List.length_append, List.length_singleton] at hrest
        exact ⟨hrest.1, settles_done hrest.2⟩
      · rw [pend, rulesAt, List.map_cons, resolve, lostPass]
        dsimp only
        cases hrule : calls.dpclsLookup t₀ inPort key with
        | some flow =>
            have hrest := ih (pre ++ [some (calls.classified p flow)])
            rw [List.length_append, List.length_singleton] at hrest
            exact ⟨hrest.1, settles_flow hrest.2⟩
        | none =>
            have hrest := ih (pre ++ [none])
            rw [List.length_append, List.length_singleton] at hrest
            exact ⟨hrest.1, settles_none (m := ⟨p, key, pre.length⟩) (Or.inr rfl) hrest.2⟩

/-- Slots from before the fast path. -/
def Early (xs : List (P × Slot K F)) : Prop :=
  ∀ x ∈ xs, ∀ o, x.2 = .done o → o.isUpcalled = false ∧ o.isLost = false

theorem upcalled_run (calls : Calls T P K F) (t₀ : T) (inPort : Nat) {xs : List (P × Slot K F)}
    (h : Early xs) : ∀ (t : T) (i : Nat),
      (upcallLoop calls t (rulesAt calls t₀ inPort (pend i xs))).upcalled =
        packetsWith Outcome.isUpcalled (resolve (upcallPass calls t₀ inPort) t xs).2 ∧
      packetsWith Outcome.isLost (resolve (upcallPass calls t₀ inPort) t xs).2 = [] := by
  induction xs with
  | nil => exact fun t i => ⟨rfl, rfl⟩
  | cons x xs ih =>
      intro t i
      have hxs : Early xs := fun y hy => h y (List.mem_cons_of_mem x hy)
      obtain ⟨p, o | key⟩ := x
      · have ho := h _ List.mem_cons_self o rfl
        have hrest := ih hxs t (i + 1)
        simpa [pend, resolve, packetsWith, ho] using hrest
      · rw [pend, rulesAt, List.map_cons, resolve, upcallPass]
        dsimp only
        cases hrule : calls.dpclsLookup t₀ inPort key with
        | some flow => exact ih hxs t (i + 1)
        | none =>
            rw [upcallLoop]
            dsimp only
            cases hagain : calls.lookupFlow t key with
            | some flow => exact ih hxs t (i + 1)
            | none =>
                have hrest := ih hxs (calls.handlePacketUpcall t p key).1 (i + 1)
                exact ⟨congrArg (p :: ·) hrest.1, hrest.2⟩

theorem lost_packets (calls : Calls T P K F) (t₀ : T) (inPort : Nat) (t : T)
    {xs : List (P × Slot K F)} (h : Early xs) : ∀ i : Nat,
      ((rulesAt calls t₀ inPort (pend i xs)).filter fun r => r.2.isNone).map (fun r => r.1.packet) =
        packetsWith Outcome.isLost (resolve (lostPass calls t₀ inPort) t xs).2 ∧
      packetsWith Outcome.isUpcalled (resolve (lostPass calls t₀ inPort) t xs).2 = [] := by
  induction xs with
  | nil => exact fun i => ⟨rfl, rfl⟩
  | cons x xs ih =>
      intro i
      have hxs : Early xs := fun y hy => h y (List.mem_cons_of_mem x hy)
      obtain ⟨p, o | key⟩ := x
      · have ho := h _ List.mem_cons_self o rfl
        have hrest := ih hxs (i + 1)
        simpa [pend, resolve, packetsWith, ho] using hrest
      · rw [pend, rulesAt, List.map_cons, resolve, lostPass]
        dsimp only
        cases hrule : calls.dpclsLookup t₀ inPort key with
        | some flow => exact ih hxs (i + 1)
        | none =>
            have hrest := ih hxs (i + 1)
            exact ⟨congrArg (p :: ·) hrest.1, hrest.2⟩

theorem upcallLoop_counts (calls : Calls T P K F) (rules : List (Missed P K × Option F)) :
    ∀ t, (upcallLoop calls t rules).upcallOkCnt + (upcallLoop calls t rules).upcallFailCnt =
        (upcallLoop calls t rules).upcalled.length ∧
      (upcallLoop calls t rules).upcalled.length ≤ rules.length := by
  induction rules with
  | nil => exact fun t => ⟨rfl, Nat.le_refl 0⟩
  | cons r rules ih =>
      intro t
      obtain ⟨m, _ | flow⟩ := r
      · rw [upcallLoop]
        dsimp only
        cases hagain : calls.lookupFlow t m.key with
        | some flow =>
            have hrest := ih t
            rw [List.length_cons]
            exact ⟨hrest.1, Nat.le_succ_of_le hrest.2⟩
        | none =>
            have hrest := ih (calls.handlePacketUpcall t m.packet m.key).1
            dsimp only
            rw [List.length_cons, List.length_cons]
            cases (calls.handlePacketUpcall t m.packet m.key).2
            · simp only [Bool.false_eq_true, if_false]
              omega
            · simp only [if_true]
              omega
      · have hrest := ih t
        rw [List.length_cons]
        exact ⟨hrest.1, Nat.le_succ_of_le hrest.2⟩

/-- With a rule for every packet there is nothing for the slow path. -/
theorem upcallLoop_of_rules (calls : Calls T P K F) {rules : List (Missed P K × Option F)}
    (h : rules.any (fun r => r.2.isNone) = false) (t : T) :
    upcallLoop calls t rules =
      { tables := t, rules := rules, upcalled := [], upcallOkCnt := 0, upcallFailCnt := 0 } := by
  induction rules with
  | nil => rfl
  | cons r rules ih =>
      rw [List.any_cons, Bool.or_eq_false_iff] at h
      obtain ⟨m, _ | flow⟩ := r
      · exact absurd h.1 (by simp)
      · rw [upcallLoop, ih h.2]

def fastPass (calls : Calls T P K F) (acquired : Bool) (t₀ : T) (inPort : Nat) :
    T → P → K → T × Slot K F :=
  if acquired then upcallPass calls t₀ inPort else lostPass calls t₀ inPort

structure FastPath.Settles (calls : Calls T P K F) (xs : List (P × Slot K F))
    (z : T × List (P × Slot K F)) (f : FastPath T F P) : Prop where
  tables : f.tables = insertFound calls z.1 (found xs z.2)
  flowMap : f.flowMap = z.2.map (view calls)
  upcalled : f.upcalled = packetsWith Outcome.isUpcalled z.2
  lost : f.lost = packetsWith Outcome.isLost z.2
  counted : f.maskedHit + f.miss + f.lostCnt = (pend 0 xs).length

theorem fastPath_settles (calls : Calls T P K F) (t : T) (acquired : Bool) (inPort : Nat)
    {xs : List (P × Slot K F)} (h : Early xs) :
    (fastPathProcessing calls t (xs.map (view calls)) acquired inPort (pend 0 xs)).Settles calls xs
      (resolve (fastPass calls acquired t inPort) t xs) := by
  have hlen : (rulesAt calls t inPort (pend 0 xs)).length = (pend 0 xs).length := List.length_map _
  unfold fastPathProcessing
  dsimp only
  rw [show ((pend 0 xs).map fun m => (m, calls.dpclsLookup t inPort m.key)) =
    rulesAt calls t inPort (pend 0 xs) from rfl]
  cases acquired with
  | true =>
      obtain ⟨htables, hrules⟩ := upcall_run calls t inPort xs t []
      obtain ⟨hupcalled, hlost⟩ := upcalled_run calls t inPort h t 0
      obtain ⟨hcount, hle⟩ := upcallLoop_counts calls (rulesAt calls t inPort (pend 0 xs)) t
      have hslow : (if (rulesAt calls t inPort (pend 0 xs)).any fun r => r.2.isNone
          then upcallLoop calls t (rulesAt calls t inPort (pend 0 xs))
          else { tables := t, rules := rulesAt calls t inPort (pend 0 xs), upcalled := [],
                 upcallOkCnt := 0, upcallFailCnt := 0 }) =
          upcallLoop calls t (rulesAt calls t inPort (pend 0 xs)) := by
        cases hany : (rulesAt calls t inPort (pend 0 xs)).any fun r => r.2.isNone with
        | true => rfl
        | false => exact (upcallLoop_of_rules calls hany t).symm
      rw [if_neg (by simp), hslow]
      have henqueued := hrules.enqueued
        (upcallLoop calls t (rulesAt calls t inPort (pend 0 xs))).tables
      exact
        { tables := by
            show _ = insertFound calls (resolve (upcallPass calls t inPort) t xs).1 _
            rw [← htables]
            exact congrArg Prod.fst henqueued
          flowMap := congrArg Prod.snd henqueued
          upcalled := hupcalled
          lost := hlost.symm
          counted := by
            dsimp only
            omega }
  | false =>
      obtain ⟨htables, hrules⟩ := lost_run calls t inPort t xs []
      obtain ⟨hlost, hupcalled⟩ := lost_packets calls t inPort t h 0
      have henqueued := hrules.enqueued t
      cases hany : (rulesAt calls t inPort (pend 0 xs)).any fun r => r.2.isNone with
      | true =>
          rw [if_pos (show (true && !false) = true from rfl)]
          exact
            { tables := by
                rw [fastPass, if_neg Bool.false_ne_true, htables]
                exact congrArg Prod.fst henqueued
              flowMap := congrArg Prod.snd henqueued
              upcalled := hupcalled.symm
              lost := hlost
              counted := by
                have hfilter := List.length_filter_le (fun r : Missed P K × Option F => r.2.isNone)
                  (rulesAt calls t inPort (pend 0 xs))
                simp only [List.length_map]
                omega }
      | false =>
          have hnone : (rulesAt calls t inPort (pend 0 xs)).filter (fun r => r.2.isNone) = [] := by
            rw [List.filter_eq_nil_iff]
            rw [List.any_eq_false] at hany
            exact hany
          rw [if_neg (by simp), if_neg Bool.false_ne_true]
          rw [hnone] at hlost
          exact
            { tables := by
                rw [fastPass, if_neg Bool.false_ne_true, htables]
                exact congrArg Prod.fst henqueued
              flowMap := congrArg Prod.snd henqueued
              upcalled := hupcalled.symm
              lost := hlost
              counted := rfl }

/-! ### The batch -/

/-- The first packet still to be classified, from whose metadata the port is read. -/
def firstPending : List (P × Slot K F) → Option P
  | [] => none
  | (p, .pending _) :: _ => some p
  | (_, .done _) :: xs => firstPending xs

/-- The passes over a batch. -/
def passes (calls : Calls T P K F) (t : T) (acquired : Bool) (packets : List P) :
    (T × List (P × Slot K F)) × (T × List (P × Slot K F)) :=
  let slots := dfcSlots calls t packets
  let s := if !(!calls.mdIsValid && calls.simpleMatchEnabled t) && calls.smcEnableDb
    then resolve (smcPass calls) t slots else (t, slots)
  let inPort := ((firstPending s.2).map calls.inPort).getD 0
  (s, resolve (fastPass calls acquired s.1 inPort) s.1 s.2)

theorem early_dfcSlots (calls : Calls T P K F) (t : T) (packets : List P) :
    Early (dfcSlots calls t packets) := by
  intro x hx o ho
  obtain ⟨p, -, rfl⟩ := List.mem_map.mp hx
  change dfcSlot calls t p = .done o at ho
  unfold dfcSlot at ho
  dsimp only at ho
  split at ho
  · obtain rfl := Slot.done.inj ho
    exact ⟨rfl, rfl⟩
  · split at ho
    · obtain rfl := Slot.done.inj ho
      exact ⟨rfl, rfl⟩
    · cases ho

theorem early_smc (calls : Calls T P K F) {xs : List (P × Slot K F)} (h : Early xs) :
    ∀ t, Early (resolve (smcPass calls) t xs).2 := by
  induction xs with
  | nil => exact fun _ => h
  | cons x xs ih =>
      have hxs : Early xs := fun y hy => h y (List.mem_cons_of_mem x hy)
      intro t y hy o ho
      obtain ⟨p, o' | key⟩ := x
      · rcases List.mem_cons.mp hy with rfl | hy
        · exact h _ List.mem_cons_self o ho
        · exact ih hxs t y hy o ho
      · rcases List.mem_cons.mp hy with rfl | hy
        · unfold smcPass at ho
          cases hfound : calls.smcLookup t p key with
          | some flow =>
              rw [hfound] at ho
              obtain rfl := Slot.done.inj ho
              exact ⟨rfl, rfl⟩
          | none =>
              rw [hfound] at ho
              cases ho
        · exact ih hxs _ y hy o ho

theorem firstPending_pend (xs : List (P × Slot K F)) : ∀ i,
    firstPending xs = (pend i xs).head?.map Missed.packet := by
  induction xs with
  | nil => exact fun _ => rfl
  | cons x xs ih =>
      intro i
      obtain ⟨p, o | key⟩ := x
      · exact ih (i + 1)
      · rfl

theorem firstPending_decided {head : List (P × Slot K F)} {i : Nat} (h : pend i head = [])
    (xs : List (P × Slot K F)) : firstPending (head ++ xs) = firstPending xs := by
  rw [firstPending_pend (head ++ xs) i, pend_append, h]
  exact (firstPending_pend xs _).symm

theorem firstPending_keepUndropped (xs : List (P × Slot K F)) :
    firstPending (keepUndropped xs) = firstPending xs := by
  induction xs with
  | nil => rfl
  | cons x xs ih =>
      obtain ⟨p, o | key⟩ := x
      · cases o with
        | dropped => exact ih
        | flow => exact ih
        | upcalled => exact ih
        | lost => exact ih
      · rfl

theorem recvIdx_lt (xs : List (P × Slot K F)) :
    ∀ i, ∀ m ∈ pend i xs, m.recvIdx < i + xs.length := by
  induction xs with
  | nil =>
      intro i m hm
      cases hm
  | cons x xs ih =>
      intro i m hm
      rw [List.length_cons]
      obtain ⟨p, o | key⟩ := x
      · have hlt := ih (i + 1) m hm
        omega
      · rcases List.mem_cons.mp hm with rfl | hm
        · show i < _
          omega
        · have hlt := ih (i + 1) m hm
          omega

theorem found_decided {head : List (P × Slot K F)} {i : Nat} (h : pend i head = [])
    (xs ys : List (P × Slot K F)) : found (head ++ xs) (head ++ ys) = found xs ys := by
  induction head generalizing i with
  | nil => rfl
  | cons x head ih =>
      obtain ⟨p, o | key⟩ := x
      · exact ih h
      · cases h

theorem packetsWith_early {is : Outcome F → Bool} {xs : List (P × Slot K F)}
    (h : ∀ x ∈ xs, ∀ o, x.2 = .done o → is o = false) : packetsWith is xs = [] := by
  unfold packetsWith
  rw [List.filterMap_eq_nil_iff]
  intro x hx
  obtain ⟨p, o | key⟩ := x
  · simp [h _ hx o rfl]
  · rfl

theorem packetsWith_keepUndropped {is : Outcome F → Bool} (h : is .dropped = false)
    (xs : List (P × Slot K F)) : packetsWith is (keepUndropped xs) = packetsWith is xs := by
  unfold packetsWith keepUndropped
  rw [List.filterMap_filter]
  apply List.filterMap_congr
  intro x _
  obtain ⟨p, o | key⟩ := x
  · cases o with
    | dropped => simp [Slot.isDropped, h]
    | flow => rfl
    | upcalled => rfl
    | lost => rfl
  · rfl

theorem packetsWith_append (is : Outcome F → Bool) (xs ys : List (P × Slot K F)) :
    packetsWith is (xs ++ ys) = packetsWith is xs ++ packetsWith is ys := List.filterMap_append

/-- The rest of the batch, through the fast path or with nothing left for it. -/
theorem fast_settles (calls : Calls T P K F) (t : T) (acquired : Bool)
    {xs : List (P × Slot K F)} (h : Early xs) :
    (fastPathRest calls t (xs.map (view calls)) acquired (pend 0 xs)).Settles calls xs
      (resolve (fastPass calls acquired t (((firstPending xs).map calls.inPort).getD 0)) t xs) := by
  have hfirst := firstPending_pend xs 0
  cases hpend : pend 0 xs with
  | nil =>
      have hnone : found xs xs = [] := by
        have hall := found_decided hpend [] []
        rwa [List.append_nil] at hall
      rw [resolve_of_pend_nil _ hpend]
      exact
        { tables := by
            rw [hnone]
            rfl
          flowMap := rfl
          upcalled := (packetsWith_early fun x hx o ho => (h x hx o ho).1).symm
          lost := (packetsWith_early fun x hx o ho => (h x hx o ho).2).symm
          counted := by
            rw [hpend]
            rfl }
  | cons m rest =>
      have hrun := fastPath_settles calls t acquired (calls.inPort m.packet) h
      rw [hpend] at hrun hfirst
      rw [hfirst]
      exact hrun

/-! A pass that drops nothing goes on from the same split of the slots. -/

theorem split_resolve {g : S → P → K → S × Slot K F}
    (hg : ∀ s p key, (g s p key).2.isDropped = false) {slots head tail : List (P × Slot K F)}
    (hsplit : keepUndropped slots = head ++ tail) {i : Nat} (hhead : pend i head = []) (s : S) :
    (resolve g s slots).1 = (resolve g s tail).1 ∧
      keepUndropped (resolve g s slots).2 = head ++ (resolve g s tail).2 := by
  have hkeep := resolve_keepUndropped hg slots s
  rw [hsplit, resolve_append, resolve_of_pend_nil g hhead] at hkeep
  exact ⟨(congrArg Prod.fst hkeep).symm, (congrArg Prod.snd hkeep).symm⟩

theorem dropped_resolve {g : S → P → K → S × Slot K F}
    (hg : ∀ s p key, (g s p key).2.isDropped = false) (xs : List (P × Slot K F)) : ∀ s,
    ((resolve g s xs).2.filter fun x => x.2.isDropped) = xs.filter fun x => x.2.isDropped := by
  induction xs with
  | nil => exact fun _ => rfl
  | cons x xs ih =>
      intro s
      obtain ⟨p, o | key⟩ := x
      · rw [resolve, List.filter_cons, List.filter_cons, ih]
      · have hpending : (Slot.pending key : Slot K F).isDropped = false := rfl
        simp [resolve, hg, hpending, ih]

theorem smcPass_drops_none (calls : Calls T P K F) (t : T) (p : P) (key : K) :
    (smcPass calls t p key).2.isDropped = false := by
  unfold smcPass
  cases calls.smcLookup t p key <;> rfl

theorem fastPass_drops_none (calls : Calls T P K F) (acquired : Bool) (t₀ : T) (inPort : Nat)
    (t : T) (p : P) (key : K) :
    (fastPass calls acquired t₀ inPort t p key).2.isDropped = false := by
  unfold fastPass upcallPass lostPass
  cases acquired with
  | true =>
      rw [if_pos rfl]
      cases calls.dpclsLookup t₀ inPort key with
      | some flow => rfl
      | none =>
          dsimp only
          cases calls.lookupFlow t key <;> rfl
  | false =>
      rw [if_neg Bool.false_ne_true]
      cases calls.dpclsLookup t₀ inPort key <;> rfl

theorem zip_missed {xs : List (P × Slot K F)} (h : xs.length ≤ 2 ^ 8) :
    List.zipWith (fun (packet : P) (m : K × Nat) => (⟨packet, m.1, m.2⟩ : Missed P K))
      ((pend 0 xs).map Missed.packet) ((pend 0 xs).map fun m => (m.key, m.recvIdx % 2 ^ 8)) =
      pend 0 xs := by
  rw [List.zipWith_map, List.zipWith_self]
  conv_rhs => rw [← List.map_id (pend 0 xs)]
  apply List.map_congr_left
  intro m hm
  have hlt := recvIdx_lt xs 0 m hm
  rw [Nat.mod_eq_of_lt (by omega)]
  rfl

variable [DecidableEq F]

/-- What a batch leaves behind, in terms of its passes `z`. -/
structure InputRun.Settles (calls : Calls T P K F)
    (z : (T × List (P × Slot K F)) × (T × List (P × Slot K F))) (r : InputRun T F P) : Prop where
  tables : r.tables =
    insertFound calls z.2.1 (found (keepUndropped z.1.2) (keepUndropped z.2.2))
  batches : r.batches = (group (keyed (hits calls z.2.2))).map (batchOfGroup calls.size)
  reset : r.batchOf = fun _ => none
  dropped : r.dropped = (z.2.2.filter fun x => x.2.isDropped).map Prod.fst
  upcalled : r.upcalled = packetsWith Outcome.isUpcalled z.2.2
  lost : r.lost = packetsWith Outcome.isLost z.2.2
  counted : r.dropped.length + r.nPhwolHit + r.nSimpleHit + r.nEmcHit + r.nSmcHit + r.maskedHit +
    r.miss + r.lostCnt = z.2.2.length

/-- The signature cache has left the slots as in `z`, of which `tail` is in the flow
map. -/
structure Smc.Holds (calls : Calls T P K F) (slots head tail : List (P × Slot K F))
    (z : T × List (P × Slot K F)) (s : Smc T F P) : Prop where
  split : keepUndropped z.2 = head ++ tail
  early : Early z.2
  tables : s.tables = z.1
  mapped : s.flowMap = tail.map (view calls)
  dropped : (z.2.filter fun x => x.2.isDropped) = slots.filter fun x => x.2.isDropped
  packets : z.2.map Prod.fst = slots.map Prod.fst

omit [DecidableEq F] in
theorem smc_stage (calls : Calls T P K F) (t : T) {slots head tail : List (P × Slot K F)}
    (hsplit : keepUndropped slots = head ++ tail) (hhead : pend 0 head = [])
    (hearly : Early slots) (enabled : Bool) :
    ∃ tail' s, (if enabled
        then compact (smcBody calls)
          { tables := t, flowMap := tail.map (view calls), nSmcHit := 0 } (pend 0 tail)
        else ({ tables := t, flowMap := tail.map (view calls), nSmcHit := 0 }, pend 0 tail)) =
        (s, pend 0 tail') ∧
      s.Holds calls slots head tail'
        (if enabled then resolve (smcPass calls) t slots else (t, slots)) ∧
      s.nSmcHit + (pend 0 tail').length = (pend 0 tail).length := by
  cases enabled with
  | false =>
      refine ⟨tail, { tables := t, flowMap := tail.map (view calls), nSmcHit := 0 }, rfl, ?_,
        by simp⟩
      exact
        { split := hsplit
          early := hearly
          tables := rfl
          mapped := rfl
          dropped := rfl
          packets := rfl }
  | true =>
      obtain ⟨n, hrun, hcount⟩ := smc_run calls tail 0 t [] 0
      obtain ⟨htables, hkeep⟩ := split_resolve (smcPass_drops_none calls) hsplit hhead t
      refine ⟨_, _, (compact_eq_kept _ _).trans hrun, ?_, by simpa using hcount⟩
      exact
        { split := hkeep
          early := early_smc calls hearly t
          tables := htables.symm
          mapped := rfl
          dropped := dropped_resolve (smcPass_drops_none calls) slots t
          packets := fst_resolve (smcPass calls) slots t }

/-- The pipeline is the passes over its packets. -/
theorem input_settles (calls : Calls T P K F) (t : T) (acquired : Bool) {packets : List P}
    (h : packets.length ≤ netdevMaxBurst) :
    (dpNetdevInput calls t acquired packets).Settles calls (passes calls t acquired packets) := by
  obtain ⟨head, tail, hold, hkept⟩ := dfc_run calls t packets
  have hslots : (dfcSlots calls t packets).length = packets.length := List.length_map _
  have hlength : (keepUndropped (dfcSlots calls t packets)).length =
      head.length + tail.length := by
    rw [hold.split, List.length_append]
  have hfewer : (keepUndropped (dfcSlots calls t packets)).length ≤ packets.length := by
    rw [← hslots]
    exact List.length_filter_le _ _
  have hmissed : List.zipWith (fun packet m => (⟨packet, m.1, m.2⟩ : Missed P K))
      (compact (dfcBody calls t) .start packets).2
      (compact (dfcBody calls t) .start packets).1.missed = pend 0 tail := by
    rw [hkept, hold.missed]
    apply zip_missed
    unfold netdevMaxBurst at h
    omega
  obtain ⟨tail', s, hstage, hs, hsmcHit⟩ := smc_stage calls t hold.split hold.decided
    (early_dfcSlots calls t packets)
    (!(!calls.mdIsValid && calls.simpleMatchEnabled t) && calls.smcEnableDb)
  unfold dpNetdevInput passes
  dsimp only
  rw [hmissed, hold.mapped, hstage]
  generalize (if !(!calls.mdIsValid && calls.simpleMatchEnabled t) && calls.smcEnableDb
    then resolve (smcPass calls) t (dfcSlots calls t packets)
    else (t, dfcSlots calls t packets)) = z at hs ⊢
  dsimp only
  have hsplitEarly : Early (head ++ tail') := by
    rw [← hs.split]
    exact fun x hx => hs.early x (List.mem_filter.mp hx).1
  have htailEarly : Early tail' := fun x hx => hsplitEarly x (List.mem_append_right head hx)
  have hheadEarly : Early head := fun x hx => hsplitEarly x (List.mem_append_left tail' hx)
  have hfirst : firstPending z.2 = firstPending tail' := by
    rw [← firstPending_keepUndropped, hs.split, firstPending_decided hold.decided]
  have hfast := fast_settles calls s.tables acquired htailEarly
  rw [hs.mapped]
  generalize fastPathRest calls s.tables (tail'.map (view calls)) acquired (pend 0 tail') = f
    at hfast ⊢
  rw [hfirst]
  rw [hs.tables] at hfast
  generalize ((firstPending tail').map calls.inPort).getD 0 = inPort at hfast ⊢
  have hdrops := fastPass_drops_none calls acquired z.1 inPort
  obtain ⟨hstate, hkeep⟩ := split_resolve hdrops hs.split hold.decided z.1
  have hdropped := (dropped_resolve hdrops z.2 z.1).trans hs.dropped
  have hqueued := holds_queueAll (f.flowMap.filterMap id) hold.queued
  have hmap : f.flowMap.filterMap id =
      hits calls (resolve (fastPass calls acquired z.1 inPort) z.1 tail').2 := by
    rw [hfast.flowMap, List.filterMap_map]
    rfl
  have hwith : ∀ is : Outcome F → Bool, is .dropped = false → packetsWith is head = [] →
      packetsWith is (resolve (fastPass calls acquired z.1 inPort) z.1 tail').2 =
        packetsWith is (resolve (fastPass calls acquired z.1 inPort) z.1 z.2).2 := by
    intro is hdrop hhead
    rw [← packetsWith_keepUndropped hdrop (resolve _ z.1 z.2).2, hkeep, packetsWith_append, hhead,
      List.nil_append]
  exact
    { tables := by rw [hfast.tables, hstate, hkeep, hs.split, found_decided hold.decided]
      batches := by
        dsimp only
        rw [hqueued.grouped, hmap, ← hits_append, ← hkeep, hits_keepUndropped]
      reset := resetBatches_eq hqueued
      dropped := by
        dsimp only
        rw [hold.dropped, hdropped]
      upcalled := hfast.upcalled.trans
        (hwith _ rfl (packetsWith_early fun x hx o ho => (hheadEarly x hx o ho).1))
      lost := hfast.lost.trans
        (hwith _ rfl (packetsWith_early fun x hx o ho => (hheadEarly x hx o ho).2))
      counted := by
        have hcaches := hold.counted
        have hslow := hfast.counted
        have hall := List.length_eq_length_filter_add (l := dfcSlots calls t packets)
          fun x => x.2.isDropped
        have hend : (resolve (fastPass calls acquired z.1 inPort) z.1 z.2).2.length =
            (dfcSlots calls t packets).length := by
          have hpackets :=
            (fst_resolve (fastPass calls acquired z.1 inPort) z.2 z.1).trans hs.packets
          simpa using congrArg List.length hpackets
        unfold Dfc.nHit keepUndropped at hcaches
        dsimp only
        rw [hend, hall, hold.dropped, List.length_map]
        omega }

/-! ### Every packet once -/

/-- Packets with what became of them, as slots. -/
def decidedSlots (outcomes : List (P × Outcome F)) : List (P × Slot K F) :=
  outcomes.map fun x => (x.1, .done x.2)

def Slot.isDone : Slot K F → Bool
  | .done _ => true
  | .pending _ => false

omit [DecidableEq F] in
theorem resolve_isDone {g : S → P → K → S × Slot K F} (hg : ∀ s p key, (g s p key).2.isDone)
    (xs : List (P × Slot K F)) : ∀ s, ∀ x ∈ (resolve g s xs).2, x.2.isDone := by
  induction xs with
  | nil =>
      intro s x hx
      cases hx
  | cons y xs ih =>
      intro s x hx
      obtain ⟨p, o | key⟩ := y
      · rcases List.mem_cons.mp hx with rfl | hx
        · rfl
        · exact ih s x hx
      · rcases List.mem_cons.mp hx with rfl | hx
        · exact hg s p key
        · exact ih _ x hx

omit [DecidableEq F] in
theorem fastPass_isDone (calls : Calls T P K F) (acquired : Bool) (t₀ : T) (inPort : Nat)
    (t : T) (p : P) (key : K) : (fastPass calls acquired t₀ inPort t p key).2.isDone := by
  unfold fastPass upcallPass lostPass
  cases acquired with
  | true =>
      rw [if_pos rfl]
      cases calls.dpclsLookup t₀ inPort key with
      | some flow => rfl
      | none =>
          dsimp only
          cases calls.lookupFlow t key <;> rfl
  | false =>
      rw [if_neg Bool.false_ne_true]
      cases calls.dpclsLookup t₀ inPort key <;> rfl

omit [DecidableEq F] in
theorem exists_outcomes {xs : List (P × Slot K F)} (h : ∀ x ∈ xs, x.2.isDone) :
    ∃ outcomes : List (P × Outcome F), xs = decidedSlots outcomes := by
  induction xs with
  | nil => exact ⟨[], rfl⟩
  | cons x xs ih =>
      obtain ⟨outcomes, rfl⟩ := ih fun y hy => h y (List.mem_cons_of_mem x hy)
      have hx := h x List.mem_cons_self
      obtain ⟨p, o | key⟩ := x
      · exact ⟨(p, o) :: outcomes, rfl⟩
      · cases hx

/-- The packets that were given a flow, in order. -/
def classifiedIn (calls : Calls T P K F) (outcomes : List (P × Outcome F)) :
    List (Classified F P) :=
  outcomes.filterMap fun x =>
    match x.2 with
    | .flow flow => some (calls.classified x.1 flow)
    | _ => none

/-- The packets with the given outcome, in order. -/
def packetsTo (outcome : Outcome F) (outcomes : List (P × Outcome F)) : List P :=
  outcomes.filterMap fun x => if x.2 = outcome then some x.1 else none

omit [DecidableEq F] in
theorem passes_isDone (calls : Calls T P K F) (t : T) (acquired : Bool) (packets : List P) :
    ∀ x ∈ (passes calls t acquired packets).2.2, x.2.isDone :=
  resolve_isDone (fastPass_isDone calls acquired _ _) _ _

omit [DecidableEq F] in
theorem passes_packets (calls : Calls T P K F) (t : T) (acquired : Bool) (packets : List P) :
    (passes calls t acquired packets).2.2.map Prod.fst = packets := by
  have hslots : (dfcSlots calls t packets).map Prod.fst = packets := by
    simp [dfcSlots, Function.comp_def]
  unfold passes
  dsimp only
  rw [fst_resolve]
  cases !(!calls.mdIsValid && calls.simpleMatchEnabled t) && calls.smcEnableDb with
  | false => exact hslots
  | true => exact (fst_resolve (smcPass calls) _ t).trans hslots

omit [DecidableEq F] in
theorem hits_decidedSlots (calls : Calls T P K F) (outcomes : List (P × Outcome F)) :
    hits calls (decidedSlots outcomes) = classifiedIn calls outcomes := by
  unfold hits decidedSlots classifiedIn
  rw [List.filterMap_map]
  apply List.filterMap_congr
  intro x _
  obtain ⟨p, o⟩ := x
  cases o <;> rfl

theorem packetsWith_decidedSlots {is : Outcome F → Bool} {outcome : Outcome F}
    (h : ∀ o, is o = true ↔ o = outcome) (outcomes : List (P × Outcome F)) :
    packetsWith is (decidedSlots outcomes : List (P × Slot K F)) = packetsTo outcome outcomes := by
  unfold packetsWith decidedSlots packetsTo
  rw [List.filterMap_map]
  apply List.filterMap_congr
  intro x _
  simp [h]

theorem upcalled_decidedSlots (outcomes : List (P × Outcome F)) :
    packetsWith Outcome.isUpcalled (decidedSlots outcomes : List (P × Slot K F)) =
      packetsTo .upcalled outcomes := by
  apply packetsWith_decidedSlots
  intro o
  cases o <;> simp [Outcome.isUpcalled]

theorem lost_decidedSlots (outcomes : List (P × Outcome F)) :
    packetsWith Outcome.isLost (decidedSlots outcomes : List (P × Slot K F)) =
      packetsTo .lost outcomes := by
  apply packetsWith_decidedSlots
  intro o
  cases o <;> simp [Outcome.isLost]

theorem dropped_decidedSlots (outcomes : List (P × Outcome F)) :
    ((decidedSlots outcomes : List (P × Slot K F)).filter fun x => x.2.isDropped).map Prod.fst =
      packetsTo .dropped outcomes := by
  induction outcomes with
  | nil => rfl
  | cons x outcomes ih =>
      obtain ⟨p, o⟩ := x
      cases o with
      | dropped => exact congrArg (p :: ·) ih
      | flow => exact ih
      | upcalled => exact ih
      | lost => exact ih

/-- Every packet of a batch has one outcome: it is queued to one flow, handed to the
slow path, or deleted.  The batches to execute are the packets of each flow in the
order of arrival, the flows in the order of their first packet, whichever stage
classified a packet, and the counters add up to the size of the batch. -/
theorem input_keeps_order (calls : Calls T P K F) (t : T) (acquired : Bool) (packets : List P)
    (h : packets.length ≤ netdevMaxBurst) :
    let r := dpNetdevInput calls t acquired packets
    ∃ outcomes : List (P × Outcome F), outcomes.map Prod.fst = packets ∧
      r.batches = (group (keyed (classifiedIn calls outcomes))).map (batchOfGroup calls.size) ∧
      r.batchOf = (fun _ => none) ∧
      r.dropped = packetsTo .dropped outcomes ∧
      r.upcalled = packetsTo .upcalled outcomes ∧
      r.lost = packetsTo .lost outcomes ∧
      r.dropped.length + r.nPhwolHit + r.nSimpleHit + r.nEmcHit + r.nSmcHit + r.maskedHit +
        r.miss + r.lostCnt = packets.length := by
  intro r
  have hrun := input_settles calls t acquired h
  have hpackets := passes_packets calls t acquired packets
  obtain ⟨outcomes, hz⟩ := exists_outcomes (passes_isDone calls t acquired packets)
  rw [hz] at hpackets
  refine ⟨outcomes, ?_, ?_, hrun.reset, ?_, ?_, ?_, ?_⟩
  · rw [← hpackets]
    simp [decidedSlots, Function.comp_def]
  · rw [hrun.batches, hz, hits_decidedSlots]
  · rw [hrun.dropped, hz, dropped_decidedSlots]
  · rw [hrun.upcalled, hz, upcalled_decidedSlots]
  · rw [hrun.lost, hz, lost_decidedSlots]
  · rw [hrun.counted, hz, ← List.length_map Prod.fst, hpackets]

/-- The keys with an entry in a cache, and those of the flows. -/
structure Learned where
  emc : List Nat
  smc : List Nat
  flows : List Nat

/-- A packet is its size and its own key, and the slow path installs a flow for it. -/
def learningCalls : Calls Learned Nat Nat Nat where
  size p := p
  tcpFlags _ := 0
  netdevFlowApi := false
  recircDepth := 0
  recoverFails _ := false
  markToFlow _ _ := none
  mdIsValid := false
  simpleMatchEnabled _ := false
  simpleMatchLookup _ _ := none
  key p := p
  emcInsertMin := 1
  emcLookup t key := if key ∈ t.emc then some key else none
  smcEnableDb := true
  smcLookup t _ key := if key ∈ t.smc then some key else none
  emcProbabilisticInsert t key _ := { t with emc := key :: t.emc }
  smcInsert t key _ := { t with smc := key :: t.smc }
  inPort _ := 1
  keyInPort _ := 1
  dpclsLookup t _ key := if key ∈ t.flows then some key else none
  handlePacketUpcall t _ key := ({ t with flows := key :: t.flows }, false)

/-- Packet 61 hits the exact match cache, the first packet 60 goes to the slow path,
the second to the flow this has installed, and a packet of 9 bytes is no frame. -/
theorem input_keeps_order_sample :
    let r := dpNetdevInput learningCalls ⟨[61], [], [61]⟩ true [60, 61, 60, 9]
    (∃ outcomes : List (Nat × Outcome Nat), outcomes.map Prod.fst = [60, 61, 60, 9] ∧
      r.batches = (group (keyed (classifiedIn learningCalls outcomes))).map
        (batchOfGroup learningCalls.size) ∧
      r.dropped = packetsTo .dropped outcomes ∧ r.upcalled = packetsTo .upcalled outcomes ∧
      r.lost = packetsTo .lost outcomes) ∧
    r.batches.map (fun b => (b.flow, b.array)) = [(61, [61]), (60, [60])] ∧
    r.dropped = [9] ∧ r.upcalled = [60] ∧ r.lost = [] ∧
    (r.nEmcHit, r.maskedHit, r.miss) = (1, 1, 1) ∧
    r.dropped.length + r.nPhwolHit + r.nSimpleHit + r.nEmcHit + r.nSmcHit + r.maskedHit +
      r.miss + r.lostCnt = 4 := by
  intro r
  obtain ⟨outcomes, hpackets, hbatches, -, hdropped, hupcalled, hlost, hcounted⟩ :=
    input_keeps_order learningCalls ⟨[61], [], [61]⟩ true [60, 61, 60, 9] (by decide)
  exact ⟨⟨outcomes, hpackets, hbatches, hdropped, hupcalled, hlost⟩, by decide, by decide,
    by decide, by decide, by decide, hcounted⟩

end Repath.Datapath
