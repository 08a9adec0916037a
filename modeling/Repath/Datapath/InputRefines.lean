import Repath.Datapath.InputOrder

/-!
# The caches change nothing

A datapath without caches looks up one packet after the other in the flow table and
makes an upcall where the table knows no flow.  As long as the caches only answer
what the table would answer, and an upcall takes no flow from the table, the
pipeline gives every packet the same outcome and leaves the same table, for any way
of cutting the packets into batches.
-/

namespace Repath.Datapath

open Compaction Grouping
open Repath.Ovs (netdevMaxBurst)

/-- A flow table, and what the upcall for a packet makes of it. -/
structure FlowTable (A P K F : Type) where
  lookup : A → K → Option F
  upcall : A → P → K → A

variable {A T P K F : Type}

/-- The packets that `dfc_processing` deletes. -/
def Calls.rejects (calls : Calls T P K F) (packet : P) : Bool :=
  calls.size packet < ethHeaderLen ||
    (calls.netdevFlowApi && calls.recircDepth = 0) && calls.recoverFails packet

/-- The datapath without caches; a packet comes with the lock for upcalls free or not. -/
def plain (calls : Calls T P K F) (ft : FlowTable A P K F) :
    A → List (P × Bool) → A × List (P × Outcome F)
  | a, [] => (a, [])
  | a, (p, acquired) :: ps =>
    let step : A × Outcome F :=
      if calls.rejects p then (a, .dropped)
      else
        match ft.lookup a (calls.key p) with
        | some flow => (a, .flow flow)
        | none => if acquired then (ft.upcall a p (calls.key p), .upcalled) else (a, .lost)
    let rest := plain calls ft step.1 ps
    (rest.1, (p, step.2) :: rest.2)

/-- What is relied on: `table` is the flow table in the state of a thread, and in a
state with `I` the caches answer nothing else. -/
structure Caching (calls : Calls T P K F) (ft : FlowTable A P K F) (table : T → A)
    (I : T → Prop) : Prop where
  lookup : ∀ t key, calls.lookupFlow t key = ft.lookup (table t) key
  mark : ∀ t p flow, I t → calls.markToFlow t p = some flow →
    ft.lookup (table t) (calls.key p) = some flow
  simple : ∀ t p flow, I t → calls.simpleMatchLookup t p = some flow →
    ft.lookup (table t) (calls.key p) = some flow
  emc : ∀ t key flow, I t → calls.emcLookup t key = some flow →
    ft.lookup (table t) key = some flow
  smc : ∀ t p flow, I t → calls.smcLookup t p (calls.key p) = some flow →
    ft.lookup (table t) (calls.key p) = some flow
  emcInsert : ∀ t key flow, I t → ft.lookup (table t) key = some flow →
    I (calls.emcProbabilisticInsert t key flow) ∧
      table (calls.emcProbabilisticInsert t key flow) = table t
  smcInsert : ∀ t key flow, I t → ft.lookup (table t) key = some flow →
    I (calls.smcInsert t key flow) ∧ table (calls.smcInsert t key flow) = table t
  upcall : ∀ t p, I t → ft.lookup (table t) (calls.key p) = none →
    I (calls.handlePacketUpcall t p (calls.key p)).1 ∧
      table (calls.handlePacketUpcall t p (calls.key p)).1 =
        ft.upcall (table t) p (calls.key p)
  keeps : ∀ a p key flow, ft.lookup a (calls.key p) = none → ft.lookup a key = some flow →
    ft.lookup (ft.upcall a p (calls.key p)) key = some flow

variable {calls : Calls T P K F} {ft : FlowTable A P K F} {table : T → A} {I : T → Prop}

theorem plain_rejected {p : P} (h : calls.rejects p = true) (acquired : Bool) (a : A)
    (ps : List (P × Bool)) : plain calls ft a ((p, acquired) :: ps) =
      ((plain calls ft a ps).1, (p, .dropped) :: (plain calls ft a ps).2) := by
  rw [plain, if_pos h]

theorem plain_found {p : P} (h : calls.rejects p = false) {a : A} {flow : F}
    (hlook : ft.lookup a (calls.key p) = some flow) (acquired : Bool) (ps : List (P × Bool)) :
    plain calls ft a ((p, acquired) :: ps) =
      ((plain calls ft a ps).1, (p, .flow flow) :: (plain calls ft a ps).2) := by
  rw [plain, if_neg (by simp [h]), hlook]

theorem plain_upcalled {p : P} (h : calls.rejects p = false) {a : A}
    (hlook : ft.lookup a (calls.key p) = none) (ps : List (P × Bool)) :
    plain calls ft a ((p, true) :: ps) =
      ((plain calls ft (ft.upcall a p (calls.key p)) ps).1,
        (p, .upcalled) :: (plain calls ft (ft.upcall a p (calls.key p)) ps).2) := by
  rw [plain, if_neg (by simp [h]), hlook]
  rfl

theorem plain_lost {p : P} (h : calls.rejects p = false) {a : A}
    (hlook : ft.lookup a (calls.key p) = none) (ps : List (P × Bool)) :
    plain calls ft a ((p, false) :: ps) =
      ((plain calls ft a ps).1, (p, .lost) :: (plain calls ft a ps).2) := by
  rw [plain, if_neg (by simp [h]), hlook]
  rfl

theorem plain_append (a : A) (xs ys : List (P × Bool)) :
    plain calls ft a (xs ++ ys) =
      ((plain calls ft (plain calls ft a xs).1 ys).1,
        (plain calls ft a xs).2 ++ (plain calls ft (plain calls ft a xs).1 ys).2) := by
  induction xs generalizing a with
  | nil => rfl
  | cons x xs ih =>
      rw [List.cons_append, plain, plain]
      dsimp only
      rw [ih]
      rfl

/-- Flows stay in the table. -/
theorem plain_keeps (h : Caching calls ft table I) (ps : List (P × Bool)) {key : K} {flow : F} :
    ∀ {a}, ft.lookup a key = some flow → ft.lookup (plain calls ft a ps).1 key = some flow := by
  induction ps with
  | nil => exact fun ha => ha
  | cons x ps ih =>
      intro a ha
      obtain ⟨p, acquired⟩ := x
      rw [plain]
      dsimp only
      apply ih
      by_cases hreject : calls.rejects p
      · rwa [if_pos hreject]
      · rw [if_neg hreject]
        cases hlook : ft.lookup a (calls.key p) with
        | some flow' => exact ha
        | none =>
            cases acquired with
            | false => exact ha
            | true => exact h.keeps a p key flow hlook ha

/-! ### The passes -/

/-- What a slot says is so in the table. -/
def Slot.Sound (calls : Calls T P K F) (ft : FlowTable A P K F) (a : A) (p : P) :
    Slot K F → Prop
  | .done .dropped => calls.rejects p = true
  | .done (.flow flow) => calls.rejects p = false ∧ ft.lookup a (calls.key p) = some flow
  | .pending key => calls.rejects p = false ∧ key = calls.key p
  | _ => False

def Sound (calls : Calls T P K F) (ft : FlowTable A P K F) (a : A) (xs : List (P × Slot K F)) :
    Prop :=
  ∀ x ∈ xs, x.2.Sound calls ft a x.1

theorem sound_cons {a : A} {x : P × Slot K F} {xs : List (P × Slot K F)} :
    Sound calls ft a (x :: xs) ↔ x.2.Sound calls ft a x.1 ∧ Sound calls ft a xs :=
  List.forall_mem_cons

theorem sound_dfcSlots (h : Caching calls ft table I) {t : T} (ht : I t) (packets : List P) :
    Sound calls ft (table t) (dfcSlots calls t packets) := by
  intro x hx
  obtain ⟨p, -, rfl⟩ := List.mem_map.mp hx
  show (dfcSlot calls t p).Sound calls ft (table t) p
  unfold dfcSlot
  dsimp only
  by_cases hreject : calls.rejects p
  · unfold Calls.rejects at hreject
    rw [if_pos hreject]
    exact hreject
  · have hfalse : calls.rejects p = false := Bool.eq_false_iff.mpr hreject
    unfold Calls.rejects at hreject
    rw [if_neg hreject]
    generalize hmark : (if (calls.netdevFlowApi && decide (calls.recircDepth = 0)) = true then
      calls.markToFlow t p else none) = byMark
    cases byMark with
    | some flow => exact ⟨hfalse, h.mark t p flow ht (Option.ite_none_right_eq_some.mp hmark).2⟩
    | none =>
        generalize hsimple : (if (!calls.mdIsValid && calls.simpleMatchEnabled t) = true then
          calls.simpleMatchLookup t p else none) = bySimple
        cases bySimple with
        | some flow =>
            exact ⟨hfalse, h.simple t p flow ht (Option.ite_none_right_eq_some.mp hsimple).2⟩
        | none =>
            generalize hemc : (if (if (!calls.mdIsValid && calls.simpleMatchEnabled t) = true
              then 0 else calls.emcInsertMin) ≠ 0 then calls.emcLookup t (calls.key p)
              else none) = byEmc
            cases byEmc with
            | some flow =>
                exact ⟨hfalse, h.emc t _ flow ht (Option.ite_none_right_eq_some.mp hemc).2⟩
            | none => exact ⟨hfalse, rfl⟩

theorem sound_smc (h : Caching calls ft table I) {a : A} {xs : List (P × Slot K F)} :
    Sound calls ft a xs → ∀ {t : T}, I t → table t = a →
      I (resolve (smcPass calls) t xs).1 ∧ table (resolve (smcPass calls) t xs).1 = a ∧
        Sound calls ft a (resolve (smcPass calls) t xs).2 := by
  induction xs with
  | nil => exact fun hxs t ht ha => ⟨ht, ha, hxs⟩
  | cons x xs ih =>
      intro hall t ht ha
      obtain ⟨p, o | key⟩ := x
      · obtain ⟨hx, hxs⟩ := sound_cons.mp hall
        obtain ⟨hI, htable, hsound⟩ := ih hxs ht ha
        exact ⟨hI, htable, sound_cons.mpr ⟨hx, hsound⟩⟩
      · obtain ⟨⟨hreject, hkey⟩, hxs⟩ := sound_cons.mp hall
        change key = calls.key p at hkey
        subst hkey
        rw [resolve, smcPass]
        dsimp only
        cases hfound : calls.smcLookup t p (calls.key p) with
        | some flow =>
            have hlook := h.smc t p flow ht hfound
            obtain ⟨hins, htab⟩ := h.emcInsert t _ flow ht hlook
            obtain ⟨hI, htable, hsound⟩ := ih hxs hins (htab.trans ha)
            rw [ha] at hlook
            exact ⟨hI, htable, sound_cons.mpr ⟨⟨hreject, hlook⟩, hsound⟩⟩
        | none =>
            obtain ⟨hI, htable, hsound⟩ := ih hxs ht ha
            exact ⟨hI, htable, sound_cons.mpr ⟨⟨hreject, rfl⟩, hsound⟩⟩

section FastPass

variable {t₀ t : T} {inPort : Nat} {p : P} {key : K} {flow : F}

theorem fastPass_known (acquired : Bool) (h : calls.dpclsLookup t₀ inPort key = some flow) :
    fastPass calls acquired t₀ inPort t p key = (t, .done (.flow flow)) := by
  unfold fastPass
  cases acquired with
  | true =>
      rw [if_pos rfl, upcallPass, h]
  | false =>
      rw [if_neg Bool.false_ne_true, lostPass, h]

theorem fastPass_lost (h : calls.dpclsLookup t₀ inPort key = none) :
    fastPass calls false t₀ inPort t p key = (t, .done .lost) := by
  rw [fastPass, if_neg Bool.false_ne_true, lostPass, h]

theorem fastPass_late (h : calls.dpclsLookup t₀ inPort key = none)
    (hlate : calls.lookupFlow t key = some flow) :
    fastPass calls true t₀ inPort t p key = (t, .done (.flow flow)) := by
  rw [fastPass, if_pos rfl, upcallPass, h, hlate]

theorem fastPass_upcall (h : calls.dpclsLookup t₀ inPort key = none)
    (hlate : calls.lookupFlow t key = none) :
    fastPass calls true t₀ inPort t p key =
      ((calls.handlePacketUpcall t p key).1, .done .upcalled) := by
  rw [fastPass, if_pos rfl, upcallPass, h, hlate]

end FastPass

/-- The rest of a pass, after a slot that was decided earlier. -/
theorem resolve_done {S : Type} (g : S → P → K → S × Slot K F) (s : S) (p : P) (o : Outcome F)
    (xs : List (P × Slot K F)) :
    resolve g s ((p, .done o) :: xs) =
      ((resolve g s xs).1, (p, .done o) :: (resolve g s xs).2) := rfl

/-- What a fast path that ends in `z` owes the datapath without caches, which ends in
`r`. -/
structure Agrees (ft : FlowTable A P K F) (table : T → A) (I : T → Prop)
    (xs : List (P × Slot K F)) (z : T × List (P × Slot K F)) (r : A × List (P × Outcome F)) :
    Prop where
  holds : I z.1
  table : table z.1 = r.1
  slots : z.2 = decidedSlots r.2
  found : ∀ kf ∈ found xs z.2, ft.lookup r.1 kf.1 = some kf.2

theorem Agrees.done {xs : List (P × Slot K F)} {z : T × List (P × Slot K F)}
    {r : A × List (P × Outcome F)} (h : Agrees ft table I xs z r) (p : P) (o : Outcome F) :
    Agrees ft table I ((p, .done o) :: xs) (z.1, (p, .done o) :: z.2) (r.1, (p, o) :: r.2) where
  holds := h.holds
  table := h.table
  slots := congrArg (_ :: ·) h.slots
  found := h.found

theorem Agrees.flow {xs : List (P × Slot K F)} {z : T × List (P × Slot K F)}
    {r : A × List (P × Outcome F)} (h : Agrees ft table I xs z r) (p : P) {key : K} {flow : F}
    (hlook : ft.lookup r.1 key = some flow) :
    Agrees ft table I ((p, .pending key) :: xs) (z.1, (p, .done (.flow flow)) :: z.2)
      (r.1, (p, .flow flow) :: r.2) where
  holds := h.holds
  table := h.table
  slots := congrArg (_ :: ·) h.slots
  found := by
    intro kf hkf
    rcases List.mem_cons.mp hkf with rfl | hkf
    · exact hlook
    · exact h.found kf hkf

/-- A packet that gets no flow. -/
theorem Agrees.none {xs : List (P × Slot K F)} {z : T × List (P × Slot K F)}
    {r : A × List (P × Outcome F)} (h : Agrees ft table I xs z r) (p : P) (key : K)
    {o : Outcome F} (ho : o = .upcalled ∨ o = .lost) :
    Agrees ft table I ((p, .pending key) :: xs) (z.1, (p, .done o) :: z.2)
      (r.1, (p, o) :: r.2) where
  holds := h.holds
  table := h.table
  slots := congrArg (_ :: ·) h.slots
  found := by
    obtain rfl | rfl := ho
    · exact h.found
    · exact h.found

/-- The pass of the fast path, from a state `t` whose table has all the flows of the
one the classifier was asked in. -/
theorem fast_refines (h : Caching calls ft table I) {t₀ : T} (acquired : Bool) {inPort : Nat}
    (xs : List (P × Slot K F)) :
    Sound calls ft (table t₀) xs →
      (∀ x ∈ xs, ∀ key, x.2 = .pending key → calls.keyInPort key = inPort) →
      ∀ {t : T}, I t → (acquired = false → table t = table t₀) →
        (∀ key flow, ft.lookup (table t₀) key = some flow →
          ft.lookup (table t) key = some flow) →
        Agrees ft table I xs (resolve (fastPass calls acquired t₀ inPort) t xs)
          (plain calls ft (table t) (xs.map fun x => (x.1, acquired))) := by
  induction xs with
  | nil =>
      intro _ _ t ht _ _
      exact { holds := ht, table := rfl, slots := rfl, found := fun kf hkf => by cases hkf }
  | cons x xs ih =>
      intro hall hport t ht hlost hmore
      have hports : ∀ y ∈ xs, ∀ key, y.2 = Slot.pending key → calls.keyInPort key = inPort :=
        fun y hy => hport y (List.mem_cons_of_mem x hy)
      obtain ⟨p, o | key⟩ := x
      · obtain ⟨hx, hxs⟩ := sound_cons.mp hall
        have hrest := ih hxs hports ht hlost hmore
        rw [resolve_done, List.map_cons]
        cases o with
        | dropped =>
            rw [plain_rejected hx]
            exact hrest.done p .dropped
        | flow flow =>
            rw [plain_found hx.1 (hmore _ _ hx.2)]
            exact hrest.done p (.flow flow)
        | upcalled => exact hx.elim
        | lost => exact hx.elim
      · obtain ⟨⟨hreject, hkey⟩, hxs⟩ := sound_cons.mp hall
        change key = calls.key p at hkey
        have hasked : calls.dpclsLookup t₀ inPort key = ft.lookup (table t₀) key := by
          rw [← h.lookup, Calls.lookupFlow, hport _ List.mem_cons_self key rfl]
        subst hkey
        rw [resolve, List.map_cons]
        dsimp only
        cases hfirst : ft.lookup (table t₀) (calls.key p) with
        | some flow =>
            -- the classifier knew the flow before any upcall
            have hlook := hmore _ _ hfirst
            have hrest := ih hxs hports ht hlost hmore
            rw [fastPass_known acquired (hasked.trans hfirst), plain_found hreject hlook]
            exact hrest.flow p (plain_keeps h _ hlook)
        | none =>
            cases acquired with
            | false =>
                have hlook : ft.lookup (table t) (calls.key p) = none := by rw [hlost rfl, hfirst]
                have hrest := ih hxs hports ht hlost hmore
                rw [fastPass_lost (hasked.trans hfirst), plain_lost hreject hlook]
                exact hrest.none p _ (Or.inr rfl)
            | true =>
                cases hlook : ft.lookup (table t) (calls.key p) with
                | some flow =>
                    -- an upcall of this batch installed it
                    have hrest := ih hxs hports ht hlost hmore
                    rw [fastPass_late (hasked.trans hfirst) ((h.lookup t _).trans hlook),
                      plain_found hreject hlook]
                    exact hrest.flow p (plain_keeps h _ hlook)
                | none =>
                    obtain ⟨hI, htable⟩ := h.upcall t p ht hlook
                    have hrest := ih hxs hports hI (fun hf => by cases hf) (by
                      intro key flow hkey
                      rw [htable]
                      exact h.keeps _ p key flow hlook (hmore key flow hkey))
                    rw [fastPass_upcall (hasked.trans hfirst) ((h.lookup t _).trans hlook),
                      plain_upcalled hreject hlook]
                    rw [htable] at hrest
                    exact hrest.none p _ (Or.inl rfl)

theorem insertFound_keeps (h : Caching calls ft table I) {kfs : List (K × F)} :
    ∀ {t : T}, I t → (∀ kf ∈ kfs, ft.lookup (table t) kf.1 = some kf.2) →
      I (insertFound calls t kfs) ∧ table (insertFound calls t kfs) = table t := by
  induction kfs with
  | nil => exact fun ht _ => ⟨ht, rfl⟩
  | cons kf kfs ih =>
      intro t ht hkfs
      obtain ⟨hkf, hrest⟩ := List.forall_mem_cons.mp hkfs
      obtain ⟨hI, htable⟩ := h.smcInsert t kf.1 kf.2 ht hkf
      rw [← htable] at hkf
      obtain ⟨hI', htable'⟩ := h.emcInsert _ kf.1 kf.2 hI hkf
      obtain ⟨hend, hsame⟩ := ih hI' (by rwa [htable', htable])
      exact ⟨hend, hsame.trans (htable'.trans htable)⟩

theorem firstPending_isSome {xs : List (P × Slot K F)} {x : P × Slot K F} (hx : x ∈ xs)
    {key : K} (hkey : x.2 = .pending key) : ∃ q ∈ xs.map Prod.fst, firstPending xs = some q := by
  induction xs with
  | nil => cases hx
  | cons y xs ih =>
      obtain ⟨p, o | key'⟩ := y
      · rcases List.mem_cons.mp hx with rfl | hx
        · cases hkey
        · obtain ⟨q, hq, hfirst⟩ := ih hx
          exact ⟨q, List.mem_cons_of_mem p hq, hfirst⟩
      · exact ⟨p, List.mem_cons_self, rfl⟩

theorem middle_sound (h : Caching calls ft table I) {t : T} (ht : I t) (acquired : Bool)
    (packets : List P) :
    I (passes calls t acquired packets).1.1 ∧
      table (passes calls t acquired packets).1.1 = table t ∧
      Sound calls ft (table t) (passes calls t acquired packets).1.2 ∧
      (passes calls t acquired packets).1.2.map Prod.fst = packets := by
  have hslots := sound_dfcSlots h ht packets
  have hfst : (dfcSlots calls t packets).map Prod.fst = packets := by
    simp [dfcSlots, Function.comp_def]
  unfold passes
  dsimp only
  cases !(!calls.mdIsValid && calls.simpleMatchEnabled t) && calls.smcEnableDb with
  | false => exact ⟨ht, rfl, hslots, hfst⟩
  | true =>
      obtain ⟨hI, htable, hsound⟩ := sound_smc h hslots ht rfl
      exact ⟨hI, htable, hsound, (fst_resolve (smcPass calls) _ t).trans hfst⟩

/-- The passes over a batch whose packets came in on one port. -/
theorem passes_refine (h : Caching calls ft table I) {t : T} (ht : I t) (acquired : Bool)
    {packets : List P} {port : Nat}
    (hport : ∀ p ∈ packets, calls.inPort p = port ∧ calls.keyInPort (calls.key p) = port) :
    (passes calls t acquired packets).2.2 =
        decidedSlots (plain calls ft (table t) (packets.map fun p => (p, acquired))).2 ∧
      I (passes calls t acquired packets).2.1 ∧
      table (passes calls t acquired packets).2.1 =
        (plain calls ft (table t) (packets.map fun p => (p, acquired))).1 ∧
      ∀ kf ∈ found (keepUndropped (passes calls t acquired packets).1.2)
          (keepUndropped (passes calls t acquired packets).2.2),
        ft.lookup (table (passes calls t acquired packets).2.1) kf.1 = some kf.2 := by
  obtain ⟨hI, htable, hsound, hpackets⟩ := middle_sound h ht acquired packets
  have hend : (passes calls t acquired packets).2 =
      resolve (fastPass calls acquired (passes calls t acquired packets).1.1
        (((firstPending (passes calls t acquired packets).1.2).map calls.inPort).getD 0))
        (passes calls t acquired packets).1.1 (passes calls t acquired packets).1.2 := rfl
  rw [hend]
  generalize (passes calls t acquired packets).1 = z at hI htable hsound hpackets ⊢
  have hports : ∀ x ∈ z.2, ∀ key, x.2 = Slot.pending key →
      calls.keyInPort key = ((firstPending z.2).map calls.inPort).getD 0 := by
    intro x hx key hkey
    obtain ⟨q, hq, hfirst⟩ := firstPending_isSome hx hkey
    have hpx : x.1 ∈ packets := by
      rw [← hpackets]
      exact List.mem_map_of_mem hx
    have hkeyx : key = calls.key x.1 := by
      have hslot := hsound x hx
      rw [hkey] at hslot
      exact hslot.2
    rw [hpackets] at hq
    rw [hfirst, hkeyx, (hport x.1 hpx).2]
    exact (hport q hq).1.symm
  rw [← htable] at hsound ⊢
  generalize ((firstPending z.2).map calls.inPort).getD 0 = inPort at hports ⊢
  have hfast := fast_refines h acquired z.2 hsound hports hI (fun _ => rfl)
    (fun _ _ hkey => hkey)
  -- the same with the deleted packets left out, as the flow map has it
  have hkept := fast_refines h acquired (keepUndropped z.2)
    (fun x hx => hsound x (List.mem_filter.mp hx).1)
    (fun x hx => hports x (List.mem_filter.mp hx).1) hI (fun _ => rfl) (fun _ _ hkey => hkey)
  rw [resolve_keepUndropped (fastPass_drops_none calls acquired z.1 inPort)] at hkept
  have hmap : z.2.map (fun x => (x.1, acquired)) = packets.map fun p => (p, acquired) := by
    rw [← hpackets, List.map_map]
    rfl
  rw [hmap] at hfast
  refine ⟨hfast.slots, hfast.holds, hfast.table, ?_⟩
  rw [hkept.table]
  exact hkept.found

/-- A batch with the caches, and its packets one by one without them. -/
theorem input_refines (h : Caching calls ft table I) [DecidableEq F] {t : T} (ht : I t)
    (acquired : Bool) {packets : List P} (hlen : packets.length ≤ netdevMaxBurst) {port : Nat}
    (hport : ∀ p ∈ packets, calls.inPort p = port ∧ calls.keyInPort (calls.key p) = port) :
    let r := dpNetdevInput calls t acquired packets
    let z := plain calls ft (table t) (packets.map fun p => (p, acquired))
    I r.tables ∧ table r.tables = z.1 ∧
      r.batches = (group (keyed (classifiedIn calls z.2))).map (batchOfGroup calls.size) ∧
      r.dropped = packetsTo .dropped z.2 ∧ r.upcalled = packetsTo .upcalled z.2 ∧
      r.lost = packetsTo .lost z.2 := by
  intro r z
  have hrun := input_settles calls t acquired hlen
  obtain ⟨hslots, hI, htable, hfound⟩ := passes_refine h ht acquired hport
  obtain ⟨hend, hsame⟩ := insertFound_keeps h hI hfound
  refine ⟨?_, ?_, ?_, ?_, ?_, ?_⟩
  · rw [← hrun.tables] at hend
    exact hend
  · rw [← hrun.tables] at hsame
    exact hsame.trans htable
  · rw [← hits_decidedSlots (K := K), ← hslots]
    exact hrun.batches
  · rw [← dropped_decidedSlots (K := K), ← hslots]
    exact hrun.dropped
  · rw [← upcalled_decidedSlots (K := K), ← hslots]
    exact hrun.upcalled
  · rw [← lost_decidedSlots (K := K), ← hslots]
    exact hrun.lost

/-! ### A run of batches -/

section Runs

variable [DecidableEq F]

/-- One batch after the other, each with the lock for upcalls free or not. -/
def dpNetdevInputs (calls : Calls T P K F) : T → List (Bool × List P) → T × List (InputRun T F P)
  | t, [] => (t, [])
  | t, b :: bs =>
    let r := dpNetdevInput calls t b.1 b.2
    let rest := dpNetdevInputs calls r.tables bs
    (rest.1, r :: rest.2)

/-- The packets to be executed with the actions of a flow. -/
def InputRun.packetsOf (r : InputRun T F P) (flow : F) : List P :=
  (r.batches.filter fun batch => batch.flow = flow).flatMap PacketBatchPerFlow.array

theorem packetsOf_group (size : P → Nat) (cs : List (Classified F P)) (flow : F) :
    (((group (keyed cs)).map (batchOfGroup size)).filter fun batch => batch.flow = flow).flatMap
      PacketBatchPerFlow.array =
      (cs.filter fun c => c.flow = flow).map Classified.packet := by
  have hflow : (fun batch : PacketBatchPerFlow F P => decide (batch.flow = flow)) ∘
      batchOfGroup size = fun g => decide (g.1 = flow) := by
    funext g
    exact congrArg (fun f => decide (f = flow)) (batchOfGroup_array size g.1 g.2).1
  have harray : ∀ g : F × List (Classified F P),
      (batchOfGroup size g).array = g.2.map Classified.packet :=
    fun g => (batchOfGroup_array size g.1 g.2).2.1
  rw [List.filter_map, hflow, List.flatMap_map]
  simp only [harray]
  rw [← List.map_flatMap, flatMap_filter_group, members_keyed]

theorem packetsTo_append (outcome : Outcome F) (xs ys : List (P × Outcome F)) :
    packetsTo outcome (xs ++ ys) = packetsTo outcome xs ++ packetsTo outcome ys :=
  List.filterMap_append

theorem packetsTo_flow (calls : Calls T P K F) (outcomes : List (P × Outcome F)) (flow : F) :
    ((classifiedIn calls outcomes).filter fun c => c.flow = flow).map Classified.packet =
      packetsTo (.flow flow) outcomes := by
  unfold classifiedIn packetsTo
  rw [List.filter_filterMap, List.map_filterMap]
  apply List.filterMap_congr
  intro x _
  obtain ⟨p, o⟩ := x
  cases o with
  | flow flow' =>
      by_cases hf : flow' = flow
      · simp [hf, Calls.classified]
      · simp [hf, Calls.classified]
  | dropped => rfl
  | upcalled => rfl
  | lost => rfl

/-- With the caches, and in whatever batches the packets come, every flow is given the
packets that it is given without them, in the same order. -/
theorem inputs_refine_plain (h : Caching calls ft table I) {t : T} (ht : I t)
    (bs : List (Bool × List P))
    (hbs : ∀ b ∈ bs, b.2.length ≤ netdevMaxBurst ∧
      ∃ port, ∀ p ∈ b.2, calls.inPort p = port ∧ calls.keyInPort (calls.key p) = port) :
    let r := dpNetdevInputs calls t bs
    let z := plain calls ft (table t) (bs.flatMap fun b => b.2.map fun p => (p, b.1))
    table r.1 = z.1 ∧
      (∀ flow, r.2.flatMap (fun b => b.packetsOf flow) = packetsTo (.flow flow) z.2) ∧
      r.2.flatMap InputRun.dropped = packetsTo .dropped z.2 ∧
      r.2.flatMap InputRun.upcalled = packetsTo .upcalled z.2 ∧
      r.2.flatMap InputRun.lost = packetsTo .lost z.2 := by
  induction bs generalizing t with
  | nil => exact ⟨rfl, fun _ => rfl, rfl, rfl, rfl⟩
  | cons b bs ih =>
      obtain ⟨⟨hlen, port, hport⟩, hrest⟩ := List.forall_mem_cons.mp hbs
      obtain ⟨hI, htable, hbatches, hdropped, hupcalled, hlost⟩ :=
        input_refines h ht b.1 hlen hport
      obtain ⟨hend, hflows, hdrops, hupcalls, hlosts⟩ := ih hI hrest
      rw [htable] at hend hflows hdrops hupcalls hlosts
      intro r z
      have hz : z = ((plain calls ft
            (plain calls ft (table t) (b.2.map fun p => (p, b.1))).1
            (bs.flatMap fun b => b.2.map fun p => (p, b.1))).1,
          (plain calls ft (table t) (b.2.map fun p => (p, b.1))).2 ++
            (plain calls ft (plain calls ft (table t) (b.2.map fun p => (p, b.1))).1
              (bs.flatMap fun b => b.2.map fun p => (p, b.1))).2) := plain_append _ _ _
      refine ⟨?_, ?_, ?_, ?_, ?_⟩
      · rw [hz]
        exact hend
      · intro flow
        have hfirst : (dpNetdevInput calls t b.1 b.2).packetsOf flow =
            packetsTo (.flow flow) (plain calls ft (table t) (b.2.map fun p => (p, b.1))).2 := by
          rw [InputRun.packetsOf, hbatches, packetsOf_group, packetsTo_flow]
        rw [hz, packetsTo_append, ← hflows flow, ← hfirst]
        rfl
      · rw [hz, packetsTo_append, ← hdrops, ← hdropped]
        rfl
      · rw [hz, packetsTo_append, ← hupcalls, ← hupcalled]
        rfl
      · rw [hz, packetsTo_append, ← hlosts, ← hlost]
        rfl

def learnedFlows : FlowTable (List Nat) Nat Nat Nat where
  lookup flows key := if key ∈ flows then some key else none
  upcall flows _ key := key :: flows

theorem learning_caching : Caching learningCalls learnedFlows Learned.flows
    (fun t => t.emc ⊆ t.flows ∧ t.smc ⊆ t.flows) where
  lookup _ _ := rfl
  mark _ _ _ _ h := by cases h
  simple _ _ _ _ h := by cases h
  emc t key flow ht h := by
    obtain ⟨hmem, hflow⟩ := Option.ite_none_right_eq_some.mp h
    exact (if_pos (ht.1 hmem)).trans hflow
  smc t p flow ht h := by
    obtain ⟨hmem, hflow⟩ := Option.ite_none_right_eq_some.mp h
    exact (if_pos (ht.2 hmem)).trans hflow
  emcInsert t key flow ht h := by
    obtain ⟨hmem, -⟩ := Option.ite_none_right_eq_some.mp h
    exact ⟨⟨List.cons_subset.mpr ⟨hmem, ht.1⟩, ht.2⟩, rfl⟩
  smcInsert t key flow ht h := by
    obtain ⟨hmem, -⟩ := Option.ite_none_right_eq_some.mp h
    exact ⟨⟨ht.1, List.cons_subset.mpr ⟨hmem, ht.2⟩⟩, rfl⟩
  upcall t p ht _ := ⟨⟨List.subset_cons_of_subset _ ht.1, List.subset_cons_of_subset _ ht.2⟩, rfl⟩
  keeps a p key flow _ h := by
    obtain ⟨hmem, hflow⟩ := Option.ite_none_right_eq_some.mp h
    exact (if_pos (List.mem_cons_of_mem _ hmem)).trans hflow

theorem inputs_refine_plain_sample :
    (dpNetdevInputs learningCalls ⟨[], [], []⟩ [(true, [60, 61, 60]), (true, [61, 9, 60])]).2.flatMap
      (fun b => b.packetsOf 60) = [60, 60] := by
  have hrun := (inputs_refine_plain learning_caching (t := ⟨[], [], []⟩)
    ⟨List.Subset.refl [], List.Subset.refl []⟩ [(true, [60, 61, 60]), (true, [61, 9, 60])] (by
      intro b hb
      simp only [List.mem_cons, List.not_mem_nil, or_false] at hb
      rcases hb with rfl | rfl
      · exact ⟨by decide, 1, fun _ _ => ⟨rfl, rfl⟩⟩
      · exact ⟨by decide, 1, fun _ _ => ⟨rfl, rfl⟩⟩)).2.1 60
  exact hrun.trans (by decide)

end Runs

end Repath.Datapath
