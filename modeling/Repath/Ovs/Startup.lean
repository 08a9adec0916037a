import Repath.Ovs.Injection

/-!
# Start-up and allocation failures

`hopa_cp_init` creates the pool and the two rings and starts two threads.  It logs
a failed creation and goes on, and an encoder that gets no buffer returns a null
pointer, which `hopa_cp_send` enqueues.

A call of `hopa_cp_init` is one step, and so are a round of `hopa_cp_send` and an
iteration of `hopa_cp_progress`.  What the in ring holds plays no part here.
-/

namespace Repath.Ovs

open Exec Cells

/-- What the creation calls of one `hopa_cp_init` return, `false` for null. -/
structure Creation where
  poolCreate : Bool
  rteMalloc : Bool
  inRingCreate : Bool
  outRingCreate : Bool
  deriving DecidableEq

def Creation.AllSucceed (c : Creation) : Prop :=
  c.poolCreate = true ∧ c.rteMalloc = true ∧ c.inRingCreate = true ∧ c.outRingCreate = true

/-- Which pointers of `struct hopa_cp_in_out_ring` are not null. -/
structure InOutRing where
  hopaCpInRing : Bool
  hopaCpOutRing : Bool
  deriving DecidableEq

structure Startup where
  startTime : Int
  hopaCpHasInit : Bool
  /-- Whether `hopa_cp_mp` is not null. -/
  hopaCpMp : Bool
  /-- `m_hopa_cp_in_out_ring`. -/
  inOutRing : Option InOutRing
  /-- How often each thread was created. -/
  sendThreads : Nat
  progressThreads : Nat
  /-- The poller, and the contents of the out ring. -/
  rxq : Rxq

def Startup.start (startTime : Int) (store : Addr → RteMbuf) : Startup :=
  { startTime := startTime, hopaCpHasInit := false, hopaCpMp := false, inOutRing := none,
    sendThreads := 0, progressThreads := 0, rxq := .start store }

/-- `m_hopa_cp_in_out_ring != NULL` and its in ring is not null. -/
def Startup.hasInRing (s : Startup) : Bool := s.inOutRing.any (·.hopaCpInRing)

def Startup.hasOutRing (s : Startup) : Bool := s.inOutRing.any (·.hopaCpOutRing)

/-- The call at time `now` gets past its two guards. -/
def Startup.Passes (s : Startup) (now : Int) : Prop :=
  s.hopaCpHasInit = false ∧ ¬ now - s.startTime < 1

instance (s : Startup) (now : Int) : Decidable (s.Passes now) :=
  inferInstanceAs (Decidable (_ ∧ _))

/-- The threads are started whatever the creation calls returned. -/
def Startup.hopaCpInit (now : Int) (c : Creation) (s : Startup) : Except Stop Startup :=
  if s.Passes now then
    -- `memset` of the new structure
    if c.rteMalloc then
      .ok { s with hopaCpHasInit := true, hopaCpMp := c.poolCreate,
                   inOutRing := some ⟨c.inRingCreate, c.outRingCreate⟩,
                   sendThreads := s.sendThreads + 1, progressThreads := s.progressThreads + 1,
                   rxq := { s.rxq with hopaCpOutRing := .empty } }
    else .error .undefined
  else .ok s

/-- The buffers the encoders of a round get. -/
def Startup.allocs (s : Startup) (alloc : Nat → Option Addr) (i : Nat) : Option Addr :=
  if s.hopaCpMp then alloc i else none

inductive StartupAction
  | init (now : Int) (c : Creation)
  | send (alloc : Nat → Option Addr) (clock : Nat → Timespec)
  | progress
  | pollStart (port : Port)
  | pollEnd (burst : List (Addr × RteMbuf)) (slots : List (Option Addr))

def Startup.step (node : Node) (cksum : RteCksum) (s : Startup) :
    StartupAction → Except Stop Startup
  | .init now c => s.hopaCpInit now c
  | .send alloc clock =>
    if s.sendThreads = 0 then .ok s
    else if s.hasOutRing then
      .ok { s with rxq := sendRound node cksum (s.allocs alloc) clock s.rxq }
    else .error .undefined
  | .progress =>
    if s.progressThreads = 0 then .ok s
    else if s.hasInRing then .ok s
    else .error .undefined
  | .pollStart port =>
    if s.hasOutRing then do
      let rxq ← s.rxq.step node cksum (.pollStart port)
      .ok { s with rxq := rxq }
    else .ok { s with rxq := { s.rxq with nbCp := if port.up then some 0 else none,
                                          batch := none } }
  | .pollEnd burst slots => do
    let rxq ← s.rxq.step node cksum (.pollEnd burst slots)
    .ok { s with rxq := rxq }

/-! ### What is asked of a run -/

/-- The threads were started at most once, and only with the pool and both rings,
and there is no null pointer on the out ring. -/
def Startup.Contained (s : Startup) : Prop :=
  s.sendThreads ≤ 1 ∧ s.progressThreads ≤ 1 ∧
    (0 < s.sendThreads ∨ 0 < s.progressThreads →
      s.hopaCpMp = true ∧ s.hasInRing = true ∧ s.hasOutRing = true) ∧
    none ∉ s.rxq.hopaCpOutRing.items

/-- The step writes through, or hands to the ring library, a null pointer, or copies
from one. -/
def Startup.UsesNull (s : Startup) : StartupAction → Prop
  | .init now c => s.Passes now ∧ c.rteMalloc = false
  | .send _ _ => s.sendThreads ≠ 0 ∧ s.hasOutRing = false
  | .progress => s.progressThreads ≠ 0 ∧ s.hasInRing = false
  | .pollStart _ => False
  | .pollEnd _ _ => ∃ n, s.rxq.nbCp = some n ∧ none ∈ s.rxq.hopaCpOutRing.items.take n

/-- The creation calls all succeed, and every packet of a round that finds room on
the ring got its buffer. -/
def Startup.Supplied (node : Node) (s : Startup) : StartupAction → Prop
  | .init now c => s.Passes now → c.AllSucceed
  | .send alloc _ => s.sendThreads ≠ 0 →
      none ∉ ((List.range (roundLength node)).map alloc).take s.rxq.hopaCpOutRing.free
  | .progress => True
  | .pollStart _ => True
  | .pollEnd _ _ => True

/-! ### The ring during a poll -/

theorem items_of_rxqRecv {n : Nat} {burst : List (Addr × RteMbuf)} {slots : List (Option Addr)}
    {s s' : Rxq} (h : rxqRecv n burst slots s = .ok s') :
    ∀ p ∈ s'.hopaCpOutRing.items, p ∈ s.hopaCpOutRing.items := by
  rw [rxqRecv] at h
  split at h
  · cases h
  · dsimp only at h
    split at h
    · split at h <;> obtain rfl := Except.ok.inj h <;> exact fun p hp => hp
    · split at h
      · cases h
      · split at h
        · cases h
        · obtain rfl := Except.ok.inj h
          exact fun p hp => List.mem_of_mem_drop hp

theorem items_of_rxqPoll {node : Node} {cksum : RteCksum} {s s' : Rxq} {a : RxqAction}
    (hpoll : ∀ alloc clock, a ≠ .send alloc clock) (h : s.step node cksum a = .ok s') :
    ∀ p ∈ s'.hopaCpOutRing.items, p ∈ s.hopaCpOutRing.items := by
  cases a with
  | send alloc clock => exact absurd rfl (hpoll alloc clock)
  | pollStart port =>
      rw [Rxq.step] at h
      split at h <;> obtain rfl := Except.ok.inj h <;> exact fun p hp => hp
  | pollEnd burst slots =>
      rw [Rxq.step] at h
      split at h
      · obtain rfl := Except.ok.inj h
        exact fun p hp => hp
      · exact items_of_rxqRecv h

/-! ### The invariant -/

structure Startup.Inv (s : Startup) : Prop where
  before : s.hopaCpHasInit = false → s.sendThreads = 0 ∧ s.progressThreads = 0
  after : s.hopaCpHasInit = true → s.sendThreads = 1 ∧ s.progressThreads = 1 ∧
    s.hopaCpMp = true ∧ s.hasInRing = true ∧ s.hasOutRing = true
  noNull : none ∉ s.rxq.hopaCpOutRing.items

theorem startupInv_start (startTime : Int) (store : Addr → RteMbuf) :
    (Startup.start startTime store).Inv where
  before _ := ⟨rfl, rfl⟩
  after h := by cases h
  noNull := List.not_mem_nil

section Step

variable {node : Node} {cksum : RteCksum} {s s' : Startup} (h : s.Inv)

include h

theorem contained_of_inv : s.Contained := by
  cases hinit : s.hopaCpHasInit with
  | false =>
      obtain ⟨hsend, hprogress⟩ := h.before hinit
      refine ⟨by omega, by omega, fun hstarted => ?_, h.noNull⟩
      omega
  | true =>
      obtain ⟨hsend, hprogress, hexist⟩ := h.after hinit
      exact ⟨by omega, by omega, fun _ => hexist, h.noNull⟩

theorem hasInit_of_thread (hthread : s.sendThreads ≠ 0 ∨ s.progressThreads ≠ 0) :
    s.hopaCpHasInit = true := by
  cases hinit : s.hopaCpHasInit with
  | false =>
      obtain ⟨hsend, hprogress⟩ := h.before hinit
      omega
  | true => rfl

/-- A call that gets past its guards is contained exactly when its creation calls
all succeed. -/
theorem contained_init_iff {now : Int} {c : Creation} (hpass : s.Passes now)
    (hmalloc : c.rteMalloc = true) :
    ∃ s', s.hopaCpInit now c = .ok s' ∧ (s'.Contained ↔ c.AllSucceed) ∧
      (c.AllSucceed → s'.Inv) := by
  obtain ⟨hsend, hprogress⟩ := h.before hpass.1
  rw [Startup.hopaCpInit, if_pos hpass, if_pos hmalloc]
  refine ⟨_, rfl, ⟨fun hs' => ?_, fun hc => ?_⟩, fun hc => ?_⟩
  · obtain ⟨hmp, hin, hout⟩ := hs'.2.2.1 (Or.inl (Nat.succ_pos _))
    exact ⟨hmp, hmalloc, hin, hout⟩
  · refine ⟨?_, ?_, fun _ => ⟨hc.1, hc.2.2.1, hc.2.2.2⟩, List.not_mem_nil⟩
    · show s.sendThreads + 1 ≤ 1
      omega
    · show s.progressThreads + 1 ≤ 1
      omega
  · exact {
      before := fun he => by cases he
      after := by
        intro _
        refine ⟨?_, ?_, hc.1, hc.2.2.1, hc.2.2.2⟩
        · show s.sendThreads + 1 = 1
          omega
        · show s.progressThreads + 1 = 1
          omega
      noNull := List.not_mem_nil }

/-- A round puts a null pointer on the ring exactly when a packet that finds room
got no buffer. -/
theorem noNull_send_iff {alloc : Nat → Option Addr} {clock : Nat → Timespec}
    (hmp : s.hopaCpMp = true) :
    none ∉ (sendRound node cksum (s.allocs alloc) clock s.rxq).hopaCpOutRing.items ↔
      none ∉ ((List.range (roundLength node)).map alloc).take s.rxq.hopaCpOutRing.free := by
  have halloc : s.allocs alloc = alloc := by
    funext i
    rw [Startup.allocs, if_pos hmp]
  have hitems : (sendRound node cksum alloc clock s.rxq).hopaCpOutRing.items =
      s.rxq.hopaCpOutRing.items ++
        ((List.range (roundLength node)).map alloc).take s.rxq.hopaCpOutRing.free :=
    BoundedFifo.items_enqueueBurst_take _ _
  rw [halloc, hitems, List.mem_append, not_or]
  exact ⟨fun hnone => hnone.2, fun hnone => ⟨h.noNull, hnone⟩⟩

theorem startupInv_rxq {rxq : Rxq}
    (hitems : ∀ p ∈ rxq.hopaCpOutRing.items, p ∈ s.rxq.hopaCpOutRing.items) :
    ({ s with rxq := rxq } : Startup).Inv :=
  { h with noNull := fun hnull => h.noNull (hitems none hnull) }

theorem startupInv_step {a : StartupAction} (hsup : s.Supplied node a)
    (hok : s.step node cksum a = .ok s') : s'.Inv := by
  cases a with
  | init now c =>
      by_cases hpass : s.Passes now
      · have hc := hsup hpass
        obtain ⟨s'', hok', -, hInv⟩ := contained_init_iff h hpass hc.2.1
        obtain rfl := Except.ok.inj (hok'.symm.trans hok)
        exact hInv hc
      · rw [Startup.step, Startup.hopaCpInit, if_neg hpass] at hok
        obtain rfl := Except.ok.inj hok
        exact h
  | send alloc clock =>
      rw [Startup.step] at hok
      by_cases hthread : s.sendThreads = 0
      · rw [if_pos hthread] at hok
        obtain rfl := Except.ok.inj hok
        exact h
      · obtain ⟨-, -, hmp, -, hout⟩ := h.after (hasInit_of_thread h (Or.inl hthread))
        rw [if_neg hthread, if_pos hout] at hok
        obtain rfl := Except.ok.inj hok
        exact { h with noNull := (noNull_send_iff h hmp).mpr (hsup hthread) }
  | progress =>
      rw [Startup.step] at hok
      split at hok
      · obtain rfl := Except.ok.inj hok
        exact h
      · split at hok
        · obtain rfl := Except.ok.inj hok
          exact h
        · cases hok
  | pollStart port =>
      rw [Startup.step] at hok
      split at hok
      · obtain ⟨rxq, hpoll, hok⟩ := bind_eq_ok_iff.mp hok
        obtain rfl := Except.ok.inj hok
        exact startupInv_rxq h (items_of_rxqPoll (fun _ _ he => by cases he) hpoll)
      · obtain rfl := Except.ok.inj hok
        exact startupInv_rxq h fun p hp => hp
  | pollEnd burst slots =>
      obtain ⟨rxq, hpoll, hok⟩ := bind_eq_ok_iff.mp hok
      obtain rfl := Except.ok.inj hok
      exact startupInv_rxq h (items_of_rxqPoll (fun _ _ he => by cases he) hpoll)

theorem not_usesNull {a : StartupAction} (hsup : s.Supplied node a) : ¬ s.UsesNull a := by
  intro hnull
  cases a with
  | init now c =>
      obtain ⟨hpass, hmalloc⟩ := hnull
      rw [(hsup hpass).2.1] at hmalloc
      cases hmalloc
  | send alloc clock =>
      obtain ⟨hthread, hnone⟩ := hnull
      obtain ⟨-, -, -, -, hout⟩ := h.after (hasInit_of_thread h (Or.inl hthread))
      rw [hout] at hnone
      cases hnone
  | progress =>
      obtain ⟨hthread, hnone⟩ := hnull
      obtain ⟨-, -, -, hin, -⟩ := h.after (hasInit_of_thread h (Or.inr hthread))
      rw [hin] at hnone
      cases hnone
  | pollStart port => exact hnull
  | pollEnd burst slots =>
      obtain ⟨n, -, hmem⟩ := hnull
      exact h.noNull (List.mem_of_mem_take hmem)

/-- A step that is not supplied uses a null pointer or ends in a state that is not
contained. -/
theorem not_contained_of_not_supplied {a : StartupAction} (hsup : ¬ s.Supplied node a)
    (hnull : ¬ s.UsesNull a) :
    ∃ s', s.step node cksum a = .ok s' ∧ ¬ s'.Contained := by
  cases a with
  | init now c =>
      by_cases hpass : s.Passes now
      · have hmalloc : c.rteMalloc = true := by
          by_contra hfail
          exact hnull ⟨hpass, Bool.eq_false_iff.mpr hfail⟩
        obtain ⟨s', hok, hiff, -⟩ := contained_init_iff h hpass hmalloc
        exact ⟨s', hok, fun hs' => hsup fun _ => hiff.mp hs'⟩
      · exact absurd (fun hp => absurd hp hpass) hsup
  | send alloc clock =>
      by_cases hthread : s.sendThreads = 0
      · exact absurd (fun hne => absurd hthread hne) hsup
      · obtain ⟨-, -, hmp, -, hout⟩ := h.after (hasInit_of_thread h (Or.inl hthread))
        rw [Startup.step, if_neg hthread, if_pos hout]
        refine ⟨_, rfl, fun hs' => hsup fun _ => ?_⟩
        exact (noNull_send_iff h hmp).mp hs'.2.2.2
  | progress => exact absurd trivial hsup
  | pollStart port => exact absurd trivial hsup
  | pollEnd burst slots => exact absurd trivial hsup

end Step

/-- In a run the threads start once and fully equipped, no null pointer gets on the
ring and none is used, exactly when the creation calls of the `hopa_cp_init` that
gets past its guards succeed and every packet that finds room got its buffer. -/
theorem contained_iff_supplied (node : Node) (cksum : RteCksum) (startTime : Int)
    (store : Addr → RteMbuf) (acts : List StartupAction) :
    (Along (Startup.step node cksum) Startup.Contained (fun _ _ _ => True)
          (.start startTime store) acts ∧
        Guarded (Startup.step node cksum) (fun s a => ¬ s.UsesNull a)
          (.start startTime store) acts) ↔
      Guarded (Startup.step node cksum) (Startup.Supplied node) (.start startTime store) acts :=
  along_and_guarded_iff (fun (s : Startup) (h : s.Inv) => contained_of_inv h)
    (fun _ _ _ h hsup hok => ⟨startupInv_step h hsup hok, trivial⟩)
    (fun _ _ h hsup => not_usesNull h hsup)
    (fun _ _ h hsup hnull => not_contained_of_not_supplied h hsup hnull) acts _
    (startupInv_start startTime store)

/-! ### Failures that are not contained -/

def allCreated : Creation :=
  { poolCreate := true, rteMalloc := true, inRingCreate := true, outRingCreate := true }

/-- Without a pool the threads are started all the same.  A REPATH that gets no buffer
puts a null pointer on the ring, and the next poll copies from it. -/
theorem failures_not_contained :
    ¬ Along (Startup.step .yy default) Startup.Contained (fun _ _ _ => True)
      (.start 0 fun _ => zeroBuf) [.init 1 { allCreated with poolCreate := false }] ∧
    ¬ Along (Startup.step .yy default) Startup.Contained (fun _ _ _ => True)
      (.start 0 fun _ => zeroBuf) [.init 1 allCreated, .send (fun _ => none) fun _ => ⟨0, 0⟩] ∧
    ¬ Guarded (Startup.step .yy default) (fun s a => ¬ s.UsesNull a)
      (.start 0 fun _ => zeroBuf)
      [.init 1 allCreated, .send (fun _ => none) fun _ => ⟨0, 0⟩,
        .pollStart ⟨"pf1hpf", true⟩, .pollEnd [] freeSlots] := by
  refine ⟨fun h => ?_, fun h => ?_, fun h => ?_⟩
  · have hend := (h.2 _ rfl).2
    obtain ⟨hmp, -⟩ := hend.2.2.1 (Or.inl (Nat.succ_pos _))
    cases hmp
  · have hend := ((h.2 _ rfl).2.2 _ rfl).2
    exact hend.2.2.2 (List.mem_singleton_self none)
  · obtain ⟨-, h⟩ := h
    obtain ⟨-, h⟩ := h _ rfl
    obtain ⟨-, h⟩ := h _ rfl
    obtain ⟨hpoll, -⟩ := h _ rfl
    exact hpoll ⟨1, rfl, List.mem_singleton_self none⟩

end Repath.Ovs
