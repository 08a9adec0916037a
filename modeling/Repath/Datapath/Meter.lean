import Mathlib.Algebra.BigOperators.Ring.List
import Mathlib.Algebra.Order.BigOperators.Group.List
import Mathlib.Algebra.Group.Action.Defs
import Mathlib.Data.Nat.ModEq
import Repath.Lib.Compaction
import Repath.Lib.Snoc
import Repath.Lib.TokenBucket
import Repath.Ovs.RxqRecv

/-!
# Meters of `dpif-netdev.c`

A meter has a bucket for each of its bands.  A batch that reaches the meter first
refills every bucket by the time since the last batch, and then takes its packets
or its bits out of each.  A band whose bucket does not cover the batch marks the
packets that exceed it, and each marked packet is charged to the fastest of the
bands that marked it and dropped.

What a meter lets through conforms to the rate and the burst of each of its bands,
whatever the batches and the clock.  Traffic that conforms to all of them, with
one millisecond of each rate to spare, passes untouched.  The millisecond is what
`max_delta_t` loses by rounding down.
-/

namespace Repath.Datapath

open Compaction Snoc TokenBucket
open Repath.Ovs (netdevMaxBurst)

structure DpMeterBand where
  rate : Nat
  burstSize : Nat
  /-- In 1/1000 packets or in bits. -/
  bucket : Nat
  packetCount : Nat
  byteCount : Nat
  deriving DecidableEq, Repr

structure DpMeter where
  /-- `flags & OFPMF13_PKTPS`. -/
  pktps : Bool
  maxDeltaT : Nat
  /-- In microseconds. -/
  used : Nat
  packetCount : Nat
  byteCount : Nat
  bands : List DpMeterBand
  deriving DecidableEq, Repr

/-- `exceeded_rate[i]` and `exceeded_band[i]`, which starts negative. -/
structure Exceeded where
  rate : Nat
  band : Option Nat
  deriving DecidableEq, Repr

def Exceeded.start : Exceeded := { rate := 0, band := none }

def Exceeded.hit (m rate : Nat) (e : Exceeded) : Exceeded :=
  if e.rate < rate then { rate := rate, band := some m } else e

/-- Milliseconds since the last batch, for a clock in microseconds. -/
def DpMeter.deltaT (meter : DpMeter) (now : Nat) : Nat :=
  let longDeltaT : Int := (now / 1000 : Nat) - (meter.used / 1000 : Nat)
  -- several threads may be fighting for the lock
  let longDeltaT : Int := if longDeltaT < 0 then 0 else longDeltaT
  if (meter.maxDeltaT : Int) < longDeltaT then meter.maxDeltaT else longDeltaT.toNat % 2 ^ 32

def DpMeterBand.maxBucketSize (band : DpMeterBand) : Nat := band.burstSize * 1000

theorem maxBucketSize_congr {band band' : DpMeterBand} (h : band'.burstSize = band.burstSize) :
    band'.maxBucketSize = band.maxBucketSize :=
  congrArg (· * 1000) h

/-- The bucket after the refill. -/
def DpMeterBand.refill (deltaT : Nat) (band : DpMeterBand) : Nat :=
  let bucket := (band.bucket + deltaT * band.rate) % 2 ^ 64
  if band.maxBucketSize < bucket then band.maxBucketSize else bucket

/-- Taking the packets' bits one by one. -/
def drainBits (m rate : Nat) : Nat → Nat → List Nat → (Nat → Exceeded) → Nat × (Nat → Exceeded)
  | _, bucket, [], exceeded => (bucket, exceeded)
  | i, bucket, size :: sizes, exceeded =>
    let bits := size * 8 % 2 ^ 32
    if bits ≤ bucket then drainBits m rate (i + 1) (bucket - bits) sizes exceeded
    else drainBits m rate (i + 1) bucket sizes
      (Function.update exceeded i ((exceeded i).hit m rate))

/-- One iteration of the loop over the bands. -/
def runBand (pktps : Bool) (deltaT volume : Nat) (sizes : List Nat) (m : Nat)
    (band : DpMeterBand) (exceeded : Nat → Exceeded) : DpMeterBand × (Nat → Exceeded) :=
  let bucket := band.refill deltaT
  if volume ≤ bucket then ({ band with bucket := bucket - volume }, exceeded)
  else if pktps then
    let bandExceededPkt := bucket / 1000
    ({ band with bucket := bucket % 1000 },
      fun i => if bandExceededPkt ≤ i ∧ i < sizes.length then (exceeded i).hit m band.rate
        else exceeded i)
  else
    let r := drainBits m band.rate 0 bucket sizes exceeded
    ({ band with bucket := r.1 }, r.2)

def runBands (pktps : Bool) (deltaT volume : Nat) (sizes : List Nat) :
    Nat → List DpMeterBand → (Nat → Exceeded) → List DpMeterBand × (Nat → Exceeded)
  | _, [], exceeded => ([], exceeded)
  | m, band :: bands, exceeded =>
    let r := runBand pktps deltaT volume sizes m band exceeded
    let rest := runBands pktps deltaT volume sizes (m + 1) bands r.2
    (r.1 :: rest.1, rest.2)

def DpMeterBand.charge (size : Nat) (band : DpMeterBand) : DpMeterBand :=
  { band with packetCount := (band.packetCount + 1) % 2 ^ 64,
              byteCount := (band.byteCount + size) % 2 ^ 64 }

variable {P : Type}

/-- The body of the loop that drops packets; the state is the bands and the
packets deleted so far. -/
def fireBand (size : P → Nat) (exceeded : Nat → Exceeded) (s : List DpMeterBand × List P) (j : Nat)
    (packet : P) : (List DpMeterBand × List P) × Option P :=
  match (exceeded j).band with
  | some m => ((s.1.modify m (DpMeterBand.charge (size packet)), s.2 ++ [packet]), none)
  | none => (s, some packet)

def batchBytes (size : P → Nat) (packets : List P) : Nat := (packets.map size).sum % 2 ^ 32

def DpMeter.volume (size : P → Nat) (meter : DpMeter) (packets : List P) : Nat :=
  if meter.pktps then packets.length * 1000 % 2 ^ 32 else batchBytes size packets * 8 % 2 ^ 32

/-- What a batch leaves behind: the meter, the packets that go on and those
deleted. -/
structure MeterRun (P : Type) where
  meter : DpMeter
  passed : List P
  dropped : List P

/-- `dp_netdev_run_meter` once the meter is found. -/
def DpMeter.run (size : P → Nat) (meter : DpMeter) (now : Nat) (packets : List P) : MeterRun P :=
  let r := runBands meter.pktps (meter.deltaT now) (meter.volume size packets) (packets.map size)
    0 meter.bands (fun _ => .start)
  let fired := compact (fireBand size r.2) (r.1, []) packets
  { meter := { meter with used := now,
                          packetCount := (meter.packetCount + packets.length) % 2 ^ 64,
                          byteCount := (meter.byteCount + batchBytes size packets) % 2 ^ 64,
                          bands := fired.1.1 },
    passed := fired.2, dropped := fired.1.2 }

/-! ### The clock and the refill -/

theorem DpMeter.deltaT_eq {meter : DpMeter} (h : meter.maxDeltaT < 2 ^ 32) (now : Nat) :
    meter.deltaT now = min (now / 1000 - meter.used / 1000) meter.maxDeltaT := by
  unfold DpMeter.deltaT
  dsimp only
  split <;> split <;> omega

theorem DpMeterBand.refill_le (deltaT : Nat) (band : DpMeterBand) :
    band.refill deltaT ≤ min band.maxBucketSize (band.bucket + deltaT * band.rate) := by
  have hmod := Nat.mod_le (band.bucket + deltaT * band.rate) (2 ^ 64)
  unfold DpMeterBand.refill
  dsimp only
  split <;> omega

theorem DpMeterBand.refill_eq {deltaT : Nat} {band : DpMeterBand}
    (h : band.bucket + deltaT * band.rate < 2 ^ 64) :
    band.refill deltaT = min band.maxBucketSize (band.bucket + deltaT * band.rate) := by
  unfold DpMeterBand.refill
  dsimp only
  rw [Nat.mod_eq_of_lt h]
  split <;> omega

/-! ### What one band takes -/

/-- Taking bits one by one: whether packet `j` finds too few of them. -/
def exceedsBits : Nat → List Nat → Nat → Bool
  | _, [], _ => false
  | bucket, size :: _, 0 => decide (bucket < size * 8 % 2 ^ 32)
  | bucket, size :: sizes, j + 1 =>
    exceedsBits (if size * 8 % 2 ^ 32 ≤ bucket then bucket - size * 8 % 2 ^ 32 else bucket) sizes j

def drained : Nat → List Nat → Nat
  | bucket, [] => bucket
  | bucket, size :: sizes =>
    drained (if size * 8 % 2 ^ 32 ≤ bucket then bucket - size * 8 % 2 ^ 32 else bucket) sizes

/-- Packet `j` exceeds a band whose bucket, once refilled, holds `bucket`. -/
def bandExceeds (pktps : Bool) (bucket volume : Nat) (sizes : List Nat) (j : Nat) : Bool :=
  if volume ≤ bucket then false
  else if pktps then decide (bucket / 1000 ≤ j ∧ j < sizes.length)
  else exceedsBits bucket sizes j

def bucketAfter (pktps : Bool) (bucket volume : Nat) (sizes : List Nat) : Nat :=
  if volume ≤ bucket then bucket - volume
  else if pktps then bucket % 1000
  else drained bucket sizes

theorem drainBits_eq (m rate : Nat) (sizes : List Nat) : ∀ (i bucket : Nat)
    (exceeded : Nat → Exceeded), drainBits m rate i bucket sizes exceeded =
      (drained bucket sizes, fun j =>
        if i ≤ j ∧ exceedsBits bucket sizes (j - i) = true then (exceeded j).hit m rate
        else exceeded j) := by
  induction sizes with
  | nil =>
      intro i bucket exceeded
      simp [drainBits, drained, exceedsBits]
  | cons size sizes ih =>
      intro i bucket exceeded
      rw [drainBits, drained]
      by_cases hbits : size * 8 % 2 ^ 32 ≤ bucket
      · rw [if_pos hbits, if_pos hbits, ih]
        refine congrArg _ (funext fun j => ?_)
        by_cases hj : i + 1 ≤ j
        · obtain ⟨k, rfl⟩ : ∃ k, j = i + 1 + k := ⟨j - (i + 1), by omega⟩
          rw [show i + 1 + k - (i + 1) = k by omega, show i + 1 + k - i = k + 1 by omega]
          simp only [exceedsBits, if_pos hbits]
          simp [Nat.le_of_succ_le hj]
        · rw [if_neg (by omega), if_neg]
          intro h
          obtain rfl : j = i := by omega
          rw [Nat.sub_self, exceedsBits] at h
          simp at h
          omega
      · rw [if_neg hbits, if_neg hbits, ih]
        refine congrArg _ (funext fun j => ?_)
        by_cases hj : i + 1 ≤ j
        · obtain ⟨k, rfl⟩ : ∃ k, j = i + 1 + k := ⟨j - (i + 1), by omega⟩
          rw [show i + 1 + k - (i + 1) = k by omega, show i + 1 + k - i = k + 1 by omega]
          rw [Function.update_of_ne (by omega)]
          simp only [exceedsBits, if_neg hbits]
          simp [Nat.le_of_succ_le hj]
        · rw [if_neg (by omega)]
          by_cases hij : j = i
          · subst hij
            rw [Function.update_self, if_pos]
            refine ⟨Nat.le_refl _, ?_⟩
            rw [Nat.sub_self, exceedsBits]
            exact decide_eq_true (by omega)
          · rw [Function.update_of_ne hij, if_neg (by omega)]

theorem runBand_eq (pktps : Bool) (deltaT volume : Nat) (sizes : List Nat) (m : Nat)
    (band : DpMeterBand) (exceeded : Nat → Exceeded) :
    runBand pktps deltaT volume sizes m band exceeded =
      ({ band with bucket := bucketAfter pktps (band.refill deltaT) volume sizes },
        fun j => if bandExceeds pktps (band.refill deltaT) volume sizes j
          then (exceeded j).hit m band.rate else exceeded j) := by
  unfold runBand bucketAfter bandExceeds
  dsimp only
  by_cases hvolume : volume ≤ band.refill deltaT
  · simp [hvolume]
  · cases pktps with
    | true => simp [hvolume]
    | false => simp [hvolume, drainBits_eq]

/-- A batch as the datapath forms it, of packets below 16 MiB. -/
structure Fits (size : P → Nat) (packets : List P) : Prop where
  count : packets.length ≤ netdevMaxBurst
  small : ∀ p ∈ packets, size p < 2 ^ 24

/-- What one packet takes out of a bucket. -/
def meterCost (size : P → Nat) (pktps : Bool) (packet : P) : Nat :=
  if pktps then 1000 else size packet * 8

def totalCost (size : P → Nat) (pktps : Bool) (packets : List P) : Nat :=
  (packets.map (meterCost size pktps)).sum

theorem totalCost_packets (size : P → Nat) (packets : List P) :
    totalCost size true packets = packets.length * 1000 := by
  show (packets.map fun _ => 1000).sum = _
  rw [List.map_const', List.sum_replicate, smul_eq_mul]

theorem totalCost_bits (size : P → Nat) (packets : List P) :
    totalCost size false packets = (packets.map size).sum * 8 := by
  show (packets.map fun p => size p * 8).sum = _
  exact List.sum_map_mul_right packets size 8

theorem Fits.sum_lt {size : P → Nat} {packets : List P} (h : Fits size packets) :
    (packets.map size).sum < 2 ^ 29 := by
  have hle : (packets.map size).sum ≤ packets.length * (2 ^ 24 - 1) := by
    have hcard := List.sum_le_card_nsmul (packets.map size) (2 ^ 24 - 1) (by
      intro x hx
      obtain ⟨p, hp, rfl⟩ := List.mem_map.mp hx
      have hsmall := h.small p hp
      omega)
    rwa [List.length_map, smul_eq_mul] at hcard
  have hcount := h.count
  unfold netdevMaxBurst at hcount
  omega

theorem Fits.volume_eq {size : P → Nat} {packets : List P} (h : Fits size packets)
    (meter : DpMeter) : meter.volume size packets = totalCost size meter.pktps packets := by
  have hsum := h.sum_lt
  have hcount := h.count
  unfold netdevMaxBurst at hcount
  unfold DpMeter.volume batchBytes
  cases meter.pktps with
  | true =>
      rw [totalCost_packets]
      exact Nat.mod_eq_of_lt (by omega)
  | false =>
      rw [totalCost_bits]
      show (packets.map size).sum % 2 ^ 32 * 8 % 2 ^ 32 = _
      omega

theorem drained_add (size : P → Nat) (packets : List P) (h : ∀ p ∈ packets, size p < 2 ^ 24) :
    ∀ bucket, totalCost size false
        (pick (fun j => !exceedsBits bucket (packets.map size) j) 0 packets) +
      drained bucket (packets.map size) = bucket := by
  induction packets with
  | nil =>
      intro bucket
      rw [totalCost_bits]
      simp [pick, drained]
  | cons p packets ih =>
      intro bucket
      have hsmall := h p List.mem_cons_self
      have hrest := ih fun q hq => h q (List.mem_cons_of_mem p hq)
      have hmod : size p * 8 % 2 ^ 32 = size p * 8 := Nat.mod_eq_of_lt (by omega)
      rw [List.map_cons, drained, pick, hmod, Nat.zero_add, pick_succ]
      simp only [exceedsBits, hmod]
      by_cases hbits : size p * 8 ≤ bucket
      · have hlater := hrest (bucket - size p * 8)
        rw [totalCost_bits] at hlater
        rw [if_pos hbits, if_pos (by simpa using hbits), totalCost_bits, List.map_cons,
          List.sum_cons]
        omega
      · rw [if_neg hbits, if_neg (by simpa using hbits)]
        exact hrest bucket

/-- The packets that do not exceed the band take exactly what leaves its bucket. -/
theorem bucketAfter_add {size : P → Nat} {packets : List P} (h : Fits size packets) (pktps : Bool)
    (bucket : Nat) :
    totalCost size pktps (pick (fun j => !bandExceeds pktps bucket
        (totalCost size pktps packets) (packets.map size) j) 0 packets) +
      bucketAfter pktps bucket (totalCost size pktps packets) (packets.map size) = bucket := by
  unfold bandExceeds bucketAfter
  by_cases hvolume : totalCost size pktps packets ≤ bucket
  · simp only [if_pos hvolume]
    rw [pick_true (p := fun _ => !false) 0 packets fun _ _ _ => rfl]
    omega
  · simp only [if_neg hvolume]
    cases pktps with
    | false => exact drained_add size packets h.small bucket
    | true =>
        rw [totalCost_packets] at hvolume
        have hfirst : pick (fun j => !decide (bucket / 1000 ≤ j ∧ j < (packets.map size).length)) 0
            packets = pick (fun j => decide (j < bucket / 1000)) 0 packets := by
          apply pick_congr
          intro j _ hj
          rw [List.length_map, ← decide_not]
          exact decide_eq_decide.mpr (by omega)
        show totalCost size true (pick (fun j => !decide _) 0 packets) + bucket % 1000 = bucket
        rw [hfirst, pick_lt, totalCost_packets, List.length_take]
        omega

/-! ### Which band a packet is charged to -/

/-- The loop over the bands as one packet sees it: the rate of each band and
whether the packet exceeds it. -/
def fire : Nat → List (Nat × Bool) → Exceeded → Exceeded
  | _, [], e => e
  | m, r :: rs, e => fire (m + 1) rs (if r.2 then e.hit m r.1 else e)

/-- `e` names the fastest of the marked bands, the first of them if several are
as fast, and none when no marked band has a rate. -/
structure Fastest (rs : List (Nat × Bool)) (e : Exceeded) : Prop where
  unmarked : e.band = none → e.rate = 0
  le : ∀ (i r : Nat), rs[i]? = some (r, true) → r ≤ e.rate
  marked : ∀ k, e.band = some k → 0 < e.rate ∧ rs[k]? = some (e.rate, true)
  first : ∀ k, e.band = some k → ∀ (i r : Nat), i < k → rs[i]? = some (r, true) → r < e.rate

theorem fastest_start : Fastest [] Exceeded.start where
  unmarked _ := rfl
  le _ _ h := by cases h
  marked _ h := by cases h
  first _ h := by cases h

theorem Fastest.snoc {pre : List (Nat × Bool)} {e : Exceeded} (h : Fastest pre e)
    (r : Nat × Bool) :
    Fastest (pre ++ [r]) (if r.2 then e.hit pre.length r.1 else e) := by
  obtain ⟨rate, mark⟩ := r
  have hkeep : ∀ k, e.band = some k → (pre ++ [(rate, mark)])[k]? = some (e.rate, true) := by
    intro k hk
    have hold := (h.marked k hk).2
    have hlen := (List.getElem?_eq_some_iff.mp hold).1
    rwa [List.getElem?_append_left hlen]
  by_cases hhit : mark = true ∧ e.rate < rate
  · obtain ⟨rfl, hlt⟩ := hhit
    have hnew : (if (rate, true).2 = true then e.hit pre.length rate else e) =
        { rate := rate, band := some pre.length } := if_pos hlt
    rw [hnew]
    refine ⟨?_, ?_, ?_, ?_⟩
    · intro hnone
      cases hnone
    · intro i s hs
      rcases getElem?_snoc_iff.mp hs with hs | ⟨-, hs⟩
      · exact (h.le i s hs).trans hlt.le
      · obtain rfl := (Prod.mk.inj hs).1
        exact Nat.le_refl _
    · intro k hk
      obtain rfl := Option.some.inj hk
      exact ⟨Nat.zero_lt_of_lt hlt, List.getElem?_concat_length⟩
    · intro k hk i s hi hs
      obtain rfl := Option.some.inj hk
      rcases getElem?_snoc_iff.mp hs with hs | ⟨hi', -⟩
      · exact (h.le i s hs).trans_lt hlt
      · exact absurd hi' (Nat.ne_of_lt hi)
  · have hsame : (if (rate, mark).2 = true then e.hit pre.length rate else e) = e := by
      by_cases hm : mark = true
      · rw [if_pos hm]
        exact if_neg fun hlt => hhit ⟨hm, hlt⟩
      · exact if_neg hm
    rw [hsame]
    refine ⟨h.unmarked, ?_, fun k hk => ⟨(h.marked k hk).1, hkeep k hk⟩, ?_⟩
    · intro i s hs
      rcases getElem?_snoc_iff.mp hs with hs | ⟨-, hs⟩
      · exact h.le i s hs
      · obtain ⟨rfl, rfl⟩ := Prod.mk.inj hs
        exact Nat.le_of_not_lt fun hlt => hhit ⟨rfl, hlt⟩
    · intro k hk i s hi hs
      have hlen := (List.getElem?_eq_some_iff.mp (h.marked k hk).2).1
      rw [List.getElem?_append_left (hi.trans hlen)] at hs
      exact h.first k hk i s hi hs

theorem fire_fastest (rs : List (Nat × Bool)) : ∀ (pre : List (Nat × Bool)) (e : Exceeded),
    Fastest pre e → Fastest (pre ++ rs) (fire pre.length rs e) := by
  induction rs with
  | nil =>
      intro pre e h
      rwa [List.append_nil]
  | cons r rs ih =>
      intro pre e h
      have hnext := ih (pre ++ [r]) _ (h.snoc r)
      rw [List.length_append, List.length_singleton, List.append_assoc,
        List.singleton_append] at hnext
      exact hnext

/-- With positive rates, a packet passes exactly when it exceeds no band. -/
theorem fire_band_none_iff {rs : List (Nat × Bool)} (hrate : ∀ r ∈ rs, 0 < r.1) :
    (fire 0 rs .start).band = none ↔ ∀ r ∈ rs, r.2 = false := by
  have h := fire_fastest rs [] .start fastest_start
  rw [List.nil_append, List.length_nil] at h
  constructor
  · intro hnone r hr
    obtain ⟨i, hi⟩ := List.mem_iff_getElem?.mp hr
    by_contra hmark
    rw [Bool.not_eq_false] at hmark
    have hle := h.le i r.1 (by rw [hi, ← hmark])
    rw [h.unmarked hnone] at hle
    exact absurd (hrate r hr) (Nat.not_lt.mpr hle)
  · intro hall
    cases hband : (fire 0 rs .start).band with
    | none => rfl
    | some k =>
        have hmem := List.mem_of_getElem? (h.marked k hband).2
        exact absurd (hall _ hmem) (by simp)

/-! ### One batch -/

/-- What a batch with these sizes marks packet `j` with. -/
def bandMarks (pktps : Bool) (deltaT volume : Nat) (sizes : List Nat) (bands : List DpMeterBand)
    (j : Nat) : List (Nat × Bool) :=
  bands.map fun band =>
    (band.rate, bandExceeds pktps (band.refill deltaT) volume sizes j)

theorem runBands_eq (pktps : Bool) (deltaT volume : Nat) (sizes : List Nat)
    (bands : List DpMeterBand) : ∀ (m : Nat) (exceeded : Nat → Exceeded),
    runBands pktps deltaT volume sizes m bands exceeded =
      (bands.map fun band =>
          { band with bucket := bucketAfter pktps (band.refill deltaT) volume sizes },
        fun j => fire m (bandMarks pktps deltaT volume sizes bands j) (exceeded j)) := by
  induction bands with
  | nil =>
      intro m exceeded
      rfl
  | cons band bands ih =>
      intro m exceeded
      rw [runBands, runBand_eq, ih]
      rfl

/-- The marks a batch leaves on packet `j` of it. -/
def DpMeter.marks (size : P → Nat) (meter : DpMeter) (now : Nat) (packets : List P) (j : Nat) :
    List (Nat × Bool) :=
  bandMarks meter.pktps (meter.deltaT now) (meter.volume size packets) (packets.map size)
    meter.bands j

/-- The band that packet `j` is charged to. -/
def DpMeter.charged (size : P → Nat) (meter : DpMeter) (now : Nat) (packets : List P) (j : Nat) :
    Option Nat := (fire 0 (meter.marks size now packets j) .start).band

theorem snd_fireBand (size : P → Nat) (exceeded : Nat → Exceeded) (s : List DpMeterBand × List P)
    (j : Nat) (packet : P) : (fireBand size exceeded s j packet).2 =
      if (exceeded j).band.isNone then some packet else none := by
  unfold fireBand
  cases (exceeded j).band <;> rfl

theorem fst_snd_fireBand (size : P → Nat) (exceeded : Nat → Exceeded)
    (s : List DpMeterBand × List P) (j : Nat) (packet : P) :
    (fireBand size exceeded s j packet).1.2 =
      s.2 ++ if (exceeded j).band.isSome then [packet] else [] := by
  unfold fireBand
  cases (exceeded j).band with
  | none => exact (List.append_nil s.2).symm
  | some m => rfl

theorem dropped_kept (size : P → Nat) (exceeded : Nat → Exceeded) (packets : List P) :
    ∀ (i : Nat) (s : List DpMeterBand × List P),
      (kept (fireBand size exceeded) i s packets).1.2 =
        s.2 ++ pick (fun j => (exceeded j).band.isSome) i packets := by
  induction packets with
  | nil =>
      intro i s
      rw [pick, List.append_nil]
      rfl
  | cons packet packets ih =>
      intro i s
      rw [kept, pick]
      show (kept (fireBand size exceeded) (i + 1) _ packets).1.2 = _
      rw [ih, fst_snd_fireBand, List.append_assoc]
      cases (exceeded i).band <;> rfl

theorem DpMeter.run_passed (size : P → Nat) (meter : DpMeter) (now : Nat) (packets : List P) :
    (meter.run size now packets).passed =
      pick (fun j => (meter.charged size now packets j).isNone) 0 packets := by
  unfold DpMeter.run
  dsimp only
  rw [compact_eq_kept, kept_pick (snd_fireBand size _), runBands_eq]
  rfl

theorem DpMeter.run_dropped (size : P → Nat) (meter : DpMeter) (now : Nat) (packets : List P) :
    (meter.run size now packets).dropped =
      pick (fun j => (meter.charged size now packets j).isSome) 0 packets := by
  unfold DpMeter.run
  dsimp only
  rw [compact_eq_kept, dropped_kept, runBands_eq]
  rfl

/-- The fields of a band that charging a packet to it leaves alone. -/
def DpMeterBand.core (band : DpMeterBand) : Nat × Nat × Nat :=
  (band.rate, band.burstSize, band.bucket)

theorem map_core_fireBand (size : P → Nat) (exceeded : Nat → Exceeded)
    (s : List DpMeterBand × List P) (j : Nat) (packet : P) :
    (fireBand size exceeded s j packet).1.1.map DpMeterBand.core =
      s.1.map DpMeterBand.core := by
  unfold fireBand
  cases (exceeded j).band with
  | none => rfl
  | some m =>
      apply List.ext_getElem?
      intro i
      rw [List.getElem?_map, List.getElem?_map, List.getElem?_modify]
      by_cases hi : m = i
      · subst hi
        cases s.1[m]? <;> simp [DpMeterBand.charge, DpMeterBand.core]
      · simp [hi]

theorem map_core_kept (size : P → Nat) (exceeded : Nat → Exceeded) (packets : List P) (i : Nat)
    (s : List DpMeterBand × List P) :
    (kept (fireBand size exceeded) i s packets).1.1.map DpMeterBand.core =
      s.1.map DpMeterBand.core :=
  kept_invariant (Q := fun t => t.1.map DpMeterBand.core = s.1.map DpMeterBand.core)
    (fun t j x h => (map_core_fireBand size exceeded t j x).trans h) i packets rfl

theorem DpMeter.run_core (size : P → Nat) (meter : DpMeter) (now : Nat) (packets : List P) :
    (meter.run size now packets).meter.bands.map DpMeterBand.core =
      meter.bands.map fun band => (band.rate, band.burstSize,
        bucketAfter meter.pktps (band.refill (meter.deltaT now)) (meter.volume size packets)
          (packets.map size)) := by
  unfold DpMeter.run
  dsimp only
  rw [compact_eq_kept, map_core_kept, runBands_eq, List.map_map]
  rfl

/-- What passes takes no more out of a band with a rate than leaves its bucket. -/
theorem DpMeter.totalCost_passed_le {size : P → Nat} {meter : DpMeter} {packets : List P}
    (hfits : Fits size packets) (now : Nat) (hrate : ∀ band ∈ meter.bands, 0 < band.rate)
    {band : DpMeterBand} (hband : band ∈ meter.bands) :
    totalCost size meter.pktps (meter.run size now packets).passed +
        bucketAfter meter.pktps (band.refill (meter.deltaT now)) (meter.volume size packets)
          (packets.map size) ≤
      band.refill (meter.deltaT now) := by
  rw [hfits.volume_eq meter, meter.run_passed]
  have hexact := bucketAfter_add hfits meter.pktps (band.refill (meter.deltaT now))
  have hmono : totalCost size meter.pktps
      (pick (fun j => (meter.charged size now packets j).isNone) 0 packets) ≤
      totalCost size meter.pktps (pick (fun j => !bandExceeds meter.pktps
        (band.refill (meter.deltaT now)) (totalCost size meter.pktps packets)
        (packets.map size) j) 0 packets) := by
    apply sum_pick_mono
    intro j _ _ hnone
    have hmarks : ∀ r ∈ meter.marks size now packets j, 0 < r.1 := by
      intro r hr
      obtain ⟨b, hb, rfl⟩ := List.mem_map.mp hr
      exact hrate b hb
    have hnot : bandExceeds meter.pktps (band.refill (meter.deltaT now))
        (meter.volume size packets) (packets.map size) j = false :=
      (fire_band_none_iff hmarks).mp (Option.isNone_iff_eq_none.mp hnone) _
        (List.mem_map.mpr ⟨band, hband, rfl⟩)
    rw [hfits.volume_eq meter] at hnot
    rw [hnot]
    rfl
  omega

/-- A batch that every bucket covers passes whole. -/
theorem DpMeter.run_covered {size : P → Nat} {meter : DpMeter} {now : Nat} {packets : List P}
    (h : ∀ band ∈ meter.bands, meter.volume size packets ≤ band.refill (meter.deltaT now)) :
    (meter.run size now packets).passed = packets ∧
      (meter.run size now packets).dropped = [] := by
  have hnone : ∀ j, meter.charged size now packets j = none := by
    intro j
    have hmarks : ∀ r ∈ meter.marks size now packets j, r.2 = false := by
      intro r hr
      obtain ⟨band, hband, rfl⟩ := List.mem_map.mp hr
      exact if_pos (h band hband)
    have hfast := fire_fastest (meter.marks size now packets j) [] .start fastest_start
    rw [List.nil_append, List.length_nil] at hfast
    unfold DpMeter.charged
    cases hband : (fire 0 (meter.marks size now packets j) .start).band with
    | none => rfl
    | some k =>
        have hmem := List.mem_of_getElem? (hfast.marked k hband).2
        exact absurd (hmarks _ hmem) (by simp)
  rw [meter.run_passed, meter.run_dropped]
  simp only [hnone]
  exact ⟨pick_true (p := fun _ => true) 0 packets fun _ _ _ => rfl, pick_false 0 packets⟩

/-! ### The counters of the bands -/

def DpMeterBand.chargeAll (size : P → Nat) (band : DpMeterBand) (packets : List P) : DpMeterBand :=
  packets.foldl (fun b p => b.charge (size p)) band

theorem getElem?_kept (size : P → Nat) (exceeded : Nat → Exceeded) (k : Nat) (packets : List P) :
    ∀ (i : Nat) (s : List DpMeterBand × List P),
      (kept (fireBand size exceeded) i s packets).1.1[k]? = s.1[k]?.map fun band =>
        band.chargeAll size (pick (fun j => decide ((exceeded j).band = some k)) i packets) := by
  induction packets with
  | nil =>
      intro i s
      show s.1[k]? = s.1[k]?.map fun band => band
      rw [Option.map_id']
  | cons packet packets ih =>
      intro i s
      rw [kept, pick]
      show (kept (fireBand size exceeded) (i + 1) _ packets).1.1[k]? = _
      rw [ih, fireBand]
      cases hband : (exceeded i).band with
      | none => simp
      | some m =>
          by_cases hm : m = k
          · subst hm
            simp only [decide_true, if_true, List.getElem?_modify]
            cases s.1[m]? <;> rfl
          · have hne : ¬ some m = some k := fun he => hm (Option.some.inj he)
            simp [hm]

theorem chargeAll_counts (size : P → Nat) (packets : List P) : ∀ band : DpMeterBand,
    (band.chargeAll size packets).packetCount ≡ band.packetCount + packets.length [MOD 2 ^ 64] ∧
      (band.chargeAll size packets).byteCount ≡
        band.byteCount + (packets.map size).sum [MOD 2 ^ 64] := by
  induction packets with
  | nil => exact fun band => ⟨Nat.ModEq.rfl, Nat.ModEq.rfl⟩
  | cons packet packets ih =>
      intro band
      obtain ⟨hcount, hbytes⟩ := ih (band.charge (size packet))
      constructor
      · refine hcount.trans ?_
        show (band.packetCount + 1) % 2 ^ 64 + packets.length ≡ _ [MOD 2 ^ 64]
        rw [List.length_cons, show band.packetCount + (packets.length + 1) =
          band.packetCount + 1 + packets.length by omega]
        exact (Nat.mod_modEq _ _).add_right _
      · refine hbytes.trans ?_
        show (band.byteCount + size packet) % 2 ^ 64 + (packets.map size).sum ≡ _ [MOD 2 ^ 64]
        rw [List.map_cons, List.sum_cons, ← Nat.add_assoc]
        exact (Nat.mod_modEq _ _).add_right _

theorem DpMeter.run_counts {size : P → Nat} {meter : DpMeter} {now : Nat} {packets : List P}
    {k : Nat} {band : DpMeterBand} (h : meter.bands[k]? = some band) :
    ∃ band', (meter.run size now packets).meter.bands[k]? = some band' ∧
      band'.packetCount ≡ band.packetCount + (pick (fun j =>
        decide (meter.charged size now packets j = some k)) 0 packets).length [MOD 2 ^ 64] ∧
      band'.byteCount ≡ band.byteCount + ((pick (fun j =>
        decide (meter.charged size now packets j = some k)) 0 packets).map size).sum
        [MOD 2 ^ 64] := by
  refine ⟨_, ?_, chargeAll_counts size (pick (fun j =>
    decide (meter.charged size now packets j = some k)) 0 packets)
    { band with bucket := bucketAfter meter.pktps (band.refill (meter.deltaT now))
                  (meter.volume size packets) (packets.map size) }⟩
  unfold DpMeter.run
  dsimp only
  rw [compact_eq_kept, getElem?_kept, runBands_eq, List.getElem?_map, h]
  rfl

end Repath.Datapath
