import Mathlib.Data.List.Chain
import Repath.Datapath.Meter
import Repath.Lib.Exec

/-!
# The meter table and what its meters let through

`dpif_netdev_meter_set` builds a meter with full buckets, `dpif_netdev_meter_del`
removes it and `dp_netdev_run_meter` feeds it the batches of the datapath.  The
results follow one meter through a run of all three on any meters, from the
moment it is in the table for as long as it is neither replaced nor deleted.
-/

namespace Repath.Datapath

open Compaction TokenBucket Exec
open Repath.Ovs (netdevMaxBurst)

/-- The `OFPMF13_*` bits of a configuration. -/
structure MeterFlags where
  kbps : Bool
  pktps : Bool
  burst : Bool
  stats : Bool
  /-- Any bit outside `DP_SUPPORTED_METER_FLAGS_MASK`. -/
  unsupported : Bool
  deriving DecidableEq, Repr

inductive BandType
  | drop
  | dscpRemark
  | experimenter
  deriving DecidableEq, Repr

structure BandConfig where
  type : BandType
  rate : UInt32
  burstSize : UInt32
  deriving DecidableEq, Repr

structure MeterConfig where
  flags : MeterFlags
  bands : List BandConfig
  deriving DecidableEq, Repr

inductive MeterError
  | efbig
  | ebadf
  | einval
  | enodev
  | enoent
  /-- The division by the rate of a band. -/
  | undefined
  deriving DecidableEq, Repr

def maxMeters : Nat := 2 ^ 18

def maxBands : Nat := 8

/-- A band starts with a full bucket. -/
def BandConfig.band (c : BandConfig) : DpMeterBand :=
  let burstSize := if c.burstSize = 0 then c.rate.toNat else c.burstSize.toNat
  { rate := c.rate.toNat, burstSize := burstSize, bucket := burstSize * 1000, packetCount := 0,
    byteCount := 0 }

/-- `band_max_delta_t`, a quotient stored in 32 bits. -/
def DpMeterBand.maxDeltaT (band : DpMeterBand) : Nat := band.bucket / band.rate % 2 ^ 32

def newMeter (config : MeterConfig) (now : Nat) : Except MeterError DpMeter :=
  if config.flags.unsupported then .error .ebadf
  else if maxBands < config.bands.length then .error .einval
  else if config.bands.any (fun c => c.type ≠ .drop) then .error .enodev
  else if config.bands.any (fun c => c.rate = 0) then .error .undefined
  else
    let bands := config.bands.map BandConfig.band
    .ok { pktps := config.flags.pktps,
          maxDeltaT := bands.foldl (fun t band => max t band.maxDeltaT) 0,
          used := now, packetCount := 0, byteCount := 0, bands := bands }

/-- `dp->meters`, by meter id. -/
abbrev DpMeters := List (Nat × DpMeter)

def dpMeterLookup (meters : DpMeters) (meterId : Nat) : Option DpMeter :=
  (meters.find? (fun m => m.1 = meterId)).map Prod.snd

def dpMeterDetachFree (meters : DpMeters) (meterId : Nat) : DpMeters :=
  meters.eraseP (fun m => m.1 = meterId)

def meterSet (meters : DpMeters) (meterId : Nat) (config : MeterConfig) (now : Nat) :
    Except MeterError DpMeters :=
  if maxMeters ≤ meterId then .error .efbig
  else
    match newMeter config now with
    | .error e => .error e
    | .ok meter => .ok ((meterId, meter) :: dpMeterDetachFree meters meterId)

/-- The lookup of `dpif_netdev_meter_get` decides whether a meter is deleted. -/
def meterDel (meters : DpMeters) (meterId : Nat) : Except MeterError DpMeters :=
  if maxMeters ≤ meterId then .error .efbig
  else
    match dpMeterLookup meters meterId with
    | none => .error .enoent
    | some _ => .ok (dpMeterDetachFree meters meterId)

variable {P : Type}

/-- `dp_netdev_run_meter`: the table, the packets that go on and those deleted. -/
def dpNetdevRunMeter (size : P → Nat) (meters : DpMeters) (meterId now : Nat) (packets : List P) :
    DpMeters × List P × List P :=
  if maxMeters ≤ meterId then (meters, packets, [])
  else
    match dpMeterLookup meters meterId with
    | none => (meters, packets, [])
    | some meter =>
      let r := meter.run size now packets
      (meters.replaceF fun m => if m.1 = meterId then some (m.1, r.meter) else none,
        r.passed, r.dropped)

inductive MeterOp (P : Type)
  | set (meterId : Nat) (config : MeterConfig) (now : Nat)
  | del (meterId : Nat)
  | run (meterId now : Nat) (packets : List P)

/-- A request that is refused leaves the table as it is. -/
def meterStep (size : P → Nat) (meters : DpMeters) : MeterOp P → Except Stop DpMeters
  | .set meterId config now =>
    match meterSet meters meterId config now with
    | .ok meters' => .ok meters'
    | .error .undefined => .error .undefined
    | .error _ => .ok meters
  | .del meterId =>
    match meterDel meters meterId with
    | .ok meters' => .ok meters'
    | .error _ => .ok meters
  | .run meterId now packets => .ok (dpNetdevRunMeter size meters meterId now packets).1

/-- The request puts a new meter under the id or takes the meter away. -/
def MeterOp.Replaces (meterId : Nat) : MeterOp P → Prop
  | .set id _ _ => id = meterId
  | .del id => id = meterId
  | .run _ _ _ => False

def MeterOp.Fits (size : P → Nat) : MeterOp P → Prop
  | .run _ _ packets => Datapath.Fits size packets
  | _ => True

/-- One batch through a meter, with the clock in microseconds and the whole
milliseconds by which it is past that of the batch before, 0 if it is behind. -/
structure Visit (P : Type) where
  now : Nat
  elapsed : Nat
  offered : List P
  passed : List P
  dropped : List P

def visit (size : P → Nat) (meterId : Nat) (meters : DpMeters) : MeterOp P → List (Visit P)
  | .run id now packets =>
    match dpMeterLookup meters meterId with
    | none => []
    | some meter =>
      if id = meterId then
        let r := dpNetdevRunMeter size meters meterId now packets
        [{ now := now, elapsed := now / 1000 - meter.used / 1000, offered := packets,
           passed := r.2.1, dropped := r.2.2 }]
      else []
  | _ => []

/-- The batches that go through one meter in a run of the table. -/
def visits (size : P → Nat) (meterId : Nat) : DpMeters → List (MeterOp P) → List (Visit P)
  | _, [] => []
  | meters, op :: ops =>
    visit size meterId meters op ++
      match meterStep size meters op with
      | .ok meters' => visits size meterId meters' ops
      | .error _ => []

def Visit.passedArrival (size : P → Nat) (pktps : Bool) (rate : Nat) (v : Visit P) : Arrival :=
  { gain := v.elapsed * rate, need := totalCost size pktps v.passed }

def Visit.offeredArrival (size : P → Nat) (pktps : Bool) (rate : Nat) (v : Visit P) : Arrival :=
  { gain := v.elapsed * rate, need := totalCost size pktps v.offered }

/-- What a window of batches took out of a bucket. -/
def passedVolume (size : P → Nat) (pktps : Bool) (w : List (Visit P)) : Nat :=
  (w.map fun v => totalCost size pktps v.passed).sum

/-- The clock does not go back from one batch to a later one. -/
def Steady (w : List (Visit P)) : Prop := (w.map Visit.now).Pairwise (· ≤ ·)

instance (w : List (Visit P)) : Decidable (Steady w) :=
  inferInstanceAs (Decidable (List.Pairwise _ _))

/-! ### The invariant of a meter -/

structure DpMeter.Inv (meter : DpMeter) : Prop where
  maxDeltaT : meter.maxDeltaT < 2 ^ 32
  rate : ∀ band ∈ meter.bands, 0 < band.rate
  bucket : ∀ band ∈ meter.bands, band.bucket ≤ band.maxBucketSize

theorem drained_le (sizes : List Nat) : ∀ bucket, drained bucket sizes ≤ bucket := by
  induction sizes with
  | nil => exact fun bucket => Nat.le_refl bucket
  | cons size sizes ih =>
      intro bucket
      rw [drained]
      refine (ih _).trans ?_
      split <;> omega

theorem bucketAfter_le (pktps : Bool) (bucket volume : Nat) (sizes : List Nat) :
    bucketAfter pktps bucket volume sizes ≤ bucket := by
  have hdrained := drained_le sizes bucket
  have hmod := Nat.mod_le bucket 1000
  unfold bucketAfter
  split
  · exact Nat.sub_le bucket volume
  · split
    · exact hmod
    · exact hdrained

/-- The bands after a batch, one by one. -/
theorem DpMeter.getElem?_run (size : P → Nat) {meter : DpMeter} (now : Nat) (packets : List P)
    {k : Nat} {band : DpMeterBand} (h : meter.bands[k]? = some band) :
    ∃ band', (meter.run size now packets).meter.bands[k]? = some band' ∧
      band'.rate = band.rate ∧ band'.burstSize = band.burstSize ∧
      band'.bucket = bucketAfter meter.pktps (band.refill (meter.deltaT now))
        (meter.volume size packets) (packets.map size) := by
  have hcore := congrArg (fun l => l[k]?) (meter.run_core size now packets)
  simp only [List.getElem?_map, h, Option.map_some] at hcore
  obtain ⟨band', hband', heq⟩ := Option.map_eq_some_iff.mp hcore
  obtain ⟨hrate, hrest⟩ := Prod.mk.inj heq
  obtain ⟨hburst, hbucket⟩ := Prod.mk.inj hrest
  exact ⟨band', hband', hrate, hburst, hbucket⟩

theorem DpMeter.mem_run {size : P → Nat} {meter : DpMeter} {now : Nat} {packets : List P}
    {band' : DpMeterBand} (h : band' ∈ (meter.run size now packets).meter.bands) :
    ∃ band ∈ meter.bands, band'.rate = band.rate ∧ band'.burstSize = band.burstSize ∧
      band'.bucket = bucketAfter meter.pktps (band.refill (meter.deltaT now))
        (meter.volume size packets) (packets.map size) := by
  have hmem := List.mem_map_of_mem (f := DpMeterBand.core) h
  rw [meter.run_core] at hmem
  obtain ⟨band, hband, heq⟩ := List.mem_map.mp hmem
  obtain ⟨hrate, hrest⟩ := Prod.mk.inj heq
  obtain ⟨hburst, hbucket⟩ := Prod.mk.inj hrest
  exact ⟨band, hband, hrate.symm, hburst.symm, hbucket.symm⟩

theorem DpMeter.Inv.run {meter : DpMeter} (h : meter.Inv) (size : P → Nat) (now : Nat)
    (packets : List P) : (meter.run size now packets).meter.Inv where
  maxDeltaT := h.maxDeltaT
  rate band' hband' := by
    obtain ⟨band, hband, hrate, -, -⟩ := DpMeter.mem_run hband'
    rw [hrate]
    exact h.rate band hband
  bucket band' hband' := by
    obtain ⟨band, hband, -, hburst, hbucket⟩ := DpMeter.mem_run hband'
    have hle := bucketAfter_le meter.pktps (band.refill (meter.deltaT now))
      (meter.volume size packets) (packets.map size)
    have hrefill := band.refill_le (meter.deltaT now)
    rw [hbucket, maxBucketSize_congr hburst]
    omega

theorem foldl_max_lt {α : Type} (f : α → Nat) {bound : Nat} (xs : List α) :
    ∀ t, t < bound → (∀ x ∈ xs, f x < bound) → xs.foldl (fun t x => max t (f x)) t < bound := by
  induction xs with
  | nil => exact fun t ht _ => ht
  | cons x xs ih =>
      intro t ht h
      exact ih _ (max_lt ht (h x List.mem_cons_self)) fun y hy => h y (List.mem_cons_of_mem x hy)

theorem le_foldl_max {α : Type} (f : α → Nat) (xs : List α) :
    ∀ t, t ≤ xs.foldl (fun t x => max t (f x)) t ∧
      ∀ x ∈ xs, f x ≤ xs.foldl (fun t x => max t (f x)) t := by
  induction xs with
  | nil => exact fun t => ⟨Nat.le_refl t, fun x hx => absurd hx List.not_mem_nil⟩
  | cons x xs ih =>
      intro t
      obtain ⟨hstart, hrest⟩ := ih (max t (f x))
      refine ⟨(Nat.le_max_left t (f x)).trans hstart, fun y hy => ?_⟩
      rcases List.mem_cons.mp hy with rfl | hy
      · exact (Nat.le_max_right t (f y)).trans hstart
      · exact hrest y hy

/-- What a configuration that is accepted turns into. -/
theorem newMeter_ok {config : MeterConfig} {now : Nat} {meter : DpMeter}
    (h : newMeter config now = .ok meter) :
    (∀ c ∈ config.bands, c.rate ≠ 0) ∧
      meter = { pktps := config.flags.pktps,
                maxDeltaT := (config.bands.map BandConfig.band).foldl
                  (fun t band => max t band.maxDeltaT) 0,
                used := now, packetCount := 0, byteCount := 0,
                bands := config.bands.map BandConfig.band } := by
  unfold newMeter at h
  split at h
  · cases h
  · split at h
    · cases h
    · split at h
      · cases h
      · split at h
        · cases h
        · rename_i hrate
          refine ⟨fun c hc hzero => hrate ?_, (Except.ok.inj h).symm⟩
          exact List.any_eq_true.mpr ⟨c, hc, decide_eq_true hzero⟩

theorem BandConfig.rate_pos {c : BandConfig} (h : c.rate ≠ 0) : 0 < c.band.rate := by
  show 0 < c.rate.toNat
  apply Nat.pos_of_ne_zero
  intro hzero
  exact h (UInt32.toNat_inj.mp hzero)

theorem inv_of_newMeter {config : MeterConfig} {now : Nat} {meter : DpMeter}
    (h : newMeter config now = .ok meter) : meter.Inv := by
  obtain ⟨hrate, rfl⟩ := newMeter_ok h
  refine ⟨?_, ?_, ?_⟩
  · exact foldl_max_lt _ _ 0 (by decide) fun band _ => Nat.mod_lt _ (by decide)
  · intro band hband
    obtain ⟨c, hc, rfl⟩ := List.mem_map.mp hband
    exact c.rate_pos (hrate c hc)
  · intro band hband
    obtain ⟨c, -, rfl⟩ := List.mem_map.mp hband
    exact Nat.le_refl _

/-! ### The table -/

theorem lookup_cons (m : Nat × DpMeter) (meters : DpMeters) (meterId : Nat) :
    dpMeterLookup (m :: meters) meterId =
      if m.1 = meterId then some m.2 else dpMeterLookup meters meterId := by
  unfold dpMeterLookup
  rw [List.find?_cons]
  by_cases h : m.1 = meterId <;> simp [h]

theorem lookup_detach {meterId other : Nat} (h : other ≠ meterId) (meters : DpMeters) :
    dpMeterLookup (dpMeterDetachFree meters meterId) other = dpMeterLookup meters other := by
  unfold dpMeterDetachFree
  induction meters with
  | nil => rfl
  | cons m meters ih =>
      rw [List.eraseP_cons, lookup_cons]
      by_cases hm : m.1 = meterId
      · have hne : m.1 ≠ other := fun he => h (he.symm.trans hm)
        rw [decide_eq_true hm, cond_true, if_neg hne]
      · rw [decide_eq_false hm, cond_false, lookup_cons, ih]

theorem lookup_replaceF (meters : DpMeters) (meterId other : Nat) (meter : DpMeter) :
    dpMeterLookup (meters.replaceF fun m => if m.1 = meterId then some (m.1, meter) else none)
        other =
      if other = meterId then (dpMeterLookup meters meterId).map fun _ => meter
      else dpMeterLookup meters other := by
  induction meters with
  | nil =>
      rw [List.replaceF_nil]
      split <;> rfl
  | cons m meters ih =>
      rw [List.replaceF_cons]
      by_cases hm : m.1 = meterId
      · rw [if_pos hm]
        dsimp only
        rw [lookup_cons, lookup_cons, lookup_cons, if_pos hm]
        by_cases ho : other = meterId
        · rw [if_pos ho, if_pos (hm.trans ho.symm)]
          rfl
        · rw [if_neg ho, if_neg fun he => ho (he.symm.trans hm),
            if_neg fun he => ho (he.symm.trans hm)]
      · rw [if_neg hm]
        dsimp only
        rw [lookup_cons, lookup_cons, lookup_cons, if_neg hm, ih]
        by_cases ho : other = meterId
        · rw [if_pos ho, if_pos ho, if_neg fun he => hm (he.trans ho)]
        · rw [if_neg ho, if_neg ho]

structure DpMeters.Inv (meters : DpMeters) : Prop where
  id : ∀ m ∈ meters, m.1 < maxMeters
  meter : ∀ m ∈ meters, m.2.Inv

theorem mem_of_lookup {meters : DpMeters} {meterId : Nat} {meter : DpMeter}
    (h : dpMeterLookup meters meterId = some meter) : (meterId, meter) ∈ meters := by
  obtain ⟨m, hm, rfl⟩ := Option.map_eq_some_iff.mp h
  have hid : m.1 = meterId := by simpa using List.find?_some hm
  exact hid ▸ List.mem_of_find?_eq_some hm

theorem inv_replaceF {meters : DpMeters} (h : DpMeters.Inv meters) (meterId : Nat)
    {meter : DpMeter} (hmeter : meter.Inv) :
    DpMeters.Inv
      (meters.replaceF fun m => if m.1 = meterId then some (m.1, meter) else none) := by
  induction meters with
  | nil => exact h
  | cons m meters ih =>
      have hrest : DpMeters.Inv meters :=
        ⟨fun n hn => h.id n (List.mem_cons_of_mem m hn),
          fun n hn => h.meter n (List.mem_cons_of_mem m hn)⟩
      have hid := h.id m List.mem_cons_self
      rw [List.replaceF_cons]
      by_cases hm : m.1 = meterId
      · rw [if_pos hm]
        refine ⟨fun n hn => ?_, fun n hn => ?_⟩
        · rcases List.mem_cons.mp hn with rfl | hn
          · exact hid
          · exact hrest.id n hn
        · rcases List.mem_cons.mp hn with rfl | hn
          · exact hmeter
          · exact hrest.meter n hn
      · rw [if_neg hm]
        refine ⟨fun n hn => ?_, fun n hn => ?_⟩
        · rcases List.mem_cons.mp hn with rfl | hn
          · exact hid
          · exact (ih hrest).id n hn
        · rcases List.mem_cons.mp hn with rfl | hn
          · exact h.meter n List.mem_cons_self
          · exact (ih hrest).meter n hn

theorem inv_detach {meters : DpMeters} (h : DpMeters.Inv meters) (meterId : Nat) :
    DpMeters.Inv (dpMeterDetachFree meters meterId) :=
  ⟨fun m hm => h.id m (List.mem_of_mem_eraseP hm),
    fun m hm => h.meter m (List.mem_of_mem_eraseP hm)⟩

theorem meterSet_ok {meters meters' : DpMeters} {meterId : Nat} {config : MeterConfig} {now : Nat}
    (h : meterSet meters meterId config now = .ok meters') :
    meterId < maxMeters ∧ ∃ meter, newMeter config now = .ok meter ∧
      meters' = (meterId, meter) :: dpMeterDetachFree meters meterId := by
  unfold meterSet at h
  split at h
  · cases h
  · rename_i hid
    split at h
    · cases h
    · rename_i meter hmeter
      exact ⟨Nat.lt_of_not_le hid, meter, hmeter, (Except.ok.inj h).symm⟩

theorem inv_step {size : P → Nat} {meters meters' : DpMeters} {op : MeterOp P}
    (h : DpMeters.Inv meters) (hstep : meterStep size meters op = .ok meters') :
    DpMeters.Inv meters' := by
  cases op with
  | set meterId config now =>
      rw [meterStep] at hstep
      split at hstep
      · rename_i meters'' hset
        obtain rfl := Except.ok.inj hstep
        obtain ⟨hid, meter, hmeter, rfl⟩ := meterSet_ok hset
        have hrest := inv_detach h meterId
        refine ⟨fun m hm => ?_, fun m hm => ?_⟩
        · rcases List.mem_cons.mp hm with rfl | hm
          · exact hid
          · exact hrest.id m hm
        · rcases List.mem_cons.mp hm with rfl | hm
          · exact inv_of_newMeter hmeter
          · exact hrest.meter m hm
      · cases hstep
      · exact Except.ok.inj hstep ▸ h
  | del meterId =>
      rw [meterStep] at hstep
      split at hstep
      · rename_i meters'' hdel
        obtain rfl := Except.ok.inj hstep
        unfold meterDel at hdel
        split at hdel
        · cases hdel
        · split at hdel
          · cases hdel
          · exact Except.ok.inj hdel ▸ inv_detach h meterId
      · exact Except.ok.inj hstep ▸ h
  | run meterId now packets =>
      obtain rfl := Except.ok.inj hstep
      unfold dpNetdevRunMeter
      split
      · exact h
      · split
        · exact h
        · rename_i meter hmeter
          exact inv_replaceF h meterId ((h.meter _ (mem_of_lookup hmeter)).run size now packets)

/-- The meter after a request that neither replaces nor deletes it. -/
def MeterOp.feed (size : P → Nat) (meterId : Nat) (meter : DpMeter) : MeterOp P → DpMeter
  | .run id now packets => if id = meterId then (meter.run size now packets).meter else meter
  | _ => meter

theorem lookup_step {size : P → Nat} {meters meters' : DpMeters} {op : MeterOp P} {meterId : Nat}
    {meter : DpMeter} (h : DpMeters.Inv meters) (hmeter : dpMeterLookup meters meterId = some meter)
    (hkept : ¬ op.Replaces meterId) (hstep : meterStep size meters op = .ok meters') :
    dpMeterLookup meters' meterId = some (op.feed size meterId meter) := by
  cases op with
  | set id config now =>
      have hne : meterId ≠ id := fun he => hkept he.symm
      rw [meterStep] at hstep
      split at hstep
      · rename_i meters'' hset
        obtain rfl := Except.ok.inj hstep
        obtain ⟨-, m, -, rfl⟩ := meterSet_ok hset
        rw [lookup_cons, if_neg hne.symm, lookup_detach hne]
        exact hmeter
      · cases hstep
      · exact Except.ok.inj hstep ▸ hmeter
  | del id =>
      have hne : meterId ≠ id := fun he => hkept he.symm
      rw [meterStep] at hstep
      split at hstep
      · rename_i meters'' hdel
        obtain rfl := Except.ok.inj hstep
        unfold meterDel at hdel
        split at hdel
        · cases hdel
        · split at hdel
          · cases hdel
          · obtain rfl := Except.ok.inj hdel
            rw [lookup_detach hne]
            exact hmeter
      · exact Except.ok.inj hstep ▸ hmeter
  | run id now packets =>
      obtain rfl := Except.ok.inj hstep
      have hid := h.id _ (mem_of_lookup hmeter)
      unfold dpNetdevRunMeter
      by_cases heq : id = meterId
      · subst heq
        rw [if_neg (Nat.not_le.mpr hid), hmeter]
        dsimp only
        rw [lookup_replaceF, if_pos rfl, hmeter]
        simp [MeterOp.feed]
      · have hfeed : (MeterOp.run id now packets).feed size meterId meter = meter := if_neg heq
        rw [hfeed]
        split
        · exact hmeter
        · split
          · exact hmeter
          · dsimp only
            rw [lookup_replaceF, if_neg (Ne.symm heq)]
            exact hmeter

/-! ### One meter at work

Two bands of 1000 and 4000 packets a second, with bursts of 2 and 8 packets, and
batches a millisecond apart: one packet each, or three packets and two. -/

def sampleConfig : MeterConfig :=
  { flags := { kbps := false, pktps := true, burst := true, stats := true, unsupported := false },
    bands := [{ type := .drop, rate := 1000, burstSize := 2 },
      { type := .drop, rate := 4000, burstSize := 8 }] }

def sampleMeter : DpMeter :=
  { pktps := true, maxDeltaT := 2, used := 0, packetCount := 0, byteCount := 0,
    bands := sampleConfig.bands.map BandConfig.band }

def sampleTraffic : List (MeterOp Nat) := [.run 1 1000 [64], .run 1 2000 [64]]

def burstTraffic : List (MeterOp Nat) := [.run 1 1000 [64, 64, 64], .run 1 2000 [64, 64]]

theorem meterSet_sample : meterSet [] 1 sampleConfig 0 = .ok [(1, sampleMeter)] := rfl

theorem exec_sample :
    exec (meterStep id) [] [.set 1 sampleConfig 0] = .ok [(1, sampleMeter)] := rfl

theorem lookup_sample : dpMeterLookup [(1, sampleMeter)] 1 = some sampleMeter := rfl

theorem runs_of_mem {first second : List Nat} (hfirst : Fits id first) (hsecond : Fits id second)
    {op : MeterOp Nat} (h : op ∈ [MeterOp.run 1 1000 first, .run 1 2000 second]) :
    ¬ op.Replaces 1 ∧ op.Fits id := by
  rcases List.mem_cons.mp h with rfl | h
  · exact ⟨fun hr => hr, hfirst⟩
  · obtain rfl := List.mem_singleton.mp h
    exact ⟨fun hr => hr, hsecond⟩

theorem sampleTraffic_runs {op : MeterOp Nat} (h : op ∈ sampleTraffic) :
    ¬ op.Replaces 1 ∧ op.Fits id :=
  runs_of_mem ⟨by decide, by decide⟩ ⟨by decide, by decide⟩ h

theorem burstTraffic_runs {op : MeterOp Nat} (h : op ∈ burstTraffic) :
    ¬ op.Replaces 1 ∧ op.Fits id :=
  runs_of_mem ⟨by decide, by decide⟩ ⟨by decide, by decide⟩ h

/-! ### What passes conforms -/

theorem visit_other {size : P → Nat} {meterId : Nat} {meters : DpMeters} {op : MeterOp P}
    (h : ∀ now packets, op ≠ .run meterId now packets) : visit size meterId meters op = [] := by
  cases op with
  | set id config now => rfl
  | del id => rfl
  | run id now packets =>
      have hne : id ≠ meterId := fun he => h now packets (he ▸ rfl)
      unfold visit
      cases dpMeterLookup meters meterId with
      | none => rfl
      | some meter => exact if_neg hne

def DpMeter.visit (size : P → Nat) (meter : DpMeter) (now : Nat) (packets : List P) : Visit P :=
  { now := now, elapsed := now / 1000 - meter.used / 1000, offered := packets,
    passed := (meter.run size now packets).passed,
    dropped := (meter.run size now packets).dropped }

theorem visit_run {size : P → Nat} {meterId : Nat} {meters : DpMeters} {meter : DpMeter}
    (hid : meterId < maxMeters) (hmeter : dpMeterLookup meters meterId = some meter) (now : Nat)
    (packets : List P) : visit size meterId meters (.run meterId now packets) =
      [meter.visit size now packets] := by
  unfold visit dpNetdevRunMeter
  simp [hmeter, Nat.not_le.mpr hid, DpMeter.visit]

theorem feed_other {size : P → Nat} {meterId : Nat} {meter : DpMeter} {op : MeterOp P}
    (h : ∀ now packets, op ≠ .run meterId now packets) : op.feed size meterId meter = meter := by
  cases op with
  | set id config now => rfl
  | del id => rfl
  | run id now packets =>
      have hne : id ≠ meterId := fun he => h now packets (he ▸ rfl)
      exact if_neg hne

theorem visits_cons_ok {size : P → Nat} {meterId : Nat} {meters meters' : DpMeters}
    {op : MeterOp P} (hstep : meterStep size meters op = .ok meters') (ops : List (MeterOp P)) :
    visits size meterId meters (op :: ops) =
      visit size meterId meters op ++ visits size meterId meters' ops := by
  rw [visits, hstep]

theorem visits_cons_error {size : P → Nat} {meterId : Nat} {meters : DpMeters} {op : MeterOp P}
    {e : Stop} (hstep : meterStep size meters op = .error e) (ops : List (MeterOp P)) :
    visits size meterId meters (op :: ops) = visit size meterId meters op := by
  rw [visits, hstep]
  exact List.append_nil _

/-- The induction over the batches of a meter that is neither replaced nor deleted;
the other requests add no visit and leave the meter. -/
theorem visits_induction {size : P → Nat} {meterId : Nat}
    {motive : DpMeter → List (Visit P) → Prop} (hnil : ∀ meter, motive meter [])
    (hcons : ∀ (meter : DpMeter) (now : Nat) (packets : List P) (vs : List (Visit P)),
      meter.Inv → Fits size packets → motive (meter.run size now packets).meter vs →
      motive meter (meter.visit size now packets :: vs)) (ops : List (MeterOp P)) :
    ∀ {meters : DpMeters} {meter : DpMeter}, DpMeters.Inv meters →
      dpMeterLookup meters meterId = some meter → (∀ op ∈ ops, ¬ op.Replaces meterId) →
      (∀ op ∈ ops, op.Fits size) → motive meter (visits size meterId meters ops) := by
  induction ops with
  | nil => exact fun _ _ _ _ => hnil _
  | cons op ops ih =>
      intro meters meter h hmeter hkept hfits
      have hkept' : ∀ op ∈ ops, ¬ op.Replaces meterId := fun o ho =>
        hkept o (List.mem_cons_of_mem op ho)
      have hfits' : ∀ op ∈ ops, op.Fits size := fun o ho => hfits o (List.mem_cons_of_mem op ho)
      by_cases hrun : ∃ now packets, op = .run meterId now packets
      · obtain ⟨now, packets, rfl⟩ := hrun
        have hstep : meterStep size meters (.run meterId now packets) =
          .ok (dpNetdevRunMeter size meters meterId now packets).1 := rfl
        have hfed := lookup_step h hmeter (hkept _ List.mem_cons_self) hstep
        rw [MeterOp.feed, if_pos rfl] at hfed
        have hmem := mem_of_lookup hmeter
        rw [visits_cons_ok hstep, visit_run (h.id _ hmem) hmeter]
        apply hcons meter now packets _ (h.meter _ hmem) (hfits _ List.mem_cons_self)
        exact ih (inv_step h hstep) hfed hkept' hfits'
      · have hother : ∀ now packets, op ≠ .run meterId now packets := fun now packets he =>
          hrun ⟨now, packets, he⟩
        cases hstep : meterStep size meters op with
        | error e =>
            rw [visits_cons_error hstep, visit_other hother]
            exact hnil meter
        | ok meters' =>
            have hfed := lookup_step h hmeter (hkept op List.mem_cons_self) hstep
            rw [feed_other hother] at hfed
            rw [visits_cons_ok hstep, visit_other hother, List.nil_append]
            exact ih (inv_step h hstep) hfed hkept' hfits'

/-- A batch and what it leaves in the bucket come out of the refilled bucket. -/
theorem DpMeter.Inv.policed {meter : DpMeter} (h : meter.Inv) {size : P → Nat} {packets : List P}
    (hfits : Fits size packets) (now : Nat) {band : DpMeterBand} (hband : band ∈ meter.bands) :
    totalCost size meter.pktps (meter.run size now packets).passed +
        bucketAfter meter.pktps (band.refill (meter.deltaT now)) (meter.volume size packets)
          (packets.map size) ≤
      min band.maxBucketSize (band.bucket + (now / 1000 - meter.used / 1000) * band.rate) := by
  have hpassed := DpMeter.totalCost_passed_le hfits now h.rate hband
  have hrefill := band.refill_le (meter.deltaT now)
  have hdelta : meter.deltaT now * band.rate ≤ (now / 1000 - meter.used / 1000) * band.rate := by
    rw [DpMeter.deltaT_eq h.maxDeltaT]
    exact Nat.mul_le_mul_right _ (Nat.min_le_left _ _)
  omega

theorem exists_policed_visits {size : P → Nat} {meterId : Nat} {ops : List (MeterOp P)}
    {meters : DpMeters} {meter : DpMeter} (h : DpMeters.Inv meters)
    (hmeter : dpMeterLookup meters meterId = some meter)
    (hkept : ∀ op ∈ ops, ¬ op.Replaces meterId) (hfits : ∀ op ∈ ops, op.Fits size) :
    ∀ (k : Nat) (band : DpMeterBand), meter.bands[k]? = some band →
      ∃ last, Policed band.maxBucketSize band.bucket
        ((visits size meterId meters ops).map (Visit.passedArrival size meter.pktps band.rate))
        last := by
  refine visits_induction (motive := fun meter vs => ∀ (k : Nat) (band : DpMeterBand),
    meter.bands[k]? = some band → ∃ last, Policed band.maxBucketSize band.bucket
      (vs.map (Visit.passedArrival size meter.pktps band.rate)) last) ?_ ?_ ops h hmeter hkept hfits
  · exact fun _ _ _ _ => ⟨_, .nil _⟩
  · intro meter now packets vs hinv hbatch ih k band hband
    obtain ⟨band', hband', hrate, hburst, hbucket⟩ := DpMeter.getElem?_run size now packets hband
    obtain ⟨last, hlast⟩ := ih k band' hband'
    rw [maxBucketSize_congr hburst, hrate, hbucket] at hlast
    exact ⟨last, .cons (hinv.policed hbatch now (List.mem_of_getElem? hband)) hlast⟩

/-! ### The clock over a window -/

/-- The clock of the batch before is what `elapsed` is reckoned from. -/
def Visit.Follows (v v' : Visit P) : Prop := v'.elapsed = v'.now / 1000 - v.now / 1000

theorem isChain_visits {size : P → Nat} {meterId : Nat} {ops : List (MeterOp P)}
    {meters : DpMeters} {meter : DpMeter} (h : DpMeters.Inv meters)
    (hmeter : dpMeterLookup meters meterId = some meter)
    (hkept : ∀ op ∈ ops, ¬ op.Replaces meterId) (hfits : ∀ op ∈ ops, op.Fits size) :
    (visits size meterId meters ops).IsChain Visit.Follows ∧
      ∀ v ∈ (visits size meterId meters ops).head?,
        v.elapsed = v.now / 1000 - meter.used / 1000 := by
  refine visits_induction (motive := fun meter vs => vs.IsChain Visit.Follows ∧
    ∀ v ∈ vs.head?, v.elapsed = v.now / 1000 - meter.used / 1000) ?_ ?_ ops h hmeter hkept hfits
  · exact fun _ => ⟨List.IsChain.nil, fun _ hv => nomatch hv⟩
  · intro meter now packets vs _ _ ih
    refine ⟨List.isChain_cons.mpr ⟨fun v hv => ih.2 v hv, ih.1⟩, fun v hv => ?_⟩
    obtain rfl := Option.some.inj hv
    rfl

/-- Over a window with a steady clock the elapsed times add up to its span. -/
theorem sum_elapsed (w : List (Visit P)) : ∀ v : Visit P, (v :: w).IsChain Visit.Follows →
    Steady (v :: w) → (w.map Visit.elapsed).sum = (w.getLastD v).now / 1000 - v.now / 1000 := by
  induction w with
  | nil =>
      intro v _ _
      exact (Nat.sub_self _).symm
  | cons v' w ih =>
      intro v hchain hsteady
      obtain ⟨hfollows, hrest⟩ := List.isChain_cons_cons.mp hchain
      unfold Steady at hsteady
      rw [List.map_cons, List.pairwise_cons] at hsteady
      have hsum := ih v' hrest hsteady.2
      have hfirst : v.now ≤ v'.now := hsteady.1 _ List.mem_cons_self
      have hlast : v'.now ≤ (w.getLastD v').now := by
        have hpair := hsteady.2
        rw [List.map_cons, List.pairwise_cons] at hpair
        have hend : w.getLastD v' ∈ v' :: w := List.getLastD_mem_cons
        rcases List.mem_cons.mp hend with he | hmem
        · rw [he]
        · exact hpair.1 _ (List.mem_map_of_mem hmem)
      rw [List.map_cons, List.sum_cons, hsum, hfollows, List.getLastD_cons]
      have h1 := Nat.div_le_div_right (c := 1000) hfirst
      have h2 := Nat.div_le_div_right (c := 1000) hlast
      omega

theorem totalNeed_passed (size : P → Nat) (pktps : Bool) (rate : Nat) (w : List (Visit P)) :
    totalNeed (w.map (Visit.passedArrival size pktps rate)) = passedVolume size pktps w := by
  induction w with
  | nil => rfl
  | cons v w ih =>
      rw [List.map_cons, totalNeed, ih]
      rfl

theorem totalGain_passed (size : P → Nat) (pktps : Bool) (rate : Nat) (w : List (Visit P)) :
    totalGain (w.map (Visit.passedArrival size pktps rate)) =
      (w.map Visit.elapsed).sum * rate := by
  induction w with
  | nil => exact (Nat.zero_mul rate).symm
  | cons v w ih =>
      rw [List.map_cons, totalGain, ih, List.map_cons, List.sum_cons, Nat.add_mul]
      rfl

theorem inv_nil : DpMeters.Inv [] := by
  refine ⟨?_, ?_⟩ <;> intro m hm <;> cases hm

theorem inv_of_exec {size : P → Nat} {ops : List (MeterOp P)} {meters : DpMeters}
    (h : exec (meterStep size) [] ops = .ok meters) : DpMeters.Inv meters :=
  exec_invariant (P := fun _ s => DpMeters.Inv s) inv_nil
    (fun _ _ _ _ _ hP hstep => inv_step hP hstep) h

/-- In every run of the table, what a meter lets through takes in no window more
than the burst of each of its bands and the rate over the forward steps of the clock.
Where the clock does not go back these are the time between the first and the last
batch of the window. -/
theorem meter_output_conforms {size : P → Nat} {before after : List (MeterOp P)}
    {meters : DpMeters} {meterId : Nat} {meter : DpMeter} {band : DpMeterBand}
    (hrun : exec (meterStep size) [] before = .ok meters)
    (hmeter : dpMeterLookup meters meterId = some meter) (hband : band ∈ meter.bands)
    (hkept : ∀ op ∈ after, ¬ op.Replaces meterId) (hfits : ∀ op ∈ after, op.Fits size) :
    Conforms band.maxBucketSize
      ((visits size meterId meters after).map
        (Visit.passedArrival size meter.pktps band.rate)) ∧
    ∀ pre v w post, visits size meterId meters after = pre ++ v :: (w ++ post) →
      Steady (v :: w) → passedVolume size meter.pktps (v :: w) ≤
        band.maxBucketSize + ((w.getLastD v).now / 1000 - v.now / 1000) * band.rate := by
  obtain ⟨k, hk⟩ := List.mem_iff_getElem?.mp hband
  obtain ⟨last, hlast⟩ := exists_policed_visits (inv_of_exec hrun) hmeter hkept hfits k band hk
  refine ⟨hlast.conforms, fun pre v w post hsplit hsteady => ?_⟩
  have hchain := (isChain_visits (inv_of_exec hrun) hmeter hkept hfits).1
  rw [hsplit] at hchain
  have hwindow : (v :: w).IsChain Visit.Follows := hchain.infix ⟨pre, post, by simp⟩
  let arrival := Visit.passedArrival size meter.pktps band.rate
  have hbound := hlast.conforms (pre.map arrival) (arrival v) (w.map arrival) (post.map arrival)
    (by rw [hsplit, List.map_append, List.map_cons, List.map_append])
  rw [totalNeed_passed, totalGain_passed, sum_elapsed w v hwindow hsteady] at hbound
  exact hbound

/-- Of three packets two pass, and of two more, a millisecond later, one. -/
theorem meter_output_conforms_sample :
    (visits id 1 [(1, sampleMeter)] burstTraffic).map Visit.passed = [[64, 64], [64]] ∧
    Conforms 2000 ((visits id 1 [(1, sampleMeter)] burstTraffic).map
      (Visit.passedArrival id true 1000)) ∧
    passedVolume id true (visits id 1 [(1, sampleMeter)] burstTraffic) ≤
      2000 + (2000 / 1000 - 1000 / 1000) * 1000 := by
  obtain ⟨hconforms, hwindow⟩ := meter_output_conforms exec_sample lookup_sample
    List.mem_cons_self (fun _ h => (burstTraffic_runs h).1) (fun _ h => (burstTraffic_runs h).2)
  exact ⟨by decide, hconforms, hwindow [] _ _ [] rfl (by decide)⟩

/-! ### What conforms passes -/

/-- The rates and bursts of a meter are small enough for its 32-bit quotients and
64-bit buckets, and `max_delta_t` is at least each quotient. -/
structure DpMeter.Roomy (meter : DpMeter) : Prop extends meter.Inv where
  rate_lt : ∀ band ∈ meter.bands, band.rate < 2 ^ 32
  size_lt : ∀ band ∈ meter.bands, band.maxBucketSize < 2 ^ 32
  fills : ∀ band ∈ meter.bands, band.maxBucketSize / band.rate ≤ meter.maxDeltaT

theorem DpMeter.Roomy.run {meter : DpMeter} (h : meter.Roomy) (size : P → Nat) (now : Nat)
    (packets : List P) : (meter.run size now packets).meter.Roomy where
  toInv := h.toInv.run size now packets
  rate_lt band' hband' := by
    obtain ⟨band, hband, hrate, -, -⟩ := DpMeter.mem_run hband'
    rw [hrate]
    exact h.rate_lt band hband
  size_lt band' hband' := by
    obtain ⟨band, hband, -, hburst, -⟩ := DpMeter.mem_run hband'
    rw [maxBucketSize_congr hburst]
    exact h.size_lt band hband
  fills band' hband' := by
    obtain ⟨band, hband, hrate, hburst, -⟩ := DpMeter.mem_run hband'
    rw [maxBucketSize_congr hburst, hrate]
    exact h.fills band hband

theorem roomy_of_newMeter {config : MeterConfig} {now : Nat} {meter : DpMeter}
    (h : newMeter config now = .ok meter)
    (hsmall : ∀ c ∈ config.bands, c.band.maxBucketSize < 2 ^ 32) : meter.Roomy := by
  have hinv := inv_of_newMeter h
  obtain ⟨-, rfl⟩ := newMeter_ok h
  refine { hinv with rate_lt := ?_, size_lt := ?_, fills := ?_ }
  · intro band hband
    obtain ⟨c, -, rfl⟩ := List.mem_map.mp hband
    exact c.rate.toNat_lt
  · intro band hband
    obtain ⟨c, hc, rfl⟩ := List.mem_map.mp hband
    exact hsmall c hc
  · intro band hband
    have hle := (le_foldl_max DpMeterBand.maxDeltaT (config.bands.map BandConfig.band) 0).2
      band hband
    obtain ⟨c, hc, rfl⟩ := List.mem_map.mp hband
    have hquot : c.band.maxBucketSize / c.band.rate < 2 ^ 32 :=
      (Nat.div_le_self _ _).trans_lt (hsmall c hc)
    rw [DpMeterBand.maxDeltaT] at hle
    exact (Nat.mod_eq_of_lt hquot).symm.le.trans hle

/-- A refill brings at least what a bucket one millisecond of its rate smaller
would hold. -/
theorem DpMeter.Roomy.le_refill {meter : DpMeter} (h : meter.Roomy) {band : DpMeterBand}
    (hband : band ∈ meter.bands) (now : Nat) :
    min (band.maxBucketSize - band.rate)
        (band.bucket + (now / 1000 - meter.used / 1000) * band.rate) ≤
      band.refill (meter.deltaT now) := by
  have hrate := h.rate band hband
  have hrate_lt := h.rate_lt band hband
  have hsize := h.size_lt band hband
  have hfills := h.fills band hband
  have hbucket := h.bucket band hband
  rw [DpMeter.deltaT_eq h.maxDeltaT]
  have hwrap : min (now / 1000 - meter.used / 1000) meter.maxDeltaT * band.rate ≤
      (2 ^ 32 - 1) * (2 ^ 32 - 1) := by
    have hmax := h.maxDeltaT
    exact Nat.mul_le_mul (by omega) (by omega)
  rw [DpMeterBand.refill_eq (by omega)]
  by_cases hstep : now / 1000 - meter.used / 1000 ≤ meter.maxDeltaT
  · rw [Nat.min_eq_left hstep]
    exact min_le_min_right _ (Nat.sub_le _ _)
  · have hcut : min (now / 1000 - meter.used / 1000) meter.maxDeltaT = meter.maxDeltaT :=
      Nat.min_eq_right (Nat.le_of_not_le hstep)
    rw [hcut]
    -- the rounded quotient still covers all but one `rate`
    have hquot : band.maxBucketSize - band.rate ≤ meter.maxDeltaT * band.rate := by
      have hdiv := Nat.div_add_mod band.maxBucketSize band.rate
      have hmod := Nat.mod_lt band.maxBucketSize hrate
      have hmul := Nat.mul_le_mul_right band.rate hfills
      rw [Nat.mul_comm] at hdiv
      omega
    refine (min_le_left _ _).trans (le_min (Nat.sub_le _ _) ?_)
    exact hquot.trans (Nat.le_add_left _ _)

/-- The buckets stay at least as full as the smaller ones that never run dry. -/
theorem passed_of_serves {size : P → Nat} {meterId : Nat} {ops : List (MeterOp P)}
    {meters : DpMeters} {meter : DpMeter} (h : DpMeters.Inv meters)
    (hmeter : dpMeterLookup meters meterId = some meter)
    (hkept : ∀ op ∈ ops, ¬ op.Replaces meterId) (hfits : ∀ op ∈ ops, op.Fits size) :
    meter.Roomy →
      (∀ band ∈ meter.bands, ∃ level ≤ band.bucket,
        (serve (band.maxBucketSize - band.rate) level
          ((visits size meterId meters ops).map
            (Visit.offeredArrival size meter.pktps band.rate))).isSome = true) →
      ∀ v ∈ visits size meterId meters ops, v.passed = v.offered ∧ v.dropped = [] := by
  refine visits_induction (motive := fun meter vs => meter.Roomy →
    (∀ band ∈ meter.bands, ∃ level ≤ band.bucket,
      (serve (band.maxBucketSize - band.rate) level
        (vs.map (Visit.offeredArrival size meter.pktps band.rate))).isSome = true) →
    ∀ v ∈ vs, v.passed = v.offered ∧ v.dropped = []) ?_ ?_ ops h hmeter hkept hfits
  · exact fun _ _ _ _ hv => absurd hv List.not_mem_nil
  · intro meter now packets vs _ hbatch ih hroomy hserve v hv
    -- every bucket covers the batch
    have hcovers : ∀ band ∈ meter.bands,
        meter.volume size packets ≤ band.refill (meter.deltaT now) := by
      intro band hband
      obtain ⟨level, hlevel, hsome⟩ := hserve band hband
      have hneed : totalCost size meter.pktps packets ≤ _ := (serve_cons hsome).1
      have hrefill := hroomy.le_refill hband now
      rw [hbatch.volume_eq]
      refine hneed.trans (le_trans ?_ hrefill)
      exact min_le_min_left _ (Nat.add_le_add_right hlevel _)
    rcases List.mem_cons.mp hv with rfl | hv
    · exact DpMeter.run_covered hcovers
    · refine ih (hroomy.run size now packets) ?_ v hv
      intro band' hband'
      obtain ⟨band, hband, hrate, hburst, hbucket⟩ := DpMeter.mem_run hband'
      obtain ⟨level, hlevel, hsome⟩ := hserve band hband
      have hrest := (serve_cons hsome).2
      have hrefill := hroomy.le_refill hband now
      have hcover := hcovers band hband
      have hafter : band'.bucket =
          band.refill (meter.deltaT now) - totalCost size meter.pktps packets := by
        rw [hbucket, bucketAfter, if_pos hcover, hbatch.volume_eq]
      rw [maxBucketSize_congr hburst, hrate]
      refine ⟨_, ?_, hrest⟩
      rw [hafter]
      apply Nat.sub_le_sub_right
      refine le_trans ?_ hrefill
      exact min_le_min_left _ (Nat.add_le_add_right hlevel _)

theorem newMeter_bands {config : MeterConfig} {now : Nat} {meter : DpMeter}
    (h : newMeter config now = .ok meter) :
    meter.pktps = config.flags.pktps ∧ meter.bands = config.bands.map BandConfig.band := by
  obtain ⟨-, rfl⟩ := newMeter_ok h
  exact ⟨rfl, rfl⟩

/-- Traffic that conforms to every band of a meter, with one millisecond of the
band's rate to spare, passes the meter untouched from the moment it is set. -/
theorem meter_spares_conforming {size : P → Nat} {before after : List (MeterOp P)}
    {meters meters' : DpMeters} {meterId now : Nat} {config : MeterConfig}
    (hrun : exec (meterStep size) [] before = .ok meters)
    (hset : meterSet meters meterId config now = .ok meters')
    (hsmall : ∀ c ∈ config.bands, c.band.maxBucketSize < 2 ^ 32)
    (hkept : ∀ op ∈ after, ¬ op.Replaces meterId) (hfits : ∀ op ∈ after, op.Fits size)
    (hconforms : ∀ c ∈ config.bands, Conforms (c.band.maxBucketSize - c.band.rate)
      ((visits size meterId meters' after).map
        (Visit.offeredArrival size config.flags.pktps c.band.rate))) :
    ∀ v ∈ visits size meterId meters' after, v.passed = v.offered ∧ v.dropped = [] := by
  have hinv : DpMeters.Inv meters' := by
    have hstep : meterStep size meters (.set meterId config now) = .ok meters' := by
      rw [meterStep, hset]
    exact inv_step (inv_of_exec hrun) hstep
  obtain ⟨-, meter, hmeter, rfl⟩ := meterSet_ok hset
  have hlookup : dpMeterLookup ((meterId, meter) :: dpMeterDetachFree meters meterId) meterId =
      some meter := by
    rw [lookup_cons, if_pos rfl]
  obtain ⟨hpktps, hbands⟩ := newMeter_bands hmeter
  apply passed_of_serves hinv hlookup hkept hfits (roomy_of_newMeter hmeter hsmall)
  intro band hband
  rw [hbands] at hband
  obtain ⟨c, hc, rfl⟩ := List.mem_map.mp hband
  refine ⟨c.band.maxBucketSize - c.band.rate, Nat.sub_le _ _, ?_⟩
  rw [hpktps]
  exact serve_full_iff.mpr (hconforms c hc)

theorem meter_spares_conforming_sample :
    (visits id 1 [(1, sampleMeter)] sampleTraffic).map Visit.passed =
      (visits id 1 [(1, sampleMeter)] sampleTraffic).map Visit.offered := by
  apply List.map_congr_left
  intro v hv
  have hall := meter_spares_conforming (exec_nil (meterStep id) []) meterSet_sample (by decide)
    (fun _ h => (sampleTraffic_runs h).1) (fun _ h => (sampleTraffic_runs h).2) (by
      intro c hc
      apply serve_full_iff.mp
      rcases List.mem_cons.mp hc with rfl | hc
      · rfl
      · obtain rfl := List.mem_singleton.mp hc
        rfl) v hv
  exact hall.1

/-! ### What is dropped is charged to the fastest band -/

/-- Packet `j` of the batch finds too little in the band's refilled bucket. -/
def DpMeter.Exceeds (size : P → Nat) (meter : DpMeter) (now : Nat) (packets : List P)
    (band : DpMeterBand) (j : Nat) : Prop :=
  bandExceeds meter.pktps (band.refill (meter.deltaT now)) (meter.volume size packets)
    (packets.map size) j = true

instance (size : P → Nat) (meter : DpMeter) (now : Nat) (packets : List P) (band : DpMeterBand)
    (j : Nat) : Decidable (meter.Exceeds size now packets band j) :=
  inferInstanceAs (Decidable (_ = true))

theorem mem_marks {size : P → Nat} {meter : DpMeter} {now : Nat} {packets : List P} {j : Nat}
    {r : Nat × Bool} (h : r ∈ meter.marks size now packets j) :
    ∃ band ∈ meter.bands, r = (band.rate, bandExceeds meter.pktps
      (band.refill (meter.deltaT now)) (meter.volume size packets) (packets.map size) j) := by
  obtain ⟨band, hband, rfl⟩ := List.mem_map.mp h
  exact ⟨band, hband, rfl⟩

theorem charged_none_iff {size : P → Nat} {meter : DpMeter} {now : Nat} {packets : List P}
    (hrate : ∀ band ∈ meter.bands, 0 < band.rate) (j : Nat) :
    meter.charged size now packets j = none ↔
      ∀ band ∈ meter.bands, ¬ meter.Exceeds size now packets band j := by
  have hmarks : ∀ r ∈ meter.marks size now packets j, 0 < r.1 := by
    intro r hr
    obtain ⟨band, hband, rfl⟩ := mem_marks hr
    exact hrate band hband
  rw [DpMeter.charged, fire_band_none_iff hmarks]
  constructor
  · intro h band hband hexceeds
    have hmark := h _ (List.mem_map.mpr ⟨band, hband, rfl⟩)
    exact absurd (hexceeds.symm.trans hmark) (by simp)
  · intro h r hr
    obtain ⟨band, hband, rfl⟩ := mem_marks hr
    exact Bool.eq_false_iff.mpr (h band hband)

theorem charged_some {size : P → Nat} {meter : DpMeter} {now : Nat} {packets : List P} {j k : Nat}
    (h : meter.charged size now packets j = some k) :
    ∃ band, meter.bands[k]? = some band ∧ meter.Exceeds size now packets band j ∧
      ∀ (i : Nat) (other : DpMeterBand), meter.bands[i]? = some other →
        meter.Exceeds size now packets other j →
          other.rate ≤ band.rate ∧ (i < k → other.rate < band.rate) := by
  have hfast := fire_fastest (meter.marks size now packets j) [] .start fastest_start
  rw [List.nil_append, List.length_nil] at hfast
  have hmarked := (hfast.marked k h).2
  unfold DpMeter.marks bandMarks at hmarked
  rw [List.getElem?_map] at hmarked
  obtain ⟨band, hband, heq⟩ := Option.map_eq_some_iff.mp hmarked
  obtain ⟨hrate, hexceeds⟩ := Prod.mk.inj heq
  refine ⟨band, hband, hexceeds, fun i other hother hex => ?_⟩
  have hmark : (meter.marks size now packets j)[i]? = some (other.rate, true) := by
    unfold DpMeter.marks bandMarks
    rw [List.getElem?_map, hother, ← hex]
    rfl
  rw [hrate]
  exact ⟨hfast.le i _ hmark, fun hi => hfast.first k h i _ hi hmark⟩

/-- In every run of the table, a batch goes on in order without the packets that
exceed a band.  Each of these is deleted and counted by the fastest band it
exceeds, the first of them if several are as fast.  The meter itself counts every
packet offered, and their bytes in 32 bits. -/
theorem meter_charges_fastest {size : P → Nat} {ops : List (MeterOp P)} {meters : DpMeters}
    {meterId : Nat} {meter : DpMeter} (hrun : exec (meterStep size) [] ops = .ok meters)
    (hmeter : dpMeterLookup meters meterId = some meter) (now : Nat) (packets : List P) :
    ∃ charged : Nat → Option Nat,
      (∀ j, charged j = none ↔ ∀ band ∈ meter.bands, ¬ meter.Exceeds size now packets band j) ∧
      (∀ j k, charged j = some k → ∃ band, meter.bands[k]? = some band ∧
        meter.Exceeds size now packets band j ∧
        ∀ (i : Nat) (other : DpMeterBand), meter.bands[i]? = some other →
          meter.Exceeds size now packets other j →
            other.rate ≤ band.rate ∧ (i < k → other.rate < band.rate)) ∧
      (meter.run size now packets).passed = pick (fun j => (charged j).isNone) 0 packets ∧
      (meter.run size now packets).dropped = pick (fun j => (charged j).isSome) 0 packets ∧
      (meter.run size now packets).meter.packetCount ≡
        meter.packetCount + packets.length [MOD 2 ^ 64] ∧
      (meter.run size now packets).meter.byteCount ≡
        meter.byteCount + (packets.map size).sum % 2 ^ 32 [MOD 2 ^ 64] ∧
      ∀ k band, meter.bands[k]? = some band →
        ∃ band', (meter.run size now packets).meter.bands[k]? = some band' ∧
          band'.packetCount ≡ band.packetCount +
            (pick (fun j => decide (charged j = some k)) 0 packets).length [MOD 2 ^ 64] ∧
          band'.byteCount ≡ band.byteCount +
            ((pick (fun j => decide (charged j = some k)) 0 packets).map size).sum
            [MOD 2 ^ 64] := by
  have hinv : meter.Inv := (inv_of_exec hrun).meter _ (mem_of_lookup hmeter)
  exact ⟨meter.charged size now packets, charged_none_iff hinv.rate,
    fun j k h => charged_some h, meter.run_passed size now packets,
    meter.run_dropped size now packets, Nat.mod_modEq _ _, Nat.mod_modEq _ _,
    fun k band h => DpMeter.run_counts h⟩

/-- Of three packets the third exceeds the slower band, which drops it. -/
theorem meter_charges_fastest_sample :
    (sampleMeter.run id 1000 [64, 64, 64]).passed = [64, 64] ∧
    (sampleMeter.run id 1000 [64, 64, 64]).dropped = [64] ∧
    (sampleMeter.run id 1000 [64, 64, 64]).meter.packetCount ≡ 3 [MOD 2 ^ 64] ∧
    (sampleMeter.run id 1000 [64, 64, 64]).meter.byteCount ≡ 192 [MOD 2 ^ 64] ∧
    ∃ band, (sampleMeter.run id 1000 [64, 64, 64]).meter.bands[0]? = some band ∧
      band.packetCount ≡ 1 [MOD 2 ^ 64] ∧ band.byteCount ≡ 64 [MOD 2 ^ 64] := by
  obtain ⟨charged, hnone, hsome, hpassed, hdropped, hpackets, hbytes, hbands⟩ :=
    meter_charges_fastest exec_sample lookup_sample 1000 [64, 64, 64]
  have h0 : charged 0 = none := (hnone 0).mpr (by decide)
  have h1 : charged 1 = none := (hnone 1).mpr (by decide)
  have h2 : charged 2 = some 0 := by
    cases hk : charged 2 with
    | none => exact absurd ((hnone 2).mp hk) (by decide)
    | some k =>
        obtain ⟨band, hband, hexceeds, -⟩ := hsome 2 k hk
        match k, hband with
        | 0, _ => rfl
        | 1, hband =>
            obtain rfl := Option.some.inj hband
            exact absurd hexceeds (by decide)
  rw [hpassed, hdropped]
  refine ⟨by simp [pick, h0, h1, h2], by simp [pick, h0, h1, h2], hpackets, hbytes, ?_⟩
  obtain ⟨band, hband, hcount, hcharged⟩ := hbands 0 _ rfl
  simp only [pick, h0, h1, h2] at hcount hcharged
  exact ⟨band, hband, hcount, hcharged⟩

end Repath.Datapath
