import Mathlib.Data.List.MinMax
import Repath.Ovs.Selection

/-!
# Agreement of the two vswitchd nodes

`yy` measures the paths and builds REPATH messages, `cq` processes them.  The
network may lose, repeat and reorder them: a built message stays available and
`cq` may process any of them at any time.  With every message the system keeps
the state `yy` was in when it built it.
-/

namespace Repath.Ovs

open Selection Exec

structure Built where
  frame : RteMbuf
  atBuild : CpState

structure System where
  yy : CpState
  cq : CpState
  /-- The messages of `yy` in the order they were built. -/
  built : List Built
  /-- The positions in `built` of the messages `cq` has processed. -/
  processed : List Nat

def System.start : System := { yy := .start, cq := .start, built := [], processed := [] }

inductive Action
  /-- `hopa_cp_progress` of `yy` processes a header. -/
  | probe (rx : Rx)
  /-- A round of `hopa_cp_send` of `yy`. -/
  | send (alloc : Option RteMbuf)
  /-- `hopa_cp_progress` of `cq` processes message `i`. -/
  | receive (i : Nat) (clock : Timespec)

def buildRepath (cksum : RteCksum) (alloc : Option RteMbuf) (yy : CpState) : List Built :=
  (hopaCpSend .yy cksum (fun _ => alloc) fun _ => ⟨0, 0⟩).reduceOption.map fun frame =>
    { frame := frame, atBuild := yy }

def System.step (cksum : RteCksum) (s : System) : Action → Except Stop System
  | .probe rx => do
    let yy ← hopaCpProgress s.yy rx
    .ok { s with yy := yy }
  | .send alloc => .ok { s with built := s.built ++ buildRepath cksum alloc s.yy }
  | .receive i clock =>
    match s.built[i]? with
    | none => .ok s
    | some b => do
      let cq ← hopaCpProgress s.cq { hdr := hdrOf b.frame, clock := clock }
      .ok { s with cq := cq, processed := s.processed ++ [i] }

def System.lastProcessed (s : System) : Option Built := s.processed.max?.bind (s.built[·]?)

/-- Once `cq` has processed a message, its path is the one the last built of them
names, and that was the path of the least delay at `yy` when it was built. -/
def System.Agreement (s : System) : Prop :=
  s.processed ≠ [] → ∃ b, s.lastProcessed = some b ∧
    s.cq.bestPathId = (hdrOf b.frame).repathId ∧
    (hdrOf b.frame).repathId = b.atBuild.bestPathId ∧ SelectsMin b.atBuild

def Action.Probing : Action → Prop
  | .probe rx => Selecting rx
  | .send _ => True
  | .receive _ _ => True

def SendsBest (s : System) : Action → Prop
  | .probe _ => True
  | .send _ => s.yy.bestPathId = 2
  | .receive _ _ => True

/-! ### Invariant -/

structure System.Inv (s : System) : Prop where
  yy : ∃ ps, Tracks s.yy.allPathsDelayList s.yy.bestPathId ps
  built : ∀ b ∈ s.built, hdrOf b.frame = repathHdr 2 ∧ SelectsMin b.atBuild
  processed : ∀ i ∈ s.processed, i < s.built.length
  cq : s.processed ≠ [] → s.cq.bestPathId = 2

theorem selectsMin_of_tracks {s : CpState} {ps : List Probe}
    (h : Tracks s.allPathsDelayList s.bestPathId ps) : SelectsMin s := by
  obtain ⟨p, hp, hsel⟩ := h.selects
  exact ⟨p, hp, h.table_eq ▸ hsel⟩

theorem mem_buildRepath {cksum : RteCksum} {alloc : Option RteMbuf} {yy : CpState} {b : Built}
    (h : b ∈ buildRepath cksum alloc yy) :
    hdrOf b.frame = repathHdr 2 ∧ b.atBuild = yy := by
  cases alloc with
  | none => cases h
  | some buf =>
      obtain rfl := List.mem_singleton.mp h
      exact ⟨(isCpFrame_encodeCpPkt .yy cksum buf 2 (repathHdr 2)).hdr, rfl⟩

theorem step_receive {s : System} {i : Nat} {b : Built} (cksum : RteCksum) (clock : Timespec)
    (hb : s.built[i]? = some b) (hhdr : hdrOf b.frame = repathHdr 2) :
    s.step cksum (.receive i clock) = .ok
      { s with cq := { s.cq with bestPathId := 2 }, processed := s.processed ++ [i] } := by
  rw [System.step, hb]
  simp only [hhdr, hopaCpProgress_repath (isKind_repathHdr 2 clock)]
  rfl

theorem inv_start : System.start.Inv where
  yy := ⟨[], tracks_start⟩
  built _ hb := absurd hb List.not_mem_nil
  processed _ hi := absurd hi List.not_mem_nil
  cq h := absurd rfl h

theorem inv_step {cksum : RteCksum} {s : System} {a : Action} (ha : a.Probing) (h : s.Inv) :
    ∃ s', s.step cksum a = .ok s' ∧ s'.Inv := by
  cases a with
  | probe rx =>
      obtain ⟨ps, hT⟩ := h.yy
      obtain ⟨yy, hok, hT'⟩ := tracks_hopaCpProgress ha hT
      refine ⟨{ s with yy := yy }, ?_, { h with yy := ⟨_, hT'⟩ }⟩
      rw [System.step, hok]
      rfl
  | send alloc =>
      obtain ⟨ps, hT⟩ := h.yy
      refine ⟨_, rfl, { h with built := ?_, processed := ?_ }⟩
      · intro b hb
        rcases List.mem_append.mp hb with hold | hnew
        · exact h.built b hold
        · obtain ⟨hhdr, hat⟩ := mem_buildRepath hnew
          rw [hat]
          exact ⟨hhdr, selectsMin_of_tracks hT⟩
      · intro i hi
        have hlt := h.processed i hi
        rw [List.length_append]
        omega
  | receive i clock =>
      cases hb : s.built[i]? with
      | none => exact ⟨s, by rw [System.step, hb], h⟩
      | some b =>
          obtain ⟨hi, hget⟩ := List.getElem?_eq_some_iff.mp hb
          obtain ⟨hhdr, -⟩ := h.built b (hget ▸ List.getElem_mem hi)
          refine ⟨_, step_receive cksum clock hb hhdr, { h with processed := ?_, cq := ?_ }⟩
          · intro j hj
            rcases List.mem_append.mp hj with hold | hnew
            · exact h.processed j hold
            · rw [List.mem_singleton.mp hnew]
              exact hi
          · intro _
            rfl

theorem exists_lastProcessed {s : System} (h : s.Inv) (hne : s.processed ≠ []) :
    ∃ b ∈ s.built, s.lastProcessed = some b := by
  obtain ⟨i, hi⟩ := Option.isSome_iff_exists.mp (List.isSome_max?_of_ne_nil hne)
  have hlt := h.processed i (List.max?_mem hi)
  refine ⟨s.built[i], List.getElem_mem hlt, ?_⟩
  rw [System.lastProcessed, hi]
  exact List.getElem?_eq_getElem hlt

theorem lastProcessed_mem {s : System} {b : Built} (h : s.lastProcessed = some b) :
    b ∈ s.built ∧ s.processed ≠ [] := by
  rw [System.lastProcessed] at h
  obtain ⟨i, hi, hb⟩ := Option.bind_eq_some_iff.mp h
  refine ⟨List.mem_of_getElem? hb, ?_⟩
  intro hnil
  rw [hnil] at hi
  cases hi

/-- `cq` always follows the last built message; what can fail is that `yy` had
path 2 selected when it was built. -/
theorem agreement_iff_of_inv {s : System} (h : s.Inv) :
    s.Agreement ↔ ∀ b, s.lastProcessed = some b → b.atBuild.bestPathId = 2 := by
  constructor
  · intro hag b hb
    obtain ⟨b', hb', -, hid, -⟩ := hag (lastProcessed_mem hb).2
    obtain rfl := Option.some.inj (hb.symm.trans hb')
    rw [← hid, (h.built b (lastProcessed_mem hb).1).1]
    rfl
  · intro htwo hne
    obtain ⟨b, hmem, hb⟩ := exists_lastProcessed h hne
    obtain ⟨hhdr, hmin⟩ := h.built b hmem
    refine ⟨b, hb, ?_, ?_, hmin⟩
    · rw [h.cq hne, hhdr]
      rfl
    · rw [htwo b hb, hhdr]
      rfl

theorem exists_exec_inv (cksum : RteCksum) {acts : List Action} (hacts : ∀ a ∈ acts, a.Probing) :
    ∃ s, exec (System.step cksum) .start acts = .ok s ∧ s.Inv :=
  exists_exec_invariant (P := fun _ s => System.Inv s) inv_start fun _ _ a ha h =>
    inv_step (hacts a ha) h

theorem builtAtTwo_step {cksum : RteCksum} {s s' : System} {a : Action} (hG : SendsBest s a)
    (h : ∀ b ∈ s.built, b.atBuild.bestPathId = 2) (hs : s.step cksum a = .ok s') :
    ∀ b ∈ s'.built, b.atBuild.bestPathId = 2 := by
  cases a with
  | probe rx =>
      obtain ⟨yy, -, hs⟩ := bind_eq_ok_iff.mp hs
      obtain rfl := Except.ok.inj hs
      exact h
  | send alloc =>
      obtain rfl := Except.ok.inj hs
      intro b hb
      rcases List.mem_append.mp hb with hold | hnew
      · exact h b hold
      · rw [(mem_buildRepath hnew).2]
        exact hG
  | receive i clock =>
      rw [System.step] at hs
      cases hb : s.built[i]? with
      | none =>
          rw [hb] at hs
          obtain rfl := Except.ok.inj hs
          exact h
      | some b =>
          rw [hb] at hs
          obtain ⟨cq, -, hs⟩ := bind_eq_ok_iff.mp hs
          obtain rfl := Except.ok.inj hs
          exact h

/-- In any state a run reaches the nodes agree exactly when the last built message
that `cq` has processed was built with path 2 selected at `yy`, and in every
state of a run that sends only then. -/
theorem agreement_iff (cksum : RteCksum) (acts : List Action)
    (hacts : ∀ a ∈ acts, a.Probing) :
    ∃ s, exec (System.step cksum) .start acts = .ok s ∧
      (s.Agreement ↔ ∀ b, s.lastProcessed = some b → b.atBuild.bestPathId = 2) ∧
      (Guarded (System.step cksum) SendsBest .start acts → s.Agreement) := by
  obtain ⟨s, hs, hInv⟩ := exists_exec_inv cksum hacts
  have hiff := agreement_iff_of_inv hInv
  refine ⟨s, hs, hiff, fun hguard => hiff.mpr fun b hb => ?_⟩
  have hbuilt : ∀ b ∈ s.built, b.atBuild.bestPathId = 2 :=
    exec_of_guarded (P := fun s : System => ∀ b ∈ s.built, b.atBuild.bestPathId = 2)
      (fun _ _ _ hP hG hstep => builtAtTwo_step hG hP hstep)
      (fun b hb => absurd hb List.not_mem_nil) hguard hs
  exact hbuilt b (lastProcessed_mem hb).1

theorem agreement_iff_fastest_two : ∃ s,
    exec (System.step default) .start
      [.probe (rxOf ⟨2, 0, 5⟩), .send (some zeroBuf), .receive 0 ⟨0, 0⟩] = .ok s ∧
    s.Agreement := by
  have hprobe : (probe? (rxOf ⟨2, 0, 5⟩)).isSome := by rw [probe?_rxOf]; rfl
  have hsel : Selects [⟨2, 0, 5⟩] 2 := ⟨by decide +kernel, by decide +kernel⟩
  have hacts : ∀ a ∈ [.probe (rxOf ⟨2, 0, 5⟩), .send (some zeroBuf), .receive 0 ⟨0, 0⟩],
      Action.Probing a := by
    intro a ha
    rcases List.mem_cons.mp ha with rfl | ha
    · exact selecting_of_probe? hprobe
    · rcases List.mem_cons.mp ha with rfl | ha
      · trivial
      · obtain rfl := List.mem_singleton.mp ha
        trivial
  obtain ⟨s, hs, -, hguard⟩ := agreement_iff default _ hacts
  refine ⟨s, hs, hguard ⟨trivial, ?_⟩⟩
  intro s₁ hs₁
  refine ⟨?_, fun _ _ => ⟨trivial, fun _ _ => trivial⟩⟩
  obtain ⟨yy, hyy, hs₁⟩ := bind_eq_ok_iff.mp hs₁
  obtain rfl := Except.ok.inj hs₁
  obtain ⟨yy', hyy', hT⟩ := tracks_hopaCpProgress (s := .start) (selecting_of_probe? hprobe)
    tracks_start
  obtain rfl := Except.ok.inj (hyy.symm.trans hyy')
  rw [probe?_rxOf] at hT
  exact UInt8.toNat_inj.mp (hT.selects_iff.mp hsel)

/-- `yy` has path 0 selected and announces path 2. -/
theorem announces_unselected_path : ∃ s,
    exec (System.step default) .start [.send (some zeroBuf), .receive 0 ⟨0, 0⟩] = .ok s ∧
    ¬ s.Agreement := by
  let b : Built := { frame := encodeCpPkt .yy default zeroBuf 2 (repathHdr 2),
                     atBuild := CpState.start }
  let s₁ : System := { System.start with built := [b] }
  have hhdr : hdrOf b.frame = repathHdr 2 := (isCpFrame_encodeCpPkt _ _ _ _ _).hdr
  have hrecv := step_receive (s := s₁) (i := 0) default ⟨0, 0⟩ rfl hhdr
  refine ⟨_, exec_cons_ok.mpr ⟨s₁, rfl, exec_cons_ok.mpr ⟨_, hrecv, rfl⟩⟩, ?_⟩
  intro hag
  obtain ⟨b', hb', -, hid, -⟩ := hag (by decide)
  obtain rfl : b = b' := Option.some.inj hb'
  rw [hhdr] at hid
  exact absurd hid (by decide)

end Repath.Ovs
