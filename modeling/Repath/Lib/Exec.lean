import Mathlib.Data.List.Basic

/-!
# Runs of a machine with fallible steps

`exec step s is` feeds the inputs `is` to the machine one by one and stops at
the first step that fails.  An invariant may mention the inputs consumed so far,
which is how a state is compared with its history.

A guard restricts the steps by the state they start in.  `Guarded` says that
every step of a run meets its guard.
-/

namespace Exec

variable {σ ι ε : Type}

theorem bind_eq_ok_iff {α β : Type} {x : Except ε α} {f : α → Except ε β} {b : β} :
    (x >>= f) = .ok b ↔ ∃ a, x = .ok a ∧ f a = .ok b := by
  cases x with
  | error e =>
      constructor
      · intro h
        cases h
      · intro h
        obtain ⟨a, ha, -⟩ := h
        cases ha
  | ok a =>
      constructor
      · intro h
        exact ⟨a, rfl, h⟩
      · intro h
        obtain ⟨a', ha, h⟩ := h
        obtain rfl := Except.ok.inj ha
        exact h

theorem map_eq_ok_iff {α β : Type} {x : Except ε α} {f : α → β} {b : β} :
    x.map f = .ok b ↔ ∃ a, x = .ok a ∧ f a = b := by
  cases x with
  | error e =>
      constructor
      · intro h
        cases h
      · intro h
        obtain ⟨a, ha, -⟩ := h
        cases ha
  | ok a =>
      constructor
      · intro h
        exact ⟨a, rfl, Except.ok.inj h⟩
      · intro h
        obtain ⟨a', ha, h⟩ := h
        obtain rfl := Except.ok.inj ha
        exact congrArg Except.ok h

theorem getElem?_of_mapM_ok {α β : Type} {f : α → Except ε β} {xs : List α} {ys : List β}
    (h : xs.mapM f = .ok ys) {i : Nat} {x : α} (hx : xs[i]? = some x) :
    ∃ y, ys[i]? = some y ∧ f x = .ok y := by
  induction xs generalizing ys i with
  | nil => cases hx
  | cons a as ih =>
      rw [List.mapM_cons] at h
      obtain ⟨b, hb, h⟩ := bind_eq_ok_iff.mp h
      obtain ⟨bs, hbs, h⟩ := bind_eq_ok_iff.mp h
      obtain rfl := Except.ok.inj h
      cases i with
      | zero =>
          obtain rfl := Option.some.inj hx
          exact ⟨b, rfl, hb⟩
      | succ i => exact ih hbs hx

def exec (step : σ → ι → Except ε σ) (s : σ) (is : List ι) : Except ε σ :=
  is.foldlM step s

@[simp] theorem exec_nil (step : σ → ι → Except ε σ) (s : σ) : exec step s [] = .ok s := rfl

theorem exec_cons (step : σ → ι → Except ε σ) (s : σ) (i : ι) (is : List ι) :
    exec step s (i :: is) = step s i >>= fun s' => exec step s' is := rfl

theorem exec_append (step : σ → ι → Except ε σ) (s : σ) (is js : List ι) :
    exec step s (is ++ js) = exec step s is >>= fun s' => exec step s' js :=
  List.foldlM_append

theorem exec_cons_of_ok {step : σ → ι → Except ε σ} {s s' : σ} {i : ι} (is : List ι)
    (h : step s i = .ok s') : exec step s (i :: is) = exec step s' is := by
  rw [exec_cons, h]
  rfl

theorem exec_append_of_ok {step : σ → ι → Except ε σ} {s t : σ} {is : List ι} (js : List ι)
    (h : exec step s is = .ok t) : exec step s (is ++ js) = exec step t js := by
  rw [exec_append, h]
  rfl

theorem exec_cons_ok {step : σ → ι → Except ε σ} {s t : σ} {i : ι} {is : List ι} :
    exec step s (i :: is) = .ok t ↔ ∃ s', step s i = .ok s' ∧ exec step s' is = .ok t := by
  rw [exec_cons]
  exact bind_eq_ok_iff

theorem exec_invariant {step : σ → ι → Except ε σ} {P : List ι → σ → Prop} {s t : σ}
    {is : List ι} (hstart : P [] s)
    (hstep : ∀ js s i s', i ∈ is → P js s → step s i = .ok s' → P (js ++ [i]) s')
    (hrun : exec step s is = .ok t) : P is t := by
  -- induction on the inputs still to come, from the state after the inputs `js`
  suffices h : ∀ (ks js : List ι) (s : σ), (∀ i ∈ ks, i ∈ is) → P js s →
      exec step s ks = .ok t → P (js ++ ks) t from
    h is [] s (fun _ hi => hi) hstart hrun
  intro ks
  induction ks with
  | nil =>
      intro js s _ hP hrun
      obtain rfl : s = t := Except.ok.inj hrun
      rwa [List.append_nil]
  | cons i ks ih =>
      intro js s hmem hP hrun
      obtain ⟨s', hs', hrest⟩ := exec_cons_ok.mp hrun
      have hP' := hstep js s i s' (hmem i List.mem_cons_self) hP hs'
      have := ih (js ++ [i]) s' (fun k hk => hmem k (List.mem_cons_of_mem i hk)) hP' hrest
      rwa [List.append_assoc, List.singleton_append] at this

/-- Every step the run takes starts in a state that meets the guard. -/
def Guarded (step : σ → ι → Except ε σ) (G : σ → ι → Prop) : σ → List ι → Prop
  | _, [] => True
  | s, i :: is => G s i ∧ ∀ s', step s i = .ok s' → Guarded step G s' is

theorem exec_of_guarded {step : σ → ι → Except ε σ} {G : σ → ι → Prop} {P : σ → Prop}
    (hstep : ∀ s i s', P s → G s i → step s i = .ok s' → P s') :
    ∀ {is : List ι} {s t : σ}, P s → Guarded step G s is → exec step s is = .ok t → P t := by
  intro is
  induction is with
  | nil =>
      intro s t hs _ hrun
      obtain rfl : s = t := Except.ok.inj hrun
      exact hs
  | cons i is ih =>
      intro s t hs hG hrun
      obtain ⟨s', hs', hrest⟩ := exec_cons_ok.mp hrun
      exact ih (hstep s i s' hs hG.1 hs') (hG.2 s' hs') hrest

theorem guarded_cons_of_ok {step : σ → ι → Except ε σ} {G : σ → ι → Prop} {s s' : σ} {i : ι}
    {is : List ι} (hs : step s i = .ok s') :
    Guarded step G s (i :: is) ↔ G s i ∧ Guarded step G s' is := by
  constructor
  · exact fun h => ⟨h.1, h.2 s' hs⟩
  · intro h
    refine ⟨h.1, fun t ht => ?_⟩
    obtain rfl := Except.ok.inj (hs.symm.trans ht)
    exact h.2

theorem guarded_cons_of_error {step : σ → ι → Except ε σ} {G : σ → ι → Prop} {s : σ} {i : ι}
    {is : List ι} {e : ε} (hs : step s i = .error e) : Guarded step G s (i :: is) ↔ G s i := by
  constructor
  · exact fun h => h.1
  · intro h
    refine ⟨h, fun t ht => ?_⟩
    rw [hs] at ht
    cases ht

instance decidableGuarded {step : σ → ι → Except ε σ} {G : σ → ι → Prop}
    [∀ s i, Decidable (G s i)] : (s : σ) → (is : List ι) → Decidable (Guarded step G s is)
  | _, [] => .isTrue trivial
  | s, i :: is =>
      match hs : step s i with
      | .ok s' =>
          have : Decidable (Guarded step G s' is) := decidableGuarded s' is
          decidable_of_iff (G s i ∧ Guarded step G s' is) (guarded_cons_of_ok hs).symm
      | .error _ => decidable_of_iff (G s i) (guarded_cons_of_error hs).symm

/-- `P` holds in every state of the run and `Q` of every step it takes. -/
def Along (step : σ → ι → Except ε σ) (P : σ → Prop) (Q : σ → ι → σ → Prop) :
    σ → List ι → Prop
  | s, [] => P s
  | s, i :: is => P s ∧ ∀ s', step s i = .ok s' → Q s i s' ∧ Along step P Q s' is

theorem Along.here {step : σ → ι → Except ε σ} {P : σ → Prop} {Q : σ → ι → σ → Prop} {s : σ}
    {is : List ι} (h : Along step P Q s is) : P s := by
  cases is with
  | nil => exact h
  | cons i is => exact h.1

theorem Along.rest {step : σ → ι → Except ε σ} {P : σ → Prop} {Q : σ → ι → σ → Prop} :
    ∀ {is js : List ι} {s t : σ}, Along step P Q s (is ++ js) → exec step s is = .ok t →
      Along step P Q t js := by
  intro is
  induction is with
  | nil =>
      intro js s t h hrun
      obtain rfl : s = t := Except.ok.inj hrun
      exact h
  | cons i is ih =>
      intro js s t h hrun
      obtain ⟨s', hs', hrest⟩ := exec_cons_ok.mp hrun
      exact ih (h.2 s' hs').2 hrest

/-- No step of the run fails, `P` holds in every state and `Q` of every step. -/
def Safe (step : σ → ι → Except ε σ) (P : σ → Prop) (Q : σ → ι → σ → Prop) :
    σ → List ι → Prop
  | s, [] => P s
  | s, i :: is => P s ∧ ∃ s', step s i = .ok s' ∧ Q s i s' ∧ Safe step P Q s' is

theorem Safe.here {step : σ → ι → Except ε σ} {P : σ → Prop} {Q : σ → ι → σ → Prop} {s : σ}
    {is : List ι} (h : Safe step P Q s is) : P s := by
  cases is with
  | nil => exact h
  | cons i is => exact h.1

theorem Safe.rest {step : σ → ι → Except ε σ} {P : σ → Prop} {Q : σ → ι → σ → Prop} :
    ∀ {is js : List ι} {s t : σ}, Safe step P Q s (is ++ js) → exec step s is = .ok t →
      Safe step P Q t js := by
  intro is
  induction is with
  | nil =>
      intro js s t h hrun
      obtain rfl : s = t := Except.ok.inj hrun
      exact h
  | cons i is ih =>
      intro js s t h hrun
      obtain ⟨s', hs', hrest⟩ := exec_cons_ok.mp hrun
      obtain ⟨-, s'', hs'', -, hsafe⟩ := h
      obtain rfl := Except.ok.inj (hs'.symm.trans hs'')
      exact ih hsafe hrest

/-- A guarded run is safe when every guarded step from an invariant state succeeds
and keeps the invariant. -/
theorem safe_of_guarded {step : σ → ι → Except ε σ} {P : σ → Prop} {Q : σ → ι → σ → Prop}
    {G : σ → ι → Prop} {I : σ → Prop} (hP : ∀ s, I s → P s)
    (hstep : ∀ s i, I s → G s i → ∃ s', step s i = .ok s' ∧ I s' ∧ Q s i s') :
    ∀ (is : List ι) (s : σ), I s → Guarded step G s is → Safe step P Q s is := by
  intro is
  induction is with
  | nil => exact fun s hs _ => hP s hs
  | cons i is ih =>
      intro s hs hG
      obtain ⟨s', hs', hI, hQ⟩ := hstep s i hs hG.1
      exact ⟨hP s hs, s', hs', hQ, ih s' hI (hG.2 s' hs')⟩

theorem guarded_of_safe {step : σ → ι → Except ε σ} {P : σ → Prop} {Q : σ → ι → σ → Prop}
    {G : σ → ι → Prop} {I : σ → Prop}
    (hstep : ∀ s i s', I s → step s i = .ok s' → I s' ∧ G s i) :
    ∀ (is : List ι) (s : σ), I s → Safe step P Q s is → Guarded step G s is := by
  intro is
  induction is with
  | nil => exact fun _ _ _ => trivial
  | cons i is ih =>
      intro s hs hsafe
      obtain ⟨-, s', hs', -, hrest⟩ := hsafe
      obtain ⟨hI, hG⟩ := hstep s i s' hs hs'
      refine ⟨hG, fun s'' hs'' => ?_⟩
      obtain rfl := Except.ok.inj (hs'.symm.trans hs'')
      exact ih s' hI hrest

/-- Under the environment's contract `C` a run is safe exactly when it is guarded,
provided a guarded step succeeds and keeps the invariant, and a step that succeeds
and ends in `P` was guarded. -/
theorem safe_iff_guarded {step : σ → ι → Except ε σ} {P : σ → Prop} {Q : σ → ι → σ → Prop}
    {C G : σ → ι → Prop} {I : σ → Prop} (hP : ∀ s, I s → P s)
    (hkeep : ∀ s i, I s → C s i → G s i → ∃ s', step s i = .ok s' ∧ I s' ∧ Q s i s')
    (hforced : ∀ s i s', I s → C s i → step s i = .ok s' → P s' → G s i) :
    ∀ (is : List ι) (s : σ), I s → Guarded step C s is →
      (Safe step P Q s is ↔ Guarded step G s is) := by
  intro is
  induction is with
  | nil => exact fun s hs _ => ⟨fun _ => trivial, fun _ => hP s hs⟩
  | cons i is ih =>
      intro s hs hC
      constructor
      · intro hsafe
        obtain ⟨-, s', hs', -, hrest⟩ := hsafe
        have hG := hforced s i s' hs hC.1 hs' hrest.here
        obtain ⟨s'', hs'', hI, -⟩ := hkeep s i hs hC.1 hG
        obtain rfl := Except.ok.inj (hs'.symm.trans hs'')
        refine ⟨hG, fun t ht => ?_⟩
        obtain rfl := Except.ok.inj (hs'.symm.trans ht)
        exact (ih s' hI (hC.2 s' hs')).mp hrest
      · intro hG
        obtain ⟨s', hs', hI, hQ⟩ := hkeep s i hs hC.1 hG.1
        exact ⟨hP s hs, s', hs', hQ, (ih s' hI (hC.2 s' hs')).mpr (hG.2 s' hs')⟩

theorem Guarded.and {step : σ → ι → Except ε σ} {G H : σ → ι → Prop} :
    ∀ {is : List ι} {s : σ}, Guarded step G s is → Guarded step H s is →
      Guarded step (fun s i => G s i ∧ H s i) s is := by
  intro is
  induction is with
  | nil => exact fun _ _ => trivial
  | cons i is ih =>
      intro s hG hH
      exact ⟨⟨hG.1, hH.1⟩, fun s' hs' => ih (hG.2 s' hs') (hH.2 s' hs')⟩

theorem Guarded.left {step : σ → ι → Except ε σ} {G : σ → ι → Prop} :
    ∀ {is js : List ι} {s : σ}, Guarded step G s (is ++ js) → Guarded step G s is := by
  intro is
  induction is with
  | nil => exact fun _ => trivial
  | cons i is ih => exact fun h => ⟨h.1, fun s' hs' => ih (h.2 s' hs')⟩

theorem Guarded.right {step : σ → ι → Except ε σ} {G : σ → ι → Prop} :
    ∀ {is js : List ι} {s t : σ}, Guarded step G s (is ++ js) → exec step s is = .ok t →
      Guarded step G t js := by
  intro is
  induction is with
  | nil =>
      intro js s t h hrun
      obtain rfl : s = t := Except.ok.inj hrun
      exact h
  | cons i is ih =>
      intro js s t h hrun
      obtain ⟨s', hs', hrest⟩ := exec_cons_ok.mp hrun
      exact ih (h.2 s' hs') hrest

theorem Guarded.append {step : σ → ι → Except ε σ} {G : σ → ι → Prop} :
    ∀ {is js : List ι} {s : σ}, Guarded step G s is →
      (∀ t, exec step s is = .ok t → Guarded step G t js) → Guarded step G s (is ++ js) := by
  intro is
  induction is with
  | nil => exact fun _ h => h _ rfl
  | cons i is ih =>
      intro js s hG h
      refine ⟨hG.1, fun s' hs' => ih (hG.2 s' hs') fun t ht => h t ?_⟩
      rw [exec_cons_of_ok is hs', ht]

/-- In an invariant state the property of states and steps holds along a run, and
every step meets `N`, exactly when the run is guarded, provided a guarded step keeps
the invariant and meets `N`, and an unguarded one that meets `N` leads out of `P`. -/
theorem along_and_guarded_iff {step : σ → ι → Except ε σ} {P : σ → Prop}
    {Q : σ → ι → σ → Prop} {G N : σ → ι → Prop} {Inv : σ → Prop} (hP : ∀ s, Inv s → P s)
    (hstep : ∀ s i s', Inv s → G s i → step s i = .ok s' → Inv s' ∧ Q s i s')
    (hN : ∀ s i, Inv s → G s i → N s i)
    (hout : ∀ s i, Inv s → ¬ G s i → N s i → ∃ s', step s i = .ok s' ∧ ¬ P s') :
    ∀ (is : List ι) (s : σ), Inv s →
      (Along step P Q s is ∧ Guarded step N s is ↔ Guarded step G s is) := by
  intro is
  induction is with
  | nil => exact fun s hs => ⟨fun _ => trivial, fun _ => ⟨hP s hs, trivial⟩⟩
  | cons i is ih =>
      intro s hs
      constructor
      · intro h
        obtain ⟨halong, hguard⟩ := h
        have hG : G s i := by
          by_contra hG
          obtain ⟨s', hs', hbad⟩ := hout s i hs hG hguard.1
          exact hbad (halong.2 s' hs').2.here
        refine ⟨hG, fun s' hs' => ?_⟩
        exact (ih s' (hstep s i s' hs hG hs').1).mp ⟨(halong.2 s' hs').2, hguard.2 s' hs'⟩
      · intro h
        have hrest : ∀ s', step s i = .ok s' → Q s i s' ∧
            Along step P Q s' is ∧ Guarded step N s' is := by
          intro s' hs'
          obtain ⟨hInv, hQ⟩ := hstep s i s' hs h.1 hs'
          exact ⟨hQ, (ih s' hInv).mpr (h.2 s' hs')⟩
        exact ⟨⟨hP s hs, fun s' hs' => ⟨(hrest s' hs').1, (hrest s' hs').2.1⟩⟩,
          hN s i hs h.1, fun s' hs' => (hrest s' hs').2.2⟩

theorem guarded_true {step : σ → ι → Except ε σ} :
    ∀ (is : List ι) (s : σ), Guarded step (fun _ _ => True) s is := by
  intro is
  induction is with
  | nil => exact fun _ => trivial
  | cons i is ih => exact fun s => ⟨trivial, fun s' _ => ih s'⟩

/-- The case in which nothing more is asked of a step. -/
theorem along_iff_guarded {step : σ → ι → Except ε σ} {P : σ → Prop} {Q : σ → ι → σ → Prop}
    {G : σ → ι → Prop} {Inv : σ → Prop} (hP : ∀ s, Inv s → P s)
    (hstep : ∀ s i s', Inv s → G s i → step s i = .ok s' → Inv s' ∧ Q s i s')
    (hout : ∀ s i, Inv s → ¬ G s i → ∃ s', step s i = .ok s' ∧ ¬ P s') (is : List ι) (s : σ)
    (hs : Inv s) : Along step P Q s is ↔ Guarded step G s is := by
  rw [← along_and_guarded_iff (N := fun _ _ => True) hP hstep (fun _ _ _ _ => trivial)
    (fun s i hs hG _ => hout s i hs hG) is s hs]
  exact ⟨fun h => ⟨h, guarded_true is s⟩, fun h => h.1⟩

/-- An invariant that every step keeps holds along every run. -/
theorem along_of_invariant {step : σ → ι → Except ε σ} {P : σ → Prop} {Q : σ → ι → σ → Prop}
    {Inv : σ → Prop} (hP : ∀ s, Inv s → P s)
    (hstep : ∀ s i s', Inv s → step s i = .ok s' → Inv s' ∧ Q s i s') (is : List ι) (s : σ)
    (hs : Inv s) : Along step P Q s is :=
  (along_iff_guarded (G := fun _ _ => True) hP (fun s i s' h _ hok => hstep s i s' h hok)
    (fun _ _ _ hG => absurd trivial hG) is s hs).mpr (guarded_true is s)

theorem exists_exec_invariant {step : σ → ι → Except ε σ} {P : List ι → σ → Prop} {s : σ}
    {is : List ι} (hstart : P [] s)
    (hstep : ∀ js s i, i ∈ is → P js s → ∃ s', step s i = .ok s' ∧ P (js ++ [i]) s') :
    ∃ t, exec step s is = .ok t ∧ P is t := by
  suffices h : ∀ (ks js : List ι) (s : σ), (∀ i ∈ ks, i ∈ is) → P js s →
      ∃ t, exec step s ks = .ok t ∧ P (js ++ ks) t from
    h is [] s (fun _ hi => hi) hstart
  intro ks
  induction ks with
  | nil =>
      intro js s _ hP
      exact ⟨s, rfl, by rwa [List.append_nil]⟩
  | cons i ks ih =>
      intro js s hmem hP
      obtain ⟨s', hs', hP'⟩ := hstep js s i (hmem i List.mem_cons_self) hP
      obtain ⟨t, ht, hPt⟩ := ih (js ++ [i]) s'
        (fun k hk => hmem k (List.mem_cons_of_mem i hk)) hP'
      refine ⟨t, (exec_cons_of_ok ks hs').trans ht, ?_⟩
      rwa [List.append_assoc, List.singleton_append] at hPt

/-- Runs in which every step can be taken and keeps the invariant, if it meets its
guard. -/
theorem exists_exec_of_guarded {step : σ → ι → Except ε σ} {G : σ → ι → Prop} {P : σ → Prop}
    (hstep : ∀ s i, P s → G s i → ∃ s', step s i = .ok s' ∧ P s') :
    ∀ {is : List ι} {s : σ}, P s → Guarded step G s is → ∃ t, exec step s is = .ok t ∧ P t := by
  intro is
  induction is with
  | nil => exact fun {s} hs _ => ⟨s, rfl, hs⟩
  | cons i is ih =>
      intro s hs hG
      obtain ⟨s', hs', hP⟩ := hstep s i hs hG.1
      obtain ⟨t, ht, hPt⟩ := ih hP (hG.2 s' hs')
      exact ⟨t, (exec_cons_of_ok is hs').trans ht, hPt⟩

theorem filterMap_snoc {α : Type} (f : ι → Option α) (is : List ι) (i : ι) :
    (is ++ [i]).filterMap f = is.filterMap f ++ (f i).toList := by
  rw [List.filterMap_append]
  cases h : f i <;> simp [h]

theorem filterMap_map_of_comm {α : Type} {f : ι → Option α} {g : ι → ι} {g' : α → α}
    (h : ∀ i, f (g i) = (f i).map g') (is : List ι) :
    (is.map g).filterMap f = (is.filterMap f).map g' := by
  rw [List.filterMap_map, List.map_filterMap]
  exact congrArg (fun k => is.filterMap k) (funext h)

theorem filterMap_map_of_some {α : Type} {f : ι → Option α} {g : α → ι}
    (h : ∀ a, f (g a) = some a) (as : List α) : (as.map g).filterMap f = as := by
  have hg : f ∘ g = some := funext h
  rw [List.filterMap_map, hg, List.filterMap_some]

end Exec
