import Mathlib.Data.List.Infix

/-!
Runs of a deterministic step function over a list of events.

A program that is driven from outside is a function `step : σ → ε → σ`, and one
of its runs is a list of events. Two things are said about runs. `Throughout Q`
says that `Q` holds at the start and after every event, and `StepsMeet C` says
that every event was taken in a state that meets the side condition `C`. The
rules below are the only inductions over event lists that a development needs:
an invariant is carried along the steps that meet a condition, a condition is
discharged from a counter that grows by at most one per event, and where the
condition is exact the two notions coincide.
-/

namespace KernelModules.Lib

variable {σ τ ε : Type*}

/-- The state after the events `es`, taken in order. -/
def run (step : σ → ε → σ) (s : σ) (es : List ε) : σ := es.foldl step s

@[simp] theorem run_nil (step : σ → ε → σ) (s : σ) : run step s [] = s := rfl

@[simp] theorem run_cons (step : σ → ε → σ) (s : σ) (e : ε) (es : List ε) :
    run step s (e :: es) = run step (step s e) es := rfl

theorem run_append (step : σ → ε → σ) (s : σ) (es es' : List ε) :
    run step s (es ++ es') = run step (run step s es) es' := by
  simp [run, List.foldl_append]

theorem run_concat (step : σ → ε → σ) (s : σ) (es : List ε) (e : ε) :
    run step s (es ++ [e]) = step (run step s es) e := by
  simp [run_append]

/-- Every event of `es` is taken in a state that meets `C`. -/
def StepsMeet (step : σ → ε → σ) (C : σ → ε → Prop) : σ → List ε → Prop
  | _, [] => True
  | s, e :: es => C s e ∧ StepsMeet step C (step s e) es

/-- `Q` holds at the start of the run and after every event. -/
def Throughout (step : σ → ε → σ) (Q : σ → Prop) : σ → List ε → Prop
  | s, [] => Q s
  | s, e :: es => Q s ∧ Throughout step Q (step s e) es

variable {step : σ → ε → σ} {C D : σ → ε → Prop} {I Q : σ → Prop}

@[simp] theorem stepsMeet_nil (s : σ) : StepsMeet step C s [] := trivial

@[simp] theorem stepsMeet_cons {s : σ} {e : ε} {es : List ε} :
    StepsMeet step C s (e :: es) ↔ C s e ∧ StepsMeet step C (step s e) es := Iff.rfl

@[simp] theorem throughout_nil {s : σ} : Throughout step Q s [] ↔ Q s := Iff.rfl

@[simp] theorem throughout_cons {s : σ} {e : ε} {es : List ε} :
    Throughout step Q s (e :: es) ↔ Q s ∧ Throughout step Q (step s e) es := Iff.rfl

instance decidableStepsMeet [∀ s e, Decidable (C s e)] :
    ∀ s es, Decidable (StepsMeet step C s es)
  | _, [] => .isTrue trivial
  | s, e :: es =>
      have := decidableStepsMeet (step s e) es
      inferInstanceAs (Decidable (C s e ∧ StepsMeet step C (step s e) es))

theorem stepsMeet_append {s : σ} {es es' : List ε} :
    StepsMeet step C s (es ++ es') ↔
      StepsMeet step C s es ∧ StepsMeet step C (run step s es) es' := by
  induction es generalizing s with
  | nil => simp
  | cons e es ih => simp [ih, and_assoc]

theorem StepsMeet.and {s : σ} {es : List ε} (hC : StepsMeet step C s es)
    (hD : StepsMeet step D s es) : StepsMeet step (fun s e => C s e ∧ D s e) s es := by
  induction es generalizing s with
  | nil => trivial
  | cons e es ih => exact ⟨⟨hC.1, hD.1⟩, ih hC.2 hD.2⟩

/-- `Throughout` read point by point: `Q` holds after every initial part of the
run. -/
theorem throughout_iff_forall_initial {s : σ} {es : List ε} :
    Throughout step Q s es ↔ ∀ before, before <+: es → Q (run step s before) := by
  induction es generalizing s with
  | nil => simp
  | cons e es ih =>
      rw [throughout_cons, ih]
      constructor
      · rintro ⟨hs, hrest⟩ before hpre
        cases before with
        | nil => exact hs
        | cons e' before =>
            obtain ⟨rfl, htail⟩ := List.cons_prefix_cons.mp hpre
            exact hrest before htail
      · intro h
        refine ⟨h [] List.nil_prefix, fun before hpre => ?_⟩
        exact h (e :: before) (List.cons_prefix_cons.mpr ⟨rfl, hpre⟩)

theorem Throughout.start {s : σ} {es : List ε} (h : Throughout step Q s es) : Q s := by
  cases es with
  | nil => exact h
  | cons e es => exact h.1

theorem Throughout.last {s : σ} {es : List ε} (h : Throughout step Q s es) :
    Q (run step s es) :=
  throughout_iff_forall_initial.mp h es List.prefix_rfl

theorem Throughout.imp {Q' : σ → Prop} {s : σ} {es : List ε} (h : Throughout step Q s es)
    (himp : ∀ s, Q s → Q' s) : Throughout step Q' s es :=
  throughout_iff_forall_initial.mpr fun before hpre =>
    himp _ (throughout_iff_forall_initial.mp h before hpre)

theorem Throughout.stepsMeet {s : σ} {es : List ε} (h : Throughout step Q s es)
    (himp : ∀ s e, Q s → C s e) : StepsMeet step C s es := by
  induction es generalizing s with
  | nil => trivial
  | cons e es ih => exact ⟨himp s e h.1, ih h.2⟩

/-- **The invariant rule.** What holds at the start and is kept by every step
holds after every run. -/
theorem run_invariant (hstep : ∀ s e, I s → I (step s e)) {s : σ} (hs : I s) (es : List ε) :
    I (run step s es) := by
  induction es generalizing s with
  | nil => exact hs
  | cons e es ih => exact ih (hstep s e hs)

/-- **The conditional invariant rule.** An invariant that is kept by the steps
meeting `C` holds throughout a run whose steps all meet `C`. -/
theorem StepsMeet.throughout (hstep : ∀ s e, I s → C s e → I (step s e)) {s : σ} (hs : I s)
    {es : List ε} (h : StepsMeet step C s es) : Throughout step I s es := by
  induction es generalizing s with
  | nil => exact hs
  | cons e es ih => exact ⟨hs, ih (hstep s e hs h.1) h.2⟩

/-- A measure that grows by at most one per event stays below `B` at every
event, when the run is short enough. -/
theorem stepsMeet_of_measure (μ : σ → ℕ) {B : ℕ} (hstep : ∀ s e, μ (step s e) ≤ μ s + 1)
    {s : σ} {es : List ε} (h : μ s + es.length ≤ B) :
    StepsMeet step (fun s _ => μ s < B) s es := by
  induction es generalizing s with
  | nil => trivial
  | cons e es ih =>
      have hlen : (e :: es).length = es.length + 1 := rfl
      have hμ := hstep s e
      exact ⟨by omega, ih (by omega)⟩

/-- **The counted invariant rule.** An invariant that may depend on the number of the
steps taken holds throughout a run that is short enough for it. -/
theorem StepsMeet.throughout_counted {J : ℕ → σ → Prop} {B : ℕ}
    (hstep : ∀ n s e, n + 1 < B → J n s → C s e → J (n + 1) (step s e)) {n : ℕ} {s : σ}
    (hs : J n s) {es : List ε} (hlen : n + es.length < B) (h : StepsMeet step C s es) :
    Throughout step (fun s => ∃ m < B, J m s) s es := by
  induction es generalizing n s with
  | nil => exact ⟨n, by omega, hs⟩
  | cons e es ih =>
      have hcons : (e :: es).length = es.length + 1 := rfl
      exact ⟨⟨n, by omega, hs⟩, ih (hstep n s e (by omega) hs h.1) (by omega) h.2⟩

/-- **The exactness rule.** Let the events of a run meet `A`. When `C` keeps an
invariant that implies `Q`, and a step outside `C` breaks `Q` at once, then `Q`
holds throughout the run exactly when all its steps meet `C`. -/
theorem throughout_iff_stepsMeet {A : σ → ε → Prop} (hQ : ∀ s, I s → Q s)
    (hkeep : ∀ s e, I s → A s e → C s e → I (step s e))
    (hbreak : ∀ s e, I s → A s e → ¬ C s e → ¬ Q (step s e)) {s : σ} (hs : I s)
    {es : List ε} (hA : StepsMeet step A s es) :
    Throughout step Q s es ↔ StepsMeet step C s es := by
  constructor
  · intro h
    induction es generalizing s with
    | nil => trivial
    | cons e es ih =>
        -- the first step outside `C` would show as a state without `Q`
        by_cases hC : C s e
        · exact ⟨hC, ih (hkeep s e hs hA.1 hC) hA.2 h.2⟩
        · exact absurd h.2.start (hbreak s e hs hA.1 hC)
  · intro h
    exact ((hA.and h).throughout (fun s e hs h => hkeep s e hs h.1 h.2) hs).imp hQ

theorem stepsMeet_of_forall (h : ∀ s e, C s e) (s : σ) (es : List ε) : StepsMeet step C s es := by
  induction es generalizing s with
  | nil => trivial
  | cons e es ih => exact ⟨h s e, ih (step s e)⟩

/-! ### Two systems under the same events -/

/-- Two systems driven by the same events. The second one may be another
program, or what an observer records of the first one's environment. -/
def both (step : σ → ε → σ) (step' : τ → ε → τ) (s : σ × τ) (e : ε) : σ × τ :=
  (step s.1 e, step' s.2 e)

theorem run_both (step : σ → ε → σ) (step' : τ → ε → τ) (s : σ × τ) (es : List ε) :
    run (both step step') s es = (run step s.1 es, run step' s.2 es) := by
  induction es generalizing s with
  | nil => rfl
  | cons e es ih => exact ih (both step step' s e)

/-- From the states in `J` on, `f` carries the runs of `step` to the runs of
`step'` on the same events. -/
structure Simulation (step : σ → ε → σ) (step' : τ → ε → τ) (J : σ → Prop) (f : σ → τ) :
    Prop where
  keep : ∀ s e, J s → J (step s e)
  commute : ∀ s e, J s → f (step s e) = step' (f s) e

namespace Simulation

variable {ρ ε' : Type*} {step' : τ → ε → τ} {J : σ → Prop} {f : σ → τ}

/-- **The simulation rule.** -/
theorem run_eq (h : Simulation step step' J f) {s : σ} (hs : J s) (es : List ε) :
    f (run step s es) = run step' (f s) es := by
  induction es generalizing s with
  | nil => rfl
  | cons e es ih => rw [run_cons, run_cons, ih (h.keep s e hs), h.commute s e hs]

theorem throughout_iff (h : Simulation step step' J f) (Q' : τ → Prop)
    (hQ : ∀ s, J s → (Q s ↔ Q' (f s))) {s : σ} (hs : J s) (es : List ε) :
    Throughout step Q s es ↔ Throughout step' Q' (f s) es := by
  induction es generalizing s with
  | nil => exact hQ s hs
  | cons e es ih =>
      rw [throughout_cons, throughout_cons, ih (h.keep s e hs), h.commute s e hs, hQ s hs]

theorem stepsMeet_iff (h : Simulation step step' J f) {C' : τ → ε → Prop}
    (hC : ∀ s e, J s → (C s e ↔ C' (f s) e)) {s : σ} (hs : J s) (es : List ε) :
    StepsMeet step C s es ↔ StepsMeet step' C' (f s) es := by
  induction es generalizing s with
  | nil => exact Iff.rfl
  | cons e es ih =>
      rw [stepsMeet_cons, stepsMeet_cons, ih (h.keep s e hs), h.commute s e hs, hC s e hs]

/-- A simulation stays one when both sides are watched by the same observer. -/
theorem watched (h : Simulation step step' J f) (watch : ρ → ε → ρ) :
    Simulation (both step watch) (both step' watch) (fun s => J s.1) (Prod.map f id) :=
  ⟨fun s e hs => h.keep s.1 e hs, fun s e hs => Prod.ext (h.commute s.1 e hs) rfl⟩

/-- Events that stand for events of the system. -/
theorem renamed (h : Simulation step step' J f) (event : ε' → ε) :
    Simulation (fun s e => step s (event e)) (fun t e => step' t (event e)) J f :=
  ⟨fun s e hs => h.keep s (event e) hs, fun s e hs => h.commute s (event e) hs⟩

end Simulation

/-- A program does not see its observer. -/
theorem stepsMeet_both_fst {watch : τ → ε → τ} (s : σ × τ) (es : List ε) :
    StepsMeet (both step watch) (fun s e => C s.1 e) s es ↔ StepsMeet step C s.1 es := by
  induction es generalizing s with
  | nil => exact Iff.rfl
  | cons e es ih => exact and_congr Iff.rfl (ih _)

/-- An observer runs by itself. -/
theorem stepsMeet_both_snd (step : σ → ε → σ) {watch : τ → ε → τ} {C : τ → ε → Prop} (s : σ × τ)
    (es : List ε) :
    StepsMeet (both step watch) (fun s e => C s.2 e) s es ↔ StepsMeet watch C s.2 es := by
  induction es generalizing s with
  | nil => exact Iff.rfl
  | cons e es ih => exact and_congr Iff.rfl (ih _)

end KernelModules.Lib
