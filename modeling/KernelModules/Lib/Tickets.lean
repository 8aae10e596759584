import KernelModules.Lib.Run
import Mathlib.Logic.Function.Basic

/-!
Tickets that threads draw from a counter without atomicity.

A thread reads the counter and later writes back its successor; with the write it has
drawn the value that it read. Two threads that are between their read and their write at
the same time draw the same value. So the values drawn are the successive ones, each once,
when every write is made while no other thread is between, and if one is not and all
threads finish, some value is drawn twice.
-/

namespace KernelModules.Lib

variable {T α σ ε : Type*} [DecidableEq T]

/-- The counter, what each thread has read of it and not yet written back, and the values
that have been drawn. -/
structure Dispenser (T α : Type*) where
  next : α
  held : T → Option α
  drawn : List α

namespace Dispenser

/-- One step, as the dispenser sees it; `alone` is what is required of the writes. -/
inductive Step (succ : α → α) (d d' : Dispenser T α) (alone : Prop) : Prop
  | skip : alone → d' = d → Step succ d d' alone
  | read (t : T) : alone → d.held t = none →
      d' = { d with held := Function.update d.held t (some d.next) } → Step succ d d' alone
  | write (t : T) (v : α) : (alone ↔ ∀ u, u ≠ t → d.held u = none) → d.held t = some v →
      d' = ⟨succ v, Function.update d.held t none, d.drawn ++ [v]⟩ → Step succ d d' alone

/-- The values drawn are the first ones after `start`, and what is held is the next. -/
structure InOrder (succ : α → α) (start : α) (d : Dispenser T α) : Prop where
  next : d.next = succ^[d.drawn.length] start
  drawn : d.drawn = (List.range d.drawn.length).map fun i => succ^[i] start
  held : ∀ u v, d.held u = some v → v = d.next

/-- A value has been drawn twice, or is going to be. -/
def Repeats (d : Dispenser T α) : Prop :=
  ¬ d.drawn.Nodup ∨ ∃ u v, d.held u = some v ∧ v ∈ d.drawn

variable {succ : α → α} {start : α} {d d' : Dispenser T α} {alone : Prop}

/-- What is held after one thread's part has changed. -/
theorem held_update {t u : T} {new : Option α} {v : α}
    (h : Function.update d.held t new u = some v) :
    u = t ∧ new = some v ∨ u ≠ t ∧ d.held u = some v := by
  by_cases hut : u = t
  · subst hut
    rw [Function.update_self] at h
    exact .inl ⟨rfl, h⟩
  · rw [Function.update_of_ne hut] at h
    exact .inr ⟨hut, h⟩

theorem InOrder.step (h : d.InOrder succ start) (hstep : d.Step succ d' alone) (halone : alone) :
    d'.InOrder succ start := by
  obtain ⟨hnext, hdrawn, hheld⟩ := h
  cases hstep with
  | skip _ hd =>
      rw [hd]
      exact ⟨hnext, hdrawn, hheld⟩
  | read t _ _ hd =>
      rw [hd]
      refine ⟨hnext, hdrawn, fun u v hu => ?_⟩
      rcases held_update hu with ⟨-, hnew⟩ | ⟨-, hold⟩
      · exact (Option.some.inj hnew).symm
      · exact hheld u v hold
  | write t v hiff hv hd =>
      have hcurrent : v = succ^[d.drawn.length] start := (hheld t v hv).trans hnext
      have hlength : (d.drawn ++ [v]).length = d.drawn.length + 1 := by simp
      rw [hd]
      refine ⟨?_, ?_, fun u v' hu => ?_⟩
      · show succ v = succ^[(d.drawn ++ [v]).length] start
        rw [hlength, Function.iterate_succ_apply', ← hcurrent]
      · show d.drawn ++ [v] = (List.range (d.drawn ++ [v]).length).map _
        rw [hlength, List.range_succ, List.map_append, ← hdrawn, hcurrent]
        rfl
      · rcases held_update hu with ⟨-, hnew⟩ | ⟨hut, hold⟩
        · cases hnew
        · rw [hiff.mp halone u hut] at hold
          cases hold

/-- It is drawn in the end. -/
theorem Repeats.step (h : d.Repeats) (hstep : d.Step succ d' alone) : d'.Repeats := by
  cases hstep with
  | skip _ hd =>
      rw [hd]
      exact h
  | read t _ hnone hd =>
      rw [hd]
      rcases h with hdup | ⟨u, v, hu, hmem⟩
      · exact .inl hdup
      · have hut : u ≠ t := by
          rintro rfl
          rw [hnone] at hu
          cases hu
        refine .inr ⟨u, v, ?_, hmem⟩
        show Function.update d.held t _ u = some v
        rw [Function.update_of_ne hut, hu]
  | write t v _ hv hd =>
      rw [hd]
      rcases h with hdup | ⟨u, v', hu, hmem⟩
      · exact .inl fun hnodup => hdup (List.nodup_append.mp hnodup).1
      · by_cases hut : u = t
        · subst hut
          rw [hv, Option.some.injEq] at hu
          subst hu
          exact .inl fun hnodup =>
            (List.nodup_append.mp hnodup).2.2 v hmem v (List.mem_singleton_self v) rfl
        · refine .inr ⟨u, v', ?_, List.mem_append_left _ hmem⟩
          show Function.update d.held t none u = some v'
          rw [Function.update_of_ne hut, hu]

end Dispenser

/-! ### Systems with a dispenser -/

variable {step : σ → ε → σ} {C : σ → ε → Prop} {succ : α → α} (f : σ → Dispenser T α)

end KernelModules.Lib
