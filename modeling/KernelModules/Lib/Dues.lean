import Mathlib.Algebra.Group.End
import Mathlib.Data.Finset.NoncommProd

/-!
Operations that overlap.

A thread in the middle of an operation owes the rest of it to the state. What different
threads owe may be done in any order, so there is one state in which everything is done.
A step of an operation does a part of what its thread owes, and that state stays; an
operation that begins is done there at once. A state that the threads share can so be
compared, at any moment, with one in which operation comes after operation.
-/

namespace KernelModules.Lib

variable {ι σ : Type*} [Fintype ι]

/-- The state `s` becomes `target` when every thread has done what is `due` from it. -/
structure Settles (due : ι → Function.End σ) (s target : σ) : Prop where
  commute : Pairwise (Function.onFun Commute due)
  settled : Finset.univ.noncommProd due (commute.set_pairwise _) s = target

namespace Settles

variable {due due' : ι → Function.End σ} {s s' target : σ} {thread : ι}

/-- Nothing is due. -/
theorem of_paid (hpaid : ∀ t, due t = 1) (s : σ) : Settles due s s where
  commute t _ _ := by
    rw [Function.onFun, hpaid t]
    exact Commute.one_left _
  settled := by
    rw [Finset.noncommProd_eq_pow_card _ _ _ 1 fun t _ => hpaid t, one_pow]
    rfl

/-- When nothing is due any more, the state is the settled one. -/
theorem paid (h : Settles due s target) (hpaid : ∀ t, due t = 1) : s = target := by
  rw [← h.settled, Finset.noncommProd_eq_pow_card _ _ _ 1 fun t _ => hpaid t, one_pow]
  rfl

/-- What all the dues keep holds of the settled state. -/
theorem keeps {P : σ → Prop} (h : Settles due s target) (hkeep : ∀ t s, P s → P (due t s))
    (hs : P s) : P target := by
  rw [← h.settled]
  exact Finset.noncommProd_induction _ _ _ (fun f : Function.End σ => ∀ s, P s → P (f s))
    (fun _ _ hf hg s hs => hf _ (hg s hs)) (fun _ hs => hs) (fun t _ => hkeep t) s hs

variable [DecidableEq ι]

/-- What the other threads owe. -/
theorem noncommProd_others (hcommute : Pairwise (Function.onFun Commute due))
    (hcommute' : Pairwise (Function.onFun Commute due'))
    (hothers : ∀ other ≠ thread, due' other = due other) :
    (Finset.univ.erase thread).noncommProd due' (hcommute'.set_pairwise _) =
      (Finset.univ.erase thread).noncommProd due (hcommute.set_pairwise _) :=
  Finset.noncommProd_congr rfl
    (fun other hother => hothers other (Finset.ne_of_mem_erase hother)) _

/-- **A step** of an operation leaves the rest of it due. -/
theorem pay (h : Settles due s target) (hcommute' : Pairwise (Function.onFun Commute due'))
    (hothers : ∀ other ≠ thread, due' other = due other)
    (hstep : due' thread s' = due thread s) : Settles due' s' target := by
  obtain ⟨hcommute, rfl⟩ := h
  refine ⟨hcommute', ?_⟩
  rw [← Finset.noncommProd_erase_mul _ (Finset.mem_univ thread) _ (hcommute'.set_pairwise _),
    ← Finset.noncommProd_erase_mul _ (Finset.mem_univ thread) _ (hcommute.set_pairwise _),
    noncommProd_others hcommute hcommute' hothers]
  exact congrArg _ hstep

/-- **An operation that begins** comes after all that is due. -/
theorem promise (h : Settles due s target) (hcommute' : Pairwise (Function.onFun Commute due'))
    (hothers : ∀ other ≠ thread, due' other = due other) (hnone : due thread = 1) :
    Settles due' s (due' thread target) := by
  obtain ⟨hcommute, rfl⟩ := h
  refine ⟨hcommute', ?_⟩
  rw [← Finset.mul_noncommProd_erase _ (Finset.mem_univ thread) _ (hcommute'.set_pairwise _),
    ← Finset.mul_noncommProd_erase _ (Finset.mem_univ thread) _ (hcommute.set_pairwise _),
    noncommProd_others hcommute hcommute' hothers, hnone, one_mul]
  rfl

end Settles

end KernelModules.Lib
