import Mathlib.Data.List.Basic

/-!
Machines that answer.

A machine is driven by calls and answers each of them; its state is seen through the
answers only. A relation between states that gives the same answers and is kept by every
call is never seen. If the answer to one call is enough to establish such a relation, then
this call tells as much as all sequences of calls together.
-/

namespace KernelModules.Lib

variable {σ ι ο : Type*}

/-- The answers to calls made one after the other. -/
def answers (call : σ → ι → σ × ο) : σ → List ι → List ο
  | _, [] => []
  | s, i :: is => (call s i).2 :: answers call (call s i).1 is

/-- Related states give the same answers and stay related. -/
structure Unseen (call : σ → ι → σ × ο) (R : σ → σ → Prop) : Prop where
  answer : ∀ {s s' : σ}, R s s' → ∀ i, (call s i).2 = (call s' i).2
  next : ∀ {s s' : σ}, R s s' → ∀ i, R (call s i).1 (call s' i).1

namespace Unseen

variable {call : σ → ι → σ × ο} {R : σ → σ → Prop}

theorem answers_eq (h : Unseen call R) {s s' : σ} (hs : R s s') (is : List ι) :
    answers call s is = answers call s' is := by
  induction is generalizing s s' with
  | nil => rfl
  | cons i is ih => rw [answers, answers, h.answer hs i, ih (h.next hs i)]

/-- **One call tells all**, if its answer establishes the relation. -/
theorem answer_eq_iff (h : Unseen call R) {s s' : σ} {i : ι}
    (hi : (call s i).2 = (call s' i).2 → R s s') :
    (call s i).2 = (call s' i).2 ↔ ∀ is, answers call s is = answers call s' is :=
  ⟨fun heq is => h.answers_eq (hi heq) is, fun hall => List.head_eq_of_cons_eq (hall [i])⟩

end Unseen

end KernelModules.Lib
