import KernelModules.ConcurrencyControl.Store
import KernelModules.Lib.Run
import Mathlib.Logic.Function.Basic

/-!
The critical sections of `04_concurrency_control.c` on several threads.

A section is entered with its lock and left with its last step; in between its
steps interleave with those of the sections under the other two locks. The
three locks know nothing of each other, so they keep the list whole only in the
schedules in which no section is entered while another is open.
-/

namespace KernelModules.ConcurrencyControl

open Lib

variable {K : Kernel}

/-- The functions that change the list, with an item allocated. -/
inductive Work
  | add (lock : Lock) (value : CInt)
  | clear
  deriving DecidableEq

def Work.lock : Work → Lock
  | .add lock _ => lock
  | .clear => .spinlock

/-- The step that a thread inside a section takes next. -/
inductive Stage
  | evictOldest (lock : Lock) (value : CInt)
  | linkData (lock : Lock) (value : CInt)
  | countData (lock : Lock)
  | unlinkAll
  | zeroCounts
  | release (lock : Lock)
  deriving DecidableEq

namespace Stage

def lock : Stage → Lock
  | .evictOldest lock _ | .linkData lock _ | .countData lock | .release lock => lock
  | .unlinkAll | .zeroCounts => .spinlock

def act : Stage → ConcurrencyDemo K → ConcurrencyDemo K
  | .evictOldest .. => ConcurrencyControl.evictOldest
  | .linkData _ value => ConcurrencyControl.linkData value
  | .countData lock => ConcurrencyControl.countData lock
  | .unlinkAll => ConcurrencyControl.unlinkAll
  | .zeroCounts => ConcurrencyControl.zeroCounts
  | .release _ => id

def next : Stage → Option Stage
  | .evictOldest lock value => some (.linkData lock value)
  | .linkData lock _ => some (.countData lock)
  | .countData lock => some (.release lock)
  | .unlinkAll => some .zeroCounts
  | .zeroCounts => some (.release .spinlock)
  | .release _ => none

/-- What a section owes the list before each of its steps. -/
def Owes (s : ConcurrencyDemo K) : Stage → Prop
  | .evictOldest .. | .unlinkAll | .release _ => s.Sized
  | .linkData .. => s.Sized ∧ s.dataCount < MAX_DATA_ITEMS
  | .countData _ => s.dataCount + 1 = s.dataList.length ∧ s.dataCount < MAX_DATA_ITEMS
  | .zeroCounts => s.dataList = []

end Stage

/-- The first step inside the section. -/
def Work.enter : Work → Stage
  | .add lock value => .evictOldest lock value
  | .clear => .unlinkAll

theorem Work.lock_enter (work : Work) : work.enter.lock = work.lock := by
  cases work <;> rfl

/-- The module, the holder of each lock, and what each thread inside a section
does next. -/
structure Threads (K : Kernel) where
  demo : ConcurrencyDemo K
  holder : Lock → Option ℕ
  inside : ℕ → Option Stage

inductive Event
  | acquire (thread : ℕ) (work : Work)
  | advance (thread : ℕ)

namespace Threads

def load (K : Kernel) : Threads K := ⟨.load K, fun _ => none, fun _ => none⟩

/-- A lock that is held lets nobody pass; the thread that asked waits. -/
def step (s : Threads K) : Event → Threads K
  | .acquire thread work =>
      match s.inside thread, s.holder work.lock with
      | none, none =>
          { s with
            holder := Function.update s.holder work.lock (some thread)
            inside := Function.update s.inside thread (some work.enter) }
      | _, _ => s
  | .advance thread =>
      match s.inside thread with
      | none => s
      | some stage =>
          { demo := stage.act s.demo
            holder :=
              if stage.next = none then Function.update s.holder stage.lock none else s.holder
            inside := Function.update s.inside thread stage.next }

/-- At most one thread is inside a section, and while there is none the count is
the length, within the capacity. -/
def Right (s : Threads K) : Prop :=
  (∀ t t', s.inside t ≠ none → s.inside t' ≠ none → t = t') ∧
    ((∀ t, s.inside t = none) → s.demo.Sized)

/-- A lock is taken only while the other two are free as well. -/
def AcquiresAlone (s : Threads K) : Event → Prop
  | .acquire thread work =>
      s.inside thread = none → s.holder work.lock = none → ∀ lock, s.holder lock = none
  | .advance _ => True

theorem step_acquire {s : Threads K} {thread : ℕ} {work : Work} (hinside : s.inside thread = none)
    (hholder : s.holder work.lock = none) :
    s.step (.acquire thread work) =
      { s with
        holder := Function.update s.holder work.lock (some thread)
        inside := Function.update s.inside thread (some work.enter) } := by
  simp only [step, hinside, hholder]

/-! ### One thread by itself -/

/-- An addition that is left alone is the critical section of its function. -/
theorem run_add (s : Threads K) (thread : ℕ) (lock : Lock) (value : CInt)
    (hinside : s.inside thread = none) (hholder : s.holder lock = none) :
    (run step s (.acquire thread (.add lock value) :: List.replicate 4 (.advance thread))).demo =
      addData lock value s.demo := by
  simp [step, Work.lock, Work.enter, Stage.next, Stage.act, hinside, hholder, List.replicate,
    addData]

theorem run_clear (s : Threads K) (thread : ℕ) (hinside : s.inside thread = none)
    (hholder : s.holder .spinlock = none) :
    (run step s (.acquire thread .clear :: List.replicate 3 (.advance thread))).demo =
      clearAllData s.demo := by
  simp [step, Work.lock, Work.enter, Stage.next, Stage.act, hinside, hholder, List.replicate,
    clearAllData]

end Threads

/-! ### One section at a time -/

/-- Each step pays what the next one is owed. -/
theorem Stage.owes_act {s : ConcurrencyDemo K} {stage : Stage} (h : stage.Owes s) :
    match stage.next with
    | none => (stage.act s).Sized
    | some next => next.Owes (stage.act s) := by
  cases stage with
  | evictOldest lock value => exact ⟨h.evictOldest.2.1, h.evictOldest.2.2⟩
  | linkData lock value =>
      refine ⟨?_, h.2⟩
      show s.dataCount + 1 = ((s.dataList ++ [_]).length : ℕ)
      rw [List.length_append, h.1.1]
      rfl
  | countData lock =>
      refine ⟨h.1, ?_⟩
      show s.dataCount + 1 ≤ _
      have hroom := h.2
      omega
  | unlinkAll => exact rfl
  | zeroCounts =>
      refine ⟨?_, by simp [act, ConcurrencyControl.zeroCounts]⟩
      show (0 : ℤ) = (s.dataList.length : ℕ)
      rw [show s.dataList = [] from h]
      rfl
  | release lock => exact h

theorem Stage.lock_next {stage next : Stage} (h : stage.next = some next) :
    next.lock = stage.lock := by
  cases stage <;> cases h <;> rfl

namespace Threads

/-- No thread is inside a section, or one is. -/
inductive Exclusive : Threads K → Prop
  | idle {demo : ConcurrencyDemo K} (h : demo.Sized) :
      Exclusive ⟨demo, fun _ => none, fun _ => none⟩
  | inside {demo : ConcurrencyDemo K} (thread : ℕ) {stage : Stage} (h : stage.Owes demo) :
      Exclusive ⟨demo, Function.update (fun _ => none) stage.lock (some thread),
        Function.update (fun _ => none) thread (some stage)⟩

theorem Exclusive.right {s : Threads K} (h : Exclusive s) : Right s := by
  cases h with
  | idle h => exact ⟨fun t _ ht _ => absurd rfl ht, fun _ => h⟩
  | @inside demo thread stage h =>
      have hown : ∀ t, Function.update (fun _ => none) thread (some stage) t ≠ none →
          t = thread := by
        intro t ht
        by_contra hne
        exact ht (Function.update_of_ne hne ..)
      refine ⟨fun t t' ht ht' => (hown t ht).trans (hown t' ht').symm, fun hnone => ?_⟩
      have hthread := hnone thread
      simp at hthread

theorem Exclusive.step {s : Threads K} (h : Exclusive s) {e : Event} (halone : AcquiresAlone s e) :
    Exclusive (s.step e) := by
  cases h with
  | idle h =>
      cases e with
      | advance thread => exact .idle h
      | acquire thread work =>
          show Exclusive ⟨_, Function.update _ _ _, Function.update _ _ _⟩
          rw [← work.lock_enter]
          apply Exclusive.inside
          cases work <;> exact h
  | @inside demo holder stage h =>
      cases e with
      | acquire thread work =>
          -- an acquire that passes would not be alone
          rw [Threads.step]
          split
          · rename_i hthread hholder
            have hfree := halone hthread hholder stage.lock
            simp at hfree
          · exact .inside holder h
      | advance thread =>
          by_cases hne : thread = holder
          · subst hne
            have howes := Stage.owes_act h
            rw [Threads.step]
            simp only [Function.update_self]
            cases hnext : stage.next with
            | none =>
                rw [hnext] at howes
                simp only [if_true, Function.update_idem]
                rw [Function.update_eq_self_iff.mpr rfl, Function.update_eq_self_iff.mpr rfl]
                exact .idle howes
            | some next =>
                rw [hnext] at howes
                simp only [reduceCtorEq, if_false, Function.update_idem]
                rw [← Stage.lock_next hnext]
                exact .inside thread howes
          · rw [Threads.step]
            simp only [Function.update_of_ne hne]
            exact .inside holder h

theorem Exclusive.not_right {s : Threads K} (h : Exclusive s) {e : Event}
    (hjoins : ¬ AcquiresAlone s e) : ¬ Right (s.step e) := by
  cases e with
  | advance thread => exact absurd trivial hjoins
  | acquire thread work =>
      simp only [AcquiresAlone, Classical.not_imp, not_forall] at hjoins
      obtain ⟨hinside, hholder, lock, hheld⟩ := hjoins
      rw [step_acquire hinside hholder]
      cases h with
      | idle h => exact absurd rfl hheld
      | @inside demo holder stage h =>
          have hne : holder ≠ thread := by
            rintro rfl
            simp at hinside
          intro hright
          apply hne
          apply hright.1
          · simp [Function.update_of_ne hne]
          · simp

/-- **Mutual exclusion.** Throughout a schedule there is at most one thread in a
section, and a right count between the sections, exactly when no lock is taken
while another one is held. -/
theorem right_throughout_iff {es : List Event} :
    Throughout step Right (load K) es ↔ StepsMeet step AcquiresAlone (load K) es :=
  throughout_iff_stepsMeet (I := Exclusive) (A := fun _ _ => True) (fun _ h => h.right)
    (fun _ _ h _ halone => h.step halone) (fun _ _ h _ hjoins => h.not_right hjoins)
    (.idle (sized_load K)) (stepsMeet_of_forall (fun _ _ => trivial) ..)

/-- The spinlock does not keep the holder of the mutex out. -/
theorem not_right_of_two_locks :
    ¬ Throughout step Right (load .x86_64)
      [.acquire 0 (.add .spinlock 1), .acquire 1 (.add .mutex 2)] := by
  intro h
  have hone := h.last.1 0 1 (by decide) (by decide)
  contradiction

end Threads

end KernelModules.ConcurrencyControl
