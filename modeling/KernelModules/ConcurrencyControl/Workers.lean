import KernelModules.ConcurrencyControl.Store
import KernelModules.Lib.Run
import Mathlib.Data.Fintype.Basic
import Mathlib.Algebra.Order.BigOperators.Group.Finset

/-!
The worker threads of `04_concurrency_control.c`.

`start_worker_threads` and `stop_worker_threads` are loops over the slots of
`worker_threads`, guarded by a flag that they test and set without a lock. Every
access to the flag, every `kthread_run`, every `kthread_stop` and every
assignment of a slot is a step. `concurrency_exit` stops the workers and then
removes the file, which waits for the calls still inside a write. A `kthread_stop`
that is given no thread, or one that is gone, goes wrong in the kernel; the call
that made it does not come back.
-/

namespace KernelModules.ConcurrencyControl

open Lib

abbrev MAX_WORKERS : ℕ := 5

/-- What `worker_threads` holds: nothing, an error pointer, or a thread. -/
inductive Slot
  | null
  | err
  | thread (id : ℕ)
  deriving DecidableEq

/-- The workers as the calls share them. `alive` and `stoppedTwice` are seen
from outside: the threads that run, and whether `kthread_stop` was ever called
on one that did not. -/
structure Pool where
  workerRunning : Bool
  workerThreads : Fin MAX_WORKERS → Slot
  alive : Finset ℕ
  nextThread : ℕ
  stoppedTwice : Bool

namespace Pool

def load : Pool := ⟨false, fun _ => .null, ∅, 0, false⟩

def setSlot (p : Pool) (i : Fin MAX_WORKERS) (slot : Slot) : Pool :=
  { p with workerThreads := Function.update p.workerThreads i slot }

/-- `kthread_stop`, which returns when the thread has ended. -/
def kthreadStop (p : Pool) (id : ℕ) : Pool :=
  if id ∈ p.alive then { p with alive := p.alive.erase id } else { p with stoppedTwice := true }

end Pool

/-- The step that a call takes next, once it has passed its test of
`worker_running`. -/
inductive CallStage
  | setRunning
  | kthreadRun (i : Fin MAX_WORKERS)
  | assignSlot (i : Fin MAX_WORKERS) (result : Slot)
  | checkSlot (i : Fin MAX_WORKERS)
  | kthreadStop (i : Fin MAX_WORKERS)
  | clearSlot (i : Fin MAX_WORKERS)
  | setStopped
  /-- A `kthread_stop` of the call has gone wrong. -/
  | oops
  deriving DecidableEq

namespace CallStage

/-- The stages of `start_worker_threads`. -/
def starts : CallStage → Bool
  | .setRunning | .kthreadRun _ | .assignSlot .. | .checkSlot _ => true
  | .kthreadStop _ | .clearSlot _ | .setStopped | .oops => false

/-- The loop header `i++, i < MAX_WORKERS`, with where the loop goes on. -/
def loop (body : Fin MAX_WORKERS → CallStage) (done : Option CallStage) (i : Fin MAX_WORKERS) :
    Option CallStage :=
  if h : i.val + 1 < MAX_WORKERS then some (body ⟨i.val + 1, h⟩) else done

/-- One step of a call and the stage it leaves the call in. `created` says
whether a `kthread_run` succeeds. An error pointer is not `NULL`, so a stop takes
it for a thread. -/
def advance (created : Bool) (p : Pool) : CallStage → Pool × Option CallStage
  | .setRunning => ({ p with workerRunning := true }, some (.kthreadRun 0))
  | .kthreadRun i =>
      if created then
        ({ p with alive := insert p.nextThread p.alive, nextThread := p.nextThread + 1 },
          some (.assignSlot i (.thread p.nextThread)))
      else (p, some (.assignSlot i .err))
  | .assignSlot i result => (p.setSlot i result, some (.checkSlot i))
  | .checkSlot i =>
      (if p.workerThreads i = .err then p.setSlot i .null else p, loop .kthreadRun none i)
  | .kthreadStop i =>
      match p.workerThreads i with
      | .null => (p, loop .kthreadStop (some .setStopped) i)
      | .err => (p, some .oops)
      | .thread id => (p.kthreadStop id, some (if id ∈ p.alive then .clearSlot i else .oops))
  | .clearSlot i => (p.setSlot i .null, loop .kthreadStop (some .setStopped) i)
  | .setStopped => ({ p with workerRunning := false }, none)
  | .oops => (p, some .oops)

end CallStage

inductive Caller
  | writer (thread : ℕ)
  | exit
  deriving DecidableEq

/-- How far `concurrency_exit` has come. -/
inductive ExitPhase
  | loaded
  | stopping
  | stopped
  | removed
  | done
  deriving DecidableEq

/-- The pool and the calls that are past their test. `stopReturned` is set when a
stop returns and reset when a start is called. -/
structure Workers where
  pool : Pool
  calls : List (Caller × CallStage)
  exit : ExitPhase
  stopReturned : Bool

inductive WorkerEvent
  /-- `concurrency_write` is called. -/
  | write (thread : ℕ) (w : UserWrite)
  /-- A call takes its next step. -/
  | advance (caller : Caller) (created : Bool)
  /-- `concurrency_exit` is called. -/
  | exit
  /-- Its `proc_remove` returns. -/
  | removed
  /-- It returns. -/
  | exited

namespace Workers

def load : Workers := ⟨.load, [], .loaded, false⟩

/-- The stage of a call that has passed its test. -/
def stageOf (s : Workers) (caller : Caller) : Option CallStage := s.calls.lookup caller

/-- The calls after a step of one of them. -/
def setStage (caller : Caller) (stage : Option CallStage) (calls : List (Caller × CallStage)) :
    List (Caller × CallStage) :=
  (calls.filter fun call => call.1 ≠ caller) ++ (stage.map fun stage => (caller, stage)).toList

/-- The test at the head of `start_worker_threads`. -/
def callStart (caller : Caller) (s : Workers) : Workers :=
  let s := { s with stopReturned := false }
  if s.pool.workerRunning then s
  else { s with calls := setStage caller (some .setRunning) s.calls }

/-- The test at the head of `stop_worker_threads`. -/
def callStop (caller : Caller) (s : Workers) : Workers :=
  if !s.pool.workerRunning then { s with stopReturned := true }
  else { s with calls := setStage caller (some (.kthreadStop 0)) s.calls }

/-- A call takes its next step. A stop that takes its last one returns. -/
def advanceCall (caller : Caller) (created : Bool) (s : Workers) : Workers :=
  match s.stageOf caller with
  | none => s
  | some stage =>
      { s with
        pool := (stage.advance created s.pool).1
        calls := setStage caller (stage.advance created s.pool).2 s.calls
        stopReturned :=
          s.stopReturned || ((stage.advance created s.pool).2.isNone && !stage.starts) }

/-- `concurrency_exit` goes on once its stop has returned. -/
def settleExit (s : Workers) : Workers :=
  if s.exit = .stopping ∧ s.stageOf .exit = none then { s with exit := .stopped } else s

/-- The file is there, and the thread is not inside a write to it. -/
def Enters (s : Workers) (thread : ℕ) : Prop :=
  s.exit ≠ .removed ∧ s.exit ≠ .done ∧ s.stageOf (.writer thread) = none

instance (s : Workers) (thread : ℕ) : Decidable (s.Enters thread) :=
  inferInstanceAs (Decidable (_ ∧ _ ∧ _))

/-- `proc_remove` returns when no thread is inside a write. -/
def step (s : Workers) : WorkerEvent → Workers
  | .write thread w =>
      if s.Enters thread then
        match writtenCommand w with
        | some .start => s.callStart (.writer thread)
        | some .stop => s.callStop (.writer thread)
        | _ => s
      else s
  | .advance caller created => (s.advanceCall caller created).settleExit
  | .exit =>
      if s.exit = .loaded then (callStop .exit { s with exit := .stopping }).settleExit else s
  | .removed =>
      if s.exit = .stopped ∧ ∀ call ∈ s.calls, call.1 = .exit then { s with exit := .removed }
      else s
  | .exited => if s.exit = .removed then { s with exit := .done } else s

/-- No worker is leaked: there are never more than the slots can hold, none is
stopped twice, a stop leaves none to a pool that nobody is starting, and neither
does `concurrency_exit`. -/
structure NoLeak (s : Workers) : Prop where
  bounded : s.pool.alive.card ≤ MAX_WORKERS
  once : s.pool.stoppedTwice = false
  stopped : s.stopReturned = true → (∀ call ∈ s.calls, call.2.starts = false) → s.pool.alive = ∅
  exited : s.exit = .done → s.pool.alive = ∅

/-- The test of `worker_running` is made while no call is past its own, and not
by a start once the module is being unloaded. A start that finds the flag set
may come at any time. -/
def TestsAlone (s : Workers) : WorkerEvent → Prop
  | .write thread w =>
      s.Enters thread →
        (writtenCommand w = some .start →
          s.pool.workerRunning = true ∨ (s.calls = [] ∧ s.exit = .loaded)) ∧
        (writtenCommand w = some .stop → s.calls = [])
  | .exit => s.exit = .loaded → s.calls = []
  | .advance .. | .removed | .exited => True

instance (s : Workers) : ∀ e, Decidable (s.TestsAlone e)
  | .write thread w =>
      inferInstanceAs (Decidable (s.Enters thread →
        (writtenCommand w = some .start →
          s.pool.workerRunning = true ∨ (s.calls = [] ∧ s.exit = .loaded)) ∧
        (writtenCommand w = some .stop → s.calls = [])))
  | .exit => inferInstanceAs (Decidable (s.exit = .loaded → s.calls = []))
  | .advance .. | .removed | .exited => .isTrue trivial

end Workers

/-! ### Threads and slots -/

def Slot.threads : Slot → Finset ℕ
  | .thread id => {id}
  | .null | .err => ∅

namespace Pool

/-- The threads alive are those that `slots` hold, each in one slot, and none was
stopped twice. -/
structure Holds (p : Pool) (slots : Fin MAX_WORKERS → Slot) : Prop where
  alive_iff : ∀ id, id ∈ p.alive ↔ ∃ i, slots i = .thread id
  injective : ∀ i j id, slots i = .thread id → slots j = .thread id → i = j
  fresh : ∀ i id, slots i = .thread id → id < p.nextThread
  once : p.stoppedTwice = false

variable {p : Pool} {slots : Fin MAX_WORKERS → Slot}

theorem Holds.card_le (h : p.Holds slots) : p.alive.card ≤ MAX_WORKERS := by
  have hsub : p.alive ⊆ Finset.univ.biUnion fun i => (slots i).threads := by
    intro id hid
    obtain ⟨i, hi⟩ := (h.alive_iff id).mp hid
    rw [Finset.mem_biUnion]
    exact ⟨i, Finset.mem_univ i, by rw [hi]; exact Finset.mem_singleton_self id⟩
  have hone : ∀ i ∈ Finset.univ, ((slots i).threads).card ≤ 1 := by
    intro i _
    cases slots i <;> simp [Slot.threads]
  calc p.alive.card ≤ (Finset.univ.biUnion fun i => (slots i).threads).card :=
        Finset.card_le_card hsub
    _ ≤ Finset.univ.card * 1 := Finset.card_biUnion_le_card_mul _ _ _ hone
    _ = MAX_WORKERS := by simp

theorem Holds.alive_eq_empty (h : p.Holds slots) (hnull : ∀ i, slots i = .null) :
    p.alive = ∅ := by
  ext id
  simp [h.alive_iff, hnull]

/-- A slot without a thread may be overwritten by another such value. -/
theorem Holds.update (h : p.Holds slots) {i : Fin MAX_WORKERS} {slot : Slot}
    (hold : ∀ id, slots i ≠ .thread id) (hnew : ∀ id, slot ≠ .thread id) :
    p.Holds (Function.update slots i slot) := by
  have hsame : ∀ j id, Function.update slots i slot j = .thread id ↔ slots j = .thread id := by
    intro j id
    by_cases hj : j = i
    · subst hj
      rw [Function.update_self]
      exact iff_of_false (hnew id) (hold id)
    · rw [Function.update_of_ne hj]
  refine ⟨fun id => ?_, fun j k id => ?_, fun j id => ?_, h.once⟩
  · rw [h.alive_iff]
    simp only [hsame]
  · simp only [hsame]
    exact h.injective j k id
  · rw [hsame]
    exact h.fresh j id

/-- A new thread goes into a slot without one. -/
theorem Holds.create (h : p.Holds slots) {i : Fin MAX_WORKERS}
    (hold : ∀ id, slots i ≠ .thread id) :
    { p with
      alive := insert p.nextThread p.alive
      nextThread := p.nextThread + 1 }.Holds
      (Function.update slots i (.thread p.nextThread)) := by
  have hthread : ∀ j id, Function.update slots i (.thread p.nextThread) j = .thread id ↔
      (j = i ∧ id = p.nextThread) ∨ slots j = .thread id := by
    intro j id
    by_cases hj : j = i
    · subst hj
      rw [Function.update_self]
      simp [hold, eq_comm]
    · rw [Function.update_of_ne hj]
      simp [hj]
  refine ⟨fun id => ?_, fun j k id hj hk => ?_, fun j id hj => ?_, h.once⟩
  · rw [Finset.mem_insert, h.alive_iff]
    simp only [hthread, exists_or, exists_and_right, exists_eq, true_and]
  · rcases (hthread j id).mp hj with ⟨hji, hid⟩ | hj'
    · rcases (hthread k id).mp hk with ⟨hki, -⟩ | hk'
      · rw [hji, hki]
      · exact absurd (h.fresh k id hk') (by omega)
    · rcases (hthread k id).mp hk with ⟨-, hid⟩ | hk'
      · exact absurd (h.fresh j id hj') (by omega)
      · exact h.injective j k id hj' hk'
  · show id < p.nextThread + 1
    rcases (hthread j id).mp hj with ⟨-, rfl⟩ | hj
    · exact Nat.lt_succ_self _
    · exact Nat.lt_succ_of_lt (h.fresh j id hj)

/-- The thread of a slot is stopped once and leaves the slot. -/
theorem Holds.kthreadStop (h : p.Holds slots) {i : Fin MAX_WORKERS} {id : ℕ}
    (hi : slots i = .thread id) :
    (p.kthreadStop id).Holds (Function.update slots i .null) ∧
      (p.kthreadStop id).workerRunning = p.workerRunning ∧
      (p.kthreadStop id).workerThreads = p.workerThreads := by
  have halive : id ∈ p.alive := (h.alive_iff id).mpr ⟨i, hi⟩
  have hthread : ∀ j id', Function.update slots i .null j = .thread id' ↔
      id' ≠ id ∧ slots j = .thread id' := by
    intro j id'
    by_cases hj : j = i
    · subst hj
      rw [Function.update_self, hi]
      simp [eq_comm]
    · rw [Function.update_of_ne hj]
      refine ⟨fun hslot => ⟨?_, hslot⟩, And.right⟩
      rintro rfl
      exact hj (h.injective j i id' hslot hi)
  rw [Pool.kthreadStop, if_pos halive]
  refine ⟨⟨fun id' => ?_, fun j k id' hj hk => ?_, fun j id' hj => ?_, h.once⟩, rfl, rfl⟩
  · rw [Finset.mem_erase, h.alive_iff]
    simp only [hthread, exists_and_left]
  · exact h.injective j k id' ((hthread j id').mp hj).2 ((hthread k id').mp hk).2
  · exact h.fresh j id' ((hthread j id').mp hj).2

/-- A slot that is emptied holds no error. -/
theorem setSlot_null_ne_err {p : Pool} {i : Fin MAX_WORKERS}
    (hclean : ∀ j, j ≠ i → p.workerThreads j ≠ .err) (j : Fin MAX_WORKERS) :
    (p.setSlot i .null).workerThreads j ≠ .err := by
  by_cases hj : j = i
  · subst hj
    simp [setSlot]
  · simpa [setSlot, hj] using hclean j hj

/-- Between the calls no slot holds an error, and a pool that is not running is
empty. -/
structure Idle (p : Pool) : Prop where
  holds : p.Holds p.workerThreads
  clean : ∀ i, p.workerThreads i ≠ .err
  empty : p.workerRunning = false → ∀ i, p.workerThreads i = .null

theorem Idle.alive_eq_empty (h : p.Idle) (hrunning : p.workerRunning = false) : p.alive = ∅ :=
  h.holds.alive_eq_empty (h.empty hrunning)

end Pool

/-! ### One call on the pool -/

namespace CallStage

/-- What a call by itself owes the pool before each of its steps. An assignment
that is still to be made counts as made. An error stands in a slot only until the
start that put it there has checked it. -/
def Owes (p : Pool) : CallStage → Prop
  | .setRunning => p.Holds p.workerThreads ∧ ∀ j, p.workerThreads j = .null
  | .kthreadRun i =>
      p.Holds p.workerThreads ∧ p.workerRunning = true ∧
        (∀ j, p.workerThreads j ≠ .err) ∧ ∀ j, i ≤ j → p.workerThreads j = .null
  | .assignSlot i result =>
      p.Holds (Function.update p.workerThreads i result) ∧ p.workerRunning = true ∧
        (∀ j, p.workerThreads j ≠ .err) ∧ ∀ j, i ≤ j → p.workerThreads j = .null
  | .checkSlot i =>
      p.Holds p.workerThreads ∧ p.workerRunning = true ∧
        (∀ j, j ≠ i → p.workerThreads j ≠ .err) ∧ ∀ j, i < j → p.workerThreads j = .null
  | .kthreadStop i =>
      p.Holds p.workerThreads ∧ p.workerRunning = true ∧
        (∀ j, p.workerThreads j ≠ .err) ∧ ∀ j, j < i → p.workerThreads j = .null
  | .clearSlot i =>
      p.Holds (Function.update p.workerThreads i .null) ∧ p.workerRunning = true ∧
        (∀ j, p.workerThreads j ≠ .err) ∧ ∀ j, j < i → p.workerThreads j = .null
  | .setStopped => p.Holds p.workerThreads ∧ ∀ j, p.workerThreads j = .null
  | .oops => False

/-- What holds of the pool when a call has taken a step. -/
def Settles (p : Pool) (started : Bool) : Option CallStage → Prop
  | none => p.Idle ∧ (started = false → p.workerRunning = false)
  | some next => next.Owes p ∧ next.starts = started

/-- The loop of a start goes on with a slot that is still empty, or is over. -/
theorem settles_loop_kthreadRun {p : Pool} {i : Fin MAX_WORKERS} (hp : p.Holds p.workerThreads)
    (hrunning : p.workerRunning = true) (hclean : ∀ j, p.workerThreads j ≠ .err)
    (hnull : ∀ j, i < j → p.workerThreads j = .null) :
    Settles p true (loop .kthreadRun none i) := by
  unfold loop
  split
  · refine ⟨⟨hp, hrunning, hclean, fun j hj => hnull j ?_⟩, rfl⟩
    exact Nat.lt_of_succ_le hj
  · exact ⟨⟨hp, hclean, by simp [hrunning]⟩, by simp⟩

/-- The loop of a stop goes on past a slot that is now empty, or all are. -/
theorem settles_loop_kthreadStop {p : Pool} {i : Fin MAX_WORKERS} (hp : p.Holds p.workerThreads)
    (hrunning : p.workerRunning = true) (hclean : ∀ j, p.workerThreads j ≠ .err)
    (hnull : ∀ j, j ≤ i → p.workerThreads j = .null) :
    Settles p false (loop .kthreadStop (some .setStopped) i) := by
  unfold loop
  split
  · refine ⟨⟨hp, hrunning, hclean, fun j hj => hnull j ?_⟩, rfl⟩
    exact Nat.le_of_lt_succ hj
  · refine ⟨⟨hp, fun j => hnull j ?_⟩, rfl⟩
    have hlt := j.isLt
    exact Fin.le_def.mpr (by omega)

/-- **One step of a call by itself.** -/
theorem settles_advance {p : Pool} {stage : CallStage} (h : stage.Owes p) (created : Bool) :
    Settles (stage.advance created p).1 stage.starts (stage.advance created p).2 := by
  cases stage with
  | setRunning =>
      obtain ⟨⟨halive, hinjective, hfresh, honce⟩, hnull⟩ := h
      have hclean : ∀ j, p.workerThreads j ≠ .err := by simp [hnull]
      exact ⟨⟨⟨halive, hinjective, hfresh, honce⟩, rfl, hclean, fun j _ => hnull j⟩, rfl⟩
  | kthreadRun i =>
      obtain ⟨hp, hrunning, hclean, hnull⟩ := h
      have hempty : ∀ id, p.workerThreads i ≠ .thread id := by simp [hnull i le_rfl]
      cases created with
      | true => exact ⟨⟨hp.create hempty, hrunning, hclean, hnull⟩, rfl⟩
      | false => exact ⟨⟨hp.update hempty (by simp), hrunning, hclean, hnull⟩, rfl⟩
  | assignSlot i result =>
      obtain ⟨⟨halive, hinjective, hfresh, honce⟩, hrunning, hclean, hnull⟩ := h
      refine ⟨⟨⟨halive, hinjective, hfresh, honce⟩, hrunning, fun j hj => ?_, fun j hj => ?_⟩, rfl⟩
      · exact ne_of_eq_of_ne (Function.update_of_ne hj ..) (hclean j)
      · exact (Function.update_of_ne hj.ne' ..).trans (hnull j hj.le)
  | checkSlot i =>
      obtain ⟨hp, hrunning, hclean, hnull⟩ := h
      show Settles (if _ then _ else _) true (loop .kthreadRun none i)
      split
      · rename_i herr
        have hempty : ∀ id, p.workerThreads i ≠ .thread id := by simp [herr]
        have hcleared : p.Holds (Function.update p.workerThreads i .null) :=
          hp.update hempty (by simp)
        obtain ⟨halive, hinjective, hfresh, honce⟩ := hcleared
        refine settles_loop_kthreadRun ⟨halive, hinjective, hfresh, honce⟩ hrunning
          (Pool.setSlot_null_ne_err hclean) fun j hj => ?_
        exact (Function.update_of_ne hj.ne' ..).trans (hnull j hj)
      · rename_i hfine
        refine settles_loop_kthreadRun hp hrunning (fun j => ?_) hnull
        by_cases hj : j = i
        · rwa [hj]
        · exact hclean j hj
  | kthreadStop i =>
      obtain ⟨hp, hrunning, hclean, hnull⟩ := h
      simp only [advance]
      cases hslot : p.workerThreads i with
      | null =>
          refine settles_loop_kthreadStop hp hrunning hclean fun j hj => ?_
          rcases hj.lt_or_eq with hlt | rfl
          · exact hnull j hlt
          · exact hslot
      | err => exact absurd hslot (hclean i)
      | thread id =>
          have halive : id ∈ p.alive := (hp.alive_iff id).mpr ⟨i, hslot⟩
          obtain ⟨hstopped, hsame, hslots⟩ := hp.kthreadStop hslot
          simp only [if_pos halive]
          refine ⟨⟨?_, hsame.trans hrunning, fun j => ?_, fun j hj => ?_⟩, rfl⟩
          · rw [hslots]
            exact hstopped
          · rw [hslots]
            exact hclean j
          · rw [hslots]
            exact hnull j hj
  | clearSlot i =>
      obtain ⟨⟨halive, hinjective, hfresh, honce⟩, hrunning, hclean, hnull⟩ := h
      refine settles_loop_kthreadStop (p := p.setSlot i .null)
        ⟨halive, hinjective, hfresh, honce⟩ hrunning
        (Pool.setSlot_null_ne_err fun j _ => hclean j) fun j hj => ?_
      rcases hj.lt_or_eq with hlt | rfl
      · exact (Function.update_of_ne hlt.ne ..).trans (hnull j hlt)
      · exact Function.update_self ..
  | setStopped =>
      obtain ⟨⟨halive, hinjective, hfresh, honce⟩, hnull⟩ := h
      have hclean : ∀ j, p.workerThreads j ≠ .err := by simp [hnull]
      exact ⟨⟨⟨halive, hinjective, hfresh, honce⟩, hclean, fun _ => hnull⟩, fun _ => rfl⟩
  | oops => exact h.elim

/-- A call by itself keeps within the slots. -/
theorem Owes.bounded {p : Pool} {stage : CallStage} (h : stage.Owes p) :
    p.alive.card ≤ MAX_WORKERS ∧ p.stoppedTwice = false := by
  cases stage with
  | oops => exact h.elim
  | _ => exact ⟨h.1.card_le, h.1.once⟩

end CallStage

/-! ### One call at a time -/

namespace Workers

/-- No call is past its test, or one is. -/
inductive Sound : Workers → Prop
  | idle {pool : Pool} {exit : ExitPhase} {stopReturned : Bool} (h : pool.Idle)
      (hstop : stopReturned = true → pool.workerRunning = false)
      (hexit : exit ≠ .loaded → exit ≠ .stopping ∧ pool.workerRunning = false) :
      Sound ⟨pool, [], exit, stopReturned⟩
  | writing {pool : Pool} {thread : ℕ} {stage : CallStage} (h : stage.Owes pool) :
      Sound ⟨pool, [(.writer thread, stage)], .loaded, false⟩
  | exiting {pool : Pool} {stage : CallStage} (h : stage.Owes pool) (hstop : stage.starts = false) :
      Sound ⟨pool, [(.exit, stage)], .stopping, false⟩

theorem sound_load : Sound load := by
  refine .idle ⟨⟨fun id => ?_, ?_, ?_, rfl⟩, fun _ => nofun, fun _ _ => rfl⟩ (fun _ => rfl)
    (fun h => absurd rfl h)
  · simp [Pool.load]
  · simp [Pool.load]
  · simp [Pool.load]

theorem Sound.noLeak {s : Workers} (h : Sound s) : NoLeak s := by
  cases h with
  | idle h hstop hexit =>
      refine ⟨h.holds.card_le, h.holds.once, fun hs _ => h.alive_eq_empty (hstop hs), ?_⟩
      rintro rfl
      exact h.alive_eq_empty (hexit (by decide)).2
  | writing h => exact ⟨h.bounded.1, h.bounded.2, by simp, by simp⟩
  | exiting h hstop => exact ⟨h.bounded.1, h.bounded.2, by simp, by simp⟩

theorem stageOf_single (pool : Pool) (caller caller' : Caller) (stage : CallStage)
    (exit : ExitPhase) (stopReturned : Bool) :
    (Workers.mk pool [(caller, stage)] exit stopReturned).stageOf caller' =
      if caller' = caller then some stage else none := by
  by_cases h : caller' = caller
  · simp [stageOf, h]
  · have hne : (caller' == caller) = false := by simpa using h
    simp [stageOf, List.lookup_cons, hne, h]

theorem setStage_single (caller : Caller) (stage : CallStage) (next : Option CallStage) :
    setStage caller next [(caller, stage)] = (next.map fun next => (caller, next)).toList := by
  simp [setStage]

theorem settleExit_of_loaded {s : Workers} (h : s.exit ≠ .stopping) : s.settleExit = s := by
  simp [settleExit, h]

/-- Nothing has been returned by a stop while the pool is running. -/
theorem stopReturned_eq_false {pool : Pool} {stopReturned : Bool}
    (hstop : stopReturned = true → pool.workerRunning = false)
    (hrunning : pool.workerRunning = true) : stopReturned = false := by
  cases stopReturned with
  | false => rfl
  | true => simp [hstop rfl] at hrunning

theorem sound_exit {pool : Pool} {stopReturned : Bool} (h : pool.Idle)
    (hstop : stopReturned = true → pool.workerRunning = false) :
    Sound (callStop .exit ⟨pool, [], .stopping, stopReturned⟩).settleExit := by
  cases hrunning : pool.workerRunning with
  | false =>
      have hs : (callStop .exit ⟨pool, [], .stopping, stopReturned⟩).settleExit =
          ⟨pool, [], .stopped, true⟩ := by
        simp [callStop, settleExit, stageOf, hrunning]
      rw [hs]
      exact .idle h (fun _ => hrunning) fun _ => ⟨by decide, hrunning⟩
  | true =>
      have hs : (callStop .exit ⟨pool, [], .stopping, stopReturned⟩).settleExit =
          ⟨pool, [(.exit, .kthreadStop 0)], .stopping, false⟩ := by
        simp [callStop, settleExit, stageOf, setStage, hrunning,
          stopReturned_eq_false hstop hrunning]
      rw [hs]
      exact .exiting ⟨h.holds, hrunning, h.clean, by simp⟩ rfl

/-- A start by itself passes its test on a pool that is not running. -/
theorem Sound.callStart {s : Workers} (h : Sound s) (thread : ℕ)
    (halone : s.pool.workerRunning = true ∨ (s.calls = [] ∧ s.exit = .loaded)) :
    Sound (s.callStart (.writer thread)) := by
  unfold Workers.callStart
  cases h with
  | @idle pool exit stopReturned h hstop hexit =>
      cases hrunning : pool.workerRunning with
      | true =>
          simp only [hrunning, if_true]
          exact .idle h (by simp) hexit
      | false =>
          obtain rfl : exit = .loaded := by simpa [hrunning] using halone
          simp only [hrunning, Bool.false_eq_true, if_false]
          exact .writing ⟨h.holds, h.empty hrunning⟩
  | @writing pool other stage h =>
      have hrunning : pool.workerRunning = true := by simpa using halone
      simp only [hrunning, if_true]
      exact .writing h
  | @exiting pool stage h hstop =>
      have hrunning : pool.workerRunning = true := by simpa using halone
      simp only [hrunning, if_true]
      exact .exiting h hstop

/-- A stop by itself passes its test on a running pool, and returns from another. -/
theorem Sound.callStop {s : Workers} (h : Sound s) (thread : ℕ) (halone : s.calls = []) :
    Sound (s.callStop (.writer thread)) := by
  unfold Workers.callStop
  cases h with
  | @idle pool exit stopReturned h hstop hexit =>
      cases hrunning : pool.workerRunning with
      | false =>
          simp only [Bool.not_false, if_true]
          exact .idle h (fun _ => hrunning) hexit
      | true =>
          obtain rfl : exit = .loaded := by
            by_contra hloaded
            simp [(hexit hloaded).2] at hrunning
          obtain rfl := stopReturned_eq_false hstop hrunning
          simp only [Bool.not_true, Bool.false_eq_true, if_false]
          exact .writing ⟨h.holds, hrunning, h.clean, by simp⟩
  | writing h => simp at halone
  | exiting h hstop => simp at halone

theorem Sound.advance {s : Workers} (h : Sound s) (caller : Caller) (created : Bool) :
    Sound (s.advanceCall caller created).settleExit := by
  cases h with
  | @idle pool exit stopReturned h hstop hexit =>
      have hs : (advanceCall caller created ⟨pool, [], exit, stopReturned⟩) =
          ⟨pool, [], exit, stopReturned⟩ := rfl
      have hsettled : exit ≠ .stopping := by
        by_cases hloaded : exit = .loaded
        · simp [hloaded]
        · exact (hexit hloaded).1
      rw [hs, settleExit_of_loaded hsettled]
      exact .idle h hstop hexit
  | @writing pool thread stage h =>
      have hsettles := CallStage.settles_advance h created
      rw [advanceCall, stageOf_single]
      by_cases hcaller : caller = .writer thread
      · subst hcaller
        simp only [if_true, setStage_single]
        rw [settleExit_of_loaded (by simp)]
        cases hnext : (stage.advance created pool).2 with
        | none =>
            rw [hnext] at hsettles
            refine .idle hsettles.1 (fun hs => hsettles.2 ?_) (fun hloaded => absurd rfl hloaded)
            simpa using hs
        | some next =>
            rw [hnext] at hsettles
            exact .writing hsettles.1
      · rw [if_neg hcaller, settleExit_of_loaded (by simp)]
        exact .writing h
  | @exiting pool stage h hstop =>
      have hsettles := CallStage.settles_advance h created
      rw [advanceCall, stageOf_single]
      by_cases hcaller : caller = .exit
      · subst hcaller
        simp only [if_true, setStage_single]
        cases hnext : (stage.advance created pool).2 with
        | none =>
            rw [hnext] at hsettles
            have hrunning := hsettles.2 hstop
            have hs : (Workers.mk (stage.advance created pool).1 [] .stopping true).settleExit =
                ⟨(stage.advance created pool).1, [], .stopped, true⟩ := rfl
            simp only [Option.map_none, Option.toList_none, Option.isNone_none, hstop,
              Bool.not_false, Bool.and_self, Bool.or_true]
            rw [hs]
            exact .idle hsettles.1 (fun _ => hrunning) fun _ => ⟨by decide, hrunning⟩
        | some next =>
            rw [hnext] at hsettles
            have hs : (Workers.mk (stage.advance created pool).1 [(.exit, next)] .stopping
                false).settleExit =
                ⟨(stage.advance created pool).1, [(.exit, next)], .stopping, false⟩ := by
              simp [settleExit, stageOf_single]
            simp only [Option.map_some, Option.toList_some, Option.isNone_some, Bool.false_and,
              Bool.or_self]
            rw [hs]
            exact .exiting hsettles.1 (hsettles.2.trans hstop)
      · have hs : (Workers.mk pool [(.exit, stage)] .stopping false).settleExit =
            ⟨pool, [(.exit, stage)], .stopping, false⟩ := by
          simp [settleExit, stageOf_single]
        rw [if_neg hcaller, hs]
        exact .exiting h hstop

/-- **One step with the tests alone.** -/
theorem Sound.step {s : Workers} (h : Sound s) {e : WorkerEvent} (halone : TestsAlone s e) :
    Sound (s.step e) := by
  cases e with
  | advance caller created => exact h.advance caller created
  | write thread w =>
      rw [Workers.step]
      split
      · rename_i henters
        obtain ⟨hstart, hstop⟩ := halone henters
        cases hcmd : writtenCommand w with
        | none => exact h
        | some c =>
            cases c with
            | clear => exact h
            | read => exact h
            | add lock value => exact h
            | start => exact h.callStart thread (hstart hcmd)
            | stop => exact h.callStop thread (hstop hcmd)
      · exact h
  | exit =>
      rw [Workers.step]
      split
      · rename_i hloaded
        have hcalls := halone hloaded
        cases h with
        | idle h hstop hexit => exact sound_exit h hstop
        | writing h => simp at hcalls
        | exiting h hstop => simp at hcalls
      · exact h
  | removed =>
      rw [Workers.step]
      split
      · rename_i hstopped
        cases h with
        | idle h hstop hexit =>
            obtain rfl := hstopped.1
            exact .idle h hstop fun _ => ⟨by decide, (hexit (by decide)).2⟩
        | writing h => simp at hstopped
        | exiting h hstop => simp at hstopped
      · exact h
  | exited =>
      rw [Workers.step]
      split
      · rename_i hremoved
        cases h with
        | idle h hstop hexit =>
            obtain rfl := hremoved
            exact .idle h hstop fun _ => ⟨by decide, (hexit (by decide)).2⟩
        | writing h => simp at hremoved
        | exiting h hstop => simp at hremoved
      · exact h

/-- **No worker is leaked** in a schedule in which every call tests the flag while
no other call is past its own test. -/
theorem noLeak_of_testsAlone {es : List WorkerEvent} (h : StepsMeet step TestsAlone load es) :
    Throughout step NoLeak load es :=
  (h.throughout (I := Sound) (fun _ _ hs halone => hs.step halone) sound_load).imp
    fun _ hs => hs.noLeak

/-- The write of a command. -/
def commandWrite (text : String) : UserWrite := ⟨ascii text.toList, false⟩

/-- One start and one stop, in full, and the unloading of the module. -/
def wholeLife : List WorkerEvent :=
  [.write 0 (commandWrite "start")] ++ List.replicate 16 (.advance (.writer 0) true) ++
    [.write 1 (commandWrite "start"), .write 1 (commandWrite "stop")] ++
    List.replicate 11 (.advance (.writer 1) true) ++ [.exit, .removed, .exited]

theorem noLeak_wholeLife : Throughout step NoLeak load wholeLife :=
  noLeak_of_testsAlone (by decide +kernel)

/-- Two starts that both find the flag clear. The slots of the first are
overwritten, and six workers run. -/
theorem leak_of_two_starts :
    ¬ Throughout step NoLeak load
      ([.write 0 (commandWrite "start"), .write 1 (commandWrite "start")] ++
        List.replicate 16 (.advance (.writer 0) true) ++
        List.replicate 2 (.advance (.writer 1) true)) := by
  intro h
  have hbound := h.last.bounded
  revert hbound
  decide +kernel

end Workers

end KernelModules.ConcurrencyControl
