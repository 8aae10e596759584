import KernelModules.ConcurrencyControl.Locks
import KernelModules.ConcurrencyControl.WorkerLoop
import KernelModules.Lib.Tickets
import Mathlib.Algebra.BigOperators.Group.Finset.Basic

/-!
The values that the workers add.

The worker threads take them from `next_value` with `next_value++`, outside of any lock:
a read of the variable and later a write. Then they call the addition, which may give up,
wait for its lock, and link the value. `clear` may come in between. As long as no section
evicts from an empty list, which a `clear` under its own lock can make of a full one, the
values handed out are different from each other exactly when no worker writes while
another one is between its read and its write and there have been no more than there are
values of an `int`; and no value is in the list more often than it was handed out.
-/

namespace KernelModules.ConcurrencyControl

open Lib

variable {K : Kernel} {k : ℕ}

/-- Where a worker is in its iteration. -/
inductive WorkerStage
  | idle
  /-- An addition has been chosen. -/
  | chosen (lock : Lock)
  /-- `next_value` has been read and not written back. -/
  | loaded (lock : Lock) (value : CInt)
  /-- The addition is called with its value. -/
  | called (lock : Lock) (value : CInt)
  /-- It is in its critical section. -/
  | inside
  deriving DecidableEq

/-- What a worker has read of `next_value` and not written back. -/
def WorkerStage.held : WorkerStage → Option CInt
  | .loaded _ value => some value
  | .idle | .chosen _ | .called .. | .inside => none

/-- The lock of the addition that an operation stands for. -/
def additionOf (operation : ℤ) : Option Lock :=
  match operation with
  | 0 => some .spinlock
  | 1 => some .mutex
  | 3 => some .rwlock
  | _ => none

/-- The workers, with the threads of `Threads`: worker `i` is thread `i`, and those from
`k` on clear the data. `issued` is seen from outside. -/
structure WorkerPool (K : Kernel) (k : ℕ) where
  threads : Threads K
  stage : Fin k → WorkerStage
  issued : List CInt

inductive PoolEvent (k : ℕ)
  /-- A worker draws its operation. -/
  | draw (worker : Fin k) (random : CInt)
  /-- A worker takes its next step; an addition that is called may give up. -/
  | advance (worker : Fin k) (alloc interrupted : Bool)
  /-- Another thread calls `clear_all_data`. -/
  | clear (thread : ℕ)
  | advanceClear (thread : ℕ)

namespace WorkerPool

def load (K : Kernel) (k : ℕ) : WorkerPool K k := ⟨.load K, fun _ => .idle, []⟩

def goto (s : WorkerPool K k) (worker : Fin k) (stage : WorkerStage) : WorkerPool K k :=
  { s with stage := Function.update s.stage worker stage }

/-- `next_value = value + 1`, for a value that was read before. -/
def storeNext (value : CInt) (s : WorkerPool K k) : WorkerPool K k :=
  { s with
    threads := { s.threads with demo := { s.threads.demo with nextValue := value + 1 } }
    issued := s.issued ++ [value] }

/-- The addition gives up before its section. -/
def GivesUp (lock : Lock) (alloc interrupted : Bool) : Bool :=
  !alloc || (lock = .mutex && interrupted)

def advance (worker : Fin k) (alloc interrupted : Bool) (s : WorkerPool K k) : WorkerPool K k :=
  match s.stage worker with
  | .idle => s
  | .chosen lock => s.goto worker (.loaded lock s.threads.demo.nextValue)
  | .loaded lock value => (s.storeNext value).goto worker (.called lock value)
  | .called lock value =>
      if GivesUp lock alloc interrupted then s.goto worker .idle
      else if s.threads.inside worker = none ∧ s.threads.holder lock = none then
        { s with threads := s.threads.step (.acquire worker (.add lock value)) }.goto worker .inside
      else s
  | .inside =>
      { s with threads := s.threads.step (.advance worker) }.goto worker
        (if (s.threads.step (.advance worker)).inside worker = none then .idle else .inside)

/-- A draw that is no addition leaves the worker where it is: a read does not touch
`next_value` or the values of the list. -/
def step (s : WorkerPool K k) : PoolEvent k → WorkerPool K k
  | .draw worker random =>
      match s.stage worker, additionOf (operationOf random) with
      | .idle, some lock => s.goto worker (.chosen lock)
      | _, _ => s
  | .advance worker alloc interrupted => s.advance worker alloc interrupted
  | .clear thread => { s with threads := s.threads.step (.acquire (k + thread) .clear) }
  | .advanceClear thread => { s with threads := s.threads.step (.advance (k + thread)) }

/-- When a worker writes `next_value`, no other one is between its read and its write. -/
def WritesAlone (s : WorkerPool K k) : PoolEvent k → Prop
  | .advance worker _ _ =>
      (s.stage worker).held ≠ none → ∀ other, (s.stage other).held ≠ none → other = worker
  | _ => True

instance (s : WorkerPool K k) : ∀ e, Decidable (s.WritesAlone e)
  | .advance worker _ _ =>
      inferInstanceAs (Decidable ((s.stage worker).held ≠ none →
        ∀ other, (s.stage other).held ≠ none → other = worker))
  | .draw .. | .clear _ | .advanceClear _ => .isTrue trivial

end WorkerPool

/-- The eviction of a section finds an item to evict. -/
def Stage.FindsOldest (s : ConcurrencyDemo K) : Stage → Prop
  | .evictOldest .. => s.dataCount ≥ MAX_DATA_ITEMS → s.dataList ≠ []
  | .linkData .. | .countData _ | .unlinkAll | .zeroCounts | .release _ => True

instance (s : ConcurrencyDemo K) : (stage : Stage) → Decidable (stage.FindsOldest s)
  | .evictOldest .. => inferInstanceAs (Decidable (s.dataCount ≥ MAX_DATA_ITEMS → s.dataList ≠ []))
  | .linkData .. | .countData _ | .unlinkAll | .zeroCounts | .release _ => .isTrue trivial

/-- No worker evicts from an empty list. -/
def WorkerPool.Finds (s : WorkerPool K k) : PoolEvent k → Prop
  | .advance worker _ _ =>
      ∀ stage ∈ s.threads.inside worker, stage.FindsOldest s.threads.demo
  | .draw .. | .clear _ | .advanceClear _ => True

instance (s : WorkerPool K k) : ∀ e, Decidable (s.Finds e)
  | .advance worker _ _ =>
      inferInstanceAs (Decidable (∀ stage ∈ s.threads.inside worker,
        stage.FindsOldest s.threads.demo))
  | .draw .. | .clear _ | .advanceClear _ => .isTrue trivial

/-! ### The values handed out -/

namespace WorkerPool

/-- What an addition does with the value it is handed. -/
theorem workerIteration_eq (s : ConcurrencyDemo K) (d : Draw) {lock : Lock}
    (hlock : additionOf (operationOf d.random) = some lock) :
    workerIteration s d =
      if GivesUp lock d.alloc d.interrupted then s.handOut
      else addData lock s.nextValue s.handOut := by
  unfold additionOf at hlock
  rw [workerIteration]
  split at hlock <;> cases hlock
  · rename_i hop
    rw [hop]
    cases halloc : d.alloc <;> simp [GivesUp, spinlockAddData]
  · rename_i hop
    rw [hop]
    cases halloc : d.alloc <;> cases hwait : d.interrupted <;> simp [GivesUp, mutexAddData]
  · rename_i hop
    rw [hop]
    cases halloc : d.alloc <;> simp [GivesUp, rwlockWriteData]

/-- An iteration that is left alone is the body of the loop. -/
theorem run_iteration (s : WorkerPool K k) (worker : Fin k) (d : Draw) {lock : Lock}
    (hlock : additionOf (operationOf d.random) = some lock) (hstage : s.stage worker = .idle)
    (hinside : s.threads.inside worker = none) (hholder : s.threads.holder lock = none) :
    (run step s (.draw worker d.random ::
        List.replicate 7 (.advance worker d.alloc d.interrupted))).threads.demo =
      workerIteration s.threads.demo d := by
  rw [workerIteration_eq _ d hlock]
  by_cases hgives : GivesUp lock d.alloc d.interrupted = true
  · simp [step, advance, goto, storeNext, hstage, hlock, hgives, List.replicate,
      ConcurrencyDemo.handOut]
  · simp [step, advance, goto, storeNext, hstage, hlock, hgives, List.replicate, hinside, hholder,
      Threads.step, Work.lock, Work.enter, Stage.next, Stage.act, addData,
      ConcurrencyDemo.handOut]

end WorkerPool

/-! ### The values in the list -/

/-- The value that a section is going to link. -/
def Stage.value : Stage → Option CInt
  | .evictOldest _ value | .linkData _ value => some value
  | .countData _ | .unlinkAll | .zeroCounts | .release _ => none

theorem Stage.value_next {stage next : Stage} (hnone : stage.value = none)
    (h : stage.next = some next) : next.value = none := by
  cases stage <;> cases h <;> first | rfl | cases hnone

/-- The value that a worker is going to add. -/
def WorkerStage.pending (inner : Option Stage) : WorkerStage → Option CInt
  | .called _ value => some value
  | .inside => inner.bind Stage.value
  | .idle | .chosen _ | .loaded .. => none

/-- How often a value is in the list. -/
def ConcurrencyDemo.occurrences (s : ConcurrencyDemo K) (value : CInt) : ℕ :=
  (s.dataList.map (·.value)).count value

/-- Whether a value is the one pending. -/
def hit (pending : Option CInt) (value : CInt) : ℕ := if pending = some value then 1 else 0

theorem dataList_evictOldest_sublist {s : ConcurrencyDemo K}
    (hfinds : s.dataCount ≥ MAX_DATA_ITEMS → s.dataList ≠ []) :
    (evictOldest s).dataList.Sublist s.dataList := by
  unfold evictOldest
  split
  · rename_i hfull
    obtain ⟨oldest, rest, hlist⟩ := List.exists_cons_of_ne_nil (hfinds hfull)
    rw [hlist]
    exact List.sublist_cons_self oldest rest
  · exact List.Sublist.refl _

/-- A section without a value evicts nothing. -/
theorem Stage.findsOldest_of_value {stage : Stage} (h : stage.value = none)
    (s : ConcurrencyDemo K) : stage.FindsOldest s := by
  cases stage with
  | evictOldest => cases h
  | linkData | countData | unlinkAll | zeroCounts | release => trivial

/-- A section links the value it has, once. -/
theorem Stage.occurrences_act {stage : Stage} {s : ConcurrencyDemo K}
    (hfinds : stage.FindsOldest s) (value : CInt) :
    (stage.act s).occurrences value + hit (stage.next.bind Stage.value) value ≤
      s.occurrences value + hit stage.value value := by
  cases stage with
  | evictOldest lock v =>
      have hle := ((dataList_evictOldest_sublist hfinds).map (·.value)).count_le value
      exact Nat.add_le_add_right hle _
  | linkData lock v =>
      have hlink : (ConcurrencyControl.linkData v s).occurrences value =
          s.occurrences value + hit (some v) value := by
        simp [ConcurrencyDemo.occurrences, ConcurrencyControl.linkData, hit, List.count_singleton]
      exact hlink.le
  | countData => exact le_refl _
  | unlinkAll => exact Nat.add_le_add_right (Nat.zero_le _) _
  | zeroCounts => exact le_refl _
  | release => exact le_refl _

namespace WorkerPool

/-- What each worker is going to add. -/
def pendings (s : WorkerPool K k) (worker : Fin k) : Option CInt :=
  (s.stage worker).pending (s.threads.inside worker)

/-- No value is in the list, or on its way there, more often than it was handed out. -/
structure Bounded (s : WorkerPool K k) : Prop where
  values : ∀ value, s.threads.demo.occurrences value + ∑ worker, hit (s.pendings worker) value ≤
    s.issued.count value
  others : ∀ thread stage, s.threads.inside (k + thread) = some stage → stage.value = none

variable {s s' : WorkerPool K k} {worker : Fin k}

/-- Where one worker alone moves, its part of the sum changes. -/
theorem sum_pendings (hstage : ∀ other, other ≠ worker → s'.stage other = s.stage other)
    (hinside : ∀ thread, thread ≠ worker.val → s'.threads.inside thread = s.threads.inside thread)
    (value : CInt) :
    ∑ other, hit (s'.pendings other) value + hit (s.pendings worker) value =
      ∑ other, hit (s.pendings other) value + hit (s'.pendings worker) value := by
  have hrest : ∑ other ∈ Finset.univ.erase worker, hit (s'.pendings other) value =
      ∑ other ∈ Finset.univ.erase worker, hit (s.pendings other) value := by
    refine Finset.sum_congr rfl fun other hother => ?_
    have hne : other ≠ worker := Finset.ne_of_mem_erase hother
    rw [pendings, pendings, hstage other hne, hinside other fun h => hne (Fin.ext h)]
  rw [← Finset.add_sum_erase _ _ (Finset.mem_univ worker), hrest,
    ← Finset.add_sum_erase _ (fun other => hit (s.pendings other) value) (Finset.mem_univ worker)]
  omega

theorem Bounded.of_worker (h : s.Bounded) (worker : Fin k)
    (hstage : ∀ other, other ≠ worker → s'.stage other = s.stage other)
    (hinside : ∀ thread, thread ≠ worker.val → s'.threads.inside thread = s.threads.inside thread)
    (hvalues : ∀ value,
      s'.threads.demo.occurrences value + hit (s'.pendings worker) value +
          s.issued.count value ≤
        s.threads.demo.occurrences value + hit (s.pendings worker) value +
          s'.issued.count value) : s'.Bounded := by
  refine ⟨fun value => ?_, fun thread stage hthread => ?_⟩
  · have hsum := sum_pendings hstage hinside value
    have hbefore := h.values value
    have hchange := hvalues value
    omega
  · have hne : k + thread ≠ worker.val := by
      have hlt := worker.isLt
      omega
    rw [hinside _ hne] at hthread
    exact h.others thread stage hthread

/-- Where the stage of one worker alone changes. -/
theorem Bounded.goto (h : s.Bounded) {stage : WorkerStage}
    (hpending : ∀ value, hit (stage.pending (s.threads.inside worker)) value ≤
      hit (s.pendings worker) value) : (s.goto worker stage).Bounded := by
  refine h.of_worker worker (fun other hne => Function.update_of_ne hne ..)
    (fun _ _ => rfl) fun value => ?_
  have hnew : (s.goto worker stage).pendings worker = stage.pending (s.threads.inside worker) := by
    simp [pendings, WorkerPool.goto]
  have hle := hpending value
  rw [hnew]
  exact Nat.add_le_add_right (Nat.add_le_add_left hle _) _

/-- A thread that clears. -/
theorem Bounded.of_other (h : s.Bounded) (thread : ℕ) {threads : Threads K}
    (hinside : ∀ t, t ≠ k + thread → threads.inside t = s.threads.inside t)
    (hvalue : ∀ stage, threads.inside (k + thread) = some stage → stage.value = none)
    (hvalues : ∀ value, threads.demo.occurrences value ≤ s.threads.demo.occurrences value) :
    Bounded { s with threads } := by
  have hpendings : pendings { s with threads } = s.pendings := by
    funext worker
    have hne : worker.val ≠ k + thread := by
      have hlt := worker.isLt
      omega
    rw [pendings, hinside _ hne]
    rfl
  refine ⟨fun value => ?_, fun thread' stage hthread => ?_⟩
  · rw [hpendings]
    exact (Nat.add_le_add_right (hvalues value) _).trans (h.values value)
  · by_cases heq : thread' = thread
    · subst heq
      exact hvalue stage hthread
    · refine h.others thread' stage ?_
      rw [← hinside (k + thread') (by omega)]
      exact hthread

theorem hit_none (value : CInt) : hit none value = 0 := rfl

/-- A section advances. -/
theorem Bounded.inside (h : s.Bounded) (hworker : s.stage worker = .inside)
    (hfinds : ∀ stage ∈ s.threads.inside worker, stage.FindsOldest s.threads.demo) :
    Bounded ({ s with threads := s.threads.step (.advance worker) }.goto worker
      (if (s.threads.step (.advance worker)).inside worker = none then .idle else .inside)) := by
  have hpending : s.pendings worker = (s.threads.inside worker).bind Stage.value := by
    rw [pendings, hworker]
    rfl
  rw [Threads.step]
  cases hinside : s.threads.inside worker with
  | none =>
      simp only [hinside]
      exact h.goto fun value => by simp [WorkerStage.pending, hit_none]
  | some stage =>
      rw [hinside] at hpending
      refine h.of_worker worker (fun other hne => Function.update_of_ne hne ..)
        (fun thread hne => Function.update_of_ne hne ..) fun value => ?_
      have hact := Stage.occurrences_act (hfinds stage hinside) value
      rw [hpending, Option.bind_some]
      refine Nat.add_le_add_right (le_trans (Nat.add_le_add_left (le_of_eq ?_) _) hact) _
      simp only [pendings, WorkerPool.goto, Function.update_self]
      cases stage.next with
      | none => rfl
      | some next => rfl

/-- **One step.** -/
theorem Bounded.step (h : s.Bounded) {e : PoolEvent k} (hfinds : s.Finds e) :
    (s.step e).Bounded := by
  cases e with
  | draw worker random =>
      rw [WorkerPool.step]
      split
      · exact h.goto fun value => Nat.zero_le _
      · exact h
  | clear thread =>
      rw [WorkerPool.step, Threads.step]
      split
      · refine h.of_other thread (fun t ht => Function.update_of_ne ht ..) (fun stage hstage => ?_)
          fun value => le_refl _
        simp only [Function.update_self, Option.some.injEq] at hstage
        rw [← hstage]
        rfl
      · exact h
  | advanceClear thread =>
      rw [WorkerPool.step, Threads.step]
      split
      · exact h
      · rename_i stage hinside
        refine h.of_other thread (fun t ht => Function.update_of_ne ht ..)
          (fun stage' hstage' => ?_)
          fun value => ?_
        · simp only [Function.update_self] at hstage'
          exact Stage.value_next (h.others thread stage hinside) hstage'
        · have hnone := h.others thread stage hinside
          have hact := Stage.occurrences_act (Stage.findsOldest_of_value hnone s.threads.demo) value
          rw [hnone, hit_none, Nat.add_zero] at hact
          exact le_trans (Nat.le_add_right ..) hact
  | advance worker alloc interrupted =>
      rw [WorkerPool.step, advance]
      cases hstage : s.stage worker with
      | idle => exact h
      | chosen lock => exact h.goto fun value => Nat.zero_le _
      | loaded lock value =>
          have hpending : s.pendings worker = none := by
            rw [pendings, hstage]
            rfl
          have hnew : ((s.storeNext value).goto worker (.called lock value)).pendings worker =
              some value := by
            simp [pendings, WorkerPool.goto, WorkerStage.pending]
          refine h.of_worker worker (fun other hne => Function.update_of_ne hne ..)
            (fun _ _ => rfl) fun value' => ?_
          rw [hpending, hnew, hit_none]
          show s.threads.demo.occurrences value' + hit (some value) value' +
              s.issued.count value' ≤
            s.threads.demo.occurrences value' + 0 + (s.issued ++ [value]).count value'
          have hdrawn : (s.issued ++ [value]).count value' =
              s.issued.count value' + hit (some value) value' := by
            simp [hit, List.count_singleton]
          omega
      | called lock value =>
          have hpending : s.pendings worker = some value := by
            rw [pendings, hstage]
            rfl
          dsimp only
          split
          · exact h.goto fun value' => Nat.zero_le _
          · split
            · rename_i hfree
              have hholder : s.threads.holder (Work.add lock value).lock = none := hfree.2
              rw [Threads.step_acquire hfree.1 hholder]
              refine h.of_worker worker (fun other hne => Function.update_of_ne hne ..)
                (fun thread hne => Function.update_of_ne hne ..) fun value' => ?_
              rw [hpending]
              refine le_of_eq ?_
              simp [pendings, WorkerPool.goto, WorkerStage.pending, Work.enter, Stage.value]
            · exact h
      | inside => exact h.inside hstage hfinds

end WorkerPool

end KernelModules.ConcurrencyControl
