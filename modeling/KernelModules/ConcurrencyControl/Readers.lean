import KernelModules.ConcurrencyControl.Store
import KernelModules.Lib.Increments
import Mathlib.Data.Fintype.Fin

/-!
Readers that share `data_rwlock`.

The lock admits every reader at once, so the list stays as it is while they are
inside; but each of them increments the access counts that the others increment
too. An increment is a read and a write, and what was written between the two is
lost.
-/

namespace KernelModules.ConcurrencyControl

open Lib

variable {K : Kernel}

/-- Where a thread is in `rwlock_read_data`. -/
inductive ReadStage (K : Kernel)
  /-- Before `read_lock_irqsave`. -/
  | outside
  /-- At the increment of the item in place `pos`, or past the last item at that of
  `rwlock_read_ops`, with what was read and not written yet. -/
  | counting (pos : ℕ) (read : Option (ULong K))
  /-- Before `read_unlock_irqrestore`. -/
  | leaving (count : ℕ)
  | returned (count : ℤ)
  deriving DecidableEq

/-- The shared data and `k` threads that call `rwlock_read_data`. -/
structure Readers (K : Kernel) (k : ℕ) where
  demo : ConcurrencyDemo K
  stage : Fin k → ReadStage K

/-- What the increment in place `pos` reads. -/
def ConcurrencyDemo.counter (s : ConcurrencyDemo K) (pos : ℕ) : ULong K :=
  match s.dataList[pos]? with
  | some data => data.accessCount
  | none => s.stats.rwlockReadOps

/-- What it writes. -/
def ConcurrencyDemo.setCounter (s : ConcurrencyDemo K) (pos : ℕ) (value : ULong K) :
    ConcurrencyDemo K :=
  if pos < s.dataList.length then
    { s with dataList := s.dataList.modify pos fun data => { data with accessCount := value } }
  else { s with stats := { s.stats with rwlockReadOps := value } }

namespace Readers

variable {k : ℕ}

/-- Nobody has called yet. -/
def start (k : ℕ) (s : ConcurrencyDemo K) : Readers K k := ⟨s, fun _ => .outside⟩

def goto (s : Readers K k) (thread : Fin k) (stage : ReadStage K) : Readers K k :=
  { s with stage := Function.update s.stage thread stage }

/-- The next step of a thread. -/
def step (s : Readers K k) (thread : Fin k) : Readers K k :=
  match s.stage thread with
  | .outside => s.goto thread (.counting 0 none)
  | .counting pos none => s.goto thread (.counting pos (some (s.demo.counter pos)))
  | .counting pos (some read) =>
      { s with demo := s.demo.setCounter pos (read + 1) }.goto thread
        (if pos < s.demo.dataList.length then .counting (pos + 1) none else .leaving pos)
  | .leaving count => s.goto thread (.returned count)
  | .returned _ => s

/-- All readers have returned. -/
def Finished (s : Readers K k) : Prop := ∀ thread, ∃ count, s.stage thread = .returned count

/-- The thread is between its read and its write in place `pos`. -/
def Holds (s : Readers K k) (thread : Fin k) (pos : ℕ) : Prop :=
  ∃ read, s.stage thread = .counting pos (some read)

/-- When a thread writes a counter, no other is between its read and its write of
the same counter. -/
def WritesAlone (s : Readers K k) (thread : Fin k) : Prop :=
  ∀ pos, s.Holds thread pos → ∀ other, s.Holds other pos → other = thread

end Readers

/-! ### What a stage stands for -/

/-- The increments from place `pos` on, of a list of `n` items, and the unlock. -/
def increments (n pos : ℕ) : List (Option ℕ) := (List.range' pos (n + 1 - pos)).map some ++ [none]

theorem increments_of_le {n pos : ℕ} (h : pos ≤ n) :
    increments n pos = some pos :: increments n (pos + 1) := by
  have hlen : n + 1 - pos = (n + 1 - (pos + 1)) + 1 := by omega
  rw [increments, hlen, List.range'_succ]
  rfl

theorem increments_of_lt {n pos : ℕ} (h : n < pos) : increments n pos = [none] := by
  have hlen : n + 1 - pos = 0 := by omega
  rw [increments, hlen]
  rfl

/-- What a thread in this stage still has to do. -/
def ReadStage.todo (n : ℕ) : ReadStage K → List (Option ℕ)
  | .outside => none :: increments n 0
  | .counting pos none => increments n pos
  | .counting pos (some _) => increments n (pos + 1)
  | .leaving _ => [none]
  | .returned _ => []

def ReadStage.held : ReadStage K → Option (ℕ × ULong K)
  | .counting pos (some read) => some (pos, read)
  | .outside | .counting _ none | .leaving _ | .returned _ => none

/-- The stages that a call over `n` items goes through. -/
def ReadStage.Within (n : ℕ) : ReadStage K → Prop
  | .counting pos _ => pos ≤ n
  | .leaving count => count = n
  | .returned count => count = n
  | .outside => True

namespace Readers

variable {k : ℕ}

/-! ### The counters -/

theorem length_setCounter (s : ConcurrencyDemo K) (pos : ℕ) (value : ULong K) :
    (s.setCounter pos value).dataList.length = s.dataList.length := by
  unfold ConcurrencyDemo.setCounter
  split
  · exact List.length_modify ..
  · rfl

theorem counter_of_lt {s : ConcurrencyDemo K} {i : ℕ} (h : i < s.dataList.length) :
    s.counter i = s.dataList[i].accessCount := by
  rw [ConcurrencyDemo.counter, List.getElem?_eq_getElem h]

theorem counter_length (s : ConcurrencyDemo K) :
    s.counter s.dataList.length = s.stats.rwlockReadOps := by
  rw [ConcurrencyDemo.counter, List.getElem?_eq_none le_rfl]

theorem counter_setCounter {s : ConcurrencyDemo K} {pos i : ℕ} (hpos : pos ≤ s.dataList.length)
    (hi : i ≤ s.dataList.length) (value : ULong K) :
    (s.setCounter pos value).counter i = if i = pos then value else s.counter i := by
  by_cases hlt : pos < s.dataList.length
  · have hlist : (s.setCounter pos value).dataList[i]? =
        (fun data => if pos = i then { data with accessCount := value } else data) <$>
          s.dataList[i]? := by
      rw [ConcurrencyDemo.setCounter, if_pos hlt]
      exact List.getElem?_modify ..
    have hstats : (s.setCounter pos value).stats = s.stats := by
      rw [ConcurrencyDemo.setCounter, if_pos hlt]
    rw [ConcurrencyDemo.counter, hlist, hstats, ConcurrencyDemo.counter]
    by_cases hip : i = pos
    · subst hip
      simp [List.getElem?_eq_getElem hlt]
    · simp only [Ne.symm hip, if_neg hip, if_false]
      cases s.dataList[i]? <;> rfl
  · obtain rfl : pos = s.dataList.length := by omega
    have hset : s.setCounter s.dataList.length value =
        { s with stats := { s.stats with rwlockReadOps := value } } := by
      rw [ConcurrencyDemo.setCounter, if_neg hlt]
    rw [hset, ConcurrencyDemo.counter, ConcurrencyDemo.counter]
    by_cases hip : i = s.dataList.length
    · subst hip
      simp
    · have hilt : i < s.dataList.length := by omega
      rw [if_neg hip, List.getElem?_eq_getElem hilt]

/-! ### The readers as threads that increment counters -/

/-- The list has `n` items, and so it has for every reader. -/
def Over (n : ℕ) (s : Readers K k) : Prop :=
  s.demo.dataList.length = n ∧ ∀ thread, (s.stage thread).Within n

/-- The counters in the places up to `n`, and what each reader does to them. -/
def shared (n : ℕ) (s : Readers K k) : Shared (Fin k) ℕ (ULong K) where
  mem i := if i ≤ n then s.demo.counter i else 0
  todo thread := (s.stage thread).todo n
  held thread := (s.stage thread).held

theorem over_start (s : ConcurrencyDemo K) : (start k s).Over s.dataList.length :=
  ⟨rfl, fun _ => trivial⟩

theorem Over.goto {n : ℕ} {s : Readers K k} (h : s.Over n) {thread : Fin k} {stage : ReadStage K}
    (hstage : stage.Within n) : (s.goto thread stage).Over n := by
  refine ⟨h.1, fun u => ?_⟩
  by_cases hu : u = thread
  · subst hu
    simpa [Readers.goto] using hstage
  · simpa [Readers.goto, hu] using h.2 u

theorem Over.step {n : ℕ} {s : Readers K k} (h : s.Over n) (thread : Fin k) :
    (s.step thread).Over n := by
  have hthread := h.2 thread
  rcases hstage : s.stage thread with _ | ⟨pos, _ | read⟩ | count | count
  all_goals simp only [Readers.step, hstage]
  all_goals simp only [hstage, ReadStage.Within] at hthread
  · exact h.goto (Nat.zero_le n)
  · exact h.goto hthread
  · have hset : Over n { s with demo := s.demo.setCounter pos (read + 1) } :=
      ⟨(length_setCounter ..).trans h.1, h.2⟩
    apply hset.goto
    rw [h.1]
    split
    · rename_i hlt
      exact hlt
    · rename_i hlt
      show pos = n
      omega
  · exact h.goto (congrArg Nat.cast hthread)
  · exact h

theorem shared_goto (n : ℕ) (s : Readers K k) (thread : Fin k) (stage : ReadStage K) :
    (s.goto thread stage).shared n =
      { s.shared n with
        todo := Function.update (s.shared n).todo thread (stage.todo n)
        held := Function.update (s.shared n).held thread stage.held } := by
  have htodo : (fun u => ((s.goto thread stage).stage u).todo n) =
      Function.update (fun u => (s.stage u).todo n) thread (stage.todo n) :=
    Function.comp_update (ReadStage.todo n) s.stage thread stage
  have hheld : (fun u => ((s.goto thread stage).stage u).held) =
      Function.update (fun u => (s.stage u).held) thread stage.held :=
    Function.comp_update ReadStage.held s.stage thread stage
  simp only [shared, htodo, hheld]
  rfl

/-- What a write does to the counters. -/
theorem shared_setCounter {n : ℕ} {s : Readers K k} (h : s.demo.dataList.length = n) {pos : ℕ}
    (hpos : pos ≤ n) (value : ULong K) :
    shared n { s with demo := s.demo.setCounter pos value } =
      { s.shared n with mem := Function.update (s.shared n).mem pos value } := by
  subst h
  have hmem : (shared s.demo.dataList.length
        { s with demo := s.demo.setCounter pos value }).mem =
      Function.update (s.shared s.demo.dataList.length).mem pos value := by
    funext i
    by_cases hi : i ≤ s.demo.dataList.length
    · have hcounter := counter_setCounter hpos hi value
      rw [Function.update_apply]
      refine (if_pos hi).trans (hcounter.trans ?_)
      exact if_congr Iff.rfl rfl (if_pos hi).symm
    · have hip : i ≠ pos := by omega
      rw [Function.update_of_ne hip]
      exact (if_neg hi).trans (if_neg hi).symm
  rw [← hmem]
  rfl

/-- Where a thread goes after its write. -/
theorem todo_after_write {n pos : ℕ} (h : pos ≤ n) :
    (if pos < n then .counting (pos + 1) none else .leaving pos : ReadStage K).todo n =
        increments n (pos + 1) ∧
      (if pos < n then .counting (pos + 1) none else .leaving pos : ReadStage K).held = none := by
  split
  · exact ⟨rfl, rfl⟩
  · exact ⟨(increments_of_lt (by omega)).symm, rfl⟩

/-- **One step.** -/
theorem shared_step {n : ℕ} {s : Readers K k} (h : s.Over n) (thread : Fin k) :
    (s.step thread).shared n = (s.shared n).step (· + 1) thread := by
  have hthread := h.2 thread
  have htodo : (s.shared n).todo thread = (s.stage thread).todo n := rfl
  have hheld : (s.shared n).held thread = (s.stage thread).held := rfl
  rcases hstage : s.stage thread with _ | ⟨pos, _ | read⟩ | count | count
  all_goals simp only [Readers.step, hstage]
  all_goals simp only [hstage, ReadStage.Within] at hthread
  all_goals rw [hstage] at htodo hheld
  · have hsame : Function.update (s.shared n).held thread none = (s.shared n).held :=
      Function.update_eq_self_iff.mpr hheld.symm
    rw [Shared.step_skip _ hheld htodo, shared_goto]
    simp only [ReadStage.todo, ReadStage.held, hsame]
  · rw [ReadStage.todo, increments_of_le hthread] at htodo
    have hmem : (s.shared n).mem pos = s.demo.counter pos := if_pos hthread
    rw [Shared.step_read _ hheld htodo, shared_goto, hmem]
    rfl
  · obtain ⟨hnextTodo, hnextHeld⟩ := todo_after_write (K := K) hthread
    have hsame : Function.update (s.shared n).todo thread (increments n (pos + 1)) =
        (s.shared n).todo := Function.update_eq_self_iff.mpr htodo.symm
    rw [Shared.step_write _ hheld, shared_goto, shared_setCounter h.1 hthread, h.1, hnextTodo,
      hnextHeld, hsame]
  · have hsame : Function.update (s.shared n).held thread none = (s.shared n).held :=
      Function.update_eq_self_iff.mpr hheld.symm
    rw [Shared.step_skip _ hheld htodo, shared_goto]
    simp only [ReadStage.todo, ReadStage.held, hsame]
  · rw [Shared.step_done _ hheld htodo]

theorem simulation_shared (n : ℕ) :
    Simulation (step (K := K) (k := k)) (Shared.step (· + 1)) (Over n) (shared n) :=
  ⟨fun _ thread h => h.step thread, fun _ thread h => shared_step h thread⟩

theorem holds_shared (n : ℕ) (s : Readers K k) (thread : Fin k) (pos : ℕ) :
    (s.shared n).Holds thread pos ↔ s.Holds thread pos := by
  show (∃ v, (s.stage thread).held = some (pos, v)) ↔ ∃ v, s.stage thread = .counting pos (some v)
  rcases s.stage thread with _ | ⟨place, _ | read⟩ | count | count <;> simp [ReadStage.held]

theorem holds_iff {s : Readers K k} {thread : Fin k} {pos : ℕ} :
    s.Holds thread pos ↔ (s.stage thread).held.map Prod.fst = some pos := by
  rw [← holds_shared 0, Shared.Holds, Option.map_eq_some_iff]
  constructor
  · rintro ⟨v, hheld⟩
    exact ⟨(pos, v), hheld, rfl⟩
  · rintro ⟨⟨_, v⟩, hheld, rfl⟩
    exact ⟨v, hheld⟩

instance (s : Readers K k) (thread : Fin k) : Decidable (s.WritesAlone thread) :=
  decidable_of_iff (∀ other, (s.stage thread).held.isSome →
      (s.stage other).held.map Prod.fst = (s.stage thread).held.map Prod.fst → other = thread) <| by
    simp only [WritesAlone, holds_iff]
    constructor
    · intro h pos hthread other hother
      refine h other ?_ (hother.trans hthread.symm)
      rw [← Option.isSome_map, hthread]
      rfl
    · intro h other hsome hsame
      obtain ⟨⟨pos, v⟩, hheld⟩ := Option.isSome_iff_exists.mp hsome
      rw [hheld] at hsame h
      exact h pos rfl other hsame

theorem writesAlone_shared (n : ℕ) (s : Readers K k) (thread : Fin k) :
    (s.shared n).WritesAlone thread ↔ s.WritesAlone thread := by
  simp only [Shared.WritesAlone, WritesAlone, holds_shared]

theorem Finished.shared {s : Readers K k} (h : s.Finished) (n : ℕ) : (s.shared n).Finished := by
  intro thread
  obtain ⟨count, hstage⟩ := h thread
  show (s.stage thread).todo n = [] ∧ (s.stage thread).held = none
  rw [hstage]
  exact ⟨rfl, rfl⟩

/-- Every reader increments every counter once. -/
theorem total_start (s : ConcurrencyDemo K) (pos : ℕ) :
    ((start k s).shared s.dataList.length).total pos =
      if pos ≤ s.dataList.length then k else 0 := by
  have hcount : (increments s.dataList.length 0).count (some pos) =
      if pos ≤ s.dataList.length then 1 else 0 := by
    have hnodup : (List.range' 0 (s.dataList.length + 1)).Nodup := List.nodup_range'
    have hmem : pos ∈ List.range' 0 (s.dataList.length + 1) ↔ pos ≤ s.dataList.length := by
      rw [List.mem_range'_1]
      omega
    rw [increments, List.count_append, List.count_map_of_injective _ _ (Option.some_injective ℕ),
      Nat.sub_zero, hnodup.count]
    simp only [hmem]
    rfl
  show ∑ _ : Fin k, (none :: increments s.dataList.length 0).count (some pos) = _
  simp [hcount]

/-- What the counters come to. -/
theorem counters_run (s : ConcurrencyDemo K) {schedule : List (Fin k)}
    (hfinished : (run step (start k s) schedule).Finished) :
    ∃ n : ℕ → ℕ,
      (∀ i ≤ s.dataList.length, (run step (start k s) schedule).demo.counter i =
        s.counter i + BitVec.ofNat _ (n i) ∧ n i ≤ k) ∧
      ((∀ i ≤ s.dataList.length, n i = k) ↔ StepsMeet step WritesAlone (start k s) schedule) := by
  have hsim := simulation_shared (K := K) (k := k) s.dataList.length
  have hover := over_start (k := k) s
  have hrun := hsim.run_eq hover schedule
  have hfinished' := hfinished.shared s.dataList.length
  rw [hrun] at hfinished'
  obtain ⟨n, hmem, hle, hexact⟩ := Shared.counts_image
    (f := fun i m => ((start k s).shared s.dataList.length).mem i + BitVec.ofNat _ m)
    (· + 1) (fun i m => by simp [BitVec.ofNat_add, BitVec.add_assoc])
    (fun i => by simp) (fun _ => rfl) hfinished'
  refine ⟨n, fun i hi => ⟨?_, ?_⟩, ?_⟩
  · have hcounter := hmem i
    rw [← hrun] at hcounter
    have hlength := (run_invariant (I := Over s.dataList.length)
      (fun _ thread h => h.step thread) hover schedule).1
    have hleft : ((run step (start k s) schedule).shared s.dataList.length).mem i =
        (run step (start k s) schedule).demo.counter i := if_pos hi
    have hright : ((start k s).shared s.dataList.length).mem i = s.counter i := if_pos hi
    rwa [hleft, hright] at hcounter
  · have hn := hle i
    rwa [total_start, if_pos hi] at hn
  · rw [hsim.stepsMeet_iff (fun s' thread _ => (writesAlone_shared _ s' thread).symm) hover,
      ← hexact]
    refine forall_congr' fun i => ?_
    rw [total_start]
    split
    · rename_i hi
      simp [hi]
    · rename_i hi
      have hn := hle i
      rw [total_start, if_neg hi] at hn
      exact iff_of_true (fun h => absurd h hi) (by omega)

/-! ### The rest of the data -/

/-- The shared data without the counters that a reader increments. -/
def uncounted (s : ConcurrencyDemo K) : ConcurrencyDemo K :=
  { s with
    dataList := s.dataList.map fun data => { data with accessCount := 0 }
    stats := { s.stats with rwlockReadOps := 0 } }

theorem uncounted_setCounter (s : ConcurrencyDemo K) (pos : ℕ) (value : ULong K) :
    uncounted (s.setCounter pos value) = uncounted s := by
  unfold ConcurrencyDemo.setCounter
  split
  · have hlist : (s.dataList.modify pos fun data => { data with accessCount := value }).map
        (fun data => ({ data with accessCount := 0 } : SharedData K)) =
          s.dataList.map fun data => { data with accessCount := 0 } := by
      apply List.ext_getElem?
      intro i
      rw [List.getElem?_map, List.getElem?_modify, List.getElem?_map]
      cases s.dataList[i]? with
      | none => rfl
      | some data =>
          simp only [Option.map_eq_map, Option.map_some]
          split <;> rfl
    simp only [uncounted, hlist]
  · rfl

theorem uncounted_run (s : ConcurrencyDemo K) (schedule : List (Fin k)) :
    uncounted (run step (start k s) schedule).demo = uncounted s := by
  refine run_invariant (I := fun t : Readers K k => uncounted t.demo = uncounted s)
    (fun t thread h => ?_) (show uncounted (start k s).demo = uncounted s from rfl) schedule
  unfold step
  split
  · exact h
  · exact h
  · exact (uncounted_setCounter ..).trans h
  · exact h
  · exact h

theorem length_of_uncounted {s s' : ConcurrencyDemo K} (h : uncounted s = uncounted s') :
    s.dataList.length = s'.dataList.length := by
  have hlength := congrArg (fun s => s.dataList.length) h
  simpa [uncounted] using hlength

/-- The counters and the rest are all there is. -/
theorem eq_of_counters {s s' : ConcurrencyDemo K} (hrest : uncounted s = uncounted s')
    (hcounter : ∀ i ≤ s.dataList.length, s.counter i = s'.counter i) : s = s' := by
  have hlength := length_of_uncounted hrest
  obtain ⟨items, count, ⟨spin, mutex, reads, writes, contention⟩, next⟩ := s
  obtain ⟨items', count', ⟨spin', mutex', reads', writes', contention'⟩, next'⟩ := s'
  simp only [uncounted, ConcurrencyDemo.mk.injEq, LockStats.mk.injEq, true_and] at hrest
  obtain ⟨hvalues, rfl, ⟨rfl, rfl, rfl, rfl⟩, rfl⟩ := hrest
  obtain rfl : reads = reads' := by
    have hops := hcounter items.length le_rfl
    simp only [ConcurrencyDemo.counter, List.getElem?_eq_none le_rfl,
      List.getElem?_eq_none hlength.ge] at hops
    exact hops
  obtain rfl : items = items' := by
    apply List.ext_getElem hlength
    intro i hi hi'
    have hvalue := congrArg (fun values => values[i]?) hvalues
    have hcount := hcounter i hi.le
    simp only [List.getElem?_map, List.getElem?_eq_getElem hi, List.getElem?_eq_getElem hi',
      Option.map_some, Option.some.injEq, SharedData.mk.injEq, and_true] at hvalue
    simp only [ConcurrencyDemo.counter, List.getElem?_eq_getElem hi,
      List.getElem?_eq_getElem hi'] at hcount
    generalize items[i] = data at hvalue hcount ⊢
    generalize items'[i] = data' at hvalue hcount ⊢
    cases data
    cases data'
    rw [SharedData.mk.injEq]
    exact ⟨hvalue, hcount⟩
  rfl

/-- One read by itself. -/
theorem counter_rwlockReadData (s : ConcurrencyDemo K) (i : ℕ) :
    (rwlockReadData s).1.counter i = s.counter i + 1 := by
  show (match (s.dataList.map SharedData.touch)[i]? with
    | some data => data.accessCount
    | none => s.stats.rwlockReadOps + 1) = _
  rw [List.getElem?_map, ConcurrencyDemo.counter]
  cases s.dataList[i]? <;> rfl

theorem uncounted_rwlockReadData (s : ConcurrencyDemo K) :
    uncounted (rwlockReadData s).1 = uncounted s := by
  simp only [uncounted, rwlockReadData, List.map_map]
  rfl

/-- Reads that are made one after the other. -/
theorem iterate_rwlockReadData (k : ℕ) (s : ConcurrencyDemo K) :
    uncounted ((fun s => (rwlockReadData s).1)^[k] s) = uncounted s ∧
      ∀ i, ((fun s => (rwlockReadData s).1)^[k] s).counter i = s.counter i + BitVec.ofNat _ k := by
  induction k with
  | zero => simp
  | succ k ih =>
      rw [Function.iterate_succ_apply', uncounted_rwlockReadData]
      refine ⟨ih.1, fun i => ?_⟩
      rw [counter_rwlockReadData, ih.2, BitVec.ofNat_add, ← BitVec.add_assoc]
      rfl

/-- Readers whose writes are all made alone leave what as many calls leave that
are made one after the other. -/
theorem run_eq_iterate (s : ConcurrencyDemo K) {schedule : List (Fin k)}
    (hfinished : (run step (start k s) schedule).Finished)
    (halone : StepsMeet step WritesAlone (start k s) schedule) :
    (run step (start k s) schedule).demo = (fun s => (rwlockReadData s).1)^[k] s := by
  obtain ⟨n, hcounter, hexact⟩ := counters_run s hfinished
  obtain ⟨hrest, hiterate⟩ := iterate_rwlockReadData k s
  have hrun := uncounted_run s schedule
  refine eq_of_counters (hrun.trans hrest.symm) fun i hi => ?_
  rw [length_of_uncounted hrun] at hi
  rw [(hcounter i hi).1, hexact.mpr halone i hi, hiterate]

/-! ### The counts as numbers -/

/-- Every item and the operation count have grown by exactly `k`. -/
structure Grown (k : ℕ) (s s' : ConcurrencyDemo K) : Prop where
  items : s'.dataList.map (·.accessCount.toNat) = s.dataList.map (·.accessCount.toNat + k)
  ops : s'.stats.rwlockReadOps.toNat = s.stats.rwlockReadOps.toNat + k

/-- No counter is so high that `k` reads would take it past its width. -/
structure Room (k : ℕ) (s : ConcurrencyDemo K) : Prop where
  items : ∀ data ∈ s.dataList, data.accessCount.toNat + k < 2 ^ K.bitsPerLong
  ops : s.stats.rwlockReadOps.toNat + k < 2 ^ K.bitsPerLong

/-- Place by place, the counters are those of the items and the operation count. -/
theorem forall_counter_iff {s : ConcurrencyDemo K} {P : ULong K → Prop} :
    (∀ i ≤ s.dataList.length, P (s.counter i)) ↔
      (∀ data ∈ s.dataList, P data.accessCount) ∧ P s.stats.rwlockReadOps := by
  constructor
  · intro h
    refine ⟨fun data hdata => ?_, ?_⟩
    · obtain ⟨i, hi, rfl⟩ := List.getElem_of_mem hdata
      rw [← counter_of_lt hi]
      exact h i hi.le
    · rw [← counter_length]
      exact h _ le_rfl
  · rintro ⟨hitems, hops⟩ i hi
    rcases hi.lt_or_eq with hlt | rfl
    · rw [counter_of_lt hlt]
      exact hitems _ (List.getElem_mem hlt)
    · rwa [counter_length]

theorem room_iff {s : ConcurrencyDemo K} :
    Room k s ↔ ∀ i ≤ s.dataList.length, (s.counter i).toNat + k < 2 ^ K.bitsPerLong := by
  rw [forall_counter_iff (P := fun c => c.toNat + k < 2 ^ K.bitsPerLong)]
  exact ⟨fun h => ⟨h.items, h.ops⟩, fun h => ⟨h.1, h.2⟩⟩

theorem grown_iff {s s' : ConcurrencyDemo K} (h : s'.dataList.length = s.dataList.length) :
    Grown k s s' ↔
      ∀ i ≤ s.dataList.length, (s'.counter i).toNat = (s.counter i).toNat + k := by
  constructor
  · rintro ⟨hitems, hops⟩ i hi
    rcases hi.lt_or_eq with hlt | rfl
    · have hi' : i < s'.dataList.length := h ▸ hlt
      have hitem := congrArg (fun counts => counts[i]?) hitems
      simp only [List.getElem?_map, List.getElem?_eq_getElem hlt, List.getElem?_eq_getElem hi',
        Option.map_some, Option.some.injEq] at hitem
      rwa [counter_of_lt hlt, counter_of_lt hi']
    · rw [counter_length, ← h, counter_length]
      exact hops
  · intro hcounter
    refine ⟨?_, ?_⟩
    · apply List.ext_getElem (by simp [h])
      intro i hi hi'
      rw [List.length_map] at hi hi'
      rw [List.getElem_map, List.getElem_map, ← counter_of_lt hi, ← counter_of_lt hi']
      exact hcounter i hi'.le
    · have hops := hcounter _ le_rfl
      rwa [counter_length, ← h, counter_length] at hops

/-- A sum of a machine word and a number no larger than `k` is right as a sum with
`k` exactly when it is one with `k` and does not wrap. -/
theorem toNat_add_ofNat_iff {w : ℕ} {c : BitVec w} {m : ℕ} (h : m ≤ k) :
    (c + BitVec.ofNat w m).toNat = c.toNat + k ↔ c.toNat + k < 2 ^ w ∧ m = k := by
  have hlt := (c + BitVec.ofNat w m).isLt
  have hsum : (c + BitVec.ofNat w m).toNat = (c.toNat + m) % 2 ^ w := by simp
  constructor
  · intro heq
    rw [Nat.mod_eq_of_lt (by omega)] at hsum
    omega
  · rintro ⟨hroom, rfl⟩
    rw [hsum, Nat.mod_eq_of_lt hroom]

/-- **Concurrent reads.** When `k` readers have returned, every counter has grown
by `k` exactly when there was room for it and every write was made alone. -/
theorem reads_counted_iff (s : ConcurrencyDemo K) {schedule : List (Fin k)}
    (hfinished : (run step (start k s) schedule).Finished) :
    Grown k s (run step (start k s) schedule).demo ↔
      Room k s ∧ StepsMeet step WritesAlone (start k s) schedule := by
  obtain ⟨n, hcounter, hexact⟩ := counters_run s hfinished
  rw [grown_iff (length_of_uncounted (uncounted_run s schedule)), room_iff, ← hexact,
    ← forall₂_and]
  refine forall₂_congr fun i hi => ?_
  rw [(hcounter i hi).1]
  exact toNat_add_ofNat_iff (hcounter i hi).2

/-- One item that nobody has read. -/
def oneItem : ConcurrencyDemo .x86_64 := ⟨[⟨1, 0⟩], 1, .zero _, 2⟩

/-- Two readers of it, one after the other. -/
theorem reads_counted_of_turns :
    Grown 2 oneItem
      (run step (start 2 oneItem) [0, 0, 0, 0, 0, 0, 1, 1, 1, 1, 1, 1]).demo := by
  have hfinished : (run step (start 2 oneItem) [0, 0, 0, 0, 0, 0, 1, 1, 1, 1, 1, 1]).Finished := by
    intro thread
    refine ⟨1, ?_⟩
    revert thread
    decide
  exact (reads_counted_iff oneItem hfinished).mpr ⟨⟨by decide, by decide⟩, by decide⟩

/-- Two readers of it, step by step in turn. -/
theorem not_reads_counted_of_overlap :
    (run step (start 2 oneItem) [0, 1, 0, 1, 0, 1, 0, 1, 0, 1, 0, 1]).Finished ∧
      ¬ Grown 2 oneItem
        (run step (start 2 oneItem) [0, 1, 0, 1, 0, 1, 0, 1, 0, 1, 0, 1]).demo := by
  refine ⟨fun thread => ⟨1, ?_⟩, fun h => ?_⟩
  · revert thread
    decide
  · have hops := h.ops
    revert hops
    decide

end Readers

end KernelModules.ConcurrencyControl
