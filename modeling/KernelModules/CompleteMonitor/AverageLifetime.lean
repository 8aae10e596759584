import KernelModules.CompleteMonitor.Accounting
import KernelModules.Lib.Mean
import KernelModules.Lib.Run

/-!
The average lifetime of the exits that `mark_process_exit` counts.

An observer writes down the lifetimes as they are counted, since the load or the
last `reset_stats`. The average is updated from its own truncated value, so it is
their integer mean exactly as long as no update loses a carry.
-/

namespace KernelModules.CompleteMonitor

open Lib

variable {K : Kernel}

/-- The number of exits and their average among the statistics. -/
def MonitorStats.lifetimes (stats : MonitorStats K) : RunningMean K.bitsPerLong :=
  ⟨stats.totalProcessesExited, stats.avgLifetime⟩

@[simp] theorem MonitorStats.lifetimes_countCreated (stats : MonitorStats K) :
    stats.countCreated.lifetimes = stats.lifetimes := by
  unfold countCreated
  dsimp only
  split <;> rfl

/-- `mark_process_exit` updates the average last, from statistics in which the exit
is counted, the extremes are the new ones and the average is the old one. -/
theorem MonitorStats.countExited_eq (lifetime cpuTime : ULong K) (stats : MonitorStats K) :
    ∃ s : MonitorStats K, s.totalProcessesExited = stats.totalProcessesExited + 1 ∧
      s.avgLifetime = stats.avgLifetime ∧
      s.longestLifetime = (if stats.totalProcessesExited + 1 = 1 then lifetime
        else if lifetime > stats.longestLifetime then lifetime else stats.longestLifetime) ∧
      s.shortestLifetime = (if stats.totalProcessesExited + 1 = 1 then lifetime
        else if lifetime < stats.shortestLifetime then lifetime else stats.shortestLifetime) ∧
      stats.countExited lifetime cpuTime =
        if s.totalProcessesExited > 0 then
          { s with
            avgLifetime := (s.avgLifetime * (s.totalProcessesExited - 1) + lifetime) /
              s.totalProcessesExited }
        else s := by
  refine ⟨_, ?_, ?_, ?_, ?_, rfl⟩
  all_goals
    by_cases hfirst : stats.totalProcessesExited + 1 = 1
    · simp only [hfirst, if_true]
    · by_cases hlonger : lifetime > stats.longestLifetime <;>
      by_cases hshorter : lifetime < stats.shortestLifetime <;>
      simp only [hfirst, hlonger, hshorter, if_true, if_false]

@[simp] theorem MonitorStats.lifetimes_countExited (lifetime cpuTime : ULong K)
    (stats : MonitorStats K) :
    (stats.countExited lifetime cpuTime).lifetimes = stats.lifetimes.push lifetime := by
  obtain ⟨s, hexited, havg, -, -, hs⟩ := stats.countExited_eq lifetime cpuTime
  rw [hs, hexited, havg]
  unfold lifetimes RunningMean.push
  dsimp only
  split
  · rfl
  · rw [hexited, havg]

/-- The lifetime of the record that an exit finds, if it finds one: the whole seconds
from its addition to the exit. -/
def observedLifetime (s : Monitor K) (pid : PidT) (jiffies : ULong K) : Option (ULong K) :=
  (findProcessByPid s pid).map fun record =>
    (jiffies - (s.mem record).startTime) / BitVec.ofNat _ K.HZ

/-- The critical section counts nothing, or the lifetime observed. -/
theorem markProcessExitLocked_observed (pid : PidT) (exitCode : CInt) (jiffies : ULong K)
    (s : Monitor K) :
    (observedLifetime s pid jiffies = none ∧
        (markProcessExitLocked pid exitCode jiffies s).1 = s) ∨
      ∃ record lifetime, observedLifetime s pid jiffies = some lifetime ∧
        (markProcessExitLocked pid exitCode jiffies s).2 = some (record, lifetime) ∧
        (markProcessExitLocked pid exitCode jiffies s).1.stats =
          s.stats.countExited lifetime (s.mem record).cpuTime := by
  rw [observedLifetime]
  rcases markProcessExitLocked_cases pid exitCode jiffies s with
    ⟨hfind, hs⟩ | ⟨record, hfind, hs⟩
  · exact .inl ⟨by rw [hfind, Option.map_none], by rw [hs]⟩
  · exact .inr ⟨record, _, by rw [hfind, Option.map_some], by rw [hs]; rfl, by rw [hs]; rfl⟩

/-- The lifetime that an operation counts, if it counts one. -/
def countedLifetime (s : Monitor K) : Op K → Option (ULong K)
  | .exit pid _ jiffies =>
      if !s.monitoringEnabled then none else observedLifetime s pid jiffies
  | .add .. | .control _ | .filter _ => none

/-- Whether an operation starts the statistics anew. -/
def Op.resets : Op K → Bool
  | .control w => writtenCommand w = some .resetStats
  | .add .. | .exit .. | .filter _ => false

/-- The module and the lifetimes counted since the load or the last reset. -/
structure Observed (K : Kernel) where
  mon : Monitor K
  counted : List (ULong K)

namespace Observed

def load (K : Kernel) : Observed K := ⟨.load K, []⟩

def exec (t : Observed K) (op : Op K) : Observed K where
  mon := t.mon.exec op
  counted := if op.resets then [] else t.counted ++ (countedLifetime t.mon op).toList

/-- The average is the integer mean of the lifetimes counted, if there are any and
their sum is an `unsigned long`. -/
def MeanRight (t : Observed K) : Prop :=
  t.counted ≠ [] → RunningMean.total t.counted < 2 ^ K.bitsPerLong →
    t.mon.stats.avgLifetime.toNat = RunningMean.total t.counted / t.counted.length

/-- A lifetime that is counted costs no carry. -/
def KeepsCarry (t : Observed K) (op : Op K) : Prop :=
  ∀ lifetime, countedLifetime t.mon op = some lifetime →
    RunningMean.total t.counted + lifetime.toNat < 2 ^ K.bitsPerLong →
    RunningMean.NoCarry K.bitsPerLong t.counted.length (RunningMean.total t.counted)
      lifetime.toNat

end Observed

/-! ### The statistics under one operation -/

theorem stats_clearRecords (s : Monitor K) : (clearRecords s).stats = s.stats := by
  rw [clearRecords, foldl_unlinkRecord_frame]

/-- What an operation does to the average: it counts a lifetime, starts anew, or
leaves it alone. -/
theorem lifetimes_exec_cases (s : Monitor K) (op : Op K) :
    (∃ lifetime, countedLifetime s op = some lifetime ∧ op.resets = false ∧
        (s.exec op).stats.lifetimes = s.stats.lifetimes.push lifetime) ∨
      (countedLifetime s op = none ∧ op.resets = true ∧ (s.exec op).stats = .zero K) ∨
      (countedLifetime s op = none ∧ op.resets = false ∧
        (s.exec op).stats.lifetimes = s.stats.lifetimes) := by
  cases op with
  | add pid ppid comm jiffies alloc =>
      refine .inr (.inr ⟨rfl, rfl, ?_⟩)
      rw [Monitor.exec]
      rcases addProcessRecord_cases pid ppid comm jiffies alloc s with ⟨-, hs⟩ | ⟨-, hs⟩
      · rw [hs]
      · rw [hs, (addProcessRecordLocked_frame ..).1, MonitorStats.lifetimes_countCreated]
  | exit pid exitCode jiffies =>
      rw [Monitor.exec, markProcessExit, countedLifetime]
      by_cases henabled : (!s.monitoringEnabled) = true
      · exact .inr (.inr ⟨if_pos henabled, rfl, by rw [if_pos henabled]⟩)
      · rw [if_neg henabled, if_neg henabled]
        rcases markProcessExitLocked_observed pid exitCode jiffies s with
          ⟨hnone, hs⟩ | ⟨record, lifetime, hsome, -, hstats⟩
        · exact .inr (.inr ⟨hnone, rfl, by rw [hs]⟩)
        · refine .inl ⟨lifetime, hsome, rfl, ?_⟩
          rw [hstats]
          exact MonitorStats.lifetimes_countExited ..
  | control w =>
      rw [Monitor.exec, controlWrite_eq]
      cases hcmd : writtenCommand w with
      | none => exact .inr (.inr ⟨rfl, by simp [Op.resets, hcmd], rfl⟩)
      | some c =>
          cases c with
          | resetStats => exact .inr (.inl ⟨rfl, by simp [Op.resets, hcmd], rfl⟩)
          | start => exact .inr (.inr ⟨rfl, by simp [Op.resets, hcmd], rfl⟩)
          | stop => exact .inr (.inr ⟨rfl, by simp [Op.resets, hcmd], rfl⟩)
          | clear =>
              refine .inr (.inr ⟨rfl, by simp [Op.resets, hcmd], ?_⟩)
              show (clearRecords s).stats.lifetimes = _
              rw [stats_clearRecords]
  | filter w =>
      refine .inr (.inr ⟨rfl, rfl, ?_⟩)
      rw [Monitor.exec, filterWrite_eq]

namespace Observed

theorem exact_load (K : Kernel) :
    (load K).mon.stats.lifetimes.Exact (load K).counted :=
  ⟨rfl, fun h => absurd rfl h⟩

/-- **One operation.** -/
theorem exact_exec_iff {t : Observed K} (h : t.mon.stats.lifetimes.Exact t.counted) (op : Op K) :
    (t.exec op).mon.stats.lifetimes.Exact (t.exec op).counted ↔ KeepsCarry t op := by
  unfold exec KeepsCarry
  rcases lifetimes_exec_cases t.mon op with ⟨lifetime, hcounted, hresets, hs⟩ |
    ⟨hcounted, hresets, hs⟩ | ⟨hcounted, hresets, hs⟩
  · simp only [hcounted, hresets, hs, Bool.false_eq_true, if_false, Option.toList_some,
      Option.some.injEq, forall_eq']
    exact RunningMean.exact_push_iff K.bitsPerLong_pos h lifetime
  · simp only [hcounted, hresets, hs, if_true]
    exact iff_of_true ⟨rfl, fun h => absurd rfl h⟩ (by simp)
  · simp only [hcounted, hresets, hs, Bool.false_eq_true, if_false, Option.toList_none,
      List.append_nil]
    exact iff_of_true h (by simp)

/-- The number of exits is right after every operation. -/
theorem count_exec {t : Observed K}
    (h : t.mon.stats.lifetimes.count = BitVec.ofNat _ t.counted.length) (op : Op K) :
    (t.exec op).mon.stats.lifetimes.count = BitVec.ofNat _ (t.exec op).counted.length := by
  unfold exec
  rcases lifetimes_exec_cases t.mon op with ⟨lifetime, hcounted, hresets, hs⟩ |
    ⟨hcounted, hresets, hs⟩ | ⟨hcounted, hresets, hs⟩
  · simp only [hcounted, hresets, hs, Bool.false_eq_true, if_false, Option.toList_some]
    exact RunningMean.count_push h lifetime
  · simp only [hresets, hs, if_true]
    rfl
  · simpa only [hcounted, hresets, hs, Bool.false_eq_true, if_false, Option.toList_none,
      List.append_nil] using h

/-- **The average.** Throughout a run the average is the integer mean of the
lifetimes counted exactly when no exit costs a carry. -/
theorem meanRight_throughout_iff {ops : List (Op K)} :
    Throughout exec MeanRight (load K) ops ↔ StepsMeet exec KeepsCarry (load K) ops := by
  refine throughout_iff_stepsMeet (A := fun _ _ => True)
    (I := fun t : Observed K => t.mon.stats.lifetimes.Exact t.counted)
    (fun t h => h.mean) (fun t op h _ hkeeps => (exact_exec_iff h op).mpr hkeeps) ?_
    (exact_load K) (stepsMeet_of_forall (fun _ _ => trivial) ..)
  intro t op h _ hloses hright
  exact hloses ((exact_exec_iff h op).mp ⟨count_exec h.count op, hright⟩)

/-- Three exits after 1, 2 and 3 seconds: an average of 1. -/
theorem not_meanRight_of_three :
    ¬ Throughout exec MeanRight (load .x86_64)
      [.add 1 0 [] 0 true, .add 2 0 [] 0 true, .add 3 0 [] 0 true,
        .exit 1 0 250, .exit 2 0 500, .exit 3 0 750] := by
  intro h
  have hmean := h.last (by decide) (by decide)
  revert hmean
  decide

end Observed

end KernelModules.CompleteMonitor
