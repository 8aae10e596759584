import KernelModules.ProcessMonitor.Store
import KernelModules.Lib.Population
import KernelModules.Lib.Run

/-!
The statistics of `process_monitor.c` over whole runs.

Records and counters are cleared together, so the running records are always
among the processes counted and the decrement never wraps. To say what the peak
is, the values of `current_processes` are kept beside the module, from the load
or the last `clear` on.
-/

namespace KernelModules.ProcessMonitor

open Lib

variable {K : Kernel}

def MonitorStats.population (stats : MonitorStats K) : Population K.bitsPerLong where
  entered := stats.totalProcessesCreated
  left := stats.totalProcessesExited
  present := stats.currentProcesses
  peak := stats.peakProcesses

@[simp] theorem MonitorStats.population_zero :
    (MonitorStats.zero K).population = .zero K.bitsPerLong := rfl

@[simp] theorem MonitorStats.population_countCreated (stats : MonitorStats K) :
    stats.countCreated.population = stats.population.enter := by
  by_cases h : stats.currentProcesses + 1 > stats.peakProcesses
  · have hpeak : stats.population.present + 1 > stats.population.peak := h
    rw [Population.enter, if_pos hpeak]
    simp only [countCreated, if_pos h]
    rfl
  · have hpeak : ¬ stats.population.present + 1 > stats.population.peak := h
    rw [Population.enter, if_neg hpeak]
    simp only [countCreated, if_neg h]
    rfl

@[simp] theorem MonitorStats.population_countExited (stats : MonitorStats K) :
    stats.countExited.population = stats.population.leave := rfl

def ProcessRecord.isRunning (r : ProcessRecord K) : Bool := r.status = 1

theorem ProcessRecord.runs_iff {pid : PidT} {r : ProcessRecord K} :
    r.runs pid = true ↔ r.pid = pid ∧ r.isRunning = true := by
  simp [runs, isRunning]

/-- How many records have not been marked. -/
def running (records : List (ProcessRecord K)) : ℕ := records.countP ProcessRecord.isRunning

@[simp] theorem ProcessRecord.isRunning_exited (r : ProcessRecord K) (jiffies : ULong K) :
    (r.exited jiffies).isRunning = false := by
  simp [exited, isRunning]

/-- Marking a running record leaves one running record less. -/
theorem running_mark {before after : List (ProcessRecord K)} {r : ProcessRecord K}
    (hr : r.isRunning = true) (jiffies : ULong K) :
    running (before ++ r :: after) = running (before ++ r.exited jiffies :: after) + 1 :=
  countP_replace hr (r.isRunning_exited jiffies)

/-! ### The module and its history -/

/-- The module, and the values `current_processes` has had since the load or the
last `clear`. -/
structure Recorded (K : Kernel) where
  mon : Monitor K
  history : List (ULong K)

namespace Recorded

def load (K : Kernel) : Recorded K := ⟨.load K, [0]⟩

def exec (t : Recorded K) (op : Op K) : Recorded K where
  mon := t.mon.exec op
  history :=
    if op.clears then [(t.mon.exec op).stats.currentProcesses]
    else t.history ++ [(t.mon.exec op).stats.currentProcesses]

/-- The invariant: the list is counted, its running records are among the
processes counted, and the peak is that of the history. -/
structure Sound (t : Recorded K) : Prop where
  counts : Counts t.mon
  counted : t.mon.stats.population.Sound (running t.mon.processList)
  peak : t.mon.stats.population.PeakOf t.history

theorem sound_load (K : Kernel) : Sound (load K) :=
  ⟨counts_load K, Population.sound_zero _, Population.peakOf_zero _⟩

/-- An operation that leaves the counters alone. -/
theorem Sound.idle {t : Recorded K} (h : Sound t) {op : Op K} (hclears : op.clears = false)
    (hop : t.mon.exec op = t.mon) : Sound (t.exec op) := by
  have ht : t.exec op = ⟨t.mon, t.history ++ [t.mon.stats.currentProcesses]⟩ := by
    simp [exec, hclears, hop]
  rw [ht]
  exact ⟨h.counts, h.counted, h.peak.push h.counted.present_le⟩

/-- **One step.** -/
theorem Sound.exec {t : Recorded K} (h : Sound t) (op : Op K)
    (hroom : t.mon.stats.totalProcessesCreated.toNat + 1 < 2 ^ K.bitsPerLong) :
    Sound (t.exec op) := by
  have hcounts : Counts (t.mon.exec op) := h.counts.exec op
  cases op with
  | add pid ppid comm jiffies alloc =>
      cases alloc with
      | false => exact h.idle rfl rfl
      | true =>
          have hs := h.counts.addProcessRecord_eq pid ppid comm jiffies
          have hpop : (t.mon.exec (.add pid ppid comm jiffies true)).stats.population =
              t.mon.stats.population.enter := by
            rw [Monitor.exec, hs, MonitorStats.population_countCreated]
          have hpresent := congrArg Population.present hpop
          refine ⟨hcounts, ?_, ?_⟩
          · rw [Recorded.exec, hpop]
            apply (h.counted.enter hroom).mono
            rw [Monitor.exec, hs]
            exact countP_pushBounded_le ..
          · simp only [Recorded.exec, Op.clears, Bool.false_eq_true, if_false, hpop]
            rw [show (t.mon.exec _).stats.currentProcesses = _ from hpresent]
            exact h.peak.enter
  | exit pid jiffies =>
      rcases markProcessExit_cases pid jiffies t.mon with
        ⟨-, hs⟩ | ⟨before, r, after, hlist, hr, -, hs⟩
      · exact h.idle rfl hs
      · -- the marked record is one of those counted as present
        have hcounted := h.counted
        rw [hlist, running_mark (ProcessRecord.runs_iff.mp hr).2 jiffies] at hcounted
        have hleave := hcounted.leave
        have hexec : t.mon.exec (.exit pid jiffies) = _ := hs
        refine ⟨hcounts, ?_, ?_⟩
        · rw [Recorded.exec, hexec]
          exact hleave
        · simp only [Recorded.exec, Op.clears, Bool.false_eq_true, if_false, hexec]
          exact Population.PeakOf.push (p := t.mon.stats.population.leave) ⟨h.peak.mem, h.peak.le⟩
            hleave.present_le
  | write w =>
      by_cases hclears : (Op.write w : Op K).clears = true
      · -- the history starts again with the cleared counter
        have ht : t.exec (.write w) = ⟨clear t.mon, [0]⟩ := by
          simp only [Recorded.exec, Monitor.exec_write, if_pos hclears]
          rfl
        rw [ht]
        exact ⟨counts_load K, Population.sound_zero _, Population.peakOf_zero _⟩
      · refine h.idle (by simpa using hclears) ?_
        rw [Monitor.exec_write, if_neg hclears]

theorem created_exec_le (t : Recorded K) (op : Op K) :
    (t.exec op).mon.stats.totalProcessesCreated.toNat ≤
      t.mon.stats.totalProcessesCreated.toNat + 1 := by
  rw [exec]
  cases op with
  | add pid ppid comm jiffies alloc =>
      cases alloc with
      | false => exact Nat.le_succ _
      | true =>
          have hcreated : (t.mon.exec (.add pid ppid comm jiffies true)).stats =
              t.mon.stats.countCreated :=
            congrArg MonitorStats.countCreated (evictOldest_stats t.mon)
          have hentered := congrArg Population.entered
            (MonitorStats.population_countCreated t.mon.stats)
          rw [hcreated, show t.mon.stats.countCreated.totalProcessesCreated = _ from hentered]
          exact toNat_add_one_le _
  | exit pid jiffies =>
      rcases markProcessExit_cases pid jiffies t.mon with ⟨-, hs⟩ | ⟨_, _, _, -, -, -, hs⟩
      · rw [show t.mon.exec (.exit pid jiffies) = _ from hs]
        exact Nat.le_succ _
      · rw [show t.mon.exec (.exit pid jiffies) = _ from hs]
        exact Nat.le_succ _
  | write w =>
      rw [Monitor.exec_write]
      split
      · exact Nat.zero_le _
      · exact Nat.le_succ _

end Recorded

/-- What the statistics mean, for the list they are kept with and the history of
`current_processes`. -/
structure StatisticsRight (t : Recorded K) : Prop where
  count_eq : t.mon.recordCount = t.mon.processList.length
  count_le : t.mon.recordCount ≤ MAX_PROCESS_RECORDS
  running_le : (t.mon.processList.countP fun r => r.status = 1) ≤
    t.mon.stats.currentProcesses.toNat
  exited_le : t.mon.stats.totalProcessesExited ≤ t.mon.stats.totalProcessesCreated
  current_eq : t.mon.stats.currentProcesses.toNat =
    t.mon.stats.totalProcessesCreated.toNat - t.mon.stats.totalProcessesExited.toNat
  no_wrap : ∀ pid, t.mon.processList.any (ProcessRecord.runs pid) = true →
    0 < t.mon.stats.currentProcesses.toNat
  peak_mem : t.mon.stats.peakProcesses ∈ t.history
  peak_max : ∀ c ∈ t.history, c ≤ t.mon.stats.peakProcesses

theorem Recorded.Sound.statisticsRight {t : Recorded K} (h : t.Sound) : StatisticsRight t where
  count_eq := h.counts.count
  count_le := by
    rw [h.counts.count]
    exact Int.ofNat_le.mpr h.counts.bound
  running_le := h.counted.may_leave
  exited_le := h.counted.right.left_le
  current_eq := h.counted.right.present_eq
  no_wrap pid hany := by
    obtain ⟨r, hr, hruns⟩ := List.any_eq_true.mp hany
    have hpos : 0 < running t.mon.processList :=
      List.countP_pos_iff.mpr ⟨r, hr, (ProcessRecord.runs_iff.mp hruns).2⟩
    exact Nat.lt_of_lt_of_le hpos h.counted.may_leave
  peak_mem := h.peak.mem
  peak_max := h.peak.le

/-- **The statistics over a run.** In every state of every run of fewer than
`2 ^ w` operations the counter counts the list within its bound, the running
records are among the processes counted, the counters balance without having
wrapped, and the peak is the largest count since the load or the last `clear`. -/
theorem statistics_right {ops : List (Op K)} (hlen : ops.length < 2 ^ K.bitsPerLong) :
    Throughout Recorded.exec StatisticsRight (Recorded.load K) ops := by
  have hroom : StepsMeet Recorded.exec
      (fun t _ => t.mon.stats.totalProcessesCreated.toNat < 2 ^ K.bitsPerLong - 1)
      (Recorded.load K) ops :=
    stepsMeet_of_measure (fun t : Recorded K => t.mon.stats.totalProcessesCreated.toNat)
      Recorded.created_exec_le (by simp [Recorded.load, Monitor.load, MonitorStats.zero]; omega)
  exact (hroom.throughout (fun t op ht hlt => ht.exec op (by omega)) (Recorded.sound_load K)).imp
    fun t ht => ht.statisticsRight

theorem statistics_right_of_clear :
    Throughout Recorded.exec StatisticsRight (Recorded.load .x86_64)
      [.add 1 0 [] 0 true, .add 2 1 [] 1 false, .exit 3 2, .exit 1 3,
        .write ⟨ascii ['c', 'l', 'e', 'a', 'r'], false⟩] :=
  statistics_right (by decide)

end KernelModules.ProcessMonitor
