import KernelModules.CompleteMonitor.Ledger
import KernelModules.Lib.Population

/-!
The four process counters over whole runs.

The only check before `current_processes` is decremented is that a running
record was found. The counters stay right as long as the running records are
among the processes they count, which every operation preserves except one:
`reset_stats` forgets the processes but keeps their records.
-/

namespace KernelModules.CompleteMonitor

open Lib

variable {K : Kernel}

/-- The counters of processes among the statistics. -/
def MonitorStats.population (stats : MonitorStats K) : Population K.bitsPerLong where
  entered := stats.totalProcessesCreated
  left := stats.totalProcessesExited
  present := stats.currentProcesses
  peak := stats.peakProcesses

@[simp] theorem MonitorStats.population_zero :
    (MonitorStats.zero K).population = .zero K.bitsPerLong := rfl

@[simp] theorem MonitorStats.population_countCreated (stats : MonitorStats K) :
    stats.countCreated.population = stats.population.enter := by
  by_cases h : stats.currentProcesses + 1 > stats.peakProcesses
  · have hpeak : stats.population.present + 1 > stats.population.peak := h
    rw [Population.enter, if_pos hpeak]
    simp only [countCreated, if_pos h]
    rfl
  · have hpeak : ¬ stats.population.present + 1 > stats.population.peak := h
    rw [Population.enter, if_neg hpeak]
    simp only [countCreated, if_neg h]
    rfl

@[simp] theorem MonitorStats.population_countExited (lifetime cpuTime : ULong K)
    (stats : MonitorStats K) :
    (stats.countExited lifetime cpuTime).population = stats.population.leave := by
  simp only [countExited]
  repeat' split
  all_goals rfl

/-! ### Running records -/

/-- How many records have not been marked. -/
def running (records : List (ProcessRecord K)) : ℕ := records.countP ProcessRecord.isRunning

/-- Marking a running record leaves one running record less. -/
theorem running_mark {before after : List (ProcessRecord K)} {r : ProcessRecord K}
    (hr : r.isRunning = true) (exitCode : CInt) (jiffies : ULong K) :
    running (before ++ r :: after) = running (before ++ r.exited exitCode jiffies :: after) + 1 :=
  countP_replace hr (r.isRunning_exited exitCode jiffies)

/-! ### The counters of a ledger -/

namespace Ledger

/-- The counters are sound for the records that are running. -/
def Counted (l : Ledger K) : Prop := l.stats.population.Sound (running l.records)

/-- The statistics are reset only while no record is running. -/
def ResetsIdle (l : Ledger K) : Op K → Prop
  | .control w => writtenCommand w = some .resetStats → ∀ r ∈ l.records, r.isRunning = false
  | _ => True

theorem counted_load (K : Kernel) : Counted (load K) := Population.sound_zero _

theorem Counted.markExit {l : Ledger K} (h : Counted l) (pid : PidT) (exitCode : CInt)
    (jiffies : ULong K) : Counted (l.markExit pid exitCode jiffies) := by
  rcases markExit_cases pid exitCode jiffies l with
    ⟨-, hl⟩ | ⟨before, r, after, hrecords, hr, -, hl⟩
  · rwa [hl]
  · rw [Counted, hrecords, running_mark (ProcessRecord.runs_iff.mp hr).2 exitCode jiffies] at h
    rw [hl, Counted, MonitorStats.population_countExited]
    exact h.leave

/-- **One step.** Soundness survives every operation that does not reset the
statistics of running processes, while the counter of creations has room. -/
theorem Counted.exec {l : Ledger K} (h : Counted l) (op : Op K)
    (hroom : l.stats.totalProcessesCreated.toNat + 1 < 2 ^ K.bitsPerLong)
    (hreset : ResetsIdle l op) : Counted (l.exec op) := by
  rcases exec_cases l op with ⟨_, _, _, _, -, -, hl⟩ | ⟨_, _, _, -, -, hl⟩ | ⟨_, -, -, hl⟩ |
    ⟨w, rfl, hw, hl⟩ | ⟨_, _, hl⟩
  · rw [hl, Counted, add, MonitorStats.population_countCreated]
    exact (h.enter hroom).mono (countP_pushBounded_le ..)
  · rw [hl]
    exact h.markExit ..
  · rw [hl]
    exact h.mono (Nat.zero_le _)
  · -- `reset_stats`: zeroed counters are sound for a list without running records
    have hidle : running l.records = 0 :=
      List.countP_eq_zero.mpr fun r hr => by simp [hreset hw r hr]
    rw [hl, Counted, hidle]
    exact Population.sound_zero _
  · rw [hl]
    exact h

theorem totalProcessesCreated_exec_le (l : Ledger K) (op : Op K) :
    (l.exec op).stats.totalProcessesCreated.toNat ≤ l.stats.totalProcessesCreated.toNat + 1 := by
  have hexit : ∀ pid exitCode jiffies,
      (l.markExit pid exitCode jiffies).stats.totalProcessesCreated =
        l.stats.totalProcessesCreated := by
    intro pid exitCode jiffies
    rcases markExit_cases pid exitCode jiffies l with ⟨-, hl⟩ | ⟨_, r, _, -, -, -, hl⟩
    · rw [hl]
    · rw [hl]
      exact congrArg Population.entered (MonitorStats.population_countExited ..)
  rcases exec_cases l op with ⟨_, _, _, _, -, -, hl⟩ | ⟨_, _, _, -, -, hl⟩ | ⟨_, -, -, hl⟩ |
    ⟨_, -, -, hl⟩ | ⟨_, _, hl⟩
  · have hadd : (l.exec op).stats.totalProcessesCreated = l.stats.totalProcessesCreated + 1 := by
      rw [hl]
      exact congrArg Population.entered (MonitorStats.population_countCreated l.stats)
    rw [hadd]
    exact toNat_add_one_le _
  · rw [hl, hexit]
    omega
  · rw [hl]
    exact Nat.le_succ _
  · rw [hl]
    simp [MonitorStats.zero]
  · rw [hl]
    exact Nat.le_succ _

/-- **A whole run**, short enough for its counters. -/
theorem counted_throughout {ops : List (Op K)} (hlen : ops.length < 2 ^ K.bitsPerLong)
    (h : StepsMeet exec ResetsIdle (load K) ops) : Throughout exec Counted (load K) ops := by
  have hroom : StepsMeet exec
      (fun l _ => l.stats.totalProcessesCreated.toNat < 2 ^ K.bitsPerLong - 1) (load K) ops :=
    stepsMeet_of_measure (fun l : Ledger K => l.stats.totalProcessesCreated.toNat)
      totalProcessesCreated_exec_le (by simp [load, MonitorStats.zero]; omega)
  refine (hroom.and h).throughout (fun l op hl hop => ?_) (counted_load K)
  have hlt := hop.1
  exact hl.exec op (by omega) hop.2

/-- Resetting the statistics while a record is running makes the counters wrong
at the exit of its process. -/
theorem not_right_of_reset {l : Ledger K} {w : UserWrite}
    (hw : writtenCommand w = some .resetStats) {r : ProcessRecord K} (hr : r ∈ l.records)
    (hrun : r.isRunning = true) (exitCode : CInt) (jiffies : ULong K) :
    ¬ (run exec l [.control w, .control ControlCommand.start.write,
        .exit r.pid exitCode jiffies]).stats.population.Right := by
  have hreset : l.exec (.control w) = { l with stats := .zero K } := by
    simp only [exec, hw]
    rfl
  have hstart : Ledger.exec { l with stats := .zero K } (.control ControlCommand.start.write) =
      { l with stats := .zero K, monitoringEnabled := true } := by
    simp only [exec, writtenCommand_write]
    rfl
  have hfound : r.runs r.pid = true := by
    simpa [ProcessRecord.runs, ProcessRecord.isRunning] using hrun
  rw [run_cons, hreset, run_cons, hstart, run_cons, run_nil, exec_exit_of_enabled rfl]
  rcases markExit_cases r.pid exitCode jiffies
      { l with stats := .zero K, monitoringEnabled := true } with
    ⟨hnone, -⟩ | ⟨_, _, _, -, -, -, hl⟩
  · rw [hnone r hr] at hfound
    contradiction
  · rw [hl, MonitorStats.population_countExited, MonitorStats.population_zero]
    exact Population.not_right_leave_zero K.bitsPerLong_pos

end Ledger

/-! ### The counters of the module -/

/-- The statistics are reset only while no record of the list is running. -/
def ResetsIdle (s : Monitor K) : Op K → Prop
  | .control w =>
      writtenCommand w = some .resetStats → ∀ record ∈ s.processList, (s.mem record).status ≠ 1
  | _ => True

instance (s : Monitor K) : ∀ op, Decidable (ResetsIdle s op)
  | .control w => inferInstanceAs (Decidable (writtenCommand w = some .resetStats → _))
  | .add .. | .exit .. | .filter _ => .isTrue trivial

theorem resetsIdle_iff (s : Monitor K) (op : Op K) :
    ResetsIdle s op ↔ s.ledger.ResetsIdle op := by
  cases op with
  | control w =>
      simp [ResetsIdle, Ledger.ResetsIdle, Monitor.ledger, Monitor.records,
        ProcessRecord.isRunning]
  | add | exit | filter => exact Iff.rfl

/-- **The counters over a run.** In a run of fewer than `2 ^ w` operations that
resets the statistics only while nothing is running, the counters are right in
every state. The condition cannot be dropped: after any run, resetting the
statistics while a record is running makes them wrong as soon as the process of
the record exits with monitoring on. -/
theorem counters_right {ops : List (Op K)} (hlen : ops.length < 2 ^ K.bitsPerLong) :
    (StepsMeet Monitor.exec ResetsIdle (Monitor.load K) ops →
      Throughout Monitor.exec (fun s => s.stats.population.Right) (Monitor.load K) ops) ∧
    ∀ w, writtenCommand w = some .resetStats →
      ∀ record ∈ (run Monitor.exec (Monitor.load K) ops).processList,
        ((run Monitor.exec (Monitor.load K) ops).mem record).status = 1 →
        ∀ exitCode jiffies,
          ¬ (run Monitor.exec (Monitor.load K) (ops ++ [.control w,
            .control ControlCommand.start.write,
            .exit ((run Monitor.exec (Monitor.load K) ops).mem record).pid exitCode
              jiffies])).stats.population.Right := by
  refine ⟨fun h => ?_, fun w hw record hrecord hrun exitCode jiffies => ?_⟩
  · have hledger := (ledger_simulation.stepsMeet_iff (fun s op _ => resetsIdle_iff s op)
      (accounted_load K) ops).mp h
    exact (ledger_simulation.throughout_iff
      (fun l => l.stats.population.Right) (fun _ _ => Iff.rfl) (accounted_load K) ops).mpr
      ((Ledger.counted_throughout hlen hledger).imp fun l hl => hl.right)
  · have hl := ledger_run (K := K) ops
    have hmem : (run Monitor.exec (Monitor.load K) ops).mem record ∈
        (run Ledger.exec (Ledger.load K) ops).records := by
      rw [← hl]
      exact List.mem_map_of_mem hrecord
    have hwrong := Ledger.not_right_of_reset hw hmem (by simpa [ProcessRecord.isRunning] using hrun)
      exitCode jiffies
    rw [← run_append, ← ledger_run] at hwrong
    exact hwrong

theorem counters_right_of_reset_after_exit :
    Throughout Monitor.exec (fun s => s.stats.population.Right) (Monitor.load .x86_64)
      [.add 1 0 [] 0 true, .exit 1 0 0, .control ControlCommand.resetStats.write] :=
  (counters_right (by decide)).1 (by decide)

/-- One process that exits after the reset: more exits than creations, and a
count of `2 ^ 64 - 1` processes. -/
theorem counters_wrong_of_reset :
    ¬ Throughout Monitor.exec (fun s => s.stats.population.Right) (Monitor.load .x86_64)
      [.add 1 0 [] 0 true, .control ControlCommand.resetStats.write, .exit 1 0 0] := by
  intro h
  have hlast := h.last.left_le
  revert hlast
  decide

end KernelModules.CompleteMonitor
