import KernelModules.CompleteMonitor.Counters
import KernelModules.CompleteMonitor.LifetimeExtremes
import KernelModules.CompleteMonitor.Linearization
import KernelModules.Texts

/-!
What the statistics file reports.

`stats_show` prints everything that it reads under the lock, and its text can be read
back. What it reports in a schedule is consistent at every moment: the counters with
each other and with the records of the list, the extremes of the lifetimes with the
exits that were counted, and the average with both as long as their sum fits.
-/

namespace KernelModules.CompleteMonitor

open Lib

variable {K : Kernel}

/-! ### `stats_show` and `control_show` -/

attribute [ext] MonitorStats

/-- What `stats_show` prints. -/
@[ext]
structure StatsReport (K : Kernel) where
  monitoring : Bool
  stats : MonitorStats K
  records : CInt
  turnover : Option (ULong K)
  deriving DecidableEq

/-- The rate at the end of `stats_show`, which reads the clock twice. -/
def turnoverRate (exited jiffies jiffies' : ULong K) : Option (ULong K) :=
  if exited > 0 ∧ jiffies > 0 then
    let uptimeSeconds := jiffies' / BitVec.ofNat _ K.HZ
    if uptimeSeconds > 0 then some (exited / uptimeSeconds) else none
  else none

/-- `stats_show`, as far as what it reads. -/
def statsShow (s : Monitor K) (jiffies jiffies' : ULong K) : StatsReport K where
  monitoring := s.monitoringEnabled
  stats := s.stats
  records := .ofInt 32 s.recordCount
  turnover := turnoverRate s.stats.totalProcessesExited jiffies jiffies'

/-- How the switch is shown. -/
def shownSwitch (enabled : Bool) : List UInt8 :=
  ascii (if enabled then "ENABLED" else "DISABLED").toList

namespace StatsReport

/-- The last line, which is left out without a rate. -/
def turnoverLine (r : StatsReport K) : List UInt8 :=
  match r.turnover with
  | none => []
  | some rate => line "Process Turnover Rate: " (printULong rate) " proc/sec\n"

/-- The text that `stats_show` prints. -/
def text (r : StatsReport K) : List UInt8 :=
  List.flatten
    [ascii "=== Process Monitor Statistics ===\n".toList,
      line "Monitoring Status: " (shownSwitch r.monitoring) "\n",
      line "Total Processes Created: " (printULong r.stats.totalProcessesCreated) "\n",
      line "Total Processes Exited: " (printULong r.stats.totalProcessesExited) "\n",
      line "Current Active Processes: " (printULong r.stats.currentProcesses) "\n",
      line "Peak Processes: " (printULong r.stats.peakProcesses) "\n",
      line "Records in Memory: " (printInt r.records) "/1000\n",
      ascii "\n=== Performance Statistics ===\n".toList,
      line "Total CPU Time: " (printULong r.stats.totalCpuTime) " jiffies\n",
      line "Average Lifetime: " (printULong r.stats.avgLifetime) " seconds\n",
      line "Longest Lifetime: " (printULong r.stats.longestLifetime) " seconds\n",
      line "Shortest Lifetime: " (printULong r.stats.shortestLifetime) " seconds\n",
      r.turnoverLine]

end StatsReport

/-- `control_show`, which takes no lock. -/
def controlShow (monitoringEnabled : Bool) (recordCount : CInt) : List UInt8 :=
  List.flatten
    [ascii "=== Process Monitor Control ===\n".toList,
      line "Monitoring: " (shownSwitch monitoringEnabled) "\n",
      line "Records: " (printInt recordCount) "/1000\n",
      ascii "\n=== Control Commands ===\n".toList,
      ascii "start            - Start monitoring\n".toList,
      ascii "stop             - Stop monitoring\n".toList,
      ascii "clear            - Clear all records\n".toList,
      ascii "reset_stats      - Reset statistics\n".toList]

/-! ### Reading the text -/

theorem shownSwitch_injective : Function.Injective shownSwitch := by decide

theorem newline_notMem_shownSwitch (enabled : Bool) : 10 ∉ shownSwitch enabled := by
  cases enabled <;> decide

theorem StatsReport.turnover_of_turnoverLine {r r' : StatsReport K}
    (h : r.turnoverLine ++ [] = r'.turnoverLine ++ []) : r.turnover = r'.turnover := by
  have hne : ∀ rate : ULong K,
      line "Process Turnover Rate: " (printULong rate) " proc/sec\n" ++ [] ≠ [] ++ [] := by
    intro rate
    simp [line, ascii]
  rw [turnoverLine, turnoverLine] at h
  cases hr : r.turnover with
  | none =>
      cases hr' : r'.turnover with
      | none => rfl
      | some rate' =>
          simp only [hr, hr'] at h
          exact absurd h.symm (hne rate')
  | some rate =>
      cases hr' : r'.turnover with
      | none =>
          simp only [hr, hr'] at h
          exact absurd h (hne rate)
      | some rate' =>
          simp only [hr, hr'] at h
          rw [(line_printULong_inj (c := 32) rfl rfl h).1]

/-- **Round trip.** The text determines every number of the report, and whether it ends
with a rate. -/
theorem StatsReport.text_injective : Function.Injective (text (K := K)) := by
  intro r r' h
  simp only [text, List.flatten_cons] at h
  obtain ⟨hswitch, h⟩ := line_inj (c := 10) rfl (newline_notMem_shownSwitch _)
    (newline_notMem_shownSwitch _) (List.append_cancel_left h)
  obtain ⟨hcreated, h⟩ := line_printULong_inj (c := 10) rfl rfl h
  obtain ⟨hexited, h⟩ := line_printULong_inj (c := 10) rfl rfl h
  obtain ⟨hcurrent, h⟩ := line_printULong_inj (c := 10) rfl rfl h
  obtain ⟨hpeak, h⟩ := line_printULong_inj (c := 10) rfl rfl h
  obtain ⟨hrecords, h⟩ := line_printInt_inj (c := 47) rfl (by decide) h
  obtain ⟨hcpu, h⟩ := line_printULong_inj (c := 32) rfl rfl (List.append_cancel_left h)
  obtain ⟨havg, h⟩ := line_printULong_inj (c := 32) rfl rfl h
  obtain ⟨hlongest, h⟩ := line_printULong_inj (c := 32) rfl rfl h
  obtain ⟨hshortest, h⟩ := line_printULong_inj (c := 32) rfl rfl h
  exact StatsReport.ext (shownSwitch_injective hswitch)
    (MonitorStats.ext hcreated hexited hcurrent hpeak hcpu havg hlongest hshortest)
    hrecords (turnover_of_turnoverLine h)

/-! ### The counters in a schedule -/

namespace Ledger

theorem created_add_le (l : Ledger K) (r : ProcessRecord K) :
    (l.add r).stats.totalProcessesCreated.toNat ≤ l.stats.totalProcessesCreated.toNat + 1 :=
  totalProcessesCreated_exec_le { l with monitoringEnabled := true } (.add 0 0 [] 0 true)

theorem created_markExit_le (l : Ledger K) (pid : PidT) (exitCode : CInt) (jiffies : ULong K) :
    (l.markExit pid exitCode jiffies).stats.totalProcessesCreated.toNat ≤
      l.stats.totalProcessesCreated.toNat + 1 := by
  rcases markExit_cases pid exitCode jiffies l with ⟨-, hl⟩ | ⟨_, r, _, -, -, -, hl⟩
  · rw [hl]
    exact Nat.le_succ _
  · have hcreated : (l.stats.countExited (r.exited exitCode jiffies).lifetime
        r.cpuTime).totalProcessesCreated = l.stats.totalProcessesCreated :=
      congrArg Population.entered (MonitorStats.population_countExited ..)
    rw [hl, hcreated]
    exact Nat.le_succ _

end Ledger

namespace System

/-- The statistics are reset only while no record of the list is running. -/
def ResetsIdle (s : System K) : Event K → Prop
  | .control w =>
      writtenCommand w = some .resetStats →
        ∀ record ∈ s.mon.processList, (s.mon.mem record).status ≠ 1
  | .tick _ | .addEnter .. | .exitEnter .. | .lock _ | .tail _ | .filter _ => True

instance (s : System K) : ∀ e, Decidable (s.ResetsIdle e)
  | .control w => inferInstanceAs (Decidable (writtenCommand w = some .resetStats → _))
  | .tick _ | .addEnter .. | .exitEnter .. | .lock _ | .tail _ | .filter _ => .isTrue trivial

theorem created_step_le {s : System K} (hs : s.Consistent) (e : Event K) :
    (s.step e).mon.ledger.stats.totalProcessesCreated.toNat ≤
      s.mon.ledger.stats.totalProcessesCreated.toNat + 1 := by
  rw [mon_step, hs.accounted.ledger_apply]
  cases s.effect e with
  | nothing | allocate record => exact Nat.le_succ _
  | link pid record => exact s.mon.ledger.created_add_le _
  | mark pid exitCode jiffies => exact s.mon.ledger.created_markExit_le ..
  | command w | configure w => exact Ledger.totalProcessesCreated_exec_le ..

/-- **One step** of any schedule keeps the counters sound. -/
theorem counted_step {s : System K} (hs : s.Consistent) (h : s.mon.ledger.Counted) (e : Event K)
    (hroom : s.mon.ledger.stats.totalProcessesCreated.toNat + 1 < 2 ^ K.bitsPerLong)
    (hreset : s.ResetsIdle e) : (s.step e).mon.ledger.Counted := by
  rw [mon_step, hs.accounted.ledger_apply]
  cases heffect : s.effect e with
  | nothing | allocate record => exact h
  | link pid record =>
      rw [Effect.onLedger, Ledger.Counted, Ledger.add, MonitorStats.population_countCreated]
      exact (h.enter hroom).mono (countP_pushBounded_le ..)
  | mark pid exitCode jiffies => exact h.markExit pid exitCode jiffies
  | command w =>
      obtain rfl := effect_eq_command heffect
      exact h.exec (.control w) hroom ((resetsIdle_iff s.mon (.control w)).mp hreset)
  | configure w => exact h.exec (.filter w) hroom trivial

end System

/-! ### What is never charged -/

/-- No processor time is on any record, and none in the total. -/
structure Uncharged (s : Monitor K) : Prop where
  total : s.stats.totalCpuTime = 0
  record : ∀ record, (s.mem record).cpuTime = 0

theorem uncharged_load (K : Kernel) : Uncharged (Monitor.load K) := ⟨rfl, fun _ => rfl⟩

theorem totalCpuTime_countCreated (stats : MonitorStats K) :
    stats.countCreated.totalCpuTime = stats.totalCpuTime := by
  unfold MonitorStats.countCreated
  dsimp only
  split <;> rfl

theorem totalCpuTime_countExited (lifetime cpuTime : ULong K) (stats : MonitorStats K) :
    (stats.countExited lifetime cpuTime).totalCpuTime = stats.totalCpuTime + cpuTime := by
  simp only [MonitorStats.countExited]
  repeat' split
  all_goals rfl

/-- Writing a record without a charge leaves none. -/
theorem Uncharged.update {s : Monitor K} (h : Uncharged s) (addr : Addr) {r : ProcessRecord K}
    (hr : r.cpuTime = 0) (record : Addr) : (Function.update s.mem addr r record).cpuTime = 0 := by
  by_cases heq : record = addr
  · subst heq
    rwa [Function.update_self]
  · rw [Function.update_of_ne heq]
    exact h.record record

/-- The commands charge nothing. -/
theorem Uncharged.controlWrite {s : Monitor K} {waiting : Addr → Prop} (h : Uncharged s)
    (hs : Accounted s waiting) (w : UserWrite) : Uncharged (controlWrite w s).1 := by
  refine ⟨?_, fun record => by rw [(hs.controlWrite_frame w).1]; exact h.record record⟩
  rw [controlWrite_eq]
  cases writtenCommand w with
  | none => exact h.total
  | some c =>
      cases c with
      | start | stop => exact h.total
      | clear => exact (congrArg MonitorStats.totalCpuTime (stats_clearRecords s)).trans h.total
      | resetStats => rfl

theorem Uncharged.apply {s : Monitor K} {waiting : Addr → Prop} (h : Uncharged s)
    (hs : Accounted s waiting) (effect : Effect K)
    (hfresh : ∀ r, effect = .allocate r → r.cpuTime = 0) : Uncharged (effect.apply s) := by
  cases effect with
  | nothing => exact h
  | allocate r => exact ⟨h.total, h.update s.nextAddr (hfresh r rfl)⟩
  | link pid record =>
      refine ⟨?_, fun other => ?_⟩
      · rw [Effect.apply, (addProcessRecordLocked_frame pid record s).1,
          totalCpuTime_countCreated]
        exact h.total
      · rw [Effect.apply, addProcessRecordLocked_mem]
        exact h.record other
  | mark pid exitCode jiffies =>
      rw [Effect.apply]
      rcases markProcessExitLocked_cases pid exitCode jiffies s with
        ⟨-, hs'⟩ | ⟨record, -, hs'⟩
      · rwa [hs']
      · rw [hs']
        refine ⟨?_, h.update record (h.record record)⟩
        rw [totalCpuTime_countExited, h.record record, h.total]
        exact BitVec.add_zero 0
  | command w => exact h.controlWrite hs w
  | configure w =>
      rw [Effect.apply, filterWrite_eq]
      exact ⟨h.total, h.record⟩

/-- A record is allocated without a charge. -/
theorem System.cpuTime_of_allocate {s : System K} {e : Event K} {r : ProcessRecord K}
    (h : s.effect e = .allocate r) : r.cpuTime = 0 := by
  cases e with
  | addEnter cpu pid ppid comm alloc =>
      rw [effect] at h
      split at h
      · cases h
      · split at h
        · cases h
          rfl
        · cases h
  | lock cpu =>
      rw [effect] at h
      split at h <;> cases h
  | tick | exitEnter | tail | control | filter => cases h

/-! ### Reports in a schedule -/

/-- What a report says, beside the records of the list and the lifetimes that have been
counted. The average is between the extremes as long as the sum of the lifetimes fits. -/
structure StatsReport.Consistent (r : StatsReport K) (records : List (ProcessRecord K))
    (counted : List (ULong K)) : Prop where
  counters : r.stats.population.Right
  running_le : running records ≤ r.stats.currentProcesses.toNat
  records_eq : r.records.toNat = records.length
  records_le : r.records.toNat ≤ MAX_PROCESS_RECORDS
  exited_eq : r.stats.totalProcessesExited.toNat = counted.length
  extremes : counted ≠ [] →
    IsGreatest {lifetime | lifetime ∈ counted} r.stats.longestLifetime ∧
      IsLeast {lifetime | lifetime ∈ counted} r.stats.shortestLifetime
  average : counted ≠ [] → RunningMean.total counted < 2 ^ K.bitsPerLong →
    r.stats.summary.Sound counted
  uncharged : r.stats.totalCpuTime = 0
  turnover : ∀ rate, r.turnover = some rate →
    counted ≠ [] ∧ rate ≤ r.stats.totalProcessesExited

namespace Counting

/-- What holds after `n` events. -/
structure Reported (n : ℕ) (t : Counting K) : Prop where
  consistent : t.sys.Consistent
  counters : t.sys.mon.ledger.Counted
  created_le : t.sys.mon.ledger.stats.totalProcessesCreated.toNat ≤ n
  length_le : t.counted.length ≤ n
  summary : t.sys.mon.stats.summary = .of t.counted
  uncharged : Uncharged t.sys.mon

theorem reported_load (K : Kernel) : Reported 0 (load K) where
  consistent := System.consistent_load K
  counters := Ledger.counted_load K
  created_le := by simp [load, System.load, Monitor.load, Monitor.ledger, MonitorStats.zero]
  length_le := Nat.le_refl _
  summary := rfl
  uncharged := uncharged_load K

theorem length_count_le (s : Monitor K) (counted : List (ULong K)) (effect : Effect K) :
    (effect.count s counted).length ≤ counted.length + 1 := by
  rw [Effect.count]
  split
  · exact Nat.zero_le _
  · rw [List.length_append]
    exact Nat.add_le_add_left Option.length_toList_le _

theorem Reported.step {n : ℕ} {t : Counting K} (h : Reported n t) {e : Event K}
    (hroom : n + 1 < 2 ^ K.bitsPerLong) (hreset : t.sys.ResetsIdle e) :
    Reported (n + 1) (t.step e) where
  consistent := h.consistent.step e
  counters := System.counted_step h.consistent h.counters e
    (Nat.lt_of_le_of_lt (Nat.succ_le_succ h.created_le) hroom) hreset
  created_le := (System.created_step_le h.consistent e).trans (Nat.succ_le_succ h.created_le)
  length_le := (length_count_le ..).trans (Nat.succ_le_succ h.length_le)
  summary := by
    show (t.sys.step e).mon.stats.summary = _
    rw [System.mon_step]
    exact Effect.summary_apply h.summary _
  uncharged := by
    show Uncharged (t.sys.step e).mon
    rw [System.mon_step]
    exact h.uncharged.apply h.consistent.accounted _ fun r => System.cpuTime_of_allocate

/-- A rate is shown only for processes that have exited. -/
theorem turnoverRate_eq_some {exited jiffies jiffies' rate : ULong K}
    (h : turnoverRate exited jiffies jiffies' = some rate) : exited > 0 ∧ rate ≤ exited := by
  rw [turnoverRate] at h
  split at h
  · rename_i hpos
    dsimp only at h
    split at h
    · refine ⟨hpos.1, ?_⟩
      rw [← Option.some.inj h, BitVec.le_def, BitVec.toNat_udiv]
      exact Nat.div_le_self ..
    · cases h
  · cases h

theorem Reported.statsShow {n : ℕ} {t : Counting K} (h : Reported n t)
    (hn : n < 2 ^ K.bitsPerLong) (jiffies jiffies' : ULong K) :
    (statsShow t.sys.mon jiffies jiffies').Consistent t.sys.mon.records t.counted := by
  have hindexed := h.consistent.accounted.toIndexed
  have hlength : t.sys.mon.records.length = t.sys.mon.processList.length := List.length_map ..
  have hrecords : (BitVec.ofInt 32 t.sys.mon.recordCount).toNat = t.sys.mon.records.length := by
    rw [hindexed.count, hlength, BitVec.ofInt_natCast, BitVec.toNat_ofNat]
    exact Nat.mod_eq_of_lt (Nat.lt_of_le_of_lt hindexed.bound (by decide))
  have hexited : t.sys.mon.stats.totalProcessesExited.toNat = t.counted.length := by
    have hcount : t.sys.mon.stats.totalProcessesExited = BitVec.ofNat _ t.counted.length :=
      (congrArg (fun m => m.count) h.summary).trans (RunningSummary.count_of _)
    rw [hcount, BitVec.toNat_ofNat]
    exact Nat.mod_eq_of_lt (Nat.lt_of_le_of_lt h.length_le hn)
  have hfew := Nat.lt_of_le_of_lt h.length_le hn
  refine ⟨h.counters.right, h.counters.may_leave, hrecords, ?_, hexited, fun hne => ?_,
    fun hne hfits => ?_, h.uncharged.total, fun rate hrate => ?_⟩
  · exact (hrecords.trans hlength).trans_le hindexed.bound
  · have hextremes := RunningSummary.extremes_of hne hfew
    rw [← h.summary] at hextremes
    exact hextremes
  · show t.sys.mon.stats.summary.Sound _
    rw [h.summary]
    exact RunningSummary.sound_of hne hfew hfits
  · obtain ⟨hpos, hle⟩ := turnoverRate_eq_some hrate
    refine ⟨?_, hle⟩
    rintro hnil
    rw [hnil] at hexited
    rw [gt_iff_lt, BitVec.lt_def, hexited] at hpos
    exact absurd hpos (by simp)

/-- **Every report** in a schedule is consistent, if the schedule is short enough for the
counters and resets them only while nothing is running: whenever `stats_show` is called,
and however its two readings of the clock fall. The average it reports is between the
extremes where the lifetimes counted add up to an `unsigned long`. -/
theorem stats_reports_consistent {es : List (Event K)} (hlen : es.length < 2 ^ K.bitsPerLong)
    (h : StepsMeet step (fun t e => t.sys.ResetsIdle e) (load K) es) :
    Throughout step (fun t => ∀ jiffies jiffies' : ULong K,
      (CompleteMonitor.statsShow t.sys.mon jiffies jiffies').Consistent t.sys.mon.records
        t.counted) (load K) es := by
  have hreported := h.throughout_counted (fun n t e hroom ht hreset => ht.step hroom hreset)
    (reported_load K) (by omega)
  exact hreported.imp fun t ⟨n, hn, ht⟩ => ht.statsShow hn

theorem stats_reports_of_life :
    Throughout step (fun t => ∀ jiffies jiffies' : ULong .x86_64,
      (CompleteMonitor.statsShow t.sys.mon jiffies jiffies').Consistent t.sys.mon.records
        t.counted) (load .x86_64)
      (lives [250] ++ [.control ControlCommand.resetStats.write]) :=
  stats_reports_consistent (by decide) (by decide)

end Counting

/-! ### Reading the count without the lock -/

/-- What `record_count` holds in the course of an effect. -/
def Effect.recordCounts (s : Monitor K) (effect : Effect K) : List ℤ :=
  match effect with
  | .link .. => [s.recordCount, (evictOldest s).recordCount, (effect.apply s).recordCount]
  | _ => [s.recordCount, (effect.apply s).recordCount]

theorem Indexed.recordCount_mem {s : Monitor K} (h : Indexed s) :
    0 ≤ s.recordCount ∧ s.recordCount ≤ MAX_PROCESS_RECORDS := by
  have hbound := h.bound
  rw [h.count]
  omega

theorem System.recordCounts_bounded {s : System K} (h : s.Consistent) (e : Event K) :
    ∀ n ∈ (s.effect e).recordCounts s.mon, 0 ≤ n ∧ n ≤ MAX_PROCESS_RECORDS := by
  intro n hn
  have hbefore := h.accounted.toIndexed
  have hafter := (h.step e).accounted.toIndexed
  rw [System.mon_step] at hafter
  unfold Effect.recordCounts at hn
  split at hn
  · simp only [List.mem_cons, List.not_mem_nil, or_false] at hn
    rcases hn with rfl | rfl | rfl
    · exact hbefore.recordCount_mem
    · exact hbefore.evictOldest.recordCount_mem
    · exact hafter.recordCount_mem
  · simp only [List.mem_cons, List.not_mem_nil, or_false] at hn
    rcases hn with rfl | rfl
    · exact hbefore.recordCount_mem
    · exact hafter.recordCount_mem

theorem fitsInt_of_bounded {n : ℤ} (h : 0 ≤ n ∧ n ≤ MAX_PROCESS_RECORDS) : FitsInt n := by
  have hmax : n ≤ 1000 := h.2
  unfold FitsInt
  omega

/-- **Whenever** `control_show` reads the count, in the middle of a critical section too,
it is between 0 and the limit: the oldest record leaves before the new one comes. So the
text tells the switch and the count that were read. -/
theorem System.control_text_tells (es es' : List (Event K)) (e e' : Event K) :
    (∀ n ∈ ((run step (load K) es).effect e).recordCounts (run step (load K) es).mon,
      0 ≤ n ∧ n ≤ MAX_PROCESS_RECORDS) ∧
    ∀ n ∈ ((run step (load K) es).effect e).recordCounts (run step (load K) es).mon,
      ∀ n' ∈ ((run step (load K) es').effect e').recordCounts (run step (load K) es').mon,
        ∀ enabled enabled' : Bool,
          controlShow enabled (.ofInt 32 n) = controlShow enabled' (.ofInt 32 n') ↔
            enabled = enabled' ∧ n = n' := by
  have hbounded := recordCounts_bounded (System.consistent_run es) e
  have hbounded' := recordCounts_bounded (System.consistent_run es') e'
  refine ⟨hbounded, fun n hn n' hn' enabled enabled' => ⟨fun h => ?_, ?_⟩⟩
  · simp only [controlShow, List.flatten_cons] at h
    obtain ⟨hswitch, h⟩ := line_inj (c := 10) rfl (newline_notMem_shownSwitch _)
      (newline_notMem_shownSwitch _) (List.append_cancel_left h)
    obtain ⟨hcount, -⟩ := line_printInt_inj (c := 47) rfl (by decide) h
    exact ⟨shownSwitch_injective hswitch, eq_of_ofInt_eq (fitsInt_of_bounded (hbounded n hn))
      (fitsInt_of_bounded (hbounded' n' hn')) hcount⟩
  · rintro ⟨rfl, rfl⟩
    rfl

end KernelModules.CompleteMonitor
