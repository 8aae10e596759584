import KernelModules.Kernel
import KernelModules.Lib.Update

/-!
`process_monitor.c`: the module with a plain list.

Records are linked into `process_list` only, and no function keeps a pointer to
one beyond its critical section, so a record is its value and the list is a list
of values. An exit is looked up from the oldest record on.
-/

namespace KernelModules.ProcessMonitor

open Lib

abbrev MAX_PROCESS_RECORDS : ℕ := 1000

theorem maxProcessRecords_pos : 0 < MAX_PROCESS_RECORDS := by decide

/-- `struct process_record`, without its link. -/
structure ProcessRecord (K : Kernel) where
  pid : PidT
  ppid : PidT
  comm : CharArray TASK_COMM_LEN
  startTime : ULong K
  endTime : ULong K
  status : CInt
  deriving DecidableEq

/-- `struct monitor_stats`. -/
structure MonitorStats (K : Kernel) where
  totalProcessesCreated : ULong K
  totalProcessesExited : ULong K
  currentProcesses : ULong K
  peakProcesses : ULong K
  deriving DecidableEq

/-- `memset(&stats, 0, sizeof(stats))`. -/
def MonitorStats.zero (K : Kernel) : MonitorStats K := ⟨0, 0, 0, 0⟩

/-- The static variables of the module. -/
structure Monitor (K : Kernel) where
  stats : MonitorStats K
  processList : List (ProcessRecord K)
  recordCount : ℤ
  deriving DecidableEq

variable {K : Kernel}

/-- The state `process_monitor_init` leaves behind. -/
def Monitor.load (K : Kernel) : Monitor K := ⟨.zero K, [], 0⟩

/-! ### `add_process_record` -/

/-- The record `add_process_record` fills in. -/
def newRecord (pid ppid : PidT) (comm : List UInt8) (jiffies : ULong K) : ProcessRecord K where
  pid := pid
  ppid := ppid
  comm := ((CharArray.zero TASK_COMM_LEN).strncpy comm TASK_COMM_LEN).set (TASK_COMM_LEN - 1) 0
  startTime := jiffies
  endTime := 0
  status := 1

/-- The eviction branch of `add_process_record`. On an empty list `list_first_entry`
yields a pointer to no record, which is a fault in the memory below. -/
def evictOldest (s : Monitor K) : Monitor K :=
  if s.recordCount ≥ MAX_PROCESS_RECORDS then
    match s.processList with
    | [] => { s with recordCount := s.recordCount - 1 }
    | _ :: rest => { s with processList := rest, recordCount := s.recordCount - 1 }
  else s

/-- The counters that `add_process_record` advances. -/
def MonitorStats.countCreated (stats : MonitorStats K) : MonitorStats K :=
  let stats := { stats with
    totalProcessesCreated := stats.totalProcessesCreated + 1
    currentProcesses := stats.currentProcesses + 1 }
  if stats.currentProcesses > stats.peakProcesses then
    { stats with peakProcesses := stats.currentProcesses }
  else stats

def addProcessRecord (pid ppid : PidT) (comm : List UInt8) (jiffies : ULong K) (alloc : Bool)
    (s : Monitor K) : Monitor K :=
  if !alloc then s
  else
    let s := evictOldest s
    let s := { s with
      processList := s.processList ++ [newRecord pid ppid comm jiffies]
      recordCount := s.recordCount + 1 }
    { s with stats := s.stats.countCreated }

/-! ### `mark_process_exit` -/

/-- The test of the loop in `mark_process_exit`. -/
def ProcessRecord.runs (pid : PidT) (record : ProcessRecord K) : Bool :=
  record.pid = pid && record.status = 1

/-- The record as `mark_process_exit` leaves it. -/
def ProcessRecord.exited (jiffies : ULong K) (record : ProcessRecord K) : ProcessRecord K :=
  { record with endTime := jiffies, status := 0 }

/-- The counters that `mark_process_exit` advances. -/
def MonitorStats.countExited (stats : MonitorStats K) : MonitorStats K :=
  { stats with
    totalProcessesExited := stats.totalProcessesExited + 1
    currentProcesses := stats.currentProcesses - 1 }

/-- `mark_process_exit`. The loop leaves at the first record it marks. -/
def markProcessExit (pid : PidT) (jiffies : ULong K) (s : Monitor K) : Monitor K :=
  if s.processList.any (ProcessRecord.runs pid) then
    { s with
      processList := updateFirst (ProcessRecord.runs pid) (.exited jiffies) s.processList
      stats := s.stats.countExited }
  else s

/-! ### `/proc/process_monitor` -/

/-- Whether an accepted write is taken for `clear`. Only the first five
characters count. -/
def isClear (cmd : List UInt8) : Bool := strncmp cmd (ascii ['c', 'l', 'e', 'a', 'r']) 5 = 0

/-- The loop and the resets of the `clear` command. -/
def clear (s : Monitor K) : Monitor K :=
  { s with processList := [], stats := .zero K, recordCount := 0 }

/-- `process_monitor_write`. -/
def processMonitorWrite (w : UserWrite) (s : Monitor K) : Monitor K × Except Errno ℕ :=
  match w.copy 32 with
  | .error e => (s, .error e)
  | .ok cmd => (if isClear cmd then clear s else s, .ok w.bytes.length)

/-! ### One operation at a time -/

inductive Op (K : Kernel)
  | add (pid ppid : PidT) (comm : List UInt8) (jiffies : ULong K) (alloc : Bool)
  | exit (pid : PidT) (jiffies : ULong K)
  | write (w : UserWrite)

def Monitor.exec (s : Monitor K) : Op K → Monitor K
  | .add pid ppid comm jiffies alloc => addProcessRecord pid ppid comm jiffies alloc s
  | .exit pid jiffies => markProcessExit pid jiffies s
  | .write w => (processMonitorWrite w s).1

/-- The operation is a write that clears the module. -/
def Op.clears : Op K → Bool
  | .write w =>
      match w.copy 32 with
      | .error _ => false
      | .ok cmd => isClear cmd
  | _ => false

/-! ### What the operations do -/

theorem Monitor.exec_write (s : Monitor K) (w : UserWrite) :
    s.exec (.write w) = if (Op.write w : Op K).clears then clear s else s := by
  rw [Monitor.exec, processMonitorWrite, Op.clears]
  cases w.copy 32 with
  | error e => rfl
  | ok cmd => rfl

theorem evictOldest_stats (s : Monitor K) : (evictOldest s).stats = s.stats := by
  unfold evictOldest
  split
  · split <;> rfl
  · rfl

/-- The counter counts the list, within its bound. -/
structure Counts (s : Monitor K) : Prop where
  count : s.recordCount = s.processList.length
  bound : s.processList.length ≤ MAX_PROCESS_RECORDS

theorem counts_load (K : Kernel) : Counts (Monitor.load K) := ⟨rfl, Nat.zero_le _⟩

/-- An addition pushes into the bounded list and counts. -/
theorem Counts.addProcessRecord_eq {s : Monitor K} (h : Counts s) (pid ppid : PidT)
    (comm : List UInt8) (jiffies : ULong K) :
    addProcessRecord pid ppid comm jiffies true s =
      { stats := s.stats.countCreated
        processList := pushBounded MAX_PROCESS_RECORDS s.processList
          (newRecord pid ppid comm jiffies)
        recordCount := (pushBounded MAX_PROCESS_RECORDS s.processList
          (newRecord pid ppid comm jiffies)).length } := by
  obtain ⟨hcount, hbound⟩ := h
  rw [addProcessRecord, if_neg (by decide), length_pushBounded maxProcessRecords_pos hbound]
  by_cases hfull : MAX_PROCESS_RECORDS ≤ s.processList.length
  · have hge : s.recordCount ≥ MAX_PROCESS_RECORDS := by omega
    cases hlist : s.processList with
    | nil =>
        rw [hlist] at hfull
        exact absurd hfull (by simp)
    | cons oldest rest =>
        rw [pushBounded_of_le (by rwa [hlist] at hfull)]
        simp only [evictOldest, if_pos hge, hlist, List.tail_cons]
        rw [hlist, List.length_cons] at hcount hbound hfull
        congr 1
        rw [List.length_cons]
        omega
  · have hlt : ¬ s.recordCount ≥ MAX_PROCESS_RECORDS := by omega
    rw [pushBounded_of_lt (Nat.lt_of_not_le hfull)]
    simp only [evictOldest, if_neg hlt]
    congr 1
    omega

/-- What an exit does: nothing, or it marks the oldest running record of the pid
and counts it. -/
theorem markProcessExit_cases (pid : PidT) (jiffies : ULong K) (s : Monitor K) :
    ((∀ r ∈ s.processList, r.runs pid = false) ∧ markProcessExit pid jiffies s = s) ∨
      ∃ before r after, s.processList = before ++ r :: after ∧ r.runs pid = true ∧
        (∀ r' ∈ before, r'.runs pid = false) ∧
        markProcessExit pid jiffies s =
          { s with
            processList := before ++ r.exited jiffies :: after
            stats := s.stats.countExited } := by
  by_cases hany : ∃ r ∈ s.processList, r.runs pid = true
  · obtain ⟨before, r, after, hlist, hr, hbefore⟩ := exists_first hany
    refine .inr ⟨before, r, after, hlist, hr, hbefore, ?_⟩
    rw [markProcessExit, if_pos (List.any_eq_true.mpr hany), hlist, updateFirst_split hbefore hr]
  · have hnone : ∀ r ∈ s.processList, r.runs pid = false := fun r hr => by
      simpa using fun hruns => hany ⟨r, hr, hruns⟩
    exact .inl ⟨hnone, by rw [markProcessExit, if_neg (by simpa using hnone)]⟩

theorem Counts.exec {s : Monitor K} (h : Counts s) (op : Op K) : Counts (s.exec op) := by
  cases op with
  | add pid ppid comm jiffies alloc =>
      cases alloc with
      | false => exact h
      | true =>
          rw [Monitor.exec, h.addProcessRecord_eq]
          refine ⟨rfl, ?_⟩
          rw [length_pushBounded maxProcessRecords_pos h.bound]
          exact Nat.min_le_left ..
  | exit pid jiffies =>
      rw [Monitor.exec]
      rcases markProcessExit_cases pid jiffies s with ⟨-, hs⟩ | ⟨before, r, after, hlist, -, -, hs⟩
      · rwa [hs]
      · rw [hs]
        obtain ⟨hcount, hbound⟩ := h
        rw [hlist] at hcount hbound
        exact ⟨by simpa using hcount, by simpa using hbound⟩
  | write w =>
      rw [Monitor.exec_write]
      split
      · exact counts_load K
      · exact h

end KernelModules.ProcessMonitor
