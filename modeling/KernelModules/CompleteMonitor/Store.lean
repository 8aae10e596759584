import KernelModules.Kernel
import KernelModules.Lib.Update

/-!
The record store of `05_complete_monitor.c`, with its pointers.

A record lives at an address and is linked by that address into three places at
once: `processList` in order of arrival, one chain of `processHash`, and
`processTree`. The memory `mem` holds what was last written at an address;
`kfree` only notes the address in `freed`, so a use of a freed record is visible
as a use of an address that is no longer linked.

The two functions that the probes call are cut where their locks are: what
happens before `process_lock` is taken, the critical section, and the tail after
the unlock that consults the filter and prints.
-/

namespace KernelModules.CompleteMonitor

open Lib

abbrev MAX_PROCESS_RECORDS : ℕ := 1000

theorem maxProcessRecords_pos : 0 < MAX_PROCESS_RECORDS := by decide

/-- `struct process_record`, without its links. -/
structure ProcessRecord (K : Kernel) where
  pid : PidT
  ppid : PidT
  comm : CharArray TASK_COMM_LEN
  startTime : ULong K
  endTime : ULong K
  status : CInt
  cpuTime : ULong K
  memoryUsage : ULong K
  exitCode : CInt
  deriving DecidableEq

/-- `struct monitor_stats`. -/
structure MonitorStats (K : Kernel) where
  totalProcessesCreated : ULong K
  totalProcessesExited : ULong K
  currentProcesses : ULong K
  peakProcesses : ULong K
  totalCpuTime : ULong K
  avgLifetime : ULong K
  longestLifetime : ULong K
  shortestLifetime : ULong K
  deriving DecidableEq

/-- `struct filter_config`. -/
structure FilterConfig where
  targetPid : PidT
  targetPpid : PidT
  targetComm : CharArray TASK_COMM_LEN
  minLifetime : CInt
  maxLifetime : CInt
  enabled : Bool
  deriving DecidableEq

/-- `memset(&stats, 0, sizeof(stats))`. -/
def MonitorStats.zero (K : Kernel) : MonitorStats K := ⟨0, 0, 0, 0, 0, 0, 0, 0⟩

/-- `memset(&filter, 0, sizeof(filter))`. -/
def FilterConfig.zero : FilterConfig := ⟨0, 0, .zero _, 0, 0, false⟩

/-- What a zeroed page holds. -/
def ProcessRecord.zero (K : Kernel) : ProcessRecord K := ⟨0, 0, .zero _, 0, 0, 0, 0, 0, 0⟩

/-- The static variables of the module, and the memory its records live in. -/
structure Monitor (K : Kernel) where
  stats : MonitorStats K
  filter : FilterConfig
  processList : List Addr
  processHash : Bucket → List Addr
  processTree : RbTree Addr
  recordCount : ℤ
  monitoringEnabled : Bool
  mem : Addr → ProcessRecord K
  nextAddr : Addr
  freed : List Addr

variable {K : Kernel}

/-- The state `complete_monitor_init` leaves behind. -/
def Monitor.load (K : Kernel) : Monitor K where
  stats := .zero K
  filter := .zero
  processList := []
  processHash _ := []
  processTree := .nil
  recordCount := 0
  monitoringEnabled := true
  mem _ := .zero K
  nextAddr := 0
  freed := []

/-! ### Lookup, tree and filter -/

/-- The test of the loop in `find_process_by_pid`. -/
def ProcessRecord.runs (pid : PidT) (record : ProcessRecord K) : Bool :=
  record.pid = pid && record.status = 1

/-- `find_process_by_pid`: walk the chain of the pid's bucket. -/
def findProcessByPid (s : Monitor K) (pid : PidT) : Option Addr :=
  (s.processHash (K.hashMin pid)).find? fun record => (s.mem record).runs pid

/-- `insert_process_rb_tree`. -/
def insertProcessRbTree (record : Addr) (s : Monitor K) : Monitor K :=
  { s with
    processTree := K.rbInsertColor record <|
      s.processTree.link
        (fun this => (s.mem record).startTime < (s.mem this).startTime) record }

/-- `remove_process_rb_tree`. -/
def removeProcessRbTree (record : Addr) (s : Monitor K) : Monitor K :=
  { s with processTree := K.rbErase record s.processTree }

/-- Whole seconds between the two times of a record, as every lifetime in the
module is computed. -/
def ProcessRecord.lifetime (record : ProcessRecord K) : ULong K :=
  (record.endTime - record.startTime) / BitVec.ofNat _ K.HZ

/-- `process_matches_filter`. The configured limits are `int`s that the
comparison converts to `unsigned long`. -/
def processMatchesFilter (filter : FilterConfig) (record : ProcessRecord K) : Bool :=
  if !filter.enabled then true
  else if filter.targetPid ≠ 0 ∧ record.pid ≠ filter.targetPid then false
  else if filter.targetPpid ≠ 0 ∧ record.ppid ≠ filter.targetPpid then false
  else if strlen filter.targetComm.bytes ≠ 0 ∧
      strncmp record.comm.bytes filter.targetComm.bytes TASK_COMM_LEN ≠ 0 then false
  else if record.status = 0 then
    if filter.minLifetime ≠ 0 ∧ record.lifetime < filter.minLifetime.signExtend _ then false
    else if filter.maxLifetime ≠ 0 ∧ record.lifetime > filter.maxLifetime.signExtend _ then false
    else true
  else true

/-! ### Linking and unlinking -/

/-- What eviction and `clear` both do to a record: take it out of the three
structures and free it. -/
def unlinkRecord (record : Addr) (s : Monitor K) : Monitor K :=
  -- `list_del`
  let s := { s with processList := s.processList.erase record }
  -- `hash_del`
  let s := { s with processHash := fun bucket => (s.processHash bucket).erase record }
  let s := removeProcessRbTree record s
  -- `kfree`
  { s with freed := s.freed ++ [record] }

/-- The eviction branch of `add_process_record`. On an empty list `list_first_entry`
yields a pointer to no record; the branch is never entered there. -/
def evictOldest (s : Monitor K) : Monitor K :=
  if s.recordCount ≥ MAX_PROCESS_RECORDS then
    match s.processList with
    | [] => { s with recordCount := s.recordCount - 1 }
    | oldest :: _ => { unlinkRecord oldest s with recordCount := s.recordCount - 1 }
  else s

/-- The linking half of `add_process_record`. -/
def linkRecord (pid : PidT) (record : Addr) (s : Monitor K) : Monitor K :=
  -- `list_add_tail`
  let s := { s with processList := s.processList ++ [record] }
  -- `hash_add`
  let s := { s with
    processHash := Function.update s.processHash (K.hashMin pid)
      (record :: s.processHash (K.hashMin pid)) }
  let s := insertProcessRbTree record s
  { s with recordCount := s.recordCount + 1 }

/-- The counters that `add_process_record` advances. -/
def MonitorStats.countCreated (stats : MonitorStats K) : MonitorStats K :=
  let stats := { stats with
    totalProcessesCreated := stats.totalProcessesCreated + 1
    currentProcesses := stats.currentProcesses + 1 }
  if stats.currentProcesses > stats.peakProcesses then
    { stats with peakProcesses := stats.currentProcesses }
  else stats

/-- The counters that `mark_process_exit` advances. -/
def MonitorStats.countExited (lifetime cpuTime : ULong K) (stats : MonitorStats K) :
    MonitorStats K :=
  let stats : MonitorStats K := { stats with
    totalProcessesExited := stats.totalProcessesExited + 1
    currentProcesses := stats.currentProcesses - 1
    totalCpuTime := stats.totalCpuTime + cpuTime }
  let stats : MonitorStats K :=
    if stats.totalProcessesExited = 1 then
      { stats with longestLifetime := lifetime, shortestLifetime := lifetime }
    else
      let stats : MonitorStats K :=
        if lifetime > stats.longestLifetime then { stats with longestLifetime := lifetime }
        else stats
      if lifetime < stats.shortestLifetime then { stats with shortestLifetime := lifetime }
      else stats
  if stats.totalProcessesExited > 0 then
    { stats with
      avgLifetime := (stats.avgLifetime * (stats.totalProcessesExited - 1) + lifetime) /
        stats.totalProcessesExited }
  else stats

/-! ### `add_process_record` and `mark_process_exit` -/

/-- The record `add_process_record` fills in. -/
def newRecord (pid ppid : PidT) (comm : List UInt8) (jiffies : ULong K) : ProcessRecord K where
  pid := pid
  ppid := ppid
  comm := ((CharArray.zero TASK_COMM_LEN).strncpy comm TASK_COMM_LEN).set (TASK_COMM_LEN - 1) 0
  startTime := jiffies
  endTime := 0
  status := 1
  cpuTime := 0
  memoryUsage := 0
  exitCode := 0

/-- `add_process_record` up to the lock: the test of `monitoring_enabled`, the
allocation (which may fail) and the initialisation. Yields the record with which
the call goes on, if it does. -/
def addProcessRecordEnter (pid ppid : PidT) (comm : List UInt8) (jiffies : ULong K)
    (alloc : Bool) (s : Monitor K) : Monitor K × Option Addr :=
  if !s.monitoringEnabled then (s, none)
  else if !alloc then (s, none)
  else
    ({ s with
        nextAddr := s.nextAddr + 1
        mem := Function.update s.mem s.nextAddr (newRecord pid ppid comm jiffies) },
      some s.nextAddr)

/-- The critical section of `add_process_record`. -/
def addProcessRecordLocked (pid : PidT) (record : Addr) (s : Monitor K) : Monitor K :=
  let s := linkRecord pid record (evictOldest s)
  { s with stats := s.stats.countCreated }

/-- The record as `mark_process_exit` leaves it. -/
def ProcessRecord.exited (exitCode : CInt) (jiffies : ULong K) (record : ProcessRecord K) :
    ProcessRecord K :=
  { record with endTime := jiffies, status := 0, exitCode := exitCode }

/-- The critical section of `mark_process_exit`. Yields the record it marked and
the lifetime it computed, which the tail still uses. -/
def markProcessExitLocked (pid : PidT) (exitCode : CInt) (jiffies : ULong K) (s : Monitor K) :
    Monitor K × Option (Addr × ULong K) :=
  match findProcessByPid s pid with
  | none => (s, none)
  | some record =>
      let marked := (s.mem record).exited exitCode jiffies
      ({ s with
          mem := Function.update s.mem record marked
          stats := s.stats.countExited marked.lifetime marked.cpuTime },
        some (record, marked.lifetime))

/-- A whole call of `add_process_record` with nothing in between. Its tail only
prints. -/
def addProcessRecord (pid ppid : PidT) (comm : List UInt8) (jiffies : ULong K) (alloc : Bool)
    (s : Monitor K) : Monitor K :=
  match addProcessRecordEnter pid ppid comm jiffies alloc s with
  | (s, none) => s
  | (s, some record) => addProcessRecordLocked pid record s

/-- A whole call of `mark_process_exit` with nothing in between. -/
def markProcessExit (pid : PidT) (exitCode : CInt) (jiffies : ULong K) (s : Monitor K) :
    Monitor K :=
  if !s.monitoringEnabled then s
  else (markProcessExitLocked pid exitCode jiffies s).1

/-! ### Running records -/

def ProcessRecord.isRunning (r : ProcessRecord K) : Bool := r.status = 1

theorem ProcessRecord.runs_iff {pid : PidT} {r : ProcessRecord K} :
    r.runs pid = true ↔ r.pid = pid ∧ r.isRunning = true := by
  simp [runs, isRunning]

@[simp] theorem ProcessRecord.pid_exited (r : ProcessRecord K) (exitCode : CInt)
    (jiffies : ULong K) : (r.exited exitCode jiffies).pid = r.pid := rfl

@[simp] theorem ProcessRecord.isRunning_exited (r : ProcessRecord K) (exitCode : CInt)
    (jiffies : ULong K) : (r.exited exitCode jiffies).isRunning = false := by
  simp [isRunning, exited]

end KernelModules.CompleteMonitor
