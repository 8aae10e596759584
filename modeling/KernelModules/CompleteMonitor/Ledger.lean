import KernelModules.CompleteMonitor.Accounting
import KernelModules.Processes

/-!
The store without pointers.

What the outside sees of the module between operations is a list of record
values, the statistics, the filter and the switch. `Ledger` is that, with the
operations on it: a bounded append, a change of the newest running record of a
pid, and the commands. `Monitor.ledger` reads it off a monitor, and
`ledger_run` says that the module with its list, hash table and tree refines it.
Counting arguments about whole runs are made on ledgers.
-/

namespace KernelModules.CompleteMonitor

open Lib

variable {K : Kernel}

structure Ledger (K : Kernel) where
  records : List (ProcessRecord K)
  stats : MonitorStats K
  filter : FilterConfig
  monitoringEnabled : Bool

namespace Ledger

def load (K : Kernel) : Ledger K := ⟨[], .zero K, .zero, true⟩

/-- The newest running record of a pid. -/
def newest (pid : PidT) (records : List (ProcessRecord K)) : Option (ProcessRecord K) :=
  records.reverse.find? (ProcessRecord.runs pid)

def add (r : ProcessRecord K) (l : Ledger K) : Ledger K :=
  { l with
    records := pushBounded MAX_PROCESS_RECORDS l.records r
    stats := l.stats.countCreated }

def markExit (pid : PidT) (exitCode : CInt) (jiffies : ULong K) (l : Ledger K) : Ledger K :=
  match newest pid l.records with
  | none => l
  | some r =>
      { l with
        records := updateLast (ProcessRecord.runs pid) (.exited exitCode jiffies) l.records
        stats := l.stats.countExited (r.exited exitCode jiffies).lifetime r.cpuTime }

def control (l : Ledger K) : ControlCommand → Ledger K
  | .start => { l with monitoringEnabled := true }
  | .stop => { l with monitoringEnabled := false }
  | .clear => { l with records := [] }
  | .resetStats => { l with stats := .zero K }

def exec (l : Ledger K) : Op K → Ledger K
  | .add pid ppid comm jiffies alloc =>
      if l.monitoringEnabled && alloc then l.add (newRecord pid ppid comm jiffies) else l
  | .exit pid exitCode jiffies =>
      if l.monitoringEnabled then l.markExit pid exitCode jiffies else l
  | .control w =>
      match writtenCommand w with
      | none => l
      | some c => l.control c
  | .filter w =>
      match w.copy 128 with
      | .error _ => l
      | .ok cmd => { l with filter := l.filter.command K.bitsPerLong (stripNewline cmd) }

/-! ### Exits on the list of records -/

theorem newest_eq_none {pid : PidT} {records : List (ProcessRecord K)}
    (h : ∀ r ∈ records, r.runs pid = false) : newest pid records = none := by
  rw [newest, List.find?_eq_none]
  intro r hr
  simp [h r (List.mem_reverse.mp hr)]

theorem newest_split {pid : PidT} {before after : List (ProcessRecord K)} {r : ProcessRecord K}
    (hr : r.runs pid = true) (hafter : ∀ r' ∈ after, r'.runs pid = false) :
    newest pid (before ++ r :: after) = some r := by
  rw [newest, List.find?_eq_some_iff_append]
  refine ⟨hr, after.reverse, before.reverse, by simp, fun r' hr' => ?_⟩
  simp [hafter r' (List.mem_reverse.mp hr')]

/-- What an exit does: nothing, or it marks the newest running record of the pid
and counts it. -/
theorem markExit_cases (pid : PidT) (exitCode : CInt) (jiffies : ULong K) (l : Ledger K) :
    ((∀ r ∈ l.records, r.runs pid = false) ∧ l.markExit pid exitCode jiffies = l) ∨
      ∃ before r after, l.records = before ++ r :: after ∧ r.runs pid = true ∧
        (∀ r' ∈ after, r'.runs pid = false) ∧
        l.markExit pid exitCode jiffies =
          { l with
            records := before ++ r.exited exitCode jiffies :: after
            stats := l.stats.countExited (r.exited exitCode jiffies).lifetime r.cpuTime } := by
  unfold markExit
  rcases updateLast_cases (ProcessRecord.runs pid) (.exited exitCode jiffies) l.records with
    ⟨hnone, -⟩ | ⟨before, r, after, hrecords, hr, hafter, hupdate⟩
  · exact .inl ⟨hnone, by rw [newest_eq_none hnone]⟩
  · refine .inr ⟨before, r, after, hrecords, hr, hafter, ?_⟩
    have hnewest : newest pid l.records = some r := by rw [hrecords, newest_split hr hafter]
    simp only [hnewest, hupdate]

theorem exec_exit_of_enabled {l : Ledger K} (h : l.monitoringEnabled = true) (pid : PidT)
    (exitCode : CInt) (jiffies : ULong K) :
    l.exec (.exit pid exitCode jiffies) = l.markExit pid exitCode jiffies := by
  rw [exec, if_pos h]

/-- What one operation can do to a ledger: add a record, mark one, drop them
all, zero the statistics, or only set the switch or the filter. -/
theorem exec_cases (l : Ledger K) (op : Op K) :
    (∃ pid ppid comm jiffies, op = .add pid ppid comm jiffies true ∧
        l.monitoringEnabled = true ∧ l.exec op = l.add (newRecord pid ppid comm jiffies)) ∨
      (∃ pid exitCode jiffies, op = .exit pid exitCode jiffies ∧ l.monitoringEnabled = true ∧
        l.exec op = l.markExit pid exitCode jiffies) ∨
      (∃ w, op = .control w ∧ writtenCommand w = some .clear ∧
        l.exec op = { l with records := [] }) ∨
      (∃ w, op = .control w ∧ writtenCommand w = some .resetStats ∧
        l.exec op = { l with stats := .zero K }) ∨
      ∃ enabled filter, l.exec op = { l with monitoringEnabled := enabled, filter := filter } := by
  have hidle : l = { l with monitoringEnabled := l.monitoringEnabled, filter := l.filter } := rfl
  cases op with
  | add pid ppid comm jiffies alloc =>
      by_cases h : (l.monitoringEnabled && alloc) = true
      · obtain ⟨henabled, rfl⟩ := (Bool.and_eq_true _ _).mp h
        exact .inl ⟨pid, ppid, comm, jiffies, rfl, henabled, by rw [exec, if_pos h]⟩
      · exact .inr (.inr (.inr (.inr ⟨_, _, by rw [exec, if_neg h]⟩)))
  | exit pid exitCode jiffies =>
      by_cases h : l.monitoringEnabled = true
      · exact .inr (.inl ⟨pid, exitCode, jiffies, rfl, h, exec_exit_of_enabled h ..⟩)
      · exact .inr (.inr (.inr (.inr ⟨_, _, by rw [exec, if_neg h]⟩)))
  | control w =>
      cases hcmd : writtenCommand w with
      | none =>
          exact .inr (.inr (.inr (.inr ⟨_, _, by simp only [exec, hcmd]; exact hidle⟩)))
      | some c =>
          cases c with
          | start => exact .inr (.inr (.inr (.inr ⟨true, _, by simp only [exec, hcmd]; rfl⟩)))
          | stop => exact .inr (.inr (.inr (.inr ⟨false, _, by simp only [exec, hcmd]; rfl⟩)))
          | clear => exact .inr (.inr (.inl ⟨w, rfl, hcmd, by simp only [exec, hcmd]; rfl⟩))
          | resetStats =>
              exact .inr (.inr (.inr (.inl ⟨w, rfl, hcmd, by simp only [exec, hcmd]; rfl⟩)))
  | filter w =>
      cases hcopy : w.copy 128 with
      | error e =>
          exact .inr (.inr (.inr (.inr ⟨_, _, by simp only [exec, hcopy]; exact hidle⟩)))
      | ok cmd => exact .inr (.inr (.inr (.inr ⟨_, _, by simp only [exec, hcopy]; rfl⟩)))

end Ledger

/-! ### What the operations do to the list -/

/-- The records with their addresses, in list order. -/
def Monitor.entries (s : Monitor K) : List (Addr × ProcessRecord K) :=
  s.processList.map fun record => (record, s.mem record)

/-- Writing to one linked record changes one entry. -/
theorem entries_update {s : Monitor K} {before after : List Addr} {record : Addr}
    (hlist : s.processList = before ++ record :: after) (hnodup : s.processList.Nodup)
    (r : ProcessRecord K) :
    (s.processList.map fun other => (other, Function.update s.mem record r other)) =
      (before.map fun other => (other, s.mem other)) ++ (record, r) ::
        after.map fun other => (other, s.mem other) := by
  rw [hlist] at hnodup ⊢
  obtain ⟨-, htail, hcross⟩ := List.nodup_append.mp hnodup
  rw [List.map_append, List.map_cons, Function.update_self]
  congr 1
  · apply List.map_congr_left
    intro other ho
    rw [Function.update_of_ne (hcross other ho record (List.mem_cons_self ..))]
  · congr 1
    apply List.map_congr_left
    intro other ho
    rw [Function.update_of_ne]
    rintro rfl
    exact (List.nodup_cons.mp htail).1 ho

/-- An add with monitoring on writes a fresh record and pushes it. -/
theorem Stored.addProcessRecord_spec {s : Monitor K} (h : Stored s)
    (henabled : s.monitoringEnabled = true) (pid ppid : PidT) (comm : List UInt8)
    (jiffies : ULong K) :
    let s' := addProcessRecord pid ppid comm jiffies true s
    s'.entries = pushBounded MAX_PROCESS_RECORDS s.entries
        (s.nextAddr, newRecord pid ppid comm jiffies) ∧
      s'.mem = Function.update s.mem s.nextAddr (newRecord pid ppid comm jiffies) ∧
      s'.nextAddr = s.nextAddr + 1 ∧ s'.stats = s.stats.countCreated ∧ s'.filter = s.filter ∧
      s'.monitoringEnabled = s.monitoringEnabled := by
  rcases addProcessRecord_cases pid ppid comm jiffies true s with ⟨he, -⟩ | ⟨-, hs⟩
  · simp [henabled] at he
  · have hfresh : Indexed
        { s with
          nextAddr := s.nextAddr + 1
          mem := Function.update s.mem s.nextAddr (newRecord pid ppid comm jiffies) } :=
      ⟨h.toLinked.congr rfl rfl rfl fun record hr => by simp [h.mem_update_nextAddr _ hr],
        h.count, h.bound⟩
    obtain ⟨hstats, hfilter, henabled'⟩ := addProcessRecordLocked_frame pid s.nextAddr
      { s with
        nextAddr := s.nextAddr + 1
        mem := Function.update s.mem s.nextAddr (newRecord pid ppid comm jiffies) }
    -- the new record is written where no linked record is
    have hold : s.entries = s.processList.map fun record =>
        (record, Function.update s.mem s.nextAddr (newRecord pid ppid comm jiffies) record) :=
      List.map_congr_left fun record hr => by rw [h.mem_update_nextAddr _ hr]
    simp only [hs, hstats, hfilter, henabled', addProcessRecordLocked_mem,
      addProcessRecordLocked_nextAddr, Monitor.entries,
      hfresh.addProcessRecordLocked_processList, map_pushBounded, Function.update_self, and_true]
    rw [← hold]
    rfl

/-- The critical section of an exit does nothing, or it marks the newest running
record of the pid and counts it. -/
theorem Linked.markProcessExitLocked_spec {s : Monitor K} (h : Linked s) (pid : PidT)
    (exitCode : CInt) (jiffies : ULong K) :
    ((∀ e ∈ s.entries, e.2.runs pid = false) ∧
        (markProcessExitLocked pid exitCode jiffies s).1 = s) ∨
      ∃ before record after, s.entries = before ++ (record, s.mem record) :: after ∧
        (s.mem record).runs pid = true ∧ (∀ e ∈ after, e.2.runs pid = false) ∧
        (markProcessExitLocked pid exitCode jiffies s).1 =
          { s with
            mem := Function.update s.mem record ((s.mem record).exited exitCode jiffies)
            stats := s.stats.countExited ((s.mem record).exited exitCode jiffies).lifetime
              (s.mem record).cpuTime } ∧
        (markProcessExitLocked pid exitCode jiffies s).1.entries =
          before ++ (record, (s.mem record).exited exitCode jiffies) :: after := by
  rcases markProcessExitLocked_cases pid exitCode jiffies s with
    ⟨hfind, hs⟩ | ⟨record, hfind, hs⟩
  · refine .inl ⟨fun e he => ?_, by rw [hs]⟩
    obtain ⟨record, hrecord, rfl⟩ := List.mem_map.mp he
    rw [h.findProcessByPid_eq, List.find?_eq_none] at hfind
    simpa using hfind record (List.mem_reverse.mpr hrecord)
  · obtain ⟨hruns, before, after, hlist, hafter⟩ := h.findProcessByPid_split hfind
    refine .inr ⟨before.map fun other => (other, s.mem other), record,
      after.map fun other => (other, s.mem other), ?_, hruns, ?_, by rw [hs], ?_⟩
    · rw [Monitor.entries, hlist, List.map_append, List.map_cons]
    · intro e he
      obtain ⟨other, ho, rfl⟩ := List.mem_map.mp he
      exact hafter other ho
    · rw [hs, Monitor.entries]
      exact entries_update hlist h.nodup _

/-! ### The monitor refines its ledger -/

/-- The records, in list order. -/
def Monitor.records (s : Monitor K) : List (ProcessRecord K) := s.processList.map s.mem

theorem Monitor.map_snd_entries (s : Monitor K) : s.entries.map Prod.snd = s.records := by
  simp [entries, records, Function.comp_def]

def Monitor.ledger (s : Monitor K) : Ledger K :=
  ⟨s.records, s.stats, s.filter, s.monitoringEnabled⟩

theorem Linked.ledger_markProcessExitLocked {s : Monitor K} (h : Linked s) (pid : PidT)
    (exitCode : CInt) (jiffies : ULong K) :
    (markProcessExitLocked pid exitCode jiffies s).1.ledger =
      s.ledger.markExit pid exitCode jiffies := by
  rcases h.markProcessExitLocked_spec pid exitCode jiffies with
    ⟨hnone, hs⟩ | ⟨before, record, after, hentries, hruns, hafter, hs, hentries'⟩
  · have hnone' : ∀ r ∈ s.records, r.runs pid = false := by
      intro r hr
      obtain ⟨record, hrecord, rfl⟩ := List.mem_map.mp hr
      exact hnone (record, s.mem record) (List.mem_map_of_mem hrecord)
    rw [hs]
    simp only [Ledger.markExit, Monitor.ledger, Ledger.newest_eq_none hnone']
  · have hrecords : s.records = before.map Prod.snd ++ s.mem record :: after.map Prod.snd := by
      simp [← s.map_snd_entries, hentries]
    have hafter' : ∀ r ∈ after.map Prod.snd, r.runs pid = false := by
      intro r hr
      obtain ⟨e, he, rfl⟩ := List.mem_map.mp hr
      exact hafter e he
    have hnewest : Ledger.newest pid s.records = some (s.mem record) := by
      rw [hrecords, Ledger.newest_split hruns hafter']
    have hmarked := (markProcessExitLocked pid exitCode jiffies s).1.map_snd_entries
    rw [hentries', List.map_append, List.map_cons] at hmarked
    rw [Monitor.ledger, ← hmarked, hs]
    simp only [Ledger.markExit, Monitor.ledger, hnewest]
    rw [hrecords, updateLast_split hruns hafter']

/-- **One step of the refinement.** -/
theorem Accounted.ledger_exec {s : Monitor K} (h : Accounted s fun _ => False) (op : Op K) :
    (s.exec op).ledger = s.ledger.exec op := by
  cases op with
  | add pid ppid comm jiffies alloc =>
      rw [Monitor.exec, Ledger.exec]
      by_cases hadd : (s.monitoringEnabled && alloc) = true
      · obtain ⟨henabled, rfl⟩ := (Bool.and_eq_true _ _).mp hadd
        obtain ⟨hentries, -, -, hstats, hfilter, henabled'⟩ :=
          h.toStored.addProcessRecord_spec henabled pid ppid comm jiffies
        rw [if_pos (by exact hadd), Monitor.ledger, hstats, hfilter, henabled',
          ← Monitor.map_snd_entries, hentries, map_pushBounded, Monitor.map_snd_entries]
        rfl
      · rw [if_neg (by exact hadd)]
        rcases addProcessRecord_cases pid ppid comm jiffies alloc s with ⟨-, hs⟩ | ⟨he, -⟩
        · rw [hs]
        · exact absurd he hadd
  | exit pid exitCode jiffies =>
      rw [Monitor.exec, markProcessExit, Ledger.exec]
      by_cases henabled : s.monitoringEnabled = true
      · rw [if_neg (by simp [henabled]), if_pos (by exact henabled),
          h.ledger_markProcessExitLocked]
      · rw [if_pos (by simp [henabled]), if_neg (by exact henabled)]
  | control w =>
      rw [Monitor.exec, controlWrite_eq, Ledger.exec]
      cases writtenCommand w with
      | none => rfl
      | some c =>
          cases c with
          | clear =>
              simp only [runControl, h.clearRecords_eq]
              rfl
          | start => rfl
          | stop => rfl
          | resetStats => rfl
  | filter w =>
      rw [Monitor.exec, Ledger.exec, CompleteMonitor.filterWrite]
      cases w.copy 128 <;> rfl

/-- **The refinement.** Operations on the module are operations on its ledger. -/
theorem ledger_simulation :
    Simulation Monitor.exec Ledger.exec (fun s : Monitor K => Accounted s fun _ => False)
      Monitor.ledger :=
  ⟨fun _ op h => h.exec op, fun _ op h => h.ledger_exec op⟩

theorem ledger_run (ops : List (Op K)) :
    (run Monitor.exec (Monitor.load K) ops).ledger = run Ledger.exec (Ledger.load K) ops :=
  ledger_simulation.run_eq (accounted_load K) ops

/-! ### Process events -/

/-- The call that a process event makes, with memory to allocate. -/
def Op.ofEvent : ProcessEvent K → Op K
  | .add pid ppid comm jiffies => .add pid ppid comm jiffies true
  | .exit pid exitCode jiffies => .exit pid exitCode jiffies

def Monitor.call (s : Monitor K) (e : ProcessEvent K) : Monitor K := s.exec (Op.ofEvent e)

def Ledger.call (l : Ledger K) (e : ProcessEvent K) : Ledger K := l.exec (Op.ofEvent e)

theorem call_simulation :
    Simulation Monitor.call Ledger.call (fun s : Monitor K => Accounted s fun _ => False)
      Monitor.ledger :=
  ledger_simulation.renamed Op.ofEvent

end KernelModules.CompleteMonitor
