import KernelModules.CompleteMonitor.Counters
import KernelModules.ProcessMonitor.Statistics

/-!
The two modules under the same process events.

`process_monitor.c` looks an exit up from the oldest record on;
`05_complete_monitor.c` walks a hash chain, which starts at the newest. Started
together and fed the same events, the two hold the same records and the same
counters until a process exits that has two running records: each module then
marks another one.
-/

namespace KernelModules

open Lib

variable {K : Kernel}

/-- The fields of a record that both modules have. -/
def CompleteMonitor.ProcessRecord.plain (r : CompleteMonitor.ProcessRecord K) :
    ProcessMonitor.ProcessRecord K :=
  ⟨r.pid, r.ppid, r.comm, r.startTime, r.endTime, r.status⟩

namespace ProcessMonitor

/-- The call that a process event makes, with memory to allocate. -/
def Monitor.call (s : Monitor K) : ProcessEvent K → Monitor K
  | .add pid ppid comm jiffies => s.exec (.add pid ppid comm jiffies true)
  | .exit pid _ jiffies => s.exec (.exit pid jiffies)

theorem Counts.call {s : Monitor K} (h : Counts s) (e : ProcessEvent K) : Counts (s.call e) := by
  cases e with
  | add pid ppid comm jiffies => exact h.exec (.add pid ppid comm jiffies true)
  | exit pid exitCode jiffies => exact h.exec (.exit pid jiffies)

/-- At most one running record answers to the pid of an exit. -/
def OneToMark (s : Monitor K) : ProcessEvent K → Prop
  | .exit pid .. => s.processList.countP (ProcessRecord.runs pid) ≤ 1
  | .add .. => True

instance (s : Monitor K) : ∀ e, Decidable (OneToMark s e)
  | .exit .. => inferInstanceAs (Decidable (s.processList.countP _ ≤ 1))
  | .add .. => .isTrue trivial

theorem processList_markProcessExit (pid : PidT) (jiffies : ULong K) (s : Monitor K) :
    (markProcessExit pid jiffies s).processList =
      updateFirst (ProcessRecord.runs pid) (.exited jiffies) s.processList := by
  rcases markProcessExit_cases pid jiffies s with
    ⟨hnone, hs⟩ | ⟨before, r, after, hlist, hr, hbefore, hs⟩
  · rw [hs, updateFirst_of_none hnone]
  · rw [hs, hlist, updateFirst_split hbefore hr]

theorem population_markProcessExit (pid : PidT) (jiffies : ULong K) (s : Monitor K) :
    (markProcessExit pid jiffies s).stats.population =
      if s.processList.any (ProcessRecord.runs pid) then s.stats.population.leave
      else s.stats.population := by
  rw [markProcessExit]
  split <;> rfl

end ProcessMonitor

namespace CompleteMonitor.Ledger

theorem records_markExit (pid : PidT) (exitCode : CInt) (jiffies : ULong K) (l : Ledger K) :
    (l.markExit pid exitCode jiffies).records =
      updateLast (ProcessRecord.runs pid) (.exited exitCode jiffies) l.records := by
  rcases markExit_cases pid exitCode jiffies l with
    ⟨hnone, hl⟩ | ⟨before, r, after, hrecords, hr, hafter, hl⟩
  · rw [hl, updateLast_of_none hnone]
  · rw [hl, hrecords, updateLast_split hr hafter]

theorem population_markExit (pid : PidT) (exitCode : CInt) (jiffies : ULong K) (l : Ledger K) :
    (l.markExit pid exitCode jiffies).stats.population =
      if l.records.any (ProcessRecord.runs pid) then l.stats.population.leave
      else l.stats.population := by
  rcases markExit_cases pid exitCode jiffies l with
    ⟨hnone, hl⟩ | ⟨before, r, after, hrecords, hr, -, hl⟩
  · rw [hl, if_neg (by simpa using hnone)]
  · have hany : l.records.any (ProcessRecord.runs pid) = true :=
      List.any_eq_true.mpr ⟨r, by simp [hrecords], hr⟩
    rw [hl, if_pos hany, MonitorStats.population_countExited]

end CompleteMonitor.Ledger

namespace Agreement

open CompleteMonitor (Ledger)

/-- The same records and the same counters. -/
structure Agree (s : CompleteMonitor.Monitor K) (t : ProcessMonitor.Monitor K) : Prop where
  records : (s.processList.map fun record => (s.mem record).plain) = t.processList
  created : s.stats.totalProcessesCreated = t.stats.totalProcessesCreated
  exited : s.stats.totalProcessesExited = t.stats.totalProcessesExited
  current : s.stats.currentProcesses = t.stats.currentProcesses
  peak : s.stats.peakProcesses = t.stats.peakProcesses

/-- The same for a ledger. -/
def LedgerAgree (l : Ledger K) (t : ProcessMonitor.Monitor K) : Prop :=
  l.records.map (·.plain) = t.processList ∧ l.stats.population = t.stats.population

theorem agree_iff (s : CompleteMonitor.Monitor K) (t : ProcessMonitor.Monitor K) :
    Agree s t ↔ LedgerAgree s.ledger t := by
  have hview : s.ledger.records.map (·.plain) =
      s.processList.map fun record => (s.mem record).plain := List.map_map
  rw [LedgerAgree, hview]
  constructor
  · rintro ⟨hrecords, hcreated, hexited, hcurrent, hpeak⟩
    refine ⟨hrecords, ?_⟩
    simp only [CompleteMonitor.Monitor.ledger, CompleteMonitor.MonitorStats.population,
      ProcessMonitor.MonitorStats.population, hcreated, hexited, hcurrent, hpeak]
  · rintro ⟨hrecords, hstats⟩
    exact ⟨hrecords, congrArg Population.entered hstats, congrArg Population.left hstats,
      congrArg Population.present hstats, congrArg Population.peak hstats⟩

/-- What ties the two modules together while they agree. -/
structure Coupled (l : Ledger K) (t : ProcessMonitor.Monitor K) : Prop where
  enabled : l.monitoringEnabled = true
  counts : ProcessMonitor.Counts t
  agree : LedgerAgree l t

theorem coupled_load (K : Kernel) : Coupled (Ledger.load K) (ProcessMonitor.Monitor.load K) :=
  ⟨rfl, ProcessMonitor.counts_load K, rfl, rfl⟩

theorem Coupled.add {l : Ledger K} {t : ProcessMonitor.Monitor K} (h : Coupled l t)
    (pid ppid : PidT) (comm : List UInt8) (jiffies : ULong K) :
    Coupled (l.call (.add pid ppid comm jiffies)) (t.call (.add pid ppid comm jiffies)) := by
  obtain ⟨hrecords, hstats⟩ := h.agree
  have hl : l.call (.add pid ppid comm jiffies) =
      l.add (CompleteMonitor.newRecord pid ppid comm jiffies) := by
    rw [Ledger.call, CompleteMonitor.Op.ofEvent, Ledger.exec, if_pos (by simp [h.enabled])]
  have ht : t.call (.add pid ppid comm jiffies) = _ :=
    h.counts.addProcessRecord_eq pid ppid comm jiffies
  refine ⟨by rw [hl]; exact h.enabled, h.counts.call _, ?_, ?_⟩
  · rw [hl, ht, Ledger.add]
    simp only [map_pushBounded, hrecords]
    rfl
  · rw [hl, ht, Ledger.add]
    simp only [CompleteMonitor.MonitorStats.population_countCreated,
      ProcessMonitor.MonitorStats.population_countCreated, hstats]

/-- Coupled modules agree after an exit exactly when there was at most one record
to mark. -/
theorem Coupled.agree_exit_iff {l : Ledger K} {t : ProcessMonitor.Monitor K} (h : Coupled l t)
    (pid : PidT) (exitCode : CInt) (jiffies : ULong K) :
    LedgerAgree (l.call (.exit pid exitCode jiffies)) (t.call (.exit pid exitCode jiffies)) ↔
      t.processList.countP (ProcessMonitor.ProcessRecord.runs pid) ≤ 1 := by
  obtain ⟨hrecords, hstats⟩ := h.agree
  have hl : l.call (.exit pid exitCode jiffies) = l.markExit pid exitCode jiffies :=
    Ledger.exec_exit_of_enabled h.enabled ..
  have ht : t.call (.exit pid exitCode jiffies) = ProcessMonitor.markProcessExit pid jiffies t :=
    rfl
  have hany : l.records.any (CompleteMonitor.ProcessRecord.runs pid) =
      t.processList.any (ProcessMonitor.ProcessRecord.runs pid) := by
    rw [← hrecords, List.any_map]
    rfl
  have hmarked : (l.markExit pid exitCode jiffies).records.map (·.plain) =
      updateLast (ProcessMonitor.ProcessRecord.runs pid) (.exited jiffies) t.processList := by
    have hruns : ∀ r : CompleteMonitor.ProcessRecord K, r.plain.runs pid = r.runs pid :=
      fun _ => rfl
    have hexited : ∀ r : CompleteMonitor.ProcessRecord K,
        (r.exited exitCode jiffies).plain = r.plain.exited jiffies := fun _ => rfl
    rw [Ledger.records_markExit, ← hrecords]
    exact updateLast_map hruns hexited l.records
  rw [hl, ht, LedgerAgree, hmarked, ProcessMonitor.processList_markProcessExit,
    Ledger.population_markExit, ProcessMonitor.population_markProcessExit, hany, hstats,
    eq_comm, updateFirst_eq_updateLast_iff (fun r _ => by
      simp [ProcessMonitor.ProcessRecord.runs, ProcessMonitor.ProcessRecord.exited])]
  exact and_iff_left rfl

theorem Coupled.step {l : Ledger K} {t : ProcessMonitor.Monitor K} (h : Coupled l t)
    (e : ProcessEvent K) (hone : ProcessMonitor.OneToMark t e) :
    Coupled (l.call e) (t.call e) := by
  cases e with
  | add pid ppid comm jiffies => exact h.add pid ppid comm jiffies
  | exit pid exitCode jiffies =>
      refine ⟨?_, h.counts.call _, (h.agree_exit_iff pid exitCode jiffies).mpr hone⟩
      rw [Ledger.call, CompleteMonitor.Op.ofEvent, Ledger.exec_exit_of_enabled h.enabled]
      rcases Ledger.markExit_cases pid exitCode jiffies l with ⟨-, hl⟩ | ⟨_, _, _, -, -, -, hl⟩
      · rw [hl]
        exact h.enabled
      · rw [hl]
        exact h.enabled

/-- **Agreement of the two modules.** Under the same process events, with
monitoring on and memory to allocate, the two modules hold the same records and
the same counters after every event exactly when no process exits that has two
running records in the list. -/
theorem agreement_iff (es : List (ProcessEvent K)) :
    Throughout (both CompleteMonitor.Monitor.call ProcessMonitor.Monitor.call)
        (fun s => Agree s.1 s.2)
        (CompleteMonitor.Monitor.load K, ProcessMonitor.Monitor.load K) es ↔
      StepsMeet ProcessMonitor.Monitor.call ProcessMonitor.OneToMark
        (ProcessMonitor.Monitor.load K) es := by
  refine ((CompleteMonitor.call_simulation.watched ProcessMonitor.Monitor.call).throughout_iff
    (fun s : Ledger K × ProcessMonitor.Monitor K => LedgerAgree s.1 s.2)
    (fun s _ => agree_iff s.1 s.2) (CompleteMonitor.accounted_load K) es).trans ?_
  refine (throughout_iff_stepsMeet
    (I := fun s : Ledger K × ProcessMonitor.Monitor K => Coupled s.1 s.2)
    (A := fun _ _ => True) (fun s h => h.agree) (fun s e h _ hone => h.step e hone)
    (fun s e h _ hmany => ?_) (coupled_load K) (stepsMeet_of_forall (fun _ _ => trivial) ..)).trans
    (stepsMeet_both_snd ..)
  cases e with
  | add => exact absurd trivial hmany
  | exit pid exitCode jiffies =>
      exact fun hagree => hmany ((h.agree_exit_iff pid exitCode jiffies).mp hagree)

/-- A pid that is recorded twice before its first exit: the list module marks the
older record, the hash module the newer one. -/
theorem disagreement_of_repeated_pid :
    ¬ Throughout (both CompleteMonitor.Monitor.call ProcessMonitor.Monitor.call)
      (fun s => Agree s.1 s.2)
      (CompleteMonitor.Monitor.load .x86_64, ProcessMonitor.Monitor.load .x86_64)
      [.add 1 0 [] 0, .add 1 0 [] 1, .exit 1 0 2] := by
  intro h
  have hlast := h.last.records
  revert hlast
  decide

end Agreement

end KernelModules
