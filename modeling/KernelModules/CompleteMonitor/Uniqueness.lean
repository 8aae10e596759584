import KernelModules.CompleteMonitor.Ledger

/-!
At most one running record per pid.

`find_process_by_pid` takes the first running record it meets, so it is right
when there is at most one. That depends on the system, which gives a pid to one
process at a time, and on the module seeing every exit: an exit that happens
while monitoring is off leaves a running record behind.
-/

namespace KernelModules

open Lib

variable {K : Kernel}

namespace CompleteMonitor

/-- Only the last record of a pid may be running, and only while the pid is
live. -/
structure OneRunning (records : List (ProcessRecord K)) (live : Finset PidT) : Prop where
  last : records.Pairwise fun r r' => r.pid = r'.pid → r.isRunning = false
  live : ∀ r ∈ records, r.isRunning = true → r.pid ∈ live

namespace OneRunning

variable {records : List (ProcessRecord K)} {live : Finset PidT}

theorem nil (live : Finset PidT) : OneRunning ([] : List (ProcessRecord K)) live :=
  ⟨.nil, by simp⟩

/-- A new process, with or without a record. -/
theorem start (h : OneRunning records live) (pid : PidT) :
    OneRunning records (insert pid live) :=
  ⟨h.last, fun r hr hrun => Finset.mem_insert_of_mem (h.live r hr hrun)⟩

theorem push (h : OneRunning records live) (n : ℕ) {r : ProcessRecord K} (hr : r.pid ∉ live) :
    OneRunning (pushBounded n records r) (insert r.pid live) := by
  have hkept : OneRunning (if n ≤ records.length then records.tail else records) live := by
    split
    · exact ⟨h.last.sublist (List.tail_sublist _),
        fun r' hr' => h.live r' (List.mem_of_mem_tail hr')⟩
    · exact h
  refine ⟨List.pairwise_append.mpr ⟨hkept.last, List.pairwise_singleton .., ?_⟩, ?_⟩
  · intro r' hr' r'' hr'' hpid
    rw [List.mem_singleton.mp hr''] at hpid
    by_contra hrun
    exact hr (hpid ▸ hkept.live r' hr' (by simpa using hrun))
  · intro r' hr' hrun
    rcases List.mem_append.mp hr' with hr' | hr'
    · exact Finset.mem_insert_of_mem (hkept.live r' hr' hrun)
    · rw [List.mem_singleton.mp hr']
      exact Finset.mem_insert_self ..

/-- The exit of a process without a running record. -/
theorem skip (h : OneRunning records live) {pid : PidT}
    (hnone : ∀ r ∈ records, r.runs pid = false) : OneRunning records (live.erase pid) := by
  refine ⟨h.last, fun r hr hrun => Finset.mem_erase.mpr ⟨fun hpid => ?_, h.live r hr hrun⟩⟩
  have hruns := ProcessRecord.runs_iff.mpr ⟨hpid, hrun⟩
  rw [hnone r hr] at hruns
  contradiction

/-- The exit of a process with a running record. -/
theorem mark {before after : List (ProcessRecord K)} {r : ProcessRecord K} {pid : PidT}
    (h : OneRunning (before ++ r :: after) live) (hr : r.runs pid = true)
    (hafter : ∀ r' ∈ after, r'.runs pid = false) (exitCode : CInt) (jiffies : ULong K) :
    OneRunning (before ++ r.exited exitCode jiffies :: after) (live.erase pid) := by
  obtain ⟨hpid, -⟩ := ProcessRecord.runs_iff.mp hr
  obtain ⟨hbefore, hrest, hcross⟩ := List.pairwise_append.mp h.last
  obtain ⟨hhead, htail⟩ := List.pairwise_cons.mp hrest
  refine ⟨List.pairwise_append.mpr ⟨hbefore, List.pairwise_cons.mpr ⟨?_, htail⟩, ?_⟩, ?_⟩
  · exact fun _ _ _ => r.isRunning_exited ..
  · intro r' hr' r'' hr''
    rcases List.mem_cons.mp hr'' with rfl | hr''
    · exact hcross r' hr' r (List.mem_cons_self ..)
    · exact hcross r' hr' r'' (List.mem_cons_of_mem _ hr'')
  · intro r' hr' hrun
    -- the marked record was the only one of its pid that could be running
    have hne : r'.pid ≠ pid := by
      intro heq
      rcases List.mem_append.mp hr' with hr' | hr'
      · have hstopped := hcross r' hr' r (List.mem_cons_self ..) (heq.trans hpid.symm)
        rw [hstopped] at hrun
        contradiction
      · rcases List.mem_cons.mp hr' with rfl | hr'
        · simp at hrun
        · have hruns := ProcessRecord.runs_iff.mpr ⟨heq, hrun⟩
          rw [hafter r' hr'] at hruns
          contradiction
    have hold : r' ∈ before ++ r :: after := by
      rcases List.mem_append.mp hr' with hr' | hr'
      · exact List.mem_append_left _ hr'
      · rcases List.mem_cons.mp hr' with rfl | hr'
        · simp at hrun
        · exact List.mem_append_right _ (List.mem_cons_of_mem _ hr')
    exact Finset.mem_erase.mpr ⟨hne, h.live r' hold hrun⟩

theorem countP_runs_le_one (h : OneRunning records live) (pid : PidT) :
    records.countP (ProcessRecord.runs pid) ≤ 1 := by
  by_cases hany : ∃ r ∈ records, r.runs pid = true
  · obtain ⟨before, r, after, rfl, hr, hafter⟩ := exists_last hany
    have hbefore : ∀ r' ∈ before, ¬ r'.runs pid = true := by
      intro r' hr' hruns
      obtain ⟨hpid, hrun⟩ := ProcessRecord.runs_iff.mp hruns
      have hstopped := (List.pairwise_append.mp h.last).2.2 r' hr' r (List.mem_cons_self ..)
        (hpid.trans (ProcessRecord.runs_iff.mp hr).1.symm)
      rw [hstopped] at hrun
      contradiction
    rw [List.countP_append, List.countP_eq_zero.mpr hbefore, List.countP_cons_of_pos hr,
      List.countP_eq_zero.mpr fun r' hr' => by simp [hafter r' hr']]
  · have hnone : records.countP (ProcessRecord.runs pid) = 0 :=
      List.countP_eq_zero.mpr fun r hr hruns => hany ⟨r, hr, hruns⟩
    omega

end OneRunning

/-! ### Runs of the system -/

/-- What an operation says about a process, whether or not the module records
it. -/
def Op.event : Op K → Option (ProcessEvent K)
  | .add pid ppid comm jiffies _ => some (.add pid ppid comm jiffies)
  | .exit pid exitCode jiffies => some (.exit pid exitCode jiffies)
  | .control _ | .filter _ => none

end CompleteMonitor

namespace Processes

open CompleteMonitor

/-- The processes under the operations of the module. -/
def watch (ps : Processes) (op : Op K) : Processes :=
  match op.event with
  | Option.none => ps
  | some e => ps.step e

def AdmitsOp (ps : Processes) (op : Op K) : Prop := ∀ e ∈ op.event, ps.Admits e

instance (ps : Processes) (op : Op K) : Decidable (ps.AdmitsOp op) :=
  inferInstanceAs (Decidable (∀ e ∈ op.event, ps.Admits e))

end Processes

namespace CompleteMonitor

/-- No process ends unseen: while monitoring is off, no process exits that has a
running record. -/
def Ledger.SeesExits (l : Ledger K) : Op K → Prop
  | .exit pid .. => l.monitoringEnabled = false → ∀ r ∈ l.records, r.runs pid = false
  | _ => True

/-- **One step.** -/
theorem OneRunning.exec {l : Ledger K} {ps : Processes} (h : OneRunning l.records ps.live)
    (op : Op K) (hadmits : ps.AdmitsOp op) (hsees : l.SeesExits op) :
    OneRunning (l.exec op).records (ps.watch op).live := by
  cases op with
  | add pid ppid comm jiffies alloc =>
      by_cases hadd : (l.monitoringEnabled && alloc) = true
      · rw [Ledger.exec, if_pos hadd]
        exact h.push _ (r := newRecord pid ppid comm jiffies) (hadmits _ rfl)
      · rw [Ledger.exec, if_neg hadd]
        exact h.start pid
  | exit pid exitCode jiffies =>
      by_cases henabled : l.monitoringEnabled = true
      · rw [Ledger.exec_exit_of_enabled henabled]
        rcases Ledger.markExit_cases pid exitCode jiffies l with
          ⟨hnone, hl⟩ | ⟨before, r, after, hrecords, hr, hafter, hl⟩
        · rw [hl]
          exact h.skip hnone
        · rw [hl]
          exact (hrecords ▸ h).mark hr hafter exitCode jiffies
      · rw [Ledger.exec, if_neg henabled]
        exact h.skip (hsees (Bool.eq_false_iff.mpr henabled))
  | control w =>
      rw [Ledger.exec]
      cases writtenCommand w with
      | none => exact h
      | some c =>
          cases c with
          | clear => exact .nil _
          | start => exact h
          | stop => exact h
          | resetStats => exact h
  | filter w =>
      rw [Ledger.exec]
      cases w.copy 128 with
      | error e => exact h
      | ok cmd => exact h

/-- An exit that is not seen leaves a running record of a dead process. -/
theorem Ledger.exists_stale_of_not_seesExits {l : Ledger K} {op : Op K} (h : ¬ l.SeesExits op)
    (ps : Processes) :
    ∃ r ∈ (l.exec op).records, r.isRunning = true ∧ r.pid ∉ (ps.watch op).live := by
  cases op with
  | exit pid exitCode jiffies =>
      simp only [SeesExits, Classical.not_imp, not_forall] at h
      obtain ⟨hdisabled, r, hr, hruns⟩ := h
      obtain ⟨hpid, hrun⟩ := ProcessRecord.runs_iff.mp (Bool.not_eq_false _ ▸ hruns)
      refine ⟨r, ?_, hrun, ?_⟩
      · rw [Ledger.exec, if_neg (by simp [hdisabled])]
        exact hr
      · rw [hpid]
        exact Finset.notMem_erase pid ps.live
  | add | control | filter => exact absurd trivial h

/-- At most one record of each pid is running, and only if the pid is live. -/
def UniqueRunning (s : Monitor K) (live : Finset PidT) : Prop :=
  (∀ pid, (s.processList.countP fun record => (s.mem record).runs pid) ≤ 1) ∧
    ∀ record ∈ s.processList, (s.mem record).status = 1 → (s.mem record).pid ∈ live

/-- While monitoring is off, no process exits that has a running record. -/
def SeesExits (s : Monitor K) : Op K → Prop
  | .exit pid .. =>
      s.monitoringEnabled = false → ∀ record ∈ s.processList, (s.mem record).runs pid = false
  | _ => True

instance (s : Monitor K) : ∀ op, Decidable (SeesExits s op)
  | .exit .. => inferInstanceAs (Decidable (s.monitoringEnabled = false → _))
  | .add .. | .control _ | .filter _ => .isTrue trivial

theorem seesExits_iff (s : Monitor K) (op : Op K) : SeesExits s op ↔ s.ledger.SeesExits op := by
  cases op with
  | exit => simp [SeesExits, Ledger.SeesExits, Monitor.ledger, Monitor.records]
  | add | control | filter => exact Iff.rfl

theorem uniqueRunning_iff (s : Monitor K) (live : Finset PidT) :
    UniqueRunning s live ↔ (∀ pid, s.records.countP (ProcessRecord.runs pid) ≤ 1) ∧
      ∀ r ∈ s.records, r.isRunning = true → r.pid ∈ live := by
  simp [UniqueRunning, Monitor.records, List.countP_map, Function.comp_def,
    ProcessRecord.isRunning]

/-- **Uniqueness of running records.** Let processes start only under pids that
are not live, from any processes on, and let monitoring be switched, and records
and statistics be reset, at any time. Then at most one record of each pid is
running in every state, and its process is live, exactly when no process with a
running record exits while monitoring is off. -/
theorem uniqueRunning_throughout_iff {ps : Processes} {ops : List (Op K)}
    (hadmits : StepsMeet Processes.watch Processes.AdmitsOp ps ops) :
    Throughout (both Monitor.exec Processes.watch) (fun s => UniqueRunning s.1 s.2.live)
        (Monitor.load K, ps) ops ↔
      StepsMeet Monitor.exec SeesExits (Monitor.load K) ops := by
  have hload := accounted_load K
  rw [(ledger_simulation.watched Processes.watch).throughout_iff
      (fun s => (∀ pid, s.1.records.countP (ProcessRecord.runs pid) ≤ 1) ∧
        ∀ r ∈ s.1.records, r.isRunning = true → r.pid ∈ s.2.live)
      (fun s _ => uniqueRunning_iff s.1 s.2.live) hload,
    ledger_simulation.stepsMeet_iff (fun s op _ => seesExits_iff s op) hload]
  rw [← stepsMeet_both_snd Ledger.exec (Monitor.ledger (.load K), ps)] at hadmits
  refine (throughout_iff_stepsMeet (I := fun s => OneRunning s.1.records s.2.live)
    (fun s h => ⟨h.countP_runs_le_one, h.live⟩)
    (fun s op h hadmits hsees => h.exec op hadmits hsees)
    (fun s op _ _ hmissed hQ => ?_) (.nil ps.live) hadmits).trans (stepsMeet_both_fst ..)
  obtain ⟨r, hr, hrun, hdead⟩ := Ledger.exists_stale_of_not_seesExits hmissed s.2
  exact hdead (hQ.2 r hr hrun)

theorem uniqueRunning_throughout_of_reuse :
    Throughout (both Monitor.exec Processes.watch) (fun s => UniqueRunning s.1 s.2.live)
      (Monitor.load .x86_64, .none)
      [.add 1 0 [] 0 true, .exit 1 0 1, .control ControlCommand.stop.write,
        .control ControlCommand.start.write, .add 1 0 [] 2 true] :=
  (uniqueRunning_throughout_iff (by decide)).mpr (by decide)

/-- A process that exits while monitoring is off, and another one under its pid
afterwards: two running records of one pid. -/
theorem not_uniqueRunning_of_unseen_exit :
    StepsMeet Processes.watch Processes.AdmitsOp .none
        ([.add 1 0 [] 0 true, .control ControlCommand.stop.write, .exit 1 0 1,
          .control ControlCommand.start.write, .add 1 0 [] 2 true] : List (Op .x86_64)) ∧
      ¬ Throughout (both Monitor.exec Processes.watch) (fun s => UniqueRunning s.1 s.2.live)
        (Monitor.load .x86_64, .none)
        [.add 1 0 [] 0 true, .control ControlCommand.stop.write, .exit 1 0 1,
          .control ControlCommand.start.write, .add 1 0 [] 2 true] := by
  refine ⟨by decide, fun h => ?_⟩
  have hone := h.last.1 1
  revert hone
  decide

end CompleteMonitor

end KernelModules
