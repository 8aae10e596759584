import KernelModules.CompleteMonitor.Ledger

/-!
The store as a window on a log.

`Log` is what the store is for: every record that was added since the load or
the last `clear`, under its address, in order, where an exit may still mark a
record among the last `MAX_PROCESS_RECORDS`. Nothing is ever dropped from a log.
The module keeps its list in step with the last entries of the log, and no
operation writes to a record other than the one it adds or marks.
-/

namespace KernelModules.CompleteMonitor

open Lib

variable {K : Kernel}

/-- The entry holds a running record of the pid. -/
def entryRuns (pid : PidT) (e : Addr × ProcessRecord K) : Bool := e.2.runs pid

/-- The entry with its record marked. -/
def markEntry (exitCode : CInt) (jiffies : ULong K) (e : Addr × ProcessRecord K) :
    Addr × ProcessRecord K :=
  (e.1, e.2.exited exitCode jiffies)

structure Log (K : Kernel) where
  entries : List (Addr × ProcessRecord K)
  next : Addr
  monitoringEnabled : Bool

namespace Log

def load (K : Kernel) : Log K := ⟨[], 0, true⟩

def exec (log : Log K) : Op K → Log K
  | .add pid ppid comm jiffies alloc =>
      if log.monitoringEnabled && alloc then
        { log with
          entries := log.entries ++ [(log.next, newRecord pid ppid comm jiffies)]
          next := log.next + 1 }
      else log
  | .exit pid exitCode jiffies =>
      if log.monitoringEnabled then
        { log with
          entries := updateLastIn MAX_PROCESS_RECORDS (entryRuns pid) (markEntry exitCode jiffies)
            log.entries }
      else log
  | .control w =>
      match writtenCommand w with
      | some .start => { log with monitoringEnabled := true }
      | some .stop => { log with monitoringEnabled := false }
      | some .clear => { log with entries := [] }
      | some .resetStats | none => log
  | .filter _ => log

end Log

/-- The module shows the end of the log. -/
structure Shows (s : Monitor K) (log : Log K) : Prop where
  entries : s.entries = log.entries.rtake MAX_PROCESS_RECORDS
  next : s.nextAddr = log.next
  enabled : s.monitoringEnabled = log.monitoringEnabled

theorem shows_load (K : Kernel) : Shows (Monitor.load K) (Log.load K) :=
  ⟨(List.rtake_nil ..).symm, rfl, rfl⟩

/-- The critical section of an exit updates the last running entry of the pid. -/
theorem Linked.entries_markProcessExitLocked {s : Monitor K} (h : Linked s) (pid : PidT)
    (exitCode : CInt) (jiffies : ULong K) :
    (markProcessExitLocked pid exitCode jiffies s).1.entries =
      updateLast (entryRuns pid) (markEntry exitCode jiffies) s.entries := by
  rcases h.markProcessExitLocked_spec pid exitCode jiffies with
    ⟨hnone, hs⟩ | ⟨before, record, after, hentries, hruns, hafter, -, hentries'⟩
  · rw [hs]
    exact (updateLast_of_none (p := entryRuns pid) hnone).symm
  · rw [hentries', hentries]
    exact (updateLast_split (p := entryRuns pid) (f := markEntry exitCode jiffies)
      (a := (record, s.mem record)) hruns hafter).symm

/-- **One step of the refinement.** -/
theorem Shows.exec {s : Monitor K} {log : Log K} (h : Shows s log)
    (hacc : Accounted s fun _ => False) (op : Op K) : Shows (s.exec op) (log.exec op) := by
  obtain ⟨hentries, hnext, henabled⟩ := h
  cases op with
  | add pid ppid comm jiffies alloc =>
      rw [Monitor.exec, Log.exec]
      by_cases hadd : (s.monitoringEnabled && alloc) = true
      · obtain ⟨hon, rfl⟩ := (Bool.and_eq_true _ _).mp hadd
        obtain ⟨hentries', -, hnext', -, -, henabled'⟩ :=
          hacc.toStored.addProcessRecord_spec hon pid ppid comm jiffies
        rw [if_pos (henabled ▸ hadd)]
        -- pushing into the window is moving the window over the longer log
        refine ⟨?_, by rw [hnext', hnext], by rw [henabled', henabled]⟩
        rw [hentries', hentries, pushBounded_rtake maxProcessRecords_pos, hnext]
      · rw [if_neg (henabled ▸ hadd)]
        rcases addProcessRecord_cases pid ppid comm jiffies alloc s with ⟨-, hs⟩ | ⟨he, -⟩
        · rw [hs]
          exact ⟨hentries, hnext, henabled⟩
        · exact absurd he hadd
  | exit pid exitCode jiffies =>
      rw [Monitor.exec, markProcessExit, Log.exec]
      by_cases hon : s.monitoringEnabled = true
      · rw [if_neg (by simp [hon]), if_pos (henabled ▸ hon)]
        refine ⟨?_, ?_, ?_⟩
        · rw [hacc.entries_markProcessExitLocked, hentries, rtake_updateLastIn]
        · rw [markProcessExitLocked_frame]
          exact hnext
        · rw [markProcessExitLocked_frame]
          exact henabled
      · rw [if_pos (by simp [hon]), if_neg (henabled ▸ hon)]
        exact ⟨hentries, hnext, henabled⟩
  | control w =>
      rw [Monitor.exec, controlWrite_eq, Log.exec]
      cases writtenCommand w with
      | none => exact ⟨hentries, hnext, henabled⟩
      | some c =>
          cases c with
          | start => exact ⟨hentries, hnext, rfl⟩
          | stop => exact ⟨hentries, hnext, rfl⟩
          | clear =>
              simp only [runControl, hacc.clearRecords_eq]
              exact ⟨(List.rtake_nil ..).symm, hnext, henabled⟩
          | resetStats => exact ⟨hentries, hnext, henabled⟩
  | filter w =>
      rw [Monitor.exec, filterWrite_eq]
      exact ⟨hentries, hnext, henabled⟩

theorem shows_run (ops : List (Op K)) :
    Shows (run Monitor.exec (Monitor.load K) ops) (run Log.exec (Log.load K) ops) := by
  induction ops using List.reverseRecOn with
  | nil => exact shows_load K
  | append_singleton ops op ih =>
      rw [run_concat, run_concat]
      exact ih.exec (accounted_run ops) op

/-! ### What an operation writes to -/

/-- The operation adds this record. -/
def Adds (s : Monitor K) (op : Op K) (record : Addr) : Prop :=
  ∃ pid ppid comm jiffies, op = .add pid ppid comm jiffies true ∧ s.monitoringEnabled = true ∧
    record = s.nextAddr ∧ (s.exec op).mem record = newRecord pid ppid comm jiffies

/-- The operation marks this record. -/
def Marks (s : Monitor K) (op : Op K) (record : Addr) : Prop :=
  ∃ pid exitCode jiffies, op = .exit pid exitCode jiffies ∧ s.monitoringEnabled = true ∧
    record ∈ s.processList ∧ (s.mem record).runs pid = true ∧
    (s.exec op).mem record = (s.mem record).exited exitCode jiffies

/-- **The frame.** A record that an operation neither adds nor marks stays as it
is. -/
theorem Accounted.mem_exec {s : Monitor K} (h : Accounted s fun _ => False) (op : Op K)
    (record : Addr) :
    (s.exec op).mem record = s.mem record ∨ Adds s op record ∨ Marks s op record := by
  cases op with
  | add pid ppid comm jiffies alloc =>
      rcases addProcessRecord_cases pid ppid comm jiffies alloc s with ⟨-, hs⟩ | ⟨he, -⟩
      · exact .inl (by rw [Monitor.exec, hs])
      · obtain ⟨hon, rfl⟩ := (Bool.and_eq_true _ _).mp he
        obtain ⟨-, hmem, -⟩ := h.toStored.addProcessRecord_spec hon pid ppid comm jiffies
        by_cases hr : record = s.nextAddr
        · refine .inr (.inl ⟨pid, ppid, comm, jiffies, rfl, hon, hr, ?_⟩)
          rw [Monitor.exec, hmem, hr, Function.update_self]
        · exact .inl (by rw [Monitor.exec, hmem, Function.update_of_ne hr])
  | exit pid exitCode jiffies =>
      by_cases hon : s.monitoringEnabled = true
      · have hs : s.exec (.exit pid exitCode jiffies) =
            (CompleteMonitor.markProcessExitLocked pid exitCode jiffies s).1 := by
          rw [Monitor.exec, markProcessExit, if_neg (by simp [hon])]
        rcases markProcessExitLocked_cases pid exitCode jiffies s with
          ⟨-, hlocked⟩ | ⟨marked, hfind, hlocked⟩
        · exact .inl (by rw [hs, hlocked])
        · by_cases hr : record = marked
          · subst hr
            refine .inr (.inr ⟨pid, exitCode, jiffies, rfl, hon,
              h.mem_of_findProcessByPid hfind, (h.findProcessByPid_split hfind).1, ?_⟩)
            rw [hs, hlocked]
            exact Function.update_self ..
          · left
            rw [hs, hlocked]
            exact Function.update_of_ne hr ..
      · exact .inl (by rw [Monitor.exec, markProcessExit, if_pos (by simp [hon])])
  | control w => exact .inl (by rw [Monitor.exec, (h.controlWrite_frame w).1])
  | filter w => exact .inl (by rw [Monitor.exec, filterWrite_eq])

/-! ### The life of a record -/

/-- What does not change about a record: its identity for good, and all of it
once it is marked. -/
structure Kept (r r' : ProcessRecord K) : Prop where
  pid : r'.pid = r.pid
  ppid : r'.ppid = r.ppid
  comm : r'.comm = r.comm
  startTime : r'.startTime = r.startTime
  marked : r.status = 0 → r' = r

theorem Kept.refl (r : ProcessRecord K) : Kept r r := ⟨rfl, rfl, rfl, rfl, fun _ => rfl⟩

theorem Kept.trans {r r' r'' : ProcessRecord K} (h : Kept r r') (h' : Kept r' r'') :
    Kept r r'' where
  pid := h'.pid.trans h.pid
  ppid := h'.ppid.trans h.ppid
  comm := h'.comm.trans h.comm
  startTime := h'.startTime.trans h.startTime
  marked hstatus := by
    have hsame := h.marked hstatus
    rw [h'.marked (hsame ▸ hstatus), hsame]

theorem ProcessRecord.kept_exited {r : ProcessRecord K} {pid : PidT} (h : r.runs pid = true)
    (exitCode : CInt) (jiffies : ULong K) : Kept r (r.exited exitCode jiffies) := by
  refine ⟨rfl, rfl, rfl, rfl, fun hstatus => ?_⟩
  simp [runs, hstatus] at h

theorem Accounted.kept_exec {s : Monitor K} (h : Accounted s fun _ => False) (op : Op K)
    {record : Addr} (hlt : record < s.nextAddr) :
    Kept (s.mem record) ((s.exec op).mem record) := by
  rcases h.mem_exec op record with
    hsame | ⟨_, _, _, _, -, -, rfl, -⟩ | ⟨_, exitCode, jiffies, -, -, -, hruns, hmem⟩
  · rw [hsame]
    exact .refl _
  · exact absurd hlt (Nat.lt_irrefl _)
  · rw [hmem]
    exact ProcessRecord.kept_exited hruns exitCode jiffies

theorem Accounted.nextAddr_le_exec {s : Monitor K} (h : Accounted s fun _ => False) (op : Op K) :
    s.nextAddr ≤ (s.exec op).nextAddr := by
  cases op with
  | add pid ppid comm jiffies alloc =>
      rw [Monitor.exec]
      rcases addProcessRecord_cases pid ppid comm jiffies alloc s with ⟨-, hs⟩ | ⟨-, hs⟩
      · rw [hs]
      · rw [hs, addProcessRecordLocked_nextAddr]
        exact Nat.le_succ _
  | exit pid exitCode jiffies =>
      rw [Monitor.exec, markProcessExit]
      split
      · exact Nat.le_refl _
      · rw [markProcessExitLocked_frame]
  | control w => rw [Monitor.exec, (h.controlWrite_frame w).2]
  | filter w => rw [Monitor.exec, filterWrite_eq]

theorem Accounted.kept_run {s : Monitor K} (h : Accounted s fun _ => False) (ops : List (Op K))
    {record : Addr} (hlt : record < s.nextAddr) :
    Kept (s.mem record) ((run Monitor.exec s ops).mem record) := by
  induction ops generalizing s with
  | nil => exact .refl _
  | cons op ops ih =>
      exact (h.kept_exec op hlt).trans (ih (h.exec op) (hlt.trans_le (h.nextAddr_le_exec op)))

theorem Ledger.status_exec {l : Ledger K} (h : ∀ r ∈ l.records, r.status = 1 ∨ r.status = 0)
    (op : Op K) : ∀ r ∈ (l.exec op).records, r.status = 1 ∨ r.status = 0 := by
  rcases l.exec_cases op with ⟨_, _, _, _, -, -, hl⟩ | ⟨pid, exitCode, jiffies, -, -, hl⟩ |
    ⟨_, -, -, hl⟩ | ⟨_, -, -, hl⟩ | ⟨_, _, hl⟩
  · rw [hl]
    intro r hr
    rcases mem_of_mem_pushBounded hr with hr | rfl
    · exact h r hr
    · exact .inl rfl
  · rw [hl]
    rcases l.markExit_cases pid exitCode jiffies with
      ⟨-, hl⟩ | ⟨before, r, after, hrecords, -, -, hl⟩
    · rwa [hl]
    · rw [hl]
      intro r' hr'
      rw [hrecords] at h
      rcases List.mem_append.mp hr' with hr' | hr'
      · exact h r' (List.mem_append_left _ hr')
      · rcases List.mem_cons.mp hr' with rfl | hr'
        · exact .inr rfl
        · exact h r' (List.mem_append_right _ (List.mem_cons_of_mem _ hr'))
  · rw [hl]
    simp
  · rw [hl]
    exact h
  · rw [hl]
    exact h

/-- Every record in the list is running or marked. -/
theorem status_run (ops : List (Op K)) :
    ∀ record ∈ (run Monitor.exec (Monitor.load K) ops).processList,
      ((run Monitor.exec (Monitor.load K) ops).mem record).status = 1 ∨
        ((run Monitor.exec (Monitor.load K) ops).mem record).status = 0 := by
  have hledger := run_invariant
    (I := fun l : Ledger K => ∀ r ∈ l.records, r.status = 1 ∨ r.status = 0)
    (fun _ op h => Ledger.status_exec h op) (s := Ledger.load K) (by simp [Ledger.load]) ops
  rw [← ledger_run] at hledger
  exact fun record hr => hledger _ (List.mem_map_of_mem hr)

/-- The name a record is given: at most 15 bytes of the string passed in. -/
theorem comm_newRecord (pid ppid : PidT) (comm : List UInt8) (jiffies : ULong K) :
    (newRecord pid ppid comm jiffies).comm.str = (cstr comm).take (TASK_COMM_LEN - 1) :=
  str_strncpy_set_last (Nat.le_succ _) ..

/-- **The store is a window on a log.** After every run the list holds the last
`MAX_PROCESS_RECORDS` entries of the log, in order, and from then on, whatever
operations follow, the identity of a record does not change, a record that is
running stays running or is marked, and one that is marked does not change at
all. No operation writes to a record other than the one it adds or marks. -/
theorem store_refines_log (ops : List (Op K)) :
    (run Monitor.exec (Monitor.load K) ops).entries =
        (run Log.exec (Log.load K) ops).entries.rtake MAX_PROCESS_RECORDS ∧
      (∀ pid ppid comm jiffies, (newRecord pid ppid comm jiffies : ProcessRecord K).comm.str =
        (cstr comm).take (TASK_COMM_LEN - 1)) ∧
      (∀ record ∈ (run Monitor.exec (Monitor.load K) ops).processList,
        ((run Monitor.exec (Monitor.load K) ops).mem record).status = 1 ∨
          ((run Monitor.exec (Monitor.load K) ops).mem record).status = 0) ∧
      (∀ record ∈ (run Monitor.exec (Monitor.load K) ops).processList, ∀ later,
        Kept ((run Monitor.exec (Monitor.load K) ops).mem record)
          ((run Monitor.exec (Monitor.load K) (ops ++ later)).mem record)) ∧
      ∀ op record,
        ((run Monitor.exec (Monitor.load K) ops).exec op).mem record =
            (run Monitor.exec (Monitor.load K) ops).mem record ∨
          Adds (run Monitor.exec (Monitor.load K) ops) op record ∨
          Marks (run Monitor.exec (Monitor.load K) ops) op record := by
  have hacc := accounted_run (K := K) ops
  refine ⟨(shows_run ops).entries, comm_newRecord, status_run ops, fun record hr later => ?_,
    hacc.mem_exec⟩
  rw [run_append]
  exact hacc.kept_run later (hacc.allocated record hr)

end KernelModules.CompleteMonitor
