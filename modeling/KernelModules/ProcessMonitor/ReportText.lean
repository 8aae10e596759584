import KernelModules.Lib.Answers
import KernelModules.ProcessMonitor.Report
import KernelModules.Texts

/-!
The text of the file of `process_monitor.c`.

`process_monitor_show` prints five numbers and a row for every record in the list.
Reports of two runs, however the module moved on under them, have the same text exactly
when they report the same numbers and the same rows, up to blanks at the end of a name.
-/

namespace KernelModules.ProcessMonitor

open Lib
open CompleteMonitor (line)

variable {K : Kernel}

/-! ### `process_monitor_show` -/

/-- What is printed of a record. -/
structure Row (K : Kernel) where
  pid : PidT
  ppid : PidT
  comm : List UInt8
  startTime : ULong K
  endTime : ULong K
  running : Bool
  deriving DecidableEq

def ProcessRecord.row (record : ProcessRecord K) : Row K where
  pid := record.pid
  ppid := record.ppid
  comm := record.comm.str
  startTime := record.startTime
  endTime := record.endTime
  running := record.status ≠ 0

def Row.text (row : Row K) : List UInt8 :=
  processColumns row.pid row.ppid row.comm row.startTime row.endTime ++
    lastCell 8 (shownStatus row.running)

/-- The names of the columns. -/
def tableHead : List UInt8 :=
  List.flatten
    [cell 8 (ascii "PID".toList), cell 8 (ascii "PPID".toList), cell 16 (ascii "COMMAND".toList),
      cell 12 (ascii "START_TIME".toList), cell 12 (ascii "END_TIME".toList),
      lastCell 8 (ascii "STATUS".toList)]

/-- The text of a report. -/
def Report.text (r : Report K) : List UInt8 :=
  List.flatten
    [ascii "=== Process Monitor Statistics ===\n".toList,
      line "Total Processes Created: " (printULong r.created) "\n",
      line "Total Processes Exited: " (printULong r.exited) "\n",
      line "Current Active Processes: " (printULong r.current) "\n",
      line "Peak Processes: " (printULong r.peak) "\n",
      line "Records in Memory: " (printInt (.ofInt 32 r.records)) "\n",
      ascii "\n=== Recent Process Records ===\n".toList,
      tableHead,
      List.replicate 72 45 ++ [10],
      r.rows.flatMap fun record => record.row.text]

/-! ### Reading the text -/

/-- A row without the blanks at the end of its name. -/
def Row.trimmed (row : Row K) : Row K := { row with comm := trimEnd row.comm }

theorem tells_row_text :
    Tells (fun record : ProcessRecord K => record.row.text) fun record => record.row.trimmed := by
  have hcomm : ∀ record : ProcessRecord K, record.row.comm.length ≤ 16 := fun record =>
    length_str_le record.comm
  have hcolumns := tells_processColumns (fun record : ProcessRecord K => record.row.pid)
    (fun record => record.row.ppid) hcomm (fun record => record.row.startTime)
    (fun record => record.row.endTime)
  have hstatus :
      Tells (fun record : ProcessRecord K => lastCell 8 (shownStatus record.row.running))
        fun record => record.row.running :=
    (Tells.lastCell 8 (fun record : ProcessRecord K => blank_notMem_shownStatus record.row.running)
      fun record => newline_notMem_shownStatus record.row.running).map
        fun _ _ h => shownStatus_injective h
  refine (hcolumns.append hstatus).map fun record record' h => ?_
  obtain ⟨hcolumns, hrunning⟩ := Prod.mk.inj h
  obtain ⟨hpid, hppid, hcomm, hstart, hend⟩ :
      record.row.pid = record'.row.pid ∧ record.row.ppid = record'.row.ppid ∧
        trimEnd record.row.comm = trimEnd record'.row.comm ∧
        record.row.startTime = record'.row.startTime ∧
        record.row.endTime = record'.row.endTime := by simpa using hcolumns
  rw [Row.trimmed, Row.trimmed, hpid, hppid, hcomm, hstart, hend, hrunning]

/-- The text of a row depends on no more. -/
theorem ProcessRecord.text_eq_of_trimmed {record record' : ProcessRecord K}
    (h : record.row.trimmed = record'.row.trimmed) : record.row.text = record'.row.text := by
  have htrimmed : ∀ record : ProcessRecord K, record.row.trimmed.text = record.row.text := by
    intro record
    have hlength : record.row.comm.length ≤ 16 := length_str_le record.comm
    simp only [Row.text, Row.trimmed, processColumns, cell, column_trimEnd hlength]
  rw [← htrimmed record, h, htrimmed record']

/-- The reports agree in all that is printed. -/
structure Report.Alike (r r' : Report K) : Prop where
  created : r.created = r'.created
  exited : r.exited = r'.exited
  current : r.current = r'.current
  peak : r.peak = r'.peak
  records : r.records = r'.records
  rows : r.rows.map (fun record => record.row.trimmed) =
    r'.rows.map fun record => record.row.trimmed

/-- **Two texts.** -/
theorem Report.text_eq_iff {r r' : Report K} (h : FitsInt r.records) (h' : FitsInt r'.records) :
    r.text = r'.text ↔ r.Alike r' := by
  simp only [text, List.flatten_cons, List.flatten_nil]
  constructor
  · intro htext
    obtain ⟨hcreated, htext⟩ :=
      line_printULong_inj (c := 10) rfl rfl (List.append_cancel_left htext)
    obtain ⟨hexited, htext⟩ := line_printULong_inj (c := 10) rfl rfl htext
    obtain ⟨hcurrent, htext⟩ := line_printULong_inj (c := 10) rfl rfl htext
    obtain ⟨hpeak, htext⟩ := line_printULong_inj (c := 10) rfl rfl htext
    obtain ⟨hrecords, htext⟩ := line_printInt_inj (c := 10) rfl (by decide) htext
    have hrest := List.append_cancel_left
      (List.append_cancel_left (List.append_cancel_left htext))
    have hend : ∀ c ∈ ([] : List UInt8).head?, ¬ StartsNumber c := by simp
    obtain ⟨hrows, -⟩ := tells_row_text.rows StartsNumber
      (fun record => processColumns_starts ..) hend hend hrest
    exact ⟨hcreated, hexited, hcurrent, hpeak, eq_of_ofInt_eq h h' hrecords, hrows⟩
  · rintro ⟨hcreated, hexited, hcurrent, hpeak, hrecords, hrows⟩
    rw [hcreated, hexited, hcurrent, hpeak, hrecords,
      flatMap_eq_of_map_eq (fun _ _ => ProcessRecord.text_eq_of_trimmed) hrows]

/-! ### Many readers -/

theorem Counts.fitsInt {s : Monitor K} (h : Counts s) : FitsInt s.recordCount := by
  have hbound : s.processList.length ≤ 1000 := h.bound
  have hcount := h.count
  unfold FitsInt
  omega

/-- The number of records that a report under way has read, if it has. -/
def Reading.RecordsFit : Reading K → Prop
  | .records _ _ _ _ r => FitsInt r
  | _ => True

namespace Readers

/-- The invariant. -/
structure Fits (t : Readers K) : Prop where
  counts : Counts t.mon
  reading : ∀ reader reading, t.readings reader = some reading → reading.RecordsFit
  reports : ∀ r ∈ t.reports, FitsInt r.records

theorem fits_load (K : Kernel) : Fits (load K) := ⟨counts_load K, nofun, nofun⟩

theorem Fits.update {t : Readers K} (h : Fits t) (reader : ℕ) {next : Option (Reading K)}
    (hnext : ∀ reading ∈ next, reading.RecordsFit) :
    ∀ other reading, Function.update t.readings reader next other = some reading →
      reading.RecordsFit :=
  (Function.forall_update_iff t.readings fun _ call =>
    ∀ reading, call = some reading → reading.RecordsFit).mpr
    ⟨hnext, fun other _ => h.reading other⟩

theorem Fits.print {t : Readers K} (h : Fits t) (reader : ℕ) : Fits (t.step (.print reader)) := by
  rw [step]
  cases hreader : t.readings reader with
  | none => exact h
  | some reading =>
      have hfits := h.reading reader reading hreader
      cases reading with
      | header | created | exited | current =>
          refine ⟨h.counts, h.update reader fun next hnext => ?_, h.reports⟩
          cases hnext
          trivial
      | peak c e n p =>
          refine ⟨h.counts, h.update reader fun next hnext => ?_, h.reports⟩
          cases hnext
          exact h.counts.fitsInt
      | records c e n p records =>
          refine ⟨h.counts, h.update reader fun _ hnone => absurd hnone (Option.not_mem_none _),
            fun r hr => ?_⟩
          rcases List.mem_append.mp hr with hr | hr
          · exact h.reports r hr
          · rw [List.mem_singleton.mp hr]
            exact hfits

/-- **One step.** -/
theorem Fits.step {t : Readers K} (h : Fits t) (e : ReportEvent K) : Fits (t.step e) := by
  cases e with
  | exec op => exact ⟨h.counts.exec op, h.reading, h.reports⟩
  | call reader =>
      rw [Readers.step]
      cases t.readings reader with
      | some reading => exact h
      | none =>
          refine ⟨h.counts, h.update reader fun next hnext => ?_, h.reports⟩
          cases hnext
          trivial
  | print reader => exact h.print reader

/-- **What the file tells.** In every interleaving, two reports, of the same run or not,
have the same text exactly when they agree in every number and, up to blanks at the end
of a name, in every row. -/
theorem reports_readable (es es' : List (ReportEvent K)) {r r' : Report K}
    (h : r ∈ (run step (load K) es).reports) (h' : r' ∈ (run step (load K) es').reports) :
    r.text = r'.text ↔ r.Alike r' := by
  have hfits : ∀ es : List (ReportEvent K), Fits (run step (load K) es) :=
    run_invariant (I := Fits) (fun _ e h => h.step e) (fits_load K)
  exact Report.text_eq_iff ((hfits es).reports r h) ((hfits es').reports r' h')

/-- A process and a report of it. -/
def forkAndShow (comm : String) : List (ReportEvent .x86_64) :=
  [.exec (.add 7 1 (ascii comm.toList) 100 true), .call 0] ++ List.replicate 6 (.print 0)

/-- A blank at the end of a name is not seen. -/
theorem reports_readable_of_blank :
    (processMonitorShow (run step (load .x86_64) (forkAndShow "sh")).mon).text =
      (processMonitorShow (run step (load .x86_64) (forkAndShow "sh ")).mon).text :=
  (reports_readable (forkAndShow "sh") (forkAndShow "sh ") (List.mem_singleton_self _)
    (List.mem_singleton_self _)).mpr ⟨rfl, rfl, rfl, rfl, rfl, by decide⟩

end Readers

/-! ### The module as a machine -/

/-- The file is read, or a function of the module runs. -/
inductive FileCall (K : Kernel)
  | read
  | exec (op : Op K)

/-- The probe handlers return zero. -/
def Op.result (s : Monitor K) : Op K → Except Errno ℕ
  | .add .. | .exit .. => .ok 0
  | .write w => (processMonitorWrite w s).2

def Monitor.serve (s : Monitor K) : FileCall K → Monitor K × Answer
  | .read => (s, .text (processMonitorShow s).text)
  | .exec op => (s.exec op, .result (op.result s))

/-- No status but the two that the module writes. -/
def StatusBits (s : Monitor K) : Prop := ∀ r ∈ s.processList, r.status = 0 ∨ r.status = 1

theorem StatusBits.exec {s : Monitor K} (h : StatusBits s) (hcounts : Counts s) (op : Op K) :
    StatusBits (s.exec op) := by
  cases op with
  | add pid ppid comm jiffies alloc =>
      cases alloc with
      | false => exact h
      | true =>
          rw [Monitor.exec, hcounts.addProcessRecord_eq]
          intro r hr
          rcases mem_of_mem_pushBounded hr with hold | rfl
          · exact h r hold
          · exact .inr rfl
  | exit pid jiffies =>
      rw [Monitor.exec]
      rcases markProcessExit_cases pid jiffies s with ⟨-, hs⟩ | ⟨before, r, after, hlist, -, -, hs⟩
      · rwa [hs]
      · rw [hs]
        intro r' hr'
        rcases List.mem_append.mp hr' with hmem | hmem
        · exact h r' (by rw [hlist]; exact List.mem_append_left _ hmem)
        · rcases List.mem_cons.mp hmem with rfl | hmem
          · exact .inl rfl
          · exact h r' (by rw [hlist]; exact List.mem_append_right _ (List.mem_cons_of_mem _ hmem))
  | write w =>
      rw [Monitor.exec_write]
      split
      · exact fun _ hr => absurd hr List.not_mem_nil
      · exact h

/-- The test and the change of `mark_process_exit`, on rows. -/
def Row.runs (pid : PidT) (row : Row K) : Bool := row.pid = pid && row.running

def Row.exited (jiffies : ULong K) (row : Row K) : Row K :=
  { row with endTime := jiffies, running := false }

/-- The rows of the list, without the blanks. -/
def shownRows (s : Monitor K) : List (Row K) := s.processList.map fun record => record.row.trimmed

theorem runs_row {record : ProcessRecord K} (h : record.status = 0 ∨ record.status = 1)
    (pid : PidT) : record.row.trimmed.runs pid = record.runs pid := by
  have hrunning : decide (record.status ≠ 0) = decide (record.status = 1) := by
    rcases h with h | h <;> rw [h] <;> rfl
  show (decide (record.pid = pid) && decide (record.status ≠ 0)) = _
  rw [hrunning]
  rfl

/-- An exit can be followed on the rows. -/
theorem shownRows_markProcessExit {s : Monitor K} (h : StatusBits s) (pid : PidT)
    (jiffies : ULong K) :
    shownRows (markProcessExit pid jiffies s) =
        updateFirst (Row.runs pid) (Row.exited jiffies) (shownRows s) ∧
      (markProcessExit pid jiffies s).stats =
        if (shownRows s).any (Row.runs pid) then s.stats.countExited else s.stats := by
  have hruns : ∀ r ∈ s.processList, r.row.trimmed.runs pid = r.runs pid := fun r hr =>
    runs_row (h r hr) pid
  have hmap : shownRows { s with
      processList := updateFirst (ProcessRecord.runs pid) (.exited jiffies) s.processList } =
      updateFirst (Row.runs pid) (Row.exited jiffies) (shownRows s) :=
    updateFirst_map hruns fun _ => rfl
  rcases markProcessExit_cases pid jiffies s with ⟨hnone, hs⟩ | ⟨before, r, after, hlist, hr, -, hs⟩
  · have hshown : (shownRows s).any (Row.runs pid) = false := by
      rw [shownRows, List.any_map, List.any_eq_false]
      intro r hmem
      show ¬ r.row.trimmed.runs pid = true
      rw [hruns r hmem, hnone r hmem]
      exact Bool.false_ne_true
    refine ⟨?_, by rw [hs, hshown]; rfl⟩
    rw [hs, ← hmap, updateFirst_of_none hnone]
  · have hmem : r ∈ s.processList := by simp [hlist]
    have hany : s.processList.any (ProcessRecord.runs pid) = true :=
      List.any_eq_true.mpr ⟨r, hmem, hr⟩
    have hshown : (shownRows s).any (Row.runs pid) = true := by
      rw [shownRows, List.any_map, List.any_eq_true]
      exact ⟨r, hmem, (hruns r hmem).trans hr⟩
    rw [markProcessExit, if_pos hany]
    exact ⟨hmap, by rw [hshown]; rfl⟩

/-- Two sound states that show the same. -/
structure Alike (s s' : Monitor K) : Prop where
  counts : Counts s
  counts' : Counts s'
  bits : StatusBits s
  bits' : StatusBits s'
  stats : s.stats = s'.stats
  rows : shownRows s = shownRows s'

namespace Alike

variable {s s' : Monitor K}

theorem recordCount (h : Alike s s') : s.recordCount = s'.recordCount := by
  have hlength : s.processList.length = s'.processList.length := by
    simpa [shownRows] using congrArg List.length h.rows
  rw [h.counts.count, h.counts'.count, hlength]

theorem report (h : Alike s s') : (processMonitorShow s).Alike (processMonitorShow s') where
  created := congrArg MonitorStats.totalProcessesCreated h.stats
  exited := congrArg MonitorStats.totalProcessesExited h.stats
  current := congrArg MonitorStats.currentProcesses h.stats
  peak := congrArg MonitorStats.peakProcesses h.stats
  records := h.recordCount
  rows := h.rows

theorem exec (h : Alike s s') (op : Op K) : Alike (s.exec op) (s'.exec op) := by
  suffices hshown : (s.exec op).stats = (s'.exec op).stats ∧
      shownRows (s.exec op) = shownRows (s'.exec op) from
    ⟨h.counts.exec op, h.counts'.exec op, h.bits.exec h.counts op, h.bits'.exec h.counts' op,
      hshown.1, hshown.2⟩
  cases op with
  | add pid ppid comm jiffies alloc =>
      cases alloc with
      | false => exact ⟨h.stats, h.rows⟩
      | true =>
          rw [Monitor.exec, Monitor.exec, h.counts.addProcessRecord_eq,
            h.counts'.addProcessRecord_eq]
          refine ⟨congrArg MonitorStats.countCreated h.stats, ?_⟩
          rw [shownRows, shownRows, map_pushBounded, map_pushBounded]
          exact congrArg (pushBounded MAX_PROCESS_RECORDS · _) h.rows
  | exit pid jiffies =>
      obtain ⟨hrows, hstats⟩ := shownRows_markProcessExit h.bits pid jiffies
      obtain ⟨hrows', hstats'⟩ := shownRows_markProcessExit h.bits' pid jiffies
      rw [Monitor.exec, Monitor.exec, hrows, hstats, hrows', hstats', h.rows, h.stats]
      exact ⟨rfl, rfl⟩
  | write w =>
      rw [Monitor.exec_write, Monitor.exec_write]
      split
      · exact ⟨rfl, rfl⟩
      · exact ⟨h.stats, h.rows⟩

end Alike

theorem unseen_alike : Unseen (Monitor.serve (K := K)) Alike where
  answer := fun {s s'} h i => by
    cases i with
    | read =>
        exact congrArg Answer.text
          ((Report.text_eq_iff h.counts.fitsInt h.counts'.fitsInt).mpr h.report)
    | exec op =>
        cases op with
        | add | exit => rfl
        | write w =>
            show Answer.result (processMonitorWrite w s).2 = .result (processMonitorWrite w s').2
            rw [processMonitorWrite, processMonitorWrite]
            cases w.copy 32 <;> rfl
  next := fun {s s'} h i => by
    cases i with
    | read => exact h
    | exec op => exact h.exec op

/-- **The file tells all.** Two states that the module can be in have the same text exactly
when no forks, exits, reads and writes that follow, in any order and at any times, can tell
them apart. -/
theorem report_tells_all (ops ops' : List (Op K)) :
    (processMonitorShow (run Monitor.exec (.load K) ops)).text =
        (processMonitorShow (run Monitor.exec (.load K) ops')).text ↔
      ∀ calls, answers Monitor.serve (run Monitor.exec (.load K) ops) calls =
        answers Monitor.serve (run Monitor.exec (.load K) ops') calls := by
  have hsound : ∀ ops : List (Op K), Counts (run Monitor.exec (.load K) ops) ∧
      StatusBits (run Monitor.exec (.load K) ops) :=
    run_invariant (I := fun s : Monitor K => Counts s ∧ StatusBits s)
      (fun _ op h => ⟨h.1.exec op, h.2.exec h.1 op⟩) ⟨counts_load K, nofun⟩
  obtain ⟨hcounts, hbits⟩ := hsound ops
  obtain ⟨hcounts', hbits'⟩ := hsound ops'
  generalize run Monitor.exec (Monitor.load K) ops = s at *
  generalize run Monitor.exec (Monitor.load K) ops' = s' at *
  have htext : (processMonitorShow s).text = (processMonitorShow s').text ↔
      (s.serve .read).2 = (s'.serve .read).2 :=
    ⟨congrArg Answer.text, Answer.text.inj⟩
  rw [htext]
  refine unseen_alike.answer_eq_iff fun h => ?_
  obtain ⟨hcreated, hexited, hcurrent, hpeak, -, hrows⟩ :=
    (Report.text_eq_iff hcounts.fitsInt hcounts'.fitsInt).mp (Answer.text.inj h)
  refine ⟨hcounts, hcounts', hbits, hbits', ?_, hrows⟩
  show MonitorStats.mk (processMonitorShow s).created (processMonitorShow s).exited
    (processMonitorShow s).current (processMonitorShow s).peak = s'.stats
  rw [hcreated, hexited, hcurrent, hpeak]
  rfl

end KernelModules.ProcessMonitor
