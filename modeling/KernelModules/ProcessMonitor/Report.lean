import KernelModules.ProcessMonitor.Statistics
import Mathlib.Logic.Function.Basic

/-!
The report of `process_monitor.c`.

`process_monitor_show` reads the counters one by one without the lock and takes
it only for the rows, so the module moves on under a report that is being
printed. A report is consistent when no step breaks what it has still to read
away from what it has already printed.
-/

namespace KernelModules.ProcessMonitor

open Lib

variable {K : Kernel}

/-- What `process_monitor_show` prints from the module. -/
structure Report (K : Kernel) where
  created : ULong K
  exited : ULong K
  current : ULong K
  peak : ULong K
  records : ℤ
  rows : List (ProcessRecord K)

/-- A report as it is being printed, by what it has read. -/
inductive Reading (K : Kernel)
  | header
  | created (created : ULong K)
  | exited (created exited : ULong K)
  | current (created exited current : ULong K)
  | peak (created exited current peak : ULong K)
  | records (created exited current peak : ULong K) (records : ℤ)

/-- The next read of `process_monitor_show`: a counter, or at last the rows, which
the lock keeps in one step. -/
def Reading.next (s : Monitor K) : Reading K → Reading K ⊕ Report K
  | .header => .inl (.created s.stats.totalProcessesCreated)
  | .created c => .inl (.exited c s.stats.totalProcessesExited)
  | .exited c e => .inl (.current c e s.stats.currentProcesses)
  | .current c e n => .inl (.peak c e n s.stats.peakProcesses)
  | .peak c e n p => .inl (.records c e n p s.recordCount)
  | .records c e n p r => .inr ⟨c, e, n, p, r, s.processList⟩

/-- `process_monitor_show` with nothing in between. -/
def processMonitorShow (s : Monitor K) : Report K where
  created := s.stats.totalProcessesCreated
  exited := s.stats.totalProcessesExited
  current := s.stats.currentProcesses
  peak := s.stats.peakProcesses
  records := s.recordCount
  rows := s.processList

/-- The numbers of the report agree with each other. -/
structure Report.Consistent (r : Report K) : Prop where
  current_eq : r.current = r.created - r.exited
  current_le : r.current ≤ r.peak
  records_eq : r.records = r.rows.length

/-- The module, the reports being printed and those that are done. -/
structure Readers (K : Kernel) where
  mon : Monitor K
  readings : ℕ → Option (Reading K)
  reports : List (Report K)

inductive ReportEvent (K : Kernel)
  /-- A function of the module runs, under the lock. -/
  | exec (op : Op K)
  /-- `process_monitor_show` is called. -/
  | call (reader : ℕ)
  /-- It takes its next step. -/
  | print (reader : ℕ)

namespace Readers

def load (K : Kernel) : Readers K := ⟨.load K, fun _ => none, []⟩

def step (t : Readers K) : ReportEvent K → Readers K
  | .exec op => { t with mon := t.mon.exec op }
  | .call reader =>
      match t.readings reader with
      | none => { t with readings := Function.update t.readings reader (some .header) }
      | some _ => t
  | .print reader =>
      match t.readings reader with
      | none => t
      | some reading =>
          match reading.next t.mon with
          | .inl reading =>
              { t with readings := Function.update t.readings reader (some reading) }
          | .inr report =>
              { t with
                readings := Function.update t.readings reader none
                reports := t.reports ++ [report] }

/-- Every report that is done is consistent. -/
def ReportsConsistent (t : Readers K) : Prop := ∀ r ∈ t.reports, r.Consistent

end Readers

/-! ### What a report relies on -/

/-- What the module must still show for the report to come out consistent. -/
def Reading.Matches (s : Monitor K) : Reading K → Prop
  | .header => True
  | .created c => c = s.stats.totalProcessesExited + s.stats.currentProcesses
  | .exited c e => c = e + s.stats.currentProcesses
  | .current c e n => n = c - e ∧ n ≤ s.stats.peakProcesses
  | .peak c e n p => n = c - e ∧ n ≤ p
  | .records c e n p r => n = c - e ∧ n ≤ p ∧ r = s.processList.length

/-- A process may be added under a report that has printed no total yet or has
the current count behind it, unless the list gets longer after its length was
printed. -/
def Reading.SparedByAdd (s : Monitor K) : Reading K → Prop
  | .created _ | .exited .. => False
  | .records .. => MAX_PROCESS_RECORDS ≤ s.processList.length
  | .header | .current .. | .peak .. => True

/-- An exit moves one process between two counters: only a report that stands
between the two notices, and only if a record is marked. -/
def Reading.SparedByExit (s : Monitor K) (pid : PidT) : Reading K → Prop
  | .exited .. => ∀ r ∈ s.processList, r.runs pid = false
  | .header | .created _ | .current .. | .peak .. | .records .. => True

/-- `clear` may run under a report if what is still to be printed is zero already. -/
def Reading.SparedByClear (s : Monitor K) : Reading K → Prop
  | .created _ => s.stats.totalProcessesExited + s.stats.currentProcesses = 0
  | .exited .. => s.stats.currentProcesses = 0
  | .current _ _ n => n = 0
  | .records .. => s.processList = []
  | .header | .peak .. => True

/-- The operation leaves alone what a report in this state has still to match. -/
def Reading.Spared (s : Monitor K) (reading : Reading K) : Op K → Prop
  | .add _ _ _ _ alloc => alloc = true → reading.SparedByAdd s
  | .exit pid _ => reading.SparedByExit s pid
  | .write w => (Op.write w : Op K).clears = true → reading.SparedByClear s

/-- No operation runs that a report being printed would notice. -/
def Readers.SparesReadings (t : Readers K) : ReportEvent K → Prop
  | .exec op => ∀ reader reading, t.readings reader = some reading → reading.Spared t.mon op
  | .call _ | .print _ => True

/-- With one report being printed, it is the one to spare. -/
theorem Readers.sparesReadings_of_only {t : Readers K} (reader : ℕ) (reading : Reading K)
    (honly : ∀ other, other ≠ reader → t.readings other = none)
    (hreading : t.readings reader = some reading) {op : Op K} (h : reading.Spared t.mon op) :
    t.SparesReadings (.exec op) := by
  intro other reading' hother
  by_cases hne : other = reader
  · rw [hne, hreading] at hother
    rwa [← Option.some.inj hother]
  · rw [honly other hne] at hother
    cases hother

/-- What holds of the module between its functions, however often its counters
have wrapped. -/
structure Steady (s : Monitor K) : Prop where
  counts : Counts s
  population : s.stats.population.Steady (running s.processList)

theorem steady_load (K : Kernel) : Steady (Monitor.load K) :=
  ⟨counts_load K, Population.steady_zero _⟩

theorem Steady.exec {s : Monitor K} (h : Steady s) (op : Op K) : Steady (s.exec op) := by
  refine ⟨h.counts.exec op, ?_⟩
  cases op with
  | add pid ppid comm jiffies alloc =>
      cases alloc with
      | false => exact h.population
      | true =>
          rw [Monitor.exec, h.counts.addProcessRecord_eq, MonitorStats.population_countCreated]
          exact h.population.enter.mono (countP_pushBounded_le ..)
  | exit pid jiffies =>
      rcases markProcessExit_cases pid jiffies s with ⟨-, hs⟩ | ⟨before, r, after, hlist, hr, -, hs⟩
      · rw [Monitor.exec, hs]
        exact h.population
      · -- the marked record is one of those covered by the count
        have hpopulation := h.population
        rw [hlist, running_mark (ProcessRecord.runs_iff.mp hr).2 jiffies] at hpopulation
        rw [Monitor.exec, hs]
        exact hpopulation.leave
  | write w =>
      rw [Monitor.exec_write]
      split
      · exact Population.steady_zero _
      · exact h.population

/-! ### One step -/

theorem add_one_ne (x : ULong K) : x + 1 ≠ x := by
  intro h
  have hone : (1 : ULong K) = 0 := by simpa using h
  have hpos := K.bitsPerLong_pos
  simp at hone
  omega

theorem Reading.matches_add_iff {s : Monitor K} (hs : Steady s) {reading : Reading K}
    (h : reading.Matches s) (pid ppid : PidT) (comm : List UInt8) (jiffies : ULong K) :
    reading.Matches (s.exec (.add pid ppid comm jiffies true)) ↔ reading.SparedByAdd s := by
  have hexec : s.exec (.add pid ppid comm jiffies true) = _ :=
    hs.counts.addProcessRecord_eq pid ppid comm jiffies
  have hpop := s.stats.population_countCreated
  have hexited : s.stats.countCreated.totalProcessesExited = s.stats.totalProcessesExited :=
    congrArg Population.left hpop
  have hcurrent : s.stats.countCreated.currentProcesses = s.stats.currentProcesses + 1 :=
    congrArg Population.present hpop
  rw [hexec]
  cases reading with
  | header => exact Iff.rfl
  | created c =>
      apply iff_of_false _ id
      show ¬ c = s.stats.countCreated.totalProcessesExited + s.stats.countCreated.currentProcesses
      rw [hexited, hcurrent, ← BitVec.add_assoc, show c = _ from h]
      exact (add_one_ne _).symm
  | exited c e =>
      apply iff_of_false _ id
      show ¬ c = e + s.stats.countCreated.currentProcesses
      rw [hcurrent, ← BitVec.add_assoc, show c = _ from h]
      exact (add_one_ne _).symm
  | current c e n =>
      apply iff_of_true _ trivial
      refine ⟨h.1, BitVec.le_trans h.2 ?_⟩
      show s.stats.peakProcesses ≤ s.stats.countCreated.peakProcesses
      rw [show s.stats.countCreated.peakProcesses = _ from congrArg Population.peak hpop,
        BitVec.le_def, Population.toNat_peak_enter]
      exact Nat.le_max_left ..
  | peak c e n p => exact iff_of_true h trivial
  | records c e n p r =>
      obtain ⟨hn, hp, hr⟩ := h
      have hbound := hs.counts.bound
      show (_ ∧ _ ∧ r = (pushBounded ..).length) ↔ MAX_PROCESS_RECORDS ≤ s.processList.length
      rw [and_iff_right hn, and_iff_right hp, hr, length_pushBounded maxProcessRecords_pos hbound,
        Nat.cast_inj]
      omega

theorem Reading.matches_exit_iff {s : Monitor K} {reading : Reading K} (h : reading.Matches s)
    (pid : PidT) (jiffies : ULong K) :
    reading.Matches (s.exec (.exit pid jiffies)) ↔ reading.SparedByExit s pid := by
  rcases markProcessExit_cases pid jiffies s with
    ⟨hnone, hs⟩ | ⟨before, r, after, hlist, hr, -, hs⟩
  · rw [show s.exec (.exit pid jiffies) = s from hs]
    apply iff_of_true h
    cases reading with
    | exited c e => exact hnone
    | header | created | current | peak | records => trivial
  · rw [show s.exec (.exit pid jiffies) = _ from hs]
    cases reading with
    | header => exact Iff.rfl
    | created c =>
        apply iff_of_true _ trivial
        show c = s.stats.totalProcessesExited + 1 + (s.stats.currentProcesses - 1)
        rw [BitVec.add_assoc, BitVec.add_comm 1, BitVec.sub_add_cancel]
        exact h
    | exited c e =>
        apply iff_of_false
        · show ¬ c = e + (s.stats.currentProcesses - 1)
          rw [show c = _ from h, BitVec.add_right_inj]
          intro heq
          apply add_one_ne (s.stats.currentProcesses - 1)
          rw [BitVec.sub_add_cancel]
          exact heq
        · intro hnone
          have hmem : r ∈ s.processList := by simp [hlist]
          rw [hnone r hmem] at hr
          cases hr
    | current c e n => exact iff_of_true h trivial
    | peak c e n p => exact iff_of_true h trivial
    | records c e n p r' =>
        apply iff_of_true _ trivial
        obtain ⟨hn, hp, hr'⟩ := h
        rw [hlist] at hr'
        exact ⟨hn, hp, by simpa using hr'⟩

theorem Reading.matches_clear_iff {s : Monitor K} {reading : Reading K} (h : reading.Matches s) :
    reading.Matches (clear s) ↔ reading.SparedByClear s := by
  cases reading with
  | header => exact Iff.rfl
  | created c =>
      show c = 0#_ + 0#_ ↔ _
      rw [show c = _ from h, BitVec.add_zero]
      exact Iff.rfl
  | exited c e =>
      show c = e + 0 ↔ _
      rw [show c = _ from h, BitVec.add_right_inj]
      exact Iff.rfl
  | current c e n =>
      show (_ ∧ n ≤ 0#_) ↔ n = 0#_
      rw [and_iff_right h.1]
      exact BitVec.le_zero_iff
  | peak c e n p => exact iff_of_true h trivial
  | records c e n p r =>
      obtain ⟨hn, hp, hr⟩ := h
      show (_ ∧ _ ∧ r = 0) ↔ s.processList = []
      rw [and_iff_right hn, and_iff_right hp, hr, Nat.cast_eq_zero, List.length_eq_zero_iff]

/-- What a report has still to match survives the operations that spare it, and no
others. -/
theorem Reading.matches_exec_iff {s : Monitor K} (hs : Steady s) {reading : Reading K}
    (h : reading.Matches s) (op : Op K) :
    reading.Matches (s.exec op) ↔ reading.Spared s op := by
  cases op with
  | add pid ppid comm jiffies alloc =>
      cases alloc with
      | false => exact iff_of_true h (by simp [Spared])
      | true =>
          rw [matches_add_iff hs h]
          exact ⟨fun hspared _ => hspared, fun hspared => hspared rfl⟩
  | exit pid jiffies => exact matches_exit_iff h pid jiffies
  | write w =>
      rw [Monitor.exec_write]
      split
      · rename_i hclears
        rw [matches_clear_iff h]
        exact ⟨fun hspared _ => hspared, fun hspared => hspared hclears⟩
      · rename_i hclears
        exact iff_of_true h fun hclears' => absurd hclears' hclears

/-- Reading keeps a report on its way, and the last read makes it consistent. -/
theorem Reading.matches_next {s : Monitor K} (hs : Steady s) {reading : Reading K}
    (h : reading.Matches s) :
    match reading.next s with
    | .inl reading => reading.Matches s
    | .inr report => report.Consistent := by
  cases reading with
  | header => exact hs.population.balance
  | created c => exact h
  | exited c e =>
      refine ⟨?_, hs.population.present_le⟩
      rw [show c = _ from h, BitVec.add_comm, BitVec.add_sub_cancel]
  | current c e n => exact h
  | peak c e n p => exact ⟨h.1, h.2, hs.counts.count⟩
  | records c e n p r => exact ⟨h.1, h.2.1, h.2.2⟩

/-! ### Many readers -/

namespace Readers

/-- The invariant. -/
structure Sound (t : Readers K) : Prop where
  steady : Steady t.mon
  reading : ∀ reader reading, t.readings reader = some reading → reading.Matches t.mon
  reports : t.ReportsConsistent

theorem sound_load (K : Kernel) : Sound (load K) :=
  ⟨steady_load K, fun _ _ h => (by simp [load] at h), fun _ h => (by simp [load] at h)⟩

/-- A reader takes a step that leaves its report on its way. -/
theorem Sound.update {t : Readers K} (h : Sound t) (reader : ℕ) {next : Option (Reading K)}
    (hnext : ∀ reading, next = some reading → reading.Matches t.mon) :
    ∀ other reading, Function.update t.readings reader next other = some reading →
      reading.Matches t.mon :=
  (Function.forall_update_iff t.readings fun _ call =>
    ∀ reading, call = some reading → reading.Matches t.mon).mpr
    ⟨hnext, fun other _ => h.reading other⟩

theorem Sound.step {t : Readers K} (h : Sound t) {e : ReportEvent K}
    (hspares : SparesReadings t e) : Sound (t.step e) := by
  cases e with
  | exec op =>
      refine ⟨h.steady.exec op, fun reader reading hreader => ?_, h.reports⟩
      exact (Reading.matches_exec_iff h.steady (h.reading reader reading hreader) op).mpr
        (hspares reader reading hreader)
  | call reader =>
      rw [Readers.step]
      cases hreader : t.readings reader with
      | some reading => exact h
      | none =>
          refine ⟨h.steady, h.update reader fun reading hreading => ?_, h.reports⟩
          cases hreading
          trivial
  | print reader =>
      rw [Readers.step]
      cases hreader : t.readings reader with
      | none => exact h
      | some reading =>
          have hmatches := Reading.matches_next h.steady (h.reading reader reading hreader)
          dsimp only
          cases hnext : reading.next t.mon with
          | inl next =>
              rw [hnext] at hmatches
              refine ⟨h.steady, h.update reader fun reading' hreading' => ?_, h.reports⟩
              cases hreading'
              exact hmatches
          | inr report =>
              rw [hnext] at hmatches
              refine ⟨h.steady, h.update reader nofun, fun r hr => ?_⟩
              rcases List.mem_append.mp hr with hr | hr
              · exact h.reports r hr
              · rw [List.mem_singleton.mp hr]
                exact hmatches

end Readers

/-! ### A report that is left to finish -/

/-- How many steps a report has still to take. -/
def Reading.left : Reading K → ℕ
  | .header => 6
  | .created _ => 5
  | .exited .. => 4
  | .current .. => 3
  | .peak .. => 2
  | .records .. => 1

/-- The report that comes out if the module stands still. -/
def Reading.finish (s : Monitor K) : Reading K → Report K
  | .header => processMonitorShow s
  | .created c => { processMonitorShow s with created := c }
  | .exited c e => { processMonitorShow s with created := c, exited := e }
  | .current c e n => { processMonitorShow s with created := c, exited := e, current := n }
  | .peak c e n p => ⟨c, e, n, p, s.recordCount, s.processList⟩
  | .records c e n p r => ⟨c, e, n, p, r, s.processList⟩

/-- A report is consistent in the end only if the module matches it now. -/
theorem Reading.matches_of_consistent {s : Monitor K} {reading : Reading K}
    (h : (reading.finish s).Consistent) : reading.Matches s := by
  obtain ⟨hcurrent, hpeak, hrecords⟩ := h
  cases reading with
  | header => trivial
  | created c =>
      have hsum : s.stats.currentProcesses = c - s.stats.totalProcessesExited := hcurrent
      show c = _
      rw [hsum, BitVec.add_comm, BitVec.sub_add_cancel]
  | exited c e =>
      have hsum : s.stats.currentProcesses = c - e := hcurrent
      show c = _
      rw [hsum, BitVec.add_comm, BitVec.sub_add_cancel]
  | current c e n => exact ⟨hcurrent, hpeak⟩
  | peak c e n p => exact ⟨hcurrent, hpeak⟩
  | records c e n p r => exact ⟨hcurrent, hpeak, hrecords⟩

namespace Readers

/-- One step of a report towards its end. -/
theorem step_print {t : Readers K} {reader : ℕ} {reading : Reading K}
    (h : t.readings reader = some reading) :
    (reading.left = 1 ∧ (t.step (.print reader)).reports = t.reports ++ [reading.finish t.mon]) ∨
      ∃ next : Reading K, reading.left = next.left + 1 ∧ next.finish t.mon = reading.finish t.mon ∧
        t.step (.print reader) =
          { t with readings := Function.update t.readings reader (some next) } := by
  rw [step, h]
  cases reading with
  | records c e n p r => exact .inl ⟨rfl, rfl⟩
  | header => exact .inr ⟨.created t.mon.stats.totalProcessesCreated, rfl, rfl, rfl⟩
  | created c => exact .inr ⟨.exited c t.mon.stats.totalProcessesExited, rfl, rfl, rfl⟩
  | exited c e => exact .inr ⟨.current c e t.mon.stats.currentProcesses, rfl, rfl, rfl⟩
  | current c e n => exact .inr ⟨.peak c e n t.mon.stats.peakProcesses, rfl, rfl, rfl⟩
  | peak c e n p => exact .inr ⟨.records c e n p t.mon.recordCount, rfl, rfl, rfl⟩

theorem run_print {t : Readers K} {reader : ℕ} {reading : Reading K}
    (h : t.readings reader = some reading) :
    (run step t (List.replicate reading.left (.print reader))).reports =
      t.reports ++ [reading.finish t.mon] := by
  induction hleft : reading.left generalizing t reading with
  | zero => cases reading <;> simp [Reading.left] at hleft
  | succ left ih =>
      rw [List.replicate_succ, run_cons]
      rcases step_print h with ⟨hone, hreports⟩ | ⟨next, hnext, hfinish, hs⟩
      · obtain rfl : left = 0 := by omega
        exact hreports
      · rw [hs, ← hfinish]
        exact ih (Function.update_self ..) (by omega)

/-- **Consistent reports.** In a schedule in which no operation touches what a
report being printed has still to match, every report is consistent. The
condition cannot be dropped: an operation that does touch it leaves a report that
comes out inconsistent if it is printed on. -/
theorem reports_consistent {es : List (ReportEvent K)} :
    (StepsMeet step SparesReadings (load K) es →
      Throughout step ReportsConsistent (load K) es) ∧
    (StepsMeet step SparesReadings (load K) es →
      ∀ e, ¬ SparesReadings (run step (load K) es) e →
        ∃ reader n, ¬ Throughout step ReportsConsistent (load K)
          (es ++ e :: List.replicate n (.print reader))) := by
  have hsound : StepsMeet step SparesReadings (load K) es →
      Throughout step Sound (load K) es := fun h =>
    h.throughout (fun _ _ ht hspares => ht.step hspares) (sound_load K)
  refine ⟨fun h => (hsound h).imp fun _ ht => ht.reports, fun h e htouches => ?_⟩
  have ht := (hsound h).last
  cases e with
  | call reader => exact absurd trivial htouches
  | print reader => exact absurd trivial htouches
  | exec op =>
      simp only [SparesReadings, not_forall] at htouches
      obtain ⟨reader, reading, hreader, htouched⟩ := htouches
      refine ⟨reader, reading.left, fun hall => htouched ?_⟩
      have hlast := hall.last
      rw [run_append, run_cons] at hlast
      have hreports := run_print (t := (run step (load K) es).step (.exec op)) hreader
      rw [ReportsConsistent, hreports] at hlast
      have hfinish := hlast _ (List.mem_append_right _ (List.mem_singleton_self _))
      exact (Reading.matches_exec_iff ht.steady (ht.reading reader reading hreader) op).mp
        (Reading.matches_of_consistent hfinish)

/-- The process exits before `exited` is printed, and another one is created after
`current`. -/
theorem reports_consistent_of_exit :
    Throughout step ReportsConsistent (load .x86_64)
      [.exec (.add 1 0 [] 0 true), .call 0, .print 0, .exec (.exit 1 5), .print 0, .print 0,
        .exec (.add 2 0 [] 5 true), .print 0, .print 0, .print 0] := by
  refine reports_consistent.1 ⟨nofun, trivial, trivial, ?_, trivial, trivial, ?_, trivial, trivial,
    trivial, trivial⟩
  · refine sparesReadings_of_only 0 (.created 1) (fun other hne => ?_) rfl trivial
    simp [step, load, Reading.next, hne]
  · refine sparesReadings_of_only 0 (.current 1 1 0) (fun other hne => ?_) rfl fun _ => trivial
    simp [step, load, Reading.next, hne]

/-- A process that is created between two reads: one created, none exited, two
active. -/
theorem inconsistent_of_add :
    ¬ Throughout step ReportsConsistent (load .x86_64)
      [.exec (.add 1 0 [] 0 true), .call 0, .print 0, .print 0, .exec (.add 2 0 [] 0 true),
        .print 0, .print 0, .print 0, .print 0] := by
  intro h
  have hcurrent := (h.last _ (List.mem_singleton_self _)).current_eq
  revert hcurrent
  decide

end Readers

end KernelModules.ProcessMonitor
