import KernelModules.CompleteMonitor.Counters
import KernelModules.CompleteMonitor.Uniqueness

/-!
`current_processes` as the number of active processes.

With monitoring on, every allocation succeeding and no command, the counter
follows the number of live pids until a process exits whose record has been
evicted: its exit finds nothing and is not counted. Since the list holds the
last `MAX_PROCESS_RECORDS` processes added, that is the exit of a process after
which as many others were added.
-/

namespace KernelModules

open Lib

variable {K : Kernel}

namespace CompleteMonitor

/-- What ties the ledger to the processes while no exit has been missed. -/
structure Tracked (l : Ledger K) (ps : Processes) : Prop where
  enabled : l.monitoringEnabled = true
  oneRunning : OneRunning l.records ps.live
  found : ∀ pid ∈ ps.live, pid ∈ l.records.map ProcessRecord.pid →
    ∃ r ∈ l.records, r.runs pid = true
  window : l.records.map ProcessRecord.pid = ps.added.rtake MAX_PROCESS_RECORDS
  current : l.stats.currentProcesses.toNat = ps.live.card

theorem tracked_load (K : Kernel) : Tracked (Ledger.load K) .none where
  enabled := rfl
  oneRunning := .nil _
  found := by simp [Processes.none]
  window := rfl
  current := rfl

/-- Every live process that exits is among the last `n` that were added. -/
def ExitsInWindow (n : ℕ) (ps : Processes) : ProcessEvent K → Prop
  | .exit pid .. => pid ∈ ps.live → pid ∈ ps.added.rtake n
  | .add .. => True

instance (n : ℕ) (ps : Processes) : ∀ e : ProcessEvent K, Decidable (ExitsInWindow n ps e)
  | .exit pid .. => inferInstanceAs (Decidable (pid ∈ ps.live → pid ∈ ps.added.rtake n))
  | .add .. => .isTrue trivial

/-- After the event, the number of live processes fits the counter. -/
def FitsCounter (ps : Processes) (e : ProcessEvent K) : Prop :=
  (ps.step e).live.card < 2 ^ K.bitsPerLong

instance (ps : Processes) (e : ProcessEvent K) : Decidable (FitsCounter ps e) :=
  inferInstanceAs (Decidable (_ < _))

/-! ### One event -/

/-- The running record of a live pid is the last one the list holds, so eviction
takes it only when it takes all. -/
theorem OneRunning.found_push {records : List (ProcessRecord K)} {live : Finset PidT}
    (h : OneRunning records live) (n : ℕ) {r : ProcessRecord K} {pid : PidT}
    (hfound : ∃ r' ∈ records, r'.runs pid = true) (hne : pid ≠ r.pid)
    (hheld : pid ∈ (pushBounded n records r).map ProcessRecord.pid) :
    ∃ r' ∈ pushBounded n records r, r'.runs pid = true := by
  obtain ⟨r', hr', hruns⟩ := hfound
  by_cases hfull : n ≤ records.length
  · rw [pushBounded_of_le hfull, List.map_append, List.mem_append, List.mem_map] at hheld
    rw [pushBounded_of_le hfull]
    cases records with
    | nil => simp at hr'
    | cons oldest rest =>
        obtain ⟨other, hother, hpid⟩ := hheld.resolve_right (by simpa using hne)
        rcases List.mem_cons.mp hr' with rfl | hr'
        · -- the record that goes is followed by another of its pid, so it has stopped
          obtain ⟨hpid', hrun⟩ := ProcessRecord.runs_iff.mp hruns
          have hstopped := (List.pairwise_cons.mp h.last).1 other hother (hpid'.trans hpid.symm)
          rw [hstopped] at hrun
          contradiction
        · exact ⟨r', List.mem_append_left _ hr', hruns⟩
  · rw [pushBounded_of_lt (Nat.lt_of_not_le hfull)]
    exact ⟨r', List.mem_append_left _ hr', hruns⟩

/-- Marking a record of one pid loses no running record of another. -/
theorem exists_runs_mark {before after : List (ProcessRecord K)} {r : ProcessRecord K}
    {pid pid' : PidT} (hr : r.runs pid = true) (hne : pid' ≠ pid)
    (hfound : ∃ r' ∈ before ++ r :: after, r'.runs pid' = true) (exitCode : CInt)
    (jiffies : ULong K) :
    ∃ r' ∈ before ++ r.exited exitCode jiffies :: after, r'.runs pid' = true := by
  obtain ⟨r', hr', hruns⟩ := hfound
  refine ⟨r', ?_, hruns⟩
  rcases List.mem_append.mp hr' with hr' | hr'
  · exact List.mem_append_left _ hr'
  · rcases List.mem_cons.mp hr' with rfl | hr'
    · have hpid' := (ProcessRecord.runs_iff.mp hruns).1
      exact absurd (hpid'.symm.trans (ProcessRecord.runs_iff.mp hr).1) hne
    · exact List.mem_append_right _ (List.mem_cons_of_mem _ hr')

theorem Tracked.add {l : Ledger K} {ps : Processes} (h : Tracked l ps) {pid : PidT}
    (hpid : pid ∉ ps.live) (ppid : PidT) (comm : List UInt8) (jiffies : ULong K)
    (hfits : FitsCounter ps (.add pid ppid comm jiffies : ProcessEvent K)) :
    Tracked (l.call (.add pid ppid comm jiffies))
      (ps.step (.add pid ppid comm jiffies : ProcessEvent K)) := by
  have hl : l.call (.add pid ppid comm jiffies) = l.add (newRecord pid ppid comm jiffies) := by
    rw [Ledger.call, Op.ofEvent, Ledger.exec, if_pos (by simp [h.enabled])]
  have hcurrent := congrArg Population.present (MonitorStats.population_countCreated l.stats)
  rw [hl]
  refine ⟨h.enabled, h.oneRunning.push _ hpid, fun pid' hlive hheld => ?_, ?_, ?_⟩
  · by_cases heq : pid' = pid
    · refine ⟨_, mem_pushBounded_self .., ProcessRecord.runs_iff.mpr ⟨heq.symm, ?_⟩⟩
      simp [newRecord, ProcessRecord.isRunning]
    · refine h.oneRunning.found_push _ ?_ heq hheld
      refine h.found pid' (Finset.mem_of_mem_insert_of_ne hlive heq) ?_
      obtain ⟨r, hr, rfl⟩ := List.mem_map.mp hheld
      rcases mem_of_mem_pushBounded hr with hr | rfl
      · exact List.mem_map_of_mem hr
      · exact absurd rfl heq
  · rw [Ledger.add, map_pushBounded, h.window, pushBounded_rtake maxProcessRecords_pos]
    rfl
  · have hcard : (insert pid ps.live).card = ps.live.card + 1 :=
      Finset.card_insert_of_notMem hpid
    have hroom : l.stats.currentProcesses.toNat + 1 < 2 ^ K.bitsPerLong := by
      rw [h.current, ← hcard]
      exact hfits
    calc (l.add (newRecord pid ppid comm jiffies)).stats.currentProcesses.toNat
        = (l.stats.currentProcesses + 1).toNat := congrArg BitVec.toNat hcurrent
      _ = l.stats.currentProcesses.toNat + 1 := toNat_add_one hroom
      _ = (insert pid ps.live).card := by rw [h.current, hcard]

theorem Tracked.exit {l : Ledger K} {ps : Processes} (h : Tracked l ps) {pid : PidT}
    (hheld : pid ∈ ps.live → pid ∈ ps.added.rtake MAX_PROCESS_RECORDS) (exitCode : CInt)
    (jiffies : ULong K) :
    Tracked (l.call (.exit pid exitCode jiffies))
      (ps.step (.exit pid exitCode jiffies : ProcessEvent K)) := by
  have hl : l.call (.exit pid exitCode jiffies) = l.markExit pid exitCode jiffies :=
    Ledger.exec_exit_of_enabled h.enabled ..
  rw [hl]
  rcases Ledger.markExit_cases pid exitCode jiffies l with
    ⟨hnone, hl⟩ | ⟨before, r, after, hrecords, hr, hafter, hl⟩
  · have hdead : pid ∉ ps.live := by
      intro hlive
      obtain ⟨r, hr, hruns⟩ := h.found pid hlive (h.window ▸ hheld hlive)
      rw [hnone r hr] at hruns
      contradiction
    rw [hl]
    rw [Processes.step, Finset.erase_eq_of_notMem hdead]
    exact h
  · obtain ⟨hpid, hrun⟩ := ProcessRecord.runs_iff.mp hr
    have hlive : pid ∈ ps.live := hpid ▸ h.oneRunning.live r (by simp [hrecords]) hrun
    have hcurrent := congrArg Population.present (MonitorStats.population_countExited
      (r.exited exitCode jiffies).lifetime r.cpuTime l.stats)
    rw [hl]
    refine ⟨h.enabled, (hrecords ▸ h.oneRunning).mark hr hafter exitCode jiffies,
      fun pid' hlive' hheld' => ?_, ?_, ?_⟩
    · obtain ⟨hne, hlive'⟩ := Finset.mem_erase.mp hlive'
      have hfound := h.found pid' hlive' (by simpa [hrecords] using hheld')
      rw [hrecords] at hfound
      exact exists_runs_mark hr hne hfound exitCode jiffies
    · rw [Processes.step, ← h.window, hrecords]
      simp
    · have hpos : 0 < l.stats.currentProcesses.toNat := by
        rw [h.current]
        exact Finset.card_pos.mpr ⟨pid, hlive⟩
      calc (l.stats.countExited (r.exited exitCode jiffies).lifetime
            r.cpuTime).currentProcesses.toNat
          = (l.stats.currentProcesses - 1).toNat := congrArg BitVec.toNat hcurrent
        _ = l.stats.currentProcesses.toNat - 1 := toNat_sub_one hpos
        _ = (ps.live.erase pid).card := by rw [h.current, Finset.card_erase_of_mem hlive]

/-- The exit of a live process whose record is gone is not counted. -/
theorem Tracked.exit_uncounted {l : Ledger K} {ps : Processes} (h : Tracked l ps) {pid : PidT}
    (hlive : pid ∈ ps.live) (hgone : pid ∉ ps.added.rtake MAX_PROCESS_RECORDS) (exitCode : CInt)
    (jiffies : ULong K) :
    (l.call (.exit pid exitCode jiffies)).stats.currentProcesses.toNat ≠
      (ps.live.erase pid).card := by
  have hnone : ∀ r ∈ l.records, r.runs pid = false := by
    intro r hr
    by_contra hruns
    refine hgone (h.window ▸ List.mem_map.mpr ⟨r, hr, ?_⟩)
    exact (ProcessRecord.runs_iff.mp (by simpa using hruns)).1
  have hl : l.call (.exit pid exitCode jiffies) = l := by
    rw [Ledger.call, Op.ofEvent, Ledger.exec_exit_of_enabled h.enabled, Ledger.markExit,
      Ledger.newest_eq_none hnone]
  -- one process less, and the counter as it was
  rw [hl, h.current, ← Finset.card_erase_add_one hlive]
  exact Nat.succ_ne_self _

theorem Tracked.step {l : Ledger K} {ps : Processes} (h : Tracked l ps) (e : ProcessEvent K)
    (hadmits : ps.Admits e) (hwindow : ExitsInWindow MAX_PROCESS_RECORDS ps e)
    (hfits : FitsCounter ps e) : Tracked (l.call e) (ps.step e) := by
  cases e with
  | add pid ppid comm jiffies => exact h.add hadmits ppid comm jiffies hfits
  | exit pid exitCode jiffies => exact h.exit hwindow exitCode jiffies

theorem Tracked.not_exitsInWindow {l : Ledger K} {ps : Processes} (h : Tracked l ps)
    {e : ProcessEvent K} (hwindow : ¬ ExitsInWindow MAX_PROCESS_RECORDS ps e) :
    (l.call e).stats.currentProcesses.toNat ≠ (ps.step e).live.card := by
  cases e with
  | add => exact absurd trivial hwindow
  | exit pid exitCode jiffies =>
      obtain ⟨hlive, hgone⟩ := Classical.not_imp.mp hwindow
      exact h.exit_uncounted hlive hgone exitCode jiffies

/-! ### Runs -/

theorem tracked_run {es : List (ProcessEvent K)}
    (hadmits : StepsMeet Processes.step Processes.Admits .none es)
    (hcounts : StepsMeet Processes.step
      (fun ps e => ExitsInWindow MAX_PROCESS_RECORDS ps e ∧ FitsCounter ps e) .none es) :
    Tracked (run Ledger.call (Ledger.load K) es) (run Processes.step .none es) := by
  rw [← stepsMeet_both_snd Ledger.call (Ledger.load K, Processes.none)]
    at hadmits hcounts
  have hrun := ((hadmits.and hcounts).throughout
    (I := fun s : Ledger K × Processes => Tracked s.1 s.2)
    (fun s e h hC => h.step e hC.1 hC.2.1 hC.2.2) (tracked_load K)).last
  rwa [run_both] at hrun

/-- **The number of active processes.** Let processes start only under pids that
are not live. Then `current_processes` is the number of live pids after every
event exactly when no process exits after `MAX_PROCESS_RECORDS` others were
added since it was, and an `unsigned long` can hold that number. -/
theorem currentProcesses_eq_live_iff {es : List (ProcessEvent K)}
    (hadmits : StepsMeet Processes.step Processes.Admits .none es) :
    Throughout (both Monitor.call Processes.step)
        (fun s => s.1.stats.currentProcesses.toNat = s.2.live.card)
        (Monitor.load K, .none) es ↔
      StepsMeet Processes.step
        (fun ps e => ExitsInWindow MAX_PROCESS_RECORDS ps e ∧ FitsCounter ps e) .none es := by
  rw [← stepsMeet_both_snd Ledger.call (Monitor.ledger (.load K), Processes.none)]
    at hadmits
  refine ((call_simulation.watched Processes.step).throughout_iff
    (fun s : Ledger K × Processes => s.1.stats.currentProcesses.toNat = s.2.live.card)
    (fun _ _ => Iff.rfl) (accounted_load K) es).trans ?_
  refine (throughout_iff_stepsMeet (I := fun s : Ledger K × Processes => Tracked s.1 s.2)
    (fun s h => h.current)
    (fun s e h hadmits hcounts => h.step e hadmits hcounts.1 hcounts.2)
    (fun s e h _ hcounts hcurrent => hcounts ⟨?_, ?_⟩) (tracked_load K) hadmits).trans
    (stepsMeet_both_snd ..)
  · by_contra hwindow
    exact h.not_exitsInWindow hwindow hcurrent
  · have hlt := (s.1.call e).stats.currentProcesses.isLt
    exact lt_of_eq_of_lt hcurrent.symm hlt

theorem currentProcesses_eq_live_of_two :
    Throughout (both Monitor.call Processes.step)
      (fun s => s.1.stats.currentProcesses.toNat = s.2.live.card)
      (Monitor.load .x86_64, .none)
      [.add 1 0 [] 0, .add 2 1 [] 1, .exit 1 0 2, .exit 2 0 3] :=
  (currentProcesses_eq_live_iff (by decide)).mpr (by decide)

/-! ### A run past capacity -/

/-- Processes that are started one after the other. -/
def starts (pids : List PidT) : List (ProcessEvent K) := pids.map fun pid => .add pid 0 [] 0

theorem run_starts (pids : List PidT) :
    run Processes.step .none (starts pids : List (ProcessEvent K)) = ⟨pids.toFinset, pids⟩ := by
  induction pids using List.reverseRecOn with
  | nil => rfl
  | append_singleton pids pid ih =>
      have hstep : run Processes.step .none (starts (pids ++ [pid]) : List (ProcessEvent K)) =
          (run Processes.step .none (starts pids : List (ProcessEvent K))).step
            (.add pid 0 [] 0 : ProcessEvent K) := by
        rw [starts, List.map_append, List.map_singleton, run_concat, starts]
      rw [hstep, ih, Processes.step]
      simp

theorem stepsMeet_starts {pids : List PidT} (h : pids.Nodup)
    (hlen : pids.length < 2 ^ K.bitsPerLong) :
    StepsMeet Processes.step Processes.Admits .none (starts pids : List (ProcessEvent K)) ∧
      StepsMeet Processes.step
        (fun ps e => ExitsInWindow MAX_PROCESS_RECORDS ps e ∧ FitsCounter ps e) .none
        (starts pids : List (ProcessEvent K)) := by
  induction pids using List.reverseRecOn with
  | nil => exact ⟨trivial, trivial⟩
  | append_singleton pids pid ih =>
      obtain ⟨hpids, -, hnew⟩ := List.nodup_append.mp h
      have hfresh : pid ∉ pids := fun hmem => hnew pid hmem pid (by simp) rfl
      rw [List.length_append, List.length_singleton] at hlen
      obtain ⟨hadmits, hcounts⟩ := ih hpids (by omega)
      have hcard : (insert pid pids.toFinset).card = pids.length + 1 := by
        rw [Finset.card_insert_of_notMem (by simpa using hfresh),
          List.toFinset_card_of_nodup hpids]
      have hsplit : (starts (pids ++ [pid]) : List (ProcessEvent K)) =
          starts pids ++ [.add pid 0 [] 0] := by simp [starts]
      rw [hsplit, stepsMeet_append, stepsMeet_append, run_starts]
      refine ⟨⟨hadmits, by simpa [Processes.Admits] using hfresh⟩, hcounts, ⟨trivial, ?_⟩, trivial⟩
      rw [FitsCounter, Processes.step, hcard]
      exact hlen

/-- Among processes that were all started and none of which has exited, the exit
of one whose record is gone is not counted. -/
theorem starts_uncounted {pids : List PidT} (hnodup : pids.Nodup)
    (hlen : pids.length < 2 ^ K.bitsPerLong) (pid : PidT)
    (hmem : pid ∈ pids) (hgone : pid ∉ pids.rtake MAX_PROCESS_RECORDS) :
    StepsMeet Processes.step Processes.Admits .none
        (starts pids ++ [.exit pid 0 0] : List (ProcessEvent K)) ∧
      ¬ Throughout (both Monitor.call Processes.step)
        (fun s => s.1.stats.currentProcesses.toNat = s.2.live.card)
        (Monitor.load K, .none) (starts pids ++ [.exit pid 0 0]) := by
  obtain ⟨hadmits, hcounts⟩ := stepsMeet_starts hnodup hlen
  have htracked := tracked_run hadmits hcounts
  rw [run_starts] at htracked
  refine ⟨stepsMeet_append.mpr ⟨hadmits, trivial, trivial⟩, fun h => ?_⟩
  have hledger := call_simulation.run_eq (accounted_load K)
    (starts pids ++ [.exit pid 0 0] : List (ProcessEvent K))
  have hlast := h.last
  rw [run_both] at hlast
  refine htracked.exit_uncounted (by simpa using hmem) hgone 0 0 ?_
  calc ((run Ledger.call (Ledger.load K) (starts pids)).call
        (.exit pid 0 0)).stats.currentProcesses.toNat
      = (run Ledger.call (Ledger.load K)
          (starts pids ++ [.exit pid 0 0])).stats.currentProcesses.toNat := by rw [run_concat]
    _ = (run Monitor.call (Monitor.load K)
          (starts pids ++ [.exit pid 0 0])).stats.currentProcesses.toNat :=
        congrArg (fun l => l.stats.currentProcesses.toNat) hledger.symm
    _ = (run Processes.step .none
          (starts pids ++ [.exit pid 0 0] : List (ProcessEvent K))).live.card := hlast
    _ = (pids.toFinset.erase pid).card := by
        rw [run_concat, run_starts]
        rfl

/-- The pids from 1 to `n`. -/
def firstPids (n : ℕ) : List PidT := (List.range n).map fun i => BitVec.ofNat 32 (i + 1)

theorem length_firstPids (n : ℕ) : (firstPids n).length = n := by simp [firstPids]

theorem firstPids_nodup {n : ℕ} (hn : n < 2 ^ 32) : (firstPids n).Nodup := by
  apply List.Nodup.map_on _ List.nodup_range
  intro i hi j hj heq
  have hnat := congrArg BitVec.toNat heq
  rw [List.mem_range] at hi hj
  simp only [BitVec.toNat_ofNat] at hnat
  omega

theorem firstPids_succ (n : ℕ) :
    firstPids (n + 1) = 1 :: (List.range n).map fun i => BitVec.ofNat 32 (i + 2) := by
  rw [firstPids, List.range_succ_eq_map, List.map_cons, List.map_map]
  rfl

/-- The first pid is pushed out by all others. -/
theorem one_notMem_rtake_firstPids {n : ℕ} (hn : n + 1 < 2 ^ 32) :
    (1 : PidT) ∉ (firstPids (n + 1)).rtake n := by
  have hnodup := firstPids_nodup hn
  have hlength : (firstPids (n + 1)).length - n = 1 := by rw [length_firstPids]; omega
  rw [List.rtake, hlength]
  rw [firstPids_succ] at hnodup ⊢
  exact (List.nodup_cons.mp hnodup).1

/-- 1001 processes, of which the first one then exits: 1001 are still counted. -/
theorem currentProcesses_ne_live_of_eviction :
    StepsMeet Processes.step Processes.Admits .none
        (starts (firstPids 1001) ++ [.exit 1 0 0] : List (ProcessEvent .x86_64)) ∧
      ¬ Throughout (both Monitor.call Processes.step)
        (fun s => s.1.stats.currentProcesses.toNat = s.2.live.card)
        (Monitor.load .x86_64, .none) (starts (firstPids 1001) ++ [.exit 1 0 0]) :=
  starts_uncounted (firstPids_nodup (by decide)) (by rw [length_firstPids]; decide) 1
    (by rw [firstPids_succ]; exact List.mem_cons_self ..) (one_notMem_rtake_firstPids (by decide))

end CompleteMonitor

end KernelModules
