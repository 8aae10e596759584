import KernelModules.CompleteMonitor.FilterMeaning
import KernelModules.CompleteMonitor.Index
import KernelModules.CompleteMonitor.Listing

/-!
The lifetime of a record, in the three places that compute it.

`mark_process_exit` and `process_matches_filter` divide the elapsed jiffies, which
may have wrapped in between. `processes_show` does so too, but only for a record
that ends later than it starts, so it prints 0 where the clock wrapped.
-/

namespace KernelModules.CompleteMonitor

open Lib

variable {K : Kernel}

/-- The listing shows the lifetime, unless the clock wrapped and it is not 0. -/
theorem ProcessRecord.lifetime_row_eq_iff {record : ProcessRecord K} (h : record.status = 0) :
    record.row.lifetime.toNat = record.seconds ↔
      record.startTime ≤ record.endTime ∨ record.elapsed < K.HZ := by
  have hrow : record.row.lifetime =
      if record.endTime > record.startTime then record.lifetime else 0 := by
    rw [row]
    simp only [h, true_and]
  rw [hrow]
  by_cases hlater : record.endTime > record.startTime
  · rw [if_pos hlater, toNat_lifetime]
    exact iff_of_true rfl (.inl (BitVec.le_of_lt hlater))
  · have hzero : record.seconds = 0 ↔ record.elapsed < K.HZ :=
      Nat.div_eq_zero_iff_lt K.HZ_pos
    -- a record that ends when it starts has no lifetime to show
    have hsame : record.startTime ≤ record.endTime → record.elapsed < K.HZ := by
      intro hle
      have hstart := record.startTime.isLt
      rw [gt_iff_lt, BitVec.lt_def] at hlater
      rw [BitVec.le_def] at hle
      have helapsed : record.endTime.toNat + (2 ^ K.bitsPerLong - record.startTime.toNat) =
          2 ^ K.bitsPerLong := by omega
      rw [elapsed, helapsed, Nat.mod_self]
      exact K.HZ_pos
    rw [if_neg hlater, or_iff_right_of_imp hsame, ← hzero]
    exact eq_comm

/-- All three places give the record that an exit has marked this lifetime: what goes
into the statistics, what the limits are compared with, and what is printed. -/
structure OneLifetime (s : Monitor K) (pid : PidT) (exitCode : CInt) (jiffies : ULong K)
    (record : Addr) (seconds : ℕ) : Prop where
  counted : (markProcessExitLocked pid exitCode jiffies s).1.stats =
    s.stats.countExited (BitVec.ofNat _ seconds) (s.mem record).cpuTime
  compared : ∀ filter : FilterConfig,
    processMatchesFilter filter ((markProcessExitLocked pid exitCode jiffies s).1.mem record) =
        true ↔
      (filter.enabled = true →
        filter.Names ((markProcessExitLocked pid exitCode jiffies s).1.mem record) ∧
          filter.Admits K seconds)
  printed : ((markProcessExitLocked pid exitCode jiffies s).1.mem record).row.lifetime.toNat =
    seconds

/-- **One lifetime.** The record that an exit finds has the same lifetime everywhere,
the elapsed jiffies in seconds, exactly when the clock has not wrapped since the
record was added or less than a second has passed. -/
theorem oneLifetime_iff {s : Monitor K} {pid : PidT} {record : Addr}
    (hfind : findProcessByPid s pid = some record) (exitCode : CInt) (jiffies : ULong K) :
    OneLifetime s pid exitCode jiffies record
        ((s.mem record).exited exitCode jiffies).seconds ↔
      (s.mem record).startTime ≤ jiffies ∨
        ((s.mem record).exited exitCode jiffies).elapsed < K.HZ := by
  have hmark : (markProcessExitLocked pid exitCode jiffies s).1.mem record =
      (s.mem record).exited exitCode jiffies := by
    simp [markProcessExitLocked, hfind]
  have hstats : (markProcessExitLocked pid exitCode jiffies s).1.stats =
      s.stats.countExited ((s.mem record).exited exitCode jiffies).lifetime
        (s.mem record).cpuTime := by
    simp [markProcessExitLocked, hfind, ProcessRecord.exited]
  have hstatus : ((s.mem record).exited exitCode jiffies).status = 0 := rfl
  constructor
  · intro h
    have hprinted := h.printed
    rw [hmark] at hprinted
    exact (ProcessRecord.lifetime_row_eq_iff hstatus).mp hprinted
  · intro h
    refine ⟨by rw [hstats, ProcessRecord.lifetime_eq], fun filter => ?_, ?_⟩
    · rw [hmark, processMatchesFilter_iff, forall_prop_of_true hstatus]
    · rw [hmark]
      exact (ProcessRecord.lifetime_row_eq_iff hstatus).mpr h

theorem oneLifetime_of_two_seconds :
    OneLifetime (addProcessRecord 1 0 [] 0 true (.load .x86_64)) 1 0 500 0
      (((addProcessRecord 1 0 [] 0 true (.load .x86_64)).mem 0).exited 0 500).seconds :=
  (oneLifetime_iff (by decide) 0 500).mpr (by decide)

/-- A record added 250 jiffies before the clock wraps and marked 250 jiffies after
it: two seconds, of which none is printed. -/
theorem not_oneLifetime_of_wrap :
    ¬ ∀ (s : Monitor .i386) (pid : PidT) (record : Addr) (exitCode : CInt)
        (jiffies : ULong .i386), findProcessByPid s pid = some record →
      OneLifetime s pid exitCode jiffies record
        ((s.mem record).exited exitCode jiffies).seconds := by
  intro h
  have hprinted := (h (addProcessRecord 1 0 [] (-250) true (.load .i386)) 1 0 0 250
    (by decide)).printed
  revert hprinted
  decide

end KernelModules.CompleteMonitor
