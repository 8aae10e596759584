import KernelModules.CompleteMonitor.AverageLifetime
import KernelModules.CompleteMonitor.Effects
import KernelModules.Lib.Summary

/-!
The extremes of the lifetimes, and how far their average drifts.

An observer writes down the lifetimes that a schedule counts, since the load or the
last `reset_stats`. The statistics are the running summary of these lifetimes in every
schedule, so what a summary says about its values holds of them.
-/

namespace KernelModules.CompleteMonitor

open Lib

variable {K : Kernel}

/-- What `mark_process_exit` keeps of the lifetimes. -/
def MonitorStats.summary (stats : MonitorStats K) : RunningSummary K.bitsPerLong :=
  ⟨stats.lifetimes, stats.longestLifetime, stats.shortestLifetime⟩

@[simp] theorem MonitorStats.summary_countCreated (stats : MonitorStats K) :
    stats.countCreated.summary = stats.summary := by
  unfold countCreated
  dsimp only
  split <;> rfl

@[simp] theorem MonitorStats.summary_countExited (lifetime cpuTime : ULong K)
    (stats : MonitorStats K) :
    (stats.countExited lifetime cpuTime).summary = stats.summary.push lifetime := by
  have hmean := stats.lifetimes_countExited lifetime cpuTime
  obtain ⟨s, -, -, hlongest, hshortest, hs⟩ := stats.countExited_eq lifetime cpuTime
  have hkept : (stats.countExited lifetime cpuTime).longestLifetime = s.longestLifetime ∧
      (stats.countExited lifetime cpuTime).shortestLifetime = s.shortestLifetime := by
    rw [hs]
    split <;> exact ⟨rfl, rfl⟩
  rw [summary, hmean, hkept.1, hkept.2, hlongest, hshortest]
  rfl

/-! ### The lifetimes that a schedule counts -/

namespace Effect

/-- The lifetime that an effect counts, if it counts one. -/
def counted (s : Monitor K) : Effect K → Option (ULong K)
  | .mark pid _ jiffies => observedLifetime s pid jiffies
  | .nothing | .allocate _ | .link .. | .command _ | .configure _ => none

/-- Whether an effect starts the statistics anew. -/
def resets : Effect K → Bool
  | .command w => writtenCommand w = some .resetStats
  | .nothing | .allocate _ | .link .. | .mark .. | .configure _ => false

/-- The lifetimes counted after the effect. -/
def count (s : Monitor K) (counted : List (ULong K)) (effect : Effect K) : List (ULong K) :=
  if effect.resets then [] else counted ++ (effect.counted s).toList

/-- **One effect.** -/
theorem summary_apply {s : Monitor K} {counted : List (ULong K)}
    (h : s.stats.summary = .of counted) (effect : Effect K) :
    (effect.apply s).stats.summary = .of (effect.count s counted) := by
  cases effect with
  | nothing | allocate record => simpa [apply, count, resets, Effect.counted] using h
  | link pid record =>
      rw [apply, (addProcessRecordLocked_frame pid record s).1, MonitorStats.summary_countCreated]
      simpa [count, resets, Effect.counted] using h
  | mark pid exitCode jiffies =>
      rcases markProcessExitLocked_observed pid exitCode jiffies s with
        ⟨hnone, hs⟩ | ⟨record, lifetime, hsome, -, hstats⟩
      · simpa [apply, count, resets, Effect.counted, hs, hnone] using h
      · simp [apply, count, resets, Effect.counted, hstats, hsome, h]
  | command w =>
      rw [apply, controlWrite_eq, count]
      cases hcmd : writtenCommand w with
      | none => simpa [resets, hcmd, Effect.counted] using h
      | some c =>
          cases c with
          | resetStats =>
              rw [if_pos (by simp [resets, hcmd])]
              rfl
          | start | stop => simpa [resets, hcmd, Effect.counted, runControl] using h
          | clear =>
              simpa [resets, hcmd, Effect.counted, runControl, stats_clearRecords] using h
  | configure w =>
      rw [apply, filterWrite_eq]
      simpa [count, resets, Effect.counted] using h

end Effect

/-- A schedule, and the lifetimes counted since the load or the last reset. -/
structure Counting (K : Kernel) where
  sys : System K
  counted : List (ULong K)

namespace Counting

def load (K : Kernel) : Counting K := ⟨.load K, []⟩

def step (t : Counting K) (e : Event K) : Counting K where
  sys := t.sys.step e
  counted := (t.sys.effect e).count t.sys.mon t.counted

/-- In every schedule the statistics summarise the lifetimes counted. -/
theorem summary_run (es : List (Event K)) :
    (run step (load K) es).sys.mon.stats.summary = .of (run step (load K) es).counted := by
  refine run_invariant (I := fun t : Counting K => t.sys.mon.stats.summary = .of t.counted)
    (fun t e h => ?_) rfl es
  show (t.sys.step e).mon.stats.summary = _
  rw [System.mon_step]
  exact Effect.summary_apply h _

/-! ### One process after the other -/

/-- The first CPU has no call, and the module is on. -/
def Ready (t : Counting K) : Prop :=
  t.sys.calls 0 = none ∧ t.sys.mon.monitoringEnabled = true

def birth : List (Event K) := [.addEnter 0 1 0 [] true, .lock 0, .tail 0]

def death (d : ULong K) : List (Event K) :=
  [.tick d, .exitEnter 0 1 0, .lock 0, .tail 0]

/-- Processes that come and go one after the other, with the times they live. -/
def lives (ds : List (ULong K)) : List (Event K) := ds.flatMap fun d => birth ++ death d

/-- A record that has just been linked is found first. -/
theorem findProcessByPid_addProcessRecordLocked {s : Monitor K} {pid : PidT} {record : Addr}
    (h : (s.mem record).runs pid = true) :
    findProcessByPid (addProcessRecordLocked pid record s) pid = some record := by
  have hbucket : (addProcessRecordLocked pid record s).processHash (K.hashMin pid) =
      record :: (evictOldest s).processHash (K.hashMin pid) := by
    simp [addProcessRecordLocked, linkRecord, insertProcessRbTree]
  rw [findProcessByPid, hbucket, addProcessRecordLocked_mem]
  exact List.find?_cons_of_pos h

theorem run_birth {t : Counting K} (h : t.Ready) :
    (run step t birth).Ready ∧ (run step t birth).counted = t.counted ∧
      ∃ record, findProcessByPid (run step t birth).sys.mon 1 = some record ∧
        ((run step t birth).sys.mon.mem record).startTime =
          (run step t birth).sys.jiffies := by
  obtain ⟨hidle, hon⟩ := h
  have hmon : (run step t birth).sys.mon =
      addProcessRecordLocked 1 t.sys.mon.nextAddr
        { t.sys.mon with
          nextAddr := t.sys.mon.nextAddr + 1
          mem := Function.update t.sys.mon.mem t.sys.mon.nextAddr
            (newRecord 1 0 [] t.sys.jiffies) } := by
    simp [birth, step, System.step, System.addEnter, System.lock, System.tail,
      addProcessRecordEnter, hidle, hon]
  have hrest : (run step t birth).sys.calls 0 = none ∧
      (run step t birth).sys.jiffies = t.sys.jiffies ∧
      (run step t birth).counted = t.counted := by
    simp [birth, step, System.step, System.addEnter, System.lock, System.tail, System.effect,
      Effect.count, Effect.counted, Effect.resets, addProcessRecordEnter, hidle, hon]
  refine ⟨⟨hrest.1, ?_⟩, hrest.2.2, t.sys.mon.nextAddr, ?_, ?_⟩
  · rw [hmon, (addProcessRecordLocked_frame ..).2.2]
    exact hon
  · rw [hmon]
    exact findProcessByPid_addProcessRecordLocked (by simp [newRecord, ProcessRecord.runs])
  · rw [hmon, addProcessRecordLocked_mem, hrest.2.1]
    simp [newRecord]

theorem run_death {t : Counting K} (h : t.Ready) {record : Addr}
    (hfind : findProcessByPid t.sys.mon 1 = some record)
    (hstart : (t.sys.mon.mem record).startTime = t.sys.jiffies) (d : ULong K) :
    (run step t (death d)).Ready ∧
      (run step t (death d)).counted = t.counted ++ [d / BitVec.ofNat _ K.HZ] := by
  obtain ⟨hidle, hon⟩ := h
  have hon' : (markProcessExitLocked 1 0 (t.sys.jiffies + d) t.sys.mon).1.monitoringEnabled =
      true := by
    rw [markProcessExitLocked_frame]
    exact hon
  have hcount : observedLifetime t.sys.mon 1 (t.sys.jiffies + d) =
      some (d / BitVec.ofNat _ K.HZ) := by
    rw [observedLifetime, hfind, Option.map_some, hstart, BitVec.add_comm, BitVec.add_sub_cancel]
  constructor
  · simpa [Ready, death, step, System.step, System.exitEnter, System.lock, System.tail, hidle,
      hon] using hon'
  · simpa [death, step, System.step, System.exitEnter, System.lock, System.tail, System.effect,
      Effect.count, Effect.counted, Effect.resets, hidle, hon] using hcount

/-- Every life is counted, in seconds. -/
theorem counted_run_lives (K : Kernel) (ds : List (ULong K)) :
    (run step (load K) (lives ds)).counted = ds.map fun d => d / BitVec.ofNat _ K.HZ := by
  have hrun : (run step (load K) (lives ds)).Ready ∧
      (run step (load K) (lives ds)).counted = ds.map fun d => d / BitVec.ofNat _ K.HZ := by
    induction ds using List.reverseRecOn with
    | nil => exact ⟨⟨rfl, rfl⟩, rfl⟩
    | append_singleton ds d ih =>
        obtain ⟨hready, hcounted⟩ := ih
        obtain ⟨hbirth, hsame, record, hfind, hstart⟩ := run_birth hready
        obtain ⟨hdeath, hone⟩ := run_death hbirth hfind hstart d
        have hlives : lives (ds ++ [d]) = lives ds ++ birth ++ death d := by
          simp [lives]
        rw [hlives, run_append, run_append, hone, hsame, hcounted, List.map_append]
        exact ⟨hdeath, rfl⟩
  exact hrun.2

/-! ### What the statistics say -/

/-- **Extremes and drift.** After any schedule that has counted lifetimes since the last
reset, fewer than the count can hold and with a sum that fits, the longest and the
shortest lifetime are exact, the average lies between them, and it is below the mean by
less than half the number of lifetimes. -/
theorem lifetimes_sound (K : Kernel) (es : List (Event K))
    (hne : (run step (load K) es).counted ≠ [])
    (hlen : (run step (load K) es).counted.length < 2 ^ K.bitsPerLong)
    (hfits : RunningMean.total (run step (load K) es).counted < 2 ^ K.bitsPerLong) :
    (run step (load K) es).sys.mon.stats.summary.Sound (run step (load K) es).counted := by
  rw [summary_run]
  exact RunningSummary.sound_of hne hlen hfits

theorem lifetimes_sound_of_two :
    (run step (load .x86_64) (lives [250, 1000])).sys.mon.stats.summary.Sound
      (run step (load .x86_64) (lives [250, 1000])).counted :=
  lifetimes_sound .x86_64 (lives [250, 1000]) (by decide) (by decide) (by decide)

theorem counted_run_wrap (K : Kernel) :
    (run step (load K)
        (lives (.replicate (2 ^ K.bitsPerLong - 1) (.ofNat _ K.HZ) ++ [0]))).counted =
      .replicate (2 ^ K.bitsPerLong - 1) 1 ++ [0] := by
  have hsecond : BitVec.ofNat K.bitsPerLong K.HZ / BitVec.ofNat _ K.HZ = 1 := by
    apply BitVec.eq_of_toNat_eq
    rw [BitVec.toNat_udiv, BitVec.toNat_ofNat, Nat.mod_eq_of_lt K.HZ_lt, Nat.div_self K.HZ_pos]
    exact (BitVec.toNat_one K.bitsPerLong_pos).symm
  have hzero : (0 : ULong K) / BitVec.ofNat _ K.HZ = 0 := BitVec.zero_udiv
  rw [counted_run_lives, List.map_append, List.map_replicate, hsecond, List.map_singleton, hzero]

/-- `2 ^ w - 1` lives of a second and one of no time: the sum fits, but the count is 0
again and the average is 1. -/
theorem not_sound_run_wrap (K : Kernel) :
    ∃ es : List (Event K), (run step (load K) es).counted ≠ [] ∧
      RunningMean.total (run step (load K) es).counted < 2 ^ K.bitsPerLong ∧
      ¬ (run step (load K) es).sys.mon.stats.summary.Sound (run step (load K) es).counted := by
  refine ⟨lives (.replicate (2 ^ K.bitsPerLong - 1) (.ofNat _ K.HZ) ++ [0]), ?_⟩
  rw [summary_run, counted_run_wrap]
  exact ⟨by simp, RunningSummary.not_sound_wrapping K.bitsPerLong_pos⟩

/-- As many exits as an `unsigned long` has values: their number wraps to 0, and the
average is not updated. -/
theorem not_sound_of_wrap :
    ¬ ∀ es : List (Event .i386), (run step (load .i386) es).counted ≠ [] →
      RunningMean.total (run step (load .i386) es).counted < 2 ^ 32 →
        (run step (load .i386) es).sys.mon.stats.summary.Sound
          (run step (load .i386) es).counted := by
  intro h
  obtain ⟨es, hne, hfits, hnot⟩ := not_sound_run_wrap .i386
  exact hnot (h es hne hfits)

end Counting

end KernelModules.CompleteMonitor
