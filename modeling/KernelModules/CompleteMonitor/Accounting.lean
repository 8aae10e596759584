import KernelModules.CompleteMonitor.Index
import KernelModules.Lib.Run

/-!
Where every allocated record is.

A record that `add_process_record` has allocated either waits for the lock with
the call that will link it, or is linked, or has been freed once. `Accounted`
says this of a monitor and the records that calls in progress wait with. Each
locked step of the module keeps it, with the waiting records that the step
leaves; between operations that run one at a time no record waits.
-/

namespace KernelModules.CompleteMonitor

open Lib

variable {K : Kernel} {waiting : Addr → Prop}

structure Accounted (s : Monitor K) (waiting : Addr → Prop) : Prop extends Stored s where
  waits : ∀ record, waiting record →
    record < s.nextAddr ∧ record ∉ s.processList ∧ record ∉ s.freed
  freed_lt : ∀ record ∈ s.freed, record < s.nextAddr
  freed_nodup : s.freed.Nodup
  not_freed : ∀ record ∈ s.processList, record ∉ s.freed
  covered : ∀ record < s.nextAddr,
    record ∈ s.processList ∨ record ∈ s.freed ∨ waiting record

theorem accounted_load (K : Kernel) : Accounted (Monitor.load K) fun _ => False where
  toStored := stored_load K
  waits := by simp
  freed_lt := by simp [Monitor.load]
  freed_nodup := List.nodup_nil
  not_freed := by simp [Monitor.load]
  covered := by simp [Monitor.load]

/-- The accounting does not look at the statistics, the filter and the switch,
and looks at two fields of the linked records. -/
theorem Accounted.congr {s s' : Monitor K} (h : Accounted s waiting)
    (hlist : s'.processList = s.processList) (hhash : s'.processHash = s.processHash)
    (htree : s'.processTree = s.processTree) (hcount : s'.recordCount = s.recordCount)
    (hnext : s'.nextAddr = s.nextAddr) (hfreed : s'.freed = s.freed)
    (hmem : ∀ record ∈ s.processList, (s'.mem record).pid = (s.mem record).pid ∧
      (s'.mem record).startTime = (s.mem record).startTime) : Accounted s' waiting where
  toLinked := h.toLinked.congr hlist hhash htree hmem
  count := by rw [hcount, hlist, h.count]
  bound := hlist ▸ h.bound
  allocated := by rw [hlist, hnext]; exact h.allocated
  waits := by rw [hlist, hnext, hfreed]; exact h.waits
  freed_lt := by rw [hfreed, hnext]; exact h.freed_lt
  freed_nodup := hfreed ▸ h.freed_nodup
  not_freed := by rw [hlist, hfreed]; exact h.not_freed
  covered := by rw [hlist, hnext, hfreed]; exact h.covered

/-! ### Allocation -/

/-- What `add_process_record` does before it takes the lock. -/
theorem addProcessRecordEnter_cases (pid ppid : PidT) (comm : List UInt8) (jiffies : ULong K)
    (alloc : Bool) (s : Monitor K) :
    ((s.monitoringEnabled && alloc) = false ∧
        addProcessRecordEnter pid ppid comm jiffies alloc s = (s, none)) ∨
      ((s.monitoringEnabled && alloc) = true ∧
        addProcessRecordEnter pid ppid comm jiffies alloc s =
          ({ s with
              nextAddr := s.nextAddr + 1
              mem := Function.update s.mem s.nextAddr (newRecord pid ppid comm jiffies) },
            some s.nextAddr)) := by
  unfold addProcessRecordEnter
  cases s.monitoringEnabled <;> cases alloc <;> simp

/-- A fresh record is not linked, so writing to it is not seen by the store. -/
theorem Stored.mem_update_nextAddr {s : Monitor K} (h : Stored s) (r : ProcessRecord K)
    {record : Addr} (hr : record ∈ s.processList) :
    Function.update s.mem s.nextAddr r record = s.mem record :=
  Function.update_of_ne (h.allocated record hr).ne _ _

/-- The allocated record joins the waiting ones. -/
theorem Accounted.allocate {s : Monitor K} (h : Accounted s waiting) (r : ProcessRecord K) :
    Accounted
      { s with nextAddr := s.nextAddr + 1, mem := Function.update s.mem s.nextAddr r }
      fun record => waiting record ∨ record = s.nextAddr where
  toLinked := h.toLinked.congr rfl rfl rfl fun record hr => by
    simp [h.mem_update_nextAddr r hr]
  count := h.count
  bound := h.bound
  allocated record hr := (h.allocated record hr).trans (Nat.lt_succ_self _)
  waits record hwait := by
    rcases hwait with hwait | rfl
    · obtain ⟨hlt, hrest⟩ := h.waits record hwait
      exact ⟨hlt.trans (Nat.lt_succ_self _), hrest⟩
    · refine ⟨Nat.lt_succ_self _, fun hr => ?_, fun hr => ?_⟩
      · exact absurd (h.allocated _ hr) (Nat.lt_irrefl _)
      · exact absurd (h.freed_lt _ hr) (Nat.lt_irrefl _)
  freed_lt record hr := (h.freed_lt record hr).trans (Nat.lt_succ_self _)
  freed_nodup := h.freed_nodup
  not_freed := h.not_freed
  covered record hlt := by
    rcases Nat.lt_succ_iff_lt_or_eq.mp hlt with hlt | rfl
    · rcases h.covered record hlt with hr | hr | hr
      · exact .inl hr
      · exact .inr (.inl hr)
      · exact .inr (.inr (.inl hr))
    · exact .inr (.inr (.inr rfl))

/-! ### The locked steps -/

theorem mem_evicted {s : Monitor K} {record : Addr} (h : record ∈ evicted s) :
    record ∈ s.processList := by
  rw [evicted] at h
  split at h
  · exact List.mem_of_mem_take h
  · exact absurd h List.not_mem_nil

/-- The list splits into what the next add evicts and what it keeps. -/
theorem evicted_append_kept (s : Monitor K) :
    evicted s ++ (if MAX_PROCESS_RECORDS ≤ s.processList.length then s.processList.tail
      else s.processList) = s.processList := by
  rw [evicted]
  split
  · cases s.processList <;> rfl
  · rfl

theorem addProcessRecordLocked_mem_iff {s : Monitor K} (h : Indexed s) (pid : PidT)
    (record other : Addr) :
    other ∈ (addProcessRecordLocked pid record s).processList ↔
      (other ∈ s.processList ∧ other ∉ evicted s) ∨ other = record := by
  rw [h.addProcessRecordLocked_processList, pushBounded, List.mem_append, List.mem_singleton]
  apply or_congr_left
  have hsplit := evicted_append_kept s
  have hdisj := List.nodup_append.mp (hsplit ▸ h.nodup)
  constructor
  · intro hkept
    refine ⟨?_, fun hev => hdisj.2.2 other hev other hkept rfl⟩
    rw [← hsplit]
    exact List.mem_append_right _ hkept
  · rintro ⟨hmem, hev⟩
    rw [← hsplit] at hmem
    exact (List.mem_append.mp hmem).resolve_left hev

/-- Linking takes the record from the waiting ones; what it evicts is freed. -/
theorem Accounted.addProcessRecordLocked {s : Monitor K} (h : Accounted s waiting) {pid : PidT}
    {record : Addr} (hwait : waiting record) (hpid : (s.mem record).pid = pid) :
    Accounted (addProcessRecordLocked pid record s)
      fun other => waiting other ∧ other ≠ record := by
  obtain ⟨hlt, hunlinked, hlive⟩ := h.waits record hwait
  have hmem := addProcessRecordLocked_mem_iff h.toIndexed pid record
  have hfreed := h.addProcessRecordLocked_freed pid record
  refine ⟨⟨h.toIndexed.addProcessRecordLocked hunlinked hpid, ?_⟩, ?_, ?_, ?_, ?_, ?_⟩
  · -- `allocated`
    intro other ho
    rw [addProcessRecordLocked_nextAddr]
    rcases (hmem other).mp ho with ⟨ho, -⟩ | rfl
    · exact h.allocated other ho
    · exact hlt
  · -- `waits`
    rintro other ⟨ho, hne⟩
    obtain ⟨holt, hounlinked, holive⟩ := h.waits other ho
    rw [addProcessRecordLocked_nextAddr, hmem, hfreed, List.mem_append]
    refine ⟨holt, ?_, ?_⟩
    · rintro (⟨ho', -⟩ | heq)
      · exact hounlinked ho'
      · exact hne heq
    · rintro (ho' | ho')
      · exact holive ho'
      · exact hounlinked (mem_evicted ho')
  · -- `freed_lt`
    intro other ho
    rw [hfreed, List.mem_append] at ho
    rw [addProcessRecordLocked_nextAddr]
    rcases ho with ho | ho
    · exact h.freed_lt other ho
    · exact h.allocated other (mem_evicted ho)
  · -- `freed_nodup`
    rw [hfreed, List.nodup_append]
    refine ⟨h.freed_nodup, ?_, ?_⟩
    · exact (List.nodup_append.mp (evicted_append_kept s ▸ h.nodup)).1
    · rintro other ho _ ho' rfl
      exact h.not_freed other (mem_evicted ho') ho
  · -- `not_freed`
    intro other ho
    rw [hfreed, List.mem_append, not_or]
    rcases (hmem other).mp ho with ⟨ho, hev⟩ | rfl
    · exact ⟨h.not_freed other ho, hev⟩
    · exact ⟨hlive, fun hev => hunlinked (mem_evicted hev)⟩
  · -- `covered`
    intro other holt
    rw [addProcessRecordLocked_nextAddr] at holt
    rw [hmem, hfreed, List.mem_append]
    by_cases heq : other = record
    · exact .inl (.inr heq)
    · rcases h.covered other holt with ho | ho | ho
      · by_cases hev : other ∈ evicted s
        · exact .inr (.inl (.inr hev))
        · exact .inl (.inl ⟨ho, hev⟩)
      · exact .inr (.inl (.inl ho))
      · exact .inr (.inr ⟨ho, heq⟩)

theorem Accounted.markProcessExitLocked {s : Monitor K} (h : Accounted s waiting) (pid : PidT)
    (exitCode : CInt) (jiffies : ULong K) :
    Accounted (markProcessExitLocked pid exitCode jiffies s).1 waiting := by
  have hkeys := markProcessExitLocked_keys pid exitCode jiffies s
  rw [markProcessExitLocked_frame]
  exact h.congr rfl rfl rfl rfl rfl rfl fun record _ => hkeys record

theorem Accounted.clearRecords {s : Monitor K} (h : Accounted s waiting) :
    Accounted (clearRecords s) waiting := by
  have hindexed := h.toLinked.clearRecords
  rw [h.clearRecords_eq] at hindexed ⊢
  refine ⟨⟨hindexed, ?_⟩, ?_, ?_, ?_, ?_, ?_⟩
  · simp
  · intro record hwait
    obtain ⟨hlt, hunlinked, hlive⟩ := h.waits record hwait
    exact ⟨hlt, List.not_mem_nil, by simp [hlive, hunlinked]⟩
  · intro record hr
    rcases List.mem_append.mp hr with hr | hr
    · exact h.freed_lt record hr
    · exact h.allocated record hr
  · refine List.nodup_append.mpr ⟨h.freed_nodup, h.nodup, ?_⟩
    rintro record hr _ hr' rfl
    exact h.not_freed record hr' hr
  · simp
  · intro record hlt
    rcases h.covered record hlt with hr | hr | hr
    · exact .inr (.inl (List.mem_append_right _ hr))
    · exact .inr (.inl (List.mem_append_left _ hr))
    · exact .inr (.inr hr)

/-! ### Commands and whole operations -/

/-- `control_write` is the command it carries, or nothing. -/
theorem controlWrite_eq (w : UserWrite) (s : Monitor K) :
    (controlWrite w s).1 = match writtenCommand w with
      | none => s
      | some c => runControl s c := by
  unfold controlWrite writtenCommand
  cases w.copy 64 <;> rfl

/-- Commands write to no record and allocate none. -/
theorem Linked.controlWrite_frame {s : Monitor K} (h : Linked s) (w : UserWrite) :
    (controlWrite w s).1.mem = s.mem ∧ (controlWrite w s).1.nextAddr = s.nextAddr := by
  rw [controlWrite_eq]
  cases writtenCommand w with
  | none => exact ⟨rfl, rfl⟩
  | some c =>
      cases c with
      | clear => simp [runControl, h.clearRecords_eq]
      | start | stop | resetStats => exact ⟨rfl, rfl⟩

theorem Accounted.controlWrite {s : Monitor K} (h : Accounted s waiting) (w : UserWrite) :
    Accounted (controlWrite w s).1 waiting := by
  rw [controlWrite_eq]
  cases writtenCommand w with
  | none => exact h
  | some c =>
      cases c with
      | start => exact h.congr rfl rfl rfl rfl rfl rfl fun _ _ => ⟨rfl, rfl⟩
      | stop => exact h.congr rfl rfl rfl rfl rfl rfl fun _ _ => ⟨rfl, rfl⟩
      | clear => exact h.clearRecords
      | resetStats => exact h.congr rfl rfl rfl rfl rfl rfl fun _ _ => ⟨rfl, rfl⟩

/-- `filter_write` changes the filter and nothing else. -/
theorem filterWrite_eq (w : UserWrite) (s : Monitor K) :
    (filterWrite w s).1 = { s with filter := (filterWrite w s).1.filter } := by
  unfold filterWrite
  cases w.copy 128 <;> rfl

theorem Accounted.filterWrite {s : Monitor K} (h : Accounted s waiting) (w : UserWrite) :
    Accounted (filterWrite w s).1 waiting := by
  rw [filterWrite_eq]
  exact h.congr rfl rfl rfl rfl rfl rfl fun _ _ => ⟨rfl, rfl⟩

/-- A whole call of `add_process_record` either does nothing or allocates and
links one record. -/
theorem addProcessRecord_cases (pid ppid : PidT) (comm : List UInt8) (jiffies : ULong K)
    (alloc : Bool) (s : Monitor K) :
    ((s.monitoringEnabled && alloc) = false ∧
        addProcessRecord pid ppid comm jiffies alloc s = s) ∨
      ((s.monitoringEnabled && alloc) = true ∧
        addProcessRecord pid ppid comm jiffies alloc s =
          CompleteMonitor.addProcessRecordLocked pid s.nextAddr
            { s with
              nextAddr := s.nextAddr + 1
              mem := Function.update s.mem s.nextAddr (newRecord pid ppid comm jiffies) }) := by
  unfold addProcessRecord
  rcases addProcessRecordEnter_cases pid ppid comm jiffies alloc s with ⟨he, hs⟩ | ⟨he, hs⟩
  · exact .inl ⟨he, by rw [hs]⟩
  · exact .inr ⟨he, by rw [hs]⟩

/-- **The accounting is kept by every operation.** -/
theorem Accounted.exec {s : Monitor K} (h : Accounted s fun _ => False) (op : Op K) :
    Accounted (s.exec op) fun _ => False := by
  cases op with
  | add pid ppid comm jiffies alloc =>
      rcases addProcessRecord_cases pid ppid comm jiffies alloc s with ⟨-, hs⟩ | ⟨-, hs⟩
      · rwa [Monitor.exec, hs]
      · rw [Monitor.exec, hs]
        have hpid : (Function.update s.mem s.nextAddr (newRecord pid ppid comm jiffies)
            s.nextAddr).pid = pid := by simp [newRecord]
        have hlinked := (h.allocate (newRecord pid ppid comm jiffies)).addProcessRecordLocked
          (.inr rfl) hpid
        have hnone : (fun other => (False ∨ other = s.nextAddr) ∧ other ≠ s.nextAddr) =
            fun _ => False := by
          funext other
          simp
        rwa [hnone] at hlinked
  | exit pid exitCode jiffies =>
      rw [Monitor.exec, markProcessExit]
      split
      · exact h
      · exact h.markProcessExitLocked pid exitCode jiffies
  | control w => exact h.controlWrite w
  | filter w => exact h.filterWrite w

theorem accounted_run (ops : List (Op K)) :
    Accounted (run Monitor.exec (Monitor.load K) ops) fun _ => False :=
  run_invariant (I := fun s => Accounted s fun _ => False) (fun _ op h => h.exec op)
    (accounted_load K) ops

end KernelModules.CompleteMonitor
