import KernelModules.CompleteMonitor.Commands
import KernelModules.Lib.Index

/-!
The three structures are two indexes over one list.

`Linked` says it of the pointers alone: the list has no duplicates, the hash
chains are the list split by bucket with the newest record first, and the
in-order sequence of the tree is the list sorted stably by start time. `Indexed`
adds the counter. Every function of the store is given one lemma that says what
it does to the list when the structures agree, and that they still agree; what
the module computes from the chains or the tree is computed from the list.
-/

namespace KernelModules.CompleteMonitor

open Lib

variable {K : Kernel}

/-- The bucket and the sort key of a record. -/
def bucketOf (s : Monitor K) (record : Addr) : Bucket := K.hashMin (s.mem record).pid

def startOf (s : Monitor K) (record : Addr) : ℕ := (s.mem record).startTime.toNat

/-- The three structures hold the same records. -/
structure Linked (s : Monitor K) : Prop where
  nodup : s.processList.Nodup
  hash : Buckets (bucketOf s) s.processList s.processHash
  tree : StableSort (startOf s) s.processList s.processTree.toList

/-- The structures agree, and the counter with them. -/
structure Indexed (s : Monitor K) : Prop extends Linked s where
  count : s.recordCount = s.processList.length
  bound : s.processList.length ≤ MAX_PROCESS_RECORDS

/-- The state between operations: every linked record has been allocated. -/
structure Stored (s : Monitor K) : Prop extends Indexed s where
  allocated : ∀ record ∈ s.processList, record < s.nextAddr

theorem stored_load (K : Kernel) : Stored (Monitor.load K) where
  nodup := List.nodup_nil
  hash := .empty _
  tree := .nil _
  count := rfl
  bound := Nat.zero_le _
  allocated := by simp [Monitor.load]

/-- The invariants look at the store and at two fields of the linked records. -/
theorem Linked.congr {s s' : Monitor K} (h : Linked s) (hlist : s'.processList = s.processList)
    (hhash : s'.processHash = s.processHash) (htree : s'.processTree = s.processTree)
    (hmem : ∀ record ∈ s.processList, (s'.mem record).pid = (s.mem record).pid ∧
      (s'.mem record).startTime = (s.mem record).startTime) : Linked s' where
  nodup := hlist ▸ h.nodup
  hash := by
    rw [hlist, hhash]
    exact h.hash.congr fun record hr => by simp [bucketOf, (hmem record hr).1]
  tree := by
    rw [hlist, htree]
    exact h.tree.congr fun record hr => by simp [startOf, (hmem record hr).2]

/-! ### Unlinking -/

@[simp] theorem unlinkRecord_processList (record : Addr) (s : Monitor K) :
    (unlinkRecord record s).processList = s.processList.erase record := rfl

@[simp] theorem unlinkRecord_processHash (record : Addr) (s : Monitor K) :
    (unlinkRecord record s).processHash = fun bucket => (s.processHash bucket).erase record := rfl

@[simp] theorem unlinkRecord_processTree (record : Addr) (s : Monitor K) :
    (unlinkRecord record s).processTree = K.rbErase record s.processTree := rfl

@[simp] theorem unlinkRecord_freed (record : Addr) (s : Monitor K) :
    (unlinkRecord record s).freed = s.freed ++ [record] := rfl

/-- Unlinking leaves every variable alone but the three structures and the log of
freed records. -/
theorem unlinkRecord_frame (record : Addr) (s : Monitor K) :
    unlinkRecord record s =
      { s with
        processList := (unlinkRecord record s).processList
        processHash := (unlinkRecord record s).processHash
        processTree := (unlinkRecord record s).processTree
        freed := (unlinkRecord record s).freed } := rfl

theorem Linked.unlink {s : Monitor K} (h : Linked s) {record : Addr}
    (hr : record ∈ s.processList) : Linked (unlinkRecord record s) where
  nodup := h.nodup.erase record
  hash := h.hash.erase h.nodup record
  tree := by
    have herase := K.toList_rbErase record s.processTree (h.tree.nodup h.nodup)
      (h.tree.mem_iff.mpr hr)
    rw [unlinkRecord_processTree, herase]
    exact h.tree.erase record

/-! ### Eviction -/

/-- The records an add at this moment evicts. -/
def evicted (s : Monitor K) : List Addr :=
  if MAX_PROCESS_RECORDS ≤ s.processList.length then s.processList.take 1 else []

theorem Indexed.full_iff {s : Monitor K} (h : Indexed s) :
    s.recordCount ≥ MAX_PROCESS_RECORDS ↔ MAX_PROCESS_RECORDS ≤ s.processList.length := by
  rw [h.count]
  exact Int.ofNat_le

/-- The eviction branch is entered only with a record to evict. -/
theorem Indexed.exists_oldest {s : Monitor K} (h : Indexed s)
    (hfull : s.recordCount ≥ MAX_PROCESS_RECORDS) :
    ∃ oldest rest, s.processList = oldest :: rest := by
  have hlen := h.full_iff.mp hfull
  cases hlist : s.processList with
  | nil => simp [hlist] at hlen
  | cons oldest rest => exact ⟨oldest, rest, rfl⟩

/-- What the eviction branch does when the structures agree. -/
theorem Indexed.evictOldest_cases {s : Monitor K} (h : Indexed s) :
    (s.processList.length < MAX_PROCESS_RECORDS ∧ evictOldest s = s) ∨
      ∃ oldest rest, s.processList = oldest :: rest ∧
        MAX_PROCESS_RECORDS ≤ s.processList.length ∧
        evictOldest s = { unlinkRecord oldest s with recordCount := s.recordCount - 1 } := by
  unfold evictOldest
  by_cases hfull : s.recordCount ≥ MAX_PROCESS_RECORDS
  · obtain ⟨oldest, rest, hlist⟩ := h.exists_oldest hfull
    refine .inr ⟨oldest, rest, hlist, h.full_iff.mp hfull, ?_⟩
    rw [if_pos hfull, hlist]
  · exact .inl ⟨Nat.not_le.mp (mt h.full_iff.mpr hfull), if_neg hfull⟩

/-- What is neither a structure nor the counter nor the log of freed records is
not touched by an eviction. -/
theorem evictOldest_frame (s : Monitor K) :
    evictOldest s =
      { s with
        processList := (evictOldest s).processList
        processHash := (evictOldest s).processHash
        processTree := (evictOldest s).processTree
        recordCount := (evictOldest s).recordCount
        freed := (evictOldest s).freed } := by
  unfold evictOldest
  split
  · split <;> rfl
  · rfl

@[simp] theorem evictOldest_mem (s : Monitor K) : (evictOldest s).mem = s.mem := by
  rw [evictOldest_frame]

@[simp] theorem evictOldest_nextAddr (s : Monitor K) :
    (evictOldest s).nextAddr = s.nextAddr := by
  rw [evictOldest_frame]

theorem Indexed.evictOldest_processList {s : Monitor K} (h : Indexed s) :
    (evictOldest s).processList =
      if MAX_PROCESS_RECORDS ≤ s.processList.length then s.processList.tail
      else s.processList := by
  rcases h.evictOldest_cases with ⟨hroom, hs⟩ | ⟨oldest, rest, hlist, hfull, hs⟩
  · rw [hs, if_neg (Nat.not_le.mpr hroom)]
  · rw [hs, if_pos hfull]
    simp [hlist]

theorem Indexed.evictOldest_freed {s : Monitor K} (h : Indexed s) :
    (evictOldest s).freed = s.freed ++ evicted s := by
  rcases h.evictOldest_cases with ⟨hroom, hs⟩ | ⟨oldest, rest, hlist, hfull, hs⟩
  · rw [hs, evicted, if_neg (Nat.not_le.mpr hroom), List.append_nil]
  · rw [hs, evicted, if_pos hfull]
    simp [hlist]

/-- After the eviction branch the structures agree. -/
theorem Indexed.evictOldest {s : Monitor K} (h : Indexed s) : Indexed (evictOldest s) := by
  rcases h.evictOldest_cases with ⟨-, hs⟩ | ⟨oldest, rest, hlist, -, hs⟩
  · rwa [hs]
  · rw [hs]
    have hrest : (unlinkRecord oldest s).processList = rest := by simp [hlist]
    have hlinked : Linked (unlinkRecord oldest s) := h.unlink (by simp [hlist])
    have hbound := h.bound
    have hcount := h.count
    rw [hlist, List.length_cons] at hbound hcount
    refine ⟨hlinked.congr rfl rfl rfl fun _ _ => ⟨rfl, rfl⟩, ?_, ?_⟩
    · show s.recordCount - 1 = ((unlinkRecord oldest s).processList.length : ℤ)
      rw [hrest, hcount]
      omega
    · show (unlinkRecord oldest s).processList.length ≤ _
      rw [hrest]
      omega

/-- After the eviction branch there is room for one record. -/
theorem Indexed.evictOldest_room {s : Monitor K} (h : Indexed s) :
    (CompleteMonitor.evictOldest s).processList.length < MAX_PROCESS_RECORDS := by
  have hbound := h.bound
  have hpos := maxProcessRecords_pos
  rw [h.evictOldest_processList]
  split
  · rw [List.length_tail]
    omega
  · omega

/-! ### Linking -/

@[simp] theorem linkRecord_processList (pid : PidT) (record : Addr) (s : Monitor K) :
    (linkRecord pid record s).processList = s.processList ++ [record] := rfl

@[simp] theorem linkRecord_mem (pid : PidT) (record : Addr) (s : Monitor K) :
    (linkRecord pid record s).mem = s.mem := rfl

@[simp] theorem linkRecord_nextAddr (pid : PidT) (record : Addr) (s : Monitor K) :
    (linkRecord pid record s).nextAddr = s.nextAddr := rfl

@[simp] theorem linkRecord_freed (pid : PidT) (record : Addr) (s : Monitor K) :
    (linkRecord pid record s).freed = s.freed := rfl

theorem Indexed.link {s : Monitor K} (h : Indexed s) {pid : PidT} {record : Addr}
    (hroom : s.processList.length < MAX_PROCESS_RECORDS) (hnew : record ∉ s.processList)
    (hpid : (s.mem record).pid = pid) : Indexed (linkRecord pid record s) where
  nodup := by
    rw [linkRecord_processList, List.nodup_append]
    refine ⟨h.nodup, List.nodup_singleton _, fun a ha b hb => ?_⟩
    rw [List.mem_singleton.mp hb]
    rintro rfl
    exact hnew ha
  hash := by
    have hbucket : K.hashMin pid = bucketOf s record := by rw [bucketOf, hpid]
    have hpush := h.hash.push record
    rw [← hbucket] at hpush
    exact hpush
  tree := by
    show StableSort (startOf s) (s.processList ++ [record]) (K.rbInsertColor record _).toList
    rw [K.toList_rbInsertColor]
    exact h.tree.link record
  count := by
    show s.recordCount + 1 = ((s.processList ++ [record]).length : ℤ)
    rw [h.count, List.length_append]
    rfl
  bound := by
    rw [linkRecord_processList, List.length_append]
    exact hroom

/-! ### The critical section of `add_process_record` -/

@[simp] theorem addProcessRecordLocked_mem (pid : PidT) (record : Addr) (s : Monitor K) :
    (addProcessRecordLocked pid record s).mem = s.mem := by
  simp [addProcessRecordLocked]

@[simp] theorem addProcessRecordLocked_nextAddr (pid : PidT) (record : Addr) (s : Monitor K) :
    (addProcessRecordLocked pid record s).nextAddr = s.nextAddr := by
  simp [addProcessRecordLocked]

theorem addProcessRecordLocked_frame (pid : PidT) (record : Addr) (s : Monitor K) :
    (addProcessRecordLocked pid record s).stats = s.stats.countCreated ∧
      (addProcessRecordLocked pid record s).filter = s.filter ∧
      (addProcessRecordLocked pid record s).monitoringEnabled = s.monitoringEnabled := by
  rw [addProcessRecordLocked, evictOldest_frame s]
  exact ⟨rfl, rfl, rfl⟩

theorem Indexed.addProcessRecordLocked_processList {s : Monitor K} (h : Indexed s) (pid : PidT)
    (record : Addr) :
    (addProcessRecordLocked pid record s).processList =
      pushBounded MAX_PROCESS_RECORDS s.processList record := by
  simp [addProcessRecordLocked, h.evictOldest_processList, pushBounded]

theorem Indexed.addProcessRecordLocked_freed {s : Monitor K} (h : Indexed s) (pid : PidT)
    (record : Addr) :
    (addProcessRecordLocked pid record s).freed = s.freed ++ evicted s := by
  simp [addProcessRecordLocked, h.evictOldest_freed]

theorem Indexed.addProcessRecordLocked {s : Monitor K} (h : Indexed s) {pid : PidT}
    {record : Addr} (hnew : record ∉ s.processList) (hpid : (s.mem record).pid = pid) :
    Indexed (addProcessRecordLocked pid record s) := by
  have hnew' : record ∉ (CompleteMonitor.evictOldest s).processList := by
    rw [h.evictOldest_processList]
    split
    · exact fun hmem => hnew (List.mem_of_mem_tail hmem)
    · exact hnew
  have hlink := h.evictOldest.link h.evictOldest_room hnew' (by rw [evictOldest_mem, hpid])
  exact ⟨hlink.toLinked.congr rfl rfl rfl fun _ _ => ⟨rfl, rfl⟩, hlink.count, hlink.bound⟩

/-! ### Lookup and the critical section of `mark_process_exit` -/

/-- The pid lookup is a scan of the list from its newest record. -/
theorem Linked.findProcessByPid_eq {s : Monitor K} (h : Linked s) (pid : PidT) :
    findProcessByPid s pid = s.processList.reverse.find? fun record => (s.mem record).runs pid := by
  apply h.hash.find?_eq
  intro record _ hruns
  simp only [ProcessRecord.runs, Bool.and_eq_true, decide_eq_true_eq] at hruns
  rw [bucketOf, hruns.1]

/-- What a successful lookup says about the list. -/
theorem Linked.findProcessByPid_split {s : Monitor K} (h : Linked s) {pid : PidT} {record : Addr}
    (hfind : findProcessByPid s pid = some record) :
    (s.mem record).runs pid = true ∧ ∃ before after,
      s.processList = before ++ record :: after ∧
        ∀ other ∈ after, (s.mem other).runs pid = false := by
  rw [h.findProcessByPid_eq, List.find?_eq_some_iff_append] at hfind
  obtain ⟨hruns, after, before, hrev, hafter⟩ := hfind
  refine ⟨hruns, before.reverse, after.reverse, ?_, fun other ho => ?_⟩
  · have hlist := congrArg List.reverse hrev
    simpa using hlist
  · simpa using hafter other (List.mem_reverse.mp ho)

theorem Linked.mem_of_findProcessByPid {s : Monitor K} (h : Linked s) {pid : PidT}
    {record : Addr} (hfind : findProcessByPid s pid = some record) :
    record ∈ s.processList := by
  obtain ⟨-, before, after, hlist, -⟩ := h.findProcessByPid_split hfind
  simp [hlist]

/-- `mark_process_exit` writes to one record and to the statistics. -/
theorem markProcessExitLocked_cases (pid : PidT) (exitCode : CInt) (jiffies : ULong K)
    (s : Monitor K) :
    (findProcessByPid s pid = none ∧
        markProcessExitLocked pid exitCode jiffies s = (s, none)) ∨
      ∃ record, findProcessByPid s pid = some record ∧
        markProcessExitLocked pid exitCode jiffies s =
          ({ s with
              mem := Function.update s.mem record ((s.mem record).exited exitCode jiffies)
              stats := s.stats.countExited ((s.mem record).exited exitCode jiffies).lifetime
                (s.mem record).cpuTime },
            some (record, ((s.mem record).exited exitCode jiffies).lifetime)) := by
  unfold markProcessExitLocked
  cases hfind : findProcessByPid s pid with
  | none => exact .inl ⟨rfl, rfl⟩
  | some record => exact .inr ⟨record, rfl, rfl⟩

theorem markProcessExitLocked_frame (pid : PidT) (exitCode : CInt) (jiffies : ULong K)
    (s : Monitor K) :
    (markProcessExitLocked pid exitCode jiffies s).1 =
      { s with
        mem := (markProcessExitLocked pid exitCode jiffies s).1.mem
        stats := (markProcessExitLocked pid exitCode jiffies s).1.stats } := by
  rcases markProcessExitLocked_cases pid exitCode jiffies s with ⟨-, hs⟩ | ⟨_, -, hs⟩
  · rw [hs]
  · rw [hs]

/-- Marking a record moves it in none of the structures: the fields they are
keyed by stay. -/
theorem markProcessExitLocked_keys (pid : PidT) (exitCode : CInt) (jiffies : ULong K)
    (s : Monitor K) (record : Addr) :
    ((markProcessExitLocked pid exitCode jiffies s).1.mem record).pid = (s.mem record).pid ∧
      ((markProcessExitLocked pid exitCode jiffies s).1.mem record).startTime =
        (s.mem record).startTime := by
  rcases markProcessExitLocked_cases pid exitCode jiffies s with ⟨-, hs⟩ | ⟨marked, -, hs⟩
  · rw [hs]
    exact ⟨rfl, rfl⟩
  · rw [hs]
    by_cases hr : record = marked
    · subst hr
      simp [ProcessRecord.exited]
    · simp [hr]

/-! ### The `clear` loop -/

/-- The loop frees the whole list, record by record. -/
theorem Linked.foldl_unlinkRecord {s : Monitor K} (h : Linked s) :
    let s' := s.processList.foldl (fun s record => unlinkRecord record s) s
    Linked s' ∧ s'.processList = [] ∧ s'.freed = s.freed ++ s.processList := by
  -- the induction is on the list the loop started with, which shrinks in step
  suffices H : ∀ l (s : Monitor K), Linked s → s.processList = l →
      let s' := l.foldl (fun s record => unlinkRecord record s) s
      Linked s' ∧ s'.processList = [] ∧ s'.freed = s.freed ++ l from H _ s h rfl
  intro l
  induction l with
  | nil => exact fun s h hlist => ⟨h, hlist, by simp⟩
  | cons record l ih =>
      intro s h hlist
      have hrest : (unlinkRecord record s).processList = l := by simp [hlist]
      obtain ⟨hlinked, hnil, hfreed⟩ :=
        ih (unlinkRecord record s) (h.unlink (by simp [hlist])) hrest
      exact ⟨hlinked, hnil, by simp [hfreed]⟩

theorem foldl_unlinkRecord_frame (l : List Addr) (s : Monitor K) :
    let s' := l.foldl (fun s record => unlinkRecord record s) s
    s' = { s with
      processList := s'.processList
      processHash := s'.processHash
      processTree := s'.processTree
      freed := s'.freed } := by
  induction l generalizing s with
  | nil => rfl
  | cons record l ih =>
      have hrest := ih (unlinkRecord record s)
      rw [unlinkRecord_frame record s] at hrest
      exact hrest

/-- `clear` empties the three structures and frees what they held. -/
theorem Linked.clearRecords_eq {s : Monitor K} (h : Linked s) :
    clearRecords s =
      { s with
        processList := []
        processHash := fun _ => []
        processTree := .nil
        recordCount := 0
        freed := s.freed ++ s.processList } := by
  obtain ⟨hlinked, hlist, hfreed⟩ := h.foldl_unlinkRecord
  have hhash := hlinked.hash
  have htree := hlinked.tree
  rw [hlist] at hhash htree
  rw [clearRecords, foldl_unlinkRecord_frame, hlist, hfreed, hhash.eq_empty,
    RbTree.toList_eq_nil.mp htree.eq_nil]

theorem Linked.clearRecords {s : Monitor K} (h : Linked s) : Indexed (clearRecords s) := by
  rw [h.clearRecords_eq]
  exact ⟨⟨List.nodup_nil, .empty _, .nil _⟩, rfl, Nat.zero_le _⟩

end KernelModules.CompleteMonitor
