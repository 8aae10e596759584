import KernelModules.CompleteMonitor.Effects

/-!
What the three structures look like in every state of every schedule, in the
terms of the structures themselves.
-/

namespace KernelModules.CompleteMonitor

open Lib

variable {K : Kernel}

/-- The record is in the list, in the hash chain of its pid and in the tree. -/
def LinkedEverywhere (s : Monitor K) (record : Addr) : Prop :=
  record ∈ s.processList ∧ record ∈ s.processHash (K.hashMin (s.mem record).pid) ∧
    record ∈ s.processTree.toList

/-- The record is in none of the three structures. -/
def LinkedNowhere (s : Monitor K) (record : Addr) : Prop :=
  record ∉ s.processList ∧ (∀ bucket, record ∉ s.processHash bucket) ∧
    record ∉ s.processTree.toList

/-- The call that allocated the record has been through its critical section. -/
def System.Completed (s : System K) (record : Addr) : Prop :=
  record < s.mon.nextAddr ∧ ¬ s.Waiting record

/-- The list, the hash table, the tree, the counter and the heap agree. -/
structure IndexConsistent (s : System K) : Prop where
  list_once : s.mon.processList.Nodup
  hash_once : ∀ bucket, (s.mon.processHash bucket).Nodup
  tree_once : s.mon.processTree.toList.Nodup
  hash_mem : ∀ bucket record, record ∈ s.mon.processHash bucket ↔
    record ∈ s.mon.processList ∧ bucket = K.hashMin (s.mon.mem record).pid
  tree_mem : ∀ record, record ∈ s.mon.processTree.toList ↔ record ∈ s.mon.processList
  count_eq : s.mon.recordCount = s.mon.processList.length
  count_le : s.mon.recordCount ≤ MAX_PROCESS_RECORDS
  tree_sorted : s.mon.processTree.toList.Pairwise fun a b =>
    (s.mon.mem a).startTime ≤ (s.mon.mem b).startTime
  tree_stable : ∀ time,
    (s.mon.processTree.toList.filter fun a => (s.mon.mem a).startTime = time) =
      s.mon.processList.filter fun a => (s.mon.mem a).startTime = time
  evicts_record : s.mon.recordCount ≥ MAX_PROCESS_RECORDS → s.mon.processList ≠ []
  completed : ∀ record, s.Completed record →
    (LinkedEverywhere s.mon record ∧ record ∉ s.mon.freed) ∨
      (LinkedNowhere s.mon record ∧ s.mon.freed.count record = 1)

/-- The invariant of all schedules, spelled out for the structures. -/
theorem System.Consistent.indexConsistent {s : System K} (h : s.Consistent) :
    IndexConsistent s := by
  have hacc := h.accounted
  have hhash : ∀ bucket record, record ∈ s.mon.processHash bucket ↔
      record ∈ s.mon.processList ∧ bucket = K.hashMin (s.mon.mem record).pid := by
    intro bucket record
    rw [hacc.hash.mem_iff, bucketOf, eq_comm (a := bucket)]
  refine ⟨hacc.nodup, hacc.hash.nodup hacc.nodup, hacc.tree.nodup hacc.nodup, hhash,
    fun _ => hacc.tree.mem_iff, hacc.count, ?_, ?_, fun time => ?_, fun hfull => ?_, ?_⟩
  · rw [hacc.count]
    exact Int.ofNat_le.mpr hacc.bound
  · exact hacc.tree.sorted.imp fun hle => BitVec.le_def.mpr hle
  · have hstable := hacc.tree.stable time.toNat
    simpa only [startOf, BitVec.toNat_inj] using hstable
  · obtain ⟨oldest, rest, hlist⟩ := hacc.exists_oldest hfull
    simp [hlist]
  · rintro record ⟨hlt, hnotWaiting⟩
    rcases hacc.covered record hlt with hlinked | hfreed | hwaiting
    · refine .inl ⟨⟨hlinked, (hhash ..).mpr ⟨hlinked, rfl⟩, hacc.tree.mem_iff.mpr hlinked⟩, ?_⟩
      exact hacc.not_freed record hlinked
    · have hunlinked : record ∉ s.mon.processList := fun hmem => hacc.not_freed record hmem hfreed
      refine .inr ⟨⟨hunlinked, fun bucket hmem => ?_, fun hmem => ?_⟩, ?_⟩
      · exact hunlinked ((hhash ..).mp hmem).1
      · exact hunlinked (hacc.tree.mem_iff.mp hmem)
      · exact List.count_eq_one_of_mem hacc.freed_nodup hfreed
    · exact absurd hwaiting hnotWaiting

/-- **Index consistency.** In every state of every schedule of calls and
commands the three structures hold the same records, each once and in its own
bucket, the tree is sorted stably by start time, the counter counts the list
within its bound, and every record that has been through a critical section is
linked everywhere or has been freed exactly once. -/
theorem index_consistency (K : Kernel) (es : List (Event K)) :
    IndexConsistent (run System.step (System.load K) es) :=
  (System.consistent_run es).indexConsistent

/-! ### Lookup -/

/-- A schedule, and the records it has added to the list, in the order of the
additions. -/
structure Adding (K : Kernel) where
  sys : System K
  added : List Addr

namespace Adding

def load (K : Kernel) : Adding K := ⟨.load K, []⟩

def step (t : Adding K) (e : Event K) : Adding K where
  sys := t.sys.step e
  added := t.added ++ (t.sys.effect e).linked.toList

/-- The list is in the order of the additions. -/
structure Ordered (t : Adding K) : Prop where
  consistent : t.sys.Consistent
  sublist : t.sys.mon.processList.Sublist t.added

theorem Ordered.step {t : Adding K} (h : t.Ordered) (e : Event K) : (t.step e).Ordered where
  consistent := h.consistent.step e
  sublist := by
    show (t.sys.step e).mon.processList.Sublist _
    rw [System.mon_step]
    exact ((t.sys.effect e).processList_apply_sublist h.consistent.accounted.toIndexed).trans
      (h.sublist.append_right _)

theorem adding_ordered (es : List (Event K)) : (run step (load K) es).Ordered :=
  run_invariant (I := Ordered) (fun _ e h => h.step e)
    ⟨System.consistent_load K, List.Sublist.refl _⟩ es

end Adding

/-- **Lookup.** In every state of every schedule the list is in the order in which its
records were added, and the lookup finds the last record of the list that has the pid
and is running, and nothing exactly if there is none. -/
theorem lookup_scans_list (K : Kernel) (es : List (Event K)) (pid : PidT) :
    let t := run Adding.step (Adding.load K) es
    t.sys.mon.processList.Sublist t.added ∧
      (findProcessByPid t.sys.mon pid = none ↔ ∀ record ∈ t.sys.mon.processList,
        ¬ ((t.sys.mon.mem record).pid = pid ∧ (t.sys.mon.mem record).status = 1)) ∧
      findProcessByPid t.sys.mon pid =
        (t.sys.mon.processList.filter fun record =>
          (t.sys.mon.mem record).pid = pid ∧ (t.sys.mon.mem record).status = 1).getLast? := by
  have h := Adding.adding_ordered (K := K) es
  have hscan := h.consistent.accounted.findProcessByPid_eq pid
  simp only [ProcessRecord.runs, ← Bool.decide_and] at hscan
  refine ⟨h.sublist, ?_, ?_⟩
  · rw [hscan, List.find?_eq_none]
    simp only [List.mem_reverse, decide_eq_true_iff]
  · rw [hscan, List.getLast?_filter]

end KernelModules.CompleteMonitor
