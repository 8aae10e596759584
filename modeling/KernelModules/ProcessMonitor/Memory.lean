import KernelModules.Lib.Heap
import KernelModules.Lib.Run
import KernelModules.ProcessMonitor.Store

/-!
The memory of `process_monitor.c`.

The records have their addresses here. Each of them is freed once, by an eviction, a
`clear` or the exit function. The error path of the init function frees none: when the
exit probe cannot be set, the forks that were recorded meanwhile stay allocated.
-/

namespace KernelModules.ProcessMonitor

open Lib

variable {K : Kernel}

/-- The static variables, with the records at their addresses. -/
structure MonitorMemory (K : Kernel) where
  heap : Heap
  stats : MonitorStats K
  processList : List (ℕ × ProcessRecord K)
  recordCount : ℤ

namespace MonitorMemory

def load (K : Kernel) : MonitorMemory K := ⟨.empty, .zero K, [], 0⟩

/-- The variables without the addresses. -/
def forget (s : MonitorMemory K) : Monitor K := ⟨s.stats, contents s.processList, s.recordCount⟩

/-! ### The functions -/

/-- On an empty list `list_first_entry` yields a pointer to no record. -/
def evictOldest (s : MonitorMemory K) : MonitorMemory K :=
  if s.recordCount ≥ MAX_PROCESS_RECORDS then
    match s.processList with
    | [] => { s with heap := s.heap.kfreeWild, recordCount := s.recordCount - 1 }
    | oldest :: rest =>
        { s with
          heap := s.heap.kfree oldest.1
          processList := rest
          recordCount := s.recordCount - 1 }
  else s

/-- The critical section of `add_process_record`. -/
def addLocked (addr : ℕ) (record : ProcessRecord K) (s : MonitorMemory K) : MonitorMemory K :=
  let s := s.evictOldest
  { s with
    processList := s.processList ++ [(addr, record)]
    recordCount := s.recordCount + 1
    stats := s.stats.countCreated }

def addProcessRecord (pid ppid : PidT) (comm : List UInt8) (jiffies : ULong K) (alloc : Bool)
    (s : MonitorMemory K) : MonitorMemory K :=
  if !alloc then s
  else
    match s.heap.kmalloc with
    | (addr, heap) => addLocked addr (newRecord pid ppid comm jiffies) { s with heap }

def markProcessExit (pid : PidT) (jiffies : ULong K) (s : MonitorMemory K) : MonitorMemory K :=
  if s.processList.any (fun block => block.2.runs pid) then
    { s with
      processList :=
        updateFirst (fun block => block.2.runs pid) (rewrite (.exited jiffies)) s.processList
      stats := s.stats.countExited }
  else s

def clear (s : MonitorMemory K) : MonitorMemory K :=
  ⟨s.heap.kfreeAll s.processList, .zero K, [], 0⟩

def exec (s : MonitorMemory K) : Op K → MonitorMemory K
  | .add pid ppid comm jiffies alloc => s.addProcessRecord pid ppid comm jiffies alloc
  | .exit pid jiffies => s.markProcessExit pid jiffies
  | .write w => if (Op.write w : Op K).clears then s.clear else s

/-- The loop of `process_monitor_exit`, when the probes and the file are gone. -/
def exit (s : MonitorMemory K) : MonitorMemory K :=
  { s with heap := s.heap.kfreeAll s.processList, processList := [] }

/-! ### What the functions keep -/

/-- The records of the list are the blocks that are allocated, and there are as many as
are counted. -/
structure Sound (s : MonitorMemory K) : Prop where
  owns : s.heap.Owns (s.processList.map Prod.fst)
  counts : Counts s.forget

theorem sound_load (K : Kernel) : (load K).Sound := ⟨.empty, counts_load K⟩

variable {s : MonitorMemory K}

/-- Without the addresses the eviction is that of the store, from an empty list too. -/
theorem forget_evictOldest (s : MonitorMemory K) :
    s.evictOldest.forget = ProcessMonitor.evictOldest s.forget := by
  by_cases hfull : s.recordCount ≥ MAX_PROCESS_RECORDS
  · have hfull' : s.forget.recordCount ≥ MAX_PROCESS_RECORDS := hfull
    rw [evictOldest, if_pos hfull, ProcessMonitor.evictOldest, if_pos hfull']
    obtain ⟨heap, stats, _ | ⟨oldest, rest⟩, count⟩ := s <;> rfl
  · have hfull' : ¬ s.forget.recordCount ≥ MAX_PROCESS_RECORDS := hfull
    rw [evictOldest, if_neg hfull, ProcessMonitor.evictOldest, if_neg hfull']

/-- The eviction, with a block in hand that is not in the list yet. -/
theorem owns_evictOldest {held : List ℕ}
    (howns : s.heap.Owns (s.processList.map Prod.fst ++ held)) (hcounts : Counts s.forget) :
    s.evictOldest.heap.Owns (s.evictOldest.processList.map Prod.fst ++ held) := by
  by_cases hfull : s.recordCount ≥ MAX_PROCESS_RECORDS
  · obtain ⟨oldest, rest, hlist⟩ := exists_oldest hcounts.count (by decide) hfull
    rw [evictOldest, if_pos hfull, hlist]
    rw [hlist] at howns
    exact howns.kfree
  · rw [evictOldest, if_neg hfull]
    exact howns

theorem forget_addProcessRecord (hcounts : Counts s.forget) (howns : s.heap.Owns
    (s.processList.map Prod.fst)) (pid ppid : PidT) (comm : List UInt8) (jiffies : ULong K) :
    (s.addProcessRecord pid ppid comm jiffies true).heap.Owns
        ((s.addProcessRecord pid ppid comm jiffies true).processList.map Prod.fst) ∧
      (s.addProcessRecord pid ppid comm jiffies true).forget =
        ProcessMonitor.addProcessRecord pid ppid comm jiffies true s.forget := by
  have howns' : s.heap.kmalloc.2.Owns (s.processList.map Prod.fst ++ [s.heap.kmalloc.1]) :=
    howns.kmalloc.of_perm (List.perm_append_singleton ..)
  have hevict := owns_evictOldest (s := { s with heap := s.heap.kmalloc.2 }) howns' hcounts
  constructor
  · show Heap.Owns _ ((_ ++ [(s.heap.kmalloc.1, _)]).map Prod.fst)
    rw [List.map_append]
    exact hevict
  · have hsame : ProcessMonitor.evictOldest s.forget =
        (evictOldest { s with heap := s.heap.kmalloc.2 }).forget :=
      (forget_evictOldest { s with heap := s.heap.kmalloc.2 }).symm
    rw [ProcessMonitor.addProcessRecord, if_neg (by decide), hsame]
    simp [addProcessRecord, addLocked, forget, contents]

theorem forget_markProcessExit (pid : PidT) (jiffies : ULong K) (s : MonitorMemory K) :
    (s.markProcessExit pid jiffies).processList.map Prod.fst = s.processList.map Prod.fst ∧
      (s.markProcessExit pid jiffies).heap = s.heap ∧
      (s.markProcessExit pid jiffies).forget =
        ProcessMonitor.markProcessExit pid jiffies s.forget := by
  have hany : s.forget.processList.any (ProcessRecord.runs pid) =
      s.processList.any fun block => block.2.runs pid := by
    rw [forget, contents, List.any_map]
    rfl
  obtain ⟨hcontents, haddresses⟩ :=
    updateFirst_rewrite (ProcessRecord.runs pid) (.exited jiffies) s.processList
  rw [markProcessExit, ProcessMonitor.markProcessExit, hany]
  split
  · refine ⟨haddresses, rfl, ?_⟩
    rw [forget, hcontents]
    rfl
  · exact ⟨rfl, rfl, rfl⟩

theorem Sound.kfreeAll (h : s.Sound) : (s.heap.kfreeAll s.processList).Owns [] := by
  apply Heap.Owns.kfreeAll
  rw [List.append_nil]
  exact h.owns

/-- **One operation.** -/
theorem Sound.exec (h : s.Sound) (op : Op K) :
    (s.exec op).Sound ∧ (s.exec op).forget = s.forget.exec op := by
  have hsound : (s.exec op).heap.Owns ((s.exec op).processList.map Prod.fst) ∧
      (s.exec op).forget = s.forget.exec op := by
    cases op with
    | add pid ppid comm jiffies alloc =>
        cases alloc with
        | false => exact ⟨h.owns, rfl⟩
        | true => exact forget_addProcessRecord h.counts h.owns pid ppid comm jiffies
    | exit pid jiffies =>
        obtain ⟨haddresses, hheap, hforget⟩ := forget_markProcessExit pid jiffies s
        refine ⟨?_, hforget⟩
        rw [MonitorMemory.exec, haddresses, hheap]
        exact h.owns
    | write w =>
        rw [Monitor.exec_write, MonitorMemory.exec]
        split
        · exact ⟨h.kfreeAll, rfl⟩
        · exact ⟨h.owns, rfl⟩
  refine ⟨⟨hsound.1, ?_⟩, hsound.2⟩
  rw [hsound.2]
  exact h.counts.exec op

/-- **The memory** over the whole life of the module. After any operations, no free was of
a block that was not live, the live blocks are the records of the list, and the values are
those of the store. The exit function leaves every block freed, each of them once; a load
that fails at this point leaves every block freed only if the list is empty. -/
theorem blocks_freed_once (K : Kernel) (ops : List (Op K)) :
    let s := run exec (load K) ops
    s.heap.fault = false ∧
      (∀ addr, addr < s.heap.next ∧ addr ∉ s.heap.freed ↔ addr ∈ s.processList.map Prod.fst) ∧
      s.forget = run Monitor.exec (.load K) ops ∧
      s.exit.heap.fault = false ∧ s.exit.heap.freed.Perm (List.range s.exit.heap.next) ∧
      (s.heap.freed.Perm (List.range s.heap.next) ↔ s.processList = []) := by
  intro s
  have hsim : Simulation (exec (K := K)) Monitor.exec Sound forget :=
    ⟨fun _ op h => (h.exec op).1, fun _ op h => (h.exec op).2⟩
  have hsound : s.Sound := run_invariant (I := Sound) hsim.1 (sound_load K) ops
  have hexit : s.exit.heap.Owns [] := hsound.kfreeAll
  refine ⟨hsound.owns.fault, fun _ => hsound.owns.mem_iff.symm, hsim.run_eq (sound_load K) ops,
    hexit.fault, hexit.freed_once, ?_⟩
  have hlength := hsound.owns.perm.length_eq
  rw [List.length_append, List.length_map] at hlength
  constructor
  · intro hperm
    have hall := hperm.length_eq
    exact List.eq_nil_of_length_eq_zero (by omega)
  · intro hnil
    have hperm := hsound.owns.perm
    rwa [hnil] at hperm

end MonitorMemory

end KernelModules.ProcessMonitor
