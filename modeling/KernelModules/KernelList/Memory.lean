import KernelModules.KernelList.Store
import KernelModules.Lib.Heap
import KernelModules.Lib.Run

/-!
The memory of `02_kernel_list.c`.

The records have their addresses here. `add_record` evicts before it allocates, so an
addition that runs out of memory may free a record and link none; still every record is
freed once, by an eviction, a `del`, a `clear` or the unload.
-/

namespace KernelModules.KernelList

open Lib

variable {K : Kernel}

/-- The static variables, with the records at their addresses. -/
structure ListMemory (K : Kernel) where
  heap : Heap
  recordList : List (ℕ × DemoRecord K)
  recordCount : ℤ
  nextId : CInt

namespace ListMemory

def empty (K : Kernel) : ListMemory K := ⟨.empty, [], 0, 1⟩

/-- The variables without the addresses. -/
def forget (s : ListMemory K) : ListDemo K := ⟨contents s.recordList, s.recordCount, s.nextId⟩

/-! ### The functions -/

/-- On an empty list `list_first_entry` yields a pointer to no record. -/
def evictOldest (s : ListMemory K) : ListMemory K :=
  if s.recordCount ≥ MAX_RECORDS then
    match s.recordList with
    | [] => { s with heap := s.heap.kfreeWild, recordCount := s.recordCount - 1 }
    | oldest :: rest =>
        { s with
          heap := s.heap.kfree oldest.1
          recordList := rest
          recordCount := s.recordCount - 1 }
  else s

/-- `addRecord` after the eviction. -/
def insertRecord (name : List UInt8) (jiffies : ULong K) (alloc : Bool) (s : ListMemory K) :
    ListMemory K :=
  if !alloc then s
  else
    match s.heap.kmalloc with
    | (addr, heap) =>
        { heap
          recordList := s.recordList ++ [(addr, ⟨s.nextId, nameOf name, jiffies⟩)]
          recordCount := s.recordCount + 1
          nextId := s.nextId + 1 }

def addRecord (name : List UInt8) (jiffies : ULong K) (alloc : Bool) (s : ListMemory K) :
    ListMemory K :=
  s.evictOldest.insertRecord name jiffies alloc

def removeRecordById (id : CInt) (s : ListMemory K) : ListMemory K :=
  match s.recordList.find? (·.2.id = id) with
  | none => s
  | some record =>
      { s with
        heap := s.heap.kfree record.1
        recordList := s.recordList.eraseP (·.2.id = id)
        recordCount := s.recordCount - 1 }

def clearAllRecords (s : ListMemory K) : ListMemory K :=
  { s with heap := s.heap.kfreeAll s.recordList, recordList := [], recordCount := 0 }

/-- The state `kernel_list_init` leaves behind. -/
def load (jiffies₁ jiffies₂ : ULong K) (alloc₁ alloc₂ : Bool) : ListMemory K :=
  addRecord (ascii "demo_entry".toList) jiffies₂ alloc₂
    (addRecord (ascii "initial_record".toList) jiffies₁ alloc₁ (.empty K))

def runCommand (jiffies : ULong K) (alloc : Bool) (s : ListMemory K) : Command → ListMemory K
  | .add name => addRecord name jiffies alloc s
  | .del id => removeRecordById id s
  | .clear => clearAllRecords s

/-- `kernel_list_write`. -/
def exec (s : ListMemory K) (op : Op K) : ListMemory K :=
  match writtenCommand op.write with
  | none => s
  | some c => runCommand op.jiffies op.alloc s c

/-- `kernel_list_exit`, when the file is gone. -/
def exit (s : ListMemory K) : ListMemory K := s.clearAllRecords

/-! ### What the functions keep -/

/-- The records of the list are the blocks that are allocated, and `record_count` counts
them, within the capacity or not. -/
structure Whole (s : ListMemory K) : Prop where
  owns : s.heap.Owns (s.recordList.map Prod.fst)
  counted : s.recordCount = (contents s.recordList).length

section Whole

variable {s : ListMemory K}

/-- A full list has a record to evict. -/
theorem Whole.evictOldest_cases (h : s.Whole) :
    (¬ s.recordCount ≥ MAX_RECORDS ∧ s.evictOldest = s) ∨
      ∃ oldest rest, s.recordList = oldest :: rest ∧ s.recordCount ≥ MAX_RECORDS ∧
        s.evictOldest =
          { s with
            heap := s.heap.kfree oldest.1
            recordList := rest
            recordCount := s.recordCount - 1 } := by
  by_cases hfull : s.recordCount ≥ MAX_RECORDS
  · obtain ⟨oldest, rest, hlist⟩ := exists_oldest h.counted (by decide) hfull
    refine .inr ⟨oldest, rest, hlist, hfull, ?_⟩
    rw [ListMemory.evictOldest, if_pos hfull, hlist]
  · exact .inl ⟨hfull, if_neg hfull⟩

theorem Whole.evictOldest (h : s.Whole) : s.evictOldest.Whole := by
  rcases h.evictOldest_cases with ⟨-, hevict⟩ | ⟨oldest, rest, hlist, -, hevict⟩ <;> rw [hevict]
  · exact h
  · have howns := h.owns
    have hcounted := h.counted
    rw [hlist] at howns hcounted
    refine ⟨howns.kfree, ?_⟩
    show s.recordCount - 1 = ((contents rest).length : ℕ)
    rw [hcounted]
    simp [contents]

/-- Without the addresses the eviction is that of the store, from an empty list too. -/
theorem forget_evictOldest (s : ListMemory K) :
    s.evictOldest.forget = KernelList.evictOldest s.forget := by
  by_cases hfull : s.recordCount ≥ MAX_RECORDS
  · have hfull' : s.forget.recordCount ≥ MAX_RECORDS := hfull
    rw [ListMemory.evictOldest, if_pos hfull, KernelList.evictOldest, if_pos hfull']
    obtain ⟨heap, _ | ⟨oldest, rest⟩, count, nextId⟩ := s <;> rfl
  · have hfull' : ¬ s.forget.recordCount ≥ MAX_RECORDS := hfull
    rw [ListMemory.evictOldest, if_neg hfull, KernelList.evictOldest, if_neg hfull']

theorem Whole.insertRecord (h : s.Whole) (name : List UInt8) (jiffies : ULong K) (alloc : Bool) :
    (s.insertRecord name jiffies alloc).Whole ∧
      (s.insertRecord name jiffies alloc).forget =
        KernelList.insertRecord name jiffies alloc s.forget := by
  cases alloc with
  | false => exact ⟨h, rfl⟩
  | true =>
      refine ⟨⟨?_, ?_⟩, by simp [ListMemory.insertRecord, forget, contents, KernelList.insertRecord,
        linkRecord]⟩
      · show (s.heap.kmalloc).2.Owns ((s.recordList ++ [(s.heap.kmalloc.1, _)]).map Prod.fst)
        rw [List.map_append]
        exact h.owns.kmalloc.of_perm (List.perm_append_singleton ..)
      · show s.recordCount + 1 = ((contents (s.recordList ++ [_])).length : ℕ)
        rw [h.counted]
        simp [contents]

/-- The first record with the id, if there is one, is freed and taken out. -/
theorem removeRecordById_cases (s : ListMemory K) (id : CInt) :
    (s.recordList.find? (·.2.id = id) = none ∧ s.removeRecordById id = s) ∨
      ∃ record, s.recordList.find? (·.2.id = id) = some record ∧
        (record :: s.recordList.eraseP (·.2.id = id)).Perm s.recordList ∧
        s.removeRecordById id =
          { s with
            heap := s.heap.kfree record.1
            recordList := s.recordList.eraseP (·.2.id = id)
            recordCount := s.recordCount - 1 } := by
  rw [ListMemory.removeRecordById]
  cases hfind : s.recordList.find? (·.2.id = id) with
  | none => exact .inl ⟨rfl, rfl⟩
  | some record => exact .inr ⟨record, rfl, perm_cons_eraseP hfind, rfl⟩

theorem Whole.removeRecordById (h : s.Whole) (id : CInt) :
    (s.removeRecordById id).Whole ∧
      (s.removeRecordById id).forget = KernelList.removeRecordById id s.forget := by
  rcases s.removeRecordById_cases id with ⟨hfind, hremove⟩ | ⟨record, hfind, hperm, hremove⟩ <;>
    rw [hremove]
  · rw [removeRecordById_of_none]
    · exact ⟨h, rfl⟩
    · intro r hr
      obtain ⟨record, hmem, rfl⟩ := List.mem_map.mp hr
      simpa using List.find?_eq_none.mp hfind record hmem
  · have hany : s.forget.recordList.any (·.id = id) = true := by
      rw [forget, contents, List.any_map]
      exact List.any_eq_true.mpr ⟨record, List.mem_of_find?_eq_some hfind, List.find?_some hfind⟩
    have hcontents : contents (s.recordList.eraseP (·.2.id = id)) =
        s.forget.recordList.eraseP (·.id = id) :=
      contents_eraseP (fun r : DemoRecord K => r.id = id) s.recordList
    rw [KernelList.removeRecordById, if_pos hany, ← hcontents]
    refine ⟨⟨(h.owns.of_perm (hperm.map Prod.fst)).kfree, ?_⟩, rfl⟩
    show s.recordCount - 1 = ((contents (s.recordList.eraseP _)).length : ℕ)
    have hlength := (hperm.map Prod.snd).length_eq
    rw [h.counted, contents, contents, ← hlength]
    simp

theorem Whole.clearAllRecords (h : s.Whole) : s.clearAllRecords.Whole := by
  have howns : s.heap.Owns (s.recordList.map Prod.fst ++ []) := by
    rw [List.append_nil]
    exact h.owns
  exact ⟨howns.kfreeAll, rfl⟩

end Whole

/-- The records of the list are the blocks that are allocated, and there are as many as
are counted. -/
structure Sound (s : ListMemory K) : Prop where
  owns : s.heap.Owns (s.recordList.map Prod.fst)
  sized : s.forget.Sized

theorem sound_empty (K : Kernel) : (empty K).Sound := ⟨.empty, sized_empty K⟩

variable {s : ListMemory K}

theorem Sound.whole (h : s.Sound) : s.Whole := ⟨h.owns, h.sized.1⟩

theorem Sound.evictOldest (h : s.Sound) : s.evictOldest.Sound := by
  refine ⟨h.whole.evictOldest.owns, ?_⟩
  rw [forget_evictOldest]
  exact h.sized.evictOldest.1

theorem Sound.addRecord (h : s.Sound) (name : List UInt8) (jiffies : ULong K) (alloc : Bool) :
    (s.addRecord name jiffies alloc).Sound ∧
      (s.addRecord name jiffies alloc).forget =
        KernelList.addRecord name jiffies alloc s.forget := by
  obtain ⟨hwhole, hinsert⟩ := h.evictOldest.whole.insertRecord name jiffies alloc
  rw [forget_evictOldest] at hinsert
  refine ⟨⟨hwhole.owns, ?_⟩, hinsert⟩
  rw [ListMemory.addRecord, hinsert, KernelList.insertRecord]
  cases alloc with
  | false => exact h.sized.evictOldest.1
  | true => exact h.sized.evictOldest.1.linkRecord h.sized.evictOldest.2 name jiffies

/-- The record that is found is freed and taken out. -/
theorem Sound.removeRecordById (h : s.Sound) (id : CInt) :
    (s.removeRecordById id).Sound ∧
      (s.removeRecordById id).forget = KernelList.removeRecordById id s.forget := by
  obtain ⟨hwhole, hforget⟩ := h.whole.removeRecordById id
  refine ⟨⟨hwhole.owns, ?_⟩, hforget⟩
  rw [hforget]
  exact (h.sized.removeRecordById id).1

theorem Sound.clearAllRecords (h : s.Sound) :
    s.clearAllRecords.Sound ∧
      s.clearAllRecords.forget = KernelList.clearAllRecords s.forget :=
  ⟨⟨h.whole.clearAllRecords.owns, ListDemo.Sized.clearAllRecords s.forget⟩, rfl⟩

/-- **One write.** -/
theorem Sound.exec (h : s.Sound) (op : Op K) :
    (s.exec op).Sound ∧ (s.exec op).forget = s.forget.exec op := by
  rw [ListDemo.exec_eq, ListMemory.exec]
  cases writtenCommand op.write with
  | none => exact ⟨h, rfl⟩
  | some c =>
      cases c with
      | add name => exact h.addRecord name op.jiffies op.alloc
      | del id => exact h.removeRecordById id
      | clear => exact h.clearAllRecords

section Load

variable (jiffies₁ jiffies₂ : ULong K) (alloc₁ alloc₂ : Bool)

theorem sound_load :
    (load jiffies₁ jiffies₂ alloc₁ alloc₂).Sound ∧
      (load jiffies₁ jiffies₂ alloc₁ alloc₂).forget =
        ListDemo.load jiffies₁ jiffies₂ alloc₁ alloc₂ := by
  obtain ⟨hfirst, hforget⟩ :=
    (sound_empty K).addRecord (ascii "initial_record".toList) jiffies₁ alloc₁
  obtain ⟨hsecond, hforget'⟩ := hfirst.addRecord (ascii "demo_entry".toList) jiffies₂ alloc₂
  refine ⟨hsecond, hforget'.trans ?_⟩
  rw [hforget]
  rfl

/-- **The memory** over the whole life of the module, from the two additions of the load
on. After any writes, no free was of a block that was not live, the live blocks are the
records of the list, and the values are those of the store. When the module is unloaded
then, every block that was ever allocated has been freed, each of them once. -/
theorem records_freed_once (ops : List (Op K)) :
    let s := run exec (load jiffies₁ jiffies₂ alloc₁ alloc₂) ops
    s.heap.fault = false ∧
      (∀ addr, addr < s.heap.next ∧ addr ∉ s.heap.freed ↔ addr ∈ s.recordList.map Prod.fst) ∧
      s.forget = run ListDemo.exec (.load jiffies₁ jiffies₂ alloc₁ alloc₂) ops ∧
      s.exit.heap.fault = false ∧ s.exit.heap.freed.Perm (List.range s.exit.heap.next) := by
  intro s
  obtain ⟨hload, hforget⟩ := sound_load jiffies₁ jiffies₂ alloc₁ alloc₂
  have hsim : Simulation (exec (K := K)) ListDemo.exec Sound forget :=
    ⟨fun _ op h => (h.exec op).1, fun _ op h => (h.exec op).2⟩
  have hsound : s.Sound := run_invariant (I := Sound) hsim.1 hload ops
  have hexit : s.exit.Sound := hsound.clearAllRecords.1
  refine ⟨hsound.owns.fault, fun _ => hsound.owns.mem_iff.symm, ?_, hexit.owns.fault,
    hexit.owns.freed_once⟩
  rw [← hforget]
  exact hsim.run_eq hload ops

end Load

end ListMemory

end KernelModules.KernelList
