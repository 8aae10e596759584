import KernelModules.Kernel

/-!
The record list of `02_kernel_list.c` and the commands that change it.

`add_record` is cut in two where its allocation may sleep: the capacity test
with the eviction before it, the id, the link and the count after it.
-/

namespace KernelModules.KernelList

open Lib

abbrev MAX_RECORDS : ℕ := 20

/-- `struct demo_record`, without its link. -/
structure DemoRecord (K : Kernel) where
  id : CInt
  name : CharArray 32
  timestamp : ULong K
  deriving DecidableEq

/-- The static variables of the module. -/
structure ListDemo (K : Kernel) where
  recordList : List (DemoRecord K)
  recordCount : ℤ
  nextId : CInt
  deriving DecidableEq

variable {K : Kernel}

/-- The variables before any call. -/
def ListDemo.empty (K : Kernel) : ListDemo K := ⟨[], 0, 1⟩

/-! ### The operations -/

/-- `strncpy` into an uninitialised `char name[32]`, terminated. -/
def nameOf (text : List UInt8) : CharArray 32 :=
  ((CharArray.zero 32).strncpy text 31).set 31 0

/-- The head of `add_record`. On an empty list `list_first_entry` yields a pointer to no
record, which is a fault in the memory below; the branch is never entered there. -/
def evictOldest (s : ListDemo K) : ListDemo K :=
  if s.recordCount ≥ MAX_RECORDS then
    match s.recordList with
    | [] => { s with recordCount := s.recordCount - 1 }
    | _ :: rest => { s with recordList := rest, recordCount := s.recordCount - 1 }
  else s

/-- The tail of `add_record`, with the record allocated. -/
def linkRecord (name : List UInt8) (jiffies : ULong K) (s : ListDemo K) : ListDemo K :=
  { recordList := s.recordList ++ [⟨s.nextId, nameOf name, jiffies⟩]
    recordCount := s.recordCount + 1
    nextId := s.nextId + 1 }

/-- `add_record` after the eviction. The allocation may fail. -/
def insertRecord (name : List UInt8) (jiffies : ULong K) (alloc : Bool) (s : ListDemo K) :
    ListDemo K :=
  if !alloc then s else linkRecord name jiffies s

/-- `add_record`. -/
def addRecord (name : List UInt8) (jiffies : ULong K) (alloc : Bool) (s : ListDemo K) :
    ListDemo K :=
  insertRecord name jiffies alloc (evictOldest s)

/-- `remove_record_by_id`: the first record with the id goes. -/
def removeRecordById (id : CInt) (s : ListDemo K) : ListDemo K :=
  if s.recordList.any (·.id = id) then
    { s with
      recordList := s.recordList.eraseP (·.id = id)
      recordCount := s.recordCount - 1 }
  else s

/-- `clear_all_records`. -/
def clearAllRecords (s : ListDemo K) : ListDemo K :=
  { s with recordList := [], recordCount := 0 }

/-- The state `kernel_list_init` leaves behind. Its two additions allocate too. -/
def ListDemo.load (jiffies₁ jiffies₂ : ULong K) (alloc₁ alloc₂ : Bool) : ListDemo K :=
  addRecord (ascii "demo_entry".toList) jiffies₂ alloc₂
    (addRecord (ascii "initial_record".toList) jiffies₁ alloc₁ (.empty K))

/-! ### `/proc/kernel_list_demo` -/

inductive Command
  | add (name : List UInt8)
  | del (id : CInt)
  | clear
  deriving DecidableEq

/-- The chain of comparisons in `kernel_list_write`. A `del` without a number is
no command. -/
def listCommand (cmd : List UInt8) : Option Command :=
  if strncmp cmd (ascii "add ".toList) 4 = 0 then some (.add (nameOf (cmd.drop 4)).bytes)
  else if strncmp cmd (ascii "del ".toList) 4 = 0 then (scanInt (cmd.drop 4)).map .del
  else if strcmp cmd (ascii "clear".toList) = 0 then some .clear
  else none

/-- The command that a write carries, if the write is accepted and its text is
one. -/
def writtenCommand (w : UserWrite) : Option Command :=
  match w.copy 64 with
  | .error _ => none
  | .ok cmd => listCommand (stripNewline cmd)

def runCommand (jiffies : ULong K) (alloc : Bool) (s : ListDemo K) : Command → ListDemo K
  | .add name => addRecord name jiffies alloc s
  | .del id => removeRecordById id s
  | .clear => clearAllRecords s

/-- `kernel_list_write`. -/
def kernelListWrite (w : UserWrite) (jiffies : ULong K) (alloc : Bool) (s : ListDemo K) :
    ListDemo K × Except Errno ℕ :=
  match w.copy 64 with
  | .error e => (s, .error e)
  | .ok cmd =>
      (match listCommand (stripNewline cmd) with
        | none => s
        | some c => runCommand jiffies alloc s c,
        .ok w.bytes.length)

/-- One call of `kernel_list_write`, with what the kernel gives it. -/
structure Op (K : Kernel) where
  write : UserWrite
  jiffies : ULong K
  alloc : Bool

def ListDemo.exec (s : ListDemo K) (op : Op K) : ListDemo K :=
  (kernelListWrite op.write op.jiffies op.alloc s).1

theorem ListDemo.exec_eq (s : ListDemo K) (op : Op K) :
    s.exec op =
      match writtenCommand op.write with
      | none => s
      | some c => runCommand op.jiffies op.alloc s c := by
  unfold exec kernelListWrite writtenCommand
  cases op.write.copy 64 <;> rfl

theorem removeRecordById_of_none {id : CInt} {s : ListDemo K}
    (hnone : ∀ r ∈ s.recordList, r.id ≠ id) : removeRecordById id s = s := by
  apply if_neg
  simpa using hnone

theorem recordCount_removeRecordById {id : CInt} {s : ListDemo K} {r : DemoRecord K}
    (hr : r ∈ s.recordList) (hid : r.id = id) :
    (removeRecordById id s).recordCount = s.recordCount - 1 := by
  have hany : s.recordList.any (·.id = id) = true :=
    List.any_eq_true.mpr ⟨r, hr, decide_eq_true hid⟩
  rw [removeRecordById, if_pos hany]

/-- What a removal takes out of the list is a record with the id. -/
theorem mem_of_count_removeRecordById_lt {id : CInt} {s : ListDemo K} {r : DemoRecord K}
    (h : (removeRecordById id s).recordList.count r < s.recordList.count r) :
    r ∈ s.recordList ∧ r.id = id := by
  refine ⟨List.count_pos_iff.mp (Nat.zero_lt_of_lt h), ?_⟩
  unfold removeRecordById at h
  split at h
  · rename_i hany
    obtain ⟨other, hother, hid⟩ := List.any_eq_true.mp hany
    obtain ⟨first, before, after, -, hfirst, hlist, herase⟩ :=
      List.exists_of_eraseP (p := (·.id = id)) hother hid
    dsimp only at h
    rw [herase, hlist, List.count_append, List.count_append, List.count_cons] at h
    have hsame : first = r := by
      by_contra hne
      rw [if_neg (by simpa using hne)] at h
      omega
    rw [← hsame]
    exact of_decide_eq_true hfirst
  · exact absurd h (lt_irrefl _)

/-! ### The count is the length -/

/-- `record_count` counts the list, and the list is not over its capacity. -/
def ListDemo.Sized (s : ListDemo K) : Prop :=
  s.recordCount = s.recordList.length ∧ s.recordCount ≤ MAX_RECORDS

instance (s : ListDemo K) : Decidable s.Sized :=
  inferInstanceAs (Decidable (s.recordCount = s.recordList.length ∧ s.recordCount ≤ MAX_RECORDS))

theorem sized_empty (K : Kernel) : (ListDemo.empty K).Sized := by
  simp [ListDemo.Sized, ListDemo.empty]

namespace ListDemo.Sized

variable {s : ListDemo K}

/-- The eviction makes room, and it is entered with a record to evict. -/
theorem evictOldest_cases (h : s.Sized) :
    (s.recordCount < MAX_RECORDS ∧ evictOldest s = s) ∨
      ∃ oldest rest, s.recordList = oldest :: rest ∧ rest.length + 1 = MAX_RECORDS ∧
        evictOldest s =
          { s with recordList := rest, recordCount := s.recordCount - 1 } := by
  obtain ⟨hcount, hmax⟩ := h
  unfold evictOldest
  by_cases hfull : s.recordCount ≥ MAX_RECORDS
  · right
    cases hlist : s.recordList with
    | nil => simp [hcount, hlist] at hfull
    | cons oldest rest =>
        refine ⟨oldest, rest, rfl, ?_, by rw [if_pos hfull]⟩
        rw [hlist, List.length_cons] at hcount
        omega
  · exact .inl ⟨not_le.mp hfull, if_neg hfull⟩

theorem evictOldest (h : s.Sized) :
    (KernelList.evictOldest s).Sized ∧ (KernelList.evictOldest s).recordCount < MAX_RECORDS := by
  rcases h.evictOldest_cases with ⟨hlt, hs⟩ | ⟨oldest, rest, hlist, hlen, hs⟩
  · rw [hs]
    exact ⟨h, hlt⟩
  · have hcount := h.1
    rw [hlist, List.length_cons] at hcount
    rw [hs, Sized]
    show (_ ∧ _) ∧ _
    refine ⟨⟨?_, ?_⟩, ?_⟩ <;> simp only <;> omega

theorem linkRecord (h : s.Sized) (hroom : s.recordCount < MAX_RECORDS) (name : List UInt8)
    (jiffies : ULong K) : (KernelList.linkRecord name jiffies s).Sized := by
  refine ⟨?_, ?_⟩
  · show s.recordCount + 1 = ((s.recordList ++ [_]).length : ℕ)
    rw [List.length_append, h.1]
    rfl
  · show s.recordCount + 1 ≤ _
    omega

theorem removeRecordById (h : s.Sized) (id : CInt) :
    (KernelList.removeRecordById id s).Sized ∧
      (KernelList.removeRecordById id s).recordCount ≤ s.recordCount := by
  obtain ⟨hcount, hmax⟩ := h
  unfold KernelList.removeRecordById
  split
  · rename_i hany
    obtain ⟨r, hr, hid⟩ := List.any_eq_true.mp hany
    have hpos := List.length_pos_of_mem hr
    have hlen : (s.recordList.eraseP (·.id = id)).length = s.recordList.length - 1 :=
      List.length_eraseP_of_mem hr hid
    refine ⟨⟨?_, ?_⟩, ?_⟩
    · show s.recordCount - 1 = ((s.recordList.eraseP _).length : ℕ)
      rw [hlen]
      omega
    · show s.recordCount - 1 ≤ _
      omega
    · show s.recordCount - 1 ≤ _
      omega
  · exact ⟨⟨hcount, hmax⟩, le_rfl⟩

theorem clearAllRecords (s : ListDemo K) : (KernelList.clearAllRecords s).Sized := by
  simp [Sized, KernelList.clearAllRecords]

end ListDemo.Sized

end KernelModules.KernelList
