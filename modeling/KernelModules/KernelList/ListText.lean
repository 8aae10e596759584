import KernelModules.KernelList.Commands
import KernelModules.Lib.Answers
import KernelModules.Texts

/-!
The text of `/proc/kernel_list_demo`.

A name comes from the user and may contain anything, blanks and ends of lines too, and it
may be longer than its column. It is still too short to end a row: a row ends behind a
column of 20 characters and one of 12, and a name has at most 32. So the text shows which
records are in the list, except for the blanks that fill up a name.
-/

namespace KernelModules.KernelList

open Lib
open CompleteMonitor (line)

variable {K : Kernel}

/-! ### `kernel_list_show` -/

def DemoRecord.text (record : DemoRecord K) : List UInt8 :=
  cell 4 (printInt record.id) ++
    (cell 20 record.name.str ++ lastCell 12 (printULong record.timestamp))

def usage : List UInt8 :=
  ascii "\n=== Usage ===\n".toList ++
  ascii "Add record: echo 'add <name>' > /proc/kernel_list_demo\n".toList ++
  ascii "Remove record: echo 'del <id>' > /proc/kernel_list_demo\n".toList ++
  ascii "Clear all: echo 'clear' > /proc/kernel_list_demo\n".toList

def listedRecords (s : ListDemo K) : List UInt8 :=
  if s.recordList.isEmpty then ascii "No records found.\n".toList
  else s.recordList.flatMap DemoRecord.text

/-- `kernel_list_show` with nothing in between. -/
def kernelListShow (s : ListDemo K) : List UInt8 :=
  List.flatten
    [ascii "=== Kernel List Management Demo ===\n".toList,
      line "Total Records: " (printInt (.ofInt 32 s.recordCount)) "/20\n",
      line "Next ID: " (printInt s.nextId) "\n",
      ascii "\n=== Record List ===\n".toList,
      cell 4 (ascii "ID".toList) ++
        (cell 20 (ascii "NAME".toList) ++ lastCell 12 (ascii "TIMESTAMP".toList)),
      List.replicate 40 45 ++ [10],
      listedRecords s,
      usage]

/-! ### Reading the text -/

/-- What a row shows: the name only with the blanks that fill its column. -/
def DemoRecord.shown (record : DemoRecord K) : CInt × List UInt8 × ULong K :=
  (record.id, column 20 record.name.str, record.timestamp)

/-- **A row** shows that much, whatever the name is. -/
theorem tells_text : Tells (DemoRecord.text (K := K)) DemoRecord.shown := by
  have hid := (Tells.intCell 4).comp (DemoRecord.id (K := K))
  have hname : ∀ record : DemoRecord K, record.name.str.length ≤ 20 + 12 := fun record =>
    length_str_le record.name
  have hwide := Tells.wideCell hname (fun record => decimal_ne_nil record.timestamp.toNat)
    (fun record => notMem_decimal rfl record.timestamp.toNat)
    (fun record => notMem_decimal rfl record.timestamp.toNat)
  refine (hid.append hwide).map fun record record' h => ?_
  obtain ⟨hid, hwide⟩ := Prod.mk.inj h
  obtain ⟨hname, htimestamp⟩ := Prod.mk.inj hwide
  exact Prod.ext hid (Prod.ext hname (printULong_injective htimestamp))

/-- The text of a row depends on no more. -/
theorem DemoRecord.text_eq_of_shown {record record' : DemoRecord K}
    (h : record.shown = record'.shown) : record.text = record'.text := by
  obtain ⟨hid, hrest⟩ := Prod.mk.inj h
  obtain ⟨hname, htimestamp⟩ := Prod.mk.inj hrest
  simp only [text, cell, hid, hname, htimestamp]

theorem usage_starts : ∀ c ∈ usage.head?, ¬ StartsNumber c :=
  not_startsNumber_of_head (d := 10) rfl (by decide)

/-- The text does not tell the states apart. -/
structure ShownAlike (s s' : ListDemo K) : Prop where
  nextId : s.nextId = s'.nextId
  records : s.recordList.map DemoRecord.shown = s'.recordList.map DemoRecord.shown

theorem listedRecords_inj {s s' : ListDemo K} (hlength : s.recordList.length = s'.recordList.length)
    (h : listedRecords s ++ usage = listedRecords s' ++ usage) :
    s.recordList.map DemoRecord.shown = s'.recordList.map DemoRecord.shown := by
  have hempty := isEmpty_eq_of_length_eq hlength
  rw [listedRecords, listedRecords, hempty] at h
  split at h
  · rename_i hnil
    rw [List.isEmpty_iff.mp hnil, List.isEmpty_iff.mp (hempty.trans hnil)]
  · exact (tells_text.rows StartsNumber (fun record : DemoRecord K => intCell_starts 4 record.id _)
      usage_starts usage_starts h).1

theorem listedRecords_eq_of_shown {s s' : ListDemo K}
    (h : s.recordList.map DemoRecord.shown = s'.recordList.map DemoRecord.shown) :
    listedRecords s = listedRecords s' := by
  have hlength : s.recordList.length = s'.recordList.length := by
    simpa using congrArg List.length h
  rw [listedRecords, listedRecords, isEmpty_eq_of_length_eq hlength,
    flatMap_eq_of_map_eq (fun _ _ => DemoRecord.text_eq_of_shown) h]

theorem ListDemo.Sized.fitsInt {s : ListDemo K} (h : s.Sized) : FitsInt s.recordCount := by
  obtain ⟨hcount, hmax⟩ := h
  have hmax' : s.recordCount ≤ 20 := hmax
  unfold FitsInt
  omega

theorem kernelListShow_eq_iff {s s' : ListDemo K} (h : s.Sized) (h' : s'.Sized) :
    kernelListShow s = kernelListShow s' ↔ ShownAlike s s' := by
  simp only [kernelListShow, List.flatten_cons, List.flatten_nil, List.append_nil]
  constructor
  · intro htext
    obtain ⟨hcount, htext⟩ :=
      line_printInt_inj (c := 47) rfl (by decide) (List.append_cancel_left htext)
    obtain ⟨hnext, htext⟩ := line_printInt_inj (c := 10) rfl (by decide) htext
    have hrest := List.append_cancel_left
      (List.append_cancel_left (List.append_cancel_left htext))
    have hlength : (s.recordList.length : ℤ) = s'.recordList.length := by
      rw [← h.1, ← h'.1]
      exact eq_of_ofInt_eq h.fitsInt h'.fitsInt hcount
    exact ⟨hnext, listedRecords_inj (Int.ofNat_inj.mp hlength) hrest⟩
  · rintro ⟨hnext, hrecords⟩
    have hcount : s.recordCount = s'.recordCount := by
      rw [h.1, h'.1, ← List.length_map DemoRecord.shown, hrecords, List.length_map]
    rw [hcount, hnext, listedRecords_eq_of_shown hrecords]

/-- **What the file tells.** After any writes, two texts are the same exactly when the next
id is, and the records, in their order, have the same ids, times and padded names. -/
theorem shown_alike_iff (jiffies₁ jiffies₂ jiffies₁' jiffies₂' : ULong K)
    (alloc₁ alloc₂ alloc₁' alloc₂' : Bool) (ops ops' : List (Op K)) :
    kernelListShow (run ListDemo.exec (.load jiffies₁ jiffies₂ alloc₁ alloc₂) ops) =
        kernelListShow (run ListDemo.exec (.load jiffies₁' jiffies₂' alloc₁' alloc₂') ops') ↔
      ShownAlike (run ListDemo.exec (.load jiffies₁ jiffies₂ alloc₁ alloc₂) ops)
        (run ListDemo.exec (.load jiffies₁' jiffies₂' alloc₁' alloc₂') ops') :=
  kernelListShow_eq_iff (sized_run ..) (sized_run ..)

/-! ### The file as a machine -/

inductive FileCall (K : Kernel)
  | read
  | write (op : Op K)

def ListDemo.serve (s : ListDemo K) : FileCall K → ListDemo K × Answer
  | .read => (s, .text (kernelListShow s))
  | .write op => (s.exec op, .result (kernelListWrite op.write op.jiffies op.alloc s).2)

/-- Two states with full counts that show the same. -/
structure Alike (s s' : ListDemo K) : Prop where
  sized : s.Sized
  sized' : s'.Sized
  shown : ShownAlike s s'

namespace Alike

variable {s s' : ListDemo K}

theorem recordCount (h : Alike s s') : s.recordCount = s'.recordCount := by
  rw [h.sized.1, h.sized'.1, ← List.length_map DemoRecord.shown, h.shown.records, List.length_map]

theorem evictOldest (h : Alike s s') :
    ShownAlike (KernelList.evictOldest s) (KernelList.evictOldest s') := by
  have hcount := h.recordCount
  have hrecords := h.shown.records
  rcases h.sized.evictOldest_cases with ⟨hroom, hs⟩ | ⟨oldest, rest, hlist, hfull, hs⟩
  · rcases h.sized'.evictOldest_cases with ⟨-, hs'⟩ | ⟨_, rest', hlist', hfull', -⟩
    · rw [hs, hs']
      exact h.shown
    · have hlength := h.sized'.1
      rw [hlist', List.length_cons] at hlength
      omega
  · rcases h.sized'.evictOldest_cases with ⟨hroom', -⟩ | ⟨oldest', rest', hlist', -, hs'⟩
    · have hlength := h.sized.1
      rw [hlist, List.length_cons] at hlength
      omega
    · rw [hs, hs']
      rw [hlist, hlist', List.map_cons, List.map_cons] at hrecords
      exact ⟨h.shown.nextId, List.tail_eq_of_cons_eq hrecords⟩

theorem addRecord (h : Alike s s') (name : List UInt8) (jiffies : ULong K) (alloc : Bool) :
    ShownAlike (KernelList.addRecord name jiffies alloc s)
      (KernelList.addRecord name jiffies alloc s') := by
  obtain ⟨hnext, hrecords⟩ := h.evictOldest
  cases alloc with
  | false => exact ⟨hnext, hrecords⟩
  | true =>
      refine ⟨congrArg (· + 1) hnext, ?_⟩
      show ((KernelList.evictOldest s).recordList ++ [_]).map DemoRecord.shown =
        ((KernelList.evictOldest s').recordList ++ [_]).map DemoRecord.shown
      rw [List.map_append, List.map_append, hrecords, hnext]

/-- An id is found and removed by what is shown. -/
theorem removeRecordById (h : ShownAlike s s') (id : CInt) :
    ShownAlike (KernelList.removeRecordById id s) (KernelList.removeRecordById id s') := by
  have hany : ∀ t : ListDemo K, t.recordList.any (·.id = id) =
      (t.recordList.map DemoRecord.shown).any (·.1 = id) := fun t => by
    rw [List.any_map]
    rfl
  have herase : ∀ t : ListDemo K, (t.recordList.eraseP (·.id = id)).map DemoRecord.shown =
      (t.recordList.map DemoRecord.shown).eraseP (·.1 = id) := fun t => by
    rw [List.eraseP_map]
    rfl
  rw [KernelList.removeRecordById, KernelList.removeRecordById, hany, hany, h.records]
  split
  · refine ⟨h.nextId, ?_⟩
    show (s.recordList.eraseP (·.id = id)).map DemoRecord.shown =
      (s'.recordList.eraseP (·.id = id)).map DemoRecord.shown
    rw [herase, herase, h.records]
  · exact h

theorem exec (h : Alike s s') (op : Op K) : Alike (s.exec op) (s'.exec op) := by
  refine ⟨h.sized.exec op, h.sized'.exec op, ?_⟩
  rw [ListDemo.exec_eq, ListDemo.exec_eq]
  cases writtenCommand op.write with
  | none => exact h.shown
  | some c =>
      cases c with
      | add name => exact h.addRecord name op.jiffies op.alloc
      | del id => exact removeRecordById h.shown id
      | clear => exact ⟨h.shown.nextId, rfl⟩

end Alike

theorem unseen_alike : Unseen (ListDemo.serve (K := K)) Alike where
  answer := fun {s s'} h i => by
    cases i with
    | read => exact congrArg Answer.text ((kernelListShow_eq_iff h.sized h.sized').mpr h.shown)
    | write op =>
        show Answer.result (kernelListWrite op.write op.jiffies op.alloc s).2 =
          .result (kernelListWrite op.write op.jiffies op.alloc s').2
        rw [kernelListWrite, kernelListWrite]
        cases op.write.copy 64 <;> rfl
  next := fun {s s'} h i => by
    cases i with
    | read => exact h
    | write op => exact h.exec op

/-- **The file tells all.** Whatever was written before, two states have the same text
exactly when no reads and writes, in any order and with any allocations failing, can tell
them apart. -/
theorem list_text_tells_all (jiffies₁ jiffies₂ jiffies₁' jiffies₂' : ULong K)
    (alloc₁ alloc₂ alloc₁' alloc₂' : Bool) (ops ops' : List (Op K)) :
    kernelListShow (run ListDemo.exec (.load jiffies₁ jiffies₂ alloc₁ alloc₂) ops) =
        kernelListShow (run ListDemo.exec (.load jiffies₁' jiffies₂' alloc₁' alloc₂') ops') ↔
      ∀ calls, answers ListDemo.serve
          (run ListDemo.exec (.load jiffies₁ jiffies₂ alloc₁ alloc₂) ops) calls =
        answers ListDemo.serve
          (run ListDemo.exec (.load jiffies₁' jiffies₂' alloc₁' alloc₂') ops') calls := by
  have hsized := sized_run jiffies₁ jiffies₂ alloc₁ alloc₂ ops
  have hsized' := sized_run jiffies₁' jiffies₂' alloc₁' alloc₂' ops'
  generalize run ListDemo.exec (ListDemo.load jiffies₁ jiffies₂ alloc₁ alloc₂) ops = s at *
  generalize run ListDemo.exec (ListDemo.load jiffies₁' jiffies₂' alloc₁' alloc₂') ops' = s' at *
  have htext : kernelListShow s = kernelListShow s' ↔ (s.serve .read).2 = (s'.serve .read).2 :=
    ⟨congrArg Answer.text, Answer.text.inj⟩
  rw [htext]
  exact unseen_alike.answer_eq_iff fun h =>
    ⟨hsized, hsized', (kernelListShow_eq_iff hsized hsized').mp (Answer.text.inj h)⟩

end KernelModules.KernelList
