import KernelModules.KernelList.Store
import KernelModules.Lib.History
import KernelModules.Lib.Run

/-!
The record list as the log of its additions.

`Log` forgets nothing: it holds every record added since the module was loaded
and marks those deleted, cleared or evicted since. The list holds what is not
marked, and the identifier of a record is its number in the log. Deleting by
identifier relies on that: the numbers increase along the list, so the first
record with an identifier is the only one.
-/

namespace KernelModules.KernelList

open Lib

variable {K : Kernel}

abbrev Log (K : Kernel) := History (DemoRecord K)

/-- Whether a call adds a record. -/
def Op.adds (op : Op K) : Bool :=
  match writtenCommand op.write with
  | some (.add _) => op.alloc
  | _ => false

namespace Log

/-- A full list loses its oldest record. -/
def makeRoom (l : Log K) : Log K :=
  if MAX_RECORDS ≤ l.present.length then l.dropOldest else l

/-- The record that an addition logs, numbered by its place in the log. -/
def append (name : List UInt8) (jiffies : ULong K) (l : Log K) : Log K :=
  History.add ⟨BitVec.ofNat 32 (l.length + 1), nameOf name, jiffies⟩ l

/-- An addition. Room is made whether or not there is memory for the record. -/
def add (name : List UInt8) (jiffies : ULong K) (alloc : Bool) (l : Log K) : Log K :=
  if !alloc then l.makeRoom else l.makeRoom.append name jiffies

def command (jiffies : ULong K) (alloc : Bool) (l : Log K) : Command → Log K
  | .add name => add name jiffies alloc l
  | .del id => l.dropWhere fun r => r.id = id
  | .clear => l.dropWhere fun _ => true

def exec (l : Log K) (op : Op K) : Log K :=
  match writtenCommand op.write with
  | none => l
  | some c => l.command op.jiffies op.alloc c

/-- The additions of `kernel_list_init`. -/
def load (jiffies₁ jiffies₂ : ULong K) (alloc₁ alloc₂ : Bool) : Log K :=
  add (ascii "demo_entry".toList) jiffies₂ alloc₂
    (add (ascii "initial_record".toList) jiffies₁ alloc₁ [])

@[simp] theorem items_makeRoom (l : Log K) : l.makeRoom.items = l.items := by
  unfold makeRoom
  split
  · exact l.items_dropOldest
  · rfl

@[simp] theorem length_makeRoom (l : Log K) : l.makeRoom.length = l.length := by
  rw [← l.makeRoom.length_items, items_makeRoom, l.length_items]

@[simp] theorem length_append (name : List UInt8) (jiffies : ULong K) (l : Log K) :
    (l.append name jiffies).length = l.length + 1 :=
  History.length_add ..

theorem length_add (name : List UInt8) (jiffies : ULong K) (alloc : Bool) (l : Log K) :
    (add name jiffies alloc l).length = l.length + alloc.toNat := by
  unfold add
  cases alloc with
  | false => exact l.length_makeRoom
  | true =>
      show (l.makeRoom.append name jiffies).length = _
      rw [length_append, length_makeRoom]
      rfl

/-- The log grows by the successful additions. -/
theorem length_exec (l : Log K) (op : Op K) :
    (exec l op).length = l.length + op.adds.toNat := by
  unfold exec Op.adds
  cases hcmd : writtenCommand op.write with
  | none => simp
  | some c =>
      cases c with
      | add name => exact length_add ..
      | del id => simp [command]
      | clear => simp [command]

theorem length_run_exec (l : Log K) (ops : List (Op K)) :
    (run exec l ops).length = l.length + ops.countP Op.adds := by
  induction ops generalizing l with
  | nil => rfl
  | cons op ops ih =>
      rw [run_cons, ih, length_exec, List.countP_cons]
      cases op.adds
      · simp
      · simp only [Bool.toNat_true, if_true]
        omega

/-! ### The numbers of the records -/

/-- Records are numbered from 1 in the order of their addition. -/
def Numbered (l : Log K) : Prop :=
  l.items.map DemoRecord.id = (List.range l.length).map fun i => BitVec.ofNat 32 (i + 1)

theorem Numbered.makeRoom {l : Log K} (h : Numbered l) : Numbered l.makeRoom := by
  rw [Numbered, items_makeRoom, length_makeRoom, h]

theorem Numbered.append {l : Log K} (h : Numbered l) (name : List UInt8) (jiffies : ULong K) :
    Numbered (l.append name jiffies) := by
  rw [Numbered, length_append, List.range_succ, List.map_append, ← h, Log.append,
    History.items_add, List.map_append]
  rfl

theorem Numbered.dropWhere {l : Log K} (h : Numbered l) (p : DemoRecord K → Bool) :
    Numbered (l.dropWhere p) := by
  rw [Numbered, History.items_dropWhere, History.length_dropWhere, h]

theorem toInt_ofNat_of_lt {n : ℕ} (h : n < 2 ^ 31) : (BitVec.ofNat 32 n).toInt = n := by
  rw [BitVec.toInt_eq_toNat_of_lt (by rw [BitVec.toNat_ofNat]; omega), BitVec.toNat_ofNat]
  omega

/-- Below `2 ^ 31 - 1` additions the numbers are `int`s in increasing order. -/
theorem Numbered.pairwise {l : Log K} (h : Numbered l) (hlen : l.length < 2 ^ 31 - 1) :
    l.present.Pairwise fun r r' => r.id.toInt < r'.id.toInt := by
  have hall : (l.items.map DemoRecord.id).Pairwise fun i j => i.toInt < j.toInt := by
    rw [h, List.pairwise_map]
    refine (List.pairwise_lt_range (n := l.length)).imp_of_mem ?_
    intro i j hi hj hij
    have hj' := List.mem_range.mp hj
    rw [toInt_ofNat_of_lt (by omega), toInt_ofNat_of_lt (by omega)]
    omega
  exact (List.pairwise_map.mp hall).sublist l.present_sublist_items

theorem Numbered.bounds {l : Log K} (h : Numbered l) (hlen : l.length < 2 ^ 31 - 1)
    {r : DemoRecord K} (hr : r ∈ l.present) : 1 ≤ r.id.toInt ∧ r.id.toInt ≤ l.length := by
  have hid : r.id ∈ l.items.map DemoRecord.id :=
    List.mem_map_of_mem (l.present_sublist_items.subset hr)
  rw [h] at hid
  obtain ⟨i, hi, heq⟩ := List.mem_map.mp hid
  have hi' := List.mem_range.mp hi
  rw [← heq, toInt_ofNat_of_lt (by omega)]
  omega

/-- One record at most has a given number. -/
theorem Numbered.unique {l : Log K} (h : Numbered l) (hlen : l.length < 2 ^ 31 - 1) (id : CInt) :
    l.present.Pairwise fun r r' => decide (r.id = id) = true → decide (r'.id = id) = false := by
  apply (h.pairwise hlen).imp
  intro r r' hlt hr
  rw [decide_eq_true_eq] at hr
  rw [decide_eq_false_iff_not]
  intro hr'
  rw [hr, hr'] at hlt
  exact lt_irrefl _ hlt

end Log

/-! ### The list holds what the log does not mark -/

structure Logged (s : ListDemo K) (l : Log K) : Prop where
  list : s.recordList = l.present
  sized : s.Sized
  next : s.nextId = BitVec.ofNat 32 (l.length + 1)
  numbered : l.Numbered

theorem logged_empty (K : Kernel) : Logged (ListDemo.empty K) [] :=
  ⟨rfl, sized_empty K, rfl, rfl⟩

namespace Logged

variable {s : ListDemo K} {l : Log K}

/-- Both sides see the same full list and drop the same record. -/
theorem evictOldest (h : Logged s l) : Logged (KernelList.evictOldest s) l.makeRoom := by
  have hsized := h.sized.evictOldest.1
  have hcount := h.sized.1
  rw [h.list] at hcount
  refine ⟨?_, hsized, ?_, h.numbered.makeRoom⟩
  · rw [Log.makeRoom]
    rcases h.sized.evictOldest_cases with ⟨hlt, hs⟩ | ⟨oldest, rest, hlist, hlen, hs⟩
    · rw [hs, if_neg (by omega), h.list]
    · have hpresent : l.present = oldest :: rest := by rw [← h.list, hlist]
      rw [hs, if_pos (by rw [hpresent, List.length_cons]; omega), History.present_dropOldest,
        hpresent]
      rfl
  · rw [Log.length_makeRoom, ← h.next]
    rcases h.sized.evictOldest_cases with ⟨-, hs⟩ | ⟨oldest, rest, -, -, hs⟩ <;> rw [hs]

theorem linkRecord (h : Logged s l) (hroom : s.recordCount < MAX_RECORDS) (name : List UInt8)
    (jiffies : ULong K) :
    Logged (KernelList.linkRecord name jiffies s) (l.append name jiffies) := by
  refine ⟨?_, h.sized.linkRecord hroom name jiffies, ?_, h.numbered.append name jiffies⟩
  · rw [KernelList.linkRecord, Log.append, History.present_add, h.list, h.next]
  · show s.nextId + 1 = _
    rw [Log.length_append, h.next, BitVec.ofNat_add (l.length + 1)]
    rfl

theorem addRecord (h : Logged s l) (name : List UInt8) (jiffies : ULong K) (alloc : Bool) :
    Logged (KernelList.addRecord name jiffies alloc s) (l.add name jiffies alloc) := by
  cases alloc with
  | false => exact h.evictOldest
  | true => exact h.evictOldest.linkRecord h.sized.evictOldest.2 name jiffies

/-- Deleting the first record with a number deletes every record with it. -/
theorem removeRecordById_recordList (h : Logged s l) (hlen : l.length < 2 ^ 31 - 1) (id : CInt) :
    (KernelList.removeRecordById id s).recordList = s.recordList.filter fun r => !(r.id = id) := by
  have hunique := h.numbered.unique hlen id
  rw [← h.list] at hunique
  unfold KernelList.removeRecordById
  split
  · exact eraseP_eq_filter hunique
  · rename_i hnone
    symm
    apply List.filter_eq_self.mpr
    intro r hr
    simpa using fun hid => hnone (List.any_eq_true.mpr ⟨r, hr, by simpa using hid⟩)

theorem removeRecordById (h : Logged s l) (hlen : l.length < 2 ^ 31 - 1) (id : CInt) :
    Logged (KernelList.removeRecordById id s) (l.dropWhere fun r => r.id = id) := by
  have hlist := h.removeRecordById_recordList hlen id
  refine ⟨by rw [hlist, h.list, History.present_dropWhere], (h.sized.removeRecordById id).1, ?_,
    h.numbered.dropWhere _⟩
  rw [History.length_dropWhere, ← h.next]
  unfold KernelList.removeRecordById
  split <;> rfl

theorem clearAllRecords (h : Logged s l) :
    Logged (KernelList.clearAllRecords s) (l.dropWhere fun _ => true) :=
  ⟨by simp [KernelList.clearAllRecords], ListDemo.Sized.clearAllRecords s,
    by rw [History.length_dropWhere]; exact h.next, h.numbered.dropWhere _⟩

/-- **One call.** -/
theorem exec (h : Logged s l) (hlen : l.length < 2 ^ 31 - 1) (op : Op K) :
    Logged (s.exec op) (l.exec op) := by
  rw [ListDemo.exec_eq, Log.exec]
  cases writtenCommand op.write with
  | none => exact h
  | some c =>
      cases c with
      | add name => exact h.addRecord name op.jiffies op.alloc
      | del id => exact h.removeRecordById hlen id
      | clear => exact h.clearAllRecords

end Logged

theorem logged_load (jiffies₁ jiffies₂ : ULong K) (alloc₁ alloc₂ : Bool) :
    Logged (ListDemo.load jiffies₁ jiffies₂ alloc₁ alloc₂)
      (Log.load jiffies₁ jiffies₂ alloc₁ alloc₂) :=
  ((logged_empty K).addRecord _ jiffies₁ alloc₁).addRecord _ jiffies₂ alloc₂

theorem Log.length_load (jiffies₁ jiffies₂ : ULong K) (alloc₁ alloc₂ : Bool) :
    (Log.load jiffies₁ jiffies₂ alloc₁ alloc₂).length = alloc₁.toNat + alloc₂.toNat := by
  rw [Log.load, length_add, length_add, List.length_nil, Nat.zero_add]

/-- Every run with fewer than `2 ^ 31 - 1` additions is logged. -/
theorem logged_run {s : ListDemo K} {l : Log K} (h : Logged s l) (ops : List (Op K))
    (hadds : l.length + ops.countP Op.adds < 2 ^ 31 - 1) :
    Logged (run ListDemo.exec s ops) (run Log.exec l ops) := by
  induction ops generalizing s l with
  | nil => exact h
  | cons op ops ih =>
      have hlen := Log.length_exec l op
      rw [List.countP_cons] at hadds
      apply ih (h.exec (by omega) op)
      rw [hlen]
      cases hop : op.adds <;> rw [hop] at hadds
      · simpa using hadds
      · simp only [Bool.toNat_true, if_true] at hadds ⊢
        omega

/-- What a reader of the module may rely on between two commands, against the log
of the additions. -/
structure Ordered (s : ListDemo K) (l : Log K) : Prop where
  count : s.recordCount = s.recordList.length
  bounded : s.recordCount ≤ MAX_RECORDS
  ascending : s.recordList.Pairwise fun r r' => r.id.toInt < r'.id.toInt
  inRange : ∀ r ∈ s.recordList, 1 ≤ r.id.toInt ∧ r.id.toInt < s.nextId.toInt
  evicts : s.recordCount ≥ MAX_RECORDS →
    ∃ oldest rest, s.recordList = oldest :: rest ∧ (evictOldest s).recordList = rest ∧
      ∀ r ∈ rest, oldest.id.toInt < r.id.toInt
  deletes : ∀ (op : Op K) (id : CInt), writtenCommand op.write = some (.del id) →
    (s.exec op).recordList = s.recordList.filter (fun r => !(r.id = id)) ∧
      ((∀ r ∈ s.recordList, r.id ≠ id) → s.exec op = s)
  logged : s.recordList = l.present

theorem Logged.ordered {s : ListDemo K} {l : Log K} (h : Logged s l)
    (hlen : l.length < 2 ^ 31 - 1) : Ordered s l := by
  have hascending := h.numbered.pairwise hlen
  rw [← h.list] at hascending
  refine ⟨h.sized.1, h.sized.2, hascending, ?_, ?_, ?_, h.list⟩
  · intro r hr
    have hbounds := h.numbered.bounds hlen (h.list ▸ hr)
    rw [h.next, Log.toInt_ofNat_of_lt (by omega)]
    omega
  · intro hfull
    rcases h.sized.evictOldest_cases with ⟨hlt, -⟩ | ⟨oldest, rest, hlist, -, hs⟩
    · exact absurd hfull (not_le.mpr hlt)
    · rw [hlist] at hascending
      exact ⟨oldest, rest, hlist, by rw [hs], (List.pairwise_cons.mp hascending).1⟩
  · intro op id hcmd
    have hexec : s.exec op = KernelList.removeRecordById id s := by
      rw [ListDemo.exec_eq, hcmd]
      rfl
    rw [hexec]
    exact ⟨h.removeRecordById_recordList hlen id, removeRecordById_of_none⟩

/-- **The list invariant.** After every run of commands, with memory or without,
the list holds what was added and has not left, counted and in increasing order
of identifiers; an eviction takes the smallest one and a deletion the one named. -/
theorem ordered_run (jiffies₁ jiffies₂ : ULong K) (alloc₁ alloc₂ : Bool) (ops : List (Op K))
    (hadds : alloc₁.toNat + alloc₂.toNat + ops.countP Op.adds < 2 ^ 31 - 1) :
    Ordered (run ListDemo.exec (.load jiffies₁ jiffies₂ alloc₁ alloc₂) ops)
      (run Log.exec (Log.load jiffies₁ jiffies₂ alloc₁ alloc₂) ops) := by
  rw [← Log.length_load jiffies₁ jiffies₂] at hadds
  apply (logged_run (logged_load ..) ops hadds).ordered
  rw [Log.length_run_exec]
  exact hadds

theorem ordered_run_add_del :
    Ordered
      (run ListDemo.exec (.load 0 0 true false)
        [⟨⟨ascii "add a\n".toList, false⟩, 7, true⟩, ⟨⟨ascii "del 1\n".toList, false⟩, 8, true⟩])
      (run Log.exec (Log.load (K := .x86_64) 0 0 true false)
        [⟨⟨ascii "add a\n".toList, false⟩, 7, true⟩,
          ⟨⟨ascii "del 1\n".toList, false⟩, 8, true⟩]) :=
  ordered_run 0 0 true false _ (by decide)

end KernelModules.KernelList
