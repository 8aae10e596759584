import KernelModules.Kernel
import KernelModules.Lib.Update

/-!
The shared data of `04_concurrency_control.c` and the functions that change it.

Three functions add an item, each under a lock of its own; apart from the lock,
the counter they advance and the ways in which they give up they are the same.
Their critical section is cut into its steps: the capacity test with the
eviction, the link, the counts.
-/

namespace KernelModules.ConcurrencyControl

open Lib

abbrev MAX_DATA_ITEMS : ℕ := 100

/-- `struct shared_data`, without its link. -/
structure SharedData (K : Kernel) where
  value : CInt
  accessCount : ULong K
  deriving DecidableEq

/-- `struct lock_stats`. -/
structure LockStats (K : Kernel) where
  spinlockOps : ULong K
  mutexOps : ULong K
  rwlockReadOps : ULong K
  rwlockWriteOps : ULong K
  contentionCount : ULong K
  deriving DecidableEq

/-- The static variables of the module, without the worker threads. -/
structure ConcurrencyDemo (K : Kernel) where
  dataList : List (SharedData K)
  dataCount : ℤ
  stats : LockStats K
  nextValue : CInt
  deriving DecidableEq

/-- `memset(&stats, 0, sizeof(stats))`. -/
def LockStats.zero (K : Kernel) : LockStats K := ⟨0, 0, 0, 0, 0⟩

/-- `data_spinlock`, `data_mutex` and `data_rwlock`. -/
inductive Lock
  | spinlock
  | mutex
  | rwlock
  deriving DecidableEq

variable {K : Kernel}

/-- The state of a loaded module. -/
def ConcurrencyDemo.load (K : Kernel) : ConcurrencyDemo K := ⟨[], 0, .zero K, 1⟩

/-! ### The steps of the critical sections -/

/-- The capacity test. On an empty list `list_first_entry` yields a pointer to no item;
what is unlinked and freed there is a fault in the memory below. A full list is never
empty while its count is right. -/
def evictOldest (s : ConcurrencyDemo K) : ConcurrencyDemo K :=
  if s.dataCount ≥ MAX_DATA_ITEMS then
    match s.dataList with
    | [] => { s with dataCount := s.dataCount - 1 }
    | _ :: rest => { s with dataList := rest, dataCount := s.dataCount - 1 }
  else s

/-- `list_add_tail`. -/
def linkData (value : CInt) (s : ConcurrencyDemo K) : ConcurrencyDemo K :=
  { s with dataList := s.dataList ++ [⟨value, 0⟩] }

/-- The operation counter of the function that adds under a lock. -/
def LockStats.countAdd (lock : Lock) (stats : LockStats K) : LockStats K :=
  match lock with
  | .spinlock => { stats with spinlockOps := stats.spinlockOps + 1 }
  | .mutex => { stats with mutexOps := stats.mutexOps + 1 }
  | .rwlock => { stats with rwlockWriteOps := stats.rwlockWriteOps + 1 }

def countData (lock : Lock) (s : ConcurrencyDemo K) : ConcurrencyDemo K :=
  { s with dataCount := s.dataCount + 1, stats := s.stats.countAdd lock }

/-- The loop of `clear_all_data`. -/
def unlinkAll (s : ConcurrencyDemo K) : ConcurrencyDemo K := { s with dataList := [] }

def zeroCounts (s : ConcurrencyDemo K) : ConcurrencyDemo K :=
  { s with dataCount := 0, stats := .zero K }

/-! ### The functions -/

/-- What the three additions do with an allocated item and their lock. -/
def addData (lock : Lock) (value : CInt) (s : ConcurrencyDemo K) : ConcurrencyDemo K :=
  countData lock (linkData value (evictOldest s))

/-- `spinlock_add_data`. -/
def spinlockAddData (value : CInt) (alloc : Bool) (s : ConcurrencyDemo K) : ConcurrencyDemo K :=
  if !alloc then s else addData .spinlock value s

/-- `mutex_add_data`. The wait for the mutex may be interrupted. -/
def mutexAddData (value : CInt) (alloc interrupted : Bool) (s : ConcurrencyDemo K) :
    ConcurrencyDemo K :=
  if !alloc then s else if interrupted then s else addData .mutex value s

/-- `rwlock_write_data`. -/
def rwlockWriteData (value : CInt) (alloc : Bool) (s : ConcurrencyDemo K) : ConcurrencyDemo K :=
  if !alloc then s else addData .rwlock value s

def SharedData.touch (d : SharedData K) : SharedData K :=
  { d with accessCount := d.accessCount + 1 }

/-- `rwlock_read_data`, with the number it returns. -/
def rwlockReadData (s : ConcurrencyDemo K) : ConcurrencyDemo K × ℤ :=
  ({ s with
      dataList := s.dataList.map .touch
      stats := { s.stats with rwlockReadOps := s.stats.rwlockReadOps + 1 } },
    s.dataList.length)

/-- `clear_all_data`. -/
def clearAllData (s : ConcurrencyDemo K) : ConcurrencyDemo K := zeroCounts (unlinkAll s)

/-! ### `/proc/concurrency_demo` -/

inductive Command
  | start
  | stop
  | clear
  | read
  | add (lock : Lock) (value : CInt)
  deriving DecidableEq

/-- The chain of comparisons in `concurrency_write`. -/
def concurrencyCommand (cmd : List UInt8) : Option Command :=
  if strcmp cmd (ascii "start".toList) = 0 then some .start
  else if strcmp cmd (ascii "stop".toList) = 0 then some .stop
  else if strcmp cmd (ascii "clear".toList) = 0 then some .clear
  else if strcmp cmd (ascii "read".toList) = 0 then some .read
  else
    match sscanfWordInt 15 cmd with
    | none => none
    | some (op, value) =>
        if strcmp op (ascii "spin".toList) = 0 then some (.add .spinlock value)
        else if strcmp op (ascii "mutex".toList) = 0 then some (.add .mutex value)
        else if strcmp op (ascii "rwlock".toList) = 0 then some (.add .rwlock value)
        else none

/-- The command that a write carries, if the write is accepted and its text is
one. -/
def writtenCommand (w : UserWrite) : Option Command :=
  match w.copy 64 with
  | .error _ => none
  | .ok cmd => concurrencyCommand (stripNewline cmd)

/-! ### The count is the length -/

/-- `data_count` counts the list, and the list is not over its capacity. -/
def ConcurrencyDemo.Sized (s : ConcurrencyDemo K) : Prop :=
  s.dataCount = s.dataList.length ∧ s.dataCount ≤ MAX_DATA_ITEMS

instance (s : ConcurrencyDemo K) : Decidable s.Sized :=
  inferInstanceAs (Decidable (s.dataCount = s.dataList.length ∧ s.dataCount ≤ MAX_DATA_ITEMS))

theorem sized_load (K : Kernel) : (ConcurrencyDemo.load K).Sized := by
  simp [ConcurrencyDemo.Sized, ConcurrencyDemo.load]

@[simp] theorem stats_evictOldest (s : ConcurrencyDemo K) : (evictOldest s).stats = s.stats := by
  unfold evictOldest
  split
  · cases s.dataList <;> rfl
  · rfl

@[simp] theorem nextValue_evictOldest (s : ConcurrencyDemo K) :
    (evictOldest s).nextValue = s.nextValue := by
  unfold evictOldest
  split
  · cases s.dataList <;> rfl
  · rfl

namespace ConcurrencyDemo.Sized

variable {s : ConcurrencyDemo K}

/-- The list after the capacity test has room for one more. -/
theorem evictOldest (h : s.Sized) :
    (ConcurrencyControl.evictOldest s).dataList =
        (if MAX_DATA_ITEMS ≤ s.dataList.length then s.dataList.tail else s.dataList) ∧
      (ConcurrencyControl.evictOldest s).Sized ∧
      (ConcurrencyControl.evictOldest s).dataCount < MAX_DATA_ITEMS := by
  obtain ⟨hcount, hmax⟩ := h
  unfold ConcurrencyControl.evictOldest
  by_cases hfull : s.dataCount ≥ MAX_DATA_ITEMS
  · have hlen : MAX_DATA_ITEMS ≤ s.dataList.length := by omega
    rw [if_pos hfull, if_pos hlen]
    cases hlist : s.dataList with
    | nil => simp [hlist] at hlen
    | cons oldest rest =>
        rw [hlist, List.length_cons] at hcount
        refine ⟨rfl, ⟨?_, ?_⟩, ?_⟩ <;> simp only <;> omega
  · rw [if_neg hfull, if_neg (by omega)]
    exact ⟨rfl, ⟨hcount, hmax⟩, not_le.mp hfull⟩

theorem addData (h : s.Sized) (lock : Lock) (value : CInt) :
    (ConcurrencyControl.addData lock value s).Sized := by
  obtain ⟨-, ⟨hcount, -⟩, hroom⟩ := h.evictOldest
  refine ⟨?_, ?_⟩
  · show (ConcurrencyControl.evictOldest s).dataCount + 1 =
      (((ConcurrencyControl.evictOldest s).dataList ++ [_]).length : ℕ)
    rw [List.length_append, hcount]
    rfl
  · show (ConcurrencyControl.evictOldest s).dataCount + 1 ≤ _
    omega

/-- An addition pushes into the bounded list. -/
theorem dataList_addData (h : s.Sized) (lock : Lock) (value : CInt) :
    (ConcurrencyControl.addData lock value s).dataList =
      pushBounded MAX_DATA_ITEMS s.dataList ⟨value, 0⟩ := by
  show (ConcurrencyControl.evictOldest s).dataList ++ [_] = _
  rw [h.evictOldest.1]
  rfl

theorem rwlockReadData (h : s.Sized) : (ConcurrencyControl.rwlockReadData s).1.Sized := by
  refine ⟨?_, h.2⟩
  show s.dataCount = ((s.dataList.map _).length : ℕ)
  rw [List.length_map, h.1]

theorem clearAllData (s : ConcurrencyDemo K) : (ConcurrencyControl.clearAllData s).Sized := by
  simp [Sized, ConcurrencyControl.clearAllData, zeroCounts, unlinkAll]

end ConcurrencyDemo.Sized

theorem stats_addData (lock : Lock) (value : CInt) (s : ConcurrencyDemo K) :
    (addData lock value s).stats = s.stats.countAdd lock := by
  show (evictOldest s).stats.countAdd lock = _
  rw [stats_evictOldest]

theorem nextValue_addData (lock : Lock) (value : CInt) (s : ConcurrencyDemo K) :
    (addData lock value s).nextValue = s.nextValue :=
  nextValue_evictOldest s

end KernelModules.ConcurrencyControl
