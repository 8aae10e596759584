import KernelModules.ConcurrencyControl.Queue
import KernelModules.Texts

/-!
The file of `04_concurrency_control.c`.

`concurrency_show` prints the counters and the first ten items. Two states that calls can
lead to print the same text exactly when they agree on the workers, the counters, the
number of items and those that are shown: the text leaves nothing of this open, however
wide the numbers are.
-/

namespace KernelModules.ConcurrencyControl

open Lib
open CompleteMonitor (line line_inj)

variable {K : Kernel}

abbrev SHOWN_ITEMS : ℕ := 10

/-! ### `concurrency_show` -/

def SharedData.text (data : SharedData K) : List UInt8 :=
  cell 8 (printInt data.value) ++ lastCell 12 (printULong data.accessCount)

/-- How many items are not shown. -/
def moreItems (s : ConcurrencyDemo K) : List UInt8 :=
  if s.dataCount > SHOWN_ITEMS then
    line "... and " (printInt (.ofInt 32 (s.dataCount - SHOWN_ITEMS))) " more items\n"
  else []

def listedItems (s : ConcurrencyDemo K) : List UInt8 :=
  if s.dataList.isEmpty then ascii "No data items\n".toList
  else (s.dataList.take SHOWN_ITEMS).flatMap SharedData.text ++ moreItems s

def concurrencyCommands : List UInt8 :=
  ascii "\n=== Commands ===\n".toList ++
  ascii "start     - Start worker threads\n".toList ++
  ascii "stop      - Stop worker threads\n".toList ++
  ascii "clear     - Clear all data\n".toList ++
  ascii "spin N    - Add data using spinlock\n".toList ++
  ascii "mutex N   - Add data using mutex\n".toList ++
  ascii "rwlock N  - Add data using rwlock\n".toList ++
  ascii "read      - Read data using rwlock\n".toList

def shownWorkers (workerRunning : Bool) : List UInt8 :=
  ascii (if workerRunning then "RUNNING" else "STOPPED").toList

/-- `concurrency_show`. -/
def concurrencyShow (workerRunning : Bool) (s : ConcurrencyDemo K) : List UInt8 :=
  List.flatten
    [ascii "=== Concurrency Control Demo ===\n".toList,
      line "Data items: " (printInt (.ofInt 32 s.dataCount)) "/100\n",
      line "Worker threads: " (shownWorkers workerRunning) "\n",
      ascii "\n=== Lock Statistics ===\n".toList,
      line "Spinlock operations: " (printULong s.stats.spinlockOps) "\n",
      line "Mutex operations: " (printULong s.stats.mutexOps) "\n",
      line "RWLock read operations: " (printULong s.stats.rwlockReadOps) "\n",
      line "RWLock write operations: " (printULong s.stats.rwlockWriteOps) "\n",
      line "Contention count: " (printULong s.stats.contentionCount) "\n",
      ascii "\n=== Data List (first 10 items) ===\n".toList,
      cell 8 (ascii "VALUE".toList) ++ lastCell 12 (ascii "ACCESS_COUNT".toList),
      ascii "--------------------\n".toList,
      listedItems s,
      concurrencyCommands]

/-! ### Reading the text -/

/-- A row tells its item. -/
theorem tells_text : Tells (SharedData.text (K := K)) id := by
  have hvalue := (Tells.intCell 8).comp (SharedData.value (K := K))
  have hcount := tells_ulongLastCell 12 (SharedData.accessCount (K := K))
  refine (hvalue.append hcount).map fun data data' h => ?_
  obtain ⟨hvalue, hcount⟩ := Prod.mk.inj h
  cases data
  cases data'
  exact congrArg₂ SharedData.mk hvalue hcount

/-- What comes after the rows does not start like one. -/
theorem moreItems_starts (s : ConcurrencyDemo K) :
    ∀ c ∈ (moreItems s ++ concurrencyCommands).head?, ¬ StartsNumber c := by
  rw [moreItems]
  split
  · have hhead : (line "... and " (printInt (.ofInt 32 (s.dataCount - SHOWN_ITEMS)))
        " more items\n" ++ concurrencyCommands).head? = some 46 := rfl
    exact not_startsNumber_of_head hhead (by decide)
  · have hhead : ([] ++ concurrencyCommands).head? = some 10 := rfl
    exact not_startsNumber_of_head hhead (by decide)

attribute [ext] LockStats

theorem shownWorkers_injective : Function.Injective shownWorkers := by decide

theorem newline_notMem_shownWorkers (running : Bool) : 10 ∉ shownWorkers running := by
  cases running <;> decide

/-- The item list, once it is known how long it is. -/
theorem listedItems_inj {s s' : ConcurrencyDemo K}
    (hlength : s.dataList.length = s'.dataList.length)
    (h : listedItems s ++ concurrencyCommands = listedItems s' ++ concurrencyCommands) :
    s.dataList.take SHOWN_ITEMS = s'.dataList.take SHOWN_ITEMS := by
  have hempty := isEmpty_eq_of_length_eq hlength
  rw [listedItems, listedItems, hempty] at h
  split at h
  · rename_i hnil
    rw [List.isEmpty_iff.mp hnil, List.isEmpty_iff.mp (hempty.trans hnil)]
  · simp only [List.append_assoc] at h
    obtain ⟨hrows, -⟩ := tells_text.rows StartsNumber
      (fun data : SharedData K => intCell_starts 8 data.value _) (moreItems_starts s)
      (moreItems_starts s') h
    simpa using hrows

theorem ConcurrencyDemo.Sized.fitsInt {s : ConcurrencyDemo K} (h : s.Sized) :
    FitsInt s.dataCount := by
  obtain ⟨hcount, hmax⟩ := h
  have hmax' : s.dataCount ≤ 100 := hmax
  unfold FitsInt
  omega

/-- What the text leaves open: the items after the tenth, and the next value. -/
structure ShownAlike (running running' : Bool) (s s' : ConcurrencyDemo K) : Prop where
  running : running = running'
  stats : s.stats = s'.stats
  length : s.dataList.length = s'.dataList.length
  items : s.dataList.take SHOWN_ITEMS = s'.dataList.take SHOWN_ITEMS

theorem concurrencyShow_eq_iff {running running' : Bool} {s s' : ConcurrencyDemo K} (h : s.Sized)
    (h' : s'.Sized) :
    concurrencyShow running s = concurrencyShow running' s' ↔ ShownAlike running running' s s' := by
  constructor
  · intro htext
    simp only [concurrencyShow, List.flatten_cons, List.flatten_nil, List.append_nil] at htext
    obtain ⟨hcount, htext⟩ := line_printInt_inj (c := 47) rfl (by decide)
      (List.append_cancel_left htext)
    obtain ⟨hworkers, htext⟩ := line_inj (c := 10) rfl (newline_notMem_shownWorkers _)
      (newline_notMem_shownWorkers _) htext
    obtain ⟨hspin, htext⟩ := line_printULong_inj (c := 10) rfl rfl (List.append_cancel_left htext)
    obtain ⟨hmutex, htext⟩ := line_printULong_inj (c := 10) rfl rfl htext
    obtain ⟨hread, htext⟩ := line_printULong_inj (c := 10) rfl rfl htext
    obtain ⟨hwrite, htext⟩ := line_printULong_inj (c := 10) rfl rfl htext
    obtain ⟨hcontention, htext⟩ := line_printULong_inj (c := 10) rfl rfl htext
    have hlength : (s.dataList.length : ℤ) = s'.dataList.length := by
      rw [← h.1, ← h'.1]
      exact eq_of_ofInt_eq h.fitsInt h'.fitsInt hcount
    have hlisted := List.append_cancel_left
      (List.append_cancel_left (List.append_cancel_left htext))
    exact ⟨shownWorkers_injective hworkers,
      LockStats.ext hspin hmutex hread hwrite hcontention,
      Int.ofNat_inj.mp hlength, listedItems_inj (Int.ofNat_inj.mp hlength) hlisted⟩
  · rintro ⟨rfl, hstats, hlength, hitems⟩
    have hcount : s.dataCount = s'.dataCount := by rw [h.1, h'.1, hlength]
    have hlisted : listedItems s = listedItems s' := by
      rw [listedItems, listedItems, moreItems, moreItems, isEmpty_eq_of_length_eq hlength, hitems,
        hcount]
    rw [concurrencyShow, concurrencyShow, hcount, hstats, hlisted]

theorem sized_run (cs : List Call) : (run ConcurrencyDemo.exec (.load K) cs).Sized :=
  (shows_run cs).sized

/-- **What the file tells.** After any calls, two texts are the same exactly when the
workers run in both or in neither, all counters are the same, there are as many items, and
the first ten of them are the same in value and accesses. -/
theorem texts_agree_iff (running running' : Bool) (cs cs' : List Call) :
    concurrencyShow running (run ConcurrencyDemo.exec (.load K) cs) =
        concurrencyShow running' (run ConcurrencyDemo.exec (.load K) cs') ↔
      ShownAlike running running' (run ConcurrencyDemo.exec (.load K) cs)
        (run ConcurrencyDemo.exec (.load K) cs') :=
  concurrencyShow_eq_iff (sized_run cs) (sized_run cs')

end KernelModules.ConcurrencyControl
