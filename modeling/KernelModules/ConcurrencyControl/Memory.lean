import KernelModules.ConcurrencyControl.Queue
import KernelModules.Lib.Heap

/-!
The memory of `04_concurrency_control.c`.

Here the items have their addresses, and the functions allocate and free. Without the
addresses they are the functions of the store; the addresses show that the calls, one
after the other and with the unload at the end, lose no item and free none twice, whether
they succeed, run out of memory or are interrupted in their wait for the mutex.
-/

namespace KernelModules.ConcurrencyControl

open Lib

variable {K : Kernel}

/-- The static variables, with the items at their addresses. -/
structure DemoMemory (K : Kernel) where
  heap : Heap
  dataList : List (ℕ × SharedData K)
  dataCount : ℤ
  stats : LockStats K
  nextValue : CInt

namespace DemoMemory

def load (K : Kernel) : DemoMemory K := ⟨.empty, [], 0, .zero K, 1⟩

/-- The variables without the addresses. -/
def forget (s : DemoMemory K) : ConcurrencyDemo K :=
  ⟨contents s.dataList, s.dataCount, s.stats, s.nextValue⟩

/-! ### The functions -/

/-- On an empty list `list_first_entry` yields a pointer to no item. -/
def evictOldest (s : DemoMemory K) : DemoMemory K :=
  if s.dataCount ≥ MAX_DATA_ITEMS then
    match s.dataList with
    | [] => { s with heap := s.heap.kfreeWild, dataCount := s.dataCount - 1 }
    | oldest :: rest =>
        { s with
          heap := s.heap.kfree oldest.1
          dataList := rest
          dataCount := s.dataCount - 1 }
  else s

/-- The critical section of an addition. -/
def addData (lock : Lock) (addr : ℕ) (value : CInt) (s : DemoMemory K) : DemoMemory K :=
  let s := s.evictOldest
  { s with
    dataList := s.dataList ++ [(addr, ⟨value, 0⟩)]
    dataCount := s.dataCount + 1
    stats := s.stats.countAdd lock }

def spinlockAddData (value : CInt) (alloc : Bool) (s : DemoMemory K) : DemoMemory K :=
  if !alloc then s
  else
    match s.heap.kmalloc with
    | (newData, heap) => addData .spinlock newData value { s with heap }

def mutexAddData (value : CInt) (alloc interrupted : Bool) (s : DemoMemory K) : DemoMemory K :=
  if !alloc then s
  else
    match s.heap.kmalloc with
    | (newData, heap) =>
        if interrupted then { s with heap := heap.kfree newData }
        else addData .mutex newData value { s with heap }

def rwlockWriteData (value : CInt) (alloc : Bool) (s : DemoMemory K) : DemoMemory K :=
  if !alloc then s
  else
    match s.heap.kmalloc with
    | (newData, heap) => addData .rwlock newData value { s with heap }

def rwlockReadData (s : DemoMemory K) : DemoMemory K :=
  { s with
    dataList := s.dataList.map (rewrite .touch)
    stats := { s.stats with rwlockReadOps := s.stats.rwlockReadOps + 1 } }

def clearAllData (s : DemoMemory K) : DemoMemory K :=
  { s with heap := s.heap.kfreeAll s.dataList, dataList := [], dataCount := 0, stats := .zero K }

def exec (s : DemoMemory K) : Call → DemoMemory K
  | .spinlockAddData value alloc => s.spinlockAddData value alloc
  | .mutexAddData value alloc interrupted => s.mutexAddData value alloc interrupted
  | .rwlockWriteData value alloc => s.rwlockWriteData value alloc
  | .rwlockReadData => s.rwlockReadData
  | .clearAllData => s.clearAllData

/-- `concurrency_exit`, when the threads have stopped. -/
def exit (s : DemoMemory K) : DemoMemory K := s.clearAllData

/-! ### What the functions keep -/

/-- The items of the list are the blocks that are allocated, and there are as many as are
counted. -/
structure Sound (s : DemoMemory K) : Prop where
  owns : s.heap.Owns (s.dataList.map Prod.fst)
  sized : s.forget.Sized

theorem sound_load (K : Kernel) : (load K).Sound := ⟨.empty, sized_load K⟩

variable {s : DemoMemory K}

/-- What an eviction does, if there is an item to evict when the count says so. -/
theorem evictOldest_cases (hfinds : s.dataCount ≥ MAX_DATA_ITEMS → s.dataList ≠ []) :
    (¬ s.dataCount ≥ MAX_DATA_ITEMS ∧ s.evictOldest = s) ∨
      ∃ oldest rest, s.dataList = oldest :: rest ∧ s.dataCount ≥ MAX_DATA_ITEMS ∧
        s.evictOldest =
          { s with
            heap := s.heap.kfree oldest.1
            dataList := rest
            dataCount := s.dataCount - 1 } := by
  by_cases hfull : s.dataCount ≥ MAX_DATA_ITEMS
  · obtain ⟨oldest, rest, hlist⟩ := List.exists_cons_of_ne_nil (hfinds hfull)
    refine .inr ⟨oldest, rest, hlist, hfull, ?_⟩
    rw [evictOldest, if_pos hfull, hlist]
  · exact .inl ⟨hfull, if_neg hfull⟩

/-- Without the addresses the eviction is that of the store, from an empty list too. -/
theorem forget_evictOldest (s : DemoMemory K) :
    s.evictOldest.forget = ConcurrencyControl.evictOldest s.forget := by
  by_cases hfull : s.dataCount ≥ MAX_DATA_ITEMS
  · have hfull' : s.forget.dataCount ≥ MAX_DATA_ITEMS := hfull
    rw [evictOldest, if_pos hfull, ConcurrencyControl.evictOldest, if_pos hfull']
    obtain ⟨heap, _ | ⟨oldest, rest⟩, count, stats, nextValue⟩ := s <;> rfl
  · have hfull' : ¬ s.forget.dataCount ≥ MAX_DATA_ITEMS := hfull
    rw [evictOldest, if_neg hfull, ConcurrencyControl.evictOldest, if_neg hfull']

/-- A right count finds an item. -/
theorem finds_of_sized (hsized : s.forget.Sized) :
    s.dataCount ≥ MAX_DATA_ITEMS → s.dataList ≠ [] := by
  intro hfull
  obtain ⟨oldest, rest, hlist⟩ := exists_oldest hsized.1 (by decide) hfull
  rw [hlist]
  exact List.cons_ne_nil _ _

/-- The eviction, with a block in hand that is not in the list yet. -/
theorem owns_evictOldest {held : List ℕ} (howns : s.heap.Owns (s.dataList.map Prod.fst ++ held))
    (hsized : s.forget.Sized) :
    s.evictOldest.heap.Owns (s.evictOldest.dataList.map Prod.fst ++ held) ∧
      s.evictOldest.forget = ConcurrencyControl.evictOldest s.forget := by
  refine ⟨?_, forget_evictOldest s⟩
  rcases evictOldest_cases (finds_of_sized hsized) with ⟨-, hevict⟩ |
    ⟨oldest, rest, hlist, -, hevict⟩ <;> rw [hevict]
  · exact howns
  · rw [hlist] at howns
    exact howns.kfree

/-- An addition takes the block over. -/
theorem sound_addData (lock : Lock) {addr : ℕ} (value : CInt)
    (howns : s.heap.Owns (addr :: s.dataList.map Prod.fst)) (hsized : s.forget.Sized) :
    (s.addData lock addr value).Sound ∧
      (s.addData lock addr value).forget = ConcurrencyControl.addData lock value s.forget := by
  have howns' : s.heap.Owns (s.dataList.map Prod.fst ++ [addr]) :=
    howns.of_perm (List.perm_append_singleton ..)
  obtain ⟨hevict, hforget⟩ := owns_evictOldest howns' hsized
  have hadd : (s.addData lock addr value).forget =
      ConcurrencyControl.addData lock value s.forget := by
    rw [ConcurrencyControl.addData, ← hforget]
    simp [addData, forget, contents, linkData, countData]
  refine ⟨⟨?_, ?_⟩, hadd⟩
  · show s.evictOldest.heap.Owns ((s.evictOldest.dataList ++ [(addr, _)]).map Prod.fst)
    rwa [List.map_append]
  · rw [hadd]
    exact hsized.addData lock value

theorem Sound.clearAllData (h : s.Sound) :
    s.clearAllData.Sound ∧ s.clearAllData.forget = ConcurrencyControl.clearAllData s.forget := by
  have howns : s.heap.Owns (s.dataList.map Prod.fst ++ []) := by
    rw [List.append_nil]
    exact h.owns
  exact ⟨⟨howns.kfreeAll, ConcurrencyDemo.Sized.clearAllData s.forget⟩, rfl⟩

theorem forget_rwlockReadData :
    s.rwlockReadData.forget = (ConcurrencyControl.rwlockReadData s.forget).1 := by
  simp [rwlockReadData, forget, contents_map_rewrite, ConcurrencyControl.rwlockReadData]

/-- **One call.** -/
theorem Sound.exec (h : s.Sound) (c : Call) :
    (s.exec c).Sound ∧ (s.exec c).forget = s.forget.exec c := by
  cases c with
  | spinlockAddData value alloc =>
      cases alloc with
      | false => exact ⟨h, rfl⟩
      | true => exact sound_addData .spinlock value h.owns.kmalloc h.sized
  | mutexAddData value alloc interrupted =>
      cases alloc with
      | false => exact ⟨h, rfl⟩
      | true =>
          cases interrupted with
          | false => exact sound_addData .mutex value h.owns.kmalloc h.sized
          | true => exact ⟨⟨h.owns.kmalloc.kfree, h.sized⟩, rfl⟩
  | rwlockWriteData value alloc =>
      cases alloc with
      | false => exact ⟨h, rfl⟩
      | true => exact sound_addData .rwlock value h.owns.kmalloc h.sized
  | rwlockReadData =>
      refine ⟨⟨?_, ?_⟩, forget_rwlockReadData⟩
      · show s.heap.Owns ((s.dataList.map (rewrite .touch)).map Prod.fst)
        rw [addresses_map_rewrite]
        exact h.owns
      · show s.rwlockReadData.forget.Sized
        rw [forget_rwlockReadData]
        exact h.sized.rwlockReadData
  | clearAllData => exact h.clearAllData

theorem sound_run (K : Kernel) (calls : List Call) : (run exec (load K) calls).Sound :=
  run_invariant (I := Sound) (fun _ c h => (h.exec c).1) (sound_load K) calls

theorem forget_run (K : Kernel) (calls : List Call) :
    (run exec (load K) calls).forget = run ConcurrencyDemo.exec (.load K) calls := by
  have hsim : Simulation (exec (K := K)) ConcurrencyDemo.exec Sound forget :=
    ⟨fun _ c h => (h.exec c).1, fun _ c h => (h.exec c).2⟩
  exact hsim.run_eq (sound_load K) calls

/-- **The memory** over the whole life of the module. After any calls, no free was of a
block that was not live, the live blocks are the items of the list, and the values are
those of the store. When the module is unloaded then, every block that was ever allocated
has been freed, each of them once. -/
theorem items_freed_once (K : Kernel) (calls : List Call) :
    let s := run exec (load K) calls
    s.heap.fault = false ∧
      (∀ addr, addr < s.heap.next ∧ addr ∉ s.heap.freed ↔ addr ∈ s.dataList.map Prod.fst) ∧
      s.forget = run ConcurrencyDemo.exec (.load K) calls ∧
      s.exit.heap.fault = false ∧ s.exit.heap.freed.Perm (List.range s.exit.heap.next) := by
  intro s
  have hsound : s.Sound := sound_run K calls
  have hexit : s.exit.Sound := hsound.clearAllData.1
  exact ⟨hsound.owns.fault, fun _ => hsound.owns.mem_iff.symm, forget_run K calls,
    hexit.owns.fault, hexit.owns.freed_once⟩

end DemoMemory

end KernelModules.ConcurrencyControl
