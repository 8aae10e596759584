import KernelModules.ConcurrencyControl.Store
import KernelModules.Lib.Run
import Mathlib.Logic.Function.Basic
import Mathlib.Data.Fintype.Basic

/-!
The shared data as a bounded queue.

Called one after the other, the functions of `04_concurrency_control.c` are the
operations of a queue that keeps its last `MAX_DATA_ITEMS` items. `Log` is that
queue without its bound: every item added since the load or the last clear, with
the reads it has seen, and how often each lock was used. The lock of an addition
shows in the statistics and nowhere else.
-/

namespace KernelModules.ConcurrencyControl

open Lib

variable {K : Kernel}

/-- One call, with the ways in which it can give up. -/
inductive Call
  | spinlockAddData (value : CInt) (alloc : Bool)
  | mutexAddData (value : CInt) (alloc interrupted : Bool)
  | rwlockWriteData (value : CInt) (alloc : Bool)
  | rwlockReadData
  | clearAllData

def ConcurrencyDemo.exec (s : ConcurrencyDemo K) : Call → ConcurrencyDemo K
  | .spinlockAddData value alloc => spinlockAddData value alloc s
  | .mutexAddData value alloc interrupted => mutexAddData value alloc interrupted s
  | .rwlockWriteData value alloc => rwlockWriteData value alloc s
  | .rwlockReadData => (rwlockReadData s).1
  | .clearAllData => clearAllData s

/-- What a call asks of the queue. -/
inductive Request
  | add (value : CInt)
  | read
  | clear
  deriving DecidableEq

/-- The request of a call and the lock it goes through, unless the call gives up. -/
def Call.request : Call → Option (Request × Lock)
  | .spinlockAddData value alloc => if alloc then some (.add value, .spinlock) else none
  | .mutexAddData value alloc interrupted =>
      if alloc && !interrupted then some (.add value, .mutex) else none
  | .rwlockWriteData value alloc => if alloc then some (.add value, .rwlock) else none
  | .rwlockReadData => some (.read, .rwlock)
  | .clearAllData => some (.clear, .spinlock)

/-- The request alone. -/
def Call.asks (c : Call) : Option Request := c.request.map Prod.fst

def ConcurrencyDemo.serve (s : ConcurrencyDemo K) : Request × Lock → ConcurrencyDemo K
  | (.add value, lock) => addData lock value s
  | (.read, _) => (rwlockReadData s).1
  | (.clear, _) => clearAllData s

/-- A call does what it asks for, or nothing. -/
theorem ConcurrencyDemo.exec_eq (s : ConcurrencyDemo K) (c : Call) :
    s.exec c = match c.request with
      | none => s
      | some r => s.serve r := by
  cases c with
  | spinlockAddData value alloc => cases alloc <;> rfl
  | mutexAddData value alloc interrupted => cases alloc <;> cases interrupted <;> rfl
  | rwlockWriteData value alloc => cases alloc <;> rfl
  | rwlockReadData => rfl
  | clearAllData => rfl

/-! ### The queue without its bound -/

/-- The values added, each with the number of reads since; the additions through
each lock; the reads. -/
structure Log where
  added : List (CInt × ℕ)
  adds : Lock → ℕ
  reads : ℕ

namespace Log

def empty : Log := ⟨[], fun _ => 0, 0⟩

def serve (l : Log) : Request × Lock → Log
  | (.add value, lock) =>
      { l with
        added := l.added ++ [(value, 0)]
        adds := Function.update l.adds lock (l.adds lock + 1) }
  | (.read, _) => { l with added := l.added.map (Prod.map id (· + 1)), reads := l.reads + 1 }
  | (.clear, _) => .empty

def exec (l : Log) (c : Call) : Log :=
  match c.request with
  | none => l
  | some r => l.serve r

/-- Every addition goes through one of the locks. -/
def Balanced (l : Log) : Prop :=
  l.adds .spinlock + l.adds .mutex + l.adds .rwlock = l.added.length

theorem Balanced.serve {l : Log} (h : l.Balanced) (r : Request × Lock) : (l.serve r).Balanced := by
  obtain ⟨request, lock⟩ := r
  cases request with
  | add value =>
      have hlen : (l.added ++ [(value, 0)]).length = l.added.length + 1 := by simp
      show _ + _ + _ = (l.added ++ [(value, 0)]).length
      rw [hlen, ← h]
      cases lock <;> simp [Log.serve] <;> omega
  | read =>
      show _ = (l.added.map _).length
      rw [List.length_map]
      exact h
  | clear => rfl

theorem balanced_run (cs : List Call) : (run exec .empty cs).Balanced := by
  refine run_invariant (I := Balanced) (fun l c h => ?_) (show Balanced empty from rfl) cs
  rw [exec]
  split
  · exact h
  · exact h.serve _

/-- The lock of a request shows only in the counts of the locks. -/
theorem serve_congr {l l' : Log} (hadded : l.added = l'.added) (hreads : l.reads = l'.reads)
    {r r' : Request × Lock} (hr : r.1 = r'.1) :
    (l.serve r).added = (l'.serve r').added ∧ (l.serve r).reads = (l'.serve r').reads := by
  obtain ⟨request, lock⟩ := r
  obtain ⟨request', lock'⟩ := r'
  obtain rfl : request = request' := hr
  cases request with
  | add value => exact ⟨congrArg (· ++ _) hadded, hreads⟩
  | read => exact ⟨congrArg (List.map _) hadded, congrArg (· + 1) hreads⟩
  | clear => exact ⟨rfl, rfl⟩

theorem run_congr {cs cs' : List Call}
    (h : cs.map Call.asks = cs'.map Call.asks)
    {l l' : Log} (hadded : l.added = l'.added) (hreads : l.reads = l'.reads) :
    (run exec l cs).added = (run exec l' cs').added ∧
      (run exec l cs).reads = (run exec l' cs').reads := by
  induction cs generalizing cs' l l' with
  | nil =>
      obtain rfl : cs' = [] := List.map_eq_nil_iff.mp h.symm
      exact ⟨hadded, hreads⟩
  | cons c cs ih =>
      cases cs' with
      | nil => simp at h
      | cons c' cs' =>
          obtain ⟨hc, hcs⟩ := List.cons_eq_cons.mp h
          rw [run_cons, run_cons, exec, exec]
          unfold Call.asks at hc
          cases hreq : c.request with
          | none =>
              rw [hreq] at hc
              rw [Option.map_eq_none_iff.mp hc.symm]
              exact ih hcs hadded hreads
          | some r =>
              rw [hreq] at hc
              obtain ⟨r', hr', hr⟩ := Option.map_eq_some_iff.mp hc.symm
              rw [hr']
              obtain ⟨hadded', hreads'⟩ := serve_congr hadded hreads hr.symm
              exact ih hcs hadded' hreads'

end Log

/-- An item of the log as the module stores it. -/
def SharedData.ofLog (item : CInt × ℕ) : SharedData K := ⟨item.1, BitVec.ofNat _ item.2⟩

/-- The counters that a log shows in. -/
def LockStats.ofLog (l : Log) : LockStats K where
  spinlockOps := BitVec.ofNat _ (l.adds .spinlock)
  mutexOps := BitVec.ofNat _ (l.adds .mutex)
  rwlockReadOps := BitVec.ofNat _ l.reads
  rwlockWriteOps := BitVec.ofNat _ (l.adds .rwlock)
  contentionCount := 0

/-! ### The refinement -/

/-- The module shows the end of the log. -/
structure Shows (s : ConcurrencyDemo K) (l : Log) : Prop where
  dataList : s.dataList = (l.added.rtake MAX_DATA_ITEMS).map .ofLog
  sized : s.Sized
  stats : s.stats = .ofLog l
  nextValue : s.nextValue = 1

theorem shows_load (K : Kernel) : Shows (ConcurrencyDemo.load K) .empty :=
  ⟨rfl, sized_load K, rfl, rfl⟩

theorem SharedData.touch_ofLog (item : CInt × ℕ) :
    (SharedData.ofLog item : SharedData K).touch = .ofLog (item.1, item.2 + 1) := by
  simp only [SharedData.ofLog, SharedData.touch, BitVec.ofNat_add]
  rfl

theorem LockStats.countAdd_ofLog (l : Log) (value : CInt) (lock : Lock) :
    (LockStats.ofLog l : LockStats K).countAdd lock = .ofLog (l.serve (.add value, lock)) := by
  cases lock <;> simp [LockStats.ofLog, LockStats.countAdd, Log.serve, BitVec.ofNat_add]

/-- **One call.** -/
theorem Shows.exec {s : ConcurrencyDemo K} {l : Log} (h : Shows s l) (c : Call) :
    Shows (s.exec c) (l.exec c) := by
  rw [ConcurrencyDemo.exec_eq, Log.exec]
  rcases hreq : c.request with _ | ⟨_ | _ | _, lock⟩
  · exact h
  · rename_i value
    refine ⟨?_, h.sized.addData lock value, ?_, ?_⟩
    · show (addData lock value s).dataList = _
      rw [h.sized.dataList_addData, h.dataList]
      -- pushing into the window is moving the window over the longer log
      show pushBounded _ _ (SharedData.ofLog (value, 0)) = _
      rw [← map_pushBounded, pushBounded_rtake (by decide)]
      rfl
    · show (addData lock value s).stats = _
      rw [stats_addData, h.stats, LockStats.countAdd_ofLog]
    · show (addData lock value s).nextValue = _
      rw [nextValue_addData, h.nextValue]
  · refine ⟨?_, h.sized.rwlockReadData, ?_, h.nextValue⟩
    · show s.dataList.map _ = ((l.added.map _).rtake _).map _
      rw [h.dataList, List.rtake, List.rtake, List.length_map, ← List.map_drop, List.map_map,
        List.map_map]
      apply List.map_congr_left
      intro item _
      exact SharedData.touch_ofLog item
    · show { s.stats with rwlockReadOps := s.stats.rwlockReadOps + 1 } = _
      rw [h.stats]
      simp [LockStats.ofLog, Log.serve, BitVec.ofNat_add]
  · exact ⟨rfl, .clearAllData s, rfl, h.nextValue⟩

theorem shows_run (cs : List Call) :
    Shows (run ConcurrencyDemo.exec (.load K) cs) (run Log.exec .empty cs) := by
  have h : Shows (run (both ConcurrencyDemo.exec Log.exec) (.load K, .empty) cs).1
      (run (both ConcurrencyDemo.exec Log.exec) (.load K, .empty) cs).2 :=
    run_invariant (I := fun t : ConcurrencyDemo K × Log => Shows t.1 t.2)
      (fun _ c h => h.exec c) (shows_load K) cs
  rwa [run_both] at h

/-! ### The queue -/

/-- Every item has seen no more reads than there were. -/
theorem Log.reads_le (cs : List Call) :
    ∀ item ∈ (run Log.exec .empty cs).added, item.2 ≤ (run Log.exec .empty cs).reads := by
  refine run_invariant (I := fun l : Log => ∀ item ∈ l.added, item.2 ≤ l.reads)
    (fun l c h => ?_) (show ∀ item ∈ Log.empty.added, item.2 ≤ Log.empty.reads by simp [empty]) cs
  rw [exec]
  rcases c.request with _ | ⟨_ | _ | _, lock⟩
  · exact h
  · intro item hitem
    rcases List.mem_append.mp hitem with hold | hnew
    · exact h item hold
    · rw [List.mem_singleton.mp hnew]
      exact Nat.zero_le _
  · intro item hitem
    obtain ⟨old, hold, rfl⟩ := List.mem_map.mp hitem
    exact Nat.add_le_add_right (h old hold) 1
  · simp [serve, empty]

/-- What the calls leave behind, against the log of what they asked for. The
counters are `unsigned long`s; below `2 ^ w` they are the numbers themselves. -/
structure QueueOf (s : ConcurrencyDemo K) (l : Log) : Prop where
  items : s.dataList = (l.added.rtake MAX_DATA_ITEMS).map .ofLog
  items_toNat : l.reads < 2 ^ K.bitsPerLong →
    s.dataList.map (fun d => (d.value, d.accessCount.toNat)) = l.added.rtake MAX_DATA_ITEMS
  count : s.dataCount = s.dataList.length
  returned : (rwlockReadData s).2 = s.dataCount
  counters : s.stats = .ofLog l
  addOps : s.stats.spinlockOps + s.stats.mutexOps + s.stats.rwlockWriteOps =
    BitVec.ofNat _ l.added.length
  addOps_toNat : l.added.length < 2 ^ K.bitsPerLong →
    s.stats.spinlockOps.toNat + s.stats.mutexOps.toNat + s.stats.rwlockWriteOps.toNat =
      l.added.length
  readOps_toNat : l.reads < 2 ^ K.bitsPerLong → s.stats.rwlockReadOps.toNat = l.reads

theorem Shows.queueOf {s : ConcurrencyDemo K} {l : Log} (h : Shows s l) (hl : l.Balanced)
    (hreads : ∀ item ∈ l.added, item.2 ≤ l.reads) : QueueOf s l := by
  refine ⟨h.dataList, ?_, h.sized.1, h.sized.1.symm, h.stats, ?_, ?_, ?_⟩
  · intro hlt
    rw [h.dataList, List.map_map]
    apply (List.map_congr_left _).trans (List.map_id _)
    intro item hitem
    have hle := hreads item (List.mem_of_mem_drop hitem)
    simp [SharedData.ofLog, Nat.mod_eq_of_lt (lt_of_le_of_lt hle hlt)]
  · rw [h.stats, ← hl, BitVec.ofNat_add, BitVec.ofNat_add]
    rfl
  · intro hlt
    rw [h.stats, ← hl]
    unfold Log.Balanced at hl
    simp only [LockStats.ofLog, BitVec.toNat_ofNat]
    rw [Nat.mod_eq_of_lt (by omega), Nat.mod_eq_of_lt (by omega), Nat.mod_eq_of_lt (by omega)]
  · intro hlt
    rw [h.stats]
    simp only [LockStats.ofLog, BitVec.toNat_ofNat]
    exact Nat.mod_eq_of_lt hlt

/-- **The bounded queue.** After every run of calls the module is the queue of
what they asked for. Calls that ask for the same through other locks leave the
same state, but for the counters of additions, whose sum is the same. -/
theorem run_exec_queueOf (cs : List Call) :
    let s : ConcurrencyDemo K := run ConcurrencyDemo.exec (.load K) cs
    QueueOf s (run Log.exec .empty cs) ∧
      ∀ cs' : List Call, cs'.map Call.asks = cs.map Call.asks →
        let s' : ConcurrencyDemo K := run ConcurrencyDemo.exec (.load K) cs'
        { s' with stats := s.stats } = s ∧
          s'.stats.rwlockReadOps = s.stats.rwlockReadOps ∧
          s'.stats.contentionCount = s.stats.contentionCount ∧
          s'.stats.spinlockOps + s'.stats.mutexOps + s'.stats.rwlockWriteOps =
            s.stats.spinlockOps + s.stats.mutexOps + s.stats.rwlockWriteOps := by
  intro s
  have hshows := shows_run (K := K) cs
  have h := hshows.queueOf (Log.balanced_run cs) (Log.reads_le cs)
  refine ⟨h, fun cs' hsame => ?_⟩
  intro s'
  have hshows' := shows_run (K := K) cs'
  have h' := hshows'.queueOf (Log.balanced_run cs') (Log.reads_le cs')
  obtain ⟨hadded, hreads⟩ := @Log.run_congr _ _ hsame .empty .empty rfl rfl
  have hlist : s'.dataList = s.dataList := by rw [h'.items, h.items, hadded]
  have hcount : s'.dataCount = s.dataCount := by rw [h'.count, h.count, hlist]
  have hnext : s'.nextValue = s.nextValue := by rw [hshows'.nextValue, hshows.nextValue]
  refine ⟨?_, ?_, ?_, ?_⟩
  · rw [hlist, hcount, hnext]
  · rw [h'.counters, h.counters]
    simp only [LockStats.ofLog, hreads]
  · rw [h'.counters, h.counters]
    rfl
  · rw [h'.addOps, h.addOps, hadded]

end KernelModules.ConcurrencyControl
