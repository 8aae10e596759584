import KernelModules.ConcurrencyControl.Store
import KernelModules.Lib.Numeral
import KernelModules.Lib.Run

/-!
The loop of a worker thread.

Every iteration draws a random `int` and lets its remainder by 4 choose one of
four operations. The remainder of a negative number is not positive, and the
switch has no case for -1, -2 and -3: three eighths of all draws do nothing.
-/

namespace KernelModules.ConcurrencyControl

open Lib

variable {K : Kernel}

/-- `operation % 4`, for the signed number that was drawn. -/
def operationOf (random : CInt) : ℤ := (random.srem 4).toInt

/-- What one iteration meets: the number that `get_random_bytes` delivers, and
how the allocation and the wait for the mutex end if there is one. -/
structure Draw where
  random : CInt
  alloc : Bool
  interrupted : Bool

/-- Nothing fails. -/
def Draw.undisturbed (random : CInt) : Draw := ⟨random, true, false⟩

/-- `next_value++`. -/
def ConcurrencyDemo.handOut (s : ConcurrencyDemo K) : ConcurrencyDemo K :=
  { s with nextValue := s.nextValue + 1 }

/-- The body of the loop in `worker_thread_func`. The value is handed out before
the addition can give up. -/
def workerIteration (s : ConcurrencyDemo K) (d : Draw) : ConcurrencyDemo K :=
  match operationOf d.random with
  | 0 => spinlockAddData s.nextValue d.alloc s.handOut
  | 1 => mutexAddData s.nextValue d.alloc d.interrupted s.handOut
  | 2 => (rwlockReadData s).1
  | 3 => rwlockWriteData s.nextValue d.alloc s.handOut
  | _ => s

/-- The loop, over the numbers that it draws. -/
def workerLoop (s : ConcurrencyDemo K) (randoms : List CInt) : ConcurrencyDemo K :=
  run (fun s r => workerIteration s (.undisturbed r)) s randoms

/-! ### The draws -/

/-- The draws that a case of the switch stands for. -/
theorem operationOf_mem_iff (random : CInt) :
    operationOf random ∈ [0, 1, 2, 3] ↔ 0 ≤ random.toInt ∨ 4 ∣ random.toInt := by
  have hrange : 0 ≤ random.toInt % 4 ∧ random.toInt % 4 < 4 := by omega
  have hfour : (4 : CInt).toInt = 4 := rfl
  rw [operationOf, BitVec.toInt_srem, hfour, Int.tmod_eq_emod]
  simp only [List.mem_cons, List.not_mem_nil, or_false]
  split_ifs with hcase
  · exact iff_of_true (by omega) hcase
  · exact iff_of_false (by simp; omega) hcase

/-- The additions among the operations drawn. -/
def adds (ops : List ℤ) : ℕ := ops.count 0 + ops.count 1 + ops.count 3

/-- Every operation drawn is an addition, a read or nothing. -/
theorem adds_add_count (ops : List ℤ) :
    adds ops + ops.count 2 = ops.countP (· ∈ [0, 1, 2, 3]) := by
  induction ops with
  | nil => rfl
  | cons op ops ih =>
      have hone : adds (op :: ops) + (op :: ops).count 2 =
          adds ops + ops.count 2 + if op ∈ [0, 1, 2, 3] then 1 else 0 := by
        simp only [adds, List.count_cons, beq_iff_eq, List.mem_cons, List.not_mem_nil, or_false]
        split_ifs <;> omega
      rw [hone, ih, List.countP_cons]
      simp

/-- The values that the next `n` additions are handed. -/
def handedOut (next : CInt) (n : ℕ) : List CInt :=
  (List.range n).map fun i => next + BitVec.ofNat 32 i

theorem handedOut_succ (next : CInt) (n : ℕ) :
    handedOut next (n + 1) = handedOut next n ++ [next + BitVec.ofNat 32 n] := by
  simp [handedOut, List.range_succ]

/-! ### The loop -/

/-- The statistics of a loop that drew these operations. -/
def LockStats.ofOps (ops : List ℤ) : LockStats K where
  spinlockOps := BitVec.ofNat _ (ops.count 0)
  mutexOps := BitVec.ofNat _ (ops.count 1)
  rwlockReadOps := BitVec.ofNat _ (ops.count 2)
  rwlockWriteOps := BitVec.ofNat _ (ops.count 3)
  contentionCount := 0

/-- The case of the switch that adds under a lock. -/
def Lock.operation : Lock → ℤ
  | .spinlock => 0
  | .mutex => 1
  | .rwlock => 3

theorem adds_addition (ops : List ℤ) (lock : Lock) :
    adds (ops ++ [lock.operation]) = adds ops + 1 := by
  cases lock <;> simp [adds, Lock.operation] <;> omega

theorem LockStats.countAdd_ofOps (ops : List ℤ) (lock : Lock) :
    (LockStats.ofOps ops : LockStats K).countAdd lock = .ofOps (ops ++ [lock.operation]) := by
  cases lock <;> simp [LockStats.ofOps, LockStats.countAdd, Lock.operation, BitVec.ofNat_add]

/-- The state `s` after the operations `ops`, drawn one after the other from
`start` on. -/
structure Worked (start : ConcurrencyDemo K) (ops : List ℤ) (s : ConcurrencyDemo K) : Prop where
  sized : s.Sized
  stats : s.stats = .ofOps ops
  nextValue : s.nextValue = start.nextValue + BitVec.ofNat 32 (adds ops)
  values : s.dataList.map (·.value) =
    (start.dataList.map (·.value) ++ handedOut start.nextValue (adds ops)).rtake MAX_DATA_ITEMS

namespace Worked

variable {start s : ConcurrencyDemo K} {ops : List ℤ}

theorem nil (hsized : start.Sized) (hstats : start.stats = .zero K) : Worked start [] start := by
  refine ⟨hsized, hstats, ?_, ?_⟩
  · show _ = _ + BitVec.ofNat 32 0
    simp
  · obtain ⟨hcount, hmax⟩ := hsized
    have hshort : (start.dataList.map (·.value)).length - MAX_DATA_ITEMS = 0 := by
      rw [List.length_map]
      omega
    show _ = (_ ++ []).rtake _
    rw [List.append_nil, List.rtake, hshort, List.drop_zero]

/-- An addition under any lock. -/
theorem addData (h : Worked start ops s) (lock : Lock) :
    Worked start (ops ++ [lock.operation])
      (ConcurrencyControl.addData lock s.nextValue s.handOut) := by
  have hsized : s.handOut.Sized := h.sized
  have hadds := adds_addition ops lock
  refine ⟨hsized.addData lock _, ?_, ?_, ?_⟩
  · rw [stats_addData, ← LockStats.countAdd_ofOps, ← h.stats]
    rfl
  · rw [nextValue_addData, hadds, BitVec.ofNat_add, ← BitVec.add_assoc, ← h.nextValue]
    rfl
  · rw [hsized.dataList_addData, map_pushBounded, hadds, handedOut_succ, ← List.append_assoc,
      ← pushBounded_rtake (by decide), ← h.values, ← h.nextValue]
    rfl

theorem readData (h : Worked start ops s) :
    Worked start (ops ++ [2]) (rwlockReadData s).1 := by
  have hadds : adds (ops ++ [2]) = adds ops := by simp [adds]
  refine ⟨h.sized.rwlockReadData, ?_, ?_, ?_⟩
  · show { s.stats with rwlockReadOps := s.stats.rwlockReadOps + 1 } = _
    rw [h.stats]
    simp [LockStats.ofOps, BitVec.ofNat_add]
  · rw [hadds]
    exact h.nextValue
  · show (s.dataList.map _).map _ = _
    rw [hadds, ← h.values, List.map_map]
    rfl

/-- Where the switch has no case, the iteration does nothing. -/
theorem idle (h : Worked start ops s) {op : ℤ} (hop : op ∉ [0, 1, 2, 3]) :
    Worked start (ops ++ [op]) s := by
  have hcount : ∀ k ∈ [0, 1, 2, 3], (ops ++ [op]).count k = ops.count k := by
    intro k hk
    have hne : op ≠ k := fun heq => hop (heq ▸ hk)
    simp [hne]
  have hadds : adds (ops ++ [op]) = adds ops := by
    rw [adds, adds, hcount 0 (by simp), hcount 1 (by simp), hcount 3 (by simp)]
  refine ⟨h.sized, ?_, ?_, ?_⟩
  · rw [h.stats, LockStats.ofOps, LockStats.ofOps, hcount 0 (by simp), hcount 1 (by simp),
      hcount 2 (by simp), hcount 3 (by simp)]
  · rw [hadds]
    exact h.nextValue
  · rw [hadds]
    exact h.values

/-- **One iteration.** -/
theorem iteration (h : Worked start ops s) (random : CInt) :
    Worked start (ops ++ [operationOf random]) (workerIteration s (.undisturbed random)) := by
  unfold workerIteration
  split
  · rename_i hop
    exact hop ▸ h.addData .spinlock
  · rename_i hop
    exact hop ▸ h.addData .mutex
  · rename_i hop
    exact hop ▸ h.readData
  · rename_i hop
    exact hop ▸ h.addData .rwlock
  · rename_i hspinlock hmutex hread hwrite
    apply h.idle
    simp only [List.mem_cons, List.not_mem_nil, or_false]
    rintro (hop | hop | hop | hop)
    · exact hspinlock hop
    · exact hmutex hop
    · exact hread hop
    · exact hwrite hop

end Worked

theorem worked_workerLoop {start : ConcurrencyDemo K} (hsized : start.Sized)
    (hstats : start.stats = .zero K) (randoms : List CInt) :
    Worked start (randoms.map operationOf) (workerLoop start randoms) := by
  induction randoms using List.reverseRecOn with
  | nil => exact .nil hsized hstats
  | append_singleton randoms random ih =>
      rw [List.map_append, workerLoop, run_concat]
      exact ih.iteration random

/-- What is expected of `n` iterations: `n` operations, and a new value for each
of them that is no read. -/
structure AllWorked (start : ConcurrencyDemo K) (n : ℕ) (s : ConcurrencyDemo K) : Prop where
  operations : s.stats.spinlockOps.toNat + s.stats.mutexOps.toNat +
    s.stats.rwlockReadOps.toNat + s.stats.rwlockWriteOps.toNat = n
  nextValue : s.nextValue.toInt =
    start.nextValue.toInt + ((n - s.stats.rwlockReadOps.toNat : ℕ) : ℤ)
  values : s.dataList.map (·.value) =
    (start.dataList.map (·.value) ++
      handedOut start.nextValue (n - s.stats.rwlockReadOps.toNat)).rtake MAX_DATA_ITEMS

/-- The draws that work: each one chooses a case of the switch, no counter passes
its width, and the values handed out stay below the largest `int`. -/
structure DrawsWork (K : Kernel) (next : CInt) (randoms : List CInt) : Prop where
  cases : ∀ r ∈ randoms, 0 ≤ r.toInt ∨ 4 ∣ r.toInt
  counts : ∀ op ∈ [0, 1, 2, 3], (randoms.map operationOf).count op < 2 ^ K.bitsPerLong
  next : FitsInt (next.toInt + adds (randoms.map operationOf))

/-- The four counters add up to the number of draws exactly when every draw chose
a case and none of the counters has wrapped. -/
theorem sum_counters_iff {W : ℕ} (hW : 0 < W) (randoms : List CInt) :
    (randoms.map operationOf).count 0 % W + (randoms.map operationOf).count 1 % W +
          (randoms.map operationOf).count 2 % W + (randoms.map operationOf).count 3 % W =
        randoms.length ↔
      (∀ r ∈ randoms, 0 ≤ r.toInt ∨ 4 ∣ r.toInt) ∧
        ∀ op ∈ [0, 1, 2, 3], (randoms.map operationOf).count op < W := by
  have hcases : (∀ r ∈ randoms, 0 ≤ r.toInt ∨ 4 ∣ r.toInt) ↔
      (randoms.map operationOf).countP (· ∈ [0, 1, 2, 3]) = (randoms.map operationOf).length := by
    simp only [List.countP_eq_length, List.forall_mem_map, decide_eq_true_eq, operationOf_mem_iff]
  have hle := List.countP_le_length (p := (· ∈ [0, 1, 2, 3])) (l := randoms.map operationOf)
  have htotal := adds_add_count (randoms.map operationOf)
  have hmod : ∀ n : ℕ, n % W ≤ n ∧ (n % W = n ↔ n < W) := fun n =>
    ⟨Nat.mod_le n W, Nat.mod_eq_iff_lt hW.ne'⟩
  have hspin := hmod ((randoms.map operationOf).count 0)
  have hmutex := hmod ((randoms.map operationOf).count 1)
  have hread := hmod ((randoms.map operationOf).count 2)
  have hwrite := hmod ((randoms.map operationOf).count 3)
  rw [hcases]
  simp only [adds, List.length_map, List.forall_mem_cons, List.not_mem_nil, false_imp_iff,
    implies_true, and_true] at hle htotal ⊢
  omega

/-- The additions, counted as the draws that are no reads. -/
theorem sub_reads_eq_adds {randoms : List CInt}
    (hcases : ∀ r ∈ randoms, 0 ≤ r.toInt ∨ 4 ∣ r.toInt) :
    randoms.length - (randoms.map operationOf).count 2 = adds (randoms.map operationOf) := by
  have hall : (randoms.map operationOf).countP (· ∈ [0, 1, 2, 3]) =
      (randoms.map operationOf).length := by
    simpa only [List.countP_eq_length, List.forall_mem_map, decide_eq_true_eq,
      operationOf_mem_iff] using hcases
  rw [← adds_add_count, List.length_map] at hall
  omega

/-- A value that is handed out later, as a number. -/
theorem toInt_add_ofNat_iff (x : CInt) (n : ℕ) :
    (x + BitVec.ofNat 32 n).toInt = x.toInt + n ↔ FitsInt (x.toInt + n) := by
  have hsum : x + BitVec.ofNat 32 n = BitVec.ofInt 32 (x.toInt + n) := by
    rw [BitVec.ofInt_add, BitVec.ofInt_toInt, BitVec.ofInt_natCast]
  rw [hsum]
  exact toInt_ofInt_eq_iff

theorem Worked.drawsWork_iff {start s : ConcurrencyDemo K} {randoms : List CInt}
    (h : Worked start (randoms.map operationOf) s) :
    AllWorked start randoms.length s ↔ DrawsWork K start.nextValue randoms := by
  have hoperations : s.stats.spinlockOps.toNat + s.stats.mutexOps.toNat +
        s.stats.rwlockReadOps.toNat + s.stats.rwlockWriteOps.toNat = randoms.length ↔
      (∀ r ∈ randoms, 0 ≤ r.toInt ∨ 4 ∣ r.toInt) ∧
        ∀ op ∈ [0, 1, 2, 3], (randoms.map operationOf).count op < 2 ^ K.bitsPerLong := by
    rw [h.stats]
    simp only [LockStats.ofOps, BitVec.toNat_ofNat]
    exact sum_counters_iff (Nat.two_pow_pos _) randoms
  have hnew : (∀ r ∈ randoms, 0 ≤ r.toInt ∨ 4 ∣ r.toInt) →
      (∀ op ∈ [0, 1, 2, 3], (randoms.map operationOf).count op < 2 ^ K.bitsPerLong) →
        randoms.length - s.stats.rwlockReadOps.toNat = adds (randoms.map operationOf) := by
    intro hcases hcounts
    have hread : s.stats.rwlockReadOps.toNat = (randoms.map operationOf).count 2 := by
      rw [h.stats]
      exact (BitVec.toNat_ofNat ..).trans (Nat.mod_eq_of_lt (hcounts 2 (by simp)))
    rw [hread, sub_reads_eq_adds hcases]
  constructor
  · intro hworked
    obtain ⟨hcases, hcounts⟩ := hoperations.mp hworked.operations
    have hnext := hworked.nextValue
    rw [hnew hcases hcounts, h.nextValue] at hnext
    exact ⟨hcases, hcounts, (toInt_add_ofNat_iff ..).mp hnext⟩
  · rintro ⟨hcases, hcounts, hfits⟩
    refine ⟨hoperations.mpr ⟨hcases, hcounts⟩, ?_, ?_⟩
    · rw [hnew hcases hcounts, h.nextValue]
      exact (toInt_add_ofNat_iff ..).mpr hfits
    · rw [hnew hcases hcounts]
      exact h.values

/-- **Every iteration works.** -/
theorem allWorked_iff {start : ConcurrencyDemo K} (hsized : start.Sized)
    (hstats : start.stats = .zero K) (randoms : List CInt) :
    AllWorked start randoms.length (workerLoop start randoms) ↔
      DrawsWork K start.nextValue randoms :=
  (worked_workerLoop hsized hstats randoms).drawsWork_iff

/-- Four draws, one for each case. -/
theorem allWorked_of_four_draws :
    AllWorked (.load .x86_64) 4 (workerLoop (.load .x86_64) [4, 1, 6, 3]) := by
  have hcases : ∀ r ∈ ([4, 1, 6, 3] : List CInt), 0 ≤ r.toInt ∨ 4 ∣ r.toInt := by
    simp only [List.forall_mem_cons, List.not_mem_nil, false_imp_iff, implies_true, and_true]
    decide
  have hcounts : ∀ op ∈ [0, 1, 2, 3],
      (([4, 1, 6, 3] : List CInt).map operationOf).count op < 2 ^ 64 :=
    fun op _ => lt_of_le_of_lt List.count_le_length (by decide)
  exact (allWorked_iff (sized_load _) rfl [4, 1, 6, 3]).mpr ⟨hcases, hcounts, by decide⟩

/-- The draw -1. -/
theorem not_allWorked_of_neg :
    ¬ AllWorked (.load .x86_64) 1 (workerLoop (.load .x86_64) [-1]) := by
  intro h
  have hoperations := h.operations
  revert hoperations
  decide

end KernelModules.ConcurrencyControl
