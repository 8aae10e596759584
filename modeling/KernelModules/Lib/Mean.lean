import Mathlib.Data.BitVec
import Mathlib.Data.Nat.ModEq
import Mathlib.Algebra.BigOperators.Group.List.Basic

/-!
An integer mean that is updated in place.

`push` takes the mean of what it has seen as exact and folds the next value into
it, in machine words. The remainder of every division is lost, so the mean stays
the mean of the values only as long as no lost remainder would have carried: the
condition is `NoCarry`, in terms of the number, the sum and the next value alone.
-/

namespace KernelModules.Lib

/-- A number of values and their mean, both `w` bits wide. -/
structure RunningMean (w : ℕ) where
  count : BitVec w
  mean : BitVec w

namespace RunningMean

variable {w : ℕ}

def push (m : RunningMean w) (x : BitVec w) : RunningMean w where
  count := m.count + 1
  mean := if m.count + 1 > 0 then (m.mean * (m.count + 1 - 1) + x) / (m.count + 1) else m.mean

/-- The sum of the values. -/
def total (xs : List (BitVec w)) : ℕ := (xs.map BitVec.toNat).sum

@[simp] theorem total_nil : total ([] : List (BitVec w)) = 0 := rfl

@[simp] theorem total_concat (xs : List (BitVec w)) (x : BitVec w) :
    total (xs ++ [x]) = total xs + x.toNat := by
  simp [total]

/-- The count is right, and so is the mean of values whose sum fits. -/
structure Exact (m : RunningMean w) (xs : List (BitVec w)) : Prop where
  count : m.count = BitVec.ofNat w xs.length
  mean : xs ≠ [] → total xs < 2 ^ w → m.mean.toNat = total xs / xs.length

/-- Pushing `x` after `n` values of sum `S` loses no carry: the remainder that
the mean of the `n` values has dropped still fits beside the one that the update
drops. From `2 ^ w` values on the count has wrapped, and the mean has to stay 0. -/
def NoCarry (w n S x : ℕ) : Prop :=
  if n + 1 < 2 ^ w then (S / n * n + x) % (n + 1) + S % n < n + 1
  else if (n + 1) % 2 ^ w = 0 then S < n
  else x < (n + 1) % 2 ^ w

instance (w n S x : ℕ) : Decidable (NoCarry w n S x) := by
  unfold NoCarry
  infer_instance

/-- Dividing the whole sum is dividing what the first division left of it,
exactly when the two remainders fit together. -/
theorem div_succ_eq_iff {n S : ℕ} (hrest : S % n < n + 1) (x : ℕ) :
    (S / n * n + x) / (n + 1) = (S + x) / (n + 1) ↔
      (S / n * n + x) % (n + 1) + S % n < n + 1 := by
  have hsplit : S + x = S / n * n + x + S % n := by
    have hdiv := Nat.div_add_mod' S n
    omega
  rw [hsplit]
  generalize S / n * n + x = a
  generalize S % n = r at hrest
  have hmod : r % (n + 1) = r := Nat.mod_eq_of_lt hrest
  have hzero : r / (n + 1) = 0 := Nat.div_eq_of_lt hrest
  constructor
  · intro heq
    by_contra hcarry
    rw [Nat.add_div_eq_of_le_mod_add_mod (a := a) (b := r) (by omega) (by omega), hzero] at heq
    omega
  · intro hfits
    rw [Nat.add_div_eq_of_add_mod_lt (a := a) (b := r) (by omega), hzero]
    rfl

variable {m : RunningMean w} {xs : List (BitVec w)}

/-- The update in natural numbers. -/
theorem toNat_mean_push {k : ℕ} (hcount : m.count = BitVec.ofNat w k) (x : BitVec w) :
    (m.push x).mean.toNat =
      if (k + 1) % 2 ^ w = 0 then m.mean.toNat
      else (m.mean.toNat * (k % 2 ^ w) + x.toNat) % 2 ^ w / ((k + 1) % 2 ^ w) := by
  have hsucc : m.count + 1 = BitVec.ofNat w (k + 1) := by
    rw [hcount, BitVec.ofNat_add]
    rfl
  have hpos : m.count + 1 > 0 ↔ (k + 1) % 2 ^ w ≠ 0 := by
    rw [hsucc, gt_iff_lt, BitVec.lt_def, BitVec.toNat_ofNat]
    simp [Nat.pos_iff_ne_zero]
  unfold push
  by_cases hwrap : (k + 1) % 2 ^ w = 0
  · simp only [hpos, hwrap, ne_eq, not_true_eq_false, if_false, if_true]
  · simp only [hpos, hwrap, ne_eq, not_false_eq_true, if_true, if_false]
    rw [BitVec.add_sub_cancel, BitVec.toNat_udiv, BitVec.toNat_add, BitVec.toNat_mul, hsucc,
      hcount, BitVec.toNat_ofNat, BitVec.toNat_ofNat, Nat.mod_add_mod]

theorem count_push (hcount : m.count = BitVec.ofNat w xs.length) (x : BitVec w) :
    (m.push x).count = BitVec.ofNat w (xs ++ [x]).length := by
  rw [List.length_append, BitVec.ofNat_add, ← hcount]
  rfl

/-- The update of an exact mean whose count has not wrapped. -/
theorem mean_push_eq_iff_of_lt (h : Exact m xs) {x : BitVec w} (hn : xs.length + 1 < 2 ^ w)
    (hfits : total xs + x.toNat < 2 ^ w) :
    (m.push x).mean.toNat = (total xs + x.toNat) / (xs.length + 1) ↔
      (total xs / xs.length * xs.length + x.toNat) % (xs.length + 1) + total xs % xs.length <
        xs.length + 1 := by
  have hmul : m.mean.toNat * xs.length = total xs / xs.length * xs.length := by
    cases xs with
    | nil => rfl
    | cons y xs => rw [h.mean (by simp) (by omega)]
  have hrest : total xs % xs.length < xs.length + 1 := by
    cases xs with
    | nil => simp
    | cons y xs => exact Nat.lt_succ_of_lt (Nat.mod_lt _ (by simp))
  have hle := Nat.div_mul_le_self (total xs) xs.length
  rw [toNat_mean_push h.count, Nat.mod_eq_of_lt hn, if_neg (by omega),
    Nat.mod_eq_of_lt (Nat.lt_of_succ_lt hn), hmul, Nat.mod_eq_of_lt (by omega),
    div_succ_eq_iff hrest]

/-- The update of an exact mean whose count wraps, or has wrapped: the mean of so
many values is 0. -/
theorem mean_push_eq_iff_of_le (hw : 0 < w) (h : Exact m xs) {x : BitVec w}
    (hn : 2 ^ w ≤ xs.length + 1) (hfits : total xs + x.toNat < 2 ^ w) :
    (m.push x).mean.toNat = (total xs + x.toNat) / (xs.length + 1) ↔
      if (xs.length + 1) % 2 ^ w = 0 then total xs < xs.length
      else x.toNat < (xs.length + 1) % 2 ^ w := by
  have htwo : 2 ^ 1 ≤ 2 ^ w := Nat.pow_le_pow_right (by decide) hw
  have hpos : 0 < xs.length := by omega
  have hmean : m.mean.toNat = total xs / xs.length :=
    h.mean (List.ne_nil_of_length_pos hpos) (by omega)
  rw [toNat_mean_push h.count, Nat.div_eq_of_lt (show total xs + x.toNat < xs.length + 1 by omega)]
  split
  · rw [hmean, Nat.div_eq_zero_iff_lt hpos]
  · rename_i hwrap
    have hne : xs.length + 1 ≠ 2 ^ w := by
      intro heq
      exact hwrap (by rw [heq, Nat.mod_self])
    have hzero : m.mean.toNat = 0 := by
      rw [hmean]
      exact Nat.div_eq_of_lt (by omega)
    rw [hzero, Nat.zero_mul, Nat.zero_add, Nat.mod_eq_of_lt x.isLt,
      Nat.div_eq_zero_iff_lt (Nat.pos_of_ne_zero hwrap)]

/-- **One update.** The mean stays exact exactly when no carry is lost. -/
theorem exact_push_iff (hw : 0 < w) (h : Exact m xs) (x : BitVec w) :
    Exact (m.push x) (xs ++ [x]) ↔
      (total xs + x.toNat < 2 ^ w → NoCarry w xs.length (total xs) x.toNat) := by
  have hmean : Exact (m.push x) (xs ++ [x]) ↔ (total xs + x.toNat < 2 ^ w →
      (m.push x).mean.toNat = (total xs + x.toNat) / (xs.length + 1)) := by
    constructor
    · intro hpush hfits
      have heq := hpush.mean (by simp) (by rw [total_concat]; exact hfits)
      rwa [total_concat, List.length_append] at heq
    · intro heq
      refine ⟨count_push h.count x, fun _ hfits => ?_⟩
      rw [total_concat] at hfits ⊢
      rw [heq hfits, List.length_append]
      rfl
  rw [hmean]
  apply imp_congr_right
  intro hfits
  unfold NoCarry
  by_cases hn : xs.length + 1 < 2 ^ w
  · rw [if_pos hn]
    exact mean_push_eq_iff_of_lt h hn hfits
  · rw [if_neg hn]
    exact mean_push_eq_iff_of_le hw h (Nat.not_lt.mp hn) hfits

end RunningMean

end KernelModules.Lib
