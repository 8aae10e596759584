import KernelModules.Lib.Mean
import Mathlib.Data.Nat.Choose.Basic
import Mathlib.Order.Bounds.Defs

/-!
The greatest, the least and the mean of values, updated in place.

The first value sets the extremes and the later ones move them. The mean drops a
remainder at every update, one that is smaller than the number of values; what it has
dropped in all is therefore smaller than a triangular number, and the mean stays
between the extremes. All of this holds until the count wraps.
-/

namespace KernelModules.Lib

/-- A running mean, and the extremes of its values. -/
structure RunningSummary (w : ℕ) extends RunningMean w where
  greatest : BitVec w
  least : BitVec w

namespace RunningSummary

open RunningMean (total total_concat)

variable {w : ℕ}

def zero (w : ℕ) : RunningSummary w := ⟨⟨0, 0⟩, 0, 0⟩

def push (m : RunningSummary w) (x : BitVec w) : RunningSummary w where
  toRunningMean := m.toRunningMean.push x
  greatest := if m.count + 1 = 1 then x else if x > m.greatest then x else m.greatest
  least := if m.count + 1 = 1 then x else if x < m.least then x else m.least

/-- The summary of the values `xs`, taken in order. -/
def of (xs : List (BitVec w)) : RunningSummary w := xs.foldl push (zero w)

@[simp] theorem of_nil : of ([] : List (BitVec w)) = zero w := rfl

@[simp] theorem of_concat (xs : List (BitVec w)) (x : BitVec w) :
    of (xs ++ [x]) = (of xs).push x := by
  simp [of]

theorem count_of (xs : List (BitVec w)) : (of xs).count = BitVec.ofNat w xs.length := by
  induction xs using List.reverseRecOn with
  | nil => rfl
  | append_singleton xs x ih =>
      rw [of_concat]
      exact RunningMean.count_push ih x

theorem count_of_ne_zero {xs : List (BitVec w)} (hne : xs ≠ []) (hlen : xs.length < 2 ^ w) :
    (of xs).count ≠ 0 := by
  intro hzero
  rw [count_of, ← BitVec.toNat_inj, BitVec.toNat_ofNat, Nat.mod_eq_of_lt hlen] at hzero
  exact hne (List.eq_nil_of_length_eq_zero hzero)

/-- What the summary of at least one value says about the values: the extremes are
theirs, the mean lies between, and it has lost less than a triangular number. -/
structure Sound (m : RunningSummary w) (xs : List (BitVec w)) : Prop where
  greatest : IsGreatest {x | x ∈ xs} m.greatest
  least : IsLeast {x | x ∈ xs} m.least
  least_le : m.least ≤ m.mean
  le_greatest : m.mean ≤ m.greatest
  total_le : total xs ≤ xs.length * m.mean.toNat + xs.length * (xs.length - 1) / 2
  le_total : xs.length * m.mean.toNat ≤ total xs

/-! ### The update, before the count wraps -/

/-- The first value is its own extremes. -/
theorem extremes_push_first {m : RunningSummary w} (hcount : m.count = 0) (x : BitVec w) :
    (m.push x).greatest = x ∧ (m.push x).least = x := by
  have hfirst : m.count + 1 = 1 := by
    rw [hcount]
    exact BitVec.zero_add 1
  exact ⟨if_pos hfirst, if_pos hfirst⟩

/-- A later value moves the extremes as far as it lies outside of them. -/
theorem extremes_push_later {m : RunningSummary w} (hcount : m.count ≠ 0) (x : BitVec w) :
    (m.push x).greatest = (if x > m.greatest then x else m.greatest) ∧
      (m.push x).least = if x < m.least then x else m.least := by
  have hlater : m.count + 1 ≠ 1 := by
    intro hone
    apply hcount
    rw [← BitVec.add_sub_cancel m.count 1, hone]
    exact BitVec.sub_self 1
  exact ⟨if_neg hlater, if_neg hlater⟩

theorem isGreatest_concat {xs : List (BitVec w)} {a : BitVec w} (h : IsGreatest {y | y ∈ xs} a)
    (x : BitVec w) : IsGreatest {y | y ∈ xs ++ [x]} (if x > a then x else a) := by
  split
  · rename_i hlt
    refine ⟨by simp, fun y hy => ?_⟩
    rcases List.mem_append.mp hy with hy | hy
    · exact BitVec.le_trans (h.2 hy) (BitVec.le_of_lt hlt)
    · exact BitVec.le_of_eq (List.mem_singleton.mp hy)
  · rename_i hle
    refine ⟨List.mem_append_left _ h.1, fun y hy => ?_⟩
    rcases List.mem_append.mp hy with hy | hy
    · exact h.2 hy
    · rw [List.mem_singleton.mp hy]
      exact BitVec.not_lt.mp hle

theorem isLeast_concat {xs : List (BitVec w)} {a : BitVec w} (h : IsLeast {y | y ∈ xs} a)
    (x : BitVec w) : IsLeast {y | y ∈ xs ++ [x]} (if x < a then x else a) := by
  split
  · rename_i hlt
    refine ⟨by simp, fun y hy => ?_⟩
    rcases List.mem_append.mp hy with hy | hy
    · exact BitVec.le_trans (BitVec.le_of_lt hlt) (h.2 hy)
    · exact BitVec.le_of_eq (List.mem_singleton.mp hy).symm
  · rename_i hle
    refine ⟨List.mem_append_left _ h.1, fun y hy => ?_⟩
    rcases List.mem_append.mp hy with hy | hy
    · exact h.2 hy
    · rw [List.mem_singleton.mp hy]
      exact BitVec.not_lt.mp hle

/-- The extremes of one value. -/
theorem extremes_push_single {m : RunningSummary w} (hcount : m.count = 0) (x : BitVec w) :
    IsGreatest {y | y ∈ [x]} (m.push x).greatest ∧ IsLeast {y | y ∈ [x]} (m.push x).least := by
  obtain ⟨hgreatest, hleast⟩ := extremes_push_first hcount x
  have hmem : ∀ y ∈ [x], y = x := fun y => List.mem_singleton.mp
  rw [hgreatest, hleast]
  exact ⟨⟨List.mem_singleton_self x, fun y hy => BitVec.le_of_eq (hmem y hy)⟩,
    List.mem_singleton_self x, fun y hy => BitVec.le_of_eq (hmem y hy).symm⟩

/-- The extremes of one more value. -/
theorem extremes_push {m : RunningSummary w} {xs : List (BitVec w)} (hcount : m.count ≠ 0)
    (hgreatest : IsGreatest {y | y ∈ xs} m.greatest) (hleast : IsLeast {y | y ∈ xs} m.least)
    (x : BitVec w) :
    IsGreatest {y | y ∈ xs ++ [x]} (m.push x).greatest ∧
      IsLeast {y | y ∈ xs ++ [x]} (m.push x).least := by
  obtain ⟨hg, hl⟩ := extremes_push_later hcount x
  rw [hg, hl]
  exact ⟨isGreatest_concat hgreatest x, isLeast_concat hleast x⟩

/-- **The extremes of fewer values than the count can hold** are theirs, whatever their
sum. -/
theorem extremes_of {xs : List (BitVec w)} (hne : xs ≠ []) (hlen : xs.length < 2 ^ w) :
    IsGreatest {x | x ∈ xs} (of xs).greatest ∧ IsLeast {x | x ∈ xs} (of xs).least := by
  induction xs using List.reverseRecOn with
  | nil => exact absurd rfl hne
  | append_singleton xs x ih =>
      rw [List.length_append, List.length_singleton] at hlen
      rw [of_concat]
      by_cases hxs : xs = []
      · subst hxs
        exact extremes_push_single rfl x
      · have hshort := Nat.lt_of_succ_lt hlen
        obtain ⟨hgreatest, hleast⟩ := ih hxs hshort
        exact extremes_push (count_of_ne_zero hxs hshort) hgreatest hleast x

/-- The mean of the next value and `k` others: nothing overflows as long as the mean
of the others is not more than they give. -/
theorem toNat_mean_push {m : RunningMean w} {k : ℕ} (hcount : m.count = BitVec.ofNat w k)
    (hk : k + 1 < 2 ^ w) {x : BitVec w} (hfits : k * m.mean.toNat + x.toNat < 2 ^ w) :
    (m.push x).mean.toNat = (k * m.mean.toNat + x.toNat) / (k + 1) := by
  rw [RunningMean.toNat_mean_push hcount, Nat.mod_eq_of_lt hk, if_neg (Nat.succ_ne_zero k),
    Nat.mod_eq_of_lt (Nat.lt_of_succ_lt hk), Nat.mul_comm, Nat.mod_eq_of_lt hfits]

/-- The mean of a value and `k` others of the mean `a` is not below what both reach. -/
theorem le_div_succ {k a x b : ℕ} (ha : b ≤ a) (hx : b ≤ x) : b ≤ (k * a + x) / (k + 1) := by
  rw [Nat.le_div_iff_mul_le (Nat.succ_pos k), Nat.mul_succ, Nat.mul_comm]
  exact Nat.add_le_add (Nat.mul_le_mul_left k ha) hx

/-- Nor above what both stay below. -/
theorem div_succ_le {k a x b : ℕ} (ha : a ≤ b) (hx : x ≤ b) : (k * a + x) / (k + 1) ≤ b := by
  apply Nat.div_le_of_le_mul
  rw [Nat.succ_mul]
  exact Nat.add_le_add (Nat.mul_le_mul_left k ha) hx

/-- The summary of one value. -/
theorem sound_push_first {m : RunningSummary w} (hcount : m.count = 0) (hw : 1 < 2 ^ w)
    (x : BitVec w) : Sound (m.push x) [x] := by
  obtain ⟨hgreatest, hleast⟩ := extremes_push_first hcount x
  have hmean : (m.push x).mean = x := by
    apply BitVec.eq_of_toNat_eq
    have hpush := toNat_mean_push (m := m.toRunningMean) (k := 0) hcount hw (x := x)
      (by rw [Nat.zero_mul, Nat.zero_add]; exact x.isLt)
    rw [Nat.zero_mul, Nat.zero_add, Nat.div_one] at hpush
    exact hpush
  obtain ⟨hg, hl⟩ := extremes_push_single hcount x
  refine ⟨hg, hl, ?_, ?_, ?_, ?_⟩
  · rw [hleast, hmean]
    exact BitVec.le_refl x
  · rw [hgreatest, hmean]
    exact BitVec.le_refl x
  · rw [hmean]
    simp [total]
  · rw [hmean]
    simp [total]

/-- The summary of one more value. The mean of the values so far and the next value
lie above the new least and below the new greatest, and so does what the division
makes of them; it drops a remainder of at most `xs.length`. -/
theorem Sound.push {m : RunningSummary w} {xs : List (BitVec w)} (h : Sound m xs)
    (hcount : m.count = BitVec.ofNat w xs.length) (hne : m.count ≠ 0)
    (hlen : xs.length + 1 < 2 ^ w) {x : BitVec w} (hfits : total xs + x.toNat < 2 ^ w) :
    Sound (m.push x) (xs ++ [x]) := by
  obtain ⟨hg, hl⟩ := extremes_push hne h.greatest h.least x
  have hmean : (m.push x).mean.toNat =
      (xs.length * m.mean.toNat + x.toNat) / (xs.length + 1) :=
    toNat_mean_push hcount hlen (by have hle := h.le_total; omega)
  have hsplit := Nat.div_add_mod (xs.length * m.mean.toNat + x.toNat) (xs.length + 1)
  have hrest : (xs.length * m.mean.toNat + x.toNat) % (xs.length + 1) < xs.length + 1 :=
    Nat.mod_lt _ (Nat.succ_pos _)
  rw [← hmean] at hsplit
  have htriangle := Nat.triangle_succ xs.length
  have hbelow := h.total_le
  have habove := h.le_total
  have hold : ∀ y ∈ xs, y ∈ xs ++ [x] := fun _ => List.mem_append_left _
  have hnew : x ∈ xs ++ [x] := List.mem_append_right _ (List.mem_singleton_self x)
  refine ⟨hg, hl, ?_, ?_, ?_, ?_⟩
  · rw [BitVec.le_def, hmean]
    exact le_div_succ (BitVec.le_trans (hl.2 (hold _ h.least.1)) h.least_le) (hl.2 hnew)
  · rw [BitVec.le_def, hmean]
    exact div_succ_le (BitVec.le_trans h.le_greatest (hg.2 (hold _ h.greatest.1))) (hg.2 hnew)
  · rw [total_concat, List.length_append, List.length_singleton]
    omega
  · rw [total_concat, List.length_append, List.length_singleton]
    omega

/-- **The summary of fewer values than the count can hold** is sound, if their sum
fits. -/
theorem sound_of {xs : List (BitVec w)} (hne : xs ≠ []) (hlen : xs.length < 2 ^ w)
    (hfits : total xs < 2 ^ w) : Sound (of xs) xs := by
  induction xs using List.reverseRecOn with
  | nil => exact absurd rfl hne
  | append_singleton xs x ih =>
      rw [List.length_append, List.length_singleton] at hlen
      rw [total_concat] at hfits
      rw [of_concat]
      by_cases hxs : xs = []
      · subst hxs
        exact sound_push_first rfl hlen x
      · have hcount : (of xs).count ≠ 0 := count_of_ne_zero hxs (Nat.lt_of_succ_lt hlen)
        exact (ih hxs (by omega) (by omega)).push (count_of xs) hcount hlen hfits

/-! ### The update that wraps the count -/

theorem total_replicate_one (hw : 0 < w) (n : ℕ) :
    total (List.replicate n (1 : BitVec w)) = n := by
  have hone : (1 : BitVec w).toNat = 1 := BitVec.toNat_one hw
  rw [total, List.map_replicate, hone, List.sum_replicate, Nat.nsmul_eq_mul, Nat.mul_one]

theorem mean_of_replicate_one (hw : 0 < w) {n : ℕ} (hpos : 0 < n) (hn : n < 2 ^ w) :
    (of (List.replicate n (1 : BitVec w))).mean = 1 := by
  have hne : List.replicate n (1 : BitVec w) ≠ [] :=
    List.ne_nil_of_length_pos (by simpa using hpos)
  have h := sound_of hne (by simpa using hn) (by rw [total_replicate_one hw]; exact hn)
  have hleast := h.least_le
  have hgreatest := h.le_greatest
  rw [List.eq_of_mem_replicate h.least.1] at hleast
  rw [List.eq_of_mem_replicate h.greatest.1] at hgreatest
  exact BitVec.le_antisymm hgreatest hleast

/-- As many values as the count has: it wraps, and the mean of the ones stays. -/
theorem mean_of_wrapping (hw : 0 < w) (x : BitVec w) :
    (of (List.replicate (2 ^ w - 1) (1 : BitVec w) ++ [x])).mean = 1 := by
  have htwo : 2 ^ 1 ≤ 2 ^ w := Nat.pow_le_pow_right (by decide) hw
  have hwrap : 2 ^ w - 1 + 1 = 2 ^ w := by omega
  have hcount := count_of (List.replicate (2 ^ w - 1) (1 : BitVec w))
  rw [List.length_replicate] at hcount
  rw [of_concat]
  apply BitVec.eq_of_toNat_eq
  have hpush := RunningMean.toNat_mean_push hcount x
  rw [hwrap, Nat.mod_self, if_pos rfl, mean_of_replicate_one hw (by omega) (by omega)] at hpush
  exact hpush

/-- The sum of so many ones and a zero fits, and the mean has gained on it. -/
theorem not_sound_wrapping (hw : 0 < w) :
    total (List.replicate (2 ^ w - 1) (1 : BitVec w) ++ [0]) < 2 ^ w ∧
      ¬ Sound (of (List.replicate (2 ^ w - 1) (1 : BitVec w) ++ [0]))
        (List.replicate (2 ^ w - 1) (1 : BitVec w) ++ [0]) := by
  have hpos : 0 < 2 ^ w := Nat.two_pow_pos w
  have hone : (1 : BitVec w).toNat = 1 := BitVec.toNat_one hw
  have htotal : total (List.replicate (2 ^ w - 1) (1 : BitVec w) ++ [0]) = 2 ^ w - 1 := by
    rw [total_concat, total_replicate_one hw]
    rfl
  refine ⟨by omega, fun h => ?_⟩
  have hle := h.le_total
  rw [mean_of_wrapping hw, hone, htotal, List.length_append, List.length_replicate,
    List.length_singleton] at hle
  omega

end RunningSummary

end KernelModules.Lib
