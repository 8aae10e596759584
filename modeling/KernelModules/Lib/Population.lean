import Mathlib.Algebra.Group.Nat.Defs
import Mathlib.Data.Nat.Basic

/-!
Counting a population in machine words.

Four counters of width `w`: how many members have entered, how many have left,
how many there are, and the most there have been. Nothing checks them, so they
are right only as long as nobody leaves who is not counted and fewer than `2 ^ w`
members enter. `Sound n` is the invariant: the counters balance, and `n` members
that may still leave are among those counted as present. `Steady n` is what is
left of it when the counters may wrap.
-/

namespace KernelModules.Lib

variable {w : ℕ}

/-! ### Increments and decrements -/

theorem toNat_one_of_pos (hw : 0 < w) : (1 : BitVec w).toNat = 1 := BitVec.toNat_one hw

/-- An increment below `2 ^ w` does not wrap. -/
theorem toNat_add_one {x : BitVec w} (h : x.toNat + 1 < 2 ^ w) : (x + 1).toNat = x.toNat + 1 := by
  have hw : 0 < w := Nat.pos_of_ne_zero fun hw => by simp [hw] at h
  rw [BitVec.toNat_add_of_lt (by rwa [toNat_one_of_pos hw]), toNat_one_of_pos hw]

theorem toNat_add_one_le (x : BitVec w) : (x + 1).toNat ≤ x.toNat + 1 := by
  by_cases h : x.toNat + 1 < 2 ^ w
  · rw [toNat_add_one h]
  · have hlt := (x + 1).isLt
    omega

/-- A decrement of a positive counter does not wrap. -/
theorem toNat_sub_one {x : BitVec w} (h : 0 < x.toNat) : (x - 1).toNat = x.toNat - 1 := by
  have hlt := x.isLt
  have hw : 0 < w := Nat.pos_of_ne_zero fun hw => by simp only [hw] at hlt; omega
  rw [BitVec.toNat_sub_of_le (by rw [BitVec.le_def, toNat_one_of_pos hw]; omega),
    toNat_one_of_pos hw]

/-! ### Four counters -/

structure Population (w : ℕ) where
  entered : BitVec w
  left : BitVec w
  present : BitVec w
  peak : BitVec w
  deriving DecidableEq

namespace Population

def zero (w : ℕ) : Population w := ⟨0, 0, 0, 0⟩

/-- A member enters. -/
def enter (p : Population w) : Population w where
  entered := p.entered + 1
  left := p.left
  present := p.present + 1
  peak := if p.present + 1 > p.peak then p.present + 1 else p.peak

/-- A member leaves. -/
def leave (p : Population w) : Population w :=
  { p with left := p.left + 1, present := p.present - 1 }

/-- What the counters are meant to say. -/
structure Right (p : Population w) : Prop where
  left_le : p.left ≤ p.entered
  present_eq : p.present.toNat = p.entered.toNat - p.left.toNat
  present_le : p.present ≤ p.peak
  peak_le : p.peak ≤ p.entered

/-- The counters balance, and `n` members who may yet leave are counted as
present. -/
structure Sound (n : ℕ) (p : Population w) : Prop where
  balance : p.entered.toNat = p.present.toNat + p.left.toNat
  may_leave : n ≤ p.present.toNat
  present_le : p.present.toNat ≤ p.peak.toNat
  peak_le : p.peak.toNat ≤ p.entered.toNat

theorem sound_zero (w : ℕ) : Sound 0 (zero w) := by
  constructor <;> simp [zero]

theorem Sound.mono {m n : ℕ} {p : Population w} (h : Sound n p) (hm : m ≤ n) : Sound m p :=
  { h with may_leave := Nat.le_trans hm h.may_leave }

theorem Sound.right {n : ℕ} {p : Population w} (h : Sound n p) : Right p where
  left_le := by rw [BitVec.le_def, h.balance]; omega
  present_eq := by rw [h.balance]; omega
  present_le := h.present_le
  peak_le := h.peak_le

theorem toNat_peak_enter {p : Population w} :
    p.enter.peak.toNat = max p.peak.toNat p.enter.present.toNat := by
  simp only [enter]
  by_cases h : p.present + 1 > p.peak
  · rw [if_pos h]
    rw [gt_iff_lt, BitVec.lt_def] at h
    omega
  · rw [if_neg h]
    rw [gt_iff_lt, BitVec.lt_def] at h
    omega

/-- Entering is sound while the counter of entries has room. -/
theorem Sound.enter {n : ℕ} {p : Population w} (h : Sound n p)
    (hroom : p.entered.toNat + 1 < 2 ^ w) : Sound (n + 1) p.enter := by
  obtain ⟨hbalance, hn, hpresent, hpeak⟩ := h
  have hentered : p.enter.entered.toNat = p.entered.toNat + 1 := toNat_add_one hroom
  have hpresent' : p.enter.present.toNat = p.present.toNat + 1 := toNat_add_one (by omega)
  have hleft : p.enter.left = p.left := rfl
  have hpeak' := toNat_peak_enter (p := p)
  constructor <;> simp only [hpeak', hpresent', hleft, hentered] <;> omega

/-- Leaving is sound for a member who is counted as present. -/
theorem Sound.leave {n : ℕ} {p : Population w} (h : Sound (n + 1) p) : Sound n p.leave := by
  obtain ⟨hbalance, hn, hpresent, hpeak⟩ := h
  have hroom := p.entered.isLt
  have hleft : p.leave.left.toNat = p.left.toNat + 1 := toNat_add_one (by omega)
  have hpresent' : p.leave.present.toNat = p.present.toNat - 1 := toNat_sub_one (by omega)
  have hentered : p.leave.entered = p.entered := rfl
  have hpeak' : p.leave.peak = p.peak := rfl
  constructor <;> simp only [hpresent', hleft, hentered, hpeak'] <;> omega

/-! ### Counters that may wrap -/

/-- The counters balance as words, the count does not exceed the peak, and it
covers `n` members unless it has wrapped, which leaves the greatest peak behind. -/
structure Steady (n : ℕ) (p : Population w) : Prop where
  balance : p.entered = p.left + p.present
  present_le : p.present ≤ p.peak
  covered : n ≤ p.present.toNat ∨ p.peak = BitVec.allOnes w

theorem steady_zero (w : ℕ) : Steady 0 (zero w) where
  balance := (BitVec.add_zero _).symm
  present_le := BitVec.le_refl _
  covered := .inl (Nat.zero_le _)

theorem Steady.mono {m n : ℕ} {p : Population w} (h : Steady n p) (hm : m ≤ n) : Steady m p :=
  { h with covered := h.covered.imp_left (Nat.le_trans hm) }

theorem peak_enter_of_allOnes {p : Population w} (h : p.peak = BitVec.allOnes w) :
    p.enter.peak = BitVec.allOnes w := by
  have hmax := toNat_peak_enter (p := p)
  have hlt := p.enter.peak.isLt
  apply BitVec.eq_of_toNat_eq
  rw [h, BitVec.toNat_allOnes] at hmax
  rw [BitVec.toNat_allOnes]
  omega

theorem Steady.enter {n : ℕ} {p : Population w} (h : Steady n p) : Steady (n + 1) p.enter := by
  obtain ⟨hbalance, hle, hcovered⟩ := h
  refine ⟨?_, ?_, ?_⟩
  · show p.entered + 1 = p.left + (p.present + 1)
    rw [hbalance, BitVec.add_assoc]
  · rw [BitVec.le_def, toNat_peak_enter]
    exact Nat.le_max_right ..
  · rcases hcovered with hn | hall
    · by_cases hroom : p.present.toNat + 1 < 2 ^ w
      · left
        show n + 1 ≤ (p.present + 1).toNat
        rw [toNat_add_one hroom]
        exact Nat.succ_le_succ hn
      · -- the count wraps, and the peak is as large as the count was
        right
        apply peak_enter_of_allOnes
        apply BitVec.eq_of_toNat_eq
        have hlt := p.peak.isLt
        rw [BitVec.le_def] at hle
        rw [BitVec.toNat_allOnes]
        omega
    · exact .inr (peak_enter_of_allOnes hall)

theorem Steady.leave {n : ℕ} {p : Population w} (h : Steady (n + 1) p) : Steady n p.leave := by
  obtain ⟨hbalance, hle, hcovered⟩ := h
  refine ⟨?_, ?_, ?_⟩
  · show p.entered = p.left + 1 + (p.present - 1)
    rw [hbalance, BitVec.add_assoc, BitVec.add_comm 1, BitVec.sub_add_cancel]
  · show p.present - 1 ≤ p.peak
    rcases hcovered with hn | hall
    · have hpresent := BitVec.le_def.mp hle
      rw [BitVec.le_def, toNat_sub_one (by omega)]
      omega
    · rw [hall]
      have hlt := (p.present - 1).isLt
      rw [BitVec.le_def, BitVec.toNat_allOnes]
      omega
  · apply hcovered.imp_left
    intro hn
    show n ≤ (p.present - 1).toNat
    rw [toNat_sub_one (by omega)]
    omega

/-! ### The peak as a maximum -/

/-- The peak is the greatest of the recorded values of `present`. -/
structure PeakOf (history : List (BitVec w)) (p : Population w) : Prop where
  mem : p.peak ∈ history
  le : ∀ c ∈ history, c ≤ p.peak

theorem peakOf_zero (w : ℕ) : PeakOf [0] (zero w) :=
  ⟨List.mem_singleton_self _, fun c hc => by rw [List.mem_singleton.mp hc]; exact BitVec.le_refl _⟩

theorem PeakOf.push {history : List (BitVec w)} {p : Population w} (h : PeakOf history p)
    {c : BitVec w} (hc : c ≤ p.peak) : PeakOf (history ++ [c]) p := by
  refine ⟨List.mem_append_left _ h.mem, fun c' hc' => ?_⟩
  rcases List.mem_append.mp hc' with hc' | hc'
  · exact h.le c' hc'
  · rw [List.mem_singleton.mp hc']
    exact hc

theorem PeakOf.enter {history : List (BitVec w)} {p : Population w} (h : PeakOf history p) :
    PeakOf (history ++ [p.enter.present]) p.enter := by
  by_cases hgt : p.present + 1 > p.peak
  · have hpeak : p.enter.peak = p.enter.present := by rw [Population.enter, if_pos hgt]
    refine ⟨by simp [hpeak], fun c hc => ?_⟩
    rw [hpeak]
    rcases List.mem_append.mp hc with hc | hc
    · exact BitVec.le_trans (h.le c hc) (BitVec.le_of_lt hgt)
    · rw [List.mem_singleton.mp hc]
      exact BitVec.le_refl _
  · have hpeak : p.enter.peak = p.peak := by rw [Population.enter, if_neg hgt]
    have hpush := h.push (c := p.enter.present) (BitVec.not_lt.mp hgt)
    exact ⟨hpeak ▸ hpush.mem, hpeak ▸ hpush.le⟩

/-- Leaving when nobody has entered is what `Right` rules out. -/
theorem not_right_leave_zero (hw : 0 < w) : ¬ Right (zero w).leave := by
  intro h
  have hle := BitVec.le_def.mp h.left_le
  have hleft : (zero w).leave.left.toNat = 1 := by
    have hsum : (zero w).leave.left = 1 := BitVec.zero_add 1
    rw [hsum, toNat_one_of_pos hw]
  have hentered : (zero w).leave.entered.toNat = 0 := by simp [leave, zero]
  omega

end Population

end KernelModules.Lib
