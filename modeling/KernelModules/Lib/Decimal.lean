import KernelModules.Lib.Numeral
import Mathlib.Tactic.IntervalCases

/-!
Numbers in decimal: the `%d` conversion of an `int`, and that the kernel's number
parser reads back what it prints, for every width of `long`.
-/

namespace KernelModules.Lib

/-- The decimal digits of a number. -/
def decimal (n : ℕ) : List UInt8 := (Nat.toDigits 10 n).map Char.toUInt8

/-- `%d`. -/
def printInt (x : BitVec 32) : List UInt8 :=
  if x.toInt < 0 then 45 :: decimal x.toInt.natAbs else decimal x.toInt.natAbs

theorem toUInt8_digitChar {d : ℕ} (h : d < 10) :
    (Nat.digitChar d).toUInt8 = UInt8.ofNat (48 + d) := by
  interval_cases d <;> rfl

theorem decimal_of_lt {n : ℕ} (h : n < 10) : decimal n = [UInt8.ofNat (48 + n)] := by
  rw [decimal, Nat.toDigits_of_lt_base h, List.map_singleton, toUInt8_digitChar h]

/-- The last digit comes last. -/
theorem decimal_of_le {n : ℕ} (h : 10 ≤ n) :
    decimal n = decimal (n / 10) ++ [UInt8.ofNat (48 + n % 10)] := by
  rw [decimal, Nat.toDigits_of_base_le (by decide) h, List.map_append, List.map_singleton,
    toUInt8_digitChar (Nat.mod_lt n (by decide))]
  rfl

theorem toNat_digit {d : ℕ} (h : d < 10) : (UInt8.ofNat (48 + d)).toNat = 48 + d := by
  rw [UInt8.toNat_ofNat']
  omega

theorem isdigit_digit {d : ℕ} (h : d < 10) : isdigit (UInt8.ofNat (48 + d)) = true := by
  interval_cases d <;> rfl

theorem isdigit_of_mem_decimal {n : ℕ} {c : UInt8} (h : c ∈ decimal n) : isdigit c = true := by
  induction n using Nat.strong_induction_on with
  | _ n ih =>
      by_cases hn : n < 10
      · rw [decimal_of_lt hn, List.mem_singleton] at h
        rw [h]
        exact isdigit_digit hn
      · rw [decimal_of_le (by omega)] at h
        rcases List.mem_append.mp h with h | h
        · exact ih (n / 10) (by omega) h
        · rw [List.mem_singleton.mp h]
          exact isdigit_digit (Nat.mod_lt n (by decide))

theorem decimal_ne_nil (n : ℕ) : decimal n ≠ [] := by
  simp [decimal]

theorem length_decimal_le {n k : ℕ} (hk : 0 < k) (h : n < 10 ^ k) : (decimal n).length ≤ k := by
  rw [decimal, List.length_map]
  exact (Nat.length_toDigits_le_iff (by decide) hk).mpr h

/-! ### Reading back -/

theorem digitsValue_decimal (n : ℕ) : digitsValue (decimal n) = n := by
  induction n using Nat.strong_induction_on with
  | _ n ih =>
      by_cases hn : n < 10
      · rw [decimal_of_lt hn, digitsValue, List.foldl_cons, List.foldl_nil, toNat_digit hn]
        omega
      · rw [decimal_of_le (by omega), digitsValue_concat, ih (n / 10) (by omega),
          toNat_digit (Nat.mod_lt n (by decide))]
        omega

/-- What `%d` prints is a numeral of the number. -/
theorem numeral_printInt (x : BitVec 32) : numeral (printInt x) = some x.toInt := by
  have hall : (decimal x.toInt.natAbs).all isdigit = true :=
    List.all_eq_true.mpr fun c hc => isdigit_of_mem_decimal hc
  refine numeral_eq_some_iff.mpr ⟨_, decimal_ne_nil x.toInt.natAbs, hall, ?_⟩
  rw [printInt, digitsValue_decimal]
  split
  · exact .inr ⟨rfl, by omega⟩
  · exact .inl ⟨rfl, by omega⟩

/-- **Round trip.** The parser reads back what `%d` printed. -/
theorem simpleStrtol_printInt {w : ℕ} (hw : 32 ≤ w) (x : BitVec 32) :
    (simpleStrtol w (printInt x)).setWidth 32 = x := by
  rw [simpleStrtol_eq hw, leadingNumber_of_numeral (numeral_printInt x), Option.getD_some,
    BitVec.ofInt_toInt]

/-- Different numbers are printed differently. -/
theorem printInt_injective : Function.Injective printInt := by
  intro x y h
  have hx := numeral_printInt x
  rw [h, numeral_printInt y] at hx
  exact (BitVec.eq_of_toInt_eq (Option.some.inj hx)).symm

/-- A printed number is a word. -/
theorem isWord_printInt (x : BitVec 32) : IsWord (printInt x) :=
  isWord_of_numeral (numeral_printInt x)

theorem length_printInt_le (x : BitVec 32) : (printInt x).length ≤ 11 := by
  have hlt : x.toInt.natAbs < 10 ^ 10 := by
    have hle := BitVec.two_mul_toInt_le (x := x)
    have hge := BitVec.le_two_mul_toInt (x := x)
    omega
  have hlen := length_decimal_le (by decide) hlt
  rw [printInt]
  split
  · exact Nat.succ_le_succ hlen
  · omega

end KernelModules.Lib
