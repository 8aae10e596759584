import KernelModules.Lib.Words
import Mathlib.Data.List.DropRight

/-!
Decimal numerals, and what the kernel's number parsers make of a text.

`numeral` is the grammar: digits, after a minus sign or not, and nothing else. The
parsers take the number that a text starts with and do not look at what follows
it; a text that starts with none is read as 0 by `simple_strtol` and refused by
`%d`. Both narrow the value to an `int` without a check.
-/

namespace KernelModules.Lib

/-- The number that digits denote. -/
def digitsValue (digits : List UInt8) : ℕ :=
  digits.foldl (fun value c => value * 10 + (c.toNat - 48)) 0

/-- What follows the minus sign, if there is one. -/
def magnitude (s : List UInt8) : List UInt8 := if s.headD 0 = 45 then s.tail else s

/-- The number with the sign of the text. -/
def withSign (s : List UInt8) (n : ℕ) : ℤ := if s.headD 0 = 45 then -n else n

/-- The value of a text that is a numeral. -/
def numeral (s : List UInt8) : Option ℤ :=
  if magnitude s ≠ [] ∧ (magnitude s).all isdigit then some (withSign s (digitsValue (magnitude s)))
  else none

/-- The number that a text starts with, if it starts with one. -/
def leadingNumber (s : List UInt8) : Option ℤ :=
  if isdigit ((magnitude s).headD 0) then
    some (withSign s (digitsValue ((magnitude s).takeWhile isdigit)))
  else none

/-- A text without the white space around it. -/
def trimSpaces (s : List UInt8) : List UInt8 := (skipSpaces s).rdropWhile isspace

/-- The number is an `int`. -/
def FitsInt (n : ℤ) : Prop := -2 ^ 31 ≤ n ∧ n < 2 ^ 31

instance (n : ℤ) : Decidable (FitsInt n) := inferInstanceAs (Decidable (_ ∧ _))

theorem fitsInt_toInt (x : BitVec 32) : FitsInt x.toInt := by
  have hlt := BitVec.two_mul_toInt_lt (x := x)
  have hge := BitVec.le_two_mul_toInt (x := x)
  constructor <;> omega

theorem toInt_ofInt_of_fits {n : ℤ} (h : FitsInt n) : (BitVec.ofInt 32 n).toInt = n := by
  obtain ⟨hge, hlt⟩ := h
  rw [BitVec.toInt_ofInt]
  exact Int.bmod_eq_of_le (by omega) (by omega)

/-- Narrowing keeps the numbers that are an `int`, and no others. -/
theorem toInt_ofInt_eq_iff {n : ℤ} : (BitVec.ofInt 32 n).toInt = n ↔ FitsInt n := by
  constructor
  · intro h
    rw [← h]
    exact fitsInt_toInt _
  · exact toInt_ofInt_of_fits

/-! ### Digits -/

@[simp] theorem digitsValue_nil : digitsValue [] = 0 := rfl

theorem digitsValue_concat (s : List UInt8) (c : UInt8) :
    digitsValue (s ++ [c]) = digitsValue s * 10 + (c.toNat - 48) := by
  simp [digitsValue]

theorem digitsValue_append (s t : List UInt8) :
    digitsValue (s ++ t) = digitsValue s * 10 ^ t.length + digitsValue t := by
  induction t using List.reverseRecOn with
  | nil => simp
  | append_singleton t c ih =>
      rw [← List.append_assoc, digitsValue_concat, ih, digitsValue_concat, List.length_append,
        List.length_singleton, Nat.pow_succ, Nat.add_mul, Nat.mul_assoc, Nat.add_assoc]

/-- A number cut short is the number only if it is 0. -/
theorem digitsValue_eq_append_iff {s t : List UInt8} (ht : t ≠ []) :
    digitsValue s = digitsValue (s ++ t) ↔ digitsValue (s ++ t) = 0 := by
  have hlen : 1 ≤ t.length := List.length_pos_of_ne_nil ht
  have hten : 10 ^ 1 ≤ 10 ^ t.length := Nat.pow_le_pow_right (by decide) hlen
  have hmul : digitsValue s * 10 ^ 1 ≤ digitsValue s * 10 ^ t.length := Nat.mul_le_mul_left _ hten
  have happend := digitsValue_append s t
  omega

/-! ### The parsers -/

/-- The parser keeps the value of the digits up to its width. -/
theorem foldl_digits (digits : List UInt8) :
    digits.foldl (fun value c => value * 10 + BitVec.ofNat 64 (c.toNat - 48)) 0 =
      BitVec.ofNat 64 (digitsValue digits) := by
  induction digits using List.reverseRecOn with
  | nil => rfl
  | append_singleton digits c ih =>
      rw [List.foldl_append, ih, digitsValue_concat, List.foldl_cons, List.foldl_nil,
        BitVec.ofNat_add, BitVec.ofNat_mul]
      rfl

theorem simpleStrtoull_eq (s : List UInt8) :
    simpleStrtoull s = BitVec.ofNat 64 (digitsValue (s.takeWhile isdigit)) :=
  foldl_digits _

theorem setWidth_ofNat_narrow {w : ℕ} (hw : 32 ≤ w) (n : ℕ) :
    ((BitVec.ofNat 64 n).setWidth w).setWidth 32 = BitVec.ofInt 32 n := by
  rw [BitVec.setWidth_setWidth_of_le _ hw, BitVec.setWidth_ofNat_of_le (by decide),
    BitVec.ofInt_natCast]

/-- `simple_strtol` takes the number at the start of the text, or 0. -/
theorem simpleStrtol_eq {w : ℕ} (hw : 32 ≤ w) (s : List UInt8) :
    (simpleStrtol w s).setWidth 32 = BitVec.ofInt 32 ((leadingNumber s).getD 0) := by
  have hnone : ∀ t : List UInt8, ¬ isdigit (t.headD 0) = true → t.takeWhile isdigit = [] := by
    intro t ht
    cases t with
    | nil => rfl
    | cons c t => exact List.takeWhile_cons_of_neg ht
  rw [simpleStrtol, leadingNumber, withSign, magnitude]
  by_cases hsign : s.headD 0 = 45
  · simp only [if_pos hsign, simpleStrtoull_eq]
    rw [BitVec.setWidth_neg_of_le hw, setWidth_ofNat_narrow hw, ← BitVec.ofInt_neg]
    split
    · rfl
    · rename_i hdigit
      rw [hnone _ hdigit]
      rfl
  · simp only [if_neg hsign, simpleStrtoull_eq]
    rw [setWidth_ofNat_narrow hw]
    split
    · rfl
    · rename_i hdigit
      rw [hnone _ hdigit]
      rfl

theorem cstr_skipSpaces (s : List UInt8) : cstr (skipSpaces s) = skipSpaces (cstr s) := by
  induction s with
  | nil => rfl
  | cons c s ih =>
      by_cases hspace : isspace c = true
      · have hzero : c ≠ 0 := by
          rintro rfl
          cases hspace
        have hcstr : cstr (c :: s) = c :: cstr s := by simp [cstr, hzero]
        rw [hcstr, skipSpaces, skipSpaces, List.dropWhile_cons_of_pos hspace,
          List.dropWhile_cons_of_pos hspace]
        exact ih
      · rw [skipSpaces, List.dropWhile_cons_of_neg hspace]
        by_cases hzero : c = 0
        · simp [cstr, hzero, skipSpaces]
        · have hcstr : cstr (c :: s) = c :: cstr s := by simp [cstr, hzero]
          rw [hcstr, skipSpaces, List.dropWhile_cons_of_neg hspace]

/-- A number ends before a NUL anyway. -/
theorem leadingNumber_cstr (s : List UInt8) : leadingNumber (cstr s) = leadingNumber s := by
  have hhead : ∀ s : List UInt8, (cstr s).headD 0 = s.headD 0 := by
    intro s
    cases s with
    | nil => rfl
    | cons c s => by_cases hzero : c = 0 <;> simp [cstr, hzero]
  have hdigits : ∀ s : List UInt8, (cstr s).takeWhile isdigit = s.takeWhile isdigit := by
    intro s
    induction s with
    | nil => rfl
    | cons c s ih =>
        by_cases hzero : c = 0
        · subst hzero
          rfl
        · have hcstr : cstr (c :: s) = c :: cstr s := by simp [cstr, hzero]
          rw [hcstr, List.takeWhile_cons, List.takeWhile_cons, ih]
  have hmagnitude : magnitude (cstr s) = cstr (magnitude s) := by
    rw [magnitude, magnitude, hhead]
    split
    · rename_i hsign
      cases s with
      | nil => rfl
      | cons c s =>
          rw [List.headD_cons] at hsign
          subst hsign
          rfl
    · rfl
  rw [leadingNumber, leadingNumber, hmagnitude, hhead, hdigits, withSign, withSign, hhead]

/-- `%d` takes the number at the start of the text, after white space. -/
theorem scanInt_eq (s : List UInt8) :
    scanInt s = (leadingNumber (skipSpaces s)).map (BitVec.ofInt 32) := by
  have hscan : scanInt s =
      if isdigit ((magnitude (skipSpaces (cstr s))).headD 0) then
        some ((simpleStrtol 64 (skipSpaces (cstr s))).setWidth 32)
      else none := rfl
  rw [← leadingNumber_cstr (skipSpaces s), cstr_skipSpaces, hscan, simpleStrtol_eq (by decide),
    leadingNumber]
  split
  · rfl
  · rfl

/-! ### Numerals -/

theorem ne_space_of_isdigit {c : UInt8} (h : isdigit c = true) : isspace c = false ∧ c ≠ 0 := by
  simp only [isdigit, Bool.and_eq_true, decide_eq_true_eq, UInt8.le_iff_toNat_le] at h
  refine ⟨?_, ?_⟩
  · simp only [isspace, Bool.or_eq_false_iff, Bool.and_eq_false_iff, decide_eq_false_iff_not,
      UInt8.le_iff_toNat_le, ← UInt8.toNat_inj]
    simp at h ⊢
    omega
  · rintro rfl
    simp at h

theorem headD_digits {digits : List UInt8} (hne : digits ≠ []) (hall : digits.all isdigit = true)
    (t : List UInt8) :
    isdigit ((digits ++ t).headD 0) = true ∧ (digits ++ t).headD 0 ≠ 45 := by
  obtain ⟨c, rest, rfl⟩ := List.exists_cons_of_ne_nil hne
  have hc : isdigit c = true := List.all_eq_true.mp hall c (List.mem_cons_self ..)
  rw [List.cons_append, List.headD_cons]
  refine ⟨hc, ?_⟩
  rintro rfl
  cases hc

/-- A numeral is its digits, after a minus sign or not. -/
theorem numeral_eq_some_iff {s : List UInt8} {n : ℤ} :
    numeral s = some n ↔ ∃ digits, digits ≠ [] ∧ digits.all isdigit = true ∧
      (s = digits ∧ n = digitsValue digits ∨ s = 45 :: digits ∧ n = -digitsValue digits) := by
  rw [numeral]
  constructor
  · intro h
    split at h
    · rename_i hgrammar
      refine ⟨magnitude s, hgrammar.1, hgrammar.2, ?_⟩
      rw [Option.some.injEq] at h
      rw [← h, withSign]
      by_cases hsign : s.headD 0 = 45
      · right
        cases s with
        | nil => cases hsign
        | cons c s =>
            rw [List.headD_cons] at hsign
            subst hsign
            exact ⟨rfl, rfl⟩
      · left
        rw [magnitude, if_neg hsign, if_neg hsign]
        exact ⟨rfl, rfl⟩
    · cases h
  · rintro ⟨digits, hne, hall, ⟨rfl, rfl⟩ | ⟨rfl, rfl⟩⟩
    · have hsign := (headD_digits hne hall []).2
      rw [List.append_nil] at hsign
      rw [magnitude, withSign, if_neg hsign, if_neg hsign, if_pos ⟨hne, hall⟩]
    · exact if_pos ⟨hne, hall⟩

theorem isWord_of_numeral {s : List UInt8} {n : ℤ} (h : numeral s = some n) : IsWord s := by
  obtain ⟨digits, hne, hall, hs⟩ := numeral_eq_some_iff.mp h
  have hdigits : IsWord digits :=
    ⟨hne, fun c hc => (ne_space_of_isdigit (List.all_eq_true.mp hall c hc)).1,
      fun c hc => (ne_space_of_isdigit (List.all_eq_true.mp hall c hc)).2⟩
  rcases hs with ⟨rfl, -⟩ | ⟨rfl, -⟩
  · exact hdigits
  · refine ⟨List.cons_ne_nil _ _, fun c hc => ?_, fun c hc => ?_⟩
    · rcases List.mem_cons.mp hc with rfl | hc
      · rfl
      · exact hdigits.not_space c hc
    · rcases List.mem_cons.mp hc with rfl | hc
      · decide
      · exact hdigits.ne_zero c hc

/-- A numeral that starts a longer text, with no further digit behind it. -/
theorem leadingNumber_append {s t : List UInt8} {n : ℤ} (h : numeral s = some n)
    (ht : isdigit (t.headD 0) = false) : leadingNumber (s ++ t) = some n := by
  obtain ⟨digits, hne, hall, hs⟩ := numeral_eq_some_iff.mp h
  have hstop : t.takeWhile isdigit = [] := by
    cases t with
    | nil => rfl
    | cons c t => exact List.takeWhile_cons_of_neg (by simpa using ht)
  have hdigits : (digits ++ t).takeWhile isdigit = digits := by
    rw [List.takeWhile_append_of_pos (List.all_eq_true.mp hall), hstop, List.append_nil]
  obtain ⟨hdigit, hsign⟩ := headD_digits hne hall t
  rcases hs with ⟨rfl, rfl⟩ | ⟨rfl, rfl⟩
  · rw [leadingNumber, magnitude, withSign, if_neg hsign, if_neg hsign, if_pos hdigit, hdigits]
  · have hmagnitude : magnitude (45 :: digits ++ t) = digits ++ t := rfl
    rw [leadingNumber, hmagnitude, if_pos hdigit, hdigits]
    rfl

theorem leadingNumber_of_numeral {s : List UInt8} {n : ℤ} (h : numeral s = some n) :
    leadingNumber s = some n := by
  have happend := leadingNumber_append (t := []) h rfl
  rwa [List.append_nil] at happend

theorem digits_take {digits : List UInt8} (hall : digits.all isdigit = true) {k : ℕ} (hk : 0 < k)
    (hlen : k < digits.length) :
    digits.take k ≠ [] ∧ (digits.take k).all isdigit = true ∧
      digitsValue (digits.take k) ≤ digitsValue digits ∧
      (digitsValue (digits.take k) = digitsValue digits ↔ digitsValue digits = 0) := by
  have hrest : digits.drop k ≠ [] := by simpa using hlen
  have hsame := digitsValue_eq_append_iff (s := digits.take k) hrest
  have hle : digitsValue (digits.take k) ≤ digitsValue (digits.take k ++ digits.drop k) := by
    rw [digitsValue_append]
    exact (Nat.le_mul_of_pos_right _ (Nat.pow_pos (by decide))).trans (Nat.le_add_right ..)
  rw [List.take_append_drop] at hsame hle
  refine ⟨?_, ?_, hle, hsame⟩
  · rw [ne_eq, List.take_eq_nil_iff, not_or]
    exact ⟨hk.ne', List.ne_nil_of_length_pos (by omega)⟩
  · exact List.all_eq_true.mpr fun c hc => List.all_eq_true.mp hall c (List.mem_of_mem_take hc)

/-- A numeral cut short is a numeral too, of the same number only if that is 0. -/
theorem numeral_take {s : List UInt8} {n : ℤ} (h : numeral s = some n) {k : ℕ} (hk : 1 < k)
    (hlen : k < s.length) :
    ∃ m, numeral (s.take k) = some m ∧ (FitsInt n → FitsInt m) ∧ (m = n ↔ n = 0) := by
  obtain ⟨digits, hne, hall, hs⟩ := numeral_eq_some_iff.mp h
  rcases hs with ⟨rfl, rfl⟩ | ⟨rfl, rfl⟩
  · obtain ⟨hne', hall', hle, hsame⟩ := digits_take hall (k := k) (by omega) hlen
    refine ⟨_, numeral_eq_some_iff.mpr ⟨_, hne', hall', .inl ⟨rfl, rfl⟩⟩, ?_, ?_⟩
    · rintro ⟨-, hlt⟩
      constructor <;> omega
    · omega
  · rw [List.length_cons] at hlen
    obtain ⟨hne', hall', hle, hsame⟩ := digits_take hall (k := k - 1) (by omega) (by omega)
    have htake : (45 :: digits).take k = 45 :: digits.take (k - 1) := by
      rw [← List.take_succ_cons, Nat.sub_add_cancel (by omega)]
    rw [htake]
    refine ⟨_, numeral_eq_some_iff.mpr ⟨_, hne', hall', .inr ⟨rfl, rfl⟩⟩, ?_, ?_⟩
    · rintro ⟨hge, -⟩
      constructor <;> omega
    · omega

/-! ### White space around a text -/

theorem skipSpaces_eq_trim (s : List UInt8) :
    ∃ spaces : List UInt8, skipSpaces s = trimSpaces s ++ spaces ∧
      ∀ c ∈ spaces, isspace c = true :=
  ⟨(skipSpaces s).rtakeWhile isspace, (List.rdropWhile_append_rtakeWhile ..).symm,
    fun _ hc => List.mem_rtakeWhile_imp hc⟩

/-- A word with white space around it. -/
theorem firstWord_eq_trim {s : List UInt8} (h : IsWord (trimSpaces s)) :
    firstWord s = trimSpaces s := by
  obtain ⟨spaces, hskip, hspaces⟩ := skipSpaces_eq_trim s
  have hrest : ∀ c ∈ spaces.head?, isspace c = true := fun c hc =>
    hspaces c (List.mem_of_mem_head? hc)
  have hfirst := (firstWord_append h hrest).1
  rwa [← hskip, firstWord, skipSpaces_skipSpaces, ← firstWord] at hfirst

theorem trimSpaces_eq_nil_iff {s : List UInt8} : trimSpaces s = [] ↔ firstWord s = [] := by
  rw [firstWord_eq_nil_iff]
  constructor
  · intro h
    have hspaces := List.rdropWhile_eq_nil_iff.mp h
    rw [← skipSpaces_skipSpaces]
    exact List.dropWhile_eq_nil_iff.mpr hspaces
  · intro h
    rw [trimSpaces, h, List.rdropWhile_nil]

/-- A numeral with white space around it is the number found there. -/
theorem leadingNumber_skipSpaces {s : List UInt8} {n : ℤ} (h : numeral (trimSpaces s) = some n) :
    leadingNumber (skipSpaces s) = some n := by
  obtain ⟨spaces, hskip, hspaces⟩ := skipSpaces_eq_trim s
  rw [hskip]
  apply leadingNumber_append h
  cases spaces with
  | nil => rfl
  | cons c spaces =>
      have hc := hspaces c (List.mem_cons_self ..)
      by_contra hdigit
      rw [List.headD_cons, Bool.not_eq_false] at hdigit
      rw [(ne_space_of_isdigit hdigit).1] at hc
      cases hc

end KernelModules.Lib
