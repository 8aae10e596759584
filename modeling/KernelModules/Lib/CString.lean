import Mathlib.Data.List.TakeWhile
import Mathlib.Data.BitVec

/-!
Byte strings as C code in a kernel sees them.

A pointer to characters is read as the list of bytes that follows it; the string
it denotes ends before the first NUL, and a list without a NUL is read as if one
followed. A fixed-size buffer is a list that carries its length. The functions
are the string functions of the Linux kernel, with its `isspace` (Latin-1, so
the no-break space counts), its `%s` conversion and its wrapping number parser.
-/

namespace KernelModules.Lib

/-- The bytes of a string constant. -/
def ascii (s : List Char) : List UInt8 := s.map Char.toUInt8

/-- The string that starts here: the bytes before the first NUL. -/
def cstr (s : List UInt8) : List UInt8 := s.takeWhile (· ≠ 0)

/-- A buffer of `n` characters. -/
structure CharArray (n : ℕ) where
  bytes : List UInt8
  length_eq : bytes.length = n
  deriving DecidableEq

namespace CharArray

variable {n : ℕ}

/-- The buffer after a `memset` to zero. -/
def zero (n : ℕ) : CharArray n := ⟨List.replicate n 0, List.length_replicate ..⟩

/-- The string stored in the buffer. -/
def str (a : CharArray n) : List UInt8 := cstr a.bytes

/-- Assign one character. -/
def set (a : CharArray n) (i : ℕ) (c : UInt8) : CharArray n :=
  ⟨a.bytes.set i c, by simp [a.length_eq]⟩

/-- `strncpy(dest, src, count)`: at most `count` characters of the string, then
NULs up to `count`; the rest of the buffer is left alone. -/
def strncpy (dest : CharArray n) (src : List UInt8) (count : ℕ) : CharArray n where
  bytes := ((cstr src ++ List.replicate count 0).take count ++ dest.bytes.drop count).take n
  length_eq := by simp [dest.length_eq]; omega

/-- `memcpy` to the start of the buffer. -/
def memcpy (dest : CharArray n) (src : List UInt8) : CharArray n where
  bytes := (src ++ dest.bytes.drop src.length).take n
  length_eq := by simp [dest.length_eq]; omega

theorem eq_of_bytes {a b : CharArray n} (h : a.bytes = b.bytes) : a = b := by
  cases a
  cases b
  cases h
  rfl

theorem bytes_memcpy (dest : CharArray n) {src : List UInt8} (h : src.length ≤ n) :
    (dest.memcpy src).bytes = src ++ dest.bytes.drop src.length :=
  List.take_of_length_le (by simp [dest.length_eq]; omega)

end CharArray

/-- `strlen`. -/
def strlen (s : List UInt8) : ℕ := (cstr s).length

/-- `strcmp`, as the sign of the first difference. -/
def strcmp : List UInt8 → List UInt8 → ℤ
  | [], t => if t.headD 0 = 0 then 0 else -1
  | c :: s, t =>
      if c ≠ t.headD 0 then (if c < t.headD 0 then -1 else 1)
      else if c = 0 then 0
      else strcmp s t.tail

/-- `strncmp`: at most `count` characters are compared. -/
def strncmp (s t : List UInt8) : ℕ → ℤ
  | 0 => 0
  | count + 1 =>
      if s.headD 0 ≠ t.headD 0 then (if s.headD 0 < t.headD 0 then -1 else 1)
      else if s.headD 0 = 0 then 0
      else strncmp s.tail t.tail count

/-- `isspace`: horizontal tab to carriage return, space and no-break space. -/
def isspace (c : UInt8) : Bool := (9 ≤ c && c ≤ 13) || c = 32 || c = 160

/-- `skip_spaces`. -/
def skipSpaces (s : List UInt8) : List UInt8 := s.dropWhile isspace

/-- The `%<width>s` conversion: skip white space, then take up to `width` other
characters. Returns the word and what follows it. -/
def scanWord (width : ℕ) (s : List UInt8) : List UInt8 × List UInt8 :=
  let word := ((skipSpaces s).takeWhile fun c => !isspace c).take width
  (word, (skipSpaces s).drop word.length)

/-- `sscanf(s, "%<w₁>s %<w₂>s", a, b)`, when it returns 2. A conversion at the
end of the input stops the scan. -/
def sscanfWords (w₁ w₂ : ℕ) (s : List UInt8) : Option (List UInt8 × List UInt8) :=
  if cstr s = [] then none
  else
    let (op, rest) := scanWord w₁ (cstr s)
    if skipSpaces rest = [] then none
    else some (op, (scanWord w₂ (skipSpaces rest)).1)

def isdigit (c : UInt8) : Bool := 48 ≤ c && c ≤ 57

/-- `simple_strtoull(s, NULL, 10)`: leading digits, modulo `2 ^ 64`. -/
def simpleStrtoull (s : List UInt8) : BitVec 64 :=
  (s.takeWhile isdigit).foldl (fun value c => value * 10 + BitVec.ofNat 64 (c.toNat - 48)) 0

/-- `simple_strtol(s, NULL, 10)` for a `w`-bit `long`. -/
def simpleStrtol (w : ℕ) (s : List UInt8) : BitVec w :=
  if s.headD 0 = 45 then -(simpleStrtoull s.tail).setWidth w
  else (simpleStrtoull s).setWidth w

/-- `sscanf(s, "%d", &id)`, when it returns 1. White space is skipped and a minus
sign may stand before the first digit; the value parsed is narrowed to an `int`. -/
def scanInt (s : List UInt8) : Option (BitVec 32) :=
  let number := skipSpaces (cstr s)
  let digits := if number.headD 0 = 45 then number.tail else number
  if isdigit (digits.headD 0) then some ((simpleStrtol 64 number).setWidth 32) else none

/-- `sscanf(s, "%<w>s %d", op, &value)`, when it returns 2. -/
def sscanfWordInt (w : ℕ) (s : List UInt8) : Option (List UInt8 × BitVec 32) :=
  let (op, rest) := scanWord w (cstr s)
  (scanInt rest).map fun value => (op, value)

/-! ### The copy into a fixed-size buffer -/

theorem ne_zero_of_mem_cstr {s : List UInt8} {c : UInt8} (h : c ∈ cstr s) : c ≠ 0 := by
  simpa using List.mem_takeWhile_imp h

theorem cstr_append_zero {s t : List UInt8} (h : ∀ c ∈ s, c ≠ 0) : cstr (s ++ 0 :: t) = s := by
  induction s with
  | nil => simp [cstr]
  | cons c s ih =>
      have hc := h c (List.mem_cons_self ..)
      have hrest := ih fun d hd => h d (List.mem_cons_of_mem _ hd)
      rw [cstr] at hrest ⊢
      rw [List.cons_append, List.takeWhile_cons_of_pos (by simpa using hc), hrest]

/-- A string ends before any NUL of its buffer. -/
theorem strlen_lt {s : List UInt8} {i : ℕ} (h : s[i]? = some 0) : strlen s < i + 1 := by
  induction s generalizing i with
  | nil => simp at h
  | cons c s ih =>
      by_cases hzero : c = 0
      · simp [strlen, cstr, hzero]
      · cases i with
        | zero => exact absurd (Option.some.inj h) hzero
        | succ i =>
            have hlen : strlen (c :: s) = strlen s + 1 := by simp [strlen, cstr, hzero]
            rw [hlen]
            exact Nat.add_lt_add_right (ih h) 1

/-- A pointer into a string is a pointer to a string. -/
theorem cstr_drop {s : List UInt8} {k : ℕ} (h : k ≤ (cstr s).length) :
    cstr (s.drop k) = (cstr s).drop k ∧ (0 ∈ s → 0 ∈ s.drop k) := by
  induction s generalizing k with
  | nil =>
      rw [Nat.le_zero.mp h]
      exact ⟨rfl, id⟩
  | cons c s ih =>
      cases k with
      | zero => exact ⟨rfl, id⟩
      | succ k =>
          by_cases hzero : c = 0
          · simp [cstr, hzero] at h
          · have hcons : cstr (c :: s) = c :: cstr s := by simp [cstr, hzero]
            rw [hcons, List.length_cons] at h
            obtain ⟨hcstr, hmem⟩ := ih (Nat.le_of_succ_le_succ h)
            rw [hcons, List.drop_succ_cons, List.drop_succ_cons]
            refine ⟨hcstr, fun hnul => hmem ?_⟩
            exact (List.mem_cons.mp hnul).resolve_left (Ne.symm hzero)

/-- What follows the terminator is not seen. -/
theorem cstr_append_nul (s t : List UInt8) : cstr (s ++ 0 :: t) = cstr s := by
  induction s with
  | nil => rfl
  | cons c s ih =>
      rw [cstr, cstr] at ih ⊢
      rw [List.cons_append, List.takeWhile_cons, List.takeWhile_cons, ih]

/-- A copy that goes on by one character. -/
theorem memcpy_set_next {n : ℕ} (dest : CharArray n) {src : List UInt8} (h : src.length < n)
    (c : UInt8) : (dest.memcpy src).set src.length c = dest.memcpy (src ++ [c]) := by
  have hlen : (src ++ [c]).length ≤ n := by
    rw [List.length_append, List.length_singleton]
    exact h
  have hrest : 0 < (dest.bytes.drop src.length).length := by
    rw [List.length_drop, dest.length_eq]
    omega
  obtain ⟨d, rest, hd⟩ := List.exists_cons_of_length_pos hrest
  have hnext : dest.bytes.drop (src ++ [c]).length = rest := by
    rw [List.length_append, List.length_singleton, ← List.tail_drop, hd, List.tail_cons]
  apply CharArray.eq_of_bytes
  show (dest.memcpy src).bytes.set src.length c = (dest.memcpy (src ++ [c])).bytes
  rw [dest.bytes_memcpy h.le, dest.bytes_memcpy hlen, hnext, hd, List.set_append_right _ _ le_rfl,
    Nat.sub_self, List.set_cons_zero, List.append_assoc, List.singleton_append]

/-- Characters at the start of a buffer, and a terminator behind them. -/
theorem bytes_memcpy_nul {n : ℕ} (dest : CharArray n) {src : List UInt8} (h : src.length < n) :
    (dest.memcpy (src ++ [0])).bytes = src ++ 0 :: dest.bytes.drop (src.length + 1) := by
  have hlen : (src ++ [0]).length ≤ n := by
    rw [List.length_append, List.length_singleton]
    exact h
  rw [dest.bytes_memcpy hlen, List.length_append, List.length_singleton, List.append_assoc,
    List.singleton_append]

/-- Characters copied to the start of a buffer and terminated there are its
string. -/
theorem str_memcpy_set {n : ℕ} (dest : CharArray n) {src : List UInt8} (h : src.length < n) :
    ((dest.memcpy src).set src.length 0).str = cstr src := by
  rw [CharArray.str, memcpy_set_next dest h, bytes_memcpy_nul dest h, cstr_append_nul]

/-- A string copied at least up to the last character of a buffer, which is then
cleared: it is cut there, and the rest of the buffer is zeros. -/
theorem bytes_strncpy_set_last {n count : ℕ} (hcount : n ≤ count) (dest : CharArray (n + 1))
    (src : List UInt8) :
    ((dest.strncpy src count).set n 0).bytes =
      (cstr src).take n ++ List.replicate (n + 1 - ((cstr src).take n).length) 0 := by
  have hlen : n < (dest.strncpy src count).bytes.length := by
    rw [(dest.strncpy src count).length_eq]
    exact Nat.lt_succ_self n
  have hword : ((cstr src).take n).length ≤ n := List.length_take_le ..
  have hbefore : (dest.strncpy src count).bytes.take n =
      (cstr src).take n ++ List.replicate (n - ((cstr src).take n).length) 0 := by
    have hcopied : n ≤ ((cstr src ++ List.replicate count 0).take count).length := by
      rw [List.length_take, List.length_append, List.length_replicate]
      omega
    rw [CharArray.strncpy, List.take_take, Nat.min_eq_left (Nat.le_succ n),
      List.take_append_of_le_length hcopied, List.take_take, Nat.min_eq_left hcount,
      List.take_append, List.take_replicate, List.length_take]
    congr 2
    omega
  have hafter : (dest.strncpy src count).bytes.drop (n + 1) = [] :=
    List.drop_eq_nil_of_le (dest.strncpy src count).length_eq.le
  show (dest.strncpy src count).bytes.set n 0 = _
  rw [List.set_eq_take_append_cons_drop, if_pos hlen, hbefore, hafter, List.append_assoc,
    Nat.sub_add_comm hword, List.replicate_succ']

theorem str_strncpy_set_last {n count : ℕ} (hcount : n ≤ count) (dest : CharArray (n + 1))
    (src : List UInt8) : ((dest.strncpy src count).set n 0).str = (cstr src).take n := by
  have hword : ((cstr src).take n).length ≤ n := List.length_take_le ..
  rw [CharArray.str, bytes_strncpy_set_last hcount, Nat.sub_add_comm hword, List.replicate_succ]
  exact cstr_append_zero fun c hc => ne_zero_of_mem_cstr (List.mem_of_mem_take hc)

end KernelModules.Lib
