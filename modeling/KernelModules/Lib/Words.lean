import KernelModules.Lib.CString
import Mathlib.Data.List.DropRight

/-!
Words, as the `%s` conversion takes them, and comparison of strings.
-/

namespace KernelModules.Lib

/-- At least one character, and neither white space nor a NUL among them. -/
structure IsWord (s : List UInt8) : Prop where
  ne_nil : s ≠ []
  not_space : ∀ c ∈ s, isspace c = false
  ne_zero : ∀ c ∈ s, c ≠ 0

theorem isWord_iff {s : List UInt8} :
    IsWord s ↔ s.isEmpty = false ∧ s.all (fun c => !isspace c && c != 0) = true := by
  simp only [List.isEmpty_eq_false_iff, List.all_eq_true, Bool.and_eq_true, Bool.not_eq_true',
    bne_iff_ne]
  constructor
  · exact fun h => ⟨h.ne_nil, fun c hc => ⟨h.not_space c hc, h.ne_zero c hc⟩⟩
  · exact fun h => ⟨h.1, fun c hc => (h.2 c hc).1, fun c hc => (h.2 c hc).2⟩

instance (s : List UInt8) : Decidable (IsWord s) := decidable_of_iff' _ isWord_iff

theorem cstr_of_ne_zero {s : List UInt8} (h : ∀ c ∈ s, c ≠ 0) : cstr s = s :=
  List.takeWhile_eq_self_iff.mpr fun c hc => by simpa using h c hc

/-- `strcmp` compares the strings. -/
theorem strcmp_eq_zero_iff {s t : List UInt8} : strcmp s t = 0 ↔ cstr s = cstr t := by
  induction s generalizing t with
  | nil =>
      cases t with
      | nil => exact iff_of_true rfl rfl
      | cons d t =>
          by_cases hd : d = 0
          · simp [strcmp, cstr, hd]
          · simp [strcmp, cstr, hd]
  | cons c s ih =>
      have hc : ∀ u : UInt8, (if c < u then (-1 : ℤ) else 1) ≠ 0 := fun u => by split <;> decide
      cases t with
      | nil =>
          by_cases hzero : c = 0
          · simp [strcmp, cstr, hzero]
          · simp [strcmp, cstr, hzero]
      | cons d t =>
          rw [strcmp, List.headD_cons, List.tail_cons]
          by_cases hne : c = d
          · subst hne
            rw [if_neg (not_not.mpr rfl)]
            by_cases hzero : c = 0
            · simp [cstr, hzero]
            · rw [if_neg hzero, ih]
              simp [cstr, hzero]
          · rw [if_pos hne]
            apply iff_of_false (hc d)
            by_cases hzero : c = 0
            · simp [cstr, hzero, (show d ≠ 0 from fun hd => hne (hzero.trans hd.symm))]
            · by_cases hd : d = 0
              · simp [cstr, hzero, hd]
              · simp [cstr, hzero, hd, hne]

/-- The characters of a string, one at a time. -/
theorem take_cstr_succ (s : List UInt8) (count : ℕ) :
    (cstr s).take (count + 1) =
      if s.headD 0 = 0 then [] else s.headD 0 :: (cstr s.tail).take count := by
  cases s with
  | nil => rfl
  | cons c s =>
      rw [List.headD_cons, List.tail_cons]
      by_cases hzero : c = 0
      · simp [cstr, hzero]
      · simp [cstr, hzero]

/-- `strncmp` compares the strings up to `count` characters. -/
theorem strncmp_eq_zero_iff {s t : List UInt8} {count : ℕ} :
    strncmp s t count = 0 ↔ (cstr s).take count = (cstr t).take count := by
  induction count generalizing s t with
  | zero => exact iff_of_true rfl rfl
  | succ count ih =>
      rw [strncmp, take_cstr_succ, take_cstr_succ]
      by_cases hne : s.headD 0 = t.headD 0
      · rw [if_neg (not_not.mpr hne), hne]
        by_cases hzero : t.headD 0 = 0
        · simp only [if_pos hzero]
        · simp only [if_neg hzero, ih, List.cons.injEq, true_and]
      · rw [if_pos hne]
        apply iff_of_false
        · split <;> decide
        · by_cases hzero : s.headD 0 = 0
          · rw [if_pos hzero, if_neg fun ht => hne (hzero.trans ht.symm)]
            exact (List.cons_ne_nil _ _).symm
          · rw [if_neg hzero]
            split
            · exact List.cons_ne_nil _ _
            · exact fun h => hne (List.head_eq_of_cons_eq h)

/-- A list is cut at the first separator in one way only. -/
theorem append_cons_inj {α : Type*} {c : α} {x y s t : List α} (hx : c ∉ x) (hy : c ∉ y)
    (h : x ++ c :: s = y ++ c :: t) : x = y ∧ s = t := by
  rcases List.append_eq_append_iff.mp h with ⟨z, rfl, hz⟩ | ⟨z, rfl, hz⟩
  · cases z with
    | nil => exact ⟨(List.append_nil _).symm, List.tail_eq_of_cons_eq hz⟩
    | cons d z =>
        obtain rfl : c = d := List.head_eq_of_cons_eq hz
        exact absurd (List.mem_append_right _ (List.mem_cons_self ..)) hy
  · cases z with
    | nil => exact ⟨List.append_nil _, (List.tail_eq_of_cons_eq hz).symm⟩
    | cons d z =>
        obtain rfl : c = d := List.head_eq_of_cons_eq hz
        exact absurd (List.mem_append_right _ (List.mem_cons_self ..)) hx

/-! ### The words of a text -/

/-- The first word of a text. -/
def firstWord (s : List UInt8) : List UInt8 := (skipSpaces s).takeWhile fun c => !isspace c

/-- What follows the first word. -/
def afterWord (s : List UInt8) : List UInt8 := (skipSpaces s).dropWhile fun c => !isspace c

theorem skipSpaces_eq_append (s : List UInt8) : skipSpaces s = firstWord s ++ afterWord s :=
  List.takeWhile_append_dropWhile.symm

theorem firstWord_sublist (s : List UInt8) : (firstWord s).Sublist s :=
  (List.takeWhile_sublist _).trans (List.dropWhile_sublist _)

@[simp] theorem skipSpaces_skipSpaces (s : List UInt8) :
    skipSpaces (skipSpaces s) = skipSpaces s :=
  List.dropWhile_idempotent ..

theorem firstWord_cons_space {c : UInt8} (hc : isspace c = true) (s : List UInt8) :
    firstWord (c :: s) = firstWord s := by
  rw [firstWord, skipSpaces, List.dropWhile_cons_of_pos hc, firstWord, skipSpaces]

/-- A text has a word unless it is white space. -/
theorem firstWord_eq_nil_iff {s : List UInt8} : firstWord s = [] ↔ skipSpaces s = [] := by
  constructor
  · intro h
    cases hskip : skipSpaces s with
    | nil => rfl
    | cons c rest =>
        -- what is left starts with a character of the word
        have hc : ¬ isspace c = true := by
          have hself : (c :: rest).dropWhile isspace = c :: rest := by
            rw [← hskip]
            exact skipSpaces_skipSpaces s
          exact List.dropWhile_eq_self_iff.mp hself (Nat.succ_pos _)
        rw [firstWord, hskip, List.takeWhile_cons_of_pos (by simpa using hc)] at h
        cases h
  · intro h
    rw [firstWord, h, List.takeWhile_nil]

theorem scanWord_eq {width : ℕ} {s : List UInt8} (h : (firstWord s).length ≤ width) :
    scanWord width s = (firstWord s, afterWord s) := by
  have hword : (firstWord s).take width = firstWord s := List.take_of_length_le h
  rw [scanWord, ← firstWord, hword, skipSpaces_eq_append s, List.drop_left]

/-- The scan of two words, when the first one is short enough. -/
theorem sscanfWords_eq {w₁ w₂ : ℕ} {s : List UInt8} (hzero : ∀ c ∈ s, c ≠ 0)
    (hfirst : firstWord s ≠ []) (hlen : (firstWord s).length ≤ w₁) :
    sscanfWords w₁ w₂ s =
      if firstWord (afterWord s) = [] then none
      else some (firstWord s, (firstWord (afterWord s)).take w₂) := by
  have hne : s ≠ [] := by
    rintro rfl
    exact hfirst rfl
  rw [sscanfWords, cstr_of_ne_zero hzero, if_neg hne, scanWord_eq hlen]
  simp only [firstWord_eq_nil_iff, scanWord, skipSpaces_skipSpaces]
  rfl

/-- A word stands at the beginning, and white space or nothing follows it. -/
theorem firstWord_append {word rest : List UInt8} (h : IsWord word)
    (hrest : ∀ c ∈ rest.head?, isspace c = true) :
    firstWord (word ++ rest) = word ∧ afterWord (word ++ rest) = rest := by
  have hskip : skipSpaces (word ++ rest) = word ++ rest := by
    obtain ⟨c, s, hword⟩ := List.exists_cons_of_ne_nil h.ne_nil
    have hc := h.not_space c (by simp [hword])
    rw [skipSpaces, hword, List.cons_append, List.dropWhile_cons_of_neg (by simp [hc])]
  have hfirst : firstWord (word ++ rest) = word := by
    rw [firstWord, hskip, List.takeWhile_append_of_pos fun c hc => by simp [h.not_space c hc]]
    cases rest with
    | nil => rw [List.takeWhile_nil, List.append_nil]
    | cons c rest =>
        have hc : isspace c = true := hrest c rfl
        rw [List.takeWhile_cons_of_neg (by simp [hc]), List.append_nil]
  refine ⟨hfirst, ?_⟩
  have happend := skipSpaces_eq_append (word ++ rest)
  rw [hskip, hfirst] at happend
  exact (List.append_cancel_left happend).symm

theorem firstWord_eq_self {word : List UInt8} (h : IsWord word) : firstWord word = word := by
  have hrest : ∀ c ∈ ([] : List UInt8).head?, isspace c = true := by simp
  have happend := (firstWord_append h hrest).1
  rwa [List.append_nil] at happend

/-- Two words with a space between them hold no NUL. -/
theorem cstr_words {op value : List UInt8} (hop : IsWord op) (hvalue : IsWord value) :
    cstr (op ++ 32 :: value) = op ++ 32 :: value := by
  apply cstr_of_ne_zero
  intro c hc
  rcases List.mem_append.mp hc with hc | hc
  · exact hop.ne_zero c hc
  · rcases List.mem_cons.mp hc with rfl | hc
    · decide
    · exact hvalue.ne_zero c hc

/-- Nor a newline. -/
theorem newline_notMem_words {op value : List UInt8} (hop : IsWord op) (hvalue : IsWord value) :
    10 ∉ op ++ 32 :: value := by
  intro hc
  rcases List.mem_append.mp hc with hc | hc
  · exact absurd (hop.not_space 10 hc) (by decide)
  · rcases List.mem_cons.mp hc with hc | hc
    · cases hc
    · exact absurd (hvalue.not_space 10 hc) (by decide)

/-- They are scanned as they are. -/
theorem sscanfWords_append {w₁ w₂ : ℕ} {op value : List UInt8} (hop : IsWord op)
    (hvalue : IsWord value) (h₁ : op.length ≤ w₁) (h₂ : value.length ≤ w₂) :
    sscanfWords w₁ w₂ (op ++ 32 :: value) = some (op, value) := by
  have hrest : ∀ c ∈ (32 :: value).head?, isspace c = true := by
    simp
    decide
  obtain ⟨hfirst, hafter⟩ := firstWord_append hop hrest
  have hsecond : firstWord (32 :: value) = value := by
    rw [firstWord_cons_space (by decide), firstWord_eq_self hvalue]
  have hzero : ∀ c ∈ op ++ 32 :: value, c ≠ 0 := fun c hc =>
    ne_zero_of_mem_cstr (cstr_words hop hvalue ▸ hc)
  rw [sscanfWords_eq hzero (by rw [hfirst]; exact hop.ne_nil) (by rw [hfirst]; exact h₁), hfirst,
    hafter, hsecond, if_neg hvalue.ne_nil, List.take_of_length_le h₂]

theorem skipSpaces_subset (s : List UInt8) : skipSpaces s ⊆ s :=
  (List.dropWhile_sublist _).subset

/-- The second word has neither white space nor a NUL. -/
theorem word_of_sscanfWords {w₁ w₂ : ℕ} {s op value : List UInt8}
    (h : sscanfWords w₁ w₂ s = some (op, value)) : ∀ c ∈ value, c ≠ 0 ∧ isspace c = false := by
  rw [sscanfWords] at h
  split at h
  · cases h
  · dsimp only at h
    split at h
    · cases h
    · cases h
      intro c hc
      have hword := List.mem_of_mem_take hc
      have hmem : c ∈ cstr s :=
        skipSpaces_subset _ (List.mem_of_mem_drop (skipSpaces_subset _ (skipSpaces_subset _
          ((List.takeWhile_subset _) hword))))
      exact ⟨ne_zero_of_mem_cstr hmem, by simpa using List.mem_takeWhile_imp hword⟩

end KernelModules.Lib
