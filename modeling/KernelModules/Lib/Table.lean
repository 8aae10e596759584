import KernelModules.Lib.Decimal
import Mathlib.Data.List.DropRight

/-!
Texts that are printed in lines and columns, and what can be read from them.

A printer `Tells` something of its values when it can be read off the text whatever
follows. Such printers can be put one after the other, and rows of them can be followed by
anything that does not start like a row. A column is padded on the right: what has no
blanks is read up to the first one, and what fits its width is read by its length, up to
the blanks at its end.
-/

namespace KernelModules.Lib

variable {α β γ : Type*}

/-- `%-*s`. -/
def column (width : ℕ) (text : List UInt8) : List UInt8 :=
  text ++ List.replicate (width - text.length) 32

/-- A column with a blank behind it. -/
def cell (width : ℕ) (text : List UInt8) : List UInt8 := column width text ++ [32]

/-- The last column of a line. -/
def lastCell (width : ℕ) (text : List UInt8) : List UInt8 := column width text ++ [10]

theorem length_column {width : ℕ} {text : List UInt8} (h : text.length ≤ width) :
    (column width text).length = width := by
  rw [column, List.length_append, List.length_replicate]
  omega

/-- A text without the blanks at its end. -/
def trimEnd (text : List UInt8) : List UInt8 := text.rdropWhile (· == 32)

theorem trimEnd_append_blanks (text : List UInt8) (n : ℕ) :
    trimEnd (text ++ List.replicate n 32) = trimEnd text := by
  induction n with
  | zero => rw [List.replicate_zero, List.append_nil]
  | succ n ih =>
      rw [List.replicate_succ', ← List.append_assoc, trimEnd,
        List.rdropWhile_concat_pos _ _ _ (by decide)]
      exact ih

/-- The blanks at the end of a text make no difference to a column that it fits in. -/
theorem column_trimEnd {width : ℕ} {text : List UInt8} (h : text.length ≤ width) :
    column width (trimEnd text) = column width text := by
  induction text using List.reverseRecOn with
  | nil => rfl
  | append_singleton text c ih =>
      by_cases hc : (c == 32) = true
      · have hlength : text.length + 1 ≤ width := by simpa using h
        have htrim : trimEnd (text ++ [c]) = trimEnd text := List.rdropWhile_concat_pos _ _ _ hc
        have hpad : width - text.length = (width - (text ++ [c]).length) + 1 := by
          rw [List.length_append, List.length_singleton]
          omega
        rw [htrim, ih (by omega), column, hpad, List.replicate_succ, column, eq_of_beq hc]
        simp
      · have htrim : trimEnd (text ++ [c]) = text ++ [c] := List.rdropWhile_concat_neg _ _ _ hc
        rw [htrim]

theorem column_eq_iff {width : ℕ} {s t : List UInt8} (hs : s.length ≤ width)
    (ht : t.length ≤ width) : column width s = column width t ↔ trimEnd s = trimEnd t := by
  constructor
  · intro h
    have htrim := congrArg trimEnd h
    rwa [column, column, trimEnd_append_blanks, trimEnd_append_blanks] at htrim
  · intro h
    rw [← column_trimEnd hs, h, column_trimEnd ht]

/-- A list is cut at the first element that stops it in one way only. -/
theorem append_inj_of_stop {stop : α → Prop} {x y s t : List α} (hx : ∀ c ∈ x, ¬ stop c)
    (hy : ∀ c ∈ y, ¬ stop c) (hs : ∃ c s', s = c :: s' ∧ stop c)
    (ht : ∃ c t', t = c :: t' ∧ stop c) (h : x ++ s = y ++ t) : x = y ∧ s = t := by
  induction x generalizing y with
  | nil =>
      cases y with
      | nil => exact ⟨rfl, h⟩
      | cons d y =>
          obtain ⟨c, s', rfl, hc⟩ := hs
          obtain rfl : c = d := List.head_eq_of_cons_eq h
          exact absurd hc (hy c List.mem_cons_self)
  | cons c x ih =>
      cases y with
      | nil =>
          obtain ⟨d, t', rfl, hd⟩ := ht
          obtain rfl : c = d := List.head_eq_of_cons_eq h
          exact absurd hd (hx c List.mem_cons_self)
      | cons d y =>
          rw [List.cons_append, List.cons_append, List.cons.injEq] at h
          obtain ⟨rfl, hrest⟩ := ih (fun c hc => hx c (List.mem_cons_of_mem _ hc))
            (fun c hc => hy c (List.mem_cons_of_mem _ hc)) h.2
          exact ⟨by rw [h.1], hrest⟩

/-- A list is cut at the last of its kind in one way only. -/
theorem append_cons_inj_right {c : α} {x y s t : List α} (hs : c ∉ s) (ht : c ∉ t)
    (h : x ++ c :: s = y ++ c :: t) : x = y ∧ s = t := by
  have hreverse := congrArg List.reverse h
  simp only [List.reverse_append, List.reverse_cons, List.append_assoc,
    List.singleton_append] at hreverse
  obtain ⟨hst, hxy⟩ := append_cons_inj (by simpa using hs) (by simpa using ht) hreverse
  exact ⟨List.reverse_inj.mp hxy, List.reverse_inj.mp hst⟩

/-- What is behind a list is in what follows a shorter one. -/
theorem append_ne_append_cons {c : α} {b d x z : List α} (hd : c ∉ d)
    (hle : b.length ≤ x.length) : b ++ d ≠ x ++ c :: z := by
  intro h
  have hdrop := congrArg (List.drop x.length) h
  rw [List.drop_left, List.drop_append, List.drop_eq_nil_of_le hle, List.nil_append] at hdrop
  exact hd (List.mem_of_mem_drop (hdrop ▸ List.mem_cons_self))

/-- Two lists that end in the same way are equal, although what ends them may be in their
first parts, if these are short. -/
theorem append_cons_inj_of_le {c : α} {b b' d d' s t : List α} (hd : c ∉ d) (hd' : c ∉ d')
    (hle : b.length ≤ (b' ++ d').length) (hle' : b'.length ≤ (b ++ d).length)
    (h : b ++ d ++ c :: s = b' ++ d' ++ c :: t) : b ++ d = b' ++ d' ∧ s = t := by
  rcases List.append_eq_append_iff.mp h with ⟨z, hz, hrest⟩ | ⟨z, hz, hrest⟩
  · cases z with
    | nil => exact ⟨by rw [hz, List.append_nil], List.tail_eq_of_cons_eq hrest⟩
    | cons e z =>
        obtain rfl : c = e := List.head_eq_of_cons_eq hrest
        exact absurd hz (append_ne_append_cons hd' hle')
  · cases z with
    | nil => exact ⟨by rw [hz, List.append_nil], (List.tail_eq_of_cons_eq hrest).symm⟩
    | cons e z =>
        obtain rfl : c = e := List.head_eq_of_cons_eq hrest
        exact absurd hz (append_ne_append_cons hd hle)

theorem trimEnd_append_of_notMem {s t : List UInt8} (hne : t ≠ []) (ht : 32 ∉ t) :
    trimEnd (s ++ t) = s ++ t := by
  rw [trimEnd, List.rdropWhile_eq_self_iff]
  intro hnil hblank
  rw [List.getLast_append_of_ne_nil hnil hne] at hblank
  exact ht (eq_of_beq hblank ▸ List.getLast_mem hne)

theorem isEmpty_eq_of_length_eq {xs : List α} {ys : List β} (h : xs.length = ys.length) :
    xs.isEmpty = ys.isEmpty := by
  cases xs with
  | nil => rw [List.eq_nil_of_length_eq_zero h.symm]; rfl
  | cons x xs =>
      cases ys with
      | nil => cases h
      | cons y ys => rfl

/-- Rows that depend on `f` only. -/
theorem flatMap_eq_of_map_eq {p : α → List UInt8} {f : α → β} (hp : ∀ x y, f x = f y → p x = p y)
    {xs ys : List α} (h : xs.map f = ys.map f) : xs.flatMap p = ys.flatMap p := by
  induction xs generalizing ys with
  | nil => rw [List.map_eq_nil_iff.mp h.symm]
  | cons x xs ih =>
      obtain ⟨y, rest, rfl, hy, hrest⟩ := List.map_eq_cons_iff.mp h.symm
      rw [List.flatMap_cons, List.flatMap_cons, hp x y hy.symm, ih hrest.symm]

/-! ### Printers -/

/-- The text of a value tells what `f` says of it, whatever follows. -/
def Tells (p : α → List UInt8) (f : α → β) : Prop :=
  ∀ x y r r', p x ++ r = p y ++ r' → f x = f y ∧ r = r'

namespace Tells

variable {p : α → List UInt8} {f : α → β}

/-- One printer after the other. -/
theorem append {q : α → List UInt8} {g : α → γ} (hp : Tells p f) (hq : Tells q g) :
    Tells (fun x => p x ++ q x) fun x => (f x, g x) := by
  intro x y r r' h
  rw [List.append_assoc, List.append_assoc] at h
  obtain ⟨hf, hrest⟩ := hp x y _ _ h
  obtain ⟨hg, hr⟩ := hq x y r r' hrest
  exact ⟨Prod.ext hf hg, hr⟩

theorem comp (hp : Tells p f) (g : γ → α) : Tells (fun x => p (g x)) fun x => f (g x) :=
  fun x y r r' h => hp (g x) (g y) r r' h

/-- What is told tells what it determines. -/
theorem map {g : α → γ} (hp : Tells p f) (hfg : ∀ x y, f x = f y → g x = g y) : Tells p g :=
  fun x y r r' h => ⟨hfg x y (hp x y r r' h).1, (hp x y r r' h).2⟩

/-- What has always the same length tells itself. -/
theorem fixed {n : ℕ} (h : ∀ x, (p x).length = n) : Tells p p :=
  fun x y _ _ heq => List.append_inj heq ((h x).trans (h y).symm)

/-- What follows a column without blanks begins with a blank, or with what ends the line. -/
theorem stop_column (width : ℕ) (text : List UInt8) {c : UInt8} (r : List UInt8) :
    ∃ d r', List.replicate (width - text.length) 32 ++ c :: r = d :: r' ∧ (d = 32 ∨ d = c) := by
  cases hpad : width - text.length with
  | zero => exact ⟨c, r, rfl, .inr rfl⟩
  | succ n => exact ⟨32, List.replicate n 32 ++ c :: r, rfl, .inl rfl⟩

theorem column_cons (width : ℕ) {c : UInt8} (hblank : ∀ x, 32 ∉ p x) (hc : ∀ x, c ∉ p x) :
    Tells (fun x => column width (p x) ++ [c]) p := by
  intro x y r r' h
  simp only [column, List.append_assoc, List.singleton_append] at h
  have hfree : ∀ z, ∀ d ∈ p z, ¬ (d = 32 ∨ d = c) := by
    rintro z d hd (rfl | rfl)
    · exact hblank z hd
    · exact hc z hd
  obtain ⟨hp, hrest⟩ := append_inj_of_stop (hfree x) (hfree y)
    (stop_column width (p x) r) (stop_column width (p y) r') h
  rw [hp] at hrest
  exact ⟨hp, (List.cons.injEq .. ▸ List.append_cancel_left hrest).2⟩

/-- **A column** is read up to its first blank. -/
theorem cell (width : ℕ) (hblank : ∀ x, 32 ∉ p x) : Tells (fun x => Lib.cell width (p x)) p :=
  column_cons width hblank hblank

theorem lastCell (width : ℕ) (hblank : ∀ x, 32 ∉ p x) (hline : ∀ x, 10 ∉ p x) :
    Tells (fun x => Lib.lastCell width (p x)) p :=
  column_cons width hblank hline

/-- A column that its text fits in is read by its width. -/
theorem fixedCell {width : ℕ} (hwidth : ∀ x, (p x).length ≤ width) :
    Tells (fun x => Lib.cell width (p x)) fun x => trimEnd (p x) := by
  have hlength : ∀ x, (Lib.cell width (p x)).length = width + 1 := fun x => by
    rw [Lib.cell, List.length_append, length_column (hwidth x)]
    rfl
  refine (fixed hlength).map fun x y h => ?_
  exact (column_eq_iff (hwidth x) (hwidth y)).mp (List.append_inj_left' h rfl)

/-- A wide text and a number behind it: the text may be longer than its column and contain
anything, as long as no line ends in it before the line with the number does. -/
theorem wideCell {width width' : ℕ} {q : α → List UInt8}
    (hwide : ∀ x, (p x).length ≤ width + width') (hne : ∀ x, q x ≠ []) (hblank : ∀ x, 32 ∉ q x)
    (hline : ∀ x, 10 ∉ q x) :
    Tells (fun x => Lib.cell width (p x) ++ Lib.lastCell width' (q x))
      fun x => (column width (p x), q x) := by
  have hlength : ∀ x y, (column width (p x) ++ [32]).length ≤
      (column width (p y) ++ [32] ++ column width' (q y)).length := by
    intro x y
    have hx := hwide x
    simp only [column, List.length_append, List.length_replicate, List.length_singleton]
    omega
  have hline' : ∀ x, 10 ∉ column width' (q x) := by
    intro x
    rw [column, List.mem_append, List.mem_replicate]
    exact fun h => h.elim (hline x) fun hpad => absurd hpad.2 (by decide)
  intro x y r r' h
  simp only [Lib.cell, Lib.lastCell] at h
  rw [← List.append_assoc, ← List.append_assoc, List.append_assoc _ [10], List.append_assoc _ [10]]
    at h
  -- a line ends behind the texts, and there only
  obtain ⟨hrow, hrest⟩ := append_cons_inj_of_le (hline' x) (hline' y) (hlength x y) (hlength y x) h
  have htrim := congrArg trimEnd hrow
  simp only [column, ← List.append_assoc, trimEnd_append_blanks] at htrim
  rw [trimEnd_append_of_notMem (hne x) (hblank x), trimEnd_append_of_notMem (hne y) (hblank y),
    List.append_assoc _ [32], List.append_assoc _ [32]] at htrim
  obtain ⟨hp, hq⟩ := append_cons_inj_right (hblank x) (hblank y) htrim
  exact ⟨Prod.ext hp hq, hrest⟩

/-- **Rows** that each tell something, followed by what does not start like a row. -/
theorem rows (hp : Tells p f) (starts : UInt8 → Prop)
    (hstarts : ∀ x, ∃ c t, p x = c :: t ∧ starts c) {xs ys : List α} {r r' : List UInt8}
    (hr : ∀ c ∈ r.head?, ¬ starts c) (hr' : ∀ c ∈ r'.head?, ¬ starts c)
    (h : xs.flatMap p ++ r = ys.flatMap p ++ r') : xs.map f = ys.map f ∧ r = r' := by
  -- a row at the front of one text is no end of the other
  have hfront : ∀ x (rest tail : List UInt8), (∀ c ∈ tail.head?, ¬ starts c) →
      p x ++ rest ≠ tail := by
    rintro x rest tail htail rfl
    obtain ⟨c, t, hpx, hc⟩ := hstarts x
    rw [hpx] at htail
    exact htail c rfl hc
  induction xs generalizing ys with
  | nil =>
      cases ys with
      | nil => exact ⟨rfl, h⟩
      | cons y ys =>
          rw [List.flatMap_cons, List.append_assoc] at h
          exact absurd h.symm (hfront y _ r hr)
  | cons x xs ih =>
      cases ys with
      | nil =>
          rw [List.flatMap_cons, List.append_assoc] at h
          exact absurd h (hfront x _ r' hr')
      | cons y ys =>
          rw [List.flatMap_cons, List.flatMap_cons, List.append_assoc, List.append_assoc] at h
          obtain ⟨hf, hrest⟩ := hp x y _ _ h
          obtain ⟨hrows, htail⟩ := ih hrest
          exact ⟨by rw [List.map_cons, List.map_cons, hf, hrows], htail⟩

end Tells

/-! ### Numbers in columns -/

theorem notMem_decimal {c : UInt8} (hc : isdigit c = false) (n : ℕ) : c ∉ decimal n :=
  fun h => absurd (isdigit_of_mem_decimal h) (by rw [hc]; decide)

theorem decimal_injective : Function.Injective decimal := by
  intro m n h
  rw [← digitsValue_decimal m, h, digitsValue_decimal]

/-- What a number starts with: a digit or its sign. -/
def StartsNumber (c : UInt8) : Prop := isdigit c = true ∨ c = 45

instance (c : UInt8) : Decidable (StartsNumber c) := inferInstanceAs (Decidable (_ ∨ _))

theorem not_startsNumber_of_head {r : List UInt8} {d : UInt8} (h : r.head? = some d)
    (hd : ¬ StartsNumber d) : ∀ c ∈ r.head?, ¬ StartsNumber c := by
  intro c hc
  obtain rfl : d = c := Option.some.inj (h.symm.trans hc)
  exact hd

theorem printInt_starts (x : BitVec 32) : ∃ c t, printInt x = c :: t ∧ StartsNumber c := by
  rw [printInt]
  split
  · exact ⟨45, decimal x.toInt.natAbs, rfl, .inr rfl⟩
  · obtain ⟨c, t, hdecimal⟩ := List.exists_cons_of_ne_nil (decimal_ne_nil x.toInt.natAbs)
    refine ⟨c, t, hdecimal, .inl (isdigit_of_mem_decimal (n := x.toInt.natAbs) ?_)⟩
    rw [hdecimal]
    exact List.mem_cons_self

/-- Nothing else is in it. -/
theorem notMem_printInt {c : UInt8} (hc : ¬ StartsNumber c) (x : BitVec 32) : c ∉ printInt x := by
  have hdigit : c ∉ decimal x.toInt.natAbs := fun h => hc (.inl (isdigit_of_mem_decimal h))
  rw [printInt]
  split
  · exact fun h => (List.mem_cons.mp h).elim (fun hsign => hc (.inr hsign)) hdigit
  · exact hdigit

/-- So does a row whose first column is a number. -/
theorem intCell_starts (width : ℕ) (x : BitVec 32) (rest : List UInt8) :
    ∃ c t, cell width (printInt x) ++ rest = c :: t ∧ StartsNumber c := by
  obtain ⟨c, t, hprint, hc⟩ := printInt_starts x
  refine ⟨c, t ++ List.replicate (width - (c :: t).length) 32 ++ [32] ++ rest, ?_, hc⟩
  rw [cell, column, hprint]
  rfl

theorem Tells.intCell (width : ℕ) : Tells (fun x : BitVec 32 => Lib.cell width (printInt x)) id :=
  (Tells.cell width (notMem_printInt (by decide))).map fun _ _ h => printInt_injective h

theorem Tells.natCell (width : ℕ) : Tells (fun n : ℕ => Lib.cell width (decimal n)) id :=
  (Tells.cell width (notMem_decimal rfl)).map fun _ _ h => decimal_injective h

theorem Tells.natLastCell (width : ℕ) :
    Tells (fun n : ℕ => Lib.lastCell width (decimal n)) id :=
  (Tells.lastCell width (notMem_decimal rfl) (notMem_decimal rfl)).map
    fun _ _ h => decimal_injective h

end KernelModules.Lib
