import Mathlib.Data.List.DropRight
import Mathlib.Data.List.Count

/-!
Changing one element of a list, and lists of bounded length.

`updateFirst p f` changes the first element that satisfies `p` and `updateLast p f`
the last one: a scan that stops at its first hit, from either end. Both are used
through their decompositions: a list with a hit splits around it, and the update
is then an equation between two appends.

`pushBounded n` appends to a list that keeps at most `n` elements, dropping the
first one when it is full. Pushed into repeatedly it holds the last `n` elements
of everything that was pushed.
-/

namespace KernelModules.Lib

variable {α β : Type*} {p : α → Bool} {f : α → α}

/-! ### Update at the first or the last hit -/

/-- Change the first element that satisfies `p`. -/
def updateFirst (p : α → Bool) (f : α → α) (l : List α) : List α :=
  l.replaceF fun a => if p a then some (f a) else none

/-- Change the last element that satisfies `p`. -/
def updateLast (p : α → Bool) (f : α → α) (l : List α) : List α :=
  (updateFirst p f l.reverse).reverse

theorem updateFirst_cons (a : α) (l : List α) :
    updateFirst p f (a :: l) = if p a then f a :: l else a :: updateFirst p f l := by
  by_cases h : p a = true <;> simp [updateFirst, h]

theorem updateFirst_of_none {l : List α} (h : ∀ a ∈ l, p a = false) : updateFirst p f l = l :=
  List.replaceF_of_forall_none fun a ha => by simp [h a ha]

theorem updateLast_of_none {l : List α} (h : ∀ a ∈ l, p a = false) : updateLast p f l = l := by
  rw [updateLast, updateFirst_of_none fun a ha => h a (List.mem_reverse.mp ha),
    List.reverse_reverse]

theorem updateFirst_split {before after : List α} {a : α} (hbefore : ∀ b ∈ before, p b = false)
    (ha : p a = true) :
    updateFirst p f (before ++ a :: after) = before ++ f a :: after := by
  induction before with
  | nil => simp [updateFirst_cons, ha]
  | cons b before ih =>
      have hb := hbefore b (List.mem_cons_self ..)
      have hrest := ih fun c hc => hbefore c (List.mem_cons_of_mem _ hc)
      simp [updateFirst_cons, hb, hrest]

theorem updateLast_split {before after : List α} {a : α} (ha : p a = true)
    (hafter : ∀ b ∈ after, p b = false) :
    updateLast p f (before ++ a :: after) = before ++ f a :: after := by
  have hrev : (before ++ a :: after).reverse = after.reverse ++ a :: before.reverse := by simp
  rw [updateLast, hrev, updateFirst_split (fun b hb => hafter b (List.mem_reverse.mp hb)) ha]
  simp

/-- A list with a hit splits around its first one. -/
theorem exists_first {l : List α} (h : ∃ a ∈ l, p a = true) :
    ∃ before a after, l = before ++ a :: after ∧ p a = true ∧ ∀ b ∈ before, p b = false := by
  obtain ⟨a, ha⟩ := Option.isSome_iff_exists.mp (List.find?_isSome.mpr h)
  obtain ⟨hpa, before, after, rfl, hbefore⟩ := List.find?_eq_some_iff_append.mp ha
  exact ⟨before, a, after, rfl, hpa, fun b hb => by simpa using hbefore b hb⟩

/-- A list with a hit splits around its last one. -/
theorem exists_last {l : List α} (h : ∃ a ∈ l, p a = true) :
    ∃ before a after, l = before ++ a :: after ∧ p a = true ∧ ∀ b ∈ after, p b = false := by
  obtain ⟨a, ha, hpa⟩ := h
  obtain ⟨before, b, after, hrev, hpb, hbefore⟩ :=
    exists_first ⟨a, List.mem_reverse.mpr ha, hpa⟩
  refine ⟨after.reverse, b, before.reverse, ?_, hpb, fun c hc => hbefore c (by simpa using hc)⟩
  have hl := congrArg List.reverse hrev
  simpa using hl

/-- Either nothing is hit and the list stays, or it splits around its last hit. -/
theorem updateLast_cases (p : α → Bool) (f : α → α) (l : List α) :
    ((∀ a ∈ l, p a = false) ∧ updateLast p f l = l) ∨
      ∃ before a after, l = before ++ a :: after ∧ p a = true ∧ (∀ b ∈ after, p b = false) ∧
        updateLast p f l = before ++ f a :: after := by
  by_cases h : ∃ a ∈ l, p a = true
  · obtain ⟨before, a, after, rfl, ha, hafter⟩ := exists_last h
    exact .inr ⟨before, a, after, rfl, ha, hafter, updateLast_split ha hafter⟩
  · have hnone : ∀ a ∈ l, p a = false := fun a ha => by
      simpa using fun hpa => h ⟨a, ha, hpa⟩
    exact .inl ⟨hnone, updateLast_of_none hnone⟩

@[simp] theorem length_updateLast (p : α → Bool) (f : α → α) (l : List α) :
    (updateLast p f l).length = l.length := by
  simp [updateLast, updateFirst]

/-- An update that is the same before and after a projection can be done on
either side of it. -/
theorem updateLast_map {g : α → β} {q : β → Bool} {f' : β → β} (hp : ∀ a, q (g a) = p a)
    (hf : ∀ a, g (f a) = f' (g a)) (l : List α) :
    (updateLast p f l).map g = updateLast q f' (l.map g) := by
  rcases updateLast_cases p f l with ⟨hnone, h⟩ | ⟨before, a, after, rfl, ha, hafter, h⟩
  · rw [h, updateLast_of_none]
    intro b hb
    obtain ⟨a, ha, rfl⟩ := List.mem_map.mp hb
    rw [hp, hnone a ha]
  · rw [h]
    simp only [List.map_append, List.map_cons]
    rw [hf, updateLast_split]
    · rw [hp, ha]
    · intro b hb
      obtain ⟨c, hc, rfl⟩ := List.mem_map.mp hb
      rw [hp, hafter c hc]

theorem updateFirst_map {g : α → β} {q : β → Bool} {f' : β → β} {l : List α}
    (hp : ∀ a ∈ l, q (g a) = p a) (hf : ∀ a, g (f a) = f' (g a)) :
    (updateFirst p f l).map g = updateFirst q f' (l.map g) := by
  induction l with
  | nil => rfl
  | cons a l ih =>
      rw [List.map_cons, updateFirst_cons, updateFirst_cons, hp a List.mem_cons_self]
      split
      · rw [List.map_cons, hf]
      · rw [List.map_cons, ih fun b hb => hp b (List.mem_cons_of_mem _ hb)]

/-- Where `f` undoes `p`, updating the first hit and updating the last hit agree
exactly when there is at most one hit. -/
theorem updateFirst_eq_updateLast_iff (hf : ∀ a, p a = true → p (f a) = false) (l : List α) :
    updateFirst p f l = updateLast p f l ↔ l.countP p ≤ 1 := by
  by_cases h : ∃ a ∈ l, p a = true
  · obtain ⟨before, a, after, rfl, ha, hbefore⟩ := exists_first h
    rw [updateFirst_split hbefore ha, List.countP_append, List.countP_cons_of_pos ha,
      List.countP_eq_zero.mpr fun b hb => by simp [hbefore b hb]]
    by_cases hafter : ∃ b ∈ after, p b = true
    · -- two hits: only the update from the front changes the first one
      obtain ⟨middle, b, last, rfl, hb, hlast⟩ := exists_last hafter
      have hupdate : updateLast p f ((before ++ a :: middle) ++ b :: last) =
          (before ++ a :: middle) ++ f b :: last := updateLast_split hb hlast
      rw [List.append_assoc, List.cons_append] at hupdate
      rw [hupdate]
      have hpos : 0 < (middle ++ b :: last).countP p :=
        List.countP_pos_iff.mpr ⟨b, by simp, hb⟩
      constructor
      · intro heq
        rw [List.append_assoc, List.cons_append, List.append_cancel_left_eq,
          List.cons_eq_cons] at heq
        have hpa := hf a ha
        rw [heq.1, ha] at hpa
        contradiction
      · omega
    · have hnone : ∀ b ∈ after, p b = false := fun b hb => by
        simpa using fun hpb => hafter ⟨b, hb, hpb⟩
      rw [updateLast_split ha hnone,
        List.countP_eq_zero.mpr fun b hb => by simp [hnone b hb]]
      simp
  · have hnone : ∀ a ∈ l, p a = false := fun a ha => by
      simpa using fun hpa => h ⟨a, ha, hpa⟩
    rw [updateFirst_of_none hnone, updateLast_of_none hnone,
      List.countP_eq_zero.mpr fun a ha => by simp [hnone a ha]]
    simp

/-- Replacing a hit by a miss leaves one hit less. -/
theorem countP_replace {before after : List α} {a b : α} (ha : p a = true) (hb : p b = false) :
    (before ++ a :: after).countP p = (before ++ b :: after).countP p + 1 := by
  rw [List.countP_append, List.countP_append, List.countP_cons_of_pos ha,
    List.countP_cons_of_neg (by simp [hb])]
  omega

/-- Where no two elements are hit, erasing the first hit erases every hit. -/
theorem eraseP_eq_filter {l : List α} (h : l.Pairwise fun a b => p a = true → p b = false) :
    l.eraseP p = l.filter fun a => !p a := by
  induction l with
  | nil => rfl
  | cons a l ih =>
      obtain ⟨ha, hrest⟩ := List.pairwise_cons.mp h
      by_cases hp : p a = true
      · have hnone : l.filter (fun b => !p b) = l :=
          List.filter_eq_self.mpr fun b hb => by simp [ha b hb hp]
        rw [List.eraseP_cons_of_pos hp, List.filter_cons_of_neg (by simp [hp]), hnone]
      · rw [List.eraseP_cons_of_neg hp, List.filter_cons_of_pos (by simp [hp]), ih hrest]

/-! ### Lists of bounded length -/

/-- Append to a list that keeps at most `n` elements. -/
def pushBounded (n : ℕ) (l : List α) (a : α) : List α :=
  (if n ≤ l.length then l.tail else l) ++ [a]

theorem pushBounded_of_lt {n : ℕ} {l : List α} (h : l.length < n) (a : α) :
    pushBounded n l a = l ++ [a] := by
  simp [pushBounded, Nat.not_le.mpr h]

theorem pushBounded_of_le {n : ℕ} {l : List α} (h : n ≤ l.length) (a : α) :
    pushBounded n l a = l.tail ++ [a] := by
  simp [pushBounded, h]

theorem mem_of_mem_pushBounded {n : ℕ} {l : List α} {a b : α} (h : b ∈ pushBounded n l a) :
    b ∈ l ∨ b = a := by
  rw [pushBounded, List.mem_append, List.mem_singleton] at h
  apply h.imp_left
  intro hb
  split at hb
  · exact List.mem_of_mem_tail hb
  · exact hb

theorem mem_pushBounded_self (n : ℕ) (l : List α) (a : α) : a ∈ pushBounded n l a := by
  simp [pushBounded]

theorem length_pushBounded {n : ℕ} (hn : 0 < n) {l : List α} (h : l.length ≤ n) (a : α) :
    (pushBounded n l a).length = min n (l.length + 1) := by
  rw [pushBounded]
  split <;> simp <;> omega

theorem map_pushBounded (g : α → β) (n : ℕ) (l : List α) (a : α) :
    (pushBounded n l a).map g = pushBounded n (l.map g) (g a) := by
  by_cases h : n ≤ l.length <;> simp [pushBounded, h]

theorem countP_pushBounded_le (q : α → Bool) (n : ℕ) (l : List α) (a : α) :
    (pushBounded n l a).countP q ≤ l.countP q + 1 := by
  have htail : l.tail.countP q ≤ l.countP q := (List.tail_sublist l).countP_le
  have hone : [a].countP q ≤ 1 := List.countP_le_length
  rw [pushBounded, List.countP_append]
  split <;> omega

/-- **The window rule.** Pushing into the last `n` elements of a log gives the
last `n` elements of the longer log. -/
theorem pushBounded_rtake {n : ℕ} (hn : 0 < n) (log : List α) (a : α) :
    pushBounded n (log.rtake n) a = (log ++ [a]).rtake n := by
  have hlen : (log.rtake n).length = min n log.length := by simp [List.rtake]; omega
  obtain ⟨m, rfl⟩ := Nat.exists_eq_add_of_le' hn
  rw [List.rtake_concat_succ]
  by_cases h : m + 1 ≤ log.length
  · -- the window is full and moves on by one
    rw [pushBounded_of_le (by omega)]
    congr 1
    rw [List.rtake, List.rtake, List.tail_drop]
    congr 1
    omega
  · -- the window still is the whole log
    rw [pushBounded_of_lt (by omega)]
    congr 1
    rw [List.rtake, List.rtake, show log.length - (m + 1) = 0 by omega,
      show log.length - m = 0 by omega]

/-- Change the last hit among the last `n` elements. -/
def updateLastIn (n : ℕ) (p : α → Bool) (f : α → α) (log : List α) : List α :=
  log.take (log.length - n) ++ updateLast p f (log.rtake n)

theorem rtake_updateLastIn (n : ℕ) (p : α → Bool) (f : α → α) (log : List α) :
    (updateLastIn n p f log).rtake n = updateLast p f (log.rtake n) := by
  have hlen : (updateLastIn n p f log).length = log.length := by
    simp [updateLastIn, List.rtake]
  rw [List.rtake, hlen, updateLastIn, List.drop_left' (by simp)]

end KernelModules.Lib
