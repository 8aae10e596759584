import KernelModules.Lib.SearchTree
import Mathlib.Data.List.Nodup
import Mathlib.Data.List.Perm.Basic
import Mathlib.Order.Lattice

/-!
Two indexes over one append-only-at-the-end list.

A store that keeps its elements in a list in order of arrival often keeps them
in a hash table and in a search tree as well. `Buckets` says that a table of
chains indexes the list with the newest element of a bucket first, which is what
inserting at the head of a chain produces. `StableSort` says that a sequence is
the list sorted by a key, elements with equal keys staying in order of arrival,
which is what a descent that goes right on equal keys produces. Both relations
determine the index from the list, so whatever is asked of an index (membership,
multiplicity, the answer to a search) is a fact about the list.

Each relation is kept by the same three operations: an element arrives at the
end, an element leaves, and the elements change without their key changing.
-/

namespace KernelModules.Lib

variable {α β κ : Type*}

/-! ### Bucket chains -/

/-- The chains `table` hold the elements of `l`, each in its own bucket, newest
first. -/
def Buckets [DecidableEq β] (bucket : α → β) (l : List α) (table : β → List α) : Prop :=
  ∀ b, table b = (l.filter fun a => bucket a = b).reverse

namespace Buckets

variable [DecidableEq β] {bucket : α → β} {l : List α} {table : β → List α}

theorem empty (bucket : α → β) : Buckets bucket [] fun _ => [] := fun _ => rfl

theorem mem_iff (h : Buckets bucket l table) {a : α} {b : β} :
    a ∈ table b ↔ a ∈ l ∧ bucket a = b := by
  simp [h b]

theorem nodup (h : Buckets bucket l table) (hl : l.Nodup) (b : β) : (table b).Nodup := by
  rw [h b]
  exact List.nodup_reverse.mpr (hl.filter _)

theorem eq_empty (h : Buckets bucket [] table) : table = fun _ => [] := by
  funext b
  simp [h b]

/-- A new last element goes to the head of its chain. -/
theorem push (h : Buckets bucket l table) (a : α) :
    Buckets bucket (l ++ [a]) (Function.update table (bucket a) (a :: table (bucket a))) := by
  intro b
  by_cases hb : b = bucket a
  · subst hb
    simp [h (bucket a), List.filter_append]
  · rw [Function.update_of_ne hb, h b]
    simp [List.filter_append, Ne.symm hb]

theorem erase [DecidableEq α] (h : Buckets bucket l table) (hl : l.Nodup) (a : α) :
    Buckets bucket (l.erase a) fun b => (table b).erase a := by
  intro b
  show (table b).erase a = _
  rw [(h.nodup hl b).erase_eq_filter, hl.erase_eq_filter, h b, List.filter_reverse,
    List.filter_filter, List.filter_filter]
  simp only [Bool.and_comm]

theorem congr {bucket' : α → β} (h : Buckets bucket l table)
    (heq : ∀ a ∈ l, bucket' a = bucket a) : Buckets bucket' l table := by
  intro b
  rw [h b]
  congr 1
  exact List.filter_congr fun a ha => by rw [heq a ha]

theorem find?_filter_of_imp {p q : α → Bool} {l : List α}
    (h : ∀ a ∈ l, p a = true → q a = true) : (l.filter q).find? p = l.find? p := by
  induction l with
  | nil => rfl
  | cons a l ih =>
      have hrest := ih fun b hb => h b (List.mem_cons_of_mem _ hb)
      by_cases hq : q a = true
      · rw [List.filter_cons_of_pos hq, List.find?_cons, List.find?_cons, hrest]
      · have hp : ¬ p a = true := fun hp => hq (h a (List.mem_cons_self ..) hp)
        rw [List.filter_cons_of_neg hq, List.find?_cons_of_neg hp, hrest]

/-- A search of one chain, for elements that can only be in that chain, is a
search of the whole list from its newest end. -/
theorem find?_eq (h : Buckets bucket l table) {b : β} {p : α → Bool}
    (hp : ∀ a ∈ l, p a = true → bucket a = b) :
    (table b).find? p = l.reverse.find? p := by
  rw [h b, ← List.filter_reverse]
  exact find?_filter_of_imp fun a ha hpa => by simp [hp a (List.mem_reverse.mp ha) hpa]

end Buckets

/-! ### Stably sorted sequences -/

/-- `t` is `l` sorted by `key`, elements with equal keys in the order of `l`. -/
structure StableSort [LinearOrder κ] (key : α → κ) (l t : List α) : Prop where
  sorted : t.Pairwise fun a b => key a ≤ key b
  stable : ∀ k, (t.filter fun a => key a = k) = l.filter fun a => key a = k

namespace StableSort

variable [LinearOrder κ] {key : α → κ} {l t : List α}

theorem nil (key : α → κ) : StableSort key [] [] := ⟨List.Pairwise.nil, fun _ => rfl⟩

theorem mem_iff (h : StableSort key l t) {a : α} : a ∈ t ↔ a ∈ l := by
  have hmem := congrArg (a ∈ ·) (h.stable (key a))
  simpa using hmem

theorem count_eq [DecidableEq α] (h : StableSort key l t) (a : α) : t.count a = l.count a := by
  have hcount := congrArg (List.count a) (h.stable (key a))
  rwa [List.count_filter (by simp), List.count_filter (by simp)] at hcount

theorem perm [DecidableEq α] (h : StableSort key l t) : t.Perm l :=
  List.perm_iff_count.mpr h.count_eq

theorem nodup [DecidableEq α] (h : StableSort key l t) (hl : l.Nodup) : t.Nodup :=
  h.perm.nodup_iff.mpr hl

theorem eq_nil (h : StableSort key [] t) : t = [] :=
  List.eq_nil_iff_forall_not_mem.mpr fun a ha => by simpa using h.mem_iff.mp ha

/-- A new last element goes behind every element whose key is not larger. -/
theorem push {before after : List α} {a : α} (h : StableSort key l (before ++ after))
    (hbefore : ∀ b ∈ before, key b ≤ key a) (hafter : ∀ b ∈ after, key a < key b) :
    StableSort key (l ++ [a]) (before ++ a :: after) := by
  obtain ⟨hb, ha, hcross⟩ := List.pairwise_append.mp h.sorted
  constructor
  · refine List.pairwise_append.mpr ⟨hb, List.pairwise_cons.mpr ⟨?_, ha⟩, ?_⟩
    · exact fun b hbmem => (hafter b hbmem).le
    · intro b hbmem c hc
      rcases List.mem_cons.mp hc with rfl | hc
      · exact hbefore b hbmem
      · exact hcross b hbmem c hc
  · intro k
    have hstable := h.stable k
    by_cases hk : key a = k
    · have hnone : (after.filter fun b => key b = k) = [] := by
        apply List.filter_eq_nil_iff.mpr
        intro b hbmem
        simpa [← hk] using (hafter b hbmem).ne'
      rw [List.filter_append, hnone, List.append_nil] at hstable
      simp [List.filter_append, hk, hnone, hstable]
    · rw [List.filter_append] at hstable
      simp [List.filter_append, hk, hstable]

theorem erase [DecidableEq α] (h : StableSort key l t) (a : α) :
    StableSort key (l.erase a) (t.erase a) where
  sorted := h.sorted.sublist List.erase_sublist
  stable k := by rw [← List.erase_filter, ← List.erase_filter, h.stable k]

theorem congr {key' : α → κ} (h : StableSort key l t) (heq : ∀ a ∈ l, key' a = key a) :
    StableSort key' l t where
  sorted := h.sorted.imp_of_mem fun ha hb hle => by
    rwa [heq _ (h.mem_iff.mp ha), heq _ (h.mem_iff.mp hb)]
  stable k := by
    rw [List.filter_congr fun a ha => by rw [heq a (h.mem_iff.mp ha)], h.stable k]
    exact List.filter_congr fun a ha => by rw [heq a ha]

/-- A list that is sorted already is its own stable sort. -/
theorem eq_of_sorted (h : StableSort key l t) (hl : l.Pairwise fun a b => key a ≤ key b) :
    t = l := by
  induction l generalizing t with
  | nil => exact h.eq_nil
  | cons a l ih =>
      obtain ⟨ha, hsorted⟩ := List.pairwise_cons.mp hl
      cases t with
      | nil => exact absurd (h.mem_iff.mpr (List.mem_cons_self ..)) (by simp)
      | cons b t =>
          obtain ⟨hb, ht⟩ := List.pairwise_cons.mp h.sorted
          -- both heads have the least key, so by stability they are the same element
          have hkey : key b = key a := by
            apply le_antisymm
            · rcases List.mem_cons.mp (h.mem_iff.mpr (List.mem_cons_self (a := a))) with rfl | hmem
              · exact le_rfl
              · exact hb a hmem
            · rcases List.mem_cons.mp (h.mem_iff.mp (List.mem_cons_self (a := b))) with rfl | hmem
              · exact le_rfl
              · exact ha b hmem
          have hhead := h.stable (key a)
          rw [List.filter_cons_of_pos (by simp [hkey]),
            List.filter_cons_of_pos (by simp)] at hhead
          obtain ⟨rfl, -⟩ := List.cons_eq_cons.mp hhead
          have hrest : StableSort key l t := by
            refine ⟨ht, fun k => ?_⟩
            have hstable := h.stable k
            by_cases hk : key b = k
            · simpa [List.filter_cons, hk] using hstable
            · simpa [List.filter_cons, hk] using hstable
          rw [ih hrest hsorted]

end StableSort

/-- Linking a new last element into a tree that sorts the list stably, going
left exactly at larger keys, keeps the tree a stable sort. -/
theorem StableSort.link [LinearOrder κ] {key : α → κ} {l : List α} {t : RbTree α}
    (h : StableSort key l t.toList) (a : α) :
    StableSort key (l ++ [a]) (t.link (fun b => key a < key b) a).toList := by
  have hmono : t.toList.Pairwise fun b c =>
      decide (key a < key b) = true → decide (key a < key c) = true := by
    apply h.sorted.imp
    intro b c hle hlt
    simp only [decide_eq_true_eq] at hlt ⊢
    exact lt_of_lt_of_le hlt hle
  obtain ⟨before, after, hlist, hlink, hbefore, hafter⟩ :=
    RbTree.exists_toList_link (fun b => decide (key a < key b)) a t hmono
  rw [hlink]
  apply StableSort.push (hlist ▸ h)
  · intro b hb
    simpa using hbefore b hb
  · intro b hb
    simpa using hafter b hb

end KernelModules.Lib
