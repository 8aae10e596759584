import Mathlib.Data.List.Pairwise

/-!
Coloured binary trees and the descent that links a new node into one.

This is the part of a red-black tree that its user writes: the comparison loop
that walks from the root to a free slot. Which colour a node has, and how the
tree is rotated afterwards, is left to whoever rebalances it; what the user
relies on is the in-order sequence `toList`.
-/

namespace KernelModules.Lib

/-- The colour of a node, as a rebalancing step sees it. -/
inductive RbColor
  | red
  | black
  deriving DecidableEq

inductive RbTree (α : Type*)
  | nil
  | node (color : RbColor) (left : RbTree α) (value : α) (right : RbTree α)
  deriving DecidableEq

namespace RbTree

variable {α : Type*}

/-- The in-order sequence. -/
def toList : RbTree α → List α
  | nil => []
  | node _ l x r => l.toList ++ x :: r.toList

@[simp] theorem toList_nil : (nil : RbTree α).toList = [] := rfl

@[simp] theorem toList_node (c : RbColor) (l : RbTree α) (x : α) (r : RbTree α) :
    (node c l x r).toList = l.toList ++ x :: r.toList := rfl

@[simp] theorem toList_eq_nil {t : RbTree α} : t.toList = [] ↔ t = nil := by
  cases t <;> simp

/-- Link `x` as a red leaf at the slot the descent ends in: left of every node
for which `left` says so, right of the others. -/
def link (left : α → Bool) (x : α) : RbTree α → RbTree α
  | nil => node .red nil x nil
  | node c l this r =>
      if left this then node c (link left x l) this r else node c l this (link left x r)

/-- Where `left` is monotone along the in-order sequence, the new element lands
at the one point that has every `left` node behind it and every other node
before it. -/
theorem exists_toList_link (left : α → Bool) (x : α) (t : RbTree α)
    (hmono : t.toList.Pairwise fun a b => left a = true → left b = true) :
    ∃ before after, t.toList = before ++ after ∧
      (t.link left x).toList = before ++ x :: after ∧
      (∀ a ∈ before, left a = false) ∧ ∀ a ∈ after, left a = true := by
  induction t with
  | nil => exact ⟨[], [], rfl, rfl, by simp, by simp⟩
  | node c l this r ihl ihr =>
      rw [toList_node, List.pairwise_append, List.pairwise_cons] at hmono
      obtain ⟨hl, ⟨hthis, hr⟩, hcross⟩ := hmono
      -- the slot is in the subtree that the descent enters
      by_cases hleft : left this = true
      · obtain ⟨before, after, hlist, hlink, hbefore, hafter⟩ := ihl hl
        refine ⟨before, after ++ this :: r.toList, by simp [hlist],
          by simp [link, hleft, hlink], hbefore, fun a ha => ?_⟩
        rcases List.mem_append.mp ha with ha | ha
        · exact hafter a ha
        · rcases List.mem_cons.mp ha with rfl | ha
          · exact hleft
          · exact hthis a ha hleft
      · obtain ⟨before, after, hlist, hlink, hbefore, hafter⟩ := ihr hr
        refine ⟨l.toList ++ this :: before, after, by simp [hlist],
          by simp [link, hleft, hlink], fun a ha => ?_, hafter⟩
        rcases List.mem_append.mp ha with ha | ha
        · have := hcross a ha this (List.mem_cons_self ..)
          simpa using mt this hleft
        · rcases List.mem_cons.mp ha with rfl | ha
          · simpa using hleft
          · exact hbefore a ha

/-- Colour the root black, as every rebalancing ends. -/
def blacken : RbTree α → RbTree α
  | nil => nil
  | node _ l x r => node .black l x r

@[simp] theorem toList_blacken (t : RbTree α) : t.blacken.toList = t.toList := by
  cases t <;> rfl

/-- Hang `r` below the largest node of the first tree. -/
def join : RbTree α → RbTree α → RbTree α
  | nil, r => r
  | node c l x l', r => node c l x (join l' r)

@[simp] theorem toList_join (l r : RbTree α) : (l.join r).toList = l.toList ++ r.toList := by
  induction l with
  | nil => rfl
  | node c l x l' _ ih => simp [join, ih]

/-- Remove the first node that holds `x`, without rebalancing. -/
def remove [DecidableEq α] (x : α) : RbTree α → RbTree α
  | nil => nil
  | node c l y r =>
      if x ∈ l.toList then node c (remove x l) y r
      else if y = x then l.join r
      else node c l y (remove x r)

theorem toList_remove [DecidableEq α] (x : α) (t : RbTree α) :
    (t.remove x).toList = t.toList.erase x := by
  induction t with
  | nil => rfl
  | node c l y r ihl ihr =>
      by_cases hl : x ∈ l.toList
      · simp [remove, hl, ihl, List.erase_append_left]
      · by_cases hy : y = x
        · subst hy
          simp [remove, hl, List.erase_append_right]
        · simp [remove, hl, hy, ihr, List.erase_append_right, List.erase_cons_tail]

end RbTree

end KernelModules.Lib
