import KernelModules.Lib.Update

/-!
Histories of a collection.

A history holds every item that was ever added, in order, and marks the ones
that have left. What is present is what carries no mark. The operations of a
collection are written on its history, where nothing is forgotten, and what they
do to the present items is read off below.
-/

namespace KernelModules.Lib

variable {α : Type*}

structure Entry (α : Type*) where
  item : α
  gone : Bool := false
  deriving DecidableEq

abbrev History (α : Type*) := List (Entry α)

namespace History

/-- Everything that was added. -/
def items (h : History α) : List α := h.map Entry.item

/-- What has not left since. -/
def present (h : History α) : List α := (h.filter fun e => !e.gone).map Entry.item

def add (a : α) (h : History α) : History α := h ++ [{ item := a }]

/-- The oldest present item leaves. -/
def dropOldest (h : History α) : History α :=
  updateFirst (fun e => !e.gone) (fun e => { e with gone := true }) h

/-- Every item that satisfies `p` leaves. -/
def dropWhere (p : α → Bool) (h : History α) : History α :=
  h.map fun e => { e with gone := e.gone || p e.item }

@[simp] theorem items_nil : items ([] : History α) = [] := rfl

@[simp] theorem present_nil : present ([] : History α) = [] := rfl

@[simp] theorem length_items (h : History α) : h.items.length = h.length := by simp [items]

@[simp] theorem items_add (a : α) (h : History α) : (h.add a).items = h.items ++ [a] := by
  simp [items, add]

@[simp] theorem present_add (a : α) (h : History α) : (h.add a).present = h.present ++ [a] := by
  simp [present, add]

@[simp] theorem items_dropWhere (p : α → Bool) (h : History α) :
    (h.dropWhere p).items = h.items := by
  simp [items, dropWhere]

@[simp] theorem present_dropWhere (p : α → Bool) (h : History α) :
    (h.dropWhere p).present = h.present.filter fun a => !p a := by
  induction h with
  | nil => rfl
  | cons e h ih =>
      rw [present, present, dropWhere] at ih ⊢
      obtain ⟨a, gone⟩ := e
      cases gone <;> cases hp : p a <;> simp_all

@[simp] theorem items_dropOldest (h : History α) : h.dropOldest.items = h.items := by
  induction h with
  | nil => rfl
  | cons e h ih =>
      rw [dropOldest, items, items] at ih ⊢
      rw [updateFirst_cons]
      split
      · rfl
      · rw [List.map_cons, ih, List.map_cons]

@[simp] theorem present_dropOldest (h : History α) : h.dropOldest.present = h.present.tail := by
  induction h with
  | nil => rfl
  | cons e h ih =>
      rw [dropOldest, present, present] at ih ⊢
      rw [updateFirst_cons]
      obtain ⟨a, gone⟩ := e
      cases gone
      · rfl
      · simpa using ih

@[simp] theorem length_add (a : α) (h : History α) : (h.add a).length = h.length + 1 := by
  simp [add]

@[simp] theorem length_dropWhere (p : α → Bool) (h : History α) :
    (h.dropWhere p).length = h.length := by
  simp [dropWhere]

@[simp] theorem length_dropOldest (h : History α) : h.dropOldest.length = h.length := by
  rw [← length_items, items_dropOldest, length_items]

/-- The present items stand in the order of their addition. -/
theorem present_sublist_items (h : History α) : h.present.Sublist h.items :=
  List.filter_sublist.map _

end History

end KernelModules.Lib
