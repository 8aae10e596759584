import KernelModules.Lib.Update
import Mathlib.Data.List.Range
import Mathlib.Data.List.Perm.Basic

/-!
What is allocated and what is freed.

The heap hands out every address once. Freeing an address that is not allocated, or is
free already, is a fault. A program whose addresses are all known to be held by someone,
each by one holder, makes no fault and loses nothing: that is `Owns`, and each operation
has a rule for it.
-/

namespace KernelModules.Lib

variable {α β : Type*}

/-- The addresses below `next` have been handed out. -/
@[ext]
structure Heap where
  next : ℕ
  freed : List ℕ
  fault : Bool
  deriving DecidableEq

namespace Heap

def empty : Heap := ⟨0, [], false⟩

def kmalloc (h : Heap) : ℕ × Heap := (h.next, { h with next := h.next + 1 })

def kfree (addr : ℕ) (h : Heap) : Heap :=
  if addr < h.next ∧ addr ∉ h.freed then { h with freed := addr :: h.freed }
  else { h with fault := true }

/-- `kfree` of a pointer that comes from no allocation. -/
def kfreeWild (h : Heap) : Heap := { h with fault := true }

/-- A loop that frees the blocks of a list. -/
def kfreeAll (blocks : List (ℕ × α)) (h : Heap) : Heap :=
  blocks.foldl (fun h block => h.kfree block.1) h

@[simp] theorem next_kfree (h : Heap) (addr : ℕ) : (h.kfree addr).next = h.next := by
  rw [kfree]
  split <;> rfl

@[simp] theorem next_kfreeAll (h : Heap) (blocks : List (ℕ × α)) :
    (h.kfreeAll blocks).next = h.next := by
  induction blocks generalizing h with
  | nil => rfl
  | cons block blocks ih => exact (ih (h.kfree block.1)).trans (next_kfree ..)

/-- What is held is what is allocated and not freed, each block by one holder. -/
structure Owns (h : Heap) (held : List ℕ) : Prop where
  perm : (held ++ h.freed).Perm (List.range h.next)
  fault : h.fault = false

namespace Owns

variable {h : Heap} {held held' : List ℕ} {addr : ℕ}

theorem empty : Heap.empty.Owns [] := ⟨List.Perm.refl _, rfl⟩

theorem of_perm (howns : h.Owns held) (hperm : held'.Perm held) : h.Owns held' :=
  ⟨(hperm.append_right _).trans howns.perm, howns.fault⟩

theorem nodup (howns : h.Owns held) : (held ++ h.freed).Nodup :=
  howns.perm.nodup_iff.mpr List.nodup_range

/-- What is held is live, and nothing else is. -/
theorem mem_iff (howns : h.Owns held) : addr ∈ held ↔ addr < h.next ∧ addr ∉ h.freed := by
  have hmem : addr ∈ held ∨ addr ∈ h.freed ↔ addr < h.next := by
    rw [← List.mem_append, howns.perm.mem_iff, List.mem_range]
  constructor
  · intro hheld
    refine ⟨hmem.mp (.inl hheld), fun hfreed => ?_⟩
    exact (List.nodup_append.mp howns.nodup).2.2 addr hheld addr hfreed rfl
  · rintro ⟨hlt, hfreed⟩
    exact (hmem.mpr hlt).resolve_right hfreed

theorem kmalloc (howns : h.Owns held) : h.kmalloc.2.Owns (h.kmalloc.1 :: held) where
  perm := by
    show (h.next :: (held ++ h.freed)).Perm (List.range (h.next + 1))
    rw [List.range_succ]
    exact (howns.perm.cons h.next).trans (List.perm_append_singleton ..).symm
  fault := howns.fault

theorem kfree_eq (howns : h.Owns (addr :: held)) :
    h.kfree addr = { h with freed := addr :: h.freed } :=
  if_pos (howns.mem_iff.mp List.mem_cons_self)

theorem kfree (howns : h.Owns (addr :: held)) : (h.kfree addr).Owns held := by
  rw [howns.kfree_eq]
  exact ⟨List.perm_middle.trans howns.perm, howns.fault⟩

theorem kfreeAll {blocks : List (ℕ × α)} (howns : h.Owns (blocks.map Prod.fst ++ held)) :
    (h.kfreeAll blocks).Owns held := by
  induction blocks generalizing h with
  | nil => exact howns
  | cons block blocks ih => exact ih howns.kfree

/-- With nothing held, every block has been freed, each of them once. -/
theorem freed_once (howns : h.Owns []) : h.freed.Perm (List.range h.next) := howns.perm

end Owns

end Heap

/-! ### Lists of blocks -/

/-- The contents of a list of blocks. -/
def contents (blocks : List (ℕ × α)) : List α := blocks.map Prod.snd

/-- Writing to a block does not move it. -/
def rewrite (f : α → α) (block : ℕ × α) : ℕ × α := (block.1, f block.2)

/-- A list that is counted as full has an oldest block. -/
theorem exists_oldest {blocks : List (ℕ × α)} {count limit : ℤ}
    (hcount : count = (contents blocks).length) (hlimit : 0 < limit) (hfull : count ≥ limit) :
    ∃ oldest rest, blocks = oldest :: rest := by
  apply List.exists_cons_of_ne_nil
  rintro rfl
  rw [contents, List.map_nil, List.length_nil] at hcount
  omega

theorem contents_map_rewrite (f : α → α) (blocks : List (ℕ × α)) :
    contents (blocks.map (rewrite f)) = (contents blocks).map f := by
  simp [contents, rewrite, Function.comp_def]

theorem addresses_map_rewrite (f : α → α) (blocks : List (ℕ × α)) :
    (blocks.map (rewrite f)).map Prod.fst = blocks.map Prod.fst := by
  simp [rewrite, Function.comp_def]

theorem contents_eraseP (p : α → Bool) (blocks : List (ℕ × α)) :
    contents (blocks.eraseP fun block => p block.2) = (contents blocks).eraseP p :=
  List.eraseP_map.symm

/-- The first change of a list of blocks is that of its contents, and it moves no block. -/
theorem updateFirst_rewrite (p : α → Bool) (f : α → α) (blocks : List (ℕ × α)) :
    contents (updateFirst (fun block => p block.2) (rewrite f) blocks) =
        updateFirst p f (contents blocks) ∧
      (updateFirst (fun block => p block.2) (rewrite f) blocks).map Prod.fst =
        blocks.map Prod.fst := by
  induction blocks with
  | nil => exact ⟨rfl, rfl⟩
  | cons block blocks ih =>
      have hcontents : contents (block :: blocks) = block.2 :: contents blocks := rfl
      rw [updateFirst_cons, hcontents, updateFirst_cons]
      by_cases hp : p block.2 = true
      · rw [if_pos hp, if_pos hp]
        exact ⟨rfl, rfl⟩
      · rw [if_neg hp, if_neg hp]
        exact ⟨congrArg (block.2 :: ·) ih.1, congrArg (block.1 :: ·) ih.2⟩

/-- A list is what a search finds in it, and the others. -/
theorem perm_cons_eraseP {p : α → Bool} {l : List α} {a : α} (hfind : l.find? p = some a) :
    (a :: l.eraseP p).Perm l := by
  induction l with
  | nil => cases hfind
  | cons b l ih =>
      cases hb : p b with
      | true =>
          rw [List.find?_cons_of_pos hb, Option.some.injEq] at hfind
          rw [List.eraseP_cons_of_pos hb, hfind]
      | false =>
          have hb' : ¬ p b = true := by rw [hb]; decide
          rw [List.find?_cons_of_neg hb'] at hfind
          rw [List.eraseP_cons_of_neg hb']
          exact (List.Perm.swap ..).trans ((ih hfind).cons b)

end KernelModules.Lib
