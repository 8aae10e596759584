import KernelModules.Lib.Heap
import Mathlib.Logic.Function.Iterate

/-!
Going through a list that changes on the way.

A loop over a linked list holds a pointer to one block and asks that block where the next
one is. In between, blocks may be taken out of the list and others linked at its end. As
long as nobody takes out the block that is pointed to, the loop comes through: it passes
every block that stays, none twice, in the order of the list. The blocks are known by
their addresses, which increase along the list as they do along the heap.
-/

namespace KernelModules.Lib

variable {α : Type*}

/-- The blocks lie in the order of their addresses. -/
def Ascending (blocks : List (ℕ × α)) : Prop := (blocks.map Prod.fst).Pairwise (· < ·)

/-- A block of the list is pointed to. -/
def Points (addr : ℕ) (blocks : List (ℕ × α)) : Prop := addr ∈ blocks.map Prod.fst

/-- Blocks may have been taken out of the list, and new ones linked, with addresses from
`limit` on. -/
structure Later (limit : ℕ) (blocks : List (ℕ × α)) (limit' : ℕ) (blocks' : List (ℕ × α)) :
    Prop where
  limit_le : limit ≤ limit'
  points : ∀ addr, Points addr blocks' → Points addr blocks ∨ limit ≤ addr

/-! ### Ascending lists -/

variable {before rest blocks blocks' since : List (ℕ × α)} {block : ℕ × α} {addr : ℕ}

theorem points_append {blocks' : List (ℕ × α)} :
    Points addr (blocks ++ blocks') ↔ Points addr blocks ∨ Points addr blocks' := by
  simp only [Points, List.map_append, List.mem_append]

@[simp] theorem points_cons : Points addr (block :: rest) ↔ addr = block.1 ∨ Points addr rest := by
  simp only [Points, List.map_cons, List.mem_cons]

@[simp] theorem not_points_nil : ¬ Points addr ([] : List (ℕ × α)) := List.not_mem_nil

theorem Ascending.lt_of_before (h : Ascending (before ++ block :: rest))
    (haddr : Points addr before) : addr < block.1 := by
  rw [Ascending, List.map_append, List.pairwise_append] at h
  exact h.2.2 addr haddr block.1 List.mem_cons_self

theorem Ascending.after (h : Ascending (before ++ block :: rest)) :
    Ascending rest ∧ ∀ addr, Points addr rest → block.1 < addr := by
  rw [Ascending, List.map_append, List.pairwise_append, List.map_cons, List.pairwise_cons] at h
  exact ⟨h.2.1.2, h.2.1.1⟩

/-- The first address is the least. -/
theorem Ascending.head_le (h : Ascending blocks) {first : ℕ}
    (hfirst : first ∈ blocks.head?.map Prod.fst) (haddr : Points addr blocks) :
    first ≤ addr := by
  cases blocks with
  | nil => exact absurd haddr not_points_nil
  | cons block rest =>
      obtain rfl : block.1 = first := Option.some.inj hfirst
      rcases points_cons.mp haddr with rfl | hrest
      · exact le_rfl
      · have hcons : Ascending ([] ++ block :: rest) := h
        exact (hcons.after.2 addr hrest).le

theorem points_of_head {first : ℕ} (hfirst : first ∈ blocks.head?.map Prod.fst) :
    Points first blocks := by
  cases blocks with
  | nil => cases hfirst
  | cons block rest => exact points_cons.mpr (.inl (Option.some.inj hfirst).symm)

theorem Ascending.nodup (h : Ascending blocks) : (blocks.map Prod.fst).Nodup :=
  h.imp Nat.ne_of_lt

/-- A block is linked that was allocated after the others. -/
theorem Ascending.concat (h : Ascending blocks) (hnew : ∀ other ∈ blocks, other.1 < block.1) :
    Ascending (blocks ++ [block]) := by
  rw [Ascending, List.map_append, List.pairwise_append]
  refine ⟨h, List.pairwise_singleton .., fun addr haddr last hlast => ?_⟩
  obtain ⟨other, hother, rfl⟩ := List.mem_map.mp haddr
  rw [List.mem_singleton.mp hlast]
  exact hnew other hother

/-- From the first address on there is every block. -/
theorem Ascending.any_head_le (h : Ascending blocks) (haddr : Points addr blocks) :
    (blocks.head?.map Prod.fst).any (· ≤ addr) = true := by
  cases blocks with
  | nil => exact absurd haddr not_points_nil
  | cons block rest => exact decide_eq_true (h.head_le rfl haddr)

/-- From the address after a block on there are the blocks behind it. -/
theorem Ascending.any_next_le_iff (h : Ascending (before ++ block :: rest))
    (haddr : Points addr (before ++ block :: rest)) :
    (rest.head?.map Prod.fst).any (· ≤ addr) = true ↔ block.1 < addr := by
  obtain ⟨hrest, hafter⟩ := h.after
  rw [Option.any_eq_true]
  constructor
  · rintro ⟨first, hfirst, hle⟩
    have hlt := hafter first (points_of_head hfirst)
    have hle : first ≤ addr := of_decide_eq_true hle
    omega
  · intro hlt
    rw [← Option.any_eq_true]
    refine hrest.any_head_le ?_
    rcases points_append.mp haddr with hbefore | hrest'
    · exact absurd hlt (h.lt_of_before hbefore).not_gt
    · exact (points_cons.mp hrest').resolve_left hlt.ne'

/-- A list without one of its blocks. -/
theorem points_of_perm_cons (hperm : (block :: rest).Perm blocks)
    (hnodup : (blocks.map Prod.fst).Nodup) :
    Points addr rest ↔ Points addr blocks ∧ addr ≠ block.1 := by
  have hmap := hperm.map Prod.fst
  rw [← hmap.nodup_iff, List.map_cons, List.nodup_cons] at hnodup
  rw [Points, Points, ← hmap.mem_iff, List.map_cons, List.mem_cons]
  constructor
  · intro hrest
    refine ⟨.inr hrest, ?_⟩
    rintro rfl
    exact hnodup.1 hrest
  · rintro ⟨hpoints, hne⟩
    exact hpoints.resolve_left hne

/-- The list where a block of it begins. -/
theorem exists_eq_append_cons (h : Points addr blocks) :
    ∃ before block rest, blocks = before ++ block :: rest ∧ block.1 = addr ∧
      blocks.dropWhile (fun block => block.1 ≠ addr) = block :: rest := by
  induction blocks with
  | nil => exact absurd h not_points_nil
  | cons first blocks ih =>
      by_cases hfirst : first.1 = addr
      · exact ⟨[], first, blocks, rfl, hfirst, List.dropWhile_cons_of_neg (by simpa using hfirst)⟩
      · obtain ⟨before, block, rest, rfl, haddr, hdrop⟩ :=
          ih ((points_cons.mp h).resolve_left fun h => hfirst h.symm)
        refine ⟨first :: before, block, rest, rfl, haddr, ?_⟩
        rwa [List.dropWhile_cons_of_pos (by simpa using hfirst)]

/-- Where a loop over a list is, at a block or past the last one, and the blocks that it
has passed, as they were then. `astray` is set when a block was read that is not in the
list. -/
structure Traversal (α : Type*) where
  cursor : Option ℕ
  passed : List (ℕ × α)
  astray : Bool

namespace Traversal

/-- The loop is entered. -/
def enter (blocks : List (ℕ × α)) : Traversal α := ⟨blocks.head?.map Prod.fst, [], false⟩

/-- The loop body for one block, and the way to the next. -/
def next (blocks : List (ℕ × α)) (t : Traversal α) : Traversal α :=
  match t.cursor with
  | none => t
  | some addr =>
      match blocks.dropWhile (fun block => block.1 ≠ addr) with
      | [] => { t with cursor := none, astray := true }
      | block :: rest => { t with cursor := rest.head?.map Prod.fst, passed := t.passed ++ [block] }

/-- The block that is pointed to is in the list. -/
def Safe (t : Traversal α) (blocks : List (ℕ × α)) : Prop := ∀ addr ∈ t.cursor, Points addr blocks

/-- A loop that was entered with the blocks `since`, now that the list is `blocks` and the
addresses below `limit` have been given out. -/
structure Tracks (since : List (ℕ × α)) (limit : ℕ) (blocks : List (ℕ × α)) (t : Traversal α) :
    Prop where
  safe : t.Safe blocks
  old : ∀ block ∈ since ++ t.passed, block.1 < limit
  ascending : Ascending t.passed
  behind : ∀ addr ∈ t.cursor, ∀ block ∈ t.passed, block.1 < addr
  complete : ∀ block ∈ since, Points block.1 blocks → (∀ addr ∈ t.cursor, block.1 < addr) →
    Points block.1 t.passed
  onWay : t.astray = false

variable {t : Traversal α} {limit limit' : ℕ}

theorem tracks_enter (hblocks : Ascending blocks) (hold : ∀ block ∈ blocks, block.1 < limit) :
    (enter blocks).Tracks blocks limit blocks where
  safe _ hfirst := points_of_head hfirst
  old block hblock := by
    rw [enter, List.append_nil] at hblock
    exact hold block hblock
  ascending := List.Pairwise.nil
  behind _ _ _ hpassed := absurd hpassed List.not_mem_nil
  complete block _ hblock hbefore := by
    cases hblocks' : blocks.head? with
    | none =>
        rw [List.head?_eq_none_iff.mp hblocks'] at hblock
        exact absurd hblock not_points_nil
    | some first =>
        have hfirst : first.1 ∈ blocks.head?.map Prod.fst := by simp [hblocks']
        exact absurd (hbefore first.1 hfirst) (hblocks.head_le hfirst hblock).not_gt
  onWay := rfl

/-- What one round does, at a block of the list. -/
theorem next_cases (hsafe : t.Safe blocks) :
    (t.cursor = none ∧ t.next blocks = t) ∨
      ∃ before block rest, blocks = before ++ block :: rest ∧ t.cursor = some block.1 ∧
        t.next blocks =
          { t with cursor := rest.head?.map Prod.fst, passed := t.passed ++ [block] } := by
  rw [next]
  cases hcursor : t.cursor with
  | none => exact .inl ⟨rfl, rfl⟩
  | some addr =>
      obtain ⟨before, block, rest, hblocks, rfl, hdrop⟩ :=
        exists_eq_append_cons (hsafe addr hcursor)
      refine .inr ⟨before, block, rest, hblocks, rfl, ?_⟩
      simp only [hdrop]

/-- **One round** keeps track. -/
theorem Tracks.next (h : t.Tracks since limit blocks) (hblocks : Ascending blocks)
    (hold : ∀ block ∈ blocks, block.1 < limit) : (t.next blocks).Tracks since limit blocks := by
  rcases next_cases h.safe with ⟨-, hnext⟩ | ⟨before, block, rest, rfl, hcursor, hnext⟩ <;>
    rw [hnext]
  · exact h
  have hlt : ∀ passed ∈ t.passed, passed.1 < block.1 := h.behind block.1 hcursor
  obtain ⟨hrest, hafter⟩ := hblocks.after
  refine ⟨fun first hfirst => ?_, fun passed hpassed => ?_, ?_,
    fun first hfirst passed hpassed => ?_, fun entered hentered hpoints hbefore => ?_, h.onWay⟩
  · exact points_append.mpr (.inr (points_cons.mpr (.inr (points_of_head hfirst))))
  · rw [← List.append_assoc] at hpassed
    rcases List.mem_append.mp hpassed with hpassed | hpassed
    · exact h.old passed hpassed
    · rw [List.mem_singleton.mp hpassed]
      exact hold block (List.mem_append_right _ List.mem_cons_self)
  · exact h.ascending.concat hlt
  · have hblock := hafter first (points_of_head hfirst)
    rcases List.mem_append.mp hpassed with hpassed | hpassed
    · exact (hlt passed hpassed).trans hblock
    · rwa [List.mem_singleton.mp hpassed]
  · refine points_append.mpr ?_
    rcases points_append.mp hpoints with hpoints | hpoints
    · refine .inl (h.complete entered hentered (points_append.mpr (.inl hpoints)) ?_)
      intro addr haddr
      obtain rfl : block.1 = addr := Option.some.inj (hcursor.symm.trans haddr)
      exact hblocks.lt_of_before hpoints
    rcases points_cons.mp hpoints with hpoints | hpoints
    · exact .inr (points_cons.mpr (.inl hpoints))
    · -- what comes later is not before the new cursor
      obtain ⟨first, hfirst⟩ : ∃ first, first ∈ rest.head?.map Prod.fst := by
        cases rest with
        | nil => exact absurd hpoints not_points_nil
        | cons first rest => exact ⟨first.1, rfl⟩
      exact absurd (hbefore first hfirst) (hrest.head_le hfirst hpoints).not_gt

/-- **A change** of the list keeps track, if the block that is pointed to stays. -/
theorem Tracks.later (h : t.Tracks since limit blocks) (hlater : Later limit blocks limit' blocks')
    (hsafe : t.Safe blocks') : t.Tracks since limit' blocks' where
  safe := hsafe
  old block hblock := (h.old block hblock).trans_le hlater.limit_le
  ascending := h.ascending
  behind := h.behind
  complete block hsince hpoints hbefore := by
    refine h.complete block hsince ?_ hbefore
    -- a new block is none of the old ones
    refine (hlater.points block.1 hpoints).resolve_right fun hnew => ?_
    have hlt := h.old block (List.mem_append_left _ hsince)
    omega
  onWay := h.onWay

/-- **A loop that has come through** has passed every block that stayed, in order. -/
theorem Tracks.finished (h : t.Tracks since limit blocks) (hend : t.cursor = none) :
    t.astray = false ∧ Ascending t.passed ∧
      ∀ block ∈ since, Points block.1 blocks → Points block.1 t.passed := by
  refine ⟨h.onWay, h.ascending, fun block hsince hpoints => h.complete block hsince hpoints ?_⟩
  rw [hend]
  exact fun _ haddr => absurd haddr (Option.not_mem_none _)

/-- A round at the first of the blocks that are left. -/
theorem next_of_ascending (hblocks : Ascending (before ++ block :: rest))
    (hcursor : t.cursor = some block.1) :
    t.next (before ++ block :: rest) =
      { t with cursor := rest.head?.map Prod.fst, passed := t.passed ++ [block] } := by
  have hdrop : (before ++ block :: rest).dropWhile (fun other => other.1 ≠ block.1) =
      block :: rest := by
    rw [List.dropWhile_append_of_pos, List.dropWhile_cons_of_neg (by simp)]
    intro other hother
    have hlt := hblocks.lt_of_before (List.mem_map_of_mem hother)
    simpa using hlt.ne
  rw [next, hcursor]
  simp only [hdrop]

/-- A loop over a list that does not change passes it as it is. -/
theorem next_iterate (before rest : List (ℕ × α)) (hblocks : Ascending (before ++ rest)) (n : ℕ) :
    (next (before ++ rest))^[n] ⟨rest.head?.map Prod.fst, before, false⟩ =
      ⟨(rest.drop n).head?.map Prod.fst, before ++ rest.take n, false⟩ := by
  induction n generalizing before rest with
  | zero => simp
  | succ n ih =>
      rw [Function.iterate_succ_apply]
      cases rest with
      | nil =>
          have hstay := ih before [] hblocks
          rw [List.drop_nil, List.take_nil] at hstay ⊢
          exact hstay
      | cons block rest =>
          rw [List.head?_cons, Option.map_some, next_of_ascending hblocks rfl]
          rw [List.append_cons] at hblocks ⊢
          rw [ih (before ++ [block]) rest hblocks]
          simp

end Traversal

end KernelModules.Lib
