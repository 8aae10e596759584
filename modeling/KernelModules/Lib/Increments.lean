import KernelModules.Lib.Run
import Mathlib.Logic.Function.Basic
import Mathlib.Algebra.BigOperators.Group.Finset.Basic
import Mathlib.Algebra.Order.BigOperators.Group.Finset
import Mathlib.Data.Fintype.Basic

/-!
Threads that increment shared counters without atomicity.

An increment is two steps: the thread reads the counter, and later writes back
what it read and one more. Whatever another thread wrote in between is lost. A
thread is the list of the counters that it still has to increment, in order, with
steps in between that touch none. All of its increments count exactly when no
write is made while another thread is between its read and its write of the same
counter.
-/

namespace KernelModules.Lib

variable {T ι α β : Type*} [DecidableEq T]

/-! ### One counter -/

/-- One counter: its value, the increments that are still to be written, and the
value that each thread holds of it. -/
structure Cell (T : Type*) where
  value : ℕ
  due : ℕ
  hold : T → Option ℕ

namespace Cell

/-- What a step of thread `t` does to one counter. -/
inductive Step (t : T) (c c' : Cell T) : Prop
  | other : c.hold t = none → c'.value = c.value → c'.due = c.due → c'.hold = c.hold →
      Step t c c'
  | read : c.hold t = none → c'.value = c.value → c'.due = c.due →
      c'.hold = Function.update c.hold t (some c.value) → Step t c c'
  | write (v : ℕ) : c.hold t = some v → c'.value = v + 1 → c.due = c'.due + 1 →
      c'.hold = Function.update c.hold t none → Step t c c'

/-- Nothing is counted twice. -/
def Bounded (total : ℕ) (c : Cell T) : Prop :=
  c.value + c.due ≤ total ∧ ∀ u v, c.hold u = some v → v + c.due ≤ total

/-- Every increment that was written counts, and what is held is up to date. -/
def Exact (total : ℕ) (c : Cell T) : Prop :=
  c.value + c.due = total ∧ ∀ u v, c.hold u = some v → v = c.value

/-- An increment has been lost, or is going to be: a thread holds an old value, or
the counter and all that is held of it are behind. -/
def Lost (total : ℕ) (c : Cell T) : Prop :=
  (∃ u v, c.hold u = some v ∧ v + c.due < total) ∨
    c.value + c.due < total ∧ ∀ u v, c.hold u = some v → v + c.due < total

/-- If `t` is about to write, nobody else is. -/
def Alone (t : T) (c : Cell T) : Prop := ∀ v, c.hold t = some v → ∀ u, u ≠ t → c.hold u = none

variable {total : ℕ} {c c' : Cell T} {t : T}

/-- What is held after one thread's part has changed. -/
theorem hold_cases {hold hold' : T → Option ℕ} {new : Option ℕ}
    (h : hold' = Function.update hold t new) {u : T} {v : ℕ} (hu : hold' u = some v) :
    u = t ∧ new = some v ∨ u ≠ t ∧ hold u = some v := by
  rw [h] at hu
  by_cases hut : u = t
  · subst hut
    rw [Function.update_self] at hu
    exact .inl ⟨rfl, hu⟩
  · rw [Function.update_of_ne hut] at hu
    exact .inr ⟨hut, hu⟩

omit [DecidableEq T] in
theorem Exact.not_lost (h : Exact total c) : ¬ Lost total c := by
  obtain ⟨htotal, hheld⟩ := h
  rintro (⟨u, v, hu, hlt⟩ | ⟨hlt, -⟩)
  · have hv := hheld u v hu
    omega
  · omega

theorem Bounded.step (h : Bounded total c) (hstep : c.Step t c') : Bounded total c' := by
  obtain ⟨hvalue, hheld⟩ := h
  cases hstep with
  | other _ hvalue' hdue hhold =>
      rw [Bounded, hvalue', hdue, hhold]
      exact ⟨hvalue, hheld⟩
  | read _ hvalue' hdue hhold =>
      rw [Bounded, hvalue', hdue]
      refine ⟨hvalue, fun u v hu => ?_⟩
      rcases hold_cases hhold hu with ⟨-, hnew⟩ | ⟨-, hold⟩
      · rwa [← Option.some.inj hnew]
      · exact hheld u v hold
  | write v hv hvalue' hdue hhold =>
      have hle := hheld t v hv
      refine ⟨by omega, fun u v' hu => ?_⟩
      rcases hold_cases hhold hu with ⟨-, hnew⟩ | ⟨-, hold⟩
      · cases hnew
      · have hle' := hheld u v' hold
        omega

theorem Exact.step (h : Exact total c) (hstep : c.Step t c') (halone : Alone t c) :
    Exact total c' := by
  obtain ⟨htotal, hheld⟩ := h
  cases hstep with
  | other _ hvalue hdue hhold =>
      rw [Exact, hvalue, hdue, hhold]
      exact ⟨htotal, hheld⟩
  | read _ hvalue hdue hhold =>
      rw [Exact, hvalue, hdue]
      refine ⟨htotal, fun u v hu => ?_⟩
      rcases hold_cases hhold hu with ⟨-, hnew⟩ | ⟨-, hold⟩
      · exact (Option.some.inj hnew).symm
      · exact hheld u v hold
  | write v hv hvalue hdue hhold =>
      have hcurrent := hheld t v hv
      refine ⟨by omega, fun u v' hu => ?_⟩
      rcases hold_cases hhold hu with ⟨-, hnew⟩ | ⟨hut, hold⟩
      · cases hnew
      · rw [halone v hv u hut] at hold
        cases hold

/-- A write that is not alone leaves a thread with an old value. -/
theorem Exact.lost (h : Exact total c) (hstep : c.Step t c') (halone : ¬ Alone t c) :
    Lost total c' := by
  obtain ⟨htotal, hheld⟩ := h
  simp only [Alone, not_forall] at halone
  obtain ⟨v, hv, u, hut, hu⟩ := halone
  obtain ⟨v', hv'⟩ := Option.ne_none_iff_exists'.mp hu
  have hcurrent := hheld u v' hv'
  cases hstep with
  | other hfree =>
      rw [hfree] at hv
      cases hv
  | read hfree =>
      rw [hfree] at hv
      cases hv
  | write _ _ _ hdue hhold =>
      refine .inl ⟨u, v', ?_, by omega⟩
      rw [hhold, Function.update_of_ne hut, hv']

/-- The old value is written back in the end, and from then on the counter is
behind. -/
theorem Lost.step (h : Lost total c) (hbounded : Bounded total c) (hstep : c.Step t c') :
    Lost total c' := by
  obtain ⟨hvalue, hheld⟩ := hbounded
  cases hstep with
  | other _ hvalue' hdue hhold =>
      rw [Lost, hvalue', hdue, hhold]
      exact h
  | read hfree hvalue' hdue hhold =>
      rw [Lost, hvalue', hdue]
      rcases h with ⟨u, v, hu, hlt⟩ | ⟨hlt, hold⟩
      · have hut : u ≠ t := by
          rintro rfl
          rw [hfree] at hu
          cases hu
        exact .inl ⟨u, v, by rw [hhold, Function.update_of_ne hut, hu], hlt⟩
      · refine .inr ⟨hlt, fun u v hu => ?_⟩
        rcases hold_cases hhold hu with ⟨-, hnew⟩ | ⟨-, hu⟩
        · rwa [← Option.some.inj hnew]
        · exact hold u v hu
  | write v hv hvalue' hdue hhold =>
      have hrest : ∀ u v', c'.hold u = some v' → v' + c'.due < total := by
        intro u v' hu
        rcases hold_cases hhold hu with ⟨-, hnew⟩ | ⟨-, hu⟩
        · cases hnew
        · have hle := hheld u v' hu
          omega
      rcases h with ⟨u, v', hu, hlt⟩ | ⟨-, hold⟩
      · by_cases hut : u = t
        · -- the old value itself is written
          subst hut
          rw [hv, Option.some.injEq] at hu
          exact .inr ⟨by omega, hrest⟩
        · exact .inl ⟨u, v', by rw [hhold, Function.update_of_ne hut, hu], by omega⟩
      · have hlt := hold t v hv
        exact .inr ⟨by omega, hrest⟩

end Cell

/-! ### The threads -/

/-- The counters, what each thread still has to do (`none` is a step that touches
no counter), and what it has read and not yet written back. -/
structure Shared (T ι α : Type*) where
  mem : ι → α
  todo : T → List (Option ι)
  held : T → Option (ι × α)

namespace Shared

variable [DecidableEq ι]

/-- The next step of thread `t`. A write stores `next` of the value read. -/
def step (next : α → α) (s : Shared T ι α) (t : T) : Shared T ι α :=
  match s.held t with
  | some (i, v) =>
      { s with mem := Function.update s.mem i (next v), held := Function.update s.held t none }
  | none =>
      match s.todo t with
      | [] => s
      | none :: rest => { s with todo := Function.update s.todo t rest }
      | some i :: rest =>
          { s with
            todo := Function.update s.todo t rest
            held := Function.update s.held t (some (i, s.mem i)) }

/-- Thread `t` is between its read and its write of counter `i`. -/
def Holds (s : Shared T ι α) (t : T) (i : ι) : Prop := ∃ v, s.held t = some (i, v)

/-- If the next step of `t` is a write, no other thread is about to overwrite
it. -/
def WritesAlone (s : Shared T ι α) (t : T) : Prop :=
  ∀ i, s.Holds t i → ∀ t', s.Holds t' i → t' = t

/-- All threads are done. -/
def Finished (s : Shared T ι α) : Prop := ∀ t, s.todo t = [] ∧ s.held t = none

/-! ### The four kinds of step -/

section steps

variable (next : α → α) {s : Shared T ι α} {t : T}

theorem step_write {i : ι} {v : α} (h : s.held t = some (i, v)) :
    s.step next t =
      { s with
        mem := Function.update s.mem i (next v)
        held := Function.update s.held t none } := by
  simp only [step, h]

theorem step_done (hheld : s.held t = none) (htodo : s.todo t = []) : s.step next t = s := by
  simp only [step, hheld, htodo]

theorem step_skip {rest : List (Option ι)} (hheld : s.held t = none)
    (htodo : s.todo t = none :: rest) :
    s.step next t = { s with todo := Function.update s.todo t rest } := by
  simp only [step, hheld, htodo]

theorem step_read {i : ι} {rest : List (Option ι)} (hheld : s.held t = none)
    (htodo : s.todo t = some i :: rest) :
    s.step next t =
      { s with
        todo := Function.update s.todo t rest
        held := Function.update s.held t (some (i, s.mem i)) } := by
  simp only [step, hheld, htodo]

end steps

/-! ### Values under another name -/

/-- The same threads, with the values of counter `i` read through `f i`. -/
def map (f : ι → α → β) (s : Shared T ι α) : Shared T ι β where
  mem i := f i (s.mem i)
  todo := s.todo
  held t := (s.held t).map fun p => (p.1, f p.1 p.2)

omit [DecidableEq T] [DecidableEq ι] in
theorem holds_map (f : ι → α → β) (s : Shared T ι α) (t : T) (i : ι) :
    (s.map f).Holds t i ↔ s.Holds t i := by
  simp only [Holds, map, Option.map_eq_some_iff, Prod.mk.injEq]
  constructor
  · rintro ⟨_, ⟨j, v⟩, hheld, rfl, -⟩
    exact ⟨v, hheld⟩
  · rintro ⟨v, hheld⟩
    exact ⟨f i v, (i, v), hheld, rfl, rfl⟩

theorem map_step {f : ι → α → β} {next : α → α} {next' : β → β}
    (hnext : ∀ i v, f i (next v) = next' (f i v)) (s : Shared T ι α) (t : T) :
    (s.step next t).map f = (s.map f).step next' t := by
  have hupdate : ∀ (held : T → Option (ι × α)) (new : Option (ι × α)),
      (fun u => (Function.update held t new u).map fun p => (p.1, f p.1 p.2)) =
        Function.update (fun u => (held u).map fun p => (p.1, f p.1 p.2)) t
          (new.map fun p => (p.1, f p.1 p.2)) :=
    fun held new => Function.comp_update (Option.map fun p : ι × α => (p.1, f p.1 p.2)) held t new
  cases hheld : s.held t with
  | some p =>
      obtain ⟨i, v⟩ := p
      have hheld' : (s.map f).held t = some (i, f i v) := by simp [map, hheld]
      have hmem : (fun j => f j (Function.update s.mem i (next v) j)) =
          Function.update (fun j => f j (s.mem j)) i (next' (f i v)) := by
        funext j
        by_cases hj : j = i
        · subst hj
          simp [hnext]
        · simp [hj]
      rw [step_write _ hheld, step_write _ hheld']
      simp only [map, hmem, hupdate]
      rfl
  | none =>
      have hheld' : (s.map f).held t = none := by simp [map, hheld]
      rcases htodo : s.todo t with _ | ⟨_ | i, rest⟩
      · rw [step_done _ hheld htodo, step_done _ hheld' htodo]
      · rw [step_skip _ hheld htodo, step_skip _ hheld' htodo]
        rfl
      · rw [step_read _ hheld htodo, step_read _ hheld' htodo]
        simp only [map, hupdate]
        rfl

/-- Nothing depends on the values but the values. -/
theorem simulation_map {f : ι → α → β} {next : α → α} {next' : β → β}
    (hnext : ∀ i v, f i (next v) = next' (f i v)) :
    Simulation (step (T := T) next) (step next') (fun _ => True) (map f) :=
  ⟨fun _ _ _ => trivial, fun s t _ => map_step hnext s t⟩

omit [DecidableEq T] [DecidableEq ι] in
theorem writesAlone_map (f : ι → α → β) (s : Shared T ι α) (t : T) :
    (s.map f).WritesAlone t ↔ s.WritesAlone t := by
  simp only [WritesAlone, holds_map]

/-! ### Every counter by itself -/

variable [Fintype T]

/-- What thread `t` still has to do, with the write that it is in the middle of. -/
def unwritten (s : Shared T ι α) (t : T) : List (Option ι) :=
  match s.held t with
  | none => s.todo t
  | some (i, _) => some i :: s.todo t

/-- The increments of counter `i` that thread `t` has not written yet. -/
def due (s : Shared T ι α) (t : T) (i : ι) : ℕ := (s.unwritten t).count (some i)

/-- The value of counter `i` among what a thread holds. -/
def valueOf (i : ι) (held : Option (ι × ℕ)) : Option ℕ :=
  held.bind fun p => if p.1 = i then some p.2 else none

omit [DecidableEq T] in
@[simp] theorem valueOf_none (i : ι) : valueOf i none = none := rfl

omit [DecidableEq T] in
@[simp] theorem valueOf_self (i : ι) (v : ℕ) : valueOf i (some (i, v)) = some v := by
  simp [valueOf]

theorem valueOf_of_ne {i j : ι} (h : j ≠ i) (v : ℕ) : valueOf i (some (j, v)) = none := by
  simp [valueOf, h]

omit [Fintype T] in
theorem hold_update (i : ι) (held : T → Option (ι × ℕ)) (t : T) (new : Option (ι × ℕ)) :
    (fun u => valueOf i (Function.update held t new u)) =
      Function.update (fun u => valueOf i (held u)) t (valueOf i new) :=
  Function.comp_update (valueOf i) held t new

def cell (s : Shared T ι ℕ) (i : ι) : Cell T where
  value := s.mem i
  due := ∑ t, s.due t i
  hold t := valueOf i (s.held t)

/-- A step changes only what its own thread still has to write. -/
theorem sum_due_step (next : α → α) (s : Shared T ι α) (t : T) (i : ι) :
    ∑ u, (s.step next t).due u i + s.due t i = ∑ u, s.due u i + (s.step next t).due t i := by
  have hrest : ∑ u ∈ Finset.univ.erase t, (s.step next t).due u i =
      ∑ u ∈ Finset.univ.erase t, s.due u i := by
    apply Finset.sum_congr rfl
    intro u hu
    have hne : u ≠ t := Finset.ne_of_mem_erase hu
    unfold step
    split
    · simp only [due, unwritten, Function.update_of_ne hne]
    · split <;> simp only [due, unwritten, Function.update_of_ne hne]
  rw [← Finset.add_sum_erase _ _ (Finset.mem_univ t), hrest,
    ← Finset.add_sum_erase _ (fun u => s.due u i) (Finset.mem_univ t)]
  omega

/-- **One step, one counter.** -/
theorem cell_step (s : Shared T ι ℕ) (t : T) (i : ι) :
    (s.cell i).Step t ((s.step Nat.succ t).cell i) := by
  have hsum : ((s.step Nat.succ t).cell i).due + s.due t i =
      (s.cell i).due + (s.step Nat.succ t).due t i := s.sum_due_step Nat.succ t i
  cases hheld : s.held t with
  | some p =>
      obtain ⟨j, v⟩ := p
      have hstep := step_write Nat.succ hheld
      have hdue : s.due t i = (s.step Nat.succ t).due t i + if j = i then 1 else 0 := by
        rw [hstep]
        simp [due, unwritten, hheld, List.count_cons]
      have hhold : ((s.step Nat.succ t).cell i).hold = Function.update (s.cell i).hold t none := by
        rw [hstep]
        exact hold_update i s.held t none
      by_cases hj : j = i
      · subst hj
        rw [if_pos rfl] at hdue
        refine .write v ?_ ?_ (by omega) hhold
        · simp [cell, hheld]
        · simp [cell, hstep]
      · rw [if_neg hj] at hdue
        have hfree : (s.cell i).hold t = none := by simp [cell, hheld, valueOf_of_ne hj]
        refine .other hfree ?_ (by omega) ?_
        · simp [cell, hstep, Ne.symm hj]
        · rw [hhold, Function.update_eq_self_iff, hfree]
  | none =>
      have hfree : (s.cell i).hold t = none := by simp [cell, hheld]
      rcases htodo : s.todo t with _ | ⟨_ | j, rest⟩
      · rw [step_done _ hheld htodo]
        exact .other hfree rfl rfl rfl
      · have hstep := step_skip Nat.succ hheld htodo
        have hdue : s.due t i = (s.step Nat.succ t).due t i := by
          rw [hstep]
          simp [due, unwritten, hheld, htodo]
        refine .other hfree ?_ (by omega) ?_
        · rw [hstep]
          rfl
        · rw [hstep]
          rfl
      · have hstep := step_read Nat.succ hheld htodo
        have hdue : s.due t i = (s.step Nat.succ t).due t i := by
          rw [hstep]
          simp [due, unwritten, hheld, htodo]
        have hvalue : ((s.step Nat.succ t).cell i).value = (s.cell i).value := by
          rw [hstep]
          rfl
        have hhold : ((s.step Nat.succ t).cell i).hold =
            Function.update (s.cell i).hold t (valueOf i (some (j, s.mem j))) := by
          rw [hstep]
          exact hold_update i s.held t _
        by_cases hj : j = i
        · subst hj
          rw [valueOf_self] at hhold
          exact .read hfree hvalue (by omega) hhold
        · rw [valueOf_of_ne hj] at hhold
          refine .other hfree hvalue (by omega) ?_
          rw [hhold, Function.update_eq_self_iff, hfree]

omit [DecidableEq T] in
theorem hold_cell_eq_some_iff {s : Shared T ι ℕ} {i : ι} {t : T} {v : ℕ} :
    (s.cell i).hold t = some v ↔ s.held t = some (i, v) := by
  rcases hheld : s.held t with _ | ⟨j, w⟩
  · simp [cell, hheld]
  · by_cases hj : j = i
    · subst hj
      simp [cell, hheld]
    · simp [cell, hheld, valueOf_of_ne hj, hj]

omit [DecidableEq T] in
theorem writesAlone_iff {s : Shared T ι ℕ} {t : T} :
    s.WritesAlone t ↔ ∀ i, (s.cell i).Alone t := by
  constructor
  · intro h i v hv u hut
    by_contra hu
    obtain ⟨v', hv'⟩ := Option.ne_none_iff_exists'.mp hu
    exact hut (h i ⟨v, hold_cell_eq_some_iff.mp hv⟩ u ⟨v', hold_cell_eq_some_iff.mp hv'⟩)
  · rintro h i ⟨v, hv⟩ u ⟨v', hv'⟩
    by_contra hut
    have hfree := h i v (hold_cell_eq_some_iff.mpr hv) u hut
    rw [hold_cell_eq_some_iff.mpr hv'] at hfree
    cases hfree

/-- The increments of counter `i` that all threads together make. -/
def total (s : Shared T ι α) (i : ι) : ℕ := ∑ t, (s.todo t).count (some i)

/-- No thread is between a read and a write. -/
def Idle (s : Shared T ι α) : Prop := ∀ t, s.held t = none

omit [DecidableEq T] in
/-- Threads that have not begun owe every increment. -/
theorem exact_start {s : Shared T ι ℕ} (hzero : ∀ i, s.mem i = 0) (hidle : s.Idle) (i : ι) :
    (s.cell i).Exact (s.total i) ∧ (s.cell i).Bounded (s.total i) := by
  have hdue : (s.cell i).due = s.total i := by
    simp only [cell, due, total, unwritten, hidle _]
  have hnone : ∀ u v, (s.cell i).hold u ≠ some v := by
    intro u v
    rw [ne_eq, hold_cell_eq_some_iff, hidle u]
    simp
  have hvalue : (s.cell i).value = 0 := hzero i
  exact ⟨⟨by omega, fun u v hu => absurd hu (hnone u v)⟩,
    ⟨by omega, fun u v hu => absurd hu (hnone u v)⟩⟩

omit [DecidableEq T] in
/-- Threads that are done owe nothing. -/
theorem Finished.cell {s : Shared T ι ℕ} (h : s.Finished) (i : ι) :
    (s.cell i).due = 0 ∧ ∀ u v, (s.cell i).hold u ≠ some v := by
  refine ⟨?_, fun u v => ?_⟩
  · apply Finset.sum_eq_zero
    intro u _
    obtain ⟨htodo, hheld⟩ := h u
    simp only [due, unwritten, hheld, htodo, List.count_nil]
  · rw [ne_eq, hold_cell_eq_some_iff, (h u).2]
    simp

omit [DecidableEq T] in
/-- When all threads are done, a loss shows in the counter. -/
theorem Finished.lost_iff {s : Shared T ι ℕ} (h : s.Finished) {i : ι} {total : ℕ}
    (hbounded : (s.cell i).Bounded total) :
    s.mem i ≤ total ∧ ((s.cell i).Lost total ↔ s.mem i ≠ total) := by
  obtain ⟨hdue, hnone⟩ := h.cell i
  have hle : s.mem i + (s.cell i).due ≤ total := hbounded.1
  refine ⟨by omega, ?_⟩
  constructor
  · rintro (⟨u, v, hu, -⟩ | ⟨hlt, -⟩)
    · exact absurd hu (hnone u v)
    · have hlt' : s.mem i + (s.cell i).due < total := hlt
      omega
  · intro hne
    refine .inr ⟨?_, fun u v hu => absurd hu (hnone u v)⟩
    show s.mem i + (s.cell i).due < total
    omega

/-- **Lost updates.** When all threads are done, no counter has grown by more than
what they were to do, and all have grown by as much exactly when every write was
made alone. -/
theorem counts_iff {s : Shared T ι ℕ} (hzero : ∀ i, s.mem i = 0) (hidle : s.Idle)
    {schedule : List T} (hfinished : (run (step Nat.succ) s schedule).Finished) :
    (∀ i, (run (step Nat.succ) s schedule).mem i ≤ s.total i) ∧
      ((∀ i, (run (step Nat.succ) s schedule).mem i = s.total i) ↔
        StepsMeet (step Nat.succ) WritesAlone s schedule) := by
  have hbounded : ∀ es, ∀ i, ((run (step Nat.succ) s es).cell i).Bounded (s.total i) :=
    run_invariant (I := fun s' : Shared T ι ℕ => ∀ i, (s'.cell i).Bounded (s.total i))
      (fun s' t h i => (h i).step (s'.cell_step t i)) fun i => (exact_start hzero hidle i).2
  have hfinal := fun i => hfinished.lost_iff (hbounded schedule i)
  refine ⟨fun i => (hfinal i).1, ?_⟩
  -- a write that is not alone is a loss at once
  have hthroughout : Throughout (step Nat.succ) (fun s' => ∀ i, ¬ (s'.cell i).Lost (s.total i)) s
      schedule ↔ StepsMeet (step Nat.succ) WritesAlone s schedule := by
    refine throughout_iff_stepsMeet (I := fun s' => ∀ i, (s'.cell i).Exact (s.total i))
      (A := fun _ _ => True) (fun s' h i => (h i).not_lost)
      (fun s' t h _ halone i => (h i).step (s'.cell_step t i) (writesAlone_iff.mp halone i))
      (fun s' t h _ halone hkept => ?_) (fun i => (exact_start hzero hidle i).1)
      (stepsMeet_of_forall (fun _ _ => trivial) ..)
    simp only [writesAlone_iff, not_forall] at halone
    obtain ⟨i, halone⟩ := halone
    exact hkept i ((h i).lost (s'.cell_step t i) halone)
  rw [← hthroughout]
  constructor
  · intro hcounts
    rw [throughout_iff_forall_initial]
    rintro before ⟨after, rfl⟩ i hlost
    -- and a loss stays
    have hlater : ((run (step Nat.succ) (run (step Nat.succ) s before) after).cell i).Bounded
          (s.total i) ∧
        ((run (step Nat.succ) (run (step Nat.succ) s before) after).cell i).Lost (s.total i) :=
      run_invariant
        (I := fun s' : Shared T ι ℕ =>
          (s'.cell i).Bounded (s.total i) ∧ (s'.cell i).Lost (s.total i))
        (fun s' t h => ⟨h.1.step (s'.cell_step t i), h.2.step h.1 (s'.cell_step t i)⟩)
        ⟨hbounded before i, hlost⟩ after
    rw [← run_append] at hlater
    exact (hfinal i).2.mp hlater.2 (hcounts i)
  · intro h i
    by_contra hne
    exact h.last i ((hfinal i).2.mpr hne)

/-- **Lost updates, for counters of any kind.** Counter `i` is read through `f i`:
it holds what `f i` makes of the number of increments that count. -/
theorem counts_image {f : ι → ℕ → α} (next : α → α)
    (hnext : ∀ i n, f i (n + 1) = next (f i n))
    {s : Shared T ι α} (hzero : ∀ i, s.mem i = f i 0) (hidle : s.Idle) {schedule : List T}
    (hfinished : (run (step next) s schedule).Finished) :
    ∃ n : ι → ℕ, (∀ i, (run (step next) s schedule).mem i = f i (n i)) ∧
      (∀ i, n i ≤ s.total i) ∧
      ((∀ i, n i = s.total i) ↔ StepsMeet (step next) WritesAlone s schedule) := by
  let count : Shared T ι ℕ := ⟨fun _ => 0, s.todo, fun _ => none⟩
  have hcount : count.map f = s := by
    have hmem : (fun i => f i 0) = s.mem := funext fun i => (hzero i).symm
    have hheld : (fun _ => none) = s.held := funext fun t => (hidle t).symm
    show (⟨fun i => f i 0, s.todo, fun _ => none⟩ : Shared T ι α) = s
    rw [hmem, hheld]
  have hsim : Simulation (step (T := T) Nat.succ) (step next) (fun _ => True) (map f) :=
    simulation_map hnext
  have hrun : (run (step Nat.succ) count schedule).map f = run (step next) s schedule := by
    rw [hsim.run_eq trivial schedule, hcount]
  have halone : StepsMeet (step Nat.succ) WritesAlone count schedule ↔
      StepsMeet (step next) WritesAlone s schedule := by
    rw [hsim.stepsMeet_iff (fun s t _ => (writesAlone_map f s t).symm) trivial schedule, hcount]
  have hdone : (run (step Nat.succ) count schedule).Finished := by
    intro t
    have ht := hfinished t
    rw [← hrun] at ht
    exact ⟨ht.1, Option.map_eq_none_iff.mp ht.2⟩
  obtain ⟨hle, hexact⟩ := counts_iff (s := count) (fun _ => rfl) (fun _ => rfl) hdone
  refine ⟨(run (step Nat.succ) count schedule).mem, fun i => ?_, hle, hexact.trans halone⟩
  rw [← hrun]
  rfl

end Shared

end KernelModules.Lib
