import KernelModules.KernelList.Store
import KernelModules.Lib.Run
import Mathlib.Logic.Function.Basic

/-!
Concurrent writers of `/proc/kernel_list_demo`.

No lock is taken. A thread inside `add_record` may sleep in its allocation, with
the capacity tested and the oldest record evicted but its own record not yet
linked; a deletion and a clear run through. `kernel_list_init` is one more
thread: the file exists before its two additions.
-/

namespace KernelModules.KernelList

open Lib

variable {K : Kernel}

/-- The module and, of each thread that is between the two halves of
`add_record`, the name it adds. -/
structure Writers (K : Kernel) where
  demo : ListDemo K
  adding : ℕ → Option (List UInt8)

inductive Step (K : Kernel)
  /-- `add_record` is called, as `kernel_list_init` does. -/
  | addRecord (thread : ℕ) (name : List UInt8)
  /-- `kernel_list_write` is called. -/
  | write (thread : ℕ) (w : UserWrite)
  /-- `add_record` goes on after its allocation. -/
  | insert (thread : ℕ) (jiffies : ULong K) (alloc : Bool)

namespace Writers

/-- Before `kernel_list_init`. -/
def start (K : Kernel) : Writers K := ⟨.empty K, fun _ => none⟩

/-- What a thread does at once for a command. -/
def enter (thread : ℕ) (s : Writers K) : Command → Writers K
  | .add name =>
      { demo := evictOldest s.demo
        adding := Function.update s.adding thread (some name) }
  | .del id => { s with demo := removeRecordById id s.demo }
  | .clear => { s with demo := clearAllRecords s.demo }

/-- A thread in the middle of `add_record` makes no other call. -/
def step (s : Writers K) : Step K → Writers K
  | .addRecord thread name =>
      match s.adding thread with
      | none => s.enter thread (.add name)
      | some _ => s
  | .write thread w =>
      match s.adding thread, writtenCommand w with
      | none, some c => s.enter thread c
      | _, _ => s
  | .insert thread jiffies alloc =>
      match s.adding thread with
      | none => s
      | some name =>
          { demo := insertRecord name jiffies alloc s.demo
            adding := Function.update s.adding thread none }

/-- The capacity test would still pass at the insertion. -/
def InsertsInRoom (s : Writers K) : Step K → Prop
  | .insert thread _ alloc =>
      (s.adding thread).isSome = true → alloc = true → s.demo.recordCount < MAX_RECORDS
  | _ => True

/-- No thread begins an addition while another is in one. -/
def AddsAlone (s : Writers K) : Step K → Prop
  | .addRecord .. => ∀ thread, s.adding thread = none
  | .write _ w => (∃ name, writtenCommand w = some (.add name)) → ∀ thread, s.adding thread = none
  | .insert .. => True

/-! ### One step -/

/-- What a step does: nothing, the first half of an addition, a deletion or a
clear, or the second half of an addition. -/
theorem step_cases (s : Writers K) (e : Step K) :
    s.step e = s ∨
      (∃ thread name, (e = .addRecord thread name ∨
          ∃ w, e = .write thread w ∧ writtenCommand w = some (.add name)) ∧
        s.step e =
          { demo := evictOldest s.demo
            adding := Function.update s.adding thread (some name) }) ∨
      (∃ id, s.step e = { s with demo := removeRecordById id s.demo }) ∨
      s.step e = { s with demo := clearAllRecords s.demo } ∨
      ∃ thread jiffies alloc name, e = .insert thread jiffies alloc ∧
        s.adding thread = some name ∧
        s.step e =
          { demo := insertRecord name jiffies alloc s.demo
            adding := Function.update s.adding thread none } := by
  cases e with
  | addRecord thread name =>
      cases hadding : s.adding thread with
      | none =>
          exact .inr (.inl ⟨thread, name, .inl rfl, by simp only [step, hadding]; rfl⟩)
      | some _ => exact .inl (by simp only [step, hadding])
  | write thread w =>
      cases hadding : s.adding thread with
      | some _ => exact .inl (by simp only [step, hadding])
      | none =>
          cases hcmd : writtenCommand w with
          | none => exact .inl (by simp only [step, hadding, hcmd])
          | some c =>
              have hstep : s.step (.write thread w) = s.enter thread c := by
                simp only [step, hadding, hcmd]
              rw [hstep]
              cases c with
              | add name => exact .inr (.inl ⟨thread, name, .inr ⟨w, rfl, hcmd⟩, rfl⟩)
              | del id => exact .inr (.inr (.inl ⟨id, rfl⟩))
              | clear => exact .inr (.inr (.inr (.inl rfl)))
  | insert thread jiffies alloc =>
      cases hadding : s.adding thread with
      | none => exact .inl (by simp only [step, hadding])
      | some name =>
          exact .inr (.inr (.inr (.inr
            ⟨thread, jiffies, alloc, name, rfl, hadding, by simp only [step, hadding]⟩)))

/-- An insertion with room keeps the count, like every other step. -/
theorem sized_step {s : Writers K} (h : s.demo.Sized) {e : Step K} (hroom : InsertsInRoom s e) :
    (s.step e).demo.Sized := by
  rcases s.step_cases e with hs | ⟨thread, name, -, hs⟩ | ⟨id, hs⟩ | hs |
    ⟨thread, jiffies, alloc, name, rfl, hadding, hs⟩ <;> rw [hs]
  · exact h
  · exact h.evictOldest.1
  · exact (h.removeRecordById id).1
  · exact .clearAllRecords s.demo
  · cases alloc with
    | false => exact h
    | true => exact h.linkRecord (hroom (by rw [hadding]; rfl) rfl) name jiffies

/-- An insertion without room leaves one record too many. -/
theorem not_sized_step {s : Writers K} {e : Step K}
    (hfull : ¬ InsertsInRoom s e) : ¬ (s.step e).demo.Sized := by
  cases e with
  | addRecord thread name => exact absurd trivial hfull
  | write thread w => exact absurd trivial hfull
  | insert thread jiffies alloc =>
      simp only [InsertsInRoom, Classical.not_imp, not_lt] at hfull
      obtain ⟨hadding, rfl, hmax⟩ := hfull
      obtain ⟨name, hname⟩ := Option.isSome_iff_exists.mp hadding
      intro hsized
      have hbound : (s.step (.insert thread jiffies true)).demo.recordCount =
          s.demo.recordCount + 1 := by
        simp only [step, hname]
        rfl
      have hle := hsized.2
      omega

/-- **Capacity under concurrent writers.** The count is the length and within
the capacity throughout a schedule exactly when every insertion is made while
there is room, as it was when the capacity was tested. -/
theorem sized_throughout_iff {es : List (Step K)} :
    Throughout step (fun s => s.demo.Sized) (start K) es ↔
      StepsMeet step InsertsInRoom (start K) es :=
  throughout_iff_stepsMeet (I := fun s : Writers K => s.demo.Sized) (A := fun _ _ => True)
    (fun _ h => h) (fun _ _ h _ hroom => sized_step h hroom)
    (fun _ _ _ _ hfull => not_sized_step hfull) (sized_empty K)
    (stepsMeet_of_forall (fun _ _ => trivial) ..)

/-! ### Additions that do not overlap -/

/-- At most one thread is in an addition, and it has room. -/
structure OneAdding (s : Writers K) : Prop where
  sized : s.demo.Sized
  unique : ∀ t t', s.adding t ≠ none → s.adding t' ≠ none → t = t'
  room : ∀ t, s.adding t ≠ none → s.demo.recordCount < MAX_RECORDS

theorem oneAdding_start (K : Kernel) : OneAdding (start K) :=
  ⟨sized_empty K, fun _ _ ht _ => absurd rfl ht, fun _ ht => absurd rfl ht⟩

theorem OneAdding.insertsInRoom {s : Writers K} (h : OneAdding s) (e : Step K) :
    InsertsInRoom s e := by
  cases e with
  | addRecord thread name => trivial
  | write thread w => trivial
  | insert thread jiffies alloc =>
      intro hadding _
      exact h.room thread (Option.isSome_iff_ne_none.mp hadding)

theorem OneAdding.step {s : Writers K} (h : OneAdding s) {e : Step K} (halone : AddsAlone s e) :
    OneAdding (s.step e) := by
  have hsized := sized_step h.sized (h.insertsInRoom e)
  rcases s.step_cases e with hs | ⟨thread, name, he, hs⟩ | ⟨id, hs⟩ | hs |
    ⟨thread, jiffies, alloc, name, -, hadding, hs⟩ <;> rw [hs] at hsized ⊢
  · exact h
  · have hnone : ∀ t, s.adding t = none := by
      rcases he with rfl | ⟨w, rfl, hw⟩
      · exact halone
      · exact halone ⟨name, hw⟩
    have hown : ∀ t, Function.update s.adding thread (some name) t ≠ none → t = thread := by
      intro t ht
      by_contra hne
      rw [Function.update_of_ne hne, hnone t] at ht
      exact ht rfl
    exact ⟨hsized, fun t t' ht ht' => (hown t ht).trans (hown t' ht').symm,
      fun _ _ => h.sized.evictOldest.2⟩
  · exact ⟨hsized, h.unique,
      fun t ht => lt_of_le_of_lt (h.sized.removeRecordById id).2 (h.room t ht)⟩
  · exact ⟨hsized, h.unique, fun _ _ => by simp [clearAllRecords]⟩
  · -- the only addition is over
    have hnone : ∀ t, Function.update s.adding thread none t = none := by
      intro t
      by_cases hne : t = thread
      · rw [hne, Function.update_self]
      · rw [Function.update_of_ne hne]
        by_contra hsome
        exact hne (h.unique t thread hsome (by rw [hadding]; exact Option.some_ne_none _))
    exact ⟨hsized, fun t _ ht _ => absurd (hnone t) ht, fun t ht => absurd (hnone t) ht⟩

/-- A writer that is alone in its addition still has the room it made. -/
theorem sized_of_addsAlone {es : List (Step K)} (h : StepsMeet step AddsAlone (start K) es) :
    Throughout step (fun s => s.demo.Sized) (start K) es :=
  (h.throughout (I := OneAdding) (fun _ _ hs halone => hs.step halone)
    (oneAdding_start K)).imp fun _ hs => hs.sized

/-! ### A schedule over capacity -/

/-- A writer that adds one record after the other. -/
def additions (n : ℕ) : List (Step K) :=
  (List.replicate n [.write 0 ⟨ascii "add a\n".toList, false⟩, .insert 0 0 true]).flatten

/-- Two writers that test the capacity with one place left. -/
theorem not_sized_of_overlap :
    ¬ Throughout step (fun s => s.demo.Sized) (start .x86_64)
      (additions 19 ++ [.write 1 ⟨ascii "add a\n".toList, false⟩,
        .write 2 ⟨ascii "add a\n".toList, false⟩, .insert 1 0 true, .insert 2 0 true]) := by
  intro h
  have hbound := h.last.2
  revert hbound
  decide +kernel

end Writers

end KernelModules.KernelList
