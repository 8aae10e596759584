import KernelModules.CompleteMonitor.Effects

/-!
The order of the list and the order of the tree.

The list is in the order in which calls took the lock; the tree is in the order
of `start_time`, which an add samples before it asks for the lock. They are one
order, and eviction takes a record of minimal start time, as long as no add
takes the lock after a record with a later start time was linked.
-/

namespace KernelModules.CompleteMonitor

open Lib

variable {K : Kernel}

/-- The list is sorted by start time, it is the in-order sequence of the tree,
and what the next eviction takes has the least start time of all. -/
structure TimeOrdered (s : Monitor K) : Prop where
  sorted : s.processList.Pairwise fun a b => (s.mem a).startTime ≤ (s.mem b).startTime
  tree_eq : s.processTree.toList = s.processList
  evicts_oldest : s.recordCount ≥ MAX_PROCESS_RECORDS → ∀ oldest ∈ s.processList.head?,
    ∀ record ∈ s.processList, (s.mem oldest).startTime ≤ (s.mem record).startTime

def SortedByStart (s : Monitor K) : Prop :=
  s.processList.Pairwise fun a b => (s.mem a).startTime ≤ (s.mem b).startTime

theorem Linked.timeOrdered {s : Monitor K} (h : Linked s) (hsorted : SortedByStart s) :
    TimeOrdered s := by
  refine ⟨hsorted, h.tree.eq_of_sorted (hsorted.imp fun hle => BitVec.le_def.mp hle), ?_⟩
  intro _ oldest holdest record hrecord
  rw [SortedByStart] at hsorted
  cases hlist : s.processList with
  | nil => simp [hlist] at hrecord
  | cons head rest =>
      rw [hlist] at hsorted holdest hrecord
      obtain rfl : head = oldest := by simpa using holdest
      rcases List.mem_cons.mp hrecord with rfl | hrecord
      · exact BitVec.le_refl _
      · exact (List.pairwise_cons.mp hsorted).1 record hrecord

/-- Being sorted depends on the list and on the start times of its records. -/
theorem SortedByStart.congr {s s' : Monitor K} (h : SortedByStart s)
    (hlist : s'.processList = s.processList)
    (hmem : ∀ record ∈ s.processList, (s'.mem record).startTime = (s.mem record).startTime) :
    SortedByStart s' := by
  rw [SortedByStart, hlist]
  exact h.imp_of_mem fun ha hb hle => by rwa [hmem _ ha, hmem _ hb]

/-! ### One critical section -/

/-- The start times in the list do not exceed that of the record. -/
def Latest (s : Monitor K) (record : Addr) : Prop :=
  ∀ other ∈ s.processList, (s.mem other).startTime ≤ (s.mem record).startTime

/-- Linking a record keeps a sorted list sorted exactly when no record of the
list has a later start time. At capacity this includes the record that goes: it
is the least, and it is not the only one. -/
theorem Indexed.sortedByStart_addProcessRecordLocked_iff {s : Monitor K} (h : Indexed s)
    (hsorted : SortedByStart s) (pid : PidT) (record : Addr) :
    SortedByStart (CompleteMonitor.addProcessRecordLocked pid record s) ↔ Latest s record := by
  rw [SortedByStart, h.addProcessRecordLocked_processList, addProcessRecordLocked_mem]
  by_cases hfull : MAX_PROCESS_RECORDS ≤ s.processList.length
  · rw [pushBounded_of_le hfull, List.pairwise_append, SortedByStart] at *
    rw [Latest]
    match hlist : s.processList, hfull with
    | [], hfull => simp at hfull
    | [_], hfull => simp [MAX_PROCESS_RECORDS] at hfull
    | oldest :: next :: rest, _ =>
        rw [hlist] at hsorted
        obtain ⟨hoverall, hrest⟩ := List.pairwise_cons.mp hsorted
        -- what bounds the second record bounds the one that goes as well
        have hnext := hoverall next (List.mem_cons_self ..)
        simp only [List.tail_cons, hrest, List.pairwise_singleton, List.mem_singleton,
          forall_eq, true_and]
        constructor
        · intro hlatest other ho
          rcases List.mem_cons.mp ho with rfl | ho
          · exact BitVec.le_trans hnext (hlatest next (List.mem_cons_self ..))
          · exact hlatest other ho
        · exact fun hlatest other ho => hlatest other (List.mem_cons_of_mem _ ho)
  · rw [pushBounded_of_lt (Nat.lt_of_not_le hfull), List.pairwise_append]
    simp only [List.pairwise_singleton, List.mem_singleton, forall_eq, true_and]
    exact and_iff_right hsorted

/-! ### Schedules -/

namespace System

/-- An add takes the lock only while no record in the list has a later start time
than the one it brings. -/
def LocksInOrder (s : System K) : Event K → Prop
  | .lock cpu =>
      match s.calls cpu with
      | some (.add _ _ _ record) => Latest s.mon record
      | _ => True
  | _ => True

/-- The clock does not wrap. -/
def ClockRuns (s : System K) : Event K → Prop
  | .tick d => s.jiffies.toNat + d.toNat < 2 ^ K.bitsPerLong
  | _ => True

instance (s : System K) : ∀ e, Decidable (ClockRuns s e)
  | .tick _ => inferInstanceAs (Decidable (_ < _))
  | .addEnter .. | .exitEnter .. | .lock _ | .tail _ | .control _ | .filter _ => .isTrue trivial

end System

/-- Only a link puts a record into the list, and only records outside of it get other
start times. -/
theorem Stored.sortedByStart_apply {s : Monitor K} (h : Stored s) (hsorted : SortedByStart s)
    {effect : Effect K} (hlink : ∀ pid record, effect ≠ .link pid record) :
    SortedByStart (effect.apply s) := by
  cases effect with
  | nothing => exact hsorted
  | allocate fresh =>
      refine hsorted.congr rfl fun record hr => ?_
      exact congrArg ProcessRecord.startTime (h.mem_update_nextAddr fresh hr)
  | link pid record => exact absurd rfl (hlink pid record)
  | mark pid exitCode jiffies =>
      have hkeys := markProcessExitLocked_keys pid exitCode jiffies s
      rw [Effect.apply, markProcessExitLocked_frame]
      exact hsorted.congr rfl fun record _ => (hkeys record).2
  | command w =>
      rw [Effect.apply, controlWrite_eq]
      cases writtenCommand w with
      | none => exact hsorted
      | some c =>
          cases c with
          | clear =>
              simp only [runControl, h.clearRecords_eq]
              exact List.Pairwise.nil
          | start | stop | resetStats => exact hsorted
  | configure w =>
      rw [Effect.apply, filterWrite_eq]
      exact hsorted

namespace System

theorem locksInOrder_iff {s : System K} {e : Event K} :
    LocksInOrder s e ↔ ∀ pid record, s.effect e = .link pid record → Latest s.mon record := by
  constructor
  · intro hlocks pid record heffect
    obtain ⟨cpu, ppid, comm, rfl, hcall⟩ := effect_eq_link heffect
    simpa only [LocksInOrder, hcall] using hlocks
  · intro hlatest
    cases e with
    | lock cpu =>
        rw [LocksInOrder]
        split
        · rename_i pid ppid comm record hcall
          exact hlatest pid record (by simp only [effect, hcall])
        · trivial
    | tick | addEnter | exitEnter | tail | control | filter => trivial

/-- **One step.** A step keeps the list sorted exactly when it is not an add that
takes the lock too late. -/
theorem sortedByStart_step_iff {s : System K} (h : Consistent s) (hsorted : SortedByStart s.mon)
    (e : Event K) : SortedByStart (s.step e).mon ↔ LocksInOrder s e := by
  rw [mon_step, locksInOrder_iff]
  by_cases hlink : ∃ pid record, s.effect e = .link pid record
  · obtain ⟨pid, record, heffect⟩ := hlink
    simp only [heffect, Effect.link.injEq, and_imp, forall_apply_eq_imp_iff, forall_eq']
    exact h.accounted.sortedByStart_addProcessRecordLocked_iff hsorted pid record
  · simp only [not_exists] at hlink
    exact iff_of_true (h.accounted.sortedByStart_apply hsorted hlink)
      fun pid record heffect => absurd heffect (hlink pid record)

/-- **Time order.** In every schedule the list is sorted by start time and equal
to the sequence of the tree, and eviction takes a least record, in every state,
exactly when no add takes the lock after a record with a later start time was
linked. -/
theorem timeOrdered_throughout_iff (es : List (Event K)) :
    Throughout System.step (fun s => TimeOrdered s.mon) (System.load K) es ↔
      StepsMeet System.step LocksInOrder (System.load K) es := by
  refine throughout_iff_stepsMeet (I := fun s => Consistent s ∧ SortedByStart s.mon)
    (A := fun _ _ => True) (fun s h => h.1.accounted.timeOrdered h.2)
    (fun s e h _ hlocks => ⟨h.1.step e, (sortedByStart_step_iff h.1 h.2 e).mpr hlocks⟩)
    (fun s e h _ hlate hordered => hlate ((sortedByStart_step_iff h.1 h.2 e).mp hordered.sorted))
    ⟨consistent_load K, List.Pairwise.nil⟩ (stepsMeet_of_forall (fun _ _ => trivial) ..)

/-- An add that samples the clock first and takes the lock last. -/
theorem not_timeOrdered_of_late_lock :
    StepsMeet System.step ClockRuns (System.load .x86_64)
        [.addEnter 0 1 0 [] true, .tick 1, .addEnter 1 2 0 [] true, .lock 1, .lock 0] ∧
      ¬ Throughout System.step (fun s => TimeOrdered s.mon) (System.load .x86_64)
        [.addEnter 0 1 0 [] true, .tick 1, .addEnter 1 2 0 [] true, .lock 1, .lock 0] := by
  refine ⟨by decide, fun h => ?_⟩
  have hsorted := h.last.sorted
  revert hsorted
  decide

end System

end KernelModules.CompleteMonitor
