import KernelModules.CompleteMonitor.Interleaving

/-!
Records that a tail still reads.

Past the unlock, both calls hand their record to `process_matches_filter`, which
reads it when the filter is enabled. Nothing keeps the record linked until then:
the next add on another CPU may evict it, and a `clear` frees it. The reads are
of linked records as long as no step unlinks a record that some tail holds.
-/

namespace KernelModules.CompleteMonitor

open Lib

variable {K : Kernel}

/-- The record that a call holds past the unlock. -/
def Call.held : Call K → Option Addr
  | .addTail _ _ _ record => some record
  | .exitTail _ _ found => found.map Prod.fst
  | .add .. | .exit .. => none

namespace System

theorem tailRecord_eq (s : System K) (cpu : ℕ) :
    s.tailRecord cpu = (s.calls cpu).bind Call.held := by
  rw [tailRecord]
  cases s.calls cpu with
  | none => rfl
  | some call => cases call <;> rfl

/-- A tail reads only a record that is in the list. With the filter disabled it
reads nothing. -/
def ReadsLinked (s : System K) : Event K → Prop
  | .tail cpu =>
      s.mon.filter.enabled = true → ∀ record ∈ s.tailRecord cpu, record ∈ s.mon.processList
  | _ => True

instance (s : System K) : ∀ e, Decidable (ReadsLinked s e)
  | .tail _ => inferInstanceAs (Decidable (s.mon.filter.enabled = true → _))
  | .tick _ | .addEnter .. | .exitEnter .. | .lock _ | .control _ | .filter _ => .isTrue trivial

/-- No record that a tail holds is unlinked: an add does not evict one, and a
`clear` comes only while no tail holds any. -/
def KeepsHeld (s : System K) : Event K → Prop
  | .lock cpu =>
      match s.calls cpu with
      | some (.add ..) =>
          s.mon.recordCount ≥ MAX_PROCESS_RECORDS →
            ∀ oldest ∈ s.mon.processList.head?, ∀ cpu', s.tailRecord cpu' ≠ some oldest
      | _ => True
  | .control w => writtenCommand w = some .clear → ∀ cpu, s.tailRecord cpu = none
  | _ => True

/-- Every record that a tail holds is in the list. -/
def HeldLinked (s : System K) : Prop :=
  ∀ cpu, ∀ record ∈ s.tailRecord cpu, record ∈ s.mon.processList

theorem heldLinked_load (K : Kernel) : HeldLinked (System.load K) := by
  simp [HeldLinked, tailRecord, load]

/-- A step that keeps the list, and moves one CPU to a call that holds only
linked records. -/
theorem HeldLinked.move {s s' : System K} (h : HeldLinked s) {cpu : ℕ} {call : Option (Call K)}
    (hcalls : s'.calls = Function.update s.calls cpu call)
    (hlist : ∀ record ∈ s.mon.processList,
      (∃ cpu', s.tailRecord cpu' = some record) → record ∈ s'.mon.processList)
    (hcall : ∀ record ∈ call.bind Call.held, record ∈ s'.mon.processList) : HeldLinked s' := by
  intro cpu' record hrecord
  rw [tailRecord_eq, hcalls] at hrecord
  by_cases heq : cpu' = cpu
  · rw [heq, Function.update_self] at hrecord
    exact hcall record hrecord
  · rw [Function.update_of_ne heq, ← tailRecord_eq] at hrecord
    exact hlist record (h cpu' record hrecord) ⟨cpu', hrecord⟩

theorem HeldLinked.congr {s s' : System K} (h : HeldLinked s) (hcalls : s'.calls = s.calls)
    (hlist : s'.mon.processList = s.mon.processList) : HeldLinked s' := by
  intro cpu record hrecord
  rw [tailRecord_eq, hcalls, ← tailRecord_eq] at hrecord
  rw [hlist]
  exact h cpu record hrecord

theorem HeldLinked.addEnter {s : System K} (h : HeldLinked s) (cpu : ℕ) (pid ppid : PidT)
    (comm : List UInt8) (alloc : Bool) : HeldLinked (s.addEnter cpu pid ppid comm alloc) := by
  unfold System.addEnter
  cases s.calls cpu with
  | some c => exact h
  | none =>
      rcases addProcessRecordEnter_cases pid ppid comm s.jiffies alloc s.mon with
        ⟨-, hs⟩ | ⟨-, hs⟩
      · simp only [hs]
        exact h.congr rfl rfl
      · simp only [hs]
        exact h.move rfl (fun _ hr _ => hr) (by simp [Call.held])

theorem HeldLinked.exitEnter {s : System K} (h : HeldLinked s) (cpu : ℕ) (pid : PidT)
    (exitCode : CInt) : HeldLinked (s.exitEnter cpu pid exitCode) := by
  unfold System.exitEnter
  cases s.calls cpu with
  | some c => exact h
  | none =>
      dsimp only
      split
      · exact h.move rfl (fun _ hr _ => hr) (by simp [Call.held])
      · exact h

theorem HeldLinked.lock {s : System K} (h : HeldLinked s) (hs : Consistent s) (cpu : ℕ)
    (hkeeps : KeepsHeld s (.lock cpu)) : HeldLinked (s.lock cpu) := by
  rw [KeepsHeld] at hkeeps
  unfold System.lock
  split
  · rename_i pid ppid comm record hcall
    simp only [hcall] at hkeeps
    have hmem := addProcessRecordLocked_mem_iff hs.accounted.toIndexed pid record
    refine h.move rfl (fun other ho ⟨cpu', hheld⟩ => (hmem other).mpr (.inl ⟨ho, fun hev => ?_⟩))
      fun other ho => (hmem other).mpr (.inr ?_)
    · rw [evicted] at hev
      split at hev
      · rename_i hfull
        refine hkeeps (hs.accounted.full_iff.mpr hfull) other ?_ cpu' hheld
        rw [List.take_one] at hev
        simpa using hev
      · simp at hev
    · simpa [Call.held, eq_comm] using ho
  · rename_i pid exitCode hcall
    rcases markProcessExitLocked_cases pid exitCode s.jiffies s.mon with
      ⟨-, hm⟩ | ⟨marked, hfind, hm⟩
    · simp only [hm]
      exact h.move rfl (fun _ hr _ => hr) (by simp [Call.held])
    · simp only [hm]
      refine h.move rfl (fun _ hr _ => hr) fun record hr => ?_
      have heq : record = marked := by simpa [Call.held, eq_comm] using hr
      rw [heq]
      exact hs.accounted.mem_of_findProcessByPid hfind
  · exact h

theorem HeldLinked.tail {s : System K} (h : HeldLinked s) (cpu : ℕ) : HeldLinked (s.tail cpu) := by
  unfold System.tail
  split
  · exact h.move rfl (fun _ hr _ => hr) (by simp)
  · exact h.move rfl (fun _ hr _ => hr) (by simp)
  · exact h

theorem HeldLinked.control {s : System K} (h : HeldLinked s) (w : UserWrite)
    (hkeeps : KeepsHeld s (.control w)) : HeldLinked (s.step (.control w)) := by
  rw [KeepsHeld] at hkeeps
  rw [System.step, controlWrite_eq]
  cases hcmd : writtenCommand w with
  | none => exact h.congr rfl rfl
  | some c =>
      cases c with
      | clear =>
          intro cpu record hrecord
          rw [tailRecord_eq, ← tailRecord_eq s, hkeeps hcmd cpu] at hrecord
          contradiction
      | start | stop | resetStats => exact h.congr rfl rfl

/-- **One step.** -/
theorem HeldLinked.step {s : System K} (h : HeldLinked s) (hs : Consistent s) (e : Event K)
    (hkeeps : KeepsHeld s e) : HeldLinked (s.step e) := by
  cases e with
  | tick d => exact h.congr rfl rfl
  | addEnter cpu pid ppid comm alloc => exact h.addEnter cpu pid ppid comm alloc
  | exitEnter cpu pid exitCode => exact h.exitEnter cpu pid exitCode
  | lock cpu => exact h.lock hs cpu hkeeps
  | tail cpu => exact h.tail cpu
  | control w => exact h.control w hkeeps
  | filter w => exact h.congr rfl (by rw [System.step, filterWrite_eq])

theorem HeldLinked.readsLinked {s : System K} (h : HeldLinked s) (e : Event K) :
    ReadsLinked s e := by
  cases e with
  | tail cpu => exact fun _ => h cpu
  | tick | addEnter | exitEnter | lock | control | filter => trivial

/-- A step that unlinks a held record leaves a tail with a record that is no
longer linked. -/
theorem exists_held_unlinked {s : System K} (hs : Consistent s) {e : Event K}
    (h : ¬ KeepsHeld s e) :
    ∃ cpu record, (s.step e).tailRecord cpu = some record ∧
      record ∉ (s.step e).mon.processList := by
  cases e with
  | lock cpu =>
      rw [KeepsHeld] at h
      cases hcall : s.calls cpu with
      | none => simp [hcall] at h
      | some call =>
          cases call with
          | add pid ppid comm record =>
              simp only [hcall, Classical.not_imp, not_forall, not_not] at h
              obtain ⟨hfull, oldest, holdest, cpu', hheld⟩ := h
              have hmem := addProcessRecordLocked_mem_iff hs.accounted.toIndexed pid record oldest
              -- the call that evicts has not reached its tail
              have hne : cpu' ≠ cpu := by
                rintro rfl
                simp [tailRecord, hcall] at hheld
              rw [System.step, lock_add hcall]
              refine ⟨cpu', oldest, ?_, fun hlinked => ?_⟩
              · rw [tailRecord_eq] at hheld ⊢
                dsimp only
                rw [Function.update_of_ne hne, hheld]
              · rcases hmem.mp hlinked with ⟨-, hev⟩ | heq
                · apply hev
                  rw [evicted, if_pos (hs.accounted.full_iff.mp hfull), List.take_one]
                  simpa using holdest
                · apply (hs.waits hcall).2.1
                  rw [← heq]
                  exact List.mem_of_mem_head? holdest
          | addTail | exit | exitTail => simp [hcall] at h
  | control w =>
      simp only [KeepsHeld, Classical.not_imp, not_forall] at h
      obtain ⟨hcmd, cpu, hheld⟩ := h
      obtain ⟨record, hrecord⟩ := Option.ne_none_iff_exists'.mp hheld
      refine ⟨cpu, record, hrecord, ?_⟩
      -- `clear` leaves nothing in the list
      rw [System.step, controlWrite_eq, hcmd]
      simp [runControl, hs.accounted.clearRecords_eq]
  | tick | addEnter | exitEnter | tail | filter => exact absurd trivial h

/-- **Reads past the unlock.** In a schedule in which no step unlinks a record
that a tail holds, every tail reads a linked record. The condition cannot be
dropped: after any schedule, a step that unlinks a held record lets some tail
read a record that has been freed. -/
theorem reads_linked {es : List (Event K)} :
    (StepsMeet System.step KeepsHeld (System.load K) es →
      StepsMeet System.step ReadsLinked (System.load K) es) ∧
    ∀ e, ¬ KeepsHeld (run System.step (System.load K) es) e →
      ∃ cpu, ¬ StepsMeet System.step ReadsLinked (System.load K)
        (es ++ [e, .filter enableFilter, .tail cpu]) := by
  constructor
  · intro h
    have hheld := h.throughout (I := fun s : System K => Consistent s ∧ HeldLinked s)
      (fun s e ⟨hs, hheld⟩ hkeeps => ⟨hs.step e, hheld.step hs e hkeeps⟩)
      ⟨consistent_load K, heldLinked_load K⟩
    exact hheld.stepsMeet fun s e hs => hs.2.readsLinked e
  · intro e hunlinks
    obtain ⟨cpu, record, hheld, hunlinked⟩ :=
      exists_held_unlinked (consistent_run es) hunlinks
    refine ⟨cpu, fun hreads => hunlinked ?_⟩
    have htail := (stepsMeet_append.mp hreads).2.2.2.1
    have hlist : ∀ s : System K, (s.step (.filter enableFilter)).mon.processList =
        s.mon.processList := fun s => by rw [System.step, filterWrite_eq]
    rw [← hlist]
    exact htail (enabled_filterWrite_enableFilter _) record hheld

/-- Two adds and an exit hold records at the same time, and a `clear` comes after the last
tail. -/
theorem reads_linked_of_two_adds :
    StepsMeet System.step ReadsLinked (System.load .x86_64)
      [.filter enableFilter, .addEnter 0 1 0 [] true, .addEnter 1 2 0 [] true, .lock 0, .lock 1,
        .tail 0, .exitEnter 0 2 0, .lock 0, .tail 1, .tail 0,
        .control ControlCommand.clear.write] := by
  have hroom : ∀ n : ℤ, n < MAX_PROCESS_RECORDS → ¬ n ≥ MAX_PROCESS_RECORDS := fun _ => not_le.mpr
  refine reads_linked.1 ⟨trivial, trivial, trivial, fun hfull => absurd hfull (hroom _ (by decide)),
    fun hfull => absurd hfull (hroom _ (by decide)), trivial, trivial, trivial, trivial, trivial,
    fun _ cpu => ?_, trivial⟩
  match cpu with
  | 0 => rfl
  | 1 => rfl
  | cpu + 2 => rfl

/-- A `clear` between the critical section of an add and its tail. -/
theorem reads_freed_after_clear :
    ¬ StepsMeet System.step ReadsLinked (System.load .x86_64)
      [.filter enableFilter, .addEnter 0 1 0 [] true, .lock 0,
        .control ControlCommand.clear.write, .tail 0] := by
  decide

end System

end KernelModules.CompleteMonitor
