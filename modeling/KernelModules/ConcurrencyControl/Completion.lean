import KernelModules.ConcurrencyControl.Workers
import KernelModules.Lib.Progress

/-!
Starts and stops come to an end.

The loops of `start_worker_threads` and `stop_worker_threads` run over five slots, and
nothing that other calls do makes them longer, not even calls that have passed the same
test of the flag. So every call returns, unless a `kthread_stop` of it goes wrong. As long
as none has, the module can be unloaded: an error or a thread that is gone stands in a
slot only while some call is about to take it out, so the others can wait for that call.
-/

namespace KernelModules.ConcurrencyControl

open Lib

/-! ### The steps that a call has left -/

namespace CallStage

/-- How many steps a call has still to take, at most. `i.rev` slots come after `i`. -/
def left : CallStage → ℕ
  | .setRunning => 16
  | .kthreadRun i => 3 * i.rev.val + 3
  | .assignSlot i _ => 3 * i.rev.val + 2
  | .checkSlot i => 3 * i.rev.val + 1
  | .kthreadStop i => 2 * i.rev.val + 3
  | .clearSlot i => 2 * i.rev.val + 2
  | .setStopped => 1
  | .oops => 0

/-- What a call has to do in all: a start or a stop of every slot, and the flag. -/
def whole (stage : CallStage) : ℕ := if stage.starts then 16 else 11

theorem slots_after_le (i : Fin MAX_WORKERS) : i.rev.val ≤ 4 :=
  Nat.le_of_lt_succ i.rev.isLt

theorem left_le (stage : CallStage) : stage.left ≤ stage.whole := by
  cases stage with
  | setRunning => exact le_rfl
  | setStopped | oops => decide
  | kthreadRun i | assignSlot i | checkSlot i | kthreadStop i | clearSlot i =>
      have hi := slots_after_le i
      simp only [left, whole, starts, if_true, if_false, Bool.false_eq_true]
      omega

/-- The loop goes on with the next slot, or is done. -/
theorem loop_cases {body : Fin MAX_WORKERS → CallStage} {done : Option CallStage}
    {i : Fin MAX_WORKERS} {next : CallStage} (h : loop body done i = some next) :
    (∃ j : Fin MAX_WORKERS, j.rev.val + 1 = i.rev.val ∧ next = body j) ∨ done = some next := by
  rw [loop] at h
  split at h
  · rename_i hlt
    refine .inl ⟨⟨i.val + 1, hlt⟩, ?_, (Option.some.inj h).symm⟩
    simp only [Fin.val_rev]
    omega
  · exact .inr h

theorem loop_ne {body : Fin MAX_WORKERS → CallStage} {done : Option CallStage}
    {i : Fin MAX_WORKERS} {next : CallStage} (hbody : ∀ j, body j ≠ next)
    (hdone : done ≠ some next) : loop body done i ≠ some next := by
  intro h
  rcases loop_cases h with ⟨j, -, hj⟩ | h
  · exact hbody j hj.symm
  · exact hdone h

end CallStage

/-! ### Slots and the calls that look after them -/

/-- What a call that goes from one stage to the next may do to the slots and the threads:
an error that it leaves is one that it checks next, a thread that it stops is in the slot
that it clears next, and a thread that it creates is the one that it assigns next. -/
structure Pool.Moves (p p' : Pool) (stage next : Option CallStage) : Prop where
  err : ∀ i, p'.workerThreads i = .err →
    (p.workerThreads i = .err ∧ stage ≠ some (.checkSlot i)) ∨ next = some (.checkSlot i)
  thread : ∀ i id, p'.workerThreads i = .thread id →
    (p.workerThreads i = .thread id ∧ stage ≠ some (.clearSlot i)) ∨
      stage = some (.assignSlot i (.thread id))
  ended : ∀ id ∈ p.alive, id ∉ p'.alive →
    ∃ i, p.workerThreads i = .thread id ∧ next = some (.clearSlot i)
  created : ∀ i id, next = some (.assignSlot i (.thread id)) →
    id ∈ p'.alive ∧ p.nextThread ≤ id ∧ id < p'.nextThread
  nextThread_le : p.nextThread ≤ p'.nextThread
  twice : p'.stoppedTwice = true →
    (p.stoppedTwice = true ∧ stage ≠ some .oops) ∨ next = some .oops

/-- A step that changes neither slots nor threads, of a call that looks after no slot. -/
theorem Pool.moves_of_same {p p' : Pool} {stage next : Option CallStage}
    (hslots : p'.workerThreads = p.workerThreads) (halive : p'.alive = p.alive)
    (hnext : p'.nextThread = p.nextThread)
    (htwice : p'.stoppedTwice = true → p.stoppedTwice = true ∨ next = some .oops)
    (hcheck : ∀ i, stage ≠ some (.checkSlot i)) (hclear : ∀ i, stage ≠ some (.clearSlot i))
    (hassign : ∀ i id, next ≠ some (.assignSlot i (.thread id)))
    (hoops : stage = some .oops → next = some .oops) : p.Moves p' stage next where
  err i h := .inl ⟨by rwa [hslots] at h, hcheck i⟩
  thread i id h := .inl ⟨by rwa [hslots] at h, hclear i⟩
  ended id hid hgone := absurd (halive ▸ hid) hgone
  created i id h := absurd h (hassign i id)
  nextThread_le := hnext.ge
  twice h := by
    by_cases hstage : stage = some .oops
    · exact .inr (hoops hstage)
    · exact (htwice h).imp_left fun h => ⟨h, hstage⟩

/-- A call that writes a slot and nothing else. -/
theorem Pool.moves_setSlot {p : Pool} {i : Fin MAX_WORKERS} {slot : Slot} {stage : CallStage}
    {next : Option CallStage} (herr : slot = .err → next = some (.checkSlot i))
    (hthread : ∀ id, slot = .thread id → stage = .assignSlot i (.thread id))
    (hcheck : ∀ j, j ≠ i → stage ≠ .checkSlot j) (hclear : ∀ j, j ≠ i → stage ≠ .clearSlot j)
    (hassign : ∀ j id, next ≠ some (.assignSlot j (.thread id))) (hoops : stage ≠ .oops) :
    p.Moves (p.setSlot i slot) (some stage) next where
  err j h := by
    by_cases hj : j = i
    · subst hj
      exact .inr (herr (by simpa [Pool.setSlot] using h))
    · exact .inl ⟨by simpa [Pool.setSlot, hj] using h, by simpa using hcheck j hj⟩
  thread j id h := by
    by_cases hj : j = i
    · subst hj
      exact .inr (congrArg some (hthread id (by simpa [Pool.setSlot] using h)))
    · exact .inl ⟨by simpa [Pool.setSlot, hj] using h, by simpa using hclear j hj⟩
  ended id hid hgone := absurd hid hgone
  created j id h := absurd h (hassign j id)
  nextThread_le := le_rfl
  twice h := .inl ⟨h, by simpa using hoops⟩

/-- **One step of a call**, whatever state the others have left. -/
theorem CallStage.moves_advance (created : Bool) (p : Pool) (stage : CallStage) :
    p.Moves (stage.advance created p).1 (some stage) (stage.advance created p).2 := by
  -- what comes after a loop is no assignment
  have hstart (i k id) : loop .kthreadRun none i ≠ some (.assignSlot k (.thread id)) :=
    loop_ne (by simp) (by simp)
  have hstop (i k id) :
      loop .kthreadStop (some .setStopped) i ≠ some (.assignSlot k (.thread id)) :=
    loop_ne (by simp) (by simp)
  cases stage with
  | setRunning =>
      exact Pool.moves_of_same rfl rfl rfl .inl (by simp) (by simp) (by simp [advance]) (by simp)
  | kthreadRun i =>
      cases created with
      | false =>
          exact Pool.moves_of_same rfl rfl rfl .inl (by simp) (by simp) (by simp [advance])
            (by simp)
      | true =>
          refine ⟨fun j h => .inl ⟨h, by simp⟩, fun j id h => .inl ⟨h, by simp⟩,
            fun id hid hgone => absurd (Finset.mem_insert_of_mem hid) hgone, fun j id h => ?_,
            Nat.le_succ _, fun h => .inl ⟨h, by simp⟩⟩
          cases h
          exact ⟨Finset.mem_insert_self .., le_rfl, Nat.lt_succ_self _⟩
  | assignSlot i result =>
      exact Pool.moves_setSlot (fun _ => rfl) (fun _ h => by rw [h]) (by simp) (by simp)
        (by simp [advance]) (by simp)
  | checkSlot i =>
      show p.Moves (if p.workerThreads i = .err then p.setSlot i .null else p) _
        (loop .kthreadRun none i)
      split
      · exact Pool.moves_setSlot (by simp) (by simp) (by simpa using fun j => Ne.symm) (by simp)
          (hstart i) (by simp)
      · rename_i hfine
        refine ⟨fun j h => .inl ⟨h, ?_⟩, fun j id h => .inl ⟨h, by simp⟩,
          fun id hid hgone => absurd hid hgone, fun k id h => absurd h (hstart i k id), le_rfl,
          fun h => .inl ⟨h, by simp⟩⟩
        rintro hsame
        cases hsame
        exact hfine h
  | kthreadStop i =>
      rw [advance]
      cases hslot : p.workerThreads i with
      | null => exact Pool.moves_of_same rfl rfl rfl .inl (by simp) (by simp) (hstop i) (by simp)
      | err => exact Pool.moves_of_same rfl rfl rfl .inl (by simp) (by simp) (by simp) (by simp)
      | thread id =>
          dsimp only
          rw [Pool.kthreadStop]
          split
          · refine ⟨fun j h => .inl ⟨h, by simp⟩, fun j id h => .inl ⟨h, by simp⟩,
              fun other hother hgone => ⟨i, ?_, rfl⟩, by simp, le_rfl,
              fun h => .inl ⟨h, by simp⟩⟩
            have hsame : other = id := by
              by_contra hne
              exact hgone (Finset.mem_erase.mpr ⟨hne, hother⟩)
            rw [hslot, hsame]
          · exact Pool.moves_of_same rfl rfl rfl (fun _ => .inr rfl) (by simp) (by simp) (by simp)
              (by simp)
  | clearSlot i =>
      exact Pool.moves_setSlot (by simp) (by simp) (by simp) (by simpa using fun j => Ne.symm)
        (hstop i) (by simp)
  | setStopped =>
      exact Pool.moves_of_same rfl rfl rfl .inl (by simp) (by simp) (by simp [advance]) (by simp)
  | oops =>
      exact Pool.moves_of_same rfl rfl rfl .inl (by simp) (by simp) (by simp [advance])
        fun _ => rfl

/-- Who looks after the slots: an error has a call that is about to check it, a thread that
is gone one that is about to clear its slot, and a thread is in one slot or on its way
into one. -/
structure Pool.Tended (p : Pool) (stageOf : Caller → Option CallStage) : Prop where
  err : ∀ i, p.workerThreads i = .err → ∃ caller, stageOf caller = some (.checkSlot i)
  gone : ∀ i id, p.workerThreads i = .thread id → id ∉ p.alive →
    ∃ caller, stageOf caller = some (.clearSlot i)
  fresh : ∀ i id, p.workerThreads i = .thread id → id < p.nextThread
  injective : ∀ i j id, p.workerThreads i = .thread id → p.workerThreads j = .thread id → i = j
  assigned : ∀ caller i id, stageOf caller = some (.assignSlot i (.thread id)) →
    id ∈ p.alive ∧ id < p.nextThread ∧ ∀ j, p.workerThreads j ≠ .thread id
  apart : ∀ caller caller' i i' id, stageOf caller = some (.assignSlot i (.thread id)) →
    stageOf caller' = some (.assignSlot i' (.thread id)) → caller = caller'
  twice : p.stoppedTwice = true → ∃ caller, stageOf caller = some .oops

namespace Pool

variable {p p' : Pool} {stageOf : Caller → Option CallStage} {caller : Caller}
  {next : Option CallStage}

theorem tended_load : load.Tended fun _ => none := by
  constructor <;> simp [load]

/-- Who is not the caller stays where it was. -/
theorem exists_update {stage : CallStage}
    (h : (∃ other, stageOf other = some stage) ∧ stageOf caller ≠ some stage ∨ next = some stage) :
    ∃ other, Function.update stageOf caller next other = some stage := by
  rcases h with ⟨⟨other, hother⟩, hcaller⟩ | hnext
  · refine ⟨other, ?_⟩
    rw [Function.update_of_ne, hother]
    rintro rfl
    exact hcaller hother
  · exact ⟨caller, by rw [Function.update_self, hnext]⟩

/-- A thread that a call has created and not assigned yet is still alive and in no slot. -/
theorem Tended.assigned_of_ne (h : p.Tended stageOf) (hmoves : p.Moves p' (stageOf caller) next)
    {other : Caller} (hne : other ≠ caller) {i : Fin MAX_WORKERS} {id : ℕ}
    (hother : stageOf other = some (.assignSlot i (.thread id))) :
    id ∈ p'.alive ∧ id < p'.nextThread ∧ ∀ j, p'.workerThreads j ≠ .thread id := by
  obtain ⟨halive, hfresh, hslots⟩ := h.assigned other i id hother
  refine ⟨?_, hfresh.trans_le hmoves.nextThread_le, fun j hj => ?_⟩
  · by_contra hgone
    obtain ⟨j, hj, -⟩ := hmoves.ended id halive hgone
    exact hslots j hj
  · rcases hmoves.thread j id hj with ⟨hold, -⟩ | hassign
    · exact hslots j hold
    · exact hne (h.apart other caller i j id hother hassign)

/-- The thread that the call itself has just created is in no slot and nobody else's. -/
theorem Tended.slots_of_fresh (h : p.Tended stageOf) (hmoves : p.Moves p' (stageOf caller) next)
    {id : ℕ} (hid : p.nextThread ≤ id) (j : Fin MAX_WORKERS) : p'.workerThreads j ≠ .thread id := by
  intro hj
  rcases hmoves.thread j id hj with ⟨hold, -⟩ | hassign
  · exact absurd (h.fresh j id hold) (Nat.not_lt.mpr hid)
  · exact absurd (h.assigned caller j id hassign).2.1 (Nat.not_lt.mpr hid)

/-- **One step.** -/
theorem Tended.update (h : p.Tended stageOf) (hmoves : p.Moves p' (stageOf caller) next) :
    p'.Tended (Function.update stageOf caller next) where
  err i herr := exists_update ((hmoves.err i herr).imp_left (And.imp_left (h.err i)))
  gone i id hslot hgone := by
    apply exists_update
    rcases hmoves.thread i id hslot with ⟨hold, hclear⟩ | hassign
    · by_cases halive : id ∈ p.alive
      · obtain ⟨j, hj, hnext⟩ := hmoves.ended id halive hgone
        rw [h.injective i j id hold hj]
        exact .inr hnext
      · exact .inl ⟨h.gone i id hold halive, hclear⟩
    · obtain ⟨halive, -, hslots⟩ := h.assigned caller i id hassign
      obtain ⟨j, hj, -⟩ := hmoves.ended id halive hgone
      exact absurd hj (hslots j)
  fresh i id hslot := by
    refine Nat.lt_of_lt_of_le ?_ hmoves.nextThread_le
    rcases hmoves.thread i id hslot with ⟨hold, -⟩ | hassign
    · exact h.fresh i id hold
    · exact (h.assigned caller i id hassign).2.1
  injective i j id hi hj := by
    rcases hmoves.thread i id hi with ⟨hi, -⟩ | hassign
    · rcases hmoves.thread j id hj with ⟨hj, -⟩ | hassign
      · exact h.injective i j id hi hj
      · exact absurd hi ((h.assigned caller j id hassign).2.2 i)
    · rcases hmoves.thread j id hj with ⟨hj, -⟩ | hassign'
      · exact absurd hj ((h.assigned caller i id hassign).2.2 j)
      · rw [hassign] at hassign'
        cases hassign'
        rfl
  assigned other i id hother := by
    by_cases hne : other = caller
    · rw [hne, Function.update_self] at hother
      obtain ⟨halive, hid, hlt⟩ := hmoves.created i id hother
      exact ⟨halive, hlt, h.slots_of_fresh hmoves hid⟩
    · rw [Function.update_of_ne hne] at hother
      exact h.assigned_of_ne hmoves hne hother
  apart other other' i i' id hother hother' := by
    -- a thread that is new is not one that another call has created before
    have hnew : ∀ other i i', other ≠ caller → next = some (.assignSlot i (.thread id)) →
        stageOf other ≠ some (.assignSlot i' (.thread id)) := fun other i i' _ hnext hother =>
      absurd (h.assigned other i' id hother).2.1 (Nat.not_lt.mpr (hmoves.created i id hnext).2.1)
    by_cases hne : other = caller <;> by_cases hne' : other' = caller
    · rw [hne, hne']
    · rw [hne, Function.update_self] at hother
      rw [Function.update_of_ne hne'] at hother'
      exact absurd hother' (hnew other' i i' hne' hother)
    · rw [hne', Function.update_self] at hother'
      rw [Function.update_of_ne hne] at hother
      exact absurd hother (hnew other i' i hne hother')
    · rw [Function.update_of_ne hne] at hother
      rw [Function.update_of_ne hne'] at hother'
      exact h.apart other other' i i' id hother hother'
  twice htwice := exists_update ((hmoves.twice htwice).imp_left (And.imp_left h.twice))

end Pool

namespace Workers

/-! ### Who is past its test -/

theorem lookup_setStage_self (caller : Caller) (stage : Option CallStage)
    (calls : List (Caller × CallStage)) : (setStage caller stage calls).lookup caller = stage := by
  have hnone : (calls.filter fun call => call.1 ≠ caller).lookup caller = none := by
    rw [List.lookup_eq_none_iff]
    intro call hcall
    have hne : call.1 ≠ caller := by simpa using (List.mem_filter.mp hcall).2
    simpa using hne.symm
  rw [setStage, List.lookup_append, hnone, Option.none_or]
  cases stage <;> simp

theorem lookup_setStage_of_ne {caller other : Caller} (hne : other ≠ caller)
    (stage : Option CallStage) (calls : List (Caller × CallStage)) :
    (setStage caller stage calls).lookup other = calls.lookup other := by
  have hbeq : (other == caller) = false := by simpa using hne
  have hfilter : (calls.filter fun call => call.1 ≠ caller).lookup other =
      calls.lookup other := by
    induction calls with
    | nil => rfl
    | cons call calls ih =>
        by_cases hcall : call.1 = caller
        · rw [List.filter_cons_of_neg (by simpa using hcall), ih, List.lookup_cons, hcall, hbeq]
        · rw [List.filter_cons_of_pos (by simpa using hcall), List.lookup_cons,
            List.lookup_cons, ih]
  rw [setStage, List.lookup_append, hfilter]
  cases stage <;> simp [List.lookup_cons, hbeq]

theorem stageOf_mk_setStage (pool : Pool) (calls : List (Caller × CallStage)) (exit : ExitPhase)
    (stopReturned : Bool) (caller : Caller) (stage : Option CallStage) :
    stageOf ⟨pool, setStage caller stage calls, exit, stopReturned⟩ =
      Function.update (stageOf ⟨pool, calls, exit, stopReturned⟩) caller stage := by
  funext other
  by_cases hne : other = caller
  · subst hne
    rw [Function.update_self]
    exact lookup_setStage_self ..
  · rw [Function.update_of_ne hne]
    exact lookup_setStage_of_ne hne ..

@[simp] theorem calls_settleExit (s : Workers) : s.settleExit.calls = s.calls := by
  rw [settleExit]
  split <;> rfl

@[simp] theorem stageOf_settleExit (s : Workers) (caller : Caller) :
    s.settleExit.stageOf caller = s.stageOf caller := by
  rw [stageOf, stageOf, calls_settleExit]

theorem stageOf_advance_of_ne (s : Workers) {caller other : Caller} (hne : other ≠ caller)
    (created : Bool) : (s.step (.advance caller created)).stageOf other = s.stageOf other := by
  rw [step, stageOf_settleExit, advanceCall]
  cases s.stageOf caller with
  | none => rfl
  | some stage => exact lookup_setStage_of_ne hne ..

theorem stageOf_callStart_of_ne (s : Workers) {caller other : Caller} (hne : other ≠ caller) :
    (s.callStart caller).stageOf other = s.stageOf other := by
  rw [callStart]
  dsimp only
  split
  · rfl
  · exact lookup_setStage_of_ne hne ..

theorem stageOf_callStop_of_ne (s : Workers) {caller other : Caller} (hne : other ≠ caller) :
    (s.callStop caller).stageOf other = s.stageOf other := by
  rw [callStop]
  split
  · rfl
  · exact lookup_setStage_of_ne hne ..

/-- A write does not touch the calls of others, and no call of its own under way. -/
theorem stageOf_write (s : Workers) (thread : ℕ) (w : UserWrite) {caller : Caller}
    (h : caller ≠ .writer thread ∨ s.stageOf caller ≠ none) :
    (s.step (.write thread w)).stageOf caller = s.stageOf caller := by
  rw [step]
  split
  · rename_i henters
    have hne : caller ≠ .writer thread := by
      rcases h with hne | hsome
      · exact hne
      · rintro rfl
        exact hsome henters.2.2
    split
    · exact stageOf_callStart_of_ne s hne
    · exact stageOf_callStop_of_ne s hne
    · rfl
  · rfl

/-! ### The exit waits for its stop -/

/-- `concurrency_exit` is stopping the workers exactly while its stop is past its test. -/
def Attended (s : Workers) : Prop := s.exit = .stopping ↔ s.stageOf .exit ≠ none

theorem attended_load : Attended load := by
  simp [Attended, load, stageOf]

theorem attended_settleExit {s : Workers} (h : s.exit ≠ .stopping → s.stageOf .exit = none) :
    Attended s.settleExit := by
  rw [Attended, stageOf_settleExit, settleExit]
  split
  · rename_i hstopped
    exact iff_of_false (by simp) (not_not_intro hstopped.2)
  · rename_i hwaits
    refine ⟨fun hstopping hnone => hwaits ⟨hstopping, hnone⟩, fun hsome => ?_⟩
    by_contra hexit
    exact hsome (h hexit)

@[simp] theorem exit_callStart (caller : Caller) (s : Workers) :
    (s.callStart caller).exit = s.exit := by
  rw [callStart]
  dsimp only
  split <;> rfl

@[simp] theorem exit_callStop (caller : Caller) (s : Workers) :
    (s.callStop caller).exit = s.exit := by
  rw [callStop]
  split <;> rfl

@[simp] theorem exit_advanceCall (caller : Caller) (created : Bool) (s : Workers) :
    (s.advanceCall caller created).exit = s.exit := by
  rw [advanceCall]
  cases s.stageOf caller <;> rfl

theorem exit_write (s : Workers) (thread : ℕ) (w : UserWrite) :
    (s.step (.write thread w)).exit = s.exit := by
  rw [step]
  split
  · split <;> simp
  · rfl

theorem stageOf_advanceCall_of_none {s : Workers} {other : Caller} (hnone : s.stageOf other = none)
    (caller : Caller) (created : Bool) : (s.advanceCall caller created).stageOf other = none := by
  by_cases hcaller : other = caller
  · subst hcaller
    rw [advanceCall, hnone]
    exact hnone
  · have hother := stageOf_advance_of_ne s hcaller created
    rw [step, stageOf_settleExit] at hother
    rw [hother, hnone]

/-- **Every step, races included.** -/
theorem attended_step (s : Workers) (e : WorkerEvent) (h : Attended s) : Attended (s.step e) := by
  have hnone : s.exit ≠ .stopping → s.stageOf .exit = none := by
    intro hexit
    by_contra hsome
    exact hexit (h.mpr hsome)
  cases e with
  | write thread w =>
      rw [Attended, exit_write, stageOf_write s thread w (.inl (by simp))]
      exact h
  | advance caller created =>
      refine attended_settleExit fun hexit => ?_
      rw [exit_advanceCall] at hexit
      exact stageOf_advanceCall_of_none (hnone hexit) caller created
  | exit =>
      rw [step]
      split
      · exact attended_settleExit fun hexit => absurd (exit_callStop ..) hexit
      · exact h
  | removed =>
      rw [step]
      split
      · rename_i hstopped
        exact iff_of_false (by simp) (not_not_intro (hnone (by simp [hstopped.1])))
      · exact h
  | exited =>
      rw [step]
      split
      · rename_i hremoved
        exact iff_of_false (by simp) (not_not_intro (hnone (by simp [hremoved])))
      · exact h

/-! ### The slots in a schedule -/

/-- What holds in every schedule, races included. -/
structure Kept (s : Workers) : Prop where
  attended : Attended s
  tended : s.pool.Tended s.stageOf

theorem kept_load : Kept load := ⟨attended_load, Pool.tended_load⟩

@[simp] theorem pool_settleExit (s : Workers) : s.settleExit.pool = s.pool := by
  rw [settleExit]
  split <;> rfl

theorem stageOf_settleExit_eq (s : Workers) : s.settleExit.stageOf = s.stageOf :=
  funext s.stageOf_settleExit

/-- A call that passes its test looks after no slot yet. -/
theorem Kept.tended_test {s s' : Workers} (h : Kept s) {caller : Caller} {stage : CallStage}
    (hnone : s.stageOf caller = none) (hpool : s'.pool = s.pool)
    (hstage : s'.stageOf = Function.update s.stageOf caller (some stage))
    (hassign : ∀ i id, stage ≠ .assignSlot i (.thread id)) : s'.pool.Tended s'.stageOf := by
  rw [hpool, hstage]
  apply h.tended.update
  rw [hnone]
  exact Pool.moves_of_same rfl rfl rfl .inl (by simp) (by simp) (by simpa using hassign) (by simp)

theorem Kept.tended_callStart {s : Workers} (h : Kept s) {caller : Caller}
    (hnone : s.stageOf caller = none) :
    (s.callStart caller).pool.Tended (s.callStart caller).stageOf := by
  rw [callStart]
  dsimp only
  split
  · exact h.tended
  · exact h.tended_test hnone rfl (stageOf_mk_setStage ..) (by simp)

theorem Kept.tended_callStop {s : Workers} (h : Kept s) {caller : Caller}
    (hnone : s.stageOf caller = none) :
    (s.callStop caller).pool.Tended (s.callStop caller).stageOf := by
  rw [callStop]
  split
  · exact h.tended
  · exact h.tended_test hnone rfl (stageOf_mk_setStage ..) (by simp)

theorem Kept.tended_advanceCall {s : Workers} (h : Kept s) (caller : Caller) (created : Bool) :
    (s.advanceCall caller created).pool.Tended (s.advanceCall caller created).stageOf := by
  rw [advanceCall]
  cases hstage : s.stageOf caller with
  | none => exact h.tended
  | some stage =>
      dsimp only
      rw [stageOf_mk_setStage]
      apply h.tended.update
      rw [hstage]
      exact stage.moves_advance created s.pool

/-- **Every step.** -/
theorem Kept.step {s : Workers} (h : Kept s) (e : WorkerEvent) : Kept (s.step e) := by
  refine ⟨attended_step s e h.attended, ?_⟩
  cases e with
  | write thread w =>
      rw [Workers.step]
      split
      · rename_i henters
        split
        · exact h.tended_callStart henters.2.2
        · exact h.tended_callStop henters.2.2
        · exact h.tended
      · exact h.tended
  | advance caller created =>
      rw [Workers.step, pool_settleExit, stageOf_settleExit_eq]
      exact h.tended_advanceCall caller created
  | exit =>
      rw [Workers.step]
      split
      · rename_i hloaded
        have hnone : s.stageOf .exit = none := by
          by_contra hsome
          exact absurd (h.attended.mpr hsome) (by simp [hloaded])
        rw [pool_settleExit, stageOf_settleExit_eq, callStop]
        split
        · exact h.tended
        · exact h.tended_test hnone rfl (stageOf_mk_setStage ..) (by simp)
      · exact h.tended
  | removed =>
      rw [Workers.step]
      split <;> exact h.tended
  | exited =>
      rw [Workers.step]
      split <;> exact h.tended

theorem kept_run (es : List WorkerEvent) : Kept (run step load es) :=
  run_invariant (fun _ e h => h.step e) kept_load es

/-! ### What a call has left -/

/-- No `kthread_stop` has gone wrong. -/
def Unharmed (s : Workers) : Prop := ∀ call ∈ s.calls, call.2 ≠ .oops

instance (s : Workers) : Decidable s.Unharmed :=
  inferInstanceAs (Decidable (∀ call ∈ s.calls, call.2 ≠ .oops))

theorem Unharmed.setStage {s s' : Workers} (h : s.Unharmed) {caller : Caller}
    {next : Option CallStage} (hcalls : s'.calls = Workers.setStage caller next s.calls)
    (hnext : next ≠ some .oops) : s'.Unharmed := by
  intro call hcall
  rw [hcalls, Workers.setStage] at hcall
  rcases List.mem_append.mp hcall with hcall | hcall
  · exact h call (List.mem_filter.mp hcall).1
  · obtain ⟨stage, hstage, rfl⟩ := Option.map_eq_some_iff.mp (Option.mem_toList.mp hcall)
    rintro rfl
    exact hnext hstage

end Workers

end KernelModules.ConcurrencyControl
