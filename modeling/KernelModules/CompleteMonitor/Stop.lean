import KernelModules.CompleteMonitor.Effects

/-!
What `stop` stops.

The switch is tested before `process_lock` is taken. A call that has passed the test
does its work all the same, however long after the command that turned the switch off
has returned.
-/

namespace KernelModules.CompleteMonitor

open Lib

variable {K : Kernel}

/-- The list, the records, the counter and the statistics are the same. -/
structure SameData (s s' : Monitor K) : Prop where
  processList : s'.processList = s.processList
  mem : s'.mem = s.mem
  recordCount : s'.recordCount = s.recordCount
  stats : s'.stats = s.stats

theorem SameData.refl (s : Monitor K) : SameData s s := ⟨rfl, rfl, rfl, rfl⟩

/-- The commands that change the data on purpose. -/
def ControlCommand.changesData : ControlCommand → Bool
  | .clear | .resetStats => true
  | .start | .stop => false

/-- Whether the last of the commands `start` and `stop` was `stop`. -/
def stopWatch (stopped : Bool) : Event K → Bool
  | .control w =>
      match writtenCommand w with
      | some .start => false
      | some .stop => true
      | some .clear | some .resetStats | none => stopped
  | .tick _ | .addEnter .. | .exitEnter .. | .lock _ | .tail _ | .filter _ => stopped

/-- After `stop` and until `start` nothing but `clear` and `reset_stats` changes the
data. -/
def Quiet (t : System K × Bool) (e : Event K) : Prop :=
  t.2 = true → (∀ w c, e = .control w → writtenCommand w = some c → c.changesData = false) →
    SameData t.1.mon (t.1.step e).mon

namespace Effect

/-- The work of a call that started before: it links a record, or finds one to mark. -/
def Late (s : Monitor K) : Effect K → Prop
  | .link .. => True
  | .mark pid _ _ => findProcessByPid s pid ≠ none
  | .nothing | .allocate _ | .command _ | .configure _ => False

end Effect

/-- While the switch is off, no call does its work. -/
def NoneLate (s : System K) (e : Event K) : Prop :=
  s.mon.monitoringEnabled = false → ¬ (s.effect e).Late s.mon

/-- A CPU has passed the test of the switch and waits for the lock. -/
def System.Pending (s : System K) (cpu : ℕ) : Prop :=
  (∃ pid ppid comm record, s.calls cpu = some (.add pid ppid comm record)) ∨
    ∃ pid exitCode, s.calls cpu = some (.exit pid exitCode)

/-- The switch is turned off only while no CPU is past its test. -/
def StopsIdle (s : System K) : Event K → Prop
  | .control w => writtenCommand w = some .stop → ∀ cpu, ¬ s.Pending cpu
  | .tick _ | .addEnter .. | .exitEnter .. | .lock _ | .tail _ | .filter _ => True

/-! ### One step -/

/-- What is not late leaves the data alone. -/
theorem Effect.sameData {s : Monitor K} {effect : Effect K} (hlate : ¬ effect.Late s)
    (hallocate : ∀ record, effect ≠ .allocate record)
    (hcommand : ∀ w c, effect = .command w → writtenCommand w = some c → c.changesData = false) :
    SameData s (effect.apply s) := by
  cases effect with
  | nothing => exact .refl s
  | allocate record => exact absurd rfl (hallocate record)
  | link pid record => exact absurd trivial hlate
  | mark pid exitCode jiffies =>
      have hnone : findProcessByPid s pid = none := not_not.mp hlate
      rw [apply, markProcessExitLocked, hnone]
      exact .refl s
  | command w =>
      rw [apply, controlWrite_eq]
      cases hcmd : writtenCommand w with
      | none => exact .refl s
      | some c =>
          have hkeeps := hcommand w c rfl hcmd
          cases c with
          | start | stop => exact ⟨rfl, rfl, rfl, rfl⟩
          | clear | resetStats => cases hkeeps
  | configure w =>
      rw [apply, filterWrite_eq]
      exact ⟨rfl, rfl, rfl, rfl⟩

/-- What is late does not: the list has a new record, or a record is not running any
more. -/
theorem Effect.not_sameData {s : System K} (h : s.Consistent) {e : Event K}
    (hlate : (s.effect e).Late s.mon) : ¬ SameData s.mon ((s.effect e).apply s.mon) := by
  intro hsame
  cases heffect : s.effect e with
  | link pid record =>
      obtain ⟨cpu, ppid, comm, -, hcall⟩ := System.effect_eq_link heffect
      have hlist := hsame.processList
      rw [heffect, apply, h.accounted.addProcessRecordLocked_processList] at hlist
      apply (h.waits hcall).2.1
      rw [← hlist, pushBounded]
      exact List.mem_append_right _ (List.mem_singleton_self _)
  | mark pid exitCode jiffies =>
      rw [heffect] at hlate
      obtain ⟨record, hfind⟩ := Option.ne_none_iff_exists'.mp hlate
      have hruns := (h.accounted.findProcessByPid_split hfind).1
      have hmem := congrFun hsame.mem record
      rw [heffect, apply, markProcessExitLocked, hfind] at hmem
      simp only [Function.update_self] at hmem
      rw [← hmem] at hruns
      have hstopped := (ProcessRecord.runs_iff.mp hruns).2
      rw [ProcessRecord.isRunning_exited] at hstopped
      cases hstopped
  | nothing | allocate | command | configure =>
      rw [heffect] at hlate
      exact hlate

/-- The schedule, and whether the module has been stopped in it. -/
structure Switched (t : System K × Bool) : Prop where
  consistent : t.1.Consistent
  switch : t.1.mon.monitoringEnabled = !t.2

theorem switch_effect (s : System K) (e : Event K) (stopped : Bool) :
    (s.effect e).switch (!stopped) = !stopWatch stopped e := by
  cases e with
  | control w =>
      rw [System.effect, Effect.switch, stopWatch]
      cases writtenCommand w with
      | none => rfl
      | some c => cases c <;> rfl
  | addEnter cpu pid ppid comm alloc =>
      rw [System.effect]
      split
      · rfl
      · split <;> rfl
  | lock cpu =>
      rw [System.effect]
      split <;> rfl
  | tick | exitEnter | tail | filter => rfl

theorem Switched.step {t : System K × Bool} (h : Switched t) (e : Event K) :
    Switched (both System.step stopWatch t e) where
  consistent := h.consistent.step e
  switch := by
    show (t.1.step e).mon.monitoringEnabled = _
    rw [System.mon_step, Effect.monitoringEnabled_apply, h.switch]
    exact switch_effect t.1 e t.2

/-- **One step.** -/
theorem quiet_iff {t : System K × Bool} (h : Switched t) (e : Event K) :
    Quiet t e ↔ NoneLate t.1 e := by
  have hstopped : t.1.mon.monitoringEnabled = false ↔ t.2 = true := by
    rw [h.switch, Bool.not_eq_false']
  rw [Quiet, NoneLate, hstopped, System.mon_step]
  apply imp_congr_right
  intro hoff
  constructor
  · intro hquiet hlate
    refine Effect.not_sameData h.consistent hlate (hquiet ?_)
    rintro w c rfl -
    exact hlate.elim
  · intro hlate hcommand
    refine Effect.sameData hlate (fun record hallocate => ?_) fun w c heffect =>
      hcommand w c (System.effect_eq_command heffect)
    rw [System.effect_eq_allocate hallocate] at hstopped
    exact absurd (hstopped.mpr hoff) (by decide)

/-! ### Stopping an idle module -/

/-- While the switch is off, no CPU is past its test. -/
def IdleWhenOff (s : System K) : Prop :=
  s.mon.monitoringEnabled = false → ∀ cpu, ¬ s.Pending cpu

/-- A CPU that leaves the lock or the tail is not past the test any more. -/
theorem pending_of_leave {s : System K} {cpu cpu' : ℕ} {call : Option (Call K)}
    (hadd : ∀ pid ppid comm record, call ≠ some (.add pid ppid comm record))
    (hexit : ∀ pid exitCode, call ≠ some (.exit pid exitCode))
    (h : System.Pending { s with calls := Function.update s.calls cpu' call } cpu) :
    s.Pending cpu := by
  by_cases heq : cpu = cpu'
  · subst heq
    simp only [System.Pending, Function.update_self] at h
    rcases h with ⟨pid, ppid, comm, record, hcall⟩ | ⟨pid, exitCode, hcall⟩
    · exact (hadd _ _ _ _ hcall).elim
    · exact (hexit _ _ hcall).elim
  · simpa only [System.Pending, Function.update_of_ne heq] using h

/-- A CPU passes the test only while the switch is on. -/
theorem pending_of_step {s : System K} (hoff : s.mon.monitoringEnabled = false) {e : Event K}
    {cpu : ℕ} (h : (s.step e).Pending cpu) : s.Pending cpu := by
  cases e with
  | tick | control | filter => exact h
  | addEnter cpu' pid ppid comm alloc =>
      rw [System.step, System.addEnter] at h
      cases hcall : s.calls cpu' with
      | some call => simpa [hcall] using h
      | none => simpa [hcall, addProcessRecordEnter, hoff] using h
  | exitEnter cpu' pid exitCode =>
      rw [System.step, System.exitEnter] at h
      cases hcall : s.calls cpu' with
      | some call => simpa [hcall] using h
      | none => simpa [hcall, hoff] using h
  | lock cpu' =>
      rw [System.step, System.lock] at h
      split at h
      · exact pending_of_leave (by simp) (by simp) h
      · exact pending_of_leave (by simp) (by simp) h
      · exact h
  | tail cpu' =>
      rw [System.step, System.tail] at h
      split at h
      · exact pending_of_leave (by simp) (by simp) h
      · exact pending_of_leave (by simp) (by simp) h
      · exact h

theorem IdleWhenOff.step {s : System K} (h : IdleWhenOff s) {e : Event K}
    (hstops : StopsIdle s e) : IdleWhenOff (s.step e) := by
  intro hoff cpu hpending
  rw [System.mon_step, Effect.monitoringEnabled_apply] at hoff
  by_cases hbefore : s.mon.monitoringEnabled = false
  · exact h hbefore cpu (pending_of_step hbefore hpending)
  · -- the step is `stop`, which moves no CPU
    cases heffect : s.effect e with
    | command w =>
        obtain rfl := System.effect_eq_command heffect
        rw [heffect, Effect.switch] at hoff
        cases hcmd : writtenCommand w with
        | none =>
            rw [hcmd] at hoff
            exact hbefore hoff
        | some c =>
            rw [hcmd] at hoff
            cases c with
            | stop => exact hstops hcmd cpu hpending
            | start => cases hoff
            | clear | resetStats => exact hbefore hoff
    | nothing | allocate | link | mark | configure =>
        rw [heffect] at hoff
        exact hbefore hoff

theorem IdleWhenOff.noneLate {s : System K} (h : IdleWhenOff s) (e : Event K) : NoneLate s e := by
  intro hoff hlate
  cases heffect : s.effect e with
  | link pid record =>
      obtain ⟨cpu, ppid, comm, -, hcall⟩ := System.effect_eq_link heffect
      exact h hoff cpu (.inl ⟨pid, ppid, comm, record, hcall⟩)
  | mark pid exitCode jiffies =>
      obtain ⟨cpu, -, hcall⟩ := System.effect_eq_mark heffect
      exact h hoff cpu (.inr ⟨pid, exitCode, hcall⟩)
  | nothing | allocate | command | configure =>
      rw [heffect] at hlate
      exact hlate

/-! ### Runs -/

/-- **The stop command.** In every schedule nothing but `clear` and `reset_stats`
changes the data between a `stop` and the next `start` exactly when no call takes the
lock in between to link a record or to mark one that it finds. That is so if every
`stop` is written while no CPU is between its test of the switch and the lock. -/
theorem stop_takes_effect_iff (K : Kernel) (es : List (Event K)) :
    (StepsMeet (both System.step stopWatch) Quiet (System.load K, false) es ↔
      StepsMeet System.step NoneLate (System.load K) es) ∧
    (StepsMeet System.step StopsIdle (System.load K) es →
      StepsMeet (both System.step stopWatch) Quiet (System.load K, false) es) := by
  have hloaded : Switched (System.load K, false) := ⟨System.consistent_load K, rfl⟩
  have hforgets : Simulation (both System.step stopWatch) (System.step (K := K)) Switched
      Prod.fst :=
    ⟨fun _ e h => h.step e, fun _ _ _ => rfl⟩
  have hiff := hforgets.stepsMeet_iff (C := Quiet) (fun _ e h => quiet_iff h e) hloaded es
  refine ⟨hiff, fun h => hiff.mpr ?_⟩
  have hidle : IdleWhenOff (System.load K) := by
    intro hoff
    cases hoff
  exact (h.throughout (fun _ _ h hstops => h.step hstops) hidle).stepsMeet
    fun _ e h => h.noneLate e

/-- A call that has passed the test adds its record after `stop` has returned. -/
theorem not_quiet_of_late_add :
    ¬ ∀ es : List (Event .x86_64),
      StepsMeet (both System.step stopWatch) Quiet (System.load .x86_64, false) es := by
  intro h
  have hlist := ((h [.addEnter 0 1 0 [] true, .control ControlCommand.stop.write, .lock 0]).2.2.1
    (by decide) fun w c he => by cases he).processList
  revert hlist
  decide

end KernelModules.CompleteMonitor
