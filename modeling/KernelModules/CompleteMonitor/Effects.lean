import KernelModules.CompleteMonitor.Interleaving

/-!
What a step of a schedule does to the module.

Most steps only move a CPU or the clock. The others allocate a record, link one,
mark one or carry a command, and what they change is what these functions change;
whatever is said about the module along a schedule is said about effects.
-/

namespace KernelModules.CompleteMonitor

open Lib

variable {K : Kernel}

inductive Effect (K : Kernel)
  | nothing
  | allocate (record : ProcessRecord K)
  | link (pid : PidT) (record : Addr)
  | mark (pid : PidT) (exitCode : CInt) (jiffies : ULong K)
  | command (w : UserWrite)
  | configure (w : UserWrite)

namespace Effect

/-- The module after the effect. -/
def apply (s : Monitor K) : Effect K → Monitor K
  | .nothing => s
  | .allocate record =>
      { s with nextAddr := s.nextAddr + 1, mem := Function.update s.mem s.nextAddr record }
  | .link pid record => addProcessRecordLocked pid record s
  | .mark pid exitCode jiffies => (markProcessExitLocked pid exitCode jiffies s).1
  | .command w => (controlWrite w s).1
  | .configure w => (filterWrite w s).1

end Effect

namespace System

/-- The effect of a step. -/
def effect (s : System K) : Event K → Effect K
  | .addEnter cpu pid ppid comm alloc =>
      match s.calls cpu with
      | some _ => .nothing
      | none =>
          if s.mon.monitoringEnabled && alloc then .allocate (newRecord pid ppid comm s.jiffies)
          else .nothing
  | .lock cpu =>
      match s.calls cpu with
      | some (.add pid _ _ record) => .link pid record
      | some (.exit pid exitCode) => .mark pid exitCode s.jiffies
      | _ => .nothing
  | .control w => .command w
  | .filter w => .configure w
  | .tick _ | .exitEnter .. | .tail _ => .nothing

theorem mon_step (s : System K) (e : Event K) : (s.step e).mon = (s.effect e).apply s.mon := by
  cases e with
  | tick d => rfl
  | addEnter cpu pid ppid comm alloc =>
      rw [step, addEnter, effect]
      cases s.calls cpu with
      | some call => rfl
      | none =>
          dsimp only
          rcases addProcessRecordEnter_cases pid ppid comm s.jiffies alloc s.mon with
            ⟨hoff, hs⟩ | ⟨hon, hs⟩
          · rw [hs, if_neg (by simp [hoff])]
            rfl
          · rw [hs, if_pos hon]
            rfl
  | exitEnter cpu pid exitCode =>
      rw [step, exitEnter, effect]
      split
      · rfl
      · split <;> rfl
  | lock cpu =>
      rw [step, lock, effect]
      cases s.calls cpu with
      | none => rfl
      | some call => cases call <;> rfl
  | tail cpu =>
      rw [step, tail, effect]
      split <;> rfl
  | control w => rfl
  | filter w => rfl

/-- **Which event has which effect.** -/
theorem effect_cases (s : System K) (e : Event K) :
    s.effect e = .nothing ∨
      (∃ record, s.mon.monitoringEnabled = true ∧ s.effect e = .allocate record) ∨
      (∃ cpu pid ppid comm record, e = .lock cpu ∧
        s.calls cpu = some (.add pid ppid comm record) ∧ s.effect e = .link pid record) ∨
      (∃ cpu pid exitCode, e = .lock cpu ∧ s.calls cpu = some (.exit pid exitCode) ∧
        s.effect e = .mark pid exitCode s.jiffies) ∨
      (∃ w, e = .control w ∧ s.effect e = .command w) ∨
      ∃ w, e = .filter w ∧ s.effect e = .configure w := by
  cases e with
  | addEnter cpu pid ppid comm alloc =>
      rw [effect]
      split
      · exact .inl rfl
      · split
        · rename_i hon
          exact .inr (.inl ⟨_, ((Bool.and_eq_true _ _).mp hon).1, rfl⟩)
        · exact .inl rfl
  | lock cpu =>
      rw [effect]
      cases hcall : s.calls cpu with
      | none => exact .inl rfl
      | some call =>
          cases call with
          | add pid ppid comm record =>
              exact .inr (.inr (.inl ⟨cpu, pid, ppid, comm, record, rfl, hcall, rfl⟩))
          | exit pid exitCode =>
              exact .inr (.inr (.inr (.inl ⟨cpu, pid, exitCode, rfl, hcall, rfl⟩)))
          | addTail | exitTail => exact .inl rfl
  | control w => exact .inr (.inr (.inr (.inr (.inl ⟨w, rfl, rfl⟩))))
  | filter w => exact .inr (.inr (.inr (.inr (.inr ⟨w, rfl, rfl⟩))))
  | tick | exitEnter | tail => exact .inl rfl

/-- A record is linked by the call that waits with it. -/
theorem effect_eq_link {s : System K} {e : Event K} {pid : PidT} {record : Addr}
    (h : s.effect e = .link pid record) :
    ∃ cpu ppid comm, e = .lock cpu ∧ s.calls cpu = some (.add pid ppid comm record) := by
  rcases s.effect_cases e with hs | ⟨_, -, hs⟩ | ⟨cpu, _, ppid, comm, _, he, hcall, hs⟩ |
    ⟨_, _, _, -, -, hs⟩ | ⟨_, -, hs⟩ | ⟨_, -, hs⟩ <;> cases h.symm.trans hs
  exact ⟨cpu, ppid, comm, he, hcall⟩

/-- A pid is looked up for the call that waits with it. -/
theorem effect_eq_mark {s : System K} {e : Event K} {pid : PidT} {exitCode : CInt}
    {jiffies : ULong K} (h : s.effect e = .mark pid exitCode jiffies) :
    ∃ cpu, e = .lock cpu ∧ s.calls cpu = some (.exit pid exitCode) := by
  rcases s.effect_cases e with hs | ⟨_, -, hs⟩ | ⟨_, _, _, _, _, -, -, hs⟩ |
    ⟨cpu, _, _, he, hcall, hs⟩ | ⟨_, -, hs⟩ | ⟨_, -, hs⟩ <;> cases h.symm.trans hs
  exact ⟨cpu, he, hcall⟩

/-- A record is allocated only with monitoring on. -/
theorem effect_eq_allocate {s : System K} {e : Event K} {record : ProcessRecord K}
    (h : s.effect e = .allocate record) : s.mon.monitoringEnabled = true := by
  rcases s.effect_cases e with hs | ⟨_, hon, hs⟩ | ⟨_, _, _, _, _, -, -, hs⟩ |
    ⟨_, _, _, -, -, hs⟩ | ⟨_, -, hs⟩ | ⟨_, -, hs⟩ <;> cases h.symm.trans hs
  exact hon

/-- A command to the control file is an event of its own. -/
theorem effect_eq_command {s : System K} {e : Event K} {w : UserWrite}
    (h : s.effect e = .command w) : e = .control w := by
  rcases s.effect_cases e with hs | ⟨_, -, hs⟩ | ⟨_, _, _, _, _, -, -, hs⟩ |
    ⟨_, _, _, -, -, hs⟩ | ⟨_, he, hs⟩ | ⟨_, -, hs⟩ <;> cases h.symm.trans hs
  exact he

/-- So is a write to the filter file. -/
theorem effect_eq_configure {s : System K} {e : Event K} {w : UserWrite}
    (h : s.effect e = .configure w) : e = .filter w := by
  rcases s.effect_cases e with hs | ⟨_, -, hs⟩ | ⟨_, _, _, _, _, -, -, hs⟩ |
    ⟨_, _, _, -, -, hs⟩ | ⟨_, -, hs⟩ | ⟨_, he, hs⟩ <;> cases h.symm.trans hs
  exact he

end System

/-! ### The switch and the list -/

namespace Effect

/-- The switch after the effect. -/
def switch (enabled : Bool) : Effect K → Bool
  | .command w =>
      match writtenCommand w with
      | some .start => true
      | some .stop => false
      | some .clear | some .resetStats | none => enabled
  | .nothing | .allocate _ | .link .. | .mark .. | .configure _ => enabled

theorem monitoringEnabled_apply (s : Monitor K) (effect : Effect K) :
    (effect.apply s).monitoringEnabled = effect.switch s.monitoringEnabled := by
  cases effect with
  | nothing | allocate record => rfl
  | link pid record => exact (addProcessRecordLocked_frame pid record s).2.2
  | mark pid exitCode jiffies => rw [apply, markProcessExitLocked_frame, switch]
  | command w =>
      rw [apply, controlWrite_eq, switch]
      cases writtenCommand w with
      | none => rfl
      | some c =>
          cases c with
          | start | stop | resetStats => rfl
          | clear =>
              show (clearRecords s).monitoringEnabled = _
              rw [clearRecords, foldl_unlinkRecord_frame]
  | configure w => rw [apply, filterWrite_eq, switch]

/-- The record that an effect puts at the end of the list. -/
def linked : Effect K → Option Addr
  | .link _ record => some record
  | .nothing | .allocate _ | .mark .. | .command _ | .configure _ => none

/-- Nothing else joins the list, and what stays keeps its order. -/
theorem processList_apply_sublist {s : Monitor K} (h : Indexed s) (effect : Effect K) :
    (effect.apply s).processList.Sublist (s.processList ++ effect.linked.toList) := by
  cases effect with
  | nothing | allocate record => exact List.sublist_append_left ..
  | link pid record =>
      rw [apply, h.addProcessRecordLocked_processList, pushBounded]
      apply List.Sublist.append_right
      split
      · exact List.tail_sublist _
      · exact List.Sublist.refl _
  | mark pid exitCode jiffies =>
      rw [apply, markProcessExitLocked_frame]
      exact List.sublist_append_left ..
  | command w =>
      rw [apply, controlWrite_eq]
      cases writtenCommand w with
      | none => exact List.sublist_append_left ..
      | some c =>
          cases c with
          | clear =>
              simp only [runControl, h.clearRecords_eq]
              exact List.nil_sublist _
          | start | stop | resetStats => exact List.sublist_append_left ..
  | configure w =>
      rw [apply, filterWrite_eq]
      exact List.sublist_append_left ..

end Effect

end KernelModules.CompleteMonitor
