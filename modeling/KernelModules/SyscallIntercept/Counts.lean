import KernelModules.Lib.Increments
import KernelModules.Probes
import Mathlib.Data.Fintype.Fin

/-!
The handlers of `01_syscall_intercept.c` on any number of CPUs.

A handler counts its call and prints a line with the count. The increment is a read
and a write, and for the line the counter is read once more, before the line is stored,
so what another CPU does in between can be lost by the one and seen by the other. Every
call is printed once nevertheless, and the final value of a counter is in one of the
lines, though not always in the last.
-/

namespace KernelModules.SyscallIntercept

open Lib

variable {K : Kernel} {k : ℕ}

/-! ### The handlers -/

inductive Probe
  | fork
  | exit
  deriving DecidableEq

/-- A call of a handler, in the context of a task. -/
structure Hit where
  probe : Probe
  current : Task

/-- What a line says of the task. -/
inductive Message
  | fork (pid ppid : PidT) (comm : List UInt8)
  | exit (pid : PidT) (comm : List UInt8)
  deriving DecidableEq

def Message.probe : Message → Probe
  | .fork .. => .fork
  | .exit .. => .exit

def Hit.message (hit : Hit) : Message :=
  match hit.probe with
  | .fork => .fork hit.current.pid hit.current.parentPid hit.current.comm
  | .exit => .exit hit.current.pid hit.current.comm

/-- A line of the kernel log, with the total that it ends with. -/
structure Line (K : Kernel) where
  message : Message
  total : ULong K
  deriving DecidableEq

/-- Where a CPU is in a handler. -/
inductive Stage (K : Kernel)
  | outside
  /-- The counter has been read and not written yet. -/
  | writing (hit : Hit) (read : ULong K)
  | printing (hit : Hit)
  /-- The counter has been read for the line, which is not stored yet. -/
  | storing (hit : Hit) (total : ULong K)

/-- `fork_count` and `exit_count`, the CPUs with the calls that are still to come, and
the log. -/
structure Intercept (K : Kernel) (k : ℕ) where
  counts : Probe → ULong K
  stage : Fin k → Stage K
  hits : Fin k → List Hit
  dmesg : List (Line K)

namespace Intercept

/-- The module is loaded, and each CPU has these calls before it. -/
def start (hits : Fin k → List Hit) : Intercept K k := ⟨fun _ => 0, fun _ => .outside, hits, []⟩

def goto (s : Intercept K k) (cpu : Fin k) (stage : Stage K) : Intercept K k :=
  { s with stage := Function.update s.stage cpu stage }

/-- `pre_handler_fork` and `pre_handler_exit`, one step of a CPU. -/
def step (s : Intercept K k) (cpu : Fin k) : Intercept K k :=
  match s.stage cpu with
  | .outside =>
      match s.hits cpu with
      | [] => s
      | hit :: rest =>
          { s with hits := Function.update s.hits cpu rest }.goto cpu
            (.writing hit (s.counts hit.probe))
  | .writing hit read =>
      { s with counts := Function.update s.counts hit.probe (read + 1) }.goto cpu (.printing hit)
  | .printing hit => s.goto cpu (.storing hit (s.counts hit.probe))
  | .storing hit total =>
      { s with dmesg := s.dmesg ++ [Line.mk hit.message total] }.goto cpu .outside

/-- All calls have returned. -/
def Finished (s : Intercept K k) : Prop := ∀ cpu, s.stage cpu = .outside ∧ s.hits cpu = []

/-- The CPU is between its read and its write of a counter. -/
def Holds (s : Intercept K k) (cpu : Fin k) (probe : Probe) : Prop :=
  ∃ hit read, s.stage cpu = .writing hit read ∧ hit.probe = probe

/-- When a CPU writes a counter, no other is between its read and its write of it. -/
def WritesAlone (s : Intercept K k) (cpu : Fin k) : Prop :=
  ∀ probe, s.Holds cpu probe → ∀ other, s.Holds other probe → other = cpu

end Intercept

/-! ### The CPUs as threads that increment counters -/

def Stage.todo : Stage K → List (Option Probe)
  | .outside => []
  | .writing .. | .printing _ => [none, none]
  | .storing .. => [none]

def Stage.held : Stage K → Option (Probe × ULong K)
  | .writing hit read => some (hit.probe, read)
  | .outside | .printing _ | .storing .. => none

/-- The increment of a call, and the two steps in which it prints its line. -/
def Hit.todo (hit : Hit) : List (Option Probe) := [some hit.probe, none, none]

namespace Intercept

def shared (s : Intercept K k) : Shared (Fin k) Probe (ULong K) where
  mem := s.counts
  todo cpu := (s.stage cpu).todo ++ (s.hits cpu).flatMap Hit.todo
  held cpu := (s.stage cpu).held

theorem shared_goto (s : Intercept K k) (cpu : Fin k) (stage : Stage K) :
    (s.goto cpu stage).shared =
      { s.shared with
        todo := Function.update s.shared.todo cpu
          (stage.todo ++ (s.hits cpu).flatMap Hit.todo)
        held := Function.update s.shared.held cpu stage.held } := by
  have htodo : (s.goto cpu stage).shared.todo =
      Function.update s.shared.todo cpu (stage.todo ++ (s.hits cpu).flatMap Hit.todo) := by
    funext other
    by_cases hother : other = cpu
    · subst hother
      simp [shared, goto]
    · simp [shared, goto, hother]
  have hheld : (s.goto cpu stage).shared.held = Function.update s.shared.held cpu stage.held :=
    Function.comp_update Stage.held s.stage cpu stage
  rw [← htodo, ← hheld]
  rfl

/-- The next call of a CPU is taken from those before it. -/
theorem shared_take (s : Intercept K k) (cpu : Fin k) (rest : List Hit) :
    shared { s with hits := Function.update s.hits cpu rest } =
      { s.shared with
        todo := Function.update s.shared.todo cpu
          ((s.stage cpu).todo ++ rest.flatMap Hit.todo) } := by
  have htodo : (shared { s with hits := Function.update s.hits cpu rest }).todo =
      Function.update s.shared.todo cpu ((s.stage cpu).todo ++ rest.flatMap Hit.todo) := by
    funext other
    by_cases hother : other = cpu
    · subst hother
      simp [shared]
    · simp [shared, hother]
  rw [← htodo]
  rfl

/-- A step that touches no counter. -/
theorem shared_skip {s s' : Intercept K k} {cpu : Fin k} {stage : Stage K}
    (hs' : s'.shared = s.shared) (hhits : s'.hits = s.hits) (hheld : (s.stage cpu).held = none)
    (hstage : stage.held = none) (htodo : (s.stage cpu).todo = none :: stage.todo) :
    (s'.goto cpu stage).shared = s.shared.step (· + 1) cpu := by
  have hsame : Function.update s.shared.held cpu none = s.shared.held :=
    Function.update_eq_self_iff.mpr hheld.symm
  have hfirst : s.shared.todo cpu = none :: (stage.todo ++ (s.hits cpu).flatMap Hit.todo) := by
    show (s.stage cpu).todo ++ _ = _
    rw [htodo, List.cons_append]
  rw [Shared.step_skip _ hheld hfirst, shared_goto, hs', hhits, hstage, hsame]

/-- **One step.** -/
theorem shared_step (s : Intercept K k) (cpu : Fin k) :
    (s.step cpu).shared = s.shared.step (· + 1) cpu := by
  have htodo : s.shared.todo cpu = (s.stage cpu).todo ++ (s.hits cpu).flatMap Hit.todo := rfl
  have hheld : s.shared.held cpu = (s.stage cpu).held := rfl
  cases hstage : s.stage cpu with
  | outside =>
      rw [hstage] at htodo hheld
      cases hhits : s.hits cpu with
      | nil =>
          rw [hhits] at htodo
          rw [Shared.step_done _ hheld htodo]
          simp only [step, hstage, hhits]
      | cons hit rest =>
          rw [hhits] at htodo
          rw [Shared.step_read _ hheld htodo]
          simp only [step, hstage, hhits, shared_goto, shared_take, Function.update_self,
            Function.update_idem]
          rfl
  | writing hit read =>
      rw [hstage] at htodo hheld
      have hsame : Function.update s.shared.todo cpu
          ([none, none] ++ (s.hits cpu).flatMap Hit.todo) = s.shared.todo :=
        Function.update_eq_self_iff.mpr htodo.symm
      rw [Shared.step_write _ hheld]
      simp only [step, hstage, shared_goto]
      show ({ s.shared with
        mem := Function.update s.counts hit.probe (read + 1)
        todo := Function.update s.shared.todo cpu ([none, none] ++ (s.hits cpu).flatMap Hit.todo)
        held := _ } : Shared (Fin k) Probe (ULong K)) = _
      rw [hsame]
      rfl
  | printing hit =>
      simp only [step, hstage]
      exact shared_skip rfl rfl (by rw [hstage]; rfl) rfl (by rw [hstage]; rfl)
  | storing hit total =>
      simp only [step, hstage]
      exact shared_skip rfl rfl (by rw [hstage]; rfl) rfl (by rw [hstage]; rfl)

theorem simulation_shared :
    Simulation (step (K := K) (k := k)) (Shared.step (· + 1)) (fun _ => True) shared :=
  ⟨fun _ _ _ => trivial, fun s cpu _ => s.shared_step cpu⟩

theorem holds_shared (s : Intercept K k) (cpu : Fin k) (probe : Probe) :
    s.shared.Holds cpu probe ↔ s.Holds cpu probe := by
  show (∃ v, (s.stage cpu).held = some (probe, v)) ↔ _
  unfold Holds
  cases s.stage cpu <;> simp [Stage.held, and_comm]

theorem writesAlone_shared (s : Intercept K k) (cpu : Fin k) :
    s.shared.WritesAlone cpu ↔ s.WritesAlone cpu := by
  simp only [Shared.WritesAlone, WritesAlone, holds_shared]

theorem Finished.shared {s : Intercept K k} (h : s.Finished) : s.shared.Finished := by
  intro cpu
  obtain ⟨hstage, hhits⟩ := h cpu
  simp [Intercept.shared, hstage, hhits, Stage.todo, Stage.held]

/-- The calls of a probe that all CPUs together make. -/
def callsOf (hits : Fin k → List Hit) (probe : Probe) : ℕ :=
  ∑ cpu, (hits cpu).countP fun hit => hit.probe = probe

theorem total_start (hits : Fin k → List Hit) (probe : Probe) :
    (start (K := K) hits).shared.total probe = callsOf hits probe := by
  refine Finset.sum_congr rfl fun cpu _ => ?_
  show ([] ++ (hits cpu).flatMap Hit.todo).count (some probe) = _
  rw [List.nil_append]
  induction hits cpu with
  | nil => rfl
  | cons hit rest ih =>
      rw [List.flatMap_cons, List.count_append, ih, List.countP_cons, Nat.add_comm]
      by_cases hprobe : hit.probe = probe
      · simp [Hit.todo, hprobe]
      · simp [Hit.todo, hprobe]

end Intercept

/-! ### The log -/

def Stage.hit : Stage K → Option Hit
  | .writing hit _ | .printing hit | .storing hit _ => some hit
  | .outside => none

namespace Intercept

/-- The calls of a CPU that have not printed their line. -/
def owed (s : Intercept K k) (cpu : Fin k) : List Hit := (s.stage cpu).hit.toList ++ s.hits cpu

/-- How often a message has been printed or is owed. -/
def accounted (s : Intercept K k) (message : Message) : ℕ :=
  (s.dmesg.map Line.message).count message +
    ∑ cpu, ((s.owed cpu).map Hit.message).count message

/-- A line of the probe ends with this total. -/
def Printed (dmesg : List (Line K)) (probe : Probe) (total : ULong K) : Prop :=
  ∃ line ∈ dmesg, line.message.probe = probe ∧ line.total = total

end Intercept

/-- The call has written the counter of the probe and has not stored its line. -/
def Stage.Wrote (probe : Probe) : Stage K → Prop
  | .printing hit | .storing hit _ => hit.probe = probe
  | .outside | .writing .. => False

/-- The line that the call is going to store ends with this value of the counter, if the
counter keeps it. -/
def Stage.Carries (probe : Probe) (value : ULong K) : Stage K → Prop
  | .printing hit => hit.probe = probe
  | .storing hit total => hit.probe = probe ∧ total = value
  | .outside | .writing .. => False

namespace Intercept

/-- The value of a counter is in a line, or on its way into one. -/
def Shown (s : Intercept K k) (probe : Probe) : Prop :=
  (∃ cpu, (s.stage cpu).Carries probe (s.counts probe)) ∨
    Printed s.dmesg probe (s.counts probe)

/-- No call of the probe has counted yet. -/
def Untouched (s : Intercept K k) (probe : Probe) : Prop :=
  (∀ cpu, ¬ (s.stage cpu).Wrote probe) ∧ ∀ line ∈ s.dmesg, line.message.probe ≠ probe

theorem Printed.append {dmesg : List (Line K)} {probe : Probe} {total : ULong K}
    (h : Printed dmesg probe total) (lines : List (Line K)) :
    Printed (dmesg ++ lines) probe total := by
  obtain ⟨line, hline, hprobe, htotal⟩ := h
  exact ⟨line, List.mem_append_left _ hline, hprobe, htotal⟩

/-- One CPU moves, and what it carries is not lost. -/
theorem Shown.move {s s' : Intercept K k} {probe : Probe} (h : s.Shown probe) {cpu : Fin k}
    {stage : Stage K} (hcounts : s'.counts probe = s.counts probe)
    (hstage : s'.stage = Function.update s.stage cpu stage)
    (hdmesg : Printed s.dmesg probe (s.counts probe) → Printed s'.dmesg probe (s.counts probe))
    (hcarries : (s.stage cpu).Carries probe (s.counts probe) →
      stage.Carries probe (s.counts probe) ∨ Printed s'.dmesg probe (s.counts probe)) :
    s'.Shown probe := by
  rw [Shown, hcounts, hstage]
  rcases h with ⟨other, hother⟩ | hprinted
  · by_cases hne : other = cpu
    · subst hne
      refine (hcarries hother).imp_left fun hnew => ⟨other, ?_⟩
      rwa [Function.update_self]
    · refine .inl ⟨other, ?_⟩
      rwa [Function.update_of_ne hne]
  · exact .inr (hdmesg hprinted)

theorem Untouched.move {s s' : Intercept K k} {probe : Probe} (h : s.Untouched probe)
    {cpu : Fin k} {stage : Stage K} (hstage : s'.stage = Function.update s.stage cpu stage)
    (hdmesg : s'.dmesg = s.dmesg) (hnew : ¬ stage.Wrote probe) : s'.Untouched probe := by
  refine ⟨fun other => ?_, hdmesg ▸ h.2⟩
  rw [hstage]
  by_cases hne : other = cpu
  · rwa [hne, Function.update_self]
  · rw [Function.update_of_ne hne]
    exact h.1 other

end Intercept

end KernelModules.SyscallIntercept
