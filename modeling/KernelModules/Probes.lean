import KernelModules.Agreement

/-!
The handlers of the fork and exit probes.

Both modules hook the entry of the fork function and of the exit function, and
both handlers describe `current`. At the entry of an exit that is the process
that ends; at the entry of a fork it is the parent, and the child, which the
module announces as created, does not exist yet. `Family` follows what the
records are meant to say: the children forked since the load that have not
exited, and the exits of such children.
-/

namespace KernelModules

open Lib

variable {K : Kernel}

/-- What a handler reads from `current`. -/
structure Task where
  pid : PidT
  parentPid : PidT
  comm : List UInt8
  exitCode : CInt
  deriving DecidableEq

/-! ### The handlers -/

namespace CompleteMonitor

/-- `pre_handler_fork`. -/
def preHandlerFork (current : Task) (jiffies : ULong K) (alloc : Bool) (s : Monitor K) :
    Monitor K × CInt :=
  (addProcessRecord current.pid current.parentPid current.comm jiffies alloc s, 0)

/-- `pre_handler_exit`. -/
def preHandlerExit (current : Task) (jiffies : ULong K) (s : Monitor K) : Monitor K × CInt :=
  (markProcessExit current.pid current.exitCode jiffies s, 0)

end CompleteMonitor

namespace ProcessMonitor

/-- `pre_handler_fork`. -/
def preHandlerFork (current : Task) (jiffies : ULong K) (alloc : Bool) (s : Monitor K) :
    Monitor K × CInt :=
  (addProcessRecord current.pid current.parentPid current.comm jiffies alloc s, 0)

/-- `pre_handler_exit`. -/
def preHandlerExit (current : Task) (jiffies : ULong K) (s : Monitor K) : Monitor K × CInt :=
  (markProcessExit current.pid jiffies s, 0)

end ProcessMonitor

/-! ### Histories of the system -/

/-- An event of the system: the fork of a child by a parent, or the exit of a
task. Either runs a probe in the context of a task. -/
inductive SystemEvent (K : Kernel)
  | fork (parent : Task) (child : PidT) (jiffies : ULong K)
  | exit (task : Task) (jiffies : ULong K)

def SystemEvent.isFork : SystemEvent K → Bool
  | .fork .. => true
  | .exit .. => false

structure Family where
  live : Finset PidT
  children : Finset PidT
  childExits : ℕ
  deriving DecidableEq

namespace Family

/-- At the load, with these processes running. -/
def start (live : Finset PidT) : Family := ⟨live, ∅, 0⟩

def step (f : Family) : SystemEvent K → Family
  | .fork _ child _ =>
      { f with live := insert child f.live, children := insert child f.children }
  | .exit task _ =>
      { live := f.live.erase task.pid
        children := f.children.erase task.pid
        childExits := f.childExits + if task.pid ∈ f.children then 1 else 0 }

/-- Live processes fork and exit, and a child gets a pid that is not live. -/
def Admits (f : Family) : SystemEvent K → Prop
  | .fork parent child _ => parent.pid ∈ f.live ∧ child ∉ f.live
  | .exit task _ => task.pid ∈ f.live

instance (f : Family) : ∀ e : SystemEvent K, Decidable (f.Admits e)
  | .fork parent child _ => inferInstanceAs (Decidable (parent.pid ∈ f.live ∧ child ∉ f.live))
  | .exit task _ => inferInstanceAs (Decidable (task.pid ∈ f.live))

/-- The running records are those of the children, one each, and the exits
counted are theirs. -/
def Described (f : Family) (runningRecords : PidT → ℕ) (exited : ℕ) : Prop :=
  (∀ pid, runningRecords pid = if pid ∈ f.children then 1 else 0) ∧ exited = f.childExits

end Family

/-- Exits before the first fork find no record, and the first fork leaves its
child without one. So a handler that records `current` describes the family
only as long as nothing is forked. -/
theorem described_iff_no_fork {σ : Type*} (probe : σ → SystemEvent K → σ)
    (runningRecords : σ → PidT → ℕ) (exited : σ → ℕ) {s : σ}
    (hempty : ∀ pid, runningRecords s pid = 0) (hexited : exited s = 0)
    (hexit : ∀ task jiffies, probe s (.exit task jiffies) = s)
    (hfork : ∀ parent child jiffies pid, pid ≠ parent.pid →
      runningRecords (probe s (.fork parent child jiffies)) pid = 0)
    {live : Finset PidT} {es : List (SystemEvent K)}
    (hadmits : StepsMeet Family.step Family.Admits (.start live) es) :
    Throughout (both probe Family.step)
        (fun st => st.2.Described (runningRecords st.1) (exited st.1)) (s, .start live) es ↔
      ∀ e ∈ es, e.isFork = false := by
  have hstart : ∀ live, (Family.start live).Described (runningRecords s) (exited s) :=
    fun live => ⟨fun pid => by simp [Family.start, hempty], hexited⟩
  induction es generalizing live with
  | nil => simpa using hstart live
  | cons e es ih =>
      cases e with
      | exit task jiffies =>
          -- nothing is recorded yet, and no child is there to exit
          have hnext : both probe Family.step (s, Family.start live) (.exit task jiffies) =
              (s, .start (live.erase task.pid)) := by
            simp [both, hexit, Family.step, Family.start]
          have hrest : StepsMeet Family.step Family.Admits (.start (live.erase task.pid)) es := by
            have htail := hadmits.2
            rwa [show (Family.start live).step (.exit task jiffies) =
              .start (live.erase task.pid) by simp [Family.step, Family.start]] at htail
          rw [throughout_cons, hnext]
          refine (and_iff_right (hstart live)).trans ((ih hrest).trans ?_)
          simp [SystemEvent.isFork]
      | fork parent child jiffies =>
          -- the parent gets the record that its child should have
          refine iff_of_false (fun h => ?_) (by simp [SystemEvent.isFork])
          obtain ⟨hparent, hchild⟩ := hadmits.1
          have hne : child ≠ parent.pid := fun heq => hchild (heq ▸ hparent)
          have hone : runningRecords (probe s (.fork parent child jiffies)) child = 1 :=
            (h.2.start.1 child).trans (if_pos (Finset.mem_insert_self ..))
          rw [hfork parent child jiffies child hne] at hone
          contradiction

/-! ### The two modules -/

/-- The module under an event, with monitoring as it is and memory to
allocate. -/
def CompleteMonitor.Monitor.probe (s : CompleteMonitor.Monitor K) :
    SystemEvent K → CompleteMonitor.Monitor K
  | .fork parent _ jiffies => (preHandlerFork parent jiffies true s).1
  | .exit task jiffies => (preHandlerExit task jiffies s).1

def ProcessMonitor.Monitor.probe (s : ProcessMonitor.Monitor K) :
    SystemEvent K → ProcessMonitor.Monitor K
  | .fork parent _ jiffies => (preHandlerFork parent jiffies true s).1
  | .exit task jiffies => (preHandlerExit task jiffies s).1

/-- How many running records of a pid the module holds. -/
def CompleteMonitor.Monitor.runningRecords (s : CompleteMonitor.Monitor K) (pid : PidT) : ℕ :=
  s.processList.countP fun record => (s.mem record).runs pid

theorem CompleteMonitor.Monitor.runningRecords_eq (s : CompleteMonitor.Monitor K) (pid : PidT) :
    s.runningRecords pid = s.records.countP (CompleteMonitor.ProcessRecord.runs pid) := by
  simp [runningRecords, records, List.countP_map, Function.comp_def]

def ProcessMonitor.Monitor.runningRecords (s : ProcessMonitor.Monitor K) (pid : PidT) : ℕ :=
  s.processList.countP (ProcessMonitor.ProcessRecord.runs pid)

/-- **What the probes record.** For every history of forks and exits since the
load, either module describes the children forked since then exactly when there
was no fork. -/
theorem probes_describe_children_iff {live : Finset PidT} {es : List (SystemEvent K)}
    (hadmits : StepsMeet Family.step Family.Admits (.start live) es) :
    (Throughout (both CompleteMonitor.Monitor.probe Family.step)
        (fun st => st.2.Described st.1.runningRecords st.1.stats.totalProcessesExited.toNat)
        (CompleteMonitor.Monitor.load K, .start live) es ↔ ∀ e ∈ es, e.isFork = false) ∧
      (Throughout (both ProcessMonitor.Monitor.probe Family.step)
        (fun st => st.2.Described st.1.runningRecords st.1.stats.totalProcessesExited.toNat)
        (ProcessMonitor.Monitor.load K, .start live) es ↔ ∀ e ∈ es, e.isFork = false) := by
  constructor
  · refine described_iff_no_fork CompleteMonitor.Monitor.probe _
      (fun s => s.stats.totalProcessesExited.toNat) (fun _ => rfl) rfl (fun _ _ => rfl)
      (fun parent child jiffies pid hne => ?_) hadmits
    have hledger := (CompleteMonitor.accounted_load K).ledger_exec
      (.add parent.pid parent.parentPid parent.comm jiffies true)
    have hrecords : ((CompleteMonitor.Monitor.load K).probe
        (.fork parent child jiffies)).records = [_] := congrArg (·.records) hledger
    rw [CompleteMonitor.Monitor.runningRecords_eq, hrecords]
    simpa [CompleteMonitor.ProcessRecord.runs_iff] using fun heq => absurd heq.symm hne
  · refine described_iff_no_fork ProcessMonitor.Monitor.probe _
      (fun s => s.stats.totalProcessesExited.toNat) (fun _ => rfl) rfl (fun _ _ => rfl)
      (fun parent child jiffies pid hne => ?_) hadmits
    have hlist : ((ProcessMonitor.Monitor.load K).probe
        (.fork parent child jiffies)).processList = [_] :=
      congrArg (·.processList) ((ProcessMonitor.counts_load K).addProcessRecord_eq ..)
    rw [ProcessMonitor.Monitor.runningRecords, hlist]
    simpa [ProcessMonitor.ProcessRecord.runs_iff] using fun heq => absurd heq.symm hne

theorem probes_describe_children_of_exit :
    (Throughout (both CompleteMonitor.Monitor.probe Family.step)
        (fun st => st.2.Described st.1.runningRecords st.1.stats.totalProcessesExited.toNat)
        (CompleteMonitor.Monitor.load .x86_64, .start {1, 2}) [.exit ⟨2, 1, [], 0⟩ 5] ↔
          ∀ e ∈ ([.exit ⟨2, 1, [], 0⟩ 5] : List (SystemEvent .x86_64)), e.isFork = false) ∧
      (Throughout (both ProcessMonitor.Monitor.probe Family.step)
        (fun st => st.2.Described st.1.runningRecords st.1.stats.totalProcessesExited.toNat)
        (ProcessMonitor.Monitor.load .x86_64, .start {1, 2}) [.exit ⟨2, 1, [], 0⟩ 5] ↔
          ∀ e ∈ ([.exit ⟨2, 1, [], 0⟩ 5] : List (SystemEvent .x86_64)), e.isFork = false) :=
  probes_describe_children_iff (by decide)

/-- One fork: the running record is the parent's, and the child has none. -/
theorem probes_misdescribe_fork :
    StepsMeet Family.step Family.Admits (.start {1})
        ([.fork ⟨1, 0, [], 0⟩ 2 0] : List (SystemEvent .x86_64)) ∧
      ¬ Throughout (both CompleteMonitor.Monitor.probe Family.step)
        (fun st => st.2.Described st.1.runningRecords st.1.stats.totalProcessesExited.toNat)
        (CompleteMonitor.Monitor.load .x86_64, .start {1}) [.fork ⟨1, 0, [], 0⟩ 2 0] ∧
      ¬ Throughout (both ProcessMonitor.Monitor.probe Family.step)
        (fun st => st.2.Described st.1.runningRecords st.1.stats.totalProcessesExited.toNat)
        (ProcessMonitor.Monitor.load .x86_64, .start {1}) [.fork ⟨1, 0, [], 0⟩ 2 0] := by
  refine ⟨by decide, fun h => ?_, fun h => ?_⟩
  · have hchild := h.last.1 2
    revert hchild
    decide
  · have hchild := h.last.1 2
    revert hchild
    decide

end KernelModules
