import KernelModules.Kernel
import Mathlib.Data.Finset.Basic

/-!
The processes that the modules watch.

A process event is one call of a probe's handler, with what it reads from the
running task and from the clock. `Processes` follows the events from outside the
modules: which pids are live, and which have been started, in order.
-/

namespace KernelModules

variable {K : Kernel}

inductive ProcessEvent (K : Kernel)
  | add (pid ppid : PidT) (comm : List UInt8) (jiffies : ULong K)
  | exit (pid : PidT) (exitCode : CInt) (jiffies : ULong K)

structure Processes where
  live : Finset PidT
  added : List PidT
  deriving DecidableEq

namespace Processes

/-- Before any event. -/
def none : Processes := ⟨∅, []⟩

def step (ps : Processes) : ProcessEvent K → Processes
  | .add pid .. => { live := insert pid ps.live, added := ps.added ++ [pid] }
  | .exit pid .. => { ps with live := ps.live.erase pid }

/-- A pid is given to a new process only while no live process has it. -/
def Admits (ps : Processes) : ProcessEvent K → Prop
  | .add pid .. => pid ∉ ps.live
  | .exit .. => True

instance (ps : Processes) : ∀ e : ProcessEvent K, Decidable (ps.Admits e)
  | .add pid .. => inferInstanceAs (Decidable (pid ∉ ps.live))
  | .exit .. => .isTrue trivial

end Processes

end KernelModules
