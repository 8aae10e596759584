import KernelModules.Lib.Answers
import KernelModules.ProcInterface.Message
import KernelModules.Texts

/-!
What the info file of `03_proc_interface.c` tells.

`info_show` prints the counter, the last access and the message, and that is all that can
ever be found out about the module: whatever is read and written afterwards, two states
with the same info text give the same texts and results. What an old message left behind
the end of the present one stays hidden, also when a write faults.
-/

namespace KernelModules.ProcInterface

open Lib
open CompleteMonitor (line)

variable {K : Kernel}

/-! ### `/proc/proc_demo/info` -/

/-- `info_show`, for the name under which the module is loaded. -/
def infoShow (moduleName : List UInt8) (s : ProcData K) : List UInt8 :=
  List.flatten
    [ascii "=== Proc Interface Demo ===\n".toList,
      line "Module: " moduleName "\n",
      ascii "Version: 1.0\n".toList,
      ascii "Description: Demonstrates proc filesystem usage\n".toList,
      ascii "\nAvailable interfaces:\n".toList,
      ascii "  /proc/proc_demo/info     - This information (read-only)\n".toList,
      ascii "  /proc/proc_demo/counter  - Access counter (read/write)\n".toList,
      ascii "  /proc/proc_demo/message  - User message (read/write)\n".toList,
      ascii "  /proc/proc_demo/time     - Current time (read-only)\n".toList,
      ascii "\nCurrent status:\n".toList,
      line "  Counter: " (printInt s.counter) "\n",
      line "  Last access: " (printULong s.lastAccess) "\n",
      ascii "  Message: ".toList,
      s.userMessage.str]

/-- The text that `counter_show` prints of its two numbers. -/
def counterText (numbers : CInt × ULong K) : List UInt8 :=
  line "Access counter: " (printInt numbers.1) "\n" ++
    line "Last access time: " (printULong numbers.2) " jiffies\n"

/-! ### The files as a machine -/

inductive FileCall (K : Kernel)
  | info
  | counter (jiffies : ULong K)
  | message
  | counterWrite (w : UserWrite) (jiffies : ULong K)
  | messageWrite (w : MessageWrite)

def ProcData.serve (moduleName : List UInt8) (s : ProcData K) : FileCall K → ProcData K × Answer
  | .info => (s, .text (infoShow moduleName s))
  | .counter jiffies => ((counterShow jiffies s).1, .text (counterText (counterShow jiffies s).2))
  | .message => (s, .text (messageShow s))
  | .counterWrite w jiffies => ((counterWrite w jiffies s).1, .result (counterWrite w jiffies s).2)
  | .messageWrite w => ((messageWrite w s).1, .result (messageWrite w s).2)

/-! ### What can be seen -/

/-- The states differ at most behind the end of the message. -/
structure Alike (s s' : ProcData K) : Prop where
  counter : s.counter = s'.counter
  lastAccess : s.lastAccess = s'.lastAccess
  message : messageShow s = messageShow s'

/-- The info text tells as much. -/
theorem alike_of_infoShow_eq {moduleName : List UInt8} {s s' : ProcData K}
    (h : infoShow moduleName s = infoShow moduleName s') : Alike s s' := by
  simp only [infoShow, List.flatten_cons, List.flatten_nil, List.append_nil] at h
  iterate 10 replace h := List.append_cancel_left h
  obtain ⟨hcounter, h⟩ := line_printInt_inj (c := 10) rfl (by decide) h
  obtain ⟨haccess, h⟩ := line_printULong_inj (c := 10) rfl rfl h
  exact ⟨hcounter, haccess, List.append_cancel_left h⟩

theorem Alike.infoShow_eq {s s' : ProcData K} (h : Alike s s') (moduleName : List UInt8) :
    infoShow moduleName s = infoShow moduleName s' := by
  have hmessage : s.userMessage.str = s'.userMessage.str := h.message
  rw [infoShow, infoShow, h.counter, h.lastAccess, hmessage]

/-- A write to the counter looks at nothing. -/
theorem Alike.counterWrite {s s' : ProcData K} (h : Alike s s') (w : UserWrite)
    (jiffies : ULong K) :
    (ProcInterface.counterWrite w jiffies s).2 = (ProcInterface.counterWrite w jiffies s').2 ∧
      Alike (ProcInterface.counterWrite w jiffies s).1
        (ProcInterface.counterWrite w jiffies s').1 := by
  rw [ProcInterface.counterWrite, ProcInterface.counterWrite]
  cases w.copy 32 with
  | error e => exact ⟨rfl, h⟩
  | ok cmd =>
      dsimp only
      split
      · exact ⟨rfl, rfl, rfl, h.message⟩
      · cases scanInt (stripNewline cmd) with
        | none => exact ⟨rfl, h⟩
        | some newValue => exact ⟨rfl, rfl, rfl, h.message⟩

/-- What a write leaves in the message is shown up to what it wrote, or nothing changes. -/
theorem messageShow_messageWrite {s s' : ProcData K} (h : messageShow s = messageShow s')
    (w : MessageWrite) :
    messageShow (messageWrite w s).1 = messageShow (messageWrite w s').1 := by
  by_cases hlen : w.bytes.length < 256
  · cases hfault : w.fault with
    | none =>
        have haccepted : w.accepted = some w.bytes := if_pos ⟨hlen, hfault⟩
        rw [messageShow_accepted haccepted, messageShow_accepted haccepted]
    | some copied => rw [messageShow_fault hlen hfault, messageShow_fault hlen hfault]
  · rwa [messageWrite_of_long (Nat.not_lt.mp hlen), messageWrite_of_long (Nat.not_lt.mp hlen)]

theorem Alike.messageWrite {s s' : ProcData K} (h : Alike s s') (w : MessageWrite) :
    (ProcInterface.messageWrite w s).2 = (ProcInterface.messageWrite w s').2 ∧
      Alike (ProcInterface.messageWrite w s).1 (ProcInterface.messageWrite w s').1 := by
  have hmessage := messageShow_messageWrite h.message w
  rw [ProcInterface.messageWrite, ProcInterface.messageWrite] at hmessage ⊢
  split
  · exact ⟨rfl, h⟩
  · rename_i hlen
    rw [if_neg hlen, if_neg hlen] at hmessage
    cases hfault : w.fault with
    | none =>
        rw [hfault] at hmessage
        exact ⟨rfl, h.counter, h.lastAccess, hmessage⟩
    | some copied =>
        rw [hfault] at hmessage
        exact ⟨rfl, h.counter, h.lastAccess, hmessage⟩

theorem unseen_alike (moduleName : List UInt8) :
    Unseen (ProcData.serve (K := K) moduleName) Alike where
  answer := fun {s s'} h i => by
    cases i with
    | info => exact congrArg Answer.text (h.infoShow_eq moduleName)
    | counter jiffies =>
        have hcounter : (counterShow jiffies s).2 = (counterShow jiffies s').2 := by
          simp only [counterShow, h.counter]
        exact congrArg (fun numbers => Answer.text (counterText numbers)) hcounter
    | message => exact congrArg Answer.text h.message
    | counterWrite w jiffies => exact congrArg Answer.result (h.counterWrite w jiffies).1
    | messageWrite w => exact congrArg Answer.result (h.messageWrite w).1
  next := fun {s s'} h i => by
    cases i with
    | info | message => exact h
    | counter jiffies => exact ⟨congrArg (· + 1) h.counter, rfl, h.message⟩
    | counterWrite w jiffies => exact (h.counterWrite w jiffies).2
    | messageWrite w => exact (h.messageWrite w).2

/-- **The info file tells all.** Two states have the same info text exactly when no calls
of any files, in any order, with any faults and at any times, can tell them apart. -/
theorem info_tells_all (moduleName : List UInt8) (s s' : ProcData K) :
    infoShow moduleName s = infoShow moduleName s' ↔
      ∀ calls, answers (ProcData.serve moduleName) s calls =
        answers (ProcData.serve moduleName) s' calls := by
  have htext : infoShow moduleName s = infoShow moduleName s' ↔
      (s.serve moduleName .info).2 = (s'.serve moduleName .info).2 :=
    ⟨congrArg Answer.text, Answer.text.inj⟩
  rw [htext]
  exact (unseen_alike moduleName).answer_eq_iff fun h => alike_of_infoShow_eq (Answer.text.inj h)

end KernelModules.ProcInterface
