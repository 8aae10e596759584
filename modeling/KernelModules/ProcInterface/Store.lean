import KernelModules.Kernel

/-!
The data of `03_proc_interface.c` and the files that read and write it.

`message_write` copies from user space into the message itself, so a copy that
faults half way has already changed it: the kernel keeps what it copied and
fills the rest of the range with zeros. A write to the message therefore says
where it faults, not only whether.
-/

namespace KernelModules.ProcInterface

open Lib

/-- `struct proc_data`, without the buffer that nothing reads. -/
structure ProcData (K : Kernel) where
  counter : CInt
  lastAccess : ULong K
  userMessage : CharArray 256
  deriving DecidableEq

variable {K : Kernel}

/-- The static `pdata`. -/
def ProcData.load (K : Kernel) : ProcData K where
  counter := 0
  lastAccess := 0
  userMessage := (CharArray.zero 256).memcpy (ascii "Hello from kernel!\n".toList)

/-! ### `/proc/proc_demo/counter` -/

/-- `counter_show`, with the two numbers it prints. -/
def counterShow (jiffies : ULong K) (s : ProcData K) : ProcData K × CInt × ULong K :=
  let s := { s with counter := s.counter + 1, lastAccess := jiffies }
  (s, s.counter, s.lastAccess)

/-- `counter_write`. -/
def counterWrite (w : UserWrite) (jiffies : ULong K) (s : ProcData K) :
    ProcData K × Except Errno ℕ :=
  match w.copy 32 with
  | .error e => (s, .error e)
  | .ok cmd =>
      if strcmp (stripNewline cmd) (ascii "reset".toList) = 0 then
        ({ s with counter := 0, lastAccess := jiffies }, .ok w.bytes.length)
      else
        match scanInt (stripNewline cmd) with
        | none => (s, .error .EINVAL)
        | some newValue =>
            ({ s with counter := newValue, lastAccess := jiffies }, .ok w.bytes.length)

/-! ### `/proc/proc_demo/message` -/

/-- One `write` of a message: the bytes of the user buffer and, if reading them
faults, how many were copied before. -/
structure MessageWrite where
  bytes : List UInt8
  fault : Option (Fin bytes.length)

/-- `message_write`. -/
def messageWrite (w : MessageWrite) (s : ProcData K) : ProcData K × Except Errno ℕ :=
  if 256 ≤ w.bytes.length then (s, .error .EINVAL)
  else
    match w.fault with
    | some copied =>
        ({ s with
            userMessage := s.userMessage.memcpy
              (w.bytes.take copied ++ List.replicate (w.bytes.length - copied) 0) },
          .error .EFAULT)
    | none =>
        ({ s with userMessage := (s.userMessage.memcpy w.bytes).set w.bytes.length 0 },
          .ok w.bytes.length)

/-- `message_show`. -/
def messageShow (s : ProcData K) : List UInt8 := s.userMessage.str

/-! ### Runs -/

inductive Op (K : Kernel)
  | counterShow (jiffies : ULong K)
  | counterWrite (w : UserWrite) (jiffies : ULong K)
  | messageWrite (w : MessageWrite)

def ProcData.exec (s : ProcData K) : Op K → ProcData K
  | .counterShow jiffies => (counterShow jiffies s).1
  | .counterWrite w jiffies => (counterWrite w jiffies s).1
  | .messageWrite w => (messageWrite w s).1

/-- The counter file has no effect on the message. -/
theorem userMessage_counterWrite (w : UserWrite) (jiffies : ULong K) (s : ProcData K) :
    (counterWrite w jiffies s).1.userMessage = s.userMessage := by
  unfold counterWrite
  cases w.copy 32 with
  | error e => rfl
  | ok cmd =>
      dsimp only
      split
      · rfl
      · split <;> rfl

end KernelModules.ProcInterface
