import KernelModules.CompleteMonitor.Store

/-!
The two command files of `05_complete_monitor.c`, and the module driven by calls
and commands one at a time.
-/

namespace KernelModules.CompleteMonitor

open Lib

variable {K : Kernel}

/-! ### `/proc/process_monitor_complete/filter` -/

/-- The field assignments of `filter_write` for a command of two words. -/
def FilterConfig.assign (longBits : ℕ) (op value : List UInt8) (filter : FilterConfig) :
    FilterConfig :=
  let number := (simpleStrtol longBits value).setWidth 32
  if strcmp op (ascii ['p', 'i', 'd']) = 0 then { filter with targetPid := number }
  else if strcmp op (ascii ['p', 'p', 'i', 'd']) = 0 then { filter with targetPpid := number }
  else if strcmp op (ascii ['c', 'o', 'm', 'm']) = 0 then
    { filter with
      targetComm :=
        (filter.targetComm.strncpy value (TASK_COMM_LEN - 1)).set (TASK_COMM_LEN - 1) 0 }
  else if strcmp op (ascii ['m', 'i', 'n', 'l', 'i', 'f', 'e']) = 0 then
    { filter with minLifetime := number }
  else if strcmp op (ascii ['m', 'a', 'x', 'l', 'i', 'f', 'e']) = 0 then
    { filter with maxLifetime := number }
  else filter

/-- What a command text does to the filter. -/
def FilterConfig.command (longBits : ℕ) (cmd : List UInt8) (filter : FilterConfig) :
    FilterConfig :=
  if strcmp cmd (ascii ['e', 'n', 'a', 'b', 'l', 'e']) = 0 then { filter with enabled := true }
  else if strcmp cmd (ascii ['d', 'i', 's', 'a', 'b', 'l', 'e']) = 0 then
    { filter with enabled := false }
  else if strcmp cmd (ascii ['r', 'e', 's', 'e', 't']) = 0 then .zero
  else
    match sscanfWords 31 63 cmd with
    | none => filter
    | some (op, value) => filter.assign longBits op value

/-- `filter_write`. -/
def filterWrite (w : UserWrite) (s : Monitor K) : Monitor K × Except Errno ℕ :=
  match w.copy 128 with
  | .error e => (s, .error e)
  | .ok cmd =>
      ({ s with filter := s.filter.command K.bitsPerLong (stripNewline cmd) },
        .ok w.bytes.length)

/-- The write that enables the filter. -/
def enableFilter : UserWrite := { bytes := ascii ['e', 'n', 'a', 'b', 'l', 'e'] ++ [10] }

theorem enabled_filterWrite_enableFilter (s : Monitor K) :
    (filterWrite enableFilter s).1.filter.enabled = true := rfl

/-! ### `/proc/process_monitor_complete/control` -/

inductive ControlCommand
  | start
  | stop
  | clear
  | resetStats
  deriving DecidableEq

/-- The text of a command. -/
def ControlCommand.text : ControlCommand → List Char
  | .start => ['s', 't', 'a', 'r', 't']
  | .stop => ['s', 't', 'o', 'p']
  | .clear => ['c', 'l', 'e', 'a', 'r']
  | .resetStats => ['r', 'e', 's', 'e', 't', '_', 's', 't', 'a', 't', 's']

/-- The chain of `strcmp` in `control_write`. -/
def controlCommand (cmd : List UInt8) : Option ControlCommand :=
  if strcmp cmd (ascii ControlCommand.start.text) = 0 then some .start
  else if strcmp cmd (ascii ControlCommand.stop.text) = 0 then some .stop
  else if strcmp cmd (ascii ControlCommand.clear.text) = 0 then some .clear
  else if strcmp cmd (ascii ControlCommand.resetStats.text) = 0 then some .resetStats
  else none

/-- The loop of the `clear` command. -/
def clearRecords (s : Monitor K) : Monitor K :=
  let s := s.processList.foldl (fun s record => unlinkRecord record s) s
  { s with recordCount := 0 }

/-- The four branches of `control_write`. -/
def runControl (s : Monitor K) : ControlCommand → Monitor K
  | .start => { s with monitoringEnabled := true }
  | .stop => { s with monitoringEnabled := false }
  | .clear => clearRecords s
  | .resetStats => { s with stats := .zero K }

/-- The command that a write to the control file carries, if the write is
accepted and its text is one. -/
def writtenCommand (w : UserWrite) : Option ControlCommand :=
  match w.copy 64 with
  | .error _ => none
  | .ok cmd => controlCommand (stripNewline cmd)

/-- The write that `echo` makes of a command. -/
def ControlCommand.write (c : ControlCommand) : UserWrite := { bytes := ascii c.text ++ [10] }

/-- Every command is taken for itself. -/
theorem writtenCommand_write (c : ControlCommand) : writtenCommand c.write = some c := by
  cases c <;> decide

/-- `control_write`. -/
def controlWrite (w : UserWrite) (s : Monitor K) : Monitor K × Except Errno ℕ :=
  match w.copy 64 with
  | .error e => (s, .error e)
  | .ok cmd =>
      (match controlCommand (stripNewline cmd) with
        | none => s
        | some c => runControl s c,
        .ok w.bytes.length)

/-! ### One operation at a time -/

/-- Whatever drives the module: a probe's call, with the value of `jiffies` it
reads and the outcome of its allocation, or a write to a command file. -/
inductive Op (K : Kernel)
  | add (pid ppid : PidT) (comm : List UInt8) (jiffies : ULong K) (alloc : Bool)
  | exit (pid : PidT) (exitCode : CInt) (jiffies : ULong K)
  | control (w : UserWrite)
  | filter (w : UserWrite)

def Monitor.exec (s : Monitor K) : Op K → Monitor K
  | .add pid ppid comm jiffies alloc => addProcessRecord pid ppid comm jiffies alloc s
  | .exit pid exitCode jiffies => markProcessExit pid exitCode jiffies s
  | .control w => (controlWrite w s).1
  | .filter w => (filterWrite w s).1

end KernelModules.CompleteMonitor
