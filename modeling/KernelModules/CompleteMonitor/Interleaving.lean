import KernelModules.CompleteMonitor.Accounting

/-!
The module on a machine with any number of CPUs.

A call in progress is in one of four places: waiting for `process_lock` with a
filled-in record, waiting for it with a pid to look up, or past the unlock with
the record its tail still consults. Entering a call, the critical section and
the tail are one step each; a write to a command file is one step; and the clock
may advance between any two. An event that is not possible where it occurs (a
CPU that is busy enters a call, an idle one takes the lock) leaves the system as
it is, so every list of events is a schedule.
-/

namespace KernelModules.CompleteMonitor

open Lib

variable {K : Kernel}

/-- Where a call stands between its steps. -/
inductive Call (K : Kernel)
  | add (pid ppid : PidT) (comm : List UInt8) (record : Addr)
  | addTail (pid ppid : PidT) (comm : List UInt8) (record : Addr)
  | exit (pid : PidT) (exitCode : CInt)
  | exitTail (pid : PidT) (exitCode : CInt) (found : Option (Addr × ULong K))

/-- The two messages the tails print. -/
inductive Printk (K : Kernel)
  | created (pid ppid : PidT) (comm : List UInt8)
  | exited (pid : PidT) (exitCode : CInt) (lifetime : ULong K)
  deriving DecidableEq

/-- The module, the clock, and the call each CPU is in. -/
structure System (K : Kernel) where
  mon : Monitor K
  jiffies : ULong K
  calls : ℕ → Option (Call K)
  dmesg : List (Printk K)

inductive Event (K : Kernel)
  | tick (d : ULong K)
  | addEnter (cpu : ℕ) (pid ppid : PidT) (comm : List UInt8) (alloc : Bool)
  | exitEnter (cpu : ℕ) (pid : PidT) (exitCode : CInt)
  | lock (cpu : ℕ)
  | tail (cpu : ℕ)
  | control (w : UserWrite)
  | filter (w : UserWrite)

namespace System

def load (K : Kernel) : System K := ⟨.load K, 0, fun _ => none, []⟩

/-- A CPU without a call enters `add_process_record`. -/
def addEnter (cpu : ℕ) (pid ppid : PidT) (comm : List UInt8) (alloc : Bool) (s : System K) :
    System K :=
  match s.calls cpu with
  | some _ => s
  | none =>
      match addProcessRecordEnter pid ppid comm s.jiffies alloc s.mon with
      | (mon, none) => { s with mon := mon }
      | (mon, some record) =>
          { s with
            mon := mon
            calls := Function.update s.calls cpu (some (.add pid ppid comm record)) }

/-- A CPU without a call enters `mark_process_exit`. -/
def exitEnter (cpu : ℕ) (pid : PidT) (exitCode : CInt) (s : System K) : System K :=
  match s.calls cpu with
  | some _ => s
  | none =>
      if s.mon.monitoringEnabled then
        { s with calls := Function.update s.calls cpu (some (.exit pid exitCode)) }
      else s

/-- The critical section of the call the CPU is in. -/
def lock (cpu : ℕ) (s : System K) : System K :=
  match s.calls cpu with
  | some (.add pid ppid comm record) =>
      { s with
        mon := addProcessRecordLocked pid record s.mon
        calls := Function.update s.calls cpu (some (.addTail pid ppid comm record)) }
  | some (.exit pid exitCode) =>
      { s with
        mon := (markProcessExitLocked pid exitCode s.jiffies s.mon).1
        calls := Function.update s.calls cpu
          (some (.exitTail pid exitCode (markProcessExitLocked pid exitCode s.jiffies s.mon).2)) }
  | _ => s

theorem lock_add {s : System K} {cpu : ℕ} {pid ppid : PidT} {comm : List UInt8} {record : Addr}
    (hcall : s.calls cpu = some (.add pid ppid comm record)) :
    s.lock cpu =
      { s with
        mon := addProcessRecordLocked pid record s.mon
        calls := Function.update s.calls cpu (some (.addTail pid ppid comm record)) } := by
  simp only [lock, hcall]

/-- The record that the tail a CPU has reached will consult. -/
def tailRecord (s : System K) (cpu : ℕ) : Option Addr :=
  match s.calls cpu with
  | some (.addTail _ _ _ record) => some record
  | some (.exitTail _ _ found) => found.map Prod.fst
  | _ => none

/-- The message of a tail, if the record it consults passes the filter. -/
def tailPrintk (s : System K) (cpu : ℕ) : List (Printk K) :=
  match s.calls cpu with
  | some (.addTail pid ppid comm record) =>
      if processMatchesFilter s.mon.filter (s.mon.mem record) then [.created pid ppid comm] else []
  | some (.exitTail pid exitCode (some (record, lifetime))) =>
      if processMatchesFilter s.mon.filter (s.mon.mem record) then
        [.exited pid exitCode lifetime]
      else []
  | _ => []

/-- The tail after the unlock: consult the filter, print, return. -/
def tail (cpu : ℕ) (s : System K) : System K :=
  match s.calls cpu with
  | some (.addTail ..) | some (.exitTail ..) =>
      { s with
        dmesg := s.dmesg ++ s.tailPrintk cpu
        calls := Function.update s.calls cpu none }
  | _ => s

def step (s : System K) : Event K → System K
  | .tick d => { s with jiffies := s.jiffies + d }
  | .addEnter cpu pid ppid comm alloc => s.addEnter cpu pid ppid comm alloc
  | .exitEnter cpu pid exitCode => s.exitEnter cpu pid exitCode
  | .lock cpu => s.lock cpu
  | .tail cpu => s.tail cpu
  | .control w => { s with mon := (controlWrite w s.mon).1 }
  | .filter w => { s with mon := (filterWrite w s.mon).1 }

/-- A call waits for the lock with this record. -/
def Waiting (s : System K) (record : Addr) : Prop :=
  ∃ cpu pid ppid comm, s.calls cpu = some (.add pid ppid comm record)

/-! ### The invariant of all schedules -/

/-- Every record is accounted for, a waiting record carries the pid its call
will hash it by, and no two calls wait with the same record. -/
structure Consistent (s : System K) : Prop where
  accounted : Accounted s.mon s.Waiting
  pid_eq : ∀ cpu pid ppid comm record, s.calls cpu = some (.add pid ppid comm record) →
    (s.mon.mem record).pid = pid
  one_cpu : ∀ cpu cpu' pid pid' ppid ppid' comm comm' record,
    s.calls cpu = some (.add pid ppid comm record) →
    s.calls cpu' = some (.add pid' ppid' comm' record) → cpu = cpu'

theorem Consistent.waits {s : System K} (h : Consistent s) {cpu : ℕ} {pid ppid : PidT}
    {comm : List UInt8} {record : Addr} (hcall : s.calls cpu = some (.add pid ppid comm record)) :
    record < s.mon.nextAddr ∧ record ∉ s.mon.processList ∧ record ∉ s.mon.freed :=
  h.accounted.waits record ⟨cpu, pid, ppid, comm, hcall⟩

theorem consistent_load (K : Kernel) : Consistent (System.load K) where
  accounted := by
    have hnone : (System.load K).Waiting = fun _ => False := by
      funext record
      simp [Waiting, load]
    rw [hnone]
    exact accounted_load K
  pid_eq := by simp [load]
  one_cpu := by simp [load]

/-- A step that starts or finishes no wait keeps the invariant when it keeps the
accounting and the pids of unlinked records. -/
theorem Consistent.congr {s s' : System K} (h : Consistent s)
    (hacc : Accounted s'.mon s.Waiting)
    (hcalls : ∀ cpu pid ppid comm record, s'.calls cpu = some (.add pid ppid comm record) ↔
      s.calls cpu = some (.add pid ppid comm record))
    (hmem : ∀ record, record ∉ s.mon.processList →
      (s'.mon.mem record).pid = (s.mon.mem record).pid) : Consistent s' where
  accounted := by
    have hwaiting : s'.Waiting = s.Waiting := by
      funext record
      simp [Waiting, hcalls]
    rwa [hwaiting]
  pid_eq cpu pid ppid comm record hcall := by
    have hcall := (hcalls ..).mp hcall
    rw [hmem record (h.waits hcall).2.1]
    exact h.pid_eq cpu pid ppid comm record hcall
  one_cpu cpu cpu' pid pid' ppid ppid' comm comm' record hcall hcall' :=
    h.one_cpu _ _ _ _ _ _ _ _ _ ((hcalls ..).mp hcall) ((hcalls ..).mp hcall')

/-! ### Which calls wait after one CPU has moved -/

/-- An idle CPU starts to wait. -/
theorem calls_enter_iff {calls : ℕ → Option (Call K)} {cpu : ℕ} (hidle : calls cpu = none)
    {pid ppid pid' ppid' : PidT} {comm comm' : List UInt8} {record record' : Addr} {cpu' : ℕ} :
    Function.update calls cpu (some (.add pid ppid comm record)) cpu' =
        some (.add pid' ppid' comm' record') ↔
      calls cpu' = some (.add pid' ppid' comm' record') ∨
        (cpu' = cpu ∧ pid = pid' ∧ ppid = ppid' ∧ comm = comm' ∧ record = record') := by
  by_cases heq : cpu' = cpu
  · subst heq
    simp [hidle]
  · simp [heq]

/-- A CPU moves to a place where it does not wait with a record. -/
theorem calls_leave_iff {calls : ℕ → Option (Call K)} {cpu : ℕ} {c : Option (Call K)}
    (hnew : ∀ pid ppid comm record, c ≠ some (.add pid ppid comm record)) {pid ppid : PidT}
    {comm : List UInt8} {record : Addr} {cpu' : ℕ} :
    Function.update calls cpu c cpu' = some (.add pid ppid comm record) ↔
      cpu' ≠ cpu ∧ calls cpu' = some (.add pid ppid comm record) := by
  by_cases heq : cpu' = cpu
  · subst heq
    rw [Function.update_self]
    exact iff_of_false (hnew _ _ _ _) fun h => h.1 rfl
  · rw [Function.update_of_ne heq]
    exact (and_iff_right heq).symm

/-- A CPU that waits with no record moves to a place where it waits with none. -/
theorem calls_update_iff {calls : ℕ → Option (Call K)} {cpu : ℕ} {c : Option (Call K)}
    (hold : ∀ pid ppid comm record, calls cpu ≠ some (.add pid ppid comm record))
    (hnew : ∀ pid ppid comm record, c ≠ some (.add pid ppid comm record))
    (cpu' : ℕ) (pid ppid : PidT) (comm : List UInt8) (record : Addr) :
    Function.update calls cpu c cpu' = some (.add pid ppid comm record) ↔
      calls cpu' = some (.add pid ppid comm record) := by
  rw [calls_leave_iff hnew, and_iff_right_iff_imp]
  rintro hcall rfl
  exact hold _ _ _ _ hcall

theorem waiting_enter {s s' : System K} {cpu : ℕ} {pid ppid : PidT} {comm : List UInt8}
    {record : Addr} (hidle : s.calls cpu = none)
    (hcalls : s'.calls = Function.update s.calls cpu (some (.add pid ppid comm record))) :
    s'.Waiting = fun other => s.Waiting other ∨ other = record := by
  funext other
  simp only [Waiting, hcalls, calls_enter_iff hidle, eq_iff_iff]
  constructor
  · rintro ⟨cpu', pid', ppid', comm', hcall | ⟨-, -, -, -, rfl⟩⟩
    · exact .inl ⟨cpu', pid', ppid', comm', hcall⟩
    · exact .inr rfl
  · rintro (⟨cpu', pid', ppid', comm', hcall⟩ | rfl)
    · exact ⟨cpu', pid', ppid', comm', .inl hcall⟩
    · exact ⟨cpu, pid, ppid, comm, .inr ⟨rfl, rfl, rfl, rfl, rfl⟩⟩

theorem Consistent.waiting_leave {s s' : System K} (h : Consistent s) {cpu : ℕ} {pid ppid : PidT}
    {comm : List UInt8} {record : Addr} (hcall : s.calls cpu = some (.add pid ppid comm record))
    {c : Option (Call K)} (hnew : ∀ pid ppid comm record, c ≠ some (.add pid ppid comm record))
    (hcalls : s'.calls = Function.update s.calls cpu c) :
    s'.Waiting = fun other => s.Waiting other ∧ other ≠ record := by
  funext other
  simp only [Waiting, hcalls, calls_leave_iff hnew, eq_iff_iff]
  constructor
  · rintro ⟨cpu', pid', ppid', comm', hne, hcall'⟩
    refine ⟨⟨cpu', pid', ppid', comm', hcall'⟩, ?_⟩
    rintro rfl
    exact hne (h.one_cpu _ _ _ _ _ _ _ _ _ hcall' hcall)
  · rintro ⟨⟨cpu', pid', ppid', comm', hcall'⟩, hne⟩
    refine ⟨cpu', pid', ppid', comm', ?_, hcall'⟩
    rintro rfl
    rw [hcall] at hcall'
    cases hcall'
    exact hne rfl

/-! ### One step -/

theorem Consistent.addEnter {s : System K} (h : Consistent s) (cpu : ℕ) (pid ppid : PidT)
    (comm : List UInt8) (alloc : Bool) : Consistent (s.addEnter cpu pid ppid comm alloc) := by
  unfold System.addEnter
  cases hidle : s.calls cpu with
  | some c => exact h
  | none =>
      rcases addProcessRecordEnter_cases pid ppid comm s.jiffies alloc s.mon with
        ⟨-, hs⟩ | ⟨-, hs⟩
      · simp only [hs]
        exact h.congr h.accounted (fun _ _ _ _ _ => Iff.rfl) fun _ _ => rfl
      · simp only [hs]
        -- the fresh address is larger than that of every call that waits already
        have hfresh : ∀ cpu' pid' ppid' comm',
            s.calls cpu' ≠ some (.add pid' ppid' comm' s.mon.nextAddr) := fun _ _ _ _ hcall =>
          absurd (h.waits hcall).1 (Nat.lt_irrefl _)
        refine ⟨?_, fun cpu' pid' ppid' comm' record hcall => ?_, ?_⟩
        · rw [waiting_enter hidle rfl]
          exact h.accounted.allocate _
        · rcases (calls_enter_iff hidle).mp hcall with hcall | ⟨-, rfl, -, -, rfl⟩
          · have hne : record ≠ s.mon.nextAddr := (h.waits hcall).1.ne
            simpa [hne] using h.pid_eq cpu' pid' ppid' comm' record hcall
          · simp [newRecord]
        · intro cpu₁ cpu₂ pid₁ pid₂ ppid₁ ppid₂ comm₁ comm₂ record hcall₁ hcall₂
          rcases (calls_enter_iff hidle).mp hcall₁ with hcall₁ | ⟨rfl, -, -, -, rfl⟩
          · rcases (calls_enter_iff hidle).mp hcall₂ with hcall₂ | ⟨-, -, -, -, rfl⟩
            · exact h.one_cpu _ _ _ _ _ _ _ _ _ hcall₁ hcall₂
            · exact absurd hcall₁ (hfresh _ _ _ _)
          · rcases (calls_enter_iff hidle).mp hcall₂ with hcall₂ | ⟨rfl, -⟩
            · exact absurd hcall₂ (hfresh _ _ _ _)
            · rfl

theorem Consistent.exitEnter {s : System K} (h : Consistent s) (cpu : ℕ) (pid : PidT)
    (exitCode : CInt) : Consistent (s.exitEnter cpu pid exitCode) := by
  unfold System.exitEnter
  cases hidle : s.calls cpu with
  | some c => exact h
  | none =>
      dsimp only
      split
      · exact h.congr h.accounted
          (calls_update_iff (by simp [hidle]) (by simp)) fun _ _ => rfl
      · exact h

theorem Consistent.lockAdd {s : System K} (h : Consistent s) {cpu : ℕ} {pid ppid : PidT}
    {comm : List UInt8} {record : Addr} (hcall : s.calls cpu = some (.add pid ppid comm record)) :
    Consistent
      { s with
        mon := addProcessRecordLocked pid record s.mon
        calls := Function.update s.calls cpu (some (.addTail pid ppid comm record)) } where
  accounted := by
    rw [h.waiting_leave hcall (by simp) rfl]
    exact h.accounted.addProcessRecordLocked ⟨cpu, pid, ppid, comm, hcall⟩
      (h.pid_eq _ _ _ _ _ hcall)
  pid_eq cpu' pid' ppid' comm' record' hcall' := by
    rw [addProcessRecordLocked_mem]
    exact h.pid_eq _ _ _ _ _ ((calls_leave_iff (by simp)).mp hcall').2
  one_cpu _ _ _ _ _ _ _ _ _ hcall₁ hcall₂ :=
    h.one_cpu _ _ _ _ _ _ _ _ _ ((calls_leave_iff (by simp)).mp hcall₁).2
      ((calls_leave_iff (by simp)).mp hcall₂).2

theorem Consistent.lock {s : System K} (h : Consistent s) (cpu : ℕ) : Consistent (s.lock cpu) := by
  unfold System.lock
  split
  · rename_i pid ppid comm record hcall
    exact h.lockAdd hcall
  · rename_i pid exitCode hcall
    exact h.congr (h.accounted.markProcessExitLocked pid exitCode s.jiffies)
      (calls_update_iff (by simp [hcall]) (by simp)) fun record _ =>
        (markProcessExitLocked_keys pid exitCode s.jiffies s.mon record).1
  · exact h

theorem Consistent.tail {s : System K} (h : Consistent s) (cpu : ℕ) : Consistent (s.tail cpu) := by
  unfold System.tail
  split
  · rename_i hcall
    exact h.congr h.accounted (calls_update_iff (by simp [hcall]) (by simp)) fun _ _ => rfl
  · rename_i hcall
    exact h.congr h.accounted (calls_update_iff (by simp [hcall]) (by simp)) fun _ _ => rfl
  · exact h

/-- **The invariant is kept by every step.** -/
theorem Consistent.step {s : System K} (h : Consistent s) (e : Event K) :
    Consistent (s.step e) := by
  cases e with
  | tick d => exact h.congr h.accounted (fun _ _ _ _ _ => Iff.rfl) fun _ _ => rfl
  | addEnter cpu pid ppid comm alloc => exact h.addEnter cpu pid ppid comm alloc
  | exitEnter cpu pid exitCode => exact h.exitEnter cpu pid exitCode
  | lock cpu => exact h.lock cpu
  | tail cpu => exact h.tail cpu
  | control w =>
      exact h.congr (h.accounted.controlWrite w) (fun _ _ _ _ _ => Iff.rfl) fun record _ => by
        rw [show (System.step s (.control w)).mon = (controlWrite w s.mon).1 from rfl,
          (h.accounted.controlWrite_frame w).1]
  | filter w =>
      exact h.congr (h.accounted.filterWrite w) (fun _ _ _ _ _ => Iff.rfl) fun record _ => by
        rw [show (System.step s (.filter w)).mon = (filterWrite w s.mon).1 from rfl,
          filterWrite_eq]

theorem consistent_run (es : List (Event K)) : Consistent (run step (load K) es) :=
  run_invariant (I := Consistent) (fun _ e h => h.step e) (consistent_load K) es

/-! ### One operation at a time is a schedule -/

/-- The events of one operation, taken by one CPU without a break. -/
def events (cpu : ℕ) (s : System K) : Op K → List (Event K)
  | .add pid ppid comm jiffies alloc =>
      [.tick (jiffies - s.jiffies), .addEnter cpu pid ppid comm alloc, .lock cpu, .tail cpu]
  | .exit pid exitCode jiffies =>
      [.tick (jiffies - s.jiffies), .exitEnter cpu pid exitCode, .lock cpu, .tail cpu]
  | .control w => [.control w]
  | .filter w => [.filter w]

/-- With all CPUs idle, the events of an operation do what the operation does,
and leave all CPUs idle. -/
theorem run_events (s : System K) (hidle : s.calls = fun _ => none) (cpu : ℕ) (op : Op K) :
    (run step s (events cpu s op)).mon = s.mon.exec op ∧
      (run step s (events cpu s op)).calls = fun _ => none := by
  have hreturn : ∀ c : Option (Call K),
      Function.update (Function.update (fun _ => none) cpu c) cpu none = fun _ => none := by
    intro c
    rw [Function.update_idem, Function.update_eq_self_iff]
  cases op with
  | add pid ppid comm jiffies alloc =>
      have hclock : s.jiffies + (jiffies - s.jiffies) = jiffies := by
        rw [BitVec.add_comm, BitVec.sub_add_cancel]
      rcases addProcessRecordEnter_cases pid ppid comm jiffies alloc s.mon with
        ⟨-, hs⟩ | ⟨-, hs⟩
      · simp [events, step, addEnter, lock, tail, Monitor.exec, addProcessRecord, hidle, hclock,
          hs]
      · simp [events, step, addEnter, lock, tail, Monitor.exec, addProcessRecord, hidle, hclock,
          hs, hreturn]
  | exit pid exitCode jiffies =>
      have hclock : s.jiffies + (jiffies - s.jiffies) = jiffies := by
        rw [BitVec.add_comm, BitVec.sub_add_cancel]
      by_cases henabled : s.mon.monitoringEnabled = true
      · simp [events, step, exitEnter, lock, tail, Monitor.exec, markProcessExit, hidle, hclock,
          henabled, hreturn]
      · simp [events, step, exitEnter, lock, tail, Monitor.exec, markProcessExit, hidle, hclock,
          henabled]
  | control w => exact ⟨rfl, hidle⟩
  | filter w => exact ⟨rfl, hidle⟩

/-- **Sequential runs are schedules.** Whatever holds of the monitor in every
schedule holds of it after every run of whole operations. -/
theorem exists_schedule (ops : List (Op K)) :
    ∃ es, (run step (load K) es).mon = run Monitor.exec (Monitor.load K) ops ∧
      (run step (load K) es).calls = fun _ => none := by
  induction ops using List.reverseRecOn with
  | nil => exact ⟨[], rfl, rfl⟩
  | append_singleton ops op ih =>
      obtain ⟨es, hmon, hidle⟩ := ih
      obtain ⟨hexec, hidle'⟩ := run_events _ hidle 0 op
      refine ⟨es ++ events 0 (run step (load K) es) op, ?_, ?_⟩
      · rw [run_append, hexec, hmon, run_concat]
      · rw [run_append, hidle']

end System

end KernelModules.CompleteMonitor
