import KernelModules.CompleteMonitor.Effects
import KernelModules.CompleteMonitor.Ledger

/-!
Schedules, one operation at a time.

A call takes effect in its critical section and a command in its write. Done one
after the other in the order in which they take effect, the critical sections and
the commands of a schedule leave the ledger that the schedule leaves, on any number
of CPUs.

The sequential module is one test away from that. A call tests `monitoring_enabled`
before it waits for the lock, and when a `stop` comes in between it does its work
all the same, where the sequential call would do nothing. As long as no call gets
the lock with monitoring off, the same operations done by the sequential module
leave the same ledger.
-/

namespace KernelModules.CompleteMonitor

open Lib

variable {K : Kernel}

/-! ### What takes effect -/

/-- What a call was made for. An add has read the clock before it waits for the
lock, an exit reads it inside. -/
inductive Request (K : Kernel)
  | add (pid ppid : PidT) (comm : List UInt8) (startTime : ULong K)
  | exit (pid : PidT) (exitCode : CInt)

/-- The operation of a request whose critical section comes at `jiffies`. -/
def Request.op (jiffies : ULong K) : Request K → Op K
  | .add pid ppid comm startTime => .add pid ppid comm startTime true
  | .exit pid exitCode => .exit pid exitCode jiffies

/-- The request that a CPU waits for the lock with. -/
def System.request (s : System K) (cpu : ℕ) : Option (Request K) :=
  match s.calls cpu with
  | some (.add pid ppid comm record) => some (.add pid ppid comm (s.mon.mem record).startTime)
  | some (.exit pid exitCode) => some (.exit pid exitCode)
  | _ => none

/-- The request of a call that passes its test in a step. -/
def System.entered (s : System K) : Event K → Option (ℕ × Request K)
  | .addEnter cpu pid ppid comm alloc =>
      if s.calls cpu = none ∧ s.mon.monitoringEnabled = true ∧ alloc = true then
        some (cpu, .add pid ppid comm s.jiffies)
      else none
  | .exitEnter cpu pid exitCode =>
      if s.calls cpu = none ∧ s.mon.monitoringEnabled = true then some (cpu, .exit pid exitCode)
      else none
  | .tick _ | .lock _ | .tail _ | .control _ | .filter _ => none

/-- What takes effect: the request of a call, at the time of its critical section,
or a command. -/
inductive Taken (K : Kernel)
  | call (cpu : ℕ) (request : Request K) (jiffies : ULong K)
  | control (w : UserWrite)
  | filter (w : UserWrite)

/-- What takes effect in a step. -/
def System.taken (s : System K) : Event K → Option (Taken K)
  | .lock cpu => (s.request cpu).map fun request => .call cpu request s.jiffies
  | .control w => some (.control w)
  | .filter w => some (.filter w)
  | .tick _ | .addEnter .. | .exitEnter .. | .tail _ => none

/-- The operation, as the sequential module is given it. -/
def Taken.op : Taken K → Op K
  | .call _ request jiffies => request.op jiffies
  | .control w => .control w
  | .filter w => .filter w

/-- The critical section of a request on the ledger. The test of
`monitoring_enabled` lies behind it. -/
def Request.onLedger (jiffies : ULong K) (l : Ledger K) : Request K → Ledger K
  | .add pid ppid comm startTime => l.add (newRecord pid ppid comm startTime)
  | .exit pid exitCode => l.markExit pid exitCode jiffies

/-- What takes effect, on the ledger. -/
def Taken.onLedger (l : Ledger K) : Taken K → Ledger K
  | .call _ request jiffies => request.onLedger jiffies l
  | .control w => l.exec (.control w)
  | .filter w => l.exec (.filter w)

/-- No call gets the lock after monitoring was turned off behind its test. -/
def System.KeepsTests (s : System K) : Event K → Prop
  | .lock cpu => (s.request cpu).isSome = true → s.mon.monitoringEnabled = true
  | .tick _ | .addEnter .. | .exitEnter .. | .tail _ | .control _ | .filter _ => True

instance (s : System K) : (e : Event K) → Decidable (s.KeepsTests e)
  | .lock cpu =>
      inferInstanceAs (Decidable ((s.request cpu).isSome = true → s.mon.monitoringEnabled = true))
  | .tick _ | .addEnter .. | .exitEnter .. | .tail _ | .control _ | .filter _ => .isTrue trivial

/-- The request that takes effect, if it is one of this CPU. -/
def Taken.requestOn (cpu : ℕ) : Taken K → Option (Request K)
  | .call cpu' request _ => if cpu' = cpu then some request else none
  | .control _ | .filter _ => none

/-- A schedule, the requests that entered, and what has taken effect. -/
structure Recording (K : Kernel) where
  sys : System K
  entered : List (ℕ × Request K)
  taken : List (Taken K)

namespace Recording

def load (K : Kernel) : Recording K := ⟨.load K, [], []⟩

def step (t : Recording K) (e : Event K) : Recording K where
  sys := t.sys.step e
  entered := t.entered ++ (t.sys.entered e).toList
  taken := t.taken ++ (t.sys.taken e).toList

/-- The operations, in the order in which they took effect. -/
def history (t : Recording K) : List (Op K) := t.taken.map Taken.op

/-- The requests that entered on a CPU, in order. -/
def enteredOn (t : Recording K) (cpu : ℕ) : List (Request K) :=
  t.entered.filterMap fun r => if r.1 = cpu then some r.2 else none

/-- The requests of a CPU that took effect, in order. -/
def takenOn (t : Recording K) (cpu : ℕ) : List (Request K) :=
  t.taken.filterMap (Taken.requestOn cpu)

end Recording

/-! ### Records that wait -/

namespace System

/-- Who waits with a record after a step has waited before it, or has just
allocated the record and filled it in. -/
theorem calls_step_add {s : System K} {e : Event K} {cpu : ℕ} {pid ppid : PidT}
    {comm : List UInt8} {record : Addr}
    (h : (s.step e).calls cpu = some (.add pid ppid comm record)) :
    s.calls cpu = some (.add pid ppid comm record) ∨
      record = s.mon.nextAddr ∧ s.effect e = .allocate (newRecord pid ppid comm s.jiffies) := by
  cases e with
  | tick d => exact .inl h
  | addEnter cpu' pid' ppid' comm' alloc =>
      rw [step, addEnter] at h
      rw [effect]
      cases hidle : s.calls cpu' with
      | some call =>
          simp only [hidle] at h
          exact .inl h
      | none =>
          rcases addProcessRecordEnter_cases pid' ppid' comm' s.jiffies alloc s.mon with
            ⟨-, hs⟩ | ⟨hon, hs⟩
          · simp only [hidle, hs] at h
            exact .inl h
          · simp only [hidle, hs] at h
            rcases (calls_enter_iff hidle).mp h with h | ⟨-, rfl, rfl, rfl, rfl⟩
            · exact .inl h
            · exact .inr ⟨rfl, if_pos hon⟩
  | exitEnter cpu' pid' exitCode =>
      rw [step, exitEnter] at h
      split at h
      · exact .inl h
      · split at h
        · exact .inl ((calls_leave_iff (by simp)).mp h).2
        · exact .inl h
  | lock cpu' =>
      rw [step, lock] at h
      split at h
      · exact .inl ((calls_leave_iff (by simp)).mp h).2
      · exact .inl ((calls_leave_iff (by simp)).mp h).2
      · exact .inl h
  | tail cpu' =>
      rw [step, tail] at h
      split at h
      · exact .inl ((calls_leave_iff (by simp)).mp h).2
      · exact .inl ((calls_leave_iff (by simp)).mp h).2
      · exact .inl h
  | control w => exact .inl h
  | filter w => exact .inl h

end System

/-- A record that waits is written to by nobody. -/
theorem Accounted.mem_apply_of_waiting {s : Monitor K} {waiting : Addr → Prop}
    (h : Accounted s waiting) {record : Addr} (hwait : waiting record) (effect : Effect K) :
    (effect.apply s).mem record = s.mem record := by
  obtain ⟨hlt, hunlinked, -⟩ := h.waits record hwait
  cases effect with
  | nothing => rfl
  | allocate fresh => exact Function.update_of_ne hlt.ne ..
  | link pid other => rw [Effect.apply, addProcessRecordLocked_mem]
  | mark pid exitCode jiffies =>
      rw [Effect.apply]
      rcases markProcessExitLocked_cases pid exitCode jiffies s with
        ⟨-, hs⟩ | ⟨marked, hfind, hs⟩
      · rw [hs]
      · have hne : record ≠ marked := by
          rintro rfl
          exact hunlinked (h.mem_of_findProcessByPid hfind)
        rw [hs]
        exact Function.update_of_ne hne ..
  | command w => rw [Effect.apply, (h.controlWrite_frame w).1]
  | configure w => rw [Effect.apply, filterWrite_eq]

/-- Every call waits with the record that it has filled in. -/
def System.Filled (s : System K) : Prop :=
  ∀ cpu pid ppid comm record, s.calls cpu = some (.add pid ppid comm record) →
    s.mon.mem record = newRecord pid ppid comm (s.mon.mem record).startTime

theorem System.filled_load (K : Kernel) : (System.load K).Filled := by
  intro cpu pid ppid comm record hcall
  cases hcall

theorem System.Filled.step {s : System K} (h : s.Filled) (hs : s.Consistent) (e : Event K) :
    (s.step e).Filled := by
  intro cpu pid ppid comm record hcall
  rw [mon_step]
  rcases calls_step_add hcall with hcall | ⟨rfl, heffect⟩
  · rw [hs.accounted.mem_apply_of_waiting ⟨cpu, pid, ppid, comm, hcall⟩]
    exact h cpu pid ppid comm record hcall
  · have hmem : ((s.effect e).apply s.mon).mem s.mon.nextAddr =
        newRecord pid ppid comm s.jiffies := by
      rw [heffect]
      exact Function.update_self ..
    rw [hmem]
    rfl

/-! ### Effects on the ledger -/

/-- The critical section of an add adds the record to the ledger. -/
theorem Indexed.ledger_addProcessRecordLocked {s : Monitor K} (h : Indexed s) (pid : PidT)
    (record : Addr) :
    (CompleteMonitor.addProcessRecordLocked pid record s).ledger =
      s.ledger.add (s.mem record) := by
  obtain ⟨hstats, hfilter, henabled⟩ := addProcessRecordLocked_frame pid record s
  rw [Monitor.ledger, Monitor.records, h.addProcessRecordLocked_processList, map_pushBounded,
    addProcessRecordLocked_mem, hstats, hfilter, henabled]
  rfl

theorem Linked.ledger_controlWrite {s : Monitor K} (h : Linked s) (w : UserWrite) :
    (controlWrite w s).1.ledger = s.ledger.exec (.control w) := by
  rw [controlWrite_eq, Ledger.exec]
  cases writtenCommand w with
  | none => rfl
  | some c =>
      cases c with
      | clear =>
          simp only [runControl, h.clearRecords_eq]
          rfl
      | start | stop | resetStats => rfl

theorem ledger_filterWrite (w : UserWrite) (s : Monitor K) :
    (filterWrite w s).1.ledger = s.ledger.exec (.filter w) := by
  rw [Ledger.exec, filterWrite]
  cases w.copy 128 <;> rfl

/-- A record that is allocated is in no list yet. -/
theorem Stored.ledger_allocate {s : Monitor K} (h : Stored s) (record : ProcessRecord K) :
    (Effect.apply s (.allocate record)).ledger = s.ledger := by
  have hrecords : s.processList.map (Function.update s.mem s.nextAddr record) =
      s.processList.map s.mem :=
    List.map_congr_left fun other hother => h.mem_update_nextAddr record hother
  simp only [Effect.apply, Monitor.ledger, Monitor.records, hrecords]

/-- What an effect does to the ledger. -/
def Effect.onLedger (s : Monitor K) : Effect K → Ledger K
  | .nothing | .allocate _ => s.ledger
  | .link _ record => s.ledger.add (s.mem record)
  | .mark pid exitCode jiffies => s.ledger.markExit pid exitCode jiffies
  | .command w => s.ledger.exec (.control w)
  | .configure w => s.ledger.exec (.filter w)

theorem Accounted.ledger_apply {s : Monitor K} {waiting : Addr → Prop} (h : Accounted s waiting)
    (effect : Effect K) : (effect.apply s).ledger = effect.onLedger s := by
  cases effect with
  | nothing => rfl
  | allocate record => exact h.ledger_allocate record
  | link pid record => exact h.ledger_addProcessRecordLocked pid record
  | mark pid exitCode jiffies => exact h.ledger_markProcessExitLocked pid exitCode jiffies
  | command w => exact h.ledger_controlWrite w
  | configure w => exact ledger_filterWrite w s

/-! ### One step on the ledger -/

/-- With monitoring on, the sequential operation does what takes effect. -/
theorem Taken.exec_op {l : Ledger K} {taken : Taken K}
    (h : ∀ cpu request jiffies, taken = .call cpu request jiffies → l.monitoringEnabled = true) :
    l.exec taken.op = taken.onLedger l := by
  cases taken with
  | call cpu request jiffies =>
      have hon := h cpu request jiffies rfl
      cases request with
      | add pid ppid comm startTime => exact if_pos (by simp [hon])
      | exit pid exitCode => exact Ledger.exec_exit_of_enabled hon pid exitCode jiffies
  | control w => rfl
  | filter w => rfl

namespace System

/-- **One step** does to the ledger what takes effect in it. -/
theorem ledger_step {s : System K} (hs : s.Consistent) (hfilled : s.Filled) (e : Event K) :
    (s.step e).mon.ledger = run Taken.onLedger s.mon.ledger (s.taken e).toList := by
  rw [mon_step, hs.accounted.ledger_apply]
  cases e with
  | tick d => rfl
  | addEnter cpu pid ppid comm alloc =>
      rw [effect]
      split
      · rfl
      · split <;> rfl
  | exitEnter cpu pid exitCode => rfl
  | lock cpu =>
      rw [effect, taken, request]
      cases hcall : s.calls cpu with
      | none => rfl
      | some call =>
          cases call with
          | add pid ppid comm record =>
              exact congrArg s.mon.ledger.add (hfilled cpu pid ppid comm record hcall)
          | exit | addTail | exitTail => rfl
  | tail cpu => rfl
  | control w => rfl
  | filter w => rfl

/-- A step that keeps the tests does what the sequential operation does. -/
theorem KeepsTests.exec_step {s : System K} {e : Event K} (h : s.KeepsTests e) :
    run Ledger.exec s.mon.ledger ((s.taken e).toList.map Taken.op) =
      run Taken.onLedger s.mon.ledger (s.taken e).toList := by
  cases htaken : s.taken e with
  | none => rfl
  | some taken =>
      refine Taken.exec_op fun cpu request jiffies hcall => ?_
      subst hcall
      cases e with
      | lock cpu' =>
          obtain ⟨request', hrequest, -⟩ := Option.map_eq_some_iff.mp htaken
          exact h (Option.isSome_of_eq_some hrequest)
      | tick | addEnter | exitEnter | tail | control | filter => simp [System.taken] at htaken

/-! ### Every request once, in the order of its CPU -/

/-- A CPU that stays where it is waits with the same request. -/
theorem request_step {s : System K} (hs : s.Consistent) {e : Event K} {cpu : ℕ}
    (hcalls : (s.step e).calls cpu = s.calls cpu) : (s.step e).request cpu = s.request cpu := by
  rw [request, request, hcalls, mon_step]
  cases hcall : s.calls cpu with
  | none => rfl
  | some call =>
      cases call with
      | add pid ppid comm record =>
          have hmem := hs.accounted.mem_apply_of_waiting ⟨cpu, pid, ppid, comm, hcall⟩ (s.effect e)
          dsimp only
          rw [hmem]
      | addTail | exit | exitTail => rfl

/-- The request of this CPU that enters in a step. -/
def enteredOn (s : System K) (e : Event K) (cpu : ℕ) : Option (Request K) :=
  (s.entered e).bind fun r => if r.1 = cpu then some r.2 else none

/-- The request of this CPU that takes effect in a step. -/
def takenOn (s : System K) (e : Event K) (cpu : ℕ) : Option (Request K) :=
  (s.taken e).bind (Taken.requestOn cpu)

/-- What waited and what enters is what takes effect and what waits then. -/
def Balanced (s : System K) (e : Event K) (cpu : ℕ) : Prop :=
  (s.request cpu).toList ++ (s.enteredOn e cpu).toList =
    (s.takenOn e cpu).toList ++ ((s.step e).request cpu).toList

theorem balanced_of_stay {s : System K} (hs : s.Consistent) {e : Event K} {cpu : ℕ}
    (hcalls : (s.step e).calls cpu = s.calls cpu) (hentered : s.enteredOn e cpu = none)
    (htaken : s.takenOn e cpu = none) : s.Balanced e cpu := by
  rw [Balanced, request_step hs hcalls, hentered, htaken]
  exact List.append_nil _

theorem balanced_addEnter {s : System K} (hs : s.Consistent) (cpu' : ℕ)
    (pid ppid : PidT) (comm : List UInt8) (alloc : Bool) (cpu : ℕ) :
    s.Balanced (.addEnter cpu' pid ppid comm alloc) cpu := by
  cases hidle : s.calls cpu' with
  | some call =>
      refine balanced_of_stay hs ?_ ?_ rfl
      · simp only [step, addEnter, hidle]
      · simp only [enteredOn, entered, hidle]
        rfl
  | none =>
      rcases addProcessRecordEnter_cases pid ppid comm s.jiffies alloc s.mon with
        ⟨hoff, hs'⟩ | ⟨hon, hs'⟩
      · refine balanced_of_stay hs ?_ ?_ rfl
        · simp only [step, addEnter, hidle, hs']
        · have hoff' : ¬(s.mon.monitoringEnabled = true ∧ alloc = true) := by simpa using hoff
          simp only [enteredOn, entered, hidle, true_and, hoff', if_false]
          rfl
      · have hon' : s.mon.monitoringEnabled = true ∧ alloc = true := by simpa using hon
        have hentered : s.entered (.addEnter cpu' pid ppid comm alloc) =
            some (cpu', .add pid ppid comm s.jiffies) := if_pos ⟨hidle, hon'⟩
        by_cases hcpu : cpu = cpu'
        · subst hcpu
          simp [Balanced, enteredOn, takenOn, taken, hentered, step, addEnter, request, hidle,
            hs', newRecord]
        · refine balanced_of_stay hs ?_ ?_ rfl
          · simp only [step, addEnter, hidle, hs']
            exact Function.update_of_ne hcpu ..
          · simp only [enteredOn, hentered, Option.bind_some, if_neg (Ne.symm hcpu)]

theorem balanced_exitEnter {s : System K} (hs : s.Consistent) (cpu' : ℕ) (pid : PidT)
    (exitCode : CInt) (cpu : ℕ) : s.Balanced (.exitEnter cpu' pid exitCode) cpu := by
  by_cases hpass : s.calls cpu' = none ∧ s.mon.monitoringEnabled = true
  · have hentered : s.entered (.exitEnter cpu' pid exitCode) =
        some (cpu', .exit pid exitCode) := if_pos hpass
    by_cases hcpu : cpu = cpu'
    · subst hcpu
      simp [Balanced, enteredOn, takenOn, taken, hentered, step, exitEnter, request, hpass.1,
        hpass.2]
    · refine balanced_of_stay hs ?_ ?_ rfl
      · simp only [step, exitEnter, hpass.1, hpass.2]
        exact Function.update_of_ne hcpu ..
      · simp only [enteredOn, hentered, Option.bind_some, if_neg (Ne.symm hcpu)]
  · refine balanced_of_stay hs ?_ ?_ rfl
    · rw [step, exitEnter]
      split
      · rfl
      · rename_i hidle
        rw [if_neg fun hon => hpass ⟨hidle, hon⟩]
    · simp only [enteredOn, entered, if_neg hpass]
      rfl

theorem balanced_lock {s : System K} (hs : s.Consistent) (cpu' cpu : ℕ) :
    s.Balanced (.lock cpu') cpu := by
  by_cases hcpu : cpu = cpu'
  · subst hcpu
    have htaken : s.takenOn (.lock cpu) cpu = s.request cpu := by
      rw [takenOn, taken]
      cases s.request cpu with
      | none => rfl
      | some request => exact if_pos rfl
    have hdone : (s.step (.lock cpu)).request cpu = none := by
      rw [request, step, lock]
      cases hcall : s.calls cpu with
      | none => simp [hcall]
      | some call => cases call <;> simp [hcall]
    rw [Balanced, htaken, hdone]
    rfl
  · refine balanced_of_stay hs ?_ rfl ?_
    · rw [step, lock]
      split
      · exact Function.update_of_ne hcpu ..
      · exact Function.update_of_ne hcpu ..
      · rfl
    · rw [takenOn, taken]
      cases s.request cpu' with
      | none => rfl
      | some request => exact if_neg (Ne.symm hcpu)

theorem balanced_tail {s : System K} (hs : s.Consistent) (cpu' cpu : ℕ) :
    s.Balanced (.tail cpu') cpu := by
  by_cases hcpu : cpu = cpu'
  · subst hcpu
    have hrequest : (s.step (.tail cpu)).request cpu = s.request cpu := by
      rw [request, request, step, tail]
      cases hcall : s.calls cpu with
      | none => simp [hcall]
      | some call => cases call <;> simp [hcall]
    rw [Balanced, hrequest]
    exact List.append_nil _
  · refine balanced_of_stay hs ?_ rfl rfl
    rw [step, tail]
    split
    · exact Function.update_of_ne hcpu ..
    · exact Function.update_of_ne hcpu ..
    · rfl

/-- **One step** loses no request and repeats none. -/
theorem balanced {s : System K} (hs : s.Consistent) (e : Event K) (cpu : ℕ) :
    s.Balanced e cpu := by
  cases e with
  | tick d => exact balanced_of_stay hs rfl rfl rfl
  | addEnter cpu' pid ppid comm alloc => exact balanced_addEnter hs cpu' pid ppid comm alloc cpu
  | exitEnter cpu' pid exitCode => exact balanced_exitEnter hs cpu' pid exitCode cpu
  | lock cpu' => exact balanced_lock hs cpu' cpu
  | tail cpu' => exact balanced_tail hs cpu' cpu
  | control w => exact balanced_of_stay hs rfl rfl rfl
  | filter w => exact balanced_of_stay hs rfl rfl rfl

end System

/-! ### Whole schedules -/

namespace Recording

/-- The ledger is that of what has taken effect, and every request that entered has
taken effect or waits. -/
structure Sound (t : Recording K) : Prop where
  consistent : t.sys.Consistent
  filled : t.sys.Filled
  ledger : t.sys.mon.ledger = run Taken.onLedger (Ledger.load K) t.taken
  requests : ∀ cpu, t.enteredOn cpu = t.takenOn cpu ++ (t.sys.request cpu).toList

theorem sound_load (K : Kernel) : Sound (load K) :=
  ⟨System.consistent_load K, System.filled_load K, rfl, fun _ => rfl⟩

theorem filterMap_concat_toList {α β : Type*} (f : α → Option β) (l : List α) (o : Option α) :
    (l ++ o.toList).filterMap f = l.filterMap f ++ (o.bind f).toList := by
  rw [List.filterMap_append]
  congr 1
  cases o with
  | none => rfl
  | some a => cases h : f a <;> simp [h]

theorem enteredOn_step (t : Recording K) (e : Event K) (cpu : ℕ) :
    (t.step e).enteredOn cpu = t.enteredOn cpu ++ (t.sys.enteredOn e cpu).toList :=
  filterMap_concat_toList ..

theorem takenOn_step (t : Recording K) (e : Event K) (cpu : ℕ) :
    (t.step e).takenOn cpu = t.takenOn cpu ++ (t.sys.takenOn e cpu).toList :=
  filterMap_concat_toList ..

theorem Sound.step {t : Recording K} (h : t.Sound) (e : Event K) : (t.step e).Sound where
  consistent := h.consistent.step e
  filled := h.filled.step h.consistent e
  ledger := by
    have hone := System.ledger_step h.consistent h.filled e
    rw [h.ledger, ← run_append] at hone
    exact hone
  requests cpu := by
    have hone := System.balanced h.consistent e cpu
    rw [enteredOn_step, takenOn_step, h.requests cpu, List.append_assoc, List.append_assoc]
    exact congrArg _ hone

theorem sound_run (es : List (Event K)) : Sound (run step (load K) es) :=
  run_invariant (I := Sound) (fun _ e h => h.step e) (sound_load K) es

theorem sys_run (es : List (Event K)) :
    (run step (load K) es).sys = run System.step (System.load K) es := by
  induction es using List.reverseRecOn with
  | nil => rfl
  | append_singleton es e ih => rw [run_concat, run_concat, ← ih, step]

/-- In a schedule that keeps the tests, the ledger is that of the history. -/
theorem ledger_history {es : List (Event K)}
    (h : StepsMeet System.step System.KeepsTests (System.load K) es) :
    run Ledger.exec (Ledger.load K) (run step (load K) es).history =
      (run step (load K) es).sys.mon.ledger := by
  induction es using List.reverseRecOn with
  | nil => rfl
  | append_singleton es e ih =>
      obtain ⟨hbefore, hkeeps, -⟩ := stepsMeet_append.mp h
      rw [← sys_run] at hkeeps
      have hsound := sound_run (K := K) es
      have hone := System.ledger_step hsound.consistent hsound.filled e
      rw [run_concat, history, step, List.map_append, run_append, ← history, ih hbefore,
        hkeeps.exec_step]
      exact hone.symm

end Recording

/-- **Any number of CPUs, one operation at a time.** After every schedule the ledger
is the one that the critical sections and the commands leave, done one after the other
in the order in which they took effect. If no call got the lock after monitoring was
turned off behind its test, it is the one that the sequential module has after the same
operations. And on every CPU the requests that entered are, in order, those that took
effect and the one that still waits. -/
theorem schedules_linearizable (es : List (Event K)) :
    let t := run Recording.step (Recording.load K) es
    let s := run System.step (System.load K) es
    s.mon.ledger = run Taken.onLedger (Ledger.load K) t.taken ∧
      (StepsMeet System.step System.KeepsTests (System.load K) es →
        s.mon.ledger = (run Monitor.exec (Monitor.load K) t.history).ledger) ∧
      ∀ cpu, t.enteredOn cpu = t.takenOn cpu ++ (s.request cpu).toList := by
  have hsound := Recording.sound_run es
  rw [← Recording.sys_run]
  refine ⟨hsound.ledger, fun hkeeps => ?_, hsound.requests⟩
  rw [ledger_run, Recording.ledger_history hkeeps]

/-- Two adds that get the lock in the other order, an exit, and a `stop` behind them. -/
theorem linearizable_of_two_adds :
    (run System.step (System.load .x86_64)
        [.addEnter 0 1 0 [] true, .addEnter 1 2 0 [] true, .tick 5, .lock 1, .lock 0, .tail 0,
          .exitEnter 0 2 0, .tick 7, .lock 0, .control ControlCommand.stop.write]).mon.ledger =
      (run Monitor.exec (Monitor.load .x86_64)
        [.add 2 0 [] 0 true, .add 1 0 [] 0 true, .exit 2 0 12,
          .control ControlCommand.stop.write]).ledger :=
  (schedules_linearizable _).2.1 (by decide)

end KernelModules.CompleteMonitor
