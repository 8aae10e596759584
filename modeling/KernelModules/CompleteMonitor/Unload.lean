import KernelModules.CompleteMonitor.Interleaving
import Mathlib.Data.List.Perm.Basic
import Mathlib.Data.List.Nodup

/-!
The whole life of the module, to the end of `complete_monitor_exit` or of a failed load.

The exit function goes through its statements one at a time while calls are still in
progress on other CPUs. `unregister_kprobe` returns when no handler of its probe runs
and none will; until then one may still start. `proc_remove` returns when nobody is
inside its file. Only then does the last loop free the records, by the list alone: it
leaves the hash table and the tree as they are.

A load that fails to register the exit probe takes the same way back. The fork probe
has been working until then, and what it has recorded is not freed.
-/

namespace KernelModules.CompleteMonitor

open Lib

variable {K : Kernel}

/-! ### `complete_monitor_exit` -/

/-- How a life ends: with the exit function, or with the cleanup of an init function that
has registered the fork probe and not the exit probe. -/
inductive Ending
  | exit
  | cleanup
  deriving DecidableEq

/-- The statement that the ending is at. `loaded` is before the first. -/
inductive UnloadStage
  | loaded
  | unregisterFork
  | unregisterExit
  | removeControl
  | removeFilter
  | removeProcesses
  | removeStats
  | removeDir
  | freeRecords
  | unloaded
  deriving DecidableEq

namespace UnloadStage

/-- The statement after it. The cleanup has no exit probe to unregister and no loop. -/
def next (ending : Ending) : UnloadStage → UnloadStage
  | .loaded => .unregisterFork
  | .unregisterFork => if ending = .exit then .unregisterExit else .removeControl
  | .unregisterExit => .removeControl
  | .removeControl => .removeFilter
  | .removeFilter => .removeProcesses
  | .removeProcesses => .removeStats
  | .removeStats => .removeDir
  | .removeDir => if ending = .exit then .freeRecords else .unloaded
  | .freeRecords | .unloaded => .unloaded

/-- A handler of the fork probe may still start. -/
def forkProbed : UnloadStage → Bool
  | .loaded | .unregisterFork => true
  | _ => false

/-- A handler of the exit probe may still start. -/
def exitProbed (ending : Ending) : UnloadStage → Bool
  | .loaded | .unregisterFork | .unregisterExit => ending = .exit
  | _ => false

/-- A write to the control file may still take effect. -/
def hasControl : UnloadStage → Bool
  | .loaded | .unregisterFork | .unregisterExit | .removeControl => true
  | _ => false

/-- A write to the filter file may still take effect. -/
def hasFilter : UnloadStage → Bool
  | .loaded | .unregisterFork | .unregisterExit | .removeControl | .removeFilter => true
  | _ => false

/-- What may happen beside the ending. Calls in progress always go on. -/
def allows (ending : Ending) : UnloadStage → Event K → Bool
  | stage, .addEnter .. => stage.forkProbed
  | stage, .exitEnter .. => stage.exitProbed ending
  | stage, .control _ => stage.hasControl
  | stage, .filter _ => stage.hasFilter
  | _, .tick _ | _, .lock _ | _, .tail _ => true

end UnloadStage

/-- The body of the last loop: `list_del` and `kfree`. -/
def deleteRecord (record : Addr) (s : Monitor K) : Monitor K :=
  { s with
    processList := s.processList.erase record
    freed := s.freed ++ [record] }

/-- The last loop of `complete_monitor_exit`. -/
def deleteRecords (s : Monitor K) : Monitor K :=
  s.processList.foldl (fun s record => deleteRecord record s) s

/-- Whether a call has come from the fork probe. -/
def Call.adds : Call K → Bool
  | .add .. | .addTail .. => true
  | .exit .. | .exitTail .. => false

/-- The module, the statement that its ending is at, and the two numbers of the last
message of the exit function. -/
structure Life (K : Kernel) where
  sys : System K
  stage : UnloadStage
  finalStatistics : Option (ULong K × ULong K)

inductive LifeEvent (K : Kernel)
  | sys (e : Event K)
  | advance

/-- The CPU that an event is on. -/
def Event.cpu : Event K → Option ℕ
  | .addEnter cpu .. | .exitEnter cpu .. | .lock cpu | .tail cpu => some cpu
  | .tick _ | .control _ | .filter _ => none

namespace Life

def load (K : Kernel) : Life K := ⟨.load K, .loaded, none⟩

/-- No CPU is in a call of this kind. -/
def NoneIn (nrCpus : ℕ) (adds : Bool) (s : System K) : Prop :=
  ∀ cpu < nrCpus, ∀ c ∈ s.calls cpu, c.adds ≠ adds

instance (nrCpus : ℕ) (adds : Bool) (s : System K) : Decidable (NoneIn nrCpus adds s) :=
  inferInstanceAs (Decidable (∀ cpu < nrCpus, ∀ c ∈ s.calls cpu, c.adds ≠ adds))

/-- The statement returns: the two that wait for handlers, when there are none. -/
def Returns (nrCpus : ℕ) (t : Life K) : Prop :=
  (t.stage = .unregisterFork → NoneIn nrCpus true t.sys) ∧
    (t.stage = .unregisterExit → NoneIn nrCpus false t.sys)

instance (nrCpus : ℕ) (t : Life K) : Decidable (t.Returns nrCpus) :=
  inferInstanceAs (Decidable (_ ∧ _))

/-- The ending takes its next step. -/
def advance (nrCpus : ℕ) (ending : Ending) (t : Life K) : Life K :=
  if t.Returns nrCpus then
    if t.stage = .freeRecords then
      { sys := { t.sys with mon := deleteRecords t.sys.mon }
        stage := t.stage.next ending
        finalStatistics :=
          some (t.sys.mon.stats.totalProcessesCreated, t.sys.mon.stats.totalProcessesExited) }
    else { t with stage := t.stage.next ending }
  else t

/-- One step on a machine with `nrCpus` CPUs. -/
def step (nrCpus : ℕ) (ending : Ending) (t : Life K) : LifeEvent K → Life K
  | .sys e =>
      if t.stage.allows ending e ∧ ∀ cpu ∈ e.cpu, cpu < nrCpus then
        { t with sys := t.sys.step e }
      else t
  | .advance => t.advance nrCpus ending

end Life

/-! ### Freeing by the list alone -/

theorem deleteRecords_eq (s : Monitor K) :
    deleteRecords s = { s with processList := [], freed := s.freed ++ s.processList } := by
  -- the induction is on the list the loop started with, which shrinks in step
  suffices H : ∀ l (s : Monitor K), s.processList = l →
      l.foldl (fun s record => deleteRecord record s) s =
        { s with processList := [], freed := s.freed ++ l } from H _ s rfl
  intro l
  induction l with
  | nil =>
      intro s hlist
      rw [List.foldl_nil, List.append_nil, ← hlist]
  | cons record l ih =>
      intro s hlist
      have hrest : (deleteRecord record s).processList = l := by simp [deleteRecord, hlist]
      rw [List.foldl_cons, ih _ hrest]
      simp [deleteRecord]

/-- With no call in progress, what is linked and what has been freed is what was
allocated. -/
theorem Accounted.freed_append_perm {s : Monitor K} {waiting : Addr → Prop}
    (h : Accounted s waiting) (hnone : ∀ record, ¬ waiting record) :
    (s.freed ++ s.processList).Perm (List.range s.nextAddr) := by
  have hnodup : (s.freed ++ s.processList).Nodup := by
    refine List.nodup_append.mpr ⟨h.freed_nodup, h.nodup, ?_⟩
    rintro record hfreed _ hlinked rfl
    exact h.not_freed record hlinked hfreed
  refine (List.perm_ext_iff_of_nodup hnodup List.nodup_range).mpr fun record => ?_
  rw [List.mem_append, List.mem_range]
  constructor
  · rintro (hfreed | hlinked)
    · exact h.freed_lt record hfreed
    · exact h.allocated record hlinked
  · intro hlt
    rcases h.covered record hlt with hlinked | hfreed | hwait
    · exact .inr hlinked
    · exact .inl hfreed
    · exact absurd hwait (hnone record)

/-! ### Calls in progress -/

namespace System

/-- Who is in a call after one CPU has moved. -/
theorem calls_of_update {calls : ℕ → Option (Call K)} {cpu cpu' : ℕ} {moved : Option (Call K)}
    {c : Call K} (h : Function.update calls cpu' moved cpu = some c) :
    calls cpu = some c ∨ cpu = cpu' ∧ moved = some c := by
  by_cases hcpu : cpu = cpu'
  · subst hcpu
    rw [Function.update_self] at h
    exact .inr ⟨rfl, h⟩
  · rw [Function.update_of_ne hcpu] at h
    exact .inl h

/-- Who is in a call after a step was in a call of its kind before it, or has just
entered. -/
theorem calls_step_cases {s : System K} {e : Event K} {cpu : ℕ} {c : Call K}
    (h : (s.step e).calls cpu = some c) :
    (∃ c', s.calls cpu = some c' ∧ c'.adds = c.adds) ∨
      (∃ pid ppid comm alloc, e = .addEnter cpu pid ppid comm alloc ∧ c.adds = true) ∨
      ∃ pid exitCode, e = .exitEnter cpu pid exitCode ∧ c.adds = false := by
  cases e with
  | tick d => exact .inl ⟨c, h, rfl⟩
  | addEnter cpu' pid ppid comm alloc =>
      rw [step, addEnter] at h
      split at h
      · exact .inl ⟨c, h, rfl⟩
      · split at h
        · exact .inl ⟨c, h, rfl⟩
        · rcases calls_of_update h with hold | ⟨rfl, hmoved⟩
          · exact .inl ⟨c, hold, rfl⟩
          · cases hmoved
            exact .inr (.inl ⟨pid, ppid, comm, alloc, rfl, rfl⟩)
  | exitEnter cpu' pid exitCode =>
      rw [step, exitEnter] at h
      split at h
      · exact .inl ⟨c, h, rfl⟩
      · split at h
        · rcases calls_of_update h with hold | ⟨rfl, hmoved⟩
          · exact .inl ⟨c, hold, rfl⟩
          · cases hmoved
            exact .inr (.inr ⟨pid, exitCode, rfl, rfl⟩)
        · exact .inl ⟨c, h, rfl⟩
  | lock cpu' =>
      rw [step, lock] at h
      split at h
      · rename_i hcall
        rcases calls_of_update h with hold | ⟨rfl, hmoved⟩
        · exact .inl ⟨c, hold, rfl⟩
        · cases hmoved
          exact .inl ⟨_, hcall, rfl⟩
      · rename_i hcall
        rcases calls_of_update h with hold | ⟨rfl, hmoved⟩
        · exact .inl ⟨c, hold, rfl⟩
        · cases hmoved
          exact .inl ⟨_, hcall, rfl⟩
      · exact .inl ⟨c, h, rfl⟩
  | tail cpu' =>
      rw [step, tail] at h
      split at h
      · exact .inl ⟨c, (calls_of_update h).resolve_right (by simp), rfl⟩
      · exact .inl ⟨c, (calls_of_update h).resolve_right (by simp), rfl⟩
      · exact .inl ⟨c, h, rfl⟩
  | control w => exact .inl ⟨c, h, rfl⟩
  | filter w => exact .inl ⟨c, h, rfl⟩

/-- A CPU without a call goes on without one unless it enters. -/
theorem calls_eq_none_of_step {s : System K} {e : Event K} {cpu : ℕ} (hidle : s.calls cpu = none)
    (hadd : ∀ pid ppid comm alloc, e ≠ .addEnter cpu pid ppid comm alloc)
    (hexit : ∀ pid exitCode, e ≠ .exitEnter cpu pid exitCode) : (s.step e).calls cpu = none := by
  cases hcall : (s.step e).calls cpu with
  | none => rfl
  | some c =>
      rcases calls_step_cases hcall with ⟨_, hold, -⟩ | ⟨_, _, _, _, he, -⟩ | ⟨_, _, he, -⟩
      · rw [hidle] at hold
        cases hold
      · exact (hadd _ _ _ _ he).elim
      · exact (hexit _ _ he).elim

/-- What may still happen after the unload does nothing. -/
theorem mon_step_unloaded {s : System K} (hidle : ∀ cpu, s.calls cpu = none) {e : Event K}
    (ending : Ending)
    (hallows : UnloadStage.unloaded.allows ending e = true) : (s.step e).mon = s.mon := by
  cases e with
  | tick d => rfl
  | lock cpu => simp only [step, lock, hidle cpu]
  | tail cpu => simp only [step, tail, hidle cpu]
  | addEnter | exitEnter | control | filter => cases hallows

/-- The critical section and the tail of a call are all that is left of it. -/
theorem calls_tail_lock (s : System K) (cpu : ℕ) :
    ((s.lock cpu).tail cpu).calls = Function.update s.calls cpu none := by
  cases hcall : s.calls cpu with
  | none =>
      have hsame : Function.update s.calls cpu none = s.calls :=
        Function.update_eq_self_iff.mpr hcall.symm
      simp only [lock, tail, hcall, hsame]
  | some c => cases c <;> simp [lock, tail, hcall]

end System

/-! ### What the ending can rely on -/

namespace Life

/-- Where the records are at the end of a life. -/
structure Settled (ending : Ending) (t : Life K) : Prop where
  accounted : (t.sys.mon.freed ++ t.sys.mon.processList).Perm (List.range t.sys.mon.nextAddr)
  nothing_linked : ending = .exit → t.sys.mon.processList = []
  message : ending = .exit → t.finalStatistics =
    some (t.sys.mon.stats.totalProcessesCreated, t.sys.mon.stats.totalProcessesExited)

structure Sound (nrCpus : ℕ) (ending : Ending) (t : Life K) : Prop where
  cpus : ∀ cpu, nrCpus ≤ cpu → t.sys.calls cpu = none
  noAdd : t.stage.forkProbed = false → ∀ cpu c, t.sys.calls cpu = some c → c.adds = false
  noExit : t.stage.exitProbed ending = false →
    ∀ cpu c, t.sys.calls cpu = some c → c.adds = true
  consistent : t.stage ≠ .unloaded → t.sys.Consistent
  settled : t.stage = .unloaded → t.Settled ending

variable {nrCpus : ℕ} {ending : Ending} {t : Life K}

theorem sound_load (K : Kernel) (nrCpus : ℕ) (ending : Ending) :
    Sound nrCpus ending (load K) where
  cpus _ _ := rfl
  noAdd h := by cases h
  noExit _ cpu c hcall := by cases hcall
  consistent _ := System.consistent_load K
  settled h := by cases h

/-- When both probes are gone, no call is in progress. -/
theorem Sound.idle (h : t.Sound nrCpus ending) (hfork : t.stage.forkProbed = false)
    (hexit : t.stage.exitProbed ending = false) (cpu : ℕ) : t.sys.calls cpu = none := by
  cases hcall : t.sys.calls cpu with
  | none => rfl
  | some c => exact absurd (h.noExit hexit cpu c hcall) (by simp [h.noAdd hfork cpu c hcall])

/-- So it is from the removal of the first file on. -/
theorem Sound.idle_of_removing (h : t.Sound nrCpus ending)
    (hstage : t.stage.forkProbed = false ∧ t.stage ≠ .unregisterExit) (cpu : ℕ) :
    t.sys.calls cpu = none := by
  refine h.idle hstage.1 ?_ cpu
  obtain ⟨hfork, hexit⟩ := hstage
  cases hs : t.stage with
  | loaded | unregisterFork =>
      rw [hs] at hfork
      cases hfork
  | unregisterExit => exact absurd hs hexit
  | _ => rfl

/-- With no call in progress, everything allocated is linked or freed. -/
theorem Sound.accounted (h : t.Sound nrCpus ending) (hidle : ∀ cpu, t.sys.calls cpu = none)
    (hstage : t.stage ≠ .unloaded) :
    (t.sys.mon.freed ++ t.sys.mon.processList).Perm (List.range t.sys.mon.nextAddr) := by
  refine (h.consistent hstage).accounted.freed_append_perm ?_
  rintro record ⟨cpu, pid, ppid, comm, hcall⟩
  rw [hidle cpu] at hcall
  cases hcall

theorem Sound.sys (h : t.Sound nrCpus ending) {e : Event K}
    (hallows : t.stage.allows ending e = true) (hcpu : ∀ cpu ∈ e.cpu, cpu < nrCpus) :
    Sound nrCpus ending { t with sys := t.sys.step e } := by
  refine ⟨fun cpu hle => ?_, fun hfork cpu c hcall => ?_, fun hexit cpu c hcall => ?_,
    fun hstage => (h.consistent hstage).step e, fun hstage => ?_⟩
  · -- an event on this CPU would be on one of the machine's
    refine System.calls_eq_none_of_step (h.cpus cpu hle) ?_ ?_
    · rintro pid ppid comm alloc rfl
      exact absurd (hcpu cpu rfl) (not_lt.mpr hle)
    · rintro pid exitCode rfl
      exact absurd (hcpu cpu rfl) (not_lt.mpr hle)
  · rcases System.calls_step_cases hcall with ⟨c', hold, hkind⟩ | ⟨_, _, _, _, rfl, -⟩ |
      ⟨_, _, rfl, hkind⟩
    · rw [← hkind]
      exact h.noAdd hfork cpu c' hold
    · have hprobed : t.stage.forkProbed = true := hallows
      rw [hfork] at hprobed
      cases hprobed
    · exact hkind
  · rcases System.calls_step_cases hcall with ⟨c', hold, hkind⟩ | ⟨_, _, _, _, rfl, hkind⟩ |
      ⟨_, _, rfl, -⟩
    · rw [← hkind]
      exact h.noExit hexit cpu c' hold
    · exact hkind
    · have hprobed : t.stage.exitProbed ending = true := hallows
      rw [hexit] at hprobed
      cases hprobed
  · have hidle := h.idle_of_removing (by rw [show t.stage = .unloaded from hstage]; decide)
    rw [show t.stage = .unloaded from hstage] at hallows
    have hmon := System.mon_step_unloaded hidle ending hallows
    have hsettled := h.settled hstage
    refine ⟨?_, fun hending => ?_, fun hending => ?_⟩
    · show ((t.sys.step e).mon.freed ++ (t.sys.step e).mon.processList).Perm _
      rw [hmon]
      exact hsettled.accounted
    · show (t.sys.step e).mon.processList = []
      rw [hmon]
      exact hsettled.nothing_linked hending
    · show t.finalStatistics = some ((t.sys.step e).mon.stats.totalProcessesCreated, _)
      rw [hmon]
      exact hsettled.message hending

/-- A statement that returns has seen to it that no call of its kind is left. -/
theorem Sound.noneIn (h : t.Sound nrCpus ending) {adds : Bool} (hnone : NoneIn nrCpus adds t.sys)
    (cpu : ℕ) (c : Call K) (hcall : t.sys.calls cpu = some c) : c.adds ≠ adds := by
  rcases Nat.lt_or_ge cpu nrCpus with hlt | hge
  · exact hnone cpu hlt c hcall
  · rw [h.cpus cpu hge] at hcall
    cases hcall

theorem Sound.next (h : t.Sound nrCpus ending) (hreturns : t.Returns nrCpus)
    (hstage : t.stage ≠ .freeRecords) :
    Sound nrCpus ending { t with stage := t.stage.next ending } := by
  refine ⟨h.cpus, fun hfork cpu c hcall => ?_, fun hexit cpu c hcall => ?_,
    fun hne => h.consistent fun hs => hne (by rw [hs]; rfl), fun hnext => ?_⟩
  · by_cases hs : t.stage = .unregisterFork
    · simpa using h.noneIn (hreturns.1 hs) cpu c hcall
    · refine h.noAdd ?_ cpu c hcall
      cases hs' : t.stage with
      | loaded =>
          rw [hs'] at hfork
          cases hfork
      | unregisterFork => exact absurd hs' hs
      | _ => rfl
  · by_cases hs : t.stage = .unregisterExit
    · simpa using h.noneIn (hreturns.2 hs) cpu c hcall
    · refine h.noExit ?_ cpu c hcall
      cases hs' : t.stage with
      | loaded | unregisterFork =>
          rw [hs'] at hexit
          cases ending <;> first | rfl | cases hexit
      | unregisterExit => exact absurd hs' hs
      | _ => rfl
  · cases hs : t.stage with
    | unloaded =>
        have hsettled := h.settled hs
        exact ⟨hsettled.accounted, hsettled.nothing_linked, hsettled.message⟩
    | removeDir =>
        -- the cleanup ends here
        have hidle := h.idle_of_removing (by rw [hs]; decide)
        have hending : ending ≠ .exit := by
          rintro rfl
          rw [hs] at hnext
          cases hnext
        exact ⟨h.accounted hidle (by rw [hs]; decide), fun he => absurd he hending,
          fun he => absurd he hending⟩
    | freeRecords => exact absurd hs hstage
    | unregisterFork =>
        rw [hs] at hnext
        cases ending <;> cases hnext
    | _ =>
        rw [hs] at hnext
        cases hnext

/-- The last loop frees what is linked, and with that everything is freed. -/
theorem Sound.free (h : t.Sound nrCpus ending) (hstage : t.stage = .freeRecords) :
    Sound nrCpus ending
      { sys := { t.sys with mon := deleteRecords t.sys.mon }
        stage := t.stage.next ending
        finalStatistics :=
          some (t.sys.mon.stats.totalProcessesCreated, t.sys.mon.stats.totalProcessesExited) } := by
  have hidle := h.idle_of_removing (by rw [hstage]; decide)
  have hnone : ∀ cpu c, t.sys.calls cpu ≠ some c := by simp [hidle]
  have hunloaded : t.stage.next ending = .unloaded := by rw [hstage]; rfl
  have haccounted := h.accounted hidle (by rw [hstage]; decide)
  refine ⟨h.cpus, fun _ cpu c hcall => absurd hcall (hnone cpu c),
    fun _ cpu c hcall => absurd hcall (hnone cpu c), fun hne => absurd hunloaded hne, fun _ => ?_⟩
  rw [deleteRecords_eq]
  refine ⟨?_, fun _ => rfl, fun _ => rfl⟩
  show ((t.sys.mon.freed ++ t.sys.mon.processList) ++ []).Perm _
  rwa [List.append_nil]

/-- **One step** of a life. -/
theorem Sound.step (h : t.Sound nrCpus ending) (e : LifeEvent K) :
    (t.step nrCpus ending e).Sound nrCpus ending := by
  cases e with
  | sys e =>
      rw [Life.step]
      split
      · rename_i hmay
        exact h.sys hmay.1 hmay.2
      · exact h
  | advance =>
      rw [Life.step, Life.advance]
      split
      · rename_i hreturns
        split
        · rename_i hstage
          exact h.free hstage
        · rename_i hstage
          exact h.next hreturns hstage
      · exact h

theorem sound_run (nrCpus : ℕ) (ending : Ending) (es : List (LifeEvent K)) :
    Sound nrCpus ending (run (step nrCpus ending) (load K) es) :=
  run_invariant (I := Sound nrCpus ending) (fun _ e h => h.step e) (sound_load K nrCpus ending) es

/-! ### The ending can always be finished -/

/-- The rest of the call that a CPU is in. -/
def finishCall (cpu : ℕ) : List (LifeEvent K) := [.sys (.lock cpu), .sys (.tail cpu)]

/-- The rest of all calls, and of the ending. -/
def finish (nrCpus : ℕ) : List (LifeEvent K) :=
  (List.range nrCpus).flatMap finishCall ++ List.replicate 9 .advance

theorem run_finishCall {cpu : ℕ} (hcpu : cpu < nrCpus) (ending : Ending) (t : Life K) :
    (run (step nrCpus ending) t (finishCall cpu)).sys.calls =
        Function.update t.sys.calls cpu none ∧
      (run (step nrCpus ending) t (finishCall cpu)).stage = t.stage := by
  have hlock : t.step nrCpus ending (.sys (.lock cpu)) = { t with sys := t.sys.lock cpu } :=
    if_pos ⟨rfl, by simpa [Event.cpu] using hcpu⟩
  have htail : ∀ t : Life K,
      t.step nrCpus ending (.sys (.tail cpu)) = { t with sys := t.sys.tail cpu } :=
    fun _ => if_pos ⟨rfl, by simpa [Event.cpu] using hcpu⟩
  rw [finishCall, run_cons, hlock, run_cons, htail, run_nil]
  exact ⟨t.sys.calls_tail_lock cpu, rfl⟩

theorem run_finishCalls {n : ℕ} (hn : n ≤ nrCpus) (ending : Ending) (t : Life K) :
    (∀ cpu < n,
        (run (step nrCpus ending) t ((List.range n).flatMap finishCall)).sys.calls cpu = none) ∧
      (run (step nrCpus ending) t ((List.range n).flatMap finishCall)).stage = t.stage := by
  induction n with
  | zero => exact ⟨fun cpu hcpu => absurd hcpu (Nat.not_lt_zero cpu), rfl⟩
  | succ n ih =>
      obtain ⟨hidle, hstage⟩ := ih (by omega)
      obtain ⟨hcalls, hstage'⟩ := run_finishCall (Nat.lt_of_succ_le hn) ending
        (run (step nrCpus ending) t ((List.range n).flatMap finishCall))
      rw [List.range_succ, List.flatMap_append, run_append, List.flatMap_singleton]
      refine ⟨fun cpu hcpu => ?_, hstage'.trans hstage⟩
      rw [hcalls]
      by_cases heq : cpu = n
      · subst heq
        exact Function.update_self ..
      · rw [Function.update_of_ne heq]
        exact hidle cpu (by omega)

/-- With no call in progress every statement returns. -/
theorem advance_of_idle (ending : Ending) (hidle : ∀ cpu < nrCpus, t.sys.calls cpu = none) :
    (t.advance nrCpus ending).stage = t.stage.next ending ∧
      (t.advance nrCpus ending).sys.calls = t.sys.calls := by
  have hnone : ∀ adds, NoneIn nrCpus adds t.sys := by
    intro adds cpu hcpu c hcall
    rw [hidle cpu hcpu] at hcall
    cases hcall
  rw [advance, if_pos ⟨fun _ => hnone true, fun _ => hnone false⟩]
  split <;> exact ⟨rfl, rfl⟩

theorem run_advances (n : ℕ) {t : Life K} (hidle : ∀ cpu < nrCpus, t.sys.calls cpu = none) :
    (run (step nrCpus ending) t (List.replicate n .advance)).stage =
      (UnloadStage.next ending)^[n] t.stage := by
  induction n generalizing t with
  | zero => rfl
  | succ n ih =>
      obtain ⟨hstage, hcalls⟩ := advance_of_idle ending hidle
      have hidle' : ∀ cpu < nrCpus, (t.advance nrCpus ending).sys.calls cpu = none := by
        rwa [hcalls]
      rw [List.replicate_succ, run_cons, Function.iterate_succ_apply, ← hstage]
      exact ih hidle'

theorem stage_run_finish (nrCpus : ℕ) (ending : Ending) (t : Life K) :
    (run (step nrCpus ending) t (finish nrCpus)).stage = .unloaded := by
  obtain ⟨hidle, hstage⟩ := run_finishCalls (le_refl nrCpus) ending t
  rw [finish, run_append, run_advances 9 hidle, hstage]
  cases ending <;> cases t.stage <;> rfl

end Life

/-! ### Whole lives -/

/-- **The unload.** When the exit function frees the records, and after it has returned,
no call is in progress; then every record that was ever allocated has been freed, each of
them once, and the last message gives the final counters. From every state of a life the
unload can be finished with what is left of the calls and of the exit function. -/
theorem unload_frees_each_record_once (K : Kernel) (nrCpus : ℕ) (es : List (LifeEvent K)) :
    let t := run (Life.step nrCpus .exit) (Life.load K) es
    (t.stage = .freeRecords ∨ t.stage = .unloaded → ∀ cpu, t.sys.calls cpu = none) ∧
      (t.stage = .unloaded → t.sys.mon.processList = [] ∧
        t.sys.mon.freed.Perm (List.range t.sys.mon.nextAddr) ∧
        t.finalStatistics =
          some (t.sys.mon.stats.totalProcessesCreated, t.sys.mon.stats.totalProcessesExited)) ∧
      (run (Life.step nrCpus .exit) (Life.load K) (es ++ Life.finish nrCpus)).stage =
        .unloaded := by
  intro t
  have hsound : t.Sound nrCpus .exit := Life.sound_run nrCpus .exit es
  refine ⟨fun hstage => hsound.idle_of_removing ?_, fun hstage => ?_, ?_⟩
  · rcases hstage with hstage | hstage <;> rw [hstage] <;> decide
  · have hsettled := hsound.settled hstage
    have hlist := hsettled.nothing_linked rfl
    have haccounted := hsettled.accounted
    rw [hlist, List.append_nil] at haccounted
    exact ⟨hlist, haccounted, hsettled.message rfl⟩
  · rw [run_append]
    exact Life.stage_run_finish nrCpus .exit _

/-- **A load that fails** to register the exit probe leaves behind exactly the records in
the list: they are the allocated ones that are not freed, and no call is in progress that
could still free one. -/
theorem failed_load_leaks_the_list (K : Kernel) (nrCpus : ℕ) (es : List (LifeEvent K)) :
    let t := run (Life.step nrCpus .cleanup) (Life.load K) es
    t.stage = .unloaded → (∀ cpu, t.sys.calls cpu = none) ∧
      (∀ record, record < t.sys.mon.nextAddr ∧ record ∉ t.sys.mon.freed ↔
        record ∈ t.sys.mon.processList) ∧
      (t.sys.mon.freed.Perm (List.range t.sys.mon.nextAddr) ↔ t.sys.mon.processList = []) := by
  intro t hstage
  have hsound : t.Sound nrCpus .cleanup := Life.sound_run nrCpus .cleanup es
  have haccounted := (hsound.settled hstage).accounted
  refine ⟨hsound.idle_of_removing (by rw [hstage]; decide), fun record => ?_, ?_⟩
  · have hdisjoint := (List.nodup_append.mp (haccounted.nodup_iff.mpr List.nodup_range)).2.2
    have hmem := haccounted.mem_iff (a := record)
    rw [List.mem_append, List.mem_range] at hmem
    constructor
    · rintro ⟨hlt, hfreed⟩
      exact (hmem.mpr hlt).resolve_left hfreed
    · intro hlinked
      exact ⟨hmem.mp (.inr hlinked), fun hfreed => hdisjoint record hfreed record hlinked rfl⟩
  · have hlength := haccounted.length_eq
    rw [List.length_append] at hlength
    constructor
    · intro hperm
      have hall := hperm.length_eq
      exact List.eq_nil_of_length_eq_zero (by omega)
    · intro hnil
      rwa [hnil, List.append_nil] at haccounted

/-- One process forks while the exit probe is being registered. -/
def oneFork : List (LifeEvent K) :=
  [.sys (.addEnter 0 1 0 [] true), .sys (.lock 0), .sys (.tail 0)] ++ List.replicate 8 .advance

theorem failed_load_leaks_of_fork :
    ¬ (run (Life.step 1 .cleanup) (Life.load .x86_64) oneFork).sys.mon.freed.Perm
      (List.range (run (Life.step 1 .cleanup) (Life.load .x86_64) oneFork).sys.mon.nextAddr) := by
  intro hperm
  obtain ⟨-, -, hempty⟩ := failed_load_leaks_the_list .x86_64 1 oneFork rfl
  exact absurd (hempty.mp hperm) (by decide)

end KernelModules.CompleteMonitor
