import KernelModules.Kernel
import KernelModules.Lib.Run
import Mathlib.Data.Finset.Basic
import Mathlib.Logic.Function.Basic

/-!
Loading and unloading the six modules.

An init function asks the kernel for files under `/proc` and for probes, and any of
these calls may fail. When one does, it takes back what it has got, in the reverse
order, and returns an error. What is registered is then, after any sequence of loads
and unloads, what the loaded modules have registered.
-/

namespace KernelModules.Loading

open Lib

/-! ### What the modules register -/

inductive Module
  | processMonitor
  | syscallIntercept
  | kernelList
  | procInterface
  | concurrencyControl
  | completeMonitor
  deriving DecidableEq

/-- The files and directories, by the variables that hold them. -/
inductive Entry
  | processMonitor
  | kernelListDemo
  | procDemo
  | procDemoInfo
  | procDemoCounter
  | procDemoMessage
  | procDemoTime
  | concurrencyDemo
  | monitorDir
  | monitorStats
  | monitorProcesses
  | monitorFilter
  | monitorControl
  deriving DecidableEq

namespace Entry

def owner : Entry → Module
  | .processMonitor => .processMonitor
  | .kernelListDemo => .kernelList
  | .procDemo | .procDemoInfo | .procDemoCounter | .procDemoMessage | .procDemoTime =>
      .procInterface
  | .concurrencyDemo => .concurrencyControl
  | .monitorDir | .monitorStats | .monitorProcesses | .monitorFilter | .monitorControl =>
      .completeMonitor

/-- The directory that a file is in, if it is one of the modules'. -/
def parent : Entry → Option Entry
  | .procDemoInfo | .procDemoCounter | .procDemoMessage | .procDemoTime => some .procDemo
  | .monitorStats | .monitorProcesses | .monitorFilter | .monitorControl => some .monitorDir
  | _ => none

/-- The name that it is created under. -/
def name : Entry → String
  | .processMonitor => "process_monitor"
  | .kernelListDemo => "kernel_list_demo"
  | .procDemo => "proc_demo"
  | .procDemoInfo => "info"
  | .procDemoCounter => "counter"
  | .procDemoMessage => "message"
  | .procDemoTime => "time"
  | .concurrencyDemo => "concurrency_demo"
  | .monitorDir => "process_monitor_complete"
  | .monitorStats => "stats"
  | .monitorProcesses => "processes"
  | .monitorFilter => "filter"
  | .monitorControl => "control"

def all : List Entry :=
  [.processMonitor, .kernelListDemo, .procDemo, .procDemoInfo, .procDemoCounter, .procDemoMessage,
    .procDemoTime, .concurrencyDemo, .monitorDir, .monitorStats, .monitorProcesses, .monitorFilter,
    .monitorControl]

theorem mem_all (e : Entry) : e ∈ all := by
  cases e <;> decide

theorem nodup_names : (all.map name).Nodup := by decide

theorem name_injective : Function.Injective name := fun e e' hname =>
  List.inj_on_of_nodup_map nodup_names (mem_all e) (mem_all e') hname

end Entry

/-- The two probes of a module. -/
inductive Hook
  | fork
  | exit
  deriving DecidableEq

/-- The functions that a probe is set on. -/
inductive Symbol
  | doFork
  | kernelClone
  | doExit
  deriving DecidableEq

def Module.probes : Module → Bool
  | .processMonitor | .syscallIntercept | .completeMonitor => true
  | .kernelList | .procInterface | .concurrencyControl => false

/-- What is registered with the kernel, and whether something was ever removed that was
not there. -/
@[ext]
structure Registry where
  entries : Finset Entry
  kprobes : Module × Hook → Option Symbol
  strayRemoval : Bool

/-- What the kernel makes of the calls of one load: whether it creates a file, and what
`register_kprobe` returns. -/
structure Answers where
  create : Entry → Bool
  register : Symbol → CInt

abbrev ENOMEM : CInt := 12

def Failed (ret : CInt) : Prop := ret.toInt < 0

instance (ret : CInt) : Decidable (Failed ret) := inferInstanceAs (Decidable (_ < _))

namespace Registry

def empty : Registry := ⟨∅, fun _ => none, false⟩

/-- The registry with one file more. -/
def add (e : Entry) (s : Registry) : Registry := { s with entries := insert e s.entries }

/-- The registry with a probe set. -/
def probe (m : Module) (hook : Hook) (symbol : Symbol) (s : Registry) : Registry :=
  { s with kprobes := Function.update s.kprobes (m, hook) (some symbol) }

/-- The place that a file is to get is taken. -/
def Taken (e : Entry) (s : Registry) : Prop :=
  ∃ e' ∈ s.entries, e'.parent = e.parent ∧ e'.name = e.name

instance (e : Entry) (s : Registry) : Decidable (Taken e s) :=
  inferInstanceAs (Decidable (∃ e' ∈ s.entries, _))

/-- `proc_create` and `proc_mkdir`. -/
def procCreate (e : Entry) (a : Answers) (s : Registry) : Registry × Bool :=
  if a.create e = true ∧ ¬ Taken e s then (s.add e, true) else (s, false)

/-- `proc_remove`, which takes everything below a directory with it. -/
def procRemove (e : Entry) (s : Registry) : Registry :=
  if e ∈ s.entries then
    { s with entries := s.entries.filter fun e' => e' ≠ e ∧ e'.parent ≠ some e }
  else { s with strayRemoval := true }

def registerKprobe (m : Module) (hook : Hook) (symbol : Symbol) (a : Answers) (s : Registry) :
    Registry × CInt :=
  if Failed (a.register symbol) then (s, a.register symbol)
  else (s.probe m hook symbol, a.register symbol)

def unregisterKprobe (m : Module) (hook : Hook) (s : Registry) : Registry :=
  if s.kprobes (m, hook) = none then { s with strayRemoval := true }
  else { s with kprobes := Function.update s.kprobes (m, hook) none }

/-- The fork probe, on the function of that name that the kernel has. -/
def registerForkProbe (m : Module) (a : Answers) (s : Registry) : Registry × CInt :=
  match s.registerKprobe m .fork .doFork a with
  | (s, ret) => if Failed ret then s.registerKprobe m .fork .kernelClone a else (s, ret)

/-- Both probes. Without the second the first is given back. -/
def registerProbes (m : Module) (a : Answers) (s : Registry) : Registry × CInt :=
  match registerForkProbe m a s with
  | (s, ret) =>
      if Failed ret then (s, ret)
      else
        match registerKprobe m .exit .doExit a s with
        | (s, ret) => if Failed ret then (unregisterKprobe m .fork s, ret) else (s, ret)

end Registry

/-! ### The init functions -/

open Registry

/-- `process_monitor_init`. -/
def processMonitorInit (a : Answers) (s : Registry) : Registry × CInt :=
  match procCreate .processMonitor a s with
  | (s, false) => (s, -ENOMEM)
  | (s, true) =>
      match registerProbes .processMonitor a s with
      | (s, ret) => if Failed ret then (procRemove .processMonitor s, ret) else (s, 0)

/-- `syscall_intercept_init`. -/
def syscallInterceptInit (a : Answers) (s : Registry) : Registry × CInt :=
  match registerProbes .syscallIntercept a s with
  | (s, ret) => if Failed ret then (s, ret) else (s, 0)

/-- An init function that only creates a file. -/
def fileInit (e : Entry) (a : Answers) (s : Registry) : Registry × CInt :=
  match procCreate e a s with
  | (s, false) => (s, -ENOMEM)
  | (s, true) => (s, 0)

/-- `kernel_list_init`. -/
def kernelListInit : Answers → Registry → Registry × CInt := fileInit .kernelListDemo

/-- `concurrency_init`. -/
def concurrencyInit : Answers → Registry → Registry × CInt := fileInit .concurrencyDemo

/-- `proc_interface_init`, with its four labels. -/
def procInterfaceInit (a : Answers) (s : Registry) : Registry × CInt :=
  let cleanupDir (s : Registry) := (procRemove .procDemo s, -ENOMEM)
  let cleanupInfo (s : Registry) := cleanupDir (procRemove .procDemoInfo s)
  let cleanupCounter (s : Registry) := cleanupInfo (procRemove .procDemoCounter s)
  let cleanupMessage (s : Registry) := cleanupCounter (procRemove .procDemoMessage s)
  match procCreate .procDemo a s with
  | (s, false) => (s, -ENOMEM)
  | (s, true) =>
      match procCreate .procDemoInfo a s with
      | (s, false) => cleanupDir s
      | (s, true) =>
          match procCreate .procDemoCounter a s with
          | (s, false) => cleanupInfo s
          | (s, true) =>
              match procCreate .procDemoMessage a s with
              | (s, false) => cleanupCounter s
              | (s, true) =>
                  match procCreate .procDemoTime a s with
                  | (s, false) => cleanupMessage s
                  | (s, true) => (s, 0)

/-- `if (e) proc_remove(e);` -/
def removeIf (created : Bool) (e : Entry) (s : Registry) : Registry :=
  if created then procRemove e s else s

/-- `complete_monitor_init`. Its four files are all asked for before any is looked at. -/
def completeMonitorInit (a : Answers) (s : Registry) : Registry × CInt :=
  match procCreate .monitorDir a s with
  | (s, false) => (s, -ENOMEM)
  | (s, true) =>
      match procCreate .monitorStats a s with
      | (s, stats) =>
      match procCreate .monitorProcesses a s with
      | (s, processes) =>
      match procCreate .monitorFilter a s with
      | (s, filter) =>
      match procCreate .monitorControl a s with
      | (s, control) =>
          let cleanupProc (s : Registry) : Registry × CInt :=
            (procRemove .monitorDir (removeIf stats .monitorStats
              (removeIf processes .monitorProcesses (removeIf filter .monitorFilter
                (removeIf control .monitorControl s)))), -ENOMEM)
          if !stats || !processes || !filter || !control then cleanupProc s
          else
            match registerProbes .completeMonitor a s with
            | (s, ret) => if Failed ret then cleanupProc s else (s, 0)

namespace Module

def init : Module → Answers → Registry → Registry × CInt
  | .processMonitor => processMonitorInit
  | .syscallIntercept => syscallInterceptInit
  | .kernelList => kernelListInit
  | .procInterface => procInterfaceInit
  | .concurrencyControl => concurrencyInit
  | .completeMonitor => completeMonitorInit

/-- The exit functions, as far as what they take back. -/
def exit (m : Module) (s : Registry) : Registry :=
  match m with
  | .processMonitor =>
      procRemove .processMonitor (unregisterKprobe m .exit (unregisterKprobe m .fork s))
  | .syscallIntercept => unregisterKprobe m .exit (unregisterKprobe m .fork s)
  | .kernelList => procRemove .kernelListDemo s
  | .procInterface =>
      procRemove .procDemo (procRemove .procDemoInfo (procRemove .procDemoCounter
        (procRemove .procDemoMessage (procRemove .procDemoTime s))))
  | .concurrencyControl => procRemove .concurrencyDemo s
  | .completeMonitor =>
      procRemove .monitorDir (procRemove .monitorStats (procRemove .monitorProcesses
        (procRemove .monitorFilter (procRemove .monitorControl
          (unregisterKprobe m .exit (unregisterKprobe m .fork s))))))

end Module

/-! ### What is taken back -/

namespace Registry

variable {e : Entry} {m : Module} {hook : Hook} {symbol : Symbol} {a : Answers}
  {s : Registry}

theorem mem_add {e' : Entry} : e' ∈ (s.add e).entries ↔ e' = e ∨ e' ∈ s.entries :=
  Finset.mem_insert

theorem not_mem_add {e' : Entry} (hne : e ≠ e') (hfree : e ∉ s.entries) :
    e ∉ (s.add e').entries := by
  rw [mem_add, not_or]
  exact ⟨hne, hfree⟩

theorem not_taken (hfree : e ∉ s.entries) : ¬ Taken e s := by
  rintro ⟨e', hmem, -, hname⟩
  rw [Entry.name_injective hname] at hmem
  exact hfree hmem

theorem procCreate_granted (hcreate : a.create e = true) (hfree : e ∉ s.entries) :
    procCreate e a s = (s.add e, true) := by
  rw [procCreate, if_pos ⟨hcreate, not_taken hfree⟩]

theorem procCreate_refused (hcreate : a.create e = false) : procCreate e a s = (s, false) := by
  rw [procCreate, if_neg]
  rintro ⟨htrue, -⟩
  rw [hcreate] at htrue
  cases htrue

/-- What has just been created can be removed, when nothing is below it. -/
theorem procRemove_add (hfree : e ∉ s.entries) (hself : e.parent ≠ some e)
    (hleaf : ∀ e' ∈ s.entries, e'.parent ≠ some e) : procRemove e (s.add e) = s := by
  rw [procRemove, if_pos (mem_add.mpr (.inl rfl))]
  refine Registry.ext ?_ rfl rfl
  ext e'
  rw [Finset.mem_filter, mem_add]
  constructor
  · rintro ⟨rfl | hmem, hne, -⟩
    · exact absurd rfl hne
    · exact hmem
  · intro hmem
    refine ⟨.inr hmem, ?_, hleaf e' hmem⟩
    rintro rfl
    exact hfree hmem

theorem procCreate_eq {s' : Registry} {created : Bool} (h : procCreate e a s = (s', created))
    (hfree : e ∉ s.entries) : created = a.create e ∧ s' = if created then s.add e else s := by
  cases hcreate : a.create e with
  | false =>
      rw [procCreate_refused hcreate] at h
      cases h
      exact ⟨rfl, rfl⟩
  | true =>
      rw [procCreate_granted hcreate hfree] at h
      cases h
      exact ⟨rfl, rfl⟩

theorem kprobes_probe (s : Registry) (m : Module) (hook : Hook) (symbol : Symbol) :
    (s.probe m hook symbol).kprobes (m, hook) = some symbol :=
  Function.update_self ..

/-- A probe that has just been set can be unregistered. -/
theorem unregisterKprobe_probe (hnone : s.kprobes (m, hook) = none) :
    unregisterKprobe m hook (s.probe m hook symbol) = s := by
  have hset : (s.probe m hook symbol).kprobes (m, hook) ≠ none := by
    rw [kprobes_probe]
    exact Option.some_ne_none symbol
  have hback : Function.update (s.probe m hook symbol).kprobes (m, hook) none = s.kprobes := by
    rw [probe, Function.update_idem, Function.update_eq_self_iff, hnone]
  rw [unregisterKprobe, if_neg hset]
  exact Registry.ext rfl hback rfl

theorem registerForkProbe_cases (m : Module) (a : Answers) (s : Registry) :
    (Failed (a.register .doFork) ∧ Failed (a.register .kernelClone) ∧
      registerForkProbe m a s = (s, a.register .kernelClone)) ∨
    ∃ symbol, symbol ≠ .doExit ∧ ¬ Failed (a.register symbol) ∧
      registerForkProbe m a s = (s.probe m .fork symbol, a.register symbol) := by
  by_cases hfirst : Failed (a.register .doFork)
  · by_cases hsecond : Failed (a.register .kernelClone)
    · exact .inl ⟨hfirst, hsecond, by simp [registerForkProbe, registerKprobe, hfirst, hsecond]⟩
    · exact .inr ⟨.kernelClone, by decide, hsecond,
        by simp [registerForkProbe, registerKprobe, hfirst, hsecond]⟩
  · exact .inr ⟨.doFork, by decide, hfirst, by simp [registerForkProbe, registerKprobe, hfirst]⟩

end Registry

/-! ### One load -/

/-- The kernel grants the module all that it cannot do without: its files, one of the two
fork probes, and the exit probe. -/
structure Grants (a : Answers) (m : Module) : Prop where
  create : ∀ e : Entry, e.owner = m → a.create e = true
  fork : m.probes = true →
    ¬ Failed (a.register .doFork) ∨ ¬ Failed (a.register .kernelClone)
  exit : m.probes = true → ¬ Failed (a.register .doExit)

/-- Nothing of the module is registered. -/
structure Absent (m : Module) (s : Registry) : Prop where
  entries : ∀ e ∈ s.entries, e.owner ≠ m
  kprobes : ∀ hook, s.kprobes (m, hook) = none

/-- All that belongs to the module has been registered, and nothing else. -/
structure Loaded (m : Module) (s s' : Registry) : Prop where
  entries : ∀ e, e ∈ s'.entries ↔ e ∈ s.entries ∨ e.owner = m
  others : ∀ m' hook, m' ≠ m → s'.kprobes (m', hook) = s.kprobes (m', hook)
  forkProbe : ∀ symbol, s'.kprobes (m, .fork) = some symbol → symbol ≠ .doExit
  exitProbe : ∀ symbol, s'.kprobes (m, .exit) = some symbol → symbol = .doExit
  probed : ∀ hook, s'.kprobes (m, hook) ≠ none ↔ m.probes = true
  strayRemoval : s'.strayRemoval = s.strayRemoval

/-- A load succeeds when the kernel grants what the module needs. It returns an error and
leaves nothing behind when not. -/
def LoadsOrNot (m : Module) (a : Answers) (s : Registry) (r : Registry × CInt) : Prop :=
  Grants a m ∧ r.2 = 0 ∧ Loaded m s r.1 ∨ ¬ Grants a m ∧ Failed r.2 ∧ r.1 = s

theorem failed_enomem : Failed (-ENOMEM) := by decide

theorem not_failed_zero : ¬ Failed 0 := by decide

section Load

variable {m : Module} {a : Answers} {s : Registry}

theorem Absent.free (h : Absent m s) {e : Entry} (howner : e.owner = m) : e ∉ s.entries :=
  fun hmem => h.entries e hmem howner

theorem Grants.not_of_create {e : Entry} (hcreate : a.create e = false) (howner : e.owner = m) :
    ¬ Grants a m := by
  intro h
  have htrue : a.create e = true := h.create e howner
  rw [hcreate] at htrue
  cases htrue

/-- Both probes are set, or none is and the error is the kernel's own. -/
theorem registerProbes_cases (hnone : s.kprobes (m, .fork) = none) (hprobes : m.probes = true) :
    (¬ Grants a m ∧ ∃ ret, Failed ret ∧ registerProbes m a s = (s, ret)) ∨
    (((∀ e : Entry, e.owner = m → a.create e = true) → Grants a m) ∧
      ∃ symbol ret, symbol ≠ .doExit ∧ ¬ Failed ret ∧
        registerProbes m a s = ((s.probe m .fork symbol).probe m .exit .doExit, ret)) := by
  rw [registerProbes]
  rcases registerForkProbe_cases m a s with ⟨hfirst, hsecond, heq⟩ | ⟨symbol, hsymbol, hfork, heq⟩
  · refine .inl ⟨fun h => ?_, a.register .kernelClone, hsecond, ?_⟩
    · exact (h.fork hprobes).elim (absurd hfirst) (absurd hsecond)
    · rw [heq]
      exact if_pos hsecond
  · simp only [heq, if_neg hfork]
    by_cases hexit : Failed (a.register .doExit)
    · refine .inl ⟨fun h => h.exit hprobes hexit, a.register .doExit, hexit, ?_⟩
      rw [registerKprobe, if_pos hexit]
      dsimp only
      rw [if_pos hexit, unregisterKprobe_probe hnone]
    · refine .inr ⟨fun hcreate => ⟨hcreate, fun _ => ?_, fun _ => hexit⟩, symbol,
        a.register .doExit, hsymbol, hexit, ?_⟩
      · cases symbol with
        | doFork => exact .inl hfork
        | kernelClone => exact .inr hfork
        | doExit => exact absurd rfl hsymbol
      · rw [registerKprobe, if_neg hexit]
        exact if_neg hexit

/-- A module without probes is loaded when its files are there. -/
theorem Absent.loaded {s' : Registry} (h : Absent m s) (hprobes : m.probes = false)
    (hentries : ∀ e, e ∈ s'.entries ↔ e ∈ s.entries ∨ e.owner = m)
    (hkprobes : s'.kprobes = s.kprobes) (hstray : s'.strayRemoval = s.strayRemoval) :
    Loaded m s s' := by
  have hnone : ∀ hook, s'.kprobes (m, hook) = none := by
    rw [hkprobes]
    exact h.kprobes
  refine ⟨hentries, fun _ _ _ => by rw [hkprobes], fun symbol hsymbol => ?_,
    fun symbol hsymbol => ?_, fun hook => ?_, hstray⟩
  · rw [hnone] at hsymbol
    cases hsymbol
  · rw [hnone] at hsymbol
    cases hsymbol
  · rw [hnone, hprobes]
    simp

/-- A module with probes is loaded when both are set and its files are there. -/
theorem loaded_probe {s' : Registry} {symbol : Symbol} (hprobes : m.probes = true)
    (hentries : ∀ e, e ∈ s'.entries ↔ e ∈ s.entries ∨ e.owner = m)
    (hkprobes : s'.kprobes = s.kprobes) (hstray : s'.strayRemoval = s.strayRemoval)
    (hsymbol : symbol ≠ .doExit) :
    Loaded m s ((s'.probe m .fork symbol).probe m .exit .doExit) := by
  have hfork : ((s'.probe m .fork symbol).probe m .exit .doExit).kprobes (m, .fork) =
      some symbol := by simp [probe]
  have hexit : ((s'.probe m .fork symbol).probe m .exit .doExit).kprobes (m, .exit) =
      some .doExit := kprobes_probe ..
  refine ⟨hentries, fun m' hook hne => ?_, fun symbol' h => ?_, fun symbol' h => ?_,
    fun hook => ?_, hstray⟩
  · simp [probe, hne, hkprobes]
  · rw [hfork] at h
    cases h
    exact hsymbol
  · rw [hexit] at h
    cases h
    rfl
  · rw [hprobes]
    cases hook with
    | fork => simp [hfork]
    | exit => simp [hexit]

/-- With the files there, the load is decided by the probes. -/
theorem Absent.loads_probes (h : Absent m s) (s' : Registry) (hprobes : m.probes = true)
    (hcreate : ∀ e : Entry, e.owner = m → a.create e = true)
    (hentries : ∀ e, e ∈ s'.entries ↔ e ∈ s.entries ∨ e.owner = m)
    (hkprobes : s'.kprobes = s.kprobes) (hstray : s'.strayRemoval = s.strayRemoval)
    {r : Registry × CInt}
    (hset : ∀ s'' ret, registerProbes m a s' = (s'', ret) → ¬ Failed ret → r = (s'', 0))
    (hback : ∀ ret, registerProbes m a s' = (s', ret) → Failed ret → Failed r.2 ∧ r.1 = s) :
    LoadsOrNot m a s r := by
  have hnone : s'.kprobes (m, .fork) = none := by rw [hkprobes, h.kprobes]
  rcases registerProbes_cases (a := a) hnone hprobes with
    ⟨hnot, ret, hfailed, heq⟩ | ⟨hgrants, symbol, ret, hsymbol, hret, heq⟩
  · exact .inr ⟨hnot, hback ret heq hfailed⟩
  · rw [hset _ ret heq hret]
    exact .inl ⟨hgrants hcreate, rfl, loaded_probe hprobes hentries hkprobes hstray hsymbol⟩

end Load

theorem Absent.fileInit {m : Module} {s : Registry} (h : Absent m s) {e : Entry}
    (howner : ∀ e' : Entry, e'.owner = m ↔ e' = e) (hprobes : m.probes = false) (a : Answers) :
    LoadsOrNot m a s (fileInit e a s) := by
  have howned : e.owner = m := (howner e).mpr rfl
  rw [Loading.fileInit]
  cases hcreate : a.create e with
  | false =>
      rw [procCreate_refused hcreate]
      exact .inr ⟨Grants.not_of_create hcreate howned, failed_enomem, rfl⟩
  | true =>
      rw [procCreate_granted hcreate (h.free howned)]
      refine .inl ⟨⟨fun e' he' => ?_, ?_, ?_⟩, rfl, h.loaded hprobes (fun e' => ?_) rfl rfl⟩
      · rw [(howner e').mp he', hcreate]
      · simp [hprobes]
      · simp [hprobes]
      · rw [howner, mem_add, or_comm]

theorem Absent.syscallInterceptInit {s : Registry} (h : Absent .syscallIntercept s)
    (a : Answers) : LoadsOrNot .syscallIntercept a s (syscallInterceptInit a s) := by
  have hfileless : ∀ e : Entry, e.owner ≠ .syscallIntercept := by
    intro e
    cases e <;> decide
  rw [Loading.syscallInterceptInit]
  refine h.loads_probes s rfl (fun e howner => absurd howner (hfileless e))
    (fun e => (or_iff_left (hfileless e)).symm) rfl rfl (fun s'' ret heq hret => ?_)
    fun ret heq hfailed => ?_
  · rw [heq]
    exact if_neg hret
  · rw [heq]
    dsimp only
    rw [if_pos hfailed]
    exact ⟨hfailed, rfl⟩

theorem Absent.processMonitorInit {s : Registry} (h : Absent .processMonitor s) (a : Answers) :
    LoadsOrNot .processMonitor a s (processMonitorInit a s) := by
  have howner : ∀ e : Entry, e.owner = .processMonitor ↔ e = .processMonitor := by
    intro e
    cases e <;> decide
  have hfree : Entry.processMonitor ∉ s.entries := h.free rfl
  have hback : procRemove .processMonitor (s.add .processMonitor) = s :=
    procRemove_add hfree (by decide) fun e' _ hparent => by cases e' <;> cases hparent
  rw [Loading.processMonitorInit]
  cases hcreate : a.create .processMonitor with
  | false =>
      rw [procCreate_refused hcreate]
      exact .inr ⟨Grants.not_of_create hcreate rfl, failed_enomem, rfl⟩
  | true =>
      rw [procCreate_granted hcreate hfree]
      dsimp only
      refine h.loads_probes (s.add .processMonitor) rfl (fun e he => ?_) (fun e => ?_) rfl rfl
        (fun s'' ret heq hret => ?_) fun ret heq hfailed => ?_
      · rw [(howner e).mp he, hcreate]
      · rw [mem_add, howner, or_comm]
      · rw [heq]
        exact if_neg hret
      · rw [heq]
        dsimp only
        rw [if_pos hfailed]
        exact ⟨hfailed, hback⟩

/-- A file has nothing below it. -/
theorem Entry.not_parent {e : Entry} (hdemo : e ≠ .procDemo) (hmonitor : e ≠ .monitorDir)
    (e' : Entry) : e'.parent ≠ some e := by
  cases e' <;> simp [parent, hdemo.symm, hmonitor.symm]

theorem procRemove_file {e : Entry} {s : Registry} (hfree : e ∉ s.entries)
    (hdemo : e ≠ .procDemo) (hmonitor : e ≠ .monitorDir) : procRemove e (s.add e) = s :=
  procRemove_add hfree (Entry.not_parent hdemo hmonitor e)
    fun e' _ => Entry.not_parent hdemo hmonitor e'

/-- A directory of the module has nothing below it at first. -/
theorem Absent.procRemove_dir {m : Module} {s : Registry} (h : Absent m s) {e : Entry}
    (howner : e.owner = m) (hself : e.parent ≠ some e)
    (hbelow : ∀ e' : Entry, e'.parent = some e → e'.owner = m) :
    procRemove e (s.add e) = s :=
  procRemove_add (h.free howner) hself
    fun e' hmem hparent => h.entries e' hmem (hbelow e' hparent)

/-- `if (e) proc_remove(e);` after `e = proc_create(..);`. -/
theorem removeIf_of_procCreate {e : Entry} {a : Answers} {s s' : Registry} {created : Bool}
    (h : procCreate e a s = (s', created)) (hfree : e ∉ s.entries) (hdemo : e ≠ .procDemo)
    (hmonitor : e ≠ .monitorDir) : removeIf created e s' = s := by
  obtain ⟨-, rfl⟩ := procCreate_eq h hfree
  cases created with
  | false => rfl
  | true => exact procRemove_file hfree hdemo hmonitor

theorem not_mem_of_procCreate {e e' : Entry} {a : Answers} {s s' : Registry} {created : Bool}
    (h : procCreate e' a s = (s', created)) (hne : e ≠ e') (hfree' : e' ∉ s.entries)
    (hfree : e ∉ s.entries) : e ∉ s'.entries := by
  obtain ⟨-, rfl⟩ := procCreate_eq h hfree'
  cases created with
  | false => exact hfree
  | true => exact not_mem_add hne hfree

theorem Absent.procInterfaceInit {s : Registry} (h : Absent .procInterface s) (a : Answers) :
    LoadsOrNot .procInterface a s (procInterfaceInit a s) := by
  have hinfo : Entry.procDemoInfo ∉ (s.add .procDemo).entries :=
    not_mem_add (by decide) (h.free rfl)
  have hcounter : Entry.procDemoCounter ∉ ((s.add .procDemo).add .procDemoInfo).entries :=
    not_mem_add (by decide) (not_mem_add (by decide) (h.free rfl))
  have hmessage : Entry.procDemoMessage ∉
      (((s.add .procDemo).add .procDemoInfo).add .procDemoCounter).entries :=
    not_mem_add (by decide) (not_mem_add (by decide) (not_mem_add (by decide) (h.free rfl)))
  have htime : Entry.procDemoTime ∉
      ((((s.add .procDemo).add .procDemoInfo).add .procDemoCounter).add
        .procDemoMessage).entries :=
    not_mem_add (by decide) (not_mem_add (by decide) (not_mem_add (by decide)
      (not_mem_add (by decide) (h.free rfl))))
  -- what each of the labels gives back
  have hcleanupDir : procRemove .procDemo (s.add .procDemo) = s :=
    h.procRemove_dir rfl (by decide) fun e' hparent => by cases e' <;> cases hparent <;> rfl
  have hcleanupInfo : procRemove .procDemoInfo ((s.add .procDemo).add .procDemoInfo) = _ :=
    procRemove_file hinfo (by decide) (by decide)
  have hcleanupCounter : procRemove .procDemoCounter
      (((s.add .procDemo).add .procDemoInfo).add .procDemoCounter) = _ :=
    procRemove_file hcounter (by decide) (by decide)
  have hcleanupMessage : procRemove .procDemoMessage
      ((((s.add .procDemo).add .procDemoInfo).add .procDemoCounter).add .procDemoMessage) = _ :=
    procRemove_file hmessage (by decide) (by decide)
  rw [Loading.procInterfaceInit]
  cases hdir : a.create .procDemo with
  | false =>
      rw [procCreate_refused hdir]
      exact .inr ⟨Grants.not_of_create hdir rfl, failed_enomem, rfl⟩
  | true =>
  rw [procCreate_granted hdir (h.free rfl)]
  dsimp only
  cases hinfo' : a.create .procDemoInfo with
  | false =>
      rw [procCreate_refused hinfo']
      exact .inr ⟨Grants.not_of_create hinfo' rfl, failed_enomem, hcleanupDir⟩
  | true =>
  rw [procCreate_granted hinfo' hinfo]
  dsimp only
  cases hcounter' : a.create .procDemoCounter with
  | false =>
      rw [procCreate_refused hcounter']
      dsimp only
      rw [hcleanupInfo]
      exact .inr ⟨Grants.not_of_create hcounter' rfl, failed_enomem, hcleanupDir⟩
  | true =>
  rw [procCreate_granted hcounter' hcounter]
  dsimp only
  cases hmessage' : a.create .procDemoMessage with
  | false =>
      rw [procCreate_refused hmessage']
      dsimp only
      rw [hcleanupCounter, hcleanupInfo]
      exact .inr ⟨Grants.not_of_create hmessage' rfl, failed_enomem, hcleanupDir⟩
  | true =>
  rw [procCreate_granted hmessage' hmessage]
  dsimp only
  cases htime' : a.create .procDemoTime with
  | false =>
      rw [procCreate_refused htime']
      dsimp only
      rw [hcleanupMessage, hcleanupCounter, hcleanupInfo]
      exact .inr ⟨Grants.not_of_create htime' rfl, failed_enomem, hcleanupDir⟩
  | true =>
  rw [procCreate_granted htime' htime]
  refine .inl ⟨⟨fun e howner => ?_, ?_, ?_⟩, rfl, h.loaded rfl (fun e => ?_) rfl rfl⟩
  · cases e <;> first | assumption | cases howner
  · simp [Module.probes]
  · simp [Module.probes]
  · cases e <;> simp [mem_add, Entry.owner]

theorem Absent.completeMonitorInit {s : Registry} (h : Absent .completeMonitor s) (a : Answers) :
    LoadsOrNot .completeMonitor a s (completeMonitorInit a s) := by
  rw [Loading.completeMonitorInit]
  cases hdir : a.create .monitorDir with
  | false =>
      rw [procCreate_refused hdir]
      exact .inr ⟨Grants.not_of_create hdir rfl, failed_enomem, rfl⟩
  | true =>
  rw [procCreate_granted hdir (h.free rfl)]
  have hdirBack : procRemove .monitorDir (s.add .monitorDir) = s :=
    h.procRemove_dir rfl (by decide) fun e' hparent => by cases e' <;> cases hparent <;> rfl
  have hfree : ∀ e : Entry, e ≠ .monitorDir → e.owner = .completeMonitor →
      e ∉ (s.add .monitorDir).entries := fun e hne howner => not_mem_add hne (h.free howner)
  rcases hstats : procCreate .monitorStats a (s.add .monitorDir) with ⟨s₁, stats⟩
  have hstats₀ := hfree .monitorStats (by decide) rfl
  rcases hprocesses : procCreate .monitorProcesses a s₁ with ⟨s₂, processes⟩
  have hprocesses₁ : Entry.monitorProcesses ∉ s₁.entries :=
    not_mem_of_procCreate hstats (by decide) hstats₀ (hfree _ (by decide) rfl)
  rcases hfilter : procCreate .monitorFilter a s₂ with ⟨s₃, filter⟩
  have hfilter₂ : Entry.monitorFilter ∉ s₂.entries :=
    not_mem_of_procCreate hprocesses (by decide) hprocesses₁
      (not_mem_of_procCreate hstats (by decide) hstats₀ (hfree _ (by decide) rfl))
  rcases hcontrol : procCreate .monitorControl a s₃ with ⟨s₄, control⟩
  have hcontrol₃ : Entry.monitorControl ∉ s₃.entries :=
    not_mem_of_procCreate hfilter (by decide) hfilter₂
      (not_mem_of_procCreate hprocesses (by decide) hprocesses₁
        (not_mem_of_procCreate hstats (by decide) hstats₀ (hfree _ (by decide) rfl)))
  -- the one label, whichever of the four files there are
  have hcleanup : procRemove .monitorDir (removeIf stats .monitorStats
      (removeIf processes .monitorProcesses (removeIf filter .monitorFilter
        (removeIf control .monitorControl s₄)))) = s := by
    rw [removeIf_of_procCreate hcontrol hcontrol₃ (by decide) (by decide),
      removeIf_of_procCreate hfilter hfilter₂ (by decide) (by decide),
      removeIf_of_procCreate hprocesses hprocesses₁ (by decide) (by decide),
      removeIf_of_procCreate hstats hstats₀ (by decide) (by decide), hdirBack]
  obtain ⟨hstats', hs₁⟩ := procCreate_eq hstats hstats₀
  obtain ⟨hprocesses', hs₂⟩ := procCreate_eq hprocesses hprocesses₁
  obtain ⟨hfilter', hs₃⟩ := procCreate_eq hfilter hfilter₂
  obtain ⟨hcontrol', hs₄⟩ := procCreate_eq hcontrol hcontrol₃
  simp only [hstats, hprocesses, hfilter, hcontrol]
  by_cases hmissing : (!stats || !processes || !filter || !control) = true
  · rw [if_pos hmissing]
    refine .inr ⟨fun hgrants => ?_, failed_enomem, hcleanup⟩
    rw [hgrants.create _ rfl] at hstats' hprocesses' hfilter' hcontrol'
    subst hstats' hprocesses' hfilter' hcontrol'
    cases hmissing
  · rw [if_neg hmissing]
    simp only [Bool.or_eq_true, Bool.not_eq_true', not_or, Bool.not_eq_false] at hmissing
    obtain ⟨⟨⟨rfl, rfl⟩, rfl⟩, rfl⟩ := hmissing
    simp only [if_true] at hs₁ hs₂ hs₃ hs₄
    subst hs₁ hs₂ hs₃ hs₄
    generalize hall : ((((s.add .monitorDir).add .monitorStats).add .monitorProcesses).add
      .monitorFilter).add .monitorControl = s₄ at hcleanup ⊢
    refine h.loads_probes s₄ rfl (fun e howner => ?_) (fun e => ?_) ?_ ?_
      (fun s'' ret heq hret => ?_) fun ret heq hfailed => ?_
    · cases e with
      | monitorDir => exact hdir
      | monitorStats => exact hstats'.symm
      | monitorProcesses => exact hprocesses'.symm
      | monitorFilter => exact hfilter'.symm
      | monitorControl => exact hcontrol'.symm
      | _ => cases howner
    · rw [← hall]
      cases e <;> simp [mem_add, Entry.owner]
    · rw [← hall]
      rfl
    · rw [← hall]
      rfl
    · rw [heq]
      exact if_neg hret
    · rw [heq]
      dsimp only
      rw [if_pos hfailed]
      refine ⟨failed_enomem, ?_⟩
      dsimp only
      exact hcleanup

theorem init_loads (m : Module) {s : Registry} (h : Absent m s) (a : Answers) :
    LoadsOrNot m a s (m.init a s) := by
  cases m with
  | processMonitor => exact h.processMonitorInit a
  | syscallIntercept => exact h.syscallInterceptInit a
  | kernelList => exact h.fileInit (fun e => by cases e <;> decide) rfl a
  | procInterface => exact h.procInterfaceInit a
  | concurrencyControl => exact h.fileInit (fun e => by cases e <;> decide) rfl a
  | completeMonitor => exact h.completeMonitorInit a

/-! ### One unload -/

/-- Everything of the module is registered. -/
structure Complete (m : Module) (s : Registry) : Prop where
  entries : ∀ e : Entry, e.owner = m → e ∈ s.entries
  probed : ∀ hook, s.kprobes (m, hook) ≠ none ↔ m.probes = true

/-- What belonged to the module is gone, and nothing else. -/
structure Unloaded (m : Module) (s s' : Registry) : Prop where
  entries : ∀ e, e ∈ s'.entries ↔ e ∈ s.entries ∧ e.owner ≠ m
  others : ∀ m' hook, m' ≠ m → s'.kprobes (m', hook) = s.kprobes (m', hook)
  kprobes : ∀ hook, s'.kprobes (m, hook) = none
  strayRemoval : s'.strayRemoval = s.strayRemoval

namespace Registry

variable {e : Entry} {m : Module} {s : Registry}

/-- The registry without a file and what is below it. -/
def drop (e : Entry) (s : Registry) : Registry :=
  { s with entries := s.entries.filter fun e' => e' ≠ e ∧ e'.parent ≠ some e }

/-- The registry without the probes of a module. -/
def unprobe (m : Module) (s : Registry) : Registry :=
  { s with kprobes := fun p => if p.1 = m then none else s.kprobes p }

theorem mem_drop {e' : Entry} :
    e' ∈ (s.drop e).entries ↔ e' ∈ s.entries ∧ e' ≠ e ∧ e'.parent ≠ some e :=
  Finset.mem_filter

theorem mem_drop_of_mem {e' : Entry} (hmem : e' ∈ s.entries) (hne : e' ≠ e)
    (hparent : e'.parent ≠ some e) : e' ∈ (s.drop e).entries :=
  mem_drop.mpr ⟨hmem, hne, hparent⟩

theorem procRemove_of_mem (hmem : e ∈ s.entries) : procRemove e s = s.drop e := if_pos hmem

theorem unregister_both (hprobed : ∀ hook, s.kprobes (m, hook) ≠ none) :
    unregisterKprobe m .exit (unregisterKprobe m .fork s) = s.unprobe m := by
  have hexit : Function.update s.kprobes (m, .fork) none (m, .exit) ≠ none := by
    rw [Function.update_of_ne (by simp)]
    exact hprobed .exit
  rw [unregisterKprobe, unregisterKprobe, if_neg (hprobed .fork), if_neg hexit]
  refine Registry.ext rfl ?_ rfl
  funext ⟨m', hook⟩
  by_cases hm : m' = m
  · subst hm
    cases hook <;> simp [unprobe]
  · simp [unprobe, hm]

end Registry

section Unload

variable {m : Module} {s s' : Registry}

theorem Unloaded.of_entries (h : Complete m s) (hprobes : m.probes = false)
    (hentries : ∀ e, e ∈ s'.entries ↔ e ∈ s.entries ∧ e.owner ≠ m)
    (hkprobes : s'.kprobes = s.kprobes) (hstray : s'.strayRemoval = s.strayRemoval) :
    Unloaded m s s' := by
  refine ⟨hentries, fun _ _ _ => by rw [hkprobes], fun hook => ?_, hstray⟩
  by_contra hsome
  rw [hkprobes] at hsome
  rw [(h.probed hook).mp hsome] at hprobes
  cases hprobes

theorem Unloaded.of_unprobe
    (hentries : ∀ e, e ∈ s'.entries ↔ e ∈ s.entries ∧ e.owner ≠ m)
    (hkprobes : s'.kprobes = (s.unprobe m).kprobes) (hstray : s'.strayRemoval = s.strayRemoval) :
    Unloaded m s s' := by
  refine ⟨hentries, fun m' hook hne => ?_, fun hook => ?_, hstray⟩
  · rw [hkprobes]
    exact if_neg hne
  · rw [hkprobes]
    exact if_pos rfl

/-- A file alone is removed. -/
theorem Complete.file (h : Complete m s) (hprobes : m.probes = false) {e : Entry}
    (howner : ∀ e' : Entry, e'.owner = m ↔ e' = e) (hleaf : ∀ e' : Entry, e'.parent ≠ some e) :
    Unloaded m s (procRemove e s) := by
  rw [procRemove_of_mem (h.entries e ((howner e).mpr rfl))]
  refine .of_entries h hprobes (fun e' => ?_) rfl rfl
  rw [mem_drop, Ne, Ne, Ne, howner, and_iff_left (hleaf e')]

theorem Complete.procInterfaceExit (h : Complete .procInterface s) :
    Unloaded .procInterface s (Module.exit .procInterface s) := by
  have hmessage : Entry.procDemoMessage ∈ (s.drop .procDemoTime).entries :=
    mem_drop_of_mem (h.entries _ rfl) (by decide) (by decide)
  have hcounter : Entry.procDemoCounter ∈
      ((s.drop .procDemoTime).drop .procDemoMessage).entries :=
    mem_drop_of_mem (mem_drop_of_mem (h.entries _ rfl) (by decide) (by decide))
      (by decide) (by decide)
  have hinfo : Entry.procDemoInfo ∈
      (((s.drop .procDemoTime).drop .procDemoMessage).drop .procDemoCounter).entries :=
    mem_drop_of_mem (mem_drop_of_mem (mem_drop_of_mem (h.entries _ rfl) (by decide) (by decide))
      (by decide) (by decide)) (by decide) (by decide)
  have hdir : Entry.procDemo ∈
      ((((s.drop .procDemoTime).drop .procDemoMessage).drop .procDemoCounter).drop
        .procDemoInfo).entries :=
    mem_drop_of_mem (mem_drop_of_mem (mem_drop_of_mem (mem_drop_of_mem (h.entries _ rfl)
      (by decide) (by decide)) (by decide) (by decide)) (by decide) (by decide))
      (by decide) (by decide)
  rw [Module.exit, procRemove_of_mem (h.entries _ rfl), procRemove_of_mem hmessage,
    procRemove_of_mem hcounter, procRemove_of_mem hinfo, procRemove_of_mem hdir]
  refine .of_entries h rfl (fun e => ?_) rfl rfl
  simp only [mem_drop]
  cases e <;> simp [Entry.owner, Entry.parent]

theorem Complete.completeMonitorExit (h : Complete .completeMonitor s) :
    Unloaded .completeMonitor s (Module.exit .completeMonitor s) := by
  have hboth : unregisterKprobe .completeMonitor .exit
      (unregisterKprobe .completeMonitor .fork s) = s.unprobe .completeMonitor :=
    unregister_both fun hook => (h.probed hook).mpr rfl
  have hentries : ∀ e : Entry, e.owner = .completeMonitor →
      e ∈ (s.unprobe .completeMonitor).entries := h.entries
  rw [Module.exit, hboth]
  generalize hs' : s.unprobe .completeMonitor = s' at hentries ⊢
  have hfilter : Entry.monitorFilter ∈ (s'.drop .monitorControl).entries :=
    mem_drop_of_mem (hentries _ rfl) (by decide) (by decide)
  have hprocesses : Entry.monitorProcesses ∈
      ((s'.drop .monitorControl).drop .monitorFilter).entries :=
    mem_drop_of_mem (mem_drop_of_mem (hentries _ rfl) (by decide) (by decide))
      (by decide) (by decide)
  have hstats : Entry.monitorStats ∈
      (((s'.drop .monitorControl).drop .monitorFilter).drop .monitorProcesses).entries :=
    mem_drop_of_mem (mem_drop_of_mem (mem_drop_of_mem (hentries _ rfl) (by decide) (by decide))
      (by decide) (by decide)) (by decide) (by decide)
  have hdir : Entry.monitorDir ∈
      ((((s'.drop .monitorControl).drop .monitorFilter).drop .monitorProcesses).drop
        .monitorStats).entries :=
    mem_drop_of_mem (mem_drop_of_mem (mem_drop_of_mem (mem_drop_of_mem (hentries _ rfl)
      (by decide) (by decide)) (by decide) (by decide)) (by decide) (by decide))
      (by decide) (by decide)
  rw [procRemove_of_mem (hentries _ rfl), procRemove_of_mem hfilter,
    procRemove_of_mem hprocesses, procRemove_of_mem hstats, procRemove_of_mem hdir]
  subst hs'
  refine .of_unprobe (fun e => ?_) rfl rfl
  simp only [mem_drop, unprobe]
  cases e <;> simp [Entry.owner, Entry.parent]

theorem exit_unloads (m : Module) (h : Complete m s) : Unloaded m s (m.exit s) := by
  cases m with
  | processMonitor =>
      have hprobed : ∀ hook, s.kprobes (.processMonitor, hook) ≠ none :=
        fun hook => (h.probed hook).mpr rfl
      have hmem : Entry.processMonitor ∈ (s.unprobe .processMonitor).entries := h.entries _ rfl
      rw [Module.exit, unregister_both hprobed, procRemove_of_mem hmem]
      refine .of_unprobe (fun e => ?_) rfl rfl
      rw [mem_drop]
      cases e <;> simp [Entry.owner, Entry.parent, unprobe]
  | syscallIntercept =>
      have hprobed : ∀ hook, s.kprobes (.syscallIntercept, hook) ≠ none :=
        fun hook => (h.probed hook).mpr rfl
      rw [Module.exit, unregister_both hprobed]
      refine .of_unprobe (fun e => ?_) rfl rfl
      cases e <;> simp [Entry.owner, unprobe]
  | kernelList =>
      exact h.file rfl (fun e => by cases e <;> decide) fun e => by cases e <;> decide
  | procInterface => exact h.procInterfaceExit
  | concurrencyControl =>
      exact h.file rfl (fun e => by cases e <;> decide) fun e => by cases e <;> decide
  | completeMonitor => exact h.completeMonitorExit

end Unload

/-! ### Loading and unloading -/

/-- `insmod` and `rmmod`. -/
inductive Event
  | insmod (m : Module) (a : Answers)
  | rmmod (m : Module)

structure Loader where
  registry : Registry
  loaded : Finset Module

namespace Loader

def boot : Loader := ⟨.empty, ∅⟩

/-- A module is in when its init function does not return an error. -/
def step (s : Loader) : Event → Loader
  | .insmod m a =>
      if m ∈ s.loaded then s
      else
        match m.init a s.registry with
        | (registry, ret) =>
            if Failed ret then { s with registry } else ⟨registry, insert m s.loaded⟩
  | .rmmod m =>
      if m ∈ s.loaded then ⟨m.exit s.registry, s.loaded.erase m⟩ else s

/-- What is registered is what belongs to the modules that are in. -/
structure Exact (s : Loader) : Prop where
  entries : ∀ e, e ∈ s.registry.entries ↔ e.owner ∈ s.loaded
  kprobes : ∀ m hook, s.registry.kprobes (m, hook) ≠ none ↔ m ∈ s.loaded ∧ m.probes = true
  forkProbe : ∀ m symbol, s.registry.kprobes (m, .fork) = some symbol → symbol ≠ .doExit
  exitProbe : ∀ m symbol, s.registry.kprobes (m, .exit) = some symbol → symbol = .doExit
  strayRemoval : s.registry.strayRemoval = false

theorem exact_boot : Exact boot := by
  constructor <;> simp [boot, Registry.empty]

theorem Exact.absent {s : Loader} (h : Exact s) {m : Module} (hm : m ∉ s.loaded) :
    Absent m s.registry where
  entries e hmem howner := hm (howner ▸ (h.entries e).mp hmem)
  kprobes hook := by
    by_contra hsome
    exact hm ((h.kprobes m hook).mp hsome).1

theorem Exact.complete {s : Loader} (h : Exact s) {m : Module} (hm : m ∈ s.loaded) :
    Complete m s.registry where
  entries e howner := (h.entries e).mpr (howner ▸ hm)
  probed hook := (h.kprobes m hook).trans (and_iff_right hm)

theorem Exact.insert {s : Loader} (h : Exact s) {m : Module} {registry : Registry}
    (hloaded : Loaded m s.registry registry) : Exact ⟨registry, insert m s.loaded⟩ where
  entries e := by
    rw [hloaded.entries, h.entries, Finset.mem_insert, or_comm]
  kprobes m' hook := by
    by_cases hm : m' = m
    · subst hm
      rw [hloaded.probed, and_iff_right (Finset.mem_insert_self ..)]
    · rw [hloaded.others m' hook hm, h.kprobes, Finset.mem_insert, or_iff_right hm]
  forkProbe m' symbol hsome := by
    by_cases hm : m' = m
    · subst hm
      exact hloaded.forkProbe symbol hsome
    · rw [hloaded.others m' .fork hm] at hsome
      exact h.forkProbe m' symbol hsome
  exitProbe m' symbol hsome := by
    by_cases hm : m' = m
    · subst hm
      exact hloaded.exitProbe symbol hsome
    · rw [hloaded.others m' .exit hm] at hsome
      exact h.exitProbe m' symbol hsome
  strayRemoval := hloaded.strayRemoval.trans h.strayRemoval

theorem Exact.erase {s : Loader} (h : Exact s) {m : Module} {registry : Registry}
    (hunloaded : Unloaded m s.registry registry) : Exact ⟨registry, s.loaded.erase m⟩ where
  entries e := by
    rw [hunloaded.entries, h.entries, Finset.mem_erase, and_comm]
  kprobes m' hook := by
    by_cases hm : m' = m
    · subst hm
      simp [hunloaded.kprobes]
    · rw [hunloaded.others m' hook hm, h.kprobes, Finset.mem_erase, and_iff_right hm]
  forkProbe m' symbol hsome := by
    by_cases hm : m' = m
    · subst hm
      rw [hunloaded.kprobes] at hsome
      cases hsome
    · rw [hunloaded.others m' .fork hm] at hsome
      exact h.forkProbe m' symbol hsome
  exitProbe m' symbol hsome := by
    by_cases hm : m' = m
    · subst hm
      rw [hunloaded.kprobes] at hsome
      cases hsome
    · rw [hunloaded.others m' .exit hm] at hsome
      exact h.exitProbe m' symbol hsome
  strayRemoval := hunloaded.strayRemoval.trans h.strayRemoval

theorem Exact.step {s : Loader} (h : Exact s) (e : Event) : Exact (s.step e) := by
  cases e with
  | insmod m a =>
      rw [Loader.step]
      split
      · exact h
      · rename_i hm
        rcases hinit : m.init a s.registry with ⟨registry, ret⟩
        have hload : LoadsOrNot m a s.registry (registry, ret) := by
          rw [← hinit]
          exact init_loads m (h.absent hm) a
        rcases hload with ⟨-, rfl, hloaded⟩ | ⟨-, hfailed, rfl⟩
        · dsimp only
          rw [if_neg not_failed_zero]
          exact h.insert hloaded
        · dsimp only
          rw [if_pos hfailed]
          exact h
  | rmmod m =>
      rw [Loader.step]
      split
      · rename_i hm
        exact h.erase (exit_unloads m (h.complete hm))
      · exact h

theorem exact_run (events : List Event) : Exact (run Loader.step boot events) :=
  run_invariant (I := Exact) (fun _ e h => h.step e) exact_boot events

/-- Whatever is loaded and unloaded, and whatever the kernel refuses meanwhile, the files
and probes that are registered are those of the modules that are in, nothing has been
removed that was not there, and a module that is not in can be loaded exactly when the
kernel grants what it asks for: no other module stands in its way, and what a failed load
had got is given back. -/
theorem registered_are_of_loaded (events : List Event) :
    let s := run Loader.step boot events
    Exact s ∧
    ∀ m ∉ s.loaded, ∀ a,
      (Grants a m ∧ m ∈ (s.step (.insmod m a)).loaded) ∨
      (¬ Grants a m ∧ Failed (m.init a s.registry).2 ∧ s.step (.insmod m a) = s) := by
  intro s
  have hexact : Exact s := exact_run events
  refine ⟨hexact, fun m hm a => ?_⟩
  rcases hinit : m.init a s.registry with ⟨registry, ret⟩
  have hload := init_loads m (hexact.absent hm) a
  rw [hinit] at hload
  rw [Loader.step, if_neg hm, hinit]
  rcases hload with ⟨hgrants, rfl, -⟩ | ⟨hrefused, hfailed, rfl⟩
  · refine .inl ⟨hgrants, ?_⟩
    dsimp only
    rw [if_neg not_failed_zero]
    exact Finset.mem_insert_self ..
  · exact .inr ⟨hrefused, hfailed, if_pos hfailed⟩

end Loader

end KernelModules.Loading
