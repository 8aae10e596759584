import KernelModules.CompleteMonitor.Commands
import KernelModules.Lib.Decimal
import KernelModules.Lib.Run

/-!
The text of the filter file.

`filter_show` prints the configuration, and `filter_write` takes the commands it
lists. What the commands can leave in a field is printed so that it can be read
back, with one exception: a command name that is not set is shown as one that
could be set.
-/

namespace KernelModules.CompleteMonitor

open Lib

variable {K : Kernel}

/-! ### `filter_show` -/

/-- A printed line: the value between its label and what follows it. -/
def line (label : String) (value : List UInt8) (note : String) : List UInt8 :=
  ascii label.toList ++ (value ++ ascii note.toList)

/-- The command name as it is shown. -/
def FilterConfig.shownComm (filter : FilterConfig) : List UInt8 :=
  if strlen filter.targetComm.bytes ≠ 0 then filter.targetComm.str else ascii "(any)".toList

/-- What follows the configuration. -/
def filterCommands : List UInt8 :=
  ascii "\n=== Filter Commands ===\n".toList ++
  ascii "enable           - Enable filtering\n".toList ++
  ascii "disable          - Disable filtering\n".toList ++
  ascii "pid <pid>        - Filter by PID\n".toList ++
  ascii "ppid <ppid>      - Filter by parent PID\n".toList ++
  ascii "comm <command>   - Filter by command name\n".toList ++
  ascii "minlife <sec>    - Minimum lifetime filter\n".toList ++
  ascii "maxlife <sec>    - Maximum lifetime filter\n".toList ++
  ascii "reset            - Reset all filters\n".toList

/-- `filter_show`. -/
def filterShow (filter : FilterConfig) : List UInt8 :=
  List.flatten
    [ascii "=== Process Filter Configuration ===\n".toList,
      line "Filter Enabled: " (ascii (if filter.enabled then "YES" else "NO").toList) "\n",
      line "Target PID: " (printInt filter.targetPid) " (0 = any)\n",
      line "Target PPID: " (printInt filter.targetPpid) " (0 = any)\n",
      line "Target Command: " filter.shownComm " (empty = any)\n",
      line "Min Lifetime: " (printInt filter.minLifetime) " seconds (0 = no limit)\n",
      line "Max Lifetime: " (printInt filter.maxLifetime) " seconds (0 = no limit)\n",
      filterCommands]

/-- The configurations differ at most in that one sets no command name and the
other sets the name that is shown for none. -/
structure FilterConfig.ShownAlike (f g : FilterConfig) : Prop where
  targetPid : f.targetPid = g.targetPid
  targetPpid : f.targetPpid = g.targetPpid
  minLifetime : f.minLifetime = g.minLifetime
  maxLifetime : f.maxLifetime = g.maxLifetime
  enabled : f.enabled = g.enabled
  targetComm : f.targetComm.str = g.targetComm.str ∨
    f.targetComm.str = [] ∧ g.targetComm.str = ascii "(any)".toList ∨
    f.targetComm.str = ascii "(any)".toList ∧ g.targetComm.str = []

/-! ### What the commands leave in the fields -/

/-- A command name as `comm` leaves it: short, without white space, and followed by
zeros only. -/
structure IsName (a : CharArray TASK_COMM_LEN) : Prop where
  not_space : ∀ c ∈ a.str, isspace c = false
  lt : a.str.length < TASK_COMM_LEN
  padded : a.bytes = a.str ++ List.replicate (TASK_COMM_LEN - a.str.length) 0

theorem isName_zero : IsName (.zero TASK_COMM_LEN) := by
  have hstr : (CharArray.zero TASK_COMM_LEN).str = [] := rfl
  refine ⟨?_, ?_, ?_⟩
  · simp [hstr]
  · simp [hstr]
  · rw [hstr]
    rfl

/-- What `comm` stores. -/
theorem bytes_strncpy_comm (dest : CharArray TASK_COMM_LEN) {value : List UInt8}
    (h : ∀ c ∈ value, c ≠ 0) :
    ((dest.strncpy value (TASK_COMM_LEN - 1)).set (TASK_COMM_LEN - 1) 0).bytes =
      value.take (TASK_COMM_LEN - 1) ++
        List.replicate (TASK_COMM_LEN - (value.take (TASK_COMM_LEN - 1)).length) 0 := by
  have hbytes := bytes_strncpy_set_last (n := TASK_COMM_LEN - 1) le_rfl dest value
  rwa [cstr_of_ne_zero h] at hbytes

theorem str_strncpy_comm (dest : CharArray TASK_COMM_LEN) {value : List UInt8}
    (h : ∀ c ∈ value, c ≠ 0) :
    ((dest.strncpy value (TASK_COMM_LEN - 1)).set (TASK_COMM_LEN - 1) 0).str =
      value.take (TASK_COMM_LEN - 1) := by
  have hstr := str_strncpy_set_last (n := TASK_COMM_LEN - 1) le_rfl dest value
  rwa [cstr_of_ne_zero h] at hstr

theorem isName_strncpy (dest : CharArray TASK_COMM_LEN) {value : List UInt8}
    (h : ∀ c ∈ value, c ≠ 0 ∧ isspace c = false) :
    IsName ((dest.strncpy value (TASK_COMM_LEN - 1)).set (TASK_COMM_LEN - 1) 0) := by
  have hstr := str_strncpy_comm dest fun c hc => (h c hc).1
  refine ⟨fun c hc => ?_, ?_, ?_⟩
  · rw [hstr] at hc
    exact (h c (List.mem_of_mem_take hc)).2
  · rw [hstr]
    exact Nat.lt_succ_of_le (List.length_take_le ..)
  · rw [hstr, bytes_strncpy_comm dest fun c hc => (h c hc).1]

/-- A stored name is stored again as it is. -/
theorem IsName.strncpy_str {a : CharArray TASK_COMM_LEN} (h : IsName a)
    (dest : CharArray TASK_COMM_LEN) :
    (dest.strncpy a.str (TASK_COMM_LEN - 1)).set (TASK_COMM_LEN - 1) 0 = a := by
  apply CharArray.eq_of_bytes
  have hzero : ∀ c ∈ a.str, c ≠ 0 := fun c hc => ne_zero_of_mem_cstr hc
  have hwhole : a.str.take (TASK_COMM_LEN - 1) = a.str :=
    List.take_of_length_le (Nat.le_of_lt_succ h.lt)
  rw [bytes_strncpy_comm dest hzero, hwhole, ← h.padded]

/-- One write to the filter file, as far as the filter goes. -/
def FilterConfig.write (longBits : ℕ) (filter : FilterConfig) (w : UserWrite) : FilterConfig :=
  match w.copy 128 with
  | .error _ => filter
  | .ok cmd => filter.command longBits (stripNewline cmd)

theorem filter_filterWrite (w : UserWrite) (s : Monitor K) :
    (filterWrite w s).1.filter = s.filter.write K.bitsPerLong w := by
  rw [filterWrite, FilterConfig.write]
  cases w.copy 128 <;> rfl

theorem isName_assign {longBits : ℕ} {op value : List UInt8} {filter : FilterConfig}
    (h : IsName filter.targetComm) (hvalue : ∀ c ∈ value, c ≠ 0 ∧ isspace c = false) :
    IsName (filter.assign longBits op value).targetComm := by
  rw [FilterConfig.assign]
  split_ifs
  · exact h
  · exact h
  · exact isName_strncpy filter.targetComm hvalue
  · exact h
  · exact h
  · exact h

theorem isName_command {longBits : ℕ} {cmd : List UInt8} {filter : FilterConfig}
    (h : IsName filter.targetComm) : IsName (filter.command longBits cmd).targetComm := by
  rw [FilterConfig.command]
  split_ifs
  · exact h
  · exact h
  · exact isName_zero
  · split
    · exact h
    · rename_i hscan
      exact isName_assign h (word_of_sscanfWords hscan)

theorem isName_write {longBits : ℕ} {filter : FilterConfig} (h : IsName filter.targetComm)
    (w : UserWrite) : IsName (filter.write longBits w).targetComm := by
  rw [FilterConfig.write]
  cases w.copy 128 with
  | error e => exact h
  | ok cmd => exact isName_command h

/-! ### Reading the text -/

/-- The value on a line ends where what follows it begins. -/
theorem line_inj {label note : String} {c : UInt8} {r : List UInt8}
    (hnote : ascii note.toList = c :: r) {v v' t t' : List UInt8} (hv : c ∉ v) (hv' : c ∉ v')
    (h : line label v note ++ t = line label v' note ++ t') : v = v' ∧ t = t' := by
  simp only [line, hnote, List.append_assoc, List.cons_append] at h
  obtain ⟨hvalue, hrest⟩ := append_cons_inj hv hv' (List.append_cancel_left h)
  exact ⟨hvalue, List.append_cancel_left hrest⟩

theorem space_notMem_printInt (x : BitVec 32) : 32 ∉ printInt x := fun h =>
  absurd ((isWord_printInt x).not_space 32 h) (by decide)

theorem space_notMem_shownComm {filter : FilterConfig} (h : IsName filter.targetComm) :
    32 ∉ filter.shownComm := by
  rw [FilterConfig.shownComm]
  split
  · exact fun hspace => absurd (h.not_space 32 hspace) (by decide)
  · decide

theorem strlen_eq_zero_iff {filter : FilterConfig} :
    strlen filter.targetComm.bytes = 0 ↔ filter.targetComm.str = [] :=
  List.length_eq_zero_iff

/-- What is shown determines the configuration, up to the name that is shown for
none. -/
theorem shownAlike_of_filterShow_eq {f g : FilterConfig} (hf : IsName f.targetComm)
    (hg : IsName g.targetComm) (h : filterShow f = filterShow g) : f.ShownAlike g := by
  simp only [filterShow, List.flatten_cons] at h
  obtain ⟨henabled, h⟩ := line_inj (c := 10) rfl (by cases f.enabled <;> decide)
    (by cases g.enabled <;> decide) (List.append_cancel_left h)
  obtain ⟨hpid, h⟩ := line_inj (c := 32) rfl (space_notMem_printInt _) (space_notMem_printInt _) h
  obtain ⟨hppid, h⟩ := line_inj (c := 32) rfl (space_notMem_printInt _) (space_notMem_printInt _) h
  obtain ⟨hcomm, h⟩ := line_inj (c := 32) rfl (space_notMem_shownComm hf)
    (space_notMem_shownComm hg) h
  obtain ⟨hmin, h⟩ := line_inj (c := 32) rfl (space_notMem_printInt _) (space_notMem_printInt _) h
  obtain ⟨hmax, -⟩ := line_inj (c := 32) rfl (space_notMem_printInt _) (space_notMem_printInt _) h
  refine ⟨printInt_injective hpid, printInt_injective hppid, printInt_injective hmin,
    printInt_injective hmax, ?_, ?_⟩
  · revert henabled
    cases f.enabled <;> cases g.enabled <;> decide
  · -- either name may be the one shown for none
    rw [FilterConfig.shownComm, FilterConfig.shownComm] at hcomm
    simp only [ne_eq, strlen_eq_zero_iff] at hcomm
    by_cases hfset : f.targetComm.str = []
    · by_cases hgset : g.targetComm.str = []
      · exact .inl (hfset.trans hgset.symm)
      · rw [if_neg (not_not.mpr hfset), if_pos hgset] at hcomm
        exact .inr (.inl ⟨hfset, hcomm.symm⟩)
    · by_cases hgset : g.targetComm.str = []
      · rw [if_pos hfset, if_neg (not_not.mpr hgset)] at hcomm
        exact .inr (.inr ⟨hcomm, hgset⟩)
      · rw [if_pos hfset, if_pos hgset] at hcomm
        exact .inl hcomm

/-! ### Writing the text back -/

/-- What one command sets. -/
inductive Setting
  | targetPid
  | targetPpid
  | targetComm
  | minLifetime
  | maxLifetime
  | enabled
  deriving DecidableEq

/-- The command that sets it to what is shown. -/
def Setting.command (filter : FilterConfig) : Setting → List UInt8
  | .targetPid => ascii "pid".toList ++ 32 :: printInt filter.targetPid
  | .targetPpid => ascii "ppid".toList ++ 32 :: printInt filter.targetPpid
  | .targetComm => ascii "comm".toList ++ 32 :: filter.shownComm
  | .minLifetime => ascii "minlife".toList ++ 32 :: printInt filter.minLifetime
  | .maxLifetime => ascii "maxlife".toList ++ 32 :: printInt filter.maxLifetime
  | .enabled => ascii (if filter.enabled then "enable" else "disable").toList

/-- The settings to write: all, or all but a command name that is not set. -/
def FilterConfig.settings (filter : FilterConfig) : List Setting :=
  [.targetPid, .targetPpid, .minLifetime, .maxLifetime] ++
    (if strlen filter.targetComm.bytes ≠ 0 then [.targetComm] else []) ++ [.enabled]

/-- A write of a command, with a newline or without. -/
def commandWrite (cmd : List UInt8) (newline : Bool) : UserWrite where
  bytes := cmd ++ if newline then [10] else []

/-- `g` with one setting of `f`. -/
def Setting.copy (f g : FilterConfig) : Setting → FilterConfig
  | .targetPid => { g with targetPid := f.targetPid }
  | .targetPpid => { g with targetPpid := f.targetPpid }
  | .targetComm => { g with targetComm := f.targetComm }
  | .minLifetime => { g with minLifetime := f.minLifetime }
  | .maxLifetime => { g with maxLifetime := f.maxLifetime }
  | .enabled => { g with enabled := f.enabled }

/-- A short command without a newline arrives as it is. -/
theorem write_commandWrite {longBits : ℕ} {cmd : List UInt8} (hlen : cmd.length < 127)
    (hline : 10 ∉ cmd) (newline : Bool) (g : FilterConfig) :
    g.write longBits (commandWrite cmd newline) = g.command longBits cmd := by
  have hfits : ¬ 128 ≤ (commandWrite cmd newline).bytes.length := by
    cases newline <;> simp [commandWrite] <;> omega
  have hstrip : stripNewline (commandWrite cmd newline).bytes = cmd := by
    cases newline with
    | false =>
        have hlast : cmd.getLast? ≠ some 10 := fun hlast => hline (List.mem_of_getLast? hlast)
        simp [commandWrite, stripNewline, hlast]
    | true => simp [commandWrite, stripNewline]
  rw [FilterConfig.write, UserWrite.copy, if_neg hfits]
  exact congrArg (g.command longBits) hstrip

/-- A command of two words assigns a field. -/
theorem write_words {longBits : ℕ} {op value : List UInt8} (hop : IsWord op)
    (hvalue : IsWord value) (h₁ : op.length ≤ 31) (h₂ : value.length ≤ 63) (newline : Bool)
    (g : FilterConfig) :
    g.write longBits (commandWrite (op ++ 32 :: value) newline) = g.assign longBits op value := by
  have hlen : (op ++ 32 :: value).length < 127 := by
    rw [List.length_append, List.length_cons]
    omega
  -- no command of one word has a space in it
  have hne : ∀ s : List UInt8, 32 ∉ cstr s → strcmp (op ++ 32 :: value) s ≠ 0 := by
    intro s hs heq
    apply hs
    rw [← strcmp_eq_zero_iff.mp heq, cstr_words hop hvalue]
    exact List.mem_append_right _ (List.mem_cons_self ..)
  rw [write_commandWrite hlen (newline_notMem_words hop hvalue), FilterConfig.command,
    if_neg (hne _ (by decide)), if_neg (hne _ (by decide)), if_neg (hne _ (by decide)),
    sscanfWords_append hop hvalue h₁ h₂]

/-- **One command.** The command of a setting copies it, whatever the other
settings are. -/
theorem write_command {longBits : ℕ} (hbits : 32 ≤ longBits) {f : FilterConfig}
    (hf : IsName f.targetComm) {setting : Setting} (hsetting : setting ∈ f.settings)
    (newline : Bool) (g : FilterConfig) :
    g.write longBits (commandWrite (setting.command f) newline) = setting.copy f g := by
  have hassign : ∀ (op : List UInt8) (x : BitVec 32), IsWord op → op.length ≤ 31 →
      g.write longBits (commandWrite (op ++ 32 :: printInt x) newline) =
        g.assign longBits op (printInt x) := fun op x hop hlen =>
    write_words hop (isWord_printInt x) hlen ((length_printInt_le x).trans (by decide)) newline g
  cases setting with
  | targetPid =>
      rw [Setting.command, hassign _ _ (by decide) (by decide)]
      show { g with targetPid := _ } = { g with targetPid := f.targetPid }
      rw [simpleStrtol_printInt hbits]
  | targetPpid =>
      rw [Setting.command, hassign _ _ (by decide) (by decide)]
      show { g with targetPpid := _ } = { g with targetPpid := f.targetPpid }
      rw [simpleStrtol_printInt hbits]
  | minLifetime =>
      rw [Setting.command, hassign _ _ (by decide) (by decide)]
      show { g with minLifetime := _ } = { g with minLifetime := f.minLifetime }
      rw [simpleStrtol_printInt hbits]
  | maxLifetime =>
      rw [Setting.command, hassign _ _ (by decide) (by decide)]
      show { g with maxLifetime := _ } = { g with maxLifetime := f.maxLifetime }
      rw [simpleStrtol_printInt hbits]
  | enabled =>
      rw [Setting.command, Setting.copy]
      cases f.enabled with
      | false => exact write_commandWrite (by decide) (by decide) newline g
      | true => exact write_commandWrite (by decide) (by decide) newline g
  | targetComm =>
      have hset : strlen f.targetComm.bytes ≠ 0 := by
        intro hzero
        simp [FilterConfig.settings, hzero] at hsetting
      have hword : IsWord f.targetComm.str :=
        ⟨fun hnil => hset (strlen_eq_zero_iff.mpr hnil), hf.not_space,
          fun c hc => ne_zero_of_mem_cstr hc⟩
      rw [Setting.command, FilterConfig.shownComm, if_pos hset,
        write_words (by decide) hword (by decide)
          (hf.lt.le.trans (by decide))]
      show { g with targetComm := _ } = { g with targetComm := f.targetComm }
      rw [hf.strncpy_str]

/-! ### All of them -/

/-- `g` has this setting of `f`. -/
def Setting.Agrees (f g : FilterConfig) : Setting → Prop
  | .targetPid => g.targetPid = f.targetPid
  | .targetPpid => g.targetPpid = f.targetPpid
  | .targetComm => g.targetComm = f.targetComm
  | .minLifetime => g.minLifetime = f.minLifetime
  | .maxLifetime => g.maxLifetime = f.maxLifetime
  | .enabled => g.enabled = f.enabled

theorem Setting.agrees_copy (setting : Setting) (f g : FilterConfig) :
    setting.Agrees f (setting.copy f g) := by
  cases setting <;> rfl

/-- Copying another setting spoils nothing. -/
theorem Setting.Agrees.copy {f g : FilterConfig} {setting : Setting} (h : setting.Agrees f g)
    (other : Setting) : setting.Agrees f (other.copy f g) := by
  cases setting <;> cases other <;> first | exact h | rfl

theorem eq_of_agrees {f g : FilterConfig} (h : ∀ setting : Setting, setting.Agrees f g) :
    g = f := by
  have hpid : g.targetPid = f.targetPid := h .targetPid
  have hppid : g.targetPpid = f.targetPpid := h .targetPpid
  have hcomm : g.targetComm = f.targetComm := h .targetComm
  have hmin : g.minLifetime = f.minLifetime := h .minLifetime
  have hmax : g.maxLifetime = f.maxLifetime := h .maxLifetime
  have henabled : g.enabled = f.enabled := h .enabled
  cases g
  simp only at hpid hppid hcomm hmin hmax henabled
  rw [hpid, hppid, hcomm, hmin, hmax, henabled]

theorem agrees_run_copy {f g : FilterConfig} {setting : Setting} {settings : List Setting}
    (h : setting ∈ settings ∨ setting.Agrees f g) :
    setting.Agrees f (run (Setting.copy f) g settings) := by
  induction settings generalizing g with
  | nil => exact h.resolve_left (by simp)
  | cons other settings ih =>
      apply ih
      rcases h with hmem | hagrees
      · rcases List.mem_cons.mp hmem with rfl | hmem
        · exact .inr (setting.agrees_copy f g)
        · exact .inl hmem
      · exact .inr (hagrees.copy other)

/-- In any order the settings make up the configuration. -/
theorem run_copy_eq {f : FilterConfig} (hf : IsName f.targetComm) {settings : List Setting}
    (hperm : settings.Perm f.settings) : run (Setting.copy f) .zero settings = f := by
  apply eq_of_agrees
  intro setting
  apply agrees_run_copy
  by_cases hmem : setting ∈ f.settings
  · exact .inl (hperm.mem_iff.mpr hmem)
  · -- only a command name that is not set is left out, and `reset` leaves none
    right
    cases setting with
    | targetComm =>
        have hunset : f.targetComm.str = [] := by
          apply strlen_eq_zero_iff.mp
          by_contra hset
          simp [FilterConfig.settings, hset] at hmem
        apply CharArray.eq_of_bytes
        rw [hf.padded, hunset]
        rfl
    | targetPid | targetPpid | minLifetime | maxLifetime | enabled =>
        simp [FilterConfig.settings] at hmem

/-- **Writing it back.** `reset` and the commands for what is shown, in any order,
make the configuration again, whatever it was before. -/
theorem run_write_restores {longBits : ℕ} (hbits : 32 ≤ longBits) {f : FilterConfig}
    (hf : IsName f.targetComm) {settings : List Setting} (hperm : settings.Perm f.settings)
    (newline : Bool) (newlines : Setting → Bool) (g : FilterConfig) :
    run (FilterConfig.write longBits) g
      (commandWrite (ascii "reset".toList) newline ::
        settings.map fun setting => commandWrite (setting.command f) (newlines setting)) = f := by
  have hreset : g.write longBits (commandWrite (ascii "reset".toList) newline) = .zero :=
    write_commandWrite (by decide) (by decide) newline g
  have hrun : ∀ (settings : List Setting) (g : FilterConfig),
      (∀ setting ∈ settings, setting ∈ f.settings) →
      run (FilterConfig.write longBits) g
        (settings.map fun setting => commandWrite (setting.command f) (newlines setting)) =
        run (Setting.copy f) g settings := by
    intro settings
    induction settings with
    | nil => exact fun _ _ => rfl
    | cons setting settings ih =>
        intro g hmem
        rw [List.map_cons, run_cons, run_cons,
          write_command hbits hf (hmem setting (List.mem_cons_self ..))]
        exact ih _ fun other hother => hmem other (List.mem_cons_of_mem _ hother)
  rw [run_cons, hreset, hrun settings _ fun _ h => hperm.mem_iff.mp h]
  exact run_copy_eq hf hperm

/-! ### Reachable configurations -/

/-- The module under one write to the filter file. -/
def filterStep (s : Monitor K) (w : UserWrite) : Monitor K := (filterWrite w s).1

theorem filter_run_filterStep (s : Monitor K) (ws : List UserWrite) :
    (run filterStep s ws).filter = run (FilterConfig.write K.bitsPerLong) s.filter ws :=
  have hsimulates : Simulation filterStep (FilterConfig.write K.bitsPerLong) (fun _ => True)
      (Monitor.filter (K := K)) :=
    ⟨fun _ _ _ => trivial, fun s w _ => filter_filterWrite w s⟩
  hsimulates.run_eq trivial ws

/-- The configuration after any writes to the filter file. -/
def FilterConfig.reached (K : Kernel) (ws : List UserWrite) : FilterConfig :=
  (run filterStep (Monitor.load K) ws).filter

theorem isName_reached (K : Kernel) (ws : List UserWrite) :
    IsName (FilterConfig.reached K ws).targetComm := by
  rw [FilterConfig.reached, filter_run_filterStep]
  exact run_invariant (I := fun filter : FilterConfig => IsName filter.targetComm)
    (fun _ w h => isName_write h w) isName_zero ws

/-- **The text is the configuration.** Configurations shown by the same text are
alike, and each is made again from what is shown of it. -/
theorem filter_shown_and_restored (K : Kernel) :
    (∀ ws ws' : List UserWrite,
      filterShow (FilterConfig.reached K ws) = filterShow (FilterConfig.reached K ws') →
        (FilterConfig.reached K ws).ShownAlike (FilterConfig.reached K ws')) ∧
    ∀ (ws : List UserWrite) (settings : List Setting) (newline : Bool) (newlines : Setting → Bool)
      (s : Monitor K), settings.Perm (FilterConfig.reached K ws).settings →
        (run filterStep s
          (commandWrite (ascii "reset".toList) newline ::
            settings.map fun setting =>
              commandWrite (setting.command (FilterConfig.reached K ws))
                (newlines setting))).filter =
          FilterConfig.reached K ws := by
  refine ⟨fun ws ws' h => ?_, fun ws settings newline newlines s hperm => ?_⟩
  · exact shownAlike_of_filterShow_eq (isName_reached K ws) (isName_reached K ws') h
  · rw [filter_run_filterStep]
    exact run_write_restores K.bitsPerLong_ge (isName_reached K ws) hperm newline newlines s.filter

/-- A command name that is not set is shown as the name `(any)`, which can be set. -/
theorem not_same_of_shown_any :
    ¬ ∀ ws ws' : List UserWrite,
      filterShow (FilterConfig.reached .x86_64 ws) = filterShow (FilterConfig.reached .x86_64 ws') →
        (FilterConfig.reached .x86_64 ws).targetComm.str =
          (FilterConfig.reached .x86_64 ws').targetComm.str := by
  intro h
  have hcomm := h [] [commandWrite (ascii "comm (any)".toList) true] rfl
  revert hcomm
  decide

end KernelModules.CompleteMonitor
