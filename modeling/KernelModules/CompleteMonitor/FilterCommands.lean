import KernelModules.CompleteMonitor.FilterMeaning

/-!
The filter commands that have an argument.

`filter_write` takes two words and looks at nothing else: a number is what the
second word starts with, or 0, and a command name ends at its first white space.
What the commands say is stated here of the whole argument.
-/

namespace KernelModules.CompleteMonitor

open Lib

variable {K : Kernel}

/-- The commands that are one word. -/
def wholeCommands : List (List UInt8) :=
  [ascii "enable".toList, ascii "disable".toList, ascii "reset".toList]

theorem wholeCommands_words : ∀ s ∈ wholeCommands, cstr s = s ∧ firstWord s = s := by
  decide

/-- A command that starts with another word takes the word after it, if there is one. -/
theorem command_words {longBits : ℕ} {cmd : List UInt8} (hzero : ∀ c ∈ cmd, c ≠ 0)
    (hword : firstWord cmd ≠ []) (hother : firstWord cmd ∉ wholeCommands)
    (hlen : (firstWord cmd).length ≤ 31) (filter : FilterConfig) :
    filter.command longBits cmd =
      if firstWord (afterWord cmd) = [] then filter
      else filter.assign longBits (firstWord cmd) ((firstWord (afterWord cmd)).take 63) := by
  have hne : ∀ s ∈ wholeCommands, strcmp cmd s ≠ 0 := by
    intro s hs heq
    obtain ⟨hcstr, hself⟩ := wholeCommands_words s hs
    have hcmd : cmd = s := by
      rw [← cstr_of_ne_zero hzero, strcmp_eq_zero_iff.mp heq, hcstr]
    exact hother (by rwa [hcmd, hself])
  rw [FilterConfig.command, if_neg (hne _ (by decide)), if_neg (hne _ (by decide)),
    if_neg (hne _ (by decide)), sscanfWords_eq hzero hword hlen]
  split_ifs
  · rfl
  · rfl

/-! ### Numbers -/

/-- The commands whose argument is a number. -/
inductive NumberCommand
  | pid
  | ppid
  | minlife
  | maxlife

namespace NumberCommand

def name : NumberCommand → List UInt8
  | .pid => ascii "pid".toList
  | .ppid => ascii "ppid".toList
  | .minlife => ascii "minlife".toList
  | .maxlife => ascii "maxlife".toList

/-- The field of the command. -/
def get (filter : FilterConfig) : NumberCommand → CInt
  | .pid => filter.targetPid
  | .ppid => filter.targetPpid
  | .minlife => filter.minLifetime
  | .maxlife => filter.maxLifetime

/-- The configuration with another value in that field. -/
def set (x : CInt) (filter : FilterConfig) : NumberCommand → FilterConfig
  | .pid => { filter with targetPid := x }
  | .ppid => { filter with targetPpid := x }
  | .minlife => { filter with minLifetime := x }
  | .maxlife => { filter with maxLifetime := x }

/-- What the command says: an argument that is an `int` in decimal becomes the field,
and anything else is refused. -/
def meant (argument : List UInt8) (filter : FilterConfig) (c : NumberCommand) : FilterConfig :=
  match numeral (trimSpaces argument) with
  | none => filter
  | some n => if FitsInt n then c.set (BitVec.ofInt 32 n) filter else filter

theorem get_set (x : CInt) (filter : FilterConfig) (c : NumberCommand) :
    c.get (c.set x filter) = x := by
  cases c <;> rfl

theorem assign_name {longBits : ℕ} (hbits : 32 ≤ longBits) (value : List UInt8)
    (filter : FilterConfig) (c : NumberCommand) :
    filter.assign longBits c.name value =
      c.set (BitVec.ofInt 32 ((leadingNumber value).getD 0)) filter := by
  rw [← simpleStrtol_eq hbits]
  cases c <;> rfl

/-- What the command does: the number that the second word starts with becomes the
field, narrowed to an `int`. -/
theorem command_eq {longBits : ℕ} (hbits : 32 ≤ longBits) {cmd : List UInt8}
    (hzero : ∀ c ∈ cmd, c ≠ 0) (c : NumberCommand) (hword : firstWord cmd = c.name)
    (filter : FilterConfig) :
    filter.command longBits cmd =
      if firstWord (afterWord cmd) = [] then filter
      else c.set (BitVec.ofInt 32
        ((leadingNumber ((firstWord (afterWord cmd)).take 63)).getD 0)) filter := by
  have hname : c.name ≠ [] ∧ c.name ∉ wholeCommands ∧ c.name.length ≤ 31 := by
    cases c <;> decide
  rw [command_words hzero (by rw [hword]; exact hname.1) (by rw [hword]; exact hname.2.1)
    (by rw [hword]; exact hname.2.2), hword, c.assign_name hbits]

/-- The arguments that a command takes for what they say: none at all, or one `int`
in decimal. The buffer for it holds 63 characters; of a longer one only 0 is left
as it is. -/
def Taken (argument : List UInt8) : Prop :=
  trimSpaces argument = [] ∨ ∃ n, numeral (trimSpaces argument) = some n ∧ FitsInt n ∧
    ((trimSpaces argument).length ≤ 63 ∨ n = 0)

/-- Such an argument is taken for what it says. -/
theorem meant_of_taken {argument : List UInt8} (h : Taken argument) (filter : FilterConfig)
    (c : NumberCommand) :
    (if firstWord argument = [] then filter
      else c.set (BitVec.ofInt 32 ((leadingNumber ((firstWord argument).take 63)).getD 0))
        filter) = c.meant argument filter := by
  rw [meant]
  rcases h with hnil | ⟨n, hnumeral, hfits, hshort⟩
  · rw [if_pos (trimSpaces_eq_nil_iff.mp hnil), hnil]
    rfl
  · have hword := isWord_of_numeral hnumeral
    have hread : leadingNumber ((trimSpaces argument).take 63) = some n := by
      by_cases hlen : (trimSpaces argument).length ≤ 63
      · rw [List.take_of_length_le hlen]
        exact leadingNumber_of_numeral hnumeral
      · obtain ⟨m, hcut, -, hsame⟩ :=
          numeral_take hnumeral (k := 63) (by decide) (Nat.not_le.mp hlen)
        rw [leadingNumber_of_numeral hcut, hsame.mpr (hshort.resolve_left hlen)]
    rw [firstWord_eq_trim hword, if_neg hword.ne_nil, hread, hnumeral, Option.getD_some]
    exact (if_pos hfits).symm

/-- Any other argument is taken for something else, but for one configuration at most. -/
theorem not_meant_of_not_taken {argument : List UInt8} (h : ¬ Taken argument)
    (c : NumberCommand) :
    firstWord argument ≠ [] ∧ ∃ x : CInt, ∀ filter : FilterConfig,
      c.set (BitVec.ofInt 32 ((leadingNumber ((firstWord argument).take 63)).getD 0)) filter =
        c.meant argument filter → c.get filter = x := by
  have hword : firstWord argument ≠ [] := fun hnil => h (.inl (trimSpaces_eq_nil_iff.mpr hnil))
  refine ⟨hword, BitVec.ofInt 32 ((leadingNumber ((firstWord argument).take 63)).getD 0),
    fun filter heq => ?_⟩
  have hget := congrArg (fun filter => c.get filter) heq
  simp only [get_set] at hget
  rw [hget, meant]
  cases hnumeral : numeral (trimSpaces argument) with
  | none => rfl
  | some n =>
      by_cases hfits : FitsInt n
      · -- the buffer cuts the numeral, and what is left is another `int`
        exfalso
        have hnot := not_or.mp h
        have hlen : 63 < (trimSpaces argument).length := by
          by_contra hshort
          exact hnot.2 ⟨n, hnumeral, hfits, .inl (Nat.not_lt.mp hshort)⟩
        obtain ⟨m, hcut, hcutFits, hsame⟩ := numeral_take hnumeral (k := 63) (by decide) hlen
        rw [firstWord_eq_trim (isWord_of_numeral hnumeral), leadingNumber_of_numeral hcut,
          Option.getD_some, meant, hnumeral] at hget
        simp only [if_pos hfits, get_set] at hget
        have hmn : m = n := by
          rw [← toInt_ofInt_of_fits (hcutFits hfits), hget, toInt_ofInt_of_fits hfits]
        exact hnot.2 ⟨n, hnumeral, hfits, .inr (hsame.mp hmn)⟩
      · simp only [if_neg hfits]

end NumberCommand

theorem FilterConfig.reached_concat (K : Kernel) (ws : List UserWrite) (w : UserWrite) :
    FilterConfig.reached K (ws ++ [w]) = (FilterConfig.reached K ws).write K.bitsPerLong w := by
  rw [reached, reached, filter_run_filterStep, filter_run_filterStep, run_concat]

/-- Every value of a field is missed by some configuration that can be reached. -/
theorem NumberCommand.exists_reached_get_ne (K : Kernel) (c : NumberCommand) (x : CInt) :
    ∃ ws, c.get (FilterConfig.reached K ws) ≠ x := by
  have hset : FilterConfig.reached K [commandWrite (c.name ++ 32 :: printInt 1) true] =
      c.set 1 .zero := by
    have hword : IsWord c.name := by cases c <;> decide
    have hlen : c.name.length ≤ 31 := by cases c <;> decide
    rw [← List.nil_append [_], FilterConfig.reached_concat,
      write_words hword (isWord_printInt 1) hlen ((length_printInt_le 1).trans (by decide)),
      c.assign_name K.bitsPerLong_ge, leadingNumber_of_numeral (numeral_printInt 1)]
    rfl
  by_cases hx : x = 0
  · refine ⟨[commandWrite (c.name ++ 32 :: printInt 1) true], fun h => ?_⟩
    rw [hset, c.get_set, hx] at h
    cases h
  · refine ⟨[], fun h => hx ?_⟩
    rw [← h]
    cases c <;> rfl

/-- **Number commands.** A command whose first word is `pid`, `ppid`, `minlife` or
`maxlife` does what it says, from every configuration that can be reached, exactly when
its argument is missing or is one `int` in decimal that the buffer does not cut (0
apart). -/
theorem number_commands_iff (K : Kernel) (c : NumberCommand) {text : List UInt8}
    (hlen : text.length < 128) (hzero : 0 ∉ text)
    (hword : firstWord (stripNewline text) = c.name) :
    (∀ ws : List UserWrite, FilterConfig.reached K (ws ++ [{ bytes := text }]) =
        c.meant (afterWord (stripNewline text)) (FilterConfig.reached K ws)) ↔
      NumberCommand.Taken (afterWord (stripNewline text)) := by
  have hstripped : ∀ b ∈ stripNewline text, b ≠ 0 := by
    rintro b hb rfl
    rw [stripNewline] at hb
    split at hb
    · exact hzero (List.mem_of_mem_dropLast hb)
    · exact hzero hb
  have hwrite : ∀ filter : FilterConfig, filter.write K.bitsPerLong { bytes := text } =
      filter.command K.bitsPerLong (stripNewline text) := by
    intro filter
    rw [FilterConfig.write, UserWrite.copy, if_neg (Nat.not_le.mpr hlen)]
    rfl
  simp only [FilterConfig.reached_concat, hwrite,
    c.command_eq K.bitsPerLong_ge hstripped hword]
  constructor
  · intro h
    by_contra hnot
    obtain ⟨hsome, x, hx⟩ := NumberCommand.not_meant_of_not_taken hnot c
    obtain ⟨ws, hws⟩ := c.exists_reached_get_ne K x
    have hmeant := h ws
    rw [if_neg hsome] at hmeant
    exact hws (hx _ hmeant)
  · intro h ws
    exact NumberCommand.meant_of_taken h _ c

theorem number_commands_of_pid_12 :
    FilterConfig.reached .x86_64 [{ bytes := ascii "pid  12\n".toList }] =
      NumberCommand.pid.meant (ascii "  12".toList) .zero :=
  have hlen : (ascii "pid  12\n".toList).length < 128 := by decide
  (number_commands_iff .x86_64 .pid hlen (by decide) (by decide)).mpr
    (.inr ⟨12, by decide, by decide, by decide⟩) []

/-- `pid 12abc` is taken for `pid 12`. -/
theorem not_meant_of_trailing_text :
    ¬ ∀ (c : NumberCommand) (text : List UInt8), text.length < 128 → 0 ∉ text →
      firstWord (stripNewline text) = c.name → ∀ ws : List UserWrite,
        FilterConfig.reached .x86_64 (ws ++ [{ bytes := text }]) =
          c.meant (afterWord (stripNewline text)) (FilterConfig.reached .x86_64 ws) := by
  intro h
  have hpid := h .pid (ascii "pid 12abc\n".toList) (by decide) (by decide) (by decide) []
  revert hpid
  decide

/-! ### Command names -/

/-- The writes that select a command name, each with a newline or without. -/
def selectName (name : List UInt8) (newline₁ newline₂ newline₃ : Bool) : List UserWrite :=
  [commandWrite (ascii "reset".toList) newline₁,
    commandWrite (ascii "comm ".toList ++ name) newline₂,
    commandWrite (ascii "enable".toList) newline₃]

/-- The command takes the first word of the name, if there is one. -/
theorem write_comm {longBits : ℕ} {name : List UInt8} (hlen : name.length ≤ 15)
    (hzero : 0 ∉ name) (hline : 10 ∉ name) (newline : Bool) (filter : FilterConfig) :
    filter.write longBits (commandWrite (ascii "comm ".toList ++ name) newline) =
      if firstWord name = [] then filter
      else filter.assign longBits (ascii "comm".toList) (firstWord name) := by
  have hshort : (ascii "comm ".toList ++ name).length < 127 := by
    rw [List.length_append]
    exact Nat.lt_of_le_of_lt (Nat.add_le_add_left hlen _) (by decide)
  have hnewline : 10 ∉ ascii "comm ".toList ++ name := by
    rw [List.mem_append, not_or]
    exact ⟨by decide, hline⟩
  have hnul : ∀ c ∈ ascii "comm".toList ++ 32 :: name, c ≠ 0 := by
    rintro c hc rfl
    rcases List.mem_append.mp hc with hc | hc
    · exact absurd hc (by decide)
    · exact hzero ((List.mem_cons.mp hc).resolve_left (by decide))
  have hword : (firstWord name).length ≤ 63 :=
    (firstWord_sublist name).length_le.trans (hlen.trans (by decide))
  have hcomm : IsWord (ascii "comm".toList) := by decide
  have hspace : ∀ c ∈ (32 :: name).head?, isspace c = true := by
    simp
    decide
  obtain ⟨hfirst, hafter⟩ := firstWord_append hcomm hspace
  have hcommand := @command_words longBits _ hnul (by rw [hfirst]; decide)
    (by rw [hfirst]; decide) (by rw [hfirst]; decide) filter
  rw [hfirst, hafter, firstWord_cons_space (by decide), List.take_of_length_le hword] at hcommand
  rw [write_commandWrite hshort hnewline]
  exact hcommand

/-- What the writes leave behind: a filter for the first word of the name. -/
theorem filter_selectName (s : Monitor K) {name : List UInt8} (hlen : name.length ≤ 15)
    (hzero : 0 ∉ name) (hline : 10 ∉ name) (newline₁ newline₂ newline₃ : Bool) :
    ∃ target : CharArray TASK_COMM_LEN, target.str = firstWord name ∧
      (run filterStep s (selectName name newline₁ newline₂ newline₃)).filter =
        { FilterConfig.zero with targetComm := target, enabled := true } := by
  have hreset : s.filter.write K.bitsPerLong (commandWrite (ascii "reset".toList) newline₁) =
      .zero :=
    write_commandWrite (by decide) (by decide) newline₁ s.filter
  have henable : ∀ filter : FilterConfig,
      filter.write K.bitsPerLong (commandWrite (ascii "enable".toList) newline₃) =
        { filter with enabled := true } :=
    write_commandWrite (by decide) (by decide) newline₃
  rw [filter_run_filterStep, selectName, run_cons, run_cons, run_cons, run_nil, hreset, henable,
    write_comm hlen hzero hline]
  split
  · rename_i hnone
    exact ⟨.zero _, by rw [hnone]; rfl, rfl⟩
  · have hnul : ∀ c ∈ firstWord name, c ≠ 0 := by
      rintro c hc rfl
      exact hzero ((firstWord_sublist name).subset hc)
    have hwhole : (firstWord name).take (TASK_COMM_LEN - 1) = firstWord name :=
      List.take_of_length_le ((firstWord_sublist name).length_le.trans hlen)
    exact ⟨_, (str_strncpy_comm (.zero TASK_COMM_LEN) hnul).trans hwhole, rfl⟩

/-- The filter for a command name accepts the records with that name, and without a
name all of them. -/
theorem processMatchesFilter_comm (target : CharArray TASK_COMM_LEN) (record : ProcessRecord K) :
    processMatchesFilter { FilterConfig.zero with targetComm := target, enabled := true } record =
        true ↔
      target.str = [] ∨ record.comm.str = target.str := by
  rw [processMatchesFilter_iff]
  constructor
  · exact fun h => (h rfl).1.comm
  · exact fun h _ => ⟨⟨.inl rfl, .inl rfl, h⟩, fun _ => ⟨.inl rfl, .inl rfl⟩⟩

/-- What `add_process_record` stores of a short name. -/
theorem str_newRecord (pid ppid : PidT) {name : List UInt8} (hlen : name.length ≤ 15)
    (hzero : 0 ∉ name) (jiffies : ULong K) : (newRecord pid ppid name jiffies).comm.str = name := by
  have hnul : ∀ c ∈ name, c ≠ 0 := by
    rintro c hc rfl
    exact hzero hc
  have hcount : 15 ≤ TASK_COMM_LEN := by decide
  have hstr := str_strncpy_set_last hcount (.zero TASK_COMM_LEN) name
  rwa [cstr_of_ne_zero hnul, List.take_of_length_le hlen] at hstr

/-- **Command names.** After `reset`, `comm` with the name, and `enable`, the filter
accepts exactly the records with the name, in every list of records, exactly when no
character of the name is white space. -/
theorem names_selectable_iff (s : Monitor K) {name : List UInt8} (hne : name ≠ [])
    (hlen : name.length ≤ 15) (hzero : 0 ∉ name) (hline : 10 ∉ name)
    (newline₁ newline₂ newline₃ : Bool) :
    (∀ records : List (ProcessRecord K),
      records.filter (processMatchesFilter
        (run filterStep s (selectName name newline₁ newline₂ newline₃)).filter) =
      records.filter fun record => record.comm.str = name) ↔
      ∀ c ∈ name, isspace c = false := by
  obtain ⟨target, htarget, hfilter⟩ :=
    filter_selectName s hlen hzero hline newline₁ newline₂ newline₃
  rw [hfilter]
  constructor
  · intro h
    have haccepts : ∀ record : ProcessRecord K,
        (firstWord name = [] ∨ record.comm.str = firstWord name) ↔ record.comm.str = name := by
      intro record
      have hsame : processMatchesFilter { FilterConfig.zero with
          targetComm := target, enabled := true } record = decide (record.comm.str = name) := by
        have hrecord := h [record]
        rw [List.filter_singleton, List.filter_singleton] at hrecord
        revert hrecord
        cases processMatchesFilter _ record <;> cases decide (record.comm.str = name) <;> simp
      rw [← htarget, ← processMatchesFilter_comm, hsame, decide_eq_true_iff]
    -- a record with the name itself is accepted, so the name is its first word
    have hself := (haccepts (newRecord 0 0 name 0)).mpr (str_newRecord 0 0 hlen hzero 0)
    rw [str_newRecord 0 0 hlen hzero 0] at hself
    rcases hself with hnone | hself
    · exact absurd ((haccepts (.zero K)).mp (.inl hnone)) hne.symm
    · intro c hc
      rw [hself] at hc
      simpa using List.mem_takeWhile_imp hc
  · intro h records
    have hself : firstWord name = name := by
      apply firstWord_eq_self
      refine ⟨hne, h, ?_⟩
      rintro c hc rfl
      exact hzero hc
    apply List.filter_congr
    intro record _
    rw [Bool.eq_iff_iff, processMatchesFilter_comm, htarget, hself, decide_eq_true_iff]
    exact or_iff_right hne

theorem names_selectable_of_bash :
    [newRecord (K := .x86_64) 1 0 (ascii "bash".toList) 0,
      newRecord 2 0 (ascii "cat".toList) 0].filter (processMatchesFilter
        (run filterStep (.load .x86_64) (selectName (ascii "bash".toList) true true true)).filter) =
    [newRecord (K := .x86_64) 1 0 (ascii "bash".toList) 0,
      newRecord 2 0 (ascii "cat".toList) 0].filter fun record =>
        record.comm.str = ascii "bash".toList :=
  (names_selectable_iff (.load .x86_64) (by decide) (by decide) (by decide) (by decide)
    true true true).mpr (IsWord.not_space (by decide)) _

/-- `Web Content` cannot be selected. -/
theorem not_selectable_of_space :
    ¬ ∀ (s : Monitor .x86_64) (name : List UInt8), name ≠ [] → name.length ≤ 15 → 0 ∉ name →
      10 ∉ name → ∀ records : List (ProcessRecord .x86_64),
        records.filter (processMatchesFilter
          (run filterStep s (selectName name true true true)).filter) =
        records.filter fun record => record.comm.str = name := by
  intro h
  have hweb := h (.load .x86_64) (ascii "Web Content".toList) (by decide) (by decide) (by decide)
    (by decide) [newRecord 1 0 (ascii "Web Content".toList) 0]
  revert hweb
  decide

end KernelModules.CompleteMonitor
