import KernelModules.CompleteMonitor.Commands
import KernelModules.ConcurrencyControl.Store
import KernelModules.KernelList.Store
import KernelModules.ProcInterface.Store
import KernelModules.Lib.Uses
import KernelModules.Lib.Numeral
import KernelModules.Lib.Population

/-!
The command handlers, array by array.

Five handlers take a command from user space in the same way: a local buffer, a
length check, the terminator, and the newline that `echo` leaves at the end. Here
they are followed statement by statement over what their arrays hold, with every
use that they make of them.
-/

namespace KernelModules.Handlers

open Lib Noted

/-- One `write` of a command, which may fault part-way. -/
abbrev Write := ProcInterface.MessageWrite

/-- The write as the models of the whole commands see it. -/
def toUserWrite (w : Write) : UserWrite := ⟨w.bytes, w.fault.isSome⟩

/-- What the local arrays hold on entry, and the byte that a read outside of them
delivers. -/
structure Stack where
  cmd32 : CharArray 32
  cmd64 : CharArray 64
  cmd128 : CharArray 128
  name32 : CharArray 32
  op16 : CharArray 16
  op32 : CharArray 32
  value64 : CharArray 64
  stray : UInt8

/-! ### The head that they share -/

/-- `count - 1`, as a `size_t`. -/
def lastIndex (K : Kernel) (count : ℕ) : ℕ := (BitVec.ofNat K.bitsPerLong count - 1).toNat

/-- From the length check to the newline. -/
def receive (K : Kernel) (stray : UInt8) (w : Write) {n : ℕ} (cmd : CharArray n) :
    Noted Errno (CharArray n) :=
  let count := w.bytes.length
  if n ≤ count then fail .EINVAL
  else do
    note (.range n count)
    if w.fault.isSome then fail .EFAULT
    else do
      note (.index n count)
      let cmd := (cmd.memcpy w.bytes).set count 0
      note (.index n (lastIndex K count))
      if cmd.bytes.getD (lastIndex K count) stray = 10 then do
        note (.index n (lastIndex K count))
        pure (cmd.set (lastIndex K count) 0)
      else pure cmd

/-! ### The handlers -/

/-- `simple_strtol(value, NULL, 10)`, narrowed to an `int`. -/
def strtol (K : Kernel) (value : List UInt8) : Noted Errno CInt := do
  note (.string value)
  pure ((simpleStrtol K.bitsPerLong value).setWidth 32)

/-- The assignments of `filter_write` for a command of two words. -/
def assign (K : Kernel) (op : CharArray 32) (value : CharArray 64) :
    Noted Errno (CompleteMonitor.FilterConfig → CompleteMonitor.FilterConfig) :=
  ifStrcmp op.bytes ['p', 'i', 'd'] (do
      let number ← strtol K value.bytes
      pure fun filter => { filter with targetPid := number }) <|
  ifStrcmp op.bytes ['p', 'p', 'i', 'd'] (do
      let number ← strtol K value.bytes
      pure fun filter => { filter with targetPpid := number }) <|
  ifStrcmp op.bytes ['c', 'o', 'm', 'm'] (do
      note (.string value.bytes)
      note (.range TASK_COMM_LEN (TASK_COMM_LEN - 1))
      note (.index TASK_COMM_LEN (TASK_COMM_LEN - 1))
      pure fun filter =>
        { filter with
          targetComm :=
            (filter.targetComm.strncpy value.bytes (TASK_COMM_LEN - 1)).set
              (TASK_COMM_LEN - 1) 0 }) <|
  ifStrcmp op.bytes ['m', 'i', 'n', 'l', 'i', 'f', 'e'] (do
      let number ← strtol K value.bytes
      pure fun filter => { filter with minLifetime := number }) <|
  ifStrcmp op.bytes ['m', 'a', 'x', 'l', 'i', 'f', 'e'] (do
      let number ← strtol K value.bytes
      pure fun filter => { filter with maxLifetime := number }) <|
  pure id

/-- `filter_write`, with what it does to the filter. -/
def filterWrite (K : Kernel) (stack : Stack) (w : Write) :
    Noted Errno (CompleteMonitor.FilterConfig → CompleteMonitor.FilterConfig) := do
  let cmd ← receive K stack.stray w stack.cmd128
  ifStrcmp cmd.bytes ['e', 'n', 'a', 'b', 'l', 'e']
    (pure fun filter => { filter with enabled := true }) <|
  ifStrcmp cmd.bytes ['d', 'i', 's', 'a', 'b', 'l', 'e']
    (pure fun filter => { filter with enabled := false }) <|
  ifStrcmp cmd.bytes ['r', 'e', 's', 'e', 't'] (pure fun _ => .zero) <| do
    -- `sscanf` may write as many characters as its widths allow, and a terminator
    note (.string cmd.bytes)
    note (.range 32 (31 + 1))
    note (.range 64 (63 + 1))
    match sscanfWords 31 63 cmd.bytes with
    | none => pure id
    | some (op, value) =>
        assign K (stack.op32.memcpy (op ++ [0])) (stack.value64.memcpy (value ++ [0]))

/-- `control_write`, with the command that it carries out. -/
def controlWrite (K : Kernel) (stack : Stack) (w : Write) :
    Noted Errno (Option CompleteMonitor.ControlCommand) := do
  let cmd ← receive K stack.stray w stack.cmd64
  ifStrcmp cmd.bytes CompleteMonitor.ControlCommand.start.text (pure (some .start)) <|
  ifStrcmp cmd.bytes CompleteMonitor.ControlCommand.stop.text (pure (some .stop)) <|
  ifStrcmp cmd.bytes CompleteMonitor.ControlCommand.clear.text (pure (some .clear)) <|
  ifStrcmp cmd.bytes CompleteMonitor.ControlCommand.resetStats.text (pure (some .resetStats)) <|
  pure none

/-- `concurrency_write`. What it does not understand is printed. -/
def concurrencyWrite (K : Kernel) (stack : Stack) (w : Write) :
    Noted Errno (Option ConcurrencyControl.Command) := do
  let cmd ← receive K stack.stray w stack.cmd64
  ifStrcmp cmd.bytes "start".toList (pure (some .start)) <|
  ifStrcmp cmd.bytes "stop".toList (pure (some .stop)) <|
  ifStrcmp cmd.bytes "clear".toList (pure (some .clear)) <|
  ifStrcmp cmd.bytes "read".toList (pure (some .read)) <| do
    note (.string cmd.bytes)
    note (.range 16 (15 + 1))
    match sscanfWordInt 15 cmd.bytes with
    | none => do
        note (.string cmd.bytes)
        pure none
    | some (word, value) => do
        let op := stack.op16.memcpy (word ++ [0])
        ifStrcmp op.bytes "spin".toList (pure (some (.add .spinlock value))) <|
        ifStrcmp op.bytes "mutex".toList (pure (some (.add .mutex value))) <|
        ifStrcmp op.bytes "rwlock".toList (pure (some (.add .rwlock value))) <| do
          note (.string op.bytes)
          pure none

/-- `kernel_list_write`. The name is passed on to `add_record`. -/
def kernelListWrite (K : Kernel) (stack : Stack) (w : Write) :
    Noted Errno (Option KernelList.Command) := do
  let cmd ← receive K stack.stray w stack.cmd64
  note (.string cmd.bytes)
  if strncmp cmd.bytes (ascii "add ".toList) 4 = 0 then do
    note (.string (cmd.bytes.drop 4))
    note (.range 32 31)
    note (.index 32 31)
    let name := (stack.name32.strncpy (cmd.bytes.drop 4) 31).set 31 0
    note (.string name.bytes)
    pure (some (.add name.bytes))
  else do
    note (.string cmd.bytes)
    if strncmp cmd.bytes (ascii "del ".toList) 4 = 0 then do
      note (.string (cmd.bytes.drop 4))
      pure ((scanInt (cmd.bytes.drop 4)).map .del)
    else
      ifStrcmp cmd.bytes "clear".toList (pure (some .clear)) <| do
        note (.string cmd.bytes)
        pure none

/-- `counter_write`, with the number that it sets the counter to. -/
def counterWrite (K : Kernel) (stack : Stack) (w : Write) : Noted Errno CInt := do
  let cmd ← receive K stack.stray w stack.cmd32
  ifStrcmp cmd.bytes "reset".toList (pure 0) <| do
    note (.string cmd.bytes)
    match scanInt cmd.bytes with
    | some newValue => pure newValue
    | none => do
        note (.string cmd.bytes)
        fail .EINVAL

/-! ### The head -/

section receive

variable {K : Kernel} {stray : UInt8} {w : Write} {n : ℕ} {cmd : CharArray n}

/-- The buffers are far smaller than memory. -/
theorem lt_two_pow_long (h : n < 2 ^ 32) : n < 2 ^ K.bitsPerLong :=
  h.trans_le (Nat.pow_le_pow_right (by decide) K.bitsPerLong_ge)

theorem lastIndex_of_pos {count : ℕ} (hpos : 0 < count) (hlt : count < 2 ^ K.bitsPerLong) :
    lastIndex K count = count - 1 := by
  have hone := toNat_one_of_pos K.bitsPerLong_pos
  rw [lastIndex, BitVec.toNat_sub_of_le, hone, BitVec.toNat_ofNat, Nat.mod_eq_of_lt hlt]
  rw [BitVec.le_def, hone, BitVec.toNat_ofNat, Nat.mod_eq_of_lt hlt]
  exact hpos

/-- Of an empty write the last byte is looked for at the end of memory. -/
theorem lastIndex_zero (K : Kernel) : lastIndex K 0 = 2 ^ K.bitsPerLong - 1 := by
  have hone := toNat_one_of_pos K.bitsPerLong_pos
  have hlt : 1 < 2 ^ K.bitsPerLong := Nat.one_lt_two_pow K.bitsPerLong_pos.ne'
  rw [lastIndex, BitVec.toNat_sub, hone, BitVec.toNat_ofNat, Nat.zero_mod, Nat.add_zero,
    Nat.mod_eq_of_lt (by omega)]

/-- The buffer that the head of a handler leaves. -/
def received (K : Kernel) (stray : UInt8) (w : Write) (cmd : CharArray n) : CharArray n :=
  let cmd := (cmd.memcpy w.bytes).set w.bytes.length 0
  if cmd.bytes.getD (lastIndex K w.bytes.length) stray = 10 then
    cmd.set (lastIndex K w.bytes.length) 0
  else cmd

theorem result_receive (K : Kernel) (stray : UInt8) (w : Write) (cmd : CharArray n) :
    (receive K stray w cmd).result =
      ((toUserWrite w).copy n).map fun _ => received K stray w cmd := by
  unfold receive UserWrite.copy toUserWrite
  dsimp only
  split
  · rfl
  · split
    · rfl
    · simp only [result_bind, result_note]
      show (if _ then _ else _ : Noted Errno (CharArray n)).result = _
      unfold received
      dsimp only
      split <;> rfl

/-- That is the text without its newline. -/
theorem received_spec (K : Kernel) (stray : UInt8) (cmd : CharArray n) (hn : n < 2 ^ 32)
    (hlen : w.bytes.length < n) :
    0 ∈ (received K stray w cmd).bytes ∧
      cstr (received K stray w cmd).bytes = cstr (stripNewline w.bytes) := by
  have hmemory : n < 2 ^ K.bitsPerLong := lt_two_pow_long hn
  have hcopy : ((cmd.memcpy w.bytes).set w.bytes.length 0).bytes =
      w.bytes ++ 0 :: cmd.bytes.drop (w.bytes.length + 1) := by
    rw [memcpy_set_next cmd hlen, bytes_memcpy_nul cmd hlen]
  have hbytes : (received K stray w cmd).bytes =
      if (w.bytes ++ 0 :: cmd.bytes.drop (w.bytes.length + 1)).getD (lastIndex K w.bytes.length)
          stray = 10 then
        (w.bytes ++ 0 :: cmd.bytes.drop (w.bytes.length + 1)).set (lastIndex K w.bytes.length) 0
      else w.bytes ++ 0 :: cmd.bytes.drop (w.bytes.length + 1) := by
    rw [← hcopy]
    unfold received
    dsimp only
    split <;> rfl
  generalize cmd.bytes.drop (w.bytes.length + 1) = rest at hbytes
  rcases List.eq_nil_or_concat w.bytes with hnil | ⟨text, c, htext⟩
  · -- the terminator is the first byte, whatever is found at the end of memory
    obtain ⟨rest', hrest'⟩ : ∃ rest', (received K stray w cmd).bytes = 0 :: rest' := by
      rw [hbytes, hnil, List.nil_append]
      split
      · cases lastIndex K _ with
        | zero => exact ⟨rest, rfl⟩
        | succ i => exact ⟨rest.set i 0, rfl⟩
      · exact ⟨rest, rfl⟩
    rw [hrest', hnil]
    exact ⟨List.mem_cons_self .., cstr_append_nul [] rest'⟩
  · rw [List.concat_eq_append] at htext
    have hlast : lastIndex K w.bytes.length = text.length := by
      rw [lastIndex_of_pos (by simp [htext]) (by omega), htext]
      simp
    have hget : (text ++ [c] ++ 0 :: rest).getD text.length stray = c := by simp
    rw [hlast, htext, hget] at hbytes
    rw [hbytes, htext, stripNewline, List.getLast?_concat, List.dropLast_concat]
    by_cases hc : c = 10
    · subst hc
      have hset : (text ++ [10] ++ 0 :: rest).set text.length 0 = text ++ 0 :: 0 :: rest := by
        simp
      rw [if_pos rfl, if_pos rfl, hset]
      exact ⟨by simp, cstr_append_nul text _⟩
    · rw [if_neg hc, if_neg (fun h => hc (Option.some.inj h))]
      exact ⟨by simp, cstr_append_nul _ rest⟩

theorem inside_receive (hn : n < 2 ^ 32) (h : w.bytes ≠ []) :
    (receive K stray w cmd).Inside := by
  have hmemory : n < 2 ^ K.bitsPerLong := lt_two_pow_long hn
  unfold receive
  dsimp only
  split
  · exact (safe_fail (Q := fun _ => True) _).1
  · rename_i hlen
    refine (safe_note (Q := fun _ => True) ?_ ?_).1
    · exact (not_le.mp hlen).le
    · split
      · exact safe_fail _
      · have hpos : 0 < w.bytes.length := List.length_pos_of_ne_nil h
        have hlast : lastIndex K w.bytes.length < n := by
          rw [lastIndex_of_pos hpos (by omega)]
          omega
        refine safe_note (not_le.mp hlen) (safe_note hlast ?_)
        split
        · exact safe_note hlast (safe_pure trivial)
        · exact safe_pure trivial

/-- An empty write makes every handler read at the end of memory. -/
theorem not_inside_receive (K : Kernel) (stray : UInt8) (cmd : CharArray n) (hpos : 0 < n)
    (hn : n < 2 ^ 32) (h : w.bytes = []) :
    ∃ u ∈ (receive K stray w cmd).uses, ¬ u.Inside := by
  refine ⟨.index n (lastIndex K w.bytes.length), ?_, ?_⟩
  · have hfault : w.fault.isSome = false := by
      rw [Option.isSome_eq_false_iff, Option.isNone_iff_eq_none, Option.eq_none_iff_forall_ne_some]
      intro copied _
      have hcopied := copied.isLt
      have hlen : w.bytes.length = 0 := List.length_eq_zero_iff.mpr h
      omega
    unfold receive
    dsimp only
    rw [if_neg (by simp [h, hpos.ne']), hfault]
    exact mem_uses_note (.inr (mem_uses_note (.inr (mem_uses_note (.inl rfl)))))
  · have hmemory : n < 2 ^ K.bitsPerLong := lt_two_pow_long hn
    show ¬ lastIndex K w.bytes.length < n
    rw [h, List.length_nil, lastIndex_zero]
    omega

theorem safe_receive (hn : n < 2 ^ 32) (h : w.bytes ≠ []) :
    Safe (receive K stray w cmd) fun cmd' => 0 ∈ cmd'.bytes := by
  refine ⟨inside_receive hn h, fun cmd' hcmd => ?_⟩
  rw [result_receive, UserWrite.copy] at hcmd
  split at hcmd
  · cases hcmd
  · rename_i hlen
    split at hcmd
    · cases hcmd
    · cases hcmd
      exact (received_spec K stray cmd hn (not_le.mp hlen)).1

/-- What a handler makes of the buffer is a matter of its string. -/
theorem result_receive_bind {α : Type} (hn : n < 2 ^ 32) {f : CharArray n → Noted Errno α}
    {g : List UInt8 → Except Errno α}
    (hf : ∀ cmd' : CharArray n, 0 ∈ cmd'.bytes →
      cstr cmd'.bytes = cstr (stripNewline w.bytes) →
        (f cmd').result = g (stripNewline w.bytes)) :
    (receive K stray w cmd >>= f).result =
      ((toUserWrite w).copy n).bind fun text => g (stripNewline text) := by
  rw [result_bind, result_receive, UserWrite.copy]
  split
  · rfl
  · rename_i hlen
    split
    · rfl
    · obtain ⟨hnul, hcstr⟩ := received_spec K stray cmd hn (not_le.mp hlen)
      exact hf _ hnul hcstr

end receive

/-! ### The words that `sscanf` leaves -/

theorem length_scanWord_le (width : ℕ) (s : List UInt8) : (scanWord width s).1.length ≤ width :=
  List.length_take_le ..

/-- A word in its array. -/
theorem word_spec {n : ℕ} (a : CharArray n) {word : List UInt8} (h : word.length < n) :
    0 ∈ (a.memcpy (word ++ [0])).bytes ∧ cstr (a.memcpy (word ++ [0])).bytes = cstr word := by
  rw [bytes_memcpy_nul a h]
  exact ⟨by simp, cstr_append_nul word _⟩

theorem length_sscanfWords_le {w₁ w₂ : ℕ} {s op value : List UInt8}
    (h : sscanfWords w₁ w₂ s = some (op, value)) : op.length ≤ w₁ ∧ value.length ≤ w₂ := by
  unfold sscanfWords at h
  split at h
  · cases h
  · dsimp only at h
    split at h
    · cases h
    · cases h
      exact ⟨length_scanWord_le .., length_scanWord_le ..⟩

theorem length_sscanfWordInt_le {width : ℕ} {s op : List UInt8} {value : CInt}
    (h : sscanfWordInt width s = some (op, value)) : op.length ≤ width := by
  obtain ⟨_, -, hop⟩ := Option.map_eq_some_iff.mp h
  cases hop
  exact length_scanWord_le ..

/-! ### Every use is inside, for a write that is not empty -/

variable {K : Kernel} {stack : Stack} {w : Write}

theorem safe_strtol {value : List UInt8} (h : 0 ∈ value) :
    Safe (strtol K value) fun _ => True :=
  safe_note h (safe_pure trivial)

theorem safe_assign {op : CharArray 32} {value : CharArray 64} (hop : 0 ∈ op.bytes)
    (hvalue : 0 ∈ value.bytes) : Safe (assign K op value) fun _ => True := by
  have hnumber : ∀ f : CInt → CompleteMonitor.FilterConfig → CompleteMonitor.FilterConfig,
      Safe (strtol K value.bytes >>= fun number => pure (f number)) fun _ => True :=
    fun f => safe_bind (safe_strtol hvalue) fun _ _ => safe_pure trivial
  refine safe_ifStrcmp hop (hnumber _) <| safe_ifStrcmp hop (hnumber _) <|
    safe_ifStrcmp hop ?_ <| safe_ifStrcmp hop (hnumber _) <| safe_ifStrcmp hop (hnumber _) <|
    safe_pure trivial
  exact safe_note hvalue (safe_note (by decide) (safe_note (by decide) (safe_pure trivial)))

theorem safe_filterWrite (h : w.bytes ≠ []) : Safe (filterWrite K stack w) fun _ => True := by
  refine safe_bind (safe_receive (by decide) h) fun cmd hcmd => ?_
  refine safe_ifStrcmp hcmd (safe_pure trivial) <| safe_ifStrcmp hcmd (safe_pure trivial) <|
    safe_ifStrcmp hcmd (safe_pure trivial) ?_
  refine safe_note hcmd (safe_note (by decide) (safe_note (by decide) ?_))
  cases hwords : sscanfWords 31 63 cmd.bytes with
  | none => exact safe_pure trivial
  | some words =>
      obtain ⟨op, value⟩ := words
      obtain ⟨hop, hvalue⟩ := length_sscanfWords_le hwords
      exact safe_assign (word_spec _ (Nat.lt_succ_of_le hop)).1
        (word_spec _ (Nat.lt_succ_of_le hvalue)).1

theorem safe_controlWrite (h : w.bytes ≠ []) : Safe (controlWrite K stack w) fun _ => True := by
  refine safe_bind (safe_receive (by decide) h) fun cmd hcmd => ?_
  exact safe_ifStrcmp hcmd (safe_pure trivial) <| safe_ifStrcmp hcmd (safe_pure trivial) <|
    safe_ifStrcmp hcmd (safe_pure trivial) <| safe_ifStrcmp hcmd (safe_pure trivial) <|
    safe_pure trivial

theorem safe_concurrencyWrite (h : w.bytes ≠ []) :
    Safe (concurrencyWrite K stack w) fun _ => True := by
  refine safe_bind (safe_receive (by decide) h) fun cmd hcmd => ?_
  refine safe_ifStrcmp hcmd (safe_pure trivial) <| safe_ifStrcmp hcmd (safe_pure trivial) <|
    safe_ifStrcmp hcmd (safe_pure trivial) <| safe_ifStrcmp hcmd (safe_pure trivial) ?_
  refine safe_note hcmd (safe_note (by decide) ?_)
  cases hwords : sscanfWordInt 15 cmd.bytes with
  | none => exact safe_note hcmd (safe_pure trivial)
  | some words =>
      obtain ⟨word, value⟩ := words
      have hop := (word_spec stack.op16 (Nat.lt_succ_of_le (length_sscanfWordInt_le hwords))).1
      exact safe_ifStrcmp hop (safe_pure trivial) <| safe_ifStrcmp hop (safe_pure trivial) <|
        safe_ifStrcmp hop (safe_pure trivial) <| safe_note hop (safe_pure trivial)

/-- A text that starts with four characters has them all before its end. -/
theorem four_le_of_strncmp {s text : List UInt8} (htext : (cstr text).length = 4)
    (h : strncmp s text 4 = 0) : 4 ≤ (cstr s).length := by
  have htake := congrArg List.length (strncmp_eq_zero_iff.mp h)
  rw [List.length_take, List.length_take, htext] at htake
  omega

theorem nul_mem_strncpy_set_last {n count : ℕ} (hcount : n ≤ count) (dest : CharArray (n + 1))
    (src : List UInt8) : 0 ∈ ((dest.strncpy src count).set n 0).bytes := by
  rw [bytes_strncpy_set_last hcount, List.mem_append, List.mem_replicate]
  have hword : ((cstr src).take n).length ≤ n := List.length_take_le ..
  exact .inr ⟨by omega, rfl⟩

theorem safe_kernelListWrite (h : w.bytes ≠ []) :
    Safe (kernelListWrite K stack w) fun _ => True := by
  refine safe_bind (safe_receive (by decide) h) fun cmd hcmd => safe_note hcmd ?_
  split
  · rename_i hadd
    have hdrop := (cstr_drop (four_le_of_strncmp (by decide) hadd)).2 hcmd
    refine safe_note hdrop (safe_note (by decide) (safe_note (by decide) ?_))
    exact safe_note (nul_mem_strncpy_set_last le_rfl _ _) (safe_pure trivial)
  · refine safe_note hcmd ?_
    split
    · rename_i hdel
      have hdrop := (cstr_drop (four_le_of_strncmp (by decide) hdel)).2 hcmd
      exact safe_note hdrop (safe_pure trivial)
    · exact safe_ifStrcmp hcmd (safe_pure trivial) (safe_note hcmd (safe_pure trivial))

theorem safe_counterWrite (h : w.bytes ≠ []) : Safe (counterWrite K stack w) fun _ => True := by
  refine safe_bind (safe_receive (by decide) h) fun cmd hcmd => ?_
  refine safe_ifStrcmp hcmd (safe_pure trivial) (safe_note hcmd ?_)
  cases scanInt cmd.bytes with
  | some newValue => exact safe_pure trivial
  | none => exact safe_note hcmd (safe_fail _)

/-! ### What the handlers compute -/

/-- Comparison sees the string only. -/
theorem strcmp_congr {s t : List UInt8} (h : cstr s = cstr t) (text : List UInt8) :
    strcmp s text = 0 ↔ strcmp t text = 0 := by
  rw [strcmp_eq_zero_iff, strcmp_eq_zero_iff, h]

theorem strncmp_congr {s t : List UInt8} (h : cstr s = cstr t) (text : List UInt8) (count : ℕ) :
    strncmp s text count = 0 ↔ strncmp t text count = 0 := by
  rw [strncmp_eq_zero_iff, strncmp_eq_zero_iff, h]

theorem result_strtol {s t : List UInt8} (h : cstr s = cstr t) :
    (strtol K s).result = .ok ((simpleStrtol K.bitsPerLong t).setWidth 32) := by
  have hnumber : (simpleStrtol K.bitsPerLong s).setWidth 32 =
      (simpleStrtol K.bitsPerLong t).setWidth 32 := by
    rw [simpleStrtol_eq K.bitsPerLong_ge, simpleStrtol_eq K.bitsPerLong_ge, ← leadingNumber_cstr s,
      h, leadingNumber_cstr]
  rw [← hnumber]
  rfl

theorem result_assign {op : CharArray 32} {value : CharArray 64} {op' value' : List UInt8}
    (hop : cstr op.bytes = cstr op') (hvalue : cstr value.bytes = cstr value') :
    (assign K op value).result =
      .ok fun filter => filter.assign K.bitsPerLong op' value' := by
  have hcomm : ∀ a : CharArray TASK_COMM_LEN,
      a.strncpy value.bytes (TASK_COMM_LEN - 1) = a.strncpy value' (TASK_COMM_LEN - 1) := by
    intro a
    simp only [CharArray.strncpy, hvalue]
  unfold assign CompleteMonitor.FilterConfig.assign
  simp only [result_ifStrcmp, result_bind, result_strtol hvalue, strcmp_congr hop, hcomm]
  split_ifs <;> rfl

/-- `filter_write` does to the filter what its text says. -/
theorem result_filterWrite :
    (filterWrite K stack w).result =
      ((toUserWrite w).copy 128).bind fun text =>
        .ok (CompleteMonitor.FilterConfig.command K.bitsPerLong (stripNewline text)) := by
  refine result_receive_bind
    (g := fun text => .ok (CompleteMonitor.FilterConfig.command K.bitsPerLong text))
    (by decide) fun cmd _ hcmd => ?_
  have hwords : sscanfWords 31 63 cmd.bytes = sscanfWords 31 63 (stripNewline w.bytes) := by
    simp only [sscanfWords, hcmd]
  unfold CompleteMonitor.FilterConfig.command
  simp only [result_ifStrcmp, result_bind, result_note, strcmp_congr hcmd, hwords]
  cases hscan : sscanfWords 31 63 (stripNewline w.bytes) with
  | none => split_ifs <;> rfl
  | some words =>
      obtain ⟨op, value⟩ := words
      obtain ⟨hop, hvalue⟩ := length_sscanfWords_le hscan
      have hassign := result_assign (K := K) (word_spec stack.op32 (Nat.lt_succ_of_le hop)).2
        (word_spec stack.value64 (Nat.lt_succ_of_le hvalue)).2
      dsimp only [Except.bind]
      rw [hassign]
      split_ifs <;> rfl

/-- `control_write` carries out the command that its text is. -/
theorem result_controlWrite :
    (controlWrite K stack w).result =
      ((toUserWrite w).copy 64).bind fun text =>
        .ok (CompleteMonitor.controlCommand (stripNewline text)) := by
  refine result_receive_bind (g := fun text => .ok (CompleteMonitor.controlCommand text))
    (by decide) fun cmd _ hcmd => ?_
  unfold CompleteMonitor.controlCommand
  simp only [result_ifStrcmp, strcmp_congr hcmd]
  split_ifs <;> rfl

/-- So does `concurrency_write`. -/
theorem result_concurrencyWrite :
    (concurrencyWrite K stack w).result =
      ((toUserWrite w).copy 64).bind fun text =>
        .ok (ConcurrencyControl.concurrencyCommand (stripNewline text)) := by
  refine result_receive_bind (g := fun text => .ok (ConcurrencyControl.concurrencyCommand text))
    (by decide) fun cmd _ hcmd => ?_
  have hwords : sscanfWordInt 15 cmd.bytes = sscanfWordInt 15 (stripNewline w.bytes) := by
    simp only [sscanfWordInt, hcmd]
  unfold ConcurrencyControl.concurrencyCommand
  simp only [result_ifStrcmp, result_bind, result_note, strcmp_congr hcmd, hwords]
  cases hscan : sscanfWordInt 15 (stripNewline w.bytes) with
  | none => split_ifs <;> rfl
  | some words =>
      obtain ⟨word, value⟩ := words
      have hword := (word_spec stack.op16
        (Nat.lt_succ_of_le (length_sscanfWordInt_le hscan))).2
      dsimp only [Except.bind]
      simp only [result_ifStrcmp, result_bind, result_note, strcmp_congr hword]
      split_ifs <;> rfl

/-- And `kernel_list_write`. -/
theorem result_kernelListWrite :
    (kernelListWrite K stack w).result =
      ((toUserWrite w).copy 64).bind fun text =>
        .ok (KernelList.listCommand (stripNewline text)) := by
  refine result_receive_bind (g := fun text => .ok (KernelList.listCommand text))
    (by decide) fun cmd _ hcmd => ?_
  have hdrop : ∀ text : List UInt8, (cstr text).length = 4 →
      strncmp (stripNewline w.bytes) text 4 = 0 →
        cstr (cmd.bytes.drop 4) = cstr ((stripNewline w.bytes).drop 4) := by
    intro text htext hcmp
    have hfour := four_le_of_strncmp htext hcmp
    rw [(cstr_drop hfour).1, ← hcmd]
    exact (cstr_drop (hcmd ▸ hfour)).1
  unfold KernelList.listCommand
  simp only [result_bind, result_note, strncmp_congr hcmd, Except.bind]
  by_cases hadd : strncmp (stripNewline w.bytes) (ascii "add ".toList) 4 = 0
  · have hname : ((stack.name32.strncpy (cmd.bytes.drop 4) 31).set 31 0).bytes =
        (KernelList.nameOf ((stripNewline w.bytes).drop 4)).bytes := by
      rw [KernelList.nameOf, bytes_strncpy_set_last le_rfl, bytes_strncpy_set_last le_rfl,
        hdrop _ (by decide) hadd]
    rw [if_pos hadd, if_pos hadd, ← hname]
    rfl
  · rw [if_neg hadd, if_neg hadd]
    by_cases hdel : strncmp (stripNewline w.bytes) (ascii "del ".toList) 4 = 0
    · have hnumber : scanInt (cmd.bytes.drop 4) = scanInt ((stripNewline w.bytes).drop 4) := by
        simp only [scanInt, hdrop _ (by decide) hdel]
      rw [if_pos hdel, if_pos hdel, ← hnumber]
      rfl
    · rw [if_neg hdel, if_neg hdel]
      simp only [result_bind, result_note, Except.bind, result_ifStrcmp, strcmp_congr hcmd]
      split_ifs <;> rfl

/-- `counter_write` sets the counter to 0 or to the number its text starts with. -/
theorem result_counterWrite :
    (counterWrite K stack w).result =
      ((toUserWrite w).copy 32).bind fun text =>
        if strcmp (stripNewline text) (ascii "reset".toList) = 0 then .ok 0
        else
          match scanInt (stripNewline text) with
          | none => .error .EINVAL
          | some newValue => .ok newValue := by
  refine result_receive_bind
    (g := fun text =>
      if strcmp text (ascii "reset".toList) = 0 then .ok 0
      else
        match scanInt text with
        | none => .error .EINVAL
        | some newValue => .ok newValue)
    (by decide) fun cmd _ hcmd => ?_
  have hnumber : scanInt cmd.bytes = scanInt (stripNewline w.bytes) := by
    simp only [scanInt, hcmd]
  simp only [result_ifStrcmp, result_bind, result_note, strcmp_congr hcmd, hnumber]
  cases scanInt (stripNewline w.bytes) <;> split_ifs <;> rfl

/-! ### The five handlers -/

inductive Handler
  | filterWrite
  | controlWrite
  | concurrencyWrite
  | kernelListWrite
  | counterWrite

/-- All uses of arrays that a handler makes for a write. -/
def Handler.uses (K : Kernel) (stack : Stack) (w : Write) : Handler → List Use
  | .filterWrite => (Handlers.filterWrite K stack w).uses
  | .controlWrite => (Handlers.controlWrite K stack w).uses
  | .concurrencyWrite => (Handlers.concurrencyWrite K stack w).uses
  | .kernelListWrite => (Handlers.kernelListWrite K stack w).uses
  | .counterWrite => (Handlers.counterWrite K stack w).uses

/-- **The handlers stay in their arrays.** Whatever the arrays hold on entry, every
index and every string of a handler is inside of its array exactly when the write
is not empty. -/
theorem handlers_inside_iff (K : Kernel) (stack : Stack) (w : Write) (handler : Handler) :
    (∀ u ∈ handler.uses K stack w, u.Inside) ↔ w.bytes.length ≠ 0 := by
  rw [ne_eq, List.length_eq_zero_iff]
  constructor
  · intro hinside hempty
    have hreceive : ∀ {n : ℕ} {α : Type} (cmd : CharArray n) (f : CharArray n → Noted Errno α),
        0 < n → n < 2 ^ 32 → (receive K stack.stray w cmd >>= f).Inside → False := by
      intro n α cmd f hpos hn hall
      obtain ⟨u, hu, hout⟩ := not_inside_receive K stack.stray cmd hpos hn hempty
      exact hout (hall u (mem_uses_bind f hu))
    cases handler with
    | filterWrite => exact hreceive stack.cmd128 _ (by decide) (by decide) hinside
    | controlWrite => exact hreceive stack.cmd64 _ (by decide) (by decide) hinside
    | concurrencyWrite => exact hreceive stack.cmd64 _ (by decide) (by decide) hinside
    | kernelListWrite => exact hreceive stack.cmd64 _ (by decide) (by decide) hinside
    | counterWrite => exact hreceive stack.cmd32 _ (by decide) (by decide) hinside
  · intro h
    cases handler with
    | filterWrite => exact (safe_filterWrite h).1
    | controlWrite => exact (safe_controlWrite h).1
    | concurrencyWrite => exact (safe_concurrencyWrite h).1
    | kernelListWrite => exact (safe_kernelListWrite h).1
    | counterWrite => exact (safe_counterWrite h).1

/-- An empty write of the filter, with nothing but zeros on the stack. -/
theorem not_handlers_inside_of_empty :
    ¬ ∀ u ∈ Handler.filterWrite.uses .x86_64
      ⟨.zero 32, .zero 64, .zero 128, .zero 32, .zero 16, .zero 32, .zero 64, 0⟩ ⟨[], none⟩,
        u.Inside := by
  intro h
  obtain ⟨u, hu, hout⟩ := not_inside_receive .x86_64 0 (.zero 128) (w := ⟨[], none⟩) (by decide)
    (by decide) rfl
  exact hout (h u (mem_uses_bind _ hu))

end KernelModules.Handlers
