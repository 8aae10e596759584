import KernelModules.KernelList.Store
import KernelModules.Lib.Numeral
import KernelModules.Lib.Run

/-!
The commands of `/proc/kernel_list_demo`, and what they should leave alone.

An addition makes room before it asks for memory, so one that gets none has cost a
full list its oldest record. A deletion takes the number that its argument starts
with, narrowed to an `int`, and looks at nothing that follows.
-/

namespace KernelModules.KernelList

open Lib

variable {K : Kernel}

/-! ### Additions without memory -/

theorem ListDemo.Sized.addRecord {s : ListDemo K} (h : s.Sized) (name : List UInt8)
    (jiffies : ULong K) (alloc : Bool) : (KernelList.addRecord name jiffies alloc s).Sized := by
  obtain ⟨hevict, hroom⟩ := h.evictOldest
  cases alloc with
  | false => exact hevict
  | true => exact hevict.linkRecord hroom name jiffies

theorem ListDemo.Sized.exec {s : ListDemo K} (h : s.Sized) (op : Op K) : (s.exec op).Sized := by
  rw [ListDemo.exec_eq]
  cases writtenCommand op.write with
  | none => exact h
  | some c =>
      cases c with
      | add name => exact h.addRecord name op.jiffies op.alloc
      | del id => exact (h.removeRecordById id).1
      | clear => exact .clearAllRecords s

theorem sized_load (jiffies₁ jiffies₂ : ULong K) (alloc₁ alloc₂ : Bool) :
    (ListDemo.load jiffies₁ jiffies₂ alloc₁ alloc₂).Sized :=
  ((sized_empty K).addRecord _ jiffies₁ alloc₁).addRecord _ jiffies₂ alloc₂

theorem sized_run (jiffies₁ jiffies₂ : ULong K) (alloc₁ alloc₂ : Bool) (ops : List (Op K)) :
    (run ListDemo.exec (ListDemo.load jiffies₁ jiffies₂ alloc₁ alloc₂) ops).Sized :=
  run_invariant (I := ListDemo.Sized) (fun _ op h => h.exec op) (sized_load ..) ops

/-- **An addition without memory.** In every state that commands lead to, it changes
nothing exactly when the list is not full. -/
theorem addRecord_failed_iff (jiffies₁ jiffies₂ : ULong K) (alloc₁ alloc₂ : Bool)
    (ops : List (Op K)) (name : List UInt8) (jiffies : ULong K) :
    addRecord name jiffies false
          (run ListDemo.exec (ListDemo.load jiffies₁ jiffies₂ alloc₁ alloc₂) ops) =
        run ListDemo.exec (ListDemo.load jiffies₁ jiffies₂ alloc₁ alloc₂) ops ↔
      (run ListDemo.exec (ListDemo.load jiffies₁ jiffies₂ alloc₁ alloc₂) ops).recordCount <
        MAX_RECORDS := by
  have hsized := sized_run jiffies₁ jiffies₂ alloc₁ alloc₂ ops
  generalize run ListDemo.exec (ListDemo.load jiffies₁ jiffies₂ alloc₁ alloc₂) ops = s at *
  show evictOldest s = s ↔ _
  rcases hsized.evictOldest_cases with ⟨hroom, hs⟩ | ⟨oldest, rest, hlist, hfull, hs⟩
  · exact iff_of_true hs hroom
  · have hcount := hsized.1
    rw [hlist, List.length_cons] at hcount
    rw [hs]
    refine iff_of_false (fun hsame => ?_) (by omega)
    have hless := congrArg ListDemo.recordCount hsame
    simp only at hless
    omega

/-- An addition to a list that holds twenty records. -/
theorem not_unchanged_of_full :
    ¬ ∀ (ops : List (Op .x86_64)) (name : List UInt8) (jiffies : ULong .x86_64),
      addRecord name jiffies false (run ListDemo.exec (ListDemo.load 0 0 true true) ops) =
        run ListDemo.exec (ListDemo.load 0 0 true true) ops := by
  intro h
  have hcount := congrArg ListDemo.recordCount
    (h (.replicate 18 ⟨{ bytes := ascii "add task".toList }, 0, true⟩) [] 0)
  revert hcount
  decide

/-! ### Deletions -/

/-- The text after `del `, with at most one newline at the end dropped. -/
def DelArgument (text argument : List UInt8) : Prop :=
  stripNewline text = ascii "del ".toList ++ argument

/-- A deletion deletes what it names: a record of which the list has fewer afterwards is
one whose number stands in the command, and a command that gives the number of no record
does nothing. -/
structure DeletesNamed (s : ListDemo K) (text : List UInt8) (jiffies : ULong K) (alloc : Bool) :
    Prop where
  removed : ∀ id, writtenCommand { bytes := text } = some (.del id) →
    ∀ r, (s.exec ⟨{ bytes := text }, jiffies, alloc⟩).recordList.count r < s.recordList.count r →
      ∃ argument, DelArgument text argument ∧ numeral (trimSpaces argument) = some r.id.toInt
  unchanged : ∀ argument, DelArgument text argument →
    (∀ r ∈ s.recordList, numeral (trimSpaces argument) ≠ some r.id.toInt) →
      s.exec ⟨{ bytes := text }, jiffies, alloc⟩ = s

/-- The deletions that the handler takes for what they say: the argument is one `int` in
decimal, or it does not even start with a number that becomes that of a record. -/
def ListDemo.Takes (s : ListDemo K) (argument : List UInt8) : Prop :=
  (∃ n, numeral (trimSpaces argument) = some n ∧ FitsInt n) ∨
    ∀ n, leadingNumber (skipSpaces argument) = some n →
      ∀ r ∈ s.recordList, r.id ≠ BitVec.ofInt 32 n

theorem writtenCommand_eq {text : List UInt8} (hlen : text.length < 64) :
    writtenCommand { bytes := text } = listCommand (stripNewline text) := by
  have hcopy : UserWrite.copy { bytes := text } 64 = .ok text := if_neg (Nat.not_le.mpr hlen)
  rw [writtenCommand, hcopy]

/-- A deletion is read as the number that its argument starts with. -/
theorem writtenCommand_del {text argument : List UInt8} (hlen : text.length < 64)
    (h : DelArgument text argument) :
    writtenCommand { bytes := text } =
      ((leadingNumber (skipSpaces argument)).map (BitVec.ofInt 32)).map .del := by
  have hadd : strncmp (ascii "del ".toList ++ argument) (ascii "add ".toList) 4 ≠ 0 := by
    intro heq
    cases heq
  have hdel : strncmp (ascii "del ".toList ++ argument) (ascii "del ".toList) 4 = 0 := rfl
  rw [writtenCommand_eq hlen, h, listCommand, if_neg hadd, if_pos hdel, ← scanInt_eq]
  rfl

/-- Nothing else is read as a deletion. -/
theorem delArgument_of_writtenCommand {text : List UInt8} (hlen : text.length < 64) {id : CInt}
    (h : writtenCommand { bytes := text } = some (.del id)) :
    ∃ argument, DelArgument text argument := by
  have hdel : strncmp (stripNewline text) (ascii "del ".toList) 4 = 0 := by
    rw [writtenCommand_eq hlen, listCommand] at h
    split_ifs at h
    · cases h
    · assumption
    · cases h
  have htake : (cstr (stripNewline text)).take 4 = ascii "del ".toList :=
    strncmp_eq_zero_iff.mp hdel
  have hprefix : ascii "del ".toList <+: stripNewline text := by
    rw [← htake]
    exact (List.take_prefix ..).trans (List.takeWhile_prefix _)
  obtain ⟨argument, hargument⟩ := hprefix
  exact ⟨argument, hargument.symm⟩

/-- A record with the number that is read from such an argument is the one named. -/
theorem ListDemo.Takes.names {s : ListDemo K} {argument : List UInt8} (h : s.Takes argument)
    {n : ℤ} (hleading : leadingNumber (skipSpaces argument) = some n) {r : DemoRecord K}
    (hr : r ∈ s.recordList) (hid : r.id = BitVec.ofInt 32 n) :
    numeral (trimSpaces argument) = some r.id.toInt := by
  rcases h with ⟨m, hnumeral, hfits⟩ | hother
  · have hsame : m = n :=
      Option.some.inj ((leadingNumber_skipSpaces hnumeral).symm.trans hleading)
    rw [hnumeral, hid, ← hsame, toInt_ofInt_of_fits hfits]
  · exact absurd hid (hother n hleading r hr)

/-- **Deletions.** A text is a deletion of what it names exactly when the handler takes
its argument for what it says. -/
theorem deletes_named_iff (s : ListDemo K) {text : List UInt8} (hlen : text.length < 64)
    (jiffies : ULong K) (alloc : Bool) :
    DeletesNamed s text jiffies alloc ↔ ∀ argument, DelArgument text argument →
      s.Takes argument := by
  constructor
  · intro h argument hargument
    by_contra htakes
    simp only [ListDemo.Takes, not_or, not_forall, not_not] at htakes
    obtain ⟨hint, n, hleading, r, hr, hid⟩ := htakes
    -- the argument names no record, but its leading number is that of one
    have hsame := h.unchanged argument hargument
      fun r' _ hnumeral => hint ⟨_, hnumeral, fitsInt_toInt _⟩
    rw [ListDemo.exec_eq, writtenCommand_del hlen hargument, hleading] at hsame
    have hless := recordCount_removeRecordById hr hid
    rw [show removeRecordById (BitVec.ofInt 32 n) s = s from hsame] at hless
    omega
  · intro h
    refine ⟨fun id hcmd r hfewer => ?_, fun argument hargument hnone => ?_⟩
    · rw [ListDemo.exec_eq, hcmd] at hfewer
      obtain ⟨hr, hid⟩ := mem_of_count_removeRecordById_lt hfewer
      obtain ⟨argument, hargument⟩ := delArgument_of_writtenCommand hlen hcmd
      refine ⟨argument, hargument, ?_⟩
      rw [writtenCommand_del hlen hargument] at hcmd
      obtain ⟨x, hx, hdel⟩ := Option.map_eq_some_iff.mp hcmd
      obtain ⟨n, hleading, rfl⟩ := Option.map_eq_some_iff.mp hx
      rw [← Command.del.inj hdel] at hid
      exact (h argument hargument).names hleading hr hid
    · rw [ListDemo.exec_eq, writtenCommand_del hlen hargument]
      cases hleading : leadingNumber (skipSpaces argument) with
      | none => rfl
      | some n =>
          apply removeRecordById_of_none
          intro r hr hid
          exact hnone r hr ((h argument hargument).names hleading hr hid)

theorem deletes_named_of_del_2 :
    DeletesNamed (ListDemo.load (K := .x86_64) 0 0 true true) (ascii "del 2".toList ++ [10]) 0
      true := by
  refine (deletes_named_iff _ (by decide) 0 true).mpr fun argument hargument => .inl ?_
  have hstrip : stripNewline (ascii "del 2".toList ++ [10]) =
      ascii "del ".toList ++ ascii "2".toList := by
    decide
  rw [DelArgument, hstrip, List.append_cancel_left_eq] at hargument
  subst hargument
  exact ⟨2, by decide, by decide⟩

/-- The command `del 1abc` deletes record 1. -/
theorem not_named_of_del_1abc :
    ¬ ∀ (ops : List (Op .x86_64)) (text : List UInt8), 1 ≤ text.length → text.length ≤ 63 →
      DeletesNamed (run ListDemo.exec (ListDemo.load 0 0 true true) ops) text 0 true := by
  intro h
  have hnumeral : numeral (trimSpaces (ascii "1abc".toList)) = none := by decide
  have hsame := (h [] (ascii "del 1abc".toList) (by decide) (by decide)).unchanged
    (ascii "1abc".toList) rfl fun r hr hsome => by
      rw [hnumeral] at hsome
      cases hsome
  have hcount := congrArg ListDemo.recordCount hsame
  revert hcount
  decide

end KernelModules.KernelList
