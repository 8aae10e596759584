import KernelModules.CompleteMonitor.FilterText
import KernelModules.Lib.Table

/-!
Lines and columns that the files of several modules print.

A line has a number between its label and what follows it. The process tables of the
monitors begin with the same columns: a name has at most 16 characters and its column as
many, so the columns can be read back whatever the name contains, except for blanks at
its end.
-/

namespace KernelModules

open Lib
open CompleteMonitor (line line_inj)

variable {K : Kernel} {α : Type*}

/-- What a call of a file gives to its caller. -/
inductive Answer
  /-- A read gets a text. -/
  | text (bytes : List UInt8)
  /-- A write gets a result. -/
  | result (r : Except Errno ℕ)

/-! ### Lines -/

/-- `%lu`. -/
def printULong (x : ULong K) : List UInt8 := decimal x.toNat

theorem printULong_injective : Function.Injective (printULong (K := K)) :=
  fun _ _ h => BitVec.eq_of_toNat_eq (decimal_injective h)

/-- A line with a number is read back. -/
theorem line_printULong_inj {label note : String} {c : UInt8} {rest : List UInt8}
    (hnote : ascii note.toList = c :: rest) (hc : isdigit c = false) {x y : ULong K}
    {t t' : List UInt8} (h : line label (printULong x) note ++ t =
      line label (printULong y) note ++ t') : x = y ∧ t = t' := by
  obtain ⟨hvalue, hrest⟩ := line_inj hnote (notMem_decimal hc _) (notMem_decimal hc _) h
  exact ⟨printULong_injective hvalue, hrest⟩

theorem line_printInt_inj {label note : String} {c : UInt8} {rest : List UInt8}
    (hnote : ascii note.toList = c :: rest) (hc : ¬ StartsNumber c) {x y : BitVec 32}
    {t t' : List UInt8} (h : line label (printInt x) note ++ t =
      line label (printInt y) note ++ t') : x = y ∧ t = t' := by
  obtain ⟨hvalue, hrest⟩ := line_inj hnote (notMem_printInt hc x) (notMem_printInt hc y) h
  exact ⟨printInt_injective hvalue, hrest⟩

/-- A number that an `int` holds is printed as it is. -/
theorem eq_of_ofInt_eq {m n : ℤ} (hm : FitsInt m) (hn : FitsInt n)
    (h : BitVec.ofInt 32 m = BitVec.ofInt 32 n) : m = n := by
  have hvalue := congrArg BitVec.toInt h
  rwa [toInt_ofInt_of_fits hm, toInt_ofInt_of_fits hn] at hvalue

/-! ### Columns -/

/-- `%-8d %-8d %-16s %-12lu %-12lu `. -/
def processColumns (pid ppid : PidT) (comm : List UInt8) (startTime endTime : ULong K) :
    List UInt8 :=
  cell 8 (printInt pid) ++ (cell 8 (printInt ppid) ++ (cell 16 comm ++
    (cell 12 (printULong startTime) ++ cell 12 (printULong endTime))))

/-- How a status is shown. -/
def shownStatus (running : Bool) : List UInt8 :=
  ascii (if running then "RUNNING" else "EXITED").toList

theorem length_str_le {n : ℕ} (a : CharArray n) : a.str.length ≤ n :=
  (List.takeWhile_sublist _).length_le.trans a.length_eq.le

/-- A number column. -/
theorem tells_ulongCell (width : ℕ) (x : α → ULong K) :
    Tells (fun a => cell width (printULong (x a))) x :=
  ((Tells.natCell width).comp fun a => (x a).toNat).map fun _ _ h => BitVec.eq_of_toNat_eq h

theorem tells_ulongLastCell (width : ℕ) (x : α → ULong K) :
    Tells (fun a => lastCell width (printULong (x a))) x :=
  ((Tells.natLastCell width).comp fun a => (x a).toNat).map fun _ _ h => BitVec.eq_of_toNat_eq h

theorem shownStatus_injective : Function.Injective shownStatus := by decide

theorem blank_notMem_shownStatus (running : Bool) : 32 ∉ shownStatus running := by
  cases running <;> decide

theorem newline_notMem_shownStatus (running : Bool) : 10 ∉ shownStatus running := by
  cases running <;> decide

theorem tells_processColumns (pid ppid : α → PidT) {comm : α → List UInt8}
    (hcomm : ∀ a, (comm a).length ≤ 16) (startTime endTime : α → ULong K) :
    Tells (fun a => processColumns (pid a) (ppid a) (comm a) (startTime a) (endTime a))
      fun a => (pid a, ppid a, trimEnd (comm a), startTime a, endTime a) :=
  ((Tells.intCell 8).comp pid).append (((Tells.intCell 8).comp ppid).append
    ((Tells.fixedCell hcomm).append
      ((tells_ulongCell 12 startTime).append (tells_ulongCell 12 endTime))))

theorem processColumns_starts (pid ppid : PidT) (comm : List UInt8) (startTime endTime : ULong K)
    (rest : List UInt8) :
    ∃ c t, processColumns pid ppid comm startTime endTime ++ rest = c :: t ∧ StartsNumber c := by
  rw [processColumns, List.append_assoc]
  exact intCell_starts 8 pid _

end KernelModules
