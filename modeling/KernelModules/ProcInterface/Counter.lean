import KernelModules.ProcInterface.Store
import KernelModules.Lib.Numeral
import KernelModules.Lib.Run

/-!
What the counter file shows.

A reader expects a number: the one last set, and one more for every time the file
was shown since. The counter is that number narrowed to an `int`, whatever was
written and however often it was read, so the file shows the number itself
exactly while it is one.
-/

namespace KernelModules.ProcInterface

open Lib

variable {K : Kernel}

/-- The integer that a text sets the counter to, if it is a command: `%d` takes the
number that the text starts with, whatever follows it. -/
def counterCommand (cmd : List UInt8) : Option ℤ :=
  if strcmp cmd (ascii "reset".toList) = 0 then some 0 else leadingNumber (skipSpaces cmd)

/-- The integer that an accepted write of the counter denotes. -/
def denoted (w : UserWrite) : Option ℤ :=
  match w.copy 32 with
  | .error _ => none
  | .ok cmd => counterCommand (stripNewline cmd)

/-- What a reader of the counter keeps in mind: the integer last set, and how
often the counter was shown since. -/
structure Tally where
  last : ℤ
  shows : ℕ
  deriving DecidableEq

namespace Tally

/-- Nothing set and nothing shown. -/
def zero : Tally := ⟨0, 0⟩

def total (t : Tally) : ℤ := t.last + t.shows

def record (t : Tally) : Op K → Tally
  | .counterShow _ => { t with shows := t.shows + 1 }
  | .counterWrite w _ =>
      match denoted w with
      | none => t
      | some n => ⟨n, 0⟩
  | .messageWrite _ => t

/-- If the counter is shown now, its total is an `int`. -/
def ShowFits (t : Tally) (op : Op K) : Prop :=
  match op with
  | .counterShow _ => FitsInt (t.record op).total
  | .counterWrite .. | .messageWrite _ => True

instance (t : Tally) : (op : Op K) → Decidable (t.ShowFits op)
  | .counterShow jiffies =>
      inferInstanceAs (Decidable (FitsInt (t.record (.counterShow jiffies : Op K)).total))
  | .counterWrite .. | .messageWrite _ => inferInstanceAs (Decidable True)

end Tally

/-- Success is returned for the accepted writes, and the number is narrowed. Every
other write returns an error and changes nothing. -/
theorem counterWrite_cases (w : UserWrite) (jiffies : ULong K) (s : ProcData K) :
    (∃ n, denoted w = some n ∧ counterWrite w jiffies s =
        ({ s with counter := BitVec.ofInt 32 n, lastAccess := jiffies }, .ok w.bytes.length)) ∨
      denoted w = none ∧ ∃ e, counterWrite w jiffies s = (s, .error e) := by
  unfold denoted counterWrite
  cases w.copy 32 with
  | error e => exact .inr ⟨rfl, e, rfl⟩
  | ok cmd =>
      dsimp only [counterCommand]
      by_cases hreset : strcmp (stripNewline cmd) (ascii "reset".toList) = 0
      · rw [if_pos hreset, if_pos hreset]
        exact .inl ⟨0, rfl, rfl⟩
      · rw [if_neg hreset, if_neg hreset, scanInt_eq]
        cases leadingNumber (skipSpaces (stripNewline cmd)) with
        | none => exact .inr ⟨rfl, .EINVAL, rfl⟩
        | some n => exact .inl ⟨n, rfl, rfl⟩

/-- The counter is the total, narrowed to an `int`. -/
def Narrowed (t : ProcData K × Tally) : Prop := t.1.counter = BitVec.ofInt 32 t.2.total

theorem narrowed_load (K : Kernel) : Narrowed (ProcData.load K, Tally.zero) := rfl

theorem narrowed_step (t : ProcData K × Tally) (op : Op K) (h : Narrowed t) :
    Narrowed (both ProcData.exec Tally.record t op) := by
  obtain ⟨s, t⟩ := t
  cases op with
  | counterShow jiffies =>
      show s.counter + 1 = BitVec.ofInt 32 (t.last + (t.shows + 1 : ℕ))
      rw [Nat.cast_add, ← Int.add_assoc, BitVec.ofInt_add]
      exact congrArg (· + 1) h
  | counterWrite w jiffies =>
      rcases counterWrite_cases w jiffies s with ⟨n, hdenoted, hwrite⟩ | ⟨hdenoted, e, hwrite⟩
      · simp only [both, ProcData.exec, Tally.record, hwrite, hdenoted, Narrowed, Tally.total]
        simp
      · simp only [both, ProcData.exec, Tally.record, hwrite, hdenoted]
        exact h
  | messageWrite w =>
      have hcounter : (messageWrite w s).1.counter = s.counter := by
        unfold messageWrite
        split
        · rfl
        · split <;> rfl
      show (messageWrite w s).1.counter = BitVec.ofInt 32 t.total
      rw [hcounter]
      exact h

/-- What a call promises about the counter: a show prints the total, and a write
that is refused as invalid changes nothing. -/
def CountsExactly (t : ProcData K × Tally) (op : Op K) : Prop :=
  match op with
  | .counterShow jiffies => (counterShow jiffies t.1).2.1.toInt = (t.2.record op).total
  | .counterWrite w jiffies =>
      (counterWrite w jiffies t.1).2 = .error .EINVAL → (counterWrite w jiffies t.1).1 = t.1
  | .messageWrite _ => True

/-- The observer alone tells which shows are right. -/
theorem simulation_tally (K : Kernel) :
    Simulation (both (ProcData.exec (K := K)) Tally.record) Tally.record Narrowed Prod.snd :=
  ⟨narrowed_step, fun _ _ _ => rfl⟩

theorem countsExactly_iff (t : ProcData K × Tally) (op : Op K) (h : Narrowed t) :
    CountsExactly t op ↔ t.2.ShowFits op := by
  cases op with
  | counterShow jiffies =>
      have hstep : (counterShow jiffies t.1).2.1 =
          BitVec.ofInt 32 (t.2.record (.counterShow jiffies : Op K)).total :=
        narrowed_step t (.counterShow jiffies) h
      show (counterShow jiffies t.1).2.1.toInt = _ ↔ FitsInt _
      rw [hstep]
      exact toInt_ofInt_eq_iff
  | counterWrite w jiffies =>
      refine iff_of_true (fun hinvalid => ?_) trivial
      rcases counterWrite_cases w jiffies t.1 with ⟨n, -, hwrite⟩ | ⟨-, e, hwrite⟩
      · rw [hwrite] at hinvalid
        cases hinvalid
      · rw [hwrite]
  | messageWrite w => exact Iff.rfl

/-- **The access counter.** Every call of a history counts exactly if and only if
the total is an `int` whenever the counter is shown. -/
theorem counts_exactly_iff (ops : List (Op K)) :
    StepsMeet (both ProcData.exec Tally.record) CountsExactly (ProcData.load K, Tally.zero) ops ↔
      StepsMeet Tally.record Tally.ShowFits Tally.zero ops :=
  (simulation_tally K).stepsMeet_iff countsExactly_iff (narrowed_load K) ops

/-- One more than the largest `int`. -/
theorem not_counts_exactly_of_int_max :
    ¬ StepsMeet (both ProcData.exec Tally.record) CountsExactly
      (ProcData.load .x86_64, Tally.zero)
      [.counterWrite ⟨ascii "2147483647".toList, false⟩ 0, .counterShow 0] := by
  rintro ⟨-, hshow, -⟩
  have hshown : (BitVec.ofInt 32 2147483648).toInt = 2147483648 := hshow
  revert hshown
  decide

end KernelModules.ProcInterface
