import KernelModules.ProcInterface.Store
import KernelModules.Lib.Run

/-!
What the message file shows.

A reader expects the last message that was accepted. The file keeps that promise
exactly as long as no copy faults, or the bytes copied before the fault happen to
spell the message that was there.
-/

namespace KernelModules.ProcInterface

open Lib

variable {K : Kernel}

/-- The bytes that a write hands over if it returns success. -/
def MessageWrite.accepted (w : MessageWrite) : Option (List UInt8) :=
  if w.bytes.length < 256 ∧ w.fault = none then some w.bytes else none

/-- The last accepted message, up to its first NUL. -/
def lastAccepted (message : List UInt8) : Op K → List UInt8
  | .messageWrite w =>
      match w.accepted with
      | none => message
      | some bytes => cstr bytes
  | .counterShow _ | .counterWrite .. => message

/-- Success is returned for the accepted writes. -/
theorem messageWrite_ok_iff (w : MessageWrite) (s : ProcData K) :
    (∃ count, (messageWrite w s).2 = .ok count) ↔ w.accepted.isSome = true := by
  unfold messageWrite MessageWrite.accepted
  by_cases hlen : 256 ≤ w.bytes.length
  · simp [hlen, Nat.not_lt.mpr hlen]
  · cases hfault : w.fault <;> simp [hlen, Nat.not_le.mp hlen]

/-- An accepted message is shown up to its first NUL, whatever was there before. -/
theorem messageShow_accepted {w : MessageWrite} {bytes : List UInt8}
    (h : w.accepted = some bytes) (s : ProcData K) :
    messageShow (messageWrite w s).1 = cstr bytes := by
  unfold MessageWrite.accepted at h
  split at h
  · rename_i haccepted
    obtain ⟨hlen, hfault⟩ := haccepted
    cases h
    simp only [messageWrite, Nat.not_le.mpr hlen, if_false, hfault, messageShow]
    exact str_memcpy_set s.userMessage hlen
  · contradiction

/-- A write that is too long changes nothing. -/
theorem messageWrite_of_long {w : MessageWrite} (h : 256 ≤ w.bytes.length) (s : ProcData K) :
    messageWrite w s = (s, .error .EINVAL) :=
  if_pos h

/-- A write that faults leaves what it had copied. -/
theorem messageShow_fault {w : MessageWrite} {copied : Fin w.bytes.length}
    (hlen : w.bytes.length < 256) (hfault : w.fault = some copied) (s : ProcData K) :
    messageShow (messageWrite w s).1 = cstr (w.bytes.take copied) := by
  have hcopied := copied.isLt
  have hrange : (w.bytes.take copied ++ List.replicate (w.bytes.length - copied) 0).length ≤
      256 := by
    simp
    omega
  obtain ⟨zeros, hzeros⟩ : ∃ zeros, w.bytes.length - copied = zeros + 1 :=
    ⟨w.bytes.length - copied - 1, by omega⟩
  simp only [messageWrite, Nat.not_le.mpr hlen, if_false, hfault, messageShow, CharArray.str]
  rw [s.userMessage.bytes_memcpy hrange, hzeros, List.replicate_succ, List.append_assoc,
    List.cons_append, cstr_append_nul]

/-- A fault comes too late to be seen: what was copied spells the message that is
there. -/
def FaultUnseen (s : ProcData K) : Op K → Prop
  | .messageWrite w =>
      ∀ copied, w.fault = some copied → w.bytes.length < 256 →
        cstr (w.bytes.take copied) = messageShow s
  | .counterShow _ | .counterWrite .. => True

/-- The module next to the last accepted message. -/
abbrev Shown (t : ProcData K × List UInt8) : Prop := messageShow t.1 = t.2

theorem messageShow_load (K : Kernel) :
    messageShow (ProcData.load K) = ascii "Hello from kernel!\n".toList := by
  show ((CharArray.zero 256).memcpy (ascii "Hello from kernel!\n".toList)).str =
    ascii "Hello from kernel!\n".toList
  decide

/-- What one operation does to the message shown and to the one expected. -/
theorem shown_step_iff {s : ProcData K} {message : List UInt8} (h : messageShow s = message)
    (op : Op K) :
    messageShow (s.exec op) = lastAccepted message op ↔ FaultUnseen s op := by
  cases op with
  | counterShow jiffies => exact iff_of_true h trivial
  | counterWrite w jiffies =>
      refine iff_of_true ?_ trivial
      show (counterWrite w jiffies s).1.userMessage.str = message
      rw [userMessage_counterWrite]
      exact h
  | messageWrite w =>
      rw [ProcData.exec, lastAccepted, FaultUnseen]
      by_cases hlen : w.bytes.length < 256
      · cases hfault : w.fault with
        | none =>
            have haccepted : w.accepted = some w.bytes := if_pos ⟨hlen, hfault⟩
            rw [messageShow_accepted haccepted, haccepted]
            simp
        | some copied =>
            have haccepted : w.accepted = none := if_neg (by simp [hfault])
            rw [messageShow_fault hlen hfault, haccepted, h]
            simp [hlen]
      · have haccepted : w.accepted = none := if_neg (by simp [hlen])
        rw [messageWrite_of_long (Nat.not_lt.mp hlen), haccepted]
        simp [hlen, h]

/-- **The message shown.** Throughout a history the file shows the last accepted
message exactly when every fault comes unseen. -/
theorem shown_throughout_iff {ops : List (Op K)} :
    Throughout (both ProcData.exec lastAccepted) Shown
        (ProcData.load K, ascii "Hello from kernel!\n".toList) ops ↔
      StepsMeet ProcData.exec FaultUnseen (ProcData.load K) ops := by
  have hunwatched : StepsMeet (both ProcData.exec lastAccepted) (fun t op => FaultUnseen t.1 op)
      (ProcData.load K, ascii "Hello from kernel!\n".toList) ops ↔
        StepsMeet ProcData.exec FaultUnseen (ProcData.load K) ops :=
    stepsMeet_both_fst _ ops
  rw [← hunwatched]
  refine throughout_iff_stepsMeet (I := Shown) (A := fun _ _ => True) (fun _ h => h)
    (fun t op h _ hunseen => (shown_step_iff h op).mpr hunseen)
    (fun t op h _ hseen hshown => hseen ((shown_step_iff h op).mp hshown)) ?_
    (stepsMeet_of_forall (fun _ _ => trivial) ..)
  exact messageShow_load K

/-- A write that faults at its first byte: the message is gone. -/
theorem not_shown_of_fault :
    ¬ Throughout (both ProcData.exec lastAccepted) Shown
      (ProcData.load .x86_64, ascii "Hello from kernel!\n".toList)
      [.messageWrite ⟨ascii "new".toList, some ⟨0, by decide⟩⟩] := by
  intro h
  have hlast := h.last
  revert hlast
  decide

end KernelModules.ProcInterface
