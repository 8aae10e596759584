import KernelModules.ProcInterface.Store
import KernelModules.Lib.Run
import Mathlib.Logic.Function.Basic

/-!
Concurrent writers and readers of the message.

No lock is taken: calls copy into the message byte by byte, over one another and
over one another's terminators, and a reader scans whatever is there. What keeps
the message a string is its last byte, which a copy never reaches and a terminator
can only clear.
-/

namespace KernelModules.ProcInterface

open Lib

variable {K : Kernel}

/-- What a thread does with the message. -/
inductive Activity
  /-- In `copy_from_user`, at the byte `pos`. -/
  | copying (w : MessageWrite) (pos : ℕ)
  /-- The copy has faulted, and fills its range with zeros. -/
  | zeroing (w : MessageWrite) (pos : ℕ)
  /-- In a `%s` of the message, about to read the byte `pos`. -/
  | scanning (pos : ℕ)

/-- The module, and the threads that are in a call. -/
structure Users (K : Kernel) where
  data : ProcData K
  active : ℕ → Option Activity

inductive Event
  /-- `message_write` is called. -/
  | write (thread : ℕ) (w : MessageWrite)
  /-- `message_show` or `info_show` comes to the message. -/
  | scan (thread : ℕ)
  /-- The thread goes on with its call. -/
  | resume (thread : ℕ)

namespace Users

/-- The module is loaded and nobody is in a call. -/
def start (K : Kernel) : Users K := ⟨.load K, fun _ => none⟩

def goto (s : Users K) (thread : ℕ) (activity : Option Activity) : Users K :=
  { s with active := Function.update s.active thread activity }

/-- Assign one byte of the message. -/
def store (s : Users K) (pos : ℕ) (c : UInt8) : Users K :=
  { s with data := { s.data with userMessage := s.data.userMessage.set pos c } }

/-- One step of a call. A write prints the message after its terminator. -/
def advance (s : Users K) (thread : ℕ) : Activity → Users K
  | .copying w pos =>
      if w.fault.map Fin.val = some pos then s.goto thread (some (.zeroing w pos))
      else
        match w.bytes[pos]? with
        | some c => (s.store pos c).goto thread (some (.copying w (pos + 1)))
        | none => (s.store w.bytes.length 0).goto thread (some (.scanning 0))
  | .zeroing w pos =>
      if pos < w.bytes.length then
        (s.store pos 0).goto thread (some (.zeroing w (pos + 1)))
      else s.goto thread none
  | .scanning pos =>
      match s.data.userMessage.bytes[pos]? with
      | some c => s.goto thread (if c = 0 then none else some (.scanning (pos + 1)))
      | none => s

/-- A thread in a call makes no other. -/
def step (s : Users K) : Event → Users K
  | .write thread w =>
      match s.active thread with
      | some _ => s
      | none => if 256 ≤ w.bytes.length then s else s.goto thread (some (.copying w 0))
  | .scan thread =>
      match s.active thread with
      | some _ => s
      | none => s.goto thread (some (.scanning 0))
  | .resume thread =>
      match s.active thread with
      | some activity => s.advance thread activity
      | none => s

/-! ### The last byte -/

/-- What a call may touch: an accepted write is shorter than the message, and a
scan has not gone past the last byte. -/
def Inside : Activity → Prop
  | .copying w _ | .zeroing w _ => w.bytes.length < 256
  | .scanning pos => pos < 256

/-- The last byte is a NUL, and every call stays inside the message. -/
structure Terminated (s : Users K) : Prop where
  last : s.data.userMessage.bytes[255]? = some 0
  inside : ∀ thread activity, s.active thread = some activity → Inside activity

theorem terminated_start (K : Kernel) : (start K).Terminated := by
  refine ⟨?_, fun _ _ h => by cases h⟩
  show ((CharArray.zero 256).memcpy (ascii "Hello from kernel!\n".toList)).bytes[255]? = some 0
  decide

namespace Terminated

variable {s : Users K}

theorem goto (h : s.Terminated) {thread : ℕ} {activity : Option Activity}
    (hinside : ∀ a, activity = some a → Inside a) : (s.goto thread activity).Terminated := by
  refine ⟨h.last, fun u a hu => ?_⟩
  by_cases hut : u = thread
  · subst hut
    simp only [Users.goto, Function.update_self] at hu
    exact hinside a hu
  · simp only [Users.goto, Function.update_of_ne hut] at hu
    exact h.inside u a hu

theorem goto_some (h : s.Terminated) {thread : ℕ} {activity : Activity}
    (hinside : Inside activity) : (s.goto thread (some activity)).Terminated :=
  h.goto fun _ ha => Option.some.inj ha ▸ hinside

theorem goto_none (h : s.Terminated) (thread : ℕ) : (s.goto thread none).Terminated :=
  h.goto fun _ ha => by cases ha

/-- A byte before the last one, or a NUL. -/
theorem store (h : s.Terminated) {pos : ℕ} {c : UInt8} (hc : pos < 255 ∨ c = 0) :
    (s.store pos c).Terminated := by
  refine ⟨?_, h.inside⟩
  show (s.data.userMessage.bytes.set pos c)[255]? = some 0
  rw [List.getElem?_set]
  split
  · rename_i hpos
    have hzero : c = 0 := hc.resolve_left (by omega)
    rw [hzero, if_pos (by rw [hpos, s.data.userMessage.length_eq]; decide)]
  · exact h.last

/-- **One step of a call.** -/
theorem advance (h : s.Terminated) {thread : ℕ} {activity : Activity}
    (hinside : Inside activity) : (s.advance thread activity).Terminated := by
  cases activity with
  | copying w pos =>
      have hlen : w.bytes.length < 256 := hinside
      rw [Users.advance]
      split
      · exact h.goto_some hlen
      · cases hbyte : w.bytes[pos]? with
        | some c =>
            obtain ⟨hpos, -⟩ := List.getElem?_eq_some_iff.mp hbyte
            exact (h.store (.inl (by omega))).goto_some hlen
        | none => exact (h.store (.inr rfl)).goto_some (Nat.zero_lt_succ 255)
  | zeroing w pos =>
      have hlen : w.bytes.length < 256 := hinside
      rw [Users.advance]
      split
      · exact (h.store (.inr rfl)).goto_some hlen
      · exact h.goto_none thread
  | scanning pos =>
      have hpos : pos < 256 := hinside
      rw [Users.advance]
      cases hbyte : s.data.userMessage.bytes[pos]? with
      | none => exact h
      | some c =>
          dsimp only
          split
          · exact h.goto_none thread
          · -- a scan goes on only past a byte that is not the last
            rename_i hc
            have hlast : pos ≠ 255 := by
              rintro rfl
              rw [h.last, Option.some.injEq] at hbyte
              exact hc hbyte.symm
            have hnext : pos + 1 < 256 := by omega
            exact h.goto_some hnext

/-- **One event.** -/
theorem step (h : s.Terminated) (e : Event) : (s.step e).Terminated := by
  cases e with
  | write thread w =>
      rw [Users.step]
      cases s.active thread with
      | some _ => exact h
      | none =>
          dsimp only
          split
          · exact h
          · rename_i hlen
            exact h.goto_some (Nat.not_le.mp hlen)
  | scan thread =>
      rw [Users.step]
      cases s.active thread with
      | some _ => exact h
      | none => exact h.goto_some (Nat.zero_lt_succ 255)
  | resume thread =>
      rw [Users.step]
      cases hactive : s.active thread with
      | none => exact h
      | some activity => exact h.advance (h.inside thread activity hactive)

end Terminated

/-- **The message is a string at every instant.** After every schedule of writes
and reads, of any number of threads, there is a NUL in the message, and no scan
has left it. -/
theorem terminated_always (schedule : List Event) :
    let s := run step (start K) schedule
    (∃ i < 256, s.data.userMessage.bytes[i]? = some 0) ∧
      strlen s.data.userMessage.bytes < 256 ∧
      ∀ thread pos, s.active thread = some (.scanning pos) → pos < 256 := by
  intro s
  have h : s.Terminated :=
    run_invariant (I := Terminated) (fun s e h => Terminated.step h e) (terminated_start K)
      schedule
  exact ⟨⟨255, by decide, h.last⟩, strlen_lt h.last, fun thread pos hpos =>
    h.inside thread _ hpos⟩

/-! ### A call by itself -/

theorem goto_goto (s : Users K) (thread : ℕ) (a b : Option Activity) :
    (s.goto thread a).goto thread b = s.goto thread b := by
  simp [goto]

theorem store_goto (s : Users K) (thread : ℕ) (a : Option Activity) (pos : ℕ) (c : UInt8) :
    (s.goto thread a).store pos c = (s.store pos c).goto thread a := rfl

theorem step_resume_goto (s : Users K) (thread : ℕ) (a : Activity) :
    (s.goto thread (some a)).step (.resume thread) =
      (s.goto thread (some a)).advance thread a := by
  simp [step, goto]

/-- Characters at the start of the message. -/
def put (s : Users K) (src : List UInt8) : Users K :=
  { s with data := { s.data with userMessage := s.data.userMessage.memcpy src } }

theorem store_put (s : Users K) (src : List UInt8) (h : src.length < 256) (c : UInt8) :
    (s.put src).store src.length c = s.put (src ++ [c]) := by
  simp only [put, store, memcpy_set_next _ h]

theorem put_nil (s : Users K) : s.put [] = s := by
  have hmemcpy : s.data.userMessage.memcpy [] = s.data.userMessage :=
    CharArray.eq_of_bytes (s.data.userMessage.bytes_memcpy (Nat.zero_le _))
  simp only [put, hmemcpy]

variable {w : MessageWrite}

/-- The copy of the first `m` bytes. -/
theorem run_copying (s : Users K) (thread : ℕ) (hlen : w.bytes.length < 256) {m : ℕ}
    (hm : m ≤ w.bytes.length) (hfault : ∀ copied, w.fault = some copied → m ≤ copied) :
    run step (s.goto thread (some (.copying w 0))) (List.replicate m (.resume thread)) =
      (s.put (w.bytes.take m)).goto thread (some (.copying w m)) := by
  induction m with
  | zero => simp [put_nil]
  | succ m ih =>
      have hpos : m < w.bytes.length := by omega
      have hrun := ih hpos.le fun copied hcopied => (Nat.lt_of_succ_le (hfault copied hcopied)).le
      have hbefore : w.fault.map Fin.val ≠ some m := by
        intro hmap
        obtain ⟨copied, hcopied, hm⟩ := Option.map_eq_some_iff.mp hmap
        have hle := hfault copied hcopied
        omega
      have htake : (w.bytes.take m).length = m := List.length_take_of_le hpos.le
      have hstore := store_put s (w.bytes.take m) (by omega) w.bytes[m]
      rw [htake, List.take_append_getElem hpos] at hstore
      rw [List.replicate_succ', run_concat, hrun, step_resume_goto, advance, if_neg hbefore,
        List.getElem?_eq_getElem hpos]
      simp only [store_goto, goto_goto, hstore]

/-- The zeros after a fault. -/
theorem run_zeroing (s : Users K) (thread : ℕ) (hlen : w.bytes.length < 256)
    (src : List UInt8) {m : ℕ}
    (hm : src.length + m ≤ w.bytes.length) :
    run step ((s.put src).goto thread (some (.zeroing w src.length)))
        (List.replicate m (.resume thread)) =
      (s.put (src ++ List.replicate m 0)).goto thread (some (.zeroing w (src.length + m))) := by
  induction m with
  | zero => simp
  | succ m ih =>
      have hpos : src.length + m < w.bytes.length := by omega
      have hstore := store_put s (src ++ List.replicate m 0) (by simp; omega) 0
      rw [List.length_append, List.length_replicate, List.append_assoc, ← List.replicate_succ']
        at hstore
      rw [List.replicate_succ', run_concat, ih hpos.le, step_resume_goto, advance, if_pos hpos]
      simp only [store_goto, goto_goto, hstore]
      rfl

/-- What a call goes on with when it is left alone: a success is still printed. -/
def afterwards : Except Errno ℕ → Option Activity
  | .ok _ => some (.scanning 0)
  | .error _ => none

/-- **A call by itself.** A thread that is left alone in `message_write` does what
the call does as a whole. -/
theorem run_alone (s : Users K) {thread : ℕ} (hidle : s.active thread = none) (w : MessageWrite) :
    ∃ steps, run step s (.write thread w :: List.replicate steps (.resume thread)) =
      { s with data := (messageWrite w s.data).1 }.goto thread
        (afterwards (messageWrite w s.data).2) := by
  by_cases hlong : 256 ≤ w.bytes.length
  · have hsame : s.goto thread none = s := by
      rw [goto, Function.update_eq_self_iff.mpr hidle.symm]
    refine ⟨0, ?_⟩
    rw [List.replicate_zero, run_cons, run_nil, step, hidle, messageWrite, if_pos hlong]
    dsimp only
    rw [if_pos hlong]
    exact hsame.symm
  · have hlen : w.bytes.length < 256 := not_le.mp hlong
    have hcall : s.step (.write thread w) = s.goto thread (some (.copying w 0)) := by
      rw [step, hidle]
      exact if_neg hlong
    cases hfault : w.fault with
    | none =>
        refine ⟨w.bytes.length + 1, ?_⟩
        have hcopied := run_copying s thread hlen le_rfl
          fun copied hcopied => by rw [hfault] at hcopied; cases hcopied
        rw [run_cons, hcall, List.replicate_succ', run_concat, hcopied, step_resume_goto, advance,
          hfault, if_neg (by simp), List.getElem?_eq_none le_rfl, List.take_length, messageWrite,
          if_neg hlong, hfault]
        simp only [store_goto, goto_goto]
        rfl
    | some copied =>
        have hrange := copied.isLt
        have htake : (w.bytes.take copied).length = copied := List.length_take_of_le hrange.le
        have hcopied := run_copying s thread hlen hrange.le
          fun copied' hcopied' => by rw [hfault, Option.some.injEq] at hcopied'; rw [hcopied']
        have hzeroed := run_zeroing s thread (w := w) hlen (w.bytes.take copied)
          (m := w.bytes.length - copied) (by omega)
        have hend : (copied : ℕ) + (w.bytes.length - copied) = w.bytes.length := by omega
        rw [htake, hend] at hzeroed
        refine ⟨copied + ((w.bytes.length - copied + 1) + 1), ?_⟩
        rw [run_cons, hcall, List.replicate_add, run_append, hcopied, List.replicate_succ, run_cons,
          step_resume_goto, advance, hfault, Option.map_some, if_pos rfl, goto_goto,
          List.replicate_succ', run_concat, hzeroed, step_resume_goto, advance,
          if_neg (lt_irrefl _), goto_goto, messageWrite, if_neg hlong, hfault]
        rfl

end Users

end KernelModules.ProcInterface
