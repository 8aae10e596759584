import KernelModules.Lib.CString

/-!
Programs that say how they use arrays.

C code that indexes past an array, or reads a string that has no end, goes on with
whatever is there; the value it computes does not show it. Here a computation
returns its result, or the error it stops with, together with the list of all uses
it made of arrays. `Inside` says that they were all within bounds; the rules below
prove it statement by statement, with what holds of the value in between.
-/

namespace KernelModules.Lib

variable {ε α β : Type}

/-- One use of an array. -/
inductive Use
  /-- Element `i` of `size` elements. -/
  | index (size i : ℕ)
  /-- The first `count` of `size` elements. -/
  | range (size count : ℕ)
  /-- A string that starts at these bytes, to the end of their array. -/
  | string (bytes : List UInt8)

/-- The use stays in its array; a string ends in it. -/
def Use.Inside : Use → Prop
  | .index size i => i < size
  | .range size count => count ≤ size
  | .string bytes => 0 ∈ bytes

instance : ∀ u : Use, Decidable u.Inside
  | .index size i => inferInstanceAs (Decidable (i < size))
  | .range size count => inferInstanceAs (Decidable (count ≤ size))
  | .string bytes => inferInstanceAs (Decidable (0 ∈ bytes))

/-- A computation that may stop with an error, and its uses. -/
structure Noted (ε α : Type) where
  result : Except ε α
  uses : List Use

namespace Noted

/-- Use an array. -/
def note (u : Use) : Noted ε Unit := ⟨.ok (), [u]⟩

/-- Stop. -/
def fail (e : ε) : Noted ε α := ⟨.error e, []⟩

/-- After an error nothing more is done. -/
def andThen (x : Noted ε α) (f : α → Noted ε β) : Noted ε β :=
  match x.result with
  | .error e => ⟨.error e, x.uses⟩
  | .ok a => ⟨(f a).result, x.uses ++ (f a).uses⟩

instance : Monad (Noted ε) where
  pure a := ⟨.ok a, []⟩
  bind := andThen

/-- Every use stays in its array. -/
def Inside (x : Noted ε α) : Prop := ∀ u ∈ x.uses, u.Inside

/-- Every use stays in its array, and a value that is returned satisfies `Q`. -/
def Safe (x : Noted ε α) (Q : α → Prop) : Prop :=
  x.Inside ∧ ∀ a, x.result = .ok a → Q a

variable {x : Noted ε α} {f : α → Noted ε β} {P : α → Prop} {Q : β → Prop}

/-! ### Results -/

@[simp] theorem result_pure (a : α) : (pure a : Noted ε α).result = .ok a := rfl

@[simp] theorem result_fail (e : ε) : (fail e : Noted ε α).result = .error e := rfl

@[simp] theorem result_note (u : Use) : (note u : Noted ε Unit).result = .ok () := rfl

@[simp] theorem result_bind (x : Noted ε α) (f : α → Noted ε β) :
    (x >>= f).result = x.result.bind fun a => (f a).result := by
  show (andThen x f).result = _
  rw [andThen]
  cases x.result <;> rfl

/-! ### Rules -/

theorem safe_pure {a : β} (h : Q a) : Safe (pure a : Noted ε β) Q :=
  ⟨fun _ hu => absurd hu List.not_mem_nil, fun _ ha => Except.ok.inj ha ▸ h⟩

theorem safe_fail (e : ε) : Safe (fail e : Noted ε β) Q :=
  ⟨fun _ hu => absurd hu List.not_mem_nil, fun _ ha => by cases ha⟩

theorem safe_bind (hx : Safe x P) (hf : ∀ a, P a → Safe (f a) Q) : Safe (x >>= f) Q := by
  obtain ⟨hinside, hvalue⟩ := hx
  show Safe (andThen x f) Q
  rw [andThen]
  cases hresult : x.result with
  | error e => exact ⟨hinside, fun _ ha => by cases ha⟩
  | ok a =>
      obtain ⟨hinside', hvalue'⟩ := hf a (hvalue a hresult)
      refine ⟨fun u hu => ?_, hvalue'⟩
      rcases List.mem_append.mp hu with hu | hu
      · exact hinside u hu
      · exact hinside' u hu

/-- A use, and what follows it. -/
theorem safe_note {u : Use} {g : Unit → Noted ε β} (hu : u.Inside) (hg : Safe (g ()) Q) :
    Safe (note u >>= g) Q := by
  refine safe_bind (P := fun _ => True) ⟨?_, fun _ _ => trivial⟩ fun _ _ => hg
  intro v hv
  rwa [List.mem_singleton.mp hv]

/-- What was used before stays used. -/
theorem mem_uses_bind {u : Use} (f : α → Noted ε β) (h : u ∈ x.uses) : u ∈ (x >>= f).uses := by
  show u ∈ (andThen x f).uses
  rw [andThen]
  cases x.result with
  | error e => exact h
  | ok a => exact List.mem_append_left _ h

theorem mem_uses_note {u v : Use} {g : Unit → Noted ε β} (h : u = v ∨ u ∈ (g ()).uses) :
    u ∈ (note v >>= g).uses := by
  show u ∈ [v] ++ (g ()).uses
  rw [List.mem_append, List.mem_singleton]
  exact h

/-! ### Statements -/

/-- `if (strcmp(s, text) == 0) ... else ...`, with the bytes from `s` on. -/
def ifStrcmp (s : List UInt8) (text : List Char) (yes no : Noted ε α) : Noted ε α := do
  note (.string s)
  if strcmp s (ascii text) = 0 then yes else no

theorem safe_ifStrcmp {s : List UInt8} {text : List Char} {yes no : Noted ε β} (hs : 0 ∈ s)
    (hyes : Safe yes Q) (hno : Safe no Q) : Safe (ifStrcmp s text yes no) Q := by
  refine safe_note hs ?_
  split
  · exact hyes
  · exact hno

theorem result_ifStrcmp (s : List UInt8) (text : List Char) (yes no : Noted ε α) :
    (ifStrcmp s text yes no).result =
      if strcmp s (ascii text) = 0 then yes.result else no.result := by
  rw [ifStrcmp, result_bind]
  show (if strcmp s (ascii text) = 0 then yes else no).result = _
  split <;> rfl

end Noted

end KernelModules.Lib
