import KernelModules.KernelList.ListText
import KernelModules.KernelList.Memory
import KernelModules.KernelList.Writers
import KernelModules.Lib.Traversal

/-!
Readers of `/proc/kernel_list_demo` beside its writers.

`kernel_list_show` takes no lock either. It prints one record after the other while the
writers evict, delete and clear, and the record that it stands at may be freed under it.
That is the only way to lead it astray: if no record is freed while a reader stands at it,
every reader comes through and shows all the records that stayed.

The writers are those of the interleaved writers: an eviction, the insertion after the
sleeping allocation, a deletion and a clear are one step each. What two of them do to each
other inside such a step is not looked at here; that no record is freed twice is said of
whole steps.
-/

namespace KernelModules.KernelList

open Lib

variable {K : Kernel}

/-- Where a call of `kernel_list_show` is, with what it has read. Each number is read when
it is printed. `since` is the list that the loop was entered with. -/
inductive Show (K : Kernel)
  | atTotal
  | atNextId (total : ℤ)
  | atFirst (total : ℤ) (nextId : CInt)
  | atRecords (total : ℤ) (nextId : CInt) (since : List (ℕ × DemoRecord K))
      (walk : Traversal (DemoRecord K))

namespace Show

/-- The next step: a number, the way into the list, a record. -/
def look (s : ListMemory K) : Show K → Show K
  | .atTotal => .atNextId s.recordCount
  | .atNextId total => .atFirst total s.nextId
  | .atFirst total nextId => .atRecords total nextId s.recordList (.enter s.recordList)
  | .atRecords total nextId since walk => .atRecords total nextId since (walk.next s.recordList)

/-- The record that the call stands at. -/
def cursor : Show K → Option ℕ
  | .atRecords _ _ _ walk => walk.cursor
  | .atTotal | .atNextId _ | .atFirst .. => none

/-- The call is at its end. -/
def done : Show K → Bool
  | .atRecords _ _ _ walk => walk.cursor.isNone
  | .atTotal | .atNextId _ | .atFirst .. => false

/-- What it has printed then. -/
def text (total : ℤ) (nextId : CInt) (walk : Traversal (DemoRecord K)) : List UInt8 :=
  kernelListShow ⟨contents walk.passed, total, nextId⟩

end Show

/-- The module, the threads in the middle of `add_record`, and the calls of
`kernel_list_show`. -/
structure Users (K : Kernel) where
  memory : ListMemory K
  adding : ℕ → Option (List UInt8)
  showing : ℕ → Option (Show K)

inductive UserStep (K : Kernel)
  /-- A writer takes a step. -/
  | writer (e : Step K)
  /-- `kernel_list_show` is called. -/
  | call (reader : ℕ)
  /-- It takes its next step. -/
  | look (reader : ℕ)

/-- What a step is for the writers. -/
def UserStep.writes : UserStep K → Option (Step K)
  | .writer e => some e
  | .call _ | .look _ => none

/-! ### What a command frees -/

namespace ListMemory

/-- What a thread does at once for a command: an addition only evicts. -/
def enter (s : ListMemory K) : Command → ListMemory K
  | .add _ => s.evictOldest
  | .del id => s.removeRecordById id
  | .clear => s.clearAllRecords

/-- The addresses that are freed. -/
def frees (s : ListMemory K) : Command → List ℕ
  | .add _ => if s.recordCount ≥ MAX_RECORDS then (s.recordList.head?.map Prod.fst).toList else []
  | .del id => ((s.recordList.find? (·.2.id = id)).map Prod.fst).toList
  | .clear => s.recordList.map Prod.fst

/-- The list after a command: what was in it and is not freed. -/
theorem Whole.points_enter {s : ListMemory K} (h : s.Whole) (c : Command) (addr : ℕ) :
    Points addr (s.enter c).recordList ↔ Points addr s.recordList ∧ addr ∉ s.frees c := by
  have hnodup : (s.recordList.map Prod.fst).Nodup := (List.nodup_append.mp h.owns.nodup).1
  cases c with
  | add name =>
      rcases h.evictOldest_cases with ⟨hroom, hevict⟩ | ⟨oldest, rest, hlist, hfull, hevict⟩
      · simp only [enter, hevict, frees, if_neg hroom, List.not_mem_nil, not_false_eq_true,
          and_true]
      · simp only [enter, hevict, frees, if_pos hfull, hlist, List.head?_cons, Option.map_some,
          Option.toList_some, List.mem_singleton]
        rw [hlist] at hnodup
        exact points_of_perm_cons (.refl _) hnodup
  | del id =>
      rcases s.removeRecordById_cases id with ⟨hfind, hremove⟩ | ⟨record, hfind, hperm, hremove⟩
      · simp only [enter, hremove, frees, hfind, Option.map_none, Option.toList_none,
          List.not_mem_nil, not_false_eq_true, and_true]
      · simp only [enter, hremove, frees, hfind, Option.map_some, Option.toList_some,
          List.mem_singleton]
        exact points_of_perm_cons hperm hnodup
  | clear =>
      refine iff_of_false not_points_nil ?_
      rintro ⟨hpoints, hfrees⟩
      exact hfrees hpoints

end ListMemory

/-! ### The memory -/

namespace ListMemory

/-- Nothing that was freed comes back, and no record changes. -/
structure Later (s s' : ListMemory K) : Prop where
  next_le : s.heap.next ≤ s'.heap.next
  records : ∀ block ∈ s'.recordList, block ∈ s.recordList ∨ s.heap.next ≤ block.1

theorem Later.later {s s' : ListMemory K} (h : s.Later s') :
    Lib.Later s.heap.next s.recordList s'.heap.next s'.recordList := by
  refine ⟨h.next_le, fun addr haddr => ?_⟩
  obtain ⟨block, hblock, rfl⟩ := List.mem_map.mp haddr
  exact (h.records block hblock).imp_left List.mem_map_of_mem

/-- A whole list in the order in which it was linked. -/
structure InOrder (s : ListMemory K) : Prop where
  whole : s.Whole
  ascending : Ascending s.recordList

variable {s : ListMemory K}

theorem InOrder.lt_next (h : s.InOrder) {block : ℕ × DemoRecord K} (hblock : block ∈ s.recordList) :
    block.1 < s.heap.next :=
  (h.whole.owns.mem_iff.mp (List.mem_map_of_mem hblock)).1

/-- A command only takes records out. -/
theorem enter_spec (s : ListMemory K) (c : Command) :
    (s.enter c).recordList.Sublist s.recordList ∧ (s.enter c).heap.next = s.heap.next := by
  cases c with
  | add name =>
      rw [ListMemory.enter, evictOldest]
      split
      · split
        · rename_i hlist
          exact ⟨List.Sublist.refl _, rfl⟩
        · rename_i oldest rest hlist
          rw [hlist]
          exact ⟨List.sublist_cons_self .., Heap.next_kfree ..⟩
      · exact ⟨List.Sublist.refl _, rfl⟩
  | del id =>
      rcases s.removeRecordById_cases id with ⟨-, hremove⟩ | ⟨record, -, -, hremove⟩ <;>
        rw [ListMemory.enter, hremove]
      · exact ⟨List.Sublist.refl _, rfl⟩
      · exact ⟨List.eraseP_sublist, Heap.next_kfree ..⟩
  | clear => exact ⟨List.nil_sublist _, Heap.next_kfreeAll ..⟩

theorem Later.enter (s : ListMemory K) (c : Command) : s.Later (s.enter c) :=
  ⟨(s.enter_spec c).2.ge, fun _ hblock => .inl ((s.enter_spec c).1.subset hblock)⟩

theorem InOrder.enter (h : s.InOrder) (c : Command) : (s.enter c).InOrder := by
  refine ⟨?_, h.ascending.sublist ((s.enter_spec c).1.map Prod.fst)⟩
  cases c with
  | add name => exact h.whole.evictOldest
  | del id => exact (h.whole.removeRecordById id).1
  | clear => exact h.whole.clearAllRecords

/-- What an addition links lies behind all that was ever allocated. -/
theorem Later.insertRecord (s : ListMemory K) (name : List UInt8) (jiffies : ULong K)
    (alloc : Bool) : s.Later (s.insertRecord name jiffies alloc) := by
  cases alloc with
  | false => exact ⟨le_rfl, fun _ hblock => .inl hblock⟩
  | true =>
      refine ⟨Nat.le_succ _, fun block hblock => ?_⟩
      rcases List.mem_append.mp hblock with hblock | hblock
      · exact .inl hblock
      · rw [List.mem_singleton.mp hblock]
        exact .inr le_rfl

theorem InOrder.insertRecord (h : s.InOrder) (name : List UInt8) (jiffies : ULong K)
    (alloc : Bool) : (s.insertRecord name jiffies alloc).InOrder := by
  refine ⟨(h.whole.insertRecord name jiffies alloc).1, ?_⟩
  cases alloc with
  | false => exact h.ascending
  | true =>
      refine Ascending.concat h.ascending ?_
      exact fun _ => h.lt_next

theorem points_insertRecord (s : ListMemory K) (name : List UInt8) (jiffies : ULong K)
    (alloc : Bool) {addr : ℕ} (h : Points addr s.recordList) :
    Points addr (s.insertRecord name jiffies alloc).recordList := by
  cases alloc with
  | false => exact h
  | true => exact points_append.mpr (.inl h)

end ListMemory

namespace Users

/-- Before `kernel_list_init`. -/
def start (K : Kernel) : Users K := ⟨.empty K, fun _ => none, fun _ => none⟩

/-- A thread that is not in an addition runs a command. -/
def run (thread : ℕ) (c : Command) (s : Users K) : Users K :=
  { s with
    memory := s.memory.enter c
    adding :=
      match c with
      | .add name => Function.update s.adding thread (some name)
      | .del _ | .clear => s.adding }

/-- The command that a step runs. -/
def command (s : Users K) : Step K → Option Command
  | .addRecord thread name => if s.adding thread = none then some (.add name) else none
  | .write thread w => if s.adding thread = none then writtenCommand w else none
  | .insert .. => none

/-- A writer takes its step as it does without readers. -/
def write (s : Users K) (e : Step K) : Users K :=
  match e with
  | .addRecord thread _ | .write thread _ =>
      match s.command e with
      | none => s
      | some c => s.run thread c
  | .insert thread jiffies alloc =>
      match s.adding thread with
      | none => s
      | some name =>
          { s with
            memory := s.memory.insertRecord name jiffies alloc
            adding := Function.update s.adding thread none }

/-- A reader makes one call after the other. -/
def step (s : Users K) : UserStep K → Users K
  | .writer e => s.write e
  | .call reader =>
      if (s.showing reader).all Show.done then
        { s with showing := Function.update s.showing reader (some .atTotal) }
      else s
  | .look reader =>
      { s with
        showing :=
          Function.update s.showing reader ((s.showing reader).map fun call => call.look s.memory) }

/-- Every reader stands at a record of the list, if it stands at one. -/
def InList (s : Users K) : Prop :=
  ∀ reader call, s.showing reader = some call →
    ∀ addr ∈ call.cursor, Points addr s.memory.recordList

/-- No record is freed while a reader stands at it. -/
def SparesShown (s : Users K) : UserStep K → Prop
  | .writer e =>
      ∀ c, s.command e = some c → ∀ reader call, s.showing reader = some call →
        ∀ addr ∈ call.cursor, addr ∉ s.memory.frees c
  | .call _ | .look _ => True

end Users

/-! ### A reader that is spared -/

/-- What a reader in its loop has shown: the records as they are. -/
structure Shows (s : ListMemory K) (since : List (ℕ × DemoRecord K))
    (walk : Traversal (DemoRecord K)) : Prop where
  tracks : walk.Tracks since s.heap.next s.recordList
  same : ∀ block ∈ walk.passed, ∀ other ∈ s.recordList, other.1 = block.1 → other = block

def Show.Right (s : ListMemory K) : Show K → Prop
  | .atRecords _ _ since walk => Shows s since walk
  | .atTotal | .atNextId _ | .atFirst .. => True

/-- A change of the list that spares the record under the cursor. -/
theorem Show.Right.later {s s' : ListMemory K} {call : Show K} (h : call.Right s)
    (hlater : s.Later s') (hsafe : ∀ addr ∈ call.cursor, Points addr s'.recordList) :
    call.Right s' := by
  cases call with
  | atTotal => trivial
  | atNextId total => trivial
  | atFirst total nextId => trivial
  | atRecords total nextId since walk =>
      refine ⟨h.tracks.later hlater.later hsafe, fun block hblock other hother haddr => ?_⟩
      refine h.same block hblock other ((hlater.records other hother).resolve_right ?_) haddr
      have hlt := h.tracks.old block (List.mem_append_right _ hblock)
      omega

/-- **The next step of a reader.** -/
theorem Show.Right.look {s : ListMemory K} {call : Show K} (h : call.Right s) (hs : s.InOrder) :
    (call.look s).Right s := by
  have hold : ∀ block ∈ s.recordList, block.1 < s.heap.next := fun _ => hs.lt_next
  cases call with
  | atTotal => trivial
  | atNextId total => trivial
  | atFirst total nextId =>
      exact ⟨Traversal.tracks_enter hs.ascending hold,
        fun block hblock => absurd hblock List.not_mem_nil⟩
  | atRecords total nextId since walk =>
      obtain ⟨htracks, hsame⟩ := h
      have hnext := htracks.next hs.ascending hold
      rw [Show.look]
      rcases Traversal.next_cases htracks.safe with ⟨-, hwalk⟩ |
        ⟨before, block, rest, hlist, -, hwalk⟩ <;> rw [hwalk] at hnext ⊢
      · exact ⟨hnext, hsame⟩
      refine ⟨hnext, fun shown hshown other hother haddr => ?_⟩
      rcases List.mem_append.mp hshown with hshown | hshown
      · exact hsame shown hshown other hother haddr
      · -- the record that has just been shown is the one in the list
        have hblock : block ∈ s.recordList := by
          rw [hlist]
          exact List.mem_append_right _ List.mem_cons_self
        rw [List.mem_singleton.mp hshown] at haddr ⊢
        exact List.inj_on_of_nodup_map hs.ascending.nodup hother hblock haddr

/-- A call that nobody disturbs prints what `kernel_list_show` prints. -/
theorem Show.look_alone {s : ListMemory K} (hs : s.InOrder) :
    (Show.look s)^[s.recordList.length + 3] .atTotal =
        .atRecords s.recordCount s.nextId s.recordList ⟨none, s.recordList, false⟩ ∧
      Show.text s.recordCount s.nextId ⟨none, s.recordList, false⟩ = kernelListShow s.forget := by
  have hloop : ∀ n walk, (Show.look s)^[n] (.atRecords s.recordCount s.nextId s.recordList walk) =
      .atRecords s.recordCount s.nextId s.recordList ((Traversal.next s.recordList)^[n] walk) := by
    intro n
    induction n with
    | zero => exact fun _ => rfl
    | succ n ih => exact fun walk => ih (walk.next s.recordList)
  refine ⟨?_, rfl⟩
  have hpassed := Traversal.next_iterate [] s.recordList hs.ascending s.recordList.length
  rw [List.drop_length, List.take_length] at hpassed
  rw [Function.iterate_add_apply]
  exact (hloop _ _).trans (congrArg _ hpassed)

/-! ### Readers beside writers -/

namespace Users

variable {s : Users K}

/-- What a writer does: a command, the second half of an addition, or nothing. -/
theorem write_cases (s : Users K) (e : Step K) :
    (∃ c thread, s.command e = some c ∧ s.write e = s.run thread c) ∨
      s.command e = none ∧
        (s.write e = s ∨ ∃ thread name jiffies alloc,
          s.write e =
            { s with
              memory := s.memory.insertRecord name jiffies alloc
              adding := Function.update s.adding thread none }) := by
  cases e with
  | addRecord thread name =>
      rw [write]
      cases hcommand : s.command (.addRecord thread name) with
      | none => exact .inr ⟨rfl, .inl rfl⟩
      | some c => exact .inl ⟨c, thread, rfl, rfl⟩
  | write thread w =>
      rw [write]
      cases hcommand : s.command (.write thread w) with
      | none => exact .inr ⟨rfl, .inl rfl⟩
      | some c => exact .inl ⟨c, thread, rfl, rfl⟩
  | insert thread jiffies alloc =>
      rw [write]
      cases s.adding thread with
      | none => exact .inr ⟨rfl, .inl rfl⟩
      | some name => exact .inr ⟨rfl, .inr ⟨thread, name, jiffies, alloc, rfl⟩⟩

/-- The memory is whole and in order, whatever the readers do. -/
theorem inOrder_step (s : Users K) (e : UserStep K) (h : s.memory.InOrder) :
    (s.step e).memory.InOrder := by
  cases e with
  | writer e =>
      rw [step]
      rcases s.write_cases e with ⟨c, thread, -, hs⟩ |
        ⟨-, hs | ⟨thread, name, jiffies, alloc, hs⟩⟩ <;> rw [hs]
      · exact h.enter c
      · exact h
      · exact h.insertRecord name jiffies alloc
  | call reader =>
      rw [step]
      split <;> exact h
  | look reader => exact h

/-- Every reader is on its way. -/
structure Tracked (s : Users K) : Prop where
  inOrder : s.memory.InOrder
  right : ∀ reader call, s.showing reader = some call → call.Right s.memory

theorem inOrder_start (K : Kernel) : (start K).memory.InOrder :=
  ⟨⟨.empty, rfl⟩, List.Pairwise.nil⟩

theorem tracked_start (K : Kernel) : (start K).Tracked :=
  ⟨inOrder_start K, fun _ _ h => absurd h (Option.some_ne_none _).symm⟩

theorem Tracked.inList (h : s.Tracked) : s.InList := by
  intro reader call hcall addr haddr
  have hright := h.right reader call hcall
  cases call with
  | atTotal => cases haddr
  | atNextId total => cases haddr
  | atFirst total nextId => cases haddr
  | atRecords total nextId since walk => exact hright.tracks.safe addr haddr

/-- One reader takes a step. -/
theorem Tracked.update (h : s.Tracked) (reader : ℕ) {call : Option (Show K)}
    (hcall : ∀ next, call = some next → next.Right s.memory) :
    Tracked { s with showing := Function.update s.showing reader call } :=
  ⟨h.inOrder, (Function.forall_update_iff s.showing fun _ call =>
    ∀ next, call = some next → next.Right s.memory).mpr
      ⟨hcall, fun other _ => h.right other⟩⟩

/-- **One step that spares the readers.** -/
theorem Tracked.step (h : s.Tracked) {e : UserStep K} (hspares : s.SparesShown e) :
    (s.step e).Tracked := by
  have horder := inOrder_step s e h.inOrder
  cases e with
  | writer e =>
      rw [Users.step] at horder ⊢
      rcases s.write_cases e with ⟨c, thread, hcommand, hs⟩ |
        ⟨-, hs | ⟨thread, name, jiffies, alloc, hs⟩⟩ <;> rw [hs] at horder ⊢
      · refine ⟨horder, fun reader call hcall => ?_⟩
        refine (h.right reader call hcall).later (.enter s.memory c) fun addr haddr => ?_
        exact (h.inOrder.whole.points_enter c addr).mpr
          ⟨h.inList reader call hcall addr haddr, hspares c hcommand reader call hcall addr haddr⟩
      · exact h
      · refine ⟨horder, fun reader call hcall => ?_⟩
        exact (h.right reader call hcall).later (.insertRecord ..) fun addr haddr =>
          s.memory.points_insertRecord name jiffies alloc (h.inList reader call hcall addr haddr)
  | call reader =>
      rw [Users.step]
      split
      · refine h.update reader fun next hnext => ?_
        cases hnext
        trivial
      · exact h
  | look reader =>
      refine h.update reader fun next hnext => ?_
      obtain ⟨call, hcall, rfl⟩ := Option.map_eq_some_iff.mp hnext
      exact (h.right reader call hcall).look h.inOrder

/-- A record that is freed under a reader is not in the list any more. -/
theorem Tracked.not_inList (h : s.Tracked) {e : UserStep K} (hfrees : ¬ s.SparesShown e) :
    ¬ (s.step e).InList := by
  cases e with
  | call reader => exact absurd trivial hfrees
  | look reader => exact absurd trivial hfrees
  | writer e =>
      simp only [SparesShown, not_forall, not_not] at hfrees
      obtain ⟨c, hcommand, reader, call, hcall, addr, haddr, hfreed⟩ := hfrees
      rw [Users.step]
      rcases s.write_cases e with ⟨c', thread, hcommand', hs⟩ | ⟨hnone, -⟩
      · obtain rfl : c = c' := Option.some.inj (hcommand.symm.trans hcommand')
        rw [hs]
        intro hlist
        have hpoints := hlist reader call hcall addr haddr
        exact ((h.inOrder.whole.points_enter c addr).mp hpoints).2 hfreed
      · rw [hnone] at hcommand
        cases hcommand

/-! ### The writers by themselves -/

/-- The module as the writers see it. -/
def forget (s : Users K) : Writers K := ⟨s.memory.forget, s.adding⟩

theorem forget_run (h : s.memory.Whole) (thread : ℕ) (c : Command) :
    (s.run thread c).forget = s.forget.enter thread c := by
  cases c with
  | add name => exact congrArg (Writers.mk · _) s.memory.forget_evictOldest
  | del id => exact congrArg (Writers.mk · _) (h.removeRecordById id).2
  | clear => rfl

/-- The writers do what they do without readers and without addresses. -/
theorem forget_write (h : s.memory.Whole) (e : Step K) :
    (s.write e).forget = s.forget.step e := by
  have hadding : ∀ thread, s.forget.adding thread = s.adding thread := fun _ => rfl
  cases e with
  | addRecord thread name =>
      rw [Writers.step, hadding]
      cases hthread : s.adding thread with
      | none => simpa only [write, command, hthread, if_true] using forget_run h thread (.add name)
      | some _ => simp [write, command, hthread]
  | write thread w =>
      rw [Writers.step, hadding]
      cases hthread : s.adding thread with
      | some _ => simp [write, command, hthread]
      | none =>
          cases hcommand : writtenCommand w with
          | none => simp [write, command, hthread, hcommand]
          | some c =>
              simpa only [write, command, hthread, hcommand, if_true] using forget_run h thread c
  | insert thread jiffies alloc =>
      rw [Writers.step, hadding, write]
      cases s.adding thread with
      | none => rfl
      | some name => exact congrArg (Writers.mk · _) (h.insertRecord name jiffies alloc).2

/-- Readers change nothing. -/
theorem forget_steps (h : s.memory.InOrder) (es : List (UserStep K)) :
    (Lib.run step s es).forget = Lib.run Writers.step s.forget (es.filterMap UserStep.writes) := by
  induction es generalizing s with
  | nil => rfl
  | cons e es ih =>
      rw [run_cons, ih (inOrder_step s e h)]
      cases e with
      | writer e =>
          show Lib.run Writers.step (s.write e).forget _ = Lib.run Writers.step _ (e :: _)
          rw [run_cons, forget_write h.whole e]
      | call reader =>
          rw [step]
          split <;> rfl
      | look reader => rfl

/-- **Readers without a lock.** Whatever the order of the steps, where an eviction, an
insertion, a deletion and a clear are whole steps, no record is freed twice, and the
readers change nothing for the writers. Throughout a schedule all readers stand at
records of the list exactly when no record is freed under one. A reader that has come
through such a schedule has shown the records in the order in which they were added, none
twice, and all those that were there from its first look at the list on. -/
theorem shows_right_iff (es : List (UserStep K)) :
    (Lib.run step (start K) es).memory.heap.fault = false ∧
    (Lib.run step (start K) es).forget =
      Lib.run Writers.step (.start K) (es.filterMap UserStep.writes) ∧
    (Throughout step InList (start K) es ↔ StepsMeet step SparesShown (start K) es) ∧
    (StepsMeet step SparesShown (start K) es →
      ∀ reader total nextId since walk,
        (Lib.run step (start K) es).showing reader = some (.atRecords total nextId since walk) →
        walk.cursor = none →
          walk.astray = false ∧ Ascending walk.passed ∧
          (∀ block ∈ since, block ∈ (Lib.run step (start K) es).memory.recordList →
            block ∈ walk.passed) ∧
          ∀ block ∈ walk.passed,
            Points block.1 (Lib.run step (start K) es).memory.recordList →
            block ∈ (Lib.run step (start K) es).memory.recordList) := by
  have horder : (Lib.run step (start K) es).memory.InOrder :=
    run_invariant (I := fun s : Users K => s.memory.InOrder) inOrder_step (inOrder_start K) es
  refine ⟨horder.whole.owns.fault, forget_steps (inOrder_start K) es, ?_,
    fun hspares reader total nextId since walk hcall hend => ?_⟩
  · exact throughout_iff_stepsMeet (I := Tracked) (A := fun _ _ => True) (fun _ h => h.inList)
      (fun _ _ h _ hspares => h.step hspares) (fun _ _ h _ hfrees => h.not_inList hfrees)
      (tracked_start K) (stepsMeet_of_forall (fun _ _ => trivial) ..)
  · have htracked := (hspares.throughout (I := Tracked) (fun _ _ h he => h.step he)
      (tracked_start K)).last
    obtain ⟨htracks, hsame⟩ := htracked.right reader _ hcall
    obtain ⟨honWay, hascending, hcomplete⟩ := htracks.finished hend
    refine ⟨honWay, hascending, fun block hsince hblock => ?_, fun block hpassed hpoints => ?_⟩
    · obtain ⟨shown, hshown, haddr⟩ :=
        List.mem_map.mp (hcomplete block hsince (List.mem_map_of_mem hblock))
      rw [hsame shown hshown block hblock haddr.symm]
      exact hshown
    · obtain ⟨other, hother, haddr⟩ := List.mem_map.mp hpoints
      rw [← hsame block hpassed other hother haddr]
      exact hother

/-- A clear frees the record that a reader is about to show. -/
example :
    ¬ Throughout step InList (start .x86_64)
      ([.writer (.addRecord 0 []), .writer (.insert 0 0 true), .call 0] ++
        List.replicate 3 (.look 0) ++
        [.writer (.write 0 ⟨ascii "clear".toList, false⟩)]) := by
  intro h
  have hpoints := h.last 0 _ rfl 0 rfl
  exact absurd hpoints List.not_mem_nil

end Users

end KernelModules.KernelList
