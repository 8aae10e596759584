import KernelModules.ConcurrencyControl.Locks
import KernelModules.ConcurrencyControl.Memory
import KernelModules.ConcurrencyControl.Report
import KernelModules.Lib.Progress
import KernelModules.Lib.Traversal

/-!
Loops over the list of `04_concurrency_control.c`.

`rwlock_read_data` and `concurrency_show` go through the list item by item, the one under
`data_rwlock`, shared with other readers, the other under `data_spinlock`. Each of the
locks keeps the writers that take the same lock away, and only those: a writer under
another lock may free the item that the loop stands at.
-/

namespace KernelModules.ConcurrencyControl

open Lib

variable {K : Kernel} {k : ℕ}

/-! ### The sections, with addresses -/

namespace Stage

/-- What a step of a section does. An item gets its address when it is linked: before that
nobody else sees it. -/
def run (s : DemoMemory K) : Stage → DemoMemory K
  | .evictOldest .. => s.evictOldest
  | .linkData _ value =>
      match s.heap.kmalloc with
      | (addr, heap) => { s with heap, dataList := s.dataList ++ [(addr, ⟨value, 0⟩)] }
  | .countData lock => { s with dataCount := s.dataCount + 1, stats := s.stats.countAdd lock }
  | .unlinkAll => { s with heap := s.heap.kfreeAll s.dataList, dataList := [] }
  | .zeroCounts => { s with dataCount := 0, stats := .zero K }
  | .release _ => s

/-- The addresses that it frees. -/
def frees (s : DemoMemory K) : Stage → List ℕ
  | .evictOldest .. =>
      if s.dataCount ≥ MAX_DATA_ITEMS then (s.dataList.head?.map Prod.fst).toList else []
  | .unlinkAll => s.dataList.map Prod.fst
  | .linkData .. | .countData _ | .zeroCounts | .release _ => []

/-- An eviction finds an item to evict. -/
def Finds (s : DemoMemory K) : Stage → Prop
  | .evictOldest .. => s.dataCount ≥ MAX_DATA_ITEMS → s.dataList ≠ []
  | .linkData .. | .countData _ | .unlinkAll | .zeroCounts | .release _ => True

end Stage

/-! ### The threads -/

/-- The loops over the list. -/
inductive Walker
  /-- `rwlock_read_data` -/
  | reader
  /-- `concurrency_show` -/
  | shower
  deriving DecidableEq

/-- What a thread is doing: nothing with the list, a section that changes it, or a loop
that was entered with the items `since`. -/
inductive Activity (K : Kernel)
  | outside
  | inside (stage : Stage)
  | walking (walker : Walker) (since : List (ℕ × SharedData K)) (walk : Traversal (SharedData K))

namespace Activity

/-- The lock that the thread holds. -/
def lock : Activity K → Option Lock
  | .outside => none
  | .inside stage => some stage.lock
  | .walking .reader .. => some .rwlock
  | .walking .shower .. => some .spinlock

/-- Readers hold their lock together. -/
def shares : Activity K → Bool
  | .walking .reader .. => true
  | .outside | .inside _ | .walking .shower .. => false

/-- The one has to wait for the other. -/
def Conflicts (a b : Activity K) : Prop :=
  a.lock ≠ none ∧ a.lock = b.lock ∧ ¬ (a.shares = true ∧ b.shares = true)

instance (a b : Activity K) : Decidable (a.Conflicts b) := inferInstanceAs (Decidable (_ ∧ _ ∧ _))

/-- A section goes on, or is over. -/
def ofNext : Option Stage → Activity K
  | none => .outside
  | some stage => .inside stage

/-- The item that a loop stands at. -/
def cursor : Activity K → Option ℕ
  | .walking _ _ walk => walk.cursor
  | .outside | .inside _ => none

end Activity

/-- What a thread may begin. -/
inductive Task
  | work (work : Work)
  | walk (walker : Walker)

def Task.enter (s : DemoMemory K) : Task → Activity K
  | .work w => .inside w.enter
  | .walk walker => .walking walker s.dataList (.enter s.dataList)

def Task.lock : Task → Lock
  | .work w => w.lock
  | .walk .reader => .rwlock
  | .walk .shower => .spinlock

/-- The loop is left: at the end of the list, and by `concurrency_show` after ten items. -/
def Walker.leaves (walk : Traversal (SharedData K)) : Walker → Bool
  | .reader => walk.cursor.isNone
  | .shower => walk.cursor.isNone || SHOWN_ITEMS ≤ walk.passed.length

namespace DemoMemory

/-- `data->access_count++` -/
def touch (addr : ℕ) (s : DemoMemory K) : DemoMemory K :=
  { s with
    dataList := s.dataList.map fun item => if item.1 = addr then rewrite .touch item else item }

/-- What a loop does to the list in one round. -/
def visit (s : DemoMemory K) (walk : Traversal (SharedData K)) : Walker → DemoMemory K
  | .reader =>
      match walk.cursor with
      | none => s
      | some addr => s.touch addr
  | .shower => s

/-- What it does when it is left. -/
def leave (s : DemoMemory K) : Walker → DemoMemory K
  | .reader => { s with stats := { s.stats with rwlockReadOps := s.stats.rwlockReadOps + 1 } }
  | .shower => s

end DemoMemory

/-- The module and `k` threads. -/
structure Crowd (K : Kernel) (k : ℕ) where
  memory : DemoMemory K
  activity : Fin k → Activity K

inductive CrowdEvent (k : ℕ)
  /-- A thread asks for the lock of its task. -/
  | enter (thread : Fin k) (task : Task)
  /-- It takes its next step. -/
  | advance (thread : Fin k)

namespace Crowd

def load (K : Kernel) (k : ℕ) : Crowd K k := ⟨.load K, fun _ => .outside⟩

def goto (s : Crowd K k) (thread : Fin k) (activity : Activity K) : Crowd K k :=
  { s with activity := Function.update s.activity thread activity }

theorem activity_goto_self (s : Crowd K k) (thread : Fin k) (activity : Activity K) :
    (s.goto thread activity).activity thread = activity := Function.update_self ..

theorem activity_goto_of_ne (s : Crowd K k) {thread other : Fin k} (hother : other ≠ thread)
    (activity : Activity K) : (s.goto thread activity).activity other = s.activity other :=
  Function.update_of_ne hother ..

/-- A lock that is held lets nobody pass, but for readers among themselves. The thread that
asked waits. -/
def step (s : Crowd K k) : CrowdEvent k → Crowd K k
  | .enter thread task =>
      match s.activity thread with
      | .outside =>
          if ∀ other, ¬ (s.activity other).Conflicts (task.enter s.memory) then
            s.goto thread (task.enter s.memory)
          else s
      | _ => s
  | .advance thread =>
      match s.activity thread with
      | .outside => s
      | .inside stage =>
          { s with memory := stage.run s.memory }.goto thread (.ofNext stage.next)
      | .walking walker since walk =>
          if walker.leaves walk then
            { s with memory := s.memory.leave walker }.goto thread .outside
          else
            { s with memory := s.memory.visit walk walker }.goto thread
              (.walking walker since (walk.next s.memory.dataList))

/-- The list is in one piece: no free was of a block that was not live, and every loop
stands at an item of the list, if it stands at one. -/
structure Safe (s : Crowd K k) : Prop where
  fault : s.memory.heap.fault = false
  inList : ∀ thread, ∀ addr ∈ (s.activity thread).cursor, Points addr s.memory.dataList

/-- A section frees no item that a loop under another lock stands at, and finds an item
when it evicts one. -/
def SparesWalks (s : Crowd K k) : CrowdEvent k → Prop
  | .enter .. => True
  | .advance thread =>
      ∀ stage, s.activity thread = .inside stage →
        stage.Finds s.memory ∧
          ∀ other, (s.activity other).lock ≠ some stage.lock →
            ∀ addr ∈ (s.activity other).cursor, addr ∉ stage.frees s.memory

end Crowd

/-! ### The list under the sections -/

namespace DemoMemory

/-- The items of the list are the blocks that are allocated, in the order in which they
were linked. `data_count` may be wrong: another section may have changed the list. -/
structure InOrder (s : DemoMemory K) : Prop where
  owns : s.heap.Owns (s.dataList.map Prod.fst)
  ascending : Ascending s.dataList

variable {s : DemoMemory K}

theorem InOrder.lt_next (h : s.InOrder) : ∀ item ∈ s.dataList, item.1 < s.heap.next :=
  fun _ hitem => (h.owns.mem_iff.mp (List.mem_map_of_mem hitem)).1

/-- The list grows and shrinks from a state to a later one. -/
def Later (s s' : DemoMemory K) : Prop :=
  Lib.Later s.heap.next s.dataList s'.heap.next s'.dataList

theorem later_of_sublist {s' : DemoMemory K} (hnext : s'.heap.next = s.heap.next)
    (hlist : s'.dataList.Sublist s.dataList) : s.Later s' :=
  ⟨hnext.ge, fun _ haddr => .inl ((hlist.map Prod.fst).subset haddr)⟩

end DemoMemory

namespace Stage

variable {s : DemoMemory K} {stage : Stage}

theorem later_run (hfinds : stage.Finds s) : s.Later (stage.run s) := by
  cases stage with
  | evictOldest lock value =>
      rcases DemoMemory.evictOldest_cases hfinds with ⟨-, hevict⟩ |
        ⟨oldest, rest, hlist, -, hevict⟩ <;> rw [run, hevict]
      · exact DemoMemory.later_of_sublist rfl (.refl _)
      · refine DemoMemory.later_of_sublist (Heap.next_kfree ..) ?_
        rw [hlist]
        exact List.sublist_cons_self ..
  | linkData lock value =>
      refine ⟨Nat.le_succ _, fun addr haddr => ?_⟩
      rcases points_append.mp haddr with haddr | haddr
      · exact .inl haddr
      · exact .inr ((points_cons.mp haddr).resolve_right not_points_nil).ge
  | unlinkAll => exact DemoMemory.later_of_sublist (Heap.next_kfreeAll ..) (List.nil_sublist _)
  | countData lock => exact DemoMemory.later_of_sublist rfl (.refl _)
  | zeroCounts => exact DemoMemory.later_of_sublist rfl (.refl _)
  | release lock => exact DemoMemory.later_of_sublist rfl (.refl _)

theorem inOrder_run (h : s.InOrder) (hfinds : stage.Finds s) : (stage.run s).InOrder := by
  cases stage with
  | evictOldest lock value =>
      rcases DemoMemory.evictOldest_cases hfinds with ⟨-, hevict⟩ |
        ⟨oldest, rest, hlist, -, hevict⟩ <;> rw [run, hevict]
      · exact h
      · obtain ⟨howns, hascending⟩ := h
        rw [hlist] at howns hascending
        exact ⟨howns.kfree, hascending.tail⟩
  | linkData lock value =>
      refine ⟨?_, ?_⟩
      · show (s.heap.kmalloc).2.Owns ((s.dataList ++ [(s.heap.kmalloc.1, _)]).map Prod.fst)
        rw [List.map_append]
        exact h.owns.kmalloc.of_perm (List.perm_append_singleton ..)
      · exact h.ascending.concat h.lt_next
  | unlinkAll =>
      have howns : s.heap.Owns (s.dataList.map Prod.fst ++ []) := by
        rw [List.append_nil]
        exact h.owns
      exact ⟨howns.kfreeAll, List.Pairwise.nil⟩
  | countData lock => exact ⟨h.owns, h.ascending⟩
  | zeroCounts => exact ⟨h.owns, h.ascending⟩
  | release lock => exact h

/-- An item stays unless it is freed. -/
theorem points_run (h : s.InOrder) (hfinds : stage.Finds s) {addr : ℕ}
    (haddr : Points addr s.dataList) :
    Points addr (stage.run s).dataList ↔ addr ∉ stage.frees s := by
  cases stage with
  | evictOldest lock value =>
      have hnodup := h.ascending.nodup
      rcases DemoMemory.evictOldest_cases hfinds with ⟨hroom, hevict⟩ |
        ⟨oldest, rest, hlist, hfull, hevict⟩
      · simpa only [run, hevict, frees, if_neg hroom, List.not_mem_nil, not_false_eq_true,
          iff_true] using haddr
      · simp only [run, hevict, frees, if_pos hfull, hlist, List.head?_cons, Option.map_some,
          Option.toList_some, List.mem_singleton]
        rw [hlist] at hnodup haddr
        rw [points_of_perm_cons (.refl _) hnodup, and_iff_right haddr]
  | linkData lock value =>
      exact iff_of_true (points_append.mpr (.inl haddr)) List.not_mem_nil
  | unlinkAll => exact iff_of_false not_points_nil (not_not_intro haddr)
  | countData lock => exact iff_of_true haddr List.not_mem_nil
  | zeroCounts => exact iff_of_true haddr List.not_mem_nil
  | release lock => exact iff_of_true haddr List.not_mem_nil

/-- An eviction that finds none frees what was never allocated. -/
theorem fault_run (hfinds : ¬ stage.Finds s) : (stage.run s).heap.fault = true := by
  cases stage with
  | evictOldest lock value =>
      simp only [Finds, Classical.not_imp, not_not] at hfinds
      rw [run, DemoMemory.evictOldest, if_pos hfinds.1, hfinds.2]
      rfl
  | linkData lock value => exact absurd trivial hfinds
  | unlinkAll => exact absurd trivial hfinds
  | countData lock => exact absurd trivial hfinds
  | zeroCounts => exact absurd trivial hfinds
  | release lock => exact absurd trivial hfinds

end Stage

/-! ### The list under the loops -/

namespace DemoMemory

variable {s : DemoMemory K}

/-- States with their items at the same addresses. -/
structure SameList (s s' : DemoMemory K) : Prop where
  addresses : s'.dataList.map Prod.fst = s.dataList.map Prod.fst
  heap : s'.heap = s.heap
  count : s'.dataCount = s.dataCount

/-- Counting an access moves nothing. -/
theorem addresses_touch (addr : ℕ) (s : DemoMemory K) :
    (s.touch addr).dataList.map Prod.fst = s.dataList.map Prod.fst := by
  rw [touch, List.map_map]
  refine List.map_congr_left fun item _ => ?_
  show (if item.1 = addr then rewrite .touch item else item).1 = item.1
  split <;> rfl

theorem sameList_visit (s : DemoMemory K) (walk : Traversal (SharedData K)) (walker : Walker) :
    s.SameList (s.visit walk walker) := by
  cases walker with
  | shower => exact ⟨rfl, rfl, rfl⟩
  | reader =>
      rw [visit]
      cases walk.cursor with
      | none => exact ⟨rfl, rfl, rfl⟩
      | some addr => exact ⟨addresses_touch addr s, rfl, rfl⟩

theorem sameList_leave (s : DemoMemory K) (walker : Walker) : s.SameList (s.leave walker) := by
  cases walker <;> exact ⟨rfl, rfl, rfl⟩

variable {s' : DemoMemory K}

theorem SameList.points (h : s.SameList s') {addr : ℕ} :
    Points addr s'.dataList ↔ Points addr s.dataList := by
  rw [Points, h.addresses, Points]

theorem SameList.inOrder (h : s.SameList s') (hs : s.InOrder) : s'.InOrder := by
  refine ⟨?_, ?_⟩
  · rw [h.heap, h.addresses]
    exact hs.owns
  · rw [Ascending, h.addresses]
    exact hs.ascending

theorem SameList.length (h : s.SameList s') : s'.dataList.length = s.dataList.length := by
  have hlength := congrArg List.length h.addresses
  rwa [List.length_map, List.length_map] at hlength

theorem SameList.sized (h : s.SameList s') (hsized : s.forget.Sized) : s'.forget.Sized := by
  simp only [ConcurrencyDemo.Sized, DemoMemory.forget, contents, List.length_map] at hsized ⊢
  rwa [h.count, h.length]

theorem SameList.later (h : s.SameList s') : s.Later s' :=
  ⟨(congrArg Heap.next h.heap).ge, fun _ haddr => .inl (h.points.mp haddr)⟩

end DemoMemory

/-! ### The threads keep out of each other's way -/

namespace Activity

/-- Without a lock a thread is outside. -/
theorem cursor_of_lock {a : Activity K} (h : a.lock = none) : a.cursor = none := by
  cases a with
  | outside => rfl
  | inside stage => rfl
  | walking walker since walk => cases walker <;> cases h

theorem Conflicts.symm {a b : Activity K} (h : a.Conflicts b) : b.Conflicts a :=
  ⟨h.2.1 ▸ h.1, h.2.1.symm, fun hshares => h.2.2 hshares.symm⟩

/-- A loop is on its way. -/
def Right (s : DemoMemory K) : Activity K → Prop
  | .walking _ since walk => walk.Tracks since s.heap.next s.dataList
  | .outside | .inside _ => True

variable {s s' : DemoMemory K} {a : Activity K}

theorem Right.points (h : a.Right s) : ∀ addr ∈ a.cursor, Points addr s.dataList := by
  cases a with
  | outside => exact fun _ haddr => absurd haddr (Option.not_mem_none _)
  | inside stage => exact fun _ haddr => absurd haddr (Option.not_mem_none _)
  | walking walker since walk => exact Traversal.Tracks.safe h

theorem Right.later (h : a.Right s) (hlater : s.Later s')
    (hsafe : ∀ addr ∈ a.cursor, Points addr s'.dataList) : a.Right s' := by
  cases a with
  | outside => trivial
  | inside stage => trivial
  | walking walker since walk => exact Traversal.Tracks.later h hlater hsafe

end Activity

namespace Crowd

variable {s : Crowd K k}

/-- The list is in one piece, no two threads hold a lock that they cannot share, and every
loop is on its way. -/
structure Tracked (s : Crowd K k) : Prop where
  inOrder : s.memory.InOrder
  exclusive : ∀ t u, t ≠ u → ¬ (s.activity t).Conflicts (s.activity u)
  right : ∀ t, (s.activity t).Right s.memory

theorem tracked_load (K : Kernel) (k : ℕ) : (load K k).Tracked :=
  ⟨⟨.empty, List.Pairwise.nil⟩, fun _ _ _ h => h.1 rfl, fun _ => trivial⟩

theorem Tracked.safe (h : s.Tracked) : s.Safe :=
  ⟨h.inOrder.owns.fault, fun thread => (h.right thread).points⟩

/-- One thread does something else, for which no other has to wait. -/
theorem exclusive_update {activity : Fin k → Activity K}
    (h : ∀ t u, t ≠ u → ¬ (activity t).Conflicts (activity u)) {thread : Fin k}
    {next : Activity K} (hothers : ∀ other ≠ thread, ¬ next.Conflicts (activity other)) :
    ∀ t u, t ≠ u → ¬ (Function.update activity thread next t).Conflicts
      (Function.update activity thread next u) := by
  intro t u hne
  by_cases ht : t = thread
  · subst ht
    rw [Function.update_self, Function.update_of_ne hne.symm]
    exact hothers u hne.symm
  rw [Function.update_of_ne ht]
  by_cases hu : u = thread
  · subst hu
    rw [Function.update_self]
    exact fun hconflict => hothers t hne hconflict.symm
  · rw [Function.update_of_ne hu]
    exact h t u hne

/-- A thread takes a step with the locks that it holds, or gives them back. -/
theorem Tracked.change (h : s.Tracked) {memory : DemoMemory K} (hmemory : memory.InOrder)
    (hlater : s.memory.Later memory) (thread : Fin k) {next : Activity K}
    (hlock : next.lock = none ∨
      next.lock = (s.activity thread).lock ∧ next.shares = (s.activity thread).shares)
    (hnext : next.Right memory)
    (hsafe : ∀ other ≠ thread, ∀ addr ∈ (s.activity other).cursor, Points addr memory.dataList) :
    Tracked ({ s with memory }.goto thread next) := by
  refine ⟨hmemory, exclusive_update h.exclusive fun other hother hconflict => ?_,
    (Function.forall_update_iff s.activity fun _ a => a.Right memory).mpr
      ⟨hnext, fun other hother => (h.right other).later hlater (hsafe other hother)⟩⟩
  rcases hlock with hnone | ⟨hsame, hshares⟩
  · exact hconflict.1 hnone
  · refine h.exclusive thread other hother.symm ?_
    rwa [Activity.Conflicts, ← hsame, ← hshares]

theorem Tracked.enter (h : s.Tracked) (thread : Fin k) (task : Task) :
    (s.step (.enter thread task)).Tracked := by
  rw [step]
  split
  · split
    · rename_i hpasses
      refine ⟨h.inOrder,
        exclusive_update h.exclusive fun other _ hconflict => hpasses other hconflict.symm,
        (Function.forall_update_iff s.activity fun _ a => a.Right s.memory).mpr
          ⟨?_, fun other _ => h.right other⟩⟩
      cases task with
      | work w => trivial
      | walk walker => exact Traversal.tracks_enter h.inOrder.ascending h.inOrder.lt_next
    · exact h
  · exact h

/-- A section keeps the loops under its own lock out. -/
theorem Tracked.lock_ne (h : s.Tracked) {thread other : Fin k} {stage : Stage}
    (hstage : s.activity thread = .inside stage) (hother : other ≠ thread) :
    (s.activity other).lock ≠ some stage.lock := by
  intro hlock
  refine h.exclusive thread other hother.symm ?_
  rw [hstage]
  exact ⟨Option.some_ne_none _, hlock.symm, fun hshares => Bool.false_ne_true hshares.1⟩

/-- The next step of a section. -/
theorem Tracked.inside (h : s.Tracked) {thread : Fin k} {stage : Stage}
    (hstage : s.activity thread = .inside stage) (hspares : s.SparesWalks (.advance thread)) :
    (s.step (.advance thread)).Tracked := by
  obtain ⟨hfinds, hfrees⟩ := hspares stage hstage
  rw [Crowd.step, hstage]
  refine h.change (Stage.inOrder_run h.inOrder hfinds) (Stage.later_run hfinds) thread ?_ ?_ ?_
  · cases hnext : stage.next with
    | none => exact .inl rfl
    | some next =>
        rw [hstage]
        exact .inr ⟨congrArg some (Stage.lock_next hnext), rfl⟩
  · cases stage.next <;> trivial
  · intro other hother addr haddr
    rw [Stage.points_run h.inOrder hfinds ((h.right other).points addr haddr)]
    exact hfrees other (h.lock_ne hstage hother) addr haddr

/-- The next step of a loop. -/
theorem Tracked.walking (h : s.Tracked) {thread : Fin k} {walker : Walker}
    {since : List (ℕ × SharedData K)} {walk : Traversal (SharedData K)}
    (hwalk : s.activity thread = .walking walker since walk) :
    (s.step (.advance thread)).Tracked := by
  have hright := h.right thread
  rw [hwalk] at hright
  rw [Crowd.step, hwalk]
  dsimp only
  split
  · have hsame := s.memory.sameList_leave walker
    refine h.change (hsame.inOrder h.inOrder) hsame.later thread (.inl rfl) trivial ?_
    exact fun other _ addr haddr => hsame.points.mpr ((h.right other).points addr haddr)
  · have hsame := s.memory.sameList_visit walk walker
    have hnext : (Activity.walking walker since (walk.next s.memory.dataList)).Right s.memory :=
      Traversal.Tracks.next hright h.inOrder.ascending h.inOrder.lt_next
    refine h.change (hsame.inOrder h.inOrder) hsame.later thread ?_ ?_ ?_
    · rw [hwalk]
      cases walker <;> exact .inr ⟨rfl, rfl⟩
    · exact hnext.later hsame.later fun addr haddr => hsame.points.mpr (hnext.points addr haddr)
    · exact fun other _ addr haddr => hsame.points.mpr ((h.right other).points addr haddr)

/-- **One step.** -/
theorem Tracked.step (h : s.Tracked) {e : CrowdEvent k} (hspares : s.SparesWalks e) :
    (s.step e).Tracked := by
  cases e with
  | enter thread task => exact h.enter thread task
  | advance thread =>
      cases hactivity : s.activity thread with
      | outside =>
          rw [Crowd.step, hactivity]
          exact h
      | inside stage => exact h.inside hactivity hspares
      | walking walker since walk => exact h.walking hactivity

/-- A section that is not careful leaves a loop at a freed item, or frees a wild pointer. -/
theorem Tracked.not_safe (h : s.Tracked) {e : CrowdEvent k} (hfrees : ¬ s.SparesWalks e) :
    ¬ (s.step e).Safe := by
  cases e with
  | enter thread task => exact absurd trivial hfrees
  | advance thread =>
      simp only [SparesWalks, not_forall] at hfrees
      obtain ⟨stage, hstage, hcareless⟩ := hfrees
      have hstep : s.step (.advance thread) =
          { s with memory := stage.run s.memory }.goto thread (.ofNext stage.next) := by
        rw [Crowd.step, hstage]
      rw [hstep]
      intro hsafe
      by_cases hfinds : stage.Finds s.memory
      · simp only [hfinds, true_and, not_forall, not_not] at hcareless
        obtain ⟨other, hlock, addr, haddr, hfreed⟩ := hcareless
        have hother : other ≠ thread := by
          rintro rfl
          rw [hstage] at hlock
          exact hlock rfl
        have hpoints := hsafe.inList other addr (by rwa [activity_goto_of_ne _ hother])
        exact (Stage.points_run h.inOrder hfinds ((h.right other).points addr haddr)).mp
          hpoints hfreed
      · exact absurd hsafe.fault (by rw [goto, Stage.fault_run hfinds]; decide)

/-! ### A thread by itself -/

/-- Without the addresses, the steps of a section are those of the store. -/
theorem forget_run (s : DemoMemory K) (stage : Stage) :
    (stage.run s).forget = stage.act s.forget := by
  cases stage with
  | evictOldest lock value => exact s.forget_evictOldest
  | linkData lock value => simp [Stage.run, Stage.act, DemoMemory.forget, contents, linkData]
  | unlinkAll => rfl
  | countData lock => rfl
  | zeroCounts => rfl
  | release lock => rfl

theorem touch_of_ascending {s : DemoMemory K} {before rest : List (ℕ × SharedData K)}
    {item : ℕ × SharedData K} (hlist : s.dataList = before ++ item :: rest)
    (hascending : Ascending s.dataList) :
    (s.touch item.1).dataList = before ++ rewrite .touch item :: rest := by
  rw [hlist] at hascending
  have hsame : ∀ items : List (ℕ × SharedData K), (∀ other ∈ items, other.1 ≠ item.1) →
      items.map (fun other => if other.1 = item.1 then rewrite .touch other else other) =
        items := by
    intro items hne
    exact (List.map_congr_left fun other hother => if_neg (hne other hother)).trans
      (List.map_id' items)
  have hbefore : ∀ other ∈ before, other.1 ≠ item.1 := fun other hother =>
    (hascending.lt_of_before (List.mem_map_of_mem hother)).ne
  have hrest : ∀ other ∈ rest, other.1 ≠ item.1 := fun other hother =>
    (hascending.after.2 other.1 (List.mem_map_of_mem hother)).ne'
  rw [DemoMemory.touch, hlist]
  dsimp only
  rw [List.map_append, List.map_cons, hsame before hbefore, hsame rest hrest, if_pos rfl]

/-- A reader past the last item. -/
theorem step_reader_end {s : Crowd K k} {thread : Fin k} {since : List (ℕ × SharedData K)}
    {walk : Traversal (SharedData K)} (hwalk : s.activity thread = .walking .reader since walk)
    (hcursor : walk.cursor = none) :
    s.step (.advance thread) =
      { s with memory := s.memory.leave .reader }.goto thread .outside := by
  have hleaves : Walker.reader.leaves walk = true := by
    rw [Walker.leaves, hcursor, Option.isNone_none]
  rw [step, hwalk]
  exact if_pos hleaves

/-- A reader at an item. -/
theorem step_reader_item {s : Crowd K k} {thread : Fin k} {since : List (ℕ × SharedData K)}
    {walk : Traversal (SharedData K)} {addr : ℕ}
    (hwalk : s.activity thread = .walking .reader since walk) (hcursor : walk.cursor = some addr) :
    s.step (.advance thread) =
      { s with memory := s.memory.touch addr }.goto thread
        (.walking .reader since (walk.next s.memory.dataList)) := by
  have hleaves : ¬ Walker.reader.leaves walk = true := by
    rw [Walker.leaves, hcursor, Option.isNone_some]
    exact Bool.false_ne_true
  rw [step, hwalk]
  dsimp only
  rw [if_neg hleaves, DemoMemory.visit, hcursor]

/-- A reader that is left alone counts every item that is left. -/
theorem run_reader {s : Crowd K k} {thread : Fin k} {since : List (ℕ × SharedData K)}
    {walk : Traversal (SharedData K)} {before rest : List (ℕ × SharedData K)}
    (hwalk : s.activity thread = .walking .reader since walk)
    (hcursor : walk.cursor = rest.head?.map Prod.fst)
    (hlist : s.memory.dataList = before ++ rest) (hascending : Ascending s.memory.dataList) :
    (run step s (List.replicate (rest.length + 1) (.advance thread))).memory =
      { s.memory with
        dataList := before ++ rest.map (rewrite .touch)
        stats :=
          { s.memory.stats with rwlockReadOps := s.memory.stats.rwlockReadOps + 1 } } := by
  induction rest generalizing before s walk with
  | nil =>
      rw [List.length_nil, List.replicate_one, run_cons, run_nil, step_reader_end hwalk hcursor,
        List.map_nil, ← hlist]
      rfl
  | cons item rest ih =>
      have hstep := step_reader_item hwalk hcursor
      have htouched := touch_of_ascending hlist hascending
      have hnext : (walk.next s.memory.dataList).cursor = rest.head?.map Prod.fst := by
        rw [hlist] at hascending ⊢
        rw [Traversal.next_of_ascending hascending hcursor]
      have hascending' : Ascending (s.memory.touch item.1).dataList := by
        rw [Ascending, DemoMemory.addresses_touch]
        exact hascending
      rw [List.append_cons] at htouched
      rw [List.length_cons, List.replicate_succ, run_cons, hstep,
        ih (Function.update_self ..) hnext htouched hascending', List.map_cons,
        List.append_assoc]
      rfl

/-- **`rwlock_read_data`**, with nothing in between. -/
theorem run_reader_alone {s : Crowd K k} {thread : Fin k} (hidle : s.activity thread = .outside)
    (hpasses : ∀ other, ¬ (s.activity other).Conflicts ((Task.walk .reader).enter s.memory))
    (hascending : Ascending s.memory.dataList) :
    (run step s (.enter thread (.walk .reader) ::
      List.replicate (s.memory.dataList.length + 1) (.advance thread))).memory =
        s.memory.rwlockReadData := by
  have hstep : s.step (.enter thread (.walk .reader)) =
      s.goto thread (.walking .reader s.memory.dataList (.enter s.memory.dataList)) := by
    rw [step, hidle]
    exact if_pos hpasses
  have hwalk : (s.goto thread (.walking .reader s.memory.dataList
      (.enter s.memory.dataList))).activity thread =
        .walking .reader s.memory.dataList (.enter s.memory.dataList) := activity_goto_self ..
  have hlist : s.memory.dataList = [] ++ s.memory.dataList := rfl
  rw [run_cons, hstep]
  exact run_reader hwalk rfl hlist hascending

/-- **`concurrency_show`** passes the first ten items. -/
theorem passed_shower_alone {items : List (ℕ × SharedData K)} (hitems : Ascending items) :
    ((Traversal.next items)^[SHOWN_ITEMS] (.enter items)).passed = items.take SHOWN_ITEMS := by
  rw [Traversal.enter]
  exact congrArg Traversal.passed (Traversal.next_iterate [] items hitems SHOWN_ITEMS)

/-! ### One lock for all -/

/-- The event begins no task under another lock. -/
def Takes (lock : Lock) : CrowdEvent k → Prop
  | .enter _ task => task.lock = lock
  | .advance _ => True

/-- Nobody takes another lock, and the count is right but for the section that is open. -/
structure OneLock (lock : Lock) (s : Crowd K k) : Prop where
  locks : ∀ t, (s.activity t).lock = none ∨ (s.activity t).lock = some lock
  owes : ∀ t stage, s.activity t = .inside stage → stage.Owes s.memory.forget
  sized : (∀ t stage, s.activity t ≠ .inside stage) → s.memory.forget.Sized

theorem oneLock_load (lock : Lock) (K : Kernel) (k : ℕ) : (load K k).OneLock lock :=
  ⟨fun _ => .inl rfl, fun _ _ h => absurd h (by simp [load]), fun _ => sized_load K⟩

/-- Under one lock all sections are careful. -/
theorem OneLock.sparesWalks {lock : Lock} (h : s.OneLock lock) (e : CrowdEvent k) :
    s.SparesWalks e := by
  cases e with
  | enter thread task => trivial
  | advance thread =>
      intro stage hstage
      have hlock : lock = stage.lock := by
        have hlocks := h.locks thread
        rw [hstage] at hlocks
        exact (Option.some.inj (hlocks.resolve_left (Option.some_ne_none _))).symm
      refine ⟨?_, fun other hother addr haddr => ?_⟩
      · have howes := h.owes thread stage hstage
        cases stage with
        | evictOldest => exact DemoMemory.finds_of_sized howes
        | linkData | countData | unlinkAll | zeroCounts | release => trivial
      · -- a thread that does not hold the lock is outside
        have hnone := (h.locks other).resolve_right (hlock ▸ hother)
        rw [Activity.cursor_of_lock hnone] at haddr
        exact absurd haddr (Option.not_mem_none _)

/-- While a thread holds the lock, no other is inside a section. -/
theorem OneLock.not_inside {lock : Lock} (h : s.OneLock lock) (htracked : s.Tracked)
    {thread : Fin k} (hlock : (s.activity thread).lock ≠ none) :
    ∀ other ≠ thread, ∀ stage, s.activity other ≠ .inside stage := by
  intro other hother stage hstage
  have hlocks := h.locks other
  rw [hstage] at hlocks
  have hsame := (h.locks thread).resolve_left hlock
  refine htracked.exclusive thread other hother.symm ⟨hlock, ?_, fun hshares => ?_⟩
  · rw [hsame, hstage]
    exact (hlocks.resolve_left (Option.some_ne_none _)).symm
  · rw [hstage] at hshares
    exact Bool.false_ne_true hshares.2

theorem Task.lock_enter (s : DemoMemory K) (task : Task) :
    (task.enter s).lock = some task.lock := by
  cases task with
  | work w => exact congrArg some w.lock_enter
  | walk walker => cases walker <;> rfl

/-- A thread does something else, with the lock or without. -/
theorem OneLock.change {lock : Lock} (h : s.OneLock lock) {memory : DemoMemory K}
    {thread : Fin k} {next : Activity K} (hlock : next.lock = none ∨ next.lock = some lock)
    (hothers : ∀ other ≠ thread, ∀ stage, s.activity other ≠ .inside stage)
    (howes : ∀ stage, next = .inside stage → stage.Owes memory.forget)
    (hsized : (∀ stage, next ≠ .inside stage) → memory.forget.Sized) :
    OneLock lock ({ s with memory }.goto thread next) where
  locks := (Function.forall_update_iff s.activity fun _ a =>
    a.lock = none ∨ a.lock = some lock).mpr ⟨hlock, fun other _ => h.locks other⟩
  owes := (Function.forall_update_iff s.activity fun _ a =>
    ∀ stage, a = .inside stage → stage.Owes memory.forget).mpr
      ⟨howes, fun other hother stage hstage => absurd hstage (hothers other hother stage)⟩
  sized hinside := by
    refine hsized fun stage hstage => hinside thread stage ?_
    exact (activity_goto_self ..).trans hstage

theorem OneLock.enter {lock : Lock} (h : s.OneLock lock) {thread : Fin k} {task : Task}
    (htakes : task.lock = lock) : (s.step (.enter thread task)).OneLock lock := by
  rw [Crowd.step]
  split
  · rename_i houtside
    split
    · rename_i hpasses
      have hlock := Task.lock_enter s.memory task
      rw [htakes] at hlock
      -- a section that is open would not let the thread pass
      have hnone : ∀ other stage, s.activity other ≠ .inside stage := by
        intro other stage hstage
        have hlocks := h.locks other
        refine hpasses other ?_
        rw [hstage] at hlocks ⊢
        refine ⟨Option.some_ne_none _, ?_, fun hshares => Bool.false_ne_true hshares.1⟩
        rw [hlock]
        exact hlocks.resolve_left (Option.some_ne_none _)
      refine h.change (.inr hlock) (fun other _ => hnone other) ?_ fun _ => h.sized hnone
      intro stage hstage
      cases task with
      | walk walker => cases hstage
      | work w =>
          cases hstage
          cases w <;> exact h.sized hnone
    · exact h
  · exact h

theorem OneLock.advance {lock : Lock} (h : s.OneLock lock) (htracked : s.Tracked)
    (thread : Fin k) : (s.step (.advance thread)).OneLock lock := by
  have hspares := h.sparesWalks (.advance thread)
  have hlocks := h.locks thread
  have hothers : (s.activity thread).lock ≠ none →
      ∀ other ≠ thread, ∀ stage, s.activity other ≠ .inside stage := h.not_inside htracked
  rw [Crowd.step]
  cases hactivity : s.activity thread with
  | outside => exact h
  | inside stage =>
      have howes := Stage.owes_act (h.owes thread stage hactivity)
      rw [← forget_run] at howes
      rw [hactivity] at hlocks hothers
      dsimp only
      cases hnext : stage.next with
      | none =>
          rw [hnext] at howes
          refine h.change (.inl rfl) (hothers (Option.some_ne_none _)) ?_ fun _ => howes
          exact fun _ hstage => absurd hstage (by simp [Activity.ofNext])
      | some next =>
          rw [hnext] at howes
          refine h.change (.inr ?_) (hothers (Option.some_ne_none _)) ?_ ?_
          · rw [← hlocks.resolve_left (Option.some_ne_none _)]
            exact congrArg some (Stage.lock_next hnext)
          · rintro stage' ⟨⟩
            exact howes
          · exact fun hinside => absurd rfl (hinside next)
  | walking walker since walk =>
      have hlock : (s.activity thread).lock ≠ none := by
        rw [hactivity]
        cases walker <;> exact Option.some_ne_none _
      have hsized : s.memory.forget.Sized := by
        refine h.sized fun t stage hstage => ?_
        by_cases ht : t = thread
        · rw [ht, hactivity] at hstage
          cases hstage
        · exact hothers hlock t ht stage hstage
      rw [hactivity] at hlocks
      dsimp only
      split
      · refine h.change (.inl rfl) (hothers hlock) (fun _ hstage => by cases hstage) fun _ => ?_
        exact (s.memory.sameList_leave walker).sized hsized
      · refine h.change ?_ (hothers hlock) (fun _ hstage => by cases hstage) fun _ => ?_
        · cases walker <;> exact hlocks
        · exact (s.memory.sameList_visit walk walker).sized hsized

theorem OneLock.step {lock : Lock} (h : s.OneLock lock) (htracked : s.Tracked) {e : CrowdEvent k}
    (htakes : Takes lock e) : (s.step e).OneLock lock := by
  cases e with
  | enter thread task => exact h.enter htakes
  | advance thread => exact h.advance htracked thread

/-- **Loops over the shared list**, for any number of threads. Throughout a schedule the
list is in one piece exactly when no section evicts from an empty list or frees an item
that a loop under another lock stands at. A loop has then passed, each once and in order,
all items that were there when it was entered, still are, and lie behind it. When all
tasks take one and the same lock, no more is needed. -/
theorem walks_safe_iff (K : Kernel) (k : ℕ) (es : List (CrowdEvent k)) :
    (Throughout step Safe (load K k) es ↔ StepsMeet step SparesWalks (load K k) es) ∧
    (StepsMeet step SparesWalks (load K k) es →
      ∀ thread walker since walk,
        (run step (load K k) es).activity thread = .walking walker since walk →
          walk.astray = false ∧ Ascending walk.passed ∧
          ∀ item ∈ since, Points item.1 (run step (load K k) es).memory.dataList →
            (∀ addr ∈ walk.cursor, item.1 < addr) → Points item.1 walk.passed) ∧
    ∀ lock, (∀ e ∈ es, Takes lock e) → Throughout step Safe (load K k) es := by
  refine ⟨?_, fun hspares thread walker since walk hwalk => ?_, fun lock htakes => ?_⟩
  · exact throughout_iff_stepsMeet (I := Tracked) (A := fun _ _ => True) (fun _ h => h.safe)
      (fun _ _ h _ hspares => h.step hspares) (fun _ _ h _ hfrees => h.not_safe hfrees)
      (tracked_load K k) (stepsMeet_of_forall (fun _ _ => trivial) ..)
  · have htracked := (hspares.throughout (I := Tracked) (fun _ _ h he => h.step he)
      (tracked_load K k)).last
    have hright := htracked.right thread
    rw [hwalk] at hright
    exact ⟨hright.onWay, hright.ascending, hright.complete⟩
  · have hmeets : StepsMeet step (fun _ e => Takes lock e) (load K k) es :=
      stepsMeet_of_mem (fun _ _ he => he) htakes
    refine (hmeets.throughout (I := fun s => s.Tracked ∧ s.OneLock lock)
      (fun s e h he => ?_) ⟨tracked_load K k, oneLock_load lock K k⟩).imp fun _ h => h.1.safe
    exact ⟨h.1.step (h.2.sparesWalks e), h.2.step h.1 he⟩

/-- A clear under the spinlock does not wait for a reader. -/
example :
    ¬ Throughout step Safe (load .x86_64 2)
      ([.enter 0 (.work (.add .mutex 1))] ++ List.replicate 4 (.advance 0) ++
        [.enter 1 (.walk .reader), .enter 0 (.work .clear), .advance 0]) := by
  intro h
  have hpoints := h.last.inList 1 0 rfl
  exact absurd hpoints List.not_mem_nil

end Crowd

end KernelModules.ConcurrencyControl
