import KernelModules.ConcurrencyControl.Walks

/-!
Readers beside the other threads of `04_concurrency_control.c`.

`data->access_count++` and `stats.rwlock_read_ops++` are a read and a write, and readers
share their lock: what was written between the two is lost. Here the loops of the readers
are taken apart so far. While no reader writes a counter that another one has read and not
written yet, nothing is lost, and the threads are those whose increments are one step.
-/

namespace KernelModules.ConcurrencyControl

open Lib

variable {K : Kernel} {k : ℕ}

/-! ### The counters -/

namespace DemoMemory

/-- What a reader increments: the count of the item it stands at, or past the last item
`rwlock_read_ops`. Where there is no item any more it reads freed memory. -/
def counter (s : DemoMemory K) : Option ℕ → ULong K
  | none => s.stats.rwlockReadOps
  | some addr =>
      match s.dataList.find? fun item => item.1 = addr with
      | none => 0
      | some item => item.2.accessCount

def setCounter (s : DemoMemory K) (value : ULong K) : Option ℕ → DemoMemory K
  | none => { s with stats := { s.stats with rwlockReadOps := value } }
  | some addr =>
      { s with
        dataList := s.dataList.map fun item =>
          if item.1 = addr then rewrite (fun data => { data with accessCount := value }) item
          else item }

variable {s : DemoMemory K}

theorem counter_of_ascending {before rest : List (ℕ × SharedData K)} {item : ℕ × SharedData K}
    (hlist : s.dataList = before ++ item :: rest) (hascending : Ascending s.dataList) :
    s.counter (some item.1) = item.2.accessCount := by
  have hbefore : before.find? (fun other => other.1 = item.1) = none := by
    rw [List.find?_eq_none]
    intro other hother
    rw [hlist] at hascending
    simpa using (hascending.lt_of_before (List.mem_map_of_mem hother)).ne
  rw [counter, hlist, List.find?_append, hbefore, Option.none_or, List.find?_cons_of_pos (by simp)]

/-- A write of what was read, and one more, is an increment. -/
theorem setCounter_counter {addr : ℕ} (haddr : Points addr s.dataList)
    (hascending : Ascending s.dataList) :
    s.setCounter (s.counter (some addr) + 1) (some addr) = s.touch addr := by
  obtain ⟨before, item, rest, hlist, rfl, -⟩ := exists_eq_append_cons haddr
  rw [setCounter, touch, counter_of_ascending hlist hascending]
  congr 1
  refine List.map_congr_left fun other hother => ?_
  split
  · rename_i hsame
    -- no other item has this address
    obtain rfl : other = item := by
      have hitem : item ∈ s.dataList := by simp [hlist]
      exact List.inj_on_of_nodup_map hascending.nodup hother hitem hsame
    rfl
  · rfl

theorem counter_touch_of_ne {addr : ℕ} {cursor : Option ℕ} (hne : cursor ≠ some addr) :
    (s.touch addr).counter cursor = s.counter cursor := by
  cases cursor with
  | none => rfl
  | some other =>
      have hother : other ≠ addr := fun h => hne (congrArg some h)
      have hfind : (s.touch addr).dataList.find? (fun item => item.1 = other) =
          s.dataList.find? fun item => item.1 = other := by
        rw [touch, List.find?_map]
        have hsame : (fun item : ℕ × SharedData K => decide (item.1 = other)) ∘
            (fun item => if item.1 = addr then rewrite .touch item else item) =
              fun item => decide (item.1 = other) := by
          funext item
          show decide ((if item.1 = addr then rewrite .touch item else item).1 = other) = _
          split <;> rfl
        rw [hsame]
        cases hitem : s.dataList.find? fun item => item.1 = other with
        | none => rfl
        | some item =>
            obtain rfl : item.1 = other := by simpa using List.find?_some hitem
            exact congrArg some (if_neg hother)
      rw [counter, hfind, counter]

theorem counter_leave_of_some (walker : Walker) (addr : ℕ) :
    (s.leave walker).counter (some addr) = s.counter (some addr) := by
  cases walker <;> rfl

end DemoMemory

/-! ### One lock at a time -/

namespace Activity

variable {a : Activity K}

theorem eq_outside_of_lock (h : a.lock = none) : a = .outside := by
  cases a with
  | outside => rfl
  | inside stage => cases h
  | walking walker since walk => cases walker <;> cases h

theorem eq_reader_of_shares (h : a.shares = true) :
    ∃ since walk, a = .walking .reader since walk := by
  cases a with
  | outside => cases h
  | inside stage => cases h
  | walking walker since walk =>
      cases walker with
      | reader => exact ⟨since, walk, rfl⟩
      | shower => cases h

end Activity

namespace Crowd

/-- A thread that asks for the lock of a task gets it. -/
def Passes (s : Crowd K k) (thread : Fin k) (task : Task) : Prop :=
  (s.activity thread).lock = none ∧ ∀ other, ¬ (s.activity other).Conflicts (task.enter s.memory)

instance (s : Crowd K k) (thread : Fin k) (task : Task) : Decidable (s.Passes thread task) :=
  inferInstanceAs (Decidable (_ ∧ _))

/-- A lock is taken only while no other lock is held. -/
def TakesAlone (s : Crowd K k) : CrowdEvent k → Prop
  | .enter thread task =>
      s.Passes thread task →
        ∀ other, (s.activity other).lock = none ∨ (s.activity other).lock = some task.lock
  | .advance _ => True

instance (s : Crowd K k) : ∀ e, Decidable (s.TakesAlone e)
  | .enter thread task =>
      inferInstanceAs (Decidable (s.Passes thread task →
        ∀ other, (s.activity other).lock = none ∨ (s.activity other).lock = some task.lock))
  | .advance _ => .isTrue trivial

variable {s : Crowd K k} {thread : Fin k} {task : Task}

theorem step_enter :
    s.step (.enter thread task) =
      if s.Passes thread task then s.goto thread (task.enter s.memory) else s := by
  rw [step]
  cases hactivity : s.activity thread with
  | outside => simp only [Passes, hactivity, Activity.lock, true_and]
  | inside stage => simp [Passes, hactivity, Activity.lock]
  | walking walker since walk => cases walker <;> simp [Passes, hactivity, Activity.lock]

/-- A step changes what its thread is doing. -/
theorem activity_step_of_ne {other : Fin k} (hother : other ≠ thread) :
    (s.step (.advance thread)).activity other = s.activity other := by
  rw [step]
  split
  · rfl
  · exact activity_goto_of_ne _ hother _
  · split <;> exact activity_goto_of_ne _ hother _

/-- The list is in one piece, and no two locks are held. -/
structure Orderly (s : Crowd K k) : Prop where
  tracked : s.Tracked
  oneLock : ∃ lock, s.OneLock lock

theorem orderly_load (K : Kernel) (k : ℕ) : (load K k).Orderly :=
  ⟨tracked_load K k, .spinlock, oneLock_load .spinlock K k⟩

theorem Orderly.step (h : s.Orderly) {e : CrowdEvent k} (htakes : s.TakesAlone e) :
    (s.step e).Orderly := by
  obtain ⟨htracked, lock, hlock⟩ := h
  refine ⟨htracked.step (hlock.sparesWalks e), ?_⟩
  cases e with
  | advance thread => exact ⟨lock, hlock.advance htracked thread⟩
  | enter thread task =>
      by_cases hpasses : s.Passes thread task
      · have htask : s.OneLock task.lock := ⟨htakes hpasses, hlock.owes, hlock.sized⟩
        exact ⟨task.lock, htask.enter rfl⟩
      · rw [step_enter, if_neg hpasses]
        exact ⟨lock, hlock⟩

/-- Two threads that hold a lock are readers. -/
theorem Orderly.readers (h : s.Orderly) {other : Fin k} (hne : thread ≠ other)
    (hthread : (s.activity thread).lock ≠ none) (hother : (s.activity other).lock ≠ none) :
    (∃ since walk, s.activity thread = .walking .reader since walk) ∧
      ∃ since walk, s.activity other = .walking .reader since walk := by
  obtain ⟨lock, hlock⟩ := h.oneLock
  have hsame : (s.activity thread).lock = (s.activity other).lock := by
    rw [(hlock.locks thread).resolve_left hthread, (hlock.locks other).resolve_left hother]
  by_cases hshares : (s.activity thread).shares = true ∧ (s.activity other).shares = true
  · exact ⟨Activity.eq_reader_of_shares hshares.1, Activity.eq_reader_of_shares hshares.2⟩
  · exact absurd ⟨hthread, hsame, hshares⟩ (h.tracked.exclusive thread other hne)

end Crowd

/-! ### Increments in two steps -/

/-- The threads, and what each reader has read of the counter that it stands at and not
written yet. -/
structure Sharing (K : Kernel) (k : ℕ) where
  crowd : Crowd K k
  read : Fin k → Option (ULong K)

namespace Sharing

def load (K : Kernel) (k : ℕ) : Sharing K k := ⟨.load K k, fun _ => none⟩

/-- The last write of a reader and its unlock are one step. -/
def step (s : Sharing K k) : CrowdEvent k → Sharing K k
  | .enter thread task => { s with crowd := s.crowd.step (.enter thread task) }
  | .advance thread =>
      match s.crowd.activity thread, s.read thread with
      | .walking .reader _ walk, none =>
          { s with
            read := Function.update s.read thread (some (s.crowd.memory.counter walk.cursor)) }
      | .walking .reader since walk, some value =>
          { crowd :=
              { s.crowd with
                memory := s.crowd.memory.setCounter (value + 1) walk.cursor }.goto thread
                  (if walk.cursor.isNone then .outside
                    else .walking .reader since (walk.next s.crowd.memory.dataList))
            read := Function.update s.read thread none }
      | _, _ => { s with crowd := s.crowd.step (.advance thread) }

/-- When a reader writes a counter, no other has read it and not written it yet. -/
def WritesAlone (s : Sharing K k) : CrowdEvent k → Prop
  | .enter .. => True
  | .advance thread =>
      s.read thread ≠ none → ∀ other ≠ thread, s.read other ≠ none →
        (s.crowd.activity other).cursor ≠ (s.crowd.activity thread).cursor

instance (s : Sharing K k) : ∀ e, Decidable (s.WritesAlone e)
  | .enter .. => .isTrue trivial
  | .advance thread =>
      inferInstanceAs (Decidable (s.read thread ≠ none → ∀ other ≠ thread, s.read other ≠ none →
        (s.crowd.activity other).cursor ≠ (s.crowd.activity thread).cursor))

/-- What was read is still there. -/
def Fresh (s : Sharing K k) : Prop :=
  ∀ thread value, s.read thread = some value →
    ∃ since walk, s.crowd.activity thread = .walking .reader since walk ∧
      value = s.crowd.memory.counter walk.cursor

theorem fresh_load (K : Kernel) (k : ℕ) : (load K k).Fresh := fun _ _ h => by cases h

variable {s : Sharing K k}

theorem Fresh.read_eq_none (h : s.Fresh) {thread : Fin k}
    (hother : ∀ since walk, s.crowd.activity thread ≠ .walking .reader since walk) :
    s.read thread = none := by
  cases hread : s.read thread with
  | none => rfl
  | some value =>
      obtain ⟨since, walk, hwalk, -⟩ := h thread value hread
      exact absurd hwalk (hother since walk)

/-- **What a step does**: a reader reads, or the threads take the step with the increment
in one piece. -/
theorem Fresh.step_cases (h : s.Fresh) (htracked : s.crowd.Tracked) (thread : Fin k) :
    (∃ since walk, s.crowd.activity thread = .walking .reader since walk ∧
      s.read thread = none ∧
      s.step (.advance thread) =
        { s with
          read := Function.update s.read thread (some (s.crowd.memory.counter walk.cursor)) }) ∨
    ((∀ since walk, s.crowd.activity thread = .walking .reader since walk →
        s.read thread ≠ none) ∧
      s.step (.advance thread) =
        ⟨s.crowd.step (.advance thread), Function.update s.read thread none⟩) := by
  by_cases hreader : ∃ since walk, s.crowd.activity thread = .walking .reader since walk
  · obtain ⟨since, walk, hwalk⟩ := hreader
    cases hread : s.read thread with
    | none =>
        refine .inl ⟨since, walk, hwalk, rfl, ?_⟩
        rw [step, hwalk, hread]
    | some value =>
        refine .inr ⟨fun _ _ _ => Option.some_ne_none _, ?_⟩
        obtain ⟨since', walk', hwalk', rfl⟩ := h thread value hread
        obtain ⟨-, rfl, rfl⟩ := Activity.walking.inj (hwalk'.symm.trans hwalk)
        have hright := (htracked.right thread).points
        rw [hwalk] at hright
        rw [step, hwalk, hread]
        dsimp only
        cases hcursor : walk'.cursor with
        | none =>
            rw [Crowd.step_reader_end hwalk hcursor]
            rfl
        | some addr =>
            rw [Crowd.step_reader_item hwalk hcursor, DemoMemory.setCounter_counter
              (hright addr hcursor) htracked.inOrder.ascending]
            rfl
  · simp only [not_exists] at hreader
    refine .inr ⟨fun since walk hwalk => absurd hwalk (hreader since walk), ?_⟩
    have hread := h.read_eq_none hreader
    rw [← hread, Function.update_eq_self, step]
    split
    · rename_i hwalk _
      exact absurd hwalk (hreader _ _)
    · rename_i hwalk _
      exact absurd hwalk (hreader _ _)
    · rfl

/-- A step leaves the counters alone that someone has read. -/
theorem Fresh.counter_step (h : s.Fresh) (horderly : s.crowd.Orderly) {thread other : Fin k}
    (hwrites : s.WritesAlone (.advance thread)) (hne : other ≠ thread)
    (hread : s.read other ≠ none)
    (hthread : ∀ since walk, s.crowd.activity thread = .walking .reader since walk →
      s.read thread ≠ none) :
    (s.crowd.step (.advance thread)).memory.counter (s.crowd.activity other).cursor =
      s.crowd.memory.counter (s.crowd.activity other).cursor := by
  by_cases hidle : (s.crowd.activity thread).lock = none
  · rw [Crowd.step, Activity.eq_outside_of_lock hidle]
  obtain ⟨value, hvalue⟩ := Option.ne_none_iff_exists'.mp hread
  obtain ⟨since', walk', hwalk', -⟩ := h other value hvalue
  have hother : (s.crowd.activity other).lock ≠ none := by
    rw [hwalk']
    exact Option.some_ne_none _
  -- both hold a lock, so both are readers, at different counters
  obtain ⟨⟨since, walk, hwalk⟩, -⟩ := horderly.readers hne.symm hidle hother
  have hcursors : (s.crowd.activity other).cursor ≠ walk.cursor := by
    have hcursors := hwrites (hthread since walk hwalk) other hne hread
    rwa [hwalk] at hcursors
  cases hcursor : walk.cursor with
  | none =>
      rw [Crowd.step_reader_end hwalk hcursor]
      obtain ⟨addr, haddr⟩ := Option.ne_none_iff_exists'.mp (hcursor ▸ hcursors)
      rw [haddr]
      exact DemoMemory.counter_leave_of_some .reader addr
  | some addr =>
      rw [Crowd.step_reader_item hwalk hcursor]
      exact DemoMemory.counter_touch_of_ne (hcursor ▸ hcursors)

/-- **One step.** -/
theorem Fresh.step (h : s.Fresh) (horderly : s.crowd.Orderly) {e : CrowdEvent k}
    (hwrites : s.WritesAlone e) : (s.step e).Fresh := by
  intro other value hread
  cases e with
  | enter thread task =>
      obtain ⟨since, walk, hwalk, rfl⟩ := h other value hread
      rw [Sharing.step, Crowd.step_enter]
      dsimp only
      split
      · rename_i hpasses
        have hother : other ≠ thread := by
          rintro rfl
          have hlock := hpasses.1
          rw [hwalk] at hlock
          cases hlock
        exact ⟨since, walk, (Crowd.activity_goto_of_ne _ hother _).trans hwalk, rfl⟩
      · exact ⟨since, walk, hwalk, rfl⟩
  | advance thread =>
      rcases h.step_cases horderly.tracked thread with ⟨since, walk, hwalk, hnone, hstep⟩ |
        ⟨hthread, hstep⟩ <;> rw [hstep] at hread ⊢ <;> dsimp only at hread ⊢
      · by_cases hother : other = thread
        · subst hother
          rw [Function.update_self] at hread
          exact ⟨since, walk, hwalk, (Option.some.inj hread).symm⟩
        · rw [Function.update_of_ne hother] at hread
          exact h other value hread
      · by_cases hother : other = thread
        · subst hother
          rw [Function.update_self] at hread
          cases hread
        · rw [Function.update_of_ne hother] at hread
          obtain ⟨since, walk, hwalk, rfl⟩ := h other value hread
          have hsame := h.counter_step horderly hwrites hother
            (by rw [hread]; exact Option.some_ne_none _) hthread
          rw [hwalk] at hsame
          exact ⟨since, walk, (Crowd.activity_step_of_ne hother).trans hwalk, hsame.symm⟩

end Sharing

end KernelModules.ConcurrencyControl
