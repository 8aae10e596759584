import KernelModules.ConcurrencyControl.Sharing
import KernelModules.Lib.Dues

/-!
One call after the other.

Where no lock is taken while another one is held, and no reader writes a counter that
another reader has read and not written yet, the threads of `04_concurrency_control.c`
are the calls one after the other, in the order in which they got their locks. Readers
overlap with readers: what they still have to count can be counted in any order.
-/

namespace KernelModules.ConcurrencyControl

open Lib

variable {K : Kernel} {k : ℕ}

/-! ### What a thread owes -/

/-- What is left of a section. -/
def Stage.rest : Stage → DemoMemory K → DemoMemory K
  | .evictOldest lock value => fun s =>
      (Stage.countData lock).run ((Stage.linkData lock value).run s.evictOldest)
  | .linkData lock value => fun s => (Stage.countData lock).run ((Stage.linkData lock value).run s)
  | .countData lock => fun s => (Stage.countData lock).run s
  | .unlinkAll => fun s => Stage.zeroCounts.run (Stage.unlinkAll.run s)
  | .zeroCounts => fun s => Stage.zeroCounts.run s
  | .release _ => id

namespace DemoMemory

/-- What is left of `rwlock_read_data` when the loop stands at `cursor`: the items from
there on and `rwlock_read_ops`. -/
def readRest (cursor : Option ℕ) (s : DemoMemory K) : DemoMemory K :=
  { s with
    dataList := s.dataList.map fun item =>
      if cursor.any (· ≤ item.1) then rewrite .touch item else item
    stats := { s.stats with rwlockReadOps := s.stats.rwlockReadOps + 1 } }

variable {s : DemoMemory K}

theorem readRest_none : s.readRest none = s.leave .reader := by
  show { s with dataList := s.dataList.map fun item => item, stats := _ } = s.leave .reader
  rw [List.map_id']
  rfl

/-- The items behind the next one are those after it. -/
theorem readRest_touch {walk : Traversal (SharedData K)} {addr : ℕ}
    (hcursor : walk.cursor = some addr) (haddr : Points addr s.dataList)
    (hascending : Ascending s.dataList) :
    (s.touch addr).readRest (walk.next s.dataList).cursor = s.readRest walk.cursor := by
  obtain ⟨before, item, rest, hlist, rfl, -⟩ := exists_eq_append_cons haddr
  rw [hlist] at hascending
  have hnext : (walk.next s.dataList).cursor = rest.head?.map Prod.fst := by
    rw [hlist, Traversal.next_of_ascending hascending hcursor]
  have hitems : ∀ other ∈ s.dataList,
      ((rest.head?.map Prod.fst).any (· ≤ other.1) = true ↔ item.1 < other.1) := fun other hother =>
    hascending.any_next_le_iff (List.mem_map_of_mem (hlist ▸ hother))
  rw [hnext, hcursor]
  simp only [readRest, touch, List.map_map, Option.any_some]
  congr 1
  refine List.map_congr_left fun other hother => ?_
  have hother := hitems other hother
  rw [Function.comp_apply]
  rcases lt_trichotomy other.1 item.1 with hlt | heq | hlt
  · rw [if_neg hlt.ne, if_neg (by rw [hother]; omega), if_neg (by simpa using hlt)]
  · rw [if_pos heq, if_neg (by show ¬ Option.any _ _ = true; rw [rewrite, hother]; omega),
      if_pos (by simp [heq])]
  · rw [if_neg hlt.ne', if_pos (hother.mpr hlt), if_pos (by simpa using hlt.le)]

theorem commute_readRest (cursor cursor' : Option ℕ) (s : DemoMemory K) :
    (s.readRest cursor).readRest cursor' = (s.readRest cursor').readRest cursor := by
  simp only [readRest, List.map_map]
  congr 1
  refine List.map_congr_left fun item _ => ?_
  by_cases hitem : cursor.any (· ≤ item.1) <;> by_cases hitem' : cursor'.any (· ≤ item.1) <;>
    simp [hitem, hitem', rewrite]

/-- A whole call. -/
theorem readRest_head (hascending : Ascending s.dataList) :
    s.readRest (s.dataList.head?.map Prod.fst) = s.rwlockReadData := by
  rw [readRest, rwlockReadData]
  congr 1
  exact List.map_congr_left fun item hitem =>
    if_pos (hascending.any_head_le (List.mem_map_of_mem hitem))

theorem sameList_readRest (cursor : Option ℕ) (s : DemoMemory K) :
    s.SameList (s.readRest cursor) := by
  refine ⟨?_, rfl, rfl⟩
  rw [readRest, List.map_map]
  refine List.map_congr_left fun item _ => ?_
  show (if cursor.any (· ≤ item.1) = true then rewrite .touch item else item).1 = item.1
  split <;> rfl

end DemoMemory

namespace Activity

/-- What a thread owes to the module. -/
def due : Activity K → Function.End (DemoMemory K)
  | .outside => 1
  | .inside stage => stage.rest
  | .walking .reader _ walk => DemoMemory.readRest walk.cursor
  | .walking .shower .. => 1

theorem due_of_lock {a : Activity K} (h : a.lock = none) : a.due = 1 := by
  rw [eq_outside_of_lock h]
  rfl

/-- A section leaves its rest to its next step. -/
theorem due_ofNext (stage : Stage) (s : DemoMemory K) :
    (ofNext stage.next).due (stage.run s) = stage.rest s := by
  cases stage <;> rfl

end Activity

namespace Crowd

variable {s : Crowd K k}

/-- What two threads owe can be done in any order: readers are the only ones that overlap. -/
theorem Orderly.commute_due (h : s.Orderly) :
    Pairwise (Function.onFun Commute fun t => (s.activity t).due) := by
  intro t u hne
  show Commute (s.activity t).due (s.activity u).due
  by_cases ht : (s.activity t).lock = none
  · rw [Activity.due_of_lock ht]
    exact Commute.one_left _
  by_cases hu : (s.activity u).lock = none
  · rw [Activity.due_of_lock hu]
    exact Commute.one_right _
  obtain ⟨⟨_, walk, hwalk⟩, _, walk', hwalk'⟩ := h.readers hne ht hu
  rw [hwalk, hwalk']
  exact funext fun m => DemoMemory.commute_readRest walk'.cursor walk.cursor m

/-- A step does a part of what its thread owes. -/
theorem Tracked.due_step (h : s.Tracked) (thread : Fin k) :
    ((s.step (.advance thread)).activity thread).due (s.step (.advance thread)).memory =
      (s.activity thread).due s.memory := by
  have hright := (h.right thread).points
  cases hactivity : s.activity thread with
  | outside =>
      simp only [Crowd.step, hactivity]
  | inside stage =>
      simp only [Crowd.step, hactivity, activity_goto_self]
      exact Activity.due_ofNext stage s.memory
  | walking walker since walk =>
      cases walker with
      | shower =>
          simp only [Crowd.step, hactivity]
          split <;> simp only [activity_goto_self] <;> rfl
      | reader =>
          rw [hactivity] at hright
          cases hcursor : walk.cursor with
          | none =>
              rw [step_reader_end hactivity hcursor, activity_goto_self]
              show s.memory.leave .reader = s.memory.readRest walk.cursor
              rw [hcursor, DemoMemory.readRest_none]
          | some addr =>
              rw [step_reader_item hactivity hcursor, activity_goto_self]
              exact DemoMemory.readRest_touch hcursor (hright addr hcursor) h.inOrder.ascending

/-- Steps lead to the same settled state. -/
theorem Orderly.settles_advance (h : s.Orderly) {target : DemoMemory K}
    (hsettles : Settles (fun t => (s.activity t).due) s.memory target) (thread : Fin k) :
    Settles (fun t => ((s.step (.advance thread)).activity t).due)
      (s.step (.advance thread)).memory target :=
  hsettles.pay (h.step (e := .advance thread) trivial).commute_due
    (fun _ hother => congrArg Activity.due (activity_step_of_ne hother))
    (h.tracked.due_step thread)

end Crowd

/-! ### The calls, one after the other -/

/-- The call that a task makes. An addition comes with its item. -/
def Task.call : Task → Option Call
  | .work (.add .spinlock value) => some (.spinlockAddData value true)
  | .work (.add .mutex value) => some (.mutexAddData value true false)
  | .work (.add .rwlock value) => some (.rwlockWriteData value true)
  | .work .clear => some .clearAllData
  | .walk .reader => some .rwlockReadData
  | .walk .shower => none

/-- What a loop has come back with, and the calls that had got their locks before it. -/
structure Finding (K : Kernel) where
  walker : Walker
  before : List Call
  passed : List (SharedData K)

/-- What the loop would have come back with after these calls. -/
def Finding.Right (f : Finding K) : Prop :=
  let s : ConcurrencyDemo K := run ConcurrencyDemo.exec (.load K) f.before
  match f.walker with
  | .reader => (f.passed.length : ℤ) = (rwlockReadData s).2
  | .shower => f.passed = s.dataList.take SHOWN_ITEMS

/-- A schedule, the calls in the order in which they got their locks, those before the one
that a thread is in, and what loops have come back with. -/
structure History (K : Kernel) (k : ℕ) where
  now : Sharing K k
  calls : List Call
  begun : Fin k → List Call
  findings : List (Finding K)

/-! ### A call begins -/

namespace DemoMemory

variable {s s' s'' : DemoMemory K}

theorem SameList.trans (h : s.SameList s') (h' : s'.SameList s'') : s.SameList s'' :=
  ⟨h'.addresses.trans h.addresses, h'.heap.trans h.heap, h'.count.trans h.count⟩

/-- A section is its call. -/
theorem forget_work (s : DemoMemory K) (work : Work) :
    (work.enter.rest s).forget =
      run ConcurrencyDemo.exec s.forget (Task.call (.work work)).toList := by
  cases work with
  | clear => rfl
  | add lock value =>
      show ((Stage.countData lock).run ((Stage.linkData lock value).run s.evictOldest)).forget = _
      rw [Crowd.forget_run, Crowd.forget_run, forget_evictOldest]
      cases lock <;> rfl

end DemoMemory

namespace Crowd

variable {s : Crowd K k} {thread : Fin k} {task : Task}

/-- Nobody is beside a task that does not share its lock. -/
theorem Passes.alone (h : s.Passes thread task) (htakes : s.TakesAlone (.enter thread task))
    (hshares : (task.enter s.memory).shares = false) : ∀ t, (s.activity t).lock = none := by
  intro t
  refine (htakes h t).resolve_right fun hlock => h.2 t ⟨?_, ?_, fun hboth => ?_⟩
  · rw [hlock]
    exact Option.some_ne_none _
  · rw [hlock, Task.lock_enter]
  · exact Bool.false_ne_true (hshares ▸ hboth.2)

theorem Passes.not_inside (h : s.Passes thread task) (htakes : s.TakesAlone (.enter thread task)) :
    ∀ t stage, s.activity t ≠ .inside stage := by
  intro t stage hstage
  have hlock := htakes h t
  rw [hstage] at hlock
  refine h.2 t ?_
  rw [hstage]
  refine ⟨Option.some_ne_none _, ?_, fun hboth => Bool.false_ne_true hboth.1⟩
  rw [Task.lock_enter]
  exact hlock.resolve_left (Option.some_ne_none _)

/-- While nobody is inside a section, all that is due is to count accesses. -/
theorem sameList_settled (hinside : ∀ t stage, s.activity t ≠ .inside stage)
    {target : DemoMemory K}
    (hsettles : Settles (fun t => (s.activity t).due) s.memory target) :
    s.memory.SameList target := by
  refine hsettles.keeps (P := s.memory.SameList) (fun t m hm => ?_) ⟨rfl, rfl, rfl⟩
  cases hactivity : s.activity t with
  | outside => exact hm
  | inside stage => exact absurd hactivity (hinside t stage)
  | walking walker since walk =>
      cases walker with
      | reader => exact hm.trans (m.sameList_readRest walk.cursor)
      | shower => exact hm

theorem Passes.step_enter (h : s.Passes thread task) :
    s.step (.enter thread task) = s.goto thread (task.enter s.memory) :=
  Crowd.step_enter.trans (if_pos h)

/-- A task that gets its lock is done after all that is due. -/
theorem Orderly.settles_enter (h : s.Orderly) (hpasses : s.Passes thread task)
    (htakes : s.TakesAlone (.enter thread task)) {target : DemoMemory K}
    (hsettles : Settles (fun t => (s.activity t).due) s.memory target) :
    Settles (fun t => ((s.step (.enter thread task)).activity t).due)
      (s.step (.enter thread task)).memory ((task.enter s.memory).due target) := by
  have horderly := h.step htakes
  rw [hpasses.step_enter] at horderly ⊢
  have hpromise := hsettles.promise horderly.commute_due
    (fun _ hother => congrArg Activity.due (activity_goto_of_ne _ hother _))
    (Activity.due_of_lock hpasses.1)
  rwa [activity_goto_self] at hpromise

/-- What a task that gets its lock adds to the settled state is its call. -/
theorem Orderly.forget_enter (h : s.Orderly) (hpasses : s.Passes thread task)
    (htakes : s.TakesAlone (.enter thread task)) {target : DemoMemory K}
    (hsettles : Settles (fun t => (s.activity t).due) s.memory target) :
    ((task.enter s.memory).due target).forget =
      run ConcurrencyDemo.exec target.forget task.call.toList := by
  have hinside := hpasses.not_inside htakes
  have hsame := sameList_settled hinside hsettles
  obtain ⟨lock, hlock⟩ := h.oneLock
  cases task with
  | work work => exact DemoMemory.forget_work _ work
  | walk walker =>
      cases walker with
      | shower => rfl
      | reader =>
          have hhead : s.memory.dataList.head?.map Prod.fst =
              target.dataList.head?.map Prod.fst := by
            rw [← List.head?_map, ← List.head?_map, hsame.addresses]
          have hascending := (hsame.inOrder h.tracked.inOrder).ascending
          show (target.readRest (s.memory.dataList.head?.map Prod.fst)).forget = _
          rw [hhead, DemoMemory.readRest_head hascending, DemoMemory.forget_rwlockReadData]
          rfl

end Crowd

/-! ### The history -/

/-- A loop is on its way through a list that has the length it had when the loop was
entered, after the calls that lead to `before`. `concurrency_show` finds its contents as
well. -/
structure Sees (before : ConcurrencyDemo K) (s : DemoMemory K) (walker : Walker)
    (walk : Traversal (SharedData K)) : Prop where
  length : s.dataList.length = before.dataList.length
  le : walk.passed.length ≤ s.dataList.length
  cursor : walk.cursor = (s.dataList.map Prod.fst)[walk.passed.length]?
  shown : walker = .shower →
    contents s.dataList = before.dataList ∧
      walk.passed = s.dataList.take walk.passed.length ∧ walk.passed.length ≤ SHOWN_ITEMS

namespace Sees

variable {before : ConcurrencyDemo K} {s s' : DemoMemory K} {walker : Walker}
  {walk : Traversal (SharedData K)}

theorem enter (hlength : s.dataList.length = before.dataList.length)
    (hshown : walker = .shower → contents s.dataList = before.dataList) :
    Sees before s walker (.enter s.dataList) where
  length := hlength
  le := Nat.zero_le _
  cursor := by
    show s.dataList.head?.map Prod.fst = (s.dataList.map Prod.fst)[0]?
    rw [← List.head?_map, List.head?_eq_getElem?]
  shown hwalker := ⟨hshown hwalker, rfl, Nat.zero_le _⟩

/-- Other readers count accesses. -/
theorem sameList (h : Sees before s .reader walk) (hsame : s.SameList s') :
    Sees before s' .reader walk where
  length := hsame.length.trans h.length
  le := h.le.trans hsame.length.ge
  cursor := by rw [h.cursor, hsame.addresses]
  shown := by rintro ⟨⟩

/-- One round of the loop. -/
theorem next (h : Sees before s walker walk) (hascending : Ascending s.dataList)
    (hstays : ¬ walker.leaves walk = true) (hsafe : walk.Safe s.dataList) :
    Sees before s walker (walk.next s.dataList) := by
  rcases Traversal.next_cases hsafe with ⟨hend, -⟩ | ⟨done, item, rest, hlist, hcursor, hnext⟩
  · cases walker <;> simp [Walker.leaves, hend] at hstays
  -- the items that were passed are those before the one that the loop stands at
  have hitem : (s.dataList.map Prod.fst)[done.length]? = some item.1 := by
    rw [List.getElem?_map, hlist, List.getElem?_append_right le_rfl, Nat.sub_self]
    rfl
  have hlt : done.length < (s.dataList.map Prod.fst).length :=
    (List.getElem?_eq_some_iff.mp hitem).1
  have hdone : done.length = walk.passed.length :=
    (List.getElem?_inj hlt hascending.nodup).mp (hitem.trans (hcursor.symm.trans h.cursor))
  have hlength : (walk.passed ++ [item]).length = done.length + 1 := by simp [hdone]
  rw [List.length_map] at hlt
  rw [hnext]
  refine ⟨h.length, ?_, ?_, fun hwalker => ?_⟩
  · show (walk.passed ++ [item]).length ≤ s.dataList.length
    omega
  · show rest.head?.map Prod.fst = (s.dataList.map Prod.fst)[(walk.passed ++ [item]).length]?
    rw [hlength, hlist, List.getElem?_map, List.append_cons,
      List.getElem?_append_right (by simp), List.length_append, List.length_singleton,
      Nat.sub_self, List.head?_eq_getElem?]
  · obtain ⟨hcontents, hpassed, -⟩ := h.shown hwalker
    subst hwalker
    refine ⟨hcontents, ?_, ?_⟩
    · have hpassed' : walk.passed = done := by
        rw [hpassed, ← hdone, hlist, List.take_left' rfl]
      show walk.passed ++ [item] = s.dataList.take (walk.passed ++ [item]).length
      rw [hlength, hpassed', hlist, List.append_cons done item rest]
      exact (List.take_left' (by simp)).symm
    · show (walk.passed ++ [item]).length ≤ SHOWN_ITEMS
      simp only [Walker.leaves, Bool.or_eq_true, decide_eq_true_eq, not_or, not_le] at hstays
      omega

/-- A loop that gets its lock. -/
theorem of_passes {s : Crowd K k} {thread : Fin k} (hpasses : s.Passes thread (.walk walker))
    (htakes : s.TakesAlone (.enter thread (.walk walker))) {target : DemoMemory K}
    (hsettles : Settles (fun t => (s.activity t).due) s.memory target) :
    Sees target.forget s.memory walker (.enter s.memory.dataList) := by
  refine enter ?_ fun hwalker => ?_
  · rw [DemoMemory.forget, contents, List.length_map,
      (Crowd.sameList_settled (hpasses.not_inside htakes) hsettles).length]
  · have halone := hpasses.alone htakes (by rw [hwalker]; rfl)
    rw [hsettles.paid fun t => Activity.due_of_lock (halone t)]
    rfl

/-- The loop is over. -/
theorem right {calls : List Call}
    (h : Sees (run ConcurrencyDemo.exec (.load K) calls) s walker walk)
    (hleaves : walker.leaves walk = true) :
    Finding.Right (⟨walker, calls, contents walk.passed⟩ : Finding K) := by
  have hend : walk.cursor = none → walk.passed.length = s.dataList.length := by
    intro hnone
    have hplace := h.cursor
    rw [hnone, eq_comm, List.getElem?_eq_none_iff, List.length_map] at hplace
    exact h.le.antisymm hplace
  cases walker with
  | reader =>
      have hpassed := hend (Option.isNone_iff_eq_none.mp hleaves)
      show ((contents walk.passed).length : ℤ) = (rwlockReadData _).2
      rw [contents, List.length_map, hpassed, h.length]
      rfl
  | shower =>
      obtain ⟨hcontents, hpassed, hshown⟩ := h.shown rfl
      show contents walk.passed =
        (run ConcurrencyDemo.exec (.load K) calls).dataList.take SHOWN_ITEMS
      rw [← hcontents, hpassed, contents, contents, List.map_take]
      simp only [Walker.leaves, Bool.or_eq_true, decide_eq_true_eq] at hleaves
      rcases hleaves with hnone | hten
      · have hall := hend (Option.isNone_iff_eq_none.mp hnone)
        rw [List.take_of_length_le (by simp [hall]), List.take_of_length_le (by simp; omega)]
      · rw [hshown.antisymm hten]

end Sees

namespace History

def load (K : Kernel) (k : ℕ) : History K k := ⟨.load K k, [], fun _ => [], []⟩

/-- What the loop of a thread comes back with in its next step. -/
def finding (h : History K k) (thread : Fin k) : Option (Finding K) :=
  match h.now.crowd.activity thread with
  | .walking .reader _ walk =>
      if walk.cursor = none ∧ h.now.read thread ≠ none then
        some ⟨.reader, h.begun thread, contents walk.passed⟩
      else none
  | .walking .shower _ walk =>
      if Walker.shower.leaves walk then some ⟨.shower, h.begun thread, contents walk.passed⟩
      else none
  | .outside | .inside _ => none

def step (h : History K k) (e : CrowdEvent k) : History K k :=
  match e with
  | .enter thread task =>
      if h.now.crowd.Passes thread task then
        { h with
          now := h.now.step e
          calls := h.calls ++ task.call.toList
          begun := Function.update h.begun thread h.calls }
      else { h with now := h.now.step e }
  | .advance thread =>
      { h with
        now := h.now.step e
        findings := h.findings ++ (h.finding thread).toList }

/-- A lock is taken only while no other lock is held, and a reader writes a counter only
while no other has read it and not written it yet. -/
def TakesTurns (h : History K k) (e : CrowdEvent k) : Prop :=
  h.now.crowd.TakesAlone e ∧ h.now.WritesAlone e

instance (h : History K k) (e : CrowdEvent k) : Decidable (h.TakesTurns e) :=
  inferInstanceAs (Decidable (_ ∧ _))

end History

/-! ### The history is that of the calls -/

namespace Crowd

variable {s : Crowd K k} {thread : Fin k}

/-- A loop that goes on has taken a round. -/
theorem step_walking {walker : Walker} {since : List (ℕ × SharedData K)}
    {walk' : Traversal (SharedData K)}
    (hactivity : (s.step (.advance thread)).activity thread = .walking walker since walk') :
    ∃ walk, s.activity thread = .walking walker since walk ∧ ¬ walker.leaves walk = true ∧
      walk' = walk.next s.memory.dataList ∧
      (s.step (.advance thread)).memory = s.memory.visit walk walker := by
  rw [step] at hactivity ⊢
  cases hbefore : s.activity thread with
  | outside =>
      simp only [hbefore] at hactivity
      cases hactivity
  | inside stage =>
      simp only [hbefore, activity_goto_self] at hactivity
      cases hnext : stage.next <;> simp [hnext, Activity.ofNext] at hactivity
  | walking walker₀ since₀ walk =>
      simp only [hbefore] at hactivity ⊢
      split at hactivity
      · rw [activity_goto_self] at hactivity
        cases hactivity
      · rename_i hstays
        rw [activity_goto_self] at hactivity
        obtain ⟨rfl, rfl, rfl⟩ := Activity.walking.inj hactivity
        refine ⟨walk, rfl, hstays, rfl, ?_⟩
        rw [if_neg hstays]
        rfl

/-- While a thread is in a loop, the steps of the others move no item. -/
theorem Orderly.sameList_advance (h : s.Orderly) {other : Fin k} (hne : other ≠ thread)
    {walker : Walker} {since : List (ℕ × SharedData K)} {walk : Traversal (SharedData K)}
    (hother : s.activity other = .walking walker since walk) :
    (s.step (.advance thread)).memory = s.memory ∨
      walker = .reader ∧ s.memory.SameList (s.step (.advance thread)).memory := by
  by_cases hidle : (s.activity thread).lock = none
  · left
    rw [Crowd.step, Activity.eq_outside_of_lock hidle]
  have hlock : (s.activity other).lock ≠ none := by
    rw [hother]
    cases walker <;> exact Option.some_ne_none _
  obtain ⟨⟨since', walk', hwalk'⟩, _, _, hreader⟩ := h.readers hne.symm hidle hlock
  rw [hother] at hreader
  obtain ⟨rfl, -, -⟩ := Activity.walking.inj hreader
  refine .inr ⟨rfl, ?_⟩
  cases hcursor : walk'.cursor with
  | none =>
      rw [step_reader_end hwalk' hcursor]
      exact s.memory.sameList_leave .reader
  | some addr =>
      rw [step_reader_item hwalk' hcursor]
      exact ⟨DemoMemory.addresses_touch addr s.memory, rfl, rfl⟩

end Crowd

namespace History

/-- All that is due done, the module is what the calls make of it; every loop is on its
way; and what loops have come back with is what the calls before them lead to. -/
structure Serial (h : History K k) : Prop where
  orderly : h.now.crowd.Orderly
  fresh : h.now.Fresh
  settles : ∃ target : DemoMemory K,
    Settles (fun t => (h.now.crowd.activity t).due) h.now.crowd.memory target ∧
      target.forget = run ConcurrencyDemo.exec (.load K) h.calls
  sees : ∀ t walker since walk, h.now.crowd.activity t = .walking walker since walk →
    Sees (run ConcurrencyDemo.exec (.load K) (h.begun t)) h.now.crowd.memory walker walk ∧
      h.begun t ++ (Task.walk walker).call.toList <+: h.calls
  findings : ∀ f ∈ h.findings,
    f.Right ∧ f.before ++ (Task.walk f.walker).call.toList <+: h.calls

theorem serial_load (K : Kernel) (k : ℕ) : (load K k).Serial where
  orderly := Crowd.orderly_load K k
  fresh := Sharing.fresh_load K k
  settles := ⟨.load K, .of_paid (fun _ => rfl) _, rfl⟩
  sees _ _ _ _ h := by cases h
  findings _ h := absurd h List.not_mem_nil

variable {h : History K k}

/-- A loop comes back in the step in which it is left. -/
theorem finding_cases {thread : Fin k} {f : Finding K} (hf : f ∈ h.finding thread) :
    ∃ since walk, h.now.crowd.activity thread = .walking f.walker since walk ∧
      f.walker.leaves walk = true ∧ f = ⟨f.walker, h.begun thread, contents walk.passed⟩ := by
  rw [finding] at hf
  cases hactivity : h.now.crowd.activity thread with
  | outside => simp [hactivity] at hf
  | inside stage => simp [hactivity] at hf
  | walking walker since walk =>
      rw [hactivity] at hf
      cases walker with
      | reader =>
          dsimp only at hf
          split at hf
          · rename_i hend
            cases hf
            exact ⟨since, walk, rfl, Option.isNone_iff_eq_none.mpr hend.1, rfl⟩
          · cases hf
      | shower =>
          dsimp only at hf
          split at hf
          · rename_i hleaves
            cases hf
            exact ⟨since, walk, rfl, hleaves, rfl⟩
          · cases hf

/-- A task gets its lock, or waits. -/
theorem Serial.enter (hserial : h.Serial) {thread : Fin k} {task : Task}
    (hturn : h.TakesTurns (.enter thread task)) : (h.step (.enter thread task)).Serial := by
  obtain ⟨htakes, hwrites⟩ := hturn
  rw [step]
  split
  · rename_i hpasses
    obtain ⟨target, hsettles, htarget⟩ := hserial.settles
    refine ⟨hserial.orderly.step htakes, hserial.fresh.step hserial.orderly hwrites,
      ⟨_, hserial.orderly.settles_enter hpasses htakes hsettles, ?_⟩, ?_, ?_⟩
    · show _ = run _ _ (h.calls ++ _)
      rw [hserial.orderly.forget_enter hpasses htakes hsettles, htarget, run_append]
    · intro t walker since walk hwalk
      replace hwalk : (h.now.crowd.step (.enter thread task)).activity t =
        .walking walker since walk := hwalk
      rw [hpasses.step_enter] at hwalk
      show Sees _ (h.now.crowd.step (.enter thread task)).memory _ _ ∧ _ <+: h.calls ++ _
      rw [hpasses.step_enter]
      by_cases ht : t = thread
      · subst ht
        rw [Crowd.activity_goto_self] at hwalk
        dsimp only
        rw [Function.update_self]
        cases task with
        | work work => cases hwalk
        | walk walker =>
            cases hwalk
            rw [← htarget]
            exact ⟨.of_passes hpasses htakes hsettles, List.prefix_rfl⟩
      · rw [Crowd.activity_goto_of_ne _ ht] at hwalk
        obtain ⟨hsees, hprefix⟩ := hserial.sees t walker since walk hwalk
        dsimp only
        rw [Function.update_of_ne ht]
        exact ⟨hsees, hprefix.trans (List.prefix_append ..)⟩
    · intro f hf
      obtain ⟨hright, hprefix⟩ := hserial.findings f hf
      exact ⟨hright, hprefix.trans (List.prefix_append ..)⟩
  · rename_i hwaits
    have hsame : h.now.step (.enter thread task) = h.now := by
      rw [Sharing.step, Crowd.step_enter, if_neg hwaits]
    rwa [hsame]

/-- A thread takes its next step. -/
theorem Serial.advance (hserial : h.Serial) {thread : Fin k}
    (hwrites : h.now.WritesAlone (.advance thread)) : (h.step (.advance thread)).Serial := by
  have hfresh := hserial.fresh.step hserial.orderly hwrites
  have hfindings : ∀ f ∈ h.findings ++ (h.finding thread).toList,
      f.Right ∧ f.before ++ (Task.walk f.walker).call.toList <+: h.calls := by
    intro f hf
    rcases List.mem_append.mp hf with hf | hf
    · exact hserial.findings f hf
    · obtain ⟨since, walk, hwalk, hleaves, hf⟩ := finding_cases (Option.mem_toList.mp hf)
      obtain ⟨hsees, hprefix⟩ := hserial.sees thread f.walker since walk hwalk
      rw [hf]
      exact ⟨hsees.right hleaves, hprefix⟩
  rcases hserial.fresh.step_cases hserial.orderly.tracked thread with
    ⟨since, walk, hwalk, -, hstep⟩ | ⟨-, hstep⟩
  · -- a reader reads
    rw [step]
    rw [hstep] at hfresh ⊢
    exact ⟨hserial.orderly, hfresh, hserial.settles, hserial.sees, hfindings⟩
  · have horderly := hserial.orderly.step (e := .advance thread) trivial
    obtain ⟨target, hsettles, htarget⟩ := hserial.settles
    rw [step]
    rw [hstep] at hfresh ⊢
    refine ⟨horderly, hfresh,
      ⟨target, hserial.orderly.settles_advance hsettles thread, htarget⟩, ?_, hfindings⟩
    intro t walker since walk' hwalk
    replace hwalk : (h.now.crowd.step (.advance thread)).activity t =
      .walking walker since walk' := hwalk
    by_cases ht : t = thread
    · subst ht
      obtain ⟨walk, hbefore, hstays, rfl, hmemory⟩ := Crowd.step_walking hwalk
      obtain ⟨hsees, hprefix⟩ := hserial.sees t walker since walk hbefore
      have hsafe : walk.Safe h.now.crowd.memory.dataList := by
        have hpoints := (hserial.orderly.tracked.right t).points
        rwa [hbefore] at hpoints
      have hnext := hsees.next hserial.orderly.tracked.inOrder.ascending hstays hsafe
      refine ⟨?_, hprefix⟩
      dsimp only
      rw [hmemory]
      cases walker with
      | shower => exact hnext
      | reader => exact hnext.sameList (h.now.crowd.memory.sameList_visit walk .reader)
    · rw [Crowd.activity_step_of_ne ht] at hwalk
      obtain ⟨hsees, hprefix⟩ := hserial.sees t walker since walk' hwalk
      refine ⟨?_, hprefix⟩
      dsimp only
      rcases hserial.orderly.sameList_advance ht hwalk with hmemory | ⟨rfl, hsame⟩
      · rwa [hmemory]
      · exact hsees.sameList hsame

theorem Serial.step (hserial : h.Serial) {e : CrowdEvent k} (hturn : h.TakesTurns e) :
    (h.step e).Serial := by
  cases e with
  | enter thread task => exact hserial.enter hturn
  | advance thread => exact hserial.advance hturn.2

/-- When all threads are outside, the module is what the calls make of it, one after the
other; a loop has come back with what the calls before it lead to. -/
structure OneByOne (h : History K k) : Prop where
  safe : h.now.crowd.Safe
  calls : (∀ thread, h.now.crowd.activity thread = .outside) →
    h.now.crowd.memory.forget = run ConcurrencyDemo.exec (.load K) h.calls
  findings : ∀ f ∈ h.findings,
    f.Right ∧ f.before ++ (Task.walk f.walker).call.toList <+: h.calls

theorem Serial.oneByOne (hserial : h.Serial) : h.OneByOne where
  safe := hserial.orderly.tracked.safe
  calls houtside := by
    obtain ⟨target, hsettles, htarget⟩ := hserial.settles
    rw [hsettles.paid fun t => by rw [houtside t]; rfl, htarget]
  findings := hserial.findings

/-- **One call after the other.** In a schedule in which no lock is taken while another one
is held, and no reader writes a counter that another has read and not written yet, the
threads are at every moment the calls in the order in which they got their locks: in what
they leave behind, and in what `rwlock_read_data` returns and `concurrency_show` lists. -/
theorem one_by_one {es : List (CrowdEvent k)} (hturns : StepsMeet step TakesTurns (load K k) es) :
    Throughout step OneByOne (load K k) es :=
  (hturns.throughout (I := Serial) (fun _ _ h hturn => h.step hturn) (serial_load K k)).imp
    fun _ h => h.oneByOne

/-- Two readers, side by side, behind an addition under the mutex. -/
theorem one_by_one_of_two_readers :
    (run step (load .x86_64 2)
      ([.enter 0 (.work (.add .mutex 5))] ++ List.replicate 4 (.advance 0) ++
        [.enter 0 (.walk .reader), .enter 1 (.walk .reader), .advance 0, .advance 0, .advance 1,
          .advance 1, .advance 1, .advance 1, .advance 0, .advance 0])).now.crowd.memory.forget =
      run ConcurrencyDemo.exec (.load .x86_64)
        [.mutexAddData 5 true false, .rwlockReadData, .rwlockReadData] :=
  (one_by_one (by decide +kernel)).last.calls (Fin.forall_fin_two.mpr ⟨rfl, rfl⟩)

end History

end KernelModules.ConcurrencyControl
