import KernelModules.CompleteMonitor.Effects
import KernelModules.CompleteMonitor.Listing

/-!
Listings under a changing filter.

`processes_show` consults the filter record by record under `process_lock`, and
`filter_write` changes it under `config_mutex`: the records stand still under a
listing, the filter does not. Beside each call are kept the filters that have
been in force since it began.
-/

namespace KernelModules.CompleteMonitor

open Lib

variable {K : Kernel}

/-- A call of `processes_show` that holds the lock: the records behind it and
ahead of it, and what it has printed. `inForce` is kept by the observer. -/
structure Walk (K : Kernel) where
  visited : List Addr
  todo : List Addr
  listing : Listing K
  inForce : List FilterConfig

/-- The walk past one more record. -/
def Walk.turn (s : Monitor K) (record : Addr) (todo : List Addr) (walk : Walk K) : Walk K :=
  { walk with
    visited := walk.visited ++ [record]
    todo := todo
    listing := walk.listing.visit s.filter (s.mem record) }

/-- A listing that is done, the list it was about and the filters of its call. -/
structure Printed (K : Kernel) where
  listing : Listing K
  list : List (ProcessRecord K)
  inForce : List FilterConfig

/-- One filter of the call selects the lines. -/
def Printed.OfOneFilter (p : Printed K) : Prop :=
  ∃ filter ∈ p.inForce, p.listing.rows = (selected filter p.list).take MAX_LISTED

instance (p : Printed K) : Decidable p.OfOneFilter :=
  inferInstanceAs (Decidable (∃ filter ∈ p.inForce, _))

/-- The module, the calls that wait for the lock, the one that holds it, and the
listings that are done. -/
structure Listers (K : Kernel) where
  sys : System K
  waiting : ℕ → Option (List FilterConfig)
  walk : Option (Walk K)
  printed : List (Printed K)

inductive ListEvent (K : Kernel)
  /-- The rest of the module takes a step. -/
  | exec (e : Event K)
  /-- `processes_show` is called. -/
  | call (reader : ℕ)
  /-- It takes `process_lock`. -/
  | lock (reader : ℕ)
  /-- The call that holds the lock visits a record, or leaves the loop and returns. -/
  | visit

/-- The critical sections of the rest of the module. -/
def Event.takesProcessLock : Event K → Bool
  | .lock _ => true
  | .control w => writtenCommand w = some .clear || writtenCommand w = some .resetStats
  | _ => false

namespace Listers

def load (K : Kernel) : Listers K := ⟨.load K, fun _ => none, none, []⟩

/-- A step of the rest of the module. A critical section waits for the listing. -/
def exec (e : Event K) (t : Listers K) : Listers K :=
  if t.walk.isSome && e.takesProcessLock then t
  else
    { t with
      sys := t.sys.step e
      waiting := fun reader => (t.waiting reader).map (· ++ [(t.sys.step e).mon.filter])
      walk := t.walk.map fun walk =>
        { walk with inForce := walk.inForce ++ [(t.sys.step e).mon.filter] } }

def call (reader : ℕ) (t : Listers K) : Listers K :=
  match t.waiting reader with
  | some _ => t
  | none => { t with waiting := Function.update t.waiting reader (some [t.sys.mon.filter]) }

def lock (reader : ℕ) (t : Listers K) : Listers K :=
  match t.walk, t.waiting reader with
  | none, some inForce =>
      { t with
        waiting := Function.update t.waiting reader none
        walk := some ⟨[], t.sys.mon.processList, .empty K, inForce⟩ }
  | _, _ => t

/-- The next turn of the loop, or what follows it. After the unlock only the count
is printed. -/
def visit (t : Listers K) : Listers K :=
  match t.walk with
  | none => t
  | some walk =>
      match walk.listing.cut, walk.todo with
      | false, record :: todo => { t with walk := some (walk.turn t.sys.mon record todo) }
      | _, _ =>
          { t with
            walk := none
            printed := t.printed ++
              [⟨walk.listing, t.sys.mon.processList.map t.sys.mon.mem, walk.inForce⟩] }

def step (t : Listers K) : ListEvent K → Listers K
  | .exec e => t.exec e
  | .call reader => t.call reader
  | .lock reader => t.lock reader
  | .visit => t.visit

/-- Every listing that is done is of one filter. -/
def OneFilterEach (t : Listers K) : Prop := ∀ p ∈ t.printed, p.OfOneFilter

instance (t : Listers K) : Decidable t.OneFilterEach :=
  inferInstanceAs (Decidable (∀ p ∈ t.printed, _))

end Listers

/-! ### The condition -/

/-- Two filters answer alike on these records. -/
def FilterConfig.Agree (filter other : FilterConfig) (records : List (ProcessRecord K)) : Prop :=
  ∀ r ∈ records, processMatchesFilter filter r = processMatchesFilter other r

instance (filter other : FilterConfig) (records : List (ProcessRecord K)) :
    Decidable (filter.Agree other records) :=
  inferInstanceAs (Decidable (∀ r ∈ records, _))

theorem FilterConfig.Agree.selected_eq {filter other : FilterConfig}
    {records : List (ProcessRecord K)} (h : filter.Agree other records) :
    selected filter records = selected other records := by
  rw [selected, selected, List.filter_congr h]

/-- A call under way is spared by a new filter that answers as the present one does on
the records ahead, or on the records behind as every filter of the call has. -/
def Walk.Spared (s : Monitor K) (walk : Walk K) (new : FilterConfig) : Prop :=
  new.Agree s.filter (walk.todo.map s.mem) ∨
    ∀ filter ∈ walk.inForce, new.Agree filter (walk.visited.map s.mem)

instance (s : Monitor K) (walk : Walk K) (new : FilterConfig) : Decidable (walk.Spared s new) :=
  inferInstanceAs (Decidable (_ ∨ _))

/-- A write to the filter file spares the call that holds the lock. -/
def Listers.SparesWalk (t : Listers K) : ListEvent K → Prop
  | .exec (.filter w) =>
      ∀ walk ∈ t.walk, walk.Spared t.sys.mon (filterWrite w t.sys.mon).1.filter
  | _ => True

instance (t : Listers K) (e : ListEvent K) : Decidable (t.SparesWalk e) := by
  unfold Listers.SparesWalk
  split <;> infer_instance

/-! ### A listing on course -/

/-- Left alone, the listing comes out as one filter of its call selects it. A filter
that has been alike with all of them behind it selects what is printed. -/
structure Walk.OnCourse (s : Monitor K) (walk : Walk K) : Prop where
  list_eq : s.processList = walk.visited ++ walk.todo
  counted : walk.listing.Counted
  current : s.filter ∈ walk.inForce
  behind : ∀ filter : FilterConfig,
    (∀ other ∈ walk.inForce, filter.Agree other (walk.visited.map s.mem)) →
      selected filter (walk.visited.map s.mem) = walk.listing.rows
  selects : ∃ filter ∈ walk.inForce,
    (selected filter (s.processList.map s.mem)).take MAX_LISTED =
      (walk.listing.rows ++ selected s.filter (walk.todo.map s.mem)).take MAX_LISTED

/-- A listing begins on course, with any filter of its call that is still in force. -/
theorem Walk.onCourse_start {s : Monitor K} {inForce : List FilterConfig}
    (h : s.filter ∈ inForce) : Walk.OnCourse s ⟨[], s.processList, .empty K, inForce⟩ := by
  refine ⟨rfl, Listing.counted_empty K, h, fun _ _ => rfl, s.filter, h, ?_⟩
  rw [Listing.empty, List.nil_append]

/-- When the filter changes under a listing that is spared, the listing comes out as the
filter before would have selected it, or as the new one selects it. -/
theorem Walk.OnCourse.selects_of_spared {s : Monitor K} {walk : Walk K} (h : walk.OnCourse s)
    {new : FilterConfig} (hspared : walk.Spared s new) :
    ∃ filter ∈ walk.inForce ++ [new],
      (selected filter (s.processList.map s.mem)).take MAX_LISTED =
        (walk.listing.rows ++ selected new (walk.todo.map s.mem)).take MAX_LISTED := by
  rcases hspared with hahead | hbehind
  · obtain ⟨old, hold, hselects⟩ := h.selects
    refine ⟨old, List.mem_append_left _ hold, ?_⟩
    rw [hselects, hahead.selected_eq]
  · refine ⟨new, List.mem_append_right _ (List.mem_singleton_self _), ?_⟩
    rw [h.list_eq, List.map_append, selected_append, h.behind new hbehind]

/-- A step beside the listing: the records stand still, and the listing is spared. -/
theorem Walk.OnCourse.beside {s s' : Monitor K} {walk : Walk K} (h : walk.OnCourse s)
    (hlist : s'.processList = s.processList)
    (hmem : ∀ record ∈ s.processList, s'.mem record = s.mem record)
    (hspared : walk.Spared s s'.filter) :
    Walk.OnCourse s' { walk with inForce := walk.inForce ++ [s'.filter] } := by
  have hvisited : walk.visited.map s'.mem = walk.visited.map s.mem :=
    List.map_congr_left fun record hrecord =>
      hmem record (h.list_eq ▸ List.mem_append_left _ hrecord)
  have htodo : walk.todo.map s'.mem = walk.todo.map s.mem :=
    List.map_congr_left fun record hrecord =>
      hmem record (h.list_eq ▸ List.mem_append_right _ hrecord)
  refine ⟨hlist.trans h.list_eq, h.counted, List.mem_append_right _ (List.mem_singleton_self _),
    fun filter halike => ?_, ?_⟩
  · rw [hvisited] at halike ⊢
    exact h.behind filter fun other hother => halike other (List.mem_append_left _ hother)
  · rw [hlist, List.map_congr_left hmem, htodo]
    exact h.selects_of_spared hspared

/-- A turn of the loop. -/
theorem Walk.OnCourse.visit {s : Monitor K} {walk : Walk K} (h : walk.OnCourse s)
    (hcut : walk.listing.cut = false) {record : Addr} {todo : List Addr}
    (htodo : walk.todo = record :: todo) : Walk.OnCourse s (walk.turn s record todo) := by
  obtain ⟨filter, hfilter, hselects⟩ := h.selects
  refine ⟨?_, h.counted.visit hcut s.filter (s.mem record), h.current, fun other halike => ?_,
    filter, hfilter, ?_⟩
  · rw [h.list_eq, htodo, turn, List.append_assoc, List.singleton_append]
  · rw [turn, List.map_append] at halike ⊢
    -- the filter of this turn is one of the call
    have hthis : other.Agree s.filter [s.mem record] := fun r hr =>
      halike s.filter h.current r (List.mem_append_right _ hr)
    have hbefore : ∀ filter ∈ walk.inForce, other.Agree filter (walk.visited.map s.mem) :=
      fun filter hfilter r hr => halike filter hfilter r (List.mem_append_left _ hr)
    rw [selected_append, h.behind other hbefore, Listing.rows_visit, ← hthis.selected_eq]
    rfl
  · rw [hselects, htodo, turn, Listing.rows_visit, List.append_assoc, ← selected_append]
    rfl

/-- Out of the loop the listing is of one filter. -/
theorem Walk.OnCourse.printed {s : Monitor K} {walk : Walk K} (h : walk.OnCourse s)
    (hdone : walk.listing.cut = true ∨ walk.todo = []) :
    Printed.OfOneFilter ⟨walk.listing, s.processList.map s.mem, walk.inForce⟩ := by
  obtain ⟨filter, hfilter, hselects⟩ := h.selects
  refine ⟨filter, hfilter, ?_⟩
  show walk.listing.rows = (selected filter (s.processList.map s.mem)).take MAX_LISTED
  rw [hselects]
  rcases hdone with hcut | htodo
  · exact (h.counted.take_rows hcut _).symm
  · rw [htodo, List.map_nil, selected_nil, List.append_nil, List.take_of_length_le h.counted.bound]

/-- Outside the critical sections the list and its records stand still, and only
`filter_write` changes the filter. -/
theorem System.step_unlocked {s : System K} (h : System.Consistent s) {e : Event K}
    (he : e.takesProcessLock = false) :
    (s.step e).mon.processList = s.mon.processList ∧
      (∀ record ∈ s.mon.processList, (s.step e).mon.mem record = s.mon.mem record) ∧
      ((s.step e).mon.filter = s.mon.filter ∨ ∃ w, e = .filter w) := by
  rw [System.mon_step]
  cases heffect : s.effect e with
  | nothing => exact ⟨rfl, fun _ _ => rfl, .inl rfl⟩
  | allocate fresh =>
      exact ⟨rfl, fun record hrecord => h.accounted.mem_update_nextAddr fresh hrecord, .inl rfl⟩
  | link pid record =>
      obtain ⟨cpu, -, -, rfl, -⟩ := System.effect_eq_link heffect
      cases he
  | mark pid exitCode jiffies =>
      obtain ⟨cpu, rfl, -⟩ := System.effect_eq_mark heffect
      cases he
  | command w =>
      obtain rfl := System.effect_eq_command heffect
      rw [Effect.apply, controlWrite_eq]
      cases hw : writtenCommand w with
      | none => exact ⟨rfl, fun _ _ => rfl, .inl rfl⟩
      | some c =>
          cases c with
          | start | stop => exact ⟨rfl, fun _ _ => rfl, .inl rfl⟩
          | clear | resetStats => simp [Event.takesProcessLock, hw] at he
  | configure w =>
      rw [Effect.apply, filterWrite_eq]
      exact ⟨rfl, fun _ _ => rfl, .inr ⟨w, System.effect_eq_configure heffect⟩⟩

/-! ### Many listings -/

namespace Listers

/-- The invariant. -/
structure Sound (t : Listers K) : Prop where
  consistent : t.sys.Consistent
  waiting : ∀ reader inForce, t.waiting reader = some inForce → t.sys.mon.filter ∈ inForce
  walk : ∀ walk, t.walk = some walk → walk.OnCourse t.sys.mon
  printed : t.OneFilterEach

theorem sound_load (K : Kernel) : Sound (load K) where
  consistent := System.consistent_load K
  waiting := by simp [load]
  walk := by simp [load]
  printed := by simp [OneFilterEach, load]

theorem Sound.exec {t : Listers K} (h : Sound t) {e : Event K} (hspares : SparesWalk t (.exec e)) :
    Sound (t.exec e) := by
  rw [Listers.exec]
  split
  · exact h
  · rename_i hruns
    refine ⟨h.consistent.step e, fun reader inForce hwaiting => ?_, fun walk hwalk => ?_, h.printed⟩
    · obtain ⟨before, -, rfl⟩ := Option.map_eq_some_iff.mp hwaiting
      exact List.mem_append_right _ (List.mem_singleton_self _)
    · obtain ⟨walk, hold, rfl⟩ := Option.map_eq_some_iff.mp hwalk
      have he : e.takesProcessLock = false := by simpa [hold] using hruns
      obtain ⟨hlist, hmem, hfilter⟩ := System.step_unlocked h.consistent he
      have hspared : walk.Spared t.sys.mon (t.sys.step e).mon.filter := by
        rcases hfilter with hsame | ⟨w, rfl⟩
        · rw [hsame]
          exact .inl fun _ _ => rfl
        · exact hspares walk hold
      exact (h.walk walk hold).beside hlist hmem hspared

/-- A reader begins or ends to wait. -/
theorem Sound.update {t : Listers K} (h : Sound t) (reader : ℕ)
    {next : Option (List FilterConfig)}
    (hnext : ∀ inForce, next = some inForce → t.sys.mon.filter ∈ inForce) :
    ∀ other inForce, Function.update t.waiting reader next other = some inForce →
      t.sys.mon.filter ∈ inForce :=
  (Function.forall_update_iff t.waiting fun _ call =>
    ∀ inForce, call = some inForce → t.sys.mon.filter ∈ inForce).mpr
    ⟨hnext, fun other _ => h.waiting other⟩

theorem Sound.call {t : Listers K} (h : Sound t) (reader : ℕ) : Sound (t.call reader) := by
  rw [Listers.call]
  split
  · exact h
  · refine ⟨h.consistent, h.update reader fun inForce hcall => ?_, h.walk, h.printed⟩
    cases hcall
    exact List.mem_singleton_self _

theorem Sound.lock {t : Listers K} (h : Sound t) (reader : ℕ) : Sound (t.lock reader) := by
  rw [Listers.lock]
  split
  · rename_i inForce hfree hreader
    refine ⟨h.consistent, h.update reader nofun, fun walk hwalk => ?_, h.printed⟩
    cases hwalk
    exact Walk.onCourse_start (h.waiting reader inForce hreader)
  · exact h

theorem Sound.visit {t : Listers K} (h : Sound t) : Sound t.visit := by
  rw [Listers.visit]
  cases hwalk : t.walk with
  | none => exact h
  | some walk =>
      have hcourse := h.walk walk hwalk
      dsimp only
      split
      · rename_i record todo hcut htodo
        refine ⟨h.consistent, h.waiting, fun walk' hwalk' => ?_, h.printed⟩
        cases hwalk'
        exact hcourse.visit hcut htodo
      · rename_i hdone
        refine ⟨h.consistent, h.waiting, nofun, fun p hp => ?_⟩
        rcases List.mem_append.mp hp with hp | hp
        · exact h.printed p hp
        · rw [List.mem_singleton.mp hp]
          apply hcourse.printed
          cases hcut : walk.listing.cut with
          | true => exact .inl rfl
          | false =>
              cases htodo : walk.todo with
              | nil => exact .inr rfl
              | cons record todo => exact (hdone record todo hcut htodo).elim

/-- **One step.** -/
theorem Sound.step {t : Listers K} (h : Sound t) {e : ListEvent K} (hspares : SparesWalk t e) :
    Sound (t.step e) := by
  cases e with
  | exec e => exact h.exec hspares
  | call reader => exact h.call reader
  | lock reader => exact h.lock reader
  | visit => exact h.visit

/-! ### A listing that is left alone -/

theorem run_visit_of_none {t : Listers K} (h : t.walk = none) (n : ℕ) :
    run step t (List.replicate n .visit) = t := by
  induction n with
  | zero => rfl
  | succ n ih =>
      have hvisit : t.step .visit = t := by
        rw [step, visit, h]
      rw [List.replicate_succ, run_cons, hvisit, ih]

/-- The turns of the loop do what `listRecords` does. -/
theorem run_visit {t : Listers K} {walk : Walk K} (h : t.walk = some walk) :
    (run step t (List.replicate (walk.todo.length + 1) .visit)).printed =
      t.printed ++
        [⟨listRecords t.sys.mon.filter (walk.todo.map t.sys.mon.mem) walk.listing,
          t.sys.mon.processList.map t.sys.mon.mem, walk.inForce⟩] := by
  induction htodo : walk.todo generalizing t walk with
  | nil =>
      show (t.step .visit).printed = _
      rw [step, visit, h]
      dsimp only
      rw [htodo]
      cases walk.listing.cut <;> rfl
  | cons record todo ih =>
      rw [List.length_cons, List.replicate_succ, run_cons, List.map_cons, listRecords]
      cases hcut : walk.listing.cut with
      | true =>
          have hvisit : t.step .visit =
              { t with
                walk := none
                printed := t.printed ++
                  [⟨walk.listing, t.sys.mon.processList.map t.sys.mon.mem, walk.inForce⟩] } := by
            rw [step, visit, h]
            dsimp only
            rw [hcut]
          rw [hvisit, run_visit_of_none rfl]
          rfl
      | false =>
          have hvisit : t.step .visit =
              { t with walk := some (walk.turn t.sys.mon record todo) } := by
            rw [step, visit, h]
            dsimp only
            rw [hcut, htodo]
          have hturn : (t.step .visit).walk = some (walk.turn t.sys.mon record todo) := by
            rw [hvisit]
          rw [ih hturn rfl, hvisit]
          rfl

/-- A call that runs alone prints the listing of `processes_show`. -/
theorem run_listing {t : Listers K} {reader : ℕ} (hreader : t.waiting reader = none)
    (hfree : t.walk = none) :
    (run step t (.call reader :: .lock reader ::
      List.replicate (t.sys.mon.processList.length + 1) .visit)).printed =
      t.printed ++
        [⟨processesShow t.sys.mon, t.sys.mon.processList.map t.sys.mon.mem,
          [t.sys.mon.filter]⟩] := by
  have hwalk : ((t.step (.call reader)).step (.lock reader)).walk =
      some ⟨[], t.sys.mon.processList, .empty K, [t.sys.mon.filter]⟩ := by
    simp only [step, call, hreader, lock, hfree, Function.update_self]
  have hsame : ((t.step (.call reader)).step (.lock reader)).sys = t.sys ∧
      ((t.step (.call reader)).step (.lock reader)).printed = t.printed := by
    simp only [step, call, hreader, lock, hfree, Function.update_self, and_self]
  rw [run_cons, run_cons, run_visit hwalk, hsame.1, hsame.2]
  rfl

/-! ### Listings under writes -/

end Listers

end KernelModules.CompleteMonitor
