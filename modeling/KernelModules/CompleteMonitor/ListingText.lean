import KernelModules.CompleteMonitor.FilterChanges
import KernelModules.Texts

/-!
The text of the process file.

`processes_show` prints a table, a notice when it has printed fifty rows, and their
number. Whatever the processes are called, the text can be read in one way only: it
determines every row, but for blanks at the end of a name, and with the rows the rest.
The rows are those of records that were in the list together, also when the filter
changes under the listing.
-/

namespace KernelModules.CompleteMonitor

open Lib

variable {K : Kernel}

/-! ### `processes_show` -/

def Row.text (row : Row K) : List UInt8 :=
  processColumns row.pid row.ppid row.comm row.startTime row.endTime ++
    (cell 8 (shownStatus row.running) ++
      (cell 8 (printInt row.exitCode) ++ lastCell 12 (printULong row.lifetime)))

/-- The names of the columns. The last but one is wider than its column. -/
def tableHead : List UInt8 :=
  List.flatten
    [cell 8 (ascii "PID".toList), cell 8 (ascii "PPID".toList), cell 16 (ascii "COMMAND".toList),
      cell 12 (ascii "START_TIME".toList), cell 12 (ascii "END_TIME".toList),
      cell 8 (ascii "STATUS".toList), cell 8 (ascii "EXIT_CODE".toList),
      lastCell 12 (ascii "LIFETIME".toList)]

namespace Listing

/-- What follows the rows. -/
def tail (l : Listing K) : List UInt8 :=
  (if l.cut then ascii "... (showing first 50 matching records)\n".toList else []) ++
    line "\nTotal matching records: " (printInt (.ofInt 32 l.count)) "\n"

/-- The text of a listing. -/
def text (l : Listing K) : List UInt8 :=
  List.flatten
    [ascii "=== Process Records ===\n".toList,
      tableHead,
      List.replicate 80 45 ++ [10],
      l.rows.flatMap Row.text,
      l.tail]

end Listing

/-! ### Reading the text -/

/-- A row without the blanks at the end of its name. -/
def Row.trimmed (row : Row K) : Row K := { row with comm := trimEnd row.comm }

theorem tells_row_text :
    Tells (fun record : ProcessRecord K => record.row.text) fun record => record.row.trimmed := by
  have hcomm : ∀ record : ProcessRecord K, record.row.comm.length ≤ 16 := fun record =>
    length_str_le record.comm
  have hcolumns := tells_processColumns (fun record : ProcessRecord K => record.row.pid)
    (fun record => record.row.ppid) hcomm (fun record => record.row.startTime)
    (fun record => record.row.endTime)
  have hstatus : Tells (fun record : ProcessRecord K => cell 8 (shownStatus record.row.running))
      fun record => record.row.running :=
    (Tells.cell 8 fun record : ProcessRecord K => blank_notMem_shownStatus record.row.running).map
      fun _ _ h => shownStatus_injective h
  have hexit := (Tells.intCell 8).comp fun record : ProcessRecord K => record.row.exitCode
  have hlifetime := tells_ulongLastCell 12 fun record : ProcessRecord K => record.row.lifetime
  refine (hcolumns.append (hstatus.append (hexit.append hlifetime))).map fun record record' h => ?_
  simp only [Prod.mk.injEq, id] at h
  obtain ⟨⟨hpid, hppid, hcomm, hstart, hend⟩, hrunning, hcode, hlife⟩ := h
  rw [Row.trimmed, Row.trimmed, hpid, hppid, hcomm, hstart, hend, hrunning, hcode, hlife]

/-- The text of a row depends on no more. -/
theorem ProcessRecord.text_eq_of_trimmed {record record' : ProcessRecord K}
    (h : record.row.trimmed = record'.row.trimmed) : record.row.text = record'.row.text := by
  have htrimmed : ∀ record : ProcessRecord K, record.row.trimmed.text = record.row.text := by
    intro record
    have hlength : record.row.comm.length ≤ 16 := length_str_le record.comm
    simp only [Row.text, Row.trimmed, processColumns, cell, column_trimEnd hlength]
  rw [← htrimmed record, h, htrimmed record']

theorem row_text_starts (record : ProcessRecord K) :
    ∃ c t, record.row.text = c :: t ∧ StartsNumber c :=
  processColumns_starts ..

namespace Listing

/-- What follows the rows does not start like one. -/
theorem tail_starts (l : Listing K) : ∀ c ∈ l.tail.head?, ¬ StartsNumber c := by
  cases hcut : l.cut with
  | true =>
      have hhead : l.tail.head? = some 46 := by
        rw [tail, hcut]
        rfl
      exact not_startsNumber_of_head hhead (by decide)
  | false =>
      have hhead : l.tail.head? = some 10 := by
        rw [tail, hcut]
        rfl
      exact not_startsNumber_of_head hhead (by decide)

/-- The notice and the number follow from how many rows there are. -/
theorem Counted.tail_eq {l l' : Listing K} (h : l.Counted) (h' : l'.Counted)
    (hlength : l.rows.length = l'.rows.length) : l.tail = l'.tail := by
  have hcount : l.count = l'.count := by rw [h.count, h'.count, hlength]
  have hcut : l.cut = l'.cut := by
    rw [Bool.eq_iff_iff, h.cut, h'.cut, hlength]
  rw [tail, tail, hcount, hcut]

/-- The listing has printed records of the list, in its order. -/
structure Lists (l : Listing K) (records : List (ProcessRecord K)) : Prop where
  counted : l.Counted
  rows : l.rows.Sublist (records.map ProcessRecord.row)

theorem Lists.empty : (Listing.empty K).Lists [] := ⟨counted_empty K, .slnil⟩

theorem Lists.visit {l : Listing K} {records : List (ProcessRecord K)} (h : l.Lists records)
    (hcut : l.cut = false) (filter : FilterConfig) (record : ProcessRecord K) :
    (l.visit filter record).Lists (records ++ [record]) := by
  refine ⟨h.counted.visit hcut filter record, ?_⟩
  rw [rows_visit, List.map_append]
  exact h.rows.append (List.filter_sublist.map ProcessRecord.row)

/-- **Two texts.** They are the same exactly when the rows are, up to the blanks at the
end of the names. -/
theorem Lists.text_eq_iff {l l' : Listing K} {records records' : List (ProcessRecord K)}
    (h : l.Lists records) (h' : l'.Lists records') :
    l.text = l'.text ↔ l.rows.map Row.trimmed = l'.rows.map Row.trimmed := by
  obtain ⟨listed, -, hrows⟩ := List.sublist_map_iff.mp h.rows
  obtain ⟨listed', -, hrows'⟩ := List.sublist_map_iff.mp h'.rows
  simp only [text, hrows, hrows', List.flatten_cons, List.flatten_nil, List.append_nil,
    List.flatMap_map, List.map_map]
  constructor
  · intro htext
    have hrest := List.append_cancel_left
      (List.append_cancel_left (List.append_cancel_left htext))
    exact (tells_row_text.rows StartsNumber row_text_starts l.tail_starts l'.tail_starts hrest).1
  · intro hsame
    have hlength : l.rows.length = l'.rows.length := by
      rw [hrows, hrows']
      simpa using congrArg List.length hsame
    rw [flatMap_eq_of_map_eq (fun _ _ => ProcessRecord.text_eq_of_trimmed) hsame,
      h.counted.tail_eq h'.counted hlength]

end Listing

/-! ### Many listings -/

/-- The listing under way has printed records that it has behind it. -/
structure Walk.Lists (s : Monitor K) (walk : Walk K) : Prop where
  list_eq : s.processList = walk.visited ++ walk.todo
  listing : walk.listing.Lists (walk.visited.map s.mem)

theorem Walk.Lists.printed {s : Monitor K} {walk : Walk K} (h : walk.Lists s) :
    walk.listing.Lists (s.processList.map s.mem) := by
  refine ⟨h.listing.counted, ?_⟩
  rw [h.list_eq, List.map_append]
  exact h.listing.rows.trans ((List.sublist_append_left ..).map ProcessRecord.row)

/-- A step beside the listing. -/
theorem Walk.Lists.beside {s s' : Monitor K} {walk : Walk K} (h : walk.Lists s)
    (hlist : s'.processList = s.processList)
    (hmem : ∀ record ∈ s.processList, s'.mem record = s.mem record) (inForce : List FilterConfig) :
    Walk.Lists s' { walk with inForce := inForce } := by
  refine ⟨hlist.trans h.list_eq, ?_⟩
  have hvisited : walk.visited.map s'.mem = walk.visited.map s.mem := by
    apply List.map_congr_left
    intro record hrecord
    apply hmem
    rw [h.list_eq]
    exact List.mem_append_left _ hrecord
  show walk.listing.Lists (walk.visited.map s'.mem)
  rw [hvisited]
  exact h.listing

theorem Walk.Lists.turn {s : Monitor K} {walk : Walk K} (h : walk.Lists s)
    (hcut : walk.listing.cut = false) {record : Addr} {todo : List Addr}
    (htodo : walk.todo = record :: todo) : Walk.Lists s (walk.turn s record todo) := by
  refine ⟨?_, ?_⟩
  · rw [h.list_eq, htodo, Walk.turn, List.append_assoc, List.singleton_append]
  · show (walk.listing.visit s.filter (s.mem record)).Lists
      ((walk.visited ++ [record]).map s.mem)
    rw [List.map_append]
    exact h.listing.visit hcut s.filter (s.mem record)

namespace Listers

/-- The invariant, whatever the filter does. -/
structure Listed (t : Listers K) : Prop where
  consistent : t.sys.Consistent
  walk : ∀ walk ∈ t.walk, walk.Lists t.sys.mon
  printed : ∀ p ∈ t.printed, p.listing.Lists p.list

theorem listed_load (K : Kernel) : Listed (load K) where
  consistent := System.consistent_load K
  walk := nofun
  printed := nofun

theorem Listed.exec {t : Listers K} (h : Listed t) (e : Event K) : Listed (t.exec e) := by
  rw [Listers.exec]
  split
  · exact h
  · rename_i hruns
    refine ⟨h.consistent.step e, fun walk hwalk => ?_, h.printed⟩
    obtain ⟨walk, hold, rfl⟩ := Option.map_eq_some_iff.mp hwalk
    have he : e.takesProcessLock = false := by simpa [hold] using hruns
    obtain ⟨hlist, hmem, -⟩ := System.step_unlocked h.consistent he
    exact (h.walk walk hold).beside hlist hmem _

theorem Listed.visit {t : Listers K} (h : Listed t) : Listed t.visit := by
  rw [Listers.visit]
  cases hwalk : t.walk with
  | none => exact h
  | some walk =>
      have hlists := h.walk walk hwalk
      dsimp only
      split
      · rename_i record todo hcut htodo
        refine ⟨h.consistent, fun walk' hwalk' => ?_, h.printed⟩
        cases hwalk'
        exact hlists.turn hcut htodo
      · refine ⟨h.consistent, fun _ hwalk => absurd hwalk (Option.not_mem_none _), fun p hp => ?_⟩
        rcases List.mem_append.mp hp with hp | hp
        · exact h.printed p hp
        · rw [List.mem_singleton.mp hp]
          exact hlists.printed

/-- **One step.** -/
theorem Listed.step {t : Listers K} (h : Listed t) (e : ListEvent K) : Listed (t.step e) := by
  cases e with
  | exec e => exact h.exec e
  | call reader =>
      rw [Listers.step, Listers.call]
      split
      · exact h
      · exact ⟨h.consistent, h.walk, h.printed⟩
  | lock reader =>
      rw [Listers.step, Listers.lock]
      split
      · refine ⟨h.consistent, fun walk hwalk => ?_, h.printed⟩
        cases hwalk
        exact ⟨rfl, Listing.Lists.empty⟩
      · exact h
  | visit => exact h.visit

theorem listed_run (es : List (ListEvent K)) : Listed (run step (load K) es) :=
  run_invariant (I := Listed) (fun _ e h => h.step e) (listed_load K) es

/-- **What the file tells.** In every interleaving a listing shows records that are in
the list while it is printed, each at most once and in their order, and two listings, of
the same run or not, have the same text exactly when they have the same rows up to blanks
at the end of a name. No name makes one row look like others. -/
theorem listings_readable (es es' : List (ListEvent K)) :
    (∀ p ∈ (run step (load K) es).printed,
      p.listing.rows.Sublist (p.list.map ProcessRecord.row)) ∧
    ∀ p ∈ (run step (load K) es).printed, ∀ p' ∈ (run step (load K) es').printed,
      p.listing.text = p'.listing.text ↔
        p.listing.rows.map Row.trimmed = p'.listing.rows.map Row.trimmed :=
  ⟨fun p hp => ((listed_run es).printed p hp).rows, fun p hp p' hp' =>
    ((listed_run es).printed p hp).text_eq_iff ((listed_run es').printed p' hp')⟩

end Listers

end KernelModules.CompleteMonitor
