import KernelModules.CompleteMonitor.Store

/-!
The listing that `processes_show` prints.

The loop walks the records in order of arrival, skips those the filter rejects
and leaves at the fiftieth line. What it prints under one filter is an initial
part of what the filter selects.
-/

namespace KernelModules.CompleteMonitor

open Lib

variable {K : Kernel}

/-- The lines after which the loop leaves. -/
abbrev MAX_LISTED : ℕ := 50

/-- A line of the listing. -/
structure Row (K : Kernel) where
  pid : PidT
  ppid : PidT
  comm : List UInt8
  startTime : ULong K
  endTime : ULong K
  running : Bool
  exitCode : CInt
  lifetime : ULong K
  deriving DecidableEq

/-- The line of a record. -/
def ProcessRecord.row (record : ProcessRecord K) : Row K where
  pid := record.pid
  ppid := record.ppid
  comm := record.comm.str
  startTime := record.startTime
  endTime := record.endTime
  running := record.status ≠ 0
  exitCode := record.exitCode
  lifetime :=
    if record.status = 0 ∧ record.endTime > record.startTime then record.lifetime else 0

/-- What the loop has printed and counted: the lines, the total that is printed
after the unlock, and whether the notice of a cut has been given. -/
structure Listing (K : Kernel) where
  rows : List (Row K)
  count : ℤ
  cut : Bool
  deriving DecidableEq

namespace Listing

def empty (K : Kernel) : Listing K := ⟨[], 0, false⟩

/-- One turn of the loop. -/
def visit (filter : FilterConfig) (record : ProcessRecord K) (l : Listing K) : Listing K :=
  if !processMatchesFilter filter record then l
  else
    { rows := l.rows ++ [record.row]
      count := l.count + 1
      cut := l.count + 1 ≥ MAX_LISTED }

end Listing

/-- The loop of `processes_show`. Past the notice it is left. -/
def listRecords (filter : FilterConfig) : List (ProcessRecord K) → Listing K → Listing K
  | [], l => l
  | record :: records, l =>
      if l.cut then l else listRecords filter records (l.visit filter record)

/-- `processes_show` with nothing in between. -/
def processesShow (s : Monitor K) : Listing K :=
  listRecords s.filter (s.processList.map s.mem) (.empty K)

/-! ### What is listed -/

/-- The lines of the records that a filter accepts. -/
def selected (filter : FilterConfig) (records : List (ProcessRecord K)) : List (Row K) :=
  (records.filter (processMatchesFilter filter)).map ProcessRecord.row

@[simp] theorem selected_nil (filter : FilterConfig) :
    selected filter ([] : List (ProcessRecord K)) = [] := rfl

@[simp] theorem selected_append (filter : FilterConfig) (before after : List (ProcessRecord K)) :
    selected filter (before ++ after) = selected filter before ++ selected filter after := by
  simp [selected]

theorem selected_cons (filter : FilterConfig) (record : ProcessRecord K)
    (records : List (ProcessRecord K)) :
    selected filter (record :: records) =
      (if processMatchesFilter filter record then [record.row] else []) ++
        selected filter records := by
  by_cases h : processMatchesFilter filter record = true
  · simp [selected, h]
  · simp [selected, h]

namespace Listing

/-- The count counts the lines, and the notice stands at the limit. -/
structure Counted (l : Listing K) : Prop where
  count : l.count = l.rows.length
  cut : l.cut = true ↔ MAX_LISTED ≤ l.rows.length
  bound : l.rows.length ≤ MAX_LISTED

theorem counted_empty (K : Kernel) : Counted (empty K) :=
  ⟨rfl, by simp [empty], Nat.zero_le _⟩

theorem Counted.lt_of_not_cut {l : Listing K} (h : l.Counted) (hcut : l.cut = false) :
    l.rows.length < MAX_LISTED := by
  have hnot : ¬ MAX_LISTED ≤ l.rows.length := by
    rw [← h.cut, hcut]
    exact Bool.false_ne_true
  omega

/-- Past the limit nothing is added. -/
theorem Counted.take_rows {l : Listing K} (h : l.Counted) (hcut : l.cut = true)
    (rows : List (Row K)) : (l.rows ++ rows).take MAX_LISTED = l.rows := by
  have hfull : MAX_LISTED = l.rows.length := Nat.le_antisymm (h.cut.mp hcut) h.bound
  rw [hfull, List.take_left]

theorem rows_visit (filter : FilterConfig) (record : ProcessRecord K) (l : Listing K) :
    (l.visit filter record).rows = l.rows ++ selected filter [record] := by
  rw [selected_cons, selected_nil, List.append_nil, visit]
  cases processMatchesFilter filter record with
  | false => exact (List.append_nil _).symm
  | true => rfl

theorem Counted.visit {l : Listing K} (h : l.Counted) (hcut : l.cut = false)
    (filter : FilterConfig) (record : ProcessRecord K) : (l.visit filter record).Counted := by
  have hlt := h.lt_of_not_cut hcut
  have hcount := h.count
  rw [Listing.visit]
  split
  · exact h
  · refine ⟨?_, ?_, ?_⟩
    · rw [hcount, List.length_append]
      rfl
    · rw [hcount, List.length_append, decide_eq_true_iff]
      exact Int.ofNat_le (m := MAX_LISTED) (n := l.rows.length + 1)
    · rw [List.length_append]
      exact hlt

end Listing

/-- A loop that is left alone prints, up to the limit, what the filter selects. -/
theorem rows_listRecords (filter : FilterConfig) (records : List (ProcessRecord K))
    {l : Listing K} (h : l.Counted) :
    (listRecords filter records l).rows = (l.rows ++ selected filter records).take MAX_LISTED := by
  induction records generalizing l with
  | nil =>
      rw [selected_nil, List.append_nil, List.take_of_length_le h.bound]
      rfl
  | cons record records ih =>
      rw [listRecords]
      split
      · -- the limit is reached, and what follows is not looked at
        rename_i hcut
        exact (h.take_rows hcut _).symm
      · rename_i hcut
        rw [ih (h.visit (by simpa using hcut) filter record), Listing.rows_visit,
          List.append_assoc, ← selected_append]
        rfl

theorem counted_listRecords (filter : FilterConfig) (records : List (ProcessRecord K))
    {l : Listing K} (h : l.Counted) : (listRecords filter records l).Counted := by
  induction records generalizing l with
  | nil => exact h
  | cons record records ih =>
      rw [listRecords]
      split
      · exact h
      · rename_i hcut
        exact ih (h.visit (by simpa using hcut) filter record)

/-! ### The total -/

/-- How many records a filter accepts. -/
def accepted (filter : FilterConfig) (records : List (ProcessRecord K)) : ℕ :=
  records.countP (processMatchesFilter filter)

theorem length_selected (filter : FilterConfig) (records : List (ProcessRecord K)) :
    (selected filter records).length = accepted filter records := by
  rw [selected, List.length_map, accepted, List.countP_eq_length_filter]

/-- A complete listing: the first accepted records, the notice if there are more, and
how many there are. -/
structure Listing.Complete (filter : FilterConfig) (records : List (ProcessRecord K))
    (l : Listing K) : Prop where
  rows : l.rows = (selected filter records).take MAX_LISTED
  notice : l.cut = true ↔ MAX_LISTED < accepted filter records
  total : l.count = accepted filter records

/-- **The listing.** It is complete exactly when fewer than 50 records are accepted: at
50 the notice is printed already, and above 50 the total is 50. -/
theorem complete_iff (filter : FilterConfig) (records : List (ProcessRecord K)) :
    (listRecords filter records (.empty K)).Complete filter records ↔
      accepted filter records < MAX_LISTED := by
  have hrows := rows_listRecords filter records (Listing.counted_empty K)
  have hcounted := counted_listRecords filter records (Listing.counted_empty K)
  have hempty : (Listing.empty K).rows ++ selected filter records = selected filter records :=
    List.nil_append _
  have hlen : (listRecords filter records (.empty K)).rows.length =
      min MAX_LISTED (accepted filter records) := by
    rw [hrows, hempty, List.length_take, length_selected]
  constructor
  · intro h
    have htotal := h.total
    have hnotice := hcounted.cut.symm.trans h.notice
    rw [hcounted.count, hlen] at htotal
    rw [hlen] at hnotice
    omega
  · intro h
    refine ⟨by rw [hrows, hempty], ?_, ?_⟩
    · rw [hcounted.cut, hlen]
      omega
    · rw [hcounted.count, hlen]
      omega

/-- With 50 records the notice is printed, and there are no more. -/
theorem not_complete_of_fifty :
    ¬ ∀ (filter : FilterConfig) (records : List (ProcessRecord .x86_64)),
      (listRecords filter records (.empty .x86_64)).Complete filter records := by
  intro h
  have hnotice := (h .zero (List.replicate 50 (.zero .x86_64))).notice
  revert hnotice
  decide

end KernelModules.CompleteMonitor
