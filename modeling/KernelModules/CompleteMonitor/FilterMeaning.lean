import KernelModules.CompleteMonitor.FilterText

/-!
What the filter means.

`FilterConfig.Means` reads a configuration as `filter_show` prints it: a zero or an
empty name sets no condition, and the limits are numbers of seconds. The code
compares an `int` limit with an `unsigned long` lifetime, so a negative limit
becomes a very large one.
-/

namespace KernelModules.CompleteMonitor

open Lib

variable {K : Kernel}

/-! ### Lifetimes as numbers -/

/-- The jiffies between the two times of a record, on a clock that wraps. -/
def ProcessRecord.elapsed (record : ProcessRecord K) : ℕ :=
  (record.endTime.toNat + (2 ^ K.bitsPerLong - record.startTime.toNat)) % 2 ^ K.bitsPerLong

/-- The lifetime of a record in seconds. -/
def ProcessRecord.seconds (record : ProcessRecord K) : ℕ := record.elapsed / K.HZ

theorem ProcessRecord.toNat_lifetime (record : ProcessRecord K) :
    record.lifetime.toNat = record.seconds := by
  have hHZ : (BitVec.ofNat K.bitsPerLong K.HZ).toNat = K.HZ := by
    rw [BitVec.toNat_ofNat, Nat.mod_eq_of_lt K.HZ_lt]
  rw [lifetime, BitVec.toNat_udiv, BitVec.toNat_sub, hHZ, seconds, elapsed, Nat.add_comm]

theorem ProcessRecord.lifetime_eq (record : ProcessRecord K) :
    record.lifetime = BitVec.ofNat _ record.seconds := by
  rw [← record.toNat_lifetime, BitVec.ofNat_toNat, BitVec.setWidth_eq]

/-! ### What the code computes -/

/-- An `int` that is converted to `unsigned long`. -/
def asULong (K : Kernel) (x : CInt) : ℤ := x.toInt % 2 ^ K.bitsPerLong

theorem toNat_signExtend (x : CInt) :
    ((x.signExtend K.bitsPerLong).toNat : ℤ) = asULong K x := by
  have hpos : (0 : ℤ) < (2 ^ K.bitsPerLong : ℕ) := Int.natCast_pos.mpr (Nat.two_pow_pos _)
  rw [BitVec.signExtend, BitVec.toNat_ofInt, Int.toNat_of_nonneg (Int.emod_nonneg _ hpos.ne')]
  rfl

/-- An `int` is kept if it is not negative. -/
theorem asULong_cases (K : Kernel) (x : CInt) :
    (0 ≤ x.toInt ∧ asULong K x = x.toInt) ∨
      (x.toInt < 0 ∧ asULong K x = 2 ^ K.bitsPerLong + x.toInt ∧ 0 < asULong K x) := by
  have hwide : (2 : ℤ) ^ 32 ≤ 2 ^ K.bitsPerLong := pow_le_pow_right₀ (by decide) K.bitsPerLong_ge
  obtain ⟨hge, hlt⟩ := fitsInt_toInt x
  by_cases hneg : x.toInt < 0
  · have hvalue : asULong K x = 2 ^ K.bitsPerLong + x.toInt := by
      rw [asULong, ← Int.add_emod_left, Int.emod_eq_of_lt (by omega) (by omega)]
    exact .inr ⟨hneg, hvalue, by omega⟩
  · exact .inl ⟨by omega, Int.emod_eq_of_lt (by omega) (by omega)⟩

theorem toInt_eq_zero_iff {x : CInt} : x.toInt = 0 ↔ x = 0 := by
  rw [← BitVec.toInt_inj]
  rfl

/-- The pid, the parent's pid and the command name that a configuration asks for. -/
structure FilterConfig.Names (filter : FilterConfig) (record : ProcessRecord K) : Prop where
  pid : filter.targetPid = 0 ∨ record.pid = filter.targetPid
  ppid : filter.targetPpid = 0 ∨ record.ppid = filter.targetPpid
  comm : filter.targetComm.str = [] ∨ record.comm.str = filter.targetComm.str

/-- The limits as the code compares them. -/
structure FilterConfig.Admits (K : Kernel) (filter : FilterConfig) (seconds : ℕ) : Prop where
  min : filter.minLifetime = 0 ∨ asULong K filter.minLifetime ≤ seconds
  max : filter.maxLifetime = 0 ∨ seconds ≤ asULong K filter.maxLifetime

/-- A test that makes the filter return 0. -/
theorem return_false_iff {p : Prop} [Decidable p] {rest : Bool} :
    (if p then false else rest) = true ↔ ¬ p ∧ rest = true := by
  split
  · rename_i hp
    exact iff_of_false Bool.false_ne_true fun h => h.1 hp
  · rename_i hp
    exact (and_iff_right hp).symm

/-- The comparison of the command names. -/
theorem strncmp_comm_iff (a b : CharArray TASK_COMM_LEN) :
    strncmp a.bytes b.bytes TASK_COMM_LEN = 0 ↔ a.str = b.str := by
  have hwhole : ∀ c : CharArray TASK_COMM_LEN, (cstr c.bytes).take TASK_COMM_LEN = c.str :=
    fun c => List.take_of_length_le ((List.takeWhile_sublist _).length_le.trans c.length_eq.le)
  rw [strncmp_eq_zero_iff, hwhole, hwhole]

/-- `process_matches_filter`, condition by condition. -/
theorem processMatchesFilter_iff (filter : FilterConfig) (record : ProcessRecord K) :
    processMatchesFilter filter record = true ↔
      (filter.enabled = true →
        filter.Names record ∧ (record.status = 0 → filter.Admits K record.seconds)) := by
  have hmin : record.lifetime < filter.minLifetime.signExtend _ ↔
      ¬ asULong K filter.minLifetime ≤ record.seconds := by
    rw [BitVec.lt_def, record.toNat_lifetime, ← toNat_signExtend]
    omega
  have hmax : record.lifetime > filter.maxLifetime.signExtend _ ↔
      ¬ record.seconds ≤ asULong K filter.maxLifetime := by
    rw [gt_iff_lt, BitVec.lt_def, record.toNat_lifetime, ← toNat_signExtend]
    omega
  have hnames : filter.Names record ↔
      ¬ (filter.targetPid ≠ 0 ∧ record.pid ≠ filter.targetPid) ∧
      ¬ (filter.targetPpid ≠ 0 ∧ record.ppid ≠ filter.targetPpid) ∧
      ¬ (strlen filter.targetComm.bytes ≠ 0 ∧
        strncmp record.comm.bytes filter.targetComm.bytes TASK_COMM_LEN ≠ 0) := by
    simp only [ne_eq, not_and_or, not_not, strlen_eq_zero_iff, strncmp_comm_iff]
    exact ⟨fun h => ⟨h.pid, h.ppid, h.comm⟩, fun h => ⟨h.1, h.2.1, h.2.2⟩⟩
  have hadmits : filter.Admits K record.seconds ↔
      ¬ (filter.minLifetime ≠ 0 ∧ record.lifetime < filter.minLifetime.signExtend _) ∧
      ¬ (filter.maxLifetime ≠ 0 ∧ record.lifetime > filter.maxLifetime.signExtend _) := by
    simp only [hmin, hmax, ne_eq, not_and_or, not_not]
    exact ⟨fun h => ⟨h.min, h.max⟩, fun h => ⟨h.1, h.2⟩⟩
  rw [hnames, hadmits, processMatchesFilter]
  cases filter.enabled with
  | false => exact iff_of_true rfl fun h => by cases h
  | true =>
      rw [if_neg (by decide), return_false_iff, return_false_iff, return_false_iff,
        forall_prop_of_true rfl, and_assoc, and_assoc]
      refine and_congr_right' (and_congr_right' (and_congr_right' ?_))
      by_cases hstatus : record.status = 0
      · rw [if_pos hstatus, return_false_iff, return_false_iff, forall_prop_of_true hstatus,
          and_iff_left rfl]
      · rw [if_neg hstatus]
        exact iff_of_true rfl fun h => absurd h hstatus

/-! ### What it means -/

/-- The limits as `filter_show` prints them: 0 is none. -/
structure FilterConfig.Within (filter : FilterConfig) (seconds : ℕ) : Prop where
  min : filter.minLifetime.toInt = 0 ∨ filter.minLifetime.toInt ≤ seconds
  max : filter.maxLifetime.toInt = 0 ∨ seconds ≤ filter.maxLifetime.toInt

/-- What a configuration means: an enabled one asks for the record, and for its
lifetime if it has exited. -/
def FilterConfig.Means (filter : FilterConfig) (record : ProcessRecord K) : Prop :=
  filter.enabled = true →
    filter.Names record ∧ (record.status = 0 → filter.Within record.seconds)

/-- No negative limit decides about the lifetime: where the least one is negative,
the lifetime reaches it as an `unsigned long` or is above the largest one; where the
largest one is negative, the lifetime is above it as an `unsigned long` or below the
least one. -/
structure FilterConfig.LimitsAgree (K : Kernel) (filter : FilterConfig) (seconds : ℕ) :
    Prop where
  min : filter.minLifetime.toInt < 0 → asULong K filter.minLifetime ≤ seconds ∨
    filter.maxLifetime.toInt ≠ 0 ∧ filter.maxLifetime.toInt < seconds
  max : filter.maxLifetime.toInt < 0 → asULong K filter.maxLifetime < seconds ∨
    filter.minLifetime.toInt ≠ 0 ∧ seconds < asULong K filter.minLifetime

theorem FilterConfig.admits_iff_within_iff (filter : FilterConfig) (seconds : ℕ) :
    (filter.Admits K seconds ↔ filter.Within seconds) ↔ filter.LimitsAgree K seconds := by
  have hadmits : filter.Admits K seconds ↔
      (filter.minLifetime.toInt = 0 ∨ asULong K filter.minLifetime ≤ seconds) ∧
      (filter.maxLifetime.toInt = 0 ∨ seconds ≤ asULong K filter.maxLifetime) := by
    rw [toInt_eq_zero_iff, toInt_eq_zero_iff]
    exact ⟨fun h => ⟨h.min, h.max⟩, fun h => ⟨h.1, h.2⟩⟩
  have hwithin : filter.Within seconds ↔
      (filter.minLifetime.toInt = 0 ∨ filter.minLifetime.toInt ≤ seconds) ∧
      (filter.maxLifetime.toInt = 0 ∨ seconds ≤ filter.maxLifetime.toInt) :=
    ⟨fun h => ⟨h.min, h.max⟩, fun h => ⟨h.1, h.2⟩⟩
  have hagree : filter.LimitsAgree K seconds ↔
      (filter.minLifetime.toInt < 0 → asULong K filter.minLifetime ≤ seconds ∨
        filter.maxLifetime.toInt ≠ 0 ∧ filter.maxLifetime.toInt < seconds) ∧
      (filter.maxLifetime.toInt < 0 → asULong K filter.maxLifetime < seconds ∨
        filter.minLifetime.toInt ≠ 0 ∧ seconds < asULong K filter.minLifetime) :=
    ⟨fun h => ⟨h.min, h.max⟩, fun h => ⟨h.1, h.2⟩⟩
  rw [hadmits, hwithin, hagree]
  rcases asULong_cases K filter.minLifetime with ⟨hmin, hminu⟩ | ⟨hmin, hminu, hminpos⟩
  · rcases asULong_cases K filter.maxLifetime with ⟨hmax, hmaxu⟩ | ⟨hmax, hmaxu, hmaxpos⟩
    · rw [hminu, hmaxu]
      exact iff_of_true Iff.rfl ⟨fun h => absurd h (not_lt.mpr hmin),
        fun h => absurd h (not_lt.mpr hmax)⟩
    · omega
  · rcases asULong_cases K filter.maxLifetime with ⟨hmax, hmaxu⟩ | ⟨hmax, hmaxu, hmaxpos⟩
    · omega
    · omega

/-- **The filter.** A record is accepted exactly if the configuration means it, unless
the configuration is enabled, asks for this record by name, the record has exited, and
a negative limit decides about its lifetime. -/
theorem means_iff (filter : FilterConfig) (record : ProcessRecord K) :
    (processMatchesFilter filter record = true ↔ filter.Means record) ↔
      (filter.enabled = true → filter.Names record → record.status = 0 →
        filter.LimitsAgree K record.seconds) := by
  rw [processMatchesFilter_iff, FilterConfig.Means, ← filter.admits_iff_within_iff]
  constructor
  · intro h henabled hnames hstatus
    constructor
    · intro hadmits
      exact (h.mp (fun _ => ⟨hnames, fun _ => hadmits⟩) henabled).2 hstatus
    · intro hwithin
      exact (h.mpr (fun _ => ⟨hnames, fun _ => hwithin⟩) henabled).2 hstatus
  · intro h
    constructor
    · intro hcode henabled
      obtain ⟨hnames, hlimits⟩ := hcode henabled
      exact ⟨hnames, fun hstatus => (h henabled hnames hstatus).mp (hlimits hstatus)⟩
    · intro hmeans henabled
      obtain ⟨hnames, hlimits⟩ := hmeans henabled
      exact ⟨hnames, fun hstatus => (h henabled hnames hstatus).mpr (hlimits hstatus)⟩

/-- `minlife -1` rejects every exited record. -/
theorem not_means_of_minlife :
    ¬ ∀ (ws : List UserWrite) (record : ProcessRecord .x86_64),
      processMatchesFilter (FilterConfig.reached .x86_64 ws) record = true ↔
        (FilterConfig.reached .x86_64 ws).Means record := by
  intro h
  have hrecord := h [commandWrite (ascii "minlife -1".toList) true,
    commandWrite (ascii "enable".toList) true] { ProcessRecord.zero .x86_64 with pid := 1 }
  have hcode : processMatchesFilter (FilterConfig.reached .x86_64
      [commandWrite (ascii "minlife -1".toList) true, commandWrite (ascii "enable".toList) true])
      { ProcessRecord.zero .x86_64 with pid := 1 } = false := by decide
  rw [hcode] at hrecord
  refine Bool.false_ne_true (hrecord.mpr fun _ => ⟨⟨?_, ?_, ?_⟩, fun _ => ⟨?_, ?_⟩⟩)
  · decide
  · decide
  · decide
  · decide
  · decide

end KernelModules.CompleteMonitor
