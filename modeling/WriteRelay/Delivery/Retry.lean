import WriteRelay.Delivery.Webhook

/-! The retry schedule: `retryDelay` and the Retry-After override of `ProcessOne` against
unbounded integers, and the Retry-After values that reach it. -/
namespace WriteRelay.Worker
open Clock Spool

/-- The delay over unbounded integers. -/
def scheduledDelay (initialDelay maxDelay : Int) (attempts : Nat) (retryAfter : Int) : Int :=
  min (max (min (initialDelay * 2 ^ attempts) maxDelay) retryAfter) maxDelay

/-- The delays that the loop of `retryDelay` doubles, in order. -/
def doubledDelays (maxDelay : Int64) : Nat → Int64 → List Int64
  | 0, _ => []
  | n + 1, delay =>
    if delay < maxDelay then
      if maxDelay / 2 < delay then [] else delay :: doubledDelays maxDelay n (delay * 2)
    else []

theorem toInt_mul_of_fits {a b : Int64} (low : -2 ^ 63 ≤ a.toInt * b.toInt) (high : a.toInt * b.toInt < 2 ^ 63) :
    (a * b).toInt = a.toInt * b.toInt := by
  rw [Int64.toInt_mul]
  exact Int.bmod_eq_of_le (by omega) (by omega)

theorem toInt_half (a : Int64) (h : 0 ≤ a.toInt) : (a / 2).toInt = a.toInt / 2 := by
  have two : Int64.toInt 2 = 2 := by decide
  rw [Int64.toInt_div_of_ne_right _ _ (by decide), two, Int.tdiv_eq_ediv_of_nonneg h]

theorem toInt_double {maxDelay delay : Int64} (positive : 0 < delay.toInt)
    (guarded : ¬maxDelay / 2 < delay) (nonneg : 0 ≤ maxDelay.toInt) :
    (delay * 2).toInt = delay.toInt * 2 ∧ delay.toInt * 2 ≤ maxDelay.toInt := by
  have two : Int64.toInt 2 = 2 := by decide
  rw [Int64.lt_iff_toInt_lt, toInt_half _ nonneg] at guarded
  have limit := maxDelay.toInt_lt
  have fits : delay.toInt * 2 ≤ maxDelay.toInt := by omega
  have exact := toInt_mul_of_fits (a := delay) (b := 2) (by rw [two]; omega) (by rw [two]; omega)
  rw [two] at exact
  exact ⟨exact, fits⟩

theorem retryDelayLoop_toInt {maxDelay : Int64} (n : Nat) {delay : Int64} (positive : 0 < delay.toInt)
    (below : delay.toInt ≤ maxDelay.toInt) :
    (retryDelayLoop maxDelay n delay).toInt = min (delay.toInt * 2 ^ n) maxDelay.toInt := by
  induction n generalizing delay with
  | zero =>
    have small : ¬maxDelay < delay := by rw [Int64.lt_iff_toInt_lt]; omega
    rw [retryDelayLoop, capDelay, if_neg small, pow_zero, mul_one, min_eq_left below]
  | succ n ih =>
    have grows : delay.toInt * 2 ≤ delay.toInt * 2 ^ (n + 1) := by
      rw [pow_succ', ← mul_assoc]
      exact le_mul_of_one_le_right (by omega) (one_le_pow₀ (by decide))
    rw [retryDelayLoop]
    split
    · split
      · rename_i guard
        rw [Int64.lt_iff_toInt_lt, toInt_half _ (by omega)] at guard
        rw [min_eq_right (by omega)]
      · rename_i guarded
        obtain ⟨doubled, fits⟩ := toInt_double positive guarded (by omega)
        rw [ih (by omega) (by omega), doubled, pow_succ', mul_assoc]
    · rename_i full
      rw [Int64.lt_iff_toInt_lt] at full
      have small : ¬maxDelay < delay := by rw [Int64.lt_iff_toInt_lt]; omega
      rw [capDelay, if_neg small, min_eq_right (by omega)]
      omega

theorem retryDelayLoop_doubled (maxDelay : Int64) (n : Nat) (delay : Int64) :
    retryDelayLoop maxDelay n delay =
      if (doubledDelays maxDelay n delay).length < n then maxDelay
      else capDelay maxDelay ((doubledDelays maxDelay n delay).foldl (fun _ d => d * 2) delay) := by
  induction n generalizing delay with
  | zero => rfl
  | succ n ih =>
    rw [retryDelayLoop, doubledDelays]
    split
    · split
      · exact (if_pos n.succ_pos).symm
      · rw [ih, List.length_cons, List.foldl_cons]
        simp only [Nat.add_lt_add_iff_right]
    · rename_i full
      rw [List.length_nil, if_pos n.succ_pos, capDelay]
      split
      · rfl
      · rename_i above
        exact Int64.le_antisymm (Int64.not_lt.mp above) (Int64.not_lt.mp full)

theorem doubledDelays_exact {maxDelay : Int64} (n : Nat) {delay : Int64} (positive : 0 < delay.toInt)
    (below : delay.toInt ≤ maxDelay.toInt) :
    ∀ d ∈ doubledDelays maxDelay n delay, (d * 2).toInt = d.toInt * 2 := by
  induction n generalizing delay with
  | zero => exact fun _ hd => absurd hd List.not_mem_nil
  | succ n ih =>
    intro d hd
    rw [doubledDelays] at hd
    split at hd
    · split at hd
      · contradiction
      · rename_i guarded
        obtain ⟨doubled, fits⟩ := toInt_double positive guarded (by omega)
        rcases List.mem_cons.mp hd with rfl | rest
        · exact doubled
        · exact ih (by omega) (by omega) d rest
    · contradiction

structure RetrySchedule (config : Config) : Prop where
  rescheduled : ∀ (item : Delivery) (result : AttemptResult) (now : Instant), result.success = false →
    result.retryable = true → (item.attempts : Int) + 1 < config.maxAttempts →
    recordAttempt config item result now = .failed (item.attempts + 1) false
      (now + scheduledDelay config.initialDelay.toInt config.maxDelay.toInt item.attempts
        result.retryAfter.toInt)
      (truncate result.failure maxStoredErrorBytes) result.statusCode now
  doubled : ∀ n, ∀ d ∈ doubledDelays config.maxDelay n config.initialDelay, (d * 2).toInt = d.toInt * 2
  computed : ∀ n, retryDelay config n =
    if (doubledDelays config.maxDelay n config.initialDelay).length < n then config.maxDelay
    else capDelay config.maxDelay ((doubledDelays config.maxDelay n config.initialDelay).foldl
      (fun _ d => d * 2) config.initialDelay)
  bounded : ∀ n retryAfter,
    config.initialDelay.toInt ≤ scheduledDelay config.initialDelay.toInt config.maxDelay.toInt n retryAfter ∧
      scheduledDelay config.initialDelay.toInt config.maxDelay.toInt n retryAfter ≤ config.maxDelay.toInt
  monotone : ∀ m n retryAfter retryAfter', m ≤ n → retryAfter ≤ retryAfter' →
    scheduledDelay config.initialDelay.toInt config.maxDelay.toInt m retryAfter ≤
      scheduledDelay config.initialDelay.toInt config.maxDelay.toInt n retryAfter'

section Schedule

variable {config : Config} (positive : 0 < config.initialDelay.toInt)
  (ordered : config.initialDelay.toInt ≤ config.maxDelay.toInt)
include positive ordered

theorem rescheduleDelay_toInt (item : Delivery) (result : AttemptResult) :
    (rescheduleDelay config item result).toInt = scheduledDelay config.initialDelay.toInt
      config.maxDelay.toInt item.attempts result.retryAfter.toInt := by
  have backoff := retryDelayLoop_toInt item.attempts positive ordered
  rw [rescheduleDelay, scheduledDelay, ← backoff]
  change (if retryDelay config item.attempts < result.retryAfter then
    capDelay config.maxDelay result.retryAfter else retryDelay config item.attempts).toInt =
      min (max (retryDelay config item.attempts).toInt _) _
  have capped : (retryDelay config item.attempts).toInt ≤ config.maxDelay.toInt := by
    rw [retryDelay, backoff]
    exact min_le_right _ _
  split
  · rename_i later
    rw [Int64.lt_iff_toInt_lt] at later
    rw [max_eq_right later.le, capDelay]
    split
    · rename_i above
      rw [min_eq_right (Int64.lt_iff_toInt_lt.mp above).le]
    · rename_i within
      rw [min_eq_left (not_lt.mp (Int64.lt_iff_toInt_lt.not.mp within))]
  · rename_i sooner
    rw [max_eq_left (not_lt.mp (Int64.lt_iff_toInt_lt.not.mp sooner)), min_eq_left capped]

theorem retry_schedule : RetrySchedule config where
  rescheduled item result now failed retryable left := by
    have open_ : decide (config.maxAttempts ≤ ((item.attempts + 1 : Nat) : Int)) = false :=
      decide_eq_false (by push_cast; omega)
    simp only [recordAttempt, failed, retryable, open_, Bool.not_true, Bool.or_false,
      Bool.false_eq_true, if_false, rescheduleDelay_toInt positive ordered]
  doubled n := doubledDelays_exact n positive ordered
  computed n := retryDelayLoop_doubled config.maxDelay n config.initialDelay
  bounded n retryAfter := by
    have once : config.initialDelay.toInt ≤ config.initialDelay.toInt * 2 ^ n :=
      le_mul_of_one_le_right positive.le (one_le_pow₀ (by decide))
    constructor
    · exact le_min (le_max_of_le_left (le_min once ordered)) ordered
    · exact min_le_right _ _
  monotone m n retryAfter retryAfter' more later := by
    have powers : (2 : Int) ^ m ≤ 2 ^ n := pow_le_pow_right₀ (by decide) more
    have backoff := mul_le_mul_of_nonneg_left powers positive.le
    exact min_le_min_right _ (max_le_max (min_le_min_right _ backoff) later)

end Schedule

def patientConfig : Config := ⟨1000000000, 60000000000, 5⟩

theorem retry_schedule_sample : RetrySchedule patientConfig ∧
    recordAttempt patientConfig { sampleItem with attempts := 2 } ⟨false, true, 0, 503, "unavailable"⟩ 0 =
      .failed 3 false 4000000000 (bytes "unavailable") 503 0 :=
  ⟨retry_schedule (by decide) (by decide), by decide +kernel⟩

end WriteRelay.Worker

namespace WriteRelay.Webhook
open Clock Spool Worker

def denoted (digits : List Char) : Nat := Nat.ofDigitChars 10 digits 0

/-- Every layout of `http.ParseTime` begins with the name of a weekday. -/
def NamesWeekday (parseTime : String → Option Instant) : Prop :=
  ∀ value at_, parseTime value = some at_ → ∃ c rest, value.toList = c :: rest ∧ c.isAlpha = true

theorem toInt_seconds {n : Int} (nonneg : 0 ≤ n) (within : n ≤ 9223372036) :
    (Int64.ofInt n * 1000000000).toInt = n * 1000000000 := by
  have first : (Int64.ofInt n).toInt = n := Int64.toInt_ofInt_of_le (by omega) (by omega)
  have factor : Int64.toInt 1000000000 = 1000000000 := by decide
  rw [toInt_mul_of_fits (by rw [first, factor]; omega) (by rw [first, factor]; omega), first, factor]

section Digits

variable {digits : List Char} (some_ : digits ≠ []) (decimal : ∀ c ∈ digits, c.isDigit = true)
include some_ decimal

theorem parseInt_digits : parseInt (String.ofList digits) =
    if denoted digits < 2 ^ 63 then some (denoted digits : Int) else none := by
  have unsigned : ∀ rest, digits ≠ '-' :: rest ∧ digits ≠ '+' :: rest := by
    intro rest
    constructor
    · rintro rfl
      exact absurd (decimal '-' List.mem_cons_self) (by decide)
    · rintro rfl
      exact absurd (decimal '+' List.mem_cons_self) (by decide)
  have all : digits.all Char.isDigit = true := List.all_eq_true.mpr decimal
  rw [parseInt, String.toList_ofList]
  split
  rename_i sign rest parts
  split at parts
  · exact absurd rfl (unsigned _).1
  · exact absurd rfl (unsigned _).2
  · obtain ⟨rfl, rfl⟩ := Prod.mk.inj parts
    rw [if_neg (by simp [some_, all])]
    change (if -2 ^ 63 ≤ 1 * (denoted digits : Int) ∧ 1 * (denoted digits : Int) < 2 ^ 63 then _ else _) = _
    rw [one_mul]
    by_cases small : denoted digits < 2 ^ 63
    · rw [if_pos (by omega), if_pos small]
      exact congrArg some (one_mul _)
    · rw [if_neg (by omega), if_neg small]

omit some_ in
theorem parseTime_digits {parseTime : String → Option Instant} (named : NamesWeekday parseTime) :
    parseTime (String.ofList digits) = none := by
  cases parsed : parseTime (String.ofList digits) with
  | none => rfl
  | some at_ =>
    obtain ⟨c, rest, first, alpha⟩ := named _ _ parsed
    rw [String.toList_ofList] at first
    have digit := decimal c (by rw [first]; exact List.mem_cons_self)
    have disjoint : ¬(c.isAlpha = true ∧ c.isDigit = true) := by
      simp only [Char.isAlpha, Char.isUpper, Char.isLower, Char.isDigit, Bool.or_eq_true, Bool.and_eq_true,
        decide_eq_true_eq, UInt32.le_iff_toNat_le]
      have nine : '9'.val.toNat = 57 := rfl
      have upper : 'A'.val.toNat = 65 := rfl
      have lower : 'a'.val.toNat = 97 := rfl
      omega
    exact absurd ⟨alpha, digit⟩ disjoint

theorem parseRetryAfter_digits {parseTime : String → Option Instant} (named : NamesWeekday parseTime)
    (now : Instant) : (parseRetryAfter parseTime now (String.ofList digits)).toInt =
      if denoted digits < 2 ^ 63 then min (denoted digits * 1000000000 : Int) (2 ^ 63 - 1) else 0 := by
  have given : String.ofList digits ≠ "" := by
    intro empty
    have list := congrArg String.toList empty
    rw [String.toList_ofList] at list
    exact some_ list
  rw [parseRetryAfter, if_neg given, parseInt_digits some_ decimal]
  split
  · rename_i n read
    split at read
    · cases Option.some.inj read
      rename_i small
      rw [if_pos small]
      split
      · rename_i positive
        split
        · rename_i large
          rw [min_eq_right (by omega)]
          exact Int64.toInt_maxValue
        · rename_i within
          rw [toInt_seconds positive.le (not_lt.mp within), min_eq_left (by omega)]
      · rename_i zero
        have none_ : denoted digits = 0 := by omega
        rw [none_]
        rfl
    · contradiction
  · rename_i read
    split at read
    · contradiction
    · rename_i large
      rw [if_neg large, parseTime_digits decimal named]
      rfl

end Digits

theorem parseRetryAfter_nonneg (parseTime : String → Option Instant) (now : Instant) (value : String) :
    0 ≤ (parseRetryAfter parseTime now value).toInt := by
  unfold parseRetryAfter
  split
  · decide
  · split
    · split
      · split
        · decide
        · rename_i positive within
          rw [toInt_seconds positive.le (not_lt.mp within)]
          omega
      · decide
    · split
      · decide
      · split
        · decide
        · rename_i later
          rw [Int64.lt_iff_toInt_lt] at later
          exact not_lt.mp later

structure RetryAfterSeconds (parseTime : String → Option Instant) (now : Instant) (digits : List Char) :
    Prop where
  saturates : (parseRetryAfter parseTime now (String.ofList digits)).toInt =
    min (denoted digits * 1000000000 : Int) (2 ^ 63 - 1)
  monotone : ∀ fewer, fewer ≠ [] → (∀ c ∈ fewer, c.isDigit = true) → denoted fewer ≤ denoted digits →
    (parseRetryAfter parseTime now (String.ofList fewer)).toInt ≤
      (parseRetryAfter parseTime now (String.ofList digits)).toInt
  waits : ∀ (config : Config) (item : Delivery) (result : AttemptResult), 0 < config.initialDelay.toInt →
    config.initialDelay.toInt ≤ config.maxDelay.toInt →
    result.retryAfter = parseRetryAfter parseTime now (String.ofList digits) →
    config.maxDelay.toInt ≤ denoted digits * 1000000000 →
    (rescheduleDelay config item result).toInt = config.maxDelay.toInt

/-- Seconds saturate exactly where `strconv.ParseInt` reads them. -/
theorem retry_after_seconds {parseTime : String → Option Instant} (named : NamesWeekday parseTime)
    (now : Instant) : (∀ value, 0 ≤ (parseRetryAfter parseTime now value).toInt) ∧
      ∀ digits, digits ≠ [] → (∀ c ∈ digits, c.isDigit = true) →
        (RetryAfterSeconds parseTime now digits ↔ denoted digits < 2 ^ 63) := by
  apply And.intro (parseRetryAfter_nonneg parseTime now)
  intro digits some_ decimal
  have value := parseRetryAfter_digits some_ decimal named now
  constructor
  · intro holds
    by_contra large
    rw [if_neg large] at value
    have saturated := holds.saturates
    rw [value] at saturated
    omega
  · intro small
    rw [if_pos small] at value
    constructor
    · exact value
    · intro fewer some' decimal' less
      rw [value, parseRetryAfter_digits some' decimal' named now, if_pos (less.trans_lt small)]
      omega
    · intro config item result positive ordered given least
      have limit := config.maxDelay.toInt_lt
      rw [rescheduleDelay_toInt positive ordered, given, value, scheduledDelay]
      exact min_eq_right (le_max_of_le_right (le_min least (by omega)))

theorem retry_after_seconds_minute : RetryAfterSeconds (fun _ => none) 0 ['6', '0'] ∧
    (parseRetryAfter (fun _ => none) 0 "60").toInt = 60000000000 := by
  have named : NamesWeekday (fun _ => none) := by
    intro value at_ parsed
    contradiction
  constructor
  · exact ((retry_after_seconds named 0).2 ['6', '0'] (by simp) (by simp)).mpr
      (by decide +kernel)
  · decide +kernel

theorem retry_after_seconds_dropped : (parseRetryAfter (fun _ => none) 0 "9223372036854775808").toInt = 0 ∧
    denoted "9223372036854775808".toList = 2 ^ 63 ∧
    (parseRetryAfter (fun _ => none) 0 "9223372036854775807").toInt = 2 ^ 63 - 1 ∧
    (rescheduleDelay patientConfig sampleItem
      ⟨false, true, parseRetryAfter (fun _ => none) 0 "9223372036854775808", 503, ""⟩).toInt = 1000000000 := by
  decide +kernel

end WriteRelay.Webhook
