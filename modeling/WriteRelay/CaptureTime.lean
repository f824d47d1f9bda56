import WriteRelay.Base.Cuts
import WriteRelay.Rfc3339

/-! The texts of `time.RFC3339Nano`: they read back as the instant that was written, and
their byte order is chronological only between different whole seconds. -/
namespace WriteRelay.Clock
open Calendar Digits

theorem readDigits_succ (w acc : Nat) (text : List Char) :
    readDigits (w + 1) acc text = (readDigits w acc text).bind fun r => readDigits 1 r.1 r.2 := by
  induction w generalizing acc text with
  | zero => rfl
  | succ w ih =>
    cases text with
    | nil => rfl
    | cons c rest =>
      rw [readDigits, readDigits]
      cases decimal c with
      | none => rfl
      | some d => exact ih (10 * acc + d) rest

theorem decimal_digit (n : Nat) : decimal (digit n) = some (n % 10) := by
  rw [decimal, if_pos (digit_range n), digit_value]

theorem readDigits_padded {w n : Nat} (h : n < 10 ^ w) (rest : List Char) :
    readDigits w 0 (padded w n ++ rest) = some (n, rest) := by
  induction w generalizing n rest with
  | zero =>
    have zero : n = 0 := by simpa using h
    rw [zero]
    rfl
  | succ w ih =>
    have high : n / 10 < 10 ^ w := by rw [pow_succ] at h; omega
    rw [readDigits_succ, padded, List.append_assoc, ih high]
    simp only [Option.bind_some, List.singleton_append, readDigits, decimal_digit]
    rw [Nat.div_add_mod]

theorem expect_self (c : Char) (rest : List Char) : expect c (c :: rest) = some rest := if_pos rfl

theorem fraction_eq (t : Instant) :
    fraction t = if nanosecond t = 0 then [] else '.' :: trimmed (padded 9 (nanosecond t)) := rfl

theorem trimmed_range {t : Instant} {c : Char} (h : c ∈ trimmed (padded 9 (nanosecond t))) :
    '0' ≤ c ∧ c ≤ '9' := by
  obtain ⟨k, parts⟩ := trimmed_append (padded 9 (nanosecond t))
  apply padded_range (w := 9) (n := nanosecond t)
  rw [parts]
  exact List.mem_append_left _ h

theorem nanoseconds_eq {t : Instant} {digits : List Char}
    (nine : (digits ++ List.replicate 9 '0').take 9 = padded 9 (nanosecond t)) :
    nanoseconds digits = nanosecond t := by
  have value := digitsValue_padded 9 (nanosecond t) 0 (nanosecond_lt t)
  rw [Nat.zero_mul, Nat.zero_add] at value
  rw [nanoseconds, nine]
  exact value

theorem nanoseconds_trimmed (t : Instant) :
    nanoseconds (trimmed (padded 9 (nanosecond t))) = nanosecond t := by
  have refilled := take_trimmed (padded 9 (nanosecond t))
  rw [padded_length] at refilled
  exact nanoseconds_eq refilled

theorem nanoseconds_nil : nanoseconds [] = 0 := by decide

theorem trimmed_ne_nil {t : Instant} (positive : nanosecond t ≠ 0) :
    trimmed (padded 9 (nanosecond t)) ≠ [] := by
  intro empty
  have value := nanoseconds_trimmed t
  rw [empty, nanoseconds_nil] at value
  exact positive value.symm

theorem isDecimal_of_range {c : Char} (h : '0' ≤ c ∧ c ≤ '9') : isDecimal c = true := by
  rw [isDecimal, decimal, if_pos h]
  rfl

theorem readFraction_point {digits : List Char} (some_ : digits ≠ [])
    (decimals : ∀ c ∈ digits, isDecimal c = true) :
    readFraction true ('.' :: (digits ++ ['Z'])) = (digits, ['Z']) := by
  have taken : (digits ++ ['Z']).takeWhile isDecimal = digits := by
    rw [List.takeWhile_append_of_pos decimals]
    exact List.append_nil _
  have left : (digits ++ ['Z']).dropWhile isDecimal = ['Z'] := by
    rw [List.dropWhile_append_of_pos decimals]
    rfl
  cases digits with
  | nil => contradiction
  | cons d rest =>
    have first := decimals d List.mem_cons_self
    simp only [List.cons_append] at taken left ⊢
    simp only [readFraction, fractionMark, first, taken, left]
    rfl

theorem readFraction_fraction (t : Instant) : ∃ digits,
    readFraction true (fraction t ++ ['Z']) = (digits, ['Z']) ∧ nanoseconds digits = nanosecond t := by
  rw [fraction_eq]
  split
  · rename_i zero
    exact ⟨[], rfl, nanoseconds_nil.trans zero.symm⟩
  · rename_i positive
    exact ⟨_, readFraction_point (trimmed_ne_nil positive) (fun c hc => isDecimal_of_range (trimmed_range hc)),
      nanoseconds_trimmed t⟩

def wholeValues (t : Instant) : List Nat := (date t).year.toNat :: secondValues t

def wholeFields : List (Nat × List Char) := (4, ['-']) :: secondFields []

theorem wholeValues_fit {t : Instant} (h : FourDigitYear t) : Fits wholeFields (wholeValues t) :=
  .cons h.lt (secondValues_fit t [])

theorem formatRFC3339Nano_eq {t : Instant} (h : FourDigitYear t) :
    (formatRFC3339Nano t).toList = render wholeFields (wholeValues t) ++ (fraction t ++ ['Z']) := by
  simp only [formatRFC3339Nano, String.toList_ofList, yearText_padded h, wholeFields, wholeValues, render,
    List.append_assoc, List.cons_append, List.nil_append]

section RoundTrip

variable {t : Instant}

theorem readStamp_whole (h : FourDigitYear t) {tail digits : List Char}
    (read : readFraction true tail = (digits, ['Z'])) :
    readStamp true (render wholeFields (wholeValues t) ++ tail) = some ⟨(date t).year.toNat, (date t).month,
      (date t).day, secondOfDay t / 3600, secondOfDay t % 3600 / 60, secondOfDay t % 60, digits, false, 0, 0⟩ := by
  have fits := wholeValues_fit h
  simp only [Fits, wholeFields, wholeValues, secondFields, secondValues, List.forall₂_cons] at fits
  obtain ⟨year, month, day, hour, minute, second, -⟩ := fits
  simp only [wholeFields, wholeValues, secondFields, secondValues, render, List.append_assoc,
    List.cons_append, List.nil_append, List.append_nil]
  simp only [readStamp, Option.bind_eq_bind, readHour, readDigits_padded year, readDigits_padded month,
    readDigits_padded day, readDigits_padded hour, readDigits_padded minute, readDigits_padded second,
    expect_self, Option.bind_some, Option.some_or, read]
  rfl

theorem parseRFC3339_whole (h : FourDigitYear t) {tail digits : List Char}
    (read : readFraction true tail = (digits, ['Z'])) (value : nanoseconds digits = nanosecond t)
    {text : String} (written : text.toList = render wholeFields (wholeValues t) ++ tail) :
    parseRFC3339 text = some t := by
  have valid := valid_ofDay (t / 1000000000 / 86400 + epochDay)
  rw [← date] at valid
  have year : ((date t).year.toNat : Int) = (date t).year := Int.toNat_of_nonneg h.1
  have clock : secondOfDay t < 86400 := by simp only [secondOfDay]; omega
  rw [parseRFC3339, written, readStamp_whole h read, Option.bind_some, if_pos]
  · have day : dayNumber (date t) = t / 1000000000 / 86400 + epochDay := by simp [date]
    have seconds : secondOfDay t / 3600 * 3600 + secondOfDay t % 3600 / 60 * 60 + secondOfDay t % 60 =
        secondOfDay t := by omega
    have instant : ((dayNumber (date t) - epochDay) * 86400 + (secondOfDay t : Nat) - 0) * 1000000000 +
        (nanosecond t : Int) = t := by
      rw [day]
      simp only [secondOfDay, nanosecond]
      omega
    simp only [Stamp.instant, Stamp.offset, value, year, seconds]
    exact congrArg some instant
  · simp only [Stamp.civil, year, decide_eq_true_eq]
    have := valid.month_pos
    have := valid.month_le
    have := valid.day_pos
    have := valid.day_le
    omega

/-- What `PersistCommittedBatch` wrote is what `nullableTime` reads. -/
theorem parseRFC3339_formatRFC3339Nano (h : FourDigitYear t) :
    parseRFC3339 (formatRFC3339Nano t) = some t := by
  obtain ⟨digits, read, value⟩ := readFraction_fraction t
  exact parseRFC3339_whole h read value (formatRFC3339Nano_eq h)

theorem formatTimestamp_whole (h : FourDigitYear t) : (formatTimestamp t).toList =
    render wholeFields (wholeValues t) ++ ('.' :: (padded 9 (nanosecond t) ++ ['Z'])) := by
  rw [formatTimestamp_eq h]
  simp [fields, values, wholeFields, wholeValues, secondFields, secondValues, render]

theorem parseRFC3339_formatTimestamp (h : FourDigitYear t) : parseRFC3339 (formatTimestamp t) = some t := by
  have some_ : padded 9 (nanosecond t) ≠ [] := by
    rw [← List.length_pos_iff, padded_length]
    decide
  exact parseRFC3339_whole h (readFraction_point some_ fun c hc => isDecimal_of_range (padded_range hc))
    (nanoseconds_eq (List.take_left' (padded_length 9 _))) (formatTimestamp_whole h)

end RoundTrip

section Years

def yearDigits (n : Nat) : List Char := if n < 10000 then padded 4 n else Nat.toDigits 10 n

theorem yearText_eq (y : Int) :
    yearText y = if y < 0 then '-' :: yearDigits y.natAbs else yearDigits y.natAbs := rfl

theorem yearDigits_range {n : Nat} {c : Char} (h : c ∈ yearDigits n) : '0' ≤ c ∧ c ≤ '9' := by
  unfold yearDigits at h
  split at h
  · exact padded_range h
  · have digit := Nat.isDigit_of_mem_toDigits (by decide) (by decide) h
    simp only [Char.isDigit, Bool.and_eq_true, decide_eq_true_eq] at digit
    exact digit

theorem hyphen_not_mem_yearDigits (n : Nat) : '-' ∉ yearDigits n := by
  intro h
  exact absurd (yearDigits_range h) (by decide)

theorem yearDigits_length_le_iff (n : Nat) : (yearDigits n).length ≤ 4 ↔ n < 10000 := by
  unfold yearDigits
  split
  · rename_i small
    simp [small]
  · exact Nat.length_toDigits_le_iff (by decide) (by decide)

theorem yearDigits_inj {m n : Nat} (h : yearDigits m = yearDigits n) : m = n := by
  have widths : m < 10000 ↔ n < 10000 := by
    rw [← yearDigits_length_le_iff, ← yearDigits_length_le_iff, h]
  by_cases small : m < 10000
  · rw [yearDigits, yearDigits, if_pos small, if_pos (widths.mp small)] at h
    exact (padded_inj 4 m n small (widths.mp small)).mp h
  · rw [yearDigits, yearDigits, if_neg small, if_neg (fun is => small (widths.mpr is))] at h
    have value := congrArg (Nat.ofDigitChars 10 · 0) h
    simpa only [Nat.ofDigitChars_ten_toDigits] using value

theorem readDigits_drop {w acc v : Nat} {text rest : List Char} (h : readDigits w acc text = some (v, rest)) :
    rest = text.drop w := by
  induction w generalizing acc text with
  | zero => exact (Prod.mk.inj (Option.some.inj h)).2.symm
  | succ w ih =>
    cases text with
    | nil => contradiction
    | cons c text =>
      obtain ⟨d, _, h⟩ := Option.bind_eq_some_iff.mp h
      exact ih h

theorem readStamp_wide {lenient : Bool} {y : Int} (wide : ¬(0 ≤ y ∧ y ≤ 9999)) (rest : List Char) :
    readStamp lenient (yearText y ++ '-' :: rest) = none := by
  rw [yearText_eq]
  split
  · rfl
  · rename_i nonneg
    have large : ¬y.natAbs < 10000 := by omega
    rw [← yearDigits_length_le_iff, not_le] at large
    apply Option.eq_none_iff_forall_ne_some.mpr
    intro s h
    simp only [readStamp, Option.bind_eq_bind] at h
    obtain ⟨⟨year, after⟩, digits, h⟩ := Option.bind_eq_some_iff.mp h
    obtain ⟨_, hyphen, _⟩ := Option.bind_eq_some_iff.mp h
    rw [readDigits_drop digits, List.drop_append_of_le_length large.le,
      List.drop_eq_getElem_cons large, List.cons_append] at hyphen
    simp only [expect] at hyphen
    split at hyphen
    · rename_i fifth
      have range := yearDigits_range (List.getElem_mem large)
      rw [fifth] at range
      exact absurd range (by decide)
    · contradiction

theorem parseRFC3339_wide {t : Instant} (wide : ¬FourDigitYear t) : parseRFC3339 (formatRFC3339Nano t) = none := by
  rw [parseRFC3339, formatRFC3339Nano, String.toList_ofList, readStamp_wide wide]
  rfl

theorem fraction_inj {a b : Instant} (h : fraction a = fraction b) : nanosecond a = nanosecond b := by
  obtain ⟨digits, read, value⟩ := readFraction_fraction a
  obtain ⟨digits', read', value'⟩ := readFraction_fraction b
  rw [h, read'] at read
  rw [← value, ← value', (Prod.mk.inj read).1]

theorem yearDigits_first {n : Nat} {tail tail' : List Char} : yearDigits n ++ tail ≠ '-' :: tail' := by
  intro h
  cases digits : yearDigits n with
  | nil =>
    have small : n < 10000 := (yearDigits_length_le_iff n).mp (by simp [digits])
    have width := congrArg List.length digits
    rw [yearDigits, if_pos small, padded_length] at width
    contradiction
  | cons c rest =>
    rw [digits] at h
    apply hyphen_not_mem_yearDigits n
    rw [digits, ← (List.cons.inj h).1]
    exact List.mem_cons_self

theorem yearText_inj {y z : Int} {rest rest' : List Char}
    (h : yearText y ++ '-' :: rest = yearText z ++ '-' :: rest') : y = z ∧ rest = rest' := by
  rw [yearText_eq, yearText_eq] at h
  have cut : yearDigits y.natAbs ++ '-' :: rest = yearDigits z.natAbs ++ '-' :: rest' → _ :=
    Cuts.cut_first (hyphen_not_mem_yearDigits y.natAbs) (hyphen_not_mem_yearDigits z.natAbs)
  split at h <;> split at h
  · obtain ⟨digits, same⟩ := cut (List.cons.inj h).2
    have := yearDigits_inj digits
    exact ⟨by omega, same⟩
  · exact absurd h.symm yearDigits_first
  · exact absurd h yearDigits_first
  · obtain ⟨digits, same⟩ := cut h
    have := yearDigits_inj digits
    exact ⟨by omega, same⟩

theorem formatRFC3339Nano_injective {a b : Instant} (h : formatRFC3339Nano a = formatRFC3339Nano b) :
    a = b := by
  obtain ⟨year, rest⟩ := yearText_inj (String.ofList_injective h)
  have width : (render (secondFields []) (secondValues a)).length =
      (render (secondFields []) (secondValues b)).length := by
    simp [secondFields, secondValues, render]
  obtain ⟨whole, tail⟩ := List.append_inj rest width
  have nano := fraction_inj (List.append_cancel_right tail)
  have fields := (render_inj (secondValues_fit a []) (secondValues_fit b [])).mp whole
  simp only [secondValues, List.cons.injEq, and_true] at fields
  obtain ⟨month, day, hour, minute, second⟩ := fields
  have dates : date a = date b := Date.ext year month day
  have clock : secondOfDay a = secondOfDay b := by omega
  apply le_antisymm
  · rw [← not_lt, instant_lt_iff, dates, clock, nano]
    simp [Before]
  · rw [← not_lt, instant_lt_iff, dates, clock, nano]
    simp [Before]

end Years

section Order

variable {a b : Int}

def wholeSecond (t : Instant) : Int := t / 1000000000

theorem wholeValues_lt_iff (ha : FourDigitYear a) (hb : FourDigitYear b) :
    wholeValues a < wholeValues b ↔ wholeSecond a < wholeSecond b := by
  have whole : ∀ t : Instant, date (wholeSecond t * 1000000000) = date t ∧
      values (wholeSecond t * 1000000000) = wholeValues t ++ [0] := by
    intro t
    have second : wholeSecond t * 1000000000 / 1000000000 = t / 1000000000 := by
      simp only [wholeSecond]; omega
    have nano : wholeSecond t * 1000000000 % 1000000000 = 0 := by omega
    simp [values, wholeValues, secondValues, date, secondOfDay, nanosecond, second, nano]
  have order := values_lt_iff (wholeSecond a * 1000000000) (wholeSecond b * 1000000000)
    (by rwa [FourDigitYear, (whole a).1]) (by rwa [FourDigitYear, (whole b).1])
  have width : (wholeValues a).length = (wholeValues b).length := rfl
  rw [(whole a).2, (whole b).2, append_lt_append_iff width] at order
  simp only [lt_irrefl, and_false, or_false] at order
  rw [order]
  exact Int.mul_lt_mul_right (by decide)

theorem fraction_lt_iff (less : nanosecond a < nanosecond b) :
    fraction b ++ ['Z'] < fraction a ++ ['Z'] ↔ fraction a <+: fraction b := by
  have positive : nanosecond b ≠ 0 := Nat.ne_zero_of_lt less
  rw [fraction_eq b, if_neg positive, fraction_eq a]
  split
  · have point : '.' < 'Z' := by decide
    simp [List.cons_lt_cons_iff, point]
  · have below : ∀ t : Instant, ∀ c ∈ trimmed (padded 9 (nanosecond t)), c < 'Z' := by
      intro t c hc
      have nine : '9' < 'Z' := by decide
      exact lt_of_le_of_lt (trimmed_range hc).2 nine
    have differ : trimmed (padded 9 (nanosecond a)) ≠ trimmed (padded 9 (nanosecond b)) := by
      intro same
      have equal := congrArg nanoseconds same
      rw [nanoseconds_trimmed, nanoseconds_trimmed] at equal
      exact absurd equal less.ne
    have digits := (padded_lt_iff 9 _ _ (nanosecond_lt a) (nanosecond_lt b)).mpr less
    obtain ⟨i, left⟩ := trimmed_append (padded 9 (nanosecond a))
    obtain ⟨j, right⟩ := trimmed_append (padded 9 (nanosecond b))
    rw [left, right] at digits
    have marks := mark_lt_iff (below a) (below b) differ digits
    simp only [List.cons_append, List.cons_lt_cons_iff, lt_irrefl, true_and, false_or, List.cons_prefix_cons]
    exact marks

/-- The later of two instants has the smaller text exactly when both are in one second and
its fraction continues that of the earlier. -/
theorem formatRFC3339Nano_inverted (ha : FourDigitYear a) (hb : FourDigitYear b) (less : a < b) :
    formatRFC3339Nano b < formatRFC3339Nano a ↔
      wholeSecond a = wholeSecond b ∧ fraction a <+: fraction b := by
  have fitA := wholeValues_fit ha
  have fitB := wholeValues_fit hb
  have width : (render wholeFields (wholeValues b)).length = (render wholeFields (wholeValues a)).length := by
    simp [wholeFields, wholeValues, secondFields, secondValues, render]
  rw [String.lt_iff_toList_lt, formatRFC3339Nano_eq ha, formatRFC3339Nano_eq hb, append_lt_append_iff width,
    render_lt_iff fitB fitA, wholeValues_lt_iff hb ha]
  have seconds : wholeSecond a ≤ wholeSecond b := Int.ediv_le_ediv (by decide) less.le
  rcases eq_or_lt_of_le seconds with same | earlier
  · have heads : wholeValues b = wholeValues a := by
      apply le_antisymm
      · rw [← not_lt, wholeValues_lt_iff ha hb, same]
        exact lt_irrefl _
      · rw [← not_lt, wholeValues_lt_iff hb ha, same]
        exact lt_irrefl _
    have nano : nanosecond a < nanosecond b := by
      simp only [wholeSecond, nanosecond] at same ⊢
      omega
    simp only [same, lt_irrefl, false_or, heads, true_and]
    exact fraction_lt_iff nano
  · have heads := (render_lt_iff fitA fitB).mpr ((wholeValues_lt_iff ha hb).mpr earlier)
    simp only [not_lt_of_gt earlier, heads.ne', earlier.ne, false_and, or_false]

end Order

end WriteRelay.Clock
