import WriteRelay.Base.Calendar
import WriteRelay.Base.Digits

/-! Instants and the two timestamp texts the spool writes. SQLite compares these
texts byte by byte, so their order is proved, not assumed. -/
namespace WriteRelay.Clock
open Calendar Digits

/-- A Go `time.Time` in UTC, as nanoseconds since 1970-01-01T00:00:00Z. -/
abbrev Instant := Int

/-- A duration is an int64, and `Sub` saturates. -/
def saturate (d : Int) : Int64 := Int64.ofInt (max (-2 ^ 63) (min (2 ^ 63 - 1) d))

def epochDay : Int := 719162

def date (t : Instant) : Date := ofDay (t / 1000000000 / 86400 + epochDay)
def secondOfDay (t : Instant) : Nat := (t / 1000000000 % 86400).toNat
def nanosecond (t : Instant) : Nat := (t % 1000000000).toNat

/-- Go's `appendInt` with a minimum width of four. -/
def yearText (y : Int) : List Char :=
  let digits := if y.natAbs < 10000 then padded 4 y.natAbs else (Nat.toDigits 10 y.natAbs)
  if y < 0 then '-' :: digits else digits

def secondFields (last : List Char) : List (Nat × List Char) :=
  [(2, ['-']), (2, ['T']), (2, [':']), (2, [':']), (2, last)]

def secondValues (t : Instant) : List Nat :=
  [(date t).month, (date t).day, secondOfDay t / 3600, secondOfDay t % 3600 / 60, secondOfDay t % 60]

/-- `value.UTC().Format(timestampFormat)`: always nine fractional digits. -/
def formatTimestamp (t : Instant) : String :=
  String.ofList (yearText (date t).year ++ ('-' ::
    render (secondFields ['.'] ++ [(9, ['Z'])]) (secondValues t ++ [nanosecond t])))

def fraction (t : Instant) : List Char :=
  if nanosecond t = 0 then []
  else '.' :: ((padded 9 (nanosecond t)).reverse.dropWhile (· = '0')).reverse

/-- `value.UTC().Format(time.RFC3339Nano)`: the fraction has variable width. -/
def formatRFC3339Nano (t : Instant) : String :=
  String.ofList (yearText (date t).year ++ ('-' ::
    (render (secondFields []) (secondValues t) ++ (fraction t ++ ['Z']))))

example : formatTimestamp 0 = "1970-01-01T00:00:00.000000000Z" := by decide
example : formatRFC3339Nano 1500000000 = "1970-01-01T00:00:01.5Z" := by decide

def FourDigitYear (t : Instant) : Prop := 0 ≤ (date t).year ∧ (date t).year ≤ 9999

instance (t : Instant) : Decidable (FourDigitYear t) :=
  inferInstanceAs (Decidable (0 ≤ (date t).year ∧ (date t).year ≤ 9999))

theorem instant_lt_iff (a b : Int) :
    a < b ↔ Before (date a) (date b) ∨ date a = date b ∧ (secondOfDay a < secondOfDay b ∨
      secondOfDay a = secondOfDay b ∧ nanosecond a < nanosecond b) := by
  have same : date a = date b ↔ a / 1000000000 / 86400 = b / 1000000000 / 86400 := by
    constructor
    · intro h
      have days := congrArg dayNumber h
      simpa [date] using days
    · intro h
      simp only [date, h]
  have before : Before (date a) (date b) ↔ a / 1000000000 / 86400 < b / 1000000000 / 86400 := by
    simp only [date, ← ofDay_lt_iff, add_lt_add_iff_right]
  rw [before, same]
  simp only [secondOfDay, nanosecond]
  omega

def values (t : Instant) : List Nat := (date t).year.toNat :: (secondValues t ++ [nanosecond t])

def fields : List (Nat × List Char) := (4, ['-']) :: (secondFields ['.'] ++ [(9, ['Z'])])

theorem secondValues_fit (t : Instant) (last : List Char) :
    Fits (secondFields last) (secondValues t) := by
  have valid := valid_ofDay (t / 1000000000 / 86400 + epochDay)
  have month := valid.month_le
  have day := valid.day_le
  have bound := (daysIn_bounds (date t).year (date t).month).2
  have sod : secondOfDay t < 86400 := by simp only [secondOfDay]; omega
  rw [← date] at month day
  simp only [Fits, secondFields, secondValues, List.forall₂_cons, List.Forall₂.nil, and_true]
  omega

theorem nanosecond_lt (t : Instant) : nanosecond t < 10 ^ 9 := by
  simp only [nanosecond]
  omega

theorem FourDigitYear.lt {t : Instant} (h : FourDigitYear t) : (date t).year.toNat < 10 ^ 4 := by
  have := h.2
  omega

theorem values_fit {t : Instant} (h : FourDigitYear t) : Fits fields (values t) :=
  .cons h.lt (List.rel_append (secondValues_fit t ['.']) (.cons (nanosecond_lt t) .nil))

theorem yearText_padded {t : Instant} (h : FourDigitYear t) :
    yearText (date t).year = padded 4 (date t).year.toNat := by
  have small : (date t).year.natAbs < 10000 := by have := h.1; have := h.2; omega
  have nonneg : ¬ (date t).year < 0 := by have := h.1; omega
  have abs : (date t).year.natAbs = (date t).year.toNat := by have := h.1; omega
  simp only [yearText, if_pos small, if_neg nonneg, ← abs]

theorem formatTimestamp_eq {t : Instant} (h : FourDigitYear t) :
    (formatTimestamp t).toList = render fields (values t) := by
  simp only [formatTimestamp, String.toList_ofList, yearText_padded h, fields, values, render,
    List.cons_append, List.nil_append]

theorem values_lt_iff (a b : Instant) (ha : FourDigitYear a) (hb : FourDigitYear b) :
    values a < values b ↔ a < b := by
  rw [instant_lt_iff]
  have years : (date a).year.toNat = (date b).year.toNat ↔ (date a).year = (date b).year := by
    have := ha.1
    have := hb.1
    omega
  simp only [values, secondValues, List.cons_append, List.nil_append, List.cons_lt_cons_iff,
    Before, years]
  have := ha.1
  have := hb.1
  rw [Date.ext_iff]
  simp only [List.not_lt_nil, and_false, or_false]
  omega

theorem formatTimestamp_le_iff {a b : Instant} (ha : FourDigitYear a) (hb : FourDigitYear b) :
    formatTimestamp a ≤ formatTimestamp b ↔ a ≤ b := by
  rw [← not_lt, String.lt_iff_toList_lt, formatTimestamp_eq ha, formatTimestamp_eq hb,
    render_lt_iff (values_fit hb) (values_fit ha), values_lt_iff b a hb ha, not_lt]

theorem year_le {a b : Instant} (h : a ≤ b) : (date a).year ≤ (date b).year := by
  by_contra later
  exact absurd h (not_le.mpr ((instant_lt_iff b a).mpr (.inl (.inl (not_le.mp later)))))

theorem formatTimestamp_negative {a b : Instant} (ha : FourDigitYear a) (negative : (date b).year < 0) :
    formatTimestamp b < formatTimestamp a := by
  have sign : ∀ i : Fin 10, '-' < Char.ofNat (48 + i) := by decide
  have first : ∀ n, '-' < digit n := fun n => sign ⟨n % 10, Nat.mod_lt _ (by decide)⟩
  rw [String.lt_iff_toList_lt, formatTimestamp_eq ha]
  simp only [formatTimestamp, String.toList_ofList, yearText, if_pos negative, fields, values, render, padded,
    List.nil_append, List.cons_append]
  exact List.cons_lt_cons_iff.mpr (.inl (first _))

theorem formatTimestamp_lt_iff {a b latest : Instant} (ha : FourDigitYear a)
    (hl : FourDigitYear latest) (bounded : b ≤ latest) :
    formatTimestamp a < formatTimestamp b ↔ a < b := by
  by_cases negative : (date b).year < 0
  · have before : b < a := by
      by_contra later
      have := year_le (not_lt.mp later)
      have := ha.1
      omega
    exact iff_of_false (not_lt_of_gt (formatTimestamp_negative ha negative)) (not_lt_of_gt before)
  · have hb : FourDigitYear b := ⟨not_lt.mp negative, (year_le bounded).trans hl.2⟩
    rw [← not_le, formatTimestamp_le_iff hb ha, not_le]

end WriteRelay.Clock
