import Mathlib

/-! The proleptic Gregorian calendar over all integer years. Day 0 is 0001-01-01.
The order of dates is the order of day numbers; nothing is enumerated. -/
namespace Calendar

@[ext] structure Date where
  year : Int
  month : Nat
  day : Nat
  deriving DecidableEq, Repr

def leap (y : Int) : Bool := decide (y % 4 = 0 ∧ (y % 100 ≠ 0 ∨ y % 400 = 0))

def daysIn (y : Int) : Nat → Nat
  | 2 => if leap y then 29 else 28
  | 4 | 6 | 9 | 11 => 30
  | _ => 31

def daysBeforeMonth (y : Int) : Nat → Nat
  | 0 | 1 => 0
  | m + 2 => daysBeforeMonth y (m + 1) + daysIn y (m + 1)

def daysBeforeYear (y : Int) : Int := 365 * (y - 1) + (y - 1) / 4 - (y - 1) / 100 + (y - 1) / 400

def dayNumber (d : Date) : Int :=
  daysBeforeYear d.year + daysBeforeMonth d.year d.month + d.day - 1

structure Valid (d : Date) : Prop where
  month_pos : 1 ≤ d.month
  month_le : d.month ≤ 12
  day_pos : 1 ≤ d.day
  day_le : d.day ≤ daysIn d.year d.month

instance (d : Date) : Decidable (Valid d) :=
  decidable_of_iff (1 ≤ d.month ∧ d.month ≤ 12 ∧ 1 ≤ d.day ∧ d.day ≤ daysIn d.year d.month)
    ⟨fun h => ⟨h.1, h.2.1, h.2.2.1, h.2.2.2⟩, fun h => ⟨h.1, h.2, h.3, h.4⟩⟩

theorem daysIn_bounds (y : Int) (m : Nat) : 28 ≤ daysIn y m ∧ daysIn y m ≤ 31 := by
  unfold daysIn
  split
  · split <;> decide
  all_goals decide

theorem daysInYear (y : Int) : daysBeforeMonth y 13 = if leap y then 366 else 365 := by
  simp only [daysBeforeMonth, daysIn]
  split <;> rfl

theorem daysBeforeYear_succ (y : Int) :
    daysBeforeYear (y + 1) = daysBeforeYear y + daysBeforeMonth y 13 := by
  rw [daysInYear]
  simp only [daysBeforeYear, leap, decide_eq_true_eq]
  split <;> push_cast <;> omega

theorem daysBeforeYear_mono {y z : Int} (h : y ≤ z) : daysBeforeYear y ≤ daysBeforeYear z := by
  simp only [daysBeforeYear]
  omega

theorem daysBeforeMonth_succ (y : Int) {m : Nat} (h : 1 ≤ m) :
    daysBeforeMonth y (m + 1) = daysBeforeMonth y m + daysIn y m := by
  obtain ⟨k, rfl⟩ : ∃ k, m = k + 1 := ⟨m - 1, by omega⟩
  rfl

theorem daysBeforeMonth_mono (y : Int) {m n : Nat} (pos : 1 ≤ m) (h : m ≤ n) :
    daysBeforeMonth y m ≤ daysBeforeMonth y n := by
  induction h with
  | refl => exact Nat.le_refl _
  | @step n le ih =>
    rw [daysBeforeMonth_succ y (Nat.le_trans pos le)]
    exact Nat.le_trans ih (Nat.le_add_right _ _)

theorem day_in_year {d : Date} (h : Valid d) :
    daysBeforeYear d.year ≤ dayNumber d ∧ dayNumber d < daysBeforeYear (d.year + 1) := by
  have last := daysBeforeMonth_mono d.year (m := d.month + 1) (n := 13) (by omega)
    (by have := h.month_le; omega)
  rw [daysBeforeMonth_succ d.year h.month_pos] at last
  rw [daysBeforeYear_succ]
  have := h.day_pos
  have := h.day_le
  simp only [dayNumber]
  omega

def Before (a b : Date) : Prop :=
  a.year < b.year ∨ a.year = b.year ∧ (a.month < b.month ∨ a.month = b.month ∧ a.day < b.day)

theorem dayNumber_lt_of_before {a b : Date} (ha : Valid a) (hb : Valid b) (h : Before a b) :
    dayNumber a < dayNumber b := by
  rcases h with year | ⟨year, month | ⟨month, day⟩⟩
  · have fa := (day_in_year ha).2
    have fb := (day_in_year hb).1
    have between := daysBeforeYear_mono (y := a.year + 1) (z := b.year) (by omega)
    omega
  · have between := daysBeforeMonth_mono a.year (m := a.month + 1) (n := b.month) (by omega) month
    rw [daysBeforeMonth_succ a.year ha.month_pos] at between
    have := ha.day_le
    have := hb.day_pos
    simp only [dayNumber, ← year]
    omega
  · simp only [dayNumber, ← year, ← month]
    omega

theorem before_trichotomy (a b : Date) : Before a b ∨ a = b ∨ Before b a := by
  obtain ⟨y, m, d⟩ := a
  obtain ⟨y', m', d'⟩ := b
  simp only [Before, Date.mk.injEq]
  omega

theorem dayNumber_lt_iff {a b : Date} (ha : Valid a) (hb : Valid b) :
    dayNumber a < dayNumber b ↔ Before a b := by
  constructor
  · intro h
    rcases before_trichotomy a b with lt | rfl | gt
    · exact lt
    · omega
    · have := dayNumber_lt_of_before hb ha gt
      omega
  · exact dayNumber_lt_of_before ha hb

def yearOf (n : Int) : Int :=
  let cycle := n / 146097
  let day := n % 146097
  let century := min (day / 36524) 3
  let inCentury := day - century * 36524
  let four := inCentury / 1461
  let year := min ((inCentury - four * 1461) / 365) 3
  400 * cycle + 100 * century + 4 * four + year + 1

theorem daysBeforeYear_split (cycle century four year : Int) (hc : 0 ≤ century ∧ century ≤ 3)
    (hf : 0 ≤ four ∧ four ≤ 24) (hy : 0 ≤ year ∧ year ≤ 3) :
    daysBeforeYear (400 * cycle + 100 * century + 4 * four + year + 1) =
      146097 * cycle + 36524 * century + 1461 * four + 365 * year := by
  simp only [daysBeforeYear, add_sub_cancel_right]
  have e4 : (400 * cycle + 100 * century + 4 * four + year) / 4
      = 100 * cycle + 25 * century + four := by omega
  have e100 : (400 * cycle + 100 * century + 4 * four + year) / 100 = 4 * cycle + century := by omega
  have e400 : (400 * cycle + 100 * century + 4 * four + year) / 400 = cycle := by omega
  rw [e4, e100, e400]
  ring

/-- The next first of January, by whether a year, a leap day, a century or a whole
cycle ends. The last day of a cycle is why the century and the year are capped. -/
theorem daysBeforeYear_next (cycle century four year rest : Int) (hc : 0 ≤ century ∧ century ≤ 3)
    (hf : 0 ≤ four ∧ four ≤ 24) (hy : 0 ≤ year ∧ year ≤ 3) (short : year < 3 → rest < 365 * (year + 1))
    (long : rest < 1461) (century_short : century < 3 → 1461 * four + rest < 36524)
    (century_long : 1461 * four + rest ≤ 36524) :
    146097 * cycle + 36524 * century + 1461 * four + rest <
      daysBeforeYear (400 * cycle + 100 * century + 4 * four + year + 1 + 1) := by
  by_cases h1 : year < 3
  · have next := daysBeforeYear_split cycle century four (year + 1) hc hf (by omega)
    have fits := short h1
    rw [show 400 * cycle + 100 * century + 4 * four + year + 1 + 1
      = 400 * cycle + 100 * century + 4 * four + (year + 1) + 1 by ring, next]
    omega
  · have last : year = 3 := by omega
    by_cases h2 : four < 24
    · have next := daysBeforeYear_split cycle century (four + 1) 0 hc (by omega) (by decide)
      rw [show 400 * cycle + 100 * century + 4 * four + year + 1 + 1
        = 400 * cycle + 100 * century + 4 * (four + 1) + 0 + 1 by rw [last]; ring, next]
      omega
    · have last4 : four = 24 := by omega
      by_cases h3 : century < 3
      · have next := daysBeforeYear_split cycle (century + 1) 0 0 (by omega) (by decide) (by decide)
        have fits := century_short h3
        rw [show 400 * cycle + 100 * century + 4 * four + year + 1 + 1
          = 400 * cycle + 100 * (century + 1) + 4 * 0 + 0 + 1 by rw [last, last4]; ring, next]
        omega
      · have next := daysBeforeYear_split (cycle + 1) 0 0 0 (by decide) (by decide) (by decide)
        have fits := century_long
        have last100 : century = 3 := by omega
        rw [show 400 * cycle + 100 * century + 4 * four + year + 1 + 1
          = 400 * (cycle + 1) + 100 * 0 + 4 * 0 + 0 + 1 by rw [last, last4, last100]; ring, next]
        omega

theorem yearOf_spec (n : Int) :
    daysBeforeYear (yearOf n) ≤ n ∧ n < daysBeforeYear (yearOf n + 1) := by
  simp only [yearOf]
  generalize hcyc : n / 146097 = cycle
  generalize hday : n % 146097 = day
  have whole : n = 146097 * cycle + day := by omega
  have dayRange : 0 ≤ day ∧ day < 146097 := by omega
  clear hcyc hday
  generalize hcen : min (day / 36524) 3 = century
  generalize hin : day - century * 36524 = inCentury
  have hc : 0 ≤ century ∧ century ≤ 3 := by omega
  have inRange : 0 ≤ inCentury ∧ inCentury ≤ 36524 := by omega
  have century_short : century < 3 → inCentury < 36524 := by omega
  generalize hfour : inCentury / 1461 = four
  generalize hrest : inCentury - four * 1461 = rest
  have hf : 0 ≤ four ∧ four ≤ 24 := by omega
  have restRange : 0 ≤ rest ∧ rest < 1461 := by omega
  clear hcen hfour
  generalize hyear : min (rest / 365) 3 = year
  have hy : 0 ≤ year ∧ year ≤ 3 := by omega
  have low : 365 * year ≤ rest := by omega
  have short : year < 3 → rest < 365 * (year + 1) := by omega
  clear hyear
  constructor
  · rw [daysBeforeYear_split cycle century four year hc hf hy]
    omega
  · have next := daysBeforeYear_next cycle century four year rest hc hf hy short restRange.2
      (by omega) (by omega)
    omega

/-- Walk the months from m on, with a number of days still to place. -/
def monthDay (y : Int) : Nat → Nat → Nat → Nat × Nat
  | 0, m, rest => (m, rest + 1)
  | fuel + 1, m, rest =>
    if rest < daysIn y m then (m, rest + 1) else monthDay y fuel (m + 1) (rest - daysIn y m)

theorem monthDay_spec (y : Int) (fuel m rest : Nat) (pos : 1 ≤ m) (months : m + fuel = 12)
    (room : daysBeforeMonth y m + rest < daysBeforeMonth y 13) :
    Valid ⟨y, (monthDay y fuel m rest).1, (monthDay y fuel m rest).2⟩ ∧
      daysBeforeMonth y (monthDay y fuel m rest).1 + (monthDay y fuel m rest).2 =
        daysBeforeMonth y m + rest + 1 := by
  induction fuel generalizing m rest with
  | zero =>
    have last : m = 12 := by omega
    subst last
    rw [daysBeforeMonth_succ y (m := 12) (by decide)] at room
    exact ⟨⟨pos, Nat.le_refl _, Nat.succ_pos _, by simp only [monthDay]; omega⟩, by
      simp only [monthDay]; omega⟩
  | succ fuel ih =>
    unfold monthDay
    split
    · rename_i fits
      exact ⟨⟨pos, by dsimp only; omega, Nat.succ_pos _, fits⟩, by dsimp only; omega⟩
    · rename_i past
      have step := daysBeforeMonth_succ y pos
      obtain ⟨valid, sum⟩ := ih (m + 1) (rest - daysIn y m) (by omega) (by omega) (by omega)
      exact ⟨valid, by omega⟩

def ofDay (n : Int) : Date :=
  let y := yearOf n
  let md := monthDay y 11 1 (n - daysBeforeYear y).toNat
  ⟨y, md.1, md.2⟩

theorem ofDay_spec (n : Int) : Valid (ofDay n) ∧ dayNumber (ofDay n) = n := by
  obtain ⟨low, high⟩ := yearOf_spec n
  rw [daysBeforeYear_succ] at high
  have first : daysBeforeMonth (yearOf n) 1 = 0 := rfl
  obtain ⟨valid, sum⟩ := monthDay_spec (yearOf n) 11 1 (n - daysBeforeYear (yearOf n)).toNat
    (by decide) rfl (by omega)
  refine ⟨valid, ?_⟩
  simp only [dayNumber, ofDay]
  omega

theorem valid_ofDay (n : Int) : Valid (ofDay n) := (ofDay_spec n).1

@[simp] theorem dayNumber_ofDay (n : Int) : dayNumber (ofDay n) = n := (ofDay_spec n).2

theorem ofDay_lt_iff (a b : Int) : a < b ↔ Before (ofDay a) (ofDay b) := by
  rw [← dayNumber_lt_iff (valid_ofDay a) (valid_ofDay b), dayNumber_ofDay, dayNumber_ofDay]

example : ofDay 719162 = ⟨1970, 1, 1⟩ := by decide

end Calendar
