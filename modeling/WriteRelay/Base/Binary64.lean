import WriteRelay.Base.Digits

/-! Binary64 numbers that are not negative, over an exponent range without ends: rounding to the
nearest one, and their shortest decimal text, which is rounded back to the number. -/
namespace Binary64
open Digits

/-- Halves go to the even number. -/
def nearest (x : ℚ) : ℤ :=
  if x - ⌊x⌋ < 1 / 2 then ⌊x⌋
  else if 1 / 2 < x - ⌊x⌋ then ⌊x⌋ + 1
  else if ⌊x⌋ % 2 = 0 then ⌊x⌋
  else ⌊x⌋ + 1

def ulp (x : ℚ) : ℚ := 2 ^ (Int.log 2 x - 52)

def round (x : ℚ) : ℚ := if 0 < x then nearest (x / ulp x) * ulp x else 0

def Representable (x : ℚ) : Prop := ∃ (m : ℕ) (e : ℤ), m < 2 ^ 53 ∧ x = m * 2 ^ e

section Rounding

variable {x y : ℚ}

theorem nearest_close (x : ℚ) : |nearest x - x| ≤ 1 / 2 := by
  have low := Int.floor_le x
  have high := Int.lt_floor_add_one x
  unfold nearest
  split
  · rw [abs_le]
    constructor <;> linarith
  · rename_i half
    have half := not_lt.mp half
    split
    · push_cast
      rw [abs_le]
      constructor <;> linarith
    · rename_i notMore
      have notMore := not_lt.mp notMore
      split <;> push_cast <;> rw [abs_le] <;> constructor <;> linarith

theorem nearest_eq {n : ℤ} (h : |x - n| < 1 / 2) : nearest x = n := by
  have close := nearest_close x
  rw [abs_lt] at h
  rw [abs_le] at close
  have below : ((nearest x : ℤ) : ℚ) < ((n + 1 : ℤ) : ℚ) := by
    push_cast
    linarith
  have above : ((n : ℤ) : ℚ) < ((nearest x + 1 : ℤ) : ℚ) := by
    push_cast
    linarith
  have below := Int.cast_lt.mp below
  have above := Int.cast_lt.mp above
  omega

theorem ulp_pos (x : ℚ) : 0 < ulp x := by
  unfold ulp
  positivity

theorem ulp_le (positive : 0 < x) : ulp x ≤ x / 2 ^ 52 := by
  have lead := Int.zpow_log_le_self (b := 2) (by decide) positive
  rw [ulp, zpow_sub₀ (by norm_num)]
  exact div_le_div_of_nonneg_right (by exact_mod_cast lead) (by positivity)

/-- A rounding error is at most half the last place. -/
theorem round_close (positive : 0 ≤ x) : |round x - x| ≤ x / 2 ^ 53 := by
  rcases positive.eq_or_lt with rfl | positive
  · simp [round]
  have step := ulp_pos x
  have close := nearest_close (x / ulp x)
  have small := ulp_le positive
  have scaled : round x - x = (nearest (x / ulp x) - x / ulp x) * ulp x := by
    rw [round, if_pos positive, sub_mul, div_mul_cancel₀ x step.ne']
  rw [scaled, abs_mul, abs_of_pos step]
  calc |(nearest (x / ulp x) : ℚ) - x / ulp x| * ulp x
      ≤ 1 / 2 * (x / 2 ^ 52) := mul_le_mul close small step.le (by norm_num)
    _ = x / 2 ^ 53 := by ring

theorem round_nonneg (x : ℚ) : 0 ≤ round x := by
  by_cases positive : 0 < x
  · have close := abs_le.mp (round_close positive.le)
    linarith
  · rw [round, if_neg positive]

theorem ulp_lead (x : ℚ) : 2 ^ 52 * ulp x = 2 ^ Int.log 2 x := by
  rw [ulp, zpow_sub₀ (by norm_num)]
  norm_num
  ring

theorem ulp_next (x : ℚ) : 2 ^ 53 * ulp x = 2 ^ (Int.log 2 x + 1) := by
  rw [zpow_add_one₀ (by norm_num), ← ulp_lead]
  ring

theorem ulp_scale (positive : 0 < x) : 2 ^ 52 ≤ x / ulp x ∧ x / ulp x < 2 ^ 53 := by
  have low := Int.zpow_log_le_self (b := 2) (by decide) positive
  have high := Int.lt_zpow_succ_log_self (b := 2) (by decide) x
  rw [le_div_iff₀ (ulp_pos x), div_lt_iff₀ (ulp_pos x), ulp_lead, ulp_next]
  exact ⟨by exact_mod_cast low, by exact_mod_cast high⟩

theorem round_representable (x : ℚ) : Representable (round x) := by
  unfold round
  split
  · rename_i positive
    obtain ⟨low, high⟩ := ulp_scale positive
    have close := abs_le.mp (nearest_close (x / ulp x))
    have least : ((-1 : ℤ) : ℚ) < nearest (x / ulp x) := by
      push_cast
      linarith
    have most : (nearest (x / ulp x) : ℚ) < ((2 ^ 53 + 1 : ℤ) : ℚ) := by
      push_cast
      linarith
    have least := Int.cast_lt.mp least
    have most := Int.cast_lt.mp most
    -- rounded up to the next power of two, the significand is one again
    by_cases carry : nearest (x / ulp x) = 2 ^ 53
    · refine ⟨1, Int.log 2 x + 1, by decide, ?_⟩
      rw [carry, ← ulp_next]
      push_cast
      ring
    · obtain ⟨m, same⟩ := Int.eq_ofNat_of_zero_le (show 0 ≤ nearest (x / ulp x) by omega)
      rw [same] at carry most
      refine ⟨m, Int.log 2 x - 52, by omega, by rw [same, ulp]; rfl⟩
  · exact ⟨0, 0, by decide, by simp⟩

/-- A number is a whole number of its last places. -/
theorem Representable.significand (h : Representable x) (positive : 0 < x) :
    ∃ m : ℤ, x = m * ulp x ∧ 2 ^ 52 ≤ m ∧ m < 2 ^ 53 := by
  obtain ⟨m, e, less, same⟩ := h
  have top : x < 2 ^ (53 + e) := by
    rw [same, zpow_add₀ (by norm_num)]
    exact mul_lt_mul_of_pos_right (by exact_mod_cast less) (by positivity)
  have log : Int.log 2 x < 53 + e := by
    refine (Int.lt_zpow_iff_log_lt (b := 2) (by decide) positive).mp ?_
    exact_mod_cast top
  obtain ⟨k, places⟩ := Int.eq_ofNat_of_zero_le (show 0 ≤ e - (Int.log 2 x - 52) by omega)
  have whole : x = ((m * 2 ^ k : ℤ) : ℚ) * ulp x := by
    have split_ : e = (k : ℤ) + (Int.log 2 x - 52) := by omega
    have power : (2 : ℚ) ^ e = 2 ^ k * ulp x := by
      rw [split_, zpow_add₀ (by norm_num), zpow_natCast, ulp]
    calc x = m * 2 ^ e := same
      _ = m * (2 ^ k * ulp x) := by rw [power]
      _ = ((m * 2 ^ k : ℤ) : ℚ) * ulp x := by
        push_cast
        ring
  obtain ⟨low, high⟩ := ulp_scale positive
  have ratio : x / ulp x = ((m * 2 ^ k : ℤ) : ℚ) := by
    rw [div_eq_iff (ulp_pos x).ne']
    exact whole
  rw [ratio] at low high
  exact ⟨m * 2 ^ k, whole, by exact_mod_cast low, by exact_mod_cast high⟩

theorem round_eq {n : ℤ} (positive : 0 < y) (whole : x = n * ulp y) (close : |y - x| < ulp y / 2) :
    round y = x := by
  have step := ulp_pos y
  have near : |y / ulp y - n| < 1 / 2 := by
    have scaled : y / ulp y - n = (y - x) / ulp y := by
      rw [whole]
      field_simp
    rw [scaled, abs_div, abs_of_pos step, div_lt_iff₀ step]
    linarith
  rw [round, if_pos positive, nearest_eq near, whole]

theorem lt_lead_of_log_lt (less : Int.log 2 y < Int.log 2 x) : y < 2 ^ 52 * ulp x := by
  have bound := Int.lt_zpow_succ_log_self (b := 2) (by decide) y
  rw [ulp_lead]
  exact lt_of_lt_of_le (by exact_mod_cast bound) (zpow_le_zpow_right₀ (by norm_num) less)

theorem next_le_of_log_lt (positive : 0 < y) (more : Int.log 2 x < Int.log 2 y) :
    2 ^ 53 * ulp x ≤ y := by
  have bound := Int.zpow_log_le_self (b := 2) (by decide) positive
  rw [ulp_next]
  exact le_trans (zpow_le_zpow_right₀ (by norm_num) more) (by exact_mod_cast bound)

theorem ulp_half (positive : 0 < y) (less : Int.log 2 y < Int.log 2 x) (near : 2 ^ 51 * ulp x ≤ y) :
    ulp y = ulp x / 2 := by
  have log : Int.log 2 y = Int.log 2 x - 1 := by
    have : Int.log 2 x - 1 ≤ Int.log 2 y := by
      refine (Int.zpow_le_iff_le_log (b := 2) (by decide) positive).mp ?_
      push_cast
      rw [zpow_sub_one₀ (by norm_num), ← ulp_lead]
      linarith
    omega
  rw [ulp, log, ulp, sub_right_comm, zpow_sub_one₀ (by norm_num)]
  ring

/-- What is closer to a number than half its smaller gap is rounded to it. -/
theorem Representable.round_near (h : Representable x) (positive : 0 < x)
    (close : |y - x| < x / 2 ^ 54) : round y = x := by
  obtain ⟨m, whole, least, most⟩ := h.significand positive
  have step := ulp_pos x
  obtain ⟨lead, top⟩ := ulp_scale positive
  rw [le_div_iff₀ step] at lead
  rw [div_lt_iff₀ step] at top
  have half : x / 2 ^ 54 < ulp x / 2 := by linarith
  have bounds := abs_lt.mp (close.trans half)
  have positive' : 0 < y := by linarith
  rcases lt_trichotomy (Int.log 2 y) (Int.log 2 x) with less | same | more
  · -- only a power of two has a number of a smaller exponent so close below it
    have below := lt_lead_of_log_lt less
    have places := ulp_half positive' less (by linarith)
    have power : m = 2 ^ 52 := by
      have : (m : ℚ) * ulp x < ((2 ^ 52 + 1 : ℤ) : ℚ) * ulp x := by
        push_cast
        linarith
      have := Int.cast_lt.mp (lt_of_mul_lt_mul_right this step.le)
      omega
    rw [power] at whole
    push_cast at whole
    refine round_eq (n := 2 ^ 53) positive' ?_ ?_
    · rw [places]
      push_cast
      linarith
    · rw [places]
      linarith
  · have places : ulp y = ulp x := by rw [ulp, same, ulp]
    exact round_eq positive' (places ▸ whole) (places ▸ close.trans half)
  · have above := next_le_of_log_lt positive' more
    have last : (m : ℚ) * ulp x ≤ ((2 ^ 53 - 1 : ℤ) : ℚ) * ulp x :=
      mul_le_mul_of_nonneg_right (Int.cast_le.mpr (by omega)) step.le
    push_cast at last
    linarith

end Rounding

/-- A whole number of digits, and the power of ten of the last one. -/
structure Decimal where
  digits : ℕ
  exponent : ℤ

def Decimal.value (d : Decimal) : ℚ := d.digits * 10 ^ d.exponent

section Shortest

/-- The power of ten of the last of `n + 1` digits. -/
def lastPlace (n : ℕ) (x : ℚ) : ℤ := Int.log 10 x - n

def closest (n : ℕ) (x : ℚ) : Decimal := ⟨(nearest (x / 10 ^ lastPlace n x)).toNat, lastPlace n x⟩

/-- The closest decimal comes first; its neighbour on the other side can be the only one in reach. -/
def candidates (n : ℕ) (x : ℚ) : List Decimal :=
  let below := ⌊x / 10 ^ lastPlace n x⌋.toNat
  [closest n x, ⟨below, lastPlace n x⟩, ⟨below + 1, lastPlace n x⟩]

/-- The first number of digits that is enough, from `n + 1` on. Seventeen always are. -/
def shortestFrom (x : ℚ) : ℕ → ℕ → Decimal
  | 0, n => closest n x
  | fuel + 1, n =>
    match (candidates n x).find? (fun d => round d.value = x) with
    | some d => d
    | none => shortestFrom x fuel (n + 1)

def shortest (x : ℚ) : Decimal := shortestFrom x 16 0

variable {x : ℚ}

theorem closest_value (positive : 0 < x) (n : ℕ) :
    |(closest n x).value - x| ≤ x / 10 ^ n / 2 := by
  have step : (0 : ℚ) < 10 ^ lastPlace n x := by positivity
  have close := nearest_close (x / 10 ^ lastPlace n x)
  have nonneg : 0 ≤ nearest (x / 10 ^ lastPlace n x) := by
    have bounds := abs_le.mp close
    have : 0 < x / 10 ^ lastPlace n x := div_pos positive step
    have : ((-1 : ℤ) : ℚ) < nearest (x / 10 ^ lastPlace n x) := by
      push_cast
      linarith
    have := Int.cast_lt.mp this
    omega
  have place : (10 : ℚ) ^ lastPlace n x ≤ x / 10 ^ n := by
    have lead := Int.zpow_log_le_self (b := 10) (by decide) positive
    rw [lastPlace, zpow_sub₀ (by norm_num), zpow_natCast]
    exact div_le_div_of_nonneg_right (by exact_mod_cast lead) (by positivity)
  have scaled : (closest n x).value - x =
      (nearest (x / 10 ^ lastPlace n x) - x / 10 ^ lastPlace n x) * 10 ^ lastPlace n x := by
    have cast : (((nearest (x / 10 ^ lastPlace n x)).toNat : ℕ) : ℚ) =
        (nearest (x / 10 ^ lastPlace n x) : ℚ) := by exact_mod_cast Int.toNat_of_nonneg nonneg
    rw [Decimal.value, closest, cast, sub_mul, div_mul_cancel₀ x step.ne']
  rw [scaled, abs_mul, abs_of_pos step]
  calc |(nearest (x / 10 ^ lastPlace n x) : ℚ) - x / 10 ^ lastPlace n x| * 10 ^ lastPlace n x
      ≤ 1 / 2 * (x / 10 ^ n) := mul_le_mul close place step.le (by norm_num)
    _ = x / 10 ^ n / 2 := by ring

theorem shortestFrom_round (h : Representable x) (positive : 0 < x) {fuel n : ℕ}
    (enough : fuel + n = 16) : round (shortestFrom x fuel n).value = x := by
  induction fuel generalizing n with
  | zero =>
    have close := closest_value positive n
    rw [Nat.zero_add] at enough
    subst enough
    refine h.round_near positive (close.trans_lt ?_)
    linarith
  | succ fuel ih =>
    rw [shortestFrom]
    split
    · rename_i d found
      simpa using List.find?_some found
    · exact ih (by omega)

theorem shortest_round (h : Representable x) (positive : 0 < x) : round (shortest x).value = x :=
  shortestFrom_round h positive rfl

end Shortest

section Text

def pointed (whole fraction : List Char) : List Char :=
  whole ++ if fraction = [] then [] else '.' :: fraction

/-- The point stands after the first `point` digits. -/
def writeFixed (digits : List Char) (point : ℤ) : List Char :=
  let whole := digits.take point.toNat ++ List.replicate (point.toNat - digits.length) '0'
  pointed (if whole = [] then ['0'] else whole)
    (List.replicate (-point).toNat '0' ++ digits.drop point.toNat)

def writeExponent (e : ℤ) : List Char :=
  let digits := Nat.toDigits 10 e.natAbs
  'e' :: (if e < 0 then '-' else '+') :: if digits.length < 2 then '0' :: digits else digits

/-- C's `%g` for exactly these digits, without the zeros at their end. -/
def Decimal.write (d : Decimal) : List Char :=
  let digits := Nat.toDigits 10 d.digits
  let point := digits.length + d.exponent
  if point - 1 < -4 ∨ 6 ≤ point - 1 then writeFixed (trimmed digits) 1 ++ writeExponent (point - 1)
  else writeFixed (trimmed digits) point

def format (x : ℚ) : List Char := if 0 < x then (shortest x).write else ['0']

def readDigits (digits : List Char) : Option ℕ :=
  if digits ≠ [] ∧ digits.all Char.isDigit then some (Nat.ofDigitChars 10 digits 0) else none

def readExponent : List Char → Option ℤ
  | [] => some 0
  | 'e' :: '-' :: digits => (readDigits digits).map fun n : ℕ => -(n : ℤ)
  | 'e' :: '+' :: digits => (readDigits digits).map Int.ofNat
  | _ => none

def readFraction : List Char → Option (List Char)
  | [] => some []
  | _ :: digits => if digits = [] then none else some digits

/-- Digits, perhaps with a point among them and an exponent after them. -/
def read (text : List Char) : Option ℚ := do
  let mantissa := text.takeWhile (· ≠ 'e')
  let whole := mantissa.takeWhile (· ≠ '.')
  let fraction ← readFraction (mantissa.dropWhile (· ≠ '.'))
  let n ← readDigits (whole ++ fraction)
  let e ← readExponent (text.dropWhile (· ≠ 'e'))
  return n * 10 ^ (e - fraction.length)

variable {digits whole fraction tail : List Char}

theorem readDigits_eq (nonempty : digits ≠ []) (plain : ∀ c ∈ digits, c.isDigit = true) :
    readDigits digits = some (Nat.ofDigitChars 10 digits 0) :=
  if_pos ⟨nonempty, List.all_eq_true.mpr plain⟩

theorem toDigits_isDigit {n : ℕ} {c : Char} (h : c ∈ Nat.toDigits 10 n) : c.isDigit = true :=
  Nat.isDigit_of_mem_toDigits (by decide) (by decide) h

theorem zeros_isDigit (n : ℕ) : ∀ c ∈ List.replicate n '0', c.isDigit = true := by
  intro c hc
  rw [List.eq_of_mem_replicate hc]
  rfl

theorem trimmed_isDigit {n : ℕ} : ∀ c ∈ trimmed (Nat.toDigits 10 n), c.isDigit = true := by
  intro c hc
  obtain ⟨k, whole⟩ := trimmed_append (Nat.toDigits 10 n)
  apply toDigits_isDigit (n := n)
  rw [whole]
  exact List.mem_append_left _ hc

theorem readExponent_writeExponent (e : ℤ) : readExponent (writeExponent e) = some e := by
  have value : readDigits (if (Nat.toDigits 10 e.natAbs).length < 2 then
      '0' :: Nat.toDigits 10 e.natAbs else Nat.toDigits 10 e.natAbs) = some e.natAbs := by
    split
    · have plain : ∀ c ∈ '0' :: Nat.toDigits 10 e.natAbs, c.isDigit = true :=
        List.forall_mem_cons.mpr ⟨rfl, fun _ => toDigits_isDigit⟩
      rw [readDigits_eq (List.cons_ne_nil _ _) plain, Nat.ofDigitChars_cons]
      exact congrArg some Nat.ofDigitChars_ten_toDigits
    · rw [readDigits_eq Nat.toDigits_ne_nil fun _ => toDigits_isDigit, Nat.ofDigitChars_ten_toDigits]
  by_cases negative : e < 0
  · simp only [writeExponent, if_pos negative, readExponent]
    rw [value, Option.map_some, Int.ofNat_natAbs_of_nonpos negative.le, neg_neg]
  · simp only [writeExponent, if_neg negative, readExponent]
    rw [value, Option.map_some, Int.ofNat_eq_natCast, Int.natAbs_of_nonneg (not_lt.mp negative)]

theorem isDigit_mark {c : Char} (h : c.isDigit = true) : c ≠ 'e' ∧ c ≠ '.' := by
  constructor <;> rintro rfl <;> contradiction

theorem takeWhile_of_head {mark : Char} (ended : ∀ c ∈ tail.head?, c = mark) :
    tail.takeWhile (· ≠ mark) = [] ∧ tail.dropWhile (· ≠ mark) = tail := by
  cases tail with
  | nil => exact ⟨rfl, rfl⟩
  | cons c rest =>
    cases ended c rfl
    simp

theorem mem_pointed {c : Char} (plain : ∀ c ∈ whole ++ fraction, c.isDigit = true)
    (h : c ∈ pointed whole fraction) : c.isDigit = true ∨ c = '.' := by
  rcases List.mem_append.mp h with h | h
  · exact .inl (plain c (List.mem_append_left _ h))
  · split at h
    · contradiction
    · rcases List.mem_cons.mp h with rfl | h
      · exact .inr rfl
      · exact .inl (plain c (List.mem_append_right _ h))

theorem pointed_cut (plain : ∀ c ∈ whole, c.isDigit = true) (fraction : List Char) :
    (pointed whole fraction).takeWhile (· ≠ '.') = whole ∧
      readFraction ((pointed whole fraction).dropWhile (· ≠ '.')) = some fraction := by
  have digits : ∀ c ∈ whole, decide (c ≠ '.') = true := fun c hc =>
    decide_eq_true (isDigit_mark (plain c hc)).2
  unfold pointed
  rw [List.takeWhile_append_of_pos digits, List.dropWhile_append_of_pos digits]
  by_cases none_ : fraction = []
  · simp [none_, readFraction]
  · simp [none_, readFraction]

theorem read_pointed (nonempty : whole ≠ []) (plain : ∀ c ∈ whole ++ fraction, c.isDigit = true)
    (ended : ∀ c ∈ tail.head?, c = 'e') {e : ℤ} (exponent : readExponent tail = some e) :
    read (pointed whole fraction ++ tail) =
      some ((Nat.ofDigitChars 10 (whole ++ fraction) 0 : ℚ) * 10 ^ (e - fraction.length)) := by
  have marks : ∀ c ∈ pointed whole fraction, decide (c ≠ 'e') = true := by
    intro c hc
    rcases mem_pointed plain hc with digit | rfl
    · exact decide_eq_true (isDigit_mark digit).1
    · rfl
  obtain ⟨before, behind⟩ := pointed_cut (fun c hc => plain c (List.mem_append_left _ hc)) fraction
  obtain ⟨noTail, allTail⟩ := takeWhile_of_head ended
  have value := readDigits_eq (List.append_ne_nil_of_left_ne_nil nonempty fraction) plain
  simp only [read]
  rw [List.takeWhile_append_of_pos marks, List.dropWhile_append_of_pos marks, noTail, allTail,
    List.append_nil, before, behind, exponent]
  simp [value]

theorem writeFixed_before (digits : List Char) (z : ℕ) :
    writeFixed digits (-z) = pointed ['0'] (List.replicate z '0' ++ digits) := by
  simp [writeFixed]

theorem writeFixed_behind (nonempty : digits ≠ []) {p : ℕ} (behind : digits.length ≤ p) :
    writeFixed digits p = pointed (digits ++ List.replicate (p - digits.length) '0') [] := by
  simp [writeFixed, List.take_of_length_le behind, List.drop_of_length_le behind, nonempty]

theorem writeFixed_among (nonempty : digits ≠ []) {p : ℕ} (positive : 0 < p)
    (among : p < digits.length) : writeFixed digits p = pointed (digits.take p) (digits.drop p) := by
  have full : p - digits.length = 0 := by omega
  simp [writeFixed, full, nonempty, positive.ne']

/-- The digits keep their value, wherever the point stands among zeros. -/
theorem read_writeFixed (nonempty : digits ≠ []) (plain : ∀ c ∈ digits, c.isDigit = true)
    (point : ℤ) (ended : ∀ c ∈ tail.head?, c = 'e') {e : ℤ} (exponent : readExponent tail = some e) :
    read (writeFixed digits point ++ tail) =
      some ((Nat.ofDigitChars 10 digits 0 : ℚ) * 10 ^ (point - digits.length + e)) := by
  rcases le_or_gt point 0 with low | high
  · obtain ⟨z, rfl⟩ := Int.exists_eq_neg_ofNat low
    have value : Nat.ofDigitChars 10 (['0'] ++ (List.replicate z '0' ++ digits)) 0 =
        Nat.ofDigitChars 10 digits 0 := by
      rw [Nat.ofDigitChars_append, Nat.ofDigitChars_append, Nat.ofDigitChars_replicate_zero]
      rfl
    have all : ∀ c ∈ ['0'] ++ (List.replicate z '0' ++ digits), c.isDigit = true := by
      simp only [List.forall_mem_append]
      exact ⟨zeros_isDigit 1, zeros_isDigit z, plain⟩
    rw [writeFixed_before, read_pointed (List.cons_ne_nil _ _) all ended exponent, value]
    congr 3
    simp only [List.length_append, List.length_replicate]
    push_cast
    ring
  · obtain ⟨p, rfl⟩ := Int.eq_ofNat_of_zero_le high.le
    have positive : 0 < p := by omega
    rcases le_or_gt digits.length p with behind | among
    · have all : ∀ c ∈ digits ++ List.replicate (p - digits.length) '0' ++ [], c.isDigit = true := by
        simp only [List.forall_mem_append]
        exact ⟨⟨plain, zeros_isDigit _⟩, by simp⟩
      have places : (p : ℤ) - digits.length + e = (p - digits.length : ℕ) + e := by omega
      rw [writeFixed_behind nonempty behind, read_pointed (by simp [nonempty]) all ended exponent,
        List.append_nil, Nat.ofDigitChars_append, Nat.ofDigitChars_replicate_zero, places,
        zpow_add₀ (by norm_num), zpow_natCast]
      push_cast
      simp only [List.length_nil, Nat.cast_zero, sub_zero, Option.some.injEq]
      ring
    · have all : ∀ c ∈ digits.take p ++ digits.drop p, c.isDigit = true := by
        rwa [List.take_append_drop]
      rw [writeFixed_among nonempty positive among,
        read_pointed (by simp [nonempty, positive.ne']) all ended exponent, List.take_append_drop]
      congr 3
      rw [List.length_drop]
      omega

theorem trimmed_value {n : ℕ} (positive : 0 < n) :
    trimmed (Nat.toDigits 10 n) ≠ [] ∧
      ∃ k, (Nat.toDigits 10 n).length = (trimmed (Nat.toDigits 10 n)).length + k ∧
        n = 10 ^ k * Nat.ofDigitChars 10 (trimmed (Nat.toDigits 10 n)) 0 := by
  obtain ⟨k, whole⟩ := trimmed_append (Nat.toDigits 10 n)
  have value : n = 10 ^ k * Nat.ofDigitChars 10 (trimmed (Nat.toDigits 10 n)) 0 := by
    have := congrArg (Nat.ofDigitChars 10 · 0) whole
    rwa [Nat.ofDigitChars_ten_toDigits, Nat.ofDigitChars_append, Nat.ofDigitChars_replicate_zero] at this
  refine ⟨?_, k, ?_, value⟩
  · intro empty
    rw [empty, Nat.ofDigitChars_nil, Nat.mul_zero] at value
    omega
  · have := congrArg List.length whole
    rwa [List.length_append, List.length_replicate] at this

theorem read_write {d : Decimal} (positive : 0 < d.digits) : read d.write = some d.value := by
  obtain ⟨nonempty, k, length, value⟩ := trimmed_value positive
  have same : ((Nat.ofDigitChars 10 (trimmed (Nat.toDigits 10 d.digits)) 0 : ℕ) : ℚ) *
      10 ^ (((Nat.toDigits 10 d.digits).length : ℤ) + d.exponent -
        (trimmed (Nat.toDigits 10 d.digits)).length) = d.value := by
    have places : ((Nat.toDigits 10 d.digits).length : ℤ) + d.exponent -
        (trimmed (Nat.toDigits 10 d.digits)).length = k + d.exponent := by omega
    have cast := congrArg (Nat.cast (R := ℚ)) value
    push_cast at cast
    rw [places, zpow_add₀ (by norm_num), zpow_natCast, Decimal.value, cast]
    ring
  simp only [Decimal.write]
  split
  · rw [read_writeFixed nonempty trimmed_isDigit 1 (by simp [writeExponent])
      (readExponent_writeExponent _), ← same]
    congr 3
    ring
  · have text := @read_writeFixed _ [] nonempty trimmed_isDigit
      ((Nat.toDigits 10 d.digits).length + d.exponent) (by simp) 0 rfl
    rw [List.append_nil, add_zero] at text
    rw [text, same]

/-- Who rounds what the text says gets the number back. -/
theorem read_format {x : ℚ} (h : Representable x) (nonneg : 0 ≤ x) :
    ∃ v, read (format x) = some v ∧ round v = x := by
  rcases nonneg.eq_or_lt with rfl | positive
  · exact ⟨0, by decide +kernel, rfl⟩
  · have rounded := shortest_round h positive
    have some_ : 0 < (shortest x).digits := by
      by_contra zero
      have zero : (shortest x).digits = 0 := by omega
      rw [Decimal.value, zero, Nat.cast_zero, zero_mul] at rounded
      exact positive.ne rounded
    refine ⟨(shortest x).value, ?_, rounded⟩
    rw [format, if_pos positive, read_write some_]

theorem mem_writeFixed {point : ℤ} {c : Char} (plain : ∀ c ∈ digits, c.isDigit = true)
    (h : c ∈ writeFixed digits point) : c.isDigit = true ∨ c = '.' := by
  refine mem_pointed ?_ h
  simp only [List.forall_mem_append]
  refine ⟨?_, zeros_isDigit _, fun c hc => plain c (List.mem_of_mem_drop hc)⟩
  split
  · exact zeros_isDigit 1
  · simp only [List.forall_mem_append]
    exact ⟨fun c hc => plain c (List.mem_of_mem_take hc), zeros_isDigit _⟩

theorem mem_writeExponent {e : ℤ} {c : Char} (h : c ∈ writeExponent e) :
    c.isDigit = true ∨ c ∈ ['e', '+', '-'] := by
  simp only [writeExponent] at h
  rcases List.mem_cons.mp h with rfl | h
  · exact .inr (by decide)
  rcases List.mem_cons.mp h with rfl | h
  · split
    · exact .inr (by decide)
    · exact .inr (by decide)
  split at h
  · rcases List.mem_cons.mp h with rfl | h
    · exact .inl rfl
    · exact .inl (toDigits_isDigit h)
  · exact .inl (toDigits_isDigit h)

theorem mem_format {x : ℚ} {c : Char} (h : c ∈ format x) :
    c.isDigit = true ∨ c ∈ ['.', 'e', '+', '-'] := by
  have fixed : ∀ {n point}, c ∈ writeFixed (trimmed (Nat.toDigits 10 n)) point →
      c.isDigit = true ∨ c ∈ ['.', 'e', '+', '-'] := by
    intro n point h
    rcases mem_writeFixed trimmed_isDigit h with digit | rfl
    · exact .inl digit
    · exact .inr (by decide)
  unfold format at h
  split at h
  · simp only [Decimal.write] at h
    split at h
    · rcases List.mem_append.mp h with h | h
      · exact fixed h
      · exact (mem_writeExponent h).imp_right (List.mem_cons_of_mem _)
    · exact fixed h
  · rw [List.mem_singleton.mp h]
    exact .inl rfl

end Text

end Binary64
