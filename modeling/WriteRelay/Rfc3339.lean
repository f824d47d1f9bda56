import WriteRelay.Clock

/-! RFC 3339 texts: the strict pattern of the SDKs and the wider one of Go's
`time.Parse`, which also takes a one-digit hour and a comma before the fraction. -/
namespace WriteRelay.Clock
open Calendar

/-- The fields of a timestamp text as written. `Z` is the offset zero. -/
structure Stamp where
  year : Nat
  month : Nat
  day : Nat
  hour : Nat
  minute : Nat
  second : Nat
  fraction : List Char
  negative : Bool
  offsetHour : Nat
  offsetMinute : Nat
  deriving DecidableEq

def decimal (c : Char) : Option Nat := if '0' ≤ c ∧ c ≤ '9' then some (c.toNat - 48) else none

def isDecimal (c : Char) : Bool := (decimal c).isSome

def readDigits : Nat → Nat → List Char → Option (Nat × List Char)
  | 0, acc, text => some (acc, text)
  | _ + 1, _, [] => none
  | n + 1, acc, c :: rest => (decimal c).bind fun d => readDigits n (10 * acc + d) rest

def expect (c : Char) : List Char → Option (List Char)
  | d :: rest => if d = c then some rest else none
  | [] => none

/-- Two digits or, where Go is lenient, one. -/
def readHour (lenient : Bool) (text : List Char) : Option (Nat × List Char) :=
  (readDigits 2 0 text).or (if lenient then readDigits 1 0 text else none)

def fractionMark (lenient : Bool) (c : Char) : Bool := c = '.' || (lenient && c = ',')

def readFraction (lenient : Bool) : List Char → List Char × List Char
  | mark :: d :: rest =>
    if fractionMark lenient mark && isDecimal d then
      ((d :: rest).takeWhile isDecimal, (d :: rest).dropWhile isDecimal)
    else ([], mark :: d :: rest)
  | text => ([], text)

def readZone : List Char → Option (Bool × Nat × Nat)
  | ['Z'] => some (false, 0, 0)
  | sign :: rest => do
    let negative ← if sign = '-' then some true else if sign = '+' then some false else none
    let (hour, rest) ← readDigits 2 0 rest
    let rest ← expect ':' rest
    let (minute, rest) ← readDigits 2 0 rest
    if rest = [] then return (negative, hour, minute) else none
  | [] => none

def readStamp (lenient : Bool) (text : List Char) : Option Stamp := do
  let (year, text) ← readDigits 4 0 text
  let text ← expect '-' text
  let (month, text) ← readDigits 2 0 text
  let text ← expect '-' text
  let (day, text) ← readDigits 2 0 text
  let text ← expect 'T' text
  let (hour, text) ← readHour lenient text
  let text ← expect ':' text
  let (minute, text) ← readDigits 2 0 text
  let text ← expect ':' text
  let (second, text) ← readDigits 2 0 text
  let zone ← readZone (readFraction lenient text).2
  return ⟨year, month, day, hour, minute, second, (readFraction lenient text).1,
    zone.1, zone.2.1, zone.2.2⟩

def Stamp.civil (s : Stamp) : Bool :=
  1 ≤ s.month ∧ s.month ≤ 12 ∧ 1 ≤ s.day ∧ s.day ≤ daysIn s.year s.month ∧
    s.hour < 24 ∧ s.minute < 60 ∧ s.second < 60

def nanoseconds (fraction : List Char) : Nat :=
  (fraction ++ List.replicate 9 '0').take 9 |>.foldl (fun n c => 10 * n + (c.toNat - 48)) 0

def Stamp.offset (s : Stamp) : Int :=
  (if s.negative then -1 else 1) * (s.offsetHour * 3600 + s.offsetMinute * 60 : Nat)

def Stamp.instant (s : Stamp) : Instant :=
  ((dayNumber ⟨s.year, s.month, s.day⟩ - epochDay) * 86400 +
    (s.hour * 3600 + s.minute * 60 + s.second : Nat) - s.offset) * 1000000000 + nanoseconds s.fraction

/-- `time.Parse(time.RFC3339, value)`, and the same with `time.RFC3339Nano`: both take
a fraction of any length. -/
def parseRFC3339 (value : String) : Option Instant :=
  (readStamp true value.toList).bind fun s =>
    if s.civil ∧ s.offsetHour ≤ 24 ∧ s.offsetMinute ≤ 60 then some s.instant else none

example : parseRFC3339 "1970-01-01T01:00:00.5+01:00" = some 500000000 := by decide
example : parseRFC3339 "2001-02-29T00:00:00Z" = none := by decide

section Strict

variable {text : List Char}

theorem readHour_lenient {r : Nat × List Char} (h : readHour false text = some r) :
    readHour true text = some r := by
  unfold readHour at h ⊢
  cases two : readDigits 2 0 text with
  | none =>
    rw [two] at h
    contradiction
  | some p =>
    rw [two] at h
    exact h

theorem readFraction_lenient {zone : Bool × Nat × Nat}
    (h : readZone (readFraction false text).2 = some zone) :
    readFraction true text = readFraction false text := by
  rcases text with _ | ⟨mark, _ | ⟨d, rest⟩⟩
  · rfl
  · rfl
  · by_cases comma : mark = ','
    · subst comma
      simp [readFraction, fractionMark, readZone] at h
    · simp [readFraction, fractionMark, comma]

/-- Go reads every strict text, with the same fields. -/
theorem readStamp_lenient {s : Stamp} (h : readStamp false text = some s) :
    readStamp true text = some s := by
  simp only [readStamp, Option.bind_eq_bind, Option.bind_eq_some_iff] at h ⊢
  obtain ⟨year, h1, t2, h2, month, h3, t4, h4, day, h5, t6, h6, hour, h7, t8, h8, minute, h9, t10, h10,
    second, h11, zone, h12, same⟩ := h
  have fraction := readFraction_lenient h12
  rw [← fraction] at h12 same
  exact ⟨year, h1, t2, h2, month, h3, t4, h4, day, h5, t6, h6, hour, readHour_lenient h7, t8, h8,
    minute, h9, t10, h10, second, h11, zone, h12, same⟩

theorem parseRFC3339_strict {value : String} {s : Stamp} (h : readStamp false value.toList = some s)
    (civil : s.civil = true) (hour : s.offsetHour < 24) (minute : s.offsetMinute < 60) :
    parseRFC3339 value = some s.instant := by
  rw [parseRFC3339, readStamp_lenient h, Option.bind_some, if_pos ⟨civil, hour.le, minute.le⟩]

end Strict

section Zone

variable {text rest : List Char} {n acc v : Nat}

theorem decimal_bounds {c : Char} {d : Nat} (h : decimal c = some d) : 48 ≤ c.toNat ∧ c.toNat = d + 48 ∧ d < 10 := by
  unfold decimal at h
  split at h
  · rename_i digit
    cases Option.some.inj h
    have low : 48 ≤ c.toNat := digit.1
    have high : c.toNat ≤ 57 := digit.2
    omega
  · contradiction

def Follows (rest text : List Char) : Prop := ∃ read, text = read ++ rest ∧ ∀ c ∈ read, 43 ≤ c.toNat

theorem Follows.refl (text : List Char) : Follows text text := ⟨[], rfl, nofun⟩

theorem Follows.trans {a b c : List Char} (h : Follows a b) (h' : Follows b c) : Follows a c := by
  obtain ⟨first, rfl, firsts⟩ := h
  obtain ⟨second, rfl, seconds⟩ := h'
  exact ⟨second ++ first, by rw [List.append_assoc], List.forall_mem_append.mpr ⟨seconds, firsts⟩⟩

instance : Trans Follows Follows Follows := ⟨Follows.trans⟩

theorem follows_cons {c : Char} (h : 43 ≤ c.toNat) (text : List Char) : Follows text (c :: text) :=
  ⟨[c], rfl, List.forall_mem_singleton.mpr h⟩

theorem readDigits_follows (h : readDigits n acc text = some (v, rest)) : Follows rest text := by
  induction n generalizing acc text with
  | zero =>
    cases Option.some.inj h
    exact .refl _
  | succ n ih =>
    cases text with
    | nil => contradiction
    | cons c text =>
      obtain ⟨d, digit, h⟩ := Option.bind_eq_some_iff.mp h
      have := decimal_bounds digit
      exact (ih h).trans (follows_cons (by omega) text)

theorem readDigits_two (h : readDigits 2 0 text = some (v, rest)) :
    ∃ a b : Char, text = a :: b :: rest ∧ 48 ≤ a.toNat ∧ a.toNat < 58 ∧ 48 ≤ b.toNat ∧ b.toNat < 58 ∧
      v + 528 = 10 * a.toNat + b.toNat := by
  obtain _ | ⟨a, _ | ⟨b, text⟩⟩ := text
  · contradiction
  · obtain ⟨d, _, h⟩ := Option.bind_eq_some_iff.mp h
    contradiction
  · obtain ⟨d, first, h⟩ := Option.bind_eq_some_iff.mp h
    obtain ⟨e, second, h⟩ := Option.bind_eq_some_iff.mp h
    cases Option.some.inj h
    have ha := decimal_bounds first
    have hb := decimal_bounds second
    exact ⟨a, b, rfl, by omega, by omega, by omega, by omega, by omega⟩

theorem expect_eq {c : Char} (h : expect c text = some rest) : text = c :: rest := by
  cases text with
  | nil => contradiction
  | cons d text =>
    rw [expect] at h
    split at h
    · rename_i same
      cases Option.some.inj h
      rw [same]
    · contradiction

theorem dropWhile_follows (text : List Char) : Follows (text.dropWhile isDecimal) text := by
  apply Exists.intro (text.takeWhile isDecimal)
  apply And.intro List.takeWhile_append_dropWhile.symm
  intro c hc
  have digit : isDecimal c = true := List.mem_takeWhile_imp hc
  obtain ⟨d, digit⟩ := Option.isSome_iff_exists.mp digit
  have := decimal_bounds digit
  omega

theorem readFraction_follows (lenient : Bool) (text : List Char) :
    Follows (readFraction lenient text).2 text := by
  unfold readFraction
  split
  · rename_i mark d rest
    split
    · rename_i marked
      have low : 43 ≤ mark.toNat := by
        simp only [fractionMark, Bool.and_eq_true, Bool.or_eq_true, decide_eq_true_eq] at marked
        rcases marked.1 with rfl | ⟨_, rfl⟩ <;> decide
      exact (dropWhile_follows (d :: rest)).trans (follows_cons low _)
    · exact .refl _
  · exact .refl _

theorem readZone_cases {negative : Bool} {hour minute : Nat}
    (h : readZone text = some (negative, hour, minute)) :
    text = ['Z'] ∧ hour = 0 ∧ minute = 0 ∨
    ∃ sign a b c d : Char, text = [sign, a, b, ':', c, d] ∧ (sign = '-' ∨ sign = '+') ∧
      (48 ≤ a.toNat ∧ a.toNat < 58 ∧ 48 ≤ b.toNat ∧ b.toNat < 58 ∧ hour + 528 = 10 * a.toNat + b.toNat) ∧
      48 ≤ c.toNat ∧ c.toNat < 58 ∧ 48 ≤ d.toNat ∧ d.toNat < 58 ∧ minute + 528 = 10 * c.toNat + d.toNat := by
  unfold readZone at h
  split at h
  · cases Option.some.inj h
    exact .inl ⟨rfl, rfl, rfl⟩
  · rename_i sign text _
    have signed : ∃ minus, (sign = '-' ∨ sign = '+') ∧ (do
        let (hour, rest) ← readDigits 2 0 text
        let rest ← expect ':' rest
        let (minute, rest) ← readDigits 2 0 rest
        if rest = [] then return (minus, hour, minute) else none) = some (negative, hour, minute) := by
      split at h
      · exact ⟨true, .inl ‹_›, h⟩
      · split at h
        · exact ⟨false, .inr ‹_›, h⟩
        · contradiction
    obtain ⟨minus, sign_, numbers⟩ := signed
    simp only [Option.bind_eq_bind, Option.bind_eq_some_iff] at numbers
    obtain ⟨⟨_, _⟩, first, _, colon, ⟨_, _⟩, second, ended⟩ := numbers
    obtain ⟨a, b, rfl, hours⟩ := readDigits_two first
    cases expect_eq colon
    obtain ⟨c, d, rfl, minutes⟩ := readDigits_two second
    split at ended
    · rename_i empty
      cases Option.some.inj ended
      dsimp only at empty
      subst empty
      exact .inr ⟨sign, a, b, c, d, rfl, sign_, hours, minutes⟩
    · contradiction
  · contradiction

theorem readStamp_zone {s : Stamp} (h : readStamp false text = some s) :
    ∃ zone, Follows zone text ∧ readZone zone = some (s.negative, s.offsetHour, s.offsetMinute) := by
  simp only [readStamp, Option.bind_eq_bind, Option.bind_eq_some_iff] at h
  obtain ⟨year, h1, t2, h2, month, h3, t4, h4, day, h5, t6, h6, hour, h7, t8, h8, minute, h9, t10, h10,
    second, h11, zone, h12, same⟩ := h
  cases Option.some.inj same
  have skip : ∀ {c : Char} {a b : List Char}, 43 ≤ c.toNat → expect c a = some b → Follows b a := by
    intro c a b low h
    rw [expect_eq h]
    exact follows_cons low b
  have hours : Follows hour.2 t6 := by
    simp only [readHour, Bool.false_eq_true, if_false, Option.or_none] at h7
    exact readDigits_follows h7
  apply Exists.intro (readFraction false second.2).2
  constructor
  · calc Follows (readFraction false second.2).2 second.2 := readFraction_follows _ _
      Follows _ t10 := readDigits_follows h11
      Follows _ minute.2 := skip (by decide) h10
      Follows _ t8 := readDigits_follows h9
      Follows _ hour.2 := skip (by decide) h8
      Follows _ t6 := hours
      Follows _ day.2 := skip (by decide) h6
      Follows _ t4 := readDigits_follows h5
      Follows _ month.2 := skip (by decide) h4
      Follows _ t2 := readDigits_follows h3
      Follows _ year.2 := skip (by decide) h2
      Follows _ text := readDigits_follows h1
  · exact h12

theorem readStamp_low {s : Stamp} (h : readStamp false text = some s) : ∀ c ∈ text, 43 ≤ c.toNat := by
  obtain ⟨zone, ⟨front, rfl, fronts⟩, read⟩ := readStamp_zone h
  rw [List.forall_mem_append]
  apply And.intro fronts
  rcases readZone_cases read with ⟨rfl, _⟩ | ⟨sign, a, b, c, d, rfl, signed, hours, minutes⟩
  · exact List.forall_mem_singleton.mpr (by decide)
  · simp only [List.forall_mem_cons]
    have sign_ : 43 ≤ sign.toNat := by rcases signed with rfl | rfl <;> decide
    exact ⟨sign_, by omega, by omega, by decide, by omega, by omega, nofun⟩

end Zone

end WriteRelay.Clock
