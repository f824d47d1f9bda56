import WriteRelay.Base.Utf8

/-! UTF-16 strings of code units, where a surrogate may stand without its partner. -/
namespace Utf16

def isHigh (unit : UInt16) : Bool := 0xD800 ≤ unit && unit ≤ 0xDBFF

def isLow (unit : UInt16) : Bool := 0xDC00 ≤ unit && unit ≤ 0xDFFF

def combine (high low : UInt16) : Nat := (high.toNat - 0xD800) * 1024 + (low.toNat - 0xDC00) + 0x10000

/-- The code points of a string: a surrogate without its partner stands for itself. -/
def codePoints : List UInt16 → List Nat
  | [] => []
  | [unit] => [unit.toNat]
  | high :: low :: rest =>
    if isHigh high && isLow low then combine high low :: codePoints rest
    else high.toNat :: codePoints (low :: rest)

def surrogate (point : Nat) : Bool := 0xD800 ≤ point && point ≤ 0xDFFF

def encodeChar (c : Char) : List UInt16 :=
  let v := c.val.toNat
  if v < 0x10000 then [.ofNat v]
  else [.ofNat (0xD800 + (v - 0x10000) / 1024), .ofNat (0xDC00 + (v - 0x10000) % 1024)]

def encode (s : List Char) : List UInt16 := s.flatMap encodeChar

theorem unit_eq {u : UInt16} {n : Nat} (h : u.toNat = n) : UInt16.ofNat n = u := by
  rw [← h]
  exact UInt16.ofNat_toNat

theorem encodeChar_unit {unit : UInt16} (alone : surrogate unit.toNat = false) :
    encodeChar (Char.ofNat unit.toNat) = [unit] := by
  have range := unit.toNat_lt
  have scalar : unit.toNat < 0xD800 ∨ 0xDFFF < unit.toNat := by
    simp only [surrogate, Bool.and_eq_false_iff, decide_eq_false_iff_not] at alone
    omega
  unfold encodeChar
  rw [Utf8.toNat_ofNat (by omega)]
  simp only
  rw [if_pos (by omega), unit_eq rfl]

theorem encodeChar_pair {high low : UInt16} (pair : (isHigh high && isLow low) = true) :
    encodeChar (Char.ofNat (combine high low)) = [high, low] := by
  simp only [isHigh, isLow, Bool.and_eq_true, decide_eq_true_eq, UInt16.le_iff_toNat_le,
    UInt16.reduceToNat] at pair
  unfold encodeChar combine
  rw [Utf8.toNat_ofNat (by omega)]
  simp only
  rw [if_neg (by omega), unit_eq (u := high) (by omega), unit_eq (u := low) (by omega)]

theorem encode_codePoints {units : List UInt16}
    (paired : ∀ point ∈ codePoints units, surrogate point = false) :
    encode ((codePoints units).map Char.ofNat) = units := by
  induction units using codePoints.induct with
  | case1 => rfl
  | case2 unit =>
    have alone := paired unit.toNat (by simp [codePoints])
    simp [codePoints, encode, encodeChar_unit alone]
  | case3 high low rest pair ih =>
    simp only [codePoints, if_pos pair, List.mem_cons, forall_eq_or_imp] at paired ⊢
    rw [List.map_cons, encode, List.flatMap_cons, ← encode, ih paired.2, encodeChar_pair pair]
    rfl
  | case4 high low rest pair ih =>
    simp only [codePoints, if_neg pair, List.mem_cons, forall_eq_or_imp] at paired ⊢
    rw [List.map_cons, encode, List.flatMap_cons, ← encode, ih paired.2, encodeChar_unit paired.1]
    rfl

theorem codePoints_single {unit : UInt16} (rest : List UInt16) (alone : isHigh unit = false) :
    codePoints (unit :: rest) = unit.toNat :: codePoints rest := by
  cases rest with
  | nil => rfl
  | cons low rest => simp [codePoints, alone]

theorem encodeChar_cases (c : Char) :
    (∃ unit, encodeChar c = [unit] ∧ unit.toNat = c.val.toNat ∧ isHigh unit = false ∧ isLow unit = false) ∨
      ∃ high low, encodeChar c = [high, low] ∧ combine high low = c.val.toNat ∧
        (isHigh high && isLow low) = true := by
  have scalar : c.val.toNat < 0xD800 ∨ 0xDFFF < c.val.toNat ∧ c.val.toNat < 0x110000 := c.valid
  unfold encodeChar
  dsimp only
  generalize c.val.toNat = v at scalar
  split
  · rename_i small
    have value : (UInt16.ofNat v).toNat = v := UInt16.toNat_ofNat_of_lt' small
    refine .inl ⟨_, rfl, value, ?_, ?_⟩ <;>
    · simp only [isHigh, isLow, Bool.and_eq_false_iff, decide_eq_false_iff_not, UInt16.le_iff_toNat_le, value,
        UInt16.reduceToNat]
      omega
  · rename_i large
    have high : (UInt16.ofNat (0xD800 + (v - 0x10000) / 1024)).toNat = 0xD800 + (v - 0x10000) / 1024 :=
      UInt16.toNat_ofNat_of_lt' (by show _ < 2 ^ 16; omega)
    have low : (UInt16.ofNat (0xDC00 + (v - 0x10000) % 1024)).toNat = 0xDC00 + (v - 0x10000) % 1024 :=
      UInt16.toNat_ofNat_of_lt' (by show _ < 2 ^ 16; omega)
    refine .inr ⟨_, _, rfl, ?_, ?_⟩
    · rw [combine, high, low]
      omega
    · simp only [isHigh, isLow, Bool.and_eq_true, decide_eq_true_eq, UInt16.le_iff_toNat_le, high, low,
        UInt16.reduceToNat]
      omega

theorem codePoints_encode (s : List Char) : codePoints (encode s) = s.map fun c => c.val.toNat := by
  induction s with
  | nil => rfl
  | cons c s ih =>
    rw [encode, List.flatMap_cons, ← encode, List.map_cons, ← ih]
    rcases encodeChar_cases c with ⟨unit, same, value, alone, _⟩ | ⟨high, low, same, value, pair⟩
    · rw [same, List.singleton_append, codePoints_single _ alone, value]
    · simp only [same, List.cons_append, List.nil_append, codePoints, pair, if_true, value]

def Unpaired (units : List UInt16) : Prop := ∃ before unit after, units = before ++ unit :: after ∧
  (isHigh unit = true ∧ after.head?.any isLow = false ∨
    isLow unit = true ∧ before.getLast?.any isHigh = false)

theorem surrogate_iff {unit : UInt16} :
    surrogate unit.toNat = true ↔ isHigh unit = true ∨ isLow unit = true := by
  simp only [surrogate, isHigh, isLow, Bool.and_eq_true, decide_eq_true_eq, UInt16.le_iff_toNat_le,
    UInt16.reduceToNat]
  omega

theorem not_low {unit : UInt16} (high : isHigh unit = true) : isLow unit = false := by
  simp only [isHigh, isLow, Bool.and_eq_true, Bool.and_eq_false_iff, decide_eq_true_eq,
    decide_eq_false_iff_not, UInt16.le_iff_toNat_le, UInt16.reduceToNat] at high ⊢
  omega

theorem not_high {unit : UInt16} (low : isLow unit = true) : isHigh unit = false := by
  cases high : isHigh unit with
  | false => rfl
  | true =>
    rw [not_low high] at low
    contradiction

theorem surrogate_combine (high low : UInt16) : surrogate (combine high low) = false := by
  have large : 0x10000 ≤ combine high low := Nat.le_add_left _ _
  have above : ¬combine high low ≤ 0xDFFF := by omega
  simp [surrogate, above]

theorem unpaired_cons {unit : UInt16} {units : List UInt16} (alone : isHigh unit = false) :
    Unpaired (unit :: units) ↔ isLow unit = true ∨ Unpaired units := by
  constructor
  · rintro ⟨_ | ⟨first, before⟩, bad, after, same, kind⟩
    · obtain ⟨rfl, rfl⟩ := List.cons.inj same
      exact .inl (kind.elim (fun high => absurd high.1 (by simp [alone])) And.left)
    · obtain ⟨rfl, rfl⟩ := List.cons.inj same
      refine .inr ⟨before, bad, after, rfl, kind.imp_right fun low => ⟨low.1, ?_⟩⟩
      cases before with
      | nil => rfl
      | cons => exact low.2
  · rintro (low | ⟨before, bad, after, rfl, kind⟩)
    · exact ⟨[], unit, units, rfl, .inr ⟨low, rfl⟩⟩
    · refine ⟨unit :: before, bad, after, rfl, kind.imp_right fun low => ⟨low.1, ?_⟩⟩
      cases before with
      | nil => exact alone
      | cons => exact low.2

theorem unpaired_pair {high low : UInt16} {units : List UInt16} (pair : (isHigh high && isLow low) = true) :
    Unpaired (high :: low :: units) ↔ Unpaired units := by
  obtain ⟨first, second⟩ := Bool.and_eq_true_iff.mp pair
  constructor
  · rintro ⟨_ | ⟨x, _ | ⟨y, before⟩⟩, bad, after, same, kind⟩
    · obtain ⟨rfl, rfl⟩ := List.cons.inj same
      rcases kind with ⟨_, alone⟩ | ⟨low, _⟩
      · simp [second] at alone
      · rw [not_low first] at low
        contradiction
    · simp only [List.cons_append, List.nil_append, List.cons.injEq] at same
      obtain ⟨rfl, rfl, rfl⟩ := same
      rcases kind with ⟨other, _⟩ | ⟨_, alone⟩
      · rw [not_high second] at other
        contradiction
      · simp [first] at alone
    · simp only [List.cons_append, List.cons.injEq] at same
      obtain ⟨rfl, rfl, rfl⟩ := same
      refine ⟨before, bad, after, rfl, kind.imp_right fun low => ⟨low.1, ?_⟩⟩
      cases before with
      | nil => rfl
      | cons => exact low.2
  · rintro ⟨before, bad, after, rfl, kind⟩
    refine ⟨high :: low :: before, bad, after, rfl, kind.imp_right fun alone => ⟨alone.1, ?_⟩⟩
    cases before with
    | nil => exact not_high second
    | cons => exact alone.2

theorem unpaired_high {unit : UInt16} {units : List UInt16} (high : isHigh unit = true)
    (alone : units.head?.any isLow = false) : Unpaired (unit :: units) :=
  ⟨[], unit, units, rfl, .inl ⟨high, alone⟩⟩

/-- The code points hold a surrogate exactly where the string has an unpaired one. -/
theorem unpaired_iff {units : List UInt16} :
    Unpaired units ↔ ∃ point ∈ codePoints units, surrogate point = true := by
  induction units using codePoints.induct with
  | case1 => simp [Unpaired, codePoints]
  | case2 unit =>
    simp only [codePoints, List.mem_singleton, exists_eq_left, surrogate_iff]
    cases high : isHigh unit with
    | true =>
      have lone : Unpaired [unit] := unpaired_high high rfl
      simp [lone]
    | false =>
      have nothing : ¬Unpaired [] := by simp [Unpaired]
      simp [unpaired_cons high, nothing]
  | case3 high low rest pair ih =>
    rw [unpaired_pair pair, ih]
    simp [codePoints, pair, surrogate_combine]
  | case4 first second rest pair ih =>
    simp only [codePoints, if_neg pair, List.mem_cons, exists_eq_or_imp, surrogate_iff]
    cases high : isHigh first with
    | true =>
      have alone : isLow second = false := by simpa [high] using pair
      have lone : Unpaired (first :: second :: rest) := unpaired_high high alone
      simp [lone]
    | false => simp [unpaired_cons high, ih]

end Utf16
