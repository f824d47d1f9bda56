import WriteRelay.Base.JsonStrings
import WriteRelay.Sdk.Go

/-! `validJSON` accepts exactly the JSON texts whose strings PostgreSQL can store. -/
namespace WriteRelay.Go

/-- `validJSON` with any decision of the grammar in the place of `json.Valid`. -/
def validJSONWith (grammar : Bytes → Bool) (data : Bytes) : Option Bool :=
  if (Utf8.decode data).isNone ∨ grammar data = false then some false else validEscapes data

theorem validJSON_eq : validJSON = validJSONWith jsonValid := rfl

def Clean (units : List UInt16) : Prop := 0 ∉ units ∧ ¬Utf16.Unpaired units

def StorableToken (token : List Char) : Prop := ∃ units, Json.tokenUnits token = some units ∧ Clean units

/-- One JSON text in UTF-8 with nothing in its string tokens that `jsonb` refuses. -/
def Storable (data : Bytes) : Prop := ∃ text, Utf8.decode data = some text ∧
  (∃ tree, Json.Reads data tree) ∧ ∀ token ∈ Json.stringTokens text, StorableToken token

section Units

open Utf16

variable {unit : UInt16} {units : List UInt16}

theorem clean_nil : Clean [] := by simp [Clean, Unpaired]

theorem clean_cons (alone : isHigh unit = false) :
    Clean (unit :: units) ↔ unit ≠ 0 ∧ isLow unit = false ∧ Clean units := by
  rw [Clean, Clean, unpaired_cons alone, List.mem_cons, not_or, not_or, Bool.not_eq_true, ne_comm]
  tauto

theorem clean_pair {high low : UInt16} (pair : (isHigh high && isLow low) = true) :
    Clean (high :: low :: units) ↔ Clean units := by
  have zero : high ≠ 0 ∧ low ≠ 0 := by
    constructor <;> rintro rfl
    · contradiction
    · simp [isLow] at pair
  simp [Clean, unpaired_pair pair, zero.1.symm, zero.2.symm]

theorem not_clean_high (high : isHigh unit = true) (alone : units.head?.any isLow = false) :
    ¬Clean (unit :: units) := fun clean => clean.2 (unpaired_high high alone)

theorem clean_encodeChar {c : Char} (some_ : 0x20 ≤ c.val.toNat) :
    Clean (encodeChar c ++ units) ↔ Clean units := by
  rcases encodeChar_cases c with ⟨unit, same, value, high, low⟩ | ⟨high, low, same, _, pair⟩
  · have nonzero : unit ≠ 0 := by
      rintro rfl
      change 0 = _ at value
      omega
    rw [same, List.singleton_append, clean_cons high]
    simp [nonzero, low]
  · rw [same]
    exact clean_pair pair

theorem head_encodeChar (c : Char) : (encodeChar c ++ units).head?.any isLow = false := by
  rcases encodeChar_cases c with ⟨unit, same, _, _, low⟩ | ⟨high, low, same, _, pair⟩
  · rw [same]
    exact low
  · rw [same]
    exact not_low (Bool.and_eq_true_iff.mp pair).1

theorem escapeUnit_cases {e : Char} (h : Json.escapeUnit e = some unit) :
    unit ≠ 0 ∧ isHigh unit = false ∧ isLow unit = false ∧ e ≠ 'u' ∧ e.val.toNat < 0x80 := by
  unfold Json.escapeUnit at h
  split at h
  case h_9 => contradiction
  all_goals
    cases Option.some.inj h
    decide

end Units

section Scan

open Utf16 (isHigh isLow)

theorem validEscapes_plain {b : UInt8} (plain : b ≠ 0x5C) (rest : Bytes) :
    validEscapes (b :: rest) = validEscapes rest := by
  rw [validEscapes] <;> simp_all

theorem validEscapes_append {pre : Bytes} (plain : ∀ b ∈ pre, b ≠ 0x5C) (rest : Bytes) :
    validEscapes (pre ++ rest) = validEscapes rest := by
  induction pre with
  | nil => rfl
  | cons b pre ih =>
    obtain ⟨first, others⟩ := List.forall_mem_cons.mp plain
    rw [List.cons_append, validEscapes_plain first, ih others]

theorem encodeChar_plain {c : Char} (plain : c ≠ '\\') : ∀ b ∈ String.utf8EncodeChar c, b ≠ 0x5C := by
  rintro b found rfl
  by_cases small : c.val.toNat < 0x80
  · rw [Utf8.encodeChar_small small, List.mem_singleton] at found
    have value := congrArg UInt8.toNat found
    rw [Utf8.toNat_byte (by omega)] at value
    exact plain (Char.ext (UInt32.toNat_inj.mp value.symm))
  · have := Utf8.encodeChar_large (by omega) found
    simp at this

theorem validEscapes_char {c : Char} (plain : c ≠ '\\') (t : List Char) :
    validEscapes (Utf8.encode (c :: t)) = validEscapes (Utf8.encode t) :=
  validEscapes_append (encodeChar_plain plain) (Utf8.encode t)

theorem encode_short {e : Char} (ascii : e.val.toNat < 0x80) (t : List Char) :
    Utf8.encode ('\\' :: e :: t) = 0x5C :: UInt8.ofNat e.val.toNat :: Utf8.encode t := by
  have bytes : Utf8.encode ('\\' :: e :: t) = String.utf8EncodeChar '\\' ++
      (String.utf8EncodeChar e ++ Utf8.encode t) := rfl
  rw [bytes, Utf8.encodeChar_small ascii]
  rfl

theorem validEscapes_escape {e : UInt8} (other : e ≠ 0x75) (rest : Bytes) :
    validEscapes (0x5C :: e :: rest) = validEscapes rest := by
  rw [validEscapes] <;> simp_all

theorem short_byte {e : Char} (ascii : e.val.toNat < 0x80) (other : e ≠ 'u') :
    UInt8.ofNat e.val.toNat ≠ 0x75 := by
  intro same
  have value := congrArg UInt8.toNat same
  rw [Utf8.toNat_byte (by omega)] at value
  exact other (Char.ext (UInt32.toNat_inj.mp value))

theorem encode_unit {a b c d : Char} {unit : Nat} (digits : Json.hexUnit a b c d = some unit) (t : List Char) :
    ∃ w x y z, Utf8.encode ('\\' :: 'u' :: a :: b :: c :: d :: t) =
        0x5C :: 0x75 :: w :: x :: y :: z :: Utf8.encode t ∧ parseUnit w x y z = some unit ∧ unit < 0x10000 := by
  have digit : ∀ {c : Char} {n : Nat}, Json.hexChar c = some n → c.val.toNat < 0x80 ∧
      Json.hexValue (UInt8.ofNat c.val.toNat) = some n ∧ n < 16 := by
    intro c n h
    unfold Json.hexChar at h
    split at h
    · rename_i ascii
      exact ⟨ascii, h, (Json.hexValue_bounds h).2⟩
    · contradiction
  simp only [Json.hexUnit, Option.bind_eq_bind, Option.bind_eq_some_iff, Option.pure_def,
    Option.some.injEq] at digits
  obtain ⟨n₁, ha, n₂, hb, n₃, hc, n₄, hd, rfl⟩ := digits
  obtain ⟨asciiA, ha, smallA⟩ := digit ha
  obtain ⟨asciiB, hb, smallB⟩ := digit hb
  obtain ⟨asciiC, hc, smallC⟩ := digit hc
  obtain ⟨asciiD, hd, smallD⟩ := digit hd
  refine ⟨UInt8.ofNat a.val.toNat, UInt8.ofNat b.val.toNat, UInt8.ofNat c.val.toNat,
    UInt8.ofNat d.val.toNat, ?_, ?_, by omega⟩
  · have bytes : Utf8.encode ('\\' :: 'u' :: a :: b :: c :: d :: t) =
        Utf8.encode ['\\', 'u'] ++ (Utf8.encode [a, b, c, d] ++ Utf8.encode t) := by
      rw [← Utf8.encode_append, ← Utf8.encode_append]
      rfl
    have ascii : ∀ x ∈ [a, b, c, d], x.val.toNat < 0x80 := by
      simp only [List.forall_mem_cons]
      exact ⟨asciiA, asciiB, asciiC, asciiD, List.forall_mem_nil _⟩
    rw [bytes, Utf8.encode_ascii ascii]
    rfl
  · simp only [parseUnit, Json.readUnit, ha, hb, hc, hd]
    rfl

theorem unit_kind {unit : Nat} (small : unit < 0x10000) :
    (UInt16.ofNat unit = 0 ↔ unit = 0) ∧
      (isHigh (UInt16.ofNat unit) = true ↔ 0xD800 ≤ unit ∧ unit ≤ 0xDBFF) ∧
      (isLow (UInt16.ofNat unit) = true ↔ 0xDC00 ≤ unit ∧ unit ≤ 0xDFFF) := by
  have value : (UInt16.ofNat unit).toNat = unit := UInt16.toNat_ofNat_of_lt' small
  simp only [isHigh, isLow, Bool.and_eq_true, decide_eq_true_eq, UInt16.le_iff_toNat_le, value,
    ← UInt16.toNat_inj, UInt16.reduceToNat, and_true]

section Number

variable {w x y z : UInt8} {unit : Nat} {rest : Bytes}

theorem validEscapes_refused (parsed : parseUnit w x y z = some unit)
    (refused : unit = 0 ∨ 0xDC00 ≤ unit ∧ unit ≤ 0xDFFF) :
    validEscapes (0x5C :: 0x75 :: w :: x :: y :: z :: rest) = some false := by
  unfold validEscapes
  simp only [parsed, Option.getD_some, if_pos refused]

theorem validEscapes_single (parsed : parseUnit w x y z = some unit)
    (accepted : ¬(unit = 0 ∨ 0xDC00 ≤ unit ∧ unit ≤ 0xDFFF)) (single : ¬(0xD800 ≤ unit ∧ unit ≤ 0xDBFF)) :
    validEscapes (0x5C :: 0x75 :: w :: x :: y :: z :: rest) = validEscapes rest := by
  conv_lhs => unfold validEscapes
  simp only [parsed, Option.getD_some, if_neg accepted, if_neg single]

theorem validEscapes_alone (parsed : parseUnit w x y z = some unit) (high : 0xD800 ≤ unit ∧ unit ≤ 0xDBFF)
    (alone : ∀ more, rest ≠ 0x5C :: 0x75 :: more) :
    validEscapes (0x5C :: 0x75 :: w :: x :: y :: z :: rest) = some false := by
  have accepted : ¬(unit = 0 ∨ 0xDC00 ≤ unit ∧ unit ≤ 0xDFFF) := by omega
  unfold validEscapes
  simp only [parsed, Option.getD_some, if_neg accepted, if_pos high]
  split
  · exact absurd rfl (alone _)
  · rfl

theorem validEscapes_pair {w' x' y' z' : UInt8} {unit' : Nat} (parsed : parseUnit w x y z = some unit)
    (high : 0xD800 ≤ unit ∧ unit ≤ 0xDBFF) (parsed' : parseUnit w' x' y' z' = some unit') :
    validEscapes (0x5C :: 0x75 :: w :: x :: y :: z :: 0x5C :: 0x75 :: w' :: x' :: y' :: z' :: rest) =
      if 0xDC00 ≤ unit' ∧ unit' ≤ 0xDFFF then validEscapes rest else some false := by
  have accepted : ¬(unit = 0 ∨ 0xDC00 ≤ unit ∧ unit ≤ 0xDFFF) := by omega
  conv_lhs => unfold validEscapes
  simp only [parsed, Option.getD_some, if_neg accepted, if_pos high, parsed']
  split
  · rw [if_neg (by omega)]
  · rw [if_pos (by omega)]

end Number

/-- What follows an escape in a token: something that is no low surrogate in either reading,
or another escape by number. -/
theorem token_head {k : List Char} (token : Json.Token k) {units : List UInt16}
    (decoded : Json.tokenUnits k = some units) (t : List Char) :
    (units.head?.any isLow = false ∧ ∀ more, Utf8.encode (k ++ '"' :: t) ≠ 0x5C :: 0x75 :: more) ∨
      ∃ a b c d unit k', k = '\\' :: 'u' :: a :: b :: c :: d :: k' ∧
        Json.hexUnit a b c d = some unit ∧ Json.Token k' := by
  cases token with
  | nil =>
    cases Option.some.inj decoded
    exact .inl ⟨rfl, fun more same => absurd (List.cons.inj same).1 (by decide)⟩
  | @plain c k quote backslash printable token =>
    rw [Json.tokenUnits_plain backslash] at decoded
    obtain ⟨more, _, rfl⟩ := Option.map_eq_some_iff.mp decoded
    refine .inl ⟨head_encodeChar c, fun more same => ?_⟩
    obtain ⟨_, text, _⟩ := Utf8.encode_eq_cons same (by decide)
    exact backslash (List.cons.inj text).1
  | @short e unit k escape token =>
    obtain ⟨_, _, low, other, ascii⟩ := escapeUnit_cases escape
    rw [Json.tokenUnits_short escape] at decoded
    obtain ⟨more, _, rfl⟩ := Option.map_eq_some_iff.mp decoded
    refine .inl ⟨low, fun more same => ?_⟩
    rw [List.cons_append, List.cons_append, encode_short ascii] at same
    exact short_byte ascii other (List.cons.inj (List.cons.inj same).2).1
  | @unit a b c d unit k digits token => exact .inr ⟨a, b, c, d, unit, k, rfl, digits, token⟩

open scoped Classical in
theorem validEscapes_token {k : List Char} (token : Json.Token k) {units : List UInt16}
    (decoded : Json.tokenUnits k = some units) (t : List Char) :
    validEscapes (Utf8.encode (k ++ '"' :: t)) =
      if Clean units then validEscapes (Utf8.encode t) else some false := by
  induction size : k.length using Nat.strong_induction_on generalizing k units with
  | _ n ih =>
  subst size
  cases token with
  | nil =>
    cases Option.some.inj decoded
    rw [if_pos clean_nil]
    exact validEscapes_char (by decide) t
  | @plain c k quote backslash printable token =>
    rw [Json.tokenUnits_plain backslash] at decoded
    obtain ⟨more, others, rfl⟩ := Option.map_eq_some_iff.mp decoded
    rw [List.cons_append, validEscapes_char backslash, ih _ (by simp) token others rfl]
    simp only [clean_encodeChar printable]
  | @short e unit k escape token =>
    obtain ⟨nonzero, high, low, other, ascii⟩ := escapeUnit_cases escape
    rw [Json.tokenUnits_short escape] at decoded
    obtain ⟨more, others, rfl⟩ := Option.map_eq_some_iff.mp decoded
    rw [List.cons_append, List.cons_append, encode_short ascii, validEscapes_escape (short_byte ascii other),
      ih _ (by simp) token others rfl]
    simp only [clean_cons high, nonzero, low, ne_eq, not_false_eq_true, true_and]
  | @unit a b c d unit k digits token =>
    rw [Json.tokenUnits_unit digits] at decoded
    obtain ⟨more, others, rfl⟩ := Option.map_eq_some_iff.mp decoded
    obtain ⟨w, x, y, z, bytes, parsed, small⟩ := encode_unit digits (k ++ '"' :: t)
    obtain ⟨zero, high, low⟩ := unit_kind small
    simp only [List.cons_append]
    rw [bytes]
    by_cases refused : unit = 0 ∨ 0xDC00 ≤ unit ∧ unit ≤ 0xDFFF
    · have single : isHigh (UInt16.ofNat unit) = false := by
        rw [← Bool.not_eq_true, high]
        omega
      rw [validEscapes_refused parsed refused, if_neg]
      rw [clean_cons single, ← Bool.not_eq_true, low, ne_eq, zero]
      omega
    by_cases pairs : 0xD800 ≤ unit ∧ unit ≤ 0xDBFF
    · rcases token_head token others t with
        ⟨alone, differs⟩ | ⟨a', b', c', d', unit', k', rfl, digits', token'⟩
      · rw [validEscapes_alone parsed pairs differs, if_neg (not_clean_high (high.mpr pairs) alone)]
      · rw [Json.tokenUnits_unit digits'] at others
        obtain ⟨more, others', rfl⟩ := Option.map_eq_some_iff.mp others
        obtain ⟨w', x', y', z', bytes', parsed', small'⟩ := encode_unit digits' (k' ++ '"' :: t)
        have low' := (unit_kind small').2.2
        simp only [List.cons_append]
        rw [bytes', validEscapes_pair parsed pairs parsed']
        split
        · rename_i second
          have pair : (isHigh (UInt16.ofNat unit) && isLow (UInt16.ofNat unit')) = true :=
            Bool.and_eq_true_iff.mpr ⟨high.mpr pairs, low'.mpr second⟩
          rw [ih _ (by simp only [List.length_cons]; omega) token' others' rfl]
          simp only [clean_pair pair]
        · rename_i second
          have alone : (UInt16.ofNat unit' :: more).head?.any isLow = false :=
            Bool.not_eq_true _ ▸ mt low'.mp second
          rw [if_neg (not_clean_high (high.mpr pairs) alone)]
    · have single : isHigh (UInt16.ofNat unit) = false := by
        rw [← Bool.not_eq_true, high]
        omega
      have clean : Clean (UInt16.ofNat unit :: more) ↔ Clean more := by
        rw [clean_cons single, ← Bool.not_eq_true, low, ne_eq, zero]
        exact ⟨fun h => h.2.2, fun h => ⟨by omega, by omega, h⟩⟩
      rw [validEscapes_single parsed refused pairs,
        ih _ (by simp only [List.length_cons]; omega) token others rfl]
      simp only [clean]

theorem storableToken_iff {k : List Char} {units : List UInt16} (decoded : Json.tokenUnits k = some units) :
    StorableToken k ↔ Clean units := by
  simp only [StorableToken, decoded, Option.some.injEq, exists_eq_left']

open scoped Classical in
theorem validEscapes_lexes {t t' : List Char} {ks : List (List Char)} (h : Json.Lexes t ks t') :
    validEscapes (Utf8.encode t) =
      if ∀ k ∈ ks, StorableToken k then validEscapes (Utf8.encode t') else some false := by
  induction h with
  | done => simp
  | skip _ backslash _ ih => rw [validEscapes_char backslash, ih]
  | @token k t t' ks token _ ih =>
    obtain ⟨units, decoded⟩ := token.units
    rw [validEscapes_char (by decide), validEscapes_token token decoded, ih]
    simp only [List.forall_mem_cons, storableToken_iff decoded]
    by_cases clean : Clean units <;> simp [clean]

end Scan

theorem validJSONWith_spec {grammar : Bytes → Bool}
    (sound : ∀ data, grammar data = true → ∃ tree, Json.Reads data tree) (data : Bytes) :
    ∃ valid, validJSONWith grammar data = some valid ∧
      (valid = true ↔ grammar data = true ∧ Storable data) := by
  unfold validJSONWith
  cases decoded : Utf8.decode data with
  | none => exact ⟨false, rfl, by simp [Storable, decoded]⟩
  | some t =>
    cases parsed : grammar data with
    | false => exact ⟨false, rfl, by simp⟩
    | true =>
      obtain ⟨tree, reads⟩ := sound data parsed
      have bytes : data = Utf8.encode t := Utf8.encode_decodeAll decoded
      have storable : Storable data ↔ ∀ k ∈ Json.stringTokens t, StorableToken k := by
        simp only [Storable, decoded, Option.some.injEq, exists_eq_left']
        exact ⟨And.right, fun tokens => ⟨⟨tree, reads⟩, tokens⟩⟩
      subst bytes
      have scan := validEscapes_lexes (Json.stringTokens_reads reads).1
      simp only [Option.isNone_some, Bool.false_eq_true, Bool.true_eq_false, or_false, if_false, true_and]
      rw [scan]
      split
      · rename_i tokens
        exact ⟨true, rfl, by simpa using storable.mpr tokens⟩
      · rename_i tokens
        exact ⟨false, rfl, by simpa using fun h => tokens (storable.mp h)⟩

/-- On every input the scan stays in range, and its answer is whether the data can be stored. Go's
own grammar check also bounds the nesting. The tokens of a text are all of its strings. -/
theorem validJSON_storable :
    (∀ grammar : Bytes → Bool, (∀ data, grammar data = true ↔ ∃ tree, Json.Reads data tree) →
      ∀ data, ∃ valid, validJSONWith grammar data = some valid ∧ (valid = true ↔ Storable data)) ∧
    (∀ data, ∃ valid, validJSON data = some valid ∧
      (valid = true ↔ jsonValid data = true ∧ Storable data)) ∧
    ∀ text tree, Json.Reads (Utf8.encode text) tree →
      List.Forall₂ Json.Spells (Json.stringTokens text) tree.strings := by
  constructor
  · intro grammar decides data
    obtain ⟨valid, scanned, same⟩ := validJSONWith_spec (fun data => (decides data).mp) data
    refine ⟨valid, scanned, same.trans ⟨And.right, fun storable => ⟨?_, storable⟩⟩⟩
    obtain ⟨_, _, reads, _⟩ := storable
    exact (decides data).mpr reads
  constructor
  · intro data
    rw [validJSON_eq]
    exact validJSONWith_spec (fun _ => jsonValid_reads) data
  · intro text tree reads
    exact (Json.stringTokens_reads reads).2

theorem validJSON_storable_surrogates :
    Storable (utf8 "[\"\\\\u0000 \\uD83D\\uDE00\"]") ∧ ¬Storable (utf8 "[\"\\uD83D \\uDE00\"]") := by
  have decides : ∀ data, (Json.parse data).isSome = true ↔ ∃ tree, Json.Reads data tree := by
    intro data
    simp only [Option.isSome_iff_exists, Json.parse_eq_some]
  have taken : validJSONWith (fun data => (Json.parse data).isSome)
      (utf8 "[\"\\\\u0000 \\uD83D\\uDE00\"]") = some true := by decide +kernel
  have refused : validJSONWith (fun data => (Json.parse data).isSome)
      (utf8 "[\"\\uD83D \\uDE00\"]") = some false := by decide +kernel
  constructor
  · obtain ⟨valid, scanned, storable⟩ := validJSON_storable.1 _ decides
      (utf8 "[\"\\\\u0000 \\uD83D\\uDE00\"]")
    exact storable.mp (Option.some.inj (scanned.symm.trans taken))
  · obtain ⟨valid, scanned, storable⟩ := validJSON_storable.1 _ decides
      (utf8 "[\"\\uD83D \\uDE00\"]")
    rw [← storable, Option.some.inj (scanned.symm.trans refused)]
    exact Bool.false_ne_true

end WriteRelay.Go
