import WriteRelay.Base.JsonCompact
import WriteRelay.Base.Utf16

/-! The string tokens of a JSON text, and the UTF-16 code units that each one stands for. -/
namespace Json

section Tokens

def hexChar (c : Char) : Option Nat :=
  if c.val.toNat < 0x80 then hexValue (UInt8.ofNat c.val.toNat) else none

def hexUnit (a b c d : Char) : Option Nat := do
  let a ← hexChar a
  let b ← hexChar b
  let c ← hexChar c
  let d ← hexChar d
  return ((a * 16 + b) * 16 + c) * 16 + d

def escapeUnit : Char → Option UInt16
  | '"' => some 0x22
  | '\\' => some 0x5C
  | '/' => some 0x2F
  | 'b' => some 0x08
  | 'f' => some 0x0C
  | 'n' => some 0x0A
  | 'r' => some 0x0D
  | 't' => some 0x09
  | _ => none

def tokenUnits : List Char → Option (List UInt16)
  | [] => some []
  | '\\' :: 'u' :: a :: b :: c :: d :: rest => do
    let unit ← hexUnit a b c d
    let units ← tokenUnits rest
    return UInt16.ofNat unit :: units
  | '\\' :: e :: rest => do
    let unit ← escapeUnit e
    let units ← tokenUnits rest
    return unit :: units
  | ['\\'] => none
  | c :: rest => do
    let units ← tokenUnits rest
    return Utf16.encodeChar c ++ units

/-- The tokens from here on; inside a token, what has been read of it. -/
def tokensFrom : Option (List Char) → List Char → List (List Char)
  | _, [] => []
  | none, c :: rest => if c = '"' then tokensFrom (some []) rest else tokensFrom none rest
  | some token, '\\' :: e :: rest => tokensFrom (some (token ++ ['\\', e])) rest
  | some token, c :: rest =>
    if c = '"' then token :: tokensFrom none rest else tokensFrom (some (token ++ [c])) rest

def stringTokens (text : List Char) : List (List Char) := tokensFrom none text

example : stringTokens "[\"a\\\"\", 1, \x7b\"\": null\x7d]".toList = ["a\\\"".toList, []] := by decide

mutual
def Tree.strings : Tree → List String
  | .null | .bool _ | .number _ => []
  | .string s => [s]
  | .array elements => elementStrings elements
  | .object members => memberStrings members

def elementStrings : List Tree → List String
  | [] => []
  | t :: ts => t.strings ++ elementStrings ts

def memberStrings : List (String × Tree) → List String
  | [] => []
  | m :: ms => oneMember m ++ memberStrings ms

def oneMember : String × Tree → List String
  | (key, t) => key :: t.strings
end

end Tokens

section Reading

inductive Token : List Char → Prop
  | nil : Token []
  | plain {c : Char} {k : List Char} : c ≠ '"' → c ≠ '\\' → 0x20 ≤ c.val.toNat → Token k → Token (c :: k)
  | short {e : Char} {unit : UInt16} {k : List Char} : escapeUnit e = some unit → Token k →
      Token ('\\' :: e :: k)
  | unit {a b c d : Char} {unit : Nat} {k : List Char} : hexUnit a b c d = some unit → Token k →
      Token ('\\' :: 'u' :: a :: b :: c :: d :: k)

/-- A text up to a rest, and the tokens before the rest. Outside tokens there is no backslash. -/
inductive Lexes : List Char → List (List Char) → List Char → Prop
  | done (t : List Char) : Lexes t [] t
  | skip {c : Char} {t t' : List Char} {ks : List (List Char)} : c ≠ '"' → c ≠ '\\' → Lexes t ks t' →
      Lexes (c :: t) ks t'
  | token {k t t' : List Char} {ks : List (List Char)} : Token k → Lexes t ks t' →
      Lexes ('"' :: (k ++ '"' :: t)) (k :: ks) t'

theorem Lexes.append {t t' t'' : List Char} {ks ks' : List (List Char)} (h : Lexes t ks t')
    (h' : Lexes t' ks' t'') : Lexes t (ks ++ ks') t'' := by
  induction h with
  | done => exact h'
  | skip quote backslash _ ih => exact .skip quote backslash (ih h')
  | token body _ ih => exact .token body (ih h')

theorem Lexes.tokens {t t' : List Char} {ks : List (List Char)} (h : Lexes t ks t') : ∀ k ∈ ks, Token k := by
  induction h with
  | done => exact nofun
  | skip _ _ _ ih => exact ih
  | token body _ ih => exact List.forall_mem_cons.mpr ⟨body, ih⟩

theorem hexUnit_chars {a b c d : Char} {unit : Nat} (h : hexUnit a b c d = some unit) :
    ∀ x ∈ [a, b, c, d], x ≠ '"' ∧ x ≠ '\\' := by
  have digit : ∀ {x : Char} {n : Nat}, hexChar x = some n → x ≠ '"' ∧ x ≠ '\\' := by
    intro x n h
    constructor <;> rintro rfl <;> contradiction
  simp only [hexUnit, Option.bind_eq_bind, Option.bind_eq_some_iff] at h
  obtain ⟨_, ha, _, hb, _, hc, _, hd, _⟩ := h
  simp [digit ha, digit hb, digit hc, digit hd]

theorem tokenUnits_plain {c : Char} (plain : c ≠ '\\') (k : List Char) :
    tokenUnits (c :: k) = (tokenUnits k).map (Utf16.encodeChar c ++ ·) := by
  rw [tokenUnits]
  · cases tokenUnits k <;> rfl
  all_goals simp_all

theorem tokenUnits_short {e : Char} {unit : UInt16} (h : escapeUnit e = some unit) (k : List Char) :
    tokenUnits ('\\' :: e :: k) = (tokenUnits k).map (unit :: ·) := by
  rw [tokenUnits, h]
  · cases tokenUnits k <;> rfl
  · rintro a b c d rest rfl
    contradiction

theorem tokenUnits_unit {a b c d : Char} {unit : Nat} (h : hexUnit a b c d = some unit) (k : List Char) :
    tokenUnits ('\\' :: 'u' :: a :: b :: c :: d :: k) = (tokenUnits k).map (UInt16.ofNat unit :: ·) := by
  rw [tokenUnits, h]
  cases tokenUnits k <;> rfl

theorem Token.units {k : List Char} (token : Token k) : ∃ units, tokenUnits k = some units := by
  induction token with
  | nil => exact ⟨[], rfl⟩
  | plain _ backslash _ _ ih =>
    obtain ⟨units, ih⟩ := ih
    exact ⟨_, by rw [tokenUnits_plain backslash, ih, Option.map_some]⟩
  | short escape _ ih =>
    obtain ⟨units, ih⟩ := ih
    exact ⟨_, by rw [tokenUnits_short escape, ih, Option.map_some]⟩
  | unit digits _ ih =>
    obtain ⟨units, ih⟩ := ih
    exact ⟨_, by rw [tokenUnits_unit digits, ih, Option.map_some]⟩

theorem tokensFrom_plain {c : Char} (plain : c ≠ '"' ∧ c ≠ '\\') (before t : List Char) :
    tokensFrom (some before) (c :: t) = tokensFrom (some (before ++ [c])) t := by
  rw [tokensFrom, if_neg plain.1]
  intro e rest same
  exact absurd same plain.2

theorem tokensFrom_token {k : List Char} (body : Token k) (before t : List Char) :
    tokensFrom (some before) (k ++ '"' :: t) = (before ++ k) :: tokensFrom none t := by
  induction body generalizing before with
  | nil => simp [tokensFrom]
  | plain quote backslash _ _ ih =>
    rw [List.cons_append, tokensFrom_plain ⟨quote, backslash⟩, ih, List.append_assoc]
    rfl
  | short _ _ ih =>
    rw [List.cons_append, List.cons_append, tokensFrom, ih, List.append_assoc]
    rfl
  | unit digits _ ih =>
    have plain := hexUnit_chars digits
    simp only [List.forall_mem_cons] at plain
    obtain ⟨ha, hb, hc, hd, _⟩ := plain
    simp only [List.cons_append, tokensFrom, tokensFrom_plain ha, tokensFrom_plain hb, tokensFrom_plain hc,
      tokensFrom_plain hd, ih, List.append_assoc, List.nil_append]

theorem stringTokens_lexes {t t' : List Char} {ks : List (List Char)} (h : Lexes t ks t') :
    stringTokens t = ks ++ stringTokens t' := by
  induction h with
  | done => rfl
  | skip quote _ _ ih =>
    rw [stringTokens, tokensFrom, if_neg quote]
    exact ih
  | token body _ ih =>
    rw [stringTokens, tokensFrom, if_pos rfl, tokensFrom_token body]
    exact congrArg (_ :: ·) ih

def Bare (text : List UInt8) : Prop := ∀ b ∈ text, b.toNat < 0x80 ∧ b ≠ 0x22 ∧ b ≠ 0x5C

theorem bare_char {b : UInt8} (bare : b.toNat < 0x80 ∧ b ≠ 0x22 ∧ b ≠ 0x5C) :
    Char.ofNat b.toNat ≠ '"' ∧ Char.ofNat b.toNat ≠ '\\' := by
  have value : (Char.ofNat b.toNat).val.toNat = b.toNat := Utf8.toNat_ofNat (by omega)
  constructor
  · intro same
    rw [same] at value
    exact bare.2.1 (UInt8.toNat_inj.mp value.symm)
  · intro same
    rw [same] at value
    exact bare.2.2 (UInt8.toNat_inj.mp value.symm)

theorem lexes_bare {pre rest : List UInt8} (bare : Bare pre) {t : List Char}
    (h : Utf8.encode t = pre ++ rest) : ∃ t', rest = Utf8.encode t' ∧ Lexes t [] t' := by
  induction pre generalizing t with
  | nil => exact ⟨t, h.symm, .done t⟩
  | cons b pre ih =>
    obtain ⟨first, others⟩ := List.forall_mem_cons.mp bare
    obtain ⟨t₁, rfl, same⟩ := Utf8.encode_eq_cons h first.1
    obtain ⟨t', ended, lexes⟩ := ih others same.symm
    exact ⟨t', ended, .skip (bare_char first).1 (bare_char first).2 lexes⟩

theorem lexes_skipSpace (t : List Char) :
    ∃ t', skipSpace (Utf8.encode t) = Utf8.encode t' ∧ Lexes t [] t' := by
  have spaces : Bare ((Utf8.encode t).takeWhile isSpace) := by
    intro b found
    have space := List.mem_takeWhile_imp found
    simp only [isSpace, Bool.or_eq_true, decide_eq_true_eq] at space
    rcases space with ((rfl | rfl) | rfl) | rfl <;> decide
  exact lexes_bare spaces List.takeWhile_append_dropWhile.symm

theorem hexValue_bounds {b : UInt8} {n : Nat} (h : hexValue b = some n) : b.toNat < 0x80 ∧ n < 16 := by
  simp only [hexValue, isDigit, Bool.and_eq_true, decide_eq_true_eq, UInt8.le_iff_toNat_le,
    UInt8.reduceToNat] at h
  split at h
  · cases Option.some.inj h
    omega
  · split at h
    · cases Option.some.inj h
      omega
    · split at h
      · cases Option.some.inj h
        omega
      · contradiction

theorem hexValue_char {b : UInt8} {n : Nat} (h : hexValue b = some n) :
    b.toNat < 0x80 ∧ hexChar (Char.ofNat b.toNat) = some n := by
  have ascii := (hexValue_bounds h).1
  have value : (Char.ofNat b.toNat).val.toNat = b.toNat := Utf8.toNat_ofNat (by omega)
  rw [hexChar, value, if_pos ascii, UInt8.ofNat_toNat]
  exact ⟨ascii, h⟩

theorem readUnit_chars {t : List Char} {unit : Nat} {rest : List UInt8}
    (h : readUnit (Utf8.encode t) = some (unit, rest)) :
    ∃ a b c d t', t = a :: b :: c :: d :: t' ∧ rest = Utf8.encode t' ∧ hexUnit a b c d = some unit := by
  unfold readUnit at h
  split at h
  · rename_i a b c d rest' bytes
    simp only [Option.bind_eq_bind, Option.bind_eq_some_iff, Option.pure_def, Option.some.injEq,
      Prod.mk.injEq] at h
    obtain ⟨u, ha, v, hb, w, hc, x, hd, rfl, rfl⟩ := h
    have ha := hexValue_char ha
    have hb := hexValue_char hb
    have hc := hexValue_char hc
    have hd := hexValue_char hd
    obtain ⟨t₁, rfl, bytes₁⟩ := Utf8.encode_eq_cons bytes ha.1
    obtain ⟨t₂, rfl, bytes₂⟩ := Utf8.encode_eq_cons bytes₁.symm hb.1
    obtain ⟨t₃, rfl, bytes₃⟩ := Utf8.encode_eq_cons bytes₂.symm hc.1
    obtain ⟨t₄, rfl, bytes₄⟩ := Utf8.encode_eq_cons bytes₃.symm hd.1
    refine ⟨_, _, _, _, t₄, rfl, bytes₄, ?_⟩
    simp [hexUnit, ha.2, hb.2, hc.2, hd.2]
  · contradiction

theorem unitRune_rest (unit : Nat) (rest : List UInt8) : (unitRune unit rest).2 = rest ∨
    ∃ text low, rest = 0x5C :: 0x75 :: text ∧ readUnit text = some (low, (unitRune unit rest).2) := by
  unfold unitRune
  split
  · split
    · split
      · rename_i rest' _ low rest'' read
        split
        · exact .inr ⟨_, low, rfl, read⟩
        · exact .inl rfl
      · exact .inl rfl
    · exact .inl rfl
  · split
    · exact .inl rfl
    · exact .inl rfl

theorem readEscape_chars {t : List Char} {c : Char} {rest : List UInt8}
    (h : readEscape (Utf8.encode t) = some (c, rest)) :
    ∃ k t', '\\' :: t = k ++ t' ∧ rest = Utf8.encode t' ∧ ∀ k', Token k' → Token (k ++ k') := by
  unfold readEscape at h
  split at h
  case h_9 rest' bytes =>
    obtain ⟨⟨unit, rest₁⟩, read, same⟩ := Option.map_eq_some_iff.mp h
    obtain ⟨t₁, rfl, rfl⟩ := Utf8.encode_eq_cons bytes (by decide)
    obtain ⟨a, b, c, d, t₂, rfl, rfl, digits⟩ := readUnit_chars read
    have taken := unitRune_rest unit (Utf8.encode t₂)
    dsimp only at same
    rw [same] at taken
    rcases taken with rfl | ⟨text, low, bytes₂, read₂⟩
    · exact ⟨['\\', 'u', a, b, c, d], t₂, rfl, rfl, fun k' body => .unit digits body⟩
    · obtain ⟨t₃, rfl, bytes₃⟩ := Utf8.encode_eq_cons bytes₂ (by decide)
      obtain ⟨t₄, rfl, rfl⟩ := Utf8.encode_eq_cons bytes₃.symm (by decide)
      obtain ⟨e, f, g, i, t₅, rfl, rfl, digits₂⟩ := readUnit_chars read₂
      exact ⟨['\\', 'u', a, b, c, d, '\\', 'u', e, f, g, i], t₅, rfl, rfl,
        fun k' body => .unit digits (.unit digits₂ body)⟩
  case h_10 => contradiction
  all_goals
    rename_i bytes
    obtain ⟨t', rfl, same⟩ := Utf8.encode_eq_cons bytes (by decide)
    obtain ⟨_, rfl⟩ := Prod.mk.inj (Option.some.inj h)
    exact ⟨['\\', _], t', rfl, same, fun k' body => .short rfl body⟩

theorem readString_token {n : Nat} {t : List Char} {s : List Char} {rest : List UInt8}
    (h : readString n (Utf8.encode t) = some (s, rest)) :
    ∃ k t', t = k ++ '"' :: t' ∧ rest = Utf8.encode t' ∧ Token k := by
  induction n generalizing t s with
  | zero => contradiction
  | succ n ih =>
    cases t with
    | nil => contradiction
    | cons c t =>
      have split : Utf8.encode (c :: t) = String.utf8EncodeChar c ++ Utf8.encode t := rfl
      cases bytes : String.utf8EncodeChar c with
      | nil => exact absurd bytes String.utf8EncodeChar_ne_nil
      | cons lead tail =>
        rw [split, bytes, List.cons_append, readString] at h
        rw [bytes, List.cons_append] at split
        split at h
        · rename_i quote
          obtain ⟨_, rfl⟩ := Prod.mk.inj (Option.some.inj h)
          obtain ⟨t', same, ended⟩ := Utf8.encode_eq_cons split (by rw [quote]; decide)
          rw [quote] at same
          exact ⟨[], t', same, ended, .nil⟩
        · rename_i quote
          obtain ⟨⟨x, rest₁⟩, read, h⟩ := Option.bind_eq_some_iff.mp h
          obtain ⟨⟨s', rest₂⟩, more, same⟩ := Option.map_eq_some_iff.mp h
          obtain ⟨rfl, rfl⟩ := Prod.mk.inj same
          rw [readChar] at read
          split at read
          · rename_i backslash
            obtain ⟨t₁, text, ended⟩ := Utf8.encode_eq_cons split (by rw [backslash]; decide)
            rw [backslash] at text
            rw [ended] at read
            obtain ⟨k, t₂, cut, rfl, closes⟩ := readEscape_chars read
            obtain ⟨k', t', rfl, last, body⟩ := ih more
            refine ⟨k ++ k', t', ?_, last, closes k' body⟩
            rw [text, List.append_assoc, ← cut]
            rfl
          · rename_i backslash
            split at read
            · contradiction
            · rename_i printable
              have rune := Utf8.rune_encodeChar (Utf8.encode t) bytes
              rw [Utf8.decodeRune, rune] at read
              obtain ⟨rfl, rfl⟩ := Prod.mk.inj (Option.some.inj read)
              obtain ⟨k, t', rfl, last, body⟩ := ih more
              have ascii : c.val.toNat < 0x80 → lead.toNat = c.val.toNat := by
                intro small
                rw [Utf8.encodeChar_small small] at bytes
                obtain ⟨rfl, _⟩ := List.cons.inj bytes
                exact Utf8.toNat_byte (by omega)
              refine ⟨c :: k, t', rfl, last, .plain ?_ ?_ ?_ body⟩
              · rintro rfl
                exact quote (UInt8.toNat_inj.mp (ascii (by decide)))
              · rintro rfl
                exact backslash (UInt8.toNat_inj.mp (ascii (by decide)))
              · simp only [UInt8.lt_iff_toNat_lt, UInt8.reduceToNat] at printable
                omega

def Spells (k : List Char) (s : String) : Prop :=
  ∃ n t, readString n (Utf8.encode (k ++ '"' :: t)) = some (s.toList, Utf8.encode t)

/-- What the reader leaves of a text, and the strings that it has found. -/
def Consumes (t : List Char) (rest : List UInt8) (strings : List String) : Prop :=
  ∃ t' ks, rest = Utf8.encode t' ∧ Lexes t ks t' ∧ List.Forall₂ Spells ks strings

theorem Consumes.append {t : List Char} {rest rest' : List UInt8} {strings strings' : List String}
    (first : Consumes t rest strings)
    (next : ∀ t', rest = Utf8.encode t' → Consumes t' rest' strings') :
    Consumes t rest' (strings ++ strings') := by
  obtain ⟨t', ks, same, lexes, spelled⟩ := first
  obtain ⟨t'', ks', same', lexes', spelled'⟩ := next t' same
  exact ⟨t'', ks ++ ks', same', lexes.append lexes', List.rel_append spelled spelled'⟩

theorem consumes_bare {pre rest : List UInt8} (bare : Bare pre) {t : List Char}
    (h : Utf8.encode t = pre ++ rest) : Consumes t rest [] := by
  obtain ⟨t', same, lexes⟩ := lexes_bare bare h
  exact ⟨t', [], same, lexes, .nil⟩

theorem consumes_space (t : List Char) : Consumes t (skipSpace (Utf8.encode t)) [] := by
  obtain ⟨t', same, lexes⟩ := lexes_skipSpace t
  exact ⟨t', [], same, lexes, .nil⟩

theorem consumes_mark {t : List Char} {b : UInt8} {rest : List UInt8}
    (h : skipSpace (Utf8.encode t) = b :: rest) (bare : b.toNat < 0x80 ∧ b ≠ 0x22 ∧ b ≠ 0x5C) :
    Consumes t rest [] := by
  apply (consumes_space t).append
  intro t' same
  exact consumes_bare (List.forall_mem_singleton.mpr bare) (same.symm.trans h)

theorem consumes_string {n : Nat} {t : List Char} {s : List Char} {rest rest' : List UInt8}
    (h : Utf8.encode t = 0x22 :: rest) (read : readString n rest = some (s, rest')) :
    Consumes t rest' [String.ofList s] := by
  obtain ⟨t₁, rfl, rfl⟩ := Utf8.encode_eq_cons h (by decide)
  obtain ⟨k, t', rfl, rfl, token⟩ := readString_token read
  refine ⟨t', [k], rfl, .token token (.done t'), .cons ⟨n, t', ?_⟩ .nil⟩
  rw [String.toList_ofList]
  exact read

theorem readScalar_consumes {n : Nat} {t : List Char} {tree : Tree} {rest : List UInt8}
    (h : readScalar n (Utf8.encode t) = some (tree, rest)) : Consumes t rest tree.strings := by
  unfold readScalar at h
  split at h
  · rename_i bytes
    obtain ⟨⟨s, rest'⟩, read, same⟩ := Option.map_eq_some_iff.mp h
    obtain ⟨rfl, rfl⟩ := Prod.mk.inj same
    exact consumes_string bytes read
  · rename_i bytes
    obtain ⟨rfl, rfl⟩ := Prod.mk.inj (Option.some.inj h)
    exact consumes_bare (by simp [Bare] : Bare [0x74, 0x72, 0x75, 0x65]) bytes
  · rename_i bytes
    obtain ⟨rfl, rfl⟩ := Prod.mk.inj (Option.some.inj h)
    exact consumes_bare (by simp [Bare] : Bare [0x66, 0x61, 0x6C, 0x73, 0x65]) bytes
  · rename_i bytes
    obtain ⟨rfl, rfl⟩ := Prod.mk.inj (Option.some.inj h)
    exact consumes_bare (by simp [Bare] : Bare [0x6E, 0x75, 0x6C, 0x6C]) bytes
  · obtain ⟨⟨x, rest'⟩, read, same⟩ := Option.map_eq_some_iff.mp h
    obtain ⟨rfl, rfl⟩ := Prod.mk.inj same
    obtain ⟨negative, w, f, e, whole, fraction, exponent, text⟩ := number_of_read read
    have bare : Bare (writeSign negative ++ (w ++ (f ++ e))) := by
      refine number_forall (fun b digit => ?_) (by simp) whole fraction exponent
      simp only [isDigit, Bool.and_eq_true, decide_eq_true_eq, UInt8.le_iff_toNat_le,
        UInt8.reduceToNat] at digit
      refine ⟨by omega, ?_, ?_⟩ <;>
      · rintro rfl
        simp at digit
    exact consumes_bare bare (by simpa only [List.append_assoc] using text)

theorem readKey_consumes {n : Nat} {t : List Char} {key : String} {rest : List UInt8}
    (h : readKey n (Utf8.encode t) = some (key, rest)) : Consumes t rest [key] := by
  unfold readKey at h
  split at h
  · rename_i bytes
    obtain ⟨⟨s, rest₁⟩, read, h⟩ := Option.bind_eq_some_iff.mp h
    split at h
    · rename_i colon
      obtain ⟨rfl, rfl⟩ := Prod.mk.inj (Option.some.inj h)
      apply (consumes_string bytes read).append
      rintro t' rfl
      exact consumes_mark colon (by decide)
    · contradiction
  · contradiction

theorem read_consumes (n : Nat) :
    (∀ t tree rest, readValue n (Utf8.encode t) = some (tree, rest) → Consumes t rest tree.strings) ∧
    (∀ t ts rest, readElements n (Utf8.encode t) = some (ts, rest) →
      Consumes t rest (elementStrings ts)) ∧
    (∀ t ms rest, readMembers n (Utf8.encode t) = some (ms, rest) →
      Consumes t rest (memberStrings ms)) := by
  -- on the fuel, for values, elements and members at once
  induction n with
  | zero => simp [readValue, readElements, readMembers]
  | succ n ih =>
    obtain ⟨value, elements, members⟩ := ih
    refine ⟨?_, ?_, ?_⟩
    · intro t tree rest h
      rw [readValue] at h
      split at h
      · rename_i inner found
        apply (consumes_mark found (by decide)).append
        rintro t₁ rfl
        split at h
        · rename_i ended
          obtain ⟨rfl, rfl⟩ := Prod.mk.inj (Option.some.inj h)
          exact consumes_mark ended (by decide)
        · obtain ⟨p, read, same⟩ := Option.map_eq_some_iff.mp h
          obtain ⟨rfl, rfl⟩ := Prod.mk.inj same
          apply (consumes_space t₁).append
          intro t₂ skipped
          rw [skipped] at read
          exact members t₂ p.1 p.2 read
      · rename_i inner found
        apply (consumes_mark found (by decide)).append
        rintro t₁ rfl
        split at h
        · rename_i ended
          obtain ⟨rfl, rfl⟩ := Prod.mk.inj (Option.some.inj h)
          exact consumes_mark ended (by decide)
        · obtain ⟨p, read, same⟩ := Option.map_eq_some_iff.mp h
          obtain ⟨rfl, rfl⟩ := Prod.mk.inj same
          apply (consumes_space t₁).append
          intro t₂ skipped
          rw [skipped] at read
          exact elements t₂ p.1 p.2 read
      · apply (consumes_space t).append
        intro t₁ skipped
        rw [skipped] at h
        exact readScalar_consumes h
    · intro t ts rest h
      rw [readElements] at h
      obtain ⟨p, read, h⟩ := Option.bind_eq_some_iff.mp h
      split at h
      · rename_i found
        obtain ⟨q, others, same⟩ := Option.map_eq_some_iff.mp h
        obtain ⟨rfl, rfl⟩ := Prod.mk.inj same
        apply (value t p.1 p.2 read).append
        intro t₁ after
        rw [after] at found
        apply (consumes_mark found (by decide)).append
        rintro t₂ rfl
        exact elements t₂ q.1 q.2 others
      · rename_i found
        obtain ⟨rfl, rfl⟩ := Prod.mk.inj (Option.some.inj h)
        apply (value t p.1 p.2 read).append
        intro t₁ after
        rw [after] at found
        exact consumes_mark found (by decide)
      · contradiction
    · intro t ms rest h
      rw [readMembers] at h
      obtain ⟨k, key, h⟩ := Option.bind_eq_some_iff.mp h
      obtain ⟨p, read, h⟩ := Option.bind_eq_some_iff.mp h
      have member : Consumes t p.2 (oneMember (k.1, p.1)) := by
        have named : Consumes t k.2 [k.1] := by
          apply (consumes_space t).append
          intro t₁ skipped
          rw [skipped] at key
          exact readKey_consumes key
        apply named.append
        intro t₂ after
        rw [after] at read
        exact value t₂ p.1 p.2 read
      split at h
      · rename_i found
        obtain ⟨q, others, same⟩ := Option.map_eq_some_iff.mp h
        obtain ⟨rfl, rfl⟩ := Prod.mk.inj same
        apply member.append
        intro t₁ after
        rw [after] at found
        apply (consumes_mark found (by decide)).append
        rintro t₂ rfl
        exact members t₂ q.1 q.2 others
      · rename_i found
        obtain ⟨rfl, rfl⟩ := Prod.mk.inj (Option.some.inj h)
        apply member.append
        intro t₁ after
        rw [after] at found
        exact consumes_mark found (by decide)
      · contradiction

/-- The tokens of a text are its strings in their order. -/
theorem stringTokens_reads {t : List Char} {tree : Tree} (h : Reads (Utf8.encode t) tree) :
    Lexes t (stringTokens t) [] ∧ List.Forall₂ Spells (stringTokens t) tree.strings := by
  obtain ⟨n, rest, read, ended⟩ := h
  obtain ⟨t', ks, rfl, lexes, spelled⟩ := (read_consumes n).1 t tree rest read
  obtain ⟨t'', same, spaces⟩ := lexes_skipSpace t'
  have whole := lexes.append spaces
  have empty : t'' = [] := by
    have decoded := Utf8.decode_encode t''
    rw [← same, ended] at decoded
    exact (Option.some.inj decoded).symm
  rw [empty, List.append_nil] at whole
  have tokens : stringTokens t = ks := by
    rw [stringTokens_lexes whole]
    exact List.append_nil ks
  rw [tokens]
  exact ⟨whole, spelled⟩

end Reading

end Json
