import WriteRelay.Base.Json

/-! JSON texts as encoders write them, and that the reader takes them back. -/
namespace Json

/-- What may follow a value inside another one. -/
def Closed (rest : List UInt8) : Prop := ∀ b ∈ rest.head?, b = 0x2C ∨ b = 0x5D ∨ b = 0x7D

/-- The text is read as this tree wherever a value may stand. -/
def Writes (text : List UInt8) (t : Tree) : Prop :=
  ∀ rest, Closed rest → ∃ n, readValue n (text ++ rest) = some (t, rest)

theorem Writes.reads {text : List UInt8} {t : Tree} (h : Writes text t) : Reads text t := by
  obtain ⟨n, read⟩ := h [] (by simp [Closed])
  rw [List.append_nil] at read
  exact ⟨n, [], read, rfl⟩

section Strings

def hexDigit (n : Nat) : UInt8 := UInt8.ofNat (if n < 10 then 0x30 + n else 0x57 + n)

def writeUnit (unit : Nat) : List UInt8 :=
  [0x5C, 0x75, hexDigit (unit / 4096 % 16), hexDigit (unit / 256 % 16), hexDigit (unit / 16 % 16),
    hexDigit (unit % 16)]

def shortEscape (c : Char) : Option UInt8 :=
  if c = '"' then some 0x22
  else if c = '\\' then some 0x5C
  else if c = Char.ofNat 8 then some 0x62
  else if c = Char.ofNat 12 then some 0x66
  else if c = '\n' then some 0x6E
  else if c = '\r' then some 0x72
  else if c = '\t' then some 0x74
  else none

def writeChar (escaped : Char → Bool) (c : Char) : List UInt8 :=
  match shortEscape c with
  | some e => [0x5C, e]
  | none =>
    if c.val.toNat < 0x20 || escaped c then writeUnit c.val.toNat else String.utf8EncodeChar c

def writeString (escaped : Char → Bool) (s : String) : List UInt8 :=
  0x22 :: (s.toList.flatMap (writeChar escaped) ++ [0x22])

theorem hexValue_hexDigit {n : Nat} (h : n < 16) : hexValue (hexDigit n) = some n := by
  have table : ∀ i : Fin 16, hexValue (hexDigit i) = some i.val := by decide
  exact table ⟨n, h⟩

theorem readUnit_hexDigits {unit : Nat} (small : unit < 0x10000) (rest : List UInt8) :
    readUnit (hexDigit (unit / 4096 % 16) :: hexDigit (unit / 256 % 16) ::
      hexDigit (unit / 16 % 16) :: hexDigit (unit % 16) :: rest) = some (unit, rest) := by
  have digits : ((unit / 4096 % 16 * 16 + unit / 256 % 16) * 16 + unit / 16 % 16) * 16 + unit % 16 =
      unit := by omega
  simp only [readUnit, hexValue_hexDigit (Nat.mod_lt _ (by decide : 0 < 16)), Option.bind_eq_bind,
    Option.bind_some, Option.pure_def, digits]

theorem readEscape_writeUnit {c : Char} (small : c.val.toNat < 0x10000) (rest : List UInt8) :
    readChar 0x5C ((writeUnit c.val.toNat).tail ++ rest) = some (c, rest) := by
  have scalar : c.val.toNat < 0xD800 ∨ 0xDFFF < c.val.toNat ∧ c.val.toNat < 0x110000 := c.valid
  have back : Char.ofNat c.val.toNat = c := Char.ofNat_toNat c
  have high : isHigh c.val.toNat = false := by
    simp only [isHigh, Bool.and_eq_false_iff, decide_eq_false_iff_not]
    omega
  have low : isLow c.val.toNat = false := by
    simp only [isLow, Bool.and_eq_false_iff, decide_eq_false_iff_not]
    omega
  simp only [readChar, if_true, writeUnit, List.tail_cons, List.cons_append, List.nil_append, readEscape,
    readUnit_hexDigits small, Option.map_some, unitRune, high, low, Bool.false_eq_true, if_false, back]

theorem readEscape_shortEscape {c : Char} {e : UInt8} (h : shortEscape c = some e) (rest : List UInt8) :
    readEscape (e :: rest) = some (c, rest) := by
  unfold shortEscape at h
  repeat' split at h
  all_goals first
    | contradiction
    | (cases Option.some.inj h
       subst_vars
       rfl)

theorem readChar_encodeChar {c : Char} {lead : UInt8} {tail : List UInt8} (rest : List UInt8)
    (plain : shortEscape c = none) (printable : ¬c.val.toNat < 0x20)
    (h : String.utf8EncodeChar c = lead :: tail) :
    lead ≠ 0x22 ∧ readChar lead (tail ++ rest) = some (c, rest) := by
  have read := Utf8.rune_encodeChar rest h
  have quote : c.val.toNat ≠ 0x22 := by
    intro same
    have : c = '"' := Char.ext (UInt32.toNat_inj.mp same)
    simp [shortEscape, this] at plain
  have backslash : c.val.toNat ≠ 0x5C := by
    intro same
    have : c = '\\' := Char.ext (UInt32.toNat_inj.mp same)
    simp [shortEscape, this] at plain
  have range : lead.toNat = c.val.toNat ∨ 0x80 ≤ lead.toNat := by
    unfold String.utf8EncodeChar at h
    dsimp only at h
    repeat' split at h
    all_goals
      obtain ⟨rfl, _⟩ := List.cons.inj h
      rw [Utf8.toNat_byte (by omega)]
      omega
  have differs : ∀ b : UInt8, b.toNat < 0x80 → b.toNat ≠ c.val.toNat → lead ≠ b := by
    rintro b ascii other rfl
    omega
  refine ⟨differs 0x22 (by decide) quote.symm, ?_⟩
  unfold readChar
  rw [if_neg (differs 0x5C (by decide) backslash.symm), if_neg, Utf8.decodeRune, read]
  · rfl
  · rw [UInt8.lt_iff_toNat_lt, show (0x20 : UInt8).toNat = 0x20 from rfl]
    omega

variable {escaped : Char → Bool}

theorem readChar_writeChar (basic : ∀ c, escaped c = true → c.val.toNat < 0x10000) (c : Char)
    (rest : List UInt8) : ∃ b tail, writeChar escaped c = b :: tail ∧ b ≠ 0x22 ∧
      readChar b (tail ++ rest) = some (c, rest) := by
  unfold writeChar
  split
  · rename_i e short
    exact ⟨0x5C, [e], rfl, by decide, readEscape_shortEscape short rest⟩
  · rename_i plain
    split
    · rename_i byNumber
      have small : c.val.toNat < 0x10000 := by
        rcases Bool.or_eq_true_iff.mp byNumber with control | chosen
        · have := of_decide_eq_true control
          omega
        · exact basic c chosen
      exact ⟨0x5C, _, rfl, by decide, readEscape_writeUnit small rest⟩
    · rename_i unescaped
      cases bytes : String.utf8EncodeChar c with
      | nil => exact absurd bytes String.utf8EncodeChar_ne_nil
      | cons lead tail =>
        have printable : ¬c.val.toNat < 0x20 := by
          intro control
          exact unescaped (Bool.or_eq_true_iff.mpr (.inl (decide_eq_true control)))
        exact ⟨lead, tail, rfl, readChar_encodeChar rest plain printable bytes⟩

theorem readString_write (basic : ∀ c, escaped c = true → c.val.toNat < 0x10000) (s : List Char)
    (rest : List UInt8) {n : Nat} (enough : s.length < n) :
    readString n (s.flatMap (writeChar escaped) ++ 0x22 :: rest) = some (s, rest) := by
  induction s generalizing n with
  | nil =>
    obtain ⟨n, rfl⟩ := Nat.exists_eq_add_one_of_ne_zero (Nat.ne_of_gt enough)
    simp [readString]
  | cons c s ih =>
    obtain ⟨n, rfl⟩ := Nat.exists_eq_add_one_of_ne_zero (Nat.ne_of_gt (by omega : 0 < n))
    obtain ⟨b, tail, written, open_, read⟩ :=
      readChar_writeChar basic c (s.flatMap (writeChar escaped) ++ 0x22 :: rest)
    have more := ih (n := n) (by simpa using enough)
    simp only [List.flatMap_cons, written, List.cons_append, List.append_assoc, readString, if_neg open_,
      read, Option.bind_some, more, Option.map_some]

theorem readValue_quote (n : Nat) (text : List UInt8) : readValue (n + 1) (0x22 :: text) =
    (readString n text).map fun p => (.string (String.ofList p.1), p.2) := by
  rw [readValue]
  rfl

theorem writes_string (basic : ∀ c, escaped c = true → c.val.toNat < 0x10000) (s : String) :
    Writes (writeString escaped s) (.string s) := by
  intro rest _
  have read := readString_write basic s.toList rest (Nat.lt_succ_self _)
  refine ⟨s.toList.length + 2, ?_⟩
  simp only [writeString, List.cons_append, List.append_assoc, List.nil_append]
  rw [readValue_quote, read, Option.map_some, String.ofList_toList]

end Strings

section Containers

variable {escaped : Char → Bool}

def commas : List (List UInt8) → List UInt8
  | [] => []
  | [text] => text
  | text :: more :: texts => text ++ 0x2C :: commas (more :: texts)

def writeArray (elements : List (List UInt8)) : List UInt8 := 0x5B :: (commas elements ++ [0x5D])

def writeMember (escaped : Char → Bool) (member : String × List UInt8) : List UInt8 :=
  writeString escaped member.1 ++ 0x3A :: member.2

def writeObject (escaped : Char → Bool) (members : List (String × List UInt8)) : List UInt8 :=
  0x7B :: (commas (members.map (writeMember escaped)) ++ [0x7D])

theorem closed_cons {b : UInt8} {rest : List UInt8} (h : b = 0x2C ∨ b = 0x5D ∨ b = 0x7D) :
    Closed (b :: rest) := by
  intro c first
  cases Option.some.inj first
  exact h

theorem Writes.readValue {text : List UInt8} {t : Tree} (h : Writes text t) {rest : List UInt8}
    (closed : Closed rest) : ∃ n, ∀ m, n ≤ m → Json.readValue m (text ++ rest) = some (t, rest) := by
  obtain ⟨n, read⟩ := h rest closed
  exact ⟨_, fun m enough => (read_fuel n).1 m _ _ read enough⟩

theorem readElements_write {texts : List (List UInt8)} {trees : List Tree} (some_ : texts ≠ [])
    (written : List.Forall₂ Writes texts trees) (rest : List UInt8) :
    ∃ n, ∀ m, n ≤ m → readElements m (commas texts ++ 0x5D :: rest) = some (trees, rest) := by
  induction written with
  | nil => contradiction
  | @cons text tree texts trees first others ih =>
    cases others with
    | nil =>
      obtain ⟨n, value⟩ := first.readValue (closed_cons (.inr (.inl rfl)) : Closed (0x5D :: rest))
      refine ⟨n + 1, fun m enough => ?_⟩
      obtain ⟨m, rfl⟩ := Nat.exists_eq_add_one_of_ne_zero (Nat.ne_of_gt (by omega : 0 < m))
      rw [readElements, commas, value m (by omega)]
      rfl
    | @cons text' tree' texts trees second others =>
      obtain ⟨i, more⟩ := ih (by simp)
      obtain ⟨j, value⟩ := first.readValue (closed_cons (.inl rfl) :
        Closed (0x2C :: (commas (text' :: texts) ++ 0x5D :: rest)))
      refine ⟨max i j + 1, fun m enough => ?_⟩
      obtain ⟨m, rfl⟩ := Nat.exists_eq_add_one_of_ne_zero (Nat.ne_of_gt (by omega : 0 < m))
      rw [readElements, commas, List.append_assoc, List.cons_append, value m (by omega), Option.bind_some]
      exact congrArg (Option.map _) (more m (by omega))

theorem skipSpace_skipSpace (text : List UInt8) : skipSpace (skipSpace text) = skipSpace text :=
  List.dropWhile_idempotent _ _

theorem readElements_skipSpace (n : Nat) (text : List UInt8) :
    readElements n (skipSpace text) = readElements n text := by
  have value : ∀ n, readValue n (skipSpace text) = readValue n text := by
    intro n
    cases n with
    | zero => rfl
    | succ n => rw [readValue, readValue, skipSpace_skipSpace]
  cases n with
  | zero => rfl
  | succ n => rw [readElements, readElements, value]

theorem readElements_bracket {n : Nat} {text rest : List UInt8} (h : skipSpace text = 0x5D :: rest) :
    readElements n text = none := by
  have value : ∀ n, readValue n text = none := by
    intro n
    cases n with
    | zero => rfl
    | succ n =>
      rw [readValue, h]
      rfl
  cases n with
  | zero => rfl
  | succ n => rw [readElements, value, Option.bind_none]

theorem readValue_bracket (n : Nat) (text : List UInt8) : readValue (n + 1) (0x5B :: text) =
    match skipSpace text with
    | 0x5D :: rest => some (.array [], rest)
    | rest => (readElements n rest).map fun p => (.array p.1, p.2) := by
  rw [readValue]
  rfl

theorem readValue_brace (n : Nat) (text : List UInt8) : readValue (n + 1) (0x7B :: text) =
    match skipSpace text with
    | 0x7D :: rest => some (.object [], rest)
    | rest => (readMembers n rest).map fun p => (.object p.1, p.2) := by
  rw [readValue]
  rfl

theorem writes_array {texts : List (List UInt8)} {trees : List Tree}
    (written : List.Forall₂ Writes texts trees) : Writes (writeArray texts) (.array trees) := by
  intro rest _
  cases written with
  | nil => exact ⟨1, by rw [readValue]; rfl⟩
  | @cons text tree texts trees first others =>
    obtain ⟨n, read⟩ := readElements_write (by simp) (.cons first others) rest
    have read := read n le_rfl
    refine ⟨n + 1, ?_⟩
    simp only [writeArray, List.cons_append, List.append_assoc, List.nil_append]
    rw [readValue_bracket]
    split
    · rename_i bracket
      rw [readElements_bracket bracket] at read
      contradiction
    · rw [readElements_skipSpace, read]
      rfl

theorem readKey_write (basic : ∀ c, escaped c = true → c.val.toNat < 0x10000) (key : String)
    (text : List UInt8) : ∃ n, ∀ m, n ≤ m →
      readKey m (writeString escaped key ++ 0x3A :: text) = some (key, text) := by
  refine ⟨key.toList.length + 1, fun m enough => ?_⟩
  have read := readString_write basic key.toList (0x3A :: text) enough
  simp only [writeString, List.cons_append, List.append_assoc, List.nil_append, readKey, read,
    Option.bind_some, String.ofList_toList]
  rfl

theorem skipSpace_writeString (s : String) (rest : List UInt8) :
    skipSpace (writeString escaped s ++ rest) = writeString escaped s ++ rest := rfl

theorem readMembers_write (basic : ∀ c, escaped c = true → c.val.toNat < 0x10000)
    {members : List (String × List UInt8)} {trees : List (String × Tree)} (some_ : members ≠ [])
    (written : List.Forall₂ (fun m t => m.1 = t.1 ∧ Writes m.2 t.2) members trees) (rest : List UInt8) :
    ∃ n, ∀ m, n ≤ m → readMembers m (commas (members.map (writeMember escaped)) ++ 0x7D :: rest) =
      some (trees, rest) := by
  induction written with
  | nil => contradiction
  | @cons m t ms ts first others ih =>
    obtain ⟨key, text⟩ := m
    obtain ⟨_, tree⟩ := t
    obtain ⟨rfl, value⟩ := first
    cases others with
    | nil =>
      obtain ⟨i, named⟩ := readKey_write basic key (text ++ 0x7D :: rest)
      obtain ⟨j, read⟩ := value.readValue (closed_cons (.inr (.inr rfl)) : Closed (0x7D :: rest))
      refine ⟨max i j + 1, fun m enough => ?_⟩
      obtain ⟨m, rfl⟩ := Nat.exists_eq_add_one_of_ne_zero (Nat.ne_of_gt (by omega : 0 < m))
      have named := named m (by omega)
      have read := read m (by omega)
      simp only [List.map_cons, List.map_nil, commas, writeMember, List.append_assoc, List.cons_append]
      rw [readMembers, skipSpace_writeString, named, Option.bind_some, read]
      rfl
    | @cons m' t' ms ts second others =>
      obtain ⟨k, more⟩ := ih (by simp)
      obtain ⟨i, named⟩ := readKey_write basic key
        (text ++ 0x2C :: (commas ((m' :: ms).map (writeMember escaped)) ++ 0x7D :: rest))
      obtain ⟨j, read⟩ := value.readValue (closed_cons (.inl rfl) :
        Closed (0x2C :: (commas ((m' :: ms).map (writeMember escaped)) ++ 0x7D :: rest)))
      refine ⟨max i (max j k) + 1, fun m enough => ?_⟩
      obtain ⟨m, rfl⟩ := Nat.exists_eq_add_one_of_ne_zero (Nat.ne_of_gt (by omega : 0 < m))
      have named := named m (by omega)
      have read := read m (by omega)
      simp only [List.map_cons, commas, writeMember, List.append_assoc, List.cons_append] at named read ⊢
      rw [readMembers, skipSpace_writeString, named, Option.bind_some, read]
      exact congrArg (Option.map _) (more m (by omega))

theorem writes_object (basic : ∀ c, escaped c = true → c.val.toNat < 0x10000)
    {members : List (String × List UInt8)} {trees : List (String × Tree)}
    (written : List.Forall₂ (fun m t => m.1 = t.1 ∧ Writes m.2 t.2) members trees) :
    Writes (writeObject escaped members) (.object trees) := by
  intro rest _
  cases written with
  | nil => exact ⟨1, by rw [readValue]; rfl⟩
  | @cons m t ms ts first others =>
    obtain ⟨n, read⟩ := readMembers_write basic (by simp) (.cons first others) rest
    have read := read n le_rfl
    refine ⟨n + 1, ?_⟩
    simp only [writeObject, List.cons_append, List.append_assoc, List.nil_append]
    have quoted : skipSpace (commas ((m :: ms).map (writeMember escaped)) ++ 0x7D :: rest) =
        commas ((m :: ms).map (writeMember escaped)) ++ 0x7D :: rest := by
      cases ms <;> rfl
    rw [readValue_brace, quoted]
    split
    · rename_i brace
      cases ms <;> simp [commas, writeMember, writeString] at brace
    · rw [read]
      rfl

end Containers

section Numbers

def Digits (ds : List UInt8) : Prop := ds ≠ [] ∧ ∀ d ∈ ds, isDigit d = true

def Whole (w : List UInt8) : Prop := w = [0x30] ∨ Digits w ∧ w.head? ≠ some 0x30

def Fraction (f : List UInt8) : Prop := f = [] ∨ ∃ ds, f = 0x2E :: ds ∧ Digits ds

def Exponent (e : List UInt8) : Prop :=
  e = [] ∨ ∃ mark sign ds, e = mark :: (sign ++ ds) ∧ (mark = 0x65 ∨ mark = 0x45) ∧
    (sign = [] ∨ sign = [0x2B] ∨ sign = [0x2D]) ∧ Digits ds

def Ends (rest : List UInt8) : Prop :=
  ∀ b ∈ rest.head?, isDigit b = false ∧ b ≠ 0x2E ∧ b ≠ 0x65 ∧ b ≠ 0x45

theorem Closed.ends {rest : List UInt8} (h : Closed rest) : Ends rest := by
  intro b first
  rcases h b first with rfl | rfl | rfl <;> decide

theorem readDigits_append {ds rest : List UInt8} (digits : Digits ds)
    (stop : ∀ b ∈ rest.head?, isDigit b = false) : readDigits (ds ++ rest) = some (ds, rest) := by
  have after : rest.takeWhile isDigit = [] ∧ rest.dropWhile isDigit = rest := by
    cases rest with
    | nil => exact ⟨rfl, rfl⟩
    | cons b rest =>
      have other := stop b rfl
      simp [other]
  have taken : (ds ++ rest).takeWhile isDigit = ds := by
    rw [List.takeWhile_append_of_pos digits.2, after.1, List.append_nil]
  have dropped : (ds ++ rest).dropWhile isDigit = rest := by
    rw [List.dropWhile_append_of_pos digits.2, after.2]
  rw [readDigits, taken, dropped, if_neg digits.1]

theorem readWhole_append {w rest : List UInt8} (whole : Whole w)
    (stop : ∀ b ∈ rest.head?, isDigit b = false) : readWhole (w ++ rest) = some (w, rest) := by
  rcases whole with rfl | ⟨digits, lead⟩
  · rfl
  · have read := readDigits_append digits stop
    unfold readWhole
    split
    · rename_i tail zero
      cases w with
      | nil => exact absurd rfl digits.1
      | cons d ds =>
        obtain ⟨rfl, _⟩ := List.cons.inj zero
        exact absurd rfl lead
    · exact read

theorem readFraction_append {f rest : List UInt8} (fraction : Fraction f)
    (stop : ∀ b ∈ rest.head?, isDigit b = false ∧ b ≠ 0x2E) :
    readFraction (f ++ rest) = some (f.tail, rest) := by
  rcases fraction with rfl | ⟨ds, rfl, digits⟩
  · unfold readFraction
    split
    · rename_i point
      exact absurd rfl (stop 0x2E (by rw [List.nil_append] at point; rw [point]; rfl)).2
    · rfl
  · exact readDigits_append digits (fun b first => (stop b first).1)

theorem readExponentDigits_append {sign ds : List UInt8} (digits : Digits ds)
    (signs : sign = [] ∨ sign = [0x2B] ∨ sign = [0x2D]) : ∃ v : Int, ∀ rest : List UInt8,
      (∀ b ∈ rest.head?, isDigit b = false) → readExponentDigits (sign ++ ds ++ rest) = some (v, rest) := by
  rcases signs with rfl | rfl | rfl
  · refine ⟨digitsValue ds, fun rest stop => ?_⟩
    have read := readDigits_append digits stop
    obtain ⟨d, tail, rfl⟩ := List.exists_cons_of_ne_nil digits.1
    have digit := digits.2 d List.mem_cons_self
    unfold readExponentDigits
    split
    · rename_i minus
      obtain ⟨rfl, _⟩ := List.cons.inj minus
      exact absurd digit (by decide)
    · rename_i plus
      obtain ⟨rfl, _⟩ := List.cons.inj plus
      exact absurd digit (by decide)
    · exact congrArg (Option.map _) read
  · refine ⟨digitsValue ds, fun rest stop => ?_⟩
    exact congrArg (Option.map _) (readDigits_append digits stop)
  · refine ⟨-digitsValue ds, fun rest stop => ?_⟩
    exact congrArg (Option.map _) (readDigits_append digits stop)

theorem readExponent_append {e : List UInt8} (exponent : Exponent e) : ∃ v : Int, ∀ rest : List UInt8,
    Ends rest → readExponent (e ++ rest) = some (v, rest) := by
  rcases exponent with rfl | ⟨mark, sign, ds, rfl, marks, signs, digits⟩
  · refine ⟨0, fun rest ends => ?_⟩
    unfold readExponent
    split
    · rename_i mark
      exact absurd rfl (ends 0x65 (by rw [List.nil_append] at mark; rw [mark]; rfl)).2.2.1
    · rename_i mark
      exact absurd rfl (ends 0x45 (by rw [List.nil_append] at mark; rw [mark]; rfl)).2.2.2
    · rfl
  · obtain ⟨v, read⟩ := readExponentDigits_append digits signs
    refine ⟨v, fun rest ends => ?_⟩
    have read := read rest (fun b first => (ends b first).1)
    rcases marks with rfl | rfl
    · exact read
    · exact read

theorem readUnsigned_append {w f e : List UInt8} (whole : Whole w) (fraction : Fraction f)
    (exponent : Exponent e) : ∃ v : Int, ∀ (negative : Bool) (rest : List UInt8), Ends rest →
      readUnsigned negative (w ++ (f ++ (e ++ rest))) = some (⟨negative, w, f.tail, v⟩, rest) := by
  obtain ⟨v, read⟩ := readExponent_append exponent
  refine ⟨v, fun negative rest ends => ?_⟩
  have tail : ∀ b ∈ (e ++ rest).head?, isDigit b = false ∧ b ≠ 0x2E := by
    intro b first
    rcases exponent with rfl | ⟨mark, sign, ds, rfl, marks, _⟩
    · exact ⟨(ends b first).1, (ends b first).2.1⟩
    · cases Option.some.inj first
      rcases marks with rfl | rfl <;> decide
  have after : ∀ b ∈ (f ++ (e ++ rest)).head?, isDigit b = false := by
    intro b first
    rcases fraction with rfl | ⟨ds, rfl, _⟩
    · exact (tail b first).1
    · cases Option.some.inj first
      rfl
  rw [readUnsigned, readWhole_append whole after, Option.bind_some, readFraction_append fraction tail,
    Option.bind_some, read rest ends]
  rfl

def writeSign (negative : Bool) : List UInt8 := if negative then [0x2D] else []

theorem Whole.head {w : List UInt8} (whole : Whole w) : ∃ d ds, w = d :: ds ∧ isDigit d = true := by
  rcases whole with rfl | ⟨digits, _⟩
  · exact ⟨0x30, [], rfl, rfl⟩
  · obtain ⟨d, ds, rfl⟩ := List.exists_cons_of_ne_nil digits.1
    exact ⟨d, ds, rfl, digits.2 d List.mem_cons_self⟩

theorem readNumber_append {w f e : List UInt8} (whole : Whole w) (fraction : Fraction f)
    (exponent : Exponent e) (negative : Bool) : ∃ x, ∀ rest : List UInt8, Ends rest →
      readNumber (writeSign negative ++ (w ++ (f ++ (e ++ rest)))) = some (x, rest) := by
  obtain ⟨v, read⟩ := readUnsigned_append whole fraction exponent
  obtain ⟨d, ds, rfl, digit⟩ := whole.head
  refine ⟨⟨negative, d :: ds, f.tail, v⟩, fun rest ends => ?_⟩
  have read := read negative rest ends
  cases negative with
  | true => exact read
  | false =>
    unfold readNumber
    split
    · rename_i minus
      obtain ⟨rfl, _⟩ := List.cons.inj minus
      exact absurd digit (by decide)
    · exact read

theorem skipSpace_cons {b : UInt8} (h : isSpace b = false) (text : List UInt8) :
    skipSpace (b :: text) = b :: text := by
  rw [skipSpace, List.dropWhile_cons, h]
  rfl

theorem readScalar_number {b : UInt8} (number : isDigit b = true ∨ b = 0x2D) (n : Nat)
    (text : List UInt8) :
    readScalar n (b :: text) = (readNumber (b :: text)).map fun p => (.number p.1, p.2) := by
  unfold readScalar
  split
  case h_5 => rfl
  all_goals
    rename_i other
    obtain ⟨rfl, _⟩ := List.cons.inj other
    exact absurd number (by decide)

theorem readValue_number {b : UInt8} (number : isDigit b = true ∨ b = 0x2D) (n : Nat)
    (text : List UInt8) :
    readValue (n + 1) (b :: text) = (readNumber (b :: text)).map fun p => (.number p.1, p.2) := by
  have space : isSpace b = false := by
    by_contra spaced
    simp only [isSpace, Bool.not_eq_false, Bool.or_eq_true, decide_eq_true_eq] at spaced
    rcases spaced with ((rfl | rfl) | rfl) | rfl <;> exact absurd number (by decide)
  rw [readValue, skipSpace_cons space]
  split
  · rename_i other
    obtain ⟨rfl, _⟩ := List.cons.inj other
    exact absurd number (by decide)
  · rename_i other
    obtain ⟨rfl, _⟩ := List.cons.inj other
    exact absurd number (by decide)
  · exact readScalar_number number n text

theorem writes_number {w f e : List UInt8} (whole : Whole w) (fraction : Fraction f)
    (exponent : Exponent e) (negative : Bool) :
    ∃ x, Writes (writeSign negative ++ (w ++ (f ++ e))) (.number x) := by
  obtain ⟨x, read⟩ := readNumber_append whole fraction exponent negative
  refine ⟨x, fun rest closed => ⟨1, ?_⟩⟩
  have read := read rest closed.ends
  obtain ⟨d, ds, rfl, digit⟩ := whole.head
  simp only [List.append_assoc]
  cases negative with
  | true =>
    simp only [writeSign, if_true, List.cons_append, List.nil_append] at read ⊢
    rw [readValue_number (.inr rfl), read]
    rfl
  | false =>
    simp only [writeSign, Bool.false_eq_true, if_false, List.cons_append, List.nil_append] at read ⊢
    rw [readValue_number (.inl digit), read]
    rfl

/-- A finite number other than zero: its shortest decimal digits and the place of the point. -/
structure Decimal where
  negative : Bool
  lead : Fin 9
  more : List (Fin 10)
  point : Int

def digitByte (n : Nat) : UInt8 := UInt8.ofNat (0x30 + n)

def Decimal.digits (x : Decimal) : List UInt8 :=
  digitByte (x.lead + 1) :: x.more.map (fun d : Fin 10 => digitByte d)

def writeExponent (e : Int) : List UInt8 :=
  0x65 :: ((if e < 0 then [0x2D] else [0x2B]) ++
    (Nat.toDigits 10 e.natAbs).map (fun c => UInt8.ofNat c.toNat))

/-- The text of ECMAScript's `Number::toString`. -/
def Decimal.write (x : Decimal) : List UInt8 :=
  let digits := x.digits
  let place := x.point.toNat
  writeSign x.negative ++
    if digits.length ≤ x.point ∧ x.point ≤ 21 then digits ++ List.replicate (place - digits.length) 0x30
    else if 0 < x.point ∧ x.point ≤ 21 then digits.take place ++ 0x2E :: digits.drop place
    else if -6 < x.point ∧ x.point ≤ 0 then
      0x30 :: 0x2E :: (List.replicate (-x.point).toNat 0x30 ++ digits)
    else if x.more = [] then digits ++ writeExponent (x.point - 1)
    else digits.take 1 ++ 0x2E :: (digits.drop 1 ++ writeExponent (x.point - 1))

theorem isDigit_digitByte {n : Nat} (h : n < 10) : isDigit (digitByte n) = true := by
  have table : ∀ i : Fin 10, isDigit (digitByte i) = true := by decide
  exact table ⟨n, h⟩

theorem Decimal.isDigit_of_mem (x : Decimal) : ∀ d ∈ x.digits, isDigit d = true := by
  intro d found
  rcases List.mem_cons.mp found with rfl | found
  · exact isDigit_digitByte (by omega)
  · obtain ⟨i, _, rfl⟩ := List.mem_map.mp found
    exact isDigit_digitByte i.isLt

theorem Decimal.lead_ne (x : Decimal) : digitByte (x.lead + 1) ≠ 0x30 := by
  have table : ∀ i : Fin 9, digitByte (i + 1) ≠ 0x30 := by decide
  exact table x.lead

theorem Decimal.whole (x : Decimal) {w rest : List UInt8} (h : w = digitByte (x.lead + 1) :: rest)
    (digits : ∀ d ∈ w, isDigit d = true) : Whole w := by
  subst h
  exact .inr ⟨⟨by simp, digits⟩, by simpa using x.lead_ne⟩

theorem exponent_write (e : Int) : Exponent (writeExponent e) := by
  refine .inr ⟨0x65, _, _, rfl, .inl rfl, ?_, ?_, ?_⟩
  · split
    · exact .inr (.inr rfl)
    · exact .inr (.inl rfl)
  · simp
  · intro d found
    obtain ⟨c, digit, rfl⟩ := List.mem_map.mp found
    have decimal := Nat.isDigit_of_mem_toDigits (by decide) (by decide) digit
    simp only [Char.isDigit, Bool.and_eq_true, decide_eq_true_eq, ge_iff_le, UInt32.le_iff_toNat_le]
      at decimal
    have low : 48 ≤ c.toNat := decimal.1
    have high : c.toNat ≤ 57 := decimal.2
    simp only [isDigit, Bool.and_eq_true, decide_eq_true_eq, UInt8.le_iff_toNat_le,
      Utf8.toNat_byte (by omega : c.toNat < 256)]
    exact ⟨low, high⟩

theorem writes_decimal (x : Decimal) : ∃ n, Writes x.write (.number n) := by
  have all := x.isDigit_of_mem
  have zeros : ∀ (k : Nat) (d : UInt8), d ∈ List.replicate k 0x30 → isDigit d = true := by
    intro k d found
    cases List.eq_of_mem_replicate found
    rfl
  unfold Decimal.write
  dsimp only
  split
  · have whole : Whole (x.digits ++ List.replicate (x.point.toNat - x.digits.length) 0x30) :=
      x.whole rfl (fun d found => (List.mem_append.mp found).elim (all d) (zeros _ d))
    simpa using writes_number whole (.inl rfl) (.inl rfl) x.negative
  · split
    · rename_i long short
      have place : x.point.toNat ≠ 0 := by omega
      obtain ⟨k, hk⟩ := Nat.exists_eq_add_one_of_ne_zero place
      have whole : Whole (x.digits.take x.point.toNat) :=
        x.whole (by rw [hk]; rfl) (fun d found => all d (List.mem_of_mem_take found))
      have fraction : Fraction (0x2E :: x.digits.drop x.point.toNat) := by
        refine .inr ⟨_, rfl, ?_, fun d found => all d (List.mem_of_mem_drop found)⟩
        intro empty
        have := List.drop_eq_nil_iff.mp empty
        omega
      simpa using writes_number whole fraction (.inl rfl) x.negative
    · split
      · have fraction : Fraction (0x2E :: (List.replicate (-x.point).toNat 0x30 ++ x.digits)) := by
          refine .inr ⟨_, rfl, by simp [Decimal.digits], fun d found => ?_⟩
          exact (List.mem_append.mp found).elim (zeros _ d) (all d)
        simpa using writes_number (.inl rfl) fraction (.inl rfl) x.negative
      · split
        · have whole : Whole x.digits := x.whole rfl all
          simpa using writes_number whole (.inl rfl) (exponent_write (x.point - 1)) x.negative
        · rename_i several
          have whole : Whole (x.digits.take 1) :=
            x.whole rfl (fun d found => all d (List.mem_of_mem_take found))
          have fraction : Fraction (0x2E :: x.digits.drop 1) := by
            refine .inr ⟨_, rfl, ?_, fun d found => all d (List.mem_of_mem_drop found)⟩
            simpa [Decimal.digits] using several
          simpa using writes_number whole fraction (exponent_write (x.point - 1)) x.negative

end Numbers

end Json
