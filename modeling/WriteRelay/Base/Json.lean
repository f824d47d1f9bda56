import WriteRelay.Base.Utf8

/-! JSON texts (RFC 8259) read into trees, and the values the trees denote: in a value
an object is a finite map and a number a rational. -/
namespace Json

structure Number where
  negative : Bool
  whole : List UInt8
  fraction : List UInt8
  exponent : Int

inductive Tree
  | null
  | bool (b : Bool)
  | number (n : Number)
  | string (s : String)
  | array (elements : List Tree)
  | object (members : List (String × Tree))

mutual
def Tree.depth : Tree → Nat
  | .null | .bool _ | .number _ | .string _ => 0
  | .array elements => 1 + depthElements elements
  | .object members => 1 + depthMembers members

def depthElements : List Tree → Nat
  | [] => 0
  | t :: ts => max t.depth (depthElements ts)

def depthMembers : List (String × Tree) → Nat
  | [] => 0
  | m :: ms => max (depthMember m) (depthMembers ms)

def depthMember : String × Tree → Nat
  | (_, t) => t.depth
end

section Read

def isSpace (b : UInt8) : Bool := b = 0x20 || b = 0x09 || b = 0x0A || b = 0x0D

def skipSpace (text : List UInt8) : List UInt8 := text.dropWhile isSpace

def isDigit (b : UInt8) : Bool := 0x30 ≤ b && b ≤ 0x39

def hexValue (b : UInt8) : Option Nat :=
  if isDigit b then some (b.toNat - 0x30)
  else if 0x61 ≤ b && b ≤ 0x66 then some (b.toNat - 0x57)
  else if 0x41 ≤ b && b ≤ 0x46 then some (b.toNat - 0x37)
  else none

def readUnit : List UInt8 → Option (Nat × List UInt8)
  | a :: b :: c :: d :: rest => do
    let a ← hexValue a
    let b ← hexValue b
    let c ← hexValue c
    let d ← hexValue d
    return (((a * 16 + b) * 16 + c) * 16 + d, rest)
  | _ => none

def isHigh (unit : Nat) : Bool := 0xD800 ≤ unit && unit ≤ 0xDBFF

def isLow (unit : Nat) : Bool := 0xDC00 ≤ unit && unit ≤ 0xDFFF

def combine (high low : Nat) : Char := Char.ofNat ((high - 0xD800) * 1024 + (low - 0xDC00) + 0x10000)

/-- A high surrogate takes a low one after it along; any other surrogate is replaced. -/
def unitRune (unit : Nat) (rest : List UInt8) : Char × List UInt8 :=
  if isHigh unit then
    match rest with
    | 0x5C :: 0x75 :: rest' =>
      match readUnit rest' with
      | some (low, rest'') =>
        if isLow low then (combine unit low, rest'') else (Utf8.replacement, rest)
      | none => (Utf8.replacement, rest)
    | _ => (Utf8.replacement, rest)
  else if isLow unit then (Utf8.replacement, rest)
  else (Char.ofNat unit, rest)

def readEscape : List UInt8 → Option (Char × List UInt8)
  | 0x22 :: rest => some ('"', rest)
  | 0x5C :: rest => some ('\\', rest)
  | 0x2F :: rest => some ('/', rest)
  | 0x62 :: rest => some (Char.ofNat 8, rest)
  | 0x66 :: rest => some (Char.ofNat 12, rest)
  | 0x6E :: rest => some ('\n', rest)
  | 0x72 :: rest => some ('\r', rest)
  | 0x74 :: rest => some ('\t', rest)
  | 0x75 :: rest => (readUnit rest).map (fun p => unitRune p.1 p.2)
  | _ => none

def readChar (b : UInt8) (rest : List UInt8) : Option (Char × List UInt8) :=
  if b = 0x5C then readEscape rest
  else if b < 0x20 then none
  else some (Utf8.decodeRune b rest)

def readString : Nat → List UInt8 → Option (List Char × List UInt8)
  | 0, _ => none
  | _, [] => none
  | n + 1, b :: rest =>
    if b = 0x22 then some ([], rest)
    else (readChar b rest).bind fun p => (readString n p.2).map fun q => (p.1 :: q.1, q.2)

def readDigits (text : List UInt8) : Option (List UInt8 × List UInt8) :=
  if text.takeWhile isDigit = [] then none
  else some (text.takeWhile isDigit, text.dropWhile isDigit)

def readWhole : List UInt8 → Option (List UInt8 × List UInt8)
  | 0x30 :: rest => some ([0x30], rest)
  | text => readDigits text

def readFraction : List UInt8 → Option (List UInt8 × List UInt8)
  | 0x2E :: rest => readDigits rest
  | text => some ([], text)

def digitsValue (digits : List UInt8) : Nat := digits.foldl (fun n d => 10 * n + (d.toNat - 0x30)) 0

def readExponentDigits : List UInt8 → Option (Int × List UInt8)
  | 0x2D :: rest => (readDigits rest).map fun p => (-(digitsValue p.1 : Int), p.2)
  | 0x2B :: rest => (readDigits rest).map fun p => (digitsValue p.1, p.2)
  | text => (readDigits text).map fun p => (digitsValue p.1, p.2)

def readExponent : List UInt8 → Option (Int × List UInt8)
  | 0x65 :: rest => readExponentDigits rest
  | 0x45 :: rest => readExponentDigits rest
  | text => some (0, text)

def readUnsigned (negative : Bool) (text : List UInt8) : Option (Number × List UInt8) :=
  (readWhole text).bind fun w => (readFraction w.2).bind fun f => (readExponent f.2).map fun e =>
    (⟨negative, w.1, f.1, e.1⟩, e.2)

def readNumber : List UInt8 → Option (Number × List UInt8)
  | 0x2D :: rest => readUnsigned true rest
  | text => readUnsigned false text

def readScalar (n : Nat) : List UInt8 → Option (Tree × List UInt8)
  | 0x22 :: rest => (readString n rest).map fun p => (.string (String.ofList p.1), p.2)
  | 0x74 :: 0x72 :: 0x75 :: 0x65 :: rest => some (.bool true, rest)
  | 0x66 :: 0x61 :: 0x6C :: 0x73 :: 0x65 :: rest => some (.bool false, rest)
  | 0x6E :: 0x75 :: 0x6C :: 0x6C :: rest => some (.null, rest)
  | text => (readNumber text).map fun p => (.number p.1, p.2)

def readKey (n : Nat) : List UInt8 → Option (String × List UInt8)
  | 0x22 :: rest => (readString n rest).bind fun p =>
    match skipSpace p.2 with
    | 0x3A :: rest => some (String.ofList p.1, rest)
    | _ => none
  | _ => none

mutual
def readValue : Nat → List UInt8 → Option (Tree × List UInt8)
  | 0, _ => none
  | n + 1, text =>
    match skipSpace text with
    | 0x7B :: rest =>
      match skipSpace rest with
      | 0x7D :: rest => some (.object [], rest)
      | rest => (readMembers n rest).map fun p => (.object p.1, p.2)
    | 0x5B :: rest =>
      match skipSpace rest with
      | 0x5D :: rest => some (.array [], rest)
      | rest => (readElements n rest).map fun p => (.array p.1, p.2)
    | text => readScalar n text

def readElements : Nat → List UInt8 → Option (List Tree × List UInt8)
  | 0, _ => none
  | n + 1, text =>
    (readValue n text).bind fun p =>
      match skipSpace p.2 with
      | 0x2C :: rest => (readElements n rest).map fun q => (p.1 :: q.1, q.2)
      | 0x5D :: rest => some ([p.1], rest)
      | _ => none

def readMembers : Nat → List UInt8 → Option (List (String × Tree) × List UInt8)
  | 0, _ => none
  | n + 1, text =>
    (readKey n (skipSpace text)).bind fun k => (readValue n k.2).bind fun p =>
      match skipSpace p.2 with
      | 0x2C :: rest => (readMembers n rest).map fun q => ((k.1, p.1) :: q.1, q.2)
      | 0x7D :: rest => some ([(k.1, p.1)], rest)
      | _ => none
end

/-- One value with space around it. Every two levels of the reader consume a byte. -/
def parse (text : List UInt8) : Option Tree :=
  (readValue (2 * text.length + 2) text).bind fun p =>
    if skipSpace p.2 = [] then some p.1 else none

end Read

section Fuel

theorem skipSpace_length (text : List UInt8) : (skipSpace text).length ≤ text.length :=
  List.length_dropWhile_le _ _

theorem readUnit_length {text rest : List UInt8} {unit : Nat} (h : readUnit text = some (unit, rest)) :
    rest.length < text.length := by
  unfold readUnit at h
  split at h
  · simp only [Option.bind_eq_bind, Option.bind_eq_some_iff, Option.pure_def, Option.some.injEq,
      Prod.mk.injEq] at h
    obtain ⟨_, _, _, _, _, _, _, _, _, rfl⟩ := h
    simp only [List.length_cons]
    omega
  · contradiction

theorem unitRune_length (unit : Nat) (rest : List UInt8) : (unitRune unit rest).2.length ≤ rest.length := by
  unfold unitRune
  split
  · split
    · rename_i rest'
      split
      · rename_i low rest'' read
        have shorter := readUnit_length read
        split
        · simp only [List.length_cons]
          omega
        · exact le_rfl
      · exact le_rfl
    · exact le_rfl
  · split <;> exact le_rfl

theorem readChar_length {b : UInt8} {rest rest' : List UInt8} {c : Char}
    (h : readChar b rest = some (c, rest')) : rest'.length ≤ rest.length := by
  unfold readChar at h
  split at h
  · unfold readEscape at h
    split at h
    case h_9 tail =>
      obtain ⟨p, read, same⟩ := Option.map_eq_some_iff.mp h
      have shorter := readUnit_length read
      have := unitRune_length p.1 p.2
      rw [same] at this
      simp only [List.length_cons] at this ⊢
      omega
    case h_10 => contradiction
    all_goals
      obtain ⟨_, rfl⟩ := Prod.mk.inj (Option.some.inj h)
      simp
  · split at h
    · contradiction
    · have := Utf8.decodeRune_length b rest
      rw [Option.some.inj h] at this
      exact this

theorem readString_length {n : Nat} {text rest : List UInt8} {s : List Char}
    (h : readString n text = some (s, rest)) : rest.length < text.length := by
  induction n generalizing text s with
  | zero => simp [readString] at h
  | succ n ih =>
    cases text with
    | nil => simp [readString] at h
    | cons b tail =>
      simp only [readString] at h
      split at h
      · obtain ⟨_, rfl⟩ := Prod.mk.inj (Option.some.inj h)
        simp
      · obtain ⟨p, read, h⟩ := Option.bind_eq_some_iff.mp h
        obtain ⟨q, more, same⟩ := Option.map_eq_some_iff.mp h
        obtain ⟨_, rfl⟩ := Prod.mk.inj same
        have first := readChar_length read
        have := ih more
        simp only [List.length_cons]
        omega

theorem readDigits_length {text digits rest : List UInt8} (h : readDigits text = some (digits, rest)) :
    rest.length < text.length := by
  unfold readDigits at h
  split at h
  · contradiction
  · rename_i some_
    obtain ⟨_, rfl⟩ := Prod.mk.inj (Option.some.inj h)
    have total := congrArg List.length (List.takeWhile_append_dropWhile (p := isDigit) (l := text))
    have positive := List.length_pos_iff.mpr some_
    rw [List.length_append] at total
    omega

theorem readUnsigned_length {negative : Bool} {text rest : List UInt8} {x : Number}
    (h : readUnsigned negative text = some (x, rest)) : rest.length < text.length := by
  obtain ⟨w, whole, h⟩ := Option.bind_eq_some_iff.mp h
  obtain ⟨f, fraction, h⟩ := Option.bind_eq_some_iff.mp h
  obtain ⟨e, exponent, same⟩ := Option.map_eq_some_iff.mp h
  obtain ⟨_, rfl⟩ := Prod.mk.inj same
  have first : w.2.length < text.length := by
    unfold readWhole at whole
    split at whole
    · cases whole
      simp
    · exact readDigits_length whole
  have second : f.2.length ≤ w.2.length := by
    unfold readFraction at fraction
    split at fraction
    · rename_i tail same
      have := readDigits_length fraction
      rw [same, List.length_cons]
      omega
    · cases fraction
      exact le_rfl
  have digits : ∀ {tail : List UInt8} {e : Int × List UInt8}, readExponentDigits tail = some e →
      e.2.length ≤ tail.length := by
    intro tail e read
    unfold readExponentDigits at read
    split at read <;>
    · obtain ⟨p, digits, rfl⟩ := Option.map_eq_some_iff.mp read
      have := readDigits_length digits
      simp only [List.length_cons]
      omega
  have third : e.2.length ≤ f.2.length := by
    unfold readExponent at exponent
    split at exponent
    · rename_i tail same
      have := digits exponent
      rw [same, List.length_cons]
      omega
    · rename_i tail same
      have := digits exponent
      rw [same, List.length_cons]
      omega
    · cases exponent
      exact le_rfl
  omega

theorem readNumber_length {text rest : List UInt8} {x : Number}
    (h : readNumber text = some (x, rest)) : rest.length < text.length := by
  unfold readNumber at h
  split at h
  · have := readUnsigned_length h
    simp only [List.length_cons]
    omega
  · exact readUnsigned_length h

theorem readScalar_length {n : Nat} {text rest : List UInt8} {t : Tree}
    (h : readScalar n text = some (t, rest)) : rest.length < text.length := by
  unfold readScalar at h
  split at h
  · obtain ⟨p, read, same⟩ := Option.map_eq_some_iff.mp h
    obtain ⟨_, rfl⟩ := Prod.mk.inj same
    have := readString_length read
    simp only [List.length_cons]
    omega
  · obtain ⟨_, rfl⟩ := Prod.mk.inj (Option.some.inj h)
    simp only [List.length_cons]
    omega
  · obtain ⟨_, rfl⟩ := Prod.mk.inj (Option.some.inj h)
    simp only [List.length_cons]
    omega
  · obtain ⟨_, rfl⟩ := Prod.mk.inj (Option.some.inj h)
    simp only [List.length_cons]
    omega
  · obtain ⟨p, read, same⟩ := Option.map_eq_some_iff.mp h
    obtain ⟨_, rfl⟩ := Prod.mk.inj same
    exact readNumber_length read

theorem readKey_length {n : Nat} {text rest : List UInt8} {key : String}
    (h : readKey n text = some (key, rest)) : rest.length < text.length := by
  unfold readKey at h
  split at h
  · obtain ⟨p, read, h⟩ := Option.bind_eq_some_iff.mp h
    have shorter := readString_length read
    split at h
    · rename_i colon
      obtain ⟨_, rfl⟩ := Prod.mk.inj (Option.some.inj h)
      have := skipSpace_length p.2
      rw [colon, List.length_cons] at this
      simp only [List.length_cons]
      omega
    · contradiction
  · contradiction

theorem read_length (n : Nat) :
    (∀ text t rest, readValue n text = some (t, rest) → rest.length < text.length) ∧
    (∀ text ts rest, readElements n text = some (ts, rest) → rest.length < text.length) ∧
    (∀ text ms rest, readMembers n text = some (ms, rest) → rest.length < text.length) := by
  induction n with
  | zero => simp [readValue, readElements, readMembers]
  | succ n ih =>
    obtain ⟨value, elements, members⟩ := ih
    refine ⟨?_, ?_, ?_⟩
    · intro text t rest h
      have space := skipSpace_length text
      unfold readValue at h
      split at h
      · rename_i tail found
        rw [found, List.length_cons] at space
        have space' := skipSpace_length tail
        split at h
        · rename_i found'
          obtain ⟨_, rfl⟩ := Prod.mk.inj (Option.some.inj h)
          rw [found', List.length_cons] at space'
          omega
        · obtain ⟨p, read, same⟩ := Option.map_eq_some_iff.mp h
          obtain ⟨_, rfl⟩ := Prod.mk.inj same
          have := members _ _ _ read
          omega
      · rename_i tail found
        rw [found, List.length_cons] at space
        have space' := skipSpace_length tail
        split at h
        · rename_i found'
          obtain ⟨_, rfl⟩ := Prod.mk.inj (Option.some.inj h)
          rw [found', List.length_cons] at space'
          omega
        · obtain ⟨p, read, same⟩ := Option.map_eq_some_iff.mp h
          obtain ⟨_, rfl⟩ := Prod.mk.inj same
          have := elements _ _ _ read
          omega
      · have := readScalar_length h
        omega
    · intro text ts rest h
      unfold readElements at h
      obtain ⟨p, read, h⟩ := Option.bind_eq_some_iff.mp h
      have first := value _ _ _ read
      have space := skipSpace_length p.2
      split at h
      · rename_i tail found
        obtain ⟨q, more, same⟩ := Option.map_eq_some_iff.mp h
        obtain ⟨_, rfl⟩ := Prod.mk.inj same
        have := elements _ _ _ more
        rw [found, List.length_cons] at space
        omega
      · rename_i found
        obtain ⟨_, rfl⟩ := Prod.mk.inj (Option.some.inj h)
        rw [found, List.length_cons] at space
        omega
      · contradiction
    · intro text ms rest h
      unfold readMembers at h
      obtain ⟨k, key, h⟩ := Option.bind_eq_some_iff.mp h
      obtain ⟨p, read, h⟩ := Option.bind_eq_some_iff.mp h
      have before := skipSpace_length text
      have named := readKey_length key
      have first := value _ _ _ read
      have space := skipSpace_length p.2
      split at h
      · rename_i tail found
        obtain ⟨q, more, same⟩ := Option.map_eq_some_iff.mp h
        obtain ⟨_, rfl⟩ := Prod.mk.inj same
        have := members _ _ _ more
        rw [found, List.length_cons] at space
        omega
      · rename_i found
        obtain ⟨_, rfl⟩ := Prod.mk.inj (Option.some.inj h)
        rw [found, List.length_cons] at space
        omega
      · contradiction

theorem readString_fuel {n m : Nat} {text : List UInt8} {r : List Char × List UInt8}
    (h : readString n text = some r) (enough : text.length ≤ m) : readString m text = some r := by
  induction n generalizing m text r with
  | zero => simp [readString] at h
  | succ n ih =>
    cases text with
    | nil => simp [readString] at h
    | cons b tail =>
      obtain ⟨m, rfl⟩ := Nat.exists_eq_add_one_of_ne_zero (Nat.ne_of_gt (by simp at enough; omega : 0 < m))
      simp only [readString] at h ⊢
      split at h
      · rename_i quote
        rw [if_pos quote]
        exact h
      · rename_i quote
        rw [if_neg quote]
        obtain ⟨p, read, h⟩ := Option.bind_eq_some_iff.mp h
        obtain ⟨q, more, same⟩ := Option.map_eq_some_iff.mp h
        have := readChar_length read
        simp only [List.length_cons] at enough
        rw [read, Option.bind_some, ih more (by omega), Option.map_some, same]

theorem readScalar_fuel {n m : Nat} {text : List UInt8} {r : Tree × List UInt8}
    (h : readScalar n text = some r) (enough : text.length ≤ m + 1) : readScalar m text = some r := by
  unfold readScalar at h ⊢
  split at h
  · obtain ⟨p, read, same⟩ := Option.map_eq_some_iff.mp h
    simp only [List.length_cons] at enough
    simp only [readString_fuel read (by omega : _ ≤ m), Option.map_some, same]
  · exact h
  · exact h
  · exact h
  · exact h

theorem readKey_fuel {n m : Nat} {text : List UInt8} {r : String × List UInt8}
    (h : readKey n text = some r) (enough : text.length ≤ m + 1) : readKey m text = some r := by
  unfold readKey at h ⊢
  split at h
  · obtain ⟨p, read, rest⟩ := Option.bind_eq_some_iff.mp h
    simp only [List.length_cons] at enough
    simp only [readString_fuel read (by omega : _ ≤ m), Option.bind_some, rest]
  · contradiction

/-- What some fuel reads, any fuel of twice the length reads. -/
theorem read_fuel (n : Nat) :
    (∀ m text r, readValue n text = some r → 2 * text.length + 1 ≤ m → readValue m text = some r) ∧
    (∀ m text r, readElements n text = some r → 2 * text.length + 2 ≤ m →
      readElements m text = some r) ∧
    (∀ m text r, readMembers n text = some r → 2 * text.length + 2 ≤ m →
      readMembers m text = some r) := by
  induction n with
  | zero => simp [readValue, readElements, readMembers]
  | succ n ih =>
    obtain ⟨value, elements, members⟩ := ih
    refine ⟨?_, ?_, ?_⟩
    · intro m text r h enough
      obtain ⟨m, rfl⟩ := Nat.exists_eq_add_one_of_ne_zero (by omega : m ≠ 0)
      have space := skipSpace_length text
      unfold readValue at h ⊢
      split at h
      · rename_i tail found
        rw [found, List.length_cons] at space
        have space' := skipSpace_length tail
        split at h
        · exact h
        · obtain ⟨p, read, same⟩ := Option.map_eq_some_iff.mp h
          rw [members m _ p read (by omega), Option.map_some, same]
      · rename_i tail found
        rw [found, List.length_cons] at space
        have space' := skipSpace_length tail
        split at h
        · exact h
        · obtain ⟨p, read, same⟩ := Option.map_eq_some_iff.mp h
          rw [elements m _ p read (by omega), Option.map_some, same]
      · exact readScalar_fuel h (by omega)
    · intro m text r h enough
      obtain ⟨m, rfl⟩ := Nat.exists_eq_add_one_of_ne_zero (by omega : m ≠ 0)
      unfold readElements at h ⊢
      obtain ⟨p, read, h⟩ := Option.bind_eq_some_iff.mp h
      have first := (read_length n).1 _ _ _ read
      have space := skipSpace_length p.2
      rw [value m text p read (by omega), Option.bind_some]
      split at h
      · rename_i tail found
        rw [found, List.length_cons] at space
        obtain ⟨q, more, same⟩ := Option.map_eq_some_iff.mp h
        rw [elements m _ q more (by omega), Option.map_some, same]
      · exact h
      · contradiction
    · intro m text r h enough
      obtain ⟨m, rfl⟩ := Nat.exists_eq_add_one_of_ne_zero (by omega : m ≠ 0)
      unfold readMembers at h ⊢
      obtain ⟨k, key, h⟩ := Option.bind_eq_some_iff.mp h
      obtain ⟨p, read, h⟩ := Option.bind_eq_some_iff.mp h
      have before := skipSpace_length text
      have named := readKey_length key
      have first := (read_length n).1 _ _ _ read
      have space := skipSpace_length p.2
      rw [readKey_fuel key (by omega), Option.bind_some, value m k.2 p read (by omega),
        Option.bind_some]
      split at h
      · rename_i tail found
        rw [found, List.length_cons] at space
        obtain ⟨q, more, same⟩ := Option.map_eq_some_iff.mp h
        rw [members m _ q more (by omega), Option.map_some, same]
      · exact h
      · contradiction

def Reads (text : List UInt8) (t : Tree) : Prop :=
  ∃ n rest, readValue n text = some (t, rest) ∧ skipSpace rest = []

theorem parse_eq_some {text : List UInt8} {t : Tree} : parse text = some t ↔ Reads text t := by
  unfold parse Reads
  constructor
  · intro h
    obtain ⟨⟨t', rest⟩, read, h⟩ := Option.bind_eq_some_iff.mp h
    split at h
    · rename_i ended
      cases Option.some.inj h
      exact ⟨_, rest, read, ended⟩
    · contradiction
  · rintro ⟨n, rest, read, ended⟩
    rw [(read_fuel n).1 _ text _ read (by omega), Option.bind_some, if_pos ended]

theorem Reads.length_pos {text : List UInt8} {t : Tree} (h : Reads text t) : 0 < text.length := by
  obtain ⟨n, rest, read, _⟩ := h
  have := (read_length n).1 _ _ _ read
  omega

end Fuel

section Meaning

inductive Value
  | null
  | bool (b : Bool)
  | number (q : ℚ)
  | string (s : String)
  | array (elements : List Value)
  | object (members : String → Option Value)

def Number.value (n : Number) : ℚ :=
  (if n.negative then -1 else 1) * digitsValue (n.whole ++ n.fraction) *
    (10 : ℚ) ^ (n.exponent - n.fraction.length)

mutual
def Tree.denote : Tree → Value
  | .null => .null
  | .bool b => .bool b
  | .number n => .number n.value
  | .string s => .string s
  | .array elements => .array (denoteElements elements)
  | .object members => .object (denoteMembers members)

def denoteElements : List Tree → List Value
  | [] => []
  | t :: ts => t.denote :: denoteElements ts

/-- Of members with one key, the last counts. -/
def denoteMembers : List (String × Tree) → String → Option Value
  | [] => fun _ => none
  | m :: ms => fun key => (denoteMembers ms key).or (denoteMember m key)

def denoteMember : String × Tree → String → Option Value
  | (name, t) => fun key => if key = name then some t.denote else none
end

def lookup (key : String) : List (String × Tree) → Option Tree
  | [] => none
  | (name, t) :: ms => (lookup key ms).or (if key = name then some t else none)

theorem denoteMembers_eq (members : List (String × Tree)) (key : String) :
    denoteMembers members key = (lookup key members).map Tree.denote := by
  induction members with
  | nil => rfl
  | cons m ms ih =>
    obtain ⟨name, t⟩ := m
    simp only [denoteMembers, denoteMember, lookup, ih]
    cases lookup key ms with
    | some found => rfl
    | none =>
      simp only [Option.map_none, Option.none_or]
      split <;> rfl

theorem denoteMembers_append (ms ns : List (String × Tree)) (key : String) :
    denoteMembers (ms ++ ns) key = (denoteMembers ns key).or (denoteMembers ms key) := by
  induction ms with
  | nil => simp [denoteMembers]
  | cons m ms ih => simp only [List.cons_append, denoteMembers, ih, Option.or_assoc]

def optional {α : Type} (name : String) (value : Option α) : List (String × α) :=
  value.toList.map fun v => (name, v)

theorem denoteMembers_optional (name : String) (t : Option Tree) (key : String) :
    denoteMembers (optional name t) key = if key = name then t.map Tree.denote else none := by
  cases t with
  | none => simp [optional, denoteMembers]
  | some t => simp [optional, denoteMembers, denoteMember]

end Meaning

end Json
