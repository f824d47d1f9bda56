import Mathlib

/-! UTF-8 as Go reads it: one rune at a time, an invalid byte standing for U+FFFD. -/
namespace Utf8

def continuation (b : UInt8) : Bool := 0x80 ≤ b && b ≤ 0xBF

def bits (b mask : UInt8) : Nat := (b &&& mask).toNat

/-- The bytes allowed after a lead byte of three or four, which exclude overlong forms,
surrogates and anything above U+10FFFF. -/
def second (lead b : UInt8) : Bool :=
  if lead = 0xE0 then 0xA0 ≤ b && b ≤ 0xBF
  else if lead = 0xED then 0x80 ≤ b && b ≤ 0x9F
  else if lead = 0xF0 then 0x90 ≤ b && b ≤ 0xBF
  else if lead = 0xF4 then 0x80 ≤ b && b ≤ 0x8F
  else continuation b

def rune (lead : UInt8) (rest : List UInt8) : Option (Char × List UInt8) :=
  if lead < 0x80 then some (Char.ofNat lead.toNat, rest)
  else if 0xC2 ≤ lead && lead ≤ 0xDF then
    match rest with
    | b :: rest =>
      if continuation b then some (Char.ofNat (bits lead 0x1F * 64 + bits b 0x3F), rest) else none
    | [] => none
  else if 0xE0 ≤ lead && lead ≤ 0xEF then
    match rest with
    | b :: c :: rest =>
      if second lead b && continuation c then
        some (Char.ofNat (bits lead 0x0F * 4096 + bits b 0x3F * 64 + bits c 0x3F), rest)
      else none
    | _ => none
  else if 0xF0 ≤ lead && lead ≤ 0xF4 then
    match rest with
    | b :: c :: d :: rest =>
      if second lead b && continuation c && continuation d then
        some (Char.ofNat (bits lead 0x07 * 262144 + bits b 0x3F * 4096 + bits c 0x3F * 64 +
          bits d 0x3F), rest)
      else none
    | _ => none
  else none

def replacement : Char := Char.ofNat 0xFFFD

def decodeRune (lead : UInt8) (rest : List UInt8) : Char × List UInt8 :=
  (rune lead rest).getD (replacement, rest)

theorem rune_length {lead : UInt8} {rest : List UInt8} {c : Char} {rest' : List UInt8}
    (h : rune lead rest = some (c, rest')) : rest'.length ≤ rest.length := by
  unfold rune at h
  repeat' split at h
  all_goals first
    | contradiction
    | (obtain ⟨_, rfl⟩ := Prod.mk.inj (Option.some.inj h)
       simp only [List.length_cons]
       omega)
    | (obtain ⟨_, rfl⟩ := Prod.mk.inj (Option.some.inj h)
       exact le_rfl)

theorem decodeRune_length (lead : UInt8) (rest : List UInt8) :
    (decodeRune lead rest).2.length ≤ rest.length := by
  unfold decodeRune
  cases h : rune lead rest with
  | none => exact le_rfl
  | some p => exact rune_length h

section Encode

def encode (s : List Char) : List UInt8 := s.flatMap String.utf8EncodeChar

theorem encode_append (s t : List Char) : encode (s ++ t) = encode s ++ encode t := List.flatMap_append

theorem bits_low (b : UInt8) : bits b 0x3F = b.toNat % 64 ∧ bits b 0x1F = b.toNat % 32 ∧
    bits b 0x0F = b.toNat % 16 ∧ bits b 0x07 = b.toNat % 8 := by
  simp only [bits, UInt8.toNat_and]
  exact ⟨Nat.and_two_pow_sub_one_eq_mod _ 6, Nat.and_two_pow_sub_one_eq_mod _ 5,
    Nat.and_two_pow_sub_one_eq_mod _ 4, Nat.and_two_pow_sub_one_eq_mod _ 3⟩

theorem toNat_byte {n : Nat} (small : n < 256) : (UInt8.ofNat n).toNat = n :=
  UInt8.toNat_ofNat_of_lt' small

theorem continuation_iff {b : UInt8} : continuation b = true ↔ 0x80 ≤ b.toNat ∧ b.toNat ≤ 0xBF := by
  simp [continuation, UInt8.le_iff_toNat_le]

theorem second_iff {lead b : UInt8} : second lead b = true ↔ 0x80 ≤ b.toNat ∧ b.toNat ≤ 0xBF ∧
    (lead.toNat = 0xE0 → 0xA0 ≤ b.toNat) ∧ (lead.toNat = 0xED → b.toNat ≤ 0x9F) ∧
    (lead.toNat = 0xF0 → 0x90 ≤ b.toNat) ∧ (lead.toNat = 0xF4 → b.toNat ≤ 0x8F) := by
  have same : ∀ n : UInt8, lead = n ↔ lead.toNat = n.toNat := fun n => UInt8.toNat_inj.symm
  unfold second
  simp only [same, UInt8.reduceToNat]
  split
  · simp [UInt8.le_iff_toNat_le]; omega
  · split
    · simp [UInt8.le_iff_toNat_le]; omega
    · split
      · simp [UInt8.le_iff_toNat_le]; omega
      · split
        · simp [UInt8.le_iff_toNat_le]; omega
        · rw [continuation_iff]; omega

theorem rune_encodeChar {c : Char} {lead : UInt8} {tail : List UInt8} (rest : List UInt8)
    (h : String.utf8EncodeChar c = lead :: tail) : rune lead (tail ++ rest) = some (c, rest) := by
  have scalar : c.val.toNat < 0xD800 ∨ 0xDFFF < c.val.toNat ∧ c.val.toNat < 0x110000 := c.valid
  have back : Char.ofNat c.val.toNat = c := Char.ofNat_toNat c
  unfold String.utf8EncodeChar at h
  dsimp only at h
  generalize c.val.toNat = v at scalar back h
  unfold rune
  simp only [UInt8.lt_iff_toNat_lt, UInt8.le_iff_toNat_le, Bool.and_eq_true, decide_eq_true_eq,
    UInt8.reduceToNat, bits_low, continuation_iff, second_iff]
  split at h
  · obtain ⟨rfl, rfl⟩ := List.cons.inj h
    rw [toNat_byte (by omega), if_pos (by omega), back]
    rfl
  · split at h
    · obtain ⟨rfl, rfl⟩ := List.cons.inj h
      have value : (v / 64 % 32 + 192) % 32 * 64 + (v % 64 + 128) % 64 = v := by omega
      rw [toNat_byte (by omega), if_neg (by omega), if_pos (by omega)]
      simp only [List.cons_append, List.nil_append]
      rw [toNat_byte (by omega), if_pos (by omega), value, back]
    · split at h
      · obtain ⟨rfl, rfl⟩ := List.cons.inj h
        have value : (v / 4096 % 16 + 224) % 16 * 4096 + (v / 64 % 64 + 128) % 64 * 64 +
          (v % 64 + 128) % 64 = v := by omega
        rw [toNat_byte (by omega), if_neg (by omega), if_neg (by omega), if_pos (by omega)]
        simp only [List.cons_append, List.nil_append]
        rw [toNat_byte (by omega), toNat_byte (by omega), if_pos (by omega), value, back]
      · obtain ⟨rfl, rfl⟩ := List.cons.inj h
        have value : (v / 262144 % 8 + 240) % 8 * 262144 + (v / 4096 % 64 + 128) % 64 * 4096 +
          (v / 64 % 64 + 128) % 64 * 64 + (v % 64 + 128) % 64 = v := by omega
        rw [toNat_byte (by omega), if_neg (by omega), if_neg (by omega), if_neg (by omega),
          if_pos (by omega)]
        simp only [List.cons_append, List.nil_append]
        rw [toNat_byte (by omega), toNat_byte (by omega), toNat_byte (by omega), if_pos (by omega),
          value, back]

theorem toNat_ofNat {v : Nat} (scalar : v < 0xD800 ∨ 0xDFFF < v ∧ v < 0x110000) :
    (Char.ofNat v).val.toNat = v := by
  have valid : v.isValidChar := scalar
  simp only [Char.ofNat, valid, dif_pos]
  rfl

theorem byte_eq {b : UInt8} {n : Nat} (h : b.toNat = n) : UInt8.ofNat n = b := by
  rw [← h]
  exact UInt8.ofNat_toNat

theorem encodeChar_rune {c : Char} {lead : UInt8} {rest rest' : List UInt8}
    (h : rune lead rest = some (c, rest')) : lead :: rest = String.utf8EncodeChar c ++ rest' := by
  have range := lead.toNat_lt
  unfold rune at h
  simp only [UInt8.lt_iff_toNat_lt, UInt8.le_iff_toNat_le, Bool.and_eq_true, decide_eq_true_eq,
    UInt8.reduceToNat, bits_low, continuation_iff, second_iff] at h
  unfold String.utf8EncodeChar
  split at h
  · rename_i one
    obtain ⟨rfl, rfl⟩ := Prod.mk.inj (Option.some.inj h)
    rw [toNat_ofNat (by omega)]
    simp only
    rw [if_pos (by omega), byte_eq rfl]
    rfl
  · split at h
    · split at h
      · rename_i b tail
        split at h
        · obtain ⟨rfl, rfl⟩ := Prod.mk.inj (Option.some.inj h)
          rw [toNat_ofNat (by omega)]
          simp only
          rw [if_neg (by omega), if_pos (by omega), byte_eq (b := lead) (by omega),
            byte_eq (b := b) (by omega)]
          rfl
        · contradiction
      · contradiction
    · split at h
      · split at h
        · rename_i b c tail
          split at h
          · obtain ⟨rfl, rfl⟩ := Prod.mk.inj (Option.some.inj h)
            rw [toNat_ofNat (by omega)]
            simp only
            rw [if_neg (by omega), if_neg (by omega), if_pos (by omega),
              byte_eq (b := lead) (by omega), byte_eq (b := b) (by omega), byte_eq (b := c) (by omega)]
            rfl
          · contradiction
        · contradiction
      · split at h
        · split at h
          · rename_i b c d tail
            split at h
            · obtain ⟨rfl, rfl⟩ := Prod.mk.inj (Option.some.inj h)
              rw [toNat_ofNat (by omega)]
              simp only
              rw [if_neg (by omega), if_neg (by omega), if_neg (by omega),
                byte_eq (b := lead) (by omega), byte_eq (b := b) (by omega),
                byte_eq (b := c) (by omega), byte_eq (b := d) (by omega)]
              rfl
            · contradiction
          · contradiction
        · contradiction

def decodeAll : Nat → List UInt8 → Option (List Char)
  | _, [] => some []
  | 0, _ :: _ => none
  | n + 1, lead :: rest => (rune lead rest).bind fun p => (decodeAll n p.2).map (p.1 :: ·)

def decode (text : List UInt8) : Option (List Char) := decodeAll text.length text

theorem encode_decodeAll {n : Nat} {text : List UInt8} {s : List Char}
    (h : decodeAll n text = some s) : text = encode s := by
  induction n generalizing text s with
  | zero =>
    cases text with
    | nil => cases h; rfl
    | cons => contradiction
  | succ n ih =>
    cases text with
    | nil => cases h; rfl
    | cons lead rest =>
      obtain ⟨p, first, h⟩ := Option.bind_eq_some_iff.mp h
      obtain ⟨t, more, rfl⟩ := Option.map_eq_some_iff.mp h
      rw [encodeChar_rune first, ih more, encode, encode, List.flatMap_cons]

theorem decodeAll_encode {n : Nat} (s : List Char) (fuel : (encode s).length ≤ n) :
    decodeAll n (encode s) = some s := by
  induction s generalizing n with
  | nil => cases n <;> rfl
  | cons c s ih =>
    have split : encode (c :: s) = String.utf8EncodeChar c ++ encode s := rfl
    rw [split] at fuel ⊢
    cases bytes : String.utf8EncodeChar c with
    | nil => exact absurd bytes String.utf8EncodeChar_ne_nil
    | cons lead tail =>
      rw [bytes, List.cons_append, List.length_cons, List.length_append] at fuel
      cases n with
      | zero => omega
      | succ n =>
        rw [List.cons_append, decodeAll, rune_encodeChar (encode s) bytes, Option.bind_some, ih (by omega)]
        rfl

theorem decode_encode (s : List Char) : decode (encode s) = some s := decodeAll_encode s le_rfl

end Encode

section Next

def next : List UInt8 → Option (UInt8 × List UInt8)
  | [] => none
  | b :: rest => if continuation b then some (b, rest) else none

theorem continuation_of_second {lead b : UInt8} (h : second lead b = true) : continuation b = true := by
  rw [continuation_iff]
  rw [second_iff] at h
  exact ⟨h.1, h.2.1⟩

theorem rune_next (lead : UInt8) (rest : List UInt8) : rune lead rest =
    if lead < 0x80 then some (Char.ofNat lead.toNat, rest)
    else if 0xC2 ≤ lead && lead ≤ 0xDF then
      (next rest).map fun p => (Char.ofNat (bits lead 0x1F * 64 + bits p.1 0x3F), p.2)
    else if 0xE0 ≤ lead && lead ≤ 0xEF then
      (next rest).bind fun p => if second lead p.1 then
        (next p.2).map fun q =>
          (Char.ofNat (bits lead 0x0F * 4096 + bits p.1 0x3F * 64 + bits q.1 0x3F), q.2)
        else none
    else if 0xF0 ≤ lead && lead ≤ 0xF4 then
      (next rest).bind fun p => if second lead p.1 then
        (next p.2).bind fun q => (next q.2).map fun r =>
          (Char.ofNat (bits lead 0x07 * 262144 + bits p.1 0x3F * 4096 + bits q.1 0x3F * 64 +
            bits r.1 0x3F), r.2)
        else none
    else none := by
  unfold rune
  split
  · rfl
  · split
    · cases rest with
      | nil => rfl
      | cons b rest =>
        simp only [next]
        split <;> rfl
    · split
      · rcases rest with _ | ⟨b, _ | ⟨c, rest⟩⟩
        · rfl
        · simp only [next]
          split
          · simp
          · rfl
        · simp only [next]
          by_cases h : second lead b = true
          · simp only [h, continuation_of_second h, Bool.true_and, if_true, Option.bind_some]
            split <;> rfl
          · simp only [h, Bool.false_and, if_false, Bool.false_eq_true]
            split <;> simp [h]
      · split
        · rcases rest with _ | ⟨b, _ | ⟨c, _ | ⟨d, rest⟩⟩⟩
          · rfl
          · simp only [next]
            split
            · simp
            · rfl
          · simp only [next]
            split
            · simp only [Option.bind_some]
              split
              · split <;> rfl
              · rfl
            · rfl
          · simp only [next]
            by_cases h : second lead b = true
            · simp only [h, continuation_of_second h, Bool.true_and, if_true, Option.bind_some,
                Bool.and_eq_true]
              by_cases hc : continuation c = true <;> by_cases hd : continuation d = true <;>
                simp [hc, hd]
            · simp only [h, Bool.false_and, if_false, Bool.false_eq_true]
              split <;> simp [h]
        · rfl

/-- A change of the text that keeps continuation bytes in place keeps its runes. -/
theorem rune_map {f : List UInt8 → List UInt8}
    (keeps : ∀ rest, next (f rest) = (next rest).map fun p => (p.1, f p.2)) (lead : UInt8)
    (rest : List UInt8) : rune lead (f rest) = (rune lead rest).map fun p => (p.1, f p.2) := by
  rw [rune_next, rune_next]
  split
  · rfl
  · split
    · rw [keeps, Option.map_map, Option.map_map]
      rfl
    · split
      · rw [keeps]
        cases next rest with
        | none => rfl
        | some p =>
          simp only [Option.map_some, Option.bind_some]
          split
          · rw [keeps, Option.map_map, Option.map_map]
            rfl
          · rfl
      · split
        · rw [keeps]
          cases next rest with
          | none => rfl
          | some p =>
            simp only [Option.map_some, Option.bind_some]
            split
            · rw [keeps]
              cases next p.2 with
              | none => rfl
              | some q =>
                simp only [Option.map_some, Option.bind_some]
                rw [keeps, Option.map_map, Option.map_map]
                rfl
            · rfl
        · rfl

end Next

section Ascii

theorem encodeChar_small {c : Char} (h : c.val.toNat < 0x80) :
    String.utf8EncodeChar c = [UInt8.ofNat c.val.toNat] := by
  have small : c.val.toNat ≤ 0x7F := by omega
  simp only [String.utf8EncodeChar, if_pos small]

theorem encode_ascii {s : List Char} (h : ∀ c ∈ s, c.val.toNat < 0x80) :
    encode s = s.map (fun c => UInt8.ofNat c.val.toNat) := by
  induction s with
  | nil => rfl
  | cons c s ih =>
    obtain ⟨first, rest⟩ := List.forall_mem_cons.mp h
    have tail := ih rest
    rw [encode] at tail ⊢
    rw [List.flatMap_cons, encodeChar_small first, tail]
    rfl

theorem encodeChar_large {c : Char} (h : 0x80 ≤ c.val.toNat) {b : UInt8} (found : b ∈ String.utf8EncodeChar c) :
    0x80 ≤ b.toNat := by
  have scalar : c.val.toNat < 0xD800 ∨ 0xDFFF < c.val.toNat ∧ c.val.toNat < 0x110000 := c.valid
  have large : ¬c.val.toNat ≤ 0x7F := by omega
  simp only [String.utf8EncodeChar, if_neg large] at found
  generalize c.val.toNat = v at scalar found
  split at found
  · simp only [List.mem_cons, List.not_mem_nil, or_false] at found
    rcases found with rfl | rfl <;> rw [toNat_byte (by omega)] <;> omega
  · split at found
    · simp only [List.mem_cons, List.not_mem_nil, or_false] at found
      rcases found with rfl | rfl | rfl <;> rw [toNat_byte (by omega)] <;> omega
    · simp only [List.mem_cons, List.not_mem_nil, or_false] at found
      rcases found with rfl | rfl | rfl | rfl <;> rw [toNat_byte (by omega)] <;> omega

theorem encode_eq_cons {t : List Char} {b : UInt8} {rest : List UInt8} (h : encode t = b :: rest)
    (ascii : b.toNat < 0x80) : ∃ t', t = Char.ofNat b.toNat :: t' ∧ rest = encode t' := by
  cases t with
  | nil => contradiction
  | cons c t =>
    have split : encode (c :: t) = String.utf8EncodeChar c ++ encode t := rfl
    rw [split] at h
    by_cases small : c.val.toNat < 0x80
    · rw [encodeChar_small small] at h
      obtain ⟨rfl, rfl⟩ := List.cons.inj h
      apply Exists.intro t
      rw [toNat_byte (by omega)]
      exact ⟨congrArg (· :: t) (Char.ofNat_toNat c).symm, rfl⟩
    · cases bytes : String.utf8EncodeChar c with
      | nil => exact absurd bytes String.utf8EncodeChar_ne_nil
      | cons lead tail =>
        rw [bytes] at h
        obtain ⟨rfl, _⟩ := List.cons.inj h
        have := encodeChar_large (by omega) (bytes ▸ List.mem_cons_self)
        omega

theorem encode_lt_iff {s t : List Char} (hs : ∀ c ∈ s, c.val.toNat < 0x80)
    (ht : ∀ c ∈ t, c.val.toNat < 0x80) :
    encode s < encode t ↔ s < t := by
  rw [encode_ascii hs, encode_ascii ht]
  induction s generalizing t with
  | nil => cases t <;> simp
  | cons c s ih =>
    cases t with
    | nil => simp
    | cons d t =>
      obtain ⟨first, rest⟩ := List.forall_mem_cons.mp hs
      obtain ⟨first', rest'⟩ := List.forall_mem_cons.mp ht
      have less : UInt8.ofNat c.val.toNat < UInt8.ofNat d.val.toNat ↔ c < d := by
        rw [UInt8.lt_iff_toNat_lt, toNat_byte (by omega), toNat_byte (by omega)]
        exact Iff.rfl
      have same : UInt8.ofNat c.val.toNat = UInt8.ofNat d.val.toNat ↔ c = d := by
        constructor
        · intro equal
          have values := congrArg UInt8.toNat equal
          rw [toNat_byte (by omega), toNat_byte (by omega)] at values
          exact Char.ext (UInt32.toNat_inj.mp values)
        · intro equal
          rw [equal]
      rw [List.map_cons, List.map_cons, List.cons_lt_cons_iff, List.cons_lt_cons_iff, ih rest rest', less, same]

end Ascii

end Utf8
