import WriteRelay.Base.JsonWrite

/-! Compaction: space between tokens is dropped, and inside strings the characters that
matter to HTML and JavaScript are escaped. The compact text is read as the same tree. -/
namespace Json

def isHtml (b : UInt8) : Bool := b = 0x3C || b = 0x3E || b = 0x26

/-- U+2028 and U+2029, which are three bytes long. -/
def separator (b : UInt8) (rest : List UInt8) : Option Nat :=
  match b, rest with
  | 0xE2, 0x80 :: 0xA8 :: _ => some 0x2028
  | 0xE2, 0x80 :: 0xA9 :: _ => some 0x2029
  | _, _ => none

inductive Mode
  | between
  | inside
  | escaped
  | skipTwo
  | skipOne

def compact : Mode → List UInt8 → List UInt8
  | _, [] => []
  | .between, b :: rest =>
    if isSpace b then compact .between rest
    else b :: compact (if b = 0x22 then .inside else .between) rest
  | .inside, b :: rest =>
    if b = 0x22 then b :: compact .between rest
    else if b = 0x5C then b :: compact .escaped rest
    else if isHtml b then writeUnit b.toNat ++ compact .inside rest
    else match separator b rest with
      | some unit => writeUnit unit ++ compact .skipTwo rest
      | none => b :: compact .inside rest
  | .escaped, b :: rest => b :: compact .inside rest
  | .skipTwo, _ :: rest => compact .skipOne rest
  | .skipOne, _ :: rest => compact .inside rest

section Strings

theorem compact_escape (c : UInt8) (rest : List UInt8) :
    compact .inside (0x5C :: c :: rest) = 0x5C :: c :: compact .inside rest := rfl

theorem compact_plain {b : UInt8} (rest : List UInt8) (quote : b ≠ 0x22) (backslash : b ≠ 0x5C) :
    compact .inside (b :: rest) = b :: compact .inside rest ∨
    (isHtml b = true ∨ b = 0xE2) ∧ ∃ c rest', Utf8.rune b rest = some (c, rest') ∧
      c.val.toNat < 0x3000 ∧
      compact .inside (b :: rest) = writeUnit c.val.toNat ++ compact .inside rest' := by
  by_cases html : isHtml b = true
  · refine .inr ⟨.inl html, Char.ofNat b.toNat, rest, ?_⟩
    simp only [isHtml, Bool.or_eq_true, decide_eq_true_eq] at html
    rcases html with (rfl | rfl) | rfl <;> exact ⟨rfl, by decide, rfl⟩
  · cases found : separator b rest with
    | none =>
      left
      simp only [compact, quote, backslash, html, found, if_false]
      rfl
    | some unit =>
      right
      unfold separator at found
      split at found
      · cases Option.some.inj found
        exact ⟨.inr rfl, Char.ofNat 0x2028, _, rfl, by decide, rfl⟩
      · cases Option.some.inj found
        exact ⟨.inr rfl, Char.ofNat 0x2029, _, rfl, by decide, rfl⟩
      · contradiction

variable {tail : List UInt8}

theorem Closed.next (closed : Closed tail) : Utf8.next tail = none := by
  cases tail with
  | nil => rfl
  | cons b tail =>
    rcases closed b rfl with rfl | rfl | rfl <;> rfl

theorem next_compact (closed : Closed tail) (text : List UInt8) :
    Utf8.next (compact .inside text ++ tail) =
      (Utf8.next text).map fun p => (p.1, compact .inside p.2 ++ tail) := by
  cases text with
  | nil => exact closed.next
  | cons b rest =>
    by_cases quote : b = 0x22
    · subst quote
      rfl
    by_cases backslash : b = 0x5C
    · subst backslash
      rfl
    rcases compact_plain rest quote backslash with copied | ⟨kind, c, rest', _, _, written⟩
    · rw [copied, List.cons_append, Utf8.next, Utf8.next]
      split <;> rfl
    · have lead : Utf8.continuation b = false := by
        rcases kind with html | rfl
        · simp only [isHtml, Bool.or_eq_true, decide_eq_true_eq] at html
          rcases html with (rfl | rfl) | rfl <;> rfl
        · rfl
      rw [written, Utf8.next, lead]
      rfl

theorem hexValue_plain {b : UInt8} {n : Nat} (h : hexValue b = some n) (rest : List UInt8) :
    compact .inside (b :: rest) = b :: compact .inside rest := by
  have quote : b ≠ 0x22 := by
    rintro rfl
    contradiction
  have backslash : b ≠ 0x5C := by
    rintro rfl
    contradiction
  rcases compact_plain rest quote backslash with copied | ⟨html | rfl, _⟩
  · exact copied
  · simp only [isHtml, Bool.or_eq_true, decide_eq_true_eq] at html
    rcases html with (rfl | rfl) | rfl <;> contradiction
  · contradiction

theorem readUnit_compact {text rest : List UInt8} {unit : Nat} (h : readUnit text = some (unit, rest)) :
    readUnit (compact .inside text ++ tail) = some (unit, compact .inside rest ++ tail) := by
  unfold readUnit at h
  split at h
  · rename_i a b c d rest₀
    simp only [Option.bind_eq_bind, Option.bind_eq_some_iff, Option.pure_def, Option.some.injEq,
      Prod.mk.injEq] at h
    obtain ⟨u, ha, v, hb, w, hc, x, hd, rfl, rfl⟩ := h
    rw [hexValue_plain ha, hexValue_plain hb, hexValue_plain hc, hexValue_plain hd]
    simp [readUnit, ha, hb, hc, hd]
  · contradiction

theorem readString_escape {n : Nat} {text : List UInt8} {r : List Char × List UInt8}
    (h : readString n (0x5C :: 0x75 :: text) = some r) : ∃ p, readUnit text = some p := by
  cases n with
  | zero => contradiction
  | succ n =>
    obtain ⟨p, read, _⟩ := Option.bind_eq_some_iff.mp h
    obtain ⟨u, unit, _⟩ := Option.map_eq_some_iff.mp read
    exact ⟨u, unit⟩

/-- The start of a string's rest that is not an escape by number: an escape that compaction
puts there is not that of a low surrogate. -/
theorem unitRune_lone {unit : Nat} (high : isHigh unit = true) {b : UInt8} {rest : List UInt8}
    (other : ∀ text, b :: rest ≠ 0x5C :: 0x75 :: text) (more : b = 0x5C → rest ≠ []) :
    unitRune unit (compact .inside (b :: rest) ++ tail) =
      (Utf8.replacement, compact .inside (b :: rest) ++ tail) := by
  have lone : ∀ text : List UInt8, (∀ t, text ≠ 0x5C :: 0x75 :: t) →
      unitRune unit text = (Utf8.replacement, text) := by
    intro text differs
    unfold unitRune
    rw [if_pos high]
    split
    · rename_i t
      exact absurd rfl (differs t)
    · rfl
  by_cases quote : b = 0x22
  · subst quote
    exact lone _ (by simp [compact])
  by_cases backslash : b = 0x5C
  · subst backslash
    obtain ⟨c, rest, rfl⟩ := List.exists_cons_of_ne_nil (more rfl)
    refine lone _ (fun t same => other rest ?_)
    rw [compact_escape] at same
    simp only [List.cons_append, List.cons.injEq, true_and] at same
    rw [same.1]
  rcases compact_plain rest quote backslash with copied | ⟨_, c, rest', _, small, written⟩
  · rw [copied]
    exact lone _ (fun t same => backslash (List.cons.inj same).1)
  · have scalar : isLow c.val.toNat = false := by
      simp only [isLow, Bool.and_eq_false_iff, decide_eq_false_iff_not]
      omega
    have read := @readUnit_hexDigits c.val.toNat (by omega) (compact .inside rest' ++ tail)
    rw [written]
    simp only [unitRune, high, if_true, writeUnit, List.cons_append, List.nil_append, read, scalar]
    rfl

theorem unitRune_compact {unit n : Nat} {text rest : List UInt8} {c : Char}
    {r : List Char × List UInt8} (h : unitRune unit text = (c, rest)) (goes : readString n rest = some r) :
    unitRune unit (compact .inside text ++ tail) = (c, compact .inside rest ++ tail) := by
  by_cases high : isHigh unit = true
  · unfold unitRune at h
    rw [if_pos high] at h
    split at h
    · rename_i text
      split at h
      · rename_i low rest₀ read
        have read' := @readUnit_compact tail _ _ _ read
        split at h
        · rename_i second
          obtain ⟨rfl, rfl⟩ := Prod.mk.inj h
          simp [compact_escape, unitRune, high, read', second]
        · rename_i second
          obtain ⟨rfl, rfl⟩ := Prod.mk.inj h
          simp [compact_escape, unitRune, high, read', second]
      · rename_i unread
        obtain ⟨rfl, rfl⟩ := Prod.mk.inj h
        obtain ⟨p, read⟩ := readString_escape goes
        rw [unread] at read
        contradiction
    · rename_i other
      obtain ⟨rfl, rfl⟩ := Prod.mk.inj h
      cases text with
      | nil => cases n <;> contradiction
      | cons b text =>
        refine unitRune_lone high (fun t same => other t same) ?_
        rintro rfl rfl
        cases n <;> contradiction
  · unfold unitRune at h ⊢
    rw [if_neg high] at h ⊢
    split at h
    · rename_i low
      obtain ⟨rfl, rfl⟩ := Prod.mk.inj h
      rw [if_pos low]
    · rename_i low
      obtain ⟨rfl, rfl⟩ := Prod.mk.inj h
      rw [if_neg low]

theorem readEscape_compact {n : Nat} {text rest : List UInt8} {c : Char} {r : List Char × List UInt8}
    (h : readEscape text = some (c, rest)) (goes : readString n rest = some r) :
    ∃ e text', text = e :: text' ∧
      readEscape (e :: (compact .inside text' ++ tail)) = some (c, compact .inside rest ++ tail) := by
  unfold readEscape at h
  split at h
  case h_9 text =>
    obtain ⟨⟨unit, rest₀⟩, read, same⟩ := Option.map_eq_some_iff.mp h
    refine ⟨0x75, text, rfl, ?_⟩
    simp only [readEscape, readUnit_compact read, Option.map_some, unitRune_compact same goes]
  case h_10 => contradiction
  all_goals
    obtain ⟨rfl, rfl⟩ := Prod.mk.inj (Option.some.inj h)
    exact ⟨_, _, rfl, rfl⟩

theorem readChar_compact (closed : Closed tail) {n : Nat} {b : UInt8} {text rest : List UInt8} {c : Char}
    {r : List Char × List UInt8} (quote : b ≠ 0x22) (h : readChar b text = some (c, rest))
    (goes : readString n rest = some r) :
    ∃ b' text', compact .inside (b :: text) ++ tail = b' :: text' ∧ b' ≠ 0x22 ∧
      readChar b' text' = some (c, compact .inside rest ++ tail) := by
  unfold readChar at h
  split at h
  · rename_i backslash
    subst backslash
    obtain ⟨e, text, rfl, read⟩ := @readEscape_compact tail _ _ _ _ _ h goes
    exact ⟨0x5C, _, rfl, quote, read⟩
  · rename_i backslash
    split at h
    · contradiction
    · rename_i printable
      have rune := Option.some.inj h
      rcases compact_plain text quote backslash with copied | ⟨_, c', rest', read, small, written⟩
      · refine ⟨b, compact .inside text ++ tail, by rw [copied]; rfl, quote, ?_⟩
        have mapped := Utf8.rune_map (next_compact closed) b text
        rw [readChar, if_neg backslash, if_neg printable, Utf8.decodeRune, mapped]
        rw [Utf8.decodeRune] at rune
        cases read : Utf8.rune b text with
        | none =>
          rw [read] at rune
          obtain ⟨rfl, rfl⟩ := Prod.mk.inj rune
          rfl
        | some p =>
          rw [read] at rune
          cases rune
          rfl
      · rw [Utf8.decodeRune, read] at rune
        obtain ⟨rfl, rfl⟩ := Prod.mk.inj rune
        refine ⟨0x5C, (writeUnit c'.val.toNat).tail ++ (compact .inside rest' ++ tail), ?_, by decide, ?_⟩
        · rw [written, List.append_assoc]
          rfl
        · exact readEscape_writeUnit (by omega) _

theorem readString_compact (closed : Closed tail) {n : Nat} {text rest : List UInt8} {s : List Char}
    (h : readString n text = some (s, rest)) :
    readString n (compact .inside text ++ tail) = some (s, compact .between rest ++ tail) := by
  induction n generalizing text s with
  | zero => contradiction
  | succ n ih =>
    cases text with
    | nil => contradiction
    | cons b text =>
      rw [readString] at h
      split at h
      · rename_i quote
        obtain ⟨rfl, rfl⟩ := Prod.mk.inj (Option.some.inj h)
        subst quote
        rfl
      · rename_i quote
        obtain ⟨p, read, h⟩ := Option.bind_eq_some_iff.mp h
        obtain ⟨q, more, same⟩ := Option.map_eq_some_iff.mp h
        obtain ⟨rfl, rfl⟩ := Prod.mk.inj same
        obtain ⟨b', text', written, open_, read'⟩ := readChar_compact closed quote read more
        rw [written, readString, if_neg open_, read', Option.bind_some, ih more, Option.map_some]

end Strings

section Tokens

theorem compact_skipSpace (text : List UInt8) :
    compact .between (skipSpace text) = compact .between text := by
  induction text with
  | nil => rfl
  | cons b rest ih =>
    by_cases space : isSpace b = true
    · rw [skipSpace, List.dropWhile_cons, if_pos space, ← skipSpace, ih, compact, if_pos space]
    · rw [skipSpace_cons (by simpa using space)]

theorem compact_token {b : UInt8} (rest : List UInt8) (space : isSpace b = false) (quote : b ≠ 0x22) :
    compact .between (b :: rest) = b :: compact .between rest := by
  simp [compact, space, quote]

theorem compact_tokens {token : List UInt8} (rest : List UInt8)
    (plain : ∀ b ∈ token, isSpace b = false ∧ b ≠ 0x22) :
    compact .between (token ++ rest) = token ++ compact .between rest := by
  induction token with
  | nil => rfl
  | cons b token ih =>
    have first := plain b List.mem_cons_self
    rw [List.cons_append, compact_token _ first.1 first.2,
      ih (fun c found => plain c (List.mem_cons_of_mem b found))]
    rfl

theorem digits_of_read {text ds rest : List UInt8} (h : readDigits text = some (ds, rest)) :
    Digits ds ∧ text = ds ++ rest := by
  unfold readDigits at h
  split at h
  · contradiction
  · rename_i some_
    obtain ⟨rfl, rfl⟩ := Prod.mk.inj (Option.some.inj h)
    exact ⟨⟨some_, fun d found => List.mem_takeWhile_imp found⟩,
      List.takeWhile_append_dropWhile.symm⟩

theorem whole_of_read {text w rest : List UInt8} (h : readWhole text = some (w, rest)) :
    Whole w ∧ text = w ++ rest := by
  unfold readWhole at h
  split at h
  · obtain ⟨rfl, rfl⟩ := Prod.mk.inj (Option.some.inj h)
    exact ⟨.inl rfl, rfl⟩
  · rename_i other
    obtain ⟨digits, rfl⟩ := digits_of_read h
    refine ⟨.inr ⟨digits, ?_⟩, rfl⟩
    obtain ⟨d, ds, rfl⟩ := List.exists_cons_of_ne_nil digits.1
    intro zero
    cases Option.some.inj zero
    exact other _ rfl

theorem fraction_of_read {text f rest : List UInt8} (h : readFraction text = some (f, rest)) :
    ∃ f', Fraction f' ∧ text = f' ++ rest := by
  unfold readFraction at h
  split at h
  · obtain ⟨digits, rfl⟩ := digits_of_read h
    exact ⟨0x2E :: f, .inr ⟨f, rfl, digits⟩, rfl⟩
  · obtain ⟨rfl, rfl⟩ := Prod.mk.inj (Option.some.inj h)
    exact ⟨[], .inl rfl, rfl⟩

theorem exponentDigits_of_read {text rest : List UInt8} {v : Int}
    (h : readExponentDigits text = some (v, rest)) : ∃ sign ds,
      (sign = [] ∨ sign = [0x2B] ∨ sign = [0x2D]) ∧ Digits ds ∧ text = sign ++ ds ++ rest := by
  unfold readExponentDigits at h
  split at h
  all_goals
    obtain ⟨⟨ds, rest'⟩, read, same⟩ := Option.map_eq_some_iff.mp h
    obtain ⟨_, rfl⟩ := Prod.mk.inj same
    obtain ⟨digits, rfl⟩ := digits_of_read read
  · exact ⟨[0x2D], ds, .inr (.inr rfl), digits, rfl⟩
  · exact ⟨[0x2B], ds, .inr (.inl rfl), digits, rfl⟩
  · exact ⟨[], ds, .inl rfl, digits, rfl⟩

theorem exponent_of_read {text rest : List UInt8} {v : Int} (h : readExponent text = some (v, rest)) :
    ∃ e, Exponent e ∧ text = e ++ rest := by
  unfold readExponent at h
  split at h
  · obtain ⟨sign, ds, signs, digits, rfl⟩ := exponentDigits_of_read h
    exact ⟨_, .inr ⟨0x65, sign, ds, rfl, .inl rfl, signs, digits⟩, rfl⟩
  · obtain ⟨sign, ds, signs, digits, rfl⟩ := exponentDigits_of_read h
    exact ⟨_, .inr ⟨0x45, sign, ds, rfl, .inr rfl, signs, digits⟩, rfl⟩
  · obtain ⟨_, rfl⟩ := Prod.mk.inj (Option.some.inj h)
    exact ⟨[], .inl rfl, rfl⟩

theorem number_of_read {text rest : List UInt8} {x : Number} (h : readNumber text = some (x, rest)) :
    ∃ negative w f e, Whole w ∧ Fraction f ∧ Exponent e ∧
      text = writeSign negative ++ (w ++ (f ++ (e ++ rest))) := by
  have unsigned : ∀ (negative : Bool) (text : List UInt8), readUnsigned negative text = some (x, rest) →
      ∃ w f e, Whole w ∧ Fraction f ∧ Exponent e ∧ text = w ++ (f ++ (e ++ rest)) := by
    intro negative text h
    obtain ⟨w, whole, h⟩ := Option.bind_eq_some_iff.mp h
    obtain ⟨f, fraction, h⟩ := Option.bind_eq_some_iff.mp h
    obtain ⟨e, exponent, same⟩ := Option.map_eq_some_iff.mp h
    obtain ⟨_, rfl⟩ := Prod.mk.inj same
    obtain ⟨isWhole, rfl⟩ := whole_of_read whole
    obtain ⟨f', isFraction, after⟩ := fraction_of_read fraction
    obtain ⟨e', isExponent, last⟩ := exponent_of_read exponent
    exact ⟨w.1, f', e', isWhole, isFraction, isExponent, by rw [after, last]⟩
  unfold readNumber at h
  split at h
  · obtain ⟨w, f, e, whole, fraction, exponent, rfl⟩ := unsigned true _ h
    exact ⟨true, w, f, e, whole, fraction, exponent, rfl⟩
  · obtain ⟨w, f, e, whole, fraction, exponent, rfl⟩ := unsigned false _ h
    exact ⟨false, w, f, e, whole, fraction, exponent, rfl⟩

theorem number_head {b : UInt8} {text : List UInt8} {r : Number × List UInt8}
    (h : readNumber (b :: text) = some r) : isDigit b = true ∨ b = 0x2D := by
  obtain ⟨negative, w, f, e, whole, _, _, same⟩ := number_of_read h
  obtain ⟨d, ds, rfl, digit⟩ := whole.head
  cases negative with
  | true => exact .inr (List.cons.inj same).1
  | false =>
    obtain ⟨rfl, _⟩ := List.cons.inj same
    exact .inl digit

def Plain (text : List UInt8) : Prop := ∀ b ∈ text, isSpace b = false ∧ b ≠ 0x22

theorem number_forall {P : UInt8 → Prop} (digit : ∀ b, isDigit b = true → P b)
    (mark : ∀ b ∈ [0x2B, 0x2D, 0x2E, 0x45, 0x65], P b) {negative : Bool} {w f e : List UInt8}
    (whole : Whole w) (fraction : Fraction f) (exponent : Exponent e) :
    ∀ b ∈ writeSign negative ++ (w ++ (f ++ e)), P b := by
  have digits : ∀ {ds}, Digits ds → ∀ b ∈ ds, P b := fun ds b found => digit b (ds.2 b found)
  have sign : ∀ b ∈ writeSign negative, P b := by
    cases negative with
    | true => exact List.forall_mem_singleton.mpr (mark _ (by decide))
    | false => exact nofun
  have first : ∀ b ∈ w, P b := by
    rcases whole with rfl | ⟨ds, _⟩
    · exact List.forall_mem_singleton.mpr (digit _ (by decide))
    · exact digits ds
  have second : ∀ b ∈ f, P b := by
    rcases fraction with rfl | ⟨ds, rfl, found⟩
    · exact nofun
    · exact List.forall_mem_cons.mpr ⟨mark _ (by decide), digits found⟩
  have third : ∀ b ∈ e, P b := by
    rcases exponent with rfl | ⟨letter, signs, ds, rfl, letters, signed, found⟩
    · exact nofun
    · have signMarks : ∀ b ∈ signs, P b := by
        rcases signed with rfl | rfl | rfl
        · exact nofun
        · exact List.forall_mem_singleton.mpr (mark _ (by decide))
        · exact List.forall_mem_singleton.mpr (mark _ (by decide))
      have both : ∀ b ∈ signs ++ ds, P b := List.forall_mem_append.mpr ⟨signMarks, digits found⟩
      rcases letters with rfl | rfl
      · exact List.forall_mem_cons.mpr ⟨mark _ (by decide), both⟩
      · exact List.forall_mem_cons.mpr ⟨mark _ (by decide), both⟩
  simp only [List.forall_mem_append]
  exact ⟨sign, first, second, third⟩

theorem number_plain {negative : Bool} {w f e : List UInt8} (whole : Whole w) (fraction : Fraction f)
    (exponent : Exponent e) : Plain (writeSign negative ++ (w ++ (f ++ e))) := by
  refine number_forall (fun b digit => ?_) (by simp [isSpace]) whole fraction exponent
  constructor
  · by_contra spaced
    simp only [isSpace, Bool.not_eq_false, Bool.or_eq_true, decide_eq_true_eq] at spaced
    rcases spaced with ((rfl | rfl) | rfl) | rfl <;> contradiction
  · rintro rfl
    contradiction

variable {tail : List UInt8}

theorem closed_compact {rest : List UInt8} (after : Closed (skipSpace rest)) (closed : Closed tail) :
    Closed (compact .between rest ++ tail) := by
  rw [← compact_skipSpace]
  cases found : skipSpace rest with
  | nil => exact closed
  | cons b text =>
    rw [found] at after
    intro c first
    have head := after b rfl
    have plain : isSpace b = false ∧ b ≠ 0x22 := by
      rcases head with rfl | rfl | rfl <;> decide
    rw [compact_token _ plain.1 plain.2] at first
    cases Option.some.inj first
    exact head

theorem ends_of_closed {rest : List UInt8} (after : Closed (skipSpace rest)) : Ends rest := by
  cases rest with
  | nil => exact nofun
  | cons b rest =>
    intro c first
    cases Option.some.inj first
    by_cases space : isSpace b = true
    · simp only [isSpace, Bool.or_eq_true, decide_eq_true_eq] at space
      rcases space with ((rfl | rfl) | rfl) | rfl <;> decide
    · rw [skipSpace_cons (by simpa using space)] at after
      exact after.ends b rfl

theorem readNumber_compact {text rest : List UInt8} {x : Number} (h : readNumber text = some (x, rest))
    (after : Closed (skipSpace rest)) (closed : Closed tail) :
    readNumber (compact .between text ++ tail) = some (x, compact .between rest ++ tail) := by
  obtain ⟨negative, w, f, e, whole, fraction, exponent, rfl⟩ := number_of_read h
  obtain ⟨y, read⟩ := readNumber_append whole fraction exponent negative
  have same := (read rest (ends_of_closed after)).symm.trans h
  obtain ⟨rfl, _⟩ := Prod.mk.inj (Option.some.inj same)
  have copied := compact_tokens rest (number_plain whole fraction exponent : Plain (writeSign negative ++ _))
  have ends := (closed_compact after closed).ends
  simp only [List.append_assoc] at copied ends ⊢
  rw [copied]
  simpa using read _ ends

theorem readScalar_compact {n : Nat} {b : UInt8} {text rest : List UInt8} {t : Tree}
    (h : readScalar n (b :: text) = some (t, rest)) (space : isSpace b = false)
    (after : Closed (skipSpace rest)) (closed : Closed tail) :
    readScalar n (compact .between (b :: text) ++ tail) = some (t, compact .between rest ++ tail) := by
  unfold readScalar at h
  split at h
  · rename_i text quote
    obtain ⟨p, read, same⟩ := Option.map_eq_some_iff.mp h
    obtain ⟨rfl, rfl⟩ := List.cons.inj quote
    obtain ⟨rfl, rfl⟩ := Prod.mk.inj same
    exact congrArg (Option.map _) (readString_compact closed read)
  · rename_i text literal
    obtain ⟨rfl, rfl⟩ := Prod.mk.inj (Option.some.inj h)
    rw [literal]
    rfl
  · rename_i text literal
    obtain ⟨rfl, rfl⟩ := Prod.mk.inj (Option.some.inj h)
    rw [literal]
    rfl
  · rename_i text literal
    obtain ⟨rfl, rfl⟩ := Prod.mk.inj (Option.some.inj h)
    rw [literal]
    rfl
  · obtain ⟨p, read, same⟩ := Option.map_eq_some_iff.mp h
    obtain ⟨rfl, rfl⟩ := Prod.mk.inj same
    have head := number_head read
    have quote : b ≠ 0x22 := by
      rintro rfl
      exact absurd head (by decide)
    have compacted := readNumber_compact read after closed
    rw [compact_token _ space quote] at compacted ⊢
    rw [List.cons_append] at compacted ⊢
    rw [readScalar_number head, compacted]
    rfl

theorem isSpace_of_skipSpace {text rest : List UInt8} {b : UInt8} (h : skipSpace text = b :: rest) :
    isSpace b = false := by
  have shown : text.dropWhile isSpace = b :: rest := h
  have head := List.head_dropWhile_not (p := isSpace) (l := text) (by simp [shown])
  simpa only [shown, List.head_cons] using head

theorem skipSpace_compact (closed : Closed tail) (text : List UInt8) :
    skipSpace (compact .between text ++ tail) = compact .between text ++ tail := by
  rw [← compact_skipSpace]
  cases found : skipSpace text with
  | nil =>
    cases tail with
    | nil => rfl
    | cons b tail =>
      rcases closed b rfl with rfl | rfl | rfl <;> rfl
  | cons b rest =>
    have space := isSpace_of_skipSpace found
    rw [compact, if_neg (by simpa using space)]
    exact skipSpace_cons space _

theorem readMembers_brace {n : Nat} {text rest : List UInt8} (h : skipSpace text = 0x7D :: rest) :
    readMembers n text = none := by
  cases n with
  | zero => rfl
  | succ n =>
    rw [readMembers, h]
    rfl

theorem readKey_compact (closed : Closed tail) {n : Nat} {text rest : List UInt8} {key : String}
    (h : readKey n (skipSpace text) = some (key, rest)) :
    readKey n (skipSpace (compact .between text ++ tail)) = some (key, compact .between rest ++ tail) := by
  rw [skipSpace_compact closed, ← compact_skipSpace]
  unfold readKey at h
  split at h
  · rename_i inner found
    obtain ⟨p, read, h⟩ := Option.bind_eq_some_iff.mp h
    split at h
    · rename_i rest' colon
      obtain ⟨rfl, rfl⟩ := Prod.mk.inj (Option.some.inj h)
      have after : skipSpace (compact .between p.2 ++ tail) = 0x3A :: (compact .between rest' ++ tail) := by
        rw [skipSpace_compact closed, ← compact_skipSpace, colon, compact_token _ (by decide) (by decide)]
        rfl
      rw [found]
      change (readString n (compact .inside inner ++ tail)).bind _ = _
      rw [readString_compact closed read, Option.bind_some, after]
      rfl
    · contradiction
  · contradiction

/-- Compaction changes no value that some fuel reads. -/
theorem read_compact (closed : Closed tail) (n : Nat) :
    (∀ text t rest, readValue n text = some (t, rest) → Closed (skipSpace rest) →
      readValue n (compact .between text ++ tail) = some (t, compact .between rest ++ tail)) ∧
    (∀ text ts rest, readElements n text = some (ts, rest) →
      readElements n (compact .between text ++ tail) = some (ts, compact .between rest ++ tail)) ∧
    (∀ text ms rest, readMembers n text = some (ms, rest) →
      readMembers n (compact .between text ++ tail) = some (ms, compact .between rest ++ tail)) := by
  induction n with
  | zero => simp [readValue, readElements, readMembers]
  | succ n ih =>
    obtain ⟨value, elements, members⟩ := ih
    -- what stands after a value once the space is skipped
    have mark : ∀ {b : UInt8} {rest more : List UInt8}, skipSpace rest = b :: more → b ≠ 0x22 →
        skipSpace (compact .between rest ++ tail) = b :: (compact .between more ++ tail) := by
      intro b rest more found quote
      rw [skipSpace_compact closed, ← compact_skipSpace, found,
        compact_token _ (isSpace_of_skipSpace found) quote]
      rfl
    refine ⟨?_, ?_, ?_⟩
    · intro text t rest h after
      rw [← compact_skipSpace]
      rw [readValue] at h
      split at h
      · rename_i inner found
        rw [found, compact_token _ (by decide) (by decide), List.cons_append, readValue_brace]
        split at h
        · rename_i rest' ended
          obtain ⟨rfl, rfl⟩ := Prod.mk.inj (Option.some.inj h)
          rw [mark ended (by decide)]
          rfl
        · obtain ⟨p, read, same⟩ := Option.map_eq_some_iff.mp h
          obtain ⟨rfl, rfl⟩ := Prod.mk.inj same
          have read := members _ _ _ read
          rw [compact_skipSpace] at read
          rw [skipSpace_compact closed]
          split
          · rename_i ended
            rw [readMembers_brace (by rw [skipSpace_compact closed, ended])] at read
            contradiction
          · rw [read]
            rfl
      · rename_i inner found
        rw [found, compact_token _ (by decide) (by decide), List.cons_append, readValue_bracket]
        split at h
        · rename_i rest' ended
          obtain ⟨rfl, rfl⟩ := Prod.mk.inj (Option.some.inj h)
          rw [mark ended (by decide)]
          rfl
        · obtain ⟨p, read, same⟩ := Option.map_eq_some_iff.mp h
          obtain ⟨rfl, rfl⟩ := Prod.mk.inj same
          have read := elements _ _ _ read
          rw [compact_skipSpace] at read
          rw [skipSpace_compact closed]
          split
          · rename_i ended
            rw [readElements_bracket (by rw [skipSpace_compact closed, ended])] at read
            contradiction
          · rw [read]
            rfl
      · rename_i brace bracket
        cases found : skipSpace text with
        | nil =>
          rw [found] at h
          contradiction
        | cons b inner =>
          rw [found] at h
          have space := isSpace_of_skipSpace found
          have read := readScalar_compact h space after closed
          have start : ∃ x, compact .between (b :: inner) ++ tail = b :: x := by
            rw [compact, if_neg (by simpa using space)]
            exact ⟨_, rfl⟩
          obtain ⟨x, start⟩ := start
          rw [start] at read ⊢
          rw [readValue, skipSpace_cons space]
          split
          · rename_i same
            obtain ⟨rfl, _⟩ := List.cons.inj same
            exact absurd found (brace inner)
          · rename_i same
            obtain ⟨rfl, _⟩ := List.cons.inj same
            exact absurd found (bracket inner)
          · exact read
    · intro text ts rest h
      rw [readElements] at h ⊢
      obtain ⟨p, read, h⟩ := Option.bind_eq_some_iff.mp h
      split at h
      · rename_i more found
        obtain ⟨q, others, same⟩ := Option.map_eq_some_iff.mp h
        obtain ⟨rfl, rfl⟩ := Prod.mk.inj same
        rw [value _ _ _ read (by rw [found]; exact closed_cons (.inl rfl)), Option.bind_some]
        simp only [mark found (by decide : (0x2C : UInt8) ≠ 0x22), elements _ _ _ others, Option.map_some]
      · rename_i more found
        obtain ⟨rfl, rfl⟩ := Prod.mk.inj (Option.some.inj h)
        rw [value _ _ _ read (by rw [found]; exact closed_cons (.inr (.inl rfl))), Option.bind_some]
        simp only [mark found (by decide : (0x5D : UInt8) ≠ 0x22)]
      · contradiction
    · intro text ms rest h
      rw [readMembers] at h ⊢
      obtain ⟨k, key, h⟩ := Option.bind_eq_some_iff.mp h
      obtain ⟨p, read, h⟩ := Option.bind_eq_some_iff.mp h
      rw [readKey_compact closed key, Option.bind_some]
      split at h
      · rename_i more found
        obtain ⟨q, others, same⟩ := Option.map_eq_some_iff.mp h
        obtain ⟨rfl, rfl⟩ := Prod.mk.inj same
        rw [value _ _ _ read (by rw [found]; exact closed_cons (.inl rfl)), Option.bind_some]
        simp only [mark found (by decide : (0x2C : UInt8) ≠ 0x22), members _ _ _ others, Option.map_some]
      · rename_i more found
        obtain ⟨rfl, rfl⟩ := Prod.mk.inj (Option.some.inj h)
        rw [value _ _ _ read (by rw [found]; exact closed_cons (.inr (.inr rfl))), Option.bind_some]
        simp only [mark found (by decide : (0x7D : UInt8) ≠ 0x22)]
      · contradiction

/-- The compact text of a value stands for the value wherever it is put. -/
theorem writes_compact {text : List UInt8} {t : Tree} (h : Reads text t) :
    Writes (compact .between text) t := by
  intro tail closed
  obtain ⟨n, rest, read, ended⟩ := h
  have nothing : compact .between rest = [] := by
    rw [← compact_skipSpace, ended]
    rfl
  have compacted := (read_compact closed n).1 text t rest read (by rw [ended]; exact nofun)
  rw [nothing] at compacted
  exact ⟨n, compacted⟩

end Tokens

end Json
