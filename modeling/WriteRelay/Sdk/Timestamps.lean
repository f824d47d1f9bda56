import WriteRelay.Sdk.Go
import WriteRelay.Sdk.TypeScript

/-! The timestamps that the two SDKs accept, and that the daemon accepts them too. -/
namespace WriteRelay.Sdk
open Clock Fallible

section Accepted

def Accepted (text : List Char) : Prop := ∃ stamp, readStamp false text = some stamp ∧
  stamp.civil = true ∧ stamp.offsetHour < 24 ∧ stamp.offsetMinute < 60

theorem Accepted.parses {s : String} (h : Accepted s.toList) : ∃ instant, parseRFC3339 s = some instant := by
  obtain ⟨stamp, matched, civil, hour, minute⟩ := h
  exact ⟨stamp.instant, parseRFC3339_strict matched civil hour minute⟩

theorem pair_lt {p q x y : UInt8} :
    [p, q] < [x, y] ↔ p.toNat < x.toNat ∨ p.toNat = x.toNat ∧ q.toNat < y.toNat := by
  simp only [List.cons_lt_cons_iff, UInt8.lt_iff_toNat_lt, ← UInt8.toNat_inj, List.lt_irrefl, and_false,
    or_false]

theorem invalidOffset_append (front : Bytes) (sign a b colon c d : UInt8) :
    Go.invalidOffset (front ++ [sign, a, b, colon, c, d]) = true ↔
      (0x32 < a.toNat ∨ 0x32 = a.toNat ∧ 0x33 < b.toNat) ∨ 0x35 < c.toNat ∨ 0x35 = c.toNat ∧ 0x39 < d.toNat := by
  have limits : Go.utf8 "23" = [0x32, 0x33] ∧ Go.utf8 "59" = [0x35, 0x39] := by decide
  have start : (front ++ [sign, a, b, colon, c, d]).length - 5 = front.length + 1 := by
    simp
  have tail : (front ++ [sign, a, b, colon, c, d]).drop (front.length + 1) = [a, b, colon, c, d] := by
    rw [← List.drop_drop, List.drop_left]
    rfl
  simp only [Go.invalidOffset, start, tail, limits, List.take_succ_cons, List.take_zero, List.drop_succ_cons,
    List.drop_zero, Bool.or_eq_true, decide_eq_true_eq, pair_lt, UInt8.reduceToNat]

theorem invalidOffset_iff {text : List Char} {stamp : Stamp} (h : readStamp false text = some stamp) :
    (Utf8.encode text).getLast? ≠ some 0x5A ∧ Go.invalidOffset (Utf8.encode text) = true ↔
      24 ≤ stamp.offsetHour ∨ 60 ≤ stamp.offsetMinute := by
  obtain ⟨zone, ⟨front, rfl, _⟩, read⟩ := readStamp_zone h
  rw [Utf8.encode_append]
  rcases readZone_cases read with ⟨rfl, hour, minute⟩ |
    ⟨sign, a, b, c, d, rfl, signed, ⟨ha, ha', hb, hb', hour⟩, hc, hc', hd, hd', minute⟩
  · have zulu : Utf8.encode ['Z'] = [0x5A] := by decide
    simp [zulu, hour, minute]
  · have digit : ∀ x : Char, x.toNat < 58 → x.val.toNat < 0x80 ∧ (UInt8.ofNat x.val.toNat).toNat = x.toNat :=
      fun x small => ⟨small.trans (by decide), Utf8.toNat_byte (small.trans (by decide))⟩
    have ascii : ∀ x ∈ [sign, a, b, ':', c, d], x.val.toNat < 0x80 := by
      simp only [List.forall_mem_cons]
      refine ⟨?_, (digit a ha').1, (digit b hb').1, by decide, (digit c hc').1, (digit d hd').1, nofun⟩
      rcases signed with rfl | rfl <;> decide
    have last : UInt8.ofNat d.val.toNat ≠ 0x5A := by
      intro same
      have value := (digit d hd').2
      rw [same] at value
      change 90 = d.toNat at value
      omega
    rw [Utf8.encode_ascii ascii]
    simp only [List.map_cons, List.map_nil, invalidOffset_append, (digit a ha').2, (digit b hb').2,
      (digit c hc').2, (digit d hd').2]
    simp only [ne_eq, List.getLast?_append, List.getLast?_cons_cons, List.getLast?_singleton, Option.some_or,
      Option.some.injEq, last, not_false_eq_true, true_and]
    omega

theorem parseRFC3339_some_iff {s : String} {stamp : Stamp} (h : readStamp false s.toList = some stamp) :
    parseRFC3339 s ≠ none ↔ stamp.civil = true ∧ stamp.offsetHour ≤ 24 ∧ stamp.offsetMinute ≤ 60 := by
  rw [parseRFC3339, readStamp_lenient h, Option.bind_some]
  split <;> simp [*]

theorem checkTime_iff {s : String} (given : s ≠ "") :
    Go.checkTime (Go.utf8 s) = .ok () ↔ Accepted s.toList := by
  have decoded : Utf8.decode (Go.utf8 s) = some s.toList := Utf8.decode_encode s.toList
  have present : Go.utf8 s ≠ [] := by
    intro empty
    rw [empty] at decoded
    exact given (String.toList_eq_nil_iff.mp (Option.some.inj decoded).symm)
  have parsed : Go.parseTime (Go.utf8 s) = parseRFC3339 s := by
    rw [Go.parseTime, decoded, Option.bind_some, String.ofList_toList]
  have matched : Go.timestamp (Go.utf8 s) = readStamp false s.toList := by
    rw [Go.timestamp, decoded, Option.bind_some]
  simp only [Go.checkTime, if_neg present, parsed, matched, bind_ok_iff, failIf_ok_iff, not_or, exists_const]
  constructor
  · rintro ⟨⟨parses, strict⟩, offset⟩
    obtain ⟨stamp, strict⟩ := Option.ne_none_iff_exists'.mp strict
    have range := (parseRFC3339_some_iff strict).mp parses
    rw [Go.utf8, invalidOffset_iff strict] at offset
    exact ⟨stamp, strict, range.1, by omega, by omega⟩
  · rintro ⟨stamp, strict, civil, hour, minute⟩
    rw [Go.utf8, invalidOffset_iff strict]
    exact ⟨⟨(parseRFC3339_some_iff strict).mpr ⟨civil, hour.le, minute.le⟩, by simp [strict]⟩, by omega⟩

theorem isTimestamp_iff {ref : Type} {s : TypeScript.JsString} :
    TypeScript.isTimestamp (.string s : TypeScript.JsValue ref) = true ↔
      Accepted (TypeScript.text s).toList := by
  simp only [TypeScript.isTimestamp, Accepted, TypeScript.stampOf]
  cases readStamp false (TypeScript.text s).toList with
  | none => simp
  | some stamp =>
    simp only [decide_eq_true_eq, Option.some.injEq, exists_eq_left', Stamp.civil]
    constructor
    · rintro ⟨first, last, day, days, hour, minute, second, offset⟩
      rw [TypeScript.daysOf_eq first last] at days
      exact ⟨⟨first, last, day, days, hour, minute, second⟩, offset⟩
    · rintro ⟨⟨first, last, day, days, hour, minute, second⟩, offset⟩
      rw [← TypeScript.daysOf_eq first last] at days
      exact ⟨first, last, day, days, hour, minute, second, offset⟩

theorem Accepted.wellFormed {s : TypeScript.JsString} (h : Accepted (TypeScript.text s).toList) :
    TypeScript.units (TypeScript.text s) = s := by
  obtain ⟨stamp, matched, _⟩ := h
  apply TypeScript.units_text
  apply List.any_eq_false.mpr
  intro point found bad
  have low : 43 ≤ (Char.ofNat point).toNat := by
    apply readStamp_low matched
    rw [TypeScript.text, String.toList_ofList]
    exact List.mem_map_of_mem found
  have nul : Char.ofNat point = Char.ofNat 0 := by
    rcases Bool.or_eq_true_iff.mp bad with zero | surrogate
    · rw [of_decide_eq_true zero]
    · have invalid : ¬point.isValidChar := by
        simp only [Utf16.surrogate, Bool.and_eq_true, decide_eq_true_eq] at surrogate
        simp only [Nat.isValidChar]
        omega
      rw [Char.ofNat, dif_neg invalid]
      rfl
  rw [nul] at low
  exact absurd low (by decide)

end Accepted

section Surroundings

theorem marshal_time {event : Go.Event} {payload : Bytes} (h : Go.marshal event = some payload)
    (value : Bytes) : ∃ written, Go.marshal { event with time := value } = some written := by
  unfold Go.marshal at h ⊢
  cases data : event.data.bind Go.nonEmpty with
  | none => exact ⟨_, rfl⟩
  | some raw =>
    simp only [data] at h
    split at h
    · rename_i valid
      exact ⟨_, if_pos valid⟩
    · contradiction

theorem encode_checked {event : Go.Event} {payload : Bytes} (h : Go.encode event = .ok payload) :
    Go.checkTime event.time = .ok () := by
  obtain ⟨_, _, h⟩ := bind_ok_iff.mp h
  obtain ⟨_, _, h⟩ := bind_ok_iff.mp h
  obtain ⟨_, _, h⟩ := bind_ok_iff.mp h
  obtain ⟨_, _, h⟩ := bind_ok_iff.mp h
  obtain ⟨_, _, h⟩ := bind_ok_iff.mp h
  obtain ⟨_, _, h⟩ := bind_ok_iff.mp h
  obtain ⟨_, time, _⟩ := bind_ok_iff.mp h
  exact time

theorem checkTime_utf8 {value : Bytes} (h : Go.checkTime value = .ok ()) : ∃ s, value = Go.utf8 s := by
  by_cases given : value = []
  · exact ⟨"", given⟩
  · obtain ⟨stamp, matched, _⟩ := Go.checkTime_ok h given
    obtain ⟨runes, decoded, _⟩ := Option.bind_eq_some_iff.mp matched
    apply Exists.intro (String.ofList runes)
    rw [Go.utf8, String.toList_ofList]
    exact Utf8.encode_decodeAll decoded

theorem encode_time {event : Go.Event} {payload : Bytes}
    (h : Go.encode { event with time := [] } = .ok payload) (value : Bytes) :
    (∃ written, Go.encode { event with time := value } = .ok written) ↔ Go.checkTime value = .ok () := by
  obtain ⟨_, id, h⟩ := bind_ok_iff.mp h
  obtain ⟨_, source, h⟩ := bind_ok_iff.mp h
  obtain ⟨_, type, h⟩ := bind_ok_iff.mp h
  obtain ⟨_, version, h⟩ := bind_ok_iff.mp h
  obtain ⟨_, subject, h⟩ := bind_ok_iff.mp h
  obtain ⟨_, content, h⟩ := bind_ok_iff.mp h
  obtain ⟨_, _, h⟩ := bind_ok_iff.mp h
  obtain ⟨_, data, h⟩ := bind_ok_iff.mp h
  constructor
  · rintro ⟨written, accepted⟩
    exact encode_checked accepted
  · intro time
    split at h
    · contradiction
    · rename_i _ marshalled
      obtain ⟨written, marshalled⟩ := marshal_time marshalled value
      apply Exists.intro written
      refine bind_ok_iff.mpr ⟨(), id, bind_ok_iff.mpr ⟨(), source, bind_ok_iff.mpr ⟨(), type, ?_⟩⟩⟩
      refine bind_ok_iff.mpr ⟨(), version, bind_ok_iff.mpr ⟨(), subject, bind_ok_iff.mpr ⟨(), content, ?_⟩⟩⟩
      refine bind_ok_iff.mpr ⟨(), time, bind_ok_iff.mpr ⟨(), data, ?_⟩⟩
      simp only [Go.contentType] at marshalled ⊢
      rw [marshalled]
      rfl

/-- `event.Validate` accepts this text as the time of every payload that lacks nothing else. -/
def AcceptedAsTime (s : String) : Prop :=
  ∀ (payload : Bytes) (members : Event.Members) (maxBytes : Int) (m : Event.Metadata),
    Json.Reads payload (.object members) → payload.length ≤ maxBytes →
    (Json.Tree.object members).depth ≤ Event.maxNestingDepth →
    Json.denoteMembers members "time" = some (.string s) →
    Event.Envelope (Function.update (Json.denoteMembers members) "time" none) m →
      ∃ instant, Event.validate payload maxBytes = .ok { m with time := some instant }

theorem acceptedAsTime {s : String} (h : Accepted s.toList) : AcceptedAsTime s := by
  intro payload members maxBytes m reads fits shallow time envelope
  obtain ⟨instant, parsed⟩ := h.parses
  apply Exists.intro instant
  have positive := reads.length_pos
  have kept : ∀ {name}, name ≠ "time" →
      Function.update (Json.denoteMembers members) "time" none name = Json.denoteMembers members name :=
    fun other => Function.update_of_ne other _ _
  have object : Event.Envelope (Json.denoteMembers members) { m with time := some instant } := by
    obtain ⟨version, id, source, type, subject, content, _⟩ := envelope
    rw [kept (by decide)] at version id source type
    rw [kept (by decide)] at subject content
    exact ⟨version, id, source, type, subject, content, .inr ⟨s, instant, time, parsed, rfl⟩⟩
  exact (Event.validate_ok_iff reads).mpr ⟨by omega, fits, shallow, _, by rw [Json.Tree.denote], object⟩

end Surroundings

/-- The validators of the two SDKs accept the same texts, and the daemon accepts these as well.
Neither accepts a string that is not well-formed in its encoding. -/
theorem timestamps_agree (ref : Type) :
    (∀ s : String, s ≠ "" →
      ∀ (event : Go.Event) (payload : Bytes), Go.encode { event with time := [] } = .ok payload →
        ((∃ written, Go.encode { event with time := Go.utf8 s } = .ok written) ↔
          TypeScript.isTimestamp (.string (TypeScript.units s) : TypeScript.JsValue ref) = true)) ∧
    (∀ s : String, TypeScript.isTimestamp (.string (TypeScript.units s) : TypeScript.JsValue ref) = true →
      AcceptedAsTime s) ∧
    (∀ (event : Go.Event) (written : Bytes), Go.encode event = .ok written → ∃ s, event.time = Go.utf8 s) ∧
    ∀ value : TypeScript.JsString, TypeScript.isTimestamp (.string value : TypeScript.JsValue ref) = true →
      ∃ s, value = TypeScript.units s := by
  constructor
  · intro s given event payload accepted
    rw [encode_time accepted, checkTime_iff given, isTimestamp_iff, TypeScript.text_units]
  constructor
  · intro s h
    rw [isTimestamp_iff, TypeScript.text_units] at h
    exact acceptedAsTime h
  constructor
  · intro event written accepted
    exact checkTime_utf8 (encode_checked accepted)
  · intro value h
    exact ⟨TypeScript.text value, (isTimestamp_iff.mp h).wellFormed.symm⟩

def timeless : Go.Event :=
  ⟨Go.utf8 "1", Go.utf8 "/orders", Go.utf8 "order.created", [], none, [], [], none⟩

def timelessPayload : Bytes :=
  Go.utf8 "\x7b\"id\":\"1\",\"source\":\"/orders\",\"type\":\"order.created\",\"specversion\":\"1.0\"\x7d"

theorem timestamps_agree_offset :
    (∃ written, Go.encode { timeless with time := Go.utf8 "2024-02-29T23:59:59.5-23:59" } = .ok written) ∧
      AcceptedAsTime "2024-02-29T23:59:59.5-23:59" ∧
      ¬∃ written, Go.encode { timeless with time := Go.utf8 "2024-02-29T23:59:59.5-24:00" } = .ok written := by
  have untimed : Go.encode { timeless with time := [] } = .ok timelessPayload := by decide +kernel
  have taken : TypeScript.isTimestamp
      (.string (TypeScript.units "2024-02-29T23:59:59.5-23:59") : TypeScript.JsValue Unit) = true := by
    decide +kernel
  have refused : ¬TypeScript.isTimestamp
      (.string (TypeScript.units "2024-02-29T23:59:59.5-24:00") : TypeScript.JsValue Unit) = true := by
    decide +kernel
  obtain ⟨agree, valid, _⟩ := timestamps_agree Unit
  constructor
  · exact (agree _ (by decide) timeless timelessPayload untimed).mpr taken
  constructor
  · exact valid _ taken
  · rw [agree _ (by decide) timeless timelessPayload untimed]
    exact refused

end WriteRelay.Sdk
