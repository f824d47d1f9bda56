import WriteRelay.Event.Validate

/-! What `event.Validate` accepts, as a condition on the JSON value that a payload denotes. -/
namespace WriteRelay.Event
open Clock Fallible

structure Envelope (object : String → Option Json.Value) (m : Metadata) : Prop where
  specVersion : m.specVersion = "1.0" ∧ object "specversion" = some (.string "1.0")
  id : object "id" = some (.string m.id) ∧ m.id ≠ ""
  source : object "source" = some (.string m.source) ∧ m.source ≠ ""
  type : object "type" = some (.string m.type) ∧ m.type ≠ ""
  subject : (object "subject" = none ∨ object "subject" = some .null) ∧ m.subject = "" ∨
    object "subject" = some (.string m.subject)
  dataContentType : object "datacontenttype" = none ∧ m.dataContentType = "" ∨
    object "datacontenttype" = some (.string m.dataContentType) ∧ m.dataContentType ≠ ""
  time : object "time" = none ∧ m.time = none ∨ ∃ value parsed,
    object "time" = some (.string value) ∧ parseRFC3339 value = some parsed ∧ m.time = some parsed

def text : Json.Value → Option String
  | .string value => some value
  | .null => some ""
  | .bool _ | .number _ | .array _ | .object _ => none

theorem text_string {v : Json.Value} {value : String} (h : text v = some value) (some_ : value ≠ "") :
    v = .string value := by
  cases v with
  | string s => rw [Option.some.inj h]
  | null => exact absurd (Option.some.inj h).symm some_
  | bool | number | array | object => contradiction

theorem decodeString_ok_iff {raw : Json.Tree} {name value : String} :
    decodeString raw name = .ok value ↔ text raw.denote = some value := by
  cases raw <;> simp [decodeString, text, Json.Tree.denote]

section Members

variable {members : Members} {name value : String}

theorem requiredString_ok_iff : requiredString members name = .ok value ↔
    Json.denoteMembers members name = some (.string value) ∧ value ≠ "" := by
  rw [Json.denoteMembers_eq]
  unfold requiredString
  cases found : Json.lookup name members with
  | none => simp
  | some raw =>
    simp only [Option.map_some, Option.some.injEq]
    constructor
    · intro h
      obtain ⟨s, decoded, h⟩ := bind_ok_iff.mp h
      obtain ⟨_, nonempty, h⟩ := bind_ok_iff.mp h
      cases Except.ok.inj h
      have nonempty := refuse_ok_iff.mp nonempty
      exact ⟨text_string (decodeString_ok_iff.mp decoded) nonempty, nonempty⟩
    · rintro ⟨denoted, nonempty⟩
      refine bind_ok_iff.mpr ⟨value, decodeString_ok_iff.mpr (by rw [denoted]; rfl), ?_⟩
      exact bind_ok_iff.mpr ⟨(), refuse_ok_iff.mpr nonempty, rfl⟩

theorem optionalString_ok_iff {allowEmpty : Bool} : optionalString members name allowEmpty = .ok value ↔
    Json.denoteMembers members name = none ∧ value = "" ∨
      (∃ v, Json.denoteMembers members name = some v ∧ text v = some value) ∧
        ¬(allowEmpty = false ∧ value = "") := by
  rw [Json.denoteMembers_eq]
  unfold optionalString
  cases found : Json.lookup name members with
  | none => simp [eq_comm]
  | some raw =>
    simp only [Option.map_some, reduceCtorEq, false_and, false_or, Option.some.injEq, exists_eq_left']
    constructor
    · intro h
      obtain ⟨s, decoded, h⟩ := bind_ok_iff.mp h
      obtain ⟨_, allowed, h⟩ := bind_ok_iff.mp h
      cases Except.ok.inj h
      exact ⟨decodeString_ok_iff.mp decoded, refuse_ok_iff.mp allowed⟩
    · rintro ⟨decoded, allowed⟩
      exact bind_ok_iff.mpr ⟨value, decodeString_ok_iff.mpr decoded,
        bind_ok_iff.mpr ⟨(), refuse_ok_iff.mpr allowed, rfl⟩⟩

theorem optionalEmpty_ok_iff : optionalString members name true = .ok value ↔
    (Json.denoteMembers members name = none ∨ Json.denoteMembers members name = some .null) ∧
      value = "" ∨ Json.denoteMembers members name = some (.string value) := by
  rw [optionalString_ok_iff]
  constructor
  · rintro (⟨absent, empty⟩ | ⟨⟨v, found, decoded⟩, _⟩)
    · exact .inl ⟨.inl absent, empty⟩
    · cases v with
      | null => exact .inl ⟨.inr found, (Option.some.inj decoded).symm⟩
      | string s => exact .inr (by rw [found, Option.some.inj decoded])
      | bool | number | array | object => contradiction
  · rintro (⟨absent | found, empty⟩ | found)
    · exact .inl ⟨absent, empty⟩
    · exact .inr ⟨⟨_, found, by rw [empty]; rfl⟩, by simp⟩
    · exact .inr ⟨⟨_, found, rfl⟩, by simp⟩

theorem optionalNonEmpty_ok_iff : optionalString members name false = .ok value ↔
    Json.denoteMembers members name = none ∧ value = "" ∨
      Json.denoteMembers members name = some (.string value) ∧ value ≠ "" := by
  rw [optionalString_ok_iff]
  constructor
  · rintro (absent | ⟨⟨v, found, decoded⟩, allowed⟩)
    · exact .inl absent
    · have nonempty : value ≠ "" := fun empty => allowed ⟨rfl, empty⟩
      cases text_string decoded nonempty
      exact .inr ⟨found, nonempty⟩
  · rintro (absent | ⟨found, nonempty⟩)
    · exact .inl absent
    · exact .inr ⟨⟨_, found, rfl⟩, fun refused => nonempty refused.2⟩

theorem optionalTime_ok_iff {time : Option Instant} : optionalTime members = .ok time ↔
    Json.denoteMembers members "time" = none ∧ time = none ∨ ∃ value parsed,
      Json.denoteMembers members "time" = some (.string value) ∧
        parseRFC3339 value = some parsed ∧ time = some parsed := by
  rw [Json.denoteMembers_eq]
  unfold optionalTime
  cases found : Json.lookup "time" members with
  | none => simp [eq_comm]
  | some raw =>
    simp only [Option.map_some, reduceCtorEq, false_and, false_or, Option.some.injEq]
    constructor
    · intro h
      split at h
      · contradiction
      · rename_i value decoded
        split at h
        · contradiction
        · rename_i nonempty
          split at h
          · contradiction
          · rename_i parsed accepted
            exact ⟨value, parsed, text_string (decodeString_ok_iff.mp decoded) nonempty, accepted,
              (Except.ok.inj h).symm⟩
    · rintro ⟨value, parsed, denoted, accepted, rfl⟩
      have decoded : decodeString raw "time" = .ok value :=
        decodeString_ok_iff.mpr (by rw [denoted]; rfl)
      have refused : parseRFC3339 "" = none := by decide
      have nonempty : value ≠ "" := by
        intro empty
        rw [empty, refused] at accepted
        contradiction
      rw [decoded]
      simp only [if_neg nonempty, accepted]

end Members

theorem validateObject_ok_iff {members : Members} {m : Metadata} :
    validateObject members = .ok m ↔ Envelope (Json.denoteMembers members) m := by
  constructor
  · intro h
    obtain ⟨specVersion, hVersion, h⟩ := bind_ok_iff.mp h
    obtain ⟨_, version, h⟩ := bind_ok_iff.mp h
    obtain ⟨id, hId, h⟩ := bind_ok_iff.mp h
    obtain ⟨source, hSource, h⟩ := bind_ok_iff.mp h
    obtain ⟨type, hType, h⟩ := bind_ok_iff.mp h
    obtain ⟨subject, hSubject, h⟩ := bind_ok_iff.mp h
    obtain ⟨dataContentType, hContent, h⟩ := bind_ok_iff.mp h
    obtain ⟨time, hTime, h⟩ := bind_ok_iff.mp h
    cases Except.ok.inj h
    cases not_not.mp (refuse_ok_iff.mp version)
    exact ⟨⟨rfl, (requiredString_ok_iff.mp hVersion).1⟩, requiredString_ok_iff.mp hId,
      requiredString_ok_iff.mp hSource, requiredString_ok_iff.mp hType,
      optionalEmpty_ok_iff.mp hSubject, optionalNonEmpty_ok_iff.mp hContent,
      optionalTime_ok_iff.mp hTime⟩
  · intro h
    obtain ⟨specVersion, id, source, type, subject, time, dataContentType⟩ := m
    obtain ⟨rfl, version⟩ := h.specVersion
    unfold validateObject
    rw [requiredString_ok_iff.mpr ⟨version, by decide⟩, requiredString_ok_iff.mpr h.id,
      requiredString_ok_iff.mpr h.source, requiredString_ok_iff.mpr h.type,
      optionalEmpty_ok_iff.mpr h.subject, optionalNonEmpty_ok_iff.mpr h.dataContentType,
      optionalTime_ok_iff.mpr h.time]
    rfl

theorem decodeObject_ok_iff {payload : Bytes} {tree : Json.Tree} {members : Members}
    (reads : Json.Reads payload tree) :
    decodeObject payload = .ok members ↔ tree = .object members ∧ tree.depth ≤ maxNestingDepth := by
  obtain ⟨n, rest, read, ended⟩ := reads
  have next : decodeNext payload =
      if tree.depth ≤ maxNestingDepth then some (tree, rest) else none := by
    rw [decodeNext, (Json.read_fuel n).1 _ payload _ read (by omega)]
    split <;> simp_all [Option.filter]
  have atEnd : ensureEOF rest = .ok () := if_pos ended
  unfold decodeObject
  rw [next]
  by_cases shallow : tree.depth ≤ maxNestingDepth
  · rw [if_pos shallow]
    cases tree with
    | object ms => simp [atEnd, Except.map, shallow]
    | null | bool | number | string | array => simp
  · rw [if_neg shallow]
    simp [shallow]

/-- `event.Validate` over every text of a JSON value. -/
theorem validate_ok_iff {payload : Bytes} {tree : Json.Tree} {maxBytes : Int} {m : Metadata}
    (reads : Json.Reads payload tree) :
    validate payload maxBytes = .ok m ↔ 1 ≤ maxBytes ∧ payload.length ≤ maxBytes ∧
      tree.depth ≤ maxNestingDepth ∧ ∃ object, tree.denote = .object object ∧ Envelope object m := by
  constructor
  · intro h
    obtain ⟨_, positive, h⟩ := bind_ok_iff.mp h
    obtain ⟨_, fits, h⟩ := bind_ok_iff.mp h
    obtain ⟨members, decoded, h⟩ := bind_ok_iff.mp h
    obtain ⟨rfl, shallow⟩ := (decodeObject_ok_iff reads).mp decoded
    exact ⟨not_lt.mp (refuse_ok_iff.mp positive), not_lt.mp (refuse_ok_iff.mp fits), shallow,
      _, by rw [Json.Tree.denote], validateObject_ok_iff.mp h⟩
  · rintro ⟨positive, fits, shallow, object, denoted, envelope⟩
    cases tree with
    | object members =>
      rw [Json.Tree.denote] at denoted
      cases Json.Value.object.inj denoted
      have decoded := (decodeObject_ok_iff reads).mpr ⟨rfl, shallow⟩
      refine bind_ok_iff.mpr ⟨(), refuse_ok_iff.mpr (not_lt.mpr positive), ?_⟩
      refine bind_ok_iff.mpr ⟨(), refuse_ok_iff.mpr (not_lt.mpr fits), ?_⟩
      exact bind_ok_iff.mpr ⟨members, decoded, validateObject_ok_iff.mpr envelope⟩
    | null | bool | number | string | array => simp [Json.Tree.denote] at denoted

end WriteRelay.Event
