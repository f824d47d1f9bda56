import WriteRelay.Event.Envelope
import WriteRelay.Postgres.StateMachine

/-! `writerelay.emit`: what the SQL function accepts and what the daemon makes of it. -/
namespace WriteRelay.Sql
open Clock Fallible Postgres

/-- A jsonb value and the text that PostgreSQL writes for it, which parses to the same value. -/
structure Jsonb where
  text : Bytes
  tree : Json.Tree
  reads : Json.Reads text tree

def Jsonb.value (event : Jsonb) : Json.Value := event.tree.denote

structure SqlError where
  message : String
  code : String
  deriving DecidableEq

def raiseIf (c : Prop) [Decidable c] (message code : String) : Except SqlError Unit :=
  if c then .error ⟨message, code⟩ else .ok ()

theorem raiseIf_ok_iff {c : Prop} [Decidable c] {message code : String} {u : Unit} :
    raiseIf c message code = .ok u ↔ ¬c := by
  unfold raiseIf
  split <;> simp [*]

def stringMember (object : String → Option Json.Value) (name : String) : Option String :=
  match object name with
  | some (.string value) => some value
  | _ => none

def requireMember (object : String → Option Json.Value) (name message : String) :
    Except SqlError Unit :=
  raiseIf ((stringMember object name).getD "" = "") message "22023"

def emitObject (object : String → Option Json.Value) (text : Bytes) (lsn : LSN) :
    Except SqlError Item := do
  raiseIf (stringMember object "specversion" ≠ some "1.0")
    "WriteRelay specversion must be 1.0" "22023"
  requireMember object "id" "WriteRelay event id is required"
  requireMember object "source" "WriteRelay event source is required"
  requireMember object "type" "WriteRelay event type is required"
  raiseIf (262144 < text.length) "WriteRelay event exceeds 262144-byte limit" "54000"
  return .logical "writerelay.v1" true lsn text

/-- The function is STRICT: nothing is written for a null argument. -/
def emit (event : Option Jsonb) (lsn : LSN) : Except SqlError (Option Item) :=
  match event with
  | none => .ok none
  | some event =>
    match event.value with
    | .object object => (emitObject object event.text lsn).map some
    | _ => .error ⟨"WriteRelay event must be a JSON object", "22023"⟩

structure Checked (object : String → Option Json.Value) : Prop where
  subject : object "subject" = none ∨ object "subject" = some .null ∨
    ∃ value, object "subject" = some (.string value)
  dataContentType : object "datacontenttype" = none ∨
    ∃ value, object "datacontenttype" = some (.string value) ∧ value ≠ ""
  time : object "time" = none ∨
    ∃ value, object "time" = some (.string value) ∧ (parseRFC3339 value).isSome

theorem stringMember_eq_some {object : String → Option Json.Value} {name value : String} :
    stringMember object name = some value ↔ object name = some (.string value) := by
  unfold stringMember
  split
  · rename_i found
    simp [found]
  · rename_i other
    simp only [reduceCtorEq, false_iff]
    exact other value

theorem requireMember_ok {object : String → Option Json.Value} {name message : String} {u : Unit}
    (h : requireMember object name message = .ok u) :
    ∃ value, object name = some (.string value) ∧ value ≠ "" := by
  have nonempty := raiseIf_ok_iff.mp h
  cases found : stringMember object name with
  | none =>
    rw [found] at nonempty
    exact absurd rfl nonempty
  | some value =>
    rw [found] at nonempty
    exact ⟨value, stringMember_eq_some.mp found, nonempty⟩

theorem emitObject_ok {object : String → Option Json.Value} {text : Bytes} {lsn : LSN} {item : Item}
    (h : emitObject object text lsn = .ok item) :
    item = .logical "writerelay.v1" true lsn text ∧ text.length ≤ 262144 ∧
      object "specversion" = some (.string "1.0") ∧
      (∃ id, object "id" = some (.string id) ∧ id ≠ "") ∧
      (∃ source, object "source" = some (.string source) ∧ source ≠ "") ∧
      ∃ type, object "type" = some (.string type) ∧ type ≠ "" := by
  obtain ⟨_, version, h⟩ := bind_ok_iff.mp h
  obtain ⟨_, id, h⟩ := bind_ok_iff.mp h
  obtain ⟨_, source, h⟩ := bind_ok_iff.mp h
  obtain ⟨_, type, h⟩ := bind_ok_iff.mp h
  obtain ⟨_, size, h⟩ := bind_ok_iff.mp h
  exact ⟨(Except.ok.inj h).symm, not_lt.mp (raiseIf_ok_iff.mp size),
    stringMember_eq_some.mp (not_not.mp (raiseIf_ok_iff.mp version)), requireMember_ok id,
    requireMember_ok source, requireMember_ok type⟩

theorem emit_ok {event : Jsonb} {lsn : LSN} {item : Item}
    (h : emit (some event) lsn = .ok (some item)) :
    ∃ object, event.value = .object object ∧ emitObject object event.text lsn = .ok item := by
  simp only [emit] at h
  split at h
  · rename_i object denoted
    cases checked : emitObject object event.text lsn with
    | error e =>
      rw [checked] at h
      contradiction
    | ok written =>
      rw [checked] at h
      cases Option.some.inj (Except.ok.inj h)
      exact ⟨object, denoted, checked⟩
  · contradiction

theorem envelope_iff_checked {object : String → Option Json.Value} {id source type : String}
    (version : object "specversion" = some (.string "1.0"))
    (hId : object "id" = some (.string id) ∧ id ≠ "")
    (hSource : object "source" = some (.string source) ∧ source ≠ "")
    (hType : object "type" = some (.string type) ∧ type ≠ "") :
    (∃ m, Event.Envelope object m) ↔ Checked object := by
  constructor
  · rintro ⟨m, h⟩
    refine ⟨?_, ?_, ?_⟩
    · rcases h.subject with ⟨absent | null, _⟩ | given
      · exact .inl absent
      · exact .inr (.inl null)
      · exact .inr (.inr ⟨_, given⟩)
    · rcases h.dataContentType with ⟨absent, _⟩ | given
      · exact .inl absent
      · exact .inr ⟨_, given⟩
    · rcases h.time with ⟨absent, _⟩ | ⟨value, parsed, given, accepted, _⟩
      · exact .inl absent
      · exact .inr ⟨value, given, by rw [accepted]; rfl⟩
  · intro h
    obtain ⟨subject, hSubject⟩ : ∃ subject,
        (object "subject" = none ∨ object "subject" = some .null) ∧ subject = "" ∨
          object "subject" = some (.string subject) := by
      rcases h.subject with absent | null | ⟨value, given⟩
      · exact ⟨"", .inl ⟨.inl absent, rfl⟩⟩
      · exact ⟨"", .inl ⟨.inr null, rfl⟩⟩
      · exact ⟨value, .inr given⟩
    obtain ⟨content, hContent⟩ : ∃ content, object "datacontenttype" = none ∧ content = "" ∨
        object "datacontenttype" = some (.string content) ∧ content ≠ "" := by
      rcases h.dataContentType with absent | ⟨value, given⟩
      · exact ⟨"", .inl ⟨absent, rfl⟩⟩
      · exact ⟨value, .inr given⟩
    obtain ⟨time, hTime⟩ : ∃ time : Option Instant, object "time" = none ∧ time = none ∨
        ∃ value parsed, object "time" = some (.string value) ∧ parseRFC3339 value = some parsed ∧
          time = some parsed := by
      rcases h.time with absent | ⟨value, given, accepted⟩
      · exact ⟨none, .inl ⟨absent, rfl⟩⟩
      · obtain ⟨parsed, accepted⟩ := Option.isSome_iff_exists.mp accepted
        exact ⟨some parsed, .inr ⟨value, parsed, given, accepted, rfl⟩⟩
    exact ⟨⟨"1.0", id, source, type, subject, time, content⟩, ⟨rfl, version⟩, hId, hSource, hType,
      hSubject, hContent, hTime⟩

/-- For a message that `emit` accepted, captured in a transaction with room in its buffer:
capture goes on if the value passes the checks that only the daemon makes, and stops with
ErrProtectedEvent otherwise. -/
theorem emit_capture {event : Jsonb} {lsn : LSN} {item : Item} {limits : Limits} {s : StateMachine}
    (accepted : emit (some event) lsn = .ok (some item))
    (tag : limits.messagePrefix = "writerelay.v1") (size : limits.maxEventBytes = 262144)
    (room : Room limits s event.text.length) :
    ((∃ s', consume limits s item.message = .ok (s', none)) ↔
      event.tree.depth ≤ Event.maxNestingDepth ∧ ∃ object, event.value = .object object ∧
        Checked object) ∧
    ∀ e, consume limits s item.message = .error e → e.sentinel = some .protectedEvent := by
  obtain ⟨object, denoted, checked⟩ := emit_ok accepted
  obtain ⟨rfl, fits, version, ⟨id, hId⟩, ⟨source, hSource⟩, type, hType⟩ := emitObject_ok checked
  have valid : (∃ m, Event.validate event.text 262144 = .ok m) ↔
      event.tree.depth ≤ Event.maxNestingDepth ∧ Checked object := by
    rw [← envelope_iff_checked version hId hSource hType]
    constructor
    · rintro ⟨m, h⟩
      obtain ⟨_, _, shallow, object', denoted', envelope⟩ := (Event.validate_ok_iff event.reads).mp h
      cases Json.Value.object.inj (denoted.symm.trans denoted')
      exact ⟨shallow, m, envelope⟩
    · rintro ⟨shallow, m, envelope⟩
      exact ⟨m, (Event.validate_ok_iff event.reads).mpr
        ⟨by decide, by exact_mod_cast fits, shallow, object, denoted, envelope⟩⟩
  have same : (∃ object, event.value = .object object ∧ Checked object) ↔ Checked object := by
    rw [denoted]
    simp
  rw [same, ← valid, Item.message, ← tag, consume_logical room, size]
  cases Event.validate event.text 262144 with
  | ok m => simp
  | error e => simp [errorf]

def sampleText (time : String) : Bytes :=
  ("\x7b\"id\": \"1\", \"time\": \"" ++ time ++ "\", \"type\": \"order.created\", " ++
    "\"source\": \"/orders\", \"specversion\": \"1.0\"\x7d").toByteArray.data.toList

def sampleTree (time : String) : Json.Tree :=
  .object [("id", .string "1"), ("time", .string time), ("type", .string "order.created"),
    ("source", .string "/orders"), ("specversion", .string "1.0")]

def sampleEvent : Jsonb :=
  ⟨sampleText "2026-07-27T20:24:00Z", sampleTree "2026-07-27T20:24:00Z",
    Json.parse_eq_some.mp (by rfl)⟩

def poisonEvent : Jsonb :=
  ⟨sampleText "yesterday", sampleTree "yesterday", Json.parse_eq_some.mp (by rfl)⟩

def sampleLimits : Limits := ⟨"writerelay.v1", 262144, 100, 1000000⟩

def sampleMachine : StateMachine := ⟨true, 7, [], 0⟩

theorem sample_room (event : Jsonb) (small : event.text.length ≤ 1000000) :
    Room sampleLimits sampleMachine event.text.length :=
  ⟨rfl, by decide, by simp only [sampleLimits, sampleMachine]; omega⟩

theorem sampleEvent_accepted :
    emit (some sampleEvent) 15 = .ok (some (.logical "writerelay.v1" true 15 sampleEvent.text)) := by
  rfl

theorem emit_capture_sample : ∃ s', consume sampleLimits sampleMachine
    (.logical "writerelay.v1" true 15 sampleEvent.text) = .ok (s', none) := by
  have checked : Checked (Json.denoteMembers [("id", .string "1"),
      ("time", .string "2026-07-27T20:24:00Z"), ("type", .string "order.created"),
      ("source", .string "/orders"), ("specversion", .string "1.0")]) :=
    ⟨.inl rfl, .inl rfl, .inr ⟨_, rfl, by decide⟩⟩
  exact (emit_capture sampleEvent_accepted rfl rfl (sample_room _ (by decide +kernel))).1.mpr
    ⟨by decide +kernel, _, rfl, checked⟩

/-- An event that the function accepts and that stops capture. -/
theorem emit_poison :
    emit (some poisonEvent) 15 = .ok (some (.logical "writerelay.v1" true 15 poisonEvent.text)) ∧
      Room sampleLimits sampleMachine poisonEvent.text.length ∧
      consume sampleLimits sampleMachine (.logical "writerelay.v1" true 15 poisonEvent.text) =
        .error (errorf (some .protectedEvent) "%w: %v" ["%w: time must be RFC 3339: %v"]) :=
  ⟨rfl, sample_room _ (by decide +kernel), by decide +kernel⟩

end WriteRelay.Sql
