import WriteRelay.Base.JsonCompact
import WriteRelay.Event.Envelope

/-! The Go producer SDK: `Event`, `encode` and `Emit`. -/
namespace WriteRelay.Go
open Clock Fallible

/-- A Go string is any sequence of bytes; `none` is a nil pointer or slice. -/
structure Event where
  id : Bytes
  source : Bytes
  type : Bytes
  specVersion : Bytes
  subject : Option Bytes
  time : Bytes
  dataContentType : Bytes
  data : Option Bytes

inductive EncodeError
  | invalid (format : String) (args : List String)
  | panic
  deriving DecidableEq

def utf8 (s : String) : Bytes := Utf8.encode s.toList

def validString (value : Bytes) : Bool := (Utf8.decode value).isSome && !value.contains 0

def requireString (name : String) (value : Bytes) : Except EncodeError Unit :=
  failIf (value = [] ∨ validString value = false)
    (.invalid "%w: %s must be a non-empty UTF-8 string without NUL" [name])

/-- A Go pattern sees the runes of a string; none of them is in an invalid one. -/
def timestamp (value : Bytes) : Option Stamp := (Utf8.decode value).bind (readStamp false)

def parseTime (value : Bytes) : Option Instant :=
  (Utf8.decode value).bind fun text => parseRFC3339 (String.ofList text)

/-- The last five bytes, `hh:mm`, compared as text. -/
def invalidOffset (value : Bytes) : Bool :=
  let offset := value.drop (value.length - 5)
  utf8 "23" < offset.take 2 || utf8 "59" < offset.drop 3

def checkTime (value : Bytes) : Except EncodeError Unit :=
  if value = [] then .ok () else do
  failIf (parseTime value = none ∨ timestamp value = none) (.invalid "%w: time must be RFC 3339" [])
  failIf (value.getLast? ≠ some 0x5A ∧ invalidOffset value = true)
    (.invalid "%w: time has an invalid timezone offset" [])

def jsonValid (data : Bytes) : Bool :=
  (Json.parse data).any fun tree => tree.depth ≤ Event.maxNestingDepth

/-- `strconv.ParseUint(string(digits), 16, 16)`, which is zero where it fails. -/
def parseUnit (a b c d : UInt8) : Option Nat := (Json.readUnit [a, b, c, d]).map Prod.fst

/-- The loop over the escapes, from an index to the end. `none` is an index out of range. -/
def validEscapes : Bytes → Option Bool
  | [] => some true
  | 0x5C :: 0x75 :: a :: b :: c :: d :: rest =>
    let code := (parseUnit a b c d).getD 0
    if code = 0 ∨ 0xDC00 ≤ code ∧ code ≤ 0xDFFF then some false
    else if 0xD800 ≤ code ∧ code ≤ 0xDBFF then
      match rest with
      | 0x5C :: 0x75 :: e :: f :: g :: h :: rest =>
        match parseUnit e f g h with
        | none => some false
        | some low => if low < 0xDC00 ∨ 0xDFFF < low then some false else validEscapes rest
      | _ => some false
    else validEscapes rest
  | 0x5C :: 0x75 :: _ => none
  | 0x5C :: _ :: rest => validEscapes rest
  | 0x5C :: [] => none
  | _ :: rest => validEscapes rest

def validJSON (data : Bytes) : Option Bool :=
  if (Utf8.decode data).isNone ∨ jsonValid data = false then some false else validEscapes data

def checkData : Option Bytes → Except EncodeError Unit
  | none => .ok ()
  | some data =>
    match validJSON data with
    | none => .error .panic
    | some valid => failIf (valid = false)
        (.invalid "%w: data must be valid UTF-8 JSON without NUL or unpaired surrogates" [])

def contentType (event : Event) : Bytes :=
  if event.data.isSome ∧ event.dataContentType = [] then utf8 "application/json"
  else event.dataContentType

section Marshal

def escapeHTML (c : Char) : Bool :=
  c = '<' || c = '>' || c = '&' || c.val.toNat = 0x2028 || c.val.toNat = 0x2029

def quote (value : Bytes) : Bytes :=
  Json.writeString escapeHTML (String.ofList ((Utf8.decode value).getD []))

def nonEmpty (value : Bytes) : Option Bytes := if value = [] then none else some value

def members (event : Event) (data : Option Bytes) : List (String × Bytes) :=
  [("id", quote event.id), ("source", quote event.source), ("type", quote event.type),
    ("specversion", quote event.specVersion)] ++ Json.optional "subject" (event.subject.map quote) ++
    Json.optional "time" ((nonEmpty event.time).map quote) ++
    Json.optional "datacontenttype" ((nonEmpty event.dataContentType).map quote) ++ Json.optional "data" data

/-- `json.Marshal(event)`: a raw message is checked and compacted. -/
def marshal (event : Event) : Option Bytes :=
  match event.data.bind nonEmpty with
  | none => some (Json.writeObject escapeHTML (members event none))
  | some data =>
    if jsonValid data then
      some (Json.writeObject escapeHTML (members event (some (Json.compact .between data))))
    else none

end Marshal

def encode (event : Event) : Except EncodeError Bytes := do
  requireString "id" event.id
  requireString "source" event.source
  requireString "type" event.type
  let specVersion := if event.specVersion = [] then utf8 "1.0" else event.specVersion
  failIf (specVersion ≠ utf8 "1.0") (.invalid "%w: specversion must be 1.0" [])
  failIf (event.subject.any (fun value => !validString value) = true)
    (.invalid "%w: subject must be UTF-8 without NUL" [])
  failIf (validString event.dataContentType = false)
    (.invalid "%w: datacontenttype must be UTF-8 without NUL" [])
  checkTime event.time
  checkData event.data
  match marshal { event with specVersion, dataContentType := contentType event } with
  | none => .error (.invalid "%w: cannot encode envelope" [])
  | some payload => return payload

structure Statement where
  text : String
  argument : Bytes

inductive EmitError
  | nilTransaction
  | encode (e : EncodeError)
  | database (text : String)

/-- `Emit` and `EmitSQL`: the transaction, unless it is nil, executes a statement or fails. The
statements that it was given are returned as well. -/
def emit (tx : Option (Statement → Except String Unit)) (event : Event) :
    Except EmitError Unit × List Statement :=
  match tx with
  | none => (.error .nilTransaction, [])
  | some exec =>
    match encode event with
    | .error e => (.error (.encode e), [])
    | .ok payload =>
      let statement := ⟨"SELECT writerelay.emit($1::jsonb)", payload⟩
      ((exec statement).mapError .database, [statement])

section Written

def text (value : Bytes) : String := String.ofList ((Utf8.decode value).getD [])

theorem validString_text {value : Bytes} (h : validString value = true) :
    Utf8.encode (text value).toList = value := by
  obtain ⟨s, decoded⟩ := Option.isSome_iff_exists.mp (Bool.and_eq_true_iff.mp h).1
  rw [text, decoded, String.toList_ofList]
  exact (Utf8.encode_decodeAll decoded).symm

def trees (event : Event) (data : Option Json.Tree) : List (String × Json.Tree) :=
  [("id", .string (text event.id)), ("source", .string (text event.source)),
    ("type", .string (text event.type)), ("specversion", .string (text event.specVersion))] ++
    Json.optional "subject" (event.subject.map fun v => .string (text v)) ++
    Json.optional "time" ((nonEmpty event.time).map fun v => .string (text v)) ++
    Json.optional "datacontenttype" ((nonEmpty event.dataContentType).map fun v => .string (text v)) ++
    Json.optional "data" data

theorem escapeHTML_basic (c : Char) (h : escapeHTML c = true) : c.val.toNat < 0x10000 := by
  simp only [escapeHTML, Bool.or_eq_true, decide_eq_true_eq] at h
  rcases h with (((rfl | rfl) | rfl) | separator) | separator
  · decide
  · decide
  · decide
  · omega
  · omega

theorem writes_quote (value : Bytes) : Json.Writes (quote value) (.string (text value)) :=
  Json.writes_string escapeHTML_basic (text value)

theorem writes_members (event : Event) {data : Option Bytes} {tree : Option Json.Tree}
    (written : Option.Rel Json.Writes data tree) :
    Json.Writes (Json.writeObject escapeHTML (members event data)) (.object (trees event tree)) := by
  have one : ∀ (name : String) (value : Bytes), List.Forall₂ (fun m t => m.1 = t.1 ∧ Json.Writes m.2 t.2)
      [(name, quote value)] [(name, .string (text value))] := fun name value =>
    .cons ⟨rfl, writes_quote value⟩ .nil
  have optional : ∀ (name : String) (value : Option Bytes),
      List.Forall₂ (fun m t => m.1 = t.1 ∧ Json.Writes m.2 t.2)
        (Json.optional name (value.map quote)) (Json.optional name (value.map fun v => .string (text v))) := by
    intro name value
    cases value with
    | none => exact .nil
    | some value => exact one name value
  have last : List.Forall₂ (fun m t => m.1 = t.1 ∧ Json.Writes m.2 t.2)
      (Json.optional "data" data) (Json.optional "data" tree) := by
    cases written with
    | none => exact .nil
    | some written => exact .cons ⟨rfl, written⟩ .nil
  apply Json.writes_object escapeHTML_basic
  refine List.rel_append (List.rel_append (List.rel_append (List.rel_append ?_ (optional _ _))
    (optional _ _)) (optional _ _)) last
  exact .cons ⟨rfl, writes_quote _⟩ (.cons ⟨rfl, writes_quote _⟩ (.cons ⟨rfl, writes_quote _⟩ (one _ _)))

theorem jsonValid_reads {data : Bytes} (h : jsonValid data = true) : ∃ tree, Json.Reads data tree := by
  cases parsed : Json.parse data with
  | none =>
    rw [jsonValid, parsed] at h
    contradiction
  | some tree => exact ⟨tree, Json.parse_eq_some.mp parsed⟩

theorem marshal_writes {event : Event} {payload : Bytes} (h : marshal event = some payload) :
    ∃ data, Json.Writes payload (.object (trees event data)) := by
  unfold marshal at h
  split at h
  · cases Option.some.inj h
    exact ⟨none, writes_members event .none⟩
  · rename_i data _
    split at h
    · rename_i valid
      cases Option.some.inj h
      obtain ⟨tree, parsed⟩ := jsonValid_reads valid
      exact ⟨some tree, writes_members event (.some (Json.writes_compact parsed))⟩
    · contradiction

theorem requireString_ok {name : String} {value : Bytes} {u : Unit}
    (h : requireString name value = .ok u) : value ≠ [] ∧ validString value = true := by
  have both := not_or.mp (failIf_ok_iff.mp h)
  exact ⟨both.1, by simpa using both.2⟩

theorem checkTime_ok {value : Bytes} {u : Unit} (h : checkTime value = .ok u) (given : value ≠ []) :
    ∃ s, timestamp value = some s ∧ parseRFC3339 (text value) = some s.instant := by
  rw [checkTime, if_neg given] at h
  obtain ⟨_, parsed, _⟩ := bind_ok_iff.mp h
  obtain ⟨parses, matched⟩ := not_or.mp (failIf_ok_iff.mp parsed)
  obtain ⟨s, matched⟩ := Option.ne_none_iff_exists'.mp matched
  obtain ⟨p, parses⟩ := Option.ne_none_iff_exists'.mp parses
  obtain ⟨runes, decoded, strict⟩ := Option.bind_eq_some_iff.mp matched
  have same : text value = String.ofList runes := by rw [text, decoded, Option.getD_some]
  rw [parseTime, decoded, Option.bind_some] at parses
  refine ⟨s, matched, ?_⟩
  rw [same]
  have lenient := readStamp_lenient strict
  rw [parseRFC3339, String.toList_ofList, lenient, Option.bind_some] at parses ⊢
  split at parses
  · rename_i ranges
    rw [if_pos ranges]
  · contradiction

structure Described (event : Event) (m : Event.Metadata) : Prop where
  specVersion : m.specVersion = "1.0"
  id : utf8 m.id = event.id
  source : utf8 m.source = event.source
  type : utf8 m.type = event.type
  subject : utf8 m.subject = event.subject.getD []
  dataContentType : utf8 m.dataContentType = contentType event
  time : event.time = [] ∧ m.time = none ∨
    ∃ s, timestamp event.time = some s ∧ m.time = some s.instant

theorem text_ne {value : Bytes} (h : value ≠ [] ∧ validString value = true) : text value ≠ "" := by
  intro empty
  have back := validString_text h.2
  rw [empty] at back
  exact h.1 back.symm

theorem trees_lookup (event : Event) (data : Option Json.Tree) :
    (Json.denoteMembers (trees event data) "id" = some (.string (text event.id)) ∧
      Json.denoteMembers (trees event data) "source" = some (.string (text event.source)) ∧
      Json.denoteMembers (trees event data) "type" = some (.string (text event.type)) ∧
      Json.denoteMembers (trees event data) "specversion" = some (.string (text event.specVersion))) ∧
    Json.denoteMembers (trees event data) "subject" = event.subject.map (fun v => .string (text v)) ∧
    Json.denoteMembers (trees event data) "time" = (nonEmpty event.time).map (fun v => .string (text v)) ∧
    Json.denoteMembers (trees event data) "datacontenttype" =
      (nonEmpty event.dataContentType).map (fun v => .string (text v)) := by
  simp [trees, Json.denoteMembers_append, Json.denoteMembers_optional, Json.denoteMembers,
    Json.denoteMember, Json.Tree.denote, Function.comp_def]

theorem validString_contentType {event : Event} (h : validString event.dataContentType = true) :
    validString (contentType event) = true := by
  unfold contentType
  split
  · decide
  · exact h

theorem time_read {event : Event} {u : Unit} (h : checkTime event.time = .ok u) :
    ∃ instant : Option Instant,
      ((nonEmpty event.time).map (fun v => Json.Value.string (text v)) = none ∧ instant = none ∨
        ∃ value parsed, (nonEmpty event.time).map (fun v => Json.Value.string (text v)) =
          some (.string value) ∧ parseRFC3339 value = some parsed ∧ instant = some parsed) ∧
      (event.time = [] ∧ instant = none ∨
        ∃ s, timestamp event.time = some s ∧ instant = some s.instant) := by
  by_cases given : event.time = []
  · refine ⟨none, .inl ⟨?_, rfl⟩, .inl ⟨given, rfl⟩⟩
    rw [nonEmpty, if_pos given]
    rfl
  · obtain ⟨s, matched, parsed⟩ := checkTime_ok h given
    refine ⟨some s.instant, .inr ⟨text event.time, s.instant, ?_, parsed, rfl⟩, .inr ⟨s, matched, rfl⟩⟩
    rw [nonEmpty, if_neg given]
    rfl

theorem encode_envelope {event : Event} {payload : Bytes} (h : encode event = .ok payload) :
    ∃ members m, Json.Writes payload (.object members) ∧
      Event.Envelope (Json.denoteMembers members) m ∧ Described event m := by
  obtain ⟨_, id, h⟩ := bind_ok_iff.mp h
  obtain ⟨_, source, h⟩ := bind_ok_iff.mp h
  obtain ⟨_, type, h⟩ := bind_ok_iff.mp h
  obtain ⟨_, version, h⟩ := bind_ok_iff.mp h
  obtain ⟨_, subject, h⟩ := bind_ok_iff.mp h
  obtain ⟨_, content, h⟩ := bind_ok_iff.mp h
  obtain ⟨_, time, h⟩ := bind_ok_iff.mp h
  obtain ⟨_, _, h⟩ := bind_ok_iff.mp h
  split at h
  · contradiction
  · rename_i written marshalled
    cases Except.ok.inj h
    obtain ⟨data, writes⟩ := marshal_writes marshalled
    have version := not_not.mp (failIf_ok_iff.mp version)
    obtain ⟨⟨hId, hSource, hType, hVersion⟩, hSubject, hTime, hContent⟩ := trees_lookup
      { event with
        specVersion := if event.specVersion = [] then utf8 "1.0" else event.specVersion
        dataContentType := contentType event } data
    have subjectValid : validString (event.subject.getD []) = true := by
      cases given : event.subject with
      | none => rfl
      | some value => simpa [given] using subject
    have contentValid := validString_contentType (by simpa using content)
    obtain ⟨instant, readTime, described⟩ := time_read time
    refine ⟨_, ⟨"1.0", text event.id, text event.source, text event.type, text (event.subject.getD []),
      instant, text (contentType event)⟩, writes, ⟨?_, ⟨hId, text_ne (requireString_ok id)⟩,
      ⟨hSource, text_ne (requireString_ok source)⟩, ⟨hType, text_ne (requireString_ok type)⟩, ?_, ?_, ?_⟩,
      ⟨rfl, validString_text (requireString_ok id).2, validString_text (requireString_ok source).2,
        validString_text (requireString_ok type).2, validString_text subjectValid,
        validString_text contentValid, described⟩⟩
    · rw [hVersion, version]
      exact ⟨rfl, rfl⟩
    · rw [hSubject]
      cases event.subject with
      | none => exact .inl ⟨.inl rfl, rfl⟩
      | some value => exact .inr rfl
    · rw [hContent]
      dsimp only [nonEmpty]
      split
      · rename_i empty
        exact .inl ⟨rfl, by rw [empty]; rfl⟩
      · rename_i given
        exact .inr ⟨rfl, text_ne ⟨given, contentValid⟩⟩
    · rw [hTime]
      exact readTime

end Written

end WriteRelay.Go
