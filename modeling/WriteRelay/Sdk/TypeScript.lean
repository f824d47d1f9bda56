import WriteRelay.Base.JsonWrite
import WriteRelay.Base.Rows
import WriteRelay.Base.Utf16
import WriteRelay.Event.Envelope

/-! The TypeScript producer SDK: `emit`, `isTimestamp` and `jsonValue` over a heap. -/
namespace WriteRelay.TypeScript
open Clock Fallible

abbrev JsString := List UInt16

def units (s : String) : JsString := Utf16.encode s.toList

/-- A finite number by its decimal digits; `none` is zero of either sign. -/
inductive JsNumber
  | finite (x : Option Json.Decimal)
  | infinite
  | nan

/-- A value with references to objects. `other` is a function, symbol or bigint. -/
inductive JsValue (ref : Type)
  | undefined
  | null
  | bool (b : Bool)
  | number (n : JsNumber)
  | string (s : JsString)
  | object (r : ref)
  | other

/-- An array reads its holes as undefined. An instance has a prototype of its own, from which
properties are inherited. -/
inductive JsObject (ref : Type)
  | array (items : List (JsValue ref))
  | plain (entries : List (JsString × JsValue ref))
  | instance_ (entries inherited : List (JsString × JsValue ref))

inductive JsError
  | typeError (message : String)
  | stackOverflow
  | database (text : String)
  deriving DecidableEq

inductive JsonValue
  | null
  | bool (b : Bool)
  | number (x : Option Json.Decimal)
  | string (s : JsString)
  | array (items : List JsonValue)
  | object (entries : List (JsString × JsonValue))

variable {ref : Type}

section JsonValue

/-- The test for NUL and unpaired surrogates, by code points as the flag `u` has it. -/
def invalidString (s : JsString) : Bool :=
  (Utf16.codePoints s).any fun point => point = 0 || Utf16.surrogate point

abbrev Run (ref α : Type) := Except JsError α × List ref

def checkString (ancestors : List ref) (s : JsString) : Run ref Unit :=
  (failIf (invalidString s = true)
    (.typeError "WriteRelay strings must be valid Unicode without NUL"), ancestors)

def jsonItems (value : List ref → JsValue ref → Run ref JsonValue) (ancestors : List ref) :
    List (JsValue ref) → Run ref (List JsonValue)
  | [] => (.ok [], ancestors)
  | item :: items =>
    match value ancestors item with
    | (.error e, ancestors) => (.error e, ancestors)
    | (.ok x, ancestors) =>
      let rest := jsonItems value ancestors items
      (rest.1.map (x :: ·), rest.2)

def jsonEntries (value : List ref → JsValue ref → Run ref JsonValue) (ancestors : List ref) :
    List (JsString × JsValue ref) → Run ref (List (JsString × JsonValue))
  | [] => (.ok [], ancestors)
  | (key, item) :: entries =>
    match checkString ancestors key with
    | (.error e, ancestors) => (.error e, ancestors)
    | (.ok _, ancestors) =>
      match value ancestors item with
      | (.error e, ancestors) => (.error e, ancestors)
      | (.ok x, ancestors) =>
        let rest := jsonEntries value ancestors entries
        (rest.1.map ((key, x) :: ·), rest.2)

/-- The first argument bounds the depth of the call stack. -/
def jsonValue [DecidableEq ref] (heap : ref → JsObject ref) : Nat → List ref → JsValue ref → Run ref JsonValue
  | _, ancestors, .null => (.ok .null, ancestors)
  | _, ancestors, .bool b => (.ok (.bool b), ancestors)
  | _, ancestors, .string s => ((checkString ancestors s).1.map fun _ => .string s, ancestors)
  | _, ancestors, .number (.finite x) => (.ok (.number x), ancestors)
  | _, ancestors, .undefined | _, ancestors, .other | _, ancestors, .number .infinite
  | _, ancestors, .number .nan =>
    (.error (.typeError "WriteRelay data must contain only JSON values"), ancestors)
  | 0, ancestors, .object _ => (.error .stackOverflow, ancestors)
  | depth + 1, ancestors, .object r =>
    if r ∈ ancestors then (.error (.typeError "WriteRelay data must not contain cycles"), ancestors)
    else match heap r with
      | .instance_ _ _ => (.error (.typeError
          "WriteRelay data must use plain objects and arrays; serialize classes explicitly"), ancestors)
      | .array items =>
        let run := jsonItems (jsonValue heap depth) (r :: ancestors) items
        (run.1.map .array, run.2.erase r)
      | .plain entries =>
        let run := jsonEntries (jsonValue heap depth) (r :: ancestors) entries
        (run.1.map .object, run.2.erase r)

end JsonValue

section Stringify

def text (s : JsString) : String := String.ofList ((Utf16.codePoints s).map Char.ofNat)

def quote (s : JsString) : Bytes := Json.writeString (fun _ => false) (text s)

def numberText : Option Json.Decimal → Bytes
  | none => [0x30]
  | some x => x.write

mutual
def stringify : JsonValue → Bytes
  | .null => [0x6E, 0x75, 0x6C, 0x6C]
  | .bool true => [0x74, 0x72, 0x75, 0x65]
  | .bool false => [0x66, 0x61, 0x6C, 0x73, 0x65]
  | .number x => numberText x
  | .string s => quote s
  | .array items => Json.writeArray (stringifyItems items)
  | .object entries => Json.writeObject (fun _ => false) (stringifyEntries entries)

def stringifyItems : List JsonValue → List Bytes
  | [] => []
  | item :: items => stringify item :: stringifyItems items

def stringifyEntries : List (JsString × JsonValue) → List (String × Bytes)
  | [] => []
  | entry :: entries => stringifyEntry entry :: stringifyEntries entries

def stringifyEntry : JsString × JsonValue → String × Bytes
  | (key, value) => (text key, stringify value)
end

end Stringify

section Emit

/-- The `u`-less pattern sees code units; only texts without surrogates match it. -/
def stampOf (s : JsString) : Option Stamp := readStamp false (text s).toList

def daysOf (year : Nat) : List Nat :=
  let leap := year % 4 = 0 ∧ (year % 100 ≠ 0 ∨ year % 400 = 0)
  [31, if leap then 29 else 28, 31, 30, 31, 30, 31, 31, 30, 31, 30, 31]

def isTimestamp : JsValue ref → Bool
  | .string s =>
    match stampOf s with
    | none => false
    | some stamp =>
      stamp.month ≥ 1 ∧ stamp.month ≤ 12 ∧ stamp.day ≥ 1 ∧
        stamp.day ≤ (daysOf stamp.year).getD (stamp.month - 1) 0 ∧
        stamp.hour < 24 ∧ stamp.minute < 60 ∧ stamp.second < 60 ∧
        stamp.offsetHour < 24 ∧ stamp.offsetMinute < 60
  | _ => false

def isUndefined : JsValue ref → Bool
  | .undefined => true
  | _ => false

def isNonEmpty : JsValue ref → Bool
  | .string s => s ≠ []
  | _ => false

def isString : JsValue ref → Bool
  | .string _ => true
  | _ => false

def isVersion : JsValue ref → Bool
  | .string s => s = units "1.0"
  | _ => false

def lookup (name : JsString) (entries : List (JsString × JsValue ref)) : Option (JsValue ref) :=
  (entries.find? (fun entry => entry.1 = name)).map Prod.snd

def ownEntries : JsObject ref → List (JsString × JsValue ref)
  | .array _ => []
  | .plain entries => entries
  | .instance_ entries _ => entries

/-- `event[name]`, own or inherited. -/
def property (object : JsObject ref) (name : String) : JsValue ref :=
  match object with
  | .array _ => .undefined
  | .plain entries => (lookup (units name) entries).getD .undefined
  | .instance_ entries inherited =>
    ((lookup (units name) entries).or (lookup (units name) inherited)).getD .undefined

def allowed : List String :=
  ["specversion", "id", "source", "type", "subject", "time", "datacontenttype", "data"]

def requireText (object : JsObject ref) (name : String) : Except JsError Unit :=
  failIf (isNonEmpty (property object name) = false)
    (.typeError ("WriteRelay " ++ name ++ " must be a non-empty string"))

def check (object : JsObject ref) : Except JsError Unit := do
  failIf (∃ entry ∈ ownEntries object, entry.1 ∉ allowed.map units)
    (.typeError "Unsupported WriteRelay event attribute")
  requireText object "id"
  requireText object "source"
  requireText object "type"
  failIf (isUndefined (property object "specversion") = false ∧
    isVersion (property object "specversion") = false)
    (.typeError "WriteRelay specversion must be 1.0")
  failIf (isUndefined (property object "subject") = false ∧
    isString (property object "subject") = false)
    (.typeError "WriteRelay subject must be a string")
  failIf (isUndefined (property object "datacontenttype") = false ∧
    isNonEmpty (property object "datacontenttype") = false)
    (.typeError "WriteRelay datacontenttype must be a non-empty string")
  failIf (isUndefined (property object "time") = false ∧
    isTimestamp (property object "time") = false)
    (.typeError "WriteRelay time must be an RFC 3339 timestamp")

def given (value : JsValue ref) : Option (JsValue ref) :=
  if isUndefined value then none else some value

def contentType (object : JsObject ref) : Option (JsValue ref) :=
  if isUndefined (property object "datacontenttype") then
    if isUndefined (property object "data") then none else some (.string (units "application/json"))
  else some (property object "datacontenttype")

def envelope (object : JsObject ref) : List (String × JsValue ref) :=
  [("specversion", .string (units "1.0")), ("id", property object "id"),
    ("source", property object "source"), ("type", property object "type")] ++
    Json.optional "subject" (given (property object "subject")) ++
    Json.optional "time" (given (property object "time")) ++
    Json.optional "data" (given (property object "data")) ++
    Json.optional "datacontenttype" (contentType object)

structure Query where
  text : String
  values : List Bytes

/-- The payload, or the error that is thrown instead. The envelope is a fresh object that no
value refers to, so it never stands among the ancestors of what it holds. -/
def prepare [DecidableEq ref] (heap : ref → JsObject ref) (depth : Nat) (event : JsValue ref) : Except JsError Bytes :=
  match event with
  | .object r =>
    match heap r with
    | .array _ => .error (.typeError "WriteRelay event must be an object")
    | object => do
      check object
      let entries ← (jsonEntries (jsonValue heap depth) []
        ((envelope object).map fun entry => (units entry.1, entry.2))).1
      return stringify (.object entries)
  | _ => .error (.typeError "WriteRelay event must be an object")

/-- The client answers a query or fails. The queries that it was given are returned as well. -/
def emit [DecidableEq ref] (heap : ref → JsObject ref) (depth : Nat) (client : Query → Except String Unit)
    (event : JsValue ref) : Except JsError Unit × List Query :=
  match prepare heap depth event with
  | .error e => (.error e, [])
  | .ok payload =>
    let query := ⟨"SELECT writerelay.emit($1::jsonb)", [payload]⟩
    ((client query).mapError .database, [query])

end Emit

section Written

theorem text_units (name : String) : text (units name) = name := by
  rw [text, units, Utf16.codePoints_encode, List.map_map]
  have same : (Char.ofNat ∘ fun c : Char => c.val.toNat) = id := funext Char.ofNat_toNat
  rw [same, List.map_id, String.ofList_toList]

theorem units_text {s : JsString} (valid : invalidString s = false) : units (text s) = s := by
  rw [units, text, String.toList_ofList]
  apply Utf16.encode_codePoints
  intro point found
  have := List.any_eq_false.mp valid point found
  simp only [Bool.or_eq_true, not_or, Bool.not_eq_true] at this
  exact this.2

theorem unescaped_basic (c : Char) (h : (fun _ => false : Char → Bool) c = true) :
    c.val.toNat < 0x10000 := by
  contradiction

theorem writes_quote (s : JsString) : Json.Writes (quote s) (.string (text s)) :=
  Json.writes_string unescaped_basic (text s)

theorem writes_numberText (x : Option Json.Decimal) : ∃ n, Json.Writes (numberText x) (.number n) := by
  cases x with
  | none => exact Json.writes_number (.inl rfl) (.inl rfl) (.inl rfl) false
  | some x => exact Json.writes_decimal x

mutual
theorem writes_stringify : ∀ v : JsonValue, ∃ t, Json.Writes (stringify v) t
  | .null => ⟨.null, fun _ _ => ⟨1, by rw [Json.readValue]; rfl⟩⟩
  | .bool true => ⟨.bool true, fun _ _ => ⟨1, by rw [Json.readValue]; rfl⟩⟩
  | .bool false => ⟨.bool false, fun _ _ => ⟨1, by rw [Json.readValue]; rfl⟩⟩
  | .number x => by
    obtain ⟨n, written⟩ := writes_numberText x
    exact ⟨.number n, by rw [stringify]; exact written⟩
  | .string s => ⟨.string (text s), by rw [stringify]; exact writes_quote s⟩
  | .array items => by
    obtain ⟨ts, written⟩ := writes_stringifyItems items
    exact ⟨.array ts, by rw [stringify]; exact Json.writes_array written⟩
  | .object entries => by
    obtain ⟨ts, written⟩ := writes_stringifyEntries entries
    exact ⟨.object ts, by rw [stringify]; exact Json.writes_object unescaped_basic written⟩

theorem writes_stringifyItems : ∀ items : List JsonValue,
    ∃ ts, List.Forall₂ Json.Writes (stringifyItems items) ts
  | [] => ⟨[], by rw [stringifyItems]; exact .nil⟩
  | item :: items => by
    obtain ⟨t, first⟩ := writes_stringify item
    obtain ⟨ts, rest⟩ := writes_stringifyItems items
    exact ⟨t :: ts, by rw [stringifyItems]; exact .cons first rest⟩

theorem writes_stringifyEntries : ∀ entries : List (JsString × JsonValue),
    ∃ ts : List (String × Json.Tree),
    List.Forall₂ (fun m t => m.1 = t.1 ∧ Json.Writes m.2 t.2) (stringifyEntries entries) ts
  | [] => ⟨[], by rw [stringifyEntries]; exact .nil⟩
  | entry :: entries => by
    obtain ⟨t, first⟩ := writes_stringifyEntry entry
    obtain ⟨ts, rest⟩ := writes_stringifyEntries entries
    exact ⟨t :: ts, by rw [stringifyEntries]; exact .cons first rest⟩

theorem writes_stringifyEntry : ∀ entry : JsString × JsonValue, ∃ t : String × Json.Tree,
    (stringifyEntry entry).1 = t.1 ∧ Json.Writes (stringifyEntry entry).2 t.2
  | (key, value) => by
    obtain ⟨t, written⟩ := writes_stringify value
    exact ⟨(text key, t), by rw [stringifyEntry]; exact ⟨rfl, written⟩⟩
end

theorem jsonEntries_ok {value : List ref → JsValue ref → Run ref JsonValue} {ancestors : List ref}
    {entries : List (JsString × JsValue ref)} {out : List (JsString × JsonValue)}
    (h : (jsonEntries value ancestors entries).1 = .ok out) :
    List.Forall₂ (fun e o => e.1 = o.1 ∧ ∃ a, (value a e.2).1 = .ok o.2) entries out := by
  induction entries generalizing ancestors out with
  | nil =>
    cases Except.ok.inj h
    exact .nil
  | cons entry entries ih =>
    obtain ⟨key, item⟩ := entry
    rw [jsonEntries] at h
    split at h
    · contradiction
    · split at h
      · contradiction
      · rename_i x after run
        dsimp only at h
        cases rest : (jsonEntries value after entries).1 with
        | error e =>
          rw [rest] at h
          contradiction
        | ok more =>
          rw [rest] at h
          cases Except.ok.inj h
          exact .cons ⟨rfl, _, by rw [run]⟩ (ih rest)

theorem jsonValue_string [DecidableEq ref] {heap : ref → JsObject ref} {depth : Nat} {ancestors : List ref} {s : JsString}
    {x : JsonValue} (h : (jsonValue heap depth ancestors (.string s)).1 = .ok x) :
    x = .string s ∧ invalidString s = false := by
  have run : (jsonValue heap depth ancestors (.string s)).1 =
      (checkString ancestors s).1.map fun _ => .string s := by
    cases depth <;> rfl
  rw [run, checkString] at h
  cases checked : failIf (invalidString s = true)
      (JsError.typeError "WriteRelay strings must be valid Unicode without NUL") with
  | error e =>
    rw [checked] at h
    contradiction
  | ok u =>
    rw [checked] at h
    exact ⟨(Except.ok.inj h).symm, by simpa using failIf_ok_iff.mp checked⟩

def Kept (entry : String × JsValue ref) (member : String × Json.Tree) : Prop :=
  entry.1 = member.1 ∧
    ∀ s, entry.2 = .string s → member.2 = .string (text s) ∧ units (text s) = s

theorem entries_written [DecidableEq ref] {heap : ref → JsObject ref} {depth : Nat}
    {entries : List (String × JsValue ref)} {out : List (JsString × JsonValue)}
    (h : List.Forall₂ (fun e o => e.1 = o.1 ∧ ∃ a, (jsonValue heap depth a e.2).1 = .ok o.2)
      (entries.map fun entry => (units entry.1, entry.2)) out) :
    ∃ members, List.Forall₂ (fun m t => m.1 = t.1 ∧ Json.Writes m.2 t.2) (stringifyEntries out) members ∧
      List.Forall₂ Kept entries members := by
  induction entries generalizing out with
  | nil =>
    cases h
    exact ⟨[], by rw [stringifyEntries]; exact .nil, .nil⟩
  | cons entry entries ih =>
    obtain ⟨name, value⟩ := entry
    cases h with
    | @cons _ o _ out first rest =>
      obtain ⟨_, x⟩ := o
      obtain ⟨rfl, a, run⟩ := first
      obtain ⟨members, written, kept⟩ := ih rest
      obtain ⟨t, first, same⟩ : ∃ t, Json.Writes (stringify x) t ∧
          ∀ s, value = .string s → t = .string (text s) ∧ units (text s) = s := by
        cases value with
        | string s =>
          obtain ⟨rfl, valid⟩ := jsonValue_string run
          refine ⟨.string (text s), by rw [stringify]; exact writes_quote s, ?_⟩
          rintro _ ⟨⟩
          exact ⟨rfl, units_text valid⟩
        | undefined | null | bool | number | object | other =>
          obtain ⟨t, written⟩ := writes_stringify x
          exact ⟨t, written, nofun⟩
      refine ⟨(name, t) :: members, ?_, .cons ⟨rfl, same⟩ kept⟩
      rw [stringifyEntries, stringifyEntry]
      exact .cons ⟨text_units name, first⟩ written

theorem kept_optional {name : String} {value : Option (JsValue ref)} {members : List (String × Json.Tree)}
    (h : List.Forall₂ Kept (Json.optional name value) members) : ∃ tree, members = Json.optional name tree ∧
      Option.Rel (fun v t => Kept (name, v) (name, t)) value tree := by
  cases value with
  | none =>
    cases h
    exact ⟨none, rfl, .none⟩
  | some value =>
    cases h with
    | @cons _ member _ _ first rest =>
      cases rest
      obtain ⟨_, t⟩ := member
      cases first.1
      exact ⟨some t, rfl, .some first⟩

theorem daysOf_eq {year month : Nat} (first : 1 ≤ month) (last : month ≤ 12) :
    (daysOf year).getD (month - 1) 0 = Calendar.daysIn year month := by
  have leap : (year % 4 = 0 ∧ (year % 100 ≠ 0 ∨ year % 400 = 0)) ↔ Calendar.leap year = true := by
    simp only [Calendar.leap, decide_eq_true_eq]
    omega
  unfold daysOf
  simp only [leap]
  interval_cases month <;> rfl

theorem isTimestamp_parses {s : JsString} (h : isTimestamp (.string s : JsValue ref) = true) :
    ∃ stamp, stampOf s = some stamp ∧ parseRFC3339 (text s) = some stamp.instant := by
  unfold isTimestamp at h
  dsimp only at h
  split at h
  · contradiction
  · rename_i stamp matched
    obtain ⟨first, last, day, days, hour, minute, second, offsetHour, offsetMinute⟩ := of_decide_eq_true h
    have civil : stamp.civil = true := by
      rw [daysOf_eq first last] at days
      exact decide_eq_true ⟨first, last, day, days, hour, minute, second⟩
    exact ⟨stamp, matched, parseRFC3339_strict matched civil offsetHour offsetMinute⟩

structure Described (object : JsObject ref) (m : Event.Metadata) : Prop where
  specVersion : m.specVersion = "1.0"
  id : property object "id" = .string (units m.id)
  source : property object "source" = .string (units m.source)
  type : property object "type" = .string (units m.type)
  subject : property object "subject" = .undefined ∧ m.subject = "" ∨
    property object "subject" = .string (units m.subject)
  dataContentType : contentType object = none ∧ m.dataContentType = "" ∨
    contentType object = some (.string (units m.dataContentType))
  time : property object "time" = .undefined ∧ m.time = none ∨ ∃ s stamp,
    property object "time" = .string s ∧ stampOf s = some stamp ∧ m.time = some stamp.instant

theorem requireText_ok {object : JsObject ref} {name : String} {u : Unit}
    (h : requireText object name = .ok u) : ∃ s, property object name = .string s ∧ s ≠ [] := by
  have nonEmpty := failIf_ok_iff.mp h
  cases found : property object name with
  | string s =>
    rw [found] at nonEmpty
    exact ⟨s, rfl, by simpa [isNonEmpty] using nonEmpty⟩
  | undefined | null | bool | number | object | other =>
    rw [found] at nonEmpty
    exact absurd rfl nonEmpty

theorem isUndefined_eq {value : JsValue ref} (h : isUndefined value = true) : value = .undefined := by
  cases value <;> first | rfl | contradiction

theorem text_ne {s : JsString} (kept : units (text s) = s) (nonEmpty : s ≠ []) : text s ≠ "" := by
  intro empty
  rw [empty] at kept
  exact nonEmpty kept.symm

def envelopeTrees (id source type : String) (subject time data content : Option Json.Tree) :
    List (String × Json.Tree) :=
  [("specversion", .string "1.0"), ("id", .string id), ("source", .string source),
    ("type", .string type)] ++ Json.optional "subject" subject ++ Json.optional "time" time ++
    Json.optional "data" data ++ Json.optional "datacontenttype" content

theorem envelopeTrees_lookup (id source type : String) (subject time data content : Option Json.Tree) :
    (Json.denoteMembers (envelopeTrees id source type subject time data content) "specversion" =
        some (.string "1.0") ∧
      Json.denoteMembers (envelopeTrees id source type subject time data content) "id" =
        some (.string id) ∧
      Json.denoteMembers (envelopeTrees id source type subject time data content) "source" =
        some (.string source) ∧
      Json.denoteMembers (envelopeTrees id source type subject time data content) "type" =
        some (.string type)) ∧
    Json.denoteMembers (envelopeTrees id source type subject time data content) "subject" =
      subject.map Json.Tree.denote ∧
    Json.denoteMembers (envelopeTrees id source type subject time data content) "time" =
      time.map Json.Tree.denote ∧
    Json.denoteMembers (envelopeTrees id source type subject time data content) "datacontenttype" =
      content.map Json.Tree.denote := by
  simp [envelopeTrees, Json.denoteMembers_append, Json.denoteMembers_optional, Json.denoteMembers,
    Json.denoteMember, Json.Tree.denote]

theorem kept_string {name : String} {s : JsString} {member : String × Json.Tree}
    (h : Kept (name, (.string s : JsValue ref)) member) :
    member = (name, .string (text s)) ∧ units (text s) = s := by
  obtain ⟨_, t⟩ := member
  obtain ⟨rfl, same⟩ := h
  obtain ⟨rfl, back⟩ := same s rfl
  exact ⟨rfl, back⟩

theorem kept_required {id source type : JsString} {members : List (String × Json.Tree)}
    (h : List.Forall₂ Kept [("specversion", (.string (units "1.0") : JsValue ref)), ("id", .string id),
      ("source", .string source), ("type", .string type)] members) :
    members = [("specversion", .string "1.0"), ("id", .string (text id)), ("source", .string (text source)),
      ("type", .string (text type))] ∧
      units (text id) = id ∧ units (text source) = source ∧ units (text type) = type := by
  cases h with
  | cons version h =>
  cases h with
  | cons hId h =>
  cases h with
  | cons hSource h =>
  cases h with
  | cons hType h =>
  cases h
  obtain ⟨rfl, _⟩ := kept_string version
  obtain ⟨rfl, keptId⟩ := kept_string hId
  obtain ⟨rfl, keptSource⟩ := kept_string hSource
  obtain ⟨rfl, keptType⟩ := kept_string hType
  rw [text_units]
  exact ⟨rfl, keptId, keptSource, keptType⟩

theorem given_string {name : String} {value : Option (JsValue ref)} {tree : Option Json.Tree}
    (h : Option.Rel (fun v t => Kept (name, v) (name, t)) value tree)
    (string : ∀ v ∈ value, ∃ s, v = .string s) :
    value = none ∧ tree = none ∨
      ∃ s, value = some (.string s) ∧ units (text s) = s ∧ tree = some (.string (text s)) := by
  cases h with
  | none => exact .inl ⟨rfl, rfl⟩
  | some kept =>
    obtain ⟨s, rfl⟩ := string _ rfl
    obtain ⟨same, back⟩ := kept_string kept
    exact .inr ⟨s, rfl, back, by rw [(Prod.mk.inj same).2]⟩

theorem given_of_check {value : JsValue ref} {test : JsValue ref → Bool} {e : JsError} {u : Unit}
    (h : failIf (isUndefined value = false ∧ test value = false) e = .ok u) :
    ∀ v ∈ given value, test v = true := by
  intro v found
  have both := failIf_ok_iff.mp h
  unfold given at found
  split at found
  · contradiction
  · rename_i other
    cases Option.some.inj found
    by_contra untrue
    exact both ⟨by simpa using other, by simpa using untrue⟩

theorem given_none {value : JsValue ref} (h : given value = none) : value = .undefined := by
  unfold given at h
  split at h
  · rename_i undefined_
    exact isUndefined_eq undefined_
  · contradiction

theorem given_some {value v : JsValue ref} (h : given value = some v) : value = v := by
  unfold given at h
  split at h
  · contradiction
  · exact Option.some.inj h

theorem contentType_nonEmpty {object : JsObject ref}
    (h : ∀ v ∈ given (property object "datacontenttype"), isNonEmpty v = true) :
    ∀ v ∈ contentType object, isNonEmpty v = true := by
  intro v found
  unfold contentType at found
  split at found
  · split at found
    · contradiction
    · cases Option.some.inj found
      rfl
  · rename_i other
    exact h v (by rw [given, if_neg other]; exact found)

theorem envelope_kept {object : JsObject ref} {members : List (String × Json.Tree)}
    (kept : List.Forall₂ Kept (envelope object) members) (checked : check object = .ok ()) :
    ∃ m, Event.Envelope (Json.denoteMembers members) m ∧ Described object m := by
  obtain ⟨_, _, rfl, rest, keptContent⟩ := Rows.forall₂_append_left kept
  obtain ⟨_, _, rfl, rest, keptData⟩ := Rows.forall₂_append_left rest
  obtain ⟨_, _, rfl, rest, keptTime⟩ := Rows.forall₂_append_left rest
  obtain ⟨_, _, rfl, required, keptSubject⟩ := Rows.forall₂_append_left rest
  obtain ⟨content, rfl, relContent⟩ := kept_optional keptContent
  obtain ⟨data, rfl, _⟩ := kept_optional keptData
  obtain ⟨time, rfl, relTime⟩ := kept_optional keptTime
  obtain ⟨subject, rfl, relSubject⟩ := kept_optional keptSubject
  obtain ⟨_, _, h⟩ := bind_ok_iff.mp checked
  obtain ⟨_, okId, h⟩ := bind_ok_iff.mp h
  obtain ⟨_, okSource, h⟩ := bind_ok_iff.mp h
  obtain ⟨_, okType, h⟩ := bind_ok_iff.mp h
  obtain ⟨_, _, h⟩ := bind_ok_iff.mp h
  obtain ⟨_, okSubject, h⟩ := bind_ok_iff.mp h
  obtain ⟨_, okContent, okTime⟩ := bind_ok_iff.mp h
  obtain ⟨id, hId, someId⟩ := requireText_ok okId
  obtain ⟨source, hSource, someSource⟩ := requireText_ok okSource
  obtain ⟨type, hType, someType⟩ := requireText_ok okType
  rw [hId, hSource, hType] at required
  obtain ⟨rfl, keptId, keptSource, keptType⟩ := kept_required required
  obtain ⟨⟨lVersion, lId, lSource, lType⟩, lSubject, lTime, lContent⟩ :=
    envelopeTrees_lookup (text id) (text source) (text type) subject time data content
  have hSubject := given_string relSubject (fun v found => by
    have test := given_of_check okSubject v found
    cases v <;> first | exact ⟨_, rfl⟩ | contradiction)
  have hTime := given_string relTime (fun v found => by
    have test := given_of_check okTime v found
    cases v <;> first | exact ⟨_, rfl⟩ | contradiction)
  have nonEmpty := contentType_nonEmpty (given_of_check okContent)
  have hContent := given_string relContent (fun v found => by
    have test := nonEmpty v found
    cases v <;> first | exact ⟨_, rfl⟩ | contradiction)
  obtain ⟨subjectText, eSubject, dSubject⟩ : ∃ t : String,
      ((subject.map Json.Tree.denote = none ∨ subject.map Json.Tree.denote = some .null) ∧ t = "" ∨
        subject.map Json.Tree.denote = some (.string t)) ∧
      (property object "subject" = .undefined ∧ t = "" ∨ property object "subject" = .string (units t)) := by
    rcases hSubject with ⟨absent, rfl⟩ | ⟨s, present, back, rfl⟩
    · exact ⟨"", .inl ⟨.inl rfl, rfl⟩, .inl ⟨given_none absent, rfl⟩⟩
    · exact ⟨text s, .inr rfl, .inr (by rw [given_some present, back])⟩
  obtain ⟨contentText, eContent, dContent⟩ : ∃ t : String,
      (content.map Json.Tree.denote = none ∧ t = "" ∨
        content.map Json.Tree.denote = some (.string t) ∧ t ≠ "") ∧
      (contentType object = none ∧ t = "" ∨ contentType object = some (.string (units t))) := by
    rcases hContent with ⟨absent, rfl⟩ | ⟨s, present, back, rfl⟩
    · exact ⟨"", .inl ⟨rfl, rfl⟩, .inl ⟨absent, rfl⟩⟩
    · have some_ : s ≠ [] := of_decide_eq_true (nonEmpty _ present)
      exact ⟨text s, .inr ⟨rfl, text_ne back some_⟩, .inr (by rw [present, back])⟩
  obtain ⟨instant, eTime, dTime⟩ : ∃ instant : Option Instant,
      (time.map Json.Tree.denote = none ∧ instant = none ∨ ∃ value parsed,
        time.map Json.Tree.denote = some (.string value) ∧ parseRFC3339 value = some parsed ∧
          instant = some parsed) ∧
      (property object "time" = .undefined ∧ instant = none ∨ ∃ s stamp,
        property object "time" = .string s ∧ stampOf s = some stamp ∧ instant = some stamp.instant) := by
    rcases hTime with ⟨absent, rfl⟩ | ⟨s, present, _, rfl⟩
    · exact ⟨none, .inl ⟨rfl, rfl⟩, .inl ⟨given_none absent, rfl⟩⟩
    · obtain ⟨stamp, matched, parsed⟩ := isTimestamp_parses (given_of_check okTime _ present)
      exact ⟨some stamp.instant, .inr ⟨text s, _, rfl, parsed, rfl⟩,
        .inr ⟨s, stamp, given_some present, matched, rfl⟩⟩
  refine ⟨⟨"1.0", text id, text source, text type, subjectText, instant, contentText⟩,
    ⟨⟨rfl, lVersion⟩, ⟨lId, text_ne keptId someId⟩, ⟨lSource, text_ne keptSource someSource⟩,
      ⟨lType, text_ne keptType someType⟩, ?_, ?_, ?_⟩,
    ⟨rfl, by rw [hId, keptId], by rw [hSource, keptSource], by rw [hType, keptType], dSubject, dContent,
      dTime⟩⟩
  · exact lSubject ▸ eSubject
  · exact lContent ▸ eContent
  · exact lTime ▸ eTime

theorem prepare_envelope [DecidableEq ref] {heap : ref → JsObject ref} {depth : Nat} {event : JsValue ref} {payload : Bytes}
    (h : prepare heap depth event = .ok payload) : ∃ r members m, event = .object r ∧
      Json.Writes payload (.object members) ∧ Event.Envelope (Json.denoteMembers members) m ∧
      Described (heap r) m := by
  unfold prepare at h
  split at h
  · rename_i r
    split at h
    · contradiction
    · obtain ⟨_, checked, h⟩ := bind_ok_iff.mp h
      obtain ⟨out, run, h⟩ := bind_ok_iff.mp h
      cases Except.ok.inj h
      obtain ⟨members, written, kept⟩ := entries_written (jsonEntries_ok run)
      obtain ⟨m, envelope, described⟩ := envelope_kept kept checked
      refine ⟨r, members, m, rfl, ?_, envelope, described⟩
      rw [stringify]
      exact Json.writes_object unescaped_basic written
  · contradiction

end Written

end WriteRelay.TypeScript
