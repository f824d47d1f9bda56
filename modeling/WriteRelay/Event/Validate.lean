import WriteRelay.Base.Json
import WriteRelay.Failure
import WriteRelay.Rfc3339

/-! `event.Validate`: the daemon's check of a captured message. -/
namespace WriteRelay.Event
open Clock Fallible

structure Metadata where
  specVersion : String
  id : String
  source : String
  type : String
  subject : String
  time : Option Instant
  dataContentType : String
  deriving DecidableEq

abbrev Members := List (String × Json.Tree)

def maxNestingDepth : Nat := 10000

/-- One call of `decoder.Decode`: the next value and the bytes after it. -/
def decodeNext (text : Bytes) : Option (Json.Tree × Bytes) :=
  (Json.readValue (2 * text.length + 2) text).filter (fun p => p.1.depth ≤ maxNestingDepth)

def ensureEOF (rest : Bytes) : Except Failure Unit :=
  if Json.skipSpace rest = [] then .ok ()
  else match decodeNext rest with
    | some _ => .error (errorf (some .malformed) "%w: %v" ["multiple JSON values are not allowed"])
    | none => .error (errorf (some .malformed) "%w: %v" ["invalid trailing content: %v"])

/-- Decoding into a map fails for any other value, but `null` leaves the map nil. -/
def decodeObject (payload : Bytes) : Except Failure Members :=
  match decodeNext payload with
  | some (.object members, rest) => (ensureEOF rest).map fun _ => members
  | some (.null, _) => .error (errorf (some .malformed) "%w: root value must be an object" [])
  | _ => .error (errorf (some .malformed) "%w: invalid JSON: %v" [])

/-- `json.Unmarshal` into a string leaves it empty for `null`. -/
def decodeString (raw : Json.Tree) (name : String) : Except Failure String :=
  match raw with
  | .string value => .ok value
  | .null => .ok ""
  | _ => .error (errorf (some .malformed) "%w: %s must be a string" [name])

def requiredString (object : Members) (name : String) : Except Failure String :=
  match Json.lookup name object with
  | none => .error (errorf (some .malformed) "%w: %s is required" [name])
  | some raw => do
    let value ← decodeString raw name
    refuse (value = "") (errorf (some .malformed) "%w: %s must be a non-empty string" [name])
    return value

def optionalString (object : Members) (name : String) (allowEmpty : Bool) : Except Failure String :=
  match Json.lookup name object with
  | none => .ok ""
  | some raw => do
    let value ← decodeString raw name
    refuse (allowEmpty = false ∧ value = "")
      (errorf (some .malformed) "%w: %s must be a non-empty string" [name])
    return value

def optionalTime (object : Members) : Except Failure (Option Instant) :=
  match Json.lookup "time" object with
  | none => .ok none
  | some raw =>
    match decodeString raw "time" with
    | .error _ => .error (errorf (some .malformed) "%w: time must be an RFC 3339 string" [])
    | .ok value =>
      if value = "" then .error (errorf (some .malformed) "%w: time must be an RFC 3339 string" [])
      else match parseRFC3339 value with
        | none => .error (errorf (some .malformed) "%w: time must be RFC 3339: %v" [])
        | some parsed => .ok (some parsed)

def validateObject (object : Members) : Except Failure Metadata := do
  let specVersion ← requiredString object "specversion"
  refuse (specVersion ≠ "1.0") (errorf (some .malformed) "%w: specversion must be %q" ["1.0"])
  let id ← requiredString object "id"
  let source ← requiredString object "source"
  let type ← requiredString object "type"
  let subject ← optionalString object "subject" true
  let dataContentType ← optionalString object "datacontenttype" false
  let time ← optionalTime object
  return ⟨specVersion, id, source, type, subject, time, dataContentType⟩

def validate (payload : Bytes) (maxBytes : Int) : Except Failure Metadata := do
  refuse (maxBytes < 1)
    (errorf (some .oversized) "%w: invalid maximum size %d" [toString maxBytes])
  refuse (maxBytes < payload.length)
    (errorf (some .oversized) "%w: received %d bytes, limit is %d"
      [toString payload.length, toString maxBytes])
  let object ← decodeObject payload
  validateObject object

end WriteRelay.Event
