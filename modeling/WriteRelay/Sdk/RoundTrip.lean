import WriteRelay.Sdk.Go
import WriteRelay.Sdk.TypeScript

/-! What the producer SDKs write is what the daemon reads. -/
namespace WriteRelay.Sdk
open Clock

/-- Whatever text PostgreSQL keeps of the payload's value, the daemon accepts it. -/
def Arrives (payload : Bytes) (described : Event.Metadata → Prop) : Prop :=
  ∃ tree, Json.Reads payload tree ∧ ∀ (stored : Bytes) (t : Json.Tree) (maxBytes : Int),
    Json.Reads stored t → t.denote = tree.denote → t.depth ≤ Event.maxNestingDepth →
      stored.length ≤ maxBytes → ∃ m, Event.validate stored maxBytes = .ok m ∧ described m

theorem arrives_of_envelope {payload : Bytes} {members : List (String × Json.Tree)} {m : Event.Metadata}
    {described : Event.Metadata → Prop} (written : Json.Writes payload (.object members))
    (envelope : Event.Envelope (Json.denoteMembers members) m) (holds : described m) :
    Arrives payload described := by
  refine ⟨.object members, written.reads, fun stored t maxBytes reads same shallow fits => ?_⟩
  have positive := reads.length_pos
  refine ⟨m, (Event.validate_ok_iff reads).mpr ⟨by omega, fits, shallow, _, ?_, envelope⟩, holds⟩
  rw [same, Json.Tree.denote]

/-- An event that an SDK accepts arrives as it was given; one that it rejects sends nothing. -/
theorem sdk_round_trip :
    (∀ (event : Go.Event) (payload : Bytes), Go.encode event = .ok payload →
      Arrives payload (Go.Described event)) ∧
    ∀ (ref : Type) [DecidableEq ref] (heap : ref → TypeScript.JsObject ref) (depth : Nat)
      (client : TypeScript.Query → Except String Unit) (event : TypeScript.JsValue ref),
      (∃ e, TypeScript.emit heap depth client event = (.error e, [])) ∨
      ∃ r payload, event = .object r ∧
        (TypeScript.emit heap depth client event).2 =
          [⟨"SELECT writerelay.emit($1::jsonb)", [payload]⟩] ∧
        Arrives payload (TypeScript.Described (heap r)) := by
  constructor
  · intro event payload accepted
    obtain ⟨members, m, written, envelope, described⟩ := Go.encode_envelope accepted
    exact arrives_of_envelope written envelope described
  · intro ref _ heap depth client event
    unfold TypeScript.emit
    cases prepared : TypeScript.prepare heap depth event with
    | error e => exact .inl ⟨e, rfl⟩
    | ok payload =>
      obtain ⟨r, members, m, same, written, envelope, described⟩ := TypeScript.prepare_envelope prepared
      exact .inr ⟨r, payload, same, rfl, arrives_of_envelope written envelope described⟩

def sampleEvent : Go.Event where
  id := Go.utf8 "1"
  source := Go.utf8 "/orders"
  type := Go.utf8 "order.created"
  specVersion := []
  subject := none
  time := Go.utf8 "2026-07-27T20:24:00Z"
  dataContentType := []
  data := some (Go.utf8 "[1, \"<\"]")

def samplePayload : Bytes := Go.utf8 ("\x7b\"id\":\"1\",\"source\":\"/orders\",\"type\":\"order.created\"," ++
  "\"specversion\":\"1.0\",\"time\":\"2026-07-27T20:24:00Z\",\"datacontenttype\":\"application/json\"," ++
  "\"data\":[1,\"\\u003c\"]\x7d")

def sampleHeap : Bool → TypeScript.JsObject Bool
  | false => .plain [(TypeScript.units "id", .string (TypeScript.units "1")),
      (TypeScript.units "source", .string (TypeScript.units "/orders")),
      (TypeScript.units "type", .string (TypeScript.units "order.created")),
      (TypeScript.units "data", .object true)]
  | true => .array [.bool true, .null]

theorem sdk_round_trip_sample : Arrives samplePayload (Go.Described sampleEvent) ∧
    ∃ payload, (TypeScript.emit sampleHeap 2 (fun _ => .ok ()) (.object false)).2 =
      [⟨"SELECT writerelay.emit($1::jsonb)", [payload]⟩] ∧
        Arrives payload (TypeScript.Described (sampleHeap false)) := by
  have accepted : Go.encode sampleEvent = .ok samplePayload := by decide +kernel
  refine ⟨sdk_round_trip.1 sampleEvent samplePayload accepted, ?_⟩
  rcases sdk_round_trip.2 Bool sampleHeap 2 (fun _ => .ok ()) (.object false) with
    ⟨e, rejected⟩ | ⟨r, payload, same, query, arrives⟩
  · have sent : (TypeScript.emit sampleHeap 2 (fun _ => .ok ()) (.object false)).1.toBool = true := by
      decide +kernel
    rw [rejected] at sent
    exact absurd sent Bool.false_ne_true
  · cases same
    exact ⟨payload, query, arrives⟩

end WriteRelay.Sdk
