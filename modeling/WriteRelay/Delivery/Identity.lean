import WriteRelay.Base.Cuts
import WriteRelay.Base.JsonWrite
import WriteRelay.Delivery.Webhook
import WriteRelay.Event.Envelope

/-! Which deliveries `deliveryKey` tells apart. The separator of the key text is a NUL, and
a JSON escape can put NULs into the source and the id of an accepted event. -/
namespace WriteRelay.Webhook
open Cuts Spool

/-- A delivery of an event that validation accepts, to a sink that configuration accepts. -/
structure Built (item : Delivery) : Prop where
  sink : identifierPattern item.sinkName = true
  event : ∃ maxBytes m, Event.validate item.payload maxBytes = .ok m ∧ item.source = m.source ∧
    item.id = m.id ∧ item.type = m.type ∧ item.subject = m.subject

def keyBytes (item : Delivery) : Bytes := bytes (keyText item.sinkName item.source item.id)

def identity (item : Delivery) : String × String × String := (item.sinkName, item.source, item.id)

theorem Built.nonempty {item : Delivery} (built : Built item) : item.source ≠ "" ∧ item.id ≠ "" := by
  obtain ⟨maxBytes, m, accepted, source, id, _⟩ := built.event
  obtain ⟨_, _, accepted⟩ := Fallible.bind_ok_iff.mp accepted
  obtain ⟨_, _, accepted⟩ := Fallible.bind_ok_iff.mp accepted
  obtain ⟨members, _, accepted⟩ := Fallible.bind_ok_iff.mp accepted
  have envelope := Event.validateObject_ok_iff.mp accepted
  rw [source, id]
  exact ⟨envelope.source.2, envelope.id.2⟩

theorem keyText_split (sinkName source id : String) : (keyText sinkName source id).toList =
    sinkName.toList ++ nul :: (source.toList ++ nul :: id.toList) := by
  have separator : "\x00".toList = [nul] := by decide
  simp [keyText, String.toList_append, separator]

theorem keyBytes_eq_iff {item other : Delivery} (named : nul ∉ item.sinkName.toList)
    (named' : nul ∉ other.sinkName.toList) : keyBytes item = keyBytes other ↔
      item.sinkName = other.sinkName ∧
        item.source.toList ++ nul :: item.id.toList = other.source.toList ++ nul :: other.id.toList := by
  constructor
  · intro h
    have texts := congrArg String.toList (bytes_injective h)
    rw [keyText_split, keyText_split] at texts
    obtain ⟨sink, rest⟩ := cut_first named named' texts
    exact ⟨String.ext sink, rest⟩
  · rintro ⟨sink, rest⟩
    have texts : keyText item.sinkName item.source item.id =
        keyText other.sinkName other.source other.id := by
      apply String.ext
      rw [keyText_split, keyText_split, sink, rest]
    rw [keyBytes, keyBytes, texts]

def plainMembers (source id : String) : List (String × String) :=
  [("specversion", "1.0"), ("id", id), ("source", source), ("type", "t")]

def plainEvent (source id : String) : Bytes :=
  Json.writeObject (fun _ => false)
    ((plainMembers source id).map fun m => (m.1, Json.writeString (fun _ => false) m.2))

theorem plainEvent_writes (source id : String) : Json.Writes (plainEvent source id)
    (.object ((plainMembers source id).map fun m => (m.1, .string m.2))) := by
  apply Json.writes_object (by simp)
  rw [List.forall₂_map_left_iff, List.forall₂_map_right_iff, List.forall₂_same]
  intro m _
  exact ⟨rfl, Json.writes_string (by simp) m.2⟩

theorem plainEvent_valid {source id : String} (sourced : source ≠ "") (identified : id ≠ "") :
    ∃ maxBytes, Event.validate (plainEvent source id) maxBytes =
      .ok ⟨"1.0", id, source, "t", "", none, ""⟩ := by
  refine ⟨(plainEvent source id).length + 1, ?_⟩
  apply (Event.validate_ok_iff (plainEvent_writes source id).reads).mpr
  refine ⟨by omega, by omega, ?_, _, by rw [Json.Tree.denote], ?_⟩
  · simp [plainMembers, Json.Tree.depth, Json.depthMembers, Json.depthMember, Event.maxNestingDepth]
  · constructor <;> simp [plainMembers, Json.denoteMembers, Json.denoteMember, Json.Tree.denote,
      sourced, identified]

def plainDelivery (item : Delivery) (source id : List Char) : Delivery :=
  { item with
    source := .ofList source, id := .ofList id, type := "t", subject := ""
    payload := plainEvent (.ofList source) (.ofList id) }

theorem plainDelivery_built {item : Delivery} (built : Built item) {source id : List Char}
    (sourced : source ≠ []) (identified : id ≠ []) : Built (plainDelivery item source id) := by
  have nonempty : ∀ l : List Char, l ≠ [] → String.ofList l ≠ "" := by
    intro l some_ empty
    exact some_ (by simpa using congrArg String.toList empty)
  obtain ⟨maxBytes, accepted⟩ := plainEvent_valid (nonempty source sourced) (nonempty id identified)
  exact ⟨built.sink, maxBytes, _, accepted, rfl, rfl, rfl, rfl⟩

theorem plainDelivery_collides {item : Delivery} (built : Built item) (source id : List Char)
    (moved : source ≠ item.source.toList)
    (text : item.source.toList ++ nul :: item.id.toList = source ++ nul :: id) :
    identity item ≠ identity (plainDelivery item source id) ∧
      keyBytes item = keyBytes (plainDelivery item source id) := by
  have named := identifierPattern_nul built.sink
  have named' : nul ∉ (plainDelivery item source id).sinkName.toList := named
  constructor
  · intro same
    have sources := congrArg String.toList (congrArg (·.2.1) same)
    exact moved (by simpa [identity, plainDelivery] using sources.symm)
  · apply (keyBytes_eq_iff named named').mpr
    exact ⟨rfl, by simpa [plainDelivery] using text⟩

theorem deliveryKey_separates {item : Delivery} (built : Built item) :
    (∀ other, Built other → identity item ≠ identity other → keyBytes item ≠ keyBytes other) ↔
      nul ∉ item.source.toList.tail ∧ nul ∉ item.id.toList.dropLast := by
  constructor
  · intro separates
    constructor
    · intro inside
      obtain ⟨before, after, some_, cut⟩ := mem_tail_iff.mp inside
      have collides := plainDelivery_collides built before (after ++ nul :: item.id.toList)
        (by simp [cut]) (by simp [cut])
      exact separates _ (plainDelivery_built built some_ (by simp)) collides.1 collides.2
    · intro inside
      obtain ⟨before, after, some_, cut⟩ := mem_dropLast_iff.mp inside
      have collides := plainDelivery_collides built (item.source.toList ++ nul :: before) after
        (by simp) (by simp [cut])
      exact separates _ (plainDelivery_built built (by simp) some_) collides.1 collides.2
  · rintro ⟨sourced, identified⟩ other built' differ same
    obtain ⟨sink, text⟩ := (keyBytes_eq_iff (identifierPattern_nul built.sink)
      (identifierPattern_nul built'.sink)).mp same
    have nonempty : ∀ s : String, s ≠ "" → s.toList ≠ [] := fun s some_ empty =>
      some_ (String.ext empty)
    rcases cut_eq text with ⟨source, id⟩ | ⟨c, _, id⟩ | ⟨c, source, _⟩
    · exact differ (by rw [identity, identity, sink, String.ext source, String.ext id])
    · exact identified (mem_dropLast_iff.mpr ⟨c, _, nonempty _ built'.nonempty.2, id⟩)
    · exact sourced (mem_tail_iff.mpr ⟨_, c, nonempty _ built'.nonempty.1, source⟩)

def auditDelivery (source id : String) : Delivery :=
  ⟨1, 1, "audit", "webhook", source, id, "t", "", plainEvent source id, 0⟩

theorem auditDelivery_built {source id : String} (sourced : source ≠ "") (identified : id ≠ "") :
    Built (auditDelivery source id) := by
  obtain ⟨maxBytes, accepted⟩ := plainEvent_valid sourced identified
  exact ⟨show identifierPattern "audit" = true by decide, maxBytes, _, accepted, rfl, rfl, rfl, rfl⟩

theorem deliveryKey_separates_plain : Built (auditDelivery "/orders" "1") ∧
    ∀ other, Built other → identity (auditDelivery "/orders" "1") ≠ identity other →
      keyBytes (auditDelivery "/orders" "1") ≠ keyBytes other := by
  have built : Built (auditDelivery "/orders" "1") := auditDelivery_built (by decide) (by decide)
  exact ⟨built, (deliveryKey_separates built).mpr ⟨by decide, by decide⟩⟩

/-- The escaped texts `/a\u0000b` with `c`, and `/a` with `b\u0000c`. -/
theorem deliveryKey_confuses : ∃ item other : Delivery, Built item ∧ Built other ∧
    identity item ≠ identity other ∧ keyBytes item = keyBytes other ∧
      deliveryKey item = deliveryKey other :=
  ⟨auditDelivery "/a\x00b" "c", auditDelivery "/a" "b\x00c", auditDelivery_built (by decide) (by decide),
    auditDelivery_built (by decide) (by decide), by decide, by decide, by decide +kernel⟩

end WriteRelay.Webhook
