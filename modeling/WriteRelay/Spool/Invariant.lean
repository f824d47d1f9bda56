import WriteRelay.Spool.Schema

/-! What holds of the tables between any two transactions, and how the elementary
changes of the tables keep it. -/
namespace WriteRelay.Spool
open Clock Fallible

def EventRow.Intact (e : EventRow) : Prop :=
  if e.pruned then e.payload = [] else Sha256.sum e.payload = e.payloadSHA256

structure EventsSound (t : Tables) : Prop where
  ordered : (t.events.map (·.sequence)).Pairwise (· < ·)
  bounded : ∀ e ∈ t.events, e.sequence ≤ t.lastSequence
  identities : (t.events.map (·.identity)).Nodup
  intact : ∀ e ∈ t.events, e.Intact

structure SinksSound (t : Tables) : Prop where
  ids : (t.sinks.map (·.sinkID)).Nodup
  bounded : ∀ k ∈ t.sinks, k.sinkID ≤ t.lastSinkID
  names : (t.sinks.map (·.sinkName)).Nodup

def Tables.Active (t : Tables) (sinkID : Nat) : Prop := ∃ k ∈ t.sinks, k.sinkID = sinkID ∧ k.active

def DeliveryRow.Succeeded (d : DeliveryRow) : Prop := d.state = .delivered ∧ d.deliveredAt.isSome

/-- The tables fit together: foreign keys, no waiting delivery at an inactive sink,
and only finished deliveries under a pruned event. -/
structure Tables.Sound (t : Tables) : Prop where
  events : EventsSound t
  sinks : SinksSound t
  keys : (t.deliveries.map (·.key)).Nodup
  ofEvent : ∀ d ∈ t.deliveries, ∃ e ∈ t.events, e.sequence = d.eventSequence
  ofSink : ∀ d ∈ t.deliveries, ∃ k ∈ t.sinks, k.sinkID = d.sinkID
  served : ∀ d ∈ t.deliveries, d.state.waiting → t.Active d.sinkID
  finished : ∀ e ∈ t.events, e.pruned → t.deliveriesOf e.sequence ≠ [] ∧
    ∀ d ∈ t.deliveriesOf e.sequence, d.Succeeded

def Tables.Covered (t : Tables) : Prop :=
  ∀ sinkID, t.Active sinkID → ∀ e ∈ t.events, e.pruned = false →
    (e.sequence, sinkID) ∈ t.deliveries.map (·.key)

structure Tables.Valid (t : Tables) : Prop where
  sound : t.Sound
  covered : t.Covered

theorem valid_empty : Tables.empty.Valid := by
  constructor
  · constructor <;> simp [Tables.empty]
    · constructor <;> simp
    · constructor <;> simp
  · rintro sinkID ⟨k, hk, _⟩
    simp [Tables.empty] at hk

@[simp] theorem mem_deliveriesOf {t : Tables} {sequence : Nat} {d : DeliveryRow} :
    d ∈ t.deliveriesOf sequence ↔ d ∈ t.deliveries ∧ d.eventSequence = sequence := by
  simp [Tables.deliveriesOf]

theorem Tables.retained_iff {t : Tables} {sequence : Nat} :
    t.retained sequence = true ↔ ∃ e ∈ t.events, e.sequence = sequence ∧ e.pruned = false := by
  simp [Tables.retained]

theorem EventsSound.unique {t : Tables} (sound : EventsSound t) {a b : EventRow}
    (ha : a ∈ t.events) (hb : b ∈ t.events) (same : a.sequence = b.sequence) : a = b :=
  Rows.key_unique (sound.ordered.imp Nat.ne_of_lt) ha hb same

theorem SinksSound.unique {t : Tables} (sound : SinksSound t) {a b : SinkRow}
    (ha : a ∈ t.sinks) (hb : b ∈ t.sinks) (same : a.sinkID = b.sinkID) : a = b :=
  Rows.key_unique sound.ids ha hb same

theorem EventsSound.not_prunedAt {t : Tables} (sound : EventsSound t) {sequence : Nat}
    (retained : t.retained sequence = true) : t.prunedAt sequence = false := by
  obtain ⟨e, he, rfl, unpruned⟩ := Tables.retained_iff.mp retained
  simp only [Tables.prunedAt, List.any_eq_false, decide_eq_true_eq, not_and]
  intro b hb same
  rw [sound.unique hb he same, unpruned]
  exact Bool.false_ne_true

theorem Tables.Sound.not_prunedAt {t : Tables} (sound : t.Sound) {d : DeliveryRow}
    (hd : d ∈ t.deliveries) (open_ : ¬d.Succeeded) : t.prunedAt d.eventSequence = false := by
  simp only [Tables.prunedAt, List.any_eq_false, decide_eq_true_eq, not_and]
  intro e he same pruned
  exact open_ ((sound.finished e he pruned).2 d (mem_deliveriesOf.mpr ⟨hd, same.symm⟩))

/-- An event row only ever changes by being pruned. -/
def EventRow.Becomes (e e' : EventRow) : Prop :=
  e' = e ∨ e.pruned = false ∧ ∃ now, e' = e.prune now

theorem EventRow.Becomes.trans {a b c : EventRow} (first : a.Becomes b) (next : b.Becomes c) :
    a.Becomes c := by
  rcases first with rfl | ⟨retained, now, rfl⟩
  · exact next
  · rcases next with rfl | ⟨again, _⟩
    · exact .inr ⟨retained, now, rfl⟩
    · simp [EventRow.pruned, EventRow.prune] at again

theorem EventRow.Becomes.sequence {e e' : EventRow} (h : e.Becomes e') : e'.sequence = e.sequence := by
  rcases h with rfl | ⟨_, now, rfl⟩ <;> rfl

theorem EventRow.Becomes.retained {e e' : EventRow} (h : e.Becomes e') (retained : e'.pruned = false) :
    e' = e := by
  rcases h with rfl | ⟨_, now, rfl⟩
  · rfl
  · simp [EventRow.pruned, EventRow.prune] at retained

structure Tables.LogKept (t t' : Tables) : Prop where
  events : List.Forall₂ EventRow.Becomes t.events t'.events
  durableLSN : t'.durableLSN = t.durableLSN

theorem Tables.LogKept.of_eq {t t' : Tables} (events : t'.events = t.events)
    (durable : t'.durableLSN = t.durableLSN) : t.LogKept t' :=
  ⟨events ▸ List.forall₂_same.mpr (fun _ _ => .inl rfl), durable⟩

theorem Tables.LogKept.trans {a b c : Tables} (first : a.LogKept b) (next : b.LogKept c) :
    a.LogKept c :=
  ⟨Rows.forall₂_comp (fun _ _ _ => .trans) first.events next.events,
    next.durableLSN.trans first.durableLSN⟩

def SinkRow.Same (k k' : SinkRow) : Prop := k' = { k with active := k'.active }

/-- Nothing recorded is lost: rows stay, events at most lose their payload, and new
events get new sequences. -/
structure Tables.Extends (t t' : Tables) : Prop where
  events : ∀ e ∈ t.events, ∃ e' ∈ t'.events, e.Becomes e'
  newer : ∀ e' ∈ t'.events, (∃ e ∈ t.events, e.Becomes e') ∨ t.lastSequence < e'.sequence
  sequence : t.lastSequence ≤ t'.lastSequence
  sinks : ∀ k ∈ t.sinks, ∃ k' ∈ t'.sinks, k.Same k'
  deliveries : ∀ d ∈ t.deliveries, d.key ∈ t'.deliveries.map (·.key)

theorem Tables.Extends.refl (t : Tables) : t.Extends t where
  events e he := ⟨e, he, .inl rfl⟩
  newer e he := .inl ⟨e, he, .inl rfl⟩
  sequence := le_rfl
  sinks k hk := ⟨k, hk, rfl⟩
  deliveries _ hd := List.mem_map_of_mem hd

theorem Tables.Extends.trans {a b c : Tables} (first : a.Extends b) (next : b.Extends c) :
    a.Extends c where
  events e he := by
    obtain ⟨e', he', before⟩ := first.events e he
    obtain ⟨e'', he'', after⟩ := next.events e' he'
    exact ⟨e'', he'', before.trans after⟩
  newer e he := by
    rcases next.newer e he with ⟨e', he', after⟩ | later
    · rcases first.newer e' he' with ⟨e'', he'', before⟩ | later
      · exact .inl ⟨e'', he'', before.trans after⟩
      · exact .inr (after.sequence ▸ later)
    · exact .inr (first.sequence.trans_lt later)
  sequence := first.sequence.trans next.sequence
  sinks k hk := by
    obtain ⟨k', hk', same⟩ := first.sinks k hk
    obtain ⟨k'', hk'', same'⟩ := next.sinks k' hk'
    exact ⟨k'', hk'', by rw [SinkRow.Same] at same same' ⊢; rw [same', same]⟩
  deliveries d hd := by
    obtain ⟨d', hd', same⟩ := List.mem_map.mp (first.deliveries d hd)
    exact same ▸ next.deliveries d' hd'

/-- Capture, configuration and pruning leave the delivery rows alone and only add
pending ones, for events that are retained or new. -/
structure Tables.Grows (times : Instant → Prop) (t t' : Tables) : Prop extends Tables.Extends t t' where
  kept : ∀ d ∈ t.deliveries, d ∈ t'.deliveries
  added : ∀ d' ∈ t'.deliveries, d' ∈ t.deliveries ∨
    (∃ at_, times at_ ∧ d' = pendingDelivery d'.eventSequence d'.sinkID (formatTimestamp at_)) ∧
      (t.retained d'.eventSequence = true ∨ t.lastSequence < d'.eventSequence)

theorem Tables.Grows.refl {times : Instant → Prop} (t : Tables) : t.Grows times t :=
  ⟨.refl t, fun _ hd => hd, fun _ hd => .inl hd⟩

theorem Tables.Extends.retained {t t' : Tables} (h : t.Extends t') {sequence : Nat}
    (retained : t'.retained sequence = true) :
    t.retained sequence = true ∨ t.lastSequence < sequence := by
  obtain ⟨e', he', rfl, unpruned⟩ := Tables.retained_iff.mp retained
  rcases h.newer e' he' with ⟨e, he, became⟩ | later
  · cases became.retained unpruned
    exact .inl (Tables.retained_iff.mpr ⟨e', he, rfl, unpruned⟩)
  · exact .inr later

theorem Tables.Grows.trans {times : Instant → Prop} {a b c : Tables} (first : a.Grows times b)
    (next : b.Grows times c) : a.Grows times c where
  toExtends := first.toExtends.trans next.toExtends
  kept d hd := next.kept d (first.kept d hd)
  added d hd := by
    rcases next.added d hd with old | ⟨dated, retained | later⟩
    · exact first.added d old
    · exact .inr ⟨dated, first.toExtends.retained retained⟩
    · exact .inr ⟨dated, .inr (first.sequence.trans_lt later)⟩

def Tables.Admits (t : Tables) (row : DeliveryRow) : Prop :=
  t.retained row.eventSequence = true ∧ t.Active row.sinkID

theorem Tables.Sound.addDelivery {t : Tables} (sound : t.Sound) {row : DeliveryRow}
    (admitted : t.Admits row) :
    Tables.Sound { t with deliveries := Rows.keep (·.key) t.deliveries row } := by
  obtain ⟨_, same⟩ | ⟨fresh, more⟩ := Rows.keep_cases (·.key) t.deliveries row
  · rw [same]
    exact sound
  obtain ⟨retained, k, hk, id, active⟩ := admitted
  obtain ⟨e, he, sequence, unpruned⟩ := Tables.retained_iff.mp retained
  rw [more]
  refine ⟨⟨sound.events.1, sound.events.2, sound.events.3, sound.events.4⟩,
    ⟨sound.sinks.1, sound.sinks.2, sound.sinks.3⟩, ?_, ?_, ?_, ?_, ?_⟩
  · rw [← more]
    exact Rows.keep_nodup _ sound.keys row
  · simp only [List.mem_append, List.mem_singleton]
    rintro d (hd | rfl)
    · exact sound.ofEvent d hd
    · exact ⟨e, he, sequence⟩
  · simp only [List.mem_append, List.mem_singleton]
    rintro d (hd | rfl)
    · exact sound.ofSink d hd
    · exact ⟨k, hk, id⟩
  · simp only [List.mem_append, List.mem_singleton]
    rintro d (hd | rfl) waiting
    · exact sound.served d hd waiting
    · exact ⟨k, hk, id, active⟩
  · intro e' he' pruned
    obtain ⟨some_, all⟩ := sound.finished e' he' pruned
    have elsewhere : row.eventSequence ≠ e'.sequence := by
      intro same
      rw [sound.events.unique he' he (same.symm.trans sequence.symm), unpruned] at pruned
      exact Bool.false_ne_true pruned
    simp only [Tables.deliveriesOf, List.filter_append, List.filter_cons, List.filter_nil,
      decide_eq_true_eq, if_neg elsewhere, List.append_nil]
    exact ⟨some_, all⟩

theorem Tables.Sound.insertDelivery {t : Tables} (sound : t.Sound) {row : DeliveryRow}
    (admitted : t.Admits row) :
    t.insertDelivery row = .ok { t with deliveries := Rows.keep (·.key) t.deliveries row } := by
  obtain ⟨retained, k, hk, id, _⟩ := admitted
  obtain ⟨e, he, sequence, _⟩ := Tables.retained_iff.mp retained
  have event : t.events.any (fun e => e.sequence = row.eventSequence) = true :=
    List.any_eq_true.mpr ⟨e, he, decide_eq_true sequence⟩
  have sink : t.sinks.any (fun k => k.sinkID = row.sinkID) = true :=
    List.any_eq_true.mpr ⟨k, hk, decide_eq_true id⟩
  simp only [Tables.insertDelivery, sound.events.not_prunedAt retained, Bool.false_eq_true, if_false,
    event, sink, and_self, if_true, Rows.keep]
  split <;> rfl

/-- The inserted rows refer to tables that the insertion leaves alone, so no trigger
and no key aborts it. -/
theorem Tables.Sound.insertDeliveries {t : Tables} (sound : t.Sound) {rows : List DeliveryRow}
    (admitted : ∀ row ∈ rows, t.Admits row) :
    t.insertDeliveries rows = .ok { t with deliveries := Rows.keepAll (·.key) t.deliveries rows } ∧
      Tables.Sound { t with deliveries := Rows.keepAll (·.key) t.deliveries rows } := by
  induction rows generalizing t with
  | nil => exact ⟨rfl, sound⟩
  | cons row rows ih =>
    have first := admitted row List.mem_cons_self
    obtain ⟨rest, after⟩ := ih (sound.addDelivery first)
      (fun r hr => admitted r (List.mem_cons_of_mem _ hr))
    refine ⟨?_, after⟩
    simp only [Tables.insertDeliveries, sound.insertDelivery first]
    exact rest

theorem Tables.grows_insertDeliveries {times : Instant → Prop} {t : Tables} {rows : List DeliveryRow}
    (retained : ∀ row ∈ rows, t.retained row.eventSequence = true)
    (dated : ∀ row ∈ rows, ∃ at_, times at_ ∧
      row = pendingDelivery row.eventSequence row.sinkID (formatTimestamp at_)) :
    t.Grows times { t with deliveries := Rows.keepAll (·.key) t.deliveries rows } where
  events e he := ⟨e, he, .inl rfl⟩
  newer e he := .inl ⟨e, he, .inl rfl⟩
  sequence := le_rfl
  sinks k hk := ⟨k, hk, rfl⟩
  deliveries _ hd := List.mem_map_of_mem (Rows.mem_keepAll_of_mem _ hd rows)
  kept _ hd := Rows.mem_keepAll_of_mem _ hd rows
  added d hd := by
    rcases Rows.mem_of_mem_keepAll _ hd with old | new
    · exact .inl old
    · exact .inr ⟨dated d new, .inl (retained d new)⟩

theorem Tables.Grows.fresh {times : Instant → Prop} {t t' : Tables} (grown : t.Grows times t')
    (sound : t'.Sound) {d : DeliveryRow} (hd : d ∈ t'.deliveries)
    (covered : t.retained d.eventSequence = true → d.key ∈ t.deliveries.map (·.key)) :
    d ∈ t.deliveries ∨ t.lastSequence < d.eventSequence := by
  rcases grown.added d hd with old | ⟨_, retained | later⟩
  · exact .inl old
  · obtain ⟨d', hd', same⟩ := List.mem_map.mp (covered retained)
    rw [← Rows.key_unique sound.keys (grown.kept d' hd') hd same]
    exact .inl hd'
  · exact .inr later

theorem Tables.Valid.coveredAt {t : Tables} (valid : t.Valid) {sequence sinkID : Nat}
    (active : t.Active sinkID) (retained : t.retained sequence = true) :
    (sequence, sinkID) ∈ t.deliveries.map (·.key) := by
  obtain ⟨e, he, rfl, unpruned⟩ := Tables.retained_iff.mp retained
  exact valid.covered sinkID active e he unpruned

end WriteRelay.Spool
