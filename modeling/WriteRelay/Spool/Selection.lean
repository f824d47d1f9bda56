import WriteRelay.Spool.Operations

/-! `NextDueDelivery` against the plain reading of its query, over any contents of the
tables that the schema admits. -/
namespace WriteRelay.Spool
open Clock Runs

structure Tables.Keyed (t : Tables) : Prop where
  sequences : (t.events.map (·.sequence)).Nodup
  identities : (t.events.map (·.identity)).Nodup
  sinkIDs : (t.sinks.map (·.sinkID)).Nodup
  sinkNames : (t.sinks.map (·.sinkName)).Nodup
  keys : (t.deliveries.map (·.key)).Nodup
  ofEvent : ∀ d ∈ t.deliveries, ∃ e ∈ t.events, e.sequence = d.eventSequence
  ofSink : ∀ d ∈ t.deliveries, ∃ k ∈ t.sinks, k.sinkID = d.sinkID

/-- A due delivery of an active sink with no earlier one waiting at that sink. -/
structure Candidate (t : Tables) (now : String) (k : SinkRow) (d : DeliveryRow) (e : EventRow) :
    Prop where
  sink : k ∈ t.sinks
  delivery : d ∈ t.deliveries
  event : e ∈ t.events
  ofSink : d.sinkID = k.sinkID
  ofEvent : e.sequence = d.eventSequence
  active : k.active = true
  waiting : d.state.waiting = true
  due : d.nextAttemptAt ≤ now
  first : ¬∃ d' ∈ t.deliveries, d'.sinkID = k.sinkID ∧ d'.state.waiting = true ∧
    d'.eventSequence < d.eventSequence

/-- The plain selection: the candidate with the least sequence and sink, or nothing. -/
def Selects (t : Tables) (now : String) : Option Delivery → Prop
  | none => ∀ k d e, ¬Candidate t now k d e
  | some item => ∃ k d e, Candidate t now k d e ∧ dueItem k d e = item ∧
    ∀ k' d' e', Candidate t now k' d' e' →
      toLex (d.eventSequence, k.sinkID) ≤ toLex (d'.eventSequence, k'.sinkID)

section Keyed

variable {t : Tables} (keyed : t.Keyed) {now : String}
include keyed

theorem head_iff {k : SinkRow} {d : DeliveryRow} (hd : d ∈ t.deliveries) (ofSink : d.sinkID = k.sinkID) :
    some d.eventSequence = t.headSequence k.sinkID ↔ d.state.waiting = true ∧
      ¬∃ d' ∈ t.deliveries, d'.sinkID = k.sinkID ∧ d'.state.waiting = true ∧
        d'.eventSequence < d.eventSequence := by
  constructor
  · intro head
    obtain ⟨⟨first, hfirst, key, waiting⟩, oldest⟩ := headSequence_eq_some head.symm
    -- a terminal row with this key would be another row
    cases Rows.key_unique keyed.keys hfirst hd (by rw [key, DeliveryRow.key, ofSink])
    refine ⟨waiting, ?_⟩
    rintro ⟨d', hd', sink, waiting', earlier⟩
    exact absurd (oldest d' hd' sink waiting') (not_le.mpr earlier)
  · rintro ⟨waiting, first⟩
    obtain ⟨h, head⟩ := headSequence_isSome hd waiting
    rw [ofSink] at head
    obtain ⟨⟨d', hd', key, waiting'⟩, oldest⟩ := headSequence_eq_some head
    obtain ⟨rfl, sink⟩ := Prod.mk.inj key
    have after : d.eventSequence ≤ d'.eventSequence := by
      by_contra earlier
      exact first ⟨d', hd', sink, waiting', not_le.mp earlier⟩
    rw [head, le_antisymm after (oldest d hd ofSink waiting)]

theorem mem_dueItems_iff {item : Delivery} :
    item ∈ dueItems t now ↔ ∃ k d e, Candidate t now k d e ∧ dueItem k d e = item := by
  rw [mem_dueItems]
  constructor
  · rintro ⟨k, hk, active, d, hd, ⟨ofSink, head, due⟩, e, he, ofEvent, same⟩
    obtain ⟨waiting, first⟩ := (head_iff keyed hd ofSink).mp head
    exact ⟨k, d, e, ⟨hk, hd, he, ofSink, ofEvent, active, waiting, due, first⟩, same⟩
  · rintro ⟨k, d, e, c, same⟩
    have head := (head_iff keyed c.delivery c.ofSink).mpr ⟨c.waiting, c.first⟩
    exact ⟨k, c.sink, c.active, d, c.delivery, ⟨c.ofSink, head, c.due⟩, e, c.event, c.ofEvent, same⟩

omit keyed in
theorem itemLe_dueItem {k k' : SinkRow} {d d' : DeliveryRow} {e e' : EventRow}
    (c : Candidate t now k d e) (c' : Candidate t now k' d' e') :
    itemLe (dueItem k d e) (dueItem k' d' e') = true ↔
      toLex (d.eventSequence, k.sinkID) ≤ toLex (d'.eventSequence, k'.sinkID) := by
  simp only [itemLe, dueItem, c.ofEvent, c'.ofEvent, decide_eq_true_eq, Prod.Lex.toLex_le_toLex]

theorem Candidate.unique {k k' : SinkRow} {d d' : DeliveryRow} {e e' : EventRow}
    (c : Candidate t now k d e) (c' : Candidate t now k' d' e')
    (sequence : d.eventSequence = d'.eventSequence) (sink : k.sinkID = k'.sinkID) :
    dueItem k d e = dueItem k' d' e' := by
  have rows : d = d' := Rows.key_unique keyed.keys c.delivery c'.delivery
    (by rw [DeliveryRow.key, DeliveryRow.key, sequence, c.ofSink, c'.ofSink, sink])
  have events : e = e' := Rows.key_unique keyed.sequences c.event c'.event
    (by rw [c.ofEvent, c'.ofEvent, sequence])
  rw [rows, events, Rows.key_unique keyed.sinkIDs c.sink c'.sink sink]

theorem itemLe_antisymm {a b : Delivery} (ha : a ∈ dueItems t now) (hb : b ∈ dueItems t now)
    (below : itemLe a b = true) (above : itemLe b a = true) : a = b := by
  obtain ⟨k, d, e, c, rfl⟩ := (mem_dueItems_iff keyed).mp ha
  obtain ⟨k', d', e', c', rfl⟩ := (mem_dueItems_iff keyed).mp hb
  have same := le_antisymm ((itemLe_dueItem c c').mp below) ((itemLe_dueItem c' c).mp above)
  obtain ⟨sequence, sink⟩ := Prod.mk.inj (toLex_inj.mp same)
  exact c.unique keyed c' sequence sink

omit keyed in
theorem itemLe_total (a b : Delivery) (h : itemLe a b = false) : itemLe b a = true := by
  simp only [itemLe, decide_eq_false_iff_not, decide_eq_true_eq] at h ⊢
  omega

omit keyed in
theorem itemLe_trans (a b c : Delivery) (h : itemLe a b = true) (h' : itemLe b c = true) :
    itemLe a c = true := by
  simp only [itemLe, decide_eq_true_eq] at h h' ⊢
  omega

theorem nextDueDelivery_plain (now : Instant) (result : Option Delivery) :
    nextDueDelivery t now = result ↔ Selects t (formatTimestamp now) result := by
  cases result with
  | none =>
    rw [nextDueDelivery, Rows.least_eq_none, List.eq_nil_iff_forall_not_mem]
    constructor
    · intro empty k d e c
      exact empty _ ((mem_dueItems_iff keyed).mpr ⟨k, d, e, c, rfl⟩)
    · intro none_ item member
      obtain ⟨k, d, e, c, _⟩ := (mem_dueItems_iff keyed).mp member
      exact none_ k d e c
  | some item =>
    rw [nextDueDelivery, Rows.least_eq_some_iff itemLe_total itemLe_trans
      (fun _ ha _ hb => itemLe_antisymm keyed ha hb)]
    constructor
    · rintro ⟨member, least⟩
      obtain ⟨k, d, e, c, rfl⟩ := (mem_dueItems_iff keyed).mp member
      refine ⟨k, d, e, c, rfl, fun k' d' e' c' => ?_⟩
      exact (itemLe_dueItem c c').mp (least _ ((mem_dueItems_iff keyed).mpr ⟨k', d', e', c', rfl⟩))
    · rintro ⟨k, d, e, c, rfl, least⟩
      refine ⟨(mem_dueItems_iff keyed).mpr ⟨k, d, e, c, rfl⟩, fun item member => ?_⟩
      obtain ⟨k', d', e', c', rfl⟩ := (mem_dueItems_iff keyed).mp member
      exact (itemLe_dueItem c c').mpr (least k' d' e' c')

end Keyed

theorem Tables.Sound.keyed {t : Tables} (sound : t.Sound) : t.Keyed where
  sequences := sound.events.ordered.imp Nat.ne_of_lt
  identities := sound.events.identities
  sinkIDs := sound.sinks.ids
  sinkNames := sound.sinks.names
  keys := sound.keys
  ofEvent := sound.ofEvent
  ofSink := sound.ofSink

def blocked : List Operation :=
  captured ++ [.failed ⟨none, none⟩ sampleItem 1 false 100 (bytes "refused") 503 5, secondPersist]

theorem nextDueDelivery_plain_blocked :
    Selects (runAll captured .empty) (formatTimestamp 5) (some sampleItem) ∧
      (runAll blocked .empty).deliveries.map (·.state) = [.retryWait, .pending] ∧
      Selects (runAll blocked .empty) (formatTimestamp 50) none := by
  have keyed : ∀ ops, (runAll ops .empty).Keyed := fun ops =>
    (spool_valid (spool_runAll (spool.reachable_init rfl) ops)).sound.keyed
  refine ⟨(nextDueDelivery_plain (keyed captured) 5 _).mp captured_next, by decide +kernel, ?_⟩
  exact (nextDueDelivery_plain (keyed blocked) 50 _).mp (by decide +kernel)

end WriteRelay.Spool
