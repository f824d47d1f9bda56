import WriteRelay.Spool.Operations

/-! What the store promises in every reachable state: pruned payloads stay pruned and
retained ones intact, every active sink is owed every retained event, and no waiting
delivery is out of the worker's reach. -/
namespace WriteRelay.Spool
open Clock Runs

/-- A pruned event as it has to stay: empty, and delivered wherever it was due. -/
def Retired (t : Tables) (e : EventRow) : Prop :=
  e ∈ t.events ∧ e.payload = [] ∧ t.deliveriesOf e.sequence ≠ [] ∧
    ∀ d ∈ t.deliveriesOf e.sequence, d.state = .delivered ∧ d.deliveredAt.isSome

theorem Tables.Valid.retired {t : Tables} (valid : t.Valid) {e : EventRow} (he : e ∈ t.events)
    (pruned : e.pruned = true) : Retired t e := by
  have intact := valid.sound.events.intact e he
  rw [EventRow.Intact, if_pos pruned] at intact
  exact ⟨he, intact, valid.sound.finished e he pruned⟩

theorem Tables.Extends.pruned_mem {t t' : Tables} (h : t.Extends t') {e : EventRow} (he : e ∈ t.events)
    (pruned : e.pruned = true) : e ∈ t'.events := by
  obtain ⟨e', he', rfl | ⟨retained, _⟩⟩ := h.events e he
  · exact he'
  · rw [pruned] at retained
    contradiction

theorem Tables.Extends.retained_eq {t t' : Tables} (h : t.Extends t') (sound : t'.Sound)
    {e e' : EventRow} (he : e ∈ t.events) (he' : e' ∈ t'.events) (same : e.sequence = e'.sequence)
    (retained : e'.pruned = false) : e' = e := by
  obtain ⟨r, hr, became⟩ := h.events e he
  cases sound.events.unique hr he' (became.sequence.trans same)
  exact became.retained retained

theorem retention_integrity {t : Tables} (reachable : spool.Reachable t) :
    (∀ e ∈ t.events, e.pruned = true → ∀ t', spool.Steps t t' → Retired t' e) ∧
    (∀ e ∈ t.events, e.pruned = false → Sha256.sum e.payload = e.payloadSHA256) ∧
    (∀ now item, nextDueDelivery t now = some item → ∃ e ∈ t.events,
      e.sequence = item.eventSequence ∧ e.identity = (item.source, item.id) ∧ e.pruned = false ∧
      item.payload = e.payload ∧ Sha256.sum item.payload = e.payloadSHA256) ∧
    (∀ t', spool.Steps t t' → ∀ now item, nextDueDelivery t' now = some item →
      ∀ e ∈ t.events, e.sequence = item.eventSequence → e.pruned = false ∧ item.payload = e.payload) ∧
    ∀ op failure, (Operation.exec op t).error = some failure → failure.raised = none := by
  have valid := spool_valid reachable
  have digest : ∀ e ∈ t.events, e.pruned = false → Sha256.sum e.payload = e.payloadSHA256 := by
    intro e he retained
    have intact := valid.sound.events.intact e he
    rwa [EventRow.Intact, if_neg (by simp [retained])] at intact
  refine ⟨?_, digest, ?_, ?_, fun op failure => (exec_spec op valid).2.2 failure⟩
  · intro e he pruned t' run
    have valid' := spool_valid (reachable.steps run)
    exact valid'.retired ((spool_extends reachable run).pruned_mem he pruned) pruned
  · intro now item next
    obtain ⟨e, he, retained, sequence, source, id, _, payload⟩ :=
      (nextDueDelivery_selected valid.sound next).event
    refine ⟨e, he, sequence, by rw [EventRow.identity, source, id], retained, payload.symm, ?_⟩
    rw [← payload]
    exact digest e he retained
  · intro t' run now item next e he same
    have valid' := spool_valid (reachable.steps run)
    obtain ⟨e', he', retained, sequence, _, _, _, payload⟩ :=
      (nextDueDelivery_selected valid'.sound next).event
    have unaltered := (spool_extends reachable run).retained_eq valid'.sound he he'
      (same.trans sequence.symm) retained
    subst unaltered
    exact ⟨retained, payload.symm⟩

def retired : List Operation :=
  captured ++ [.nextDue 5, .delivered ⟨none, none⟩ sampleItem 1 200 5,
    .prune ⟨fun _ => none, 9⟩ ⟨8, 100, false⟩]

theorem retention_integrity_retired :
    (runAll retired .empty).events.any (·.pruned) = true ∧
      ∀ e ∈ (runAll retired .empty).events, e.pruned = true → Retired (runAll retired .empty) e :=
  ⟨by decide +kernel, fun e he pruned =>
    (retention_integrity (spool_runAll (spool.reachable_init rfl) retired)).1 e he pruned _ .refl⟩

theorem delivery_coverage {t : Tables} (reachable : spool.Reachable t) :
    (∀ k ∈ t.sinks, k.active = true → ∀ e ∈ t.events, e.pruned = false →
      t.deliveries.countP (fun d => d.eventSequence = e.sequence ∧ d.sinkID = k.sinkID) = 1) ∧
    ∀ t', spool.Steps t t' →
      (∀ e ∈ t.events, ∃ e' ∈ t'.events, e'.sequence = e.sequence ∧ e'.identity = e.identity) ∧
      ∀ d ∈ t.deliveries, ∃ d' ∈ t'.deliveries, d'.key = d.key := by
  have valid := spool_valid reachable
  constructor
  · intro k hk active e he retained
    obtain ⟨d, hd, key⟩ := List.mem_map.mp (valid.covered k.sinkID ⟨k, hk, rfl, active⟩ e he retained)
    obtain ⟨sequence, sink⟩ := Prod.mk.inj key
    have only := Rows.filter_key valid.sound.keys (e := d)
      (p := fun d => decide (d.eventSequence = e.sequence ∧ d.sinkID = k.sinkID)) hd
      (decide_eq_true ⟨sequence, sink⟩) (fun r _ matched => by
        obtain ⟨sequence', sink'⟩ := of_decide_eq_true matched
        rw [DeliveryRow.key, sequence', sink', key])
    rw [List.countP_eq_length_filter, only, List.length_singleton]
  · intro t' run
    have extended := spool_extends reachable run
    refine ⟨fun e he => ?_, fun d hd => List.mem_map.mp (extended.deliveries d hd)⟩
    obtain ⟨e', he', became⟩ := extended.events e he
    refine ⟨e', he', became.sequence, ?_⟩
    rcases became with rfl | ⟨_, _, rfl⟩ <;> rfl

theorem delivery_coverage_captured :
    (runAll captured .empty).deliveries.length = 1 ∧
      ∀ k ∈ (runAll captured .empty).sinks, k.active = true →
        ∀ e ∈ (runAll captured .empty).events, e.pruned = false →
        (runAll captured .empty).deliveries.countP
          (fun d => d.eventSequence = e.sequence ∧ d.sinkID = k.sinkID) = 1 :=
  ⟨by decide +kernel, (delivery_coverage (spool_runAll (spool.reachable_init rfl) captured)).1⟩

/-- The spool run on clocks that show years with four digits. -/
def datedSpool : System Tables where
  init t := t = .empty
  step t t' := ∃ op : Operation, (∀ at_, op.due at_ → FourDigitYear at_) ∧ (op.exec t).tables = t'

theorem datedSpool_reachable {t : Tables} (h : datedSpool.Reachable t) : spool.Reachable t := by
  change (spoolWith fun op => ∀ at_, op.due at_ → FourDigitYear at_).Reachable t at h
  exact spoolWith_reachable h

def Tables.Dated (t : Tables) : Prop :=
  ∀ d ∈ t.deliveries, ∃ at_, FourDigitYear at_ ∧ d.nextAttemptAt = formatTimestamp at_

theorem Effect.dated {op : Operation} {t t' : Tables} (h : Effect op t t') (dated : t.Dated)
    (clocks : ∀ at_, op.due at_ → FourDigitYear at_) : t'.Dated := by
  cases h with
  | grows grown =>
    intro d hd
    rcases grown.added d hd with old | ⟨⟨at_, due, row⟩, _⟩
    · exact dated d old
    · exact ⟨at_, clocks at_ due, by rw [row]; rfl⟩
  | updates _ rows =>
    intro d' hd'
    obtain ⟨d, hd, rfl⟩ := Rows.mem_update.mp hd'
    split
    · rcases rows d with same | ⟨at_, due, text⟩
      · rw [same]
        exact dated d hd
      · exact ⟨at_, clocks at_ due, text⟩
    · exact dated d hd

theorem datedSpool_dated {t : Tables} (h : datedSpool.Reachable t) : t.Dated := by
  refine datedSpool.invariant Tables.Dated ?_ ?_ h
  · rintro _ rfl d hd
    simp [Tables.empty] at hd
  · rintro s _ reachable dated ⟨op, clocks, rfl⟩
    exact (exec_spec op (spool_valid (datedSpool_reachable reachable))).2.1.dated dated clocks

theorem nextDueDelivery_isSome {t : Tables} (sound : t.Sound) {d : DeliveryRow} (hd : d ∈ t.deliveries)
    (waiting : d.state.waiting = true) : ∃ head ∈ t.deliveries, ∀ now,
      head.nextAttemptAt ≤ formatTimestamp now → ∃ item, nextDueDelivery t now = some item := by
  obtain ⟨k, hk, id, active⟩ := sound.served d hd waiting
  obtain ⟨h, first⟩ := headSequence_isSome hd waiting
  obtain ⟨⟨head, member, key, _⟩, _⟩ := headSequence_eq_some first
  obtain ⟨sequence, sink⟩ := Prod.mk.inj key
  obtain ⟨e, he, same⟩ := sound.ofEvent head member
  refine ⟨head, member, fun now due => ?_⟩
  cases next : nextDueDelivery t now with
  | some item => exact ⟨item, rfl⟩
  | none =>
    have row : dueItem k head e ∈ dueItems t (formatTimestamp now) :=
      mem_dueItems.mpr ⟨k, hk, active, head, member, ⟨sink.trans id.symm, by rw [id, first, sequence], due⟩,
        e, he, same, rfl⟩
    rw [Rows.least_eq_none.mp next] at row
    contradiction

theorem no_stranded_work {t : Tables} (reachable : spool.Reachable t) :
    (∀ d ∈ t.deliveries, d.state.waiting = true → ∀ k ∈ t.sinks, k.sinkID = d.sinkID →
      k.active = true) ∧
    (datedSpool.Reachable t → (∃ d ∈ t.deliveries, d.state.waiting = true) →
      ∃ start, FourDigitYear start ∧ ∀ now, start ≤ now → FourDigitYear now →
        ∃ item, nextDueDelivery t now = some item ∧
          (∃ d ∈ t.deliveries, d.key = (item.eventSequence, item.sinkID) ∧ d.state.waiting = true) ∧
          ∀ d ∈ t.deliveries, d.sinkID = item.sinkID → d.state.waiting = true →
            item.eventSequence ≤ d.eventSequence) := by
  have sound := (spool_valid reachable).sound
  constructor
  · intro d hd waiting k hk same
    obtain ⟨k', hk', id, active⟩ := sound.served d hd waiting
    rw [sound.sinks.unique hk hk' (same.trans id.symm)]
    exact active
  · rintro clocks ⟨d, hd, waiting⟩
    obtain ⟨head, member, due⟩ := nextDueDelivery_isSome sound hd waiting
    obtain ⟨start, year, text⟩ := datedSpool_dated clocks head member
    refine ⟨start, year, fun now later year' => ?_⟩
    obtain ⟨item, next⟩ := due now (by rw [text]; exact (formatTimestamp_le_iff year year').mpr later)
    have selected := nextDueDelivery_selected sound next
    obtain ⟨row, member', key, waiting', _⟩ := selected.row
    exact ⟨item, next, ⟨row, member', key, waiting'⟩, selected.oldest⟩

theorem datedSpool_captured : datedSpool.Reachable (runAll captured .empty) := by
  refine ((datedSpool.reachable_init rfl).step ⟨_, ?_, rfl⟩).step ⟨_, ?_, rfl⟩
  · rintro _ rfl
    decide +kernel
  · rintro _ ⟨_, rfl⟩
    change FourDigitYear 2
    decide +kernel

theorem no_stranded_work_captured :
    (∃ d ∈ (runAll captured .empty).deliveries, d.state.waiting = true) ∧
      ∃ start, FourDigitYear start ∧ ∀ now, start ≤ now → FourDigitYear now →
        ∃ item, nextDueDelivery (runAll captured .empty) now = some item := by
  have waiting : ∃ d ∈ (runAll captured .empty).deliveries, d.state.waiting = true :=
    List.any_eq_true.mp (by decide +kernel)
  obtain ⟨start, year, due⟩ := (no_stranded_work (datedSpool_reachable datedSpool_captured)).2
    datedSpool_captured waiting
  refine ⟨waiting, start, year, fun now later year' => ?_⟩
  obtain ⟨item, next, _⟩ := due now later year'
  exact ⟨item, next⟩

end WriteRelay.Spool
