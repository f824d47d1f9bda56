import WriteRelay.Spool.Invariant

/-! Selecting a due delivery and recording its outcome, and the operator's redrive.
Each is a single statement of its own transaction. -/
namespace WriteRelay.Spool
open Clock Fallible

structure Delivery where
  eventSequence : Nat
  sinkID : Nat
  sinkName : String
  sinkType : String
  source : String
  id : String
  type : String
  subject : String
  payload : Bytes
  attempts : Nat
  deriving DecidableEq

/-- The head subquery: the oldest non-terminal event of a sink. -/
def Tables.headSequence (t : Tables) (sinkID : Nat) : Option Nat :=
  ((t.deliveries.filter (fun d => d.sinkID = sinkID ∧ d.state.waiting = true)).map
    (·.eventSequence)).min?

def dueItem (k : SinkRow) (d : DeliveryRow) (e : EventRow) : Delivery where
  eventSequence := e.sequence
  sinkID := k.sinkID
  sinkName := k.sinkName
  sinkType := k.sinkType
  source := e.source
  id := e.id
  type := e.type
  subject := e.subject.getD ""
  payload := e.payload
  attempts := d.attempts

def dueItems (t : Tables) (now : String) : List Delivery :=
  (t.sinks.filter (·.active)).flatMap fun k =>
    (t.deliveries.filter (fun d => d.sinkID = k.sinkID ∧
        some d.eventSequence = t.headSequence k.sinkID ∧ d.nextAttemptAt ≤ now)).flatMap fun d =>
      (t.events.filter (fun e => e.sequence = d.eventSequence)).map (dueItem k d)

/-- `ORDER BY e.sequence, s.sink_id`. -/
def itemLe (a b : Delivery) : Bool :=
  decide (a.eventSequence < b.eventSequence ∨
    a.eventSequence = b.eventSequence ∧ a.sinkID ≤ b.sinkID)

def nextDueDelivery (t : Tables) (now : Instant) : Option Delivery :=
  Rows.least itemLe (dueItems t (formatTimestamp now))

/-- A statement outside an explicit transaction: the tables after it, and the error
its caller sees. A wrong row count is only noticed after the change. -/
structure Outcome where
  tables : Tables
  error : Option Failure

structure UpdateFaults where
  exec : Option String
  rowsAffected : Option String

def execUpdate (faults : UpdateFaults) (t : Tables) (p : DeliveryRow → Bool)
    (f : DeliveryRow → DeliveryRow) (refused : DriverError → Failure)
    (uncounted : DriverError → Failure) (judge : Nat → Option Failure) : Outcome :=
  match faults.exec with
  | some text => ⟨t, some (refused (.fault text))⟩
  | none =>
    match t.updateDeliveries p f with
    | .error abort => ⟨t, some (refused (.raised abort))⟩
    | .ok (t', affected) =>
      match faults.rowsAffected with
      | some text => ⟨t', some (uncounted (.fault text))⟩
      | none => ⟨t', judge affected⟩

def expectOneDeliveryUpdate (operation : String) (affected : Nat) : Option Failure :=
  if affected ≠ 1 then
    some (errorf (some .durability)
      "%w: %s changed %d rows; delivery state was modified concurrently"
      [operation, toString affected])
  else none

/-- The guard of both Mark statements: the row still is as it was selected. -/
def unchanged (item : Delivery) (d : DeliveryRow) : Bool :=
  d.eventSequence = item.eventSequence ∧ d.sinkID = item.sinkID ∧ d.attempts = item.attempts ∧
    d.state.waiting = true

def statusColumn (status : Int) : Option Int := if status ≠ 0 then some status else none

def deliveredRow (attempt : Nat) (status : Int) (at_ : Instant) (d : DeliveryRow) : DeliveryRow :=
  { d with
    state := .delivered, attempts := attempt, lastAttemptAt := some (formatTimestamp at_),
    deliveredAt := some (formatTimestamp at_), deadLetteredAt := none, lastError := none,
    responseStatus := statusColumn status }

def markDelivered (faults : UpdateFaults) (item : Delivery) (attempt : Nat) (status : Int)
    (at_ : Instant) (t : Tables) : Outcome :=
  execUpdate faults t (unchanged item)
    (deliveredRow attempt status at_)
    (wrapf (some .durability) "%w: %s: %v" ["mark delivered"])
    (wrapf (some .durability) "%w: inspect %s: %v" ["mark delivered"])
    (expectOneDeliveryUpdate "mark delivered")

def failedRow (attempt : Nat) (permanent : Bool) (retryAt : Instant) (failure : Bytes) (status : Int)
    (at_ : Instant) (d : DeliveryRow) : DeliveryRow :=
  { d with
    state := if permanent then .deadLetter else .retryWait, attempts := attempt,
    nextAttemptAt := formatTimestamp retryAt, lastAttemptAt := some (formatTimestamp at_),
    deliveredAt := none, deadLetteredAt := if permanent then some (formatTimestamp at_) else none,
    lastError := some failure, responseStatus := statusColumn status }

def markFailed (faults : UpdateFaults) (item : Delivery) (attempt : Nat) (permanent : Bool)
    (retryAt : Instant) (failure : Bytes) (status : Int) (at_ : Instant) (t : Tables) : Outcome :=
  execUpdate faults t (unchanged item)
    (failedRow attempt permanent retryAt failure status at_)
    (wrapf (some .durability) "%w: %s: %v" ["mark failed"])
    (wrapf (some .durability) "%w: inspect %s: %v" ["mark failed"])
    (expectOneDeliveryUpdate "mark failed")

def Tables.activeSinkID (t : Tables) (sinkName : String) : Option Nat :=
  (t.sinks.find? (fun k => k.sinkName = sinkName ∧ k.active)).map (·.sinkID)

/-- The WHERE clause of a redrive; a subquery without a row matches nothing. -/
def redriveTarget (t : Tables) (sinkName source id : String) (d : DeliveryRow) : Bool :=
  d.state = .deadLetter ∧ some d.sinkID = t.activeSinkID sinkName ∧
    some d.eventSequence = (t.findEvent source id).map (·.sequence)

def redrivenRow (at_ : Instant) (d : DeliveryRow) : DeliveryRow :=
  { d with
    state := .retryWait, attempts := 0, nextAttemptAt := formatTimestamp at_,
    lastAttemptAt := none, deliveredAt := none, deadLetteredAt := none, lastError := none,
    responseStatus := none }

def redriveJudge (affected : Nat) : Option Failure :=
  if affected ≠ 1 then some (errorf none "no matching dead-letter delivery was found" []) else none

def redriveDelivery (faults : UpdateFaults) (sinkName source id : String) (at_ : Instant)
    (t : Tables) : Outcome :=
  execUpdate faults t (redriveTarget t sinkName source id)
    (redrivenRow at_)
    (wrapf (some .durability) "%w: redrive delivery: %v" [])
    (wrapf (some .durability) "%w: inspect redrive: %v" [])
    redriveJudge

theorem Tables.Sound.updateDeliveries {t : Tables} (sound : t.Sound) {p : DeliveryRow → Bool}
    {f : DeliveryRow → DeliveryRow}
    (same : ∀ d, (f d).key = d.key)
    (open_ : ∀ d ∈ t.deliveries, p d = true → d.state ≠ .delivered)
    (served : ∀ d ∈ t.deliveries, p d = true → (f d).state.waiting = true → t.Active d.sinkID) :
    t.updateDeliveries p f =
        .ok ({ t with deliveries := Rows.update p f t.deliveries }, t.deliveries.countP p) ∧
      Tables.Sound { t with deliveries := Rows.update p f t.deliveries } := by
  have sequence : ∀ d, (f d).eventSequence = d.eventSequence := fun d => congrArg Prod.fst (same d)
  have sink : ∀ d, (f d).sinkID = d.sinkID := fun d => congrArg Prod.snd (same d)
  have unpruned : ∀ d ∈ t.deliveries, p d = true → t.prunedAt d.eventSequence = false :=
    fun d hd hp => sound.not_prunedAt hd (fun done => open_ d hd hp done.1)
  refine ⟨?_, ⟨sound.events.1, sound.events.2, sound.events.3, sound.events.4⟩,
    ⟨sound.sinks.1, sound.sinks.2, sound.sinks.3⟩, ?_, ?_, ?_, ?_, ?_⟩
  · have quiet : (t.deliveries.filter p).any (fun d =>
        (f d).state ≠ .delivered ∧ t.prunedAt (f d).eventSequence = true) = false := by
      simp only [List.any_eq_false, List.mem_filter, decide_eq_true_eq, not_and]
      rintro d ⟨hd, hp⟩ _
      rw [sequence, unpruned d hd hp]
      exact Bool.false_ne_true
    simp only [Tables.updateDeliveries, quiet, Bool.false_eq_true, if_false]
  · simp only [Rows.map_update_of_invariant _ same]
    exact sound.keys
  · intro d' hd'
    obtain ⟨d, hd, rfl⟩ := Rows.mem_update.mp hd'
    have : (if p d = true then f d else d).eventSequence = d.eventSequence := by
      split
      · exact sequence d
      · rfl
    rw [this]
    exact sound.ofEvent d hd
  · intro d' hd'
    obtain ⟨d, hd, rfl⟩ := Rows.mem_update.mp hd'
    have : (if p d = true then f d else d).sinkID = d.sinkID := by
      split
      · exact sink d
      · rfl
    rw [this]
    exact sound.ofSink d hd
  · intro d' hd' waiting
    obtain ⟨d, hd, rfl⟩ := Rows.mem_update.mp hd'
    split at waiting
    · rename_i hp
      rw [if_pos hp, sink]
      exact served d hd hp waiting
    · rename_i hp
      rw [if_neg hp]
      exact sound.served d hd waiting
  · intro e he pruned
    have untouched : ∀ d ∈ t.deliveriesOf e.sequence, p d = false := by
      intro d hd
      by_contra hp
      exact open_ d (mem_deliveriesOf.mp hd).1 (by simpa using hp)
        ((sound.finished e he pruned).2 d hd).1
    have : Tables.deliveriesOf { t with deliveries := Rows.update p f t.deliveries } e.sequence =
        t.deliveriesOf e.sequence := by
      have stays := Rows.filter_update_of_invariant (p := p) (f := f)
        (fun d => decide (d.eventSequence = e.sequence)) (fun d => by rw [sequence]) t.deliveries
      exact stays.trans (Rows.update_of_none untouched)
    rw [this]
    exact sound.finished e he pruned

theorem headSequence_eq_some {t : Tables} {sinkID h : Nat} (head : t.headSequence sinkID = some h) :
    (∃ d ∈ t.deliveries, d.key = (h, sinkID) ∧ d.state.waiting = true) ∧
      ∀ d ∈ t.deliveries, d.sinkID = sinkID → d.state.waiting = true → h ≤ d.eventSequence := by
  obtain ⟨member, least⟩ := List.min?_eq_some_iff.mp head
  obtain ⟨d, hd, rfl⟩ := List.mem_map.mp member
  simp only [List.mem_filter, decide_eq_true_eq] at hd
  refine ⟨⟨d, hd.1, by rw [DeliveryRow.key, hd.2.1], hd.2.2⟩, ?_⟩
  intro d' hd' sink waiting
  exact least _ (List.mem_map_of_mem (List.mem_filter.mpr ⟨hd', decide_eq_true ⟨sink, waiting⟩⟩))

theorem headSequence_isSome {t : Tables} {d : DeliveryRow} (hd : d ∈ t.deliveries)
    (waiting : d.state.waiting = true) : ∃ h, t.headSequence d.sinkID = some h := by
  cases head : t.headSequence d.sinkID with
  | some h => exact ⟨h, rfl⟩
  | none =>
    have empty := List.map_eq_nil_iff.mp (List.min?_eq_none_iff.mp head)
    have : d ∈ ([] : List DeliveryRow) :=
      empty ▸ List.mem_filter.mpr ⟨hd, decide_eq_true ⟨rfl, waiting⟩⟩
    contradiction

/-- The item describes the oldest waiting delivery of an active sink, with the
payload of its retained event. -/
structure Selected (t : Tables) (item : Delivery) : Prop where
  sink : ∃ k ∈ t.sinks, k.active = true ∧ k.sinkID = item.sinkID ∧ k.sinkName = item.sinkName ∧
    k.sinkType = item.sinkType
  row : ∃ d ∈ t.deliveries, d.key = (item.eventSequence, item.sinkID) ∧ d.state.waiting = true ∧
    d.attempts = item.attempts
  event : ∃ e ∈ t.events, e.pruned = false ∧ e.sequence = item.eventSequence ∧
    e.source = item.source ∧ e.id = item.id ∧ e.type = item.type ∧ e.payload = item.payload
  oldest : ∀ d ∈ t.deliveries, d.sinkID = item.sinkID → d.state.waiting = true →
    item.eventSequence ≤ d.eventSequence

theorem mem_dueItems {t : Tables} {now : String} {item : Delivery} :
    item ∈ dueItems t now ↔ ∃ k ∈ t.sinks, k.active = true ∧ ∃ d ∈ t.deliveries,
      (d.sinkID = k.sinkID ∧ some d.eventSequence = t.headSequence k.sinkID ∧ d.nextAttemptAt ≤ now) ∧
      ∃ e ∈ t.events, e.sequence = d.eventSequence ∧ dueItem k d e = item := by
  simp only [dueItems, List.mem_flatMap, List.mem_filter, List.mem_map, decide_eq_true_eq, and_assoc]

theorem dueItems_selected {t : Tables} (sound : t.Sound) {now : String} {item : Delivery}
    (h : item ∈ dueItems t now) : Selected t item := by
  obtain ⟨k, hk, active, d, hd, ⟨sink, head, _⟩, e, he, sequence, rfl⟩ := mem_dueItems.mp h
  obtain ⟨⟨first, hfirst, key, waiting⟩, oldest⟩ := headSequence_eq_some head.symm
  have same : first = d := Rows.key_unique sound.keys hfirst hd (by rw [key, DeliveryRow.key, sink])
  subst same
  have retained : e.pruned = false := by
    by_contra pruned
    have done := (sound.finished e he (by simpa using pruned)).2 first
      (mem_deliveriesOf.mpr ⟨hd, sequence.symm⟩)
    rw [done.1] at waiting
    contradiction
  exact ⟨⟨k, hk, active, rfl, rfl, rfl⟩, ⟨first, hd, by rw [key, dueItem, sequence], waiting, rfl⟩,
    ⟨e, he, retained, rfl, rfl, rfl, rfl, rfl⟩, fun d' hd' sink' waiting' => by
      rw [dueItem, sequence]
      exact oldest d' hd' sink' waiting'⟩

theorem nextDueDelivery_selected {t : Tables} (sound : t.Sound) {now : Instant} {item : Delivery}
    (h : nextDueDelivery t now = some item) : Selected t item :=
  dueItems_selected sound (Rows.least_mem h)

theorem Tables.extends_update {t : Tables} {p : DeliveryRow → Bool} {f : DeliveryRow → DeliveryRow}
    (same : ∀ d, (f d).key = d.key) :
    t.Extends { t with deliveries := Rows.update p f t.deliveries } where
  events e he := ⟨e, he, .inl rfl⟩
  newer e he := .inl ⟨e, he, .inl rfl⟩
  sequence := le_rfl
  sinks k hk := ⟨k, hk, rfl⟩
  deliveries _ hd := by
    rw [Rows.map_update_of_invariant _ same]
    exact List.mem_map_of_mem hd

structure Updated (faults : UpdateFaults) (t : Tables) (p : DeliveryRow → Bool)
    (f : DeliveryRow → DeliveryRow) (judge : Nat → Option Failure) (o : Outcome) : Prop where
  refused : faults.exec ≠ none → o.tables = t
  executed : faults.exec = none → o.tables = { t with deliveries := Rows.update p f t.deliveries }
  judged : o.error = none → faults.exec = none ∧ judge (t.deliveries.countP p) = none
  unraised : ∀ e, o.error = some e → e.Unraised
  valid : o.tables.Valid

theorem execUpdate_spec (faults : UpdateFaults) {t : Tables} (valid : t.Valid) {p : DeliveryRow → Bool}
    {f : DeliveryRow → DeliveryRow} {refused uncounted : DriverError → Failure}
    {judge : Nat → Option Failure} (same : ∀ d, (f d).key = d.key)
    (open_ : ∀ d ∈ t.deliveries, p d = true → d.state ≠ .delivered)
    (served : ∀ d ∈ t.deliveries, p d = true → (f d).state.waiting = true → t.Active d.sinkID)
    (refusedText : ∀ text, (refused (.fault text)).Unraised)
    (uncountedText : ∀ text, (uncounted (.fault text)).Unraised)
    (judgement : ∀ n e, judge n = some e → e.Unraised) :
    Updated faults t p f judge (execUpdate faults t p f refused uncounted judge) := by
  obtain ⟨updated, sound⟩ := valid.sound.updateDeliveries same open_ served
  have valid' : Tables.Valid { t with deliveries := Rows.update p f t.deliveries } := by
    refine ⟨sound, ?_⟩
    intro sinkID active e he retained
    rw [Rows.map_update_of_invariant _ same]
    exact valid.covered sinkID active e he retained
  unfold execUpdate
  cases exec : faults.exec with
  | some text =>
    exact ⟨fun _ => rfl, fun h => by simp [exec] at h, nofun,
      fun _ h => by cases h; exact refusedText text, valid⟩
  | none =>
    simp only [updated]
    cases faults.rowsAffected with
    | some text =>
      exact ⟨fun h => absurd exec h, fun _ => rfl, nofun,
        fun _ h => by cases h; exact uncountedText text, valid'⟩
    | none =>
      exact ⟨fun h => absurd exec h, fun _ => rfl, fun judged => ⟨exec, judged⟩, judgement _, valid'⟩

theorem expectOneDeliveryUpdate_unraised {operation : String} {n : Nat} {e : Failure}
    (h : expectOneDeliveryUpdate operation n = some e) : e.Unraised := by
  unfold expectOneDeliveryUpdate at h
  split at h
  · cases Option.some.inj h
    rfl
  · contradiction

theorem unchanged_open {t : Tables} {item : Delivery} :
    ∀ d ∈ t.deliveries, unchanged item d = true → d.state ≠ .delivered := by
  intro d _ matched delivered
  simp [unchanged, delivered, DeliveryState.waiting] at matched

theorem unchanged_served {t : Tables} (sound : t.Sound) {item : Delivery} :
    ∀ d ∈ t.deliveries, unchanged item d = true → t.Active d.sinkID := by
  intro d hd matched
  simp only [unchanged, decide_eq_true_eq] at matched
  exact sound.served d hd matched.2.2.2

theorem markDelivered_spec (faults : UpdateFaults) (item : Delivery) (attempt : Nat) (status : Int)
    (at_ : Instant) {t : Tables} (valid : t.Valid) :
    Updated faults t (unchanged item) (deliveredRow attempt status at_)
      (expectOneDeliveryUpdate "mark delivered") (markDelivered faults item attempt status at_ t) :=
  execUpdate_spec faults valid (fun _ => rfl) unchanged_open
    (fun d hd matched _ => unchanged_served valid.sound d hd matched) (fun _ => rfl) (fun _ => rfl)
    (fun _ _ => expectOneDeliveryUpdate_unraised)

theorem markFailed_spec (faults : UpdateFaults) (item : Delivery) (attempt : Nat) (permanent : Bool)
    (retryAt : Instant) (failure : Bytes) (status : Int) (at_ : Instant) {t : Tables}
    (valid : t.Valid) :
    Updated faults t (unchanged item) (failedRow attempt permanent retryAt failure status at_)
      (expectOneDeliveryUpdate "mark failed")
      (markFailed faults item attempt permanent retryAt failure status at_ t) :=
  execUpdate_spec faults valid (fun _ => rfl) unchanged_open
    (fun d hd matched _ => unchanged_served valid.sound d hd matched) (fun _ => rfl) (fun _ => rfl)
    (fun _ _ => expectOneDeliveryUpdate_unraised)

theorem activeSinkID_active {t : Tables} {sinkName : String} {sinkID : Nat}
    (h : some sinkID = t.activeSinkID sinkName) : t.Active sinkID := by
  obtain ⟨k, found, rfl⟩ := Option.map_eq_some_iff.mp h.symm
  have named := List.find?_some found
  simp only [decide_eq_true_eq] at named
  exact ⟨k, List.mem_of_find?_eq_some found, rfl, named.2⟩

theorem redriveDelivery_spec (faults : UpdateFaults) (sinkName source id : String) (at_ : Instant)
    {t : Tables} (valid : t.Valid) :
    Updated faults t (redriveTarget t sinkName source id) (redrivenRow at_) redriveJudge
      (redriveDelivery faults sinkName source id at_ t) := by
  refine execUpdate_spec faults valid (fun _ => rfl) ?_ ?_ (fun _ => rfl) (fun _ => rfl) ?_
  · intro d _ matched delivered
    simp [redriveTarget, delivered] at matched
  · intro d _ matched _
    simp only [redriveTarget, decide_eq_true_eq] at matched
    exact activeSinkID_active matched.2.1
  · intro n e judged
    unfold redriveJudge at judged
    split at judged
    · cases Option.some.inj judged
      rfl
    · contradiction

end WriteRelay.Spool
