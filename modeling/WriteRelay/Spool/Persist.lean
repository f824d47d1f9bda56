import WriteRelay.Spool.Invariant

/-! `PersistCommittedBatch`: one SQLite transaction for one PostgreSQL transaction.
A failure at any statement rolls the whole batch back. -/
namespace WriteRelay.Spool
open Clock Fallible
open Sha256 (Digest)

structure CapturedEvent where
  source : String
  id : String
  type : String
  subject : String
  payload : Bytes
  payloadSHA256 : Digest
  transactionID : UInt32
  messageLSN : LSN
  commitLSN : LSN
  commitEndLSN : LSN
  commitTime : Instant
  messageIndex : Nat
  deriving DecidableEq

structure CommittedBatch where
  transactionID : UInt32
  commitLSN : LSN
  commitEndLSN : LSN
  commitTime : Instant
  events : List CapturedEvent
  deriving DecidableEq

structure PersistResult where
  inserted : Nat
  replayed : Nat
  durableLSN : LSN
  deriving DecidableEq

inductive PersistSite
  | begin
  | insertEvent (index : Nat)
  | insertResult (index : Nat)
  | insertedSequence (index : Nat)
  | loadDigest (index : Nat)
  | createDeliveries (index : Nat)
  | readCheckpoint
  | updateCheckpoint
  | commit

/-- What one event of a batch reads from outside: two clock readings, and how many
rowids AUTOINCREMENT leaves out. -/
structure Reading where
  capturedAt : Instant
  dueAt : Instant
  skipped : Nat

structure PersistEnv where
  codec : LsnCodec
  faults : PersistSite → Option String
  readings : Nat → Reading

def validateCapturedEvent (batch : CommittedBatch) (captured : CapturedEvent) (index : Nat) :
    Except Failure Unit := do
  refuse (captured.source = "" ∨ captured.id = "" ∨ captured.type = "")
    (errorf (some .durability) "%w: event %d has empty identity or type" [toString index])
  refuse (captured.transactionID ≠ batch.transactionID ∨ captured.commitLSN ≠ batch.commitLSN ∨
      captured.commitEndLSN ≠ batch.commitEndLSN ∨ captured.commitTime ≠ batch.commitTime ∨
      captured.messageIndex ≠ index)
    (errorf (some .durability) "%w: event %d metadata does not match committed batch"
      [toString index])
  refuse (Sha256.sum captured.payload ≠ captured.payloadSHA256)
    (errorf (some .durability) "%w: event %d payload digest is invalid" [toString index])

/-- The row of the INSERT, with `NULLIF(subject, '')`. -/
def eventRow (env : PersistEnv) (index sequence : Nat) (captured : CapturedEvent) : EventRow where
  sequence := sequence
  source := captured.source
  id := captured.id
  type := captured.type
  subject := if captured.subject = "" then none else some captured.subject
  payload := captured.payload
  payloadSHA256 := captured.payloadSHA256
  transactionID := captured.transactionID
  messageLSN := env.codec.format captured.messageLSN
  commitLSN := env.codec.format captured.commitLSN
  commitEndLSN := env.codec.format captured.commitEndLSN
  commitTime := formatRFC3339Nano captured.commitTime
  messageIndex := captured.messageIndex
  capturedAt := formatRFC3339Nano (env.readings index).capturedAt
  payloadPrunedAt := none

/-- The tables, whether a row was inserted, and the event's sequence. -/
def insertOrVerify (env : PersistEnv) (index : Nat) (captured : CapturedEvent) (t : Tables) :
    Except Failure (Tables × Bool × Nat) := do
  attempt (env.faults (.insertEvent index))
    (wrapf (some .durability) "%w: insert event %s/%s: %v" [captured.source, captured.id])
  attempt (env.faults (.insertResult index))
    (wrapf (some .durability) "%w: inspect insert result: %v" [])
  match t.findEvent captured.source captured.id with
  | none =>
    attempt (env.faults (.insertedSequence index))
      (wrapf (some .durability) "%w: inspect inserted event sequence: %v" [])
    let sequence := t.lastSequence + 1 + (env.readings index).skipped
    return ({ t with events := t.events ++ [eventRow env index sequence captured],
                     lastSequence := sequence }, true, sequence)
  | some stored =>
    attempt (env.faults (.loadDigest index))
      (wrapf (some .durability) "%w: load replay digest: %v" [])
    refuse (stored.payloadSHA256 ≠ captured.payloadSHA256)
      (errorf (some .identityConflict) "%w: source=%q id=%q" [captured.source, captured.id])
    return (t, false, stored.sequence)

/-- The rows selected by the INSERT of `ensureDeliveriesForEvent`. -/
def deliveriesForEvent (t : Tables) (sequence : Nat) (now : String) : List DeliveryRow :=
  if t.retained sequence then
    (t.sinks.filter (·.active)).map (fun k => pendingDelivery sequence k.sinkID now)
  else []

def ensureDeliveriesForEvent (env : PersistEnv) (index sequence : Nat) (t : Tables) :
    Except Failure Tables := do
  let wrap := wrapf (some .durability) "%w: create delivery records for event %d: %v"
    [toString sequence]
  attempt (env.faults (.createDeliveries index)) wrap
  statement (t.insertDeliveries
    (deliveriesForEvent t sequence (formatTimestamp (env.readings index).dueAt))) wrap

structure Progress where
  tables : Tables
  inserted : Nat
  replayed : Nat
  deriving DecidableEq

def persistEvent (env : PersistEnv) (batch : CommittedBatch) (index : Nat) (captured : CapturedEvent)
    (p : Progress) : Except Failure Progress := do
  validateCapturedEvent batch captured index
  let (tables, inserted, sequence) ← insertOrVerify env index captured p.tables
  let tables ← ensureDeliveriesForEvent env index sequence tables
  return if inserted then ⟨tables, p.inserted + 1, p.replayed⟩
    else ⟨tables, p.inserted, p.replayed + 1⟩

def persistEvents (env : PersistEnv) (batch : CommittedBatch) :
    Nat → List CapturedEvent → Progress → Except Failure Progress
  | _, [], p => .ok p
  | index, captured :: rest, p =>
    persistEvent env batch index captured p >>= persistEvents env batch (index + 1) rest

theorem persistEvents_concat {env : PersistEnv} {batch : CommittedBatch} {index : Nat}
    {done : List CapturedEvent} {captured : CapturedEvent} {p p' p'' : Progress}
    (before : persistEvents env batch index done p = .ok p')
    (next : persistEvent env batch (index + done.length) captured p' = .ok p'') :
    persistEvents env batch index (done ++ [captured]) p = .ok p'' := by
  induction done generalizing index p with
  | nil =>
    cases Except.ok.inj before
    exact bind_ok_iff.mpr ⟨p'', next, rfl⟩
  | cons first rest ih =>
    obtain ⟨p₁, run, before⟩ := bind_ok_iff.mp before
    rw [List.length_cons, Nat.add_comm rest.length, ← Nat.add_assoc] at next
    exact bind_ok_iff.mpr ⟨p₁, run, ih before next⟩

/-- `lastDurableLSNTx`: no row reads as zero. -/
def parseCheckpoint (codec : LsnCodec) : Option String → Except String LSN
  | none => .ok 0
  | some value =>
    match codec.parse value with
    | some l => .ok l
    | none => .error ("failed to parse LSN: " ++ value)

def advanceCheckpoint (env : PersistEnv) (batch : CommittedBatch) (p : Progress) :
    Except Failure (Tables × PersistResult) := do
  let wrap := wrapf (some .durability) "%w: read durable checkpoint: %v" []
  attempt (env.faults .readCheckpoint) wrap
  let current ← (parseCheckpoint env.codec p.tables.durableLSN).mapError (fun e => wrap (.fault e))
  if current < batch.commitEndLSN then do
    attempt (env.faults .updateCheckpoint)
      (wrapf (some .durability) "%w: update durable checkpoint: %v" [])
    return ({ p.tables with durableLSN := some (env.codec.format batch.commitEndLSN) },
      ⟨p.inserted, p.replayed, batch.commitEndLSN⟩)
  else return (p.tables, ⟨p.inserted, p.replayed, current⟩)

def commitBatch (env : PersistEnv) : Except Failure Unit :=
  attempt (env.faults .commit) (wrapf (some .durability) "%w: commit batch: %v" [])

/-- On success, the committed tables and the result. On failure nothing is committed. -/
def persistCommittedBatch (env : PersistEnv) (batch : CommittedBatch) (t : Tables) :
    Except Failure (Tables × PersistResult) := do
  refuse (batch.commitEndLSN < batch.commitLSN)
    (errorf (some .durability) "%w: commit end LSN %s precedes commit LSN %s"
      [env.codec.format batch.commitEndLSN, env.codec.format batch.commitLSN])
  attempt (env.faults .begin) (wrapf (some .durability) "%w: begin transaction: %v" [])
  let p ← persistEvents env batch 0 batch.events ⟨t, 0, 0⟩
  let committed ← advanceCheckpoint env batch p
  commitBatch env
  return committed

/-- `Store.LastDurableLSN`. -/
def lastDurableLSN (codec : LsnCodec) (fault : Option String) (t : Tables) : Except Failure LSN := do
  attempt fault (wrapf none "read durable LSN: %w" [])
  (parseCheckpoint codec t.durableLSN).mapError
    (fun e => wrapf none "parse durable LSN %q: %w" [t.durableLSN.getD ""] (.fault e))

theorem Tables.Sound.addEvent {t : Tables} (sound : t.Sound) {row : EventRow}
    (later : t.lastSequence < row.sequence) (fresh : row.identity ∉ t.events.map (·.identity)) (retained : row.pruned = false)
    (intact : row.Intact) :
    Tables.Sound { t with events := t.events ++ [row], lastSequence := row.sequence } := by
  refine ⟨⟨?_, ?_, ?_, ?_⟩, ⟨sound.sinks.ids, sound.sinks.bounded, sound.sinks.names⟩, sound.keys, ?_,
    sound.ofSink, sound.served, ?_⟩
  · simp only [List.map_append, List.pairwise_append, List.map_cons, List.map_nil, List.mem_singleton,
      List.mem_map, forall_eq, forall_exists_index, and_imp, forall_apply_eq_imp_iff₂]
    exact ⟨sound.events.ordered, List.pairwise_singleton _ _, fun e he =>
      (sound.events.bounded e he).trans_lt later⟩
  · simp only [List.mem_append, List.mem_singleton]
    rintro e (he | rfl)
    · exact (sound.events.bounded e he).trans later.le
    · exact le_rfl
  · rw [List.map_append]
    exact sound.events.identities.append (by simp) (by simpa using fresh)
  · simp only [List.mem_append, List.mem_singleton]
    rintro e (he | rfl)
    · exact sound.events.intact e he
    · exact intact
  · intro d hd
    obtain ⟨e, he, same⟩ := sound.ofEvent d hd
    exact ⟨e, List.mem_append_left _ he, same⟩
  · simp only [List.mem_append, List.mem_singleton]
    rintro e (he | rfl) pruned
    · exact sound.finished e he pruned
    · simp [retained] at pruned

def PersistEnv.due (env : PersistEnv) (at_ : Instant) : Prop := ∃ i, at_ = (env.readings i).dueAt

def nextRow (env : PersistEnv) (index : Nat) (captured : CapturedEvent) (t : Tables) : EventRow :=
  eventRow env index (t.lastSequence + 1 + (env.readings index).skipped) captured

theorem validateCapturedEvent_spec (batch : CommittedBatch) (captured : CapturedEvent) (index : Nat) :
    Ensures (validateCapturedEvent batch captured index)
      (fun _ => Sha256.sum captured.payload = captured.payloadSHA256) Failure.Unraised := by
  unfold validateCapturedEvent
  refine refuse_unraised.bind fun _ _ => refuse_unraised.bind fun _ _ => ?_
  exact refuse_unraised.mono (fun _ same => not_not.mp same) (fun _ h => h)

theorem findEvent_eq_none {t : Tables} {source id : String} :
    t.findEvent source id = none ↔ (source, id) ∉ t.events.map (·.identity) := by
  simp only [Tables.findEvent, List.find?_eq_none, decide_eq_true_eq, List.mem_map, Prod.mk.injEq,
    not_exists, not_and]

theorem findEvent_eq_some {t : Tables} {source id : String} {e : EventRow}
    (h : t.findEvent source id = some e) : e ∈ t.events ∧ e.identity = (source, id) := by
  have found := List.find?_some h
  exact ⟨List.mem_of_find?_eq_some h, by simpa using found⟩

structure Placed (env : PersistEnv) (index : Nat) (captured : CapturedEvent) (t t' : Tables)
    (sequence : Nat) : Prop where
  events : t'.events = Rows.keep (·.identity) t.events (nextRow env index captured t)
  durableLSN : t'.durableLSN = t.durableLSN
  stored : ∃ e ∈ t'.events, e.identity = (captured.source, captured.id) ∧ e.sequence = sequence ∧
    e.payloadSHA256 = captured.payloadSHA256

theorem insertOrVerify_spec (env : PersistEnv) (index : Nat) (captured : CapturedEvent) {t : Tables}
    (sound : t.Sound) (digest : Sha256.sum captured.payload = captured.payloadSHA256) :
    Ensures (insertOrVerify env index captured t)
      (fun r => r.1.Sound ∧ t.Grows env.due r.1 ∧ Placed env index captured t r.1 r.2.2 ∧
        r.1.deliveries = t.deliveries ∧ r.1.sinks = t.sinks) Failure.Unraised := by
  unfold insertOrVerify
  refine attempt_unraised.bind fun _ _ => attempt_unraised.bind fun _ _ => ?_
  cases found : t.findEvent captured.source captured.id with
  | none =>
    have fresh := findEvent_eq_none.mp found
    refine attempt_unraised.bind fun _ _ => ?_
    have later : t.lastSequence < (nextRow env index captured t).sequence := by
      simp only [nextRow, eventRow]
      omega
    have appended : Rows.keep (·.identity) t.events (nextRow env index captured t) =
        t.events ++ [nextRow env index captured t] := by
      obtain ⟨known, _⟩ | ⟨_, more⟩ := Rows.keep_cases (·.identity) t.events
        (nextRow env index captured t)
      · exact absurd known fresh
      · exact more
    refine ⟨sound.addEvent later fresh rfl digest, ?_, ⟨appended.symm, rfl, ?_⟩, rfl, rfl⟩
    · exact {
        events := fun e he => ⟨e, List.mem_append_left _ he, .inl rfl⟩
        newer := fun e he => by
          rcases List.mem_append.mp he with he | he
          · exact .inl ⟨e, he, .inl rfl⟩
          · cases List.mem_singleton.mp he
            exact .inr later
        sequence := later.le
        sinks := fun k hk => ⟨k, hk, rfl⟩
        deliveries := fun d hd => List.mem_map_of_mem hd
        kept := fun d hd => hd
        added := fun d hd => .inl hd }
    · exact ⟨_, List.mem_append_right _ (List.mem_singleton_self _), rfl, rfl, rfl⟩
  | some stored =>
    obtain ⟨member, identity⟩ := findEvent_eq_some found
    refine attempt_unraised.bind fun _ _ => refuse_unraised.bind fun _ same => ?_
    refine ⟨sound, .refl t, ⟨?_, rfl, stored, member, identity, rfl, not_not.mp same⟩, rfl, rfl⟩
    obtain ⟨_, skipped⟩ | ⟨fresh, _⟩ := Rows.keep_cases (·.identity) t.events
      (nextRow env index captured t)
    · exact skipped.symm
    · exact absurd (List.mem_map.mpr ⟨stored, member, identity⟩) fresh

theorem deliveriesForEvent_admitted {t : Tables} {sequence : Nat} {now : String} {row : DeliveryRow}
    (h : row ∈ deliveriesForEvent t sequence now) :
    t.Admits row ∧ row = pendingDelivery row.eventSequence row.sinkID now := by
  unfold deliveriesForEvent at h
  split at h
  · rename_i retained
    obtain ⟨k, hk, rfl⟩ := List.mem_map.mp h
    obtain ⟨hk, active⟩ := List.mem_filter.mp hk
    exact ⟨⟨retained, k, hk, rfl, active⟩, rfl⟩
  · contradiction

theorem ensureDeliveriesForEvent_spec (env : PersistEnv) (index sequence : Nat) {t : Tables}
    (sound : t.Sound) :
    Ensures (ensureDeliveriesForEvent env index sequence t)
      (fun t' => t'.Sound ∧ t.Grows env.due t' ∧ t'.events = t.events ∧ t'.sinks = t.sinks ∧
        t'.durableLSN = t.durableLSN ∧ (t.retained sequence = true → ∀ sinkID, t.Active sinkID →
          (sequence, sinkID) ∈ t'.deliveries.map (·.key))) Failure.Unraised := by
  unfold ensureDeliveriesForEvent
  refine attempt_unraised.bind fun _ _ => ?_
  generalize rows_eq : deliveriesForEvent t sequence _ = rows
  have admitted : ∀ row ∈ rows, t.Admits row ∧ ∃ at_, env.due at_ ∧
      row = pendingDelivery row.eventSequence row.sinkID (formatTimestamp at_) := by
    intro row hrow
    obtain ⟨admits, pending⟩ := deliveriesForEvent_admitted (rows_eq ▸ hrow)
    exact ⟨admits, _, ⟨index, rfl⟩, pending⟩
  obtain ⟨inserted, after⟩ := sound.insertDeliveries (fun row hrow => (admitted row hrow).1)
  rw [inserted]
  refine ⟨after, Tables.grows_insertDeliveries (fun row hrow => (admitted row hrow).1.1)
    (fun row hrow => (admitted row hrow).2), rfl, rfl, rfl, ?_⟩
  rintro retained sinkID ⟨k, hk, rfl, active⟩
  rw [Rows.mem_keepAll_key, ← rows_eq, deliveriesForEvent, if_pos retained]
  refine .inr (List.mem_map.mpr ⟨_, List.mem_map.mpr ⟨k, List.mem_filter.mpr ⟨hk, active⟩, rfl⟩, rfl⟩)

/-- One iteration of the loop keeps the invariant: the new event is covered before
the next one is looked at. -/
theorem persistEvent_spec (env : PersistEnv) (batch : CommittedBatch) (index : Nat)
    (captured : CapturedEvent) {p : Progress} (valid : p.tables.Valid) :
    Ensures (persistEvent env batch index captured p)
      (fun p' => p'.tables.Valid ∧ p.tables.Grows env.due p'.tables ∧
        ∃ sequence, Placed env index captured p.tables p'.tables sequence) Failure.Unraised := by
  unfold persistEvent
  refine (validateCapturedEvent_spec batch captured index).bind fun _ digest => ?_
  refine (insertOrVerify_spec env index captured valid.sound digest).bind ?_
  rintro ⟨t, inserted, sequence⟩ ⟨sound, grown, placed, deliveries, sinks⟩
  refine (ensureDeliveriesForEvent_spec env index sequence sound).bind ?_
  rintro t' ⟨sound', grown', events, sinks', durable, reached⟩
  have covered : t'.Covered := by
    rintro sinkID ⟨k, hk, id, active⟩ e he retained
    rw [events] at he
    have activeBefore : p.tables.Active sinkID := ⟨k, by rwa [sinks', sinks] at hk, id, active⟩
    obtain ⟨s, hs, identity, rfl, _⟩ := placed.stored
    by_cases old : e ∈ p.tables.events
    · obtain ⟨d, hd, same⟩ := List.mem_map.mp (valid.covered sinkID activeBefore e old retained)
      exact List.mem_map.mpr ⟨d, grown'.kept d (grown.kept d hd), same⟩
    · obtain ⟨_, skipped⟩ | ⟨_, more⟩ := Rows.keep_cases (·.identity) p.tables.events
        (nextRow env index captured p.tables)
      · rw [placed.events, skipped] at he
        contradiction
      · have appended := placed.events.trans more
        rw [appended] at he
        rcases List.mem_append.mp he with he | he
        · contradiction
        · cases List.mem_singleton.mp he
          have same : s = nextRow env index captured p.tables :=
            Rows.key_unique sound.events.identities hs
              (appended ▸ List.mem_append_right _ (List.mem_singleton_self _)) identity
          subst same
          exact reached (Tables.retained_iff.mpr ⟨_, hs, rfl, rfl⟩) sinkID
            ⟨k, sinks' ▸ hk, id, active⟩
  have placed' : Placed env index captured p.tables t' sequence :=
    ⟨events ▸ placed.events, durable.trans placed.durableLSN, events ▸ placed.stored⟩
  cases inserted
  · exact ⟨⟨sound', covered⟩, grown.trans grown', sequence, placed'⟩
  · exact ⟨⟨sound', covered⟩, grown.trans grown', sequence, placed'⟩

def Holds (env : PersistEnv) (captured : CapturedEvent) (row : EventRow) : Prop :=
  ∃ index, row = eventRow env index row.sequence captured

structure Written (env : PersistEnv) (events : List CapturedEvent) (t t' : Tables) : Prop where
  durableLSN : t'.durableLSN = t.durableLSN
  rows : ∃ rows, List.Forall₂ (Holds env) events rows ∧
    t'.events = Rows.keepAll (·.identity) t.events rows
  present : ∀ e ∈ events, ∃ row ∈ t'.events, row.identity = (e.source, e.id) ∧
    row.payloadSHA256 = e.payloadSHA256

theorem Placed.written {env : PersistEnv} {index : Nat} {captured : CapturedEvent} {t t' t'' : Tables}
    {sequence : Nat} {rest : List CapturedEvent} (placed : Placed env index captured t t' sequence)
    (written : Written env rest t' t'') : Written env (captured :: rest) t t'' := by
  obtain ⟨rows, held, events⟩ := written.rows
  refine ⟨written.durableLSN.trans placed.durableLSN,
    ⟨nextRow env index captured t :: rows, .cons ⟨index, rfl⟩ held, ?_⟩, ?_⟩
  · rw [events, placed.events]
    rfl
  · intro e he
    rcases List.mem_cons.mp he with rfl | he
    · obtain ⟨row, hrow, identity, _, digest⟩ := placed.stored
      exact ⟨row, events ▸ Rows.mem_keepAll_of_mem _ hrow rows, identity, digest⟩
    · exact written.present e he

theorem persistEvents_spec (env : PersistEnv) (batch : CommittedBatch) (index : Nat)
    (events : List CapturedEvent) {p : Progress} (valid : p.tables.Valid) :
    Ensures (persistEvents env batch index events p)
      (fun p' => p'.tables.Valid ∧ p.tables.Grows env.due p'.tables ∧
        Written env events p.tables p'.tables) Failure.Unraised := by
  induction events generalizing index p with
  | nil => exact ⟨valid, .refl _, rfl, ⟨[], .nil, rfl⟩, nofun⟩
  | cons captured rest ih =>
    refine (persistEvent_spec env batch index captured valid).bind ?_
    rintro p' ⟨valid', grown, sequence, placed⟩
    refine (ih (index + 1) valid').mono ?_ (fun _ h => h)
    rintro p'' ⟨valid'', grown', written⟩
    exact ⟨valid'', grown.trans grown', placed.written written⟩

theorem Tables.Valid.withCheckpoint {t : Tables} (valid : t.Valid) (value : Option String) :
    Tables.Valid { t with durableLSN := value } := by
  obtain ⟨⟨⟨e₁, e₂, e₃, e₄⟩, ⟨s₁, s₂, s₃⟩, keys, ofEvent, ofSink, served, finished⟩, covered⟩ := valid
  exact ⟨⟨⟨e₁, e₂, e₃, e₄⟩, ⟨s₁, s₂, s₃⟩, keys, ofEvent, ofSink, served, finished⟩, covered⟩

theorem Tables.Grows.withCheckpoint {times : Instant → Prop} {t t' : Tables} (grown : t.Grows times t')
    (value : Option String) : t.Grows times { t' with durableLSN := value } := by
  obtain ⟨⟨events, newer, sequence, sinks, deliveries⟩, kept, added⟩ := grown
  exact ⟨⟨events, newer, sequence, sinks, deliveries⟩, kept, added⟩

def checkpointAfter (codec : LsnCodec) (current last : LSN) (stored : Option String) : Option String :=
  if current < last then some (codec.format last) else stored

theorem advanceCheckpoint_spec (env : PersistEnv) (batch : CommittedBatch) (p : Progress) :
    Ensures (advanceCheckpoint env batch p)
      (fun r => ∃ current, parseCheckpoint env.codec p.tables.durableLSN = .ok current ∧
        r.2.durableLSN = max current batch.commitEndLSN ∧
        r.1 = { p.tables with
          durableLSN := checkpointAfter env.codec current batch.commitEndLSN p.tables.durableLSN })
      Failure.Unraised := by
  unfold advanceCheckpoint
  refine attempt_unraised.bind fun _ _ => ?_
  cases stored : parseCheckpoint env.codec p.tables.durableLSN with
  | error text => exact rfl
  | ok current =>
    change Ensures (if current < batch.commitEndLSN then _ else _) _ _
    split
    · rename_i below
      refine attempt_unraised.bind fun _ _ => ⟨current, rfl, (max_eq_right below.le).symm, ?_⟩
      rw [checkpointAfter, if_pos below]
    · rename_i above
      refine ⟨current, rfl, (max_eq_left (not_lt.mp above)).symm, ?_⟩
      rw [checkpointAfter, if_neg above]

theorem persistCommittedBatch_spec (env : PersistEnv) (batch : CommittedBatch) {t : Tables}
    (valid : t.Valid) :
    Ensures (persistCommittedBatch env batch t)
      (fun r => r.1.Valid ∧ t.Grows env.due r.1) Failure.Unraised := by
  unfold persistCommittedBatch
  refine refuse_unraised.bind fun _ _ => attempt_unraised.bind fun _ _ => ?_
  refine (persistEvents_spec env batch 0 batch.events valid).bind ?_
  rintro p ⟨valid', grown, _⟩
  refine (advanceCheckpoint_spec env batch p).bind ?_
  rintro ⟨t', result⟩ ⟨current, _, _, rfl⟩
  exact Ensures.bind attempt_unraised fun _ _ => ⟨valid'.withCheckpoint _, grown.withCheckpoint _⟩

end WriteRelay.Spool
