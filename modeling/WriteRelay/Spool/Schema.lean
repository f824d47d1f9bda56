import WriteRelay.Base.Rows
import WriteRelay.Base.Sha256
import WriteRelay.Clock
import WriteRelay.Failure
import WriteRelay.Lsn

/-! The schema-3 spool: its four tables, the statements the store executes on them,
and the triggers and constraints that can abort a statement. -/
namespace WriteRelay.Spool
open Clock
open Sha256 (Digest)

inductive DeliveryState
  | pending
  | retryWait
  | delivered
  | deadLetter
  deriving DecidableEq, Repr

def DeliveryState.waiting : DeliveryState → Bool
  | .pending | .retryWait => true
  | .delivered | .deadLetter => false

structure EventRow where
  sequence : Nat
  source : String
  id : String
  type : String
  subject : Option String
  payload : Bytes
  payloadSHA256 : Digest
  transactionID : UInt32
  messageLSN : String
  commitLSN : String
  commitEndLSN : String
  commitTime : String
  messageIndex : Nat
  capturedAt : String
  payloadPrunedAt : Option String
  deriving DecidableEq

structure SinkRow where
  sinkID : Nat
  sinkName : String
  sinkType : String
  configSHA256 : Digest
  active : Bool
  createdAt : String
  deriving DecidableEq

structure DeliveryRow where
  eventSequence : Nat
  sinkID : Nat
  state : DeliveryState
  attempts : Nat
  nextAttemptAt : String
  lastAttemptAt : Option String
  deliveredAt : Option String
  deadLetteredAt : Option String
  lastError : Option Bytes
  responseStatus : Option Int
  deriving DecidableEq

/-- The last rowids handed out by the AUTOINCREMENT keys are part of the database. -/
structure Tables where
  events : List EventRow
  lastSequence : Nat
  sinks : List SinkRow
  lastSinkID : Nat
  deliveries : List DeliveryRow
  /-- The value under `last_durable_lsn` in `spool_metadata`. -/
  durableLSN : Option String
  deriving DecidableEq

def Tables.empty : Tables := ⟨[], 0, [], 0, [], none⟩

abbrev EventRow.identity (e : EventRow) : String × String := (e.source, e.id)
abbrev DeliveryRow.key (d : DeliveryRow) : Nat × Nat := (d.eventSequence, d.sinkID)

def EventRow.pruned (e : EventRow) : Bool := e.payloadPrunedAt.isSome

/-- `SET payload = X'', payload_pruned_at = now`. -/
def EventRow.prune (e : EventRow) (now : String) : EventRow :=
  { e with payload := [], payloadPrunedAt := some now }

@[simp] theorem EventRow.prune_sequence (e : EventRow) (now : String) :
    (e.prune now).sequence = e.sequence := rfl

@[simp] theorem EventRow.prune_pruned (e : EventRow) (now : String) : (e.prune now).pruned = true := rfl

def Tables.findEvent (t : Tables) (source id : String) : Option EventRow :=
  t.events.find? (fun e => e.source = source ∧ e.id = id)

def Tables.retained (t : Tables) (sequence : Nat) : Bool :=
  t.events.any (fun e => e.sequence = sequence ∧ e.pruned = false)

def Tables.prunedAt (t : Tables) (sequence : Nat) : Bool :=
  t.events.any (fun e => e.sequence = sequence ∧ e.pruned = true)

def Tables.deliveriesOf (t : Tables) (sequence : Nat) : List DeliveryRow :=
  t.deliveries.filter (fun d => d.eventSequence = sequence)

def pendingDelivery (sequence sinkID : Nat) (now : String) : DeliveryRow :=
  ⟨sequence, sinkID, .pending, 0, now, none, none, none, none, none⟩

/-- One row of `INSERT INTO deliveries ... ON CONFLICT DO NOTHING`. The BEFORE INSERT
trigger fires also for a row that the conflict clause then skips. -/
def Tables.insertDelivery (t : Tables) (row : DeliveryRow) : Except SqlAbort Tables :=
  if t.prunedAt row.eventSequence then .error .requirePayload
  else if t.deliveries.any (fun d => d.key = row.key) then .ok t
  else if t.events.any (fun e => e.sequence = row.eventSequence) ∧
      t.sinks.any (fun k => k.sinkID = row.sinkID) then
    .ok { t with deliveries := t.deliveries ++ [row] }
  else .error .foreignKey

def Tables.insertDeliveries : List DeliveryRow → Tables → Except SqlAbort Tables
  | [], t => .ok t
  | row :: rows, t => t.insertDelivery row >>= insertDeliveries rows

/-- `events_prune_requires_delivered`, for a row whose pruning time becomes non-null. -/
def Tables.unfinished (t : Tables) (sequence : Nat) : Bool :=
  (t.deliveriesOf sequence).isEmpty ||
    (t.deliveriesOf sequence).any (fun d => d.state ≠ .delivered ∨ d.deliveredAt = none)

/-- The BEFORE UPDATE triggers on events and the payload CHECK, for one row. -/
def Tables.eventAbort (t : Tables) (old new : EventRow) : Option SqlAbort :=
  if old.pruned = false ∧ new.pruned = true ∧ t.unfinished old.sequence = true then
    some .pruneRequiresDelivered
  else if old.pruned then some .prunedPayloadImmutable
  else if new.pruned = true ∧ new.payload ≠ [] then some .payloadCheck
  else none

def Tables.updateEvents (t : Tables) (p : EventRow → Bool) (f : EventRow → EventRow) :
    Except SqlAbort (Tables × Nat) :=
  match (t.events.filter p).findSome? (fun e => t.eventAbort e (f e)) with
  | some abort => .error abort
  | none => .ok ({ t with events := Rows.update p f t.events }, t.events.countP p)

/-- `UPDATE deliveries SET f WHERE p`: `deliveries_pruned_terminal` sees every new row. -/
def Tables.updateDeliveries (t : Tables) (p : DeliveryRow → Bool) (f : DeliveryRow → DeliveryRow) :
    Except SqlAbort (Tables × Nat) :=
  if (t.deliveries.filter p).any
      (fun d => (f d).state ≠ .delivered ∧ t.prunedAt (f d).eventSequence = true) then
    .error .prunedTerminal
  else .ok ({ t with deliveries := Rows.update p f t.deliveries }, t.deliveries.countP p)

end WriteRelay.Spool
