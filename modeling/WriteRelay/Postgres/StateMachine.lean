import WriteRelay.Event.Validate
import WriteRelay.Spool.Persist

/-! `StateMachine.Consume`: pgoutput messages assembled into committed batches. -/
namespace WriteRelay.Postgres
open Clock Spool Fallible

inductive Message
  | begin (xid : UInt32)
  | logical (messagePrefix : String) (transactional : Bool) (lsn : LSN) (content : Bytes)
  | commit (commitLSN transactionEndLSN : LSN) (commitTime : Instant)
  | other

structure Limits where
  messagePrefix : String
  maxEventBytes : Int
  maxEvents : Int
  maxBytes : Int

structure StateMachine where
  inTransaction : Bool
  transactionID : UInt32
  events : List CapturedEvent
  bufferedBytes : Int
  deriving DecidableEq

def StateMachine.reset : StateMachine := ⟨false, 0, [], 0⟩

/-- The commit fields keep Go's zero values until the Commit message. -/
def capturedEvent (metadata : Event.Metadata) (lsn : LSN) (content : Bytes) : CapturedEvent where
  source := metadata.source
  id := metadata.id
  type := metadata.type
  subject := metadata.subject
  payload := content
  payloadSHA256 := Sha256.sum content
  transactionID := 0
  messageLSN := lsn
  commitLSN := 0
  commitEndLSN := 0
  commitTime := -62135596800000000000
  messageIndex := 0

def consumeLogicalMessage (limits : Limits) (s : StateMachine) (messagePrefix : String)
    (transactional : Bool) (lsn : LSN) (content : Bytes) : Except Failure StateMachine :=
  if messagePrefix ≠ limits.messagePrefix then .ok s
  else do
    refuse (transactional = false) (errorf (some .protectedEvent)
      "%w: prefix %q was used by a non-transactional message" [limits.messagePrefix])
    refuse (s.inTransaction = false) (errorf (some .protocolState)
      "%w: protected transactional message outside Begin/Commit" [])
    refuse (limits.maxEvents ≤ s.events.length) (errorf (some .transactionLimit)
      "%w: more than %d accepted events" [toString limits.maxEvents])
    refuse (limits.maxBytes - s.bufferedBytes < content.length) (errorf (some .transactionLimit)
      "%w: accepted event bytes exceed %d" [toString limits.maxBytes])
    let metadata ← (Event.validate content limits.maxEventBytes).mapError
      (fun e => errorf (some .protectedEvent) "%w: %v" [e.format])
    return { s with
      events := s.events ++ [capturedEvent metadata lsn content]
      bufferedBytes := s.bufferedBytes + content.length }

def commitEvent (s : StateMachine) (commitLSN endLSN : LSN) (commitTime : Instant) (index : Nat)
    (e : CapturedEvent) : CapturedEvent :=
  { e with
    transactionID := s.transactionID, commitLSN := commitLSN, commitEndLSN := endLSN,
    commitTime := commitTime, messageIndex := index }

def committedBatch (s : StateMachine) (commitLSN endLSN : LSN) (commitTime : Instant) :
    CommittedBatch :=
  ⟨s.transactionID, commitLSN, endLSN, commitTime,
    s.events.mapIdx (commitEvent s commitLSN endLSN commitTime)⟩

def consume (limits : Limits) (s : StateMachine) :
    Message → Except Failure (StateMachine × Option CommittedBatch)
  | .begin xid => do
    refuse (s.inTransaction = true) (errorf (some .protocolState) "%w: nested Begin" [])
    return (⟨true, xid, [], 0⟩, none)
  | .logical messagePrefix transactional lsn content =>
    (consumeLogicalMessage limits s messagePrefix transactional lsn content).map fun s' => (s', none)
  | .commit commitLSN endLSN commitTime => do
    refuse (s.inTransaction = false) (errorf (some .protocolState) "%w: Commit without Begin" [])
    return (.reset, some (committedBatch s commitLSN endLSN commitTime))
  | .other => .ok (s, none)

structure Room (limits : Limits) (s : StateMachine) (size : Nat) : Prop where
  inTransaction : s.inTransaction = true
  events : s.events.length < limits.maxEvents
  bytes : s.bufferedBytes + size ≤ limits.maxBytes

theorem consume_logical {limits : Limits} {s : StateMachine} {lsn : LSN} {content : Bytes}
    (room : Room limits s content.length) :
    consume limits s (.logical limits.messagePrefix true lsn content) =
      match Event.validate content limits.maxEventBytes with
      | .ok metadata => .ok ({ s with
          events := s.events ++ [capturedEvent metadata lsn content]
          bufferedBytes := s.bufferedBytes + content.length }, none)
      | .error e => .error (errorf (some .protectedEvent) "%w: %v" [e.format]) := by
  have inside : ¬s.inTransaction = false := by rw [room.inTransaction]; decide
  have count : ¬limits.maxEvents ≤ s.events.length := not_le.mpr room.events
  have bytes : ¬limits.maxBytes - s.bufferedBytes < content.length := by
    have := room.bytes
    omega
  simp only [consume, consumeLogicalMessage, ne_eq, not_true_eq_false, if_false, refuse,
    Bool.true_eq_false, inside, count, bytes]
  cases Event.validate content limits.maxEventBytes <;> rfl

/-- The identity that a message content would be stored under, if it is valid. -/
def identityOf (content : Bytes) : Option (String × String) :=
  match Event.decodeObject content >>= Event.validateObject with
  | .ok metadata => some (metadata.source, metadata.id)
  | .error _ => none

theorem identityOf_validate {content : Bytes} {maxBytes : Int} {metadata : Event.Metadata}
    (h : Event.validate content maxBytes = .ok metadata) :
    identityOf content = some (metadata.source, metadata.id) := by
  unfold Event.validate at h
  obtain ⟨_, _, h⟩ := bind_ok_iff.mp h
  obtain ⟨_, _, h⟩ := bind_ok_iff.mp h
  rw [identityOf, h]

inductive Item
  | logical (messagePrefix : String) (transactional : Bool) (lsn : LSN) (content : Bytes)
  | change

def Item.message : Item → Message
  | .logical messagePrefix transactional lsn content =>
    .logical messagePrefix transactional lsn content
  | .change => .other

/-- A transaction that PostgreSQL committed. -/
structure Txn where
  xid : UInt32
  messages : List Item
  commitLSN : LSN
  endLSN : LSN
  commitTime : Instant
  ordered : commitLSN ≤ endLSN

def Item.content (messagePrefix : String) : Item → Option Bytes
  | .logical tag _ _ content => if tag = messagePrefix then some content else none
  | .change => none

def contents (messagePrefix : String) (items : List Item) : List Bytes :=
  items.filterMap (Item.content messagePrefix)

theorem contents_concat (messagePrefix : String) (items : List Item) (item : Item) :
    contents messagePrefix (items ++ [item]) =
      contents messagePrefix items ++ (item.content messagePrefix).toList := by
  rw [contents, List.filterMap_append]
  cases shown : item.content messagePrefix <;> simp [contents, shown]

/-- A captured event that carries a message content unaltered. -/
structure Carries (e : CapturedEvent) (content : Bytes) : Prop where
  payload : e.payload = content
  digest : e.payloadSHA256 = Sha256.sum content
  identity : identityOf content = some (e.source, e.id)

structure Assembles (limits : Limits) (x : Txn) (done : List Item) (s : StateMachine) : Prop where
  inTransaction : s.inTransaction = true
  transactionID : s.transactionID = x.xid
  events : List.Forall₂ Carries s.events (contents limits.messagePrefix done)

theorem consume_begin {limits : Limits} {s s' : StateMachine} {b : Option CommittedBatch} {x : Txn}
    (h : consume limits s (.begin x.xid) = .ok (s', b)) : b = none ∧ Assembles limits x [] s' := by
  obtain ⟨_, _, h⟩ := bind_ok_iff.mp h
  obtain ⟨rfl, rfl⟩ := Prod.mk.inj (Except.ok.inj h)
  exact ⟨rfl, rfl, rfl, .nil⟩

theorem consume_item {limits : Limits} {s s' : StateMachine} {b : Option CommittedBatch} {x : Txn}
    {done : List Item} {item : Item} (assembled : Assembles limits x done s)
    (h : consume limits s item.message = .ok (s', b)) :
    b = none ∧ Assembles limits x (done ++ [item]) s' := by
  cases item with
  | change =>
    obtain ⟨rfl, rfl⟩ := Prod.mk.inj (Except.ok.inj h)
    refine ⟨rfl, assembled.inTransaction, assembled.transactionID, ?_⟩
    simpa [contents_concat, Item.content] using assembled.events
  | logical tag transactional lsn content =>
    simp only [Item.message, consume] at h
    cases done' : consumeLogicalMessage limits s tag transactional lsn content with
    | error e =>
      rw [done'] at h
      contradiction
    | ok next =>
      rw [done'] at h
      obtain ⟨rfl, rfl⟩ := Prod.mk.inj (Except.ok.inj h)
      unfold consumeLogicalMessage at done'
      split at done'
      · rename_i foreign
        cases Except.ok.inj done'
        refine ⟨rfl, assembled.inTransaction, assembled.transactionID, ?_⟩
        simpa [contents_concat, Item.content, foreign] using assembled.events
      · rename_i protected_
        obtain ⟨_, _, done'⟩ := bind_ok_iff.mp done'
        obtain ⟨_, _, done'⟩ := bind_ok_iff.mp done'
        obtain ⟨_, _, done'⟩ := bind_ok_iff.mp done'
        obtain ⟨_, _, done'⟩ := bind_ok_iff.mp done'
        obtain ⟨metadata, valid, done'⟩ := bind_ok_iff.mp done'
        cases Except.ok.inj done'
        have valid : Event.validate content limits.maxEventBytes = .ok metadata := by
          cases checked : Event.validate content limits.maxEventBytes with
          | ok m =>
            rw [checked] at valid
            exact valid
          | error e =>
            rw [checked] at valid
            contradiction
        refine ⟨rfl, assembled.inTransaction, assembled.transactionID, ?_⟩
        rw [contents_concat, Item.content, if_pos (not_not.mp protected_)]
        exact List.rel_append assembled.events (.cons ⟨rfl, rfl, identityOf_validate valid⟩ .nil)

structure Batches (messagePrefix : String) (x : Txn) (batch : CommittedBatch) : Prop where
  commitEndLSN : batch.commitEndLSN = x.endLSN
  events : List.Forall₂ Carries batch.events (contents messagePrefix x.messages)

theorem carries_commitEvent {s : StateMachine} {commitLSN endLSN : LSN} {commitTime : Instant}
    {events : List CapturedEvent} {cs : List Bytes} (h : List.Forall₂ Carries events cs) :
    List.Forall₂ Carries (events.mapIdx (commitEvent s commitLSN endLSN commitTime)) cs := by
  have stamped : ∀ (offset : Nat) {events : List CapturedEvent} {cs : List Bytes},
      List.Forall₂ Carries events cs → List.Forall₂ Carries
        (events.mapIdx (fun i => commitEvent s commitLSN endLSN commitTime (i + offset))) cs := by
    intro offset events cs h
    induction h generalizing offset with
    | nil => exact .nil
    | cons carried _ ih =>
      rw [List.mapIdx_cons]
      refine .cons ⟨carried.payload, carried.digest, carried.identity⟩ ?_
      simpa only [Nat.add_assoc, Nat.add_comm 1] using ih (offset + 1)
  exact stamped 0 h

theorem consume_commit {limits : Limits} {s s' : StateMachine} {b : Option CommittedBatch} {x : Txn}
    (assembled : Assembles limits x x.messages s)
    (h : consume limits s (.commit x.commitLSN x.endLSN x.commitTime) = .ok (s', b)) :
    s' = .reset ∧ ∃ batch, b = some batch ∧ Batches limits.messagePrefix x batch := by
  obtain ⟨_, _, h⟩ := bind_ok_iff.mp h
  obtain ⟨rfl, rfl⟩ := Prod.mk.inj (Except.ok.inj h)
  exact ⟨rfl, _, rfl, rfl, carries_commitEvent assembled.events⟩

end WriteRelay.Postgres
