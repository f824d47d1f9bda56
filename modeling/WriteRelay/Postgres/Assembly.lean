import WriteRelay.Event.Envelope
import WriteRelay.Postgres.Capture
import WriteRelay.Spool.Replay

/-! Transaction assembly against a reference grouping of the message stream into segments
from Begin to Commit. -/
namespace WriteRelay.Postgres
open Clock Spool Fallible

structure Segment where
  xid : UInt32
  body : List Message
  commitLSN : LSN
  endLSN : LSN
  commitTime : Instant

/-- The complete segments, and the Begin without Commit with what followed it. -/
structure Grouping where
  segments : List Segment
  open_ : Option (UInt32 × List Message)

def Grouping.add (g : Grouping) : Message → Grouping
  | .begin xid => { g with open_ := some (xid, []) }
  | .commit commitLSN endLSN commitTime =>
    match g.open_ with
    | some (xid, body) => ⟨g.segments ++ [⟨xid, body, commitLSN, endLSN, commitTime⟩], none⟩
    | none => g
  | message => { g with open_ := g.open_.map fun o => (o.1, o.2 ++ [message]) }

def grouping (messages : List Message) : Grouping := messages.foldl Grouping.add ⟨[], none⟩

theorem grouping_concat (messages : List Message) (message : Message) :
    grouping (messages ++ [message]) = (grouping messages).add message := by
  rw [grouping, List.foldl_append]
  rfl

def Message.guarded (limits : Limits) : Message → Option (LSN × Bytes)
  | .logical messagePrefix _ lsn content =>
    if messagePrefix = limits.messagePrefix then some (lsn, content) else none
  | .begin _ | .commit .. | .other => none

def guardedOf (limits : Limits) (body : List Message) : List (LSN × Bytes) :=
  body.filterMap (Message.guarded limits)

def guardedBytes (limits : Limits) (body : List Message) : Nat :=
  ((guardedOf limits body).map (fun m => m.2.length)).sum

/-- The event of a protected message at a position of its segment. -/
def groupedEvent (g : Segment) (index : Nat) (metadata : Event.Metadata) (lsn : LSN)
    (content : Bytes) : CapturedEvent where
  source := metadata.source
  id := metadata.id
  type := metadata.type
  subject := metadata.subject
  payload := content
  payloadSHA256 := Sha256.sum content
  transactionID := g.xid
  messageLSN := lsn
  commitLSN := g.commitLSN
  commitEndLSN := g.endLSN
  commitTime := g.commitTime
  messageIndex := index

structure Groups (limits : Limits) (g : Segment) (batch : CommittedBatch) : Prop where
  transactionID : batch.transactionID = g.xid
  commitLSN : batch.commitLSN = g.commitLSN
  commitEndLSN : batch.commitEndLSN = g.endLSN
  commitTime : batch.commitTime = g.commitTime
  length : batch.events.length = (guardedOf limits g.body).length
  event : ∀ (index : Nat) lsn content, (guardedOf limits g.body)[index]? = some (lsn, content) →
    ∃ metadata, Event.validate content limits.maxEventBytes = .ok metadata ∧
      batch.events[index]? = some (groupedEvent g index metadata lsn content)

/-- A message that may not follow a stream with this segment open. -/
def Offends (limits : Limits) (open_ : Option (UInt32 × List Message)) : Message → Prop
  | .begin _ => open_ ≠ none
  | .commit .. => open_ = none
  | .other => False
  | .logical messagePrefix transactional _ content => messagePrefix = limits.messagePrefix ∧
    (transactional = false ∨ open_ = none ∨ ∃ xid body, open_ = some (xid, body) ∧
      (limits.maxEvents < (guardedOf limits body).length + 1 ∨
        limits.maxBytes < guardedBytes limits body + content.length ∨
        ∀ metadata, Event.validate content limits.maxEventBytes ≠ .ok metadata))

/-- What a machine makes of a stream, up to the first message that it refuses. -/
structure Fed where
  accepted : List Message
  batches : List CommittedBatch
  machine : StateMachine
  refused : Option (Message × Failure)

def feed (limits : Limits) : StateMachine → List Message → Fed
  | s, [] => ⟨[], [], s, none⟩
  | s, message :: rest =>
    match consume limits s message with
    | .error e => ⟨[], [], s, some (message, e)⟩
    | .ok (s', batch) =>
      let fed := feed limits s' rest
      { fed with accepted := message :: fed.accepted, batches := batch.toList ++ fed.batches }

def Buffered (limits : Limits) (m : LSN × Bytes) (e : CapturedEvent) : Prop :=
  ∃ metadata, Event.validate m.2 limits.maxEventBytes = .ok metadata ∧
    e = capturedEvent metadata m.1 m.2

structure Inside (limits : Limits) (xid : UInt32) (body : List Message) (s : StateMachine) : Prop where
  inTransaction : s.inTransaction = true
  transactionID : s.transactionID = xid
  events : List.Forall₂ (Buffered limits) (guardedOf limits body) s.events
  bytes : s.bufferedBytes = guardedBytes limits body
  room : 0 ≤ limits.maxBytes → s.bufferedBytes ≤ limits.maxBytes

/-- The machine and the batches after these messages. -/
structure Tracks (limits : Limits) (done : List Message) (s : StateMachine)
    (batches : List CommittedBatch) : Prop where
  batches : List.Forall₂ (Groups limits) (grouping done).segments batches
  idle : (grouping done).open_ = none → s = .reset
  inside : ∀ xid body, (grouping done).open_ = some (xid, body) → Inside limits xid body s

section Consume

variable {limits : Limits} {s s' : StateMachine} {b : Option CommittedBatch}

theorem Inside.length {xid : UInt32} {body : List Message} (h : Inside limits xid body s) :
    s.events.length = (guardedOf limits body).length := h.events.length_eq.symm

theorem guardedBytes_concat (body : List Message) (message : Message) :
    guardedBytes limits (body ++ [message]) =
      guardedBytes limits body + ((message.guarded limits).map (fun m => m.2.length)).getD 0 := by
  cases shown : message.guarded limits <;>
    simp [guardedBytes, guardedOf, List.filterMap_append, shown]

theorem Inside.logical {xid : UInt32} {body : List Message} (h : Inside limits xid body s)
    (lsn : LSN) (content : Bytes)
    (fits : ¬Offends limits (some (xid, body)) (.logical limits.messagePrefix true lsn content)) :
    ∃ s', consume limits s (.logical limits.messagePrefix true lsn content) = .ok (s', none) ∧
      Inside limits xid (body ++ [.logical limits.messagePrefix true lsn content]) s' := by
  have room : Room limits s content.length ∧
      ∃ metadata, Event.validate content limits.maxEventBytes = .ok metadata := by
    simp only [Offends, true_and, Bool.true_eq_false, false_or, reduceCtorEq, not_exists, not_and,
      not_or, not_lt, not_forall, not_not] at fits
    obtain ⟨count, bytes, valid⟩ := fits xid body rfl
    refine ⟨⟨h.inTransaction, ?_, ?_⟩, valid⟩
    · rw [h.length]
      omega
    · rw [h.bytes]
      exact bytes
  obtain ⟨room, metadata, valid⟩ := room
  have step : consume limits s (.logical limits.messagePrefix true lsn content) = _ :=
    consume_logical room
  rw [valid] at step
  refine ⟨_, step, h.inTransaction, h.transactionID, ?_, ?_, fun _ => room.bytes⟩
  · rw [guardedOf, List.filterMap_append]
    simp only [List.filterMap_cons, List.filterMap_nil, Message.guarded, if_true]
    exact List.rel_append h.events (.cons ⟨metadata, valid, rfl⟩ .nil)
  · rw [guardedBytes_concat]
    simp [Message.guarded, h.bytes]

theorem consume_logical_error {xid : UInt32} {body : List Message} (h : Inside limits xid body s)
    {lsn : LSN} {content : Bytes}
    (bad : limits.maxEvents < (guardedOf limits body).length + 1 ∨
        limits.maxBytes < guardedBytes limits body + content.length ∨
        ∀ metadata, Event.validate content limits.maxEventBytes ≠ .ok metadata) :
    ∃ e, consume limits s (.logical limits.messagePrefix true lsn content) = .error e := by
  cases done : consume limits s (.logical limits.messagePrefix true lsn content) with
  | error e => exact ⟨e, rfl⟩
  | ok r =>
    simp only [consume, Except.map] at done
    split at done
    · contradiction
    · rename_i next accepted
      simp only [consumeLogicalMessage, ne_eq, not_true_eq_false, if_false] at accepted
      obtain ⟨_, _, accepted⟩ := bind_ok_iff.mp accepted
      obtain ⟨_, _, accepted⟩ := bind_ok_iff.mp accepted
      obtain ⟨_, count, accepted⟩ := bind_ok_iff.mp accepted
      obtain ⟨_, bytes, accepted⟩ := bind_ok_iff.mp accepted
      obtain ⟨metadata, valid, _⟩ := bind_ok_iff.mp accepted
      have count := refuse_ok_iff.mp count
      have bytes := refuse_ok_iff.mp bytes
      rw [h.length] at count
      rw [h.bytes] at bytes
      rcases bad with more | longer | invalid
      · omega
      · omega
      · cases checked : Event.validate content limits.maxEventBytes with
        | ok m => exact absurd checked (invalid m)
        | error e =>
          rw [checked] at valid
          contradiction

theorem consume_ignored {message : Message} (h : message = .other ∨ ∃ messagePrefix transactional lsn
    content, message = .logical messagePrefix transactional lsn content ∧
      messagePrefix ≠ limits.messagePrefix) : consume limits s message = .ok (s, none) := by
  rcases h with rfl | ⟨messagePrefix, transactional, lsn, content, rfl, foreign⟩
  · rfl
  · simp only [consume, consumeLogicalMessage, if_pos foreign]
    rfl

theorem Inside.commit {xid : UInt32} {body : List Message} (h : Inside limits xid body s)
    (commitLSN endLSN : LSN) (commitTime : Instant) :
    Groups limits ⟨xid, body, commitLSN, endLSN, commitTime⟩
      (committedBatch s commitLSN endLSN commitTime) where
  transactionID := h.transactionID
  commitLSN := rfl
  commitEndLSN := rfl
  commitTime := rfl
  length := by simp [committedBatch, h.length]
  event index lsn content given := by
    obtain ⟨e, stored, metadata, valid, rfl⟩ := Rows.forall₂_getElem? h.events given
    refine ⟨metadata, valid, ?_⟩
    simp only [committedBatch, List.getElem?_mapIdx, stored, Option.map_some, Option.some.injEq]
    simp [commitEvent, capturedEvent, groupedEvent, h.transactionID]

theorem consume_nontransactional (lsn : LSN) (content : Bytes) :
    ∃ e, consume limits s (.logical limits.messagePrefix false lsn content) = .error e := by
  simp [consume, consumeLogicalMessage, refuse, Except.map, Bind.bind, Except.bind]

theorem consume_outside (transactional : Bool) (lsn : LSN) (content : Bytes) :
    ∃ e, consume limits .reset (.logical limits.messagePrefix transactional lsn content) = .error e := by
  cases transactional <;>
    simp [consume, consumeLogicalMessage, refuse, StateMachine.reset, Except.map, Bind.bind, Except.bind]

theorem Tracks.refuses {done : List Message} {batches : List CommittedBatch}
    (h : Tracks limits done s batches) {message : Message}
    (bad : Offends limits (grouping done).open_ message) : ∃ e, consume limits s message = .error e := by
  cases message with
  | begin xid =>
    obtain ⟨⟨xid', body⟩, opened⟩ := Option.ne_none_iff_exists'.mp bad
    exact ⟨_, by rw [consume, refuse, if_pos (h.inside xid' body opened).inTransaction]; rfl⟩
  | commit commitLSN endLSN commitTime =>
    rw [h.idle bad]
    exact ⟨_, rfl⟩
  | other => exact absurd bad id
  | logical messagePrefix transactional lsn content =>
    obtain ⟨rfl, bad⟩ := bad
    cases opened : (grouping done).open_ with
    | none =>
      rw [h.idle opened]
      exact consume_outside transactional lsn content
    | some segment =>
      obtain ⟨xid, body⟩ := segment
      cases transactional with
      | false => exact consume_nontransactional lsn content
      | true =>
        rw [opened] at bad
        simp only [Bool.true_eq_false, reduceCtorEq, false_or] at bad
        obtain ⟨_, _, same, bad⟩ := bad
        cases Option.some.inj same
        exact consume_logical_error (h.inside xid body opened) bad

theorem Tracks.carry {done : List Message} {batches : List CommittedBatch}
    (h : Tracks limits done s batches) {message : Message}
    (added : ∀ g : Grouping, g.add message =
      { g with open_ := g.open_.map fun o => (o.1, o.2 ++ [message]) })
    (idle : (grouping done).open_ = none → s' = .reset)
    (inside : ∀ xid body, (grouping done).open_ = some (xid, body) →
      Inside limits xid (body ++ [message]) s') : Tracks limits (done ++ [message]) s' batches := by
  refine ⟨?_, ?_, ?_⟩ <;> rw [grouping_concat, added]
  · exact h.batches
  · intro closed
    exact idle (Option.map_eq_none_iff.mp closed)
  · intro xid body opened
    obtain ⟨⟨xid', body'⟩, before, same⟩ := Option.map_eq_some_iff.mp opened
    obtain ⟨rfl, rfl⟩ := Prod.mk.inj same
    exact inside xid' body' before

theorem Tracks.skip {done : List Message} {batches : List CommittedBatch}
    (h : Tracks limits done s batches) {message : Message}
    (added : ∀ g : Grouping, g.add message =
      { g with open_ := g.open_.map fun o => (o.1, o.2 ++ [message]) })
    (plain : message.guarded limits = none) : Tracks limits (done ++ [message]) s batches := by
  refine h.carry added h.idle fun xid body opened => ?_
  have inside := h.inside xid body opened
  refine ⟨inside.inTransaction, inside.transactionID, ?_, ?_, inside.room⟩
  · simpa [guardedOf, List.filterMap_append, plain] using inside.events
  · rw [guardedBytes_concat, plain]
    exact inside.bytes

theorem Tracks.accepts {done : List Message} {batches : List CommittedBatch}
    (h : Tracks limits done s batches) {message : Message}
    (good : ¬Offends limits (grouping done).open_ message) :
    ∃ s' b, consume limits s message = .ok (s', b) ∧
      Tracks limits (done ++ [message]) s' (batches ++ b.toList) := by
  cases message with
  | begin xid =>
    -- a begin is in order when no transaction is open
    have closed := not_not.mp good
    rw [h.idle closed]
    refine ⟨⟨true, xid, [], 0⟩, none, rfl, ?_⟩
    refine ⟨?_, ?_, ?_⟩ <;> rw [grouping_concat]
    · simpa [Grouping.add] using h.batches
    · simp [Grouping.add]
    · intro xid' body opened
      simp only [Grouping.add, Option.some.injEq, Prod.mk.injEq] at opened
      obtain ⟨rfl, rfl⟩ := opened
      exact ⟨rfl, rfl, .nil, rfl, id⟩
  | commit commitLSN endLSN commitTime =>
    obtain ⟨⟨xid, body⟩, opened⟩ := Option.ne_none_iff_exists'.mp good
    have inside := h.inside xid body opened
    refine ⟨.reset, some (committedBatch s commitLSN endLSN commitTime), ?_, ?_⟩
    · rw [consume, refuse, if_neg (by simp [inside.inTransaction])]
      rfl
    · refine ⟨?_, ?_, ?_⟩ <;> rw [grouping_concat]
      · simp only [Grouping.add, opened, Option.toList_some]
        exact List.rel_append h.batches (.cons (inside.commit commitLSN endLSN commitTime) .nil)
      · exact fun _ => rfl
      · simp [Grouping.add, opened]
  | other =>
    refine ⟨s, none, rfl, ?_⟩
    simpa using h.skip (fun _ => rfl) rfl
  | logical messagePrefix transactional lsn content =>
    by_cases foreign : messagePrefix ≠ limits.messagePrefix
    · have plain : (Message.logical messagePrefix transactional lsn content).guarded limits = none :=
        if_neg foreign
      refine ⟨s, none, consume_ignored (.inr ⟨_, _, _, _, rfl, foreign⟩), ?_⟩
      simpa using h.skip (fun _ => rfl) plain
    · obtain rfl := not_not.mp foreign
      have transactional : transactional = true := by
        by_contra loose
        exact good ⟨rfl, .inl (by simpa using loose)⟩
      have opened : (grouping done).open_ ≠ none := fun closed => good ⟨rfl, .inr (.inl closed)⟩
      subst transactional
      obtain ⟨⟨xid, body⟩, opened⟩ := Option.ne_none_iff_exists'.mp opened
      obtain ⟨s', step, inside⟩ := (h.inside xid body opened).logical lsn content (opened ▸ good)
      refine ⟨s', none, step, ?_⟩
      rw [Option.toList_none, List.append_nil]
      refine h.carry (fun _ => rfl) (fun closed => ?_) fun xid' body' same => ?_
      · rw [opened] at closed
        contradiction
      · rw [opened] at same
        cases Option.some.inj same
        exact inside

theorem Tracks.feed (messages : List Message) {done : List Message} {batches : List CommittedBatch}
    (h : Tracks limits done s batches) :
    Tracks limits (done ++ (feed limits s messages).accepted) (feed limits s messages).machine
      (batches ++ (feed limits s messages).batches) ∧
    (∀ before message after, (feed limits s messages).accepted = before ++ message :: after →
      ¬Offends limits (grouping (done ++ before)).open_ message) ∧
    ((feed limits s messages).refused = none → (feed limits s messages).accepted = messages) ∧
    ∀ message e, (feed limits s messages).refused = some (message, e) →
      (∃ rest, messages = (feed limits s messages).accepted ++ message :: rest) ∧
      Offends limits (grouping (done ++ (feed limits s messages).accepted)).open_ message := by
  induction messages generalizing s done batches with
  | nil => simpa [Postgres.feed] using h
  | cons message rest ih =>
    unfold Postgres.feed
    by_cases bad : Offends limits (grouping done).open_ message
    · obtain ⟨e, refused⟩ := h.refuses bad
      simp only [refused]
      refine ⟨by simpa using h, by simp, by simp, ?_⟩
      rintro _ _ ⟨⟩
      exact ⟨⟨rest, rfl⟩, by simpa using bad⟩
    · obtain ⟨s', b, accepted, next⟩ := h.accepts bad
      simp only [accepted]
      obtain ⟨tracks, clean, complete, refused⟩ := ih next
      simp only [List.append_assoc, List.singleton_append] at tracks clean refused
      refine ⟨tracks, ?_, ?_, ?_⟩
      · intro before m after cut
        cases before with
        | nil =>
          obtain ⟨rfl, _⟩ := List.cons.inj cut
          simpa using bad
        | cons first before =>
          obtain ⟨rfl, tail⟩ := List.cons.inj cut
          exact clean before m after tail
      · intro ended
        rw [complete ended]
      · intro m e ended
        obtain ⟨⟨more, cut⟩, offence⟩ := refused m e ended
        exact ⟨⟨more, by rw [List.cons_append, ← cut]⟩, offence⟩

end Consume

theorem Groups.valid {limits : Limits} {g : Segment} {batch : CommittedBatch} (h : Groups limits g batch)
    {index : Nat} {e : CapturedEvent} (at_ : batch.events[index]? = some e) :
    validateCapturedEvent batch e index = .ok () := by
  have bound := (List.getElem?_eq_some_iff.mp at_).1
  rw [h.length] at bound
  obtain ⟨metadata, accepted, stored⟩ := h.event index _ _ (List.getElem?_eq_getElem bound)
  cases Option.some.inj (at_.symm.trans stored)
  obtain ⟨_, _, accepted⟩ := bind_ok_iff.mp accepted
  obtain ⟨_, _, accepted⟩ := bind_ok_iff.mp accepted
  obtain ⟨members, _, accepted⟩ := bind_ok_iff.mp accepted
  have envelope := Event.validateObject_ok_iff.mp accepted
  unfold validateCapturedEvent
  refine bind_ok_iff.mpr ⟨(), refuse_ok_iff.mpr ?_, bind_ok_iff.mpr ⟨(), refuse_ok_iff.mpr ?_,
    refuse_ok_iff.mpr ?_⟩⟩
  · simp [groupedEvent, envelope.source.2, envelope.id.2, envelope.type.2]
  · simp [groupedEvent, h.transactionID, h.commitLSN, h.commitEndLSN, h.commitTime]
  · simp [groupedEvent]

/-- What feeding a stream to a fresh machine gives. -/
structure Assembled (limits : Limits) (messages : List Message) (fed : Fed) : Prop where
  complete : fed.refused = none → fed.accepted = messages
  refused : ∀ message e, fed.refused = some (message, e) →
    (∃ rest, messages = fed.accepted ++ message :: rest) ∧
      Offends limits (grouping fed.accepted).open_ message
  clean : ∀ before message after, fed.accepted = before ++ message :: after →
    ¬Offends limits (grouping before).open_ message
  batches : List.Forall₂ (Groups limits) (grouping fed.accepted).segments fed.batches
  ignored : ∀ message, (message = .other ∨ ∃ messagePrefix transactional lsn content,
    message = .logical messagePrefix transactional lsn content ∧ messagePrefix ≠ limits.messagePrefix) →
      consume limits fed.machine message = .ok (fed.machine, none)
  bytes : fed.machine.bufferedBytes = (fed.machine.events.map (fun e => e.payload.length)).sum
  room : 0 ≤ limits.maxBytes → fed.machine.bufferedBytes ≤ limits.maxBytes
  valid : ∀ batch ∈ fed.batches, ∀ (index : Nat) e, batch.events[index]? = some e →
    validateCapturedEvent batch e index = .ok ()

theorem buffered_lengths {limits : Limits} {ms : List (LSN × Bytes)} {events : List CapturedEvent}
    (h : List.Forall₂ (Buffered limits) ms events) :
    ms.map (fun m => m.2.length) = events.map (fun e => e.payload.length) := by
  apply Rows.map_eq_of_forall₂ _ h
  rintro m _ ⟨metadata, _, rfl⟩
  rfl

theorem Tracks.start (limits : Limits) : Tracks limits [] .reset [] :=
  ⟨.nil, fun _ => rfl, nofun⟩

theorem feed_groups (limits : Limits) (messages : List Message) :
    List.Forall₂ (Groups limits) (grouping (feed limits .reset messages).accepted).segments
      (feed limits .reset messages).batches := by
  simpa using ((Tracks.start limits).feed messages).1.batches

theorem feed_valid {limits : Limits} {messages : List Message} {batch : CommittedBatch}
    (member : batch ∈ (feed limits .reset messages).batches) (index : Nat) (e : CapturedEvent)
    (at_ : batch.events[index]? = some e) : validateCapturedEvent batch e index = .ok () := by
  obtain ⟨g, _, groups⟩ := Rows.exists_of_forall₂ (feed_groups limits messages).flip member
  exact groups.valid at_

theorem transaction_assembly (limits : Limits) (messages : List Message) :
    Assembled limits messages (feed limits .reset messages) := by
  obtain ⟨tracks, clean, complete, refused⟩ := (Tracks.start limits).feed messages
  simp only [List.nil_append] at tracks clean refused
  have buffer : (feed limits .reset messages).machine.bufferedBytes =
        ((feed limits .reset messages).machine.events.map (fun e => e.payload.length)).sum ∧
      (0 ≤ limits.maxBytes → (feed limits .reset messages).machine.bufferedBytes ≤ limits.maxBytes) := by
    cases opened : (grouping (feed limits .reset messages).accepted).open_ with
    | none =>
      rw [tracks.idle opened]
      exact ⟨rfl, id⟩
    | some segment =>
      have inside := tracks.inside segment.1 segment.2 opened
      exact ⟨by rw [inside.bytes, guardedBytes, buffered_lengths inside.events], inside.room⟩
  exact ⟨complete, refused, clean, tracks.batches, fun _ => consume_ignored, buffer.1, buffer.2,
    fun _ => feed_valid⟩

/-- What persisting an assembled batch does, in any state of the spool. -/
structure BatchOutcome (codec : LsnCodec) (env : PersistEnv) (batch : CommittedBatch) (t : Tables) :
    Prop where
  fails : (∃ f, persistCommittedBatch env batch t = .error f) ↔ Conflicts t [] batch.events
  conflict : ∀ f, persistCommittedBatch env batch t = .error f →
    f.sentinel = some .identityConflict ∧ ((Operation.persist env batch).exec t).tables = t
  persisted : ∀ t' result, persistCommittedBatch env batch t = .ok (t', result) →
    Persisted env t batch.events batch.commitEndLSN t' result ∧
      ∀ later, (codedSpool codec).Steps t' later → Recorded later batch.events
  replays : Recorded t batch.events → ∀ envs : List PersistEnv,
    (∀ env ∈ envs, env.codec = codec ∧ env.Unfaulted) →
      t.SameRows (runAll (envs.map fun env => .persist env batch) t)

theorem persist_outcome {codec : LsnCodec} {t : Tables} (reachable : (codedSpool codec).Reachable t)
    {env : PersistEnv} (coded : env.codec = codec) (quiet : env.Unfaulted) {limits : Limits}
    {messages : List Message} {batch : CommittedBatch}
    (produced : batch ∈ (feed limits .reset messages).batches)
    (ordered : batch.commitLSN ≤ batch.commitEndLSN) : BatchOutcome codec env batch t := by
  subst coded
  have valid := spool_valid (spoolWith_reachable reachable)
  have replays : Recorded t batch.events → ∀ envs : List PersistEnv,
      (∀ env' ∈ envs, env'.codec = env.codec ∧ env'.Unfaulted) →
        t.SameRows (runAll (envs.map fun env => .persist env batch) t) := fun stored envs unfaulted =>
    replays_sameRows ordered (feed_valid produced) unfaulted reachable stored
  obtain ⟨conflicting, agreeing⟩ :=
    persistCommittedBatch_exact valid (codedSpool_coded reachable) quiet ordered (feed_valid produced)
  by_cases conflict : Conflicts t [] batch.events
  · obtain ⟨f, failed, sentinel⟩ := conflicting conflict
    refine ⟨⟨fun _ => conflict, fun _ => ⟨f, failed⟩⟩, ?_, ?_, replays⟩
    · intro f' failed'
      cases Except.error.inj (failed.symm.trans failed')
      exact ⟨sentinel, by simp only [Operation.exec, failed]; rfl⟩
    · intro t' result done
      rw [failed] at done
      contradiction
  · obtain ⟨t', result, done, persisted⟩ := agreeing conflict
    have succeeds : ∀ f, persistCommittedBatch env batch t ≠ .error f := by simp [done]
    refine ⟨⟨fun failed => absurd failed.choose_spec (succeeds _), fun is => absurd is conflict⟩,
      fun f failed => absurd failed (succeeds f), ?_, replays⟩
    intro _ _ again
    cases Except.ok.inj (done.symm.trans again)
    refine ⟨persisted, fun later run => ?_⟩
    have next : (codedSpool env.codec).Reachable t' := reachable.step ⟨.persist env batch,
      fun _ _ is => by cases is; rfl, exec_persist done⟩
    exact (persistCommittedBatch_recorded valid done).extends (spoolWith_extends next run)

section Sample

def sampleMessages : List Message :=
  [.begin 7, .other, .logical "writerelay.v1" true 15 sampleContent, .commit 20 30 0]

def configuredTables : Tables := runAll [sampleConfigure] .empty

theorem persist_outcome_sample : sampleBatch ∈ (feed sampleLimits .reset sampleMessages).batches ∧
    BatchOutcome .decimal sampleEnv sampleBatch configuredTables ∧
    (persistCommittedBatch sampleEnv sampleBatch configuredTables).isOk = true := by
  have produced : sampleBatch ∈ (feed sampleLimits .reset sampleMessages).batches := by
    decide +kernel
  have reachable : (codedSpool .decimal).Reachable configuredTables :=
    ((codedSpool .decimal).reachable_init rfl).step ⟨sampleConfigure, nofun, rfl⟩
  refine ⟨produced, persist_outcome reachable rfl (fun _ => rfl) produced (by decide), ?_⟩
  decide +kernel

end Sample

end WriteRelay.Postgres
