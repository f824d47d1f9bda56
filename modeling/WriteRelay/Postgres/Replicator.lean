import WriteRelay.Postgres.StateMachine
import WriteRelay.Spool.Operations

/-! The replicator against a PostgreSQL server: sessions that stream a committed
history, the spool transaction statement by statement, and acknowledgments. -/
namespace WriteRelay.Postgres
open Clock Spool Fallible Runs

structure Slot where
  confirmedFlushLSN : LSN
  restartLSN : LSN

/-- `slotRead` is the outcome of connecting and of reading and validating the slot. -/
def startLSN (codec : LsnCodec) (slotRead : Except Failure Slot) (fault : Option String)
    (t : Tables) : Except Failure LSN := do
  let slot ← slotRead
  let durable ← lastDurableLSN codec fault t
  if durable ≠ 0 then return durable
  else if slot.confirmedFlushLSN ≠ 0 then return slot.confirmedFlushLSN
  else if slot.restartLSN ≠ 0 then return slot.restartLSN
  else .error (errorf none "replication slot has no usable start LSN" [])

structure StandbyStatus where
  walWritePosition : LSN
  walFlushPosition : LSN
  walApplyPosition : LSN

def standbyStatus (durableLSN : LSN) : StandbyStatus := ⟨durableLSN, durableLSN, durableLSN⟩

/-- What does not change during a run: the commit history and the slot as first found. -/
structure Server where
  messagePrefix : String
  codec : LsnCodec
  history : List Txn
  slot : Slot
  increasing : (history.map (·.endLSN)).Pairwise (· < ·)

def Server.initial (server : Server) : LSN :=
  if server.slot.confirmedFlushLSN ≠ 0 then server.slot.confirmedFlushLSN
  else server.slot.restartLSN

def Server.above (server : Server) : List Txn :=
  server.history.filter (fun x => server.initial < x.endLSN)

/-- `inside` is what the server has still to send of the transaction in progress, the
first of `pending`. -/
structure Session where
  limits : Limits
  slotStart : LSN
  durableLSN : LSN
  machine : StateMachine
  pending : List Txn
  inside : Option (List Item)

inductive Phase
  | idle
  | connecting (start : LSN)
  | streaming (session : Session)
  | writing (session : Session) (batch : CommittedBatch) (env : PersistEnv) (index : Nat)
      (rest : List CapturedEvent) (progress : Progress)
  | stored (session : Session) (batch : CommittedBatch) (result : PersistResult)

/-- A status update with the checkpoint in the spool when it was sent, and the slot
position of a session that found no checkpoint. -/
structure Sent where
  status : StandbyStatus
  checkpoint : LSN
  slotStart : LSN

structure World where
  tables : Tables
  confirmed : LSN
  sent : List Sent
  phase : Phase

def checkpoint (codec : LsnCodec) (t : Tables) : LSN :=
  match parseCheckpoint codec t.durableLSN with
  | .ok l => l
  | .error _ => 0

def Phase.inTransaction : Phase → Bool
  | .writing .. => true
  | .idle | .connecting _ | .streaming _ | .stored .. => false

def Message.loose : Message → Bool
  | .logical _ transactional _ _ => !transactional
  | .other => true
  | .begin _ | .commit .. => false

def World.send (server : Server) (w : World) (session : Session) (durableLSN : LSN) : List Sent :=
  ⟨standbyStatus durableLSN, checkpoint server.codec w.tables, session.slotStart⟩ :: w.sent

def openSession (limits : Limits) (start durable : LSN) (pending : List Txn) : Session where
  limits := limits
  slotStart := if durable = 0 then start else 0
  durableLSN := if durable = 0 then start else durable
  machine := .reset
  pending := pending
  inside := none

inductive Step (server : Server) (w : World) : World → Prop
  -- another user of the spool, while no write transaction is open
  | foreign (op : Operation) : (∀ env batch, op ≠ .persist env batch) →
      w.phase.inTransaction = false → Step server w { w with tables := (op.exec w.tables).tables }
  | connect (slot : Slot) (fault : Option String) (start : LSN) : w.phase = .idle →
      slot.confirmedFlushLSN = w.confirmed →
      (w.confirmed = 0 → slot.restartLSN = server.slot.restartLSN) →
      startLSN server.codec (.ok slot) fault w.tables = .ok start →
      Step server w { w with phase := .connecting start }
  | stream (limits : Limits) (start durable : LSN) (fault : Option String) (past pending : List Txn) :
      w.phase = .connecting start → limits.messagePrefix = server.messagePrefix →
      server.above = past ++ pending → (∀ x ∈ past, x.endLSN ≤ start) →
      lastDurableLSN server.codec fault w.tables = .ok durable →
      Step server w { w with phase := .streaming (openSession limits start durable pending) }
  | timeout (session : Session) : w.phase = .streaming session →
      Step server w { w with sent := w.send server session session.durableLSN }
  | keepalive (session : Session) (serverWALEnd : LSN) (replyRequested : Bool) :
      w.phase = .streaming session →
      Step server w { w with
        sent := if replyRequested then w.send server session session.durableLSN else w.sent }
  | loose (session : Session) (message : Message) (machine : StateMachine)
      (batch : Option CommittedBatch) : w.phase = .streaming session → message.loose = true →
      consume session.limits session.machine message = .ok (machine, batch) →
      Step server w { w with phase := .streaming { session with machine } }
  | begin (session : Session) (x : Txn) (rest : List Txn) (machine : StateMachine)
      (batch : Option CommittedBatch) :
      w.phase = .streaming session → session.inside = none → session.pending = x :: rest →
      consume session.limits session.machine (.begin x.xid) = .ok (machine, batch) →
      Step server w { w with
        phase := .streaming { session with machine, inside := some x.messages } }
  | item (session : Session) (i : Item) (rest : List Item) (machine : StateMachine)
      (batch : Option CommittedBatch) :
      w.phase = .streaming session → session.inside = some (i :: rest) →
      consume session.limits session.machine i.message = .ok (machine, batch) →
      Step server w { w with phase := .streaming { session with machine, inside := some rest } }
  -- commit was decoded, the disk check passed and the spool transaction is open
  | commit (session : Session) (x : Txn) (rest : List Txn) (machine : StateMachine)
      (batch : CommittedBatch) (env : PersistEnv) :
      w.phase = .streaming session → session.inside = some [] → session.pending = x :: rest →
      consume session.limits session.machine (.commit x.commitLSN x.endLSN x.commitTime) =
        .ok (machine, some batch) →
      env.codec = server.codec → batch.commitLSN ≤ batch.commitEndLSN → env.faults .begin = none →
      Step server w { w with
        phase := .writing { session with machine, pending := rest, inside := none } batch env 0
          batch.events ⟨w.tables, 0, 0⟩ }
  | write (session : Session) (batch : CommittedBatch) (env : PersistEnv) (index : Nat)
      (captured : CapturedEvent) (rest : List CapturedEvent) (p p' : Progress) :
      w.phase = .writing session batch env index (captured :: rest) p →
      persistEvent env batch index captured p = .ok p' →
      Step server w { w with phase := .writing session batch env (index + 1) rest p' }
  | store (session : Session) (batch : CommittedBatch) (env : PersistEnv) (index : Nat)
      (p : Progress) (t : Tables) (result : PersistResult) :
      w.phase = .writing session batch env index [] p →
      advanceCheckpoint env batch p = .ok (t, result) → commitBatch env = .ok () →
      Step server w { w with tables := t, phase := .stored session batch result }
  | acknowledge (session : Session) (batch : CommittedBatch) (result : PersistResult) :
      w.phase = .stored session batch result → ¬result.durableLSN < batch.commitEndLSN →
      Step server w { w with
        sent := w.send server session result.durableLSN
        phase := .streaming { session with durableLSN := result.durableLSN } }
  -- a crash, a cancelled context, a paused disk, a lost connection or any error
  | stop : Step server w { w with phase := .idle }
  | confirm (s : Sent) : s ∈ w.sent →
      Step server w { w with confirmed := s.status.walFlushPosition }

def replicator (server : Server) : System World where
  init w := w = ⟨.empty, server.slot.confirmedFlushLSN, [], .idle⟩
  step := Step server

theorem write_steps {server : Server} {w : World} {session : Session} {batch : CommittedBatch}
    {env : PersistEnv} {index : Nat} {events : List CapturedEvent} {p p' : Progress}
    (h : persistEvents env batch index events p = .ok p') :
    (replicator server).Steps { w with phase := .writing session batch env index events p }
      { w with phase := .writing session batch env (index + events.length) [] p' } := by
  induction events generalizing index p with
  | nil =>
    cases Except.ok.inj h
    exact .refl
  | cons captured rest ih =>
    obtain ⟨next, first, h⟩ := bind_ok_iff.mp h
    have tail := ih h
    rw [Nat.add_assoc, Nat.add_comm 1] at tail
    exact .head (Step.write session batch env index captured rest p next rfl first) tail

theorem persist_steps {server : Server} {w : World} {session : Session} {batch : CommittedBatch}
    {env : PersistEnv} {t : Tables} {result : PersistResult}
    (h : persistCommittedBatch env batch w.tables = .ok (t, result)) :
    (replicator server).Steps
      { w with phase := .writing session batch env 0 batch.events ⟨w.tables, 0, 0⟩ }
      { w with tables := t, phase := .stored session batch result } := by
  obtain ⟨_, _, h⟩ := bind_ok_iff.mp h
  obtain ⟨_, _, h⟩ := bind_ok_iff.mp h
  obtain ⟨p, written, h⟩ := bind_ok_iff.mp h
  obtain ⟨_, advanced, h⟩ := bind_ok_iff.mp h
  obtain ⟨_, committed, h⟩ := bind_ok_iff.mp h
  cases Except.ok.inj h
  exact (write_steps written).tail
    (Step.store session batch env _ p t result rfl advanced committed)

end WriteRelay.Postgres
