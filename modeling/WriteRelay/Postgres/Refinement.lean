import WriteRelay.Postgres.Capture
import WriteRelay.Postgres.Run

/-! A session of `runOnce` is a run of the replicator: the steps of the system store what it
stores and send what it sends, whatever else happens to the spool in between. -/
namespace WriteRelay.Postgres
open Spool Fallible Runs

/-- The spool and the status updates of the world are those of the capture. -/
structure Shows (w : World) (a : Admission) : Prop where
  tables : w.tables = a.tables
  sent : w.sent.map (·.status) = a.acknowledged.map standbyStatus

def Reaches (server : Server) (w : World) (phase : Phase) (a : Admission) : Prop :=
  ∃ w', (replicator server).Steps w w' ∧ w'.phase = phase ∧ w'.confirmed = w.confirmed ∧ Shows w' a

def Others (t t' : Tables) : Prop :=
  ∃ ops : List Operation, (∀ op ∈ ops, ∀ env batch, op ≠ .persist env batch) ∧ runAll ops t = t'

/-- The messages that the server can send a session next, and what it then has still to send. -/
inductive Session.Offers (session : Session) : Message → Session → Prop
  | loose (message : Message) : message.loose = true → Offers session message session
  | begin (x : Txn) (rest : List Txn) : session.inside = none → session.pending = x :: rest →
      Offers session (.begin x.xid) { session with inside := some x.messages }
  | item (i : Item) (rest : List Item) : session.inside = some (i :: rest) →
      Offers session i.message { session with inside := some rest }
  | commit (x : Txn) (rest : List Txn) : session.inside = some [] → session.pending = x :: rest →
      Offers session (.commit x.commitLSN x.endLSN x.commitTime)
        { session with pending := rest, inside := none }

def Received.Fits (codec : LsnCodec) (session next : Session) (t : Tables) : Received → Prop
  | .xlogData _ (.ok message) _ env found _ =>
    env.codec = codec ∧ Others t found ∧ session.Offers message next
  | .xlogData _ (.error _) .. | .timeout _ | .lost _ | .ignored | .keepalive .. => next = session

def Session.stream (session : Session) : Stream := ⟨session.durableLSN, session.machine⟩

def Session.at (session : Session) (stream : Stream) : Session :=
  { session with durableLSN := stream.durableLSN, machine := stream.machine }

def takeTurn (limits : Limits) (stream : Stream) (turn : Turn) : CaptureM Stream := do
  stepping (fun _ => none) (checkDisk false turn.disk)
  receive limits stream turn.received

/-- What the turns bring is what the server sends to this session. -/
def Served (codec : LsnCodec) : Session → Admission → List Turn → Prop
  | _, _, [] => True
  | session, a, turn :: rest => ∃ next, turn.received.Fits codec session next a.tables ∧
      ∀ calls stream s, takeTurn session.limits session.stream turn ⟨a, calls⟩ = .ok stream s →
        Served codec (next.at stream) s.admission rest

/-- What `runOnce` meets is this server, with its slot, and a spool that others share. -/
structure Meets (server : Server) (w : World) (a : Admission) (env : Surroundings) : Prop where
  codec : env.codec = server.codec
  tag : env.limits.messagePrefix = server.messagePrefix
  slot : ∀ slot, env.slotRead = .ok slot → slot.confirmedFlushLSN = w.confirmed ∧
    (w.confirmed = 0 → slot.restartLSN = server.slot.restartLSN)
  startFound : Others a.tables env.startFound
  durableFound : Others env.startFound env.durableFound
  served : ∀ start durable, startLSN env.codec env.slotRead env.startFault env.startFound = .ok start →
    lastDurableLSN env.codec env.durableFault env.durableFound = .ok durable →
    ∃ past pending, server.above = past ++ pending ∧ (∀ x ∈ past, x.endLSN ≤ start) ∧
      Served server.codec (openSession env.limits start durable pending)
        { (checkDisk true env.disk a).1 with tables := env.durableFound } env.turns

section Simulation

variable {server : Server} {w w' : World} {a a' : Admission} {phase : Phase}
  {session next : Session}

theorem Shows.reaches (h : Shows w a) : Reaches server w w.phase a := ⟨w, .refl, rfl, rfl, h⟩

theorem Reaches.stop (h : Reaches server w phase a) : Reaches server w .idle a := by
  obtain ⟨w', run, _, confirmed, shows_⟩ := h
  exact ⟨_, run.tail .stop, rfl, confirmed, shows_.tables, shows_.sent⟩

theorem Reaches.turn (h : Reaches server w phase a) {phase' : Phase}
    (next : ∀ w', w'.phase = phase → w'.confirmed = w.confirmed → w'.tables = a.tables →
      Step server w' { w' with phase := phase' }) : Reaches server w phase' a := by
  obtain ⟨w', run, at_, confirmed, shows_⟩ := h
  exact ⟨_, run.tail (next w' at_ confirmed shows_.tables), rfl, confirmed, shows_.tables, shows_.sent⟩

theorem Others.steps {t' : Tables} (h : Others w.tables t') (outside : w.phase.inTransaction = false) :
    (replicator server).Steps w { w with tables := t' } := by
  obtain ⟨ops, others, rfl⟩ := h
  induction ops generalizing w with
  | nil => exact .refl
  | cons op ops ih =>
    have first : (replicator server).step w { w with tables := (op.exec w.tables).tables } :=
      Step.foreign op (others op List.mem_cons_self) outside
    exact .head first (ih (w := { w with tables := (op.exec w.tables).tables }) outside
      fun other member => others other (List.mem_cons_of_mem _ member))

theorem Reaches.others (h : Reaches server w phase a) {t' : Tables} (moved : Others a.tables t')
    (outside : phase.inTransaction = false) : Reaches server w phase { a with tables := t' } := by
  obtain ⟨w', run, rfl, confirmed, shows_⟩ := h
  rw [← shows_.tables] at moved
  exact ⟨_, run.trans (moved.steps outside), rfl, confirmed, rfl, shows_.sent⟩

theorem Reaches.send (h : Reaches server w phase a) {session' : Session} {durableLSN : LSN}
    (next : ∀ w', w'.phase = phase → Step server w'
      { w' with sent := w'.send server session durableLSN, phase := .streaming session' }) :
    Reaches server w (.streaming session') { a with acknowledged := durableLSN :: a.acknowledged } := by
  obtain ⟨w', run, at_, confirmed, shows_⟩ := h
  refine ⟨_, run.tail (next w' at_), rfl, confirmed, shows_.tables, ?_⟩
  simp [World.send, shows_.sent]

def Opens (server : Server) (session next : Session) (env : PersistEnv) (batch : CommittedBatch) : Prop :=
  ∀ w done, w.phase = .streaming session → persistCommittedBatch env batch w.tables = .ok done →
    Step server w { w with phase := .writing next batch env 0 batch.events ⟨w.tables, 0, 0⟩ }

theorem persistThenAcknowledge_steps {env : PersistEnv} {batch : CommittedBatch}
    (h : Reaches server w (.streaming session) a) (opens : Opens server session next env batch)
    (sendFault : Option Failure) :
    Ensures (persistThenAcknowledge env batch sendFault a).2
      (fun result => Reaches server w (.streaming { next with durableLSN := result.durableLSN })
        (persistThenAcknowledge env batch sendFault a).1)
      (fun _ => Reaches server w .idle (persistThenAcknowledge env batch sendFault a).1) := by
  unfold persistThenAcknowledge
  cases stored : persistCommittedBatch env batch a.tables with
  | error e => exact h.stop
  | ok done =>
    obtain ⟨t, result⟩ := done
    have kept : Reaches server w (.stored next batch result) { a with tables := t } := by
      obtain ⟨w', run, at_, confirmed, shows_⟩ := h
      rw [← shows_.tables] at stored
      exact ⟨_, (run.tail (opens w' _ at_ stored)).trans (persist_steps stored), rfl, confirmed, rfl,
        shows_.sent⟩
    dsimp only
    split
    · exact kept.stop
    · rename_i covers
      have sent := kept.send fun w' at_ => .acknowledge next batch result at_ covers
      cases sendFault with
      | none => exact sent
      | some e => exact sent.stop

theorem consume_batch {limits : Limits} {s s' : StateMachine} {message : Message} {b : CommittedBatch}
    (h : consume limits s message = .ok (s', some b)) :
    ∃ commitLSN endLSN commitTime, message = .commit commitLSN endLSN commitTime := by
  cases message with
  | begin xid =>
    obtain ⟨_, _, h⟩ := bind_ok_iff.mp h
    cases h
  | logical tag transactional lsn content =>
    simp only [consume] at h
    cases ended : consumeLogicalMessage limits s tag transactional lsn content with
    | error e =>
      rw [ended] at h
      contradiction
    | ok machine =>
      rw [ended] at h
      cases h
  | commit commitLSN endLSN commitTime => exact ⟨_, _, _, rfl⟩
  | other => cases h

theorem Session.Offers.same {message : Message} (h : session.Offers message next) :
    next.durableLSN = session.durableLSN ∧ next.limits = session.limits := by
  cases h <;> exact ⟨rfl, rfl⟩

theorem Session.Offers.consumed {message : Message} {machine : StateMachine}
    {batch : Option CommittedBatch} (h : session.Offers message next)
    (consumed : consume session.limits session.machine message = .ok (machine, batch)) :
    match batch with
    | none => ∀ w', w'.phase = .streaming session →
        Step server w' { w' with phase := .streaming { next with machine } }
    | some b => ∀ env : PersistEnv, env.codec = server.codec →
        Opens server session { next with machine } env b := by
  cases batch with
  | none =>
    intro w' at_
    cases h with
    | loose _ loose => exact .loose session message machine none at_ loose consumed
    | begin x rest inside pending =>
      exact .begin session x rest machine none at_ inside pending consumed
    | item i rest inside => exact .item session i rest machine none at_ inside consumed
    | commit =>
      obtain ⟨_, _, consumed⟩ := bind_ok_iff.mp consumed
      cases consumed
  | some b =>
    -- a batch comes out of a commit message only
    intro env codec w' done at_ persisted
    obtain ⟨_, _, _, commits⟩ := consume_batch consumed
    cases h with
    | loose _ loose =>
      rw [commits] at loose
      contradiction
    | begin => contradiction
    | item i => cases i <;> contradiction
    | commit x rest inside pending =>
      obtain ⟨_, ordered, persisted⟩ := bind_ok_iff.mp persisted
      obtain ⟨_, begun, _⟩ := bind_ok_iff.mp persisted
      exact .commit session x rest machine b env at_ inside pending consumed codec
        (not_lt.mp (refuse_ok_iff.mp ordered)) (attempt_ok_iff.mp begun)

section Turns

variable {P : Admission → Prop}

theorem stepping_steps {α : Type} {post : α → Admission → Prop} {call : Admission → Option SpoolCall}
    {step : Admission → Admission × Except Failure α}
    (h : ∀ a, P a → Ensures (step a).2 (fun value => post value (step a).1)
      (fun _ => Reaches server w .idle (step a).1)) :
    Triple (fun s => P s.admission) (stepping call step) (fun value s => post value s.admission)
      (fun _ s => Reaches server w .idle s.admission) := by
  intro s before
  have after := h s.admission before
  unfold stepping
  cases ran : step s.admission with
  | mk a result =>
    rw [ran] at after
    cases result <;> exact after

theorem outside_steps {α : Type} (stops : ∀ a, P a → Reaches server w .idle a)
    (result : Except Failure α) :
    Triple (fun s => P s.admission) (outside result) (fun value s => result = .ok value ∧ P s.admission)
      (fun _ s => Reaches server w .idle s.admission) := by
  refine @stepping_steps server w P α (fun value a => result = .ok value ∧ P a) _ _ fun a before => ?_
  cases result with
  | ok value => exact ⟨rfl, before⟩
  | error e => exact stops a before

theorem outside_keeps {α : Type} (stops : ∀ a, P a → Reaches server w .idle a)
    (result : Except Failure α) :
    Triple (fun s => P s.admission) (outside result) (fun _ s => P s.admission)
      (fun _ s => Reaches server w .idle s.admission) :=
  (outside_steps stops result).mono (fun _ h => h) (fun _ _ h => h.2) fun _ _ h => h

theorem Reaches.checked (h : Reaches server w phase a) (force : Bool) (disk : Probing) :
    Reaches server w phase (checkDisk force disk a).1 := by
  obtain ⟨w', run, at_, confirmed, shows_⟩ := h
  exact ⟨w', run, at_, confirmed, shows_.tables, shows_.sent⟩

theorem checkDisk_steps (h : Reaches server w phase a) (force : Bool) (disk : Probing) :
    Triple (fun s => s.admission = a) (stepping (fun _ => none) (checkDisk force disk))
      (fun _ s => s.admission = (checkDisk force disk a).1)
      (fun _ s => Reaches server w .idle s.admission) := by
  refine @stepping_steps server w (· = a) Unit (fun _ => (· = (checkDisk force disk a).1)) _ _ ?_
  rintro _ rfl
  have after := h.checked force disk
  cases answer : (checkDisk force disk _).2 with
  | ok _ => exact rfl
  | error e => exact after.stop

theorem sendStandbyStatus_steps (fault : Option Failure) :
    Triple (fun s => Reaches server w (.streaming session) s.admission)
      (sendStandbyStatus session.durableLSN fault)
      (fun _ s => Reaches server w (.streaming session) s.admission)
      (fun _ s => Reaches server w .idle s.admission) := by
  refine @stepping_steps server w _ Unit (fun _ => Reaches server w (.streaming session)) _ _
    fun a before => ?_
  have sent : Reaches server w (.streaming session)
      { a with acknowledged := session.durableLSN :: a.acknowledged } := by
    refine @Reaches.send server w a _ session before session session.durableLSN fun w' at_ => ?_
    obtain ⟨tables, confirmed, sent, _⟩ := w'
    cases at_
    exact .timeout session rfl
  cases fault with
  | none => exact sent
  | some e => exact sent.stop

theorem storeBatch_steps {env : PersistEnv} {batch : CommittedBatch} {found : Tables}
    (opens : Opens server session next env batch) (disk : Probing) (sendFault : Option Failure) :
    Triple (fun s => Reaches server w (.streaming session) s.admission ∧ Others s.admission.tables found)
      (storeBatch disk env found batch sendFault)
      (fun result s => Reaches server w (.streaming { next with durableLSN := result.durableLSN })
        s.admission)
      (fun _ s => Reaches server w .idle s.admission) := by
  have moved : Triple
      (fun s => Reaches server w (.streaming session) s.admission ∧ Others s.admission.tables found)
      (modify fun s => { s with admission := { s.admission with tables := found } } : CaptureM PUnit)
      (fun _ s => Reaches server w (.streaming session) s.admission)
      (fun _ s => Reaches server w .idle s.admission) :=
    Triple.modify fun s before => before.1.others before.2 rfl
  apply moved.bind
  intro _
  refine @stepping_steps server w _ PersistResult
    (fun result => Reaches server w (.streaming { next with durableLSN := result.durableLSN })) _ _
    fun a before => ?_
  simp only [persistBatch]
  have checked := before.checked true disk
  cases ran : checkDisk true disk a with
  | mk a' answer =>
    rw [ran] at checked
    cases answer with
    | error e => exact checked.stop
    | ok _ => exact persistThenAcknowledge_steps checked opens sendFault

/-- One message of the server is one step, or the whole spool transaction of a commit. -/
theorem receive_steps {received : Received} (h : Reaches server w (.streaming session) a)
    (fits : received.Fits server.codec session next a.tables) :
    Triple (fun s => s.admission = a) (receive session.limits session.stream received)
      (fun stream s => Reaches server w (.streaming (next.at stream)) s.admission)
      (fun _ s => Reaches server w .idle s.admission) := by
  have stops : ∀ a', a' = a → Reaches server w .idle a' := by
    rintro _ rfl
    exact h.stop
  have replies := fun fault => (@sendStandbyStatus_steps server w session fault).mono
    (fun s (same : s.admission = a) => same ▸ h) (fun _ _ h => h) fun _ _ h => h
  cases received with
  | timeout sendFault =>
    cases fits
    exact (replies sendFault).bind fun _ => Triple.pure fun _ h => h
  | lost text =>
    apply (outside_steps stops (.error (errorf none "receive replication message: %w" [text]))).mono
      (fun _ h => h) _ fun _ _ h => h
    intro _ _ h
    cases h.1
  | ignored =>
    cases fits
    exact Triple.pure fun _ same => same ▸ h
  | keepalive parseFault replyRequested sendFault =>
    cases fits
    apply (outside_keeps stops _).bind
    intro _
    cases replyRequested with
    | true => exact (replies sendFault).bind fun _ => Triple.pure fun _ h => h
    | false => exact Triple.pure fun _ same => same ▸ h
  | xlogData parseFault decoded disk env found sendFault =>
    apply (outside_keeps stops _).bind
    intro _
    apply (outside_steps stops decoded).bind
    intro message
    have assembles := @outside_steps server w (fun a' => decoded = .ok message ∧ a' = a) _
      (fun a' before => stops a' before.2) (consume session.limits session.machine message)
    apply assembles.bind
    rintro ⟨machine, batch⟩ s ⟨consumed, rfl, rfl⟩
    -- the server offered this message, so its consumption is a step of the replicator
    obtain ⟨codec, moved, offers⟩ := fits
    have steps := @Session.Offers.consumed server _ _ _ _ _ offers consumed
    cases batch with
    | none =>
      have after := h.turn fun w' at_ _ _ => steps w' at_
      rwa [offers.same.1] at after
    | some b =>
      have stored := @storeBatch_steps server w _ _ env b found (steps env codec) disk sendFault
      exact (stored.bind fun _ => Triple.pure fun _ h => h) s ⟨h, moved⟩

theorem takeTurn_steps {turn : Turn} (h : Reaches server w (.streaming session) a)
    (fits : turn.received.Fits server.codec session next a.tables) :
    Triple (fun s => s.admission = a) (takeTurn session.limits session.stream turn)
      (fun stream s => Reaches server w (.streaming (next.at stream)) s.admission)
      (fun _ s => Reaches server w .idle s.admission) :=
  (checkDisk_steps h false turn.disk).bind fun _ => receive_steps (h.checked false turn.disk) fits

theorem Received.Fits.limits {received : Received} {codec : LsnCodec} {t : Tables}
    (h : received.Fits codec session next t) : next.limits = session.limits := by
  unfold Received.Fits at h
  split at h
  · exact h.2.2.same.2
  all_goals rw [h]

theorem receiveAll_turn (limits : Limits) (stream : Stream) (turn : Turn) (rest : List Turn) :
    receiveAll limits stream (turn :: rest) =
      takeTurn limits stream turn >>= fun stream => receiveAll limits stream rest := by
  rw [receiveAll, takeTurn, bind_assoc]

theorem receiveAll_steps {turns : List Turn} (served : Served server.codec session a turns)
    (h : Reaches server w (.streaming session) a) (calls : List SpoolCall) :
    Ends (receiveAll session.limits session.stream turns ⟨a, calls⟩)
      (fun _ s => ∃ session, Reaches server w (.streaming session) s.admission)
      (fun _ s => Reaches server w .idle s.admission) := by
  induction turns generalizing session a calls with
  | nil => exact ⟨session, h⟩
  | cons turn rest ih =>
    obtain ⟨next, fits, later⟩ := served
    have turned := takeTurn_steps h fits ⟨a, calls⟩ rfl
    rw [receiveAll_turn]
    cases ended : takeTurn session.limits session.stream turn ⟨a, calls⟩ with
    | error e s =>
      rw [ended] at turned
      rw [bind_raised ended]
      exact turned
    | ok stream s =>
      rw [ended] at turned
      rw [bind_ended ended, ← fits.limits]
      exact ih (later calls stream s ended) turned s.calls

theorem connect_steps {env : Surroundings} (meets : Meets server w a env)
    (h : Reaches server w .idle a') (tables : a'.tables = a.tables) :
    Triple (fun s => s.admission = a')
      (stepping (fun _ => startCall env) fun a => ({ a with tables := env.startFound },
        startLSN env.codec env.slotRead env.startFault env.startFound))
      (fun start s => startLSN env.codec env.slotRead env.startFault env.startFound = .ok start ∧
        s.admission = { a' with tables := env.startFound } ∧
        Reaches server w (.connecting start) s.admission)
      (fun _ s => Reaches server w .idle s.admission) := by
  refine @stepping_steps server w (· = a') LSN
    (fun start a'' => startLSN env.codec env.slotRead env.startFault env.startFound = .ok start ∧
      a'' = { a' with tables := env.startFound } ∧ Reaches server w (.connecting start) a'') _ _ ?_
  rintro _ rfl
  have moved := h.others (tables ▸ meets.startFound) rfl
  cases started : startLSN env.codec env.slotRead env.startFault env.startFound with
  | error e => exact moved
  | ok start =>
    refine ⟨rfl, rfl, moved.turn fun w' at_ confirmed tables => ?_⟩
    obtain ⟨slot, read, _⟩ := bind_ok_iff.mp started
    obtain ⟨flushed, restart⟩ := meets.slot slot read
    refine .connect slot env.startFault start at_ (flushed.trans confirmed.symm)
      (fun zero => restart (confirmed.symm.trans zero)) ?_
    rw [tables, ← meets.codec, ← read]
    exact started

theorem reread_steps {env : Surroundings} (meets : Meets server w a env) {start : LSN}
    (h : Reaches server w (.connecting start) { a' with tables := env.startFound }) :
    Triple (fun s => s.admission = { a' with tables := env.startFound })
      (stepping (fun _ => some (.lastDurableLSN env.codec env.durableFault env.durableFound)) fun a =>
        ({ a with tables := env.durableFound },
          lastDurableLSN env.codec env.durableFault env.durableFound))
      (fun durable s => lastDurableLSN env.codec env.durableFault env.durableFound = .ok durable ∧
        s.admission = { a' with tables := env.durableFound } ∧
        Reaches server w (.connecting start) s.admission)
      (fun _ s => Reaches server w .idle s.admission) := by
  refine @stepping_steps server w (· = { a' with tables := env.startFound }) LSN
    (fun durable a'' => lastDurableLSN env.codec env.durableFault env.durableFound = .ok durable ∧
      a'' = { a' with tables := env.durableFound } ∧ Reaches server w (.connecting start) a'') _ _ ?_
  rintro _ rfl
  have moved := h.others meets.durableFound rfl
  cases read : lastDurableLSN env.codec env.durableFault env.durableFound with
  | error e => exact moved.stop
  | ok durable => exact ⟨rfl, rfl, moved⟩

theorem runOnce_steps {env : Surroundings} (idle : w.phase = .idle) (shows_ : Shows w a)
    (meets : Meets server w a env) (calls : List SpoolCall) :
    Ends (runOnce env ⟨a, calls⟩)
      (fun _ s => ∃ session, Reaches server w (.streaming session) s.admission)
      (fun _ s => Reaches server w .idle s.admission) := by
  have start : Reaches server w .idle a := idle ▸ shows_.reaches
  have checked := start.checked true env.disk
  have stops : ∀ a', a' = (checkDisk true env.disk a).1 → Reaches server w .idle a' := by
    rintro _ rfl
    exact checked
  refine (show Triple (fun s => s.admission = a) (runOnce env) _ _ from ?_) ⟨a, calls⟩ rfl
  -- one rule per call of `runOnce`, in its order; a failure anywhere stops in `idle`
  apply (checkDisk_steps start true env.disk).bind
  intro _
  apply (outside_keeps stops env.dsn).bind
  intro _
  apply (connect_steps meets checked rfl).bind
  rintro start s ⟨started, same, connected⟩
  have stops : ∀ a', a' = s.admission → Reaches server w .idle a' := by
    rintro _ rfl
    exact connected.stop
  refine (show Triple (fun s' => s'.admission = s.admission) _ _ _ from ?_) s rfl
  apply (outside_keeps stops env.connected).bind
  intro _
  apply (outside_keeps stops _).bind
  intro _
  rw [same] at connected ⊢
  apply (reread_steps meets connected).bind
  rintro durable s' ⟨read, same, connected⟩
  obtain ⟨past, pending, cut, behind, served⟩ := meets.served start durable started read
  rw [← same] at served
  have streaming : Reaches server w (.streaming (openSession env.limits start durable pending))
      s'.admission := by
    refine connected.turn fun w' at_ _ tables => ?_
    refine .stream env.limits start durable env.durableFault past pending at_ meets.tag cut behind ?_
    rw [tables, same, ← meets.codec]
    exact read
  exact receiveAll_steps served streaming s'.calls

end Turns

structure Justified (server : Server) (a : Admission) : Prop where
  world : ∃ w, (replicator server).Reachable w ∧ Shows w a
  covered : ∀ l ∈ a.acknowledged, ∀ x ∈ server.history, server.initial < x.endLSN → x.endLSN ≤ l →
    ∀ content ∈ contents server.messagePrefix x.messages, Present a.tables.events content

theorem Shows.justified (h : Shows w a) (reachable : (replicator server).Reachable w) :
    Justified server a := by
  refine ⟨⟨w, reachable, h⟩, fun l hl x hx above below => ?_⟩
  have status : standbyStatus l ∈ w.sent.map (·.status) := h.sent ▸ List.mem_map_of_mem hl
  obtain ⟨s, hs, same⟩ := List.mem_map.mp status
  rw [← h.tables]
  exact (replicator_inv reachable).covered hs hx above (same ▸ below)

/-- However a session ends, it ends where a run of the replicator can. -/
theorem runOnce_refines {env : Surroundings} (reachable : (replicator server).Reachable w)
    (idle : w.phase = .idle) (shows_ : Shows w a) (meets : Meets server w a env) :
    Ends (runOnce env ⟨a, []⟩) (fun _ s => Justified server s.admission)
      (fun _ s => Justified server s.admission) := by
  have steps := runOnce_steps idle shows_ meets []
  cases ended : runOnce env ⟨a, []⟩ with
  | ok value s =>
    rw [ended] at steps
    obtain ⟨session, w', run, _, _, shown⟩ := steps
    exact shown.justified (reachable.steps run)
  | error e s =>
    rw [ended] at steps
    obtain ⟨w', run, _, _, shown⟩ := steps
    exact shown.justified (reachable.steps run)

end Simulation

section Sample

def quietTxn : Txn := { sampleTxn with messages := [.change] }

def quietServer : Server := ⟨"writerelay.v1", .decimal, [quietTxn], ⟨10, 10⟩, List.pairwise_singleton _ _⟩

def quietSession : Surroundings :=
  { (meeting .empty [.begin 7, .other, .commit 20 30 0] sampleEnv).session with codec := .decimal }

theorem others_refl (t : Tables) : Others t t := ⟨[], fun _ member => absurd member List.not_mem_nil, rfl⟩

example : Meets quietServer ⟨.empty, 10, [], .idle⟩ (unguarded .empty) quietSession where
  codec := rfl
  tag := rfl
  slot := by
    rintro _ ⟨⟩
    exact ⟨rfl, fun _ => rfl⟩
  startFound := others_refl .empty
  durableFound := others_refl .empty
  served := by
    rintro _ _ ⟨⟩ ⟨⟩
    refine ⟨[], [quietTxn], rfl, fun _ member => absurd member List.not_mem_nil, ?_⟩
    refine ⟨_, ⟨rfl, others_refl .empty, .begin quietTxn [] rfl rfl⟩, ?_⟩
    rintro _ _ _ ⟨⟩
    refine ⟨_, ⟨rfl, others_refl .empty, .item .change [] rfl⟩, ?_⟩
    rintro _ _ _ ⟨⟩
    refine ⟨_, ⟨rfl, others_refl .empty, .commit quietTxn [] rfl rfl⟩, ?_⟩
    exact fun _ _ _ _ => trivial

end Sample

end WriteRelay.Postgres
