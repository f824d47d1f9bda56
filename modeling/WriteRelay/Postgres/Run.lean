import WriteRelay.Postgres.Admission
import WriteRelay.Postgres.Replicator

/-! `Run` and `runOnce`: which errors end the capture, and which ones only reconnect. -/
namespace WriteRelay.Postgres
open Diskspace Spool Fallible

def isFatalCaptureError (e : Failure) : Bool :=
  e.sentinel = some .protocolState ∨ e.sentinel = some .protectedEvent ∨
    e.sentinel = some .transactionLimit ∨ e.sentinel = some .slotMismatch ∨
    e.sentinel = some .unsupportedVersion ∨ e.sentinel = some .identityConflict ∨
    e.sentinel = some .durability

inductive SpoolCall
  | persistCommittedBatch (env : PersistEnv) (batch : CommittedBatch) (t : Tables)
  | lastDurableLSN (codec : LsnCodec) (fault : Option String) (t : Tables)

def SpoolCall.error : SpoolCall → Option Failure
  | .persistCommittedBatch env batch t =>
    match Spool.persistCommittedBatch env batch t with
    | .ok _ => none
    | .error e => some e
  | .lastDurableLSN codec fault t =>
    match Spool.lastDurableLSN codec fault t with
    | .ok _ => none
    | .error e => some e

def SpoolCall.persists : SpoolCall → Bool
  | .persistCommittedBatch .. => true
  | .lastDurableLSN .. => false

/-- The replicator with the spool calls of a session, oldest first. -/
structure Capture where
  admission : Admission
  calls : List SpoolCall

abbrev CaptureM := EStateM Failure Capture

/-- A step that returns its error; `call` is the spool call it makes. -/
def stepping {α : Type} (call : Admission → Option SpoolCall)
    (step : Admission → Admission × Except Failure α) : CaptureM α := fun s =>
  match step s.admission with
  | (a, .ok value) => .ok value ⟨a, s.calls ++ (call s.admission).toList⟩
  | (a, .error e) => .error e ⟨a, s.calls ++ (call s.admission).toList⟩

def outside {α : Type} (result : Except Failure α) : CaptureM α :=
  stepping (fun _ => none) fun a => (a, result)

def sendStandbyStatus (durableLSN : LSN) (fault : Option Failure) : CaptureM Unit :=
  stepping (fun _ => none) fun a =>
    ({ a with acknowledged := durableLSN :: a.acknowledged },
      match fault with
      | some e => .error e
      | none => .ok ())

/-- What `ReceiveMessage` brings, and the outcomes of the calls that it leads to. A call of
the spool finds the tables as other users of the file, or damage to it, have left them. -/
inductive Received
  | timeout (sendFault : Option Failure)
  | lost (text : String)
  | ignored
  | keepalive (parseFault : Option String) (replyRequested : Bool) (sendFault : Option Failure)
  | xlogData (parseFault : Option String) (decoded : Except Failure Message) (disk : Probing)
      (env : PersistEnv) (found : Tables) (sendFault : Option Failure)

structure Turn where
  disk : Probing
  received : Received

structure Stream where
  durableLSN : LSN
  machine : StateMachine

def batchCall (disk : Probing) (env : PersistEnv) (batch : CommittedBatch) (a : Admission) :
    Option SpoolCall :=
  match checkDisk true disk a with
  | (a', .ok _) => some (.persistCommittedBatch env batch a'.tables)
  | (_, .error _) => none

def storeBatch (disk : Probing) (env : PersistEnv) (found : Tables) (batch : CommittedBatch)
    (sendFault : Option Failure) : CaptureM PersistResult := do
  modify fun s => { s with admission := { s.admission with tables := found } }
  stepping (batchCall disk env batch) (persistBatch none disk env batch sendFault)

def receive (limits : Limits) (stream : Stream) : Received → CaptureM Stream
  | .timeout sendFault => do
    sendStandbyStatus stream.durableLSN sendFault
    return stream
  | .lost text => outside (.error (errorf none "receive replication message: %w" [text]))
  | .ignored => return stream
  | .keepalive parseFault replyRequested sendFault => do
    outside (attempt parseFault (wrapf none "parse primary keepalive: %w" []))
    if replyRequested then sendStandbyStatus stream.durableLSN sendFault
    return stream
  | .xlogData parseFault decoded disk env found sendFault => do
    outside (attempt parseFault (wrapf none "parse XLogData: %w" []))
    let message ← outside decoded
    let (machine, batch) ← outside (consume limits stream.machine message)
    match batch with
    | none => return { stream with machine }
    | some batch => do
      let result ← storeBatch disk env found batch sendFault
      return ⟨result.durableLSN, machine⟩

/-- The loop of `runOnce`, until the context is done. -/
def receiveAll (limits : Limits) : Stream → List Turn → CaptureM Unit
  | _, [] => return ()
  | stream, turn :: rest => do
    stepping (fun _ => none) (checkDisk false turn.disk)
    let stream ← receive limits stream turn.received
    receiveAll limits stream rest

structure Surroundings where
  limits : Limits
  codec : LsnCodec
  disk : Probing
  dsn : Except Failure Unit
  slotRead : Except Failure Slot
  startFault : Option String
  startFound : Tables
  connected : Except Failure Unit
  replicationFault : Option String
  durableFault : Option String
  durableFound : Tables
  turns : List Turn

def startCall (env : Surroundings) : Option SpoolCall :=
  match env.slotRead with
  | .ok _ => some (.lastDurableLSN env.codec env.startFault env.startFound)
  | .error _ => none

def runOnce (env : Surroundings) : CaptureM Unit := do
  stepping (fun _ => none) (checkDisk true env.disk)
  outside env.dsn
  let start ← stepping (fun _ => startCall env) fun a =>
    ({ a with tables := env.startFound },
      startLSN env.codec env.slotRead env.startFault env.startFound)
  outside env.connected
  outside (attempt env.replicationFault (wrapf none "start logical replication: %w" []))
  let durable ← stepping
    (fun _ => some (.lastDurableLSN env.codec env.durableFault env.durableFound)) fun a =>
      ({ a with tables := env.durableFound },
        lastDurableLSN env.codec env.durableFault env.durableFound)
  receiveAll env.limits ⟨if durable = 0 then start else durable, .reset⟩ env.turns

def Surroundings.calls (env : Surroundings) (a : Admission) : List SpoolCall :=
  match runOnce env ⟨a, []⟩ with
  | .ok _ s | .error _ s => s.calls

/-- One turn of `Run`: whether the context is done after `runOnce`, the checks of
`waitForDisk`, and whether the context ends the wait before the next connection. -/
structure Attempt where
  session : Surroundings
  cancelled : Bool
  waiting : List Probing
  interrupted : Bool

inductive Outcome
  | returned (error : Option Failure)
  | running

def run : List Attempt → Admission → Outcome
  | [], _ => .running
  | attempt :: rest, a =>
    match runOnce attempt.session ⟨a, []⟩ with
    | .ok _ s =>
      if attempt.cancelled ∨ attempt.interrupted then .returned none else run rest s.admission
    | .error e s =>
      if attempt.cancelled then .returned none
      else if e.sentinel = some .paused then
        match waitForDisk attempt.waiting s.admission with
        | (a', true) => run rest a'
        | (_, false) => .returned none
      else if isFatalCaptureError e then .returned (some e)
      else if attempt.interrupted then .returned none
      else run rest s.admission

section Fatality

def NotStored (e : Failure) : Prop :=
  e.sentinel = some .durability ∨ e.sentinel = some .identityConflict

theorem errorf_durability {format : String} {args : List String} :
    NotStored (errorf (some .durability) format args) := .inl rfl

theorem wrapf_durability {format : String} {args : List String} (d : DriverError) :
    NotStored (wrapf (some .durability) format args d) := .inl rfl

variable {env : PersistEnv} {batch : CommittedBatch} {t : Tables}

theorem validateCapturedEvent_fails (captured : CapturedEvent) (index : Nat) :
    Ensures (validateCapturedEvent batch captured index) (fun _ => True) NotStored :=
  (refuse_fails errorf_durability).bind fun _ _ =>
    (refuse_fails errorf_durability).bind fun _ _ => refuse_fails errorf_durability

theorem insertOrVerify_fails (index : Nat) (captured : CapturedEvent) (t : Tables) :
    Ensures (insertOrVerify env index captured t) (fun _ => True) NotStored := by
  apply (attempt_fails wrapf_durability).bind
  intro _ _
  apply (attempt_fails wrapf_durability).bind
  intro _ _
  split
  · exact (attempt_fails wrapf_durability).bind fun _ _ => trivial
  · apply (attempt_fails wrapf_durability).bind
    intro _ _
    exact (refuse_fails (.inr rfl)).bind fun _ _ => trivial

theorem persistEvent_fails (index : Nat) (captured : CapturedEvent) (p : Progress) :
    Ensures (persistEvent env batch index captured p) (fun _ => True) NotStored := by
  apply (validateCapturedEvent_fails captured index).bind
  intro _ _
  apply (insertOrVerify_fails index captured p.tables).bind
  intro (tables, inserted, sequence) _
  have deliveries : Ensures (ensureDeliveriesForEvent env index sequence tables) (fun _ => True)
      NotStored :=
    (attempt_fails wrapf_durability).bind fun _ _ => statement_fails wrapf_durability
  exact deliveries.bind fun _ _ => trivial

theorem persistEvents_fails (index : Nat) (events : List CapturedEvent) (p : Progress) :
    Ensures (persistEvents env batch index events p) (fun _ => True) NotStored := by
  induction events generalizing index p with
  | nil => trivial
  | cons captured rest ih => exact (persistEvent_fails index captured p).bind fun p' _ => ih _ p'

theorem advanceCheckpoint_fails (p : Progress) :
    Ensures (advanceCheckpoint env batch p) (fun _ => True) NotStored := by
  apply (attempt_fails wrapf_durability).bind
  intro _ _
  cases parseCheckpoint env.codec p.tables.durableLSN with
  | error text => exact wrapf_durability (.fault text)
  | ok current =>
    change Ensures (if current < batch.commitEndLSN then _ else _) _ _
    split
    · exact (attempt_fails wrapf_durability).bind fun _ _ => trivial
    · trivial

theorem persistCommittedBatch_fails (t : Tables) :
    Ensures (persistCommittedBatch env batch t) (fun _ => True) NotStored := by
  apply (refuse_fails errorf_durability).bind
  intro _ _
  apply (attempt_fails wrapf_durability).bind
  intro _ _
  apply (persistEvents_fails 0 batch.events ⟨t, 0, 0⟩).bind
  intro p _
  apply (advanceCheckpoint_fails p).bind
  intro _ _
  exact (attempt_fails wrapf_durability).bind fun _ _ => trivial

theorem lastDurableLSN_fails (codec : LsnCodec) (fault : Option String) (t : Tables) :
    Ensures (lastDurableLSN codec fault t) (fun _ => True) (fun e => e.sentinel = none) := by
  have read : Ensures (attempt fault (wrapf none "read durable LSN: %w" [])) (fun _ => True)
      (fun e => e.sentinel = none) := attempt_fails fun _ => rfl
  apply read.bind
  intro _ _
  cases parseCheckpoint codec t.durableLSN with
  | error text => rfl
  | ok current => trivial

theorem spoolCall_persists {e : Failure}
    (failed : (SpoolCall.persistCommittedBatch env batch t).error = some e) : NotStored e := by
  simp only [SpoolCall.error] at failed
  split at failed
  · contradiction
  · rename_i e' ended
    cases Option.some.inj failed
    exact (persistCommittedBatch_fails t).fails ended

theorem spoolCall_checkpoint {codec : LsnCodec} {fault : Option String} {e : Failure}
    (failed : (SpoolCall.lastDurableLSN codec fault t).error = some e) : e.sentinel = none := by
  simp only [SpoolCall.error] at failed
  split at failed
  · contradiction
  · rename_i e' ended
    cases Option.some.inj failed
    exact (lastDurableLSN_fails codec fault t).fails ended

theorem spoolCall_fatal {call : SpoolCall} {e : Failure} (failed : call.error = some e) :
    isFatalCaptureError e = call.persists ∧ e.sentinel ≠ some .paused := by
  cases call with
  | persistCommittedBatch env batch t =>
    rcases spoolCall_persists failed with h | h <;> simp [isFatalCaptureError, SpoolCall.persists, h]
  | lastDurableLSN codec fault t =>
    have h := spoolCall_checkpoint failed
    simp [isFatalCaptureError, SpoolCall.persists, h]

end Fatality

section Propagation

def Succeeded (s : Capture) : Prop := ∀ call ∈ s.calls, call.error = none

def Told (e : Failure) (s : Capture) : Prop := ∀ call ∈ s.calls, ∀ e', call.error = some e' → e' = e

theorem stepping_told {α : Type} {call : Admission → Option SpoolCall}
    {step : Admission → Admission × Except Failure α}
    (h : ∀ a, ∀ made ∈ call a, Ensures (step a).2 (fun _ => made.error = none)
      (fun e => ∀ e', made.error = some e' → e' = e)) :
    Triple Succeeded (stepping call step) (fun _ => Succeeded) Told := by
  intro s before
  have told := h s.admission
  unfold stepping
  cases ran : step s.admission with
  | mk a result =>
    rw [ran] at told
    cases result with
    | ok value =>
      intro made hm
      rcases List.mem_append.mp hm with old | new
      · exact before made old
      · exact told made (Option.mem_toList.mp new)
    | error e =>
      intro made hm e' failed
      rcases List.mem_append.mp hm with old | new
      · rw [before made old] at failed
        contradiction
      · exact told made (Option.mem_toList.mp new) e' failed

theorem aside_told {α : Type} (step : Admission → Admission × Except Failure α) :
    Triple Succeeded (stepping (fun _ => none) step) (fun _ => Succeeded) Told :=
  stepping_told fun _ _ made => absurd made (Option.not_mem_none _)

theorem outside_told {α : Type} (result : Except Failure α) :
    Triple Succeeded (outside result) (fun _ => Succeeded) Told := aside_told _

theorem pure_told {α : Type} (value : α) :
    Triple Succeeded (pure value : CaptureM α) (fun _ => Succeeded) Told := fun _ before => before

theorem lastDurableLSN_told (codec : LsnCodec) (fault : Option String) (t : Tables) :
    Ensures (lastDurableLSN codec fault t)
      (fun _ => (SpoolCall.lastDurableLSN codec fault t).error = none)
      (fun e => ∀ e', (SpoolCall.lastDurableLSN codec fault t).error = some e' → e' = e) := by
  cases ended : lastDurableLSN codec fault t <;> simp [SpoolCall.error, ended]

theorem startLSN_told {env : Surroundings} {made : SpoolCall} (h : made ∈ startCall env) :
    Ensures (startLSN env.codec env.slotRead env.startFault env.startFound)
      (fun _ => made.error = none) (fun e => ∀ e', made.error = some e' → e' = e) := by
  unfold startCall at h
  split at h
  · rename_i slot read
    cases Option.mem_some.mp h
    have told := lastDurableLSN_told env.codec env.startFault env.startFound
    rw [startLSN, read]
    change Ensures (lastDurableLSN _ _ _ >>= _) _ _
    generalize lastDurableLSN env.codec env.startFault env.startFound = ended at told
    cases ended with
    | error e => exact told
    | ok durable =>
      have quiet : ∀ e e', (SpoolCall.lastDurableLSN env.codec env.startFault env.startFound).error =
          some e' → e' = e := by
        intro e e' failed
        rw [told] at failed
        contradiction
      change Ensures (if durable ≠ 0 then _ else _) _ _
      split
      · exact told
      · split
        · exact told
        · split
          · exact told
          · exact quiet _
  · exact absurd h (Option.not_mem_none _)

theorem persistBatch_told {disk : Probing} {env : PersistEnv} {batch : CommittedBatch}
    (sendFault : Option Failure) {a : Admission} {made : SpoolCall} (h : made ∈ batchCall disk env batch a) :
    Ensures (persistBatch none disk env batch sendFault a).2 (fun _ => made.error = none)
      (fun e => ∀ e', made.error = some e' → e' = e) := by
  unfold batchCall at h
  simp only [persistBatch]
  split at h
  · rename_i a' _ admitted
    cases Option.mem_some.mp h
    simp only [admitted, persistThenAcknowledge]
    cases stored : Spool.persistCommittedBatch env batch a'.tables with
    | error e => simp [SpoolCall.error, stored]
    | ok done =>
      have quiet : (SpoolCall.persistCommittedBatch env batch a'.tables).error = none := by
        simp [SpoolCall.error, stored]
      dsimp only
      split
      · simp [quiet]
      · cases sendFault <;> simp [quiet]
  · exact absurd h (Option.not_mem_none _)

theorem storeBatch_told (disk : Probing) (env : PersistEnv) (found : Tables) (batch : CommittedBatch)
    (sendFault : Option Failure) :
    Triple Succeeded (storeBatch disk env found batch sendFault) (fun _ => Succeeded) Told := by
  have moved : Triple Succeeded (modify fun s : Capture =>
      { s with admission := { s.admission with tables := found } }) (fun _ => Succeeded) Told :=
    Triple.modify fun _ before => before
  exact moved.bind fun _ => stepping_told fun _ _ made => persistBatch_told sendFault made

theorem receive_told (limits : Limits) (stream : Stream) (received : Received) :
    Triple Succeeded (receive limits stream received) (fun _ => Succeeded) Told := by
  cases received with
  | timeout sendFault => exact (aside_told _).bind fun _ => pure_told _
  | lost text => exact outside_told _
  | ignored => exact pure_told _
  | keepalive parseFault replyRequested sendFault =>
    apply (outside_told _).bind
    intro _
    cases replyRequested with
    | true => exact (aside_told _).bind fun _ => pure_told _
    | false => exact pure_told _
  | xlogData parseFault decoded disk env found sendFault =>
    apply (outside_told _).bind
    intro _
    apply (outside_told _).bind
    intro message
    apply (outside_told _).bind
    intro (machine, batch)
    cases batch with
    | none => exact pure_told _
    | some batch => exact (storeBatch_told disk env found batch sendFault).bind fun _ => pure_told _

theorem receiveAll_told (limits : Limits) (stream : Stream) (turns : List Turn) :
    Triple Succeeded (receiveAll limits stream turns) (fun _ => Succeeded) Told := by
  induction turns generalizing stream with
  | nil => exact pure_told _
  | cons turn rest ih =>
    apply (aside_told _).bind
    intro _
    exact (receive_told limits stream turn.received).bind fun stream' => ih stream'

theorem runOnce_told (env : Surroundings) :
    Triple Succeeded (runOnce env) (fun _ => Succeeded) Told := by
  apply (aside_told _).bind
  intro _
  apply (outside_told _).bind
  intro _
  apply (stepping_told fun _ _ made => startLSN_told made).bind
  intro start
  apply (outside_told _).bind
  intro _
  apply (outside_told _).bind
  intro _
  have read : ∀ a : Admission, ∀ made ∈ some (SpoolCall.lastDurableLSN env.codec env.durableFault
      env.durableFound), Ensures (lastDurableLSN env.codec env.durableFault env.durableFound)
        (fun _ => made.error = none) (fun e => ∀ e', made.error = some e' → e' = e) := by
    intro _ made hm
    cases Option.mem_some.mp hm
    exact lastDurableLSN_told env.codec env.durableFault env.durableFound
  exact (stepping_told read).bind fun durable => receiveAll_told env.limits _ env.turns

/-- `runOnce` returns the error of every spool call that fails. -/
theorem runOnce_raises {env : Surroundings} {a : Admission} {call : SpoolCall} {e : Failure}
    (made : call ∈ env.calls a) (failed : call.error = some e) :
    ∃ s, runOnce env ⟨a, []⟩ = .error e s := by
  have told := runOnce_told env ⟨a, []⟩ (fun _ made => absurd made List.not_mem_nil)
  unfold Surroundings.calls at made
  cases ended : runOnce env ⟨a, []⟩ with
  | ok value s =>
    rw [ended] at told made
    rw [told call made] at failed
    contradiction
  | error e' s =>
    rw [ended] at told made
    cases told call made e failed
    exact ⟨s, rfl⟩

end Propagation

/-- While the context lives, a failed spool call ends `Run` exactly where it was a call of
`PersistCommittedBatch`; after `LastDurableLSN` it connects again. -/
theorem spool_failures_fatal {attempt : Attempt} {a : Admission} {call : SpoolCall} {e : Failure}
    (made : call ∈ attempt.session.calls a) (failed : call.error = some e)
    (alive : attempt.cancelled = false) :
    ∃ s, runOnce attempt.session ⟨a, []⟩ = .error e s ∧
    (isFatalCaptureError e = true ∧
        (∀ rest, run (attempt :: rest) a = .returned (some e)) ↔ call.persists = true) ∧
    (call.persists = false → attempt.interrupted = false →
      ∀ rest, run (attempt :: rest) a = run rest s.admission) := by
  obtain ⟨s, raised⟩ := runOnce_raises made failed
  obtain ⟨fatal, awake⟩ := spoolCall_fatal failed
  have turn : ∀ rest, run (attempt :: rest) a =
      if call.persists = true then .returned (some e)
      else if attempt.interrupted = true then .returned none else run rest s.admission := by
    intro rest
    simp only [run, raised, alive, awake, fatal, if_false, Bool.false_eq_true]
  refine ⟨s, raised, ⟨fun h => fatal.symm.trans h.1, fun h => ?_⟩, fun h waits rest => ?_⟩
  · exact ⟨fatal.trans h, fun rest => by rw [turn, if_pos h]⟩
  · rw [turn]
    simp only [h, waits, if_false, Bool.false_eq_true]

def strictDecimal : LsnCodec where
  format := LsnCodec.decimal.format
  parse s := if s.toList.all Char.isDigit then LsnCodec.decimal.parse s else none
  parse_format l := by
    have digits : (LsnCodec.decimal.format l).toList.all Char.isDigit = true := by
      rw [List.all_eq_true]
      intro c hc
      rw [LsnCodec.decimal, String.toList_ofList] at hc
      exact Nat.isDigit_of_mem_toDigits (by decide) (by decide) hc
    rw [if_pos digits, LsnCodec.decimal.parse_format]

def unguarded (t : Tables) : Admission := ⟨.new ⟨0, 0, 5000000000, "5s"⟩, t, [], [], []⟩

def meeting (t : Tables) (messages : List Message) (env : PersistEnv) : Attempt where
  session :=
    { limits := ⟨"writerelay.v1", 262144, 100, 1000000⟩
      codec := strictDecimal
      disk := probingAt 1 30
      dsn := .ok ()
      slotRead := .ok ⟨10, 10⟩
      startFault := none
      startFound := t
      connected := .ok ()
      replicationFault := none
      durableFault := none
      durableFound := t
      turns := messages.map fun m => ⟨probingAt 1 30, .xlogData none (.ok m) (probingAt 1 30) env t none⟩ }
  cancelled := false
  waiting := []
  interrupted := false

def fullDisk : PersistEnv where
  codec := strictDecimal
  faults
    | .commit => some "database or disk is full"
    | _ => none
  readings _ := ⟨1, 1, 0⟩

def fullDiskFailure : Failure :=
  wrapf (some .durability) "%w: commit batch: %v" [] (.fault "database or disk is full")

theorem spool_failures_fatal_commit :
    ∃ call ∈ (meeting .empty [.begin 7, .commit 20 30 0] fullDisk).session.calls (unguarded .empty),
      call.persists = true ∧ call.error = some fullDiskFailure ∧
      ∀ rest, run (meeting .empty [.begin 7, .commit 20 30 0] fullDisk :: rest) (unguarded .empty) =
        .returned (some fullDiskFailure) := by
  have fails : ∃ call ∈ (meeting .empty [.begin 7, .commit 20 30 0] fullDisk).session.calls
      (unguarded .empty), call.persists = true ∧ call.error = some fullDiskFailure := by decide +kernel
  obtain ⟨call, made, persists, failed⟩ := fails
  obtain ⟨_, _, fatal, _⟩ := spool_failures_fatal made failed rfl
  exact ⟨call, made, persists, failed, (fatal.mpr persists).2⟩

def garbled : Tables := { Tables.empty with durableLSN := some "not an LSN" }

def garbledFailure : Failure :=
  wrapf none "parse durable LSN %q: %w" ["not an LSN"] (.fault "failed to parse LSN: not an LSN")

/-- `Run` meets the unreadable checkpoint in every session and never returns it. -/
theorem spool_failures_reconnect :
    (SpoolCall.lastDurableLSN strictDecimal none garbled).error = some garbledFailure ∧
    isFatalCaptureError garbledFailure = false ∧
    ∀ n, run (List.replicate n (meeting garbled [] fullDisk)) (unguarded garbled) = .running := by
  have ended : runOnce (meeting garbled [] fullDisk).session ⟨unguarded garbled, []⟩ =
      .error garbledFailure ⟨unguarded garbled, [.lastDurableLSN strictDecimal none garbled]⟩ := rfl
  have again : ∀ rest, run (meeting garbled [] fullDisk :: rest) (unguarded garbled) =
      run rest (unguarded garbled) := by
    intro rest
    rw [run, ended]
    rfl
  constructor
  · rfl
  constructor
  · rfl
  · intro n
    induction n with
    | zero => rfl
    | succ n ih =>
      rw [List.replicate_succ, again]
      exact ih

end WriteRelay.Postgres
