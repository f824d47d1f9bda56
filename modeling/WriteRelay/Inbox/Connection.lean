import WriteRelay.Base.Cuts
import WriteRelay.Inbox.Protocol

/-! TypeScript `withInbox` as the user of one pooled client: what it sends, what it throws and
how it gives the client back, against code of the callback that may run between any two of
its own jobs. -/
namespace WriteRelay.Inbox.Script
open Fallible Cuts

variable {ε α : Type}

/-- Parameters stand in the text form that the driver sends. -/
structure Query where
  text : String
  values : List String
  deriving DecidableEq

structure InboxQueryResult where
  command : String
  rowCount : Option Nat
  rows : List (Property String)

inductive InboxResult (α : Type)
  | processed (value : α)
  | duplicate

inductive Thrown (ε : Type)
  | inbox (e : InboxError)
  | other (e : ε)

inductive Source
  | helper
  | callback
  deriving DecidableEq

/-- `settled` is the callback's promise, `resumed` the job in which `withInbox` learns of it. -/
inductive Event (ε : Type)
  | connected
  | sent (source : Source) (q : Query)
  | answered (q : Query) (r : InboxQueryResult)
  | failed (q : Query) (e : Thrown ε)
  | refused (q : Query)
  | settled (error : Option (Thrown ε))
  | resumed
  | raised (e : Thrown ε)
  | released (destroy : Bool)

inductive Use
  | query (q : Query)
  | release (destroy : Bool)
  deriving DecidableEq

def Event.use : Event ε → Option Use
  | .sent _ q => some (.query q)
  | .released destroy => some (.release destroy)
  | _ => none

def uses (trace : List (Event ε)) : List Use := trace.filterMap Event.use

/-- `active` is absent as long as there is no transaction object. -/
structure Session (ε : Type) where
  trace : List (Event ε)
  active : Option Bool
  discard : Bool
  committing : Bool

def Session.initial : Session ε := ⟨[], none, false, false⟩

abbrev InboxM (ε : Type) := EStateM (Thrown ε) (Session ε)

/-- The callback: the queries that its code issues until its promise settles. A query that
is not awaited, or awaited later, has a `rest` that does not look at the answer yet. -/
inductive Handler (ε α : Type)
  | settle (outcome : Except (Thrown ε) α)
  | query (q : Query) (rest : Except (Thrown ε) InboxQueryResult → Handler ε α)

/-- Everything outside one call. The lists hold what code of the callback asks of the
transaction object after the callback has settled: in jobs that run before `withInbox` resumes,
while it waits for COMMIT, while it waits for ROLLBACK, and after the client was released. -/
structure Surroundings (ε α : Type) where
  connect : Except ε Unit
  answer : Nat → Query → Except ε InboxQueryResult
  handle : Handler ε α
  beforeResuming : List Query
  duringCommit : List Query
  duringRollback : List Query
  afterwards : List Query

def log (e : Event ε) : InboxM ε Unit := modify fun s => { s with trace := s.trace ++ [e] }

def raise {β : Type} (e : InboxError) : InboxM ε β := do
  log (.raised (.inbox e))
  throw (.inbox e)

def query (env : Surroundings ε α) (source : Source) (q : Query) :
    InboxM ε (Except (Thrown ε) InboxQueryResult) := do
  let earlier := uses (← get).trace
  log (.sent source q)
  return (env.answer earlier.length q).mapError .other

def transactionQuery (env : Surroundings ε α) (q : Query) :
    InboxM ε (Except (Thrown ε) InboxQueryResult) := do
  if (← get).active = some true then query env .callback q
  else
    log (.refused q)
    return .error (.inbox (.transaction "WriteRelay inbox callback has finished"))

def background (env : Surroundings ε α) : List Query → InboxM ε Unit
  | [] => return ()
  | q :: rest => do
    if (← get).active.isSome then discard (transactionQuery env q)
    background env rest

def await (env : Surroundings ε α) (q : Query) (others : List Query) :
    InboxM ε InboxQueryResult := do
  let promise ← query env .helper q
  background env others
  match promise with
  | .ok r =>
    log (.answered q r)
    return r
  | .error e =>
    log (.failed q e)
    throw e

def failure {β : Type} : Except (Thrown ε) β → Option (Thrown ε)
  | .ok _ => none
  | .error e => some e

def Handler.run (env : Surroundings ε α) : Handler ε α → InboxM ε (Except (Thrown ε) α)
  | .settle outcome => do
    log (.settled (failure outcome))
    return outcome
  | .query q rest => do
    let answer ← transactionQuery env q
    (rest answer).run env

/-- `await handle(transaction)`. Jobs that were queued before run first. -/
def awaitHandle (env : Surroundings ε α) : InboxM ε α := do
  let outcome ← env.handle.run env
  background env env.beforeResuming
  match outcome with
  | .ok value => return value
  | .error e => throw e

/-- The branch of a new claim: the transaction object lives until the `finally`. -/
def invoke (env : Surroundings ε α) : InboxM ε α := do
  modify fun s => { s with active := some true }
  try
    awaitHandle env
  finally
    modify fun s => { s with active := some false, trace := s.trace ++ [.resumed] }

def beginQuery : Query := ⟨"BEGIN ISOLATION LEVEL READ COMMITTED", []⟩

def claimQuery (table key digest : String) : Query :=
  ⟨"INSERT INTO " ++ table ++ " (idempotency_key, payload_sha256) VALUES ($1, $2) " ++
    "ON CONFLICT (idempotency_key) DO NOTHING RETURNING idempotency_key", [key, digest]⟩

def receiptQuery (table key : String) : Query :=
  ⟨"SELECT payload_sha256 FROM " ++ table ++ " WHERE idempotency_key = $1 FOR SHARE", [key]⟩

def commitQuery : Query := ⟨"COMMIT", []⟩

def rollbackQuery : Query := ⟨"ROLLBACK", []⟩

def isText (p : Property String) (s : String) : Bool :=
  match p with
  | .value a => a = s
  | .absent | .other => false

/-- The branches on the row count of the claim. -/
def settleClaim (env : Surroundings ε α) (table key digest : String) (claim : InboxQueryResult) :
    InboxM ε (InboxResult α) :=
  match claim.rowCount with
  | some 1 => return .processed (← invoke env)
  | some 0 => do
    let existing ← await env (receiptQuery table key) []
    match existing.rows with
    | [row] => if isText row digest then return .duplicate else raise .conflict
    | _ => raise Client.script.missing
  | _ => raise (.transaction "WriteRelay inbox insert returned an unexpected result")

def transact (env : Surroundings ε α) (table key digest : String) : InboxM ε (InboxResult α) := do
  let _ ← await env beginQuery []
  let claim ← await env (claimQuery table key digest) []
  let result ← settleClaim env table key digest claim
  modify fun s => { s with committing := true }
  let committed ← await env commitQuery env.duringCommit
  if committed.command = "COMMIT" then return result
  else raise (.transaction "WriteRelay inbox transaction did not commit")

def rollBack (env : Surroundings ε α) : InboxM ε Unit := do
  try
    let _ ← await env rollbackQuery env.duringRollback
  catch _ =>
    modify fun s => { s with discard := true }

def recover (env : Surroundings ε α) (error : Thrown ε) : InboxM ε (InboxResult α) := do
  modify fun s => { s with discard := s.committing }
  rollBack env
  throw error

def release : InboxM ε Unit :=
  modify fun s => { s with trace := s.trace ++ [.released s.discard] }

/-- The `try` with its `catch` and `finally`. -/
def conduct (env : Surroundings ε α) (table key digest : String) : InboxM ε (InboxResult α) := do
  try
    transact env table key digest
  catch error =>
    recover env error
  finally
    release

def withInbox (env : Surroundings ε α) (delivery : ScriptDelivery) (hasHandler : Bool) :
    InboxM ε (InboxResult α) := do
  match prepareScript delivery hasHandler with
  | .error e => raise e
  | .ok (table, digest) =>
    match env.connect with
    | .error e =>
      log (.raised (.other e))
      throw (.other e)
    | .ok _ =>
      log .connected
      conduct env table (delivery.key.getD "") digest

def call (env : Surroundings ε α) (delivery : ScriptDelivery) (hasHandler : Bool) :
    InboxM ε (InboxResult α) := do
  try
    withInbox env delivery hasHandler
  finally
    background env env.afterwards

section Monitors

def Event.error : Event ε → Option (Thrown ε)
  | .failed _ e | .raised e => some e
  | .settled e => e
  | _ => none

def originalError (trace : List (Event ε)) : Option (Thrown ε) := trace.findSome? Event.error

def observe : Option (Query × Option InboxQueryResult) → Event ε →
    Option (Query × Option InboxQueryResult)
  | _, .sent _ q => some (q, none)
  | some (q, none), .answered q' r => some (q, if q' = q then some r else none)
  | last, _ => last

def lastQuery (trace : List (Event ε)) : Option (Query × Option InboxQueryResult) :=
  trace.foldl observe none

def Event.reached : Event ε → Option Query
  | .sent .callback q => some q
  | _ => none

def reached (trace : List (Event ε)) : List Query := trace.filterMap Event.reached

def Event.isSettled : Event ε → Bool
  | .settled _ => true
  | _ => false

def Event.isResumed : Event ε → Bool
  | .resumed => true
  | _ => false

def Event.isEnding : Event ε → Bool
  | .sent .helper q => q = commitQuery ∨ q = rollbackQuery
  | _ => false

theorem uses_append {a b : List (Event ε)} : uses (a ++ b) = uses a ++ uses b :=
  List.filterMap_append

theorem originalError_append {a b : List (Event ε)} :
    originalError (a ++ b) = (originalError a).or (originalError b) := List.findSome?_append

theorem reached_append {a b : List (Event ε)} : reached (a ++ b) = reached a ++ reached b :=
  List.filterMap_append

theorem reached_eq_nil {a : List (Event ε)} : reached a = [] ↔ ∀ e ∈ a, e.reached = none :=
  List.filterMap_eq_nil_iff

theorem reached_after_append {p : Event ε → Bool} {a b : List (Event ε)} (quiet : reached b = []) :
    reached (after p (a ++ b)) = reached (after p a) := by
  by_cases found : ∃ e ∈ a, p e = true
  · rw [after_append_left found, reached_append, quiet, List.append_nil]
  · have none_ : ∀ e ∈ a, p e = false := by simpa using found
    rw [after_append_right none_, after_eq_nil none_]
    exact reached_eq_nil.mpr fun e mem => reached_eq_nil.mp quiet e (after_subset mem)

def exchange (q : Query) (refusals : List Query) (last : Event ε) : List (Event ε) :=
  .sent .helper q :: refusals.map .refused ++ [last]

theorem mem_exchange {q : Query} {refusals : List Query} {last e : Event ε}
    (mem : e ∈ exchange q refusals last) :
    e = .sent .helper q ∨ (∃ q', e = .refused q') ∨ e = last := by
  simp only [exchange, List.cons_append, List.mem_cons, List.mem_append, List.mem_map,
    List.not_mem_nil, or_false] at mem
  rcases mem with sent | ⟨q', _, rfl⟩ | last
  · exact .inl sent
  · exact .inr (.inl ⟨q', rfl⟩)
  · exact .inr (.inr last)

theorem lastQuery_refused {a : List (Event ε)} {refusals : List Query} :
    lastQuery (a ++ refusals.map .refused) = lastQuery a := by
  unfold lastQuery
  rw [List.foldl_append, List.foldl_map]
  generalize a.foldl observe none = last
  induction refusals generalizing last with
  | nil => rfl
  | cons q rest ih => cases last <;> exact ih _

theorem lastQuery_exchange {a : List (Event ε)} {q : Query} {refusals : List Query}
    {r : InboxQueryResult} :
    lastQuery (a ++ exchange q refusals (.answered q r)) = some (q, some r) := by
  have sent : lastQuery (a ++ [.sent .helper q] ++ refusals.map .refused) = some (q, none) := by
    rw [lastQuery_refused]
    simp [lastQuery, observe]
  have split : a ++ exchange q refusals (.answered q r) =
      a ++ [.sent .helper q] ++ refusals.map .refused ++ [.answered q r] := by simp [exchange]
  rw [split, lastQuery, List.foldl_append]
  change observe (lastQuery _) _ = _
  rw [sent]
  simp [observe]

end Monitors

section Execution

variable (env : Surroundings ε α) {s : Session ε}

def Session.extend (s : Session ε) (events : List (Event ε)) : Session ε :=
  { s with trace := s.trace ++ events }

theorem Session.extend_extend {a b : List (Event ε)} : (s.extend a).extend b = s.extend (a ++ b) := by
  simp [extend]

def attempts (active : Option Bool) (qs : List Query) : List (Event ε) :=
  match active with
  | none => []
  | some true => qs.map (.sent .callback)
  | some false => qs.map .refused

theorem attempts_inactive {active : Option Bool} (inactive : active ≠ some true) (qs : List Query) :
    ∃ refusals : List Query, (attempts active qs : List (Event ε)) = refusals.map .refused := by
  match active with
  | none => exact ⟨[], rfl⟩
  | some true => contradiction
  | some false => exact ⟨qs, rfl⟩

theorem background_eq (qs : List Query) :
    background env qs s = .ok () (s.extend (attempts s.active qs)) := by
  induction qs generalizing s with
  | nil =>
    have nothing : s.extend (attempts s.active []) = s := by
      unfold attempts
      split <;> simp [Session.extend]
    rw [nothing]
    rfl
  | cons q rest ih =>
    obtain ⟨trace, active, discard, committing⟩ := s
    match active with
    | none => exact ih
    | some true => exact ih.trans (by simp [Session.extend, attempts])
    | some false => exact ih.trans (by simp [Session.extend, attempts])

theorem await_eq (q : Query) (others : List Query) :
    await env q others s =
      match env.answer (uses s.trace).length q with
      | .ok r => .ok r (s.extend (.sent .helper q :: attempts s.active others ++ [.answered q r]))
      | .error e => .error (.other e)
          (s.extend (.sent .helper q :: attempts s.active others ++ [.failed q (.other e)])) := by
  have sent : query env .helper q s = .ok ((env.answer (uses s.trace).length q).mapError .other)
      (s.extend [.sent .helper q]) := rfl
  unfold await
  rw [bind_ended sent, bind_ended (background_eq env others), Session.extend_extend]
  cases env.answer (uses s.trace).length q with
  | ok r =>
    change EStateM.Result.ok r (Session.extend _ _) = _
    rw [Session.extend_extend]
    rfl
  | error e =>
    change EStateM.Result.error _ (Session.extend _ _) = _
    rw [Session.extend_extend]
    rfl

theorem run_eq (handler : Handler ε α) (active : s.active = some true) :
    ∃ (qs : List Query) (outcome : Except (Thrown ε) α), handler.run env s =
      .ok outcome (s.extend (qs.map (.sent .callback) ++ [.settled (failure outcome)])) := by
  induction handler generalizing s with
  | settle outcome => exact ⟨[], outcome, rfl⟩
  | query q rest ih =>
    obtain ⟨trace, active, discard, committing⟩ := s
    cases active
    obtain ⟨qs, outcome, ended⟩ := ih ((env.answer (uses trace).length q).mapError .other)
      (s := ⟨trace ++ [.sent .callback q], some true, discard, committing⟩) rfl
    exact ⟨q :: qs, outcome, ended.trans (by simp [Session.extend])⟩

end Execution

section Hygiene

/-- What the client receives of the callback's queries after three points of the trace. -/
structure Quiet (env : Surroundings ε α) (trace : List (Event ε)) : Prop where
  settled : (∃ e ∈ trace, e.isSettled = true) →
    reached (after Event.isSettled trace) = env.beforeResuming
  resumed : reached (after Event.isResumed trace) = []
  ending : reached (after Event.isEnding trace) = []

theorem Quiet.append {env : Surroundings ε α} {trace events : List (Event ε)}
    (h : Quiet env trace) (silent : reached events = [])
    (unsettled : ∀ e ∈ events, e.isSettled = false) : Quiet env (trace ++ events) where
  settled := by
    rintro ⟨e, mem, settled⟩
    rw [reached_after_append silent]
    apply h.settled
    rcases List.mem_append.mp mem with mem | mem
    · exact ⟨e, mem, settled⟩
    · simp [unsettled e mem] at settled
  resumed := (reached_after_append silent).trans h.resumed
  ending := (reached_after_append silent).trans h.ending

structure Opens (trace : List (Event ε)) : Prop where
  connected : .connected ∈ trace
  queries : ∃ qs : List Query, uses trace = qs.map .query
  error : originalError trace = none
  unmarked : ∀ e ∈ trace, e.isSettled = false ∧ e.isResumed = false ∧ e.isEnding = false

theorem Opens.append {trace events : List (Event ε)} (h : Opens trace) (sent : List Query)
    (queries : uses events = sent.map .query) (error : originalError events = none)
    (unmarked : ∀ e ∈ events, e.isSettled = false ∧ e.isResumed = false ∧ e.isEnding = false) :
    Opens (trace ++ events) where
  connected := List.mem_append_left _ h.connected
  queries := by
    obtain ⟨earlier, before⟩ := h.queries
    exact ⟨earlier ++ sent, by rw [uses_append, before, queries, List.map_append]⟩
  error := by
    rw [originalError_append, h.error, error]
    rfl
  unmarked := by
    intro e mem
    rcases List.mem_append.mp mem with mem | mem
    · exact h.unmarked e mem
    · exact unmarked e mem

def Opening (s : Session ε) : Prop := s.active = none ∧ Opens s.trace

/-- The client is in use and no query of the callback can reach it. -/
structure Working (env : Surroundings ε α) (original : Option (Thrown ε)) (s : Session ε) :
    Prop extends Quiet env s.trace where
  inactive : s.active ≠ some true
  connected : .connected ∈ s.trace
  queries : ∃ qs : List Query, uses s.trace = qs.map .query
  error : originalError s.trace = original

theorem Opening.working {s : Session ε} (h : Opening s) (env : Surroundings ε α) :
    Working env none s where
  settled := by
    rintro ⟨e, mem, settled⟩
    simp [(h.2.unmarked e mem).1] at settled
  resumed := by
    rw [after_eq_nil fun e mem => (h.2.unmarked e mem).2.1]
    rfl
  ending := by
    rw [after_eq_nil fun e mem => (h.2.unmarked e mem).2.2]
    rfl
  inactive := by simp [h.1]
  connected := h.2.connected
  queries := h.2.queries
  error := h.2.error

theorem Working.extend {env : Surroundings ε α} {original : Option (Thrown ε)} {s : Session ε}
    (h : Working env original s) (events : List (Event ε)) (sent : List Query)
    (queries : uses events = sent.map .query) (silent : reached events = [])
    (unsettled : ∀ e ∈ events, e.isSettled = false) :
    Working env (original.or (originalError events)) (s.extend events) where
  toQuiet := h.toQuiet.append silent unsettled
  inactive := h.inactive
  connected := List.mem_append_left _ h.connected
  queries := by
    obtain ⟨qs, earlier⟩ := h.queries
    exact ⟨qs ++ sent, by simp [Session.extend, uses_append, earlier, queries]⟩
  error := by
    rw [← h.error]
    exact originalError_append

theorem Working.awaited {env : Surroundings ε α} {original : Option (Thrown ε)} {s : Session ε}
    (h : Working env original s) (q : Query) (refusals : List Query) (last : Event ε)
    (use : last.use = none) (silent : last.reached = none) (unsettled : last.isSettled = false) :
    Working env (original.or last.error) (s.extend (exchange q refusals last)) := by
  have error : originalError (exchange q refusals last) = last.error := by
    have earlier : originalError (.sent .helper q :: refusals.map .refused : List (Event ε)) = none := by
      simp [originalError, Event.error]
    rw [exchange, originalError_append, earlier]
    simp [originalError]
  rw [← error]
  apply h.extend _ [q]
  · have earlier : uses (.sent .helper q :: refusals.map .refused : List (Event ε)) = [.query q] := by
      simp [uses, Event.use]
    rw [exchange, uses_append, earlier]
    simp [uses, use]
  · apply reached_eq_nil.mpr
    intro e mem
    rcases mem_exchange mem with rfl | ⟨q', rfl⟩ | rfl
    · rfl
    · rfl
    · exact silent
  · intro e mem
    rcases mem_exchange mem with rfl | ⟨q', rfl⟩ | rfl
    · rfl
    · rfl
    · exact unsettled

variable (env : Surroundings ε α)

theorem await_working (q : Query) (others : List Query) (original : Option (Thrown ε)) :
    Triple (Working env original) (await env q others)
      (fun r s => Working env original s ∧ lastQuery s.trace = some (q, some r))
      (fun e => Working env (original.or (some e))) := by
  intro s h
  obtain ⟨refusals, refused⟩ := attempts_inactive h.inactive others
  rw [await_eq, refused]
  cases env.answer (uses s.trace).length q with
  | ok r =>
    have kept := h.awaited q refusals (.answered q r) rfl rfl rfl
    change Working env (original.or none) _ at kept
    rw [Option.or_none] at kept
    exact ⟨kept, lastQuery_exchange⟩
  | error e => exact h.awaited q refusals (.failed q (.other e)) rfl rfl rfl

theorem await_opening (q : Query) (early : q ≠ commitQuery ∧ q ≠ rollbackQuery) :
    Triple Opening (await env q []) (fun _ => Opening) (fun e => Working env (some e)) := by
  intro s h
  rw [await_eq, h.1]
  cases env.answer (uses s.trace).length q with
  | ok r =>
    refine ⟨h.1, h.2.append [q] rfl rfl ?_⟩
    simp [attempts, Event.isSettled, Event.isResumed, Event.isEnding, early]
  | error e => exact (h.working env).awaited q [] (.failed q (.other e)) rfl rfl rfl

theorem early_of_values {q : Query} (values : q.values ≠ []) :
    q ≠ commitQuery ∧ q ≠ rollbackQuery := by
  constructor
  · rintro rfl
    exact values rfl
  · rintro rfl
    exact values rfl

theorem raise_working {β : Type} (e : InboxError) {pre : Session ε → Prop}
    {post : β → Session ε → Prop} (working : ∀ s, pre s → Working env none s) :
    Triple pre (raise e) post (fun e => Working env (some e)) := by
  intro s h
  exact (working s h).extend [.raised (.inbox e)] [] rfl rfl (by simp [Event.isSettled])

theorem uses_sends {source : Source} (qs : List Query) :
    uses (qs.map (.sent source) : List (Event ε)) = qs.map .query := by
  simp [uses, Event.use, Function.comp_def]

theorem originalError_sends {source : Source} (qs : List Query) :
    originalError (qs.map (.sent source) : List (Event ε)) = none := by
  simp [originalError, Event.error]

theorem Opens.sends {trace : List (Event ε)} (h : Opens trace) (qs : List Query) :
    Opens (trace ++ qs.map (.sent .callback)) := by
  apply h.append qs (uses_sends qs) (originalError_sends qs)
  simp [Event.isSettled, Event.isResumed, Event.isEnding]

def Handled (env : Surroundings ε α) (error : Option (Thrown ε)) (s : Session ε) : Prop :=
  ∃ before, Opens before ∧
    s.trace = before ++ .settled error :: env.beforeResuming.map (.sent .callback)

theorem awaitHandle_handled :
    Triple (fun s => s.active = some true ∧ Opens s.trace) (awaitHandle env)
      (fun _ => Handled env none) (fun e => Handled env (some e)) := by
  rintro s ⟨active, opens⟩
  obtain ⟨qs, outcome, ended⟩ := run_eq env env.handle active
  unfold awaitHandle
  rw [bind_ended ended, bind_ended (background_eq env _)]
  cases outcome with
  | ok value => exact ⟨_, opens.sends qs, by simp [Session.extend, attempts, active, failure]⟩
  | error e => exact ⟨_, opens.sends qs, by simp [Session.extend, attempts, active, failure]⟩

theorem Handled.resume {error : Option (Thrown ε)} {s : Session ε} (h : Handled env error s) :
    Working env error { s with active := some false, trace := s.trace ++ [.resumed] } := by
  obtain ⟨before, opens, trace⟩ := h
  have reached_gap : reached (env.beforeResuming.map (.sent .callback) : List (Event ε)) =
      env.beforeResuming := by
    simp [reached, Event.reached, Function.comp_def]
  have resumed : ∀ e ∈ before ++ .settled error :: env.beforeResuming.map (.sent .callback),
      e.isResumed = false ∧ e.isEnding = false := by
    intro e mem
    rcases List.mem_append.mp mem with mem | mem
    · exact (opens.unmarked e mem).2
    · rcases List.mem_cons.mp mem with rfl | mem
      · exact ⟨rfl, rfl⟩
      · obtain ⟨q, _, rfl⟩ := List.mem_map.mp mem
        exact ⟨rfl, rfl⟩
  -- the queries sent before resuming went to the callback, after it had settled
  constructor
  case toQuiet =>
    simp only [trace]
    constructor
    · intro _
      rw [List.append_assoc, after_append_right fun e mem => (opens.unmarked e mem).1]
      rw [List.cons_append, after_cons rfl, reached_append, reached_gap]
      exact List.append_nil _
    · rw [after_append_right fun e mem => (resumed e mem).1, after_cons rfl]
      rfl
    · rw [after_append_right fun e mem => (resumed e mem).2]
      rfl
  case inactive => simp
  case connected => simp [trace, opens.connected]
  case queries =>
    obtain ⟨earlier, queries⟩ := opens.queries
    refine ⟨earlier ++ env.beforeResuming, ?_⟩
    have gap : uses ([.settled error] ++ env.beforeResuming.map (.sent .callback) ++ [.resumed]) =
        env.beforeResuming.map .query := by
      rw [uses_append, uses_append, uses_sends]
      exact List.append_nil _
    rw [trace, List.append_assoc, uses_append, queries, List.map_append]
    exact congrArg _ gap
  case error =>
    rw [trace, List.append_assoc, originalError_append, opens.error]
    cases error with
    | some e => rfl
    | none =>
      change originalError ([.settled none] ++ env.beforeResuming.map (.sent .callback) ++ [.resumed]) = _
      rw [originalError_append, originalError_append, originalError_sends]
      rfl

theorem invoke_working :
    Triple Opening (invoke env) (fun _ => Working env none) (fun e => Working env (some e)) := by
  have activated : Triple Opening (modify fun s : Session ε => { s with active := some true })
      (fun _ s => s.active = some true ∧ Opens s.trace) (fun e => Working env (some e)) :=
    Triple.modify fun _ h => ⟨rfl, h.2⟩
  apply activated.bind
  intro _
  apply (awaitHandle_handled env).ensuring
  · exact fun _ => Triple.modify fun _ h => h.resume env
  · exact fun _ => Triple.modify fun _ h => h.resume env

theorem settleClaim_working (table key digest : String) (claim : InboxQueryResult) :
    Triple Opening (settleClaim env table key digest claim) (fun _ => Working env none)
      (fun e => Working env (some e)) := by
  unfold settleClaim
  split
  · apply (invoke_working env).bind
    exact fun _ => Triple.pure fun _ h => h
  · apply (await_opening env _ (early_of_values (List.cons_ne_nil _ _))).bind
    intro existing
    split
    · split
      · exact Triple.pure fun _ h => h.working env
      · exact raise_working env _ fun _ h => h.working env
    · exact raise_working env _ fun _ h => h.working env
  · exact raise_working env _ fun _ h => h.working env

def Committed (s : Session ε) : Prop :=
  ∃ r, lastQuery s.trace = some (commitQuery, some r) ∧ r.command = "COMMIT"

theorem transact_working (table key digest : String) :
    Triple Opening (transact env table key digest) (fun _ s => Working env none s ∧ Committed s)
      (fun e => Working env (some e)) := by
  apply (await_opening env beginQuery (by decide)).bind
  intro _
  apply (await_opening env _ (early_of_values (List.cons_ne_nil _ _))).bind
  intro claim
  apply (settleClaim_working env table key digest claim).bind
  intro result
  have marked : Triple (Working env none)
      (modify fun s : Session ε => { s with committing := true }) (fun _ => Working env none)
      (fun e => Working env (some e)) := Triple.modify fun _ h => { h with }
  apply marked.bind
  intro _
  apply (await_working env commitQuery env.duringCommit none).bind
  intro committed
  split
  · rename_i tag
    exact Triple.pure fun _ h => ⟨h.1, committed, h.2, tag⟩
  · exact raise_working env _ fun _ h => h.1

def Recovered (env : Surroundings ε α) (error : Thrown ε) (s : Session ε) : Prop :=
  Working env (some error) s ∧
    (s.discard = false → ∃ r, lastQuery s.trace = some (rollbackQuery, some r))

theorem rollBack_recovered (error : Thrown ε) :
    Triple (Working env (some error)) (rollBack env) (fun _ => Recovered env error)
      (Recovered env) := by
  have awaited : Triple (Working env (some error)) (await env rollbackQuery env.duringRollback)
      (fun r s => Working env (some error) s ∧ lastQuery s.trace = some (rollbackQuery, some r))
      (fun _ => Working env (some error)) :=
    await_working env rollbackQuery env.duringRollback (some error)
  apply Triple.tryCatch
  · apply awaited.bind
    exact fun r => Triple.pure fun _ h => ⟨h.1, fun _ => ⟨r, h.2⟩⟩
  · exact fun _ => Triple.modify fun _ h => ⟨{ h with }, nofun⟩

theorem recover_recovered (error : Thrown ε) {post : InboxResult α → Session ε → Prop} :
    Triple (Working env (some error)) (recover env error) post (Recovered env) := by
  have marked : Triple (Working env (some error))
      (modify fun s : Session ε => { s with discard := s.committing })
      (fun _ => Working env (some error)) (Recovered env) := Triple.modify fun _ h => { h with }
  apply marked.bind
  intro _
  apply (rollBack_recovered env error).bind
  exact fun _ => Triple.throw fun _ h => h

/-- The whole of what a call promises about the client it checked out. -/
structure Hygiene (env : Surroundings ε α) (result : Except (Thrown ε) (InboxResult α))
    (trace : List (Event ε)) : Prop extends Quiet env trace where
  released : .connected ∈ trace → ∃ (qs : List Query) (destroy : Bool),
    uses trace = qs.map .query ++ [.release destroy]
  unconnected : .connected ∉ trace → uses trace = []
  reused : .release false ∈ uses trace → ∃ q r, lastQuery trace = some (q, some r) ∧
    (q = commitQuery ∧ r.command = "COMMIT" ∨ q = rollbackQuery)
  original : originalError trace = failure result
  returned : ∀ value, result = .ok value →
    ∃ r, lastQuery trace = some (commitQuery, some r) ∧ r.command = "COMMIT"

theorem Hygiene.append_refused {env : Surroundings ε α} {result : Except (Thrown ε) (InboxResult α)}
    {trace : List (Event ε)} (h : Hygiene env result trace) (refusals : List Query) :
    Hygiene env result (trace ++ refusals.map .refused) := by
  have uses_eq : uses (trace ++ refusals.map .refused) = uses trace := by
    simp [uses, Event.use]
  have connected : .connected ∈ trace ++ refusals.map .refused ↔ .connected ∈ trace := by simp
  constructor
  case toQuiet =>
    apply h.toQuiet.append
    · simp [reached, Event.reached]
    · simp [Event.isSettled]
  case released =>
    rw [uses_eq, connected]
    exact h.released
  case unconnected =>
    rw [uses_eq, connected]
    exact h.unconnected
  case reused =>
    rw [uses_eq, lastQuery_refused]
    exact h.reused
  case original =>
    rw [← h.original, originalError_append]
    have none_ : originalError (refusals.map .refused : List (Event ε)) = none := by
      simp [originalError, Event.error]
    rw [none_, Option.or_none]
  case returned =>
    rw [lastQuery_refused]
    exact h.returned

theorem Working.release {s : Session ε} {result : Except (Thrown ε) (InboxResult α)}
    (h : Working env (failure result) s)
    (reused : s.discard = false → ∃ q r, lastQuery s.trace = some (q, some r) ∧
      (q = commitQuery ∧ r.command = "COMMIT" ∨ q = rollbackQuery))
    (returned : ∀ value, result = .ok value → Committed s) :
    Hygiene env result (s.trace ++ [.released s.discard]) := by
  obtain ⟨qs, queries⟩ := h.queries
  have uses_eq : uses (s.trace ++ [.released s.discard]) = qs.map .query ++ [.release s.discard] := by
    rw [uses_append, queries]
    rfl
  have last : lastQuery (s.trace ++ [.released s.discard]) = lastQuery s.trace := by
    unfold lastQuery
    rw [List.foldl_append]
    generalize s.trace.foldl observe none = last
    match last with
    | none | some (q, none) | some (q, some r) => rfl
  constructor
  case toQuiet => exact h.toQuiet.append rfl (by simp [Event.isSettled])
  case released => exact fun _ => ⟨qs, _, uses_eq⟩
  case unconnected => exact fun missing => absurd (List.mem_append_left _ h.connected) missing
  case reused =>
    rw [uses_eq, last]
    intro kept
    apply reused
    have same : false = s.discard := by simpa using kept
    exact same.symm
  case original =>
    rw [originalError_append, h.error]
    exact Option.or_none
  case returned =>
    rw [last]
    exact returned

theorem unconnected_hygiene (e : Thrown ε) :
    Hygiene env (.error e) [.raised e] := by
  constructor
  case toQuiet => constructor <;> simp [after, reached, Event.isSettled, Event.isResumed, Event.isEnding]
  case released => simp
  case unconnected => exact fun _ => rfl
  case reused => simp [uses, Event.use]
  case original => rfl
  case returned =>
    intro value h
    contradiction

theorem connected_opening : Opening (Session.initial.extend [.connected] : Session ε) := by
  refine ⟨rfl, ?_⟩
  constructor
  case connected => simp [Session.extend]
  case queries => exact ⟨[], rfl⟩
  case error => rfl
  case unmarked =>
    simp [Session.extend, Session.initial, Event.isSettled, Event.isResumed, Event.isEnding]

theorem conduct_hygiene (table key digest : String) :
    Triple Opening (conduct env table key digest)
      (fun value s => s.active ≠ some true ∧ Hygiene env (.ok value) s.trace)
      (fun e s => s.active ≠ some true ∧ Hygiene env (.error e) s.trace) := by
  have attempted : Triple Opening (tryCatch (transact env table key digest) (recover env))
      (fun _ s => Working env none s ∧ Committed s) (Recovered env) :=
    (transact_working env table key digest).tryCatch fun e => recover_recovered env e
  apply attempted.ensuring
  · intro value
    apply Triple.modify
    rintro s ⟨working, committed⟩
    refine ⟨working.inactive, Working.release env working ?_ ?_⟩
    · obtain ⟨r, last, tag⟩ := committed
      exact fun _ => ⟨commitQuery, r, last, .inl ⟨rfl, tag⟩⟩
    · exact fun _ _ => committed
  · intro e
    apply Triple.modify
    rintro s ⟨working, rolledBack⟩
    refine ⟨working.inactive, Working.release env working ?_ nofun⟩
    intro kept
    obtain ⟨r, last⟩ := rolledBack kept
    exact ⟨rollbackQuery, r, last, .inr rfl⟩

theorem withInbox_hygiene (delivery : ScriptDelivery) (hasHandler : Bool) :
    Triple (fun s => s = Session.initial) (withInbox env delivery hasHandler)
      (fun value s => s.active ≠ some true ∧ Hygiene env (.ok value) s.trace)
      (fun e s => s.active ≠ some true ∧ Hygiene env (.error e) s.trace) := by
  rintro s rfl
  unfold withInbox
  cases prepareScript delivery hasHandler with
  | error e => exact ⟨nofun, unconnected_hygiene env _⟩
  | ok prepared =>
    cases env.connect with
    | error e => exact ⟨nofun, unconnected_hygiene env _⟩
    | ok _ =>
      exact conduct_hygiene env prepared.1 (delivery.key.getD "") prepared.2 _ connected_opening

theorem call_hygiene (delivery : ScriptDelivery) (hasHandler : Bool) :
    Triple (fun s => s = Session.initial) (call env delivery hasHandler)
      (fun value s => Hygiene env (.ok value) s.trace) (fun e s => Hygiene env (.error e) s.trace) := by
  apply (withInbox_hygiene env delivery hasHandler).ensuring
  · rintro value s ⟨inactive, h⟩
    obtain ⟨refusals, refused⟩ := attempts_inactive inactive env.afterwards
    rw [background_eq, refused]
    exact h.append_refused refusals
  · rintro e s ⟨inactive, h⟩
    obtain ⟨refusals, refused⟩ := attempts_inactive inactive env.afterwards
    rw [background_eq, refused]
    exact h.append_refused refusals

/-- Whatever fails, and whenever code of the callback runs. -/
theorem connection_hygiene (delivery : ScriptDelivery) (hasHandler : Bool) :
    match call env delivery hasHandler .initial with
    | .ok value s => Hygiene env (.ok value) s.trace
    | .error e s => Hygiene env (.error e) s.trace := by
  have ended := call_hygiene env delivery hasHandler .initial rfl
  generalize call env delivery hasHandler .initial = result at ended
  cases result <;> exact ended

end Hygiene

section LateQuery

def lateQuery : Query := ⟨"UPDATE orders SET late = true", []⟩

/-- `async (tx) => { Promise.resolve().then(() => tx.query(...)) }`: the promise is settled when
the callback returns, and the queued job runs before the one that resumes `withInbox`. -/
def lateCallback : Surroundings Unit Unit where
  connect := .ok ()
  answer := fun _ q => .ok ⟨q.text, some 1, []⟩
  handle := .settle (.ok ())
  beforeResuming := [lateQuery]
  duringCommit := []
  duringRollback := []
  afterwards := []

def lateDelivery : ScriptDelivery :=
  ⟨.absent, .absent, .value (String.ofList (List.replicate 64 'a')), .value [123]⟩

theorem settled_callback_reaches_client :
    ∃ s, call lateCallback lateDelivery true .initial = .ok (.processed ()) s ∧
      reached (after Event.isSettled s.trace) = [lateQuery] := by
  have prepared : ∃ digest, prepareScript lateDelivery true =
      .ok (quoted "public" "writerelay_inbox", digest) := by
    have table : tableName .absent .absent = .ok (quoted "public" "writerelay_inbox") := by
      decide +kernel
    exact ⟨_, by simp [prepareScript, lateDelivery, table, Except.map]; rfl⟩
  obtain ⟨digest, prepared⟩ := prepared
  unfold call withInbox
  rw [prepared]
  exact ⟨_, rfl, rfl⟩

end LateQuery

end WriteRelay.Inbox.Script
