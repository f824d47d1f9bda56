import WriteRelay.Base.Claims
import WriteRelay.Base.Sha256
import WriteRelay.Failure

/-! The receiver inbox: Go `WithInbox` and `WithInboxSQL` and TypeScript `withInbox`,
statement by statement, against one PostgreSQL table. -/
namespace WriteRelay.Inbox
open Runs
open Claims (Status Tx)

/-- `^[A-Za-z_][A-Za-z0-9_]{0,62}$`. -/
def isIdentifier (s : String) : Bool :=
  match s.toList with
  | [] => false
  | c :: rest => (c.isAlpha || c = '_') && rest.all (fun c => c.isAlphanum || c = '_') &&
      decide (rest.length ≤ 62)

/-- `^[a-f0-9]{64}$`. -/
def isKey (s : String) : Bool :=
  s.toList.all (fun c => c.isDigit || ('a' ≤ c && c ≤ 'f')) && decide (s.toList.length = 64)

inductive InboxError
  | invalidDelivery (message : String)
  | typeError (message : String)
  | conflict
  | transaction (message : String)
  | database
  | handler
  | cancelled
  deriving DecidableEq

def InboxError.outside : InboxError → Bool
  | .database | .handler | .cancelled => true
  | .invalidDelivery _ | .typeError _ | .conflict | .transaction _ => false

def quoted (schema table : String) : String :=
  "\"" ++ schema ++ "\".\"" ++ table ++ "\""

structure InboxTable where
  schema : String
  table : String

/-- `InboxTable.name`, the Go form: empty fields have defaults. -/
def InboxTable.name (t : InboxTable) : Except InboxError String :=
  let schema := if t.schema = "" then "public" else t.schema
  let table := if t.table = "" then "writerelay_inbox" else t.table
  if !isIdentifier schema || !isIdentifier table then
    .error (.invalidDelivery
      "table identifiers must be ASCII SQL identifiers of at most 63 characters")
  else .ok (quoted schema table)

structure InboxDelivery extends InboxTable where
  key : String
  body : Bytes

def prepareInbox (delivery : InboxDelivery) (hasHandler : Bool) :
    Except InboxError (String × String) :=
  if !isKey delivery.key || delivery.body.length = 0 || !hasHandler then
    .error (.invalidDelivery
      "require a 64-character lowercase hex key, original body bytes, and handler")
  else delivery.name.map fun table => (table, Sha256.hex (Sha256.sum delivery.body))

inductive Property (α : Type)
  | absent
  | value (a : α)
  | other

def Property.orElse {α : Type} (p : Property α) (default : α) : Property α :=
  match p with
  | .absent => .value default
  | p => p

/-- `tableName`, the TypeScript form: `??` replaces absent properties only. -/
def tableName (schema table : Property String) : Except InboxError String :=
  let invalid := InboxError.typeError
    "WriteRelay inbox identifiers must be ASCII SQL identifiers of at most 63 characters"
  match schema.orElse "public", table.orElse "writerelay_inbox" with
  | .value schema, .value table =>
    if isIdentifier schema && isIdentifier table then .ok (quoted schema table)
    else .error invalid
  | _, _ => .error invalid

structure ScriptDelivery where
  schema : Property String
  table : Property String
  key : Property String
  body : Property Bytes

def prepareScript (delivery : ScriptDelivery) (hasHandler : Bool) :
    Except InboxError (String × String) :=
  match delivery.key with
  | .absent | .other => .error (.typeError "WriteRelay inbox key must be 64 lowercase hex digits")
  | .value key =>
    if !isKey key then .error (.typeError "WriteRelay inbox key must be 64 lowercase hex digits")
    else match delivery.body with
      | .absent | .other =>
        .error (.typeError "WriteRelay inbox body must contain the original request bytes")
      | .value body =>
        if body.length = 0 then
          .error (.typeError "WriteRelay inbox body must contain the original request bytes")
        else if !hasHandler then
          .error (.typeError "WriteRelay inbox handler must be a function")
        else (tableName delivery.schema delivery.table).map fun table =>
          (table, Sha256.hex (Sha256.sum body))

inductive Client
  | pgx
  | sql
  | script
  deriving DecidableEq

inductive Invocation
  | withInbox (delivery : InboxDelivery) (hasHandler : Bool)
  | withInboxSQL (delivery : InboxDelivery) (hasHandler : Bool)
  | withInboxScript (delivery : ScriptDelivery) (hasHandler : Bool)

def Property.getD {α : Type} (p : Property α) (default : α) : α :=
  match p with
  | .value a => a
  | .absent | .other => default

namespace Invocation

def client : Invocation → Client
  | .withInbox .. => .pgx
  | .withInboxSQL .. => .sql
  | .withInboxScript .. => .script

def prepare : Invocation → Except InboxError (String × String)
  | .withInbox delivery hasHandler | .withInboxSQL delivery hasHandler =>
    prepareInbox delivery hasHandler
  | .withInboxScript delivery hasHandler => prepareScript delivery hasHandler

def key : Invocation → String
  | .withInbox delivery _ | .withInboxSQL delivery _ => delivery.key
  | .withInboxScript delivery _ => delivery.key.getD ""

def body : Invocation → Bytes
  | .withInbox delivery _ | .withInboxSQL delivery _ => delivery.body
  | .withInboxScript delivery _ => delivery.body.getD []

end Invocation

inductive InboxResult
  | processed
  | duplicate
  deriving DecidableEq

/-- `atCommit` marks an error of the commit itself. -/
inductive Outcome
  | returned (result : InboxResult)
  | failed (error : InboxError) (atCommit : Bool)
  | panicked
  deriving DecidableEq

inductive Stage
  | claiming
  | handling
  | reading
  | checking (result : InboxResult)
  | committing (result : InboxResult)
  | finished (outcome : Outcome)
  deriving DecidableEq

structure Call where
  invocation : Invocation
  digest : String
  stage : Stage
  called : Bool

def Call.at (call : Call) (stage : Stage) : Call := { call with stage }

abbrev Store := Claims.Store Nat String String String

structure World where
  store : Store
  calls : Nat → Option Call

def World.put (w : World) (c : Nat) (call : Call) (store : Store) : World :=
  ⟨store, Function.update w.calls c (some call)⟩

def Client.missing : Client → InboxError
  | .pgx | .sql => .transaction "writerelay: inconsistent inbox transaction"
  | .script => .transaction "WriteRelay inbox claim disappeared; processing was not attempted"

def afterRead (client : Client) (digest : String) : Option String → Stage
  | none => .finished (.failed client.missing false)
  | some previous =>
    if previous ≠ digest then .finished (.failed .conflict false) else .checking .duplicate

inductive Tag
  | commit
  | rollback

/-- What the client makes of the answer: `database/sql` does not see the tag. -/
def Client.afterCommit (result : InboxResult) : Client → Tag → Outcome
  | _, .commit => .returned result
  | .sql, .rollback => .returned result
  | .pgx, .rollback => .failed .database true
  | .script, .rollback => .failed (.transaction "WriteRelay inbox transaction did not commit") true

def Tag.of (tag : Tag) (tx : Tx String String String) : Prop :=
  match tag with
  | .commit => tx.status = .committed
  | .rollback => tx.status = .rolledBack ∧ tx.aborted = true

def Stage.gaveUp : Stage → Bool
  | .finished (.failed _ atCommit) => !atCommit
  | .finished .panicked => true
  | _ => false

/-- The callback's statements may still reach the server: they are not awaited after a
failure, and in TypeScript they may be queued before COMMIT. -/
def Call.mayWrite (call : Call) : Bool :=
  call.called && (call.stage = .handling || call.stage.gaveUp ||
    (call.invocation.client = .script && call.stage = .committing .processed))

def Call.mayAbort (call : Call) : Bool :=
  match call.stage with
  | .claiming | .handling | .reading | .checking _ => true
  | .committing _ | .finished _ => call.mayWrite || call.stage.gaveUp

inductive Step (table : String) (w : World) : World → Prop
  | reject (c : Nat) (invocation : Invocation) (e : InboxError) : w.calls c = none →
      invocation.prepare = .error e →
      Step table w (w.put c ⟨invocation, "", .finished (.failed e false), false⟩ w.store)
  -- no pool, no connection, or BEGIN failed
  | unopened (c : Nat) (invocation : Invocation) (e : InboxError) : w.calls c = none →
      (e.outside = true ∨ ∃ message, e = .invalidDelivery message) →
      Step table w (w.put c ⟨invocation, "", .finished (.failed e false), false⟩ w.store)
  | begin (c : Nat) (invocation : Invocation) (digest : String) : w.calls c = none →
      invocation.prepare = .ok (table, digest) →
      Step table w (w.put c ⟨invocation, digest, .claiming, false⟩ (w.store.put c .begin))
  -- the INSERT reports one row
  | claimed (c : Nat) (call : Call) (tx : Tx String String String) : w.calls c = some call →
      call.stage = .claiming → w.store.txs c = some tx → tx.usable → tx.claim = none →
      w.store.free call.invocation.key →
      Step table w (w.put c { call with stage := .handling, called := true }
        (w.store.put c { tx with claim := some (call.invocation.key, call.digest) }))
  -- the INSERT reports no row
  | conflicting (c : Nat) (call : Call) (tx : Tx String String String) : w.calls c = some call →
      call.stage = .claiming → w.store.txs c = some tx → tx.usable →
      call.invocation.key ∈ w.store.rows.map Prod.fst →
      Step table w (w.put c (call.at .reading) w.store)
  -- the INSERT takes effect after the call gave up on it
  | claimedLate (c : Nat) (call : Call) (tx : Tx String String String) : w.calls c = some call →
      call.stage.gaveUp = true → w.store.txs c = some tx → tx.usable → tx.claim = none →
      w.store.free call.invocation.key →
      Step table w (w.put c call
        (w.store.put c { tx with claim := some (call.invocation.key, call.digest) }))
  | read (c : Nat) (call : Call) (tx : Tx String String String) : w.calls c = some call →
      call.stage = .reading → w.store.txs c = some tx → tx.usable →
      Step table w (w.put c (call.at (afterRead call.invocation.client call.digest
        (w.store.rows.lookup call.invocation.key))) w.store)
  | write (c : Nat) (call : Call) (tx : Tx String String String) (sql : String) :
      w.calls c = some call → call.mayWrite = true → w.store.txs c = some tx → tx.usable →
      Step table w (w.put c call (w.store.put c { tx with writes := tx.writes ++ [sql] }))
  -- a statement fails on the server, whether or not the callback reports it
  | abort (c : Nat) (call : Call) (tx : Tx String String String) : w.calls c = some call →
      call.mayAbort = true → w.store.txs c = some tx → tx.status.live →
      Step table w (w.put c call (w.store.put c { tx with aborted := true }))
  | handled (c : Nat) (call : Call) : w.calls c = some call → call.stage = .handling →
      Step table w (w.put c (call.at (.checking .processed)) w.store)
  -- the context is alive and SELECT 1 succeeded; TypeScript goes straight on
  | checked (c : Nat) (call : Call) (tx : Tx String String String) (result : InboxResult) :
      w.calls c = some call → call.stage = .checking result → w.store.txs c = some tx →
      (call.invocation.client ≠ .script → tx.usable) →
      Step table w (w.put c (call.at (.committing result)) w.store)
  -- a statement, the callback or the context reports an error, or a row count is unexpected
  | fail (c : Nat) (call : Call) (e : InboxError) : w.calls c = some call →
      (e.outside = true ∨ ∃ message, e = .transaction message) →
      (call.stage = .claiming ∨ call.stage = .handling ∨ call.stage = .reading ∨
        ∃ result, call.stage = .checking result) →
      Step table w (w.put c (call.at (.finished (.failed e false))) w.store)
  | panic (c : Nat) (call : Call) : w.calls c = some call → call.stage = .handling →
      Step table w (w.put c (call.at (.finished .panicked)) w.store)
  | send (c : Nat) (call : Call) (tx : Tx String String String) (result : InboxResult) :
      w.calls c = some call → call.stage = .committing result → w.store.txs c = some tx →
      tx.status = .active →
      Step table w (w.put c call (w.store.put c { tx with status := .committing }))
  -- the server performs a COMMIT it received, perhaps after the client gave up
  | commit (c : Nat) (call : Call) (tx : Tx String String String) : w.calls c = some call →
      w.store.txs c = some tx → tx.status = .committing → tx.aborted = false →
      Step table w (w.put c call (w.store.commit c tx))
  -- ROLLBACK, a lost connection, a COMMIT that fails or that finds the transaction aborted
  | rollback (c : Nat) (call : Call) (tx : Tx String String String) : w.calls c = some call →
      w.store.txs c = some tx → tx.status.live →
      Step table w (w.put c call (w.store.put c { tx with status := .rolledBack }))
  | answered (c : Nat) (call : Call) (tx : Tx String String String) (result : InboxResult)
      (tag : Tag) : w.calls c = some call → call.stage = .committing result →
      w.store.txs c = some tx → tag.of tx →
      Step table w (w.put c
        (call.at (.finished (call.invocation.client.afterCommit result tag))) w.store)
  -- the commit reports an error, with any outcome on the server
  | commitFailed (c : Nat) (call : Call) (e : InboxError) (result : InboxResult) :
      w.calls c = some call → call.stage = .committing result → e.outside = true →
      Step table w (w.put c (call.at (.finished (.failed e true))) w.store)

def inbox (table : String) : System World where
  init w := w = ⟨.empty, fun _ => none⟩
  step := Step table

end WriteRelay.Inbox
