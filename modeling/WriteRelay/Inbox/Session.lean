import WriteRelay.Base.Dialogue
import WriteRelay.Inbox.Protocol

/-! Go `WithInbox` and `WithInboxSQL` as programs over their transaction, for any number of
calls on one server. Whatever a call is told, it does not leave its transaction open. -/
namespace WriteRelay.Inbox.Session
open Runs Dialogue
open Claims (Status Tx)

structure Statement where
  text : String
  args : List String
  deriving DecidableEq

inductive Request
  | begin
  | exec (s : Statement)
  | handle
  | read (s : Statement)
  | contextErr
  | commit
  | rollback
  deriving DecidableEq

inductive ReadError
  | noRows
  | other (e : InboxError)

inductive Handled
  | returned (err : Option InboxError)
  | panicked

/-- `exec` reports the number of rows; an absent error is Go's nil. -/
abbrev Answer : Request → Type
  | .exec _ => Except InboxError Int
  | .handle => Handled
  | .read _ => Except ReadError String
  | .begin | .contextErr | .commit | .rollback => Option InboxError

inductive Ended
  | returned (result : InboxResult)
  | failed (e : InboxError)
  | panicked
  deriving DecidableEq

def claimStatement (table key digest : String) : Statement :=
  ⟨"INSERT INTO " ++ table ++ " (idempotency_key, payload_sha256) VALUES ($1, $2) " ++
    "ON CONFLICT (idempotency_key) DO NOTHING", [key, digest]⟩

def receiptStatement (table key : String) : Statement :=
  ⟨"SELECT payload_sha256 FROM " ++ table ++ " WHERE idempotency_key = $1 FOR SHARE", [key]⟩

def probeStatement : Statement := ⟨"SELECT 1", []⟩

def inconsistent : InboxError := .transaction "writerelay: inconsistent inbox transaction"

/-- How `runInbox` returns, and the variable `committed` that its deferred function reads. -/
abbrev Body := Program Answer (Ended × Bool)

def fails (e : InboxError) : Body := .done (.failed e, false)

def afterCommit (result : InboxResult) : Answer .commit → Body
  | some e => fails e
  | none => .done (.returned result, true)

def commitBody (result : InboxResult) : Body := .ask .commit (afterCommit result)

def afterProbe (result : InboxResult) : Answer (.exec probeStatement) → Body
  | .error e => fails e
  | .ok _ => commitBody result

def probeBody (result : InboxResult) : Body := .ask (.exec probeStatement) (afterProbe result)

def afterContext (result : InboxResult) : Answer .contextErr → Body
  | some e => fails e
  | none => probeBody result

def settleBody (result : InboxResult) : Body := .ask .contextErr (afterContext result)

def afterHandle : Answer .handle → Body
  | .panicked => .done (.panicked, false)
  | .returned (some e) => fails e
  | .returned none => settleBody .processed

def handleBody : Body := .ask .handle afterHandle

def afterReceipt (digest : String) : Except ReadError String → Body
  | .error .noRows => fails inconsistent
  | .error (.other e) => fails e
  | .ok previous => if previous ≠ digest then fails .conflict else settleBody .duplicate

def readBody (table key digest : String) : Body :=
  .ask (.read (receiptStatement table key)) (afterReceipt digest)

def afterClaim (table key digest : String) : Except InboxError Int → Body
  | .error e => fails e
  | .ok n =>
    if n = 1 then handleBody
    else if n = 0 then readBody table key digest
    else fails inconsistent

def claimBody (table key digest : String) : Body :=
  .ask (.exec (claimStatement table key digest)) (afterClaim table key digest)

/-- The deferred function runs on every way out, also on a panic. -/
def deferred : Ended × Bool → Program Answer Ended
  | (ended, true) => .done ended
  | (ended, false) => .ask .rollback fun _ => .done ended

def runInbox (table key digest : String) : Program Answer Ended :=
  (claimBody table key digest).bind deferred

def afterBegin (table key digest : String) : Answer .begin → Program Answer Ended
  | some e => .done (.failed e)
  | none => runInbox table key digest

/-- `WithInbox` and `WithInboxSQL` up to `runInbox`; `missing` is their word for a nil pool. -/
def opening (delivery : InboxDelivery) (hasHandler hasPool : Bool) (missing : String) :
    Program Answer Ended :=
  match prepareInbox delivery hasHandler with
  | .error e => .done (.failed e)
  | .ok (table, digest) =>
    if !hasPool then .done (.failed (.invalidDelivery missing))
    else .ask .begin (afterBegin table delivery.key digest)

def withInbox (delivery : InboxDelivery) (hasHandler hasPool : Bool) : Program Answer Ended :=
  opening delivery hasHandler hasPool "pool is required"

def withInboxSQL (delivery : InboxDelivery) (hasHandler hasPool : Bool) : Program Answer Ended :=
  opening delivery hasHandler hasPool "database is required"

inductive EntryPoint
  | withInbox
  | withInboxSQL
  deriving DecidableEq

structure Arguments where
  function : EntryPoint
  delivery : InboxDelivery
  hasHandler : Bool
  hasPool : Bool

def Arguments.program (a : Arguments) : Program Answer Ended :=
  match a.function with
  | .withInbox => withInbox a.delivery a.hasHandler a.hasPool
  | .withInboxSQL => withInboxSQL a.delivery a.hasHandler a.hasPool

def Arguments.invocation (a : Arguments) : Invocation :=
  match a.function with
  | .withInbox => .withInbox a.delivery a.hasHandler
  | .withInboxSQL => .withInboxSQL a.delivery a.hasHandler

/-- A call in progress: what it asked and was told, and what it has left to do. -/
structure Running where
  arguments : Arguments
  history : List (Sigma Answer)
  program : Program Answer Ended

def Running.new (a : Arguments) : Running := ⟨a, [], a.program⟩

def Running.told (r : Running) (q : Request) (a : Answer q) (left : Program Answer Ended) : Running :=
  ⟨r.arguments, r.history ++ [⟨q, a⟩], left⟩

def gaveUpOn : Sigma Answer → Bool
  | ⟨.exec _, .error _⟩ | ⟨.read _, .error _⟩ => true
  | ⟨.handle, .returned (some _)⟩ | ⟨.handle, .panicked⟩ => true
  | _ => false

def Running.abandoned (r : Running) : List Request := (r.history.filter gaveUpOn).map Sigma.fst

def Running.calling (r : Running) : Prop :=
  r.program.request = some .handle ∨ .handle ∈ r.abandoned

def Request.isStatement : Request → Bool
  | .exec _ | .read _ | .handle => true
  | .begin | .contextErr | .commit | .rollback => false

def Running.sending (r : Running) : Prop :=
  (∃ q, r.program.request = some q ∧ q.isStatement = true) ∨ r.abandoned ≠ []

structure Sessions where
  store : Store
  calls : Nat → Option Running

def Sessions.put (s : Sessions) (c : Nat) (r : Running) (store : Store) : Sessions :=
  ⟨store, Function.update s.calls c (some r)⟩

/-- How PostgreSQL, the driver, the callback and the context answer a request of call `c`,
and what becomes of the store. -/
inductive Serves (table : String) (client : Client) (c : Nat) (store : Store) :
    (q : Request) → Answer q → Store → Prop
  | opened : store.txs c = none → Serves table client c store .begin none (store.put c .begin)
  | unopened (e : InboxError) : e.outside = true →
      Serves table client c store .begin (some e) store
  | inserted (s : Statement) (key digest : String) (tx : Tx String String String) :
      s = claimStatement table key digest → store.txs c = some tx → tx.usable →
      tx.claim = none → store.free key →
      Serves table client c store (.exec s) (.ok 1) (store.put c { tx with claim := some (key, digest) })
  | present (s : Statement) (key digest : String) (tx : Tx String String String) :
      s = claimStatement table key digest → store.txs c = some tx → tx.usable →
      key ∈ store.rows.map Prod.fst → Serves table client c store (.exec s) (.ok 0) store
  -- no PostgreSQL counts like this, but the source has the case
  | miscounted (s : Statement) (key digest : String) (n : Int) :
      s = claimStatement table key digest → n ≠ 1 → n ≠ 0 →
      Serves table client c store (.exec s) (.ok n) store
  | probed (s : Statement) (tx : Tx String String String) (n : Int) : s = probeStatement →
      store.txs c = some tx → tx.usable → Serves table client c store (.exec s) (.ok n) store
  | execFailed (s : Statement) (e : InboxError) : e.outside = true →
      Serves table client c store (.exec s) (.error e) store
  | found (s : Statement) (key digest : String) (tx : Tx String String String) :
      s = receiptStatement table key → store.txs c = some tx → tx.usable →
      store.rows.lookup key = some digest → Serves table client c store (.read s) (.ok digest) store
  | vanished (s : Statement) (key : String) (tx : Tx String String String) :
      s = receiptStatement table key → store.txs c = some tx → tx.usable →
      store.rows.lookup key = none → Serves table client c store (.read s) (.error .noRows) store
  | readFailed (s : Statement) (e : InboxError) : e.outside = true →
      Serves table client c store (.read s) (.error (.other e)) store
  | handled (err : Option InboxError) : (∀ e ∈ err, e.outside = true) →
      Serves table client c store .handle (.returned err) store
  | panicked : Serves table client c store .handle .panicked store
  | context (err : Option InboxError) : (∀ e ∈ err, e.outside = true) →
      Serves table client c store .contextErr err store
  | committed (tx : Tx String String String) : store.txs c = some tx → tx.status = .committed →
      Serves table client c store .commit none store
  -- pgx rejects the tag of this answer, `database/sql` does not see it
  | undone (tx : Tx String String String) : client = .sql → store.txs c = some tx →
      tx.status = .rolledBack → tx.aborted = true → Serves table client c store .commit none store
  | commitFailed (e : InboxError) : e.outside = true →
      Serves table client c store .commit (some e) store
  | rolledBack (tx : Tx String String String) : store.txs c = some tx → tx.status.live →
      Serves table client c store .rollback none (store.put c { tx with status := .rolledBack })
  -- the transaction has ended, or the rollback does not get through
  | unanswered (err : Option InboxError) : Serves table client c store .rollback err store

inductive Move (table : String) (s : Sessions) : Sessions → Prop
  | start (c : Nat) (a : Arguments) : s.calls c = none →
      (∀ name digest, a.invocation.prepare = .ok (name, digest) → name = table) →
      Move table s (s.put c (.new a) s.store)
  | serve (c : Nat) (r : Running) (q : Request) (next : Answer q → Program Answer Ended) (a : Answer q)
      (store : Store) : s.calls c = some r → r.program = .ask q next →
      Serves table r.arguments.invocation.client c s.store q a store →
      Move table s (s.put c (r.told q a (next a)) store)
  | write (c : Nat) (r : Running) (tx : Tx String String String) (sql : String) :
      s.calls c = some r → r.calling → s.store.txs c = some tx → tx.usable →
      Move table s { s with store := s.store.put c { tx with writes := tx.writes ++ [sql] } }
  -- the INSERT takes effect after the call gave up on it
  | late (c : Nat) (r : Running) (tx : Tx String String String) (key digest : String) :
      s.calls c = some r → .exec (claimStatement table key digest) ∈ r.abandoned →
      s.store.txs c = some tx → tx.usable → tx.claim = none → s.store.free key →
      Move table s { s with store := s.store.put c { tx with claim := some (key, digest) } }
  -- a statement fails on the server, whether or not the callback reports it
  | abort (c : Nat) (r : Running) (tx : Tx String String String) : s.calls c = some r → r.sending →
      s.store.txs c = some tx → tx.status.live →
      Move table s { s with store := s.store.put c { tx with aborted := true } }
  | send (c : Nat) (r : Running) (tx : Tx String String String) : s.calls c = some r →
      r.program.request = some .commit → s.store.txs c = some tx → tx.status = .active →
      Move table s { s with store := s.store.put c { tx with status := .committing } }
  -- the server performs a COMMIT it received, perhaps after the client gave up
  | commit (c : Nat) (tx : Tx String String String) : s.store.txs c = some tx →
      tx.status = .committing → tx.aborted = false →
      Move table s { s with store := s.store.commit c tx }
  -- a lost connection, a COMMIT that fails or that finds the transaction aborted
  | rollback (c : Nat) (tx : Tx String String String) : s.store.txs c = some tx → tx.status.live →
      Move table s { s with store := s.store.put c { tx with status := .rolledBack } }

def sessions (table : String) : System Sessions where
  init s := s = ⟨.empty, fun _ => none⟩
  step := Move table

theorem Arguments.opens (a : Arguments) : a.invocation.prepare = prepareInbox a.delivery a.hasHandler ∧
    a.invocation.key = a.delivery.key ∧
    ∃ missing, a.program = opening a.delivery a.hasHandler a.hasPool missing := by
  obtain ⟨_ | _, _, _, _⟩ := a
  · exact ⟨rfl, rfl, _, rfl⟩
  · exact ⟨rfl, rfl, _, rfl⟩

structure Closing (history : List (Sigma Answer)) (x : Ended × Bool) : Prop where
  returned : x.2 = true ↔ ∃ result, x.1 = .returned result
  acknowledged : x.2 = true ↔ ⟨.commit, none⟩ ∈ history
  inside : ∀ y ∈ history, y.1 ≠ .rollback ∧ y.1 ≠ .begin

structure Tidy (history : List (Sigma Answer)) (result : Ended) : Prop where
  acknowledged : (∃ r, result = .returned r) ↔ ⟨.commit, none⟩ ∈ history
  committed : ⟨.commit, none⟩ ∈ history → .rollback ∉ history.map Sigma.fst
  closed : ⟨.begin, none⟩ ∈ history → ⟨.commit, none⟩ ∉ history → ∃ before answer,
    history = before ++ [⟨.rollback, answer⟩] ∧ .rollback ∉ before.map Sigma.fst
  unopened : ⟨.begin, none⟩ ∉ history → ∀ y ∈ history, y.1 = .begin

section Hygiene

variable {history : List (Sigma Answer)} {x : Ended × Bool} {result : Ended}

theorem closing_fails {e : InboxError} (h : Leads (fails e) history (.done x)) : Closing history x := by
  obtain ⟨rfl, same⟩ := h.of_done
  cases same
  exact ⟨by simp, by simp, by simp⟩

theorem closing_ask {q : Request} {next : Answer q → Body}
    (other : q ≠ .rollback ∧ q ≠ .begin ∧ q ≠ .commit)
    (each : ∀ a rest, Leads (next a) rest (.done x) → Closing rest x)
    (h : Leads (.ask q next) history (.done x)) : Closing history x := by
  obtain ⟨a, rest, rfl, tail⟩ := h.of_ask
  have closing := each a rest tail
  refine ⟨closing.returned, closing.acknowledged.trans ?_, ?_⟩
  · constructor
    · intro later
      exact List.mem_cons_of_mem _ later
    · intro somewhere
      rcases List.mem_cons.mp somewhere with now | later
      · exact absurd (congrArg Sigma.fst now).symm other.2.2
      · exact later
  · intro y hy
    rcases List.mem_cons.mp hy with rfl | later
    · exact ⟨other.1, other.2.1⟩
    · exact closing.inside y later

theorem closing_commit {result : InboxResult} (h : Leads (commitBody result) history (.done x)) :
    Closing history x := by
  obtain ⟨a, rest, rfl, tail⟩ := h.of_ask
  cases a with
  | some e =>
    obtain ⟨rfl, same⟩ := tail.of_done
    cases same
    exact ⟨by simp, by simp, by simp⟩
  | none =>
    obtain ⟨rfl, same⟩ := tail.of_done
    cases same
    exact ⟨by simp, by simp, by simp⟩

theorem closing_settle {result : InboxResult} (h : Leads (settleBody result) history (.done x)) :
    Closing history x := by
  refine closing_ask (by decide) ?_ h
  intro a rest tail
  cases a with
  | some e => exact closing_fails tail
  | none =>
    refine closing_ask (by simp) ?_ tail
    intro a rest tail
    cases a with
    | error e => exact closing_fails tail
    | ok n => exact closing_commit tail

theorem closing_handle (h : Leads handleBody history (.done x)) : Closing history x := by
  refine closing_ask (by decide) ?_ h
  intro a rest tail
  cases a with
  | panicked =>
    obtain ⟨rfl, same⟩ := tail.of_done
    cases same
    exact ⟨by simp, by simp, by simp⟩
  | returned err =>
    cases err with
    | some e => exact closing_fails tail
    | none => exact closing_settle tail

theorem closing_read {table key digest : String}
    (h : Leads (readBody table key digest) history (.done x)) : Closing history x := by
  refine closing_ask (by simp) ?_ h
  intro a rest tail
  cases a with
  | ok previous =>
    simp only [afterReceipt] at tail
    split at tail
    · exact closing_fails tail
    · exact closing_settle tail
  | error e =>
    cases e with
    | noRows => exact closing_fails tail
    | other e => exact closing_fails tail

theorem closing_claim {table key digest : String}
    (h : Leads (claimBody table key digest) history (.done x)) : Closing history x := by
  refine closing_ask (by simp) ?_ h
  intro a rest tail
  cases a with
  | error e => exact closing_fails tail
  | ok n =>
    simp only [afterClaim] at tail
    split at tail
    · exact closing_handle tail
    · split at tail
      · exact closing_read tail
      · exact closing_fails tail

theorem tidy_unopened {e : InboxError} (before : ∀ y ∈ history, ∃ e, y = ⟨.begin, some e⟩) :
    Tidy history (.failed e) := by
  have uncommitted : ⟨.commit, none⟩ ∉ history := by
    intro there
    obtain ⟨_, same⟩ := before _ there
    cases congrArg Sigma.fst same
  have closed : ⟨.begin, none⟩ ∉ history := by
    intro there
    obtain ⟨_, same⟩ := before _ there
    simp at same
  refine ⟨?_, fun there => absurd there uncommitted, fun there => absurd there closed, ?_⟩
  · constructor
    · rintro ⟨_, same⟩
      contradiction
    · intro there
      exact absurd there uncommitted
  · intro _ y hy
    obtain ⟨_, rfl⟩ := before y hy
    rfl

theorem tidy_runInbox {table key digest : String}
    (h : Leads (runInbox table key digest) history (.done result)) :
    Tidy (⟨.begin, none⟩ :: history) result := by
  obtain ⟨first, ⟨ending, flag⟩, last, rfl, body, after⟩ := h.of_bind
  have closing := closing_claim body
  have inner : .rollback ∉ (⟨.begin, none⟩ :: first : List (Sigma Answer)).map Sigma.fst := by
    intro there
    obtain ⟨y, hy, rollback⟩ := List.mem_map.mp there
    rcases List.mem_cons.mp hy with rfl | hy
    · contradiction
    · exact (closing.inside y hy).1 rollback
  cases flag with
  | true =>
    obtain ⟨rfl, same⟩ := after.of_done
    cases same
    have committed := closing.acknowledged.mp rfl
    rw [List.append_nil]
    refine ⟨⟨fun _ => List.mem_cons_of_mem _ committed, fun _ => closing.returned.mp rfl⟩,
      fun _ => inner, ?_, ?_⟩
    · intro _ uncommitted
      exact absurd (List.mem_cons_of_mem _ committed) uncommitted
    · intro unbegun
      exact absurd List.mem_cons_self unbegun
  | false =>
    obtain ⟨answer, rest, rfl, done⟩ := after.of_ask
    obtain ⟨rfl, same⟩ := done.of_done
    cases same
    have uncommitted : ⟨.commit, none⟩ ∉
        (⟨.begin, none⟩ :: (first ++ [⟨.rollback, answer⟩]) : List (Sigma Answer)) := by
      intro there
      rcases List.mem_cons.mp there with begins | there
      · cases congrArg Sigma.fst begins
      · rcases List.mem_append.mp there with there | last
        · exact Bool.false_ne_true (closing.acknowledged.mpr there)
        · cases List.mem_singleton.mp last
    refine ⟨⟨?_, fun there => absurd there uncommitted⟩, fun there => absurd there uncommitted, ?_, ?_⟩
    · intro returned
      exact absurd (closing.returned.mpr returned) Bool.false_ne_true
    · intro _ _
      exact ⟨⟨.begin, none⟩ :: first, answer, rfl, inner⟩
    · intro unbegun
      exact absurd List.mem_cons_self unbegun

theorem tidy_program (a : Arguments) (h : Leads a.program history (.done result)) :
    Tidy history result := by
  obtain ⟨_, _, missing, program⟩ := a.opens
  rw [program, opening] at h
  split at h
  · obtain ⟨rfl, same⟩ := h.of_done
    cases same
    exact tidy_unopened nofun
  · split at h
    · obtain ⟨rfl, same⟩ := h.of_done
      cases same
      exact tidy_unopened nofun
    · obtain ⟨answer, rest, rfl, tail⟩ := h.of_ask
      cases answer with
      | some e =>
        obtain ⟨rfl, same⟩ := tail.of_done
        cases same
        exact tidy_unopened fun y hy => ⟨e, List.mem_singleton.mp hy⟩
      | none => exact tidy_runInbox tail

end Hygiene

end WriteRelay.Inbox.Session
