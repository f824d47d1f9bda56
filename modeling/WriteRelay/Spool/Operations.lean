import WriteRelay.Base.Runs
import WriteRelay.Spool.Persist
import WriteRelay.Spool.Sinks
import WriteRelay.Spool.Deliveries
import WriteRelay.Spool.Prune

/-! The spool as a transition system: any operation of the store, with any arguments,
clock readings and outside faults, in any order. -/
namespace WriteRelay.Spool
open Clock Fallible Runs

/-- A Mark operation may get any item, also one that was never selected. -/
inductive Operation
  | persist (env : PersistEnv) (batch : CommittedBatch)
  | configure (env : ConfigureEnv) (registrations : List SinkRegistration)
  | nextDue (now : Instant)
  | delivered (faults : UpdateFaults) (item : Delivery) (attempt : Nat) (status : Int) (at_ : Instant)
  | failed (faults : UpdateFaults) (item : Delivery) (attempt : Nat) (permanent : Bool)
      (retryAt : Instant) (failure : Bytes) (status : Int) (at_ : Instant)
  | redrive (faults : UpdateFaults) (sinkName source id : String) (at_ : Instant)
  | prune (env : PruneEnv) (options : PruneOptions)

def Outcome.ofTransaction (t : Tables) : Except Failure Tables → Outcome
  | .ok t' => ⟨t', none⟩
  | .error e => ⟨t, some e⟩

def Operation.exec : Operation → Tables → Outcome
  | .persist env batch, t => .ofTransaction t ((persistCommittedBatch env batch t).map (·.1))
  | .configure env registrations, t => .ofTransaction t (configureSinks env registrations t)
  | .nextDue _, t => ⟨t, none⟩
  | .delivered faults item attempt status at_, t => markDelivered faults item attempt status at_ t
  | .failed faults item attempt permanent retryAt failure status at_, t =>
    markFailed faults item attempt permanent retryAt failure status at_ t
  | .redrive faults sinkName source id at_, t => redriveDelivery faults sinkName source id at_ t
  | .prune env options, t => .ofTransaction t ((Spool.prune env options t).map (·.1))

def spool : System Tables where
  init t := t = .empty
  step t t' := ∃ op : Operation, (op.exec t).tables = t'

def runAll (ops : List Operation) (t : Tables) : Tables :=
  ops.foldl (fun t op => (op.exec t).tables) t

theorem spool_runAll {t : Tables} (h : spool.Reachable t) (ops : List Operation) :
    spool.Reachable (runAll ops t) := by
  induction ops generalizing t with
  | nil => exact h
  | cons op ops ih => exact ih (h.step ⟨op, rfl⟩)

def Operation.due : Operation → Instant → Prop
  | .persist env _ => env.due
  | .configure env _ => env.due
  | .failed _ _ _ _ retryAt _ _ _ => (· = retryAt)
  | .redrive _ _ _ _ at_ => (· = at_)
  | .nextDue _ | .delivered .. | .prune .. => fun _ => False

/-- What one operation can do to the delivery rows and everything around them. -/
inductive Effect (op : Operation) (t : Tables) : Tables → Prop
  | grows {t' : Tables} : t.Grows op.due t' → Effect op t t'
  | updates {p : DeliveryRow → Bool} {f : DeliveryRow → DeliveryRow} :
      (∀ d, (f d).key = d.key) →
      (∀ d, (f d).nextAttemptAt = d.nextAttemptAt ∨
        ∃ at_, op.due at_ ∧ (f d).nextAttemptAt = formatTimestamp at_) →
      Effect op t { t with deliveries := Rows.update p f t.deliveries }

theorem Outcome.ofTransaction_spec {t : Tables} {x : Except Failure Tables} {times : Instant → Prop}
    (valid : t.Valid) (h : Ensures x (fun t' => t'.Valid ∧ t.Grows times t') Failure.Unraised) :
    (Outcome.ofTransaction t x).tables.Valid ∧ t.Grows times (Outcome.ofTransaction t x).tables ∧
      ∀ e, (Outcome.ofTransaction t x).error = some e → e.Unraised := by
  cases x with
  | ok t' => exact ⟨h.1, h.2, nofun⟩
  | error e => exact ⟨valid, .refl t, fun _ h' => by cases h'; exact h⟩

theorem Updated.logKept {faults : UpdateFaults} {t : Tables} {p : DeliveryRow → Bool}
    {f : DeliveryRow → DeliveryRow} {judge : Nat → Option Failure} {o : Outcome}
    (h : Updated faults t p f judge o) : t.LogKept o.tables := by
  by_cases exec : faults.exec = none
  · rw [h.executed exec]
    exact .of_eq rfl rfl
  · rw [h.refused exec]
    exact .of_eq rfl rfl

theorem Updated.exec_spec {faults : UpdateFaults} {t : Tables} {op : Operation}
    {p : DeliveryRow → Bool} {f : DeliveryRow → DeliveryRow} {judge : Nat → Option Failure}
    {o : Outcome} (h : Updated faults t p f judge o) (same : ∀ d, (f d).key = d.key)
    (dated : ∀ d, (f d).nextAttemptAt = d.nextAttemptAt ∨
      ∃ at_, op.due at_ ∧ (f d).nextAttemptAt = formatTimestamp at_) :
    o.tables.Valid ∧ Effect op t o.tables ∧ ∀ e, o.error = some e → e.Unraised := by
  refine ⟨h.valid, ?_, h.unraised⟩
  by_cases exec : faults.exec = none
  · rw [h.executed exec]
    exact .updates same dated
  · rw [h.refused exec]
    exact .grows (.refl t)

def maintains : Operation → Bool
  | .persist .. | .configure .. | .prune .. => true
  | .nextDue _ | .delivered .. | .failed .. | .redrive .. => false

theorem maintains_spec {op : Operation} (h : maintains op = true) {t : Tables} (valid : t.Valid) :
    (op.exec t).tables.Valid ∧ t.Grows op.due (op.exec t).tables ∧
      ∀ e, (op.exec t).error = some e → e.Unraised := by
  cases op with
  | persist env batch =>
    exact Outcome.ofTransaction_spec valid (persistCommittedBatch_spec env batch valid).map
  | configure env registrations =>
    refine Outcome.ofTransaction_spec valid ((configureSinks_spec env registrations valid).mono ?_ ?_)
    · exact fun _ done => ⟨done.1, done.2.1⟩
    · exact fun _ h => h
  | prune env options =>
    refine Outcome.ofTransaction_spec valid ((prune_spec env options valid).mono ?_ ?_).map
    · exact fun _ done => ⟨done.1, done.2.1⟩
    · exact fun _ h => h
  | nextDue => contradiction
  | delivered => contradiction
  | failed => contradiction
  | redrive => contradiction

/-- Every operation keeps the invariant, and no constraint of the schema aborts it. -/
theorem exec_spec (op : Operation) {t : Tables} (valid : t.Valid) :
    (op.exec t).tables.Valid ∧ Effect op t (op.exec t).tables ∧
      ∀ e, (op.exec t).error = some e → e.Unraised := by
  by_cases maintained : maintains op = true
  · obtain ⟨valid', grown, unraised⟩ := maintains_spec maintained valid
    exact ⟨valid', .grows grown, unraised⟩
  cases op with
  | persist => exact absurd rfl maintained
  | configure => exact absurd rfl maintained
  | prune => exact absurd rfl maintained
  | nextDue now => exact ⟨valid, .grows (.refl t), nofun⟩
  | delivered faults item attempt status at_ =>
    exact (markDelivered_spec faults item attempt status at_ valid).exec_spec (fun _ => rfl)
      (fun _ => .inl rfl)
  | failed faults item attempt permanent retryAt failure status at_ =>
    exact (markFailed_spec faults item attempt permanent retryAt failure status at_ valid).exec_spec
      (fun _ => rfl) (fun _ => .inr ⟨retryAt, rfl, rfl⟩)
  | redrive faults sinkName source id at_ =>
    exact (redriveDelivery_spec faults sinkName source id at_ valid).exec_spec (fun _ => rfl)
      (fun _ => .inr ⟨at_, rfl, rfl⟩)

theorem exec_logKept {op : Operation} (foreign : ∀ env batch, op ≠ .persist env batch) {t : Tables}
    (valid : t.Valid) : t.LogKept (op.exec t).tables := by
  cases op with
  | persist env batch => exact absurd rfl (foreign env batch)
  | nextDue => exact .of_eq rfl rfl
  | configure env registrations =>
    have kept := configureSinks_spec env registrations valid
    simp only [Operation.exec]
    cases done : configureSinks env registrations t with
    | ok t' => exact (kept.post done).2.2
    | error e => exact .of_eq rfl rfl
  | prune env options =>
    have kept := prune_spec env options valid
    simp only [Operation.exec]
    cases done : prune env options t with
    | ok r => exact (kept.post done).2.2
    | error e => exact .of_eq rfl rfl
  | delivered faults item attempt status at_ =>
    exact (markDelivered_spec faults item attempt status at_ valid).logKept
  | failed faults item attempt permanent retryAt failure status at_ =>
    exact (markFailed_spec faults item attempt permanent retryAt failure status at_ valid).logKept
  | redrive faults sinkName source id at_ =>
    exact (redriveDelivery_spec faults sinkName source id at_ valid).logKept

theorem Effect.extends {op : Operation} {t t' : Tables} (h : Effect op t t') : t.Extends t' := by
  cases h with
  | grows grown => exact grown.toExtends
  | updates same _ => exact Tables.extends_update same

theorem spool_valid {t : Tables} (h : spool.Reachable t) : t.Valid := by
  refine spool.invariant Tables.Valid ?_ ?_ h
  · rintro _ rfl
    exact valid_empty
  · rintro s _ _ valid ⟨op, rfl⟩
    exact (exec_spec op valid).1

theorem spool_extends {t t' : Tables} (h : spool.Reachable t) (run : spool.Steps t t') :
    t.Extends t' := by
  refine spool.monotone Tables.Extends Tables.Extends.refl (fun _ _ _ => .trans) ?_ h run
  rintro s _ reachable ⟨op, rfl⟩
  exact (exec_spec op (spool_valid reachable)).2.1.extends

def spoolWith (allowed : Operation → Prop) : System Tables where
  init t := t = .empty
  step t t' := ∃ op : Operation, allowed op ∧ (op.exec t).tables = t'

theorem spoolWith_reachable {allowed : Operation → Prop} {t : Tables}
    (h : (spoolWith allowed).Reachable t) : spool.Reachable t := by
  refine (spoolWith allowed).invariant spool.Reachable (fun _ => spool.reachable_init) ?_ h
  rintro s _ _ reachable ⟨op, _, rfl⟩
  exact reachable.step ⟨op, rfl⟩

theorem spoolWith_extends {allowed : Operation → Prop} {t t' : Tables}
    (h : (spoolWith allowed).Reachable t) (run : (spoolWith allowed).Steps t t') : t.Extends t' := by
  refine (spoolWith allowed).monotone Tables.Extends Tables.Extends.refl (fun _ _ _ => .trans) ?_ h run
  rintro s _ reachable ⟨op, _, rfl⟩
  exact (exec_spec op (spool_valid (spoolWith_reachable reachable))).2.1.extends

theorem spoolWith_runAll {allowed : Operation → Prop} {ops : List Operation}
    (all : ∀ op ∈ ops, allowed op) {t : Tables} (h : (spoolWith allowed).Reachable t) :
    (spoolWith allowed).Reachable (runAll ops t) := by
  induction ops generalizing t with
  | nil => exact h
  | cons op ops ih =>
    obtain ⟨first, rest⟩ := List.forall_mem_cons.mp all
    exact ih rest (h.step ⟨op, first, rfl⟩)

def sampleEvent : CapturedEvent where
  source := "/orders"
  id := "1"
  type := "order.created"
  subject := ""
  payload := [123, 125]
  payloadSHA256 := Sha256.sum [123, 125]
  transactionID := 7
  messageLSN := 10
  commitLSN := 20
  commitEndLSN := 30
  commitTime := 0
  messageIndex := 0

def sampleEnv : PersistEnv := ⟨.decimal, fun _ => none, fun _ => ⟨1, 2, 0⟩⟩

def sampleConfigure : Operation :=
  .configure ⟨fun _ => none, 0⟩ [⟨"audit", "stdout", Sha256.sum []⟩]

def samplePersist : Operation := .persist sampleEnv ⟨7, 20, 30, 0, [sampleEvent]⟩

def captured : List Operation := [sampleConfigure, samplePersist]

def sampleItem : Delivery :=
  ⟨1, 1, "audit", "stdout", "/orders", "1", "order.created", "", [123, 125], 0⟩

def secondPersist : Operation := .persist sampleEnv
  ⟨7, 50, 60, 0, [{ sampleEvent with id := "2", messageLSN := 40, commitLSN := 50, commitEndLSN := 60 }]⟩

def secondItem : Delivery := { sampleItem with eventSequence := 2, id := "2" }

theorem captured_next : nextDueDelivery (runAll captured .empty) 5 = some sampleItem := by
  decide +kernel

end WriteRelay.Spool
