import WriteRelay.App.Together
import WriteRelay.Settings
import WriteRelay.Delivery.ProcessOne
import WriteRelay.Spool.Configuration
import WriteRelay.Spool.Pruning

/-! `app.Run`: from an accepted configuration to the senders, the registrations in the
spool and the tasks, and that the worker never meets a sink without a sender. -/
namespace WriteRelay.App
open Clock Fallible Runs Spool Settings
open Webhook (WebhookSender)

section Model

inductive Sink
  | webhook (sender : WebhookSender)
  | stdout

def optionalSecret (lookupEnv : String → Option String) (name : String) : Except Failure String :=
  if name = "" then .ok ""
  else
    match lookupEnv name with
    | none => .error (errorf none "environment variable %s is not set" [name])
    | some value =>
      if value = "" then .error (errorf none "environment variable %s is not set" [name]) else .ok value

def webhookFingerprint (type url : String) : Sha256.Digest := Sha256.sum (bytes (type ++ "\x00" ++ url))

def newWebhookSender (lookupEnv : String → Option String) (sink : SinkConfig) :
    Except Failure (WebhookSender × SinkRegistration) := do
  let authorization ← optionalSecret lookupEnv sink.authorizationEnv
  refuse (authorization.toList.any fun c => c = '\r' || c = '\n')
    (errorf none "environment variable %s contains an invalid authorization header value"
      [sink.authorizationEnv])
  let signingSecret ← optionalSecret lookupEnv sink.signingSecretEnv
  return (⟨sink.url, authorization, bytes signingSecret⟩,
    ⟨sink.name, sink.type, webhookFingerprint sink.type sink.url⟩)

def newStdoutSink (name : String) : Sink × SinkRegistration :=
  (.stdout, ⟨name, "stdout", Sha256.sum (bytes "stdout")⟩)

def newSink (lookupEnv : String → Option String) (sink : SinkConfig) :
    Except Failure (Sink × SinkRegistration) :=
  if sink.type = "webhook" then
    match newWebhookSender lookupEnv sink with
    | .error e =>
      .error { e with format := "configure delivery sink %q: " ++ e.format, args := sink.name :: e.args }
    | .ok (sender, registration) => .ok (.webhook sender, registration)
  else if sink.type = "stdout" then .ok (newStdoutSink sink.name)
  else .error (errorf none "unsupported delivery sink type %q" [sink.type])

/-- The loop, with the map and the registrations so far. An assignment to the map hides an
earlier one under the same name. -/
def newSinks (lookupEnv : String → Option String) : List SinkConfig → List (String × Sink) →
    List SinkRegistration → Except Failure (List (String × Sink) × List SinkRegistration)
  | [], sinks, registrations => .ok (sinks, registrations)
  | config :: rest, sinks, registrations => do
    let (sink, registration) ← newSink lookupEnv config
    newSinks lookupEnv rest ((config.name, sink) :: sinks) (registrations ++ [registration])

inductive Task
  | replicator
  | worker
  | monitor
  deriving DecidableEq

def tasks (cfg : Config) (sinks : List (String × Sink)) : List Task :=
  [.replicator] ++ (if sinks = [] then [] else [.worker]) ++
    (if cfg.monitoring.listen = "" then [] else [.monitor])

def workerConfig (cfg : Config) : Worker.Config where
  initialDelay := cfg.delivery.retry.initialDelay
  maxDelay := cfg.delivery.retry.maxDelay
  maxAttempts := cfg.delivery.retry.maxAttempts.toInt

end Model

section Frames

def calmed (env : ConfigureEnv) : ConfigureEnv := ⟨fun _ => none, env.now⟩

theorem attempt_weaker (fault : Option String) (wrap : DriverError → Failure) :
    Weaker (attempt fault wrap) (attempt none wrap) := fun _ _ => rfl

theorem activateSink_weaker (env : ConfigureEnv) (registration : SinkRegistration) (t : Tables) :
    Weaker (activateSink env registration t) (activateSink (calmed env) registration t) := by
  unfold activateSink
  refine (attempt_weaker _ _).bind fun _ => ?_
  split
  · exact (attempt_weaker _ _).bind fun _ => (Weaker.refl _).bind fun _ =>
      (attempt_weaker _ _).bind fun _ => .refl _
  · exact (Weaker.refl _).bind fun _ => (attempt_weaker _ _).bind fun _ => .refl _

theorem registerSinks_weaker (env : ConfigureEnv) (configured : List String)
    (registrations : List SinkRegistration) (t : Tables) :
    Weaker (registerSinks env configured registrations t)
      (registerSinks (calmed env) configured registrations t) := by
  induction registrations generalizing configured t with
  | nil => exact .refl _
  | cons registration rest ih =>
    refine Weaker.bind ?_ fun t' => ih _ t'
    refine (Weaker.refl _).bind fun _ => (Weaker.refl _).bind fun _ => ?_
    refine (activateSink_weaker env registration t).bind fun _ => ?_
    exact (attempt_weaker _ _).bind fun _ => .refl _

theorem deactivateSinks_weaker (env : ConfigureEnv) (sinks : List SinkRow) (t : Tables) :
    Weaker (deactivateSinks env sinks t) (deactivateSinks (calmed env) sinks t) := by
  induction sinks generalizing t with
  | nil => exact .refl _
  | cons sink rest ih =>
    refine Weaker.bind ?_ ih
    exact (attempt_weaker _ _).bind fun _ => (Weaker.refl _).bind fun _ =>
      (attempt_weaker _ _).bind fun _ => .refl _

theorem configureSinks_weaker (env : ConfigureEnv) (registrations : List SinkRegistration)
    (t : Tables) :
    Weaker (configureSinks env registrations t) (configureSinks (calmed env) registrations t) := by
  refine (attempt_weaker _ _).bind fun _ => (registerSinks_weaker env [] registrations t).bind fun t => ?_
  refine (attempt_weaker _ _).bind fun _ => (attempt_weaker _ _).bind fun _ => ?_
  refine (attempt_weaker _ _).bind fun _ => (attempt_weaker _ _).bind fun _ => ?_
  exact (deactivateSinks_weaker env _ t).bind fun _ => (attempt_weaker _ _).bind fun _ => .refl _

theorem insertDelivery_sinks {row : DeliveryRow} {t t' : Tables}
    (done : t.insertDelivery row = .ok t') : t'.sinks = t.sinks := by
  unfold Tables.insertDelivery at done
  split at done
  · contradiction
  · split at done
    · rw [Except.ok.inj done]
    · split at done
      · rw [← Except.ok.inj done]
      · contradiction

theorem insertDeliveries_sinks {rows : List DeliveryRow} {t t' : Tables}
    (done : t.insertDeliveries rows = .ok t') : t'.sinks = t.sinks := by
  induction rows generalizing t with
  | nil => rw [Except.ok.inj done]
  | cons row rows ih =>
    obtain ⟨t₁, first, rest⟩ := bind_ok_iff.mp done
    exact (ih rest).trans (insertDelivery_sinks first)

theorem insertOrVerify_sinks {env : PersistEnv} {index : Nat} {captured : CapturedEvent} {t : Tables}
    {r : Tables × Bool × Nat} (done : insertOrVerify env index captured t = .ok r) :
    r.1.sinks = t.sinks := by
  obtain ⟨_, _, done⟩ := bind_ok_iff.mp done
  obtain ⟨_, _, done⟩ := bind_ok_iff.mp done
  split at done
  · obtain ⟨_, _, done⟩ := bind_ok_iff.mp done
    rw [← Except.ok.inj done]
  · obtain ⟨_, _, done⟩ := bind_ok_iff.mp done
    obtain ⟨_, _, done⟩ := bind_ok_iff.mp done
    rw [← Except.ok.inj done]

theorem persistEvent_sinks {env : PersistEnv} {batch : CommittedBatch} {index : Nat}
    {captured : CapturedEvent} {p p' : Progress}
    (done : persistEvent env batch index captured p = .ok p') : p'.tables.sinks = p.tables.sinks := by
  obtain ⟨_, _, done⟩ := bind_ok_iff.mp done
  obtain ⟨⟨t₁, inserted, sequence⟩, written, done⟩ := bind_ok_iff.mp done
  obtain ⟨t₂, ensured, done⟩ := bind_ok_iff.mp done
  obtain ⟨_, _, ensured⟩ := bind_ok_iff.mp ensured
  have kept := (insertDeliveries_sinks (statement_ok_iff.mp ensured)).trans (insertOrVerify_sinks written)
  cases inserted with
  | true =>
    rw [← Except.ok.inj done]
    exact kept
  | false =>
    rw [← Except.ok.inj done]
    exact kept

theorem persistEvents_sinks {env : PersistEnv} {batch : CommittedBatch} {index : Nat}
    {events : List CapturedEvent} {p p' : Progress}
    (done : persistEvents env batch index events p = .ok p') : p'.tables.sinks = p.tables.sinks := by
  induction events generalizing index p with
  | nil => rw [Except.ok.inj done]
  | cons captured rest ih =>
    obtain ⟨p₁, first, rest⟩ := bind_ok_iff.mp done
    exact (ih rest).trans (persistEvent_sinks first)

theorem persistCommittedBatch_sinks {env : PersistEnv} {batch : CommittedBatch} {t : Tables}
    {r : Tables × PersistResult} (done : persistCommittedBatch env batch t = .ok r) :
    r.1.sinks = t.sinks := by
  obtain ⟨_, _, done⟩ := bind_ok_iff.mp done
  obtain ⟨_, _, done⟩ := bind_ok_iff.mp done
  obtain ⟨p, written, done⟩ := bind_ok_iff.mp done
  obtain ⟨committed, advanced, done⟩ := bind_ok_iff.mp done
  obtain ⟨_, _, done⟩ := bind_ok_iff.mp done
  obtain ⟨_, _, _, rows⟩ := (advanceCheckpoint_spec env batch p).post advanced
  rw [← Except.ok.inj done, rows]
  exact persistEvents_sinks written

def configures : Operation → Bool
  | .configure .. => true
  | _ => false

theorem exec_sinks {op : Operation} (other : configures op = false) {t : Tables} (valid : t.Valid) :
    (op.exec t).tables.sinks = t.sinks := by
  have updated {faults : UpdateFaults} {p : DeliveryRow → Bool} {f : DeliveryRow → DeliveryRow}
      {judge : Nat → Option Failure} {o : Outcome} (h : Updated faults t p f judge o) :
      o.tables.sinks = t.sinks := by
    by_cases exec : faults.exec = none
    · rw [h.executed exec]
    · rw [h.refused exec]
  cases op with
  | persist env batch =>
    simp only [Operation.exec]
    cases done : persistCommittedBatch env batch t with
    | ok r => exact persistCommittedBatch_sinks done
    | error e => rfl
  | configure => contradiction
  | nextDue => rfl
  | delivered faults item attempt status at_ =>
    exact updated (markDelivered_spec faults item attempt status at_ valid)
  | failed faults item attempt permanent retryAt failure status at_ =>
    exact updated (markFailed_spec faults item attempt permanent retryAt failure status at_ valid)
  | redrive faults sinkName source id at_ =>
    exact updated (redriveDelivery_spec faults sinkName source id at_ valid)
  | prune env options =>
    simp only [Operation.exec]
    cases done : prune env options t with
    | ok r =>
      obtain ⟨-, rows, -⟩ := prune_ok valid done
      change r.1.sinks = t.sinks
      rw [rows]
      split <;> rfl
    | error e => rfl

end Frames

section Prepared

/-- A sender of the kind and with the target that the spool remembers. -/
def Sink.Serves (type : String) (digest : Sha256.Digest) : Sink → Prop
  | .webhook sender => type = "webhook" ∧ digest = webhookFingerprint "webhook" sender.endpoint
  | .stdout => type = "stdout" ∧ digest = Sha256.sum (bytes "stdout")

variable {lookupEnv : String → Option String}

theorem newSink_serves {config : SinkConfig} {sink : Sink} {registration : SinkRegistration}
    (done : newSink lookupEnv config = .ok (sink, registration)) :
    registration.name = config.name ∧ registration.type = config.type ∧
      sink.Serves registration.type registration.configSHA256 := by
  unfold newSink at done
  split at done
  · rename_i webhook
    split at done
    · contradiction
    · rename_i sender registration' made
      obtain ⟨_, _, made⟩ := bind_ok_iff.mp made
      obtain ⟨_, _, made⟩ := bind_ok_iff.mp made
      obtain ⟨_, _, made⟩ := bind_ok_iff.mp made
      cases Except.ok.inj made
      cases Except.ok.inj done
      exact ⟨rfl, rfl, webhook, by rw [webhook]⟩
  · split at done
    · rename_i stdout
      cases Except.ok.inj done
      exact ⟨rfl, stdout.symm, rfl, rfl⟩
    · contradiction

structure Built (sinks : List (String × Sink)) (registrations : List SinkRegistration) : Prop where
  served : ∀ r ∈ registrations, ∃ sink, sinks.lookup r.name = some sink ∧
    sink.Serves r.type r.configSHA256
  empty : sinks = [] → registrations = []

theorem newSinks_built {configs : List SinkConfig} {sinks sinks' : List (String × Sink)}
    {registrations registrations' : List SinkRegistration}
    (done : newSinks lookupEnv configs sinks registrations = .ok (sinks', registrations'))
    (before : Built sinks registrations)
    (distinct : (namesOf registrations ++ configs.map (·.name)).Nodup) :
    Built sinks' registrations' ∧
      registrations'.map (fun r => (r.name, r.type)) =
        registrations.map (fun r => (r.name, r.type)) ++ configs.map (fun c => (c.name, c.type)) := by
  induction configs generalizing sinks registrations with
  | nil =>
    cases Except.ok.inj done
    exact ⟨before, by simp⟩
  | cons config rest ih =>
    obtain ⟨⟨sink, registration⟩, made, done⟩ := bind_ok_iff.mp done
    obtain ⟨name, type, serves⟩ := newSink_serves made
    have fresh : config.name ∉ namesOf registrations := by
      intro seen
      exact (List.nodup_append.mp distinct).2.2 _ seen _ (by simp) rfl
    have next : Built ((config.name, sink) :: sinks) (registrations ++ [registration]) := by
      refine ⟨fun r hr => ?_, by simp⟩
      rcases List.mem_append.mp hr with old | new
      · obtain ⟨sink', found, serves'⟩ := before.served r old
        have other : r.name ≠ config.name := fun same => fresh (same ▸ List.mem_map_of_mem old)
        refine ⟨sink', ?_, serves'⟩
        rw [List.lookup_cons, beq_false_of_ne other]
        exact found
      · obtain rfl := List.mem_singleton.mp new
        exact ⟨sink, by simp [name], serves⟩
    obtain ⟨built, names⟩ := ih done next (by simpa [name] using distinct)
    exact ⟨built, by simp [names, name, type]⟩

def Assigned (sinks : List (String × Sink)) (t : Tables) : Prop :=
  ∀ k ∈ t.sinks, k.active = true → ∃ sink, sinks.lookup k.sinkName = some sink ∧
    sink.Serves k.sinkType k.configSHA256

theorem Built.assigned {sinks : List (String × Sink)} {registrations : List SinkRegistration}
    (built : Built sinks registrations) {t t' : Tables} (valid : t.Valid) {env : ConfigureEnv}
    (configured : configureSinks env registrations t = .ok t') : Assigned sinks t' := by
  have calm := configureSinks_weaker env registrations t t' configured
  have quiet : (calmed env).Unfaulted := fun _ => rfl
  obtain ⟨refusing, passing⟩ := configureSinks_exact valid quiet registrations
  have allowed : ¬Rejected t registrations := by
    intro rejected
    obtain ⟨f, failed⟩ := refusing rejected
    rw [failed] at calm
    contradiction
  obtain ⟨t'', done, h⟩ := passing allowed
  obtain rfl := Except.ok.inj (calm.symm.trans done)
  intro k hk active
  have listed : k.sinkName ∈ namesOf registrations := by
    rwa [h.active hk, isListed, decide_eq_true_eq] at active
  obtain ⟨r, hr, same⟩ := List.mem_map.mp listed
  have agrees : ¬Differs t' r := fun differs => h.allowed allowed (.inr (.inr (.inl ⟨r, hr, differs⟩)))
  have equal : k.sinkType = r.type ∧ k.configSHA256 = r.configSHA256 := by
    by_contra differ
    exact agrees ⟨k, hk, same.symm, by rwa [not_and_or] at differ⟩
  obtain ⟨sink, found, serves⟩ := built.served r hr
  exact ⟨sink, by rw [← same]; exact found, by rw [equal.1, equal.2]; exact serves⟩

theorem Assigned.steps {sinks : List (String × Sink)} {t u : Tables} (assigned : Assigned sinks t)
    (valid : t.Valid) (run : (spoolWith (configures · = false)).Steps t u) :
    u.Valid ∧ Assigned sinks u := by
  induction run with
  | refl => exact ⟨valid, assigned⟩
  | tail _ next ih =>
    obtain ⟨valid', assigned'⟩ := ih
    obtain ⟨op, other, rfl⟩ := next
    refine ⟨(exec_spec op valid').1, ?_⟩
    unfold Assigned
    rw [exec_sinks other valid']
    exact assigned'

theorem processOne_ok {σ : Type} {config : Worker.Config} {sinks : List (String × σ)} {t : Tables}
    (valid : t.Valid) (served : Worker.Served sinks t) {env : Worker.AttemptEnv σ}
    (load : env.loadFault = none) (update : env.faults = ⟨none, none⟩) :
    ∃ recorded, (Worker.processOne config sinks env t).2 = .ok recorded := by
  have processed := Worker.processOne_processed config sinks env t
  generalize Worker.processOne config sinks env t = r at processed ⊢
  cases processed with
  | failed e faulted => exact absurd load faulted
  | empty => exact ⟨false, rfl⟩
  | unknown item e next missing =>
    obtain ⟨k, hk, active, -, name, -⟩ := (nextDueDelivery_selected valid.sound next).sink
    obtain ⟨sink, found⟩ := served k hk active
    rw [name, missing] at found
    contradiction
  | cancelled => exact ⟨false, rfl⟩
  | recorded item sink r next found succeeded _ =>
    have once := (Worker.held_of_selected valid.sound next []).count valid.sound
    have done := Worker.mark_unfaulted valid
      (Worker.recordAttempt config item (env.answer sink item) env.recordedAt) item
    rw [once, ← update] at done
    exact ⟨true, succeeded.mpr done⟩

section Startup

variable {p : Parsers} {c cfg : Config} (accepted : c.setDefaultsAndValidate p = .ok cfg)
  {sinks : List (String × Sink)} {registrations : List SinkRegistration}
  (prepared : newSinks lookupEnv cfg.delivery.sinks [] [] = .ok (sinks, registrations))
include accepted

theorem accepted_documented : cfg.Documented p ∧ cfg = c.completed p := by
  obtain ⟨rfl, documented⟩ := validate_iff.mp accepted
  exact ⟨documented, rfl⟩

include prepared

theorem accepted_built : Built sinks registrations ∧
    registrations.map (fun r => (r.name, r.type)) =
      cfg.delivery.sinks.map (fun c => (c.name, c.type)) := by
  have documented := (accepted_documented accepted).1.delivery.sinks
  simpa using newSinks_built prepared ⟨by simp, by simp⟩ (by simpa using documented.distinct)

/-- An accepted configuration is refused by the spool for two reasons only: a sink was
registered with another target, or a sink that is no longer listed still has work. -/
theorem startup_refused {t : Tables} (valid : t.Valid) {env : ConfigureEnv} (quiet : env.Unfaulted) :
    (∃ f, configureSinks env registrations t = .error f) ↔
      (∃ r ∈ registrations, Differs t r) ∨ Owing t registrations := by
  have documented := (accepted_documented accepted).1.delivery.sinks
  obtain ⟨-, same⟩ := accepted_built accepted prepared
  have filled : ¬∃ r ∈ registrations, r.name = "" ∨ r.type = "" := by
    rintro ⟨r, hr, blank⟩
    have listed : (r.name, r.type) ∈ cfg.delivery.sinks.map (fun c => (c.name, c.type)) :=
      same ▸ List.mem_map_of_mem hr
    obtain ⟨config, hc, pair⟩ := List.mem_map.mp listed
    obtain ⟨name, type⟩ := Prod.mk.inj pair
    rcases blank with blank | blank
    · have named := documented.names config hc
      rw [name, blank] at named
      contradiction
    · rw [blank] at type
      rcases documented.types config hc with webhook | stdout
      · simp [webhook.type] at type
      · simp [stdout.type] at type
  have distinct : (namesOf registrations).Nodup := by
    have names := congrArg (List.map Prod.fst) same
    simp only [List.map_map, Function.comp_def] at names
    rw [namesOf, names]
    exact documented.distinct
  have rejected : Rejected t registrations ↔
      (∃ r ∈ registrations, Differs t r) ∨ Owing t registrations := by
    simp only [Rejected, filled, distinct, not_true, false_or]
  obtain ⟨refusing, passing⟩ := configureSinks_exact valid quiet registrations
  rw [← rejected]
  refine ⟨?_, refusing⟩
  rintro ⟨f, failed⟩
  by_contra allowed
  obtain ⟨t', done, -⟩ := passing allowed
  rw [failed] at done
  contradiction

omit prepared in
theorem accepted_worker : 0 < (workerConfig cfg).initialDelay.toInt ∧
    (workerConfig cfg).initialDelay.toInt ≤ (workerConfig cfg).maxDelay.toInt ∧
    1 ≤ (workerConfig cfg).maxAttempts := by
  obtain ⟨documented, rfl⟩ := accepted_documented accepted
  obtain ⟨⟨d, parsed, least, -⟩, -, ordered, attempts, -⟩ := documented.delivery.retry
  have initial : ((c.completed p).delivery.retry.initialDelay) = d := by
    change p.duration _ = d
    unfold Parsers.duration
    change p.parseDuration (textOr c.delivery.retry.initialDelayValue "1s") = .ok d at parsed
    rw [parsed]
  refine ⟨?_, Int64.le_iff_toInt_le.mp ordered, Int64.le_iff_toInt_le.mp attempts⟩
  change 0 < ((c.completed p).delivery.retry.initialDelay).toInt
  rw [initial]
  have := Int64.le_iff_toInt_le.mp least
  have small : (100000000 : Int64).toInt = 100000000 := by decide
  omega

/-- From the configuration to the queue: once the daemon has started, until someone
configures the spool anew, every delivery that falls due has its sender, and only a
failing store can stop the worker. -/
theorem run_dispatch {t t' u : Tables} (valid : t.Valid) {env : ConfigureEnv}
    (configured : configureSinks env registrations t = .ok t')
    (run : (spoolWith (configures · = false)).Steps t' u) :
    (0 < (workerConfig cfg).initialDelay.toInt ∧
      (workerConfig cfg).initialDelay.toInt ≤ (workerConfig cfg).maxDelay.toInt ∧
      1 ≤ (workerConfig cfg).maxAttempts) ∧
    (∀ attempt : Worker.AttemptEnv Sink, attempt.loadFault = none → attempt.faults = ⟨none, none⟩ →
      ∃ recorded, (Worker.processOne (workerConfig cfg) sinks attempt u).2 = .ok recorded) ∧
    ∀ now item, nextDueDelivery u now = some item → Task.worker ∈ tasks cfg sinks ∧
      ∃ sink, sinks.lookup item.sinkName = some sink ∧
        ∃ k ∈ u.sinks, k.sinkID = item.sinkID ∧ sink.Serves item.sinkType k.configSHA256 := by
  obtain ⟨built, -⟩ := accepted_built accepted prepared
  have valid' := ((configureSinks_spec env registrations valid).post configured).1
  obtain ⟨validU, assigned⟩ := (built.assigned valid configured).steps valid' run
  have served : Worker.Served sinks u := by
    intro k hk active
    obtain ⟨sink, found, -⟩ := assigned k hk active
    exact ⟨sink, found⟩
  refine ⟨accepted_worker accepted, fun attempt => processOne_ok validU served, fun now item next => ?_⟩
  obtain ⟨k, hk, active, id, name, type⟩ := (nextDueDelivery_selected validU.sound next).sink
  obtain ⟨sink, found, serves⟩ := assigned k hk active
  rw [name] at found
  rw [type] at serves
  refine ⟨?_, sink, found, k, hk, id, serves⟩
  have some_ : sinks ≠ [] := by
    rintro rfl
    simp at found
  simp [tasks, some_]

end Startup

end Prepared

section Sample

def sampleParsers : Parsers := ⟨fun _ => .ok 1000000000, fun _ => .error "", fun _ => .error ""⟩

def sampleDaemon : Config where
  version := 1
  postgres := ⟨"postgres://localhost", "", "relay", "relay", "writerelay.v1", 0, "", false, 0, 0⟩
  spool := ⟨"spool.db", 0, ⟨0, 0, 0, ""⟩⟩
  delivery := ⟨0, "", 0, "", ⟨0, "", 0, "", 0⟩, [⟨"audit", "stdout", "", "", "", false⟩]⟩
  monitoring := ⟨"", 0, ""⟩
  logging := ⟨"", ""⟩

theorem sampleDaemon_accepted :
    sampleDaemon.setDefaultsAndValidate sampleParsers = .ok (sampleDaemon.completed sampleParsers) := by
  decide +kernel

def sampleRegistration : SinkRegistration := ⟨"audit", "stdout", Sha256.sum (bytes "stdout")⟩

theorem sampleDaemon_prepared : newSinks (fun _ => none)
    (sampleDaemon.completed sampleParsers).delivery.sinks [] [] =
      .ok ([("audit", Sink.stdout)], [sampleRegistration]) := rfl

def sampleRegistered : Tables :=
  ((Operation.configure calmConfigure [sampleRegistration]).exec .empty).tables

theorem sampleRegistered_configured :
    configureSinks calmConfigure [sampleRegistration] .empty = .ok sampleRegistered := by
  decide +kernel

def retiredSink : List Operation :=
  [.configure calmConfigure [⟨"retired", "stdout", Sha256.sum (bytes "stdout")⟩], samplePersist]

/-- A sink with another digest, and one that is gone from the configuration and has a delivery waiting. -/
theorem startup_refused_conflicting :
    ((∃ r ∈ [sampleRegistration], Differs (runAll captured .empty) r) ∧
      ∃ f, configureSinks calmConfigure [sampleRegistration] (runAll captured .empty) = .error f) ∧
    Owing (runAll retiredSink .empty) [sampleRegistration] ∧
      ∃ f, configureSinks calmConfigure [sampleRegistration] (runAll retiredSink .empty) = .error f := by
  have valid : ∀ ops, (runAll ops .empty).Valid := fun ops =>
    spool_valid (spool_runAll (spool.reachable_init rfl) ops)
  have differs : ∃ r ∈ [sampleRegistration], Differs (runAll captured .empty) r := by
    unfold Differs
    decide +kernel
  have owing : Owing (runAll retiredSink .empty) [sampleRegistration] := by
    unfold Owing
    decide +kernel
  have quiet : calmConfigure.Unfaulted := fun _ => rfl
  have refused := fun ops =>
    startup_refused sampleDaemon_accepted sampleDaemon_prepared (valid ops) quiet
  exact ⟨⟨differs, (refused captured).mpr (.inl differs)⟩, owing, (refused retiredSink).mpr (.inr owing)⟩

theorem sampleRegistered_runs : (spoolWith (configures · = false)).Steps sampleRegistered
    (samplePersist.exec sampleRegistered).tables :=
  .single ⟨samplePersist, rfl, rfl⟩

theorem run_dispatch_sample :
    configureSinks calmConfigure [sampleRegistration] .empty = .ok sampleRegistered ∧
      (spoolWith (configures · = false)).Steps sampleRegistered
        (samplePersist.exec sampleRegistered).tables ∧
      ((0 < (workerConfig (sampleDaemon.completed sampleParsers)).initialDelay.toInt ∧
          (workerConfig (sampleDaemon.completed sampleParsers)).initialDelay.toInt ≤
            (workerConfig (sampleDaemon.completed sampleParsers)).maxDelay.toInt ∧
          1 ≤ (workerConfig (sampleDaemon.completed sampleParsers)).maxAttempts) ∧
        (∀ attempt : Worker.AttemptEnv Sink, attempt.loadFault = none →
          attempt.faults = ⟨none, none⟩ → ∃ recorded,
            (Worker.processOne (workerConfig (sampleDaemon.completed sampleParsers))
              [("audit", Sink.stdout)] attempt (samplePersist.exec sampleRegistered).tables).2 =
                .ok recorded) ∧
        ∀ now item, nextDueDelivery (samplePersist.exec sampleRegistered).tables now = some item →
          Task.worker ∈ tasks (sampleDaemon.completed sampleParsers) [("audit", Sink.stdout)] ∧
          ∃ sink, [("audit", Sink.stdout)].lookup item.sinkName = some sink ∧
            ∃ k ∈ (samplePersist.exec sampleRegistered).tables.sinks, k.sinkID = item.sinkID ∧
              sink.Serves item.sinkType k.configSHA256) :=
  ⟨sampleRegistered_configured, sampleRegistered_runs,
    run_dispatch sampleDaemon_accepted sampleDaemon_prepared valid_empty sampleRegistered_configured
      sampleRegistered_runs⟩

end Sample

end WriteRelay.App
