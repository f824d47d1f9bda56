import WriteRelay.Delivery.Webhook
import WriteRelay.Delivery.Order
import WriteRelay.Inbox.Agreement

/-! The worker against a receiver that keeps an inbox: two machines that retry on their
own, joined by requests that can be lost, repeated or answered late. -/
namespace WriteRelay.EndToEnd
open Clock Spool Runs Webhook
open Worker (Config)

structure Sent where
  item : Delivery
  request : Request

structure World where
  worker : Worker.State
  inbox : Inbox.World
  requests : List Sent

abbrev World.tables (w : World) : Tables := w.worker.tables

/-- The configured sinks whose endpoint is the receiver, the receiver's inbox table, the
worker configurations in use and `http.ParseTime`. -/
structure Setup where
  receives : String → Prop
  named : ∀ name, receives name → identifierPattern name = true
  table : String
  configs : Config → Prop
  parseTime : String → Option Instant

def Sent.carries (s : Sent) (invocation : Inbox.Invocation) : Prop :=
  invocation.key = s.request.header "Idempotency-Key" ∧ invocation.body = s.request.body

inductive Step (setup : Setup) (w : World) : World → Prop
  -- any step of the worker or of another user of the spool, except an answer
  | worker (s : Worker.State) : Worker.Step setup.configs w.worker s →
      (∀ item result, s.phase = .answered item result → w.worker.phase = .answered item result) →
      Step setup w { w with worker := s }
  -- the transport may repeat a request
  | send (item : Delivery) (sender : WebhookSender) (now : Instant) :
      w.worker.phase = .selected item → setup.receives item.sinkName →
      Step setup w { w with requests := ⟨item, sender.request item now⟩ :: w.requests }
  -- a call of the helper starts from a request sent at any time before
  | receive (inbox : Inbox.World) : Inbox.Step setup.table w.inbox inbox →
      (∀ c call, w.inbox.calls c = none → inbox.calls c = some call →
        ∃ s ∈ w.requests, s.carries call.invocation) →
      Step setup w { w with inbox }
  -- the receiver answers 2xx only after the helper returned without an error
  | answer (item : Delivery) (exchange : Exchange) (now : Instant) :
      w.worker.phase = .selected item →
      (setup.receives item.sinkName → ∀ statusCode retryAfter,
        exchange = .answered statusCode retryAfter → 200 ≤ statusCode ∧ statusCode < 300 →
        ∃ c call result, w.inbox.calls c = some call ∧ call.invocation.key = deliveryKey item ∧
          call.invocation.body = item.payload ∧ call.stage = .finished (.returned result)) →
      Step setup w { w with worker := { w.worker with
        phase := .answered item (attemptResult setup.parseTime now exchange) } }
  -- a sink that is not this receiver
  | answerElsewhere (item : Delivery) (result : Worker.AttemptResult) :
      w.worker.phase = .selected item → ¬setup.receives item.sinkName →
      Step setup w { w with worker := { w.worker with phase := .answered item result } }

def system (setup : Setup) : System World where
  init w := w = ⟨.initial, ⟨.empty, fun _ => none⟩, []⟩
  step := Step setup

theorem worker_reachable {setup : Setup} {w : World} (h : (system setup).Reachable w) :
    (Worker.system setup.configs).Reachable w.worker := by
  refine (system setup).invariant
    (fun w => (Worker.system setup.configs).Reachable w.worker) ?_ ?_ h
  · rintro _ rfl
    exact System.reachable_init _ rfl
  · intro w w' _ reachable step
    cases step with
    | worker s step _ => exact reachable.step step
    | send => exact reachable
    | receive => exact reachable
    | answer item exchange now selected _ => exact reachable.step (.answer item _ selected)
    | answerElsewhere item result selected _ => exact reachable.step (.answer item _ selected)

theorem inbox_reachable {setup : Setup} {w : World} (h : (system setup).Reachable w) :
    (Inbox.inbox setup.table).Reachable w.inbox := by
  refine (system setup).invariant
    (fun w => (Inbox.inbox setup.table).Reachable w.inbox) ?_ ?_ h
  · rintro _ rfl
    exact System.reachable_init _ rfl
  · intro w w' _ reachable step
    cases step with
    | receive inbox step _ => exact reachable.step step
    | worker | send | answer | answerElsewhere => exact reachable

structure Described (t : Tables) (item : Delivery) : Prop where
  event : ∃ e ∈ t.events, e.sequence = item.eventSequence ∧ e.identity = (item.source, item.id) ∧
    (e.pruned = false → e.payload = item.payload)
  sink : ∃ k ∈ t.sinks, k.sinkID = item.sinkID ∧ k.sinkName = item.sinkName

theorem Described.extends {t t' : Tables} {item : Delivery} (h : Described t item)
    (extended : t.Extends t') : Described t' item := by
  obtain ⟨e, he, sequence, identity, payload⟩ := h.event
  obtain ⟨k, hk, id, name⟩ := h.sink
  obtain ⟨e', he', became⟩ := extended.events e he
  obtain ⟨k', hk', same⟩ := extended.sinks k hk
  refine ⟨⟨e', he', became.sequence.trans sequence, ?_, fun retained => ?_⟩, k', hk', ?_, ?_⟩
  · rcases became with rfl | ⟨_, now, rfl⟩ <;> exact identity
  · cases became.retained retained
    exact payload retained
  · rw [same]
    exact id
  · rw [same]
    exact name

theorem described_of_selected {t : Tables} {item : Delivery} (h : Selected t item) :
    Described t item := by
  obtain ⟨e, he, _, sequence, source, id, _, payload⟩ := h.event
  obtain ⟨k, hk, _, sinkID, name, _⟩ := h.sink
  exact ⟨⟨e, he, sequence, Prod.ext source id, fun _ => payload⟩, k, hk, sinkID, name⟩

def World.confirmed (w : World) (key : String) : Prop := key ∈ w.inbox.store.rows.map Prod.fst

structure Inv (setup : Setup) (w : World) : Prop where
  item : ∀ item, w.worker.phase.item = some item → Described w.tables item
  sent : ∀ s ∈ w.requests, Described w.tables s.item ∧
    s.request.header "Idempotency-Key" = deliveryKey s.item ∧ s.request.body = s.item.payload
  bodies : ∀ s ∈ w.requests, ∀ s' ∈ w.requests, s.item.eventSequence = s'.item.eventSequence →
    s.item.payload = s'.item.payload
  calls : ∀ c call, w.inbox.calls c = some call → ∃ s ∈ w.requests,
    call.invocation.key = deliveryKey s.item ∧ call.invocation.body = s.item.payload
  answered : ∀ item result, w.worker.phase = .answered item result → result.success = true →
    setup.receives item.sinkName → w.confirmed (deliveryKey item)
  delivered : ∀ d ∈ w.tables.deliveries, d.state = .delivered →
    ∀ e ∈ w.tables.events, e.sequence = d.eventSequence →
    ∀ k ∈ w.tables.sinks, k.sinkID = d.sinkID → setup.receives k.sinkName →
      w.confirmed (idempotencyKey k.sinkName e.source e.id)

theorem held_event {s : Worker.State} (inv : Worker.Inv s) {item : Delivery}
    (held : s.phase.item = some item) (described : Described s.tables item) :
    ∃ e ∈ s.tables.events, e.pruned = false ∧ e.sequence = item.eventSequence ∧
      e.payload = item.payload := by
  obtain ⟨d, hd, key, waiting, _⟩ := (inv.held item held).row
  obtain ⟨e, he, sequence, _, payload⟩ := described.event
  have open_ : ¬d.Succeeded := by
    rintro ⟨delivered, _⟩
    rw [delivered] at waiting
    contradiction
  have kept := inv.valid.sound.not_prunedAt hd open_
  have retained : e.pruned = false := by
    simp only [Tables.prunedAt, List.any_eq_false, decide_eq_true_eq, not_and] at kept
    exact Bool.eq_false_iff.mpr (kept e he (sequence.trans (Prod.mk.inj key).1.symm))
  exact ⟨e, he, retained, sequence, payload retained⟩

theorem Described.payload {t : Tables} (sound : t.Sound) {item : Delivery} (h : Described t item)
    {e : EventRow} (he : e ∈ t.events) (sequence : e.sequence = item.eventSequence)
    (retained : e.pruned = false) : item.payload = e.payload := by
  obtain ⟨e', he', sequence', _, payload⟩ := h.event
  cases sound.events.unique he he' (sequence.trans sequence'.symm)
  exact (payload retained).symm

theorem Described.key {t : Tables} (sound : t.Sound) {item : Delivery} (h : Described t item)
    {e : EventRow} (he : e ∈ t.events) (sequence : e.sequence = item.eventSequence) {k : SinkRow}
    (hk : k ∈ t.sinks) (id : k.sinkID = item.sinkID) :
    idempotencyKey k.sinkName e.source e.id = deliveryKey item := by
  obtain ⟨e', he', sequence', identity, _⟩ := h.event
  obtain ⟨k', hk', id', name⟩ := h.sink
  cases sound.events.unique he he' (sequence.trans sequence'.symm)
  cases sound.sinks.unique hk hk' (id.trans id'.symm)
  obtain ⟨source, id⟩ := Prod.mk.inj identity
  rw [deliveryKey, name, source, id]

theorem same_key {t t' : Tables} (extended : t.Extends t') (sound : t'.Sound) {e e' : EventRow}
    (he : e ∈ t.events) (he' : e' ∈ t'.events) (sequence : e'.sequence = e.sequence) {k k' : SinkRow}
    (hk : k ∈ t.sinks) (hk' : k' ∈ t'.sinks) (id : k'.sinkID = k.sinkID) :
    k'.sinkName = k.sinkName ∧ e'.identity = e.identity := by
  obtain ⟨e'', he'', became⟩ := extended.events e he
  obtain ⟨k'', hk'', same⟩ := extended.sinks k hk
  cases sound.events.unique he' he'' (sequence.trans became.sequence.symm)
  cases sound.sinks.unique hk' hk'' (id.trans (by rw [same]))
  refine ⟨by rw [same], ?_⟩
  rcases became with rfl | ⟨_, now, rfl⟩ <;> rfl

theorem Inv.workerStep {setup : Setup} {w : World} (inv : Inv setup w) (before : Worker.Inv w.worker)
    {s : Worker.State} (after : Worker.Inv s) (step : Worker.Step setup.configs w.worker s)
    (quiet : ∀ item result, s.phase = .answered item result →
      w.worker.phase = .answered item result) : Inv setup { w with worker := s } := by
  have extended := step.extends before
  have sound := after.valid.sound
  refine ⟨?_, ?_, inv.bodies, inv.calls, ?_, ?_⟩
  · intro item held
    rcases step.item before held with old | selected
    · exact (inv.item item old).extends extended
    · exact (described_of_selected selected).extends extended
  · intro r hr
    obtain ⟨described, carried⟩ := inv.sent r hr
    exact ⟨described.extends extended, carried⟩
  · exact fun item result phase => inv.answered item result (quiet item result phase)
  · intro d hd state e he sequence k hk id receives
    rcases step.delivered before hd state with old | ⟨item, result, phase, success, key⟩
    · obtain ⟨e₀, he₀, sequence₀⟩ := before.valid.sound.ofEvent d old
      obtain ⟨k₀, hk₀, id₀⟩ := before.valid.sound.ofSink d old
      obtain ⟨name, identity⟩ := same_key extended sound he₀ he (sequence.trans sequence₀.symm)
        hk₀ hk (id.trans id₀.symm)
      obtain ⟨source, identifier⟩ := Prod.mk.inj identity
      rw [name, source, identifier]
      exact inv.delivered d old state e₀ he₀ sequence₀ k₀ hk₀ id₀ (name ▸ receives)
    · have described := inv.item item (by rw [phase]; rfl)
      obtain ⟨sequence', id'⟩ := Prod.mk.inj key
      rw [(described.extends extended).key sound he (sequence.trans sequence') hk (id.trans id')]
      apply inv.answered item result phase success
      obtain ⟨k', hk', same, name⟩ := (described.extends extended).sink
      cases sound.sinks.unique hk hk' ((id.trans id').trans same.symm)
      exact name ▸ receives

theorem Inv.step {setup : Setup} {w w' : World} (reachable : (system setup).Reachable w)
    (inv : Inv setup w) (h : Step setup w w') : Inv setup w' := by
  have before := Worker.system_inv (worker_reachable reachable)
  have inbox := Inbox.inbox_inv (inbox_reachable reachable)
  cases h with
  | worker s step quiet =>
    have after := Worker.system_inv ((worker_reachable reachable).step step)
    exact inv.workerStep before after step quiet
  | send item sender now selected receives =>
    have held : w.worker.phase.item = some item := by rw [selected]; rfl
    have described := inv.item item held
    obtain ⟨e, he, retained, sequence, payload⟩ := held_event before held described
    -- the event of a held item is retained, so earlier requests for it had the same payload
    have same : ∀ s ∈ w.requests, s.item.eventSequence = item.eventSequence →
        s.item.payload = item.payload := by
      intro s hs equal
      rw [(inv.sent s hs).1.payload before.valid.sound he (sequence.trans equal.symm) retained, payload]
    refine ⟨inv.item, ?_, ?_, ?_, inv.answered, inv.delivered⟩
    · intro s hs
      rcases List.mem_cons.mp hs with rfl | hs
      · exact ⟨described, request_key .., rfl⟩
      · exact inv.sent s hs
    · intro s hs s' hs' equal
      rcases List.mem_cons.mp hs with rfl | hs
      · rcases List.mem_cons.mp hs' with rfl | hs'
        · rfl
        · exact (same s' hs' equal.symm).symm
      · rcases List.mem_cons.mp hs' with rfl | hs'
        · exact same s hs equal
        · exact inv.bodies s hs s' hs' equal
    · intro c call found
      obtain ⟨s, hs, carried⟩ := inv.calls c call found
      exact ⟨s, List.mem_cons_of_mem _ hs, carried⟩
  | receive next step origin =>
    have rows := step.later.rows
    have kept : ∀ key, w.confirmed key → World.confirmed { w with inbox := next } key := by
      intro key confirmed
      obtain ⟨r, hr, same⟩ := List.mem_map.mp confirmed
      exact List.mem_map.mpr ⟨r, rows r hr, same⟩
    refine ⟨inv.item, inv.sent, inv.bodies, ?_, ?_, ?_⟩
    · intro c call found
      cases known : w.inbox.calls c with
      | none =>
      -- a call that was not there before belongs to a request on its way
        obtain ⟨s, hs, key, body⟩ := origin c call known found
        obtain ⟨_, header, payload⟩ := inv.sent s hs
        exact ⟨s, hs, key.trans header, body.trans payload⟩
      | some old =>
        obtain ⟨call', found', same⟩ := step.invocation known
        cases found.symm.trans found'
        rw [same]
        exact inv.calls c old known
    · exact fun item result phase success receives =>
        kept _ (inv.answered item result phase success receives)
    · exact fun d hd state e he sequence k hk id receives =>
        kept _ (inv.delivered d hd state e he sequence k hk id receives)
  | answer item exchange now selected replied =>
    refine ⟨?_, inv.sent, inv.bodies, inv.calls, ?_, inv.delivered⟩
    · intro item' held
      exact inv.item item' (by rw [selected]; exact held)
    · rintro _ _ ⟨⟩ success receives
      obtain ⟨statusCode, retryAfter, answered, ok⟩ := attemptResult_success success
      obtain ⟨c, call, result, found, key, _, stage⟩ := replied receives statusCode retryAfter answered ok
      exact key ▸ List.mem_map_of_mem (inbox.returned found stage)
  | answerElsewhere item result selected elsewhere =>
    refine ⟨?_, inv.sent, inv.bodies, inv.calls, ?_, inv.delivered⟩
    · intro item' held
      exact inv.item item' (by rw [selected]; exact held)
    · rintro _ _ ⟨⟩ _ receives
      exact absurd receives elsewhere

theorem system_inv {setup : Setup} {w : World} (h : (system setup).Reachable w) : Inv setup w := by
  refine (system setup).invariant (Inv setup) ?_
    (fun _ _ reachable inv step => inv.step reachable step) h
  rintro _ rfl
  refine ⟨?_, ?_, ?_, ?_, ?_, ?_⟩
  · intro item held
    contradiction
  · intro s hs
    contradiction
  · intro s hs
    contradiction
  · intro c call found
    contradiction
  · intro item result phase
    contradiction
  · intro d hd
    contradiction

/-- A request was known before, or carries the payload of an event kept before, or is for
an event captured since. -/
structure Later (w w' : World) : Prop where
  tables : w.tables.Extends w'.tables
  requests : ∀ s ∈ w'.requests, s ∈ w.requests ∨
    (∃ e ∈ w.tables.events, e.pruned = false ∧ e.sequence = s.item.eventSequence ∧
      e.payload = s.item.payload) ∨ w.tables.lastSequence < s.item.eventSequence

theorem Later.refl (w : World) : Later w w := ⟨.refl _, fun _ hs => .inl hs⟩

theorem Later.trans {a b c : World} (first : Later a b) (next : Later b c) : Later a c := by
  refine ⟨first.tables.trans next.tables, fun s hs => ?_⟩
  rcases next.requests s hs with old | ⟨e, he, retained, sequence, payload⟩ | later
  · exact first.requests s old
  · rcases first.tables.newer e he with ⟨e₀, he₀, became⟩ | later
    · cases became.retained retained
      exact .inr (.inl ⟨e, he₀, retained, sequence, payload⟩)
    · exact .inr (.inr (sequence ▸ later))
  · exact .inr (.inr (first.tables.sequence.trans_lt later))

theorem Step.later {setup : Setup} {w w' : World} (reachable : (system setup).Reachable w)
    (h : Step setup w w') : Later w w' := by
  have before := Worker.system_inv (worker_reachable reachable)
  cases h with
  | worker s step _ => exact ⟨step.extends before, fun _ hs => .inl hs⟩
  | receive | answer | answerElsewhere => exact ⟨.refl _, fun _ hs => .inl hs⟩
  | send item sender now selected receives =>
    have held : w.worker.phase.item = some item := by rw [selected]; rfl
    refine ⟨.refl _, fun s hs => ?_⟩
    rcases List.mem_cons.mp hs with rfl | hs
    · exact .inr (.inl (held_event before held ((system_inv reachable).item item held)))
    · exact .inl hs

theorem system_later {setup : Setup} {w w' : World} (h : (system setup).Reachable w)
    (run : (system setup).Steps w w') : Later w w' :=
  (system setup).monotone Later Later.refl (fun _ _ _ => .trans)
    (fun _ _ reachable step => step.later reachable) h run

theorem Later.payload {setup : Setup} {w w' : World} (h : Later w w')
    (reachable : (system setup).Reachable w) {e : EventRow} (he : e ∈ w.tables.events)
    (retained : e.pruned = false) {s : Sent} (hs : s ∈ w'.requests)
    (sequence : s.item.eventSequence = e.sequence) : s.item.payload = e.payload := by
  have sound := (Worker.system_inv (worker_reachable reachable)).valid.sound
  rcases h.requests s hs with old | ⟨e', he', _, sequence', payload⟩ | later
  · exact ((system_inv reachable).sent s old).1.payload sound he sequence.symm retained
  · cases sound.events.unique he he' (sequence.symm.trans sequence'.symm)
    exact payload.symm
  · exact absurd (sequence ▸ later) (not_lt.mpr (sound.events.bounded e he))

/-- No request of the run has another key text with the same digest. -/
def CollisionFree (w : World) (text : String) : Prop :=
  ∀ s ∈ w.requests, Sha256.sum (bytes (keyText s.item.sinkName s.item.source s.item.id)) =
    Sha256.sum (bytes text) → bytes (keyText s.item.sinkName s.item.source s.item.id) = bytes text

theorem sequence_of_key {setup : Setup} {w : World} (reachable : (system setup).Reachable w)
    {e : EventRow} (he : e ∈ w.tables.events) {sinkName : String} (sinkNul : nul ∉ sinkName.toList)
    (sourceNul : nul ∉ e.source.toList) (idNul : nul ∉ e.id.toList)
    (collisionFree : CollisionFree w (keyText sinkName e.source e.id)) {s : Sent}
    (hs : s ∈ w.requests) (key : deliveryKey s.item = idempotencyKey sinkName e.source e.id) :
    s.item.eventSequence = e.sequence := by
  have text := bytes_injective (collisionFree s hs (Sha256.hex_injective key))
  obtain ⟨_, source, id⟩ := keyText_injective sinkNul sourceNul idNul text.symm
  obtain ⟨e', he', sequence, identity, _⟩ := ((system_inv reachable).sent s hs).1.event
  have sound := (Worker.system_inv (worker_reachable reachable)).valid.sound
  have same : e' = e := Rows.key_unique sound.events.identities he' he
    (identity.trans (Prod.ext source.symm id.symm))
  rw [← sequence, same]

section Sample

theorem inbox_invocations {table : String} {a b : Inbox.World} (run : (Inbox.inbox table).Steps a b)
    {c : Nat} {call : Inbox.Call} (found : a.calls c = some call) :
    ∃ call', b.calls c = some call' ∧ call'.invocation = call.invocation := by
  induction run with
  | refl => exact ⟨call, found, rfl⟩
  | tail _ step ih =>
    obtain ⟨call', found', same⟩ := ih
    obtain ⟨call'', found'', same'⟩ := Inbox.Step.invocation step found'
    exact ⟨call'', found'', same'.trans same⟩

theorem receive_steps (setup : Setup) (w : World) {a b : Inbox.World}
    (run : (Inbox.inbox setup.table).Steps a b)
    (origin : ∀ c call, b.calls c = some call → ∃ s ∈ w.requests, s.carries call.invocation) :
    (system setup).Steps { w with inbox := a } { w with inbox := b } := by
  induction run using Relation.ReflTransGen.head_induction_on with
  | refl => exact .refl
  | head step rest ih =>
    refine .head (Step.receive _ step fun c call _ found => ?_) ih
    obtain ⟨call', found', same⟩ := inbox_invocations rest found
    exact same ▸ origin c call' found'

def sampleSetup : Setup where
  receives := (· = "audit")
  named := by
    rintro _ rfl
    decide
  table := Inbox.sampleTable
  configs := fun _ => True
  parseTime := fun _ => none

def sampleSender : WebhookSender := ⟨"https://receiver", "", []⟩

def sampleSent : Sent := ⟨sampleItem, sampleSender.request sampleItem 5⟩

def sampleCaptured : World :=
  ⟨⟨runAll captured .empty, .selected sampleItem, [.selected sampleItem]⟩,
    ⟨.empty, fun _ => none⟩, [sampleSent]⟩

theorem sampleCaptured_reachable : (system sampleSetup).Reachable sampleCaptured := by
  have start := (system sampleSetup).reachable_init rfl
  have configured := start.step (Step.worker _ (.maintain sampleConfigure rfl) nofun)
  have stored := configured.step (Step.worker _ (.maintain samplePersist rfl) nofun)
  have selected := stored.step (Step.worker _ (.select 5 sampleItem rfl captured_next) nofun)
  exact selected.step (Step.send sampleItem sampleSender 5 rfl rfl)

def sampleResult : Worker.AttemptResult := ⟨true, false, 0, 200, ""⟩

def sampleConfig : Config := ⟨1000000000, 60000000000, 10⟩

def sampleTables : Tables :=
  ((Worker.Mark.delivered 1 200 6).operation ⟨none, none⟩ sampleItem).exec (runAll captured .empty)
    |>.tables

/-- The receiver handles the request twice and the worker records its answer. -/
theorem sample_delivered : ∃ w, (system sampleSetup).Steps sampleCaptured w ∧
    w.tables = sampleTables ∧ w.requests = [sampleSent] := by
  have valid : Inbox.isKey (deliveryKey sampleItem) = true := by decide +kernel
  obtain ⟨b, ⟨_, rfl, run⟩, first, second, others⟩ := Inbox.sample_run _ valid
  have received := receive_steps sampleSetup sampleCaptured run (by
    intro c call found
    have header := request_key sampleSender sampleItem 5
    refine ⟨sampleSent, List.mem_cons_self, ?_⟩
    match c with
    | 0 =>
      cases first.symm.trans found
      exact ⟨header.symm, rfl⟩
    | 1 =>
      cases second.symm.trans found
      exact ⟨header.symm, rfl⟩
    | c + 2 =>
      rw [others (c + 2) (by omega)] at found
      contradiction)
  have answered := received.tail (Step.answer sampleItem (.answered 200 "") 6 rfl
    fun _ _ _ _ _ => ⟨0, _, .processed, first, rfl, rfl, rfl⟩)
  have recorded := answered.tail (Step.worker _ (.record sampleConfig sampleItem sampleResult 6
    ⟨none, none⟩ (.delivered 1 200 6) sampleTables trivial rfl rfl rfl) nofun)
  exact ⟨_, recorded, rfl, rfl⟩

end Sample

/-- An event that was captured once is processed by the receiver's handler at most once,
and exactly once when its delivery is recorded as delivered. -/
theorem end_to_end_effect {setup : Setup} {w w' : World} (reachable : (system setup).Reachable w)
    (run : (system setup).Steps w w') {e : EventRow} (he : e ∈ w.tables.events)
    (retained : e.pruned = false) {k : SinkRow} (hk : k ∈ w'.tables.sinks)
    (receives : setup.receives k.sinkName) (sourceNul : nul ∉ e.source.toList)
    (idNul : nul ∉ e.id.toList) (collisionFree : CollisionFree w' (keyText k.sinkName e.source e.id))
    {key : String} (keyed : key = idempotencyKey k.sinkName e.source e.id) :
    (∀ s ∈ w'.requests, s.item.eventSequence = e.sequence → s.item.sinkID = k.sinkID →
      s.request.header "Idempotency-Key" = key ∧ s.request.body = e.payload) ∧
    (∀ c call, w'.inbox.calls c = some call → call.invocation.key = key →
      call.invocation.body = e.payload ∧
        ∀ atCommit, call.stage ≠ .finished (.failed .conflict atCommit)) ∧
    (∀ a ∈ w'.inbox.store.commits, ∀ call, w'.inbox.calls a.owner = some call →
      call.invocation.key = key → a ∈ w'.inbox.store.claims key ∨ a.claim = none ∧ a.writes = []) ∧
    (w'.inbox.store.claims key).length ≤ 1 ∧
    ∀ d ∈ w'.tables.deliveries, d.key = (e.sequence, k.sinkID) → d.state = .delivered →
      (w'.inbox.store.claims key).length = 1 := by
  have reachable' := reachable.steps run
  have later := system_later reachable run
  have inv := system_inv reachable'
  have sound := (Worker.system_inv (worker_reachable reachable')).valid.sound
  have inbox := Inbox.inbox_inv (inbox_reachable reachable')
  obtain ⟨e', he', became⟩ := later.tables.events e he
  obtain ⟨source, id⟩ : e'.source = e.source ∧ e'.id = e.id := by
    rcases became with rfl | ⟨_, now, rfl⟩ <;> exact ⟨rfl, rfl⟩
  -- the key of a call leads back to the event, as no other key text sent has this digest
  have body : ∀ c call, w'.inbox.calls c = some call → call.invocation.key = key →
      call.invocation.body = e.payload := by
    intro c call found same
    obtain ⟨s, hs, key', payload⟩ := inv.calls c call found
    have sequence := sequence_of_key reachable' he' (identifierPattern_nul (setup.named _ receives))
      (source ▸ sourceNul) (id ▸ idNul) (by rwa [source, id]) hs
      (by rw [source, id, ← keyed, ← same, key'])
    rw [payload]
    exact later.payload reachable he retained hs (sequence.trans became.sequence)
  refine ⟨?_, ?_, ?_, inbox.store.claims_length key, ?_⟩
  · intro s hs sequence sinkID
    obtain ⟨described, header, payload⟩ := inv.sent s hs
    have named := described.key sound he' (became.sequence.trans sequence.symm) hk sinkID.symm
    rw [header, payload, keyed, ← named, source, id]
    exact ⟨rfl, later.payload reachable he retained hs sequence⟩
  · refine fun c call found same => ⟨body c call found same, fun atCommit conflict => ?_⟩
    obtain ⟨d, row, different⟩ :=
      Inbox.inbox_conflictSeen (inbox_reachable reachable') c call found atCommit conflict
    obtain ⟨c', call', found', same', digest⟩ := inbox.row_origin row
    rw [digest, body c call found same, body c' call' found' (same'.trans same)] at different
    contradiction
  · intro a ha call found same
    obtain ⟨call', found', _, own⟩ := inbox.together ha
    cases found.symm.trans found'
    refine own.imp_left fun claim => Claims.mem_claims.mpr ⟨ha, call.digest, ?_⟩
    rw [claim, Inbox.Call.receipt, same]
  · intro d hd dkey state
    obtain ⟨sequence, sinkID⟩ := Prod.mk.inj dkey
    have confirmed := inv.delivered d hd state e' he' (became.sequence.trans sequence.symm) k hk
      sinkID.symm receives
    rw [source, id, ← keyed] at confirmed
    obtain ⟨a, member⟩ := inbox.store.exists_claim confirmed
    have bound := inbox.store.claims_length key
    have positive := List.length_pos_of_mem member
    omega

theorem end_to_end_effect_sample : ∃ w, (system sampleSetup).Reachable w ∧
    (∃ d ∈ w.tables.deliveries, d.state = .delivered) ∧
    (w.inbox.store.claims (idempotencyKey "audit" "/orders" "1")).length = 1 := by
  obtain ⟨w, run, tables, requests⟩ := sample_delivered
  have event : ∃ e ∈ sampleCaptured.tables.events, e.pruned = false ∧ e.sequence = 1 ∧
      e.source = "/orders" ∧ e.id = "1" := by decide +kernel
  have sink : ∃ k ∈ sampleTables.sinks, k.sinkID = 1 ∧ k.sinkName = "audit" := by decide +kernel
  have row : ∃ d ∈ sampleTables.deliveries, d.key = (1, 1) ∧ d.state = .delivered := by
    decide +kernel
  obtain ⟨e, he, retained, sequence, source, id⟩ := event
  obtain ⟨k, hk, sinkID, name⟩ := sink
  obtain ⟨d, hd, dkey, state⟩ := row
  have nuls : nul ∉ "/orders".toList ∧ nul ∉ "1".toList := by decide
  have alone : CollisionFree w (keyText k.sinkName e.source e.id) := by
    intro s hs _
    rw [requests] at hs
    cases List.mem_singleton.mp hs
    rw [name, source, id]
    rfl
  have effect := end_to_end_effect sampleCaptured_reachable run he retained (tables ▸ hk) name
    (source ▸ nuls.1) (id ▸ nuls.2) alone (by rw [name, source, id])
  exact ⟨w, sampleCaptured_reachable.steps run, ⟨d, tables ▸ hd, state⟩,
    effect.2.2.2.2 d (tables ▸ hd) (by rw [sequence, sinkID, dkey]) state⟩

end WriteRelay.EndToEnd
