import WriteRelay.Delivery.Worker

/-! Deliveries of one sink are recorded in event order. While the worker holds an item
its sink stays active, so backfill has nothing left to insert below it. -/
namespace WriteRelay.Worker
open Clock Spool Runs

/-- The rows redriven after the item was last selected. -/
def redrivenSince (item : Delivery) (history : List Entry) : List (Nat × Nat) :=
  (history.takeWhile (· ≠ .selected item)).flatMap fun
    | .redriven keys => keys
    | .selected _ | .finished _ _ => []

structure Held (t : Tables) (history : List Entry) (item : Delivery) : Prop where
  row : ∃ d ∈ t.deliveries, d.key = (item.eventSequence, item.sinkID) ∧ d.state.waiting = true ∧
    d.attempts = item.attempts
  older : ∀ d ∈ t.deliveries, d.sinkID = item.sinkID → d.eventSequence < item.eventSequence →
    d.state.waiting = true → d.key ∈ redrivenSince item history

theorem Held.active {t : Tables} {history : List Entry} {item : Delivery} (held : Held t history item)
    (sound : t.Sound) : t.Active item.sinkID ∧ item.eventSequence ≤ t.lastSequence := by
  obtain ⟨d, hd, key, waiting, _⟩ := held.row
  obtain ⟨sequence, sink⟩ := Prod.mk.inj key
  obtain ⟨e, he, same⟩ := sound.ofEvent d hd
  refine ⟨sink ▸ sound.served d hd waiting, ?_⟩
  rw [← sequence, ← same]
  exact sound.events.bounded e he

theorem Held.grows {times : Instant → Prop} {t t' : Tables} {history : List Entry} {item : Delivery}
    (held : Held t history item) (valid : t.Valid) (sound : t'.Sound) (grown : t.Grows times t') :
    Held t' history item := by
  obtain ⟨active, known⟩ := held.active valid.sound
  obtain ⟨d, hd, key, waiting, attempts⟩ := held.row
  refine ⟨⟨d, grown.kept d hd, key, waiting, attempts⟩, ?_⟩
  intro d' hd' sink before waiting'
  have covered : t.retained d'.eventSequence = true → d'.key ∈ t.deliveries.map (·.key) := by
    intro retained
    rw [DeliveryRow.key, sink]
    exact valid.coveredAt active retained
  rcases grown.fresh sound hd' covered with old | later
  · exact held.older d' old sink before waiting'
  · omega

theorem redrivenSince_append {item : Delivery} {entry : Entry} (history : List Entry)
    (other : entry ≠ .selected item) {key : Nat × Nat} (h : key ∈ redrivenSince item history) :
    key ∈ redrivenSince item (entry :: history) := by
  rw [redrivenSince, List.takeWhile_cons_of_pos (by simpa using other), List.flatMap_cons]
  exact List.mem_append_right _ h

theorem Held.redrive {t : Tables} {history : List Entry} {item : Delivery} (held : Held t history item)
    (valid : t.Valid) (faults : UpdateFaults) (sinkName source id : String) (at_ : Instant) :
    Held (redriveDelivery faults sinkName source id at_ t).tables
      (redriveEntry faults t sinkName source id ++ history) item := by
  have updated := redriveDelivery_spec faults sinkName source id at_ valid
  by_cases exec : faults.exec = none
  · rw [updated.executed exec, redriveEntry, if_pos exec, List.singleton_append]
    constructor
    · obtain ⟨d, hd, key, waiting, attempts⟩ := held.row
      refine ⟨d, Rows.mem_update.mpr ⟨d, hd, ?_⟩, key, waiting, attempts⟩
      have untouched : redriveTarget t sinkName source id d = false := by
        cases state : d.state <;> simp [state, DeliveryState.waiting] at waiting <;>
          simp [redriveTarget, state]
      rw [untouched]
      rfl
    · intro d' hd' sink before waiting
      obtain ⟨d, hd, rfl⟩ := Rows.mem_update.mp hd'
      by_cases target : redriveTarget t sinkName source id d = true
      · rw [if_pos target, redrivenSince, List.takeWhile_cons_of_pos (by simp), List.flatMap_cons]
        apply List.mem_append_left
        exact List.mem_map.mpr ⟨d, List.mem_filter.mpr ⟨hd, target⟩, rfl⟩
      · rw [if_neg target] at sink before waiting ⊢
        exact redrivenSince_append history (by simp) (held.older d hd sink before waiting)
  · rw [updated.refused exec, redriveEntry, if_neg exec]
    exact held

theorem held_of_selected {t : Tables} (sound : t.Sound) {now : Instant} {item : Delivery}
    (next : nextDueDelivery t now = some item) (history : List Entry) : Held t history item := by
  have selected := nextDueDelivery_selected sound next
  refine ⟨selected.row, ?_⟩
  intro d hd sink before waiting
  have := selected.oldest d hd sink waiting
  omega

def Phase.item : Phase → Option Delivery
  | .idle => none
  | .selected item => some item
  | .answered item _ => some item

/-- The worker's item is still the head of its sink, but for redriven rows. -/
structure Inv (s : State) : Prop where
  valid : s.tables.Valid
  held : ∀ item, s.phase.item = some item → Held s.tables s.history item

theorem step_inv {configs : Config → Prop} {s s' : State} (inv : Inv s) (h : Step configs s s') :
    Inv s' := by
  cases h with
  | maintain op maintained =>
    obtain ⟨valid, grown, _⟩ := maintains_spec maintained inv.valid
    exact ⟨valid, fun item phase => (inv.held item phase).grows inv.valid valid.sound grown⟩
  | redrive faults sinkName source id at_ =>
    refine ⟨(redriveDelivery_spec faults sinkName source id at_ inv.valid).valid, ?_⟩
    intro item phase
    exact (inv.held item phase).redrive inv.valid faults sinkName source id at_
  | select now item idle next =>
    refine ⟨inv.valid, ?_⟩
    intro other same
    cases Option.some.inj same
    exact held_of_selected inv.valid.sound next _
  | answer item result phase =>
    refine ⟨inv.valid, ?_⟩
    intro other same
    cases Option.some.inj same
    exact inv.held item (by rw [phase]; rfl)
  | record config item result now faults mark t _ phase _ outcome =>
    subst outcome
    exact ⟨(exec_spec _ inv.valid).1, nofun⟩
  | stop => exact ⟨inv.valid, nofun⟩

theorem system_inv {configs : Config → Prop} {s : State} (h : (system configs).Reachable s) :
    Inv s := by
  refine (system configs).invariant Inv ?_ (fun _ _ _ => step_inv) h
  rintro _ rfl
  exact ⟨valid_empty, nofun⟩

theorem mark_spec (mark : Mark) (faults : UpdateFaults) (item : Delivery) {t : Tables}
    (valid : t.Valid) : ∃ f judge, (∀ d, (f d).key = d.key) ∧
      (mark.terminal = true → ∀ d, (f d).state.waiting = false) ∧
      (∀ d, (f d).state = .delivered → ∃ attempt status at_, mark = .delivered attempt status at_) ∧
      Updated faults t (unchanged item) f judge ((mark.operation faults item).exec t) := by
  cases mark with
  | delivered attempt status at_ =>
    exact ⟨deliveredRow attempt status at_, _, fun _ => rfl, fun _ _ => rfl,
      fun _ _ => ⟨attempt, status, at_, rfl⟩, markDelivered_spec faults item attempt status at_ valid⟩
  | failed attempt permanent retryAt failure status at_ =>
    refine ⟨failedRow attempt permanent retryAt failure status at_, _, fun _ => rfl, ?_, ?_,
      markFailed_spec faults item attempt permanent retryAt failure status at_ valid⟩
    · intro terminal d
      have permanent : permanent = true := terminal
      simp [failedRow, permanent, DeliveryState.waiting]
    · intro d delivered
      simp only [failedRow] at delivered
      split at delivered <;> contradiction

theorem unchanged_iff {item : Delivery} {d : DeliveryRow} : unchanged item d = true ↔
    d.key = (item.eventSequence, item.sinkID) ∧ d.attempts = item.attempts ∧
      d.state.waiting = true := by
  simp only [unchanged, decide_eq_true_eq, DeliveryRow.key, Prod.mk.injEq, and_assoc]

theorem Step.item {configs : Config → Prop} {s s' : State} (inv : Inv s) (h : Step configs s s')
    {item : Delivery} (held : s'.phase.item = some item) :
    s.phase.item = some item ∨ Selected s.tables item := by
  cases h with
  | maintain | redrive => exact .inl held
  | select now item' idle next =>
    cases Option.some.inj held
    exact .inr (nextDueDelivery_selected inv.valid.sound next)
  | answer item' result phase =>
    rw [phase]
    exact .inl held
  | record | stop => contradiction

theorem recordAttempt_success {config : Config} {item : Delivery} {result : AttemptResult}
    {now at_ : Instant} {attempt : Nat} {status : Int}
    (h : recordAttempt config item result now = .delivered attempt status at_) :
    result.success = true := by
  unfold recordAttempt at h
  split at h
  · rename_i success
    exact success
  · contradiction

theorem Step.extends {configs : Config → Prop} {s s' : State} (inv : Inv s) (h : Step configs s s') :
    s.tables.Extends s'.tables := by
  cases h with
  | maintain op maintained => exact (maintains_spec maintained inv.valid).2.1.toExtends
  | redrive faults sinkName source id at_ =>
    exact (exec_spec (.redrive faults sinkName source id at_) inv.valid).2.1.extends
  | select | answer | stop => exact .refl _
  | record config item result now faults mark t _ phase _ outcome =>
    subst outcome
    exact (exec_spec (mark.operation faults item) inv.valid).2.1.extends

theorem Step.delivered {configs : Config → Prop} {s s' : State} (inv : Inv s)
    (h : Step configs s s') {d : DeliveryRow} (hd : d ∈ s'.tables.deliveries)
    (state : d.state = .delivered) : d ∈ s.tables.deliveries ∨
      ∃ item result, s.phase = .answered item result ∧ result.success = true ∧
        d.key = (item.eventSequence, item.sinkID) := by
  cases h with
  | maintain op maintained =>
    rcases (maintains_spec maintained inv.valid).2.1.added d hd with old | ⟨⟨at_, _, pending⟩, _⟩
    · exact .inl old
    · rw [pending] at state
      contradiction
  | redrive faults sinkName source id at_ =>
    have updated := redriveDelivery_spec faults sinkName source id at_ inv.valid
    by_cases exec : faults.exec = none
    · rw [updated.executed exec] at hd
      obtain ⟨d₀, hd₀, rfl⟩ := Rows.mem_update.mp hd
      split at state
      · contradiction
      · rename_i other
        exact .inl (by rwa [if_neg other])
    · rw [updated.refused exec] at hd
      exact .inl hd
  | select | answer | stop => exact .inl hd
  | record config item result now faults mark t _ phase same outcome =>
    subst outcome
    obtain ⟨f, judge, keys, _, delivers, updated⟩ := mark_spec mark faults item inv.valid
    by_cases exec : faults.exec = none
    · rw [updated.executed exec] at hd
      obtain ⟨d₀, hd₀, rfl⟩ := Rows.mem_update.mp hd
      by_cases target : unchanged item d₀ = true
      · rw [if_pos target] at state ⊢
        obtain ⟨attempt, status, at_, delivered⟩ := delivers d₀ state
        exact .inr ⟨item, result, phase, recordAttempt_success (same.symm.trans delivered),
          (keys d₀).trans (unchanged_iff.mp target).1⟩
      · rw [if_neg target]
        exact .inl hd₀
    · rw [updated.refused exec] at hd
      exact .inl hd

def finishedOf (sinkID : Nat) (history : List Entry) : List Nat :=
  history.filterMap fun
    | .finished sequence sink => if sink = sinkID then some sequence else none
    | .selected _ | .redriven _ => none

/-- The sink has left this sequence behind: nothing at or below it waits or can be
inserted again. -/
structure Passed (t : Tables) (sequence sinkID : Nat) : Prop where
  known : sequence ≤ t.lastSequence
  covered : ∀ x, x ≤ sequence → t.retained x = true → (x, sinkID) ∈ t.deliveries.map (·.key)
  ahead : ∀ d ∈ t.deliveries, d.sinkID = sinkID → d.state.waiting = true → sequence < d.eventSequence

theorem Passed.grows {times : Instant → Prop} {t t' : Tables} {sequence sinkID : Nat}
    (passed : Passed t sequence sinkID) (sound : t'.Sound) (grown : t.Grows times t') :
    Passed t' sequence sinkID where
  known := passed.known.trans grown.sequence
  covered x below retained := by
    rcases grown.toExtends.retained retained with before | later
    · obtain ⟨d, hd, same⟩ := List.mem_map.mp (passed.covered x below before)
      exact List.mem_map.mpr ⟨d, grown.kept d hd, same⟩
    · have := passed.known
      omega
  ahead d hd sink waiting := by
    by_contra behind
    have covered : t.retained d.eventSequence = true → d.key ∈ t.deliveries.map (·.key) := by
      intro retained
      rw [DeliveryRow.key, sink]
      exact passed.covered _ (not_lt.mp behind) retained
    rcases grown.fresh sound hd covered with old | later
    · exact behind (passed.ahead d old sink waiting)
    · have := passed.known
      omega

theorem Passed.mark {t : Tables} {sequence sinkID : Nat} (passed : Passed t sequence sinkID)
    {item : Delivery} {f : DeliveryRow → DeliveryRow} (same : ∀ d, (f d).key = d.key) :
    Passed { t with deliveries := Rows.update (unchanged item) f t.deliveries } sequence sinkID where
  known := passed.known
  covered x below retained := by
    rw [Rows.map_update_of_invariant _ same]
    exact passed.covered x below retained
  ahead d' hd' sink waiting := by
    obtain ⟨d, hd, rfl⟩ := Rows.mem_update.mp hd'
    by_cases target : unchanged item d = true
    · rw [if_pos target] at sink ⊢
      obtain ⟨sequence', sink'⟩ := Prod.mk.inj (same d)
      rw [sequence']
      exact passed.ahead d hd (sink'.symm.trans sink) (unchanged_iff.mp target).2.2
    · rw [if_neg target] at sink waiting ⊢
      exact passed.ahead d hd sink waiting

theorem Held.passed {t : Tables} {history : List Entry} {item : Delivery} (held : Held t history item)
    (valid : t.Valid) (quiet : redrivenSince item history = []) {f : DeliveryRow → DeliveryRow}
    (same : ∀ d, (f d).key = d.key) (terminal : ∀ d, (f d).state.waiting = false) :
    Passed { t with deliveries := Rows.update (unchanged item) f t.deliveries }
      item.eventSequence item.sinkID where
  known := (held.active valid.sound).2
  covered x _ retained := by
    rw [Rows.map_update_of_invariant _ same]
    exact valid.coveredAt (held.active valid.sound).1 retained
  ahead d' hd' sink waiting := by
    obtain ⟨d, hd, rfl⟩ := Rows.mem_update.mp hd'
    by_cases target : unchanged item d = true
    · rw [if_pos target, terminal d] at waiting
      contradiction
    · rw [if_neg target] at sink waiting ⊢
      obtain ⟨row, hrow, key, waiting', attempts⟩ := held.row
      rcases lt_trichotomy d.eventSequence item.eventSequence with before | at_ | after
      · have redriven := held.older d hd sink before waiting
        rw [quiet] at redriven
        contradiction
      · have head : d = row := Rows.key_unique valid.sound.keys hd hrow
          (by rw [key, DeliveryRow.key, at_, sink])
        subst head
        exact absurd (unchanged_iff.mpr ⟨key, attempts, waiting⟩) target
      · exact after

def NoRedrive (history : List Entry) : Prop := ∀ keys, .redriven keys ∉ history

theorem NoRedrive.since {history : List Entry} (h : NoRedrive history) (item : Delivery) :
    redrivenSince item history = [] := by
  rw [redrivenSince, List.flatMap_eq_nil_iff]
  intro entry member
  have present := (List.takeWhile_sublist _).subset member
  cases entry with
  | redriven keys => exact absurd present (h keys)
  | selected => rfl
  | finished => rfl

structure Ordered (s : State) : Prop where
  passed : ∀ sequence sinkID, .finished sequence sinkID ∈ s.history →
    Passed s.tables sequence sinkID
  increasing : ∀ sinkID, (finishedOf sinkID s.history).Pairwise (· > ·)

theorem mem_finishedOf {sinkID sequence : Nat} {history : List Entry} :
    sequence ∈ finishedOf sinkID history ↔ .finished sequence sinkID ∈ history := by
  simp only [finishedOf, List.mem_filterMap]
  constructor
  · rintro ⟨entry, member, h⟩
    cases entry with
    | finished sequence' sink =>
      simp only [Option.ite_none_right_eq_some, Option.some.injEq] at h
      rwa [← h.1, ← h.2]
    | selected => contradiction
    | redriven => contradiction
  · intro member
    exact ⟨_, member, by simp⟩

theorem Ordered.record {s : State} (inv : Inv s) (ordered : Ordered s) (quiet : NoRedrive s.history)
    {item : Delivery} {result : AttemptResult} (phase : s.phase = .answered item result) (mark : Mark)
    (faults : UpdateFaults) :
    Ordered ⟨((mark.operation faults item).exec s.tables).tables, .idle,
      finishedEntry faults s.tables mark item ++ s.history⟩ := by
  have held := inv.held item (by rw [phase]; rfl)
  obtain ⟨f, judge, same, terminal, _, updated⟩ := mark_spec mark faults item inv.valid
  by_cases exec : faults.exec = none
  · rw [updated.executed exec, finishedEntry]
    split
    · rename_i done
      -- no redrive since the selection: the rows before this one are final
      have ended := held.passed inv.valid (quiet.since item) same (terminal done.2.1)
      have row : ∃ d ∈ s.tables.deliveries, unchanged item d = true := List.any_eq_true.mp done.2.2
      obtain ⟨d, hd, target⟩ := row
      obtain ⟨key, _, waiting⟩ := unchanged_iff.mp target
      obtain ⟨sequence, sink⟩ := Prod.mk.inj key
      constructor
      · intro sequence' sinkID member
        rcases List.mem_cons.mp member with new | old
        · cases new
          exact ended
        · exact (ordered.passed sequence' sinkID old).mark same
      · intro sinkID
        simp only [finishedOf, List.singleton_append, List.filterMap_cons]
        split
        · exact ordered.increasing sinkID
        · rename_i first shown
          simp only [Option.ite_none_right_eq_some, Option.some.injEq] at shown
          obtain ⟨rfl, rfl⟩ := shown
          refine List.pairwise_cons.mpr ⟨?_, ordered.increasing _⟩
          intro earlier member
          have passed := ordered.passed earlier _ (mem_finishedOf.mp member)
          rw [gt_iff_lt, ← sequence]
          exact passed.ahead d hd sink waiting
    · exact ⟨fun sequence sinkID member => (ordered.passed sequence sinkID member).mark same,
        ordered.increasing⟩
  · rw [updated.refused exec, finishedEntry, if_neg (fun h => exec h.1)]
    exact ⟨ordered.passed, ordered.increasing⟩

theorem step_ordered {configs : Config → Prop} {s s' : State} (inv : Inv s)
    (ordered : NoRedrive s.history → Ordered s) (h : Step configs s s') :
    NoRedrive s'.history → Ordered s' := by
  cases h with
  | maintain op maintained =>
    intro quiet
    obtain ⟨valid, grown, _⟩ := maintains_spec maintained inv.valid
    exact ⟨fun sequence sinkID member => ((ordered quiet).passed sequence sinkID member).grows
      valid.sound grown, (ordered quiet).increasing⟩
  | redrive faults sinkName source id at_ =>
    intro quiet
    by_cases exec : faults.exec = none
    · rw [redriveEntry, if_pos exec] at quiet
      exact absurd List.mem_cons_self (quiet _)
    · rw [redriveEntry, if_neg exec] at quiet ⊢
      rw [(redriveDelivery_spec faults sinkName source id at_ inv.valid).refused exec]
      exact ⟨(ordered quiet).passed, (ordered quiet).increasing⟩
  | select now item idle next =>
    intro quiet
    have before := ordered (fun keys member => quiet keys (List.mem_cons_of_mem _ member))
    refine ⟨fun sequence sinkID member => ?_, before.increasing⟩
    rcases List.mem_cons.mp member with new | old
    · contradiction
    · exact before.passed sequence sinkID old
  | answer item result phase =>
    intro quiet
    exact ⟨(ordered quiet).passed, (ordered quiet).increasing⟩
  | record config item result now faults mark t _ phase _ outcome =>
    subst outcome
    intro quiet
    have before : NoRedrive s.history := fun keys member => quiet keys (List.mem_append_right _ member)
    exact (ordered before).record inv before phase mark faults
  | stop =>
    intro quiet
    exact ⟨(ordered quiet).passed, (ordered quiet).increasing⟩

theorem system_ordered {configs : Config → Prop} {s : State} (h : (system configs).Reachable s)
    (quiet : NoRedrive s.history) : Ordered s := by
  refine (system configs).invariant (fun s => NoRedrive s.history → Ordered s) ?_ ?_ h quiet
  · rintro _ rfl _
    exact ⟨nofun, fun _ => .nil⟩
  · exact fun s s' reachable => step_ordered (system_inv reachable)

theorem per_sink_order {configs : Config → Prop} {s : State} (reachable : (system configs).Reachable s) :
    (∀ item result, s.phase = .answered item result → ∀ mark faults,
      (Operation.exec (Mark.operation faults item mark) s.tables).error = none →
      ∀ d ∈ (Operation.exec (Mark.operation faults item mark) s.tables).tables.deliveries,
        d.sinkID = item.sinkID → d.eventSequence < item.eventSequence → d.state.waiting = true →
        d.key ∈ redrivenSince item s.history) ∧
    (NoRedrive s.history → ∀ sinkID, (finishedOf sinkID s.history).reverse.Pairwise (· < ·)) := by
  have inv := system_inv reachable
  constructor
  · intro item result phase mark faults succeeded d' hd' sink before waiting
    have held := inv.held item (by rw [phase]; rfl)
    obtain ⟨f, judge, same, _, _, updated⟩ := mark_spec mark faults item inv.valid
    rw [updated.executed (updated.judged succeeded).1] at hd'
    obtain ⟨d, hd, rfl⟩ := Rows.mem_update.mp hd'
    by_cases target : unchanged item d = true
    · rw [if_pos target] at before
      have sequence := congrArg Prod.fst ((same d).trans (unchanged_iff.mp target).1)
      simp only at sequence
      omega
    · rw [if_neg target] at sink before waiting ⊢
      exact held.older d hd sink before waiting
  · intro quiet sinkID
    exact List.pairwise_reverse.mpr ((system_ordered reachable quiet).increasing sinkID)

def sampleAnswer : AttemptResult := ⟨true, false, 0, 200, ""⟩

def sampleAnswered : State :=
  ⟨runAll captured .empty, .answered sampleItem sampleAnswer, [.selected sampleItem]⟩

theorem sampleAnswered_reachable (configs : Config → Prop) :
    (system configs).Reachable sampleAnswered := by
  have start := (system configs).reachable_init (s := State.initial) rfl
  have configured := start.step (.maintain sampleConfigure rfl)
  have stored := configured.step (.maintain samplePersist rfl)
  have selected := stored.step (.select 5 sampleItem rfl captured_next)
  exact selected.step (.answer sampleItem sampleAnswer rfl)

def sampleConfig : Config := ⟨1000000000, 60000000000, 2⟩

def refusal : AttemptResult := ⟨false, true, 0, 503, "webhook returned HTTP 503"⟩

def retriedItem : Delivery := { sampleItem with attempts := 1 }

def retried : List Operation := captured ++ [secondPersist,
  .failed ⟨none, none⟩ sampleItem 1 false 1000000005 (bytes refusal.failure) 503 5]

def exhausted : List Operation := retried ++
  [.failed ⟨none, none⟩ retriedItem 2 true 2000000000 (bytes refusal.failure) 503 2000000000]

def secondSent : State where
  tables := runAll exhausted .empty
  phase := .answered secondItem sampleAnswer
  history := [.selected secondItem, .finished 1 1, .selected retriedItem, .selected sampleItem]

theorem recorded_state {configs : Config → Prop} {t : Tables} {item : Delivery} {history : List Entry}
    (known : configs sampleConfig) (result : AttemptResult) (now : Instant) (mark : Mark)
    (entries : List Entry)
    (reachable : (system configs).Reachable ⟨t, .answered item result, history⟩)
    (marked : mark = recordAttempt sampleConfig item result now)
    (entered : finishedEntry ⟨none, none⟩ t mark item = entries) :
    (system configs).Reachable
      ⟨((mark.operation ⟨none, none⟩ item).exec t).tables, .idle, entries ++ history⟩ := by
  subst entered
  exact reachable.step (.record sampleConfig item result now ⟨none, none⟩ mark _ known rfl marked rfl)

theorem secondSent_reachable {configs : Config → Prop} (known : configs sampleConfig) :
    (system configs).Reachable secondSent := by
  have start := (system configs).reachable_init (s := State.initial) rfl
  have configured := start.step (.maintain sampleConfigure rfl)
  have stored := (configured.step (.maintain samplePersist rfl)).step (.maintain secondPersist rfl)
  have first := stored.step (.select 5 sampleItem rfl (by decide +kernel))
  have waits := recorded_state known refusal 5
    (.failed 1 false 1000000005 (bytes refusal.failure) 503 5) []
    (first.step (.answer sampleItem refusal rfl)) (by decide +kernel) (by decide +kernel)
  have again := waits.step (.select 2000000000 retriedItem rfl (by decide +kernel))
  have fails := recorded_state known refusal 2000000000
    (.failed 2 true 2000000000 (bytes refusal.failure) 503 2000000000) [.finished 1 1]
    (again.step (.answer retriedItem refusal rfl)) (by decide +kernel) (by decide +kernel)
  have second := fails.step (.select 2000000000 secondItem rfl (by decide +kernel))
  exact second.step (.answer secondItem sampleAnswer rfl)

/-- The first event is redriven while the second is on its way. -/
def redrivenMeanwhile : State where
  tables := (redriveDelivery ⟨none, none⟩ "audit" "/orders" "1" 3000000000 secondSent.tables).tables
  phase := secondSent.phase
  history := redriveEntry ⟨none, none⟩ secondSent.tables "audit" "/orders" "1" ++ secondSent.history

def secondMarked : Outcome :=
  Operation.exec (Mark.operation ⟨none, none⟩ secondItem (.delivered 1 200 5)) redrivenMeanwhile.tables

theorem per_sink_order_redriven :
    secondMarked.error = none ∧
      secondMarked.tables.deliveries.map (fun d => (d.eventSequence, d.state)) =
        [(1, .retryWait), (2, .delivered)] ∧
      ∀ d ∈ secondMarked.tables.deliveries, d.sinkID = 1 → d.eventSequence < 2 →
        d.state.waiting = true → d.key ∈ redrivenSince secondItem redrivenMeanwhile.history := by
  have succeeded : secondMarked.error = none := by decide +kernel
  have reachable := (@secondSent_reachable (fun _ => True) trivial).step
    (.redrive ⟨none, none⟩ "audit" "/orders" "1" 3000000000)
  exact ⟨succeeded, by decide +kernel, (per_sink_order reachable).1 secondItem sampleAnswer rfl
    (.delivered 1 200 5) ⟨none, none⟩ succeeded⟩

end WriteRelay.Worker
