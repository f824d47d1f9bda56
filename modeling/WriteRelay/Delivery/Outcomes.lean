import WriteRelay.Delivery.Order

/-! Recording outcomes: a Mark of the worker's item always finds its row, a second Mark of
it never does, and what the columns of a delivery row say together. -/
namespace WriteRelay.Worker
open Clock Spool Runs

def Mark.row : Mark → DeliveryRow → DeliveryRow
  | .delivered attempt status at_ => deliveredRow attempt status at_
  | .failed attempt permanent retryAt failure status at_ =>
    failedRow attempt permanent retryAt failure status at_

def Mark.name : Mark → String
  | .delivered .. => "mark delivered"
  | .failed .. => "mark failed"

theorem Mark.row_key (mark : Mark) (d : DeliveryRow) : (mark.row d).key = d.key := by
  cases mark <;> rfl

section Mark

variable {t : Tables} (valid : t.Valid) (mark : Mark) (item : Delivery)
include valid

theorem mark_updated (faults : UpdateFaults) : Updated faults t (unchanged item) mark.row
    (expectOneDeliveryUpdate mark.name) ((mark.operation faults item).exec t) := by
  cases mark with
  | delivered attempt status at_ => exact markDelivered_spec faults item attempt status at_ valid
  | failed attempt permanent retryAt failure status at_ =>
    exact markFailed_spec faults item attempt permanent retryAt failure status at_ valid

theorem mark_unfaulted : ((mark.operation ⟨none, none⟩ item).exec t).error =
    expectOneDeliveryUpdate mark.name (t.deliveries.countP (unchanged item)) := by
  have served : ∀ d ∈ t.deliveries, unchanged item d = true → t.Active d.sinkID :=
    unchanged_served valid.sound
  obtain ⟨executed, _⟩ := valid.sound.updateDeliveries mark.row_key unchanged_open
    (fun d hd matched _ => served d hd matched)
  cases mark with
  | delivered =>
    simp only [Mark.row] at executed
    simp only [Mark.operation, Operation.exec, markDelivered, execUpdate, executed, Mark.name]
  | failed =>
    simp only [Mark.row] at executed
    simp only [Mark.operation, Operation.exec, markFailed, execUpdate, executed, Mark.name]

end Mark

theorem Held.count {t : Tables} {history : List Entry} {item : Delivery} (held : Held t history item)
    (sound : t.Sound) : t.deliveries.countP (unchanged item) = 1 := by
  obtain ⟨d, hd, key, waiting, attempts⟩ := held.row
  have only := Rows.filter_key sound.keys hd (unchanged_iff.mpr ⟨key, attempts, waiting⟩)
    (fun r _ matched => (unchanged_iff.mp matched).1.trans key.symm)
  rw [List.countP_eq_length_filter, only, List.length_singleton]

/-- How a row that is there after a step came about. -/
inductive RowChange (configs : Config → Prop) (s s' : State) (d' : DeliveryRow) : Prop
  | kept : d' ∈ s.tables.deliveries → RowChange configs s s' d'
  | added (at_ : Instant) : d'.key ∉ s.tables.deliveries.map (·.key) →
      d' = pendingDelivery d'.eventSequence d'.sinkID (formatTimestamp at_) →
      RowChange configs s s' d'
  | redriven (d : DeliveryRow) (at_ : Instant) (keys : List (Nat × Nat)) :
      d ∈ s.tables.deliveries → d.state = .deadLetter → d' = redrivenRow at_ d →
      s'.history = .redriven keys :: s.history → d.key ∈ keys → RowChange configs s s' d'
  | recorded (config : Config) (item : Delivery) (result : AttemptResult) (now : Instant)
      (d : DeliveryRow) : configs config → s.phase = .answered item result →
      d ∈ s.tables.deliveries → unchanged item d = true →
      d' = (recordAttempt config item result now).row d → RowChange configs s s' d'

section Steps

variable {configs : Config → Prop}

theorem Step.rows {s s' : State} (inv : Inv s) (h : Step configs s s') {d' : DeliveryRow}
    (hd' : d' ∈ s'.tables.deliveries) : RowChange configs s s' d' := by
  cases h with
  | maintain op maintained =>
    obtain ⟨valid, grown, _⟩ := maintains_spec maintained inv.valid
    rcases grown.added d' hd' with old | ⟨⟨at_, _, pending⟩, _⟩
    · exact .kept old
    · by_cases known : d'.key ∈ s.tables.deliveries.map (·.key)
      · obtain ⟨d, hd, same⟩ := List.mem_map.mp known
        rw [← Rows.key_unique valid.sound.keys (grown.kept d hd) hd' same]
        exact .kept hd
      · exact .added at_ known pending
  | redrive faults sinkName source id at_ =>
    have updated := redriveDelivery_spec faults sinkName source id at_ inv.valid
    by_cases exec : faults.exec = none
    · rw [updated.executed exec] at hd'
      obtain ⟨d, hd, rfl⟩ := Rows.mem_update.mp hd'
      by_cases target : redriveTarget s.tables sinkName source id d = true
      · rw [if_pos target]
        have dead : d.state = .deadLetter := by
          simp only [redriveTarget, decide_eq_true_eq] at target
          exact target.1
        refine .redriven d at_ _ hd dead rfl (by rw [redriveEntry, if_pos exec]; rfl) ?_
        exact List.mem_map_of_mem (List.mem_filter.mpr ⟨hd, target⟩)
      · rw [if_neg target]
        exact .kept hd
    · rw [updated.refused exec] at hd'
      exact .kept hd'
  | select | answer | stop => exact .kept hd'
  | record config item result now faults mark t known phase same outcome =>
    subst outcome same
    have updated := mark_updated inv.valid (recordAttempt config item result now) item faults
    by_cases exec : faults.exec = none
    · rw [updated.executed exec] at hd'
      obtain ⟨d, hd, rfl⟩ := Rows.mem_update.mp hd'
      by_cases target : unchanged item d = true
      · rw [if_pos target]
        exact .recorded config item result now d known phase hd target rfl
      · rw [if_neg target]
        exact .kept hd
    · rw [updated.refused exec] at hd'
      exact .kept hd'

theorem Step.history {s s' : State} (h : Step configs s s') :
    ∃ new, s'.history = new ++ s.history := by
  cases h with
  | maintain | answer | stop => exact ⟨[], rfl⟩
  | redrive => exact ⟨_, rfl⟩
  | select now item => exact ⟨[.selected item], rfl⟩
  | record => exact ⟨_, rfl⟩

theorem steps_history {s s' : State} (run : (system configs).Steps s s') :
    ∃ new, s'.history = new ++ s.history := by
  induction run with
  | refl => exact ⟨[], rfl⟩
  | tail _ next ih =>
    obtain ⟨new, before⟩ := ih
    obtain ⟨newer, after⟩ := next.history
    exact ⟨newer ++ new, by rw [after, before, List.append_assoc]⟩

theorem recordAttempt_attempts (config : Config) (item : Delivery) (result : AttemptResult)
    (now : Instant) (d : DeliveryRow) :
    ((recordAttempt config item result now).row d).attempts = item.attempts + 1 := by
  unfold recordAttempt
  split <;> rfl

/-- The item's row has moved on: no Mark of this item can match it. -/
structure Spent (t : Tables) (item : Delivery) : Prop where
  present : (item.eventSequence, item.sinkID) ∈ t.deliveries.map (·.key)
  past : ∀ d ∈ t.deliveries, d.key = (item.eventSequence, item.sinkID) → d.state.waiting = true →
    item.attempts < d.attempts

theorem Spent.refuses {t : Tables} {item : Delivery} (spent : Spent t item) (valid : t.Valid)
    (mark : Mark) (faults : UpdateFaults) : ((mark.operation faults item).exec t).tables = t ∧
      ((mark.operation faults item).exec t).error ≠ none := by
  have updated := mark_updated valid mark item faults
  have unmatched : ∀ d ∈ t.deliveries, unchanged item d = false := by
    intro d hd
    by_contra matched
    obtain ⟨key, attempts, waiting⟩ := unchanged_iff.mp (by simpa using matched)
    have := spent.past d hd key waiting
    omega
  constructor
  · by_cases exec : faults.exec = none
    · rw [updated.executed exec, Rows.update_of_none unmatched]
    · exact updated.refused exec
  · intro clean
    have none_ : t.deliveries.countP (unchanged item) = 0 :=
      List.countP_eq_zero.mpr fun d hd => by simp [unmatched d hd]
    have judged := (updated.judged clean).2
    rw [none_] at judged
    contradiction

theorem Held.spent {t : Tables} {history : List Entry} {item : Delivery} (held : Held t history item)
    (valid : t.Valid) {config : Config} {result : AttemptResult} {now : Instant} {faults : UpdateFaults}
    (exec : faults.exec = none) :
    Spent (((recordAttempt config item result now).operation faults item).exec t).tables item := by
  have updated := mark_updated valid (recordAttempt config item result now) item faults
  obtain ⟨row, hrow, key, waiting, attempts⟩ := held.row
  rw [updated.executed exec]
  constructor
  · rw [Rows.map_update_of_invariant _ (Mark.row_key _)]
    exact List.mem_map.mpr ⟨row, hrow, key⟩
  · intro d' hd' key' waiting'
    obtain ⟨d, hd, rfl⟩ := Rows.mem_update.mp hd'
    by_cases target : unchanged item d = true
    · rw [if_pos target, recordAttempt_attempts]
      exact Nat.lt_succ_self _
    · rw [if_neg target] at key' waiting'
      have same : d = row := Rows.key_unique valid.sound.keys hd hrow (key'.trans key.symm)
      subst same
      exact absurd (unchanged_iff.mpr ⟨key, attempts, waiting⟩) target

def Unredriven (key : Nat × Nat) (entries : List Entry) : Prop :=
  ∀ keys, .redriven keys ∈ entries → key ∉ keys

theorem Step.spent {s s' : State} (inv : Inv s) (h : Step configs s s') {item : Delivery}
    (spent : Spent s.tables item) {new : List Entry} (grown : s'.history = new ++ s.history)
    (quiet : Unredriven (item.eventSequence, item.sinkID) new) : Spent s'.tables item := by
  have extended := h.extends inv
  constructor
  · obtain ⟨d, hd, key⟩ := List.mem_map.mp spent.present
    rw [← key]
    exact extended.deliveries d hd
  · intro d' hd' key waiting
    cases h.rows inv hd' with
    | kept old => exact spent.past d' old key waiting
    | added at_ fresh _ => exact absurd (key ▸ spent.present) fresh
    | redriven d at_ keys hd dead changed entry member =>
      have same : new = [.redriven keys] := List.append_cancel_right (grown.symm.trans entry)
      subst changed same
      exact absurd (key ▸ member) (quiet keys (List.mem_singleton_self _))
    | recorded config item' result now d known phase hd target changed =>
      subst changed
      rw [Mark.row_key] at key
      obtain ⟨_, attempts, waiting'⟩ := unchanged_iff.mp target
      rw [recordAttempt_attempts, ← attempts]
      exact (spent.past d hd key waiting').trans (Nat.lt_succ_self _)

theorem steps_spent {s s' : State} (reachable : (system configs).Reachable s)
    (run : (system configs).Steps s s') {item : Delivery} (spent : Spent s.tables item)
    {new : List Entry} (grown : s'.history = new ++ s.history)
    (quiet : Unredriven (item.eventSequence, item.sinkID) new) : Spent s'.tables item := by
  induction run generalizing new with
  | refl => exact spent
  | @tail m _ before next ih =>
    obtain ⟨old, earlier⟩ := steps_history before
    obtain ⟨newer, later⟩ := next.history
    have parts : new = newer ++ old :=
      List.append_cancel_right (grown.symm.trans (by rw [later, earlier, List.append_assoc]))
    subst parts
    have held := ih earlier (fun keys member => quiet keys (List.mem_append_right _ member))
    exact next.spent (system_inv (reachable.steps before)) held later
      (fun keys member => quiet keys (List.mem_append_left _ member))

end Steps

def State.record (s : State) (faults : UpdateFaults) (mark : Mark) (item : Delivery) : State :=
  ⟨((mark.operation faults item).exec s.tables).tables, .idle,
    finishedEntry faults s.tables mark item ++ s.history⟩

theorem mark_never_races {configs : Config → Prop} {s : State}
    (reachable : (system configs).Reachable s) {item : Delivery} (held : s.phase.item = some item) :
    s.tables.deliveries.countP (unchanged item) = 1 ∧
    (∀ mark faults failure, (Operation.exec (Mark.operation faults item mark) s.tables).error =
      some failure → faults.exec ≠ none ∨ faults.rowsAffected ≠ none) ∧
    ∀ config result now faults, configs config → s.phase = .answered item result →
      faults.exec = none → ∀ s', (system configs).Steps
        (s.record faults (recordAttempt config item result now) item) s' →
      ∀ new, s'.history =
          new ++ (s.record faults (recordAttempt config item result now) item).history →
        Unredriven (item.eventSequence, item.sinkID) new → ∀ again faults',
        (Operation.exec (Mark.operation faults' item again) s'.tables).tables = s'.tables ∧
          (Operation.exec (Mark.operation faults' item again) s'.tables).error ≠ none := by
  have inv := system_inv reachable
  have row := inv.held item held
  have one := row.count inv.valid.sound
  refine ⟨one, ?_, ?_⟩
  · rintro mark ⟨exec, rowsAffected⟩ failure failed
    by_contra clean
    simp only [ne_eq, not_or, not_not] at clean
    obtain ⟨rfl, rfl⟩ := clean
    rw [mark_unfaulted inv.valid, one] at failed
    contradiction
  · intro config result now faults known phase exec s' run new grown quiet again faults'
    have next : (system configs).step s (s.record faults (recordAttempt config item result now) item) :=
      Step.record config item result now faults _ _ known phase rfl rfl
    have after := reachable.step next
    have spent := steps_spent after run (row.spent inv.valid exec) grown quiet
    exact spent.refuses (system_inv (after.steps run)).valid again faults'

def sampleRecorded : State :=
  sampleAnswered.record ⟨none, none⟩ (recordAttempt sampleConfig sampleItem sampleAnswer 5) sampleItem

theorem mark_never_races_sample :
    sampleAnswered.tables.deliveries.countP (unchanged sampleItem) = 1 ∧
      ((Mark.operation ⟨none, none⟩ sampleItem (.delivered 1 200 6)).exec
        sampleRecorded.tables).tables = sampleRecorded.tables ∧
      ((Mark.operation ⟨none, none⟩ sampleItem (.delivered 1 200 6)).exec
        sampleRecorded.tables).error ≠ none := by
  obtain ⟨one, _, repeated⟩ := mark_never_races (sampleAnswered_reachable (fun _ => True))
    (show sampleAnswered.phase.item = some sampleItem from rfl)
  exact ⟨one, repeated sampleConfig sampleAnswer 5 ⟨none, none⟩ trivial rfl rfl sampleRecorded .refl
    [] rfl nofun (.delivered 1 200 6) ⟨none, none⟩⟩

/-- What the columns of a row say together, by its state. -/
def WellFormed (d : DeliveryRow) : Prop :=
  match d.state with
  | .pending => d.attempts = 0 ∧ d.lastAttemptAt = none ∧ d.deliveredAt = none ∧
      d.deadLetteredAt = none ∧ d.lastError = none ∧ d.responseStatus = none
  | .retryWait => d.deliveredAt = none ∧ d.deadLetteredAt = none ∧
      (d.attempts = 0 ∧ d.lastAttemptAt = none ∨ 1 ≤ d.attempts ∧ d.lastAttemptAt ≠ none)
  | .delivered => 1 ≤ d.attempts ∧ d.deliveredAt = d.lastAttemptAt ∧ d.deliveredAt ≠ none ∧
      d.deadLetteredAt = none ∧ d.lastError = none
  | .deadLetter => 1 ≤ d.attempts ∧ d.deadLetteredAt = d.lastAttemptAt ∧ d.deadLetteredAt ≠ none ∧
      d.deliveredAt = none ∧ d.lastError ≠ none

/-- The worker with the number of outcomes recorded for every row since the row was inserted
or last redriven. -/
structure Counted where
  state : State
  outcomes : Nat × Nat → Nat

inductive CountedStep (configs : Config → Prop) (c : Counted) : Counted → Prop
  | record (config : Config) (item : Delivery) (result : AttemptResult) (now : Instant)
      (faults : UpdateFaults) : configs config → c.state.phase = .answered item result →
      CountedStep configs c ⟨c.state.record faults (recordAttempt config item result now) item,
        fun key => if faults.exec = none ∧
            c.state.tables.deliveries.any (fun d => unchanged item d ∧ d.key = key) then
          c.outcomes key + 1 else c.outcomes key⟩
  | redrive (faults : UpdateFaults) (sinkName source id : String) (at_ : Instant) :
      CountedStep configs c ⟨{ c.state with
        tables := (redriveDelivery faults sinkName source id at_ c.state.tables).tables
        history := redriveEntry faults c.state.tables sinkName source id ++ c.state.history },
        fun key => if faults.exec = none ∧ c.state.tables.deliveries.any (fun d =>
            redriveTarget c.state.tables sinkName source id d ∧ d.key = key) then 0
          else c.outcomes key⟩
  | other (s' : State) : Step configs c.state s' →
      (∀ d ∈ c.state.tables.deliveries, d ∈ s'.tables.deliveries) →
      CountedStep configs c ⟨s', c.outcomes⟩

def counted (configs : Config → Prop) : System Counted where
  init c := c = ⟨.initial, fun _ => 0⟩
  step := CountedStep configs

section Counted

variable {configs : Config → Prop}

theorem CountedStep.step {c c' : Counted} (h : CountedStep configs c c') :
    Step configs c.state c'.state := by
  cases h with
  | record config item result now faults known phase =>
    exact .record config item result now faults _ _ known phase rfl rfl
  | redrive faults sinkName source id at_ => exact .redrive faults sinkName source id at_
  | other s' h => exact h

theorem Step.counted {c : Counted} (inv : Inv c.state) {s' : State} (h : Step configs c.state s') :
    ∃ outcomes, CountedStep configs c ⟨s', outcomes⟩ := by
  cases h with
  | maintain op maintained =>
    exact ⟨_, .other _ (.maintain op maintained)
      (maintains_spec maintained inv.valid).2.1.kept⟩
  | redrive faults sinkName source id at_ => exact ⟨_, .redrive faults sinkName source id at_⟩
  | select now item idle next => exact ⟨_, .other _ (.select now item idle next) (fun _ hd => hd)⟩
  | answer item result phase => exact ⟨_, .other _ (.answer item result phase) (fun _ hd => hd)⟩
  | stop => exact ⟨_, .other _ .stop (fun _ hd => hd)⟩
  | record config item result now faults mark t known phase same outcome =>
    subst outcome same
    exact ⟨_, .record config item result now faults known phase⟩

structure Tallied (t : Tables) (outcomes : Nat × Nat → Nat) : Prop where
  rows : ∀ d ∈ t.deliveries, outcomes d.key = d.attempts
  unknown : ∀ key ∉ t.deliveries.map (·.key), outcomes key = 0

theorem any_key {t : Tables} (sound : t.Sound) (p : DeliveryRow → Bool) {d : DeliveryRow}
    (hd : d ∈ t.deliveries) : t.deliveries.any (fun r => p r ∧ r.key = d.key) = p d := by
  cases target : p d with
  | true => exact List.any_eq_true.mpr ⟨d, hd, by simp [target]⟩
  | false =>
    refine List.any_eq_false.mpr fun r hr matched => ?_
    obtain ⟨hit, same⟩ := of_decide_eq_true matched
    rw [Rows.key_unique sound.keys hr hd same, target] at hit
    contradiction

theorem any_unknown {t : Tables} (p : DeliveryRow → Bool) {key : Nat × Nat}
    (unknown : key ∉ t.deliveries.map (·.key)) :
    t.deliveries.any (fun r => p r ∧ r.key = key) = false := by
  refine List.any_eq_false.mpr fun r hr matched => ?_
  exact unknown (List.mem_map.mpr ⟨r, hr, (of_decide_eq_true matched).2⟩)

theorem Tallied.update {t : Tables} {outcomes : Nat × Nat → Nat} (before : Tallied t outcomes)
    (sound : t.Sound) {p : DeliveryRow → Bool} {f : DeliveryRow → DeliveryRow} (g : Nat → Nat)
    (same : ∀ d, (f d).key = d.key) (moved : ∀ d, p d = true → (f d).attempts = g d.attempts) :
    Tallied { t with deliveries := Rows.update p f t.deliveries } (fun key =>
      if t.deliveries.any (fun r => p r ∧ r.key = key) then g (outcomes key) else outcomes key) := by
  constructor
  · intro d' hd'
    obtain ⟨d, hd, rfl⟩ := Rows.mem_update.mp hd'
    cases target : p d with
    | true => simp only [if_true, same, any_key sound p hd, target, before.rows d hd, moved d target]
    | false => simp only [Bool.false_eq_true, if_false, any_key sound p hd, target, before.rows d hd]
  · intro key unknown
    rw [Rows.map_update_of_invariant _ same] at unknown
    simp only [any_unknown p unknown, Bool.false_eq_true, if_false, before.unknown key unknown]

theorem CountedStep.tallied {c c' : Counted} (inv : Inv c.state) (h : CountedStep configs c c')
    (before : Tallied c.state.tables c.outcomes) : Tallied c'.state.tables c'.outcomes := by
  have sound := inv.valid.sound
  cases h with
  | record config item result now faults known phase =>
    have updated := mark_updated inv.valid (recordAttempt config item result now) item faults
    by_cases exec : faults.exec = none
    · simp only [State.record, updated.executed exec, exec, true_and]
      refine before.update sound (· + 1) (Mark.row_key _) fun d target => ?_
      rw [recordAttempt_attempts, (unchanged_iff.mp target).2.1]
    · simpa only [State.record, updated.refused exec, exec, false_and, if_false] using before
  | redrive faults sinkName source id at_ =>
    have updated := redriveDelivery_spec faults sinkName source id at_ inv.valid
    by_cases exec : faults.exec = none
    · simp only [updated.executed exec, exec, true_and]
      exact before.update sound (fun _ => 0) (fun _ => rfl) (fun _ _ => rfl)
    · simpa only [updated.refused exec, exec, false_and, if_false] using before
  | other s' step kept =>
    -- the other steps keep every row, so a changed one would share its key with a kept one
    have after := step_inv inv step
    constructor
    · intro d' hd'
      cases step.rows inv hd' with
      | kept old => exact before.rows d' old
      | added at_ fresh pending =>
        have none_ := before.unknown _ fresh
        rw [none_, pending]
        rfl
      | redriven d at_ keys hd dead changed =>
        subst changed
        have same := Rows.key_unique after.valid.sound.keys (kept d hd) hd' rfl
        rw [same] at dead
        contradiction
      | recorded config item result now d known phase hd target changed =>
        subst changed
        have same := Rows.key_unique after.valid.sound.keys (kept d hd) hd' (Mark.row_key _ d).symm
        have more := congrArg DeliveryRow.attempts same
        rw [recordAttempt_attempts, (unchanged_iff.mp target).2.1] at more
        omega
    · intro key unknown
      apply before.unknown
      intro known
      obtain ⟨d, hd, rfl⟩ := List.mem_map.mp known
      exact unknown (List.mem_map_of_mem (kept d hd))

theorem counted_reachable {c : Counted} (h : (counted configs).Reachable c) :
    (system configs).Reachable c.state := by
  refine (counted configs).invariant (fun c => (system configs).Reachable c.state) ?_ ?_ h
  · rintro _ rfl
    exact (system configs).reachable_init rfl
  · exact fun c c' _ reachable next => reachable.step next.step

theorem reachable_counted {s : State} (h : (system configs).Reachable s) :
    ∃ outcomes, (counted configs).Reachable ⟨s, outcomes⟩ := by
  refine (system configs).invariant (fun s => ∃ outcomes, (counted configs).Reachable ⟨s, outcomes⟩)
    ?_ ?_ h
  · rintro _ rfl
    exact ⟨_, (counted configs).reachable_init rfl⟩
  · rintro s s' reachable ⟨outcomes, before⟩ next
    obtain ⟨outcomes', step⟩ := Step.counted (c := ⟨s, outcomes⟩) (system_inv reachable) next
    exact ⟨outcomes', before.step step⟩

theorem counted_tallied {c : Counted} (h : (counted configs).Reachable c) :
    Tallied c.state.tables c.outcomes := by
  refine (counted configs).invariant (fun c => Tallied c.state.tables c.outcomes) ?_ ?_ h
  · rintro _ rfl
    exact ⟨nofun, fun _ _ => rfl⟩
  · exact fun c c' reachable before next =>
      next.tallied (system_inv (counted_reachable reachable)) before

end Counted

section Rows

variable {maxAttempts : Int}

structure Within (maxAttempts : Int) (d : DeliveryRow) : Prop where
  formed : WellFormed d
  attempts : d.attempts ≤ maxAttempts
  waiting : d.state.waiting = true → d.attempts < maxAttempts

theorem recordAttempt_cases (config : Config) (item : Delivery) (result : AttemptResult)
    (now : Instant) :
    (∃ status, recordAttempt config item result now = .delivered (item.attempts + 1) status now) ∨
      ∃ permanent retryAt failure status, recordAttempt config item result now =
          .failed (item.attempts + 1) permanent retryAt failure status now ∧
        (permanent = false → (item.attempts + 1 : Nat) < config.maxAttempts) := by
  unfold recordAttempt
  split
  · exact .inl ⟨_, rfl⟩
  · refine .inr ⟨_, _, _, _, rfl, fun retried => ?_⟩
    simp only [Bool.or_eq_false_iff, decide_eq_false_iff_not, not_le] at retried
    exact retried.2

theorem within_recorded {config : Config} (fixed : config.maxAttempts = maxAttempts) {item : Delivery}
    {d : DeliveryRow} (target : unchanged item d = true) (before : Within maxAttempts d)
    (result : AttemptResult) (now : Instant) :
    Within maxAttempts ((recordAttempt config item result now).row d) := by
  obtain ⟨_, attempts, waiting⟩ := unchanged_iff.mp target
  have room := before.waiting waiting
  have spent : ((item.attempts + 1 : Nat) : Int) ≤ maxAttempts := by omega
  rcases recordAttempt_cases config item result now with
    ⟨status, recorded⟩ | ⟨permanent, retryAt, failure, status, recorded, retried⟩
  · rw [recorded]
    exact ⟨by simp [WellFormed, Mark.row, deliveredRow], spent, nofun⟩
  · rw [recorded]
    cases permanent with
    | true => exact ⟨by simp [WellFormed, Mark.row, failedRow], spent, nofun⟩
    | false =>
      exact ⟨by simp [WellFormed, Mark.row, failedRow], spent, fun _ => fixed ▸ retried rfl⟩

theorem within_unattempted (positive : 1 ≤ maxAttempts) {d : DeliveryRow} (formed : WellFormed d)
    (none_ : d.attempts = 0) : Within maxAttempts d :=
  ⟨formed, by omega, fun _ => by omega⟩

theorem step_within {configs : Config → Prop} (fixed : ∀ c, configs c → c.maxAttempts = maxAttempts)
    (positive : 1 ≤ maxAttempts) {s s' : State} (inv : Inv s) (h : Step configs s s')
    (before : ∀ d ∈ s.tables.deliveries, Within maxAttempts d) :
    ∀ d ∈ s'.tables.deliveries, Within maxAttempts d := by
  intro d' hd'
  cases h.rows inv hd' with
  | kept old => exact before d' old
  | added at_ _ pending =>
    rw [pending]
    exact within_unattempted positive (by simp [WellFormed, pendingDelivery]) rfl
  | redriven d at_ keys hd dead changed =>
    subst changed
    exact within_unattempted positive (by simp [WellFormed, redrivenRow]) rfl
  | recorded config item result now d known phase hd target changed =>
    subst changed
    exact within_recorded (fixed config known) target (before d hd) result now

theorem system_within {configs : Config → Prop} (fixed : ∀ c, configs c → c.maxAttempts = maxAttempts)
    (positive : 1 ≤ maxAttempts) {s : State} (h : (system configs).Reachable s) :
    ∀ d ∈ s.tables.deliveries, Within maxAttempts d := by
  refine (system configs).invariant (fun s => ∀ d ∈ s.tables.deliveries, Within maxAttempts d) ?_ ?_ h
  · rintro _ rfl
    exact nofun
  · exact fun s s' reachable before next =>
      step_within fixed positive (system_inv reachable) next before

theorem steps_delivered {configs : Config → Prop} {s s' : State}
    (reachable : (system configs).Reachable s) (run : (system configs).Steps s s') {d : DeliveryRow}
    (hd : d ∈ s.tables.deliveries) (delivered : d.state = .delivered) : d ∈ s'.tables.deliveries := by
  induction run with
  | refl => exact hd
  | @tail m _ before next ih =>
    have inv := system_inv (reachable.steps before)
    obtain ⟨d', hd', key⟩ := List.mem_map.mp ((next.extends inv).deliveries d ih)
    have same : ∀ r ∈ m.tables.deliveries, r.key = d'.key → r = d := fun r hr other =>
      Rows.key_unique inv.valid.sound.keys hr ih (other.trans key)
    cases next.rows inv hd' with
    | kept old => rwa [← same d' old rfl]
    | added at_ fresh _ => exact absurd (key ▸ List.mem_map_of_mem ih) fresh
    | redriven r at_ keys hr dead changed =>
      subst changed
      rw [same r hr rfl, delivered] at dead
      contradiction
    | recorded config item result now r known phase hr target changed =>
      subst changed
      have waiting := (unchanged_iff.mp target).2.2
      rw [same r hr (Mark.row_key _ r).symm, delivered] at waiting
      contradiction

end Rows

theorem delivery_rows_bounded {maxAttempts : Int} (positive : 1 ≤ maxAttempts) {s : State}
    (reachable : (system (fun config => config.maxAttempts = maxAttempts)).Reachable s) :
    (∀ d ∈ s.tables.deliveries, WellFormed d ∧ (d.state.waiting = true → d.attempts < maxAttempts)) ∧
    (∃ outcomes, (counted (fun config => config.maxAttempts = maxAttempts)).Reachable ⟨s, outcomes⟩) ∧
    (∀ outcomes, (counted (fun config => config.maxAttempts = maxAttempts)).Reachable ⟨s, outcomes⟩ →
      ∀ d ∈ s.tables.deliveries, outcomes d.key = d.attempts ∧ outcomes d.key ≤ maxAttempts) ∧
    ∀ s', (system (fun config => config.maxAttempts = maxAttempts)).Steps s s' →
      ∀ d ∈ s.tables.deliveries, d.state = .delivered →
        d ∈ s'.tables.deliveries ∧ ∀ d' ∈ s'.tables.deliveries, d'.key = d.key → d' = d := by
  have rows := system_within (fun _ fixed => fixed) positive reachable
  refine ⟨fun d hd => ⟨(rows d hd).formed, (rows d hd).waiting⟩, reachable_counted reachable, ?_, ?_⟩
  · intro outcomes counted d hd
    have tallied : outcomes d.key = d.attempts := (counted_tallied counted).rows d hd
    rw [tallied]
    exact ⟨rfl, (rows d hd).attempts⟩
  · intro s' run d hd delivered
    have final := steps_delivered reachable run hd delivered
    have keys := (system_inv (reachable.steps run)).valid.sound.keys
    exact ⟨final, fun d' hd' same => Rows.key_unique keys hd' final same⟩

def secondDelivered : State :=
  secondSent.record ⟨none, none⟩ (recordAttempt sampleConfig secondItem sampleAnswer 2000000001) secondItem

/-- The first event is a dead letter after its two attempts. Redriving it leaves the second. -/
theorem delivery_rows_bounded_exhausted :
    secondDelivered.tables.deliveries.map (fun d => (d.state, d.attempts)) =
        [(.deadLetter, 2), (.delivered, 1)] ∧
      (∀ d ∈ secondDelivered.tables.deliveries,
        WellFormed d ∧ (d.state.waiting = true → (d.attempts : Int) < 2)) ∧
      (∃ outcomes, (counted (fun config => config.maxAttempts = 2)).Reachable ⟨secondDelivered, outcomes⟩ ∧
        ∀ d ∈ secondDelivered.tables.deliveries, outcomes d.key = d.attempts ∧ (outcomes d.key : Int) ≤ 2) ∧
      ∀ d ∈ secondDelivered.tables.deliveries, d.state = .delivered →
        d ∈ (redriveDelivery ⟨none, none⟩ "audit" "/orders" "1" 3000000000
          secondDelivered.tables).tables.deliveries := by
  have sent : (system (fun config => config.maxAttempts = 2)).Reachable secondSent :=
    secondSent_reachable rfl
  have reachable : (system (fun config => config.maxAttempts = 2)).Reachable secondDelivered :=
    sent.step (.record sampleConfig secondItem sampleAnswer 2000000001 ⟨none, none⟩ _ _ rfl rfl rfl rfl)
  obtain ⟨formed, ⟨outcomes, counts⟩, tallied, final⟩ := delivery_rows_bounded (by decide) reachable
  refine ⟨by decide +kernel, formed, ⟨outcomes, counts, tallied outcomes counts⟩, fun d hd delivered => ?_⟩
  exact (final _ (.single (.redrive ⟨none, none⟩ "audit" "/orders" "1" 3000000000)) d hd delivered).1

end WriteRelay.Worker
