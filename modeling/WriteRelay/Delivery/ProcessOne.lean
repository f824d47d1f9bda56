import WriteRelay.Delivery.Outcomes
import WriteRelay.Spool.Guarantees

/-! `Worker.ProcessOne` as the source has it, what it does in the worker's transition
system, and that a worker left to itself comes to the end of its queue. -/
namespace WriteRelay.Worker
open Clock Spool Runs

section Model

/-- What `ProcessOne` meets: the query, the clock before it, the sink's answer, whether the
context is done after the answer, the clock then, and the update. -/
structure AttemptEnv (σ : Type) where
  loadFault : Option String
  now : Instant
  answer : σ → Delivery → AttemptResult
  cancelled : Bool
  recordedAt : Instant
  faults : UpdateFaults

def wrapped (text : String) (f : Failure) : Failure := { f with format := text ++ f.format }

def Mark.context : Mark → String
  | .delivered .. => "record successful delivery: "
  | .failed .. => "record failed delivery: "

variable {σ : Type}

/-- The tables afterwards, and whether an attempt was recorded. -/
def processOne (config : Config) (sinks : List (String × σ)) (env : AttemptEnv σ) (t : Tables) :
    Tables × Except Failure Bool :=
  match env.loadFault with
  | some text =>
    (t, .error (wrapped "load next delivery: "
      (wrapf none "query next due delivery: %w" [] (.fault text))))
  | none =>
    match nextDueDelivery t env.now with
    | none => (t, .ok false)
    | some item =>
      match sinks.lookup item.sinkName with
      | none =>
        (t, .error (errorf none "no delivery sink configured for active sink %q" [item.sinkName]))
      | some sink =>
        let result := env.answer sink item
        if env.cancelled ∧ result.success = false then (t, .ok false)
        else
          let mark := recordAttempt config item result env.recordedAt
          let recorded := (mark.operation env.faults item).exec t
          match recorded.error with
          | some e => (recorded.tables, .error (wrapped mark.context e))
          | none => (recorded.tables, .ok true)

/-- The calls of `Run` one after another. -/
def processAll (config : Config) (sinks : List (String × σ)) (envs : Nat → AttemptEnv σ) :
    Nat → Tables → Tables
  | 0, t => t
  | n + 1, t => (processOne config sinks (envs n) (processAll config sinks envs n t)).1

end Model

section Refines

variable {σ : Type} {config : Config} {sinks : List (String × σ)}

inductive Processed (config : Config) (sinks : List (String × σ)) (env : AttemptEnv σ) (t : Tables) :
    Tables × Except Failure Bool → Prop
  | failed (e : Failure) : env.loadFault ≠ none → Processed config sinks env t (t, .error e)
  | empty : nextDueDelivery t env.now = none → Processed config sinks env t (t, .ok false)
  | unknown (item : Delivery) (e : Failure) : nextDueDelivery t env.now = some item →
      sinks.lookup item.sinkName = none → Processed config sinks env t (t, .error e)
  | cancelled (item : Delivery) : nextDueDelivery t env.now = some item → env.cancelled = true →
      Processed config sinks env t (t, .ok false)
  | recorded (item : Delivery) (sink : σ) (r : Except Failure Bool) :
      nextDueDelivery t env.now = some item → sinks.lookup item.sinkName = some sink →
      (r = .ok true ↔ (((recordAttempt config item (env.answer sink item) env.recordedAt).operation
        env.faults item).exec t).error = none) → r ≠ .ok false →
      Processed config sinks env t ((((recordAttempt config item (env.answer sink item)
        env.recordedAt).operation env.faults item).exec t).tables, r)

theorem processOne_processed (config : Config) (sinks : List (String × σ)) (env : AttemptEnv σ)
    (t : Tables) : Processed config sinks env t (processOne config sinks env t) := by
  unfold processOne
  split
  · rename_i text failed
    exact .failed _ (by simp [failed])
  split
  · rename_i none_
    exact .empty none_
  · rename_i item next
    split
    · rename_i missing
      exact .unknown item _ next missing
    · rename_i sink found
      dsimp only
      split
      · rename_i stopped
        exact .cancelled item next stopped.1
      · split
        · rename_i e refused
          exact .recorded item sink _ next found (by simp [refused]) (by simp)
        · rename_i done
          exact .recorded item sink _ next found (by simp [done]) (by simp)

theorem processOne_valid {env : AttemptEnv σ} {t : Tables} (valid : t.Valid) :
    (processOne config sinks env t).1.Valid := by
  have processed := processOne_processed config sinks env t
  generalize processOne config sinks env t = r at processed ⊢
  cases processed with
  | failed | empty | unknown | cancelled => exact valid
  | recorded item => exact (mark_updated valid _ item env.faults).valid

/-- A call is a run of the worker's system that ends where it began, between two items. -/
theorem processOne_steps {configs : Config → Prop} (known : configs config) (env : AttemptEnv σ)
    (t : Tables) (history : List Entry) :
    ∃ history', (system configs).Steps ⟨t, .idle, history⟩
      ⟨(processOne config sinks env t).1, .idle, history'⟩ := by
  have processed := processOne_processed config sinks env t
  generalize processOne config sinks env t = r at processed ⊢
  cases processed with
  | failed | empty | unknown | cancelled => exact ⟨history, .refl⟩
  | recorded item sink _ next =>
    have selected : Step configs ⟨t, .idle, history⟩ ⟨t, .selected item, .selected item :: history⟩ :=
      .select env.now item rfl next
    have answered : Step configs ⟨t, .selected item, .selected item :: history⟩
        ⟨t, .answered item (env.answer sink item), .selected item :: history⟩ :=
      .answer item _ rfl
    exact ⟨_, .tail (.tail (.single selected) answered)
      (.record config item _ env.recordedAt env.faults _ _ known rfl rfl rfl)⟩

end Refines

section Drains

def remaining (maxAttempts : Int) (d : DeliveryRow) : Nat :=
  if d.state.waiting then max 1 (maxAttempts - d.attempts).toNat else 0

def workLeft (maxAttempts : Int) (t : Tables) : Nat :=
  (t.deliveries.map (remaining maxAttempts)).sum

variable {σ : Type} {config : Config} {sinks : List (String × σ)} {env : AttemptEnv σ} {t : Tables}

theorem remaining_pos (maxAttempts : Int) {d : DeliveryRow} (waiting : d.state.waiting = true) :
    0 < remaining maxAttempts d := by
  simp [remaining, waiting]

theorem remaining_recorded {item : Delivery} {d : DeliveryRow} (target : unchanged item d = true)
    (result : AttemptResult) (now : Instant) :
    remaining config.maxAttempts ((recordAttempt config item result now).row d) <
      remaining config.maxAttempts d := by
  obtain ⟨_, attempts, waiting⟩ := unchanged_iff.mp target
  have before : remaining config.maxAttempts d = max 1 (config.maxAttempts - d.attempts).toNat := by
    simp [remaining, waiting]
  rcases recordAttempt_cases config item result now with
    ⟨status, recorded⟩ | ⟨permanent, retryAt, failure, status, recorded, retried⟩
  · have done : ((recordAttempt config item result now).row d).state = .delivered := by
      rw [recorded]
      rfl
    have : remaining config.maxAttempts ((recordAttempt config item result now).row d) = 0 := by
      simp [remaining, done, DeliveryState.waiting]
    omega
  · rw [recorded]
    cases permanent with
    | true =>
      have : remaining config.maxAttempts
          ((Mark.failed (item.attempts + 1) true retryAt failure status now).row d) = 0 := by
        simp [remaining, Mark.row, failedRow, DeliveryState.waiting]
      omega
    | false =>
      have left := retried rfl
      have : remaining config.maxAttempts
          ((Mark.failed (item.attempts + 1) false retryAt failure status now).row d) =
            max 1 (config.maxAttempts - (item.attempts + 1 : Nat)).toNat := by
        simp [remaining, Mark.row, failedRow, DeliveryState.waiting]
      omega

structure AttemptEnv.Calm (env : AttemptEnv σ) : Prop where
  load : env.loadFault = none
  running : env.cancelled = false
  update : env.faults = ⟨none, none⟩

def Served (sinks : List (String × σ)) (t : Tables) : Prop :=
  ∀ k ∈ t.sinks, k.active = true → ∃ sink, sinks.lookup k.sinkName = some sink

def AllDue (t : Tables) (now : Instant) : Prop :=
  ∀ d ∈ t.deliveries, d.state.waiting = true → d.nextAttemptAt ≤ formatTimestamp now

/-- What every call keeps: the tables but for the columns of delivery rows. -/
structure Kept (t t' : Tables) : Prop where
  valid : t'.Valid
  sinks : t'.sinks = t.sinks
  keys : t'.deliveries.map (·.key) = t.deliveries.map (·.key)

theorem processOne_idle (config : Config) (sinks : List (String × σ)) (valid : t.Valid) (calm : env.Calm)
    (none_ : ∀ d ∈ t.deliveries, d.state.waiting = false) :
    processOne config sinks env t = (t, .ok false) := by
  have empty : nextDueDelivery t env.now = none := by
    cases next : nextDueDelivery t env.now with
    | none => rfl
    | some item =>
      obtain ⟨d, hd, _, waiting, _⟩ := (nextDueDelivery_selected valid.sound next).row
      rw [none_ d hd] at waiting
      contradiction
  unfold processOne
  rw [calm.load, empty]

theorem nextDueDelivery_due (sound : t.Sound) {now : Instant} (due : AllDue t now)
    (some_ : ∃ d ∈ t.deliveries, d.state.waiting = true) : ∃ item, nextDueDelivery t now = some item := by
  obtain ⟨d, hd, waiting⟩ := some_
  obtain ⟨k, hk, id, active⟩ := sound.served d hd waiting
  obtain ⟨h, first⟩ := headSequence_isSome hd waiting
  obtain ⟨⟨head, member, key, waiting'⟩, -⟩ := headSequence_eq_some first
  obtain ⟨sequence, sink⟩ := Prod.mk.inj key
  obtain ⟨e, he, same⟩ := sound.ofEvent head member
  have row : dueItem k head e ∈ dueItems t (formatTimestamp now) :=
    mem_dueItems.mpr ⟨k, hk, active, head, member,
      ⟨sink.trans id.symm, by rw [id, first, sequence], due head member waiting'⟩, e, he, same, rfl⟩
  cases next : nextDueDelivery t now with
  | some item => exact ⟨item, rfl⟩
  | none =>
    rw [Rows.least_eq_none.mp next] at row
    contradiction

theorem processOne_works (config : Config) (valid : t.Valid) (calm : env.Calm) (served : Served sinks t)
    (due : AllDue t env.now) (some_ : ∃ d ∈ t.deliveries, d.state.waiting = true) :
    (processOne config sinks env t).2 = .ok true ∧ Kept t (processOne config sinks env t).1 ∧
      workLeft config.maxAttempts (processOne config sinks env t).1 < workLeft config.maxAttempts t := by
  obtain ⟨item, next⟩ := nextDueDelivery_due valid.sound due some_
  have selected := nextDueDelivery_selected valid.sound next
  obtain ⟨k, hk, active, -, name, -⟩ := selected.sink
  obtain ⟨sink, found⟩ := served k hk active
  rw [name] at found
  obtain ⟨d, hd, key, waiting, attempts⟩ := selected.row
  have target : unchanged item d = true := unchanged_iff.mpr ⟨key, attempts, waiting⟩
  have once := (held_of_selected valid.sound next []).count valid.sound
  have updated := mark_updated valid (recordAttempt config item (env.answer sink item) env.recordedAt)
    item env.faults
  have done := mark_unfaulted valid (recordAttempt config item (env.answer sink item) env.recordedAt) item
  rw [once] at done
  have rows := updated.executed (by rw [calm.update])
  have result : processOne config sinks env t = ((((recordAttempt config item (env.answer sink item)
      env.recordedAt).operation env.faults item).exec t).tables, .ok true) := by
    unfold processOne
    rw [calm.load, next]
    dsimp only
    rw [found]
    dsimp only
    rw [if_neg (by simp [calm.running]), calm.update, done]
    rfl
  rw [result]
  refine ⟨rfl, ⟨updated.valid, by rw [rows], ?_⟩, ?_⟩
  · rw [rows]
    exact Rows.map_update_of_invariant _ (Mark.row_key _) _
  · rw [rows]
    exact Rows.sum_update_lt _ (fun d _ matched => remaining_recorded matched _ _) ⟨d, hd, target⟩

theorem workLeft_waiting {maxAttempts : Int} (left : 0 < workLeft maxAttempts t) :
    ∃ d ∈ t.deliveries, d.state.waiting = true := by
  by_contra none_
  have zero : workLeft maxAttempts t = 0 := by
    refine List.sum_eq_zero fun n mem => ?_
    obtain ⟨d, hd, rfl⟩ := List.mem_map.mp mem
    have idle : ¬d.state.waiting = true := fun waiting => none_ ⟨d, hd, waiting⟩
    rw [remaining, if_neg idle]
  omega

theorem workLeft_idle {maxAttempts : Int} (left : workLeft maxAttempts t = 0) :
    ∀ d ∈ t.deliveries, d.state.waiting = false := by
  intro d hd
  by_contra waiting
  have := remaining_pos maxAttempts (Bool.eq_true_of_not_eq_false waiting)
  have := List.le_sum_of_mem (List.mem_map_of_mem (f := remaining maxAttempts) hd)
  simp only [workLeft] at left
  omega

section Run

variable {envs : Nat → AttemptEnv σ} (served : Served sinks t) (calm : ∀ n, (envs n).Calm)
  (due : ∀ n, AllDue (processAll config sinks envs n t) (envs n).now)
include served calm due

theorem processAll_next {n : Nat} (kept : Kept t (processAll config sinks envs n t)) :
    let here := processAll config sinks envs n t
    Kept t (processAll config sinks envs (n + 1) t) ∧
      (workLeft config.maxAttempts here = 0 → processOne config sinks (envs n) here = (here, .ok false)) ∧
      (0 < workLeft config.maxAttempts here → (processOne config sinks (envs n) here).2 = .ok true ∧
        workLeft config.maxAttempts (processAll config sinks envs (n + 1) t) <
          workLeft config.maxAttempts here) := by
  have served' : Served sinks (processAll config sinks envs n t) := by
    unfold Served
    rw [kept.sinks]
    exact served
  have idle (none_ : workLeft config.maxAttempts (processAll config sinks envs n t) = 0) :=
    processOne_idle config sinks kept.valid (calm n) (workLeft_idle none_)
  have works (left : 0 < workLeft config.maxAttempts (processAll config sinks envs n t)) :=
    processOne_works config kept.valid (calm n) served' (due n) (workLeft_waiting left)
  refine ⟨?_, idle, fun left => ⟨(works left).1, (works left).2.2⟩⟩
  rw [processAll]
  rcases Nat.eq_zero_or_pos (workLeft config.maxAttempts (processAll config sinks envs n t)) with
    none_ | left
  · rw [idle none_]
    exact kept
  · obtain ⟨-, kept', -⟩ := works left
    exact ⟨kept'.valid, kept'.sinks.trans kept.sinks, kept'.keys.trans kept.keys⟩

variable (valid : t.Valid)
include valid

theorem processAll_kept (n : Nat) : Kept t (processAll config sinks envs n t) := by
  induction n with
  | zero => exact ⟨valid, rfl, rfl⟩
  | succ n ih => exact (processAll_next served calm due ih).1

theorem processAll_bound (n : Nat)
    (busy : ∀ m < n, 0 < workLeft config.maxAttempts (processAll config sinks envs m t)) :
    workLeft config.maxAttempts (processAll config sinks envs n t) + n ≤
      workLeft config.maxAttempts t := by
  induction n with
  | zero => exact le_rfl
  | succ n ih =>
    have before := ih fun m less => busy m (by omega)
    have kept := processAll_kept served calm due valid n
    have := ((processAll_next served calm due kept).2.2 (busy n (by omega))).2
    omega

theorem processAll_settled {n m : Nat} (later : n ≤ m)
    (done : workLeft config.maxAttempts (processAll config sinks envs n t) = 0) :
    processAll config sinks envs m t = processAll config sinks envs n t := by
  induction m, later using Nat.le_induction with
  | base => rfl
  | succ m _ ih =>
    have kept := processAll_kept served calm due valid m
    rw [← ih] at done
    rw [processAll, (processAll_next served calm due kept).2.1 done, ih]

/-- Each call either records an attempt or finds nothing to do. After at most as many
attempts as the rows have left, every delivery has ended. -/
theorem worker_drains :
    ∃ n ≤ workLeft config.maxAttempts t,
      (∀ m < n, (processOne config sinks (envs m) (processAll config sinks envs m t)).2 = .ok true) ∧
      ∀ m ≥ n, (processOne config sinks (envs m) (processAll config sinks envs m t)).2 = .ok false ∧
        (processAll config sinks envs m t).deliveries.map (·.key) = t.deliveries.map (·.key) ∧
        ∀ d ∈ (processAll config sinks envs m t).deliveries,
          d.state = .delivered ∨ d.state = .deadLetter := by
  -- every call with work left lowers it
  have ends : ∃ n, workLeft config.maxAttempts (processAll config sinks envs n t) = 0 := by
    by_contra never
    have busy := fun n => Nat.pos_of_ne_zero (not_exists.mp never n)
    have := processAll_bound served calm due valid (workLeft config.maxAttempts t + 1) fun m _ => busy m
    omega
  classical
  have first := Nat.find_spec ends
  have before := fun m less => Nat.pos_of_ne_zero (Nat.find_min ends (m := m) less)
  refine ⟨Nat.find ends, ?_, ?_, ?_⟩
  · have := processAll_bound served calm due valid _ before
    omega
  · intro m less
    have kept := processAll_kept served calm due valid m
    exact ((processAll_next served calm due kept).2.2 (before m less)).1
  · intro m later
    have kept := processAll_kept served calm due valid m
    have done := first
    rw [← processAll_settled served calm due valid later first] at done
    refine ⟨?_, kept.keys, fun d hd => ?_⟩
    · rw [(processAll_next served calm due kept).2.1 done]
    · have idle := workLeft_idle done d hd
      cases state : d.state with
      | pending => simp [state, DeliveryState.waiting] at idle
      | retryWait => simp [state, DeliveryState.waiting] at idle
      | delivered => exact .inl rfl
      | deadLetter => exact .inr rfl

end Run

def retriedOnce (n : Nat) : AttemptEnv Unit where
  loadFault := none
  now := if n = 0 then 5 else 10000000000
  answer _ _ := if n = 0 then ⟨false, true, 0, 503, "webhook returned HTTP 503"⟩ else sampleAnswer
  cancelled := false
  recordedAt := if n = 0 then 6 else 10000000001
  faults := ⟨none, none⟩

theorem retriedOnce_calm (n : Nat) : (retriedOnce n).Calm := ⟨rfl, rfl, rfl⟩

def afterRetry (n : Nat) : Tables :=
  processAll sampleConfig [("audit", ())] retriedOnce n (runAll captured .empty)

theorem afterRetry_served : Served [("audit", ())] (runAll captured .empty) := by
  intro k hk _
  have named : ∀ k ∈ (runAll captured .empty).sinks, k.sinkName = "audit" := by decide +kernel
  rw [named k hk]
  exact ⟨(), rfl⟩

theorem afterRetry_two : ∀ d ∈ (afterRetry 2).deliveries, d.state.waiting = false := by decide +kernel

theorem afterRetry_settled (n : Nat) : afterRetry (n + 2) = afterRetry 2 := by
  induction n with
  | zero => rfl
  | succ n ih =>
    have valid : (afterRetry 2).Valid :=
      processOne_valid (processOne_valid (spool_valid (spool_runAll (spool.reachable_init rfl) captured)))
    change (processOne sampleConfig [("audit", ())] (retriedOnce (n + 2)) (afterRetry (n + 2))).1 = _
    rw [ih, processOne_idle _ _ valid (retriedOnce_calm _) afterRetry_two]

theorem afterRetry_due (n : Nat) : AllDue (afterRetry n) (retriedOnce n).now := by
  unfold AllDue
  match n with
  | 0 => decide +kernel
  | 1 => decide +kernel
  | n + 2 =>
    intro d hd waiting
    rw [afterRetry_settled] at hd
    rw [afterRetry_two d hd] at waiting
    contradiction

theorem worker_drains_retried :
    Served [("audit", ())] (runAll captured .empty) ∧ (∀ n, (retriedOnce n).Calm) ∧
      (∀ n, AllDue (processAll sampleConfig [("audit", ())] retriedOnce n (runAll captured .empty))
        (retriedOnce n).now) ∧
      ∃ n ≤ workLeft sampleConfig.maxAttempts (runAll captured .empty),
        (∀ m < n, (processOne sampleConfig [("audit", ())] (retriedOnce m) (afterRetry m)).2 = .ok true) ∧
        ∀ m ≥ n, (processOne sampleConfig [("audit", ())] (retriedOnce m) (afterRetry m)).2 = .ok false ∧
          (afterRetry m).deliveries.map (·.key) = (runAll captured .empty).deliveries.map (·.key) ∧
          ∀ d ∈ (afterRetry m).deliveries, d.state = .delivered ∨ d.state = .deadLetter :=
  ⟨afterRetry_served, retriedOnce_calm, afterRetry_due,
    worker_drains afterRetry_served retriedOnce_calm afterRetry_due
      (spool_valid (spool_runAll (spool.reachable_init rfl) captured))⟩

end Drains

end WriteRelay.Worker
