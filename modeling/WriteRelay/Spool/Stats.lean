import WriteRelay.CaptureTime
import WriteRelay.Spool.Replay

/-! `readStatsSnapshot`: the counts of the spool and the oldest waiting capture of every
sink. SQLite takes the minimum over texts, Go compares the instants it reads from them. -/
namespace WriteRelay.Spool
open Clock Fallible Runs

structure DeliveryCounts where
  total : Nat
  pending : Nat
  retryWait : Nat
  delivered : Nat
  deadLetter : Nat
  deriving DecidableEq

structure WaitingStats where
  capturedAt : Instant
  ageSeconds : Int
  deriving DecidableEq

structure SinkStats where
  name : String
  type : String
  active : Bool
  deliveries : DeliveryCounts
  oldestWaiting : Option WaitingStats
  deriving DecidableEq

structure Stats where
  sampledAt : Instant
  eventCount : Nat
  prunedPayloads : Nat
  lastDurableLSN : String
  deliveries : DeliveryCounts
  oldestWaiting : Option WaitingStats
  sinks : List SinkStats
  deriving DecidableEq

inductive StatsSite
  | begin
  | schema
  | count
  | checkpoint
  | sinks
  | scan (sinkName : String)
  | iterate
  | close
  | commit

/-- `version` is the number in `schema_migrations`, and `parseError` the text of the error
with which `time.Parse` refuses a value. -/
structure StatsEnv where
  codec : LsnCodec
  faults : StatsSite → Option String
  version : Nat
  sampledAt : Instant
  parseError : String → String

def currentSchemaVersion : Nat := 3

def joinedRows (t : Tables) (k : SinkRow) : List (DeliveryRow × Option EventRow) :=
  (t.deliveries.filter (fun d => d.sinkID = k.sinkID)).map
    fun d => (d, t.events.find? (fun e => e.sequence = d.eventSequence))

def deliveryCounts (t : Tables) (k : SinkRow) : DeliveryCounts :=
  let rows := joinedRows t k
  let inState (state : DeliveryState) := rows.countP (fun r => r.1.state = state)
  ⟨rows.length, inState .pending, inState .retryWait, inState .delivered, inState .deadLetter⟩

/-- `CASE WHEN d.state IN ('pending', 'retry_wait') THEN e.captured_at END`, without the nulls. -/
def waitingTexts (t : Tables) (k : SinkRow) : List String :=
  (joinedRows t k).filterMap fun r => if r.1.state.waiting then r.2.map (·.capturedAt) else none

def oldestText (t : Tables) (k : SinkRow) : Option String :=
  Rows.least (fun a b => decide (a ≤ b)) (waitingTexts t k)

/-- `time.Parse(time.RFC3339Nano, value)`. -/
def parseTime (parseError : String → String) (value : String) : Except String Instant :=
  match parseRFC3339 value with
  | some parsed => .ok parsed
  | none => .error (parseError value)

def nullableTime (parseError : String → String) : Option String → Except String (Option Instant)
  | none => .ok none
  | some value => (parseTime parseError value).map some

def ageSeconds (sampledAt capturedAt : Instant) : Int :=
  max 0 (saturate (sampledAt - capturedAt) / 1000000000).toInt

def sinkStats (env : StatsEnv) (t : Tables) (k : SinkRow) : Except Failure SinkStats := do
  attempt (env.faults (.scan k.sinkName)) (wrapf none "scan per-sink stats: %w" [])
  let capturedAt ← (nullableTime env.parseError (oldestText t k)).mapError
    (fun e => wrapf none "parse oldest waiting capture time: %w" [] (.fault e))
  return ⟨k.sinkName, k.sinkType, k.active, deliveryCounts t k,
    capturedAt.map fun at_ => ⟨at_, ageSeconds env.sampledAt at_⟩⟩

def DeliveryCounts.add (a b : DeliveryCounts) : DeliveryCounts :=
  ⟨a.total + b.total, a.pending + b.pending, a.retryWait + b.retryWait, a.delivered + b.delivered,
    a.deadLetter + b.deadLetter⟩

/-- The older one; a later row has to be strictly older to replace it. -/
def older : Option WaitingStats → Option WaitingStats → Option WaitingStats
  | current, none => current
  | none, some row => some row
  | some current, some row => if row.capturedAt < current.capturedAt then some row else some current

def Stats.add (stats : Stats) (sink : SinkStats) : Stats :=
  { stats with
    deliveries := stats.deliveries.add sink.deliveries
    oldestWaiting := older stats.oldestWaiting sink.oldestWaiting
    sinks := stats.sinks ++ [sink] }

def readSinks (env : StatsEnv) (t : Tables) : List SinkRow → Stats → Except Failure Stats
  | [], stats => .ok stats
  | k :: rest, stats => sinkStats env t k >>= fun sink => readSinks env t rest (stats.add sink)

/-- `ORDER BY s.sink_name`. -/
def sinksByName (t : Tables) : List SinkRow := t.sinks.insertionSort (fun a b => a.sinkName ≤ b.sinkName)

def readStatsSnapshot (env : StatsEnv) (t : Tables) : Except Failure Stats := do
  attempt (env.faults .begin) (wrapf none "begin spool stats snapshot: %w" [])
  attempt (env.faults .schema) (wrapf none "read spool stats schema: %w" [])
  refuse (env.version ≠ currentSchemaVersion)
    (errorf none "spool stats requires schema version %d, found %d; stats does not migrate the spool"
      [toString currentSchemaVersion, toString env.version])
  attempt (env.faults .count) (wrapf none "count captured events: %w" [])
  let wrap := wrapf none "read spool stats checkpoint: %w" []
  attempt (env.faults .checkpoint) wrap
  let lsn ← (parseCheckpoint env.codec t.durableLSN).mapError (fun e => wrap (.fault e))
  attempt (env.faults .sinks) (wrapf none "read per-sink stats: %w" [])
  let stats ← readSinks env t (sinksByName t) ⟨env.sampledAt, t.events.length,
    t.events.countP (·.pruned), env.codec.format lsn, ⟨0, 0, 0, 0, 0⟩, none, []⟩
  attempt (env.faults .iterate) (wrapf none "iterate per-sink stats: %w" [])
  attempt (env.faults .close) (wrapf none "close per-sink stats: %w" [])
  attempt (env.faults .commit) (wrapf none "finish spool stats snapshot: %w" [])
  return stats

def WaitingSince (t : Tables) (k : SinkRow) (at_ : Instant) : Prop :=
  ∃ d ∈ t.deliveries, d.sinkID = k.sinkID ∧ d.state.waiting = true ∧
    ∃ e ∈ t.events, e.sequence = d.eventSequence ∧ e.capturedAt = formatRFC3339Nano at_

def Earliest (P : Instant → Prop) : Option Instant → Prop
  | none => ∀ at_, ¬P at_
  | some first => P first ∧ ∀ at_, P at_ → first ≤ at_

/-- Oldest means earliest, for every sink and over all of them. -/
structure Chronological (t : Tables) (stats : Stats) : Prop where
  reported : (stats.sinks.map (·.name)).Perm (t.sinks.map (·.sinkName))
  perSink : ∀ s ∈ stats.sinks, ∀ k ∈ t.sinks, s.name = k.sinkName →
    Earliest (WaitingSince t k) (s.oldestWaiting.map (·.capturedAt))
  overall : Earliest (fun at_ => ∃ k ∈ t.sinks, WaitingSince t k at_)
    (stats.oldestWaiting.map (·.capturedAt))

/-- A later instant with a smaller text: in the same second, with a fraction that continues the
earlier one, or in a year with more digits. -/
def Overtakes (first later : Instant) : Prop :=
  FourDigitYear later ∧ wholeSecond first = wholeSecond later ∧ fraction first <+: fraction later ∨
    ¬FourDigitYear later ∧ formatRFC3339Nano later < formatRFC3339Nano first

/-- The first waiting capture of a sink is in a year that can be read back, and no later one
overtakes it. -/
def SeparatedAt (t : Tables) (k : SinkRow) : Prop :=
  ∀ first, Earliest (WaitingSince t k) (some first) →
    FourDigitYear first ∧ ∀ later, WaitingSince t k later → first < later → ¬Overtakes first later

def Separated (t : Tables) : Prop := ∀ k ∈ t.sinks, SeparatedAt t k

def StatsEnv.Unfaulted (env : StatsEnv) : Prop :=
  env.version = currentSchemaVersion ∧ ∀ site, env.faults site = none

section Texts

variable {t : Tables} {k : SinkRow}

theorem mem_waitingTexts (sound : t.Sound) {text : String} :
    text ∈ waitingTexts t k ↔ ∃ d ∈ t.deliveries, d.sinkID = k.sinkID ∧ d.state.waiting = true ∧
      ∃ e ∈ t.events, e.sequence = d.eventSequence ∧ e.capturedAt = text := by
  simp only [waitingTexts, joinedRows, List.mem_filterMap, List.mem_map, List.mem_filter, decide_eq_true_eq]
  constructor
  · rintro ⟨_, ⟨d, ⟨hd, sink⟩, rfl⟩, shown⟩
    dsimp only at shown
    split at shown
    · rename_i waiting
      obtain ⟨e, found, stored⟩ := Option.map_eq_some_iff.mp shown
      have sequence := List.find?_some found
      exact ⟨d, hd, sink, waiting, e, List.mem_of_find?_eq_some found, by simpa using sequence, stored⟩
    · contradiction
  · rintro ⟨d, hd, sink, waiting, e, he, sequence, stored⟩
    apply Exists.intro (d, t.events.find? (fun e => e.sequence = d.eventSequence))
    apply And.intro ⟨d, ⟨hd, sink⟩, rfl⟩
    cases found : t.events.find? (fun e => e.sequence = d.eventSequence) with
    | none =>
      have absent := List.find?_eq_none.mp found e he
      simp [sequence] at absent
    | some e' =>
      have same : e'.sequence = d.eventSequence := by simpa using List.find?_some found
      have equal := sound.events.unique (List.mem_of_find?_eq_some found) he (same.trans sequence.symm)
      rw [if_pos waiting, equal]
      exact congrArg some stored

/-- Every capture time was written by `PersistCommittedBatch`. -/
def Tables.Stamped (t : Tables) : Prop := ∀ e ∈ t.events, ∃ at_, e.capturedAt = formatRFC3339Nano at_

theorem EventRow.Becomes.capturedAt {e e' : EventRow} (h : e.Becomes e') : e'.capturedAt = e.capturedAt := by
  rcases h with rfl | ⟨_, now, rfl⟩ <;> rfl

theorem spool_stamped (h : spool.Reachable t) : t.Stamped := by
  apply spool.invariant Tables.Stamped ?_ ?_ h
  · rintro _ rfl e he
    simp [Tables.empty] at he
  · rintro t _ reachable stamped ⟨op, rfl⟩
    have valid := spool_valid reachable
    by_cases capture : ∃ env batch, op = .persist env batch
    · obtain ⟨env, batch, rfl⟩ := capture
      simp only [Operation.exec]
      cases done : persistCommittedBatch env batch t with
      | error e => exact stamped
      | ok r =>
        obtain ⟨written, current, wrote, tables⟩ := persistCommittedBatch_written valid done
        obtain ⟨rows, held, events⟩ := wrote.rows
        change r.1.Stamped
        intro e he
        rw [tables] at he
        change e ∈ written.events at he
        rw [events] at he
        rcases Rows.mem_of_mem_keepAll _ he with old | new
        · exact stamped e old
        · obtain ⟨captured, _, index, stored⟩ := Rows.exists_of_forall₂ held.flip new
          exact ⟨(env.readings index).capturedAt, by rw [stored]; rfl⟩
    · have foreign : ∀ env batch, op ≠ .persist env batch := fun env batch is =>
        capture ⟨env, batch, is⟩
      intro e' he'
      obtain ⟨e, he, became⟩ := Rows.exists_of_forall₂ (exec_logKept foreign valid).events.flip he'
      rw [EventRow.Becomes.capturedAt became]
      exact stamped e he

theorem waiting_instants (sound : t.Sound) (stamped : t.Stamped) (k : SinkRow) :
    ∃ instants : List Instant, waitingTexts t k = instants.map formatRFC3339Nano ∧
      ∀ at_, WaitingSince t k at_ ↔ at_ ∈ instants := by
  have written : ∀ text ∈ waitingTexts t k, text ∈ Set.range formatRFC3339Nano := by
    intro text htext
    obtain ⟨_, _, _, _, e, he, _, rfl⟩ := (mem_waitingTexts sound).mp htext
    obtain ⟨at_, same⟩ := stamped e he
    exact ⟨at_, same.symm⟩
  obtain ⟨instants, texts⟩ : waitingTexts t k ∈ Set.range (List.map formatRFC3339Nano) := by
    rw [Set.range_list_map]
    exact written
  apply Exists.intro instants
  apply And.intro texts.symm
  intro at_
  rw [WaitingSince, ← mem_waitingTexts sound, ← texts]
  exact List.mem_map_of_injective fun _ _ => formatRFC3339Nano_injective

end Texts

section Oldest

theorem Earliest.unique {P : Instant → Prop} {a b : Option Instant} (ha : Earliest P a) (hb : Earliest P b) :
    a = b := by
  cases a with
  | none =>
    cases b with
    | none => rfl
    | some b => exact absurd hb.1 (ha b)
  | some a =>
    cases b with
    | none => exact absurd ha.1 (hb a)
    | some b => rw [le_antisymm (ha.2 b hb.1) (hb.2 a ha.1)]

theorem Earliest.congr {P Q : Instant → Prop} {first : Option Instant} (h : Earliest P first)
    (same : ∀ at_, P at_ ↔ Q at_) : Earliest Q first := by
  rwa [← (funext fun at_ => propext (same at_) : P = Q)]

theorem earliest_exists (instants : List Instant) : ∃ first, Earliest (· ∈ instants) first := by
  apply Exists.intro (Rows.least (fun a b => decide (a ≤ b)) instants)
  cases found : Rows.least (fun a b => decide (a ≤ b)) instants with
  | none =>
    rw [Rows.least_eq_none.mp found]
    exact fun _ => List.not_mem_nil
  | some first => exact Rows.least_order (by simp) found

theorem overtakes_iff {first later : Instant} (year : FourDigitYear first) (less : first < later) :
    Overtakes first later ↔ formatRFC3339Nano later < formatRFC3339Nano first := by
  by_cases year' : FourDigitYear later
  · simp only [Overtakes, year', true_and, not_true, false_and, or_false]
    exact (formatRFC3339Nano_inverted year year' less).symm
  · simp only [Overtakes, year', false_and, not_false_eq_true, true_and, false_or]

variable {t : Tables} {k : SinkRow} {instants : List Instant}

theorem oldestText_eq (texts : waitingTexts t k = instants.map formatRFC3339Nano) :
    instants = [] ∧ oldestText t k = none ∨ ∃ at_ ∈ instants, oldestText t k = some (formatRFC3339Nano at_) ∧
      ∀ other ∈ instants, formatRFC3339Nano at_ ≤ formatRFC3339Nano other := by
  cases found : oldestText t k with
  | none =>
    have empty := Rows.least_eq_none.mp found
    rw [texts, List.map_eq_nil_iff] at empty
    exact .inl ⟨empty, rfl⟩
  | some text =>
    obtain ⟨member, least⟩ := Rows.least_order (by simp) found
    rw [texts] at member least
    obtain ⟨at_, hat, rfl⟩ := List.mem_map.mp member
    exact .inr ⟨at_, hat, rfl, fun other hother => least _ (List.mem_map_of_mem hother)⟩

theorem nullableTime_format {parseError : String → String} {at_ : Instant} {r : Option Instant} :
    nullableTime parseError (some (formatRFC3339Nano at_)) = .ok r ↔ FourDigitYear at_ ∧ r = some at_ := by
  by_cases year : FourDigitYear at_
  · simp only [nullableTime, parseTime, parseRFC3339_formatRFC3339Nano year, Except.map, year, true_and,
      Except.ok.injEq]
    exact eq_comm
  · simp [nullableTime, parseTime, parseRFC3339_wide year, Except.map, year]

/-- The minimum over the texts is the first instant exactly when nothing overtakes it. -/
theorem oldest_iff (sound : t.Sound) (stamped : t.Stamped) (parseError : String → String) :
    (∃ r, nullableTime parseError (oldestText t k) = .ok r ∧ Earliest (WaitingSince t k) r) ↔
      SeparatedAt t k := by
  obtain ⟨instants, texts, waiting⟩ := waiting_instants sound stamped k
  have waits : WaitingSince t k = (· ∈ instants) := funext fun at_ => propext (waiting at_)
  rw [SeparatedAt, waits]
  obtain ⟨empty, none_⟩ | ⟨at_, member, some_, least⟩ := oldestText_eq texts
  · rw [none_, empty]
    constructor
    · rintro _ first ⟨is, _⟩
      contradiction
    · intro _
      exact ⟨none, rfl, fun _ => List.not_mem_nil⟩
  · rw [some_]
    simp only [nullableTime_format]
    constructor
    · rintro ⟨_, ⟨year, rfl⟩, earliest⟩ first is
      cases earliest.unique is
      apply And.intro year
      intro later hlater less
      rw [overtakes_iff year less]
      exact not_lt.mpr (least later hlater)
    · intro separated
      obtain ⟨first, is⟩ := earliest_exists instants
      cases first with
      | none => exact absurd member (is at_)
      | some first =>
        obtain ⟨year, apart⟩ := separated first is
        have same : at_ = first := by
          by_contra differ
          have less : first < at_ := lt_of_le_of_ne (is.2 at_ member) (Ne.symm differ)
          have text := (overtakes_iff year less).not.mp (apart at_ member less)
          exact differ (formatRFC3339Nano_injective (le_antisymm (least first is.1) (not_lt.mp text)))
        rw [← same] at is year
        exact ⟨some at_, ⟨year, rfl⟩, is⟩

end Oldest

section Loop

variable {env : StatsEnv} {t : Tables}

theorem readSinks_ok_iff {ks : List SinkRow} {stats stats' : Stats} :
    readSinks env t ks stats = .ok stats' ↔
      ∃ sinks, List.Forall₂ (fun k s => sinkStats env t k = .ok s) ks sinks ∧
        stats' = sinks.foldl Stats.add stats := by
  induction ks generalizing stats with
  | nil =>
    rw [readSinks, Except.ok.injEq]
    constructor
    · rintro rfl
      exact ⟨[], .nil, rfl⟩
    · rintro ⟨_, ⟨⟩, rfl⟩
      rfl
  | cons k ks ih =>
    rw [readSinks, bind_ok_iff]
    simp only [ih]
    constructor
    · rintro ⟨s, first, sinks, rest, rfl⟩
      exact ⟨s :: sinks, .cons first rest, rfl⟩
    · rintro ⟨_, read, rfl⟩
      cases read with
      | cons first rest => exact ⟨_, first, _, rest, rfl⟩

theorem foldl_add_sinks (sinks : List SinkStats) (stats : Stats) :
    (sinks.foldl Stats.add stats).sinks = stats.sinks ++ sinks := by
  induction sinks generalizing stats with
  | nil => rw [List.foldl_nil, List.append_nil]
  | cons s sinks ih =>
    rw [List.foldl_cons, ih]
    simp [Stats.add]

theorem Earliest.older {P Q : Instant → Prop} {a b : Option WaitingStats}
    (ha : Earliest P (a.map (·.capturedAt))) (hb : Earliest Q (b.map (·.capturedAt))) :
    Earliest (fun at_ => P at_ ∨ Q at_) ((older a b).map (·.capturedAt)) := by
  cases b with
  | none =>
    cases a with
    | none => exact fun at_ => not_or.mpr ⟨ha at_, hb at_⟩
    | some a => exact ⟨.inl ha.1, fun at_ is => is.elim (ha.2 at_) fun q => absurd q (hb at_)⟩
  | some b =>
    cases a with
    | none => exact ⟨.inr hb.1, fun at_ is => is.elim (fun p => absurd p (ha at_)) (hb.2 at_)⟩
    | some a =>
      simp only [Spool.older]
      split
      · rename_i less
        exact ⟨.inr hb.1, fun at_ is => is.elim (fun p => less.le.trans (ha.2 at_ p)) (hb.2 at_)⟩
      · rename_i notLess
        exact ⟨.inl ha.1, fun at_ is => is.elim (ha.2 at_) fun q => (not_lt.mp notLess).trans (hb.2 at_ q)⟩

theorem foldl_add_oldest {P : SinkStats → Instant → Prop} {sinks : List SinkStats} {stats : Stats}
    {before : Instant → Prop} (start : Earliest before (stats.oldestWaiting.map (·.capturedAt)))
    (each : ∀ s ∈ sinks, Earliest (P s) (s.oldestWaiting.map (·.capturedAt))) :
    Earliest (fun at_ => before at_ ∨ ∃ s ∈ sinks, P s at_)
      ((sinks.foldl Stats.add stats).oldestWaiting.map (·.capturedAt)) := by
  induction sinks generalizing stats before with
  | nil => simpa using start
  | cons s sinks ih =>
    obtain ⟨first, rest⟩ := List.forall_mem_cons.mp each
    have onward : Earliest _ ((stats.add s).oldestWaiting.map (·.capturedAt)) := start.older first
    simpa [or_assoc] using ih onward rest

end Loop

section Snapshot

variable {codec : LsnCodec} {t : Tables} {env : StatsEnv}

theorem sinkStats_ok_iff (quiet : env.Unfaulted) {k : SinkRow} {s : SinkStats} :
    sinkStats env t k = .ok s ↔ ∃ r, nullableTime env.parseError (oldestText t k) = .ok r ∧
      s = ⟨k.sinkName, k.sinkType, k.active, deliveryCounts t k,
        r.map fun at_ => ⟨at_, ageSeconds env.sampledAt at_⟩⟩ := by
  simp only [sinkStats, attempt, quiet.2 (.scan k.sinkName)]
  change (Except.mapError _ (nullableTime env.parseError (oldestText t k)) >>= _) = _ ↔ _
  cases nullableTime env.parseError (oldestText t k) with
  | error e => simp [Except.mapError, bind, Except.bind]
  | ok r =>
    simp only [Except.mapError, bind, Except.bind, pure, Except.pure, Except.ok.injEq, exists_eq_left']
    exact eq_comm

theorem readStatsSnapshot_loop (quiet : env.Unfaulted) (coded : Coded env.codec t) :
    ∃ start : Stats, start.oldestWaiting = none ∧ start.sinks = [] ∧
      readStatsSnapshot env t = readSinks env t (sinksByName t) start := by
  obtain ⟨lsn, parsed⟩ := coded.parse
  apply Exists.intro ⟨env.sampledAt, t.events.length, t.events.countP (·.pruned), env.codec.format lsn,
    ⟨0, 0, 0, 0, 0⟩, none, []⟩
  apply And.intro rfl
  apply And.intro rfl
  have version : ¬env.version ≠ currentSchemaVersion := not_not.mpr quiet.1
  simp only [readStatsSnapshot, attempt, quiet.2, refuse, if_neg version, parsed]
  change (readSinks env t (sinksByName t) _ >>= fun stats => .ok stats) = _
  cases readSinks env t (sinksByName t) _ <;> rfl

theorem mem_sinksByName {k : SinkRow} : k ∈ sinksByName t ↔ k ∈ t.sinks :=
  (List.perm_insertionSort _ _).mem_iff

theorem sinkStats_earliest (quiet : env.Unfaulted) (sound : t.Sound) (stamped : t.Stamped) {k : SinkRow} :
    (∃ s, sinkStats env t k = .ok s ∧ Earliest (WaitingSince t k) (s.oldestWaiting.map (·.capturedAt))) ↔
      SeparatedAt t k := by
  rw [← oldest_iff sound stamped env.parseError]
  simp only [sinkStats_ok_iff quiet]
  constructor
  · rintro ⟨_, ⟨r, read, rfl⟩, earliest⟩
    exact ⟨r, read, by simpa [Function.comp_def] using earliest⟩
  · rintro ⟨r, read, earliest⟩
    exact ⟨_, ⟨r, read, rfl⟩, by simpa [Function.comp_def] using earliest⟩

theorem sinkStats_name {k : SinkRow} {s : SinkStats} (h : sinkStats env t k = .ok s) : s.name = k.sinkName := by
  obtain ⟨_, _, h⟩ := bind_ok_iff.mp h
  obtain ⟨_, _, h⟩ := bind_ok_iff.mp h
  cases Except.ok.inj h
  rfl

theorem chronological_of_rows (sound : t.Sound) {start : Stats} (none_ : start.oldestWaiting = none)
    (empty : start.sinks = []) {sinks : List SinkStats}
    (rows : List.Forall₂ (fun k s => sinkStats env t k = .ok s ∧
      Earliest (WaitingSince t k) (s.oldestWaiting.map (·.capturedAt))) (sinksByName t) sinks) :
    Chronological t (sinks.foldl Stats.add start) := by
  have names : (sinksByName t).map (·.sinkName) = sinks.map (·.name) :=
    Rows.map_eq_of_forall₂ (fun _ _ row => (sinkStats_name row.1).symm) rows
  have each : ∀ s ∈ sinks, ∀ k ∈ t.sinks, s.name = k.sinkName →
      Earliest (WaitingSince t k) (s.oldestWaiting.map (·.capturedAt)) := by
    intro s hs k hk name
    obtain ⟨k', hk', ran, earliest⟩ := Rows.exists_of_forall₂ rows.flip hs
    have same := Rows.key_unique sound.sinks.names (mem_sinksByName.mp hk') hk ((sinkStats_name ran).symm.trans name)
    rwa [← same]
  have listed : (sinks.foldl Stats.add start).sinks = sinks := by rw [foldl_add_sinks, empty, List.nil_append]
  constructor
  · rw [listed, ← names]
    exact (List.perm_insertionSort _ _).map _
  · rw [listed]
    exact each
  · have nothing : Earliest (fun _ => False) (start.oldestWaiting.map (·.capturedAt)) := by
      rw [none_]
      exact fun _ => id
    have named : ∀ s ∈ sinks, Earliest
        (fun at_ => ∃ k ∈ t.sinks, s.name = k.sinkName ∧ WaitingSince t k at_)
        (s.oldestWaiting.map (·.capturedAt)) := by
      intro s hs
      obtain ⟨k, hk, ran, earliest⟩ := Rows.exists_of_forall₂ rows.flip hs
      apply earliest.congr
      intro at_
      constructor
      · intro waits
        exact ⟨k, mem_sinksByName.mp hk, sinkStats_name ran, waits⟩
      · rintro ⟨k', hk', name, waits⟩
        rwa [Rows.key_unique sound.sinks.names (mem_sinksByName.mp hk) hk' ((sinkStats_name ran).symm.trans name)]
    apply (foldl_add_oldest nothing named).congr
    intro at_
    constructor
    · intro is
      obtain ⟨_, _, k, hk, _, waits⟩ := is.resolve_left id
      exact ⟨k, hk, waits⟩
    · rintro ⟨k, hk, waits⟩
      obtain ⟨s, hs, ran, _⟩ := Rows.exists_of_forall₂ rows (mem_sinksByName.mpr hk)
      exact .inr ⟨s, hs, k, hk, sinkStats_name ran, waits⟩

theorem oldest_waiting (reachable : (codedSpool codec).Reachable t) (same : env.codec = codec)
    (quiet : env.Unfaulted) :
    (∃ stats, readStatsSnapshot env t = .ok stats ∧ Chronological t stats) ↔ Separated t := by
  have sound := (spool_valid (spoolWith_reachable reachable)).sound
  have stamped := spool_stamped (spoolWith_reachable reachable)
  obtain ⟨start, none_, empty, loop⟩ := readStatsSnapshot_loop quiet (same ▸ codedSpool_coded reachable)
  simp only [loop, readSinks_ok_iff]
  constructor
  · rintro ⟨_, ⟨sinks, read, rfl⟩, chronological⟩ k hk
    obtain ⟨s, hs, ran⟩ := Rows.exists_of_forall₂ read (mem_sinksByName.mpr hk)
    have listed : s ∈ (sinks.foldl Stats.add start).sinks := by
      rw [foldl_add_sinks, empty]
      exact hs
    rw [← sinkStats_earliest quiet sound stamped]
    exact ⟨s, ran, chronological.perSink s listed k hk (sinkStats_name ran)⟩
  · intro separated
    obtain ⟨sinks, rows⟩ := Rows.forall₂_of_exists fun k hk =>
      (sinkStats_earliest quiet sound stamped (k := k)).mpr (separated k (mem_sinksByName.mp hk))
    exact ⟨_, ⟨sinks, rows.imp fun _ _ row => row.1, rfl⟩, chronological_of_rows sound none_ empty rows⟩

def pairCaptured (start gap : Nat) : List Operation :=
  let second := { sampleEvent with id := "2", messageIndex := 1 }
  [sampleConfigure, .persist { sampleEnv with readings := fun i => ⟨start + i * gap, 2, 0⟩ }
    ⟨7, 20, 30, 0, [sampleEvent, second]⟩]

def halfSecond : List Operation := pairCaptured 1000000000 500000000

def quarterSecond : List Operation := pairCaptured 1500000000 250000000

def calmStats : StatsEnv := ⟨.decimal, fun _ => none, 3, 2000000000, fun _ => ""⟩

theorem decimalSpool_runAll {ops : List Operation} (decimal : ∀ op ∈ ops, ∀ env batch,
    op = .persist env batch → env.codec = .decimal) : (codedSpool .decimal).Reachable (runAll ops .empty) :=
  spoolWith_runAll decimal ((codedSpool .decimal).reachable_init rfl)

theorem waitingSince_iff (reachable : spool.Reachable t) {k : SinkRow} {at_ : Instant} :
    WaitingSince t k at_ ↔ formatRFC3339Nano at_ ∈ waitingTexts t k :=
  (mem_waitingTexts (spool_valid reachable).sound).symm

theorem pairCaptured_reachable (start gap : Nat) :
    (codedSpool .decimal).Reachable (runAll (pairCaptured start gap) .empty) := by
  apply decimalSpool_runAll
  simp only [pairCaptured, sampleConfigure, List.forall_mem_cons]
  refine ⟨nofun, ?_, nofun⟩
  rintro _ _ ⟨⟩
  rfl

theorem oldest_waiting_quarter : Separated (runAll quarterSecond .empty) ∧
    ∃ stats, readStatsSnapshot calmStats (runAll quarterSecond .empty) = .ok stats ∧
      Chronological (runAll quarterSecond .empty) stats ∧
      ∃ k ∈ (runAll quarterSecond .empty).sinks, ∀ at_, WaitingSince (runAll quarterSecond .empty) k at_ ↔
        at_ = 1500000000 ∨ at_ = 1750000000 := by
  have reachable : (codedSpool .decimal).Reachable (runAll quarterSecond .empty) :=
    pairCaptured_reachable 1500000000 250000000
  have texts : ∀ k ∈ (runAll quarterSecond .empty).sinks, waitingTexts (runAll quarterSecond .empty) k =
      [formatRFC3339Nano 1500000000, formatRFC3339Nano 1750000000] := by decide +kernel
  have waiting : ∀ k ∈ (runAll quarterSecond .empty).sinks, ∀ at_,
      WaitingSince (runAll quarterSecond .empty) k at_ ↔ at_ = 1500000000 ∨ at_ = 1750000000 := by
    intro k hk at_
    rw [waitingSince_iff (spoolWith_reachable reachable), texts k hk, List.mem_pair]
    exact or_congr ⟨formatRFC3339Nano_injective, congrArg _⟩ ⟨formatRFC3339Nano_injective, congrArg _⟩
  have separated : Separated (runAll quarterSecond .empty) := by
    intro k hk first earliest
    rcases (waiting k hk first).mp earliest.1 with rfl | rfl
    · refine ⟨by decide +kernel, fun later waits less => ?_⟩
      rcases (waiting k hk later).mp waits with rfl | rfl
      · exact absurd less (lt_irrefl _)
      · unfold Overtakes
        decide +kernel
    · exact absurd (earliest.2 1500000000 ((waiting k hk _).mpr (.inl rfl))) (by decide)
  have quiet : calmStats.Unfaulted := ⟨rfl, fun _ => rfl⟩
  obtain ⟨stats, read, chronological⟩ := (oldest_waiting reachable rfl quiet).mpr separated
  have registered : ∃ k, k ∈ (runAll quarterSecond .empty).sinks :=
    List.exists_mem_of_ne_nil _ (by decide +kernel)
  obtain ⟨k, hk⟩ := registered
  exact ⟨separated, stats, read, chronological, k, hk, waiting k hk⟩

theorem oldest_waiting_later : ∃ stats, (codedSpool .decimal).Reachable (runAll halfSecond .empty) ∧
    readStatsSnapshot calmStats (runAll halfSecond .empty) = .ok stats ∧
    stats.oldestWaiting = some ⟨1500000000, 0⟩ ∧
    stats.sinks.map (·.oldestWaiting) = [some ⟨1500000000, 0⟩] ∧
    (∃ k ∈ (runAll halfSecond .empty).sinks, WaitingSince (runAll halfSecond .empty) k 1000000000) ∧
    ¬Chronological (runAll halfSecond .empty) stats := by
  have reachable : (codedSpool .decimal).Reachable (runAll halfSecond .empty) :=
    pairCaptured_reachable 1000000000 500000000
  have reported : (readStatsSnapshot calmStats (runAll halfSecond .empty)).toOption.map
      (fun stats => (stats.oldestWaiting, stats.sinks.map (·.oldestWaiting))) =
        some (some ⟨1500000000, 0⟩, [some ⟨1500000000, 0⟩]) := by decide +kernel
  have earlier : ∃ k ∈ (runAll halfSecond .empty).sinks,
      formatRFC3339Nano 1000000000 ∈ waitingTexts (runAll halfSecond .empty) k := by decide +kernel
  obtain ⟨k, hk, waits⟩ := earlier
  rw [← waitingSince_iff (spoolWith_reachable reachable)] at waits
  cases read : readStatsSnapshot calmStats (runAll halfSecond .empty) with
  | error e =>
    rw [read] at reported
    contradiction
  | ok stats =>
    rw [read] at reported
    obtain ⟨overall, perSink⟩ := Prod.mk.inj (Option.some.inj reported)
    refine ⟨stats, reachable, rfl, overall, perSink, ⟨k, hk, waits⟩, ?_⟩
    intro chronological
    have earliest := chronological.overall
    rw [overall] at earliest
    exact absurd (earliest.2 1000000000 ⟨k, hk, waits⟩) (by decide)

end Snapshot

end WriteRelay.Spool
