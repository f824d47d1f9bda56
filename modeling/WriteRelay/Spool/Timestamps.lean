import WriteRelay.Base.Utf8
import WriteRelay.Spool.Pruning
import WriteRelay.Spool.Stats

/-! The timestamp columns that `formatTimestamp` writes: `ListDeliveries` reads the instants
back, and SQLite's comparisons of the texts compare the instants. -/
namespace WriteRelay.Spool
open Clock Fallible

def DeliveryState.text : DeliveryState → String
  | .pending => "pending"
  | .retryWait => "retry_wait"
  | .delivered => "delivered"
  | .deadLetter => "dead_letter"

structure ListedDelivery where
  eventSequence : Nat
  sinkName : String
  state : DeliveryState
  attempts : Nat
  nextAttemptAt : Instant
  lastAttemptAt : Option Instant
  deliveredAt : Option Instant
  deadLetteredAt : Option Instant
  lastError : Bytes
  responseStatus : Int
  source : String
  id : String
  type : String
  deriving DecidableEq

inductive ListSite
  | query
  | scan (index : Nat)
  | iterate

structure ListEnv where
  faults : ListSite → Option String
  parseError : String → String

structure JoinedDelivery where
  delivery : DeliveryRow
  sink : SinkRow
  event : EventRow

/-- The two JOINs, with `WHERE (? = '' OR d.state = ?)`. -/
def joinedDeliveries (t : Tables) (state : String) : List JoinedDelivery :=
  (t.deliveries.filter (fun d => state = "" ∨ d.state.text = state)).flatMap fun d =>
    (t.sinks.filter (fun k => k.sinkID = d.sinkID)).flatMap fun k =>
      (t.events.filter (fun e => e.sequence = d.eventSequence)).map fun e => ⟨d, k, e⟩

/-- `ORDER BY d.event_sequence, s.sink_id LIMIT ?`. -/
def listedRows (t : Tables) (state : String) (limit : Nat) : List JoinedDelivery :=
  ((joinedDeliveries t state).insertionSort fun a b =>
    a.delivery.eventSequence < b.delivery.eventSequence ∨
      a.delivery.eventSequence = b.delivery.eventSequence ∧ a.sink.sinkID ≤ b.sink.sinkID).take limit

def scanDelivery (env : ListEnv) (index : Nat) (row : JoinedDelivery) : Except Failure ListedDelivery := do
  let failed (format : String) (e : String) := wrapf none format [] (.fault e)
  attempt (env.faults (.scan index)) (wrapf none "scan delivery: %w" [])
  let nextAttemptAt ← (parseTime env.parseError row.delivery.nextAttemptAt).mapError
    (failed "parse next delivery attempt: %w")
  let lastAttemptAt ← (nullableTime env.parseError row.delivery.lastAttemptAt).mapError
    (failed "parse last delivery attempt: %w")
  let deliveredAt ← (nullableTime env.parseError row.delivery.deliveredAt).mapError
    (failed "parse delivered time: %w")
  let deadLetteredAt ← (nullableTime env.parseError row.delivery.deadLetteredAt).mapError
    (failed "parse dead-letter time: %w")
  return ⟨row.delivery.eventSequence, row.sink.sinkName, row.delivery.state, row.delivery.attempts,
    nextAttemptAt, lastAttemptAt, deliveredAt, deadLetteredAt, row.delivery.lastError.getD [],
    row.delivery.responseStatus.getD 0, row.event.source, row.event.id, row.event.type⟩

def scanDeliveries (env : ListEnv) : Nat → List JoinedDelivery → Except Failure (List ListedDelivery)
  | _, [] => .ok []
  | index, row :: rows => do
    let first ← scanDelivery env index row
    let rest ← scanDeliveries env (index + 1) rows
    return first :: rest

def listDeliveries (env : ListEnv) (state : String) (limit : Int) (t : Tables) :
    Except Failure (List ListedDelivery) := do
  refuse (limit < 1 ∨ 1000 < limit) (errorf none "limit must be between 1 and 1000" [])
  refuse (state ∉ ["", "pending", "retry_wait", "delivered", "dead_letter"])
    (errorf none "state must be pending, retry_wait, delivered, or dead_letter" [])
  attempt (env.faults .query) (wrapf none "list deliveries: %w" [])
  let result ← scanDeliveries env 0 (listedRows t state limit.toNat)
  attempt (env.faults .iterate) (wrapf none "%w" [])
  return result

/-- The instants behind the texts of a delivery row. -/
structure Timing where
  nextAttemptAt : Instant
  lastAttemptAt : Option Instant
  deliveredAt : Option Instant
  deadLetteredAt : Option Instant

structure Timing.Of (times : Timing) (d : DeliveryRow) : Prop where
  nextAttemptAt : d.nextAttemptAt = formatTimestamp times.nextAttemptAt ∧ FourDigitYear times.nextAttemptAt
  lastAttemptAt : d.lastAttemptAt = times.lastAttemptAt.map formatTimestamp ∧
    ∀ at_ ∈ times.lastAttemptAt, FourDigitYear at_
  deliveredAt : d.deliveredAt = times.deliveredAt.map formatTimestamp ∧
    ∀ at_ ∈ times.deliveredAt, FourDigitYear at_
  deadLetteredAt : d.deadLetteredAt = times.deadLetteredAt.map formatTimestamp ∧
    ∀ at_ ∈ times.deadLetteredAt, FourDigitYear at_

def ListedDelivery.timing (row : ListedDelivery) : Timing :=
  ⟨row.nextAttemptAt, row.lastAttemptAt, row.deliveredAt, row.deadLetteredAt⟩

/-- `dueItems` with instants in place of their texts. -/
def dueItemsAt (times : DeliveryRow → Timing) (t : Tables) (now : Instant) : List Delivery :=
  (t.sinks.filter (·.active)).flatMap fun k =>
    (t.deliveries.filter (fun d => d.sinkID = k.sinkID ∧
        some d.eventSequence = t.headSequence k.sinkID ∧ (times d).nextAttemptAt ≤ now)).flatMap fun d =>
      (t.events.filter (fun e => e.sequence = d.eventSequence)).map (dueItem k d)

def prunableAt (times : DeliveryRow → Timing) (t : Tables) (before : Instant) (e : EventRow) : Bool :=
  e.pruned = false ∧ (t.deliveriesOf e.sequence).isEmpty = false ∧
    (t.deliveriesOf e.sequence).all (fun d => d.state = .delivered ∧
      (times d).deliveredAt.any (fun at_ => at_ < before)) = true

/-- What the texts of two instants have in common with the instants. -/
structure TextOrder (a b : Instant) : Prop where
  length : (Utf8.encode (formatTimestamp a).toList).length = (Utf8.encode (formatTimestamp b).toList).length
  order : formatTimestamp a ≤ formatTimestamp b ↔ a ≤ b
  bytes : Utf8.encode (formatTimestamp a).toList ≤ Utf8.encode (formatTimestamp b).toList ↔ a ≤ b
  parsed : parseRFC3339 (formatTimestamp a) = some a

/-- The texts of the delivery table work as instants. -/
structure StoredTimestamps (times : DeliveryRow → Timing) (t : Tables) : Prop where
  due : ∀ now, FourDigitYear now → nextDueDelivery t now = Rows.least itemLe (dueItemsAt times t now)
  pruned : ∀ before limit, FourDigitYear before → pruneCandidates t (formatTimestamp before) limit =
    ((t.events.filter (prunableAt times t before)).take limit).map .of
  listed : ∀ env state limit, (∀ site, env.faults site = none) → 1 ≤ limit → limit ≤ 1000 →
    state ∈ ["", "pending", "retry_wait", "delivered", "dead_letter"] →
    ∃ rows, listDeliveries env state limit t = .ok rows ∧
      rows.map (·.timing) = (listedRows t state limit.toNat).map fun r => times r.delivery

section Order

variable {a b : Instant}

theorem formatTimestamp_ascii (h : FourDigitYear a) : ∀ c ∈ (formatTimestamp a).toList, c.val.toNat < 0x80 := by
  intro c hc
  rw [formatTimestamp_eq h] at hc
  rcases Digits.mem_render hc with ⟨_, below⟩ | ⟨f, hf, found⟩
  · have digit : c.val.toNat ≤ '9'.val.toNat := below
    exact lt_of_le_of_lt digit (by decide)
  · have separators : ∀ f ∈ fields, ∀ c ∈ f.2, c.val.toNat < 0x80 := by
      simp [fields, secondFields]
    exact separators f hf c found

theorem textOrder (ha : FourDigitYear a) (hb : FourDigitYear b) : TextOrder a b where
  length := by
    rw [Utf8.encode_ascii (formatTimestamp_ascii ha), Utf8.encode_ascii (formatTimestamp_ascii hb),
      List.length_map, List.length_map, formatTimestamp_eq ha, formatTimestamp_eq hb]
    simp [fields, values, secondFields, secondValues, Digits.render]
  order := formatTimestamp_le_iff ha hb
  bytes := by
    rw [← formatTimestamp_le_iff ha hb, ← not_lt, String.lt_iff_toList_lt,
      ← Utf8.encode_lt_iff (formatTimestamp_ascii hb) (formatTimestamp_ascii ha)]
    exact Iff.rfl
  parsed := parseRFC3339_formatTimestamp ha

end Order

section Columns

variable {times : DeliveryRow → Timing} {t : Tables}

theorem dueItems_at (timed : ∀ d ∈ t.deliveries, (times d).Of d) {now : Instant} (year : FourDigitYear now) :
    dueItems t (formatTimestamp now) = dueItemsAt times t now := by
  have same : ∀ (k : SinkRow), ∀ d ∈ t.deliveries,
      decide (d.sinkID = k.sinkID ∧ some d.eventSequence = t.headSequence k.sinkID ∧
        d.nextAttemptAt ≤ formatTimestamp now) =
      decide (d.sinkID = k.sinkID ∧ some d.eventSequence = t.headSequence k.sinkID ∧
        (times d).nextAttemptAt ≤ now) := by
    intro k d hd
    obtain ⟨text, year'⟩ := (timed d hd).nextAttemptAt
    rw [text, decide_eq_decide, formatTimestamp_le_iff year' year]
  simp only [dueItems, dueItemsAt, List.filter_congr (same _)]

theorem prunable_at (timed : ∀ d ∈ t.deliveries, (times d).Of d) {before : Instant}
    (year : FourDigitYear before) (e : EventRow) :
    prunable t (formatTimestamp before) e = prunableAt times t before e := by
  have same : ∀ d ∈ t.deliveriesOf e.sequence,
      d.deliveredAt.any (fun at_ => at_ < formatTimestamp before) =
        (times d).deliveredAt.any (fun at_ => at_ < before) := by
    intro d hd
    obtain ⟨text, years⟩ := (timed d (mem_deliveriesOf.mp hd).1).deliveredAt
    rw [text]
    cases finished : (times d).deliveredAt with
    | none => rfl
    | some at_ =>
      have year' := years at_ (by rw [finished]; rfl)
      have less : formatTimestamp at_ < formatTimestamp before ↔ at_ < before := by
        rw [← not_le, formatTimestamp_le_iff year year', not_le]
      change decide (formatTimestamp at_ < formatTimestamp before) = decide (at_ < before)
      rw [decide_eq_decide]
      exact less
  have all : (t.deliveriesOf e.sequence).all (fun d => d.state = .delivered ∧
        d.deliveredAt.any (fun at_ => at_ < formatTimestamp before)) =
      (t.deliveriesOf e.sequence).all (fun d => d.state = .delivered ∧
        (times d).deliveredAt.any (fun at_ => at_ < before)) := by
    rw [Bool.eq_iff_iff, List.all_eq_true, List.all_eq_true]
    exact forall₂_congr fun d hd => by rw [same d hd]
  simp only [prunable, prunableAt, all]

theorem nullableTime_map {parseError : String → String} {at_ : Option Instant}
    (years : ∀ a ∈ at_, FourDigitYear a) : nullableTime parseError (at_.map formatTimestamp) = .ok at_ := by
  cases at_ with
  | none => rfl
  | some a =>
    have parsed := parseRFC3339_formatTimestamp (years a rfl)
    simp only [Option.map_some, nullableTime, parseTime, parsed]
    rfl

theorem scanDelivery_timing {env : ListEnv} (quiet : ∀ site, env.faults site = none) (index : Nat)
    {row : JoinedDelivery} {times : Timing} (timed : times.Of row.delivery) :
    ∃ listed, scanDelivery env index row = .ok listed ∧ listed.timing = times := by
  have parsed := parseRFC3339_formatTimestamp timed.nextAttemptAt.2
  simp only [scanDelivery, attempt, quiet, timed.nextAttemptAt.1, timed.lastAttemptAt.1, timed.deliveredAt.1,
    timed.deadLetteredAt.1, parseTime, parsed, nullableTime_map timed.lastAttemptAt.2,
    nullableTime_map timed.deliveredAt.2, nullableTime_map timed.deadLetteredAt.2]
  exact ⟨_, rfl, rfl⟩

theorem scanDeliveries_timing {env : ListEnv} (quiet : ∀ site, env.faults site = none) (index : Nat)
    {rows : List JoinedDelivery} (timed : ∀ r ∈ rows, (times r.delivery).Of r.delivery) :
    ∃ listed, scanDeliveries env index rows = .ok listed ∧
      listed.map (·.timing) = rows.map fun r => times r.delivery := by
  induction rows generalizing index with
  | nil => exact ⟨[], rfl, rfl⟩
  | cons row rows ih =>
    obtain ⟨here, others⟩ := List.forall_mem_cons.mp timed
    obtain ⟨first, scanned, timing⟩ := scanDelivery_timing quiet index here
    obtain ⟨rest, scans, timings⟩ := ih (index + 1) others
    apply Exists.intro (first :: rest)
    constructor
    · rw [scanDeliveries, scanned]
      change (scanDeliveries env (index + 1) rows >>= _) = _
      rw [scans]
      rfl
    · rw [List.map_cons, List.map_cons, timing, timings]

theorem mem_listedRows {state : String} {limit : Nat} {r : JoinedDelivery} (h : r ∈ listedRows t state limit) :
    r.delivery ∈ t.deliveries := by
  have joined := (List.perm_insertionSort _ _).mem_iff.mp (List.mem_of_mem_take h)
  simp only [joinedDeliveries, List.mem_flatMap, List.mem_map, List.mem_filter] at joined
  obtain ⟨d, ⟨hd, _⟩, _, _, _, _, rfl⟩ := joined
  exact hd

end Columns

theorem stored_timestamps : (∀ a b, FourDigitYear a → FourDigitYear b → TextOrder a b) ∧
    ∀ times t, (∀ d ∈ t.deliveries, (times d).Of d) → StoredTimestamps times t := by
  constructor
  · intro a b ha hb
    exact textOrder ha hb
  · intro times t timed
    constructor
    · intro now year
      rw [nextDueDelivery, dueItems_at timed year]
    · intro before limit year
      have same : ∀ e ∈ t.events, prunable t (formatTimestamp before) e = prunableAt times t before e :=
        fun e _ => prunable_at timed year e
      rw [pruneCandidates, List.filter_congr same]
      rfl
    · intro env state limit quiet low high known
      have limits : ¬(limit < 1 ∨ 1000 < limit) := by omega
      have held : ∀ r ∈ listedRows t state limit.toNat, r.delivery ∈ t.deliveries :=
        fun r hr => mem_listedRows hr
      obtain ⟨rows, scanned, timings⟩ := scanDeliveries_timing quiet 0
        (fun r hr => timed r.delivery (held r hr))
      apply Exists.intro rows
      constructor
      · simp only [listDeliveries, refuse, if_neg limits, if_neg (not_not.mpr known), attempt, quiet, scanned]
        rfl
      · exact timings

def settledTiming (_ : DeliveryRow) : Timing := ⟨2, some 5, some 5, none⟩

theorem stored_timestamps_settled : StoredTimestamps settledTiming (runAll settled .empty) := by
  have columns : ∀ d ∈ (runAll settled .empty).deliveries, d.nextAttemptAt = formatTimestamp 2 ∧
      d.lastAttemptAt = some (formatTimestamp 5) ∧ d.deliveredAt = some (formatTimestamp 5) ∧
      d.deadLetteredAt = none := by decide +kernel
  have year : FourDigitYear 2 ∧ FourDigitYear 5 := by decide +kernel
  apply stored_timestamps.2
  intro d hd
  obtain ⟨next, last, delivered, dead⟩ := columns d hd
  have fives : ∀ a ∈ some (5 : Instant), FourDigitYear a := by
    intro a ha
    cases Option.some.inj ha
    exact year.2
  exact ⟨⟨next, year.1⟩, ⟨last, fives⟩, ⟨delivered, fives⟩, ⟨dead, nofun⟩⟩

end WriteRelay.Spool
