import WriteRelay.Base.Binary64
import WriteRelay.Base.Exposition
import WriteRelay.Monitoring.Readiness
import WriteRelay.Spool.Timestamps

/-! `/metrics`: the text that `writeMetrics` produces can be read back with help texts and kinds,
whatever the sinks are called, and a stale sample exports no counts. -/
namespace WriteRelay.Monitoring
open Clock Fallible Spool Diskspace

section Model

inductive Family
  | capturePaused
  | capturePause
  | diskProtectionEnabled
  | diskSampleFresh
  | diskSampleTimestampSeconds
  | diskPauseBelowBytes
  | diskResumeAtBytes
  | diskAvailableBytes
  | captureConnected
  | captureTransactionsTotal
  | captureLastSuccessTimestampSeconds
  | spoolSampleFresh
  | spoolSampleTimestampSeconds
  | spoolEvents
  | spoolPayloads
  | spoolFileBytes
  | sinkActive
  | deliveries
  | oldestWaitingAgeSeconds
  deriving DecidableEq

def Family.text : Family → String
  | .capturePaused => "capture_paused"
  | .capturePause => "capture_pause"
  | .diskProtectionEnabled => "disk_protection_enabled"
  | .diskSampleFresh => "disk_sample_fresh"
  | .diskSampleTimestampSeconds => "disk_sample_timestamp_seconds"
  | .diskPauseBelowBytes => "disk_pause_below_bytes"
  | .diskResumeAtBytes => "disk_resume_at_bytes"
  | .diskAvailableBytes => "disk_available_bytes"
  | .captureConnected => "capture_connected"
  | .captureTransactionsTotal => "capture_transactions_total"
  | .captureLastSuccessTimestampSeconds => "capture_last_success_timestamp_seconds"
  | .spoolSampleFresh => "spool_sample_fresh"
  | .spoolSampleTimestampSeconds => "spool_sample_timestamp_seconds"
  | .spoolEvents => "spool_events"
  | .spoolPayloads => "spool_payloads"
  | .spoolFileBytes => "spool_file_bytes"
  | .sinkActive => "sink_active"
  | .deliveries => "deliveries"
  | .oldestWaitingAgeSeconds => "oldest_waiting_age_seconds"

def Family.help : Family → String
  | .capturePaused => "Capture is paused by disk-space protection."
  | .capturePause => "Capture pause reason; fixed categories."
  | .diskProtectionEnabled => "Whether capture disk-space protection is enabled."
  | .diskSampleFresh => "Latest disk-space probe succeeded and is fresh."
  | .diskSampleTimestampSeconds => "Unix time of the latest disk-space probe attempt, or zero."
  | .diskPauseBelowBytes => "Capture pauses below this available-byte threshold."
  | .diskResumeAtBytes => "Paused capture resumes at this available-byte threshold."
  | .diskAvailableBytes => "Bytes available to this user on the spool filesystem; not reserved space."
  | .captureConnected => "Replication stream started and has not observed a disconnect."
  | .captureTransactionsTotal => "Transactions persisted and status updates sent by this process, " ++
      "including empty batches and replays."
  | .captureLastSuccessTimestampSeconds => "Unix time of last persisted batch and sent status update " ++
      "in this process, or zero."
  | .spoolSampleFresh => "One when the latest spool sample succeeded and is within the freshness limit."
  | .spoolSampleTimestampSeconds => "Unix time of the last successful spool snapshot, or zero."
  | .spoolEvents => "Retained event identities, including pruned payloads."
  | .spoolPayloads => "Event payload counts by retention state."
  | .spoolFileBytes => "Approximate SQLite file lengths; not allocated blocks or PostgreSQL WAL."
  | .sinkActive => "Whether the registered sink is currently configured."
  | .deliveries => "Durable delivery records by sink and state, including inactive sinks."
  | .oldestWaitingAgeSeconds => "Age since original capture of the oldest pending or retry_wait event " ++
      "in the snapshot, or zero."

def Family.kind : Family → String
  | .captureTransactionsTotal => "counter"
  | _ => "gauge"

def Family.backlog : Family → Bool
  | .spoolEvents | .spoolPayloads | .spoolFileBytes | .sinkActive | .deliveries
  | .oldestWaitingAgeSeconds => true
  | _ => false

inductive LabelName
  | reason
  | state
  | file
  | sink

def LabelName.text : LabelName → String
  | .reason => "reason"
  | .state => "state"
  | .file => "file"
  | .sink => "sink"

/-- A value by `%d`, or an age by `%g` of its seconds. -/
inductive Value
  | number (n : Int)
  | seconds (age : Int64)

structure Metric where
  family : Family
  labels : List (LabelName × String)
  value : Value

inductive Entry
  | header (family : Family)
  | metric (m : Metric)

def boolNumber (value : Bool) : Int := if value then 1 else 0

def sample (family : Family) (labels : List (LabelName × String)) (n : Int) : Entry :=
  .metric ⟨family, labels, .number n⟩

def gauge (family : Family) (n : Int) : List Entry := [.header family, sample family [] n]

/-- `Unix()` of a date, or zero for the zero date. -/
def unixOrZero (t : Moment) : Int := if t.isZero then 0 else t.wall / 1000000000

def diskMetrics (disk : Status) : List Entry :=
  gauge .capturePaused (boolNumber disk.paused) ++ [.header .capturePause] ++
    [Reason.lowDisk, .diskCheckFailed].map (fun reason =>
      sample .capturePause [(.reason, reason.text)] (boolNumber (disk.paused && disk.reason == reason))) ++
    gauge .diskProtectionEnabled (boolNumber disk.enabled) ++
    if disk.enabled then
      gauge .diskSampleFresh (boolNumber disk.sampleFresh) ++
        gauge .diskSampleTimestampSeconds (unixOrZero disk.sampledAt) ++
        gauge .diskPauseBelowBytes disk.pauseBelowBytes.toInt ++
        gauge .diskResumeAtBytes disk.resumeAtBytes.toInt ++
        if disk.sampleFresh then
          [.header .diskAvailableBytes, sample .diskAvailableBytes [] disk.availableBytes.toNat]
        else []
    else []

def captureMetrics (capture : CaptureStatus) : List Entry :=
  gauge .captureConnected (boolNumber capture.connected) ++
    [.header .captureTransactionsTotal, sample .captureTransactionsTotal [] capture.transactions.toNat] ++
    gauge .captureLastSuccessTimestampSeconds capture.lastCaptureUnix.toInt

def stateCounts (counts : DeliveryCounts) : List (String × Nat) :=
  [("pending", counts.pending), ("retry_wait", counts.retryWait), ("delivered", counts.delivered),
    ("dead_letter", counts.deadLetter)]

/-- `max(0, now.Sub(oldest.CapturedAt).Seconds())`, before it is printed; the capture time was
read from a text. -/
def waitingAge (now : Moment) (sink : SinkStats) : Int64 :=
  match sink.oldestWaiting with
  | none => 0
  | some oldest => max 0 (now.sub ⟨oldest.capturedAt, none⟩)

def sinkMetrics (stats : Stats) (now : Moment) : List Entry :=
  [.header .sinkActive] ++
    stats.sinks.map (fun sink => sample .sinkActive [(.sink, sink.name)] (boolNumber sink.active)) ++
    [.header .deliveries] ++
    stats.sinks.flatMap (fun sink => (stateCounts sink.deliveries).map fun (state, count) =>
      sample .deliveries [(.sink, sink.name), (.state, state)] count) ++
    [.header .oldestWaitingAgeSeconds] ++
    stats.sinks.map (fun sink =>
      .metric ⟨.oldestWaitingAgeSeconds, [(.sink, sink.name)], .seconds (waitingAge now sink)⟩)

def spoolMetrics (last : Sample) (now : Moment) : List Entry :=
  gauge .spoolEvents last.stats.eventCount ++
    [.header .spoolPayloads,
      sample .spoolPayloads [(.state, "retained")] (last.stats.eventCount - last.stats.prunedPayloads),
      sample .spoolPayloads [(.state, "pruned")] last.stats.prunedPayloads,
      .header .spoolFileBytes,
      sample .spoolFileBytes [(.file, "database")] last.storage.databaseBytes.toInt,
      sample .spoolFileBytes [(.file, "wal")] last.storage.walBytes.toInt,
      sample .spoolFileBytes [(.file, "shm")] last.storage.shmBytes.toInt] ++
    sinkMetrics last.stats now

def metrics (capture : CaptureStatus) (last : Sample) (fresh : Bool) (now : Moment) : List Entry :=
  diskMetrics capture.disk ++ captureMetrics capture ++
    gauge .spoolSampleFresh (boolNumber fresh) ++
    gauge .spoolSampleTimestampSeconds (unixOrZero last.sampledAt) ++
    if fresh then spoolMetrics last now else []

/-- `Duration.Seconds` of an age, which is not negative: the seconds and the rest are converted
one by one and added. -/
def durationSeconds (age : Int64) : ℚ :=
  let n := age.toNatClampNeg
  Binary64.round ((n / 1000000000 : ℕ) + Binary64.round ((n % 1000000000 : ℕ) / 1000000000))

def Value.text : Value → List Char
  | .number n => (toString n).toList
  | .seconds age => Binary64.format (durationSeconds age)

def Family.name (f : Family) : List Char := ("writerelay_" ++ f.text).toList

def Metric.sample (m : Metric) : Exposition.Sample where
  name := m.family.name
  labels := m.labels.map fun label => (label.1.text.toList, label.2.toList)
  value := m.value.text

def Family.header (f : Family) : List Exposition.Line :=
  [.help f.name f.help.toList, .kind f.name f.kind.toList]

def Entry.lines : Entry → List Exposition.Line
  | .header f => f.header
  | .metric m => [.sample m.sample]

def Metric.exposed (m : Metric) : Exposition.Exposed :=
  ⟨m.sample, some m.family.help.toList, some m.family.kind.toList⟩

def Entry.metrics : Entry → List Metric
  | .header _ => []
  | .metric m => [m]

def writeMetrics (capture : CaptureStatus) (last : Sample) (fresh : Bool) (now : Moment) :
    List Char :=
  Exposition.write ((metrics capture last fresh now).flatMap Entry.lines)

end Model

section ReadBack

theorem digits_line (n : Nat) : '\n' ∉ Nat.toDigits 10 n := by
  intro found
  exact absurd (Nat.isDigit_of_mem_toDigits (by decide) (by decide) found) (by decide)

theorem int_text_line (n : Int) : '\n' ∉ (toString n).toList := by
  cases n with
  | ofNat m =>
    change '\n' ∉ (toString m).toList
    simp [digits_line]
  | negSucc m =>
    change '\n' ∉ ("-" ++ toString (m + 1)).toList
    rw [String.toList_append]
    simp [digits_line]

theorem Value.text_line (v : Value) : '\n' ∉ v.text := by
  cases v with
  | number n => exact int_text_line n
  | seconds age =>
    intro found
    rcases Binary64.mem_format found with digit | mark
    · exact absurd digit (by decide)
    · exact absurd mark (by decide)

theorem durationSeconds_close (age : Int64) :
    |durationSeconds age - age.toNatClampNeg / 1000000000| ≤ age.toNatClampNeg / 1000000000 / 2 ^ 51 := by
  simp only [durationSeconds]
  generalize age.toNatClampNeg = n
  have parts : (n : ℚ) / 1000000000 =
      (n / 1000000000 : ℕ) + ((n % 1000000000 : ℕ) : ℚ) / 1000000000 := by
    nth_rewrite 1 [← Nat.div_add_mod n 1000000000]
    rw [Nat.cast_add, Nat.cast_mul]
    ring
  rw [parts]
  have whole : (0 : ℚ) ≤ (n / 1000000000 : ℕ) := Nat.cast_nonneg _
  have rest : (0 : ℚ) ≤ ((n % 1000000000 : ℕ) : ℚ) / 1000000000 := by positivity
  generalize ((n / 1000000000 : ℕ) : ℚ) = w at whole ⊢
  generalize ((n % 1000000000 : ℕ) : ℚ) / 1000000000 = r at rest ⊢
  have quotient := abs_le.mp (Binary64.round_close rest)
  have sum := abs_le.mp (Binary64.round_close (add_nonneg whole (Binary64.round_nonneg r)))
  rw [abs_le]
  constructor <;> linarith

/-- The text of an age is read as a number that rounds to the one printed, and that one is the age
up to the rounding of a quotient and a sum. -/
theorem seconds_read (age : Int64) : ∃ v, Binary64.read (Value.seconds age).text = some v ∧
    Binary64.round v = durationSeconds age ∧
    |durationSeconds age - age.toNatClampNeg / 1000000000| ≤ age.toNatClampNeg / 1000000000 / 2 ^ 51 := by
  obtain ⟨v, read, rounded⟩ :=
    Binary64.read_format (Binary64.round_representable _) (Binary64.round_nonneg _)
  exact ⟨v, read, rounded, durationSeconds_close age⟩

example : (Value.seconds 1234567890123).text = "1234.567890123".toList := by decide +kernel

theorem Family.text_plain (f : Family) :
    f.text.toList.all (fun c => c != '{' && c != ' ' && c != '\n') = true := by
  cases f <;> decide +kernel

theorem Family.help_plain (f : Family) :
    f.help.toList.all (fun c => c != '\n' && c != '\\') = true := by
  cases f <;> decide +kernel

theorem Family.kind_line (f : Family) : '\n' ∉ f.kind.toList := by
  cases f <;> decide +kernel

theorem Family.text_chars (f : Family) {c : Char} (listed : c ∈ f.text.toList) :
    c ≠ '{' ∧ c ≠ ' ' ∧ c ≠ '\n' := by
  simpa [and_assoc] using List.all_eq_true.mp f.text_plain c listed

theorem Family.name_plain (f : Family) : ∃ c rest, f.name = c :: rest ∧
    c ≠ '#' ∧ ∀ d ∈ rest, d ≠ '{' ∧ d ≠ ' ' ∧ d ≠ '\n' := by
  have fixed : ∀ d ∈ "riterelay_".toList, d ≠ '{' ∧ d ≠ ' ' ∧ d ≠ '\n' := by simp
  refine ⟨'w', "riterelay_".toList ++ f.text.toList, by simp [Family.name], by decide, ?_⟩
  intro d listed
  rcases List.mem_append.mp listed with known | named
  · exact fixed d known
  · exact f.text_chars named

theorem Family.header_plain (f : Family) : ∀ line ∈ f.header, line.Plain := by
  have chars {c : Char} (listed : c ∈ f.help.toList) : c ≠ '\n' ∧ c ≠ '\\' := by
    simpa using List.all_eq_true.mp f.help_plain c listed
  have text : ' ' ∉ f.text.toList ∧ '\n' ∉ f.text.toList :=
    ⟨fun listed => (f.text_chars listed).2.1 rfl, fun listed => (f.text_chars listed).2.2 rfl⟩
  have name : ' ' ∉ f.name ∧ '\n' ∉ f.name := by simp [Family.name, text]
  simp only [Family.header, List.forall_mem_cons, List.not_mem_nil, false_imp_iff, implies_true, and_true]
  exact ⟨⟨name, fun listed => (chars listed).1 rfl, fun listed => (chars listed).2 rfl⟩, name, f.kind_line⟩

theorem LabelName.text_plain (l : LabelName) : '=' ∉ l.text.toList := by
  cases l <;> decide

theorem Entry.plain (e : Entry) : ∀ line ∈ e.lines, line.Plain := by
  cases e with
  | header f => exact f.header_plain
  | metric m =>
    refine List.forall_mem_singleton.mpr ⟨m.family.name_plain, ?_, m.value.text_line⟩
    intro label listed
    obtain ⟨⟨name, value⟩, _, rfl⟩ := List.mem_map.mp listed
    exact name.text_plain

def families : List Family :=
  [.capturePaused, .capturePause, .diskProtectionEnabled, .diskSampleFresh, .diskSampleTimestampSeconds,
    .diskPauseBelowBytes, .diskResumeAtBytes, .diskAvailableBytes, .captureConnected,
    .captureTransactionsTotal, .captureLastSuccessTimestampSeconds, .spoolSampleFresh,
    .spoolSampleTimestampSeconds, .spoolEvents, .spoolPayloads, .spoolFileBytes, .sinkActive, .deliveries,
    .oldestWaitingAgeSeconds]

theorem Family.name_injective : Function.Injective Family.name := by
  have distinct : (families.map Family.name).Nodup := by decide +kernel
  intro f f' same
  exact List.inj_on_of_nodup_map distinct (by cases f <;> decide) (by cases f' <;> decide) same

def Entry.family : Entry → Family
  | .header f => f
  | .metric m => m.family

/-- Every metric comes after the header of its family. -/
def Headed : List Family → List Entry → Prop
  | _, [] => True
  | known, .header f :: rest => Headed (known ++ [f]) rest
  | known, .metric m :: rest => m.family ∈ known ∧ Headed known rest

theorem headers_declare {f : Family} {known : List Family} (listed : f ∈ known) :
    (known.flatMap Family.header).findSome? (Exposition.Line.helpOf f.name) = some f.help.toList ∧
      (known.flatMap Family.header).findSome? (Exposition.Line.kindOf f.name) = some f.kind.toList := by
  induction known with
  | nil => contradiction
  | cons f' known ih =>
    rw [List.flatMap_cons, List.findSome?_append, List.findSome?_append]
    by_cases same : f' = f
    · subst same
      simp [Family.header, Exposition.Line.helpOf, Exposition.Line.kindOf, List.findSome?_cons]
    · have differs : f'.name ≠ f.name := fun equal => same (Family.name_injective equal)
      have later := ih ((List.mem_cons.mp listed).resolve_left (Ne.symm same))
      simp [Family.header, Exposition.Line.helpOf, Exposition.Line.kindOf, List.findSome?_cons, differs,
        later]

theorem resolve_headed {known : List Family} {entries : List Entry} (headed : Headed known entries) :
    Exposition.resolve (known.flatMap Family.header) (entries.flatMap Entry.lines) =
      (entries.flatMap Entry.metrics).map Metric.exposed := by
  induction entries generalizing known with
  | nil => rfl
  | cons e entries ih =>
    cases e with
    | header f =>
      have next := ih headed
      rw [List.flatMap_append] at next
      simpa [Entry.lines, Entry.metrics, Family.header, Exposition.resolve] using next
    | metric m =>
      obtain ⟨help, kind⟩ := headers_declare headed.1
      have sample : Exposition.resolve (known.flatMap Family.header)
          ((Entry.metric m :: entries).flatMap Entry.lines) =
            m.exposed :: Exposition.resolve (known.flatMap Family.header)
              (entries.flatMap Entry.lines) := by
        simp [Entry.lines, Exposition.resolve, Metric.exposed, Metric.sample, help, kind]
      rw [sample, ih headed.2]
      rfl

theorem Headed.mono {known known' : List Family} {entries : List Entry} (h : Headed known entries)
    (more : known ⊆ known') : Headed known' entries := by
  induction entries generalizing known known' with
  | nil => trivial
  | cons e entries ih =>
    cases e with
    | header f => exact ih h (List.append_subset.mpr
        ⟨fun _ listed => List.mem_append_left _ (more listed), List.subset_append_right _ _⟩)
    | metric m => exact ⟨more h.1, ih h.2 more⟩

theorem Headed.append {known : List Family} {entries more : List Entry} (h : Headed known entries)
    (h' : Headed [] more) : Headed known (entries ++ more) := by
  induction entries generalizing known with
  | nil => exact h'.mono (List.nil_subset _)
  | cons e entries ih =>
    cases e with
    | header f => exact ih h
    | metric m => exact ⟨h.1, ih h.2⟩

theorem headed_family {f : Family} {entries : List Entry} (same : ∀ e ∈ entries, e.family = f)
    (plain : ∀ e ∈ entries, ∃ m, e = .metric m) : Headed [] (.header f :: entries) := by
  change Headed [f] entries
  induction entries with
  | nil => trivial
  | cons e entries ih =>
    obtain ⟨here, later⟩ := List.forall_mem_cons.mp same
    obtain ⟨⟨m, rfl⟩, others⟩ := List.forall_mem_cons.mp plain
    exact ⟨List.mem_singleton.mpr here, ih later others⟩

theorem diskMetrics_families (disk : Status) : ∀ e ∈ diskMetrics disk, e.family.backlog = false := by
  unfold diskMetrics
  cases disk.enabled <;> cases disk.sampleFresh <;>
    simp [gauge, sample, Entry.family, Family.backlog]

theorem captureMetrics_families (capture : CaptureStatus) :
    ∀ e ∈ captureMetrics capture, e.family.backlog = false := by
  simp [captureMetrics, gauge, sample, Entry.family, Family.backlog]

theorem stale_families (capture : CaptureStatus) (last : Sample) (now : Moment) :
    ∀ e ∈ metrics capture last false now, e.family.backlog = false := by
  intro e listed
  simp only [metrics, Bool.false_eq_true, if_false, List.append_nil, List.mem_append] at listed
  rcases listed with ((disk | captured) | fresh) | date
  · exact diskMetrics_families _ e disk
  · exact captureMetrics_families _ e captured
  · revert e
    simp [gauge, sample, Entry.family, Family.backlog]
  · revert e
    simp [gauge, sample, Entry.family, Family.backlog]

theorem headed_gauge (f : Family) (n : Int) : Headed [] (gauge f n) := ⟨List.mem_singleton_self f, trivial⟩

theorem headed_disk (disk : Status) : Headed [] (diskMetrics disk) := by
  unfold diskMetrics
  cases disk.enabled <;> cases disk.sampleFresh <;> simp [gauge, sample, Headed]

theorem headed_capture (capture : CaptureStatus) : Headed [] (captureMetrics capture) := by
  simp [captureMetrics, gauge, sample, Headed]

theorem headed_sinks (stats : Stats) (now : Moment) : Headed [] (sinkMetrics stats now) := by
  have active : Headed [] (.header .sinkActive :: stats.sinks.map fun sink =>
      sample .sinkActive [(.sink, sink.name)] (boolNumber sink.active)) :=
    headed_family (by simp [sample, Entry.family]) (by simp [sample])
  have counts : Headed [] (.header .deliveries :: stats.sinks.flatMap fun sink =>
      (stateCounts sink.deliveries).map fun row =>
        sample .deliveries [(.sink, sink.name), (.state, row.1)] row.2) := by
    refine headed_family ?_ ?_
    · simp only [List.mem_flatMap, List.mem_map]
      rintro _ ⟨sink, _, row, _, rfl⟩
      rfl
    · simp only [List.mem_flatMap, List.mem_map]
      rintro _ ⟨sink, _, row, _, rfl⟩
      exact ⟨_, rfl⟩
  have waiting : Headed [] (.header .oldestWaitingAgeSeconds :: stats.sinks.map fun sink =>
      .metric ⟨.oldestWaitingAgeSeconds, [(.sink, sink.name)], .seconds (waitingAge now sink)⟩) :=
    headed_family (by simp [Entry.family]) (by simp)
  unfold sinkMetrics
  rw [List.append_assoc, List.append_assoc, List.append_assoc]
  exact active.append (counts.append waiting)

theorem headed_metrics (capture : CaptureStatus) (last : Sample) (fresh : Bool) (now : Moment) :
    Headed [] (metrics capture last fresh now) := by
  have spool : Headed [] (if fresh then spoolMetrics last now else []) := by
    cases fresh with
    | false => trivial
    | true =>
      refine Headed.append ?_ (headed_sinks last.stats now)
      simp [gauge, sample, Headed]
  exact (((headed_disk capture.disk).append (headed_capture capture)).append
    (headed_gauge _ _)).append (headed_gauge _ _) |>.append spool

/-- The text of `/metrics` is read back as the metrics that were meant, each with the help text
and the kind of its family, whatever the sinks are called; the text of an age says the number that
was printed; without a fresh sample it says nothing about the spool's content. -/
theorem metrics_read_back (capture : CaptureStatus) (last : Sample) (fresh : Bool) (now : Moment) :
    Exposition.read (writeMetrics capture last fresh now) =
      some (((metrics capture last fresh now).flatMap Entry.metrics).map Metric.exposed) ∧
    (∀ age, ∃ v, Binary64.read (Value.seconds age).text = some v ∧
      Binary64.round v = durationSeconds age ∧
      |durationSeconds age - age.toNatClampNeg / 1000000000| ≤ age.toNatClampNeg / 1000000000 / 2 ^ 51) ∧
    (fresh = false → ∀ e ∈ metrics capture last fresh now, e.family.backlog = false) := by
  refine ⟨?_, seconds_read, ?_⟩
  · rw [← resolve_headed (headed_metrics capture last fresh now)]
    refine Exposition.read_write fun line listed => ?_
    obtain ⟨e, _, written⟩ := List.mem_flatMap.mp listed
    exact e.plain line written
  · rintro rfl
    exact stale_families capture last now

end ReadBack

section Account

variable {t : Tables} {k : SinkRow}

def states : List DeliveryState := [.pending, .retryWait, .delivered, .deadLetter]

def rowsIn (t : Tables) (k : SinkRow) (state : DeliveryState) : Nat :=
  t.deliveries.countP fun d => d.sinkID = k.sinkID ∧ d.state = state

theorem stateCounts_rows (t : Tables) (k : SinkRow) :
    stateCounts (deliveryCounts t k) = states.map fun state => (state.text, rowsIn t k state) := by
  have counted (state : DeliveryState) :
      (joinedRows t k).countP (fun r => r.1.state = state) = rowsIn t k state := by
    simp only [joinedRows, rowsIn, List.countP_map, List.countP_filter, Function.comp_def]
    refine List.countP_congr fun d _ => ?_
    simp [and_comm]
  simp only [stateCounts, deliveryCounts, counted]
  rfl

theorem sum_indicator {κ : Type} [DecidableEq κ] (a : κ) (keys : List κ) :
    (keys.map fun k => if a = k then 1 else 0).sum = keys.count a := by
  induction keys with
  | nil => rfl
  | cons k keys ih =>
    rw [List.map_cons, List.sum_cons, ih, List.count_cons]
    by_cases same : a = k
    · simp [same, Nat.add_comm]
    · simp [same, Ne.symm same]

theorem sum_countP_keys {α κ : Type} [DecidableEq κ] {keys : List κ} (distinct : keys.Nodup)
    (key : α → κ) {rows : List α} (known : ∀ r ∈ rows, key r ∈ keys) :
    (keys.map fun k => rows.countP fun r => key r = k).sum = rows.length := by
  induction rows with
  | nil => simp
  | cons r rows ih =>
    obtain ⟨here, later⟩ := List.forall_mem_cons.mp known
    have once := (sum_indicator (key r) keys).trans (List.count_eq_one_of_mem distinct here)
    simp only [List.countP_cons, decide_eq_true_eq, List.sum_map_add, ih later, once, List.length_cons]

theorem sum_states (t : Tables) (k : SinkRow) :
    (states.map (rowsIn t k)).sum = t.deliveries.countP fun d => d.sinkID = k.sinkID := by
  have listed : ∀ d ∈ t.deliveries.filter (fun d => d.sinkID = k.sinkID), d.state ∈ states := by
    intro d _
    cases d.state <;> decide
  rw [List.countP_eq_length_filter, ← sum_countP_keys (by decide) (·.state) listed]
  refine congrArg List.sum (List.map_congr_left fun state _ => ?_)
  simp only [rowsIn, List.countP_filter, Bool.decide_and, Bool.and_comm]

theorem rows_account (sound : t.Sound) :
    ((sinksByName t).map fun k => (states.map (rowsIn t k)).sum).sum = t.deliveries.length := by
  have sorted : (sinksByName t).Perm t.sinks := List.perm_insertionSort _ _
  have known : ∀ d ∈ t.deliveries, d.sinkID ∈ t.sinks.map (·.sinkID) := by
    intro d stored
    obtain ⟨k, registered, same⟩ := sound.ofSink d stored
    exact List.mem_map.mpr ⟨k, registered, same⟩
  rw [(sorted.map _).sum_eq, ← sum_countP_keys sound.sinks.ids (·.sinkID) known, List.map_map]
  refine congrArg List.sum (List.map_congr_left fun k _ => ?_)
  exact sum_states t k

def deliveryMetric (t : Tables) (k : SinkRow) (state : DeliveryState) : Metric :=
  ⟨.deliveries, [(.sink, k.sinkName), (.state, state.text)], .number (rowsIn t k state)⟩

def ofDeliveries (entries : List Entry) : List Metric :=
  (entries.flatMap Entry.metrics).filter (·.family = .deliveries)

theorem ofDeliveries_append (xs ys : List Entry) :
    ofDeliveries (xs ++ ys) = ofDeliveries xs ++ ofDeliveries ys := by
  simp [ofDeliveries]

theorem ofDeliveries_other {entries : List Entry} (other : ∀ e ∈ entries, e.family ≠ .deliveries) :
    ofDeliveries entries = [] := by
  refine List.filter_eq_nil_iff.mpr fun m listed => ?_
  obtain ⟨e, written, shown⟩ := List.mem_flatMap.mp listed
  cases e with
  | header f => contradiction
  | metric m' =>
    obtain rfl := List.mem_singleton.mp shown
    have differs : m.family ≠ .deliveries := other _ written
    simpa using differs

theorem ofDeliveries_sinks (sinks : List SinkStats) :
    ofDeliveries (sinks.flatMap fun sink => (stateCounts sink.deliveries).map fun (state, count) =>
      sample .deliveries [(.sink, sink.name), (.state, state)] count) =
    sinks.flatMap fun sink => (stateCounts sink.deliveries).map fun (state, count) =>
      ⟨.deliveries, [(.sink, sink.name), (.state, state)], .number count⟩ := by
  induction sinks with
  | nil => rfl
  | cons sink sinks ih => rw [List.flatMap_cons, ofDeliveries_append, ih]; rfl

theorem ofDeliveries_sinkMetrics (stats : Stats) (now : Moment) :
    ofDeliveries (sinkMetrics stats now) =
      stats.sinks.flatMap fun sink => (stateCounts sink.deliveries).map fun (state, count) =>
        ⟨.deliveries, [(.sink, sink.name), (.state, state)], .number count⟩ := by
  have active : ofDeliveries (stats.sinks.map fun sink =>
      sample .sinkActive [(.sink, sink.name)] (boolNumber sink.active)) = [] :=
    ofDeliveries_other (by simp [sample, Entry.family])
  have waiting : ofDeliveries (stats.sinks.map fun sink =>
      .metric ⟨.oldestWaitingAgeSeconds, [(.sink, sink.name)], .seconds (waitingAge now sink)⟩) = [] :=
    ofDeliveries_other (by simp [Entry.family])
  simp only [sinkMetrics, ofDeliveries_append, active, waiting, ofDeliveries_sinks]
  simp [ofDeliveries, Entry.metrics]

theorem ofDeliveries_metrics (capture : CaptureStatus) (last : Sample) (now : Moment) :
    ofDeliveries (metrics capture last true now) = ofDeliveries (sinkMetrics last.stats now) := by
  have quiet {entries : List Entry} (h : ∀ e ∈ entries, e.family.backlog = false) :
      ofDeliveries entries = [] := by
    refine ofDeliveries_other fun e listed counted => ?_
    have silent := h e listed
    rw [counted] at silent
    contradiction
  simp only [metrics, if_true, ofDeliveries_append, quiet (diskMetrics_families capture.disk),
    quiet (captureMetrics_families capture), spoolMetrics]
  rfl

theorem readStats_sinks {env : ReadEnv} {last : Sample} (read : readStats env t = .ok last) :
    List.Forall₂ (fun k s => s.name = k.sinkName ∧ s.deliveries = deliveryCounts t k) (sinksByName t)
      last.stats.sinks := by
  obtain ⟨_, _, read⟩ := bind_ok_iff.mp read
  obtain ⟨stats, snapshot, read⟩ := bind_ok_iff.mp read
  obtain ⟨storage, _, read⟩ := bind_ok_iff.mp read
  rw [← Except.ok.inj read]
  simp only [readStatsSnapshot, bind_ok_iff] at snapshot
  obtain ⟨_, _, _, _, _, _, _, _, _, _, _, _, _, _, _, loop, _, _, _, _, _, _, done⟩ := snapshot
  cases done
  obtain ⟨sinks, rows, rfl⟩ := readSinks_ok_iff.mp loop
  rw [foldl_add_sinks]
  refine rows.imp fun k s row => ⟨sinkStats_name row, ?_⟩
  obtain ⟨_, _, row⟩ := bind_ok_iff.mp row
  obtain ⟨_, _, row⟩ := bind_ok_iff.mp row
  rw [← Except.ok.inj row]

def Metric.number (m : Metric) : Int :=
  match m.value with
  | .number n => n
  | .seconds _ => 0

/-- The exported deliveries are the rows of the spool, by sink and state, each counted once. -/
theorem deliveries_account (reachable : spool.Reachable t) {env : ReadEnv} {last : Sample}
    (read : readStats env t = .ok last) (capture : CaptureStatus) (now : Moment) :
    ofDeliveries (metrics capture last true now) =
      (sinksByName t).flatMap (fun k => states.map (deliveryMetric t k)) ∧
    ((ofDeliveries (metrics capture last true now)).map Metric.number).sum = t.deliveries.length := by
  have exported : ofDeliveries (metrics capture last true now) =
      (sinksByName t).flatMap fun k => states.map (deliveryMetric t k) := by
    rw [ofDeliveries_metrics, ofDeliveries_sinkMetrics]
    have rows := readStats_sinks read
    generalize sinksByName t = ks at rows ⊢
    generalize last.stats.sinks = sinks at rows ⊢
    induction rows with
    | nil => rfl
    | cons row _ ih =>
      rw [List.flatMap_cons, List.flatMap_cons, ih, row.1, row.2, stateCounts_rows]
      rfl
  refine ⟨exported, ?_⟩
  rw [exported, ← rows_account (spool_valid reachable).sound]
  induction sinksByName t with
  | nil => rfl
  | cons k ks ih =>
    rw [List.flatMap_cons, List.map_append, List.sum_append, ih, List.map_cons, List.sum_cons, Nat.cast_add]
    rfl

theorem captured_read : (readStats calmRead (runAll captured .empty)).isOk = true := by
  decide +kernel

theorem deliveries_account_captured : ∃ last, readStats calmRead (runAll captured .empty) = .ok last ∧
    ((ofDeliveries (metrics started.status last true started.clock.moment)).map Metric.number).sum =
      (runAll captured .empty).deliveries.length := by
  cases read : readStats calmRead (runAll captured .empty) with
  | error e =>
    have ok := captured_read
    rw [read] at ok
    contradiction
  | ok last =>
    have reachable : spool.Reachable (runAll captured .empty) := spool_runAll (spool.reachable_init rfl) _
    exact ⟨last, rfl, (deliveries_account reachable read started.status started.clock.moment).2⟩

end Account

end WriteRelay.Monitoring
