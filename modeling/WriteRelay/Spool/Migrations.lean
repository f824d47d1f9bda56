import WriteRelay.Spool.Stats

/-! Opening a spool file: the version check and the embedded migrations, by any number of
processes at once, with a fault or a stop at every statement. -/
namespace WriteRelay.Spool
open Clock Fallible Runs

section Model

inductive TableName
  | schemaMigrations
  | spoolMetadata
  | events
  | deliverySinks
  | deliveries
  deriving DecidableEq

def TableName.text : TableName → String
  | .schemaMigrations => "schema_migrations"
  | .spoolMetadata => "spool_metadata"
  | .events => "events"
  | .deliverySinks => "delivery_sinks"
  | .deliveries => "deliveries"

inductive ObjectName
  | eventsTransactionOrder
  | deliveriesDue
  | deliveriesSinkOrder
  | eventsRetainedPayloads
  | eventsPruneRequiresDelivered
  | eventsPrunedPayloadImmutable
  | deliveriesRequirePayload
  | deliveriesPrunedTerminal
  deriving DecidableEq

def ObjectName.text : ObjectName → String
  | .eventsTransactionOrder => "events_transaction_order"
  | .deliveriesDue => "deliveries_due"
  | .deliveriesSinkOrder => "deliveries_sink_order"
  | .eventsRetainedPayloads => "events_retained_payloads"
  | .eventsPruneRequiresDelivered => "events_prune_requires_delivered"
  | .eventsPrunedPayloadImmutable => "events_pruned_payload_immutable"
  | .deliveriesRequirePayload => "deliveries_require_payload"
  | .deliveriesPrunedTerminal => "deliveries_pruned_terminal"

/-- The objects of the file, its journal mode, the rows of `schema_migrations`, and the rows of
the other tables. `pruningTime` says that `events` has the column `payload_pruned_at`. -/
structure Database where
  created : List TableName
  named : List ObjectName
  pruningTime : Bool
  wal : Bool
  versions : List (Nat × String)
  tables : Tables

def Database.fresh : Database := ⟨[], [], false, false, [], .empty⟩

inductive Ddl
  | createTable (table : TableName)
  | createIndex (name : ObjectName) (table : TableName)
  | createTrigger (name : ObjectName) (table : TableName)
  | addPruningTime
  | recordVersion (version : Nat)

def Tables.created (t : Tables) : TableName → Tables
  | .schemaMigrations => t
  | .spoolMetadata => { t with durableLSN := none }
  | .events => { t with events := [], lastSequence := 0 }
  | .deliverySinks => { t with sinks := [], lastSinkID := 0 }
  | .deliveries => { t with deliveries := [] }

def Ddl.exec (now : String) (d : Database) : Ddl → Except String Database
  | .createTable table =>
    if table ∈ d.created then .error ("table " ++ table.text ++ " already exists")
    else .ok { d with
      created := d.created ++ [table]
      versions := if table = .schemaMigrations then [] else d.versions
      tables := d.tables.created table }
  | .createIndex name table =>
    if table ∉ d.created then .error ("no such table: main." ++ table.text)
    else if name ∈ d.named then .error ("index " ++ name.text ++ " already exists")
    else .ok { d with named := d.named ++ [name] }
  | .createTrigger name table =>
    if table ∉ d.created then .error ("no such table: main." ++ table.text)
    else if name ∈ d.named then .error ("trigger " ++ name.text ++ " already exists")
    else .ok { d with named := d.named ++ [name] }
  | .addPruningTime =>
    if .events ∉ d.created then .error "no such table: events"
    else if d.pruningTime then .error "duplicate column name: payload_pruned_at"
    else .ok { d with
      pruningTime := true
      tables := { d.tables with
        events := d.tables.events.map fun e => { e with payloadPrunedAt := none } } }
  | .recordVersion version =>
    if .schemaMigrations ∉ d.created then .error "no such table: schema_migrations"
    else if version ∈ d.versions.map Prod.fst then
      .error "UNIQUE constraint failed: schema_migrations.version"
    else .ok { d with versions := d.versions ++ [(version, now)] }

def initialSql : List Ddl :=
  [.createTable .schemaMigrations, .createTable .spoolMetadata, .createTable .events,
    .createIndex .eventsTransactionOrder .events, .recordVersion 1]

def deliverySql : List Ddl :=
  [.createTable .deliverySinks, .createTable .deliveries, .createIndex .deliveriesDue .deliveries,
    .createIndex .deliveriesSinkOrder .deliveries, .recordVersion 2]

def payloadRetentionSql : List Ddl :=
  [.addPruningTime, .createIndex .eventsRetainedPayloads .events,
    .createTrigger .eventsPruneRequiresDelivered .events,
    .createTrigger .eventsPrunedPayloadImmutable .events,
    .createTrigger .deliveriesRequirePayload .deliveries,
    .createTrigger .deliveriesPrunedTerminal .deliveries, .recordVersion 3]

def embedded : List (String × List Ddl) :=
  [("001_initial.sql", initialSql), ("002_delivery.sql", deliverySql),
    ("003_payload_retention.sql", payloadRetentionSql)]

def migrationPrefix (version : Nat) : List Char :=
  List.leftpad 3 '0' (toString version).toList ++ ['_']

def migrationScript (version : Nat) : Option (List Ddl) :=
  (embedded.find? fun entry => (migrationPrefix version).isPrefixOf entry.1.toList).map Prod.snd

inductive MigrationSite
  | readDirectory
  | readFile
  | begin
  | statement (index : Nat)

/-- A commit may report an error although the transaction turns out to be durable. -/
structure MigrationEnv where
  now : String
  faults : MigrationSite → Option String
  commit : Option (String × Bool)

def runScript (env : MigrationEnv) : Nat → List Ddl → Database → Except String Database
  | _, [], d => .ok d
  | index, statement :: rest, d =>
    match env.faults (.statement index) with
    | some text => .error text
    | none => statement.exec env.now d >>= runScript env (index + 1) rest

def readMigration (env : MigrationEnv) (version : Nat) : Except Failure (List Ddl) := do
  attempt (env.faults .readDirectory) (wrapf none "read embedded migrations: %w" [])
  match migrationScript version with
  | none => .error (errorf none "embedded migration %d is missing" [toString version])
  | some script =>
    attempt (env.faults .readFile) (wrapf none "read embedded migration %d: %w" [toString version])
    return script

def migrationFailure (format : String) (version : Nat) (text : String) : Failure :=
  wrapf (some .durability) format [toString version] (.fault text)

def runMigration (env : MigrationEnv) (version : Nat) (script : List Ddl) (d : Database) :
    Database × Except Failure Unit :=
  match env.faults .begin with
  | some text => (d, .error (migrationFailure "%w: begin migration %d: %v" version text))
  | none =>
    match runScript env 0 script d with
    | .error text => (d, .error (migrationFailure "%w: apply migration %d: %v" version text))
    | .ok d' =>
      match env.commit with
      | none => (d', .ok ())
      | some (text, durable) =>
        (if durable then d' else d,
          .error (migrationFailure "%w: commit migration %d: %v" version text))

def applyMigration (env : MigrationEnv) (version : Nat) (d : Database) :
    Database × Except Failure Unit :=
  match readMigration env version with
  | .error e => (d, .error e)
  | .ok script => runMigration env version script d

/-- `contains`, which tries every offset. -/
def contains (value fragment : List Char) : Bool := value.tails.any fragment.isPrefixOf

def stringsContainsNoTable (text : String) : Bool :=
  contains text.toList "no such table".toList || contains text.toList "does not exist".toList

/-- `SELECT COALESCE(MAX(version), 0) FROM schema_migrations`. -/
def Database.version (d : Database) : Nat := (d.versions.map Prod.fst).foldl max 0

def readVersion (fault : Option String) (d : Database) : Except String Nat :=
  match fault with
  | some text => .error text
  | none =>
    if .schemaMigrations ∈ d.created then .ok d.version
    else .error "SQL logic error: no such table: schema_migrations (1)"

def startingVersion (fault : Option String) (d : Database) : Except Failure Nat :=
  match readVersion fault d with
  | .error text =>
    if stringsContainsNoTable text then .ok 0
    else .error (wrapf none "read spool schema version: %w" [] (.fault text))
  | .ok version =>
    if currentSchemaVersion < version then
      .error (errorf none "unsupported spool schema version %d (maximum %d)"
        [toString version, toString currentSchemaVersion])
    else .ok version

/-- The loop of `initialize`, with the number of versions that are left. -/
def applyMigrations (env : Nat → MigrationEnv) : Nat → Nat → Database → Database × Except Failure Unit
  | 0, _, d => (d, .ok ())
  | left + 1, next, d =>
    match applyMigration (env next) next d with
    | (d', .ok _) => applyMigrations env left (next + 1) d'
    | (d', .error e) => (d', .error e)

def pragmas : List String :=
  ["PRAGMA journal_mode = WAL", "PRAGMA synchronous = FULL", "PRAGMA foreign_keys = ON",
    "PRAGMA busy_timeout = 5000"]

inductive PathInfo
  | missing
  | found (symlink : Bool)
  | failed (text : String)

/-- Where SQLite cannot change the journal mode, it keeps the old one without an error; and it
may have changed it although the statement reports one. -/
structure OpenEnv where
  path : String
  mkdirFault : Option String
  info : PathInfo
  openFault : Option String
  pragmaFault : String → Option String
  switches : Bool
  versionFault : Option String
  migration : Nat → MigrationEnv
  chmodFault : Option String

/-- Only the journal mode is kept in the file; the others belong to the connection. -/
def Database.pragma (env : OpenEnv) (statement : String) (d : Database) : Database :=
  if statement = "PRAGMA journal_mode = WAL" ∧ env.switches = true then { d with wal := true } else d

def applyPragmas (env : OpenEnv) : List String → Database → Database × Except Failure Unit
  | [], d => (d, .ok ())
  | statement :: rest, d =>
    match attempt (env.pragmaFault statement) (wrapf (some .durability) "%w: apply %q: %v" [statement]) with
    | .error e => (d.pragma env statement, .error e)
    | .ok _ => applyPragmas env rest (d.pragma env statement)

def initialize_ (env : OpenEnv) (d : Database) : Database × Except Failure Unit :=
  match applyPragmas env pragmas d with
  | (d', .error e) => (d', .error e)
  | (d', .ok _) =>
    match startingVersion env.versionFault d' with
    | .error e => (d', .error e)
    | .ok version =>
      applyMigrations env.migration (currentSchemaVersion - version) (version + 1) d'

def inspectPath (env : OpenEnv) : Except Failure Unit := do
  refuse (env.path = "") (errorf none "spool path is required" [])
  attempt env.mkdirFault (wrapf none "create spool directory: %w" [])
  match env.info with
  | .found true => .error (errorf none "spool path must not be a symbolic link" [])
  | .failed text => .error (wrapf none "inspect spool path: %w" [] (.fault text))
  | .missing | .found false => .ok ()
  attempt env.openFault (wrapf none "open SQLite spool: %w" [])

def openWithHooks (env : OpenEnv) (d : Database) : Database × Except Failure Unit :=
  match inspectPath env with
  | .error e => (d, .error e)
  | .ok _ =>
    match initialize_ env d with
    | (d', .error e) => (d', .error e)
    | (d', .ok _) => (d', attempt env.chmodFault (wrapf none "restrict spool permissions: %w" []))

end Model

section Upgrade

def Ddl.table : Ddl → Option TableName
  | .createTable table => some table
  | _ => none

def Ddl.name : Ddl → Option ObjectName
  | .createIndex name _ | .createTrigger name _ => some name
  | _ => none

def statementsUpTo (v : Nat) : List Ddl := (embedded.take v).flatMap Prod.snd

/-- A file that the release with schema version `v` left behind; nothing is there at 0. -/
structure Database.At (d : Database) (v : Nat) : Prop where
  created : d.created = (statementsUpTo v).filterMap Ddl.table
  named : d.named = (statementsUpTo v).filterMap Ddl.name
  pruningTime : d.pruningTime = decide (3 ≤ v)
  versions : d.versions.map Prod.fst = List.range' 1 v
  unpruned : v < 3 → ∀ e ∈ d.tables.events, e.payloadPrunedAt = none
  undelivered : v < 2 → d.tables.sinks = [] ∧ d.tables.lastSinkID = 0 ∧ d.tables.deliveries = []
  empty : v < 1 → d.tables = .empty

def execScript (now : String) (script : List Ddl) (d : Database) : Except String Database :=
  script.foldlM (fun d statement => statement.exec now d) d

theorem runScript_cases (env : MigrationEnv) (script : List Ddl) (index : Nat) (d : Database) :
    (∃ text, runScript env index script d = .error text) ∨
      runScript env index script d = execScript env.now script d := by
  induction script generalizing index d with
  | nil => exact .inr rfl
  | cons statement rest ih =>
    unfold runScript
    split
    · rename_i text _
      exact .inl ⟨text, rfl⟩
    · rw [execScript, List.foldlM_cons]
      cases statement.exec env.now d with
      | error text => exact .inl ⟨text, rfl⟩
      | ok d' => exact ih (index + 1) d'

theorem runScript_unfaulted {env : MigrationEnv} (quiet : ∀ site, env.faults site = none)
    (script : List Ddl) (index : Nat) (d : Database) :
    runScript env index script d = execScript env.now script d := by
  induction script generalizing index d with
  | nil => rfl
  | cons statement rest ih =>
    rw [runScript, quiet, execScript, List.foldlM_cons]
    cases statement.exec env.now d with
    | error text => rfl
    | ok d' => exact ih (index + 1) d'

theorem fresh_at : Database.fresh.At 0 := by
  constructor <;> simp [Database.fresh, statementsUpTo, Tables.empty]

def Database.withObjects (v : Nat) (wal : Bool) (versions : List (Nat × String)) (t : Tables) : Database :=
  ⟨(statementsUpTo v).filterMap Ddl.table, (statementsUpTo v).filterMap Ddl.name, decide (3 ≤ v), wal,
    versions, t⟩

theorem Database.At.eq {d : Database} {v : Nat} (h : d.At v) :
    d = .withObjects v d.wal d.versions d.tables := by
  obtain ⟨_, _, _, _, _, _⟩ := d
  obtain ⟨rfl, rfl, rfl, -, -, -, -⟩ := h
  rfl

theorem Database.At.later {d : Database} {v : Nat} (h : d.At v) (now : String) :
    (withObjects (v + 1) d.wal (d.versions ++ [(v + 1, now)]) d.tables).At (v + 1) where
  created := rfl
  named := rfl
  pruningTime := rfl
  versions := by
    have (version : Nat) : List.range' 1 version ++ [version + 1] = List.range' 1 (version + 1) := by
      rw [List.range'_concat]
      simp [Nat.add_comm]
    simp [withObjects, h.versions, this]
  unpruned older := h.unpruned (by omega)
  undelivered older := h.undelivered (by omega)
  empty older := h.empty (by omega)

theorem Database.At.unrecorded {d : Database} {v : Nat} (h : d.At v) :
    v + 1 ∉ d.versions.map Prod.fst := by
  rw [h.versions, List.mem_range'_1]
  omega

theorem initial_upgrades {d : Database} (h : d.At 0) (now : String) :
    execScript now initialSql d = .ok (.withObjects 1 d.wal (d.versions ++ [(1, now)]) d.tables) := by
  have unrecorded : d.versions = [] := List.map_eq_nil_iff.mp h.versions
  rw [h.eq, unrecorded, h.empty (by decide)]
  rfl

theorem recordVersion_last {d : Database} {version : Nat} {now : String}
    (present : .schemaMigrations ∈ d.created) (unrecorded : version ∉ d.versions.map Prod.fst) :
    execScript now [.recordVersion version] d =
      .ok { d with versions := d.versions ++ [(version, now)] } := by
  change ((if _ then _ else if _ then _ else _) >>= pure) = _
  rw [if_neg (not_not_intro present), if_neg unrecorded]
  rfl

theorem delivery_upgrades {d : Database} (h : d.At 1) (now : String) :
    execScript now deliverySql d = .ok (.withObjects 2 d.wal (d.versions ++ [(2, now)]) d.tables) := by
  have rows : (d.tables.created .deliverySinks).created .deliveries = d.tables := by
    obtain ⟨sinks, lastSinkID, deliveries⟩ := h.undelivered (by decide)
    simp [Tables.created, ← sinks, ← lastSinkID, ← deliveries]
  calc execScript now deliverySql d
      = execScript now deliverySql (.withObjects 1 d.wal d.versions d.tables) := congrArg _ h.eq
    _ = execScript now [.recordVersion 2] (.withObjects 2 d.wal d.versions
        ((d.tables.created .deliverySinks).created .deliveries)) := rfl
    _ = _ := by
      rw [rows]
      exact recordVersion_last
        (by decide : .schemaMigrations ∈ (statementsUpTo 2).filterMap Ddl.table) h.unrecorded

theorem payloadRetention_upgrades {d : Database} (h : d.At 2) (now : String) :
    execScript now payloadRetentionSql d = .ok (.withObjects 3 d.wal (d.versions ++ [(3, now)]) d.tables) := by
  have rows : d.tables.events.map (fun e => { e with payloadPrunedAt := none }) = d.tables.events :=
    (List.map_congr_left fun e mem => by rw [← h.unpruned (by decide) e mem]).trans (List.map_id' _)
  calc execScript now payloadRetentionSql d
      = execScript now payloadRetentionSql (.withObjects 2 d.wal d.versions d.tables) := congrArg _ h.eq
    _ = execScript now [.recordVersion 3] (.withObjects 3 d.wal d.versions { d.tables with
        events := d.tables.events.map fun e => { e with payloadPrunedAt := none } }) := rfl
    _ = _ := by
      rw [rows]
      exact recordVersion_last
        (by decide : .schemaMigrations ∈ (statementsUpTo 3).filterMap Ddl.table) h.unrecorded

theorem execScript_next {d : Database} {v : Nat} (h : d.At v) (older : v < 3) (now : String)
    {script : List Ddl} (found : migrationScript (v + 1) = some script) :
    execScript now script d = .ok (.withObjects (v + 1) d.wal (d.versions ++ [(v + 1, now)]) d.tables) := by
  obtain rfl | rfl | rfl : v = 0 ∨ v = 1 ∨ v = 2 := by omega
  · obtain rfl : initialSql = script := Option.some.inj found
    exact initial_upgrades h now
  · obtain rfl : deliverySql = script := Option.some.inj found
    exact delivery_upgrades h now
  · obtain rfl : payloadRetentionSql = script := Option.some.inj found
    exact payloadRetention_upgrades h now

theorem createTable_refused {now : String} {table : TableName} {rest : List Ddl} {d : Database}
    (present : table ∈ d.created) :
    execScript now (.createTable table :: rest) d =
      .error ("table " ++ table.text ++ " already exists") := by
  rw [execScript, List.foldlM_cons, Ddl.exec, if_pos present]
  rfl

theorem Database.At.present {d : Database} {v : Nat} (h : d.At v) (known : v ≤ 3) (created : 0 < v) :
    .schemaMigrations ∈ d.created := by
  rw [h.created]
  interval_cases v <;> decide

theorem execScript_refused {d : Database} {v n : Nat} (h : d.At v) (known : v ≤ 3) (positive : 1 ≤ n)
    (applied : n ≤ v) (now : String) {script : List Ddl} (found : migrationScript n = some script) :
    ∃ text, execScript now script d = .error text := by
  obtain rfl | rfl | rfl : n = 1 ∨ n = 2 ∨ n = 3 := by omega
  · obtain rfl : initialSql = script := Option.some.inj found
    exact ⟨_, createTable_refused (h.present known (by omega))⟩
  · obtain rfl : deliverySql = script := Option.some.inj found
    have present : TableName.deliverySinks ∈ d.created := by
      rw [h.created]
      interval_cases v <;> decide
    exact ⟨_, createTable_refused present⟩
  · obtain rfl : payloadRetentionSql = script := Option.some.inj found
    obtain rfl : v = 3 := by omega
    rw [h.eq]
    exact ⟨_, rfl⟩

/-- What a migration can do to the file and to the process that runs it. -/
inductive Migrated (d : Database) (version : Nat) : Database × Except Failure Unit → Prop
  | refused (e : Failure) : Migrated d version (d, .error e)
  | applied {now : String} {script : List Ddl} {d' : Database} (result : Except Failure Unit) :
      migrationScript version = some script → execScript now script d = .ok d' →
      Migrated d version (d', result)

theorem readMigration_found {env : MigrationEnv} {version : Nat} {script : List Ddl}
    (read : readMigration env version = .ok script) : migrationScript version = some script := by
  obtain ⟨_, _, rest⟩ := bind_ok_iff.mp read
  split at rest
  · contradiction
  · rename_i script' found
    obtain ⟨_, _, same⟩ := bind_ok_iff.mp rest
    obtain rfl := Except.ok.inj same
    exact found

theorem applyMigration_migrated (env : MigrationEnv) (version : Nat) (d : Database) :
    Migrated d version (applyMigration env version d) := by
  unfold applyMigration
  cases read : readMigration env version with
  | error e => exact .refused e
  | ok script =>
    have found := readMigration_found read
    change Migrated d version (runMigration env version script d)
    unfold runMigration
    split
    · exact .refused _
    · rcases runScript_cases env script 0 d with ⟨text, failed⟩ | same
      · rw [failed]
        exact .refused _
      · rw [same]
        cases ran : execScript env.now script d with
        | error text => exact .refused _
        | ok d' =>
          dsimp only
          split
          · exact .applied _ found ran
          · rename_i text durable _
            cases durable with
            | false => exact .refused _
            | true => exact .applied _ found ran

theorem Migrated.at {d : Database} {v n : Nat} {r : Database × Except Failure Unit}
    (ran : Migrated d n r) (h : d.At v) (known : v ≤ 3) (positive : 1 ≤ n) (next : n ≤ v + 1)
    (last : n ≤ 3) :
    ∃ v', v ≤ v' ∧ v' ≤ 3 ∧ r.1.At v' ∧ r.1.tables = d.tables ∧ (r.2 = .ok () → v' = n) := by
  cases ran with
  | refused e => exact ⟨v, le_rfl, known, h, rfl, by simp⟩
  | applied result found ran =>
    by_cases applied : n ≤ v
    · obtain ⟨text, failed⟩ := execScript_refused h known positive applied _ found
      rw [failed] at ran
      contradiction
    · obtain rfl : n = v + 1 := by omega
      rw [execScript_next h (by omega) _ found] at ran
      obtain rfl := Except.ok.inj ran
      exact ⟨v + 1, by omega, last, h.later _, rfl, fun _ => rfl⟩

end Upgrade

section Processes

inductive Process
  | initializing
  | migrating (next : Nat)
  | opened

structure Shared where
  database : Database
  processes : Nat → Option Process

def Shared.set (s : Shared) (p : Nat) (process : Option Process) : Shared :=
  { s with processes := Function.update s.processes p process }

theorem Shared.set_set (s : Shared) (p : Nat) (first last : Option Process) :
    (s.set p first).set p last = s.set p last := by
  simp [Shared.set]

/-- Anything a process can do to the file. A process can stop at every point, also because
a call failed. `Prune` opens the file on its own and asks for the current version and for WAL. -/
inductive Shared.Step : Shared → Shared → Prop
  | start (s : Shared) (p : Nat) : Step s (s.set p (some .initializing))
  | switch (s : Shared) (p : Nat) : s.processes p = some .initializing →
      Step s { s with database.wal := true }
  | readVersion (s : Shared) (p : Nat) (fault : Option String) (version : Nat) :
      s.processes p = some .initializing → startingVersion fault s.database = .ok version →
      Step s (s.set p (some (.migrating (version + 1))))
  | migrate (s : Shared) (p : Nat) (env : MigrationEnv) (next : Nat) :
      s.processes p = some (.migrating next) → next ≤ currentSchemaVersion →
      Step s ({ s with database := (applyMigration env next s.database).1 }.set p
        (match (applyMigration env next s.database).2 with
          | .ok _ => some (.migrating (next + 1))
          | .error _ => none))
  | opened (s : Shared) (p : Nat) (next : Nat) :
      s.processes p = some (.migrating next) → currentSchemaVersion < next →
      Step s (s.set p (some .opened))
  | operate (s : Shared) (p : Nat) (op : Operation) :
      s.processes p = some .opened →
      Step s { s with database.tables := (op.exec s.database.tables).tables }
  | prune (s : Shared) (env : PruneEnv) (options : PruneOptions) :
      Spool.readVersion none s.database = .ok currentSchemaVersion → s.database.wal = true →
      Step s { s with
        database.tables := ((Operation.prune env options).exec s.database.tables).tables }
  | stop (s : Shared) (p : Nat) : Step s (s.set p none)

def sharedSpool (d : Database) : System Shared where
  init s := s = ⟨d, fun _ => none⟩
  step := Shared.Step

theorem version_of_at {d : Database} {v : Nat} (h : d.At v) (known : v ≤ 3) : d.version = v := by
  rw [Database.version, h.versions]
  interval_cases v <;> rfl

theorem readVersion_ok {d : Database} {version : Nat} {fault : Option String}
    (read : readVersion fault d = .ok version) : version = d.version := by
  unfold readVersion at read
  split at read
  · contradiction
  · split at read
    · exact (Except.ok.inj read).symm
    · contradiction

theorem startingVersion_cases {d : Database} {version : Nat} {fault : Option String}
    (read : startingVersion fault d = .ok version) :
    version = 0 ∨ version = d.version ∧ version ≤ currentSchemaVersion := by
  unfold startingVersion at read
  split at read
  · split at read
    · exact .inl (Except.ok.inj read).symm
    · contradiction
  · rename_i found present
    split at read
    · contradiction
    · obtain rfl := Except.ok.inj read
      exact .inr ⟨readVersion_ok present, by omega⟩

/-- The file of a shared spool that started at version `v₀` with the rows `t₀`. -/
structure Shared.Upgraded (v₀ : Nat) (t₀ : Tables) (v : Nat) (s : Shared) : Prop where
  grown : v₀ ≤ v
  known : v ≤ 3
  at_ : s.database.At v
  valid : s.database.tables.Valid
  kept : t₀.Extends s.database.tables
  same : v < 3 → s.database.tables = t₀
  opened : ∀ p, s.processes p = some .opened → v = 3
  behind : ∀ p next, s.processes p = some (.migrating next) → 1 ≤ next ∧ next ≤ v + 1

section Run

variable {v₀ v : Nat} {t₀ : Tables} {s : Shared}

theorem Shared.Upgraded.set (h : s.Upgraded v₀ t₀ v) (p : Nat) {process : Option Process}
    (opened : process = some .opened → v = 3)
    (behind : ∀ next, process = some (.migrating next) → 1 ≤ next ∧ next ≤ v + 1) :
    (s.set p process).Upgraded v₀ t₀ v := by
  refine { h with opened := ?_, behind := ?_ }
  · intro q now
    rcases eq_or_ne q p with rfl | other
    · exact opened (by simpa [Shared.set] using now)
    · exact h.opened q (by simpa [Shared.set, other] using now)
  · intro q next now
    rcases eq_or_ne q p with rfl | other
    · exact behind next (by simpa [Shared.set] using now)
    · exact h.behind q next (by simpa [Shared.set, other] using now)

theorem Shared.Upgraded.exec (h : s.Upgraded v₀ t₀ v) (current : v = 3) (op : Operation) :
    { s with database.tables := (op.exec s.database.tables).tables }.Upgraded v₀ t₀ v := by
  obtain ⟨valid, effect, -⟩ := exec_spec op h.valid
  subst current
  exact { h with
    at_ := { h.at_ with
      unpruned := fun older => absurd older (by decide)
      undelivered := fun older => absurd older (by decide)
      empty := fun older => absurd older (by decide) }
    valid := valid
    kept := h.kept.trans effect.extends
    same := fun older => absurd older (by decide) }

/-- The version never goes down, so a process that fell behind stays behind. -/
theorem Shared.Upgraded.migrate (h : s.Upgraded v₀ t₀ v) {p next : Nat} (env : MigrationEnv)
    (here : s.processes p = some (.migrating next)) (known : next ≤ currentSchemaVersion) :
    ∃ v', ({ s with database := (applyMigration env next s.database).1 }.set p
      (match (applyMigration env next s.database).2 with
        | .ok _ => some (.migrating (next + 1))
        | .error _ => none)).Upgraded v₀ t₀ v' := by
  obtain ⟨positive, reached⟩ := h.behind p next here
  have ran := applyMigration_migrated env next s.database
  generalize applyMigration env next s.database = r at ran ⊢
  obtain ⟨v', grown, known', at_, rows, done⟩ := ran.at h.at_ h.known positive reached known
  -- another process may have been faster: the version is then already past `next`
  have file : { s with database := r.1 }.Upgraded v₀ t₀ v' := {
    grown := h.grown.trans grown
    known := known'
    at_ := at_
    valid := by
      rw [rows]
      exact h.valid
    kept := by
      rw [rows]
      exact h.kept
    same := fun older => rows.trans (h.same (by omega))
    opened := fun q now => by have := h.opened q now; omega
    behind := fun q next now => by have := h.behind q next now; omega }
  refine ⟨v', file.set p ?_ ?_⟩
  · split <;> simp
  · split
    · rename_i result
      have := done result
      rintro _ ⟨⟩
      omega
    · simp

theorem Shared.Upgraded.step (h : s.Upgraded v₀ t₀ v) {s' : Shared} (next : s.Step s') :
    ∃ v', s'.Upgraded v₀ t₀ v' := by
  cases next with
  | start p => exact ⟨v, h.set p (by simp) (by simp)⟩
  | switch p here => exact ⟨v, { h with at_ := { h.at_ with } }⟩
  | readVersion p fault version here read =>
    refine ⟨v, h.set p (by simp) ?_⟩
    rintro next ⟨⟩
    have same := version_of_at h.at_ h.known
    have := startingVersion_cases read
    omega
  | migrate p env next here known => exact h.migrate env here known
  | opened p next here past =>
    have := h.behind p next here
    have := h.known
    exact ⟨v, h.set p (fun _ => by simp only [currentSchemaVersion] at past; omega) (by simp)⟩
  | operate p op here => exact ⟨v, h.exec (h.opened p here) op⟩
  | prune env options current journal =>
    have same := version_of_at h.at_ h.known
    have current : 3 = s.database.version := readVersion_ok current
    exact ⟨v, h.exec (by omega) _⟩
  | stop p => exact ⟨v, h.set p (by simp) (by simp)⟩

end Run

def Database.Switched (d d' : Database) : Prop := d' = d ∨ d' = { d with wal := true }

theorem Database.Switched.on {d d' : Database} (h : d.Switched d') : d.Switched { d' with wal := true } := by
  rcases h with rfl | rfl
  · exact .inr rfl
  · exact .inr rfl

/-- A file that a newer release wrote, and processes that did not get past its version. -/
structure Shared.Refused (d : Database) (s : Shared) : Prop where
  database : d.Switched s.database
  waiting : ∀ p process, s.processes p = some process → process = .initializing ∨ process = .migrating 1

theorem Shared.Refused.set {d : Database} {s : Shared} (h : s.Refused d) (p : Nat)
    {process : Option Process}
    (waiting : ∀ now, process = some now → now = .initializing ∨ now = .migrating 1) :
    (s.set p process).Refused d := by
  refine ⟨h.database, fun q now here => ?_⟩
  rcases eq_or_ne q p with rfl | other
  · exact waiting now (by simpa [Shared.set] using here)
  · exact h.waiting q now (by simpa [Shared.set, other] using here)

/-- The first migration is what a version read that failed with the wrong words leads to. -/
theorem applyMigration_initial_refused {d : Database} (present : .schemaMigrations ∈ d.created)
    (env : MigrationEnv) : ∃ e, applyMigration env 1 d = (d, .error e) := by
  have ran := applyMigration_migrated env 1 d
  generalize applyMigration env 1 d = r at ran ⊢
  cases ran with
  | refused e => exact ⟨e, rfl⟩
  | applied result found ran =>
    obtain rfl : initialSql = _ := Option.some.inj found
    rw [initialSql, createTable_refused present] at ran
    contradiction

theorem Shared.Refused.newer {d : Database} {s : Shared} (h : s.Refused d)
    (newer : currentSchemaVersion < d.version) (present : .schemaMigrations ∈ d.created) :
    currentSchemaVersion < s.database.version ∧ .schemaMigrations ∈ s.database.created := by
  rcases h.database with same | same <;> exact same ▸ ⟨newer, present⟩

theorem Shared.Refused.step {d : Database} {s s' : Shared} (h : s.Refused d)
    (newer : currentSchemaVersion < d.version) (present : .schemaMigrations ∈ d.created)
    (next : s.Step s') : s'.Refused d := by
  obtain ⟨newer, present⟩ := h.newer newer present
  cases next with
  | start p => exact h.set p (by simp)
  | switch p here => exact ⟨h.database.on, h.waiting⟩
  | readVersion p fault version here read =>
    refine h.set p ?_
    rintro _ ⟨⟩
    have := startingVersion_cases read
    obtain rfl : version = 0 := by omega
    exact .inr rfl
  | migrate p env next here known =>
    rcases h.waiting p _ here with started | started
    · contradiction
    · obtain rfl := Process.migrating.inj started
      -- it starts from version 0, and the table that it creates first exists
      obtain ⟨e, refused⟩ := applyMigration_initial_refused present env
      rw [refused]
      exact h.set p (by simp)
  | opened p next here past =>
    rcases h.waiting p _ here with started | started
    · contradiction
    · obtain rfl := Process.migrating.inj started
      contradiction
  | operate p op here =>
    rcases h.waiting p _ here with started | started <;> contradiction
  | prune env options current journal =>
    have := readVersion_ok current
    omega
  | stop p => exact h.set p (by simp)

/-- A file of a newer release is at most turned to WAL, and no process gets to use it. -/
theorem newer_refused {d : Database} (newer : currentSchemaVersion < d.version)
    (present : .schemaMigrations ∈ d.created) {s : Shared} (h : (sharedSpool d).Reachable s) :
    (s.database = d ∨ s.database = { d with wal := true }) ∧ ∀ p, s.processes p ≠ some .opened := by
  have refused : s.Refused d := by
    refine (sharedSpool d).invariant (fun s => s.Refused d) ?_ ?_ h
    · rintro _ rfl
      exact ⟨.inl rfl, by simp⟩
    · exact fun s s' _ refused next => refused.step newer present next
  refine ⟨refused.database, fun p opened => ?_⟩
  rcases refused.waiting p _ opened with started | started <;> contradiction

def laterFile : Database :=
  .withObjects 3 false [(1, "a"), (2, "b"), (3, "c"), (4, "d")] .empty

/-- A process that turned the file to WAL and went on after its version read had failed. -/
def misled : Shared :=
  Shared.set ⟨{ laterFile with wal := true }, fun _ => none⟩ 0 (some (.migrating 1))

theorem misled_reachable : (sharedSpool laterFile).Reachable misled := by
  have switched := Shared.Step.switch (Shared.set ⟨laterFile, fun _ => none⟩ 0 (some .initializing)) 0
    (by simp [Shared.set])
  have read := Shared.Step.readVersion
    (Shared.set ⟨{ laterFile with wal := true }, fun _ => none⟩ 0 (some .initializing)) 0
    (some "file does not exist") 0 (by simp [Shared.set]) (by decide +kernel)
  rw [Shared.set_set] at read
  exact ⟨_, rfl, .head (.start _ 0) (.head switched (.single read))⟩

theorem newer_refused_misled :
    currentSchemaVersion < laterFile.version ∧ TableName.schemaMigrations ∈ laterFile.created ∧
      (sharedSpool laterFile).Reachable misled ∧ misled.database ≠ laterFile ∧
      (misled.database = laterFile ∨ misled.database = { laterFile with wal := true }) ∧
      ∀ p, misled.processes p ≠ some .opened := by
  have changed : misled.database ≠ laterFile := by
    intro same
    have wal : true = false := congrArg Database.wal same
    contradiction
  exact ⟨by decide, by decide, misled_reachable, changed,
    newer_refused (by decide) (by decide) misled_reachable⟩

end Processes

section Opening

structure OpenEnv.Quiet (env : OpenEnv) : Prop where
  path : env.path ≠ ""
  mkdir : env.mkdirFault = none
  info : env.info = .missing ∨ env.info = .found false
  opening : env.openFault = none
  pragma : ∀ statement, env.pragmaFault statement = none
  version : env.versionFault = none
  statements : ∀ n site, (env.migration n).faults site = none
  commit : ∀ n, (env.migration n).commit = none
  chmod : env.chmodFault = none

theorem applyMigrations_at {env : Nat → MigrationEnv} {left next v : Nat} {d : Database} (h : d.At v)
    (known : v ≤ 3) (positive : 1 ≤ next) (reached : next ≤ v + 1) (rest : next + left = 4) :
    ∃ v', v ≤ v' ∧ v' ≤ 3 ∧ (applyMigrations env left next d).1.At v' ∧
      (applyMigrations env left next d).1.tables = d.tables ∧
      ((applyMigrations env left next d).2 = .ok () → v' = 3) := by
  induction left generalizing next v d with
  | zero => exact ⟨v, le_rfl, known, h, rfl, fun _ => by omega⟩
  | succ left ih =>
    have ran := applyMigration_migrated (env next) next d
    obtain ⟨v₁, grown, known₁, at₁, rows₁, done₁⟩ := ran.at h known positive reached (by omega)
    unfold applyMigrations
    split
    · rename_i d₁ _ result
      rw [result] at at₁ rows₁ done₁
      have same : v₁ = next := done₁ rfl
      obtain ⟨v₂, grown₂, known₂, at₂, rows₂, done₂⟩ :=
        ih at₁ known₁ (by omega) (by omega : next + 1 ≤ v₁ + 1) (by omega)
      exact ⟨v₂, grown.trans grown₂, known₂, at₂, rows₂.trans rows₁, done₂⟩
    · rename_i d₁ e result
      rw [result] at at₁ rows₁
      exact ⟨v₁, grown, known₁, at₁, rows₁, by simp⟩

theorem applyMigration_quiet {env : MigrationEnv} (statements : ∀ site, env.faults site = none)
    (commit : env.commit = none) {d : Database} {v : Nat} (h : d.At v) (older : v < 3) :
    applyMigration env (v + 1) d =
      (.withObjects (v + 1) d.wal (d.versions ++ [(v + 1, env.now)]) d.tables, .ok ()) := by
  obtain ⟨script, found⟩ : ∃ script, migrationScript (v + 1) = some script := by
    interval_cases v <;> exact ⟨_, rfl⟩
  have read : readMigration env (v + 1) = .ok script := by
    unfold readMigration
    rw [statements, found, statements]
    rfl
  unfold applyMigration
  rw [read]
  change runMigration env (v + 1) script d = _
  unfold runMigration
  rw [statements, runScript_unfaulted statements, execScript_next h older env.now found, commit]

theorem applyMigrations_quiet {env : Nat → MigrationEnv}
    (statements : ∀ n site, (env n).faults site = none) (commit : ∀ n, (env n).commit = none)
    {left v : Nat} {d : Database} (h : d.At v) (rest : v + left = 3) :
    (applyMigrations env left (v + 1) d).2 = .ok () := by
  induction left generalizing v d with
  | zero => rfl
  | succ left ih =>
    unfold applyMigrations
    rw [applyMigration_quiet (statements _) (commit _) h (by omega)]
    exact ih (h.later _) (by omega)

theorem startingVersion_quiet {d : Database} {v : Nat} (h : d.At v) (known : v ≤ 3) :
    startingVersion none d = .ok v := by
  unfold startingVersion readVersion
  rw [version_of_at h known, h.created]
  interval_cases v
  · exact if_pos (by decide +kernel)
  · rfl
  · rfl
  · rfl

theorem applyPragmas_quiet {env : OpenEnv} (quiet : ∀ statement, env.pragmaFault statement = none)
    (statements : List String) (d : Database) : (applyPragmas env statements d).2 = .ok () := by
  induction statements generalizing d with
  | nil => rfl
  | cons statement rest ih =>
    rw [applyPragmas, quiet]
    exact ih _

theorem Database.pragma_switched (env : OpenEnv) (statement : String) {d d' : Database}
    (h : d.Switched d') : d.Switched (d'.pragma env statement) := by
  unfold Database.pragma
  split
  · exact h.on
  · exact h

theorem applyPragmas_switched (env : OpenEnv) (statements : List String) {d d' : Database}
    (h : d.Switched d') : d.Switched (applyPragmas env statements d').1 := by
  induction statements generalizing d' with
  | nil => exact h
  | cons statement rest ih =>
    unfold applyPragmas
    split
    · exact d.pragma_switched env statement h
    · exact ih (d.pragma_switched env statement h)

theorem Database.At.switched {d d' : Database} {v : Nat} (h : d.At v) (switched : d.Switched d') :
    d'.At v ∧ d'.tables = d.tables := by
  rcases switched with rfl | rfl
  · exact ⟨h, rfl⟩
  · exact ⟨{ h with }, rfl⟩

theorem inspectPath_quiet {env : OpenEnv} (quiet : env.Quiet) : inspectPath env = .ok () := by
  unfold inspectPath
  rcases quiet.info with info | info <;>
    simp [quiet.path, quiet.mkdir, quiet.opening, info, bind_ok_iff]

theorem initialize_at {env : OpenEnv} {d : Database} {v : Nat} (h : d.At v) (known : v ≤ 3) :
    ∃ v', v ≤ v' ∧ v' ≤ 3 ∧ (initialize_ env d).1.At v' ∧
      (initialize_ env d).1.tables = d.tables ∧ ((initialize_ env d).2 = .ok () → v' = 3) := by
  obtain ⟨at_, rows⟩ := h.switched (applyPragmas_switched env pragmas (.inl rfl))
  unfold initialize_
  generalize applyPragmas env pragmas d = r at at_ rows ⊢
  obtain ⟨d', result⟩ := r
  cases result with
  | error e => exact ⟨v, le_rfl, known, at_, rows, by simp⟩
  | ok u =>
    dsimp only at at_ rows ⊢
    split
    · exact ⟨v, le_rfl, known, at_, rows, by simp⟩
    · rename_i version read
      have same := version_of_at at_ known
      have := startingVersion_cases read
      rw [← rows]
      exact applyMigrations_at at_ known (by omega) (by omega) (by simp only [currentSchemaVersion]; omega)

theorem initialize_quiet {env : OpenEnv} (quiet : env.Quiet) {d : Database} {v : Nat} (h : d.At v)
    (known : v ≤ 3) : (initialize_ env d).2 = .ok () := by
  have applied := applyPragmas_quiet quiet.pragma pragmas d
  obtain ⟨at_, -⟩ := h.switched (applyPragmas_switched env pragmas (.inl rfl))
  unfold initialize_
  generalize applyPragmas env pragmas d = r at applied at_ ⊢
  obtain ⟨d', result⟩ := r
  obtain rfl : result = .ok () := applied
  dsimp only at at_ ⊢
  rw [quiet.version, startingVersion_quiet at_ known]
  exact applyMigrations_quiet quiet.statements quiet.commit at_ (by simp only [currentSchemaVersion]; omega)

theorem applyMigrations_steps (d₀ : Database) (env : Nat → MigrationEnv) (left next p : Nat)
    (s : Shared) (rest : next + left = 4) :
    (sharedSpool d₀).Steps (s.set p (some (.migrating next)))
      ({ s with database := (applyMigrations env left next s.database).1 }.set p
        (match (applyMigrations env left next s.database).2 with
          | .ok _ => some (.migrating 4)
          | .error _ => none)) := by
  induction left generalizing next s with
  | zero =>
    obtain rfl : next = 4 := rest
    exact .refl
  | succ left ih =>
    have first := Shared.Step.migrate (s.set p (some (.migrating next))) p (env next) next
      (by simp [Shared.set]) (by simp only [currentSchemaVersion]; omega)
    change Shared.Step _ (({ s with database := (applyMigration (env next) next s.database).1 }.set p
      (some (.migrating next))).set p (match (applyMigration (env next) next s.database).2 with
        | .ok _ => _
        | .error _ => _)) at first
    rw [Shared.set_set] at first
    unfold applyMigrations
    generalize applyMigration (env next) next s.database = r at first ⊢
    obtain ⟨d', result⟩ := r
    cases result with
    | error e => exact .single first
    | ok done => exact .head first (ih (next + 1) { s with database := d' } (by omega))

theorem pragmas_steps (d₀ : Database) (env : OpenEnv) (s : Shared) (p : Nat) :
    (sharedSpool d₀).Steps s
      ({ s with database := (applyPragmas env pragmas s.database).1 }.set p (some .initializing)) := by
  have started : Shared.Step s (s.set p (some .initializing)) := .start s p
  have switched := Shared.Step.switch (s.set p (some .initializing)) p (by simp [Shared.set])
  have changed : s.database.Switched (applyPragmas env pragmas s.database).1 :=
    applyPragmas_switched env pragmas (.inl rfl)
  rcases changed with same | same
  · rw [same]
    exact .single started
  · rw [same]
    exact .head started (.single switched)

/-- `OpenWithHooks` is a run of one process of the shared spool. -/
theorem open_steps (d₀ : Database) (env : OpenEnv) (s : Shared) (p : Nat) :
    (sharedSpool d₀).Steps s ({ s with database := (openWithHooks env s.database).1 }.set p
      (match (openWithHooks env s.database).2 with
        | .ok _ => some .opened
        | .error _ => none)) := by
  unfold openWithHooks
  split
  · exact .single (.stop s p)
  unfold initialize_
  have begun := pragmas_steps d₀ env s p
  generalize applyPragmas env pragmas s.database = r at begun ⊢
  obtain ⟨d, result⟩ := r
  have stopped : (sharedSpool d₀).Steps s ({ s with database := d }.set p none) := by
    have stop := Shared.Step.stop ({ s with database := d }.set p (some .initializing)) p
    rw [Shared.set_set] at stop
    exact begun.tail stop
  cases result with
  | error e => exact stopped
  | ok u =>
    dsimp only
    cases read : startingVersion env.versionFault d with
    | error e => exact stopped
    | ok version =>
      dsimp only
      have bounded : version + 1 + (currentSchemaVersion - version) = 4 := by
        have := startingVersion_cases read
        simp only [currentSchemaVersion] at this ⊢
        omega
      have started := Shared.Step.readVersion ({ s with database := d }.set p (some .initializing)) p
        env.versionFault version (by simp [Shared.set]) read
      rw [Shared.set_set] at started
      have migrated := applyMigrations_steps d₀ env.migration _ _ p { s with database := d } bounded
      have run := begun.trans (.head started migrated)
      generalize applyMigrations env.migration _ _ d = r at run ⊢
      obtain ⟨d', result⟩ := r
      cases result with
      | error e => exact run
      | ok done =>
        -- The file is current; only its permissions can still fail.
        have last (process : Option Process)
            (next : Shared.Step (Shared.set ⟨d', s.processes⟩ p (some (.migrating 4)))
              ((Shared.set ⟨d', s.processes⟩ p (some (.migrating 4))).set p process)) :
            (sharedSpool d₀).Steps s (Shared.set ⟨d', s.processes⟩ p process) := by
          rw [Shared.set_set] at next
          exact run.tail next
        cases attempt env.chmodFault (wrapf none "restrict spool permissions: %w" []) with
        | error e => exact last none (.stop _ p)
        | ok _ => exact last (some .opened) (.opened _ p 4 (by simp [Shared.set]) (by decide))

theorem open_at (env : OpenEnv) {d : Database} {v : Nat} (h : d.At v) (known : v ≤ 3) :
    ∃ v', v ≤ v' ∧ v' ≤ 3 ∧ (openWithHooks env d).1.At v' ∧
      (openWithHooks env d).1.tables = d.tables ∧ ((openWithHooks env d).2 = .ok () → v' = 3) := by
  unfold openWithHooks
  split
  · exact ⟨v, le_rfl, known, h, rfl, by simp⟩
  · obtain ⟨v', grown, known', at_, rows, done⟩ := initialize_at h known
    generalize initialize_ env d = r at at_ rows done ⊢
    obtain ⟨d', result⟩ := r
    cases result with
    | error e => exact ⟨v', grown, known', at_, rows, by simp⟩
    | ok _ => exact ⟨v', grown, known', at_, rows, fun _ => done rfl⟩

theorem open_quiet {env : OpenEnv} (quiet : env.Quiet) {d : Database} {v : Nat} (h : d.At v)
    (known : v ≤ 3) : (openWithHooks env d).2 = .ok () := by
  have initialized := initialize_quiet quiet h known
  unfold openWithHooks
  rw [inspectPath_quiet quiet]
  dsimp only
  generalize initialize_ env d = r at initialized ⊢
  obtain ⟨d', result⟩ := r
  obtain rfl : result = .ok () := initialized
  exact attempt_ok_iff.mpr quiet.chmod

def Database.Settled (env : OpenEnv) (d : Database) : Prop := env.switches = true → d.wal = true

theorem Database.Settled.pragma {env : OpenEnv} {d : Database} (h : d.Settled env) (statement : String) :
    d.pragma env statement = d := by
  unfold Database.pragma
  split
  · rename_i switched
    rw [← h switched.2]
  · rfl

theorem open_completes {env : OpenEnv} (quiet : env.Quiet) {d : Database} {v : Nat} (h : d.At v)
    (known : v ≤ 3) : (openWithHooks env d).2 = .ok () ∧ (openWithHooks env d).1.At 3 ∧
      (openWithHooks env d).1.tables = d.tables := by
  obtain ⟨v', _, _, at_, rows, done⟩ := open_at env h known
  have opened := open_quiet quiet h known
  obtain rfl := done opened
  exact ⟨opened, at_, rows⟩

/-- However earlier attempts to open the file ended, an undisturbed one brings it to the
current version, with the rows that were there at first. -/
theorem open_resumes (attempts : List OpenEnv) {d : Database} {v : Nat} (h : d.At v) (known : v ≤ 3)
    {env : OpenEnv} (quiet : env.Quiet) :
    let left := attempts.foldl (fun d attempt => (openWithHooks attempt d).1) d
    (∃ v', v ≤ v' ∧ v' ≤ 3 ∧ left.At v' ∧ left.tables = d.tables) ∧
      (openWithHooks env left).2 = .ok () ∧ (openWithHooks env left).1.At 3 ∧
      (openWithHooks env left).1.tables = d.tables := by
  induction attempts generalizing d v with
  | nil => exact ⟨⟨v, le_rfl, known, h, rfl⟩, open_completes quiet h known⟩
  | cons attempt attempts ih =>
    obtain ⟨v₁, grown₁, known₁, at₁, rows₁, -⟩ := open_at attempt h known
    obtain ⟨⟨v₂, grown₂, known₂, at₂, rows₂⟩, opened, at₃, rows₃⟩ := ih at₁ known₁
    exact ⟨⟨v₂, grown₁.trans grown₂, known₂, at₂, rows₂.trans rows₁⟩, opened, at₃, rows₃.trans rows₁⟩

def quietOpen : OpenEnv where
  path := "spool.db"
  mkdirFault := none
  info := .missing
  openFault := none
  pragmaFault _ := none
  switches := true
  versionFault := none
  migration _ := ⟨"2026-01-01T00:00:00.000Z", fun _ => none, none⟩
  chmodFault := none

theorem quietOpen_quiet : quietOpen.Quiet :=
  ⟨by decide, rfl, .inl rfl, rfl, fun _ => rfl, rfl, fun _ _ => rfl, fun _ => rfl, rfl⟩

def troubledOpens : List OpenEnv :=
  [{ quietOpen with migration := fun n => { quietOpen.migration n with
      faults := fun
        | .statement 2 => if n = 2 then some "database or disk is full" else none
        | _ => none } },
    { quietOpen with versionFault := some "file does not exist" }]

theorem open_resumes_troubled :
    Database.fresh.At 0 ∧ quietOpen.Quiet ∧
      ((∃ v', 0 ≤ v' ∧ v' ≤ 3 ∧
          (troubledOpens.foldl (fun d attempt => (openWithHooks attempt d).1) Database.fresh).At v' ∧
          (troubledOpens.foldl (fun d attempt => (openWithHooks attempt d).1) Database.fresh).tables =
            Database.fresh.tables) ∧
        (openWithHooks quietOpen
          (troubledOpens.foldl (fun d attempt => (openWithHooks attempt d).1) Database.fresh)).2 = .ok () ∧
        (openWithHooks quietOpen
          (troubledOpens.foldl (fun d attempt => (openWithHooks attempt d).1) Database.fresh)).1.At 3 ∧
        (openWithHooks quietOpen
          (troubledOpens.foldl (fun d attempt => (openWithHooks attempt d).1) Database.fresh)).1.tables =
            Database.fresh.tables) :=
  ⟨fresh_at, quietOpen_quiet, open_resumes troubledOpens fresh_at (by decide) quietOpen_quiet⟩

def overtaken : Shared := Shared.set ⟨.fresh, fun _ => none⟩ 1 (some (.migrating 1))

/-- Process 1 found an empty file and is about to create it; meanwhile process 0 has opened it. -/
def overtaking : Shared :=
  { overtaken with database := (openWithHooks quietOpen .fresh).1 }.set 0 (some .opened)

theorem overtaking_reachable : (sharedSpool .fresh).Reachable overtaking := by
  have read := Shared.Step.readVersion (Shared.set ⟨.fresh, fun _ => none⟩ 1 (some .initializing)) 1
    none 0 (by simp [Shared.set]) (startingVersion_quiet fresh_at (by decide))
  rw [Shared.set_set] at read
  have run := open_steps .fresh quietOpen overtaken 0
  have opened : (openWithHooks quietOpen overtaken.database).2 = .ok () :=
    open_quiet quietOpen_quiet fresh_at (by decide)
  rw [opened] at run
  exact ⟨_, rfl, .head (.start _ 1) (.head read run)⟩

/-- Whatever the processes do, fail to do or leave half done. -/
theorem concurrent_upgrade {d : Database} {v₀ : Nat} (start : d.At v₀) (known : v₀ ≤ 3)
    (valid : d.tables.Valid) {s : Shared} (h : (sharedSpool d).Reachable s) :
    ∃ v, v₀ ≤ v ∧ v ≤ 3 ∧ s.database.At v ∧ s.database.tables.Valid ∧
      d.tables.Extends s.database.tables ∧ (v < 3 → s.database.tables = d.tables) ∧
      ∀ p, s.processes p = some .opened → v = 3 := by
  have upgraded : ∃ v, s.Upgraded v₀ d.tables v := by
    refine (sharedSpool d).invariant (fun s => ∃ v, s.Upgraded v₀ d.tables v) ?_ ?_ h
    · rintro _ rfl
      exact ⟨v₀, le_rfl, known, start, valid, .refl _, fun _ => rfl, by simp, by simp⟩
    · rintro s s' _ ⟨v, upgraded⟩ next
      exact upgraded.step next
  obtain ⟨v, upgraded⟩ := upgraded
  exact ⟨v, upgraded.grown, upgraded.known, upgraded.at_, upgraded.valid, upgraded.kept,
    upgraded.same, upgraded.opened⟩

theorem concurrent_upgrade_overtaking :
    (sharedSpool .fresh).Reachable overtaking ∧ overtaking.processes 0 = some .opened ∧
      overtaking.processes 1 = some (.migrating 1) ∧
      ∃ v, 0 ≤ v ∧ v ≤ 3 ∧ overtaking.database.At v ∧ overtaking.database.tables.Valid ∧
        Database.fresh.tables.Extends overtaking.database.tables ∧
        (v < 3 → overtaking.database.tables = Database.fresh.tables) ∧
        ∀ p, overtaking.processes p = some .opened → v = 3 :=
  ⟨overtaking_reachable, rfl, rfl,
    concurrent_upgrade fresh_at (by decide) valid_empty overtaking_reachable⟩

end Opening

end WriteRelay.Spool
