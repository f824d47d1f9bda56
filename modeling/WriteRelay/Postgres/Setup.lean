import WriteRelay.Postgres.Replicator
import WriteRelay.Settings

/-! The objects that the daemon needs in PostgreSQL: `Setup`, which checks them and creates
what is missing, while other sessions do the same, and the daemon's own look at its slot. -/
namespace WriteRelay.Postgres
open Clock Fallible Settings

section Model

/-- A row of `pg_replication_slots`; a physical slot has neither plugin nor database. -/
structure SlotRow where
  plugin : Option String
  database : Option String
  active : Bool
  confirmedFlushLSN : Option String
  restartLSN : Option String

inductive FunctionBody
  | installed
  | other (text : String)
  deriving DecidableEq

/-- `writerelay.emit(jsonb)` in `pg_proc`, with those who may execute it apart from its owner. -/
structure EmitFunction where
  body : FunctionBody
  publicExecute : Bool
  grantees : List String
  comment : Option String
  deriving DecidableEq

/-- What the server has of the configured names. The schema has a comment, a publication a
number of tables. -/
structure Catalogue where
  database : String
  serverVersion : Int
  schema : Option (Option String)
  function : Option EmitFunction
  publication : Option Nat
  slot : Option SlotRow

structure SlotInfo where
  name : String
  plugin : String
  database : String
  active : Bool
  confirmedFlushLSN : LSN
  restartLSN : LSN
  exists_ : Bool

structure SetupResult where
  installedFunction : Bool
  createdPublication : Bool
  createdSlot : Bool
  deriving DecidableEq

inductive SetupSite
  | connect
  | version
  | function
  | publication
  | tables
  | slot
  | install
  | createPublication
  | close
  | parseConfig
  | connectReplication
  | createSlot
  | reconnect
  | slotAgain

/-- A call that changes the server may report an error although it was executed. Other
sessions act on the server before every call. -/
structure SetupEnv where
  codec : LsnCodec
  faults : SetupSite → Option String
  executed : SetupSite → Bool
  meanwhile : SetupSite → Catalogue → Catalogue
  /-- Where a new slot starts. -/
  positions : LSN × LSN

/-- A call that reached the server: what it found there and what it left. -/
structure SetupCall where
  site : SetupSite
  found : Catalogue
  left : Catalogue

structure SetupState where
  catalogue : Catalogue
  result : SetupResult
  calls : List SetupCall

abbrev SetupM := EStateM Failure SetupState

def SetupResult.nothing : SetupResult := ⟨false, false, false⟩

def SetupState.begin (c : Catalogue) : SetupState := ⟨c, .nothing, []⟩

def SetupEnv.interfere (env : SetupEnv) (site : SetupSite) (s : SetupState) : SetupState :=
  { s with catalogue := env.meanwhile site s.catalogue }

def SetupState.call (site : SetupSite) (left : Catalogue) (s : SetupState) : SetupState :=
  { s with catalogue := left, calls := s.calls ++ [⟨site, s.catalogue, left⟩] }

def inspect {α : Type} (env : SetupEnv) (site : SetupSite) (wrap : DriverError → Failure)
    (read : Catalogue → Except Failure α) : SetupM α := do
  modify (env.interfere site)
  modify fun s => s.call site s.catalogue
  outcome (attempt (env.faults site) wrap)
  let s ← get
  outcome (read s.catalogue)

def SetupEnv.perform (env : SetupEnv) (site : SetupSite) (refusal : Catalogue → Option String)
    (change : Catalogue → Catalogue) (c : Catalogue) : Catalogue :=
  if refusal c = none ∧ (env.faults site = none ∨ env.executed site = true) then change c else c

def execute (env : SetupEnv) (site : SetupSite) (wrap : DriverError → Failure)
    (refusal : Catalogue → Option String) (change : Catalogue → Catalogue) : SetupM Unit := do
  modify (env.interfere site)
  let s ← get
  set (s.call site (env.perform site refusal change s.catalogue))
  outcome (attempt (refusal s.catalogue) wrap)
  outcome (attempt (env.faults site) wrap)

def validateServerVersion (version : Int) : Except Failure Unit :=
  refuse (version < 140000 ∨ 190000 ≤ version)
    (errorf (some .unsupportedVersion)
      "%w: server_version_num=%d, supported range is PostgreSQL 14 through 18" [toString version])

def parsePosition (codec : LsnCodec) (format : String) : Option String → Except Failure LSN
  | none => .ok 0
  | some text =>
    match codec.parse text with
    | some l => .ok l
    | none => .error (wrapf none format [] (.fault ("failed to parse LSN: " ++ text)))

def scanText (index : Nat) (column : String) : Option String → Except Failure String
  | some text => .ok text
  | none => .error (wrapf none "inspect replication slot: %w" [] (.fault
      ("can\x27t scan into dest[" ++ toString index ++ "] (col: " ++ column ++
        "): cannot scan NULL into *string")))

/-- `readSlot` after its query. -/
def readSlot (codec : LsnCodec) (name : String) (c : Catalogue) : Except Failure SlotInfo :=
  match c.slot with
  | none => .ok ⟨"", "", "", false, 0, 0, false⟩
  | some row => do
    let plugin ← scanText 1 "plugin" row.plugin
    let database ← scanText 2 "database" row.database
    let confirmed ← parsePosition codec "parse slot confirmed_flush_lsn: %w" row.confirmedFlushLSN
    let restart ← parsePosition codec "parse slot restart_lsn: %w" row.restartLSN
    return ⟨name, plugin, database, row.active, confirmed, restart, true⟩

def validateSlot (slot : SlotInfo) (database : String) : Except Failure Unit := do
  refuse (slot.plugin ≠ "pgoutput") (errorf (some .slotMismatch)
    "%w: slot %q uses plugin %q, expected pgoutput" [slot.name, slot.plugin])
  refuse (slot.database ≠ database) (errorf (some .slotMismatch)
    "%w: slot %q belongs to database %q, connected to %q" [slot.name, slot.database, database])
  refuse (slot.active = true) (errorf (some .slotMismatch)
    "%w: slot %q is active in another session" [slot.name])

def connectionFailed : DriverError → Failure := wrapf none "PostgreSQL connection failed: %s" []

def inspectServer (env : SetupEnv) : SetupM String := do
  let server ← inspect env .version (wrapf none "read current database/version: %w" [])
    fun c => .ok (c.database, c.serverVersion)
  outcome (validateServerVersion server.2)
  return server.1

def inspectFunction (env : SetupEnv) : SetupM Bool :=
  inspect env .function (wrapf none "inspect emit function: %w" []) fun c => .ok c.function.isSome

def inspectTables (env : SetupEnv) (cfg : PostgresConfig) : SetupM Unit := do
  let tables ← inspect env .tables (wrapf none "inspect publication tables: %w" [])
    fun c => .ok (c.publication.getD 0)
  outcome (refuse (tables ≠ 0) (errorf (some .slotMismatch)
    "%w: publication %q contains %d table(s), expected empty" [cfg.publication, toString tables]))

def inspectPublication (env : SetupEnv) (cfg : PostgresConfig) : SetupM Bool := do
  let publication ← inspect env .publication (wrapf none "inspect publication: %w" [])
    fun c => .ok c.publication.isSome
  if publication then inspectTables env cfg
  return publication

def inspectSlot (env : SetupEnv) (cfg : PostgresConfig) (site : SetupSite) : SetupM SlotInfo :=
  inspect env site (wrapf none "inspect replication slot: %w" []) (readSlot env.codec cfg.slot)

def checkSlot (env : SetupEnv) (cfg : PostgresConfig) (createSlot : Bool) (database : String) :
    SetupM Bool := do
  let slot ← inspectSlot env cfg .slot
  outcome (if slot.exists_ then validateSlot slot database
    else refuse (createSlot = false)
      (errorf none "replication slot %q is missing; rerun setup with --create-slot" [cfg.slot]))
  return slot.exists_

structure Found where
  function : Bool
  publication : Bool
  slot : Bool

/-- `Setup` until "All validation is complete". -/
def preflight (env : SetupEnv) (cfg : PostgresConfig) (createSlot : Bool) : SetupM Found := do
  outcome (attempt (env.faults .connect) connectionFailed)
  let database ← inspectServer env
  let function ← inspectFunction env
  let publication ← inspectPublication env cfg
  let slot ← checkSlot env cfg createSlot database
  return ⟨function, publication, slot⟩

def schemaComment : String := "Transactional domain-event emission API for WriteRelay"

def functionComment : String :=
  "Emits one validated event as a transactional writerelay.v1 logical WAL message. " ++
    "Grant EXECUTE explicitly to application roles."

/-- `CREATE OR REPLACE FUNCTION`, which keeps the privileges on a function that it replaces. -/
def createOrReplace : Option EmitFunction → EmitFunction
  | none => ⟨.installed, true, [], none⟩
  | some f => { f with body := .installed }

/-- `001_install.sql`, one transaction: the function, `REVOKE` from `PUBLIC` and the comments. -/
def installSQL (c : Catalogue) : Catalogue :=
  { c with
    schema := some (some schemaComment)
    function := some { createOrReplace c.function with
      publicExecute := false
      comment := some functionComment } }

def installFunction (env : SetupEnv) : SetupM Unit := do
  execute env .install (wrapf none "install SQL API (administrator privileges may be required): %w" [])
    (fun _ => none) installSQL
  modify fun s => { s with result.installedFunction := true }

def createPublication (env : SetupEnv) (cfg : PostgresConfig) : SetupM Unit := do
  execute env .createPublication (wrapf none "create empty publication: %w" [])
    (fun c => if c.publication.isSome then some ("publication " ++ cfg.publication ++ " already exists")
      else none)
    fun c => { c with publication := some 0 }
  modify fun s => { s with result.createdPublication := true }

def newSlot (env : SetupEnv) (database : String) : SlotRow :=
  ⟨some "pgoutput", some database, false, some (env.codec.format env.positions.1),
    some (env.codec.format env.positions.2)⟩

def createReplicationSlot (env : SetupEnv) (cfg : PostgresConfig) : SetupM Unit := do
  outcome (attempt (env.faults .parseConfig)
    fun _ => errorf none "parse PostgreSQL connection configuration" [])
  outcome (attempt (env.faults .connectReplication) connectionFailed)
  execute env .createSlot (wrapf none "create pgoutput replication slot %q: %w" [cfg.slot])
    (fun c => if c.slot.isSome then some ("replication slot " ++ cfg.slot ++ " already exists") else none)
    fun c => { c with slot := some (newSlot env c.database) }

def addSlot (env : SetupEnv) (cfg : PostgresConfig) : SetupM Unit := do
  outcome (attempt (env.faults .close) (wrapf none "close setup SQL connection: %w" []))
  createReplicationSlot env cfg
  modify fun s => { s with result.createdSlot := true }

def unlessFound (found : Bool) (create : SetupM Unit) : SetupM Unit :=
  if found then pure () else create

def createMissing (env : SetupEnv) (cfg : PostgresConfig) (found : Found) : SetupM Unit := do
  unlessFound found.function (installFunction env)
  unlessFound found.publication (createPublication env cfg)
  unlessFound found.slot (addSlot env cfg)

def setup (env : SetupEnv) (cfg : PostgresConfig) (createSlot : Bool) : SetupM Unit :=
  preflight env cfg createSlot >>= createMissing env cfg

def slotOrNew (env : SetupEnv) (cfg : PostgresConfig) (slot : SlotInfo) : SetupM SlotInfo :=
  if slot.exists_ then pure slot
  else do
    outcome (refuse (cfg.createSlotIfMissing = false)
      (errorf none "replication slot %q does not exist; run setup --create-slot" [cfg.slot]))
    outcome (attempt (env.faults .close) (wrapf none "%w" []))
    createReplicationSlot env cfg
    outcome (attempt (env.faults .reconnect) connectionFailed)
    inspectSlot env cfg .slotAgain

/-- `startLSN` until it asks the spool. -/
def daemonSlot (env : SetupEnv) (cfg : PostgresConfig) : SetupM Slot := do
  outcome (attempt (env.faults .connect) connectionFailed)
  let slot ← inspectSlot env cfg .slot
  let slot ← slotOrNew env cfg slot
  let database ← inspectServer env
  outcome (validateSlot slot database)
  return ⟨slot.confirmedFlushLSN, slot.restartLSN⟩

end Model

section Calls

variable {α : Type} {env : SetupEnv} {site : SetupSite} {wrap : DriverError → Failure} {s : SetupState}
variable {read : Catalogue → Except Failure α}
variable {refusal : Catalogue → Option String} {change : Catalogue → Catalogue}

theorem inspect_ran : inspect env site wrap read s =
    outcome (attempt (env.faults site) wrap >>= fun _ => read (env.interfere site s).catalogue)
      ((env.interfere site s).call site (env.interfere site s).catalogue) := by
  change EStateM.bind (outcome (attempt (env.faults site) wrap)) _ _ = _
  unfold EStateM.bind
  cases attempt (env.faults site) wrap <;> rfl

theorem execute_ran : execute env site wrap refusal change s =
    outcome (attempt (refusal (env.interfere site s).catalogue) wrap >>= fun _ =>
      attempt (env.faults site) wrap)
      ((env.interfere site s).call site
        (env.perform site refusal change (env.interfere site s).catalogue)) := by
  change EStateM.bind (outcome (attempt (refusal (env.interfere site s).catalogue) wrap)) _ _ = _
  unfold EStateM.bind
  cases attempt (refusal (env.interfere site s).catalogue) wrap <;> rfl

theorem inspect_ends {post : α → SetupState → Prop} {fails : Failure → SetupState → Prop}
    (ended : ∀ a, read (env.interfere site s).catalogue = .ok a →
      post a ((env.interfere site s).call site (env.interfere site s).catalogue))
    (failed : ∀ e, fails e ((env.interfere site s).call site (env.interfere site s).catalogue)) :
    Ends (inspect env site wrap read s) post fails := by
  rw [inspect_ran]
  cases result : attempt (env.faults site) wrap >>= fun _ => read (env.interfere site s).catalogue with
  | error e => exact failed e
  | ok a =>
    obtain ⟨_, _, done⟩ := bind_ok_iff.mp result
    exact ended a done

theorem execute_ends {post : Unit → SetupState → Prop} {fails : Failure → SetupState → Prop}
    (ended : refusal (env.interfere site s).catalogue = none → env.faults site = none →
      post () ((env.interfere site s).call site (change (env.interfere site s).catalogue)))
    (failed : ∀ e, refusal (env.interfere site s).catalogue ≠ none ∨ env.faults site ≠ none →
      fails e ((env.interfere site s).call site
        (env.perform site refusal change (env.interfere site s).catalogue))) :
    Ends (execute env site wrap refusal change s) post fails := by
  rw [execute_ran]
  by_cases quiet : refusal (env.interfere site s).catalogue = none ∧ env.faults site = none
  · rw [quiet.1, quiet.2, SetupEnv.perform, if_pos ⟨quiet.1, .inl quiet.2⟩]
    exact ended quiet.1 quiet.2
  · have trouble := not_and_or.mp quiet
    cases result : attempt (refusal (env.interfere site s).catalogue) wrap >>= fun _ =>
        attempt (env.faults site) wrap with
    | error e => exact failed e trouble
    | ok u =>
      obtain ⟨_, accepted, clear⟩ := bind_ok_iff.mp result
      exact absurd ⟨attempt_ok_iff.mp accepted, attempt_ok_iff.mp clear⟩ quiet

theorem perform_cases (env : SetupEnv) (site : SetupSite) (refusal : Catalogue → Option String)
    (change : Catalogue → Catalogue) (c : Catalogue) :
    env.perform site refusal change c = c ∨
      refusal c = none ∧ env.perform site refusal change c = change c := by
  unfold SetupEnv.perform
  split
  · rename_i executed
    exact .inr ⟨executed.1, rfl⟩
  · exact .inl rfl

end Calls

section Growth

variable {codec : LsnCodec} {c c' c'' : Catalogue}

def SlotRow.Readable (codec : LsnCodec) (row : SlotRow) : Prop :=
  (∀ text, row.confirmedFlushLSN = some text → ∃ l, codec.parse text = some l) ∧
    ∀ text, row.restartLSN = some text → ∃ l, codec.parse text = some l

structure SlotRow.Suits (codec : LsnCodec) (database : String) (row : SlotRow) : Prop where
  plugin : row.plugin = some "pgoutput"
  database : row.database = some database
  readable : row.Readable codec

/-- What a slot may become: a new one suits, an old one keeps its kind. -/
inductive SlotGrows (codec : LsnCodec) (database : String) : Option SlotRow → Option SlotRow → Prop
  | absent : SlotGrows codec database none none
  | created {row : SlotRow} : row.Suits codec database → SlotGrows codec database none (some row)
  | moved {row row' : SlotRow} : row'.plugin = row.plugin → row'.database = row.database →
      (row.Readable codec → row'.Readable codec) → SlotGrows codec database (some row) (some row')

/-- What sessions that share the server do to it: they add missing objects, replace the function
and comment on it, use the slot, and drop nothing. -/
structure Catalogue.Grows (codec : LsnCodec) (c c' : Catalogue) : Prop where
  database : c'.database = c.database
  serverVersion : c'.serverVersion = c.serverVersion
  schema : c.schema.isSome = true → c'.schema.isSome = true
  function : c.function.isSome = true → c'.function.isSome = true
  publication : c'.publication = c.publication ∨ c.publication = none ∧ c'.publication = some 0
  slot : SlotGrows codec c.database c.slot c'.slot

theorem SlotRow.Suits.moved {database : String} {row row' : SlotRow} (h : row.Suits codec database)
    (plugin : row'.plugin = row.plugin) (base : row'.database = row.database)
    (readable : row.Readable codec → row'.Readable codec) : row'.Suits codec database :=
  ⟨plugin.trans h.plugin, base.trans h.database, readable h.readable⟩

theorem SlotGrows.refl {database : String} (slot : Option SlotRow) :
    SlotGrows codec database slot slot := by
  cases slot with
  | none => exact .absent
  | some row => exact .moved rfl rfl id

theorem SlotGrows.trans {database : String} {a b d : Option SlotRow}
    (first : SlotGrows codec database a b) (second : SlotGrows codec database b d) :
    SlotGrows codec database a d := by
  cases first with
  | absent => exact second
  | created suits =>
    cases second with
    | moved plugin base readable => exact .created (suits.moved plugin base readable)
  | moved plugin base readable =>
    cases second with
    | moved plugin' base' readable' =>
      exact .moved (plugin'.trans plugin) (base'.trans base) (readable' ∘ readable)

theorem Catalogue.Grows.refl (c : Catalogue) : c.Grows codec c :=
  ⟨rfl, rfl, id, id, .inl rfl, .refl _⟩

theorem Catalogue.Grows.trans (first : c.Grows codec c') (second : c'.Grows codec c'') :
    c.Grows codec c'' where
  database := second.database.trans first.database
  serverVersion := second.serverVersion.trans first.serverVersion
  schema := second.schema ∘ first.schema
  function := second.function ∘ first.function
  publication := by
    rcases first.publication with same | ⟨none, some⟩
    · rw [← same]
      exact second.publication
    · rcases second.publication with same | ⟨absent, _⟩
      · exact .inr ⟨none, same.trans some⟩
      · simp [absent] at some
  slot := first.slot.trans (first.database ▸ second.slot)

theorem Catalogue.Grows.published (h : c.Grows codec c') (exists_ : c.publication.isSome = true) :
    c'.publication = c.publication := by
  rcases h.publication with same | ⟨none, _⟩
  · exact same
  · simp [none] at exists_

def Catalogue.Supported (c : Catalogue) : Prop := 140000 ≤ c.serverVersion ∧ c.serverVersion < 190000

def Catalogue.HasSlot (codec : LsnCodec) (c : Catalogue) : Prop :=
  ∃ row, c.slot = some row ∧ row.Suits codec c.database

structure Catalogue.Ready (codec : LsnCodec) (c : Catalogue) : Prop where
  supported : c.Supported
  function : c.function.isSome = true
  publication : c.publication = some 0
  slot : c.HasSlot codec

theorem Catalogue.Grows.supported (h : c.Grows codec c') : c'.Supported ↔ c.Supported := by
  unfold Catalogue.Supported
  rw [h.serverVersion]

theorem Catalogue.Grows.hasSlot (h : c.Grows codec c') (has : c.HasSlot codec) : c'.HasSlot codec := by
  obtain ⟨row, found, suits⟩ := has
  have grown := h.slot
  rw [found] at grown
  generalize next : c'.slot = slot at grown
  cases grown with
  | moved plugin base readable =>
    exact ⟨_, next, h.database ▸ suits.moved plugin base readable⟩

theorem Catalogue.Grows.ready (h : c.Grows codec c') (ready : c.Ready codec) : c'.Ready codec where
  supported := h.supported.mpr ready.supported
  function := h.function ready.function
  publication := by
    rw [h.published (by rw [ready.publication]; rfl), ready.publication]
  slot := h.hasSlot ready.slot

end Growth

section Shared

variable {env : SetupEnv} {cfg : PostgresConfig} {c c' : Catalogue}

def SetupEnv.Cooperative (env : SetupEnv) : Prop :=
  ∀ site (c : Catalogue), c.Grows env.codec (env.meanwhile site c)

def Kept (codec : LsnCodec) (fact : Catalogue → Prop) : Prop :=
  ∀ c c', c.Grows codec c' → fact c → fact c'

def Since (codec : LsnCodec) (start : Catalogue) (s : SetupState) : Prop := start.Grows codec s.catalogue

/-- The assertion between two calls. -/
def Known (codec : LsnCodec) (start : Catalogue) (fact : Catalogue → Prop) (s : SetupState) : Prop :=
  Since codec start s ∧ fact s.catalogue

variable {start : Catalogue} {fact : Catalogue → Prop}

theorem outcome_triple {α : Type} {x : Except Failure α} {pre : SetupState → Prop}
    {post : α → SetupState → Prop} {fails : Failure → SetupState → Prop}
    (ended : ∀ s a, pre s → x = .ok a → post a s) (failed : ∀ s e, pre s → fails e s) :
    Triple pre (outcome x) post fails := by
  intro s holds
  cases x with
  | ok a => exact ended s a holds rfl
  | error e => exact failed s e holds

theorem attempt_triple {fault : Option String} {wrap : DriverError → Failure} {codec : LsnCodec} :
    Triple (Known codec start fact) (outcome (attempt fault wrap)) (fun _ => Known codec start fact)
      (fun _ => Since codec start) :=
  outcome_triple (fun _ _ h _ => h) fun _ _ h => h.1

theorem interfere_known (shared : env.Cooperative) (kept : Kept env.codec fact) (site : SetupSite)
    {s : SetupState} (h : Known env.codec start fact s) :
    Known env.codec start fact (env.interfere site s) :=
  ⟨h.1.trans (shared site _), kept _ _ (shared site _) h.2⟩

theorem inspect_triple {α : Type} {site : SetupSite} {wrap : DriverError → Failure}
    {read : Catalogue → Except Failure α} {learnt : α → Catalogue → Prop}
    (shared : env.Cooperative) (kept : Kept env.codec fact)
    (learn : ∀ c a, start.Grows env.codec c → fact c → read c = .ok a → learnt a c) :
    Triple (Known env.codec start fact) (inspect env site wrap read)
      (fun a => Known env.codec start (learnt a)) (fun _ => Since env.codec start) := by
  intro s before
  obtain ⟨since, known⟩ := interfere_known shared kept site before
  exact inspect_ends (fun a read => ⟨since, learn _ a since known read⟩) fun _ => since

/-- A statement: the change adds to the server, and `made` holds afterwards. Where the
statement reports an error, it may have been executed. -/
theorem execute_triple {site : SetupSite} {wrap : DriverError → Failure}
    {refusal : Catalogue → Option String} {change : Catalogue → Catalogue} {made : Catalogue → Prop}
    (shared : env.Cooperative) (kept : Kept env.codec fact)
    (adds : ∀ c, refusal c = none → c.Grows env.codec (change c))
    (done : ∀ c, start.Grows env.codec c → fact c → refusal c = none → made (change c)) :
    Triple (Known env.codec start fact) (execute env site wrap refusal change)
      (fun _ => Known env.codec start made) (fun _ => Since env.codec start) := by
  intro s before
  obtain ⟨since, known⟩ := interfere_known shared kept site before
  refine execute_ends ?_ ?_
  · intro accepted _
    exact ⟨since.trans (adds _ accepted), done _ since known accepted⟩
  · intro e _
    rcases perform_cases env site refusal change (env.interfere site s).catalogue with
      same | ⟨accepted, same⟩
    · rw [same]
      exact since
    · rw [same]
      exact since.trans (adds _ accepted)

@[simp] theorem parsePosition_ok_iff {codec : LsnCodec} {format : String} {position : Option String}
    {l : LSN} : parsePosition codec format position = .ok l ↔
      (position = none ∧ l = 0) ∨ ∃ text, position = some text ∧ codec.parse text = some l := by
  cases position with
  | none => simp [parsePosition, eq_comm]
  | some text =>
    unfold parsePosition
    cases parsed : codec.parse text <;> simp [parsed]

@[simp] theorem scanText_ok_iff {index : Nat} {column text : String} {value : Option String} :
    scanText index column value = .ok text ↔ value = some text := by
  cases value <;> simp [scanText]

/-- What `readSlot` tells about the server; without a row the plugin stays empty. -/
def Seen (codec : LsnCodec) (slot : SlotInfo) (c : Catalogue) : Prop :=
  slot.exists_ = false ∧ slot.plugin = "" ∨ ∃ row, c.slot = some row ∧
    row.plugin = some slot.plugin ∧ row.database = some slot.database ∧ row.Readable codec

theorem readable_iff {codec : LsnCodec} {row : SlotRow} {format format' : String} :
    row.Readable codec ↔ (∃ l, parsePosition codec format row.confirmedFlushLSN = .ok l) ∧
      ∃ l, parsePosition codec format' row.restartLSN = .ok l := by
  have position (p : Option String) (format : String) :
      (∀ text, p = some text → ∃ l, codec.parse text = some l) ↔
        ∃ l, parsePosition codec format p = .ok l := by
    cases p <;> simp
  rw [← position, ← position]
  rfl

theorem readSlot_seen {codec : LsnCodec} {name : String} {slot : SlotInfo}
    (read : readSlot codec name c = .ok slot) : Seen codec slot c := by
  unfold readSlot at read
  split at read
  · cases read
    exact .inl ⟨rfl, rfl⟩
  · rename_i row found
    simp only [bind_ok_iff, scanText_ok_iff] at read
    obtain ⟨plugin, hp, database, hd, confirmed, hc, restart, hr, made⟩ := read
    cases made
    exact .inr ⟨row, found, hp, hd, readable_iff.mpr ⟨⟨_, hc⟩, _, hr⟩⟩

theorem seen_kept {codec : LsnCodec} {slot : SlotInfo} : Kept codec (Seen codec slot) := by
  rintro c c' grown (absent | ⟨row, stored, plugin, database, readable⟩)
  · exact .inl absent
  · have moved := grown.slot
    rw [stored] at moved
    generalize next : c'.slot = now at moved
    cases moved with
    | moved plugin' database' readable' =>
      exact .inr ⟨_, next, plugin'.trans plugin, database'.trans database, readable' readable⟩

theorem Seen.hasSlot {codec : LsnCodec} {slot : SlotInfo} (seen : Seen codec slot c)
    (plugin : slot.plugin = "pgoutput") (database : slot.database = c.database) : c.HasSlot codec := by
  rcases seen with ⟨_, none⟩ | ⟨row, stored, hp, hd, readable⟩
  · simp [none] at plugin
  · exact ⟨row, stored, plugin ▸ hp, database ▸ hd, readable⟩

theorem validateSlot_ok_iff {slot : SlotInfo} {database : String} {u : Unit} :
    validateSlot slot database = .ok u ↔
      slot.plugin = "pgoutput" ∧ slot.database = database ∧ slot.active = false := by
  simp [validateSlot, bind_ok_iff]

theorem validateServerVersion_ok_iff {version : Int} {u : Unit} :
    validateServerVersion version = .ok u ↔ 140000 ≤ version ∧ version < 190000 := by
  simp [validateServerVersion]

theorem Kept.and {codec : LsnCodec} {more : Catalogue → Prop} (h : Kept codec fact)
    (h' : Kept codec more) : Kept codec fun c => fact c ∧ more c :=
  fun c c' grown both => ⟨h c c' grown both.1, h' c c' grown both.2⟩

theorem Kept.const {codec : LsnCodec} {p : Prop} : Kept codec fun _ => p := fun _ _ _ h => h

theorem Kept.imp {codec : LsnCodec} {p : Prop} (h : Kept codec fact) : Kept codec fun c => p → fact c :=
  fun c c' grown holds given => h c c' grown (holds given)

theorem supported_kept {codec : LsnCodec} : Kept codec Catalogue.Supported :=
  fun _ _ grown => grown.supported.mpr

theorem function_kept {codec : LsnCodec} : Kept codec fun c => c.function.isSome = true :=
  fun _ _ grown => grown.function

theorem publication_kept {codec : LsnCodec} (tables : Nat) :
    Kept codec fun c => c.publication = some tables := by
  intro c c' grown stored
  rw [grown.published (by rw [stored]; rfl), stored]

theorem hasSlot_kept {codec : LsnCodec} : Kept codec (Catalogue.HasSlot codec) :=
  fun _ _ grown => grown.hasSlot

theorem inspectServer_triple (shared : env.Cooperative) (kept : Kept env.codec fact) :
    Triple (Known env.codec start fact) (inspectServer env)
      (fun database => Known env.codec start fun c =>
        fact c ∧ c.Supported ∧ database = start.database)
      (fun _ => Since env.codec start) := by
  have learnt : Triple (Known env.codec start fact)
      (inspect env .version (wrapf none "read current database/version: %w" [])
        fun c => .ok (c.database, c.serverVersion))
      (fun server => Known env.codec start fun c =>
        fact c ∧ server = (start.database, c.serverVersion))
      (fun _ => Since env.codec start) := by
    refine inspect_triple shared kept ?_
    rintro c _ grown known ⟨⟩
    exact ⟨known, by rw [grown.database]⟩
  refine learnt.bind fun server => Triple.bind (outcome_triple ?_ fun _ _ h => h.1) fun _ =>
    .pure fun _ h => h
  rintro s _ ⟨since, known, rfl⟩ accepted
  exact ⟨since, known, validateServerVersion_ok_iff.mp accepted, rfl⟩

theorem inspectFunction_triple (shared : env.Cooperative) (kept : Kept env.codec fact) :
    Triple (Known env.codec start fact) (inspectFunction env)
      (fun function => Known env.codec start fun c =>
        fact c ∧ (function = true → c.function.isSome = true))
      (fun _ => Since env.codec start) := by
  refine inspect_triple shared kept ?_
  rintro c _ grown known ⟨⟩
  exact ⟨known, id⟩

theorem inspectTables_triple (shared : env.Cooperative) (kept : Kept env.codec fact) :
    Triple (Known env.codec start fun c => fact c ∧ c.publication.isSome = true)
      (inspectTables env cfg)
      (fun _ => Known env.codec start fun c => fact c ∧ c.publication = some 0)
      (fun _ => Since env.codec start) := by
  have published : Kept env.codec fun c => c.publication.isSome = true := by
    intro c c' grown some
    rw [grown.published some, some]
  have counted : Triple (Known env.codec start fun c => fact c ∧ c.publication.isSome = true)
      (inspect env .tables (wrapf none "inspect publication tables: %w" [])
        fun c => .ok (c.publication.getD 0))
      (fun tables => Known env.codec start fun c => fact c ∧ c.publication = some tables)
      (fun _ => Since env.codec start) := by
    refine inspect_triple shared (kept.and published) ?_
    rintro c _ _ ⟨known, some⟩ ⟨⟩
    obtain ⟨tables, stored⟩ := Option.isSome_iff_exists.mp some
    exact ⟨known, by simp [stored]⟩
  refine counted.bind fun tables => outcome_triple ?_ fun _ _ h => h.1
  rintro s _ ⟨since, known, stored⟩ accepted
  have empty : tables = 0 := by simpa using accepted
  exact ⟨since, known, empty ▸ stored⟩

theorem inspectPublication_triple (shared : env.Cooperative) (kept : Kept env.codec fact) :
    Triple (Known env.codec start fact) (inspectPublication env cfg)
      (fun publication => Known env.codec start fun c =>
        fact c ∧ (publication = true → c.publication = some 0))
      (fun _ => Since env.codec start) := by
  have asked : Triple (Known env.codec start fact)
      (inspect env .publication (wrapf none "inspect publication: %w" [])
        fun c => .ok c.publication.isSome)
      (fun publication => Known env.codec start fun c =>
        fact c ∧ (publication = true → c.publication.isSome = true))
      (fun _ => Since env.codec start) := by
    refine inspect_triple shared kept ?_
    rintro c _ _ known ⟨⟩
    exact ⟨known, id⟩
  refine asked.bind fun publication => ?_
  cases publication with
  | false => exact .pure fun s h => ⟨h.1, h.2.1, nofun⟩
  | true =>
    have counted : Triple
        (Known env.codec start fun c => fact c ∧ (true = true → c.publication.isSome = true))
        (inspectTables env cfg)
        (fun _ => Known env.codec start fun c => fact c ∧ c.publication = some 0)
        (fun _ => Since env.codec start) :=
      (inspectTables_triple shared kept).mono (fun s h => ⟨h.1, h.2.1, h.2.2 rfl⟩) (fun _ _ h => h)
        fun _ _ h => h
    exact counted.bind fun _ => .pure fun s h => ⟨h.1, h.2.1, fun _ => h.2.2⟩

theorem checkSlot_triple (shared : env.Cooperative) (kept : Kept env.codec fact) (createSlot : Bool) :
    Triple (Known env.codec start fact) (checkSlot env cfg createSlot start.database)
      (fun slot => Known env.codec start fun c => fact c ∧ (slot = true → c.HasSlot env.codec))
      (fun _ => Since env.codec start) := by
  have read : Triple (Known env.codec start fact) (inspectSlot env cfg .slot)
      (fun slot => Known env.codec start fun c => fact c ∧ Seen env.codec slot c)
      (fun _ => Since env.codec start) :=
    inspect_triple shared kept fun c slot _ known done => ⟨known, readSlot_seen done⟩
  refine read.bind fun slot => Triple.bind (outcome_triple ?_ fun _ _ h => h.1) fun _ =>
    .pure fun _ h => h
  rintro s _ ⟨since, known, seen⟩ accepted
  refine ⟨since, known, fun found => ?_⟩
  rw [if_pos found, validateSlot_ok_iff] at accepted
  exact seen.hasSlot accepted.1 (accepted.2.1.trans since.database.symm)

structure Found.Holds (codec : LsnCodec) (found : Found) (c : Catalogue) : Prop where
  supported : c.Supported
  function : found.function = true → c.function.isSome = true
  publication : found.publication = true → c.publication = some 0
  slot : found.slot = true → c.HasSlot codec

theorem Found.holds_kept {codec : LsnCodec} {found : Found} : Kept codec (found.Holds codec) :=
  fun c c' grown holds =>
    ⟨supported_kept c c' grown holds.supported, function_kept.imp c c' grown holds.function,
      (publication_kept 0).imp c c' grown holds.publication, hasSlot_kept.imp c c' grown holds.slot⟩

theorem preflight_triple (shared : env.Cooperative) (createSlot : Bool) :
    Triple (Since env.codec start) (preflight env cfg createSlot)
      (fun found => Known env.codec start (found.Holds env.codec))
      (fun _ => Since env.codec start) := by
  refine Triple.bind (outcome_triple (fun s _ h _ => ⟨h, trivial⟩) fun _ _ h => h) fun _ =>
    (inspectServer_triple shared (.const (p := True))).bind fun database => ?_
  have supported : Kept env.codec fun c => True ∧ c.Supported ∧ database = start.database :=
    Kept.const.and (supported_kept.and .const)
  refine (inspectFunction_triple shared supported).bind fun function => ?_
  have functions := supported.and (function_kept.imp (p := function = true))
  refine (inspectPublication_triple shared functions).bind fun publication => ?_
  have objects := functions.and ((publication_kept 0).imp (p := publication = true))
  by_cases named : database = start.database
  · subst named
    refine (checkSlot_triple shared objects createSlot).bind fun slot => .pure ?_
    rintro s ⟨since, ⟨⟨⟨_, supported, _⟩, function⟩, publication⟩, slot⟩
    exact ⟨since, supported, function, publication, slot⟩
  · intro s h
    exact absurd h.2.1.1.2.2 named

theorem installFunction_triple (shared : env.Cooperative) {found : Found} :
    Triple (Known env.codec start (found.Holds env.codec)) (installFunction env)
      (fun _ => Known env.codec start ({ found with function := true }.Holds env.codec))
      (fun _ => Since env.codec start) := by
  have adds (c : Catalogue) : c.Grows env.codec (installSQL c) :=
    ⟨rfl, rfl, fun _ => rfl, fun _ => rfl, .inl rfl, .refl _⟩
  refine (execute_triple shared Found.holds_kept (fun c _ => adds c) ?_).bind fun _ =>
    .modify fun _ h => h
  intro c _ holds _
  exact { Found.holds_kept _ _ (adds c) holds with function := fun _ => rfl }

theorem createPublication_triple (shared : env.Cooperative) {found : Found} :
    Triple (Known env.codec start (found.Holds env.codec)) (createPublication env cfg)
      (fun _ => Known env.codec start ({ found with publication := true }.Holds env.codec))
      (fun _ => Since env.codec start) := by
  have adds {c : Catalogue} (missing : c.publication = none) :
      c.Grows env.codec { c with publication := some 0 } :=
    ⟨rfl, rfl, id, id, .inr ⟨missing, rfl⟩, .refl _⟩
  refine (execute_triple shared Found.holds_kept ?_ ?_).bind fun _ => .modify fun _ h => h
  · intro c accepted
    exact adds (by simpa using accepted)
  · intro c _ holds accepted
    have missing : c.publication = none := by simpa using accepted
    exact { Found.holds_kept _ _ (adds missing) holds with publication := fun _ => rfl }

theorem newSlot_suits (database : String) : (newSlot env database).Suits env.codec database := by
  refine ⟨rfl, rfl, ?_, ?_⟩
  · rintro _ ⟨⟩
    exact ⟨_, env.codec.parse_format _⟩
  · rintro _ ⟨⟩
    exact ⟨_, env.codec.parse_format _⟩

theorem createReplicationSlot_triple (shared : env.Cooperative) (kept : Kept env.codec fact) :
    Triple (Known env.codec start fact) (createReplicationSlot env cfg)
      (fun _ => Known env.codec start fun c => fact c ∧ c.HasSlot env.codec)
      (fun _ => Since env.codec start) := by
  have adds {c : Catalogue} (missing : c.slot = none) :
      c.Grows env.codec { c with slot := some (newSlot env c.database) } :=
    ⟨rfl, rfl, id, id, .inl rfl, missing ▸ .created (newSlot_suits c.database)⟩
  refine attempt_triple.bind fun _ => attempt_triple.bind fun _ => execute_triple shared kept ?_ ?_
  · intro c accepted
    exact adds (by simpa using accepted)
  · intro c _ known accepted
    have missing : c.slot = none := by simpa using accepted
    exact ⟨kept _ _ (adds missing) known, _, rfl, newSlot_suits c.database⟩

theorem addSlot_triple (shared : env.Cooperative) {found : Found} :
    Triple (Known env.codec start (found.Holds env.codec)) (addSlot env cfg)
      (fun _ => Known env.codec start ({ found with slot := true }.Holds env.codec))
      (fun _ => Since env.codec start) := by
  refine attempt_triple.bind fun _ =>
    (createReplicationSlot_triple shared Found.holds_kept).bind fun _ => .modify ?_
  rintro s ⟨since, holds, there⟩
  exact ⟨since, { holds with slot := fun _ => there }⟩

theorem unlessFound_triple {found : Bool} {create : SetupM Unit} {pre post : SetupState → Prop}
    {fails : Failure → SetupState → Prop} (there : found = true → ∀ s, pre s → post s)
    (missing : found = false → Triple pre create (fun _ => post) fails) :
    Triple pre (unlessFound found create) (fun _ => post) fails := by
  cases found with
  | true => exact .pure (there rfl)
  | false => exact missing rfl

theorem createMissing_triple (shared : env.Cooperative) (found : Found) :
    Triple (Known env.codec start (found.Holds env.codec)) (createMissing env cfg found)
      (fun _ => Known env.codec start (Catalogue.Ready env.codec)) (fun _ => Since env.codec start) := by
  have function : Triple (Known env.codec start (found.Holds env.codec))
      (unlessFound found.function (installFunction env))
      (fun _ => Known env.codec start ({ found with function := true }.Holds env.codec))
      (fun _ => Since env.codec start) :=
    unlessFound_triple (fun there s h => ⟨h.1, { h.2 with function := fun _ => h.2.function there }⟩)
      fun _ => installFunction_triple shared
  have publication : Triple
      (Known env.codec start ({ found with function := true }.Holds env.codec))
      (unlessFound found.publication (createPublication env cfg))
      (fun _ => Known env.codec start
        ({ found with function := true, publication := true }.Holds env.codec))
      (fun _ => Since env.codec start) :=
    unlessFound_triple (fun there s h => ⟨h.1, { h.2 with
      publication := fun _ => h.2.publication there }⟩) fun _ => createPublication_triple shared
  have slot : Triple
      (Known env.codec start ({ found with function := true, publication := true }.Holds env.codec))
      (unlessFound found.slot (addSlot env cfg))
      (fun _ => Known env.codec start ((⟨true, true, true⟩ : Found).Holds env.codec))
      (fun _ => Since env.codec start) :=
    unlessFound_triple (fun there s h => ⟨h.1, { h.2 with slot := fun _ => h.2.slot there }⟩)
      fun _ => addSlot_triple shared
  refine function.bind fun _ => publication.bind fun _ => slot.mono (fun _ h => h) ?_ fun _ _ h => h
  rintro _ s ⟨since, holds⟩
  exact ⟨since, holds.supported, holds.function rfl, holds.publication rfl, holds.slot rfl⟩

theorem setup_triple (shared : env.Cooperative) (createSlot : Bool) :
    Triple (Since env.codec start) (setup env cfg createSlot)
      (fun _ => Known env.codec start (Catalogue.Ready env.codec)) (fun _ => Since env.codec start) :=
  (preflight_triple shared createSlot).bind fun found => createMissing_triple shared found

theorem slotOrNew_triple (shared : env.Cooperative) (slot : SlotInfo) :
    Triple (Known env.codec start (Seen env.codec slot)) (slotOrNew env cfg slot)
      (fun slot => Known env.codec start (Seen env.codec slot)) (fun _ => Since env.codec start) := by
  unfold slotOrNew
  split
  · exact .pure fun _ h => h
  · refine Triple.bind (outcome_triple (fun _ _ h _ => h) fun _ _ h => h.1) fun _ =>
      attempt_triple.bind fun _ => (createReplicationSlot_triple shared seen_kept).bind fun _ =>
        attempt_triple.bind fun _ => ?_
    refine inspect_triple shared (seen_kept.and hasSlot_kept) ?_
    intro c slot _ _ done
    exact readSlot_seen done

theorem daemonSlot_triple (shared : env.Cooperative) :
    Triple (Since env.codec start) (daemonSlot env cfg)
      (fun _ => Known env.codec start fun c => c.Supported ∧ c.HasSlot env.codec)
      (fun _ => Since env.codec start) := by
  have read : Triple (Known env.codec start fun _ => True) (inspectSlot env cfg .slot)
      (fun slot => Known env.codec start (Seen env.codec slot)) (fun _ => Since env.codec start) :=
    inspect_triple shared .const fun c slot _ _ done => readSlot_seen done
  refine Triple.bind (outcome_triple (fun s _ h _ => ⟨h, trivial⟩) fun _ _ h => h) fun _ =>
    read.bind fun slot => (slotOrNew_triple shared slot).bind fun slot =>
      (inspectServer_triple shared seen_kept).bind fun database => ?_
  refine Triple.bind (outcome_triple ?_ fun _ _ h => h.1) fun _ => .pure fun _ h => h
  rintro s _ ⟨since, seen, supported, rfl⟩ accepted
  rw [validateSlot_ok_iff] at accepted
  exact ⟨since, supported, seen.hasSlot accepted.1 (accepted.2.1.trans since.database.symm)⟩

end Shared

end WriteRelay.Postgres
