import WriteRelay.Diskspace.Guard
import WriteRelay.Delivery.Webhook

/-! `config.Decode` after the YAML: the defaults, the checks with their messages, and the
configuration that the daemon runs with. -/
namespace WriteRelay.Settings
open Fallible Diskspace
open Webhook (identifierPattern)

section Model

structure URL where
  scheme : String
  host : String
  user : Bool
  fragment : String

/-- `time.ParseDuration`, the port of `netip.ParseAddrPort`, and `url.Parse`. -/
structure Parsers where
  parseDuration : String → Except String Int64
  parseAddrPort : String → Except String UInt16
  parseURL : String → Except String URL

structure PostgresConfig where
  dsn : String
  dsnEnv : String
  slot : String
  publication : String
  messagePrefix : String
  statusInterval : Int64
  statusIntervalValue : String
  createSlotIfMissing : Bool
  maxTransactionEvents : Int64
  maxTransactionBytes : Int64
  deriving DecidableEq

structure SpoolConfig where
  path : String
  maxEventBytes : Int64
  diskSpace : DiskSpaceConfig
  deriving DecidableEq

structure RetryConfig where
  initialDelay : Int64
  initialDelayValue : String
  maxDelay : Int64
  maxDelayValue : String
  maxAttempts : Int64
  deriving DecidableEq

structure SinkConfig where
  name : String
  type : String
  url : String
  authorizationEnv : String
  signingSecretEnv : String
  allowInsecureHTTP : Bool
  deriving DecidableEq

structure DeliveryConfig where
  pollInterval : Int64
  pollIntervalValue : String
  requestTimeout : Int64
  requestTimeoutValue : String
  retry : RetryConfig
  sinks : List SinkConfig
  deriving DecidableEq

structure MonitoringConfig where
  listen : String
  sampleInterval : Int64
  sampleIntervalValue : String
  deriving DecidableEq

structure LoggingConfig where
  level : String
  format : String
  deriving DecidableEq

structure Config where
  version : Int64
  postgres : PostgresConfig
  spool : SpoolConfig
  delivery : DeliveryConfig
  monitoring : MonitoringConfig
  logging : LoggingConfig
  deriving DecidableEq

def currentVersion : Int64 := 1
def requiredPrefix : String := "writerelay.v1"
def defaultMaxEventBytes : Int64 := 262144

def textOr (value default : String) : String := if value = "" then default else value

def countOr (value default : Int64) : Int64 := if value = 0 then default else value

/-- `^[A-Z_][A-Z0-9_]*$`. -/
def envPattern (name : String) : Bool :=
  match name.toList with
  | [] => false
  | c :: rest => (c.isUpper || c = '_') && rest.all (fun c => c.isUpper || c.isDigit || c = '_')

def validateOptionalEnvironmentName (name value : String) : Except Failure Unit :=
  refuse (value ≠ "" ∧ envPattern value = false)
    (errorf none "%s must be an uppercase environment variable name" [name])

variable (p : Parsers)

def validateListen (listen : String) : Except Failure Unit :=
  let message := "monitoring.listen must be an IP address and port between 1 and 65535 (for example 127.0.0.1:9090)"
  if listen = "" then .ok ()
  else
    match p.parseAddrPort listen with
    | .error _ => .error (errorf none message [])
    | .ok port => refuse (port = 0) (errorf none message [])

def MonitoringConfig.setDefaultsAndValidate (c : MonitoringConfig) : Except Failure MonitoringConfig := do
  validateListen p c.listen
  let value := textOr c.sampleIntervalValue "15s"
  let interval ← boundedDuration p.parseDuration "monitoring.sample_interval" value 1000000000 300000000000
  return { c with sampleIntervalValue := value, sampleInterval := interval }

/-- `status_interval` is not checked by `boundedDuration`. -/
def parseStatusInterval (value : String) : Except Failure Int64 := do
  let duration ← (p.parseDuration value).mapError
    (fun e => wrapf none "postgres.status_interval: %w" [] (.fault e))
  refuse (duration < 1000000000 ∨ 300000000000 < duration)
    (errorf none "postgres.status_interval must be between 1s and 5m" [])
  return duration

def PostgresConfig.setDefaultsAndValidate (c : PostgresConfig) : Except Failure PostgresConfig := do
  refuse (c.dsn = "" ↔ c.dsnEnv = "")
    (errorf none "postgres requires exactly one of dsn and dsn_env" [])
  refuse (c.dsnEnv ≠ "" ∧ envPattern c.dsnEnv = false)
    (errorf none "postgres.dsn_env must be an uppercase environment variable name" [])
  refuse (identifierPattern c.slot = false)
    (errorf none "postgres.slot must match ^[a-z_][a-z0-9_]\x7b0,62\x7d$" [])
  refuse (identifierPattern c.publication = false)
    (errorf none "postgres.publication must match ^[a-z_][a-z0-9_]\x7b0,62\x7d$" [])
  refuse (c.messagePrefix ≠ requiredPrefix)
    (errorf none "postgres.message_prefix must be exactly %q" (List.singleton requiredPrefix))
  let value := textOr c.statusIntervalValue "10s"
  let interval ← parseStatusInterval p value
  let events := countOr c.maxTransactionEvents 10000
  refuse (events < 1 ∨ 1000000 < events)
    (errorf none "postgres.max_transaction_events must be between 1 and 1000000" [])
  let bytes := countOr c.maxTransactionBytes 8388608
  refuse (bytes < defaultMaxEventBytes)
    (errorf none "postgres.max_transaction_bytes must be at least %d" [toString defaultMaxEventBytes])
  return { c with
    statusIntervalValue := value
    statusInterval := interval
    maxTransactionEvents := events
    maxTransactionBytes := bytes }

def SpoolConfig.setDefaultsAndValidate (c : SpoolConfig) : Except Failure SpoolConfig := do
  refuse (c.path = "") (errorf none "spool.path is required" [])
  let bytes := countOr c.maxEventBytes defaultMaxEventBytes
  refuse (bytes < 1 ∨ defaultMaxEventBytes < bytes)
    (errorf none "spool.max_event_bytes must be between 1 and %d" [toString defaultMaxEventBytes])
  let diskSpace ← c.diskSpace.setDefaultsAndValidate p.parseDuration
  return { c with maxEventBytes := bytes, diskSpace := diskSpace }

def RetryConfig.setDefaultsAndValidate (c : RetryConfig) : Except Failure RetryConfig := do
  let initialValue := textOr c.initialDelayValue "1s"
  let initialDelay ← boundedDuration p.parseDuration "delivery.retry.initial_delay" initialValue
    100000000 3600000000000
  let maxValue := textOr c.maxDelayValue "5m"
  let maxDelay ← boundedDuration p.parseDuration "delivery.retry.max_delay" maxValue
    100000000 86400000000000
  refuse (maxDelay < initialDelay)
    (errorf none "delivery.retry.max_delay must not be less than initial_delay" [])
  let attempts := countOr c.maxAttempts 10
  refuse (attempts < 1 ∨ 1000 < attempts)
    (errorf none "delivery.retry.max_attempts must be between 1 and 1000" [])
  return ⟨initialDelay, initialValue, maxDelay, maxValue, attempts⟩

def validateScheme (path : String) (sink : SinkConfig) (scheme : String) : Except Failure Unit :=
  if scheme.toLower = "https" then .ok ()
  else if scheme.toLower = "http" then
    refuse (sink.allowInsecureHTTP = false)
      (errorf none "%s.url requires HTTPS unless allow_insecure_http is true" [path])
  else .error (errorf none "%s.url must use HTTP or HTTPS" [path])

def validateWebhook (path : String) (sink : SinkConfig) : Except Failure Unit :=
  match p.parseURL sink.url with
  | .error _ => .error (errorf none "%s.url must be an absolute HTTP(S) URL" [path])
  | .ok endpoint => do
    refuse (endpoint.host = "") (errorf none "%s.url must be an absolute HTTP(S) URL" [path])
    refuse (endpoint.user = true ∨ endpoint.fragment ≠ "")
      (errorf none "%s.url must not contain user information or a fragment" [path])
    validateScheme path sink endpoint.scheme
    validateOptionalEnvironmentName (path ++ ".authorization_env") sink.authorizationEnv
    validateOptionalEnvironmentName (path ++ ".signing_secret_env") sink.signingSecretEnv

/-- The body of the loop over the sinks; `names` are the names seen so far. -/
def validateSink (index : Nat) (names : List String) (sink : SinkConfig) : Except Failure Unit := do
  let path := "delivery.sinks[" ++ toString index ++ "]"
  refuse (identifierPattern sink.name = false)
    (errorf none "%s.name must match ^[a-z_][a-z0-9_]\x7b0,62\x7d$" [path])
  refuse (sink.name ∈ names) (errorf none "%s.name %q is duplicated" [path, sink.name])
  if sink.type = "webhook" then validateWebhook p path sink
  else if sink.type = "stdout" then
    refuse (sink.url ≠ "" ∨ sink.authorizationEnv ≠ "" ∨ sink.signingSecretEnv ≠ "" ∨
        sink.allowInsecureHTTP = true)
      (errorf none "%s stdout sink does not accept webhook fields" [path])
  else .error (errorf none "%s.type must be webhook or stdout" [path])

def validateSinks : Nat → List String → List SinkConfig → Except Failure Unit
  | _, _, [] => .ok ()
  | index, names, sink :: rest => do
    validateSink p index names sink
    validateSinks (index + 1) (sink.name :: names) rest

def DeliveryConfig.setDefaultsAndValidate (c : DeliveryConfig) : Except Failure DeliveryConfig := do
  let pollValue := textOr c.pollIntervalValue "1s"
  let pollInterval ← boundedDuration p.parseDuration "delivery.poll_interval" pollValue
    50000000 60000000000
  let timeoutValue := textOr c.requestTimeoutValue "10s"
  let requestTimeout ← boundedDuration p.parseDuration "delivery.request_timeout" timeoutValue
    100000000 120000000000
  let retry ← c.retry.setDefaultsAndValidate p
  validateSinks p 0 [] c.sinks
  return ⟨pollInterval, pollValue, requestTimeout, timeoutValue, retry, c.sinks⟩

def LoggingConfig.setDefaultsAndValidate (c : LoggingConfig) : Except Failure LoggingConfig := do
  let level := textOr c.level "info"
  refuse (level ∉ ["debug", "info", "warn", "error"])
    (errorf none "logging.level must be debug, info, warn, or error" [])
  let format := textOr c.format "text"
  refuse (format ≠ "text" ∧ format ≠ "json") (errorf none "logging.format must be text or json" [])
  return ⟨level, format⟩

def Config.setDefaultsAndValidate (c : Config) : Except Failure Config := do
  let monitoring ← c.monitoring.setDefaultsAndValidate p
  refuse (c.version ≠ currentVersion)
    (errorf none "configuration version must be %d" [toString currentVersion])
  let postgres ← c.postgres.setDefaultsAndValidate p
  let spool ← c.spool.setDefaultsAndValidate p
  let delivery ← c.delivery.setDefaultsAndValidate p
  let logging ← c.logging.setDefaultsAndValidate
  return ⟨c.version, postgres, spool, delivery, monitoring, logging⟩

/-- `PostgreSQLDSN`; the environment gives a variable that is set. -/
def Config.postgreSQLDSN (lookupEnv : String → Option String) (c : Config) : Except Failure String :=
  if c.postgres.dsn ≠ "" then .ok c.postgres.dsn
  else
    match lookupEnv c.postgres.dsnEnv with
    | none => .error (errorf none "environment variable %s is not set" [c.postgres.dsnEnv])
    | some value =>
      if value = "" then .error (errorf none "environment variable %s is not set" [c.postgres.dsnEnv])
      else .ok value

end Model

section Documented

variable (p : Parsers)

def Parsers.duration (value : String) : Int64 :=
  match p.parseDuration value with
  | .ok d => d
  | .error _ => 0

def Parsers.Within (value : String) (minimum maximum : Int64) : Prop :=
  ∃ d, p.parseDuration value = .ok d ∧ minimum ≤ d ∧ d ≤ maximum

def MonitoringConfig.completed (c : MonitoringConfig) : MonitoringConfig :=
  let value := textOr c.sampleIntervalValue "15s"
  { c with sampleIntervalValue := value, sampleInterval := p.duration value }

structure MonitoringConfig.Documented (c : MonitoringConfig) : Prop where
  listen : c.listen = "" ∨ ∃ port, p.parseAddrPort c.listen = .ok port ∧ port ≠ 0
  sampleInterval : p.Within c.sampleIntervalValue 1000000000 300000000000

def PostgresConfig.completed (c : PostgresConfig) : PostgresConfig :=
  let value := textOr c.statusIntervalValue "10s"
  { c with
    statusIntervalValue := value
    statusInterval := p.duration value
    maxTransactionEvents := countOr c.maxTransactionEvents 10000
    maxTransactionBytes := countOr c.maxTransactionBytes 8388608 }

structure PostgresConfig.Documented (c : PostgresConfig) : Prop where
  dsn : ¬(c.dsn = "" ↔ c.dsnEnv = "")
  dsnEnv : c.dsnEnv = "" ∨ envPattern c.dsnEnv = true
  slot : identifierPattern c.slot = true
  publication : identifierPattern c.publication = true
  messagePrefix : c.messagePrefix = requiredPrefix
  statusInterval : p.Within c.statusIntervalValue 1000000000 300000000000
  events : 1 ≤ c.maxTransactionEvents ∧ c.maxTransactionEvents ≤ 1000000
  bytes : defaultMaxEventBytes ≤ c.maxTransactionBytes

def diskSpaceCompleted (c : DiskSpaceConfig) : DiskSpaceConfig :=
  let value := textOr c.checkIntervalValue "5s"
  { c with checkIntervalValue := value, checkInterval := p.duration value }

structure DiskSpaceDocumented (c : DiskSpaceConfig) : Prop where
  pause : 0 ≤ c.pauseBelowBytes
  resume : 0 ≤ c.resumeAtBytes
  ordered : if c.pauseBelowBytes = 0 then c.resumeAtBytes = 0 else c.pauseBelowBytes < c.resumeAtBytes
  checkInterval : p.Within c.checkIntervalValue 1000000000 60000000000

def SpoolConfig.completed (c : SpoolConfig) : SpoolConfig where
  path := c.path
  maxEventBytes := countOr c.maxEventBytes defaultMaxEventBytes
  diskSpace := diskSpaceCompleted p c.diskSpace

structure SpoolConfig.Documented (c : SpoolConfig) : Prop where
  path : c.path ≠ ""
  event : 1 ≤ c.maxEventBytes ∧ c.maxEventBytes ≤ defaultMaxEventBytes
  diskSpace : DiskSpaceDocumented p c.diskSpace

def RetryConfig.completed (c : RetryConfig) : RetryConfig where
  initialDelay := p.duration (textOr c.initialDelayValue "1s")
  initialDelayValue := textOr c.initialDelayValue "1s"
  maxDelay := p.duration (textOr c.maxDelayValue "5m")
  maxDelayValue := textOr c.maxDelayValue "5m"
  maxAttempts := countOr c.maxAttempts 10

structure RetryConfig.Documented (c : RetryConfig) : Prop where
  initialDelay : p.Within c.initialDelayValue 100000000 3600000000000
  maxDelay : p.Within c.maxDelayValue 100000000 86400000000000
  ordered : p.duration c.initialDelayValue ≤ p.duration c.maxDelayValue
  attempts : 1 ≤ c.maxAttempts ∧ c.maxAttempts ≤ 1000

structure URL.Documented (u : URL) (allowInsecureHTTP : Bool) : Prop where
  host : u.host ≠ ""
  user : u.user = false
  fragment : u.fragment = ""
  scheme : u.scheme.toLower = "https" ∨ u.scheme.toLower = "http" ∧ allowInsecureHTTP = true

structure SinkConfig.Webhook (sink : SinkConfig) : Prop where
  type : sink.type = "webhook"
  url : ∃ u, p.parseURL sink.url = .ok u ∧ u.Documented sink.allowInsecureHTTP
  authorization : sink.authorizationEnv = "" ∨ envPattern sink.authorizationEnv = true
  signingSecret : sink.signingSecretEnv = "" ∨ envPattern sink.signingSecretEnv = true

structure SinkConfig.Stdout (sink : SinkConfig) : Prop where
  type : sink.type = "stdout"
  url : sink.url = ""
  authorization : sink.authorizationEnv = ""
  signingSecret : sink.signingSecretEnv = ""
  allowInsecureHTTP : sink.allowInsecureHTTP = false

structure SinksDocumented (sinks : List SinkConfig) : Prop where
  names : ∀ sink ∈ sinks, identifierPattern sink.name = true
  distinct : (sinks.map (·.name)).Nodup
  types : ∀ sink ∈ sinks, sink.Webhook p ∨ sink.Stdout

def DeliveryConfig.completed (c : DeliveryConfig) : DeliveryConfig where
  pollInterval := p.duration (textOr c.pollIntervalValue "1s")
  pollIntervalValue := textOr c.pollIntervalValue "1s"
  requestTimeout := p.duration (textOr c.requestTimeoutValue "10s")
  requestTimeoutValue := textOr c.requestTimeoutValue "10s"
  retry := c.retry.completed p
  sinks := c.sinks

structure DeliveryConfig.Documented (c : DeliveryConfig) : Prop where
  pollInterval : p.Within c.pollIntervalValue 50000000 60000000000
  requestTimeout : p.Within c.requestTimeoutValue 100000000 120000000000
  retry : c.retry.Documented p
  sinks : SinksDocumented p c.sinks

def LoggingConfig.completed (c : LoggingConfig) : LoggingConfig :=
  ⟨textOr c.level "info", textOr c.format "text"⟩

structure LoggingConfig.Documented (c : LoggingConfig) : Prop where
  level : c.level ∈ ["debug", "info", "warn", "error"]
  format : c.format = "text" ∨ c.format = "json"

/-- The configuration with every default filled in and every duration read. -/
def Config.completed (c : Config) : Config where
  version := c.version
  postgres := c.postgres.completed p
  spool := c.spool.completed p
  delivery := c.delivery.completed p
  monitoring := c.monitoring.completed p
  logging := c.logging.completed

structure Config.Documented (c : Config) : Prop where
  version : c.version = currentVersion
  postgres : c.postgres.Documented p
  spool : c.spool.Documented p
  delivery : c.delivery.Documented p
  monitoring : c.monitoring.Documented p
  logging : c.logging.Documented

end Documented

section Exact

variable {p : Parsers}

theorem textOr_textOr (value default : String) :
    textOr (textOr value default) default = textOr value default := by
  unfold textOr
  split <;> simp_all

theorem countOr_countOr (value default : Int64) :
    countOr (countOr value default) default = countOr value default := by
  unfold countOr
  split <;> simp_all

theorem Config.completed_completed (c : Config) : (c.completed p).completed p = c.completed p := by
  simp [Config.completed, PostgresConfig.completed, SpoolConfig.completed, diskSpaceCompleted,
    DeliveryConfig.completed, RetryConfig.completed, MonitoringConfig.completed,
    LoggingConfig.completed, textOr_textOr, countOr_countOr]

theorem outside_iff {d minimum maximum : Int64} :
    ¬(d < minimum ∨ maximum < d) ↔ minimum ≤ d ∧ d ≤ maximum := by
  rw [not_or, Int64.not_lt, Int64.not_lt]

theorem refuse_bind_iff {α : Type} {c : Prop} [Decidable c] {e : Failure} {f : Unit → Except Failure α}
    {b : α} : (refuse c e >>= f) = .ok b ↔ ¬c ∧ f () = .ok b := by
  rw [bind_ok_iff]
  constructor
  · rintro ⟨_, passed, rest⟩
    exact ⟨refuse_ok_iff.mp passed, rest⟩
  · rintro ⟨passed, rest⟩
    exact ⟨(), refuse_ok_iff.mpr passed, rest⟩

theorem pure_ok_iff {α : Type} {a b : α} : (pure a : Except Failure α) = .ok b ↔ b = a := by
  change Except.ok a = Except.ok b ↔ _
  rw [Except.ok.injEq, eq_comm]

theorem readDuration_iff {value : String} {wrap : String → Failure} {outside : Failure}
    {minimum maximum d : Int64} :
    ((p.parseDuration value).mapError wrap >>= fun duration =>
      refuse (duration < minimum ∨ maximum < duration) outside >>= fun _ => pure duration) = .ok d ↔
      d = p.duration value ∧ p.Within value minimum maximum := by
  unfold Parsers.duration Parsers.Within
  cases p.parseDuration value with
  | error e => simp [Except.mapError, bind_ok_iff]
  | ok parsed =>
    change (refuse _ _ >>= fun _ => _) = .ok d ↔ _
    rw [refuse_bind_iff, outside_iff, pure_ok_iff]
    constructor
    · rintro ⟨within, rfl⟩
      exact ⟨rfl, d, rfl, within⟩
    · rintro ⟨rfl, d, same, within⟩
      cases same
      exact ⟨within, rfl⟩

theorem boundedDuration_iff {name value : String} {minimum maximum d : Int64} :
    boundedDuration p.parseDuration name value minimum maximum = .ok d ↔
      d = p.duration value ∧ p.Within value minimum maximum :=
  readDuration_iff

theorem parseStatusInterval_iff {value : String} {d : Int64} : parseStatusInterval p value = .ok d ↔
    d = p.duration value ∧ p.Within value 1000000000 300000000000 :=
  readDuration_iff

theorem read_bind_iff {α β : Type} {x : Except Failure α} {f : α → Except Failure β} {a : α} {b : β}
    {P : Prop} (read : ∀ a', x = .ok a' ↔ a' = a ∧ P) : (x >>= f) = .ok b ↔ P ∧ f a = .ok b := by
  rw [bind_ok_iff]
  constructor
  · rintro ⟨a', done, rest⟩
    obtain ⟨rfl, holds⟩ := (read a').mp done
    exact ⟨holds, rest⟩
  · rintro ⟨holds, rest⟩
    exact ⟨a, (read a).mpr ⟨rfl, holds⟩, rest⟩

theorem check_bind_iff {α : Type} {x : Except Failure Unit} {f : Unit → Except Failure α} {b : α}
    {P : Prop} (check : x = .ok () ↔ P) : (x >>= f) = .ok b ↔ P ∧ f () = .ok b :=
  read_bind_iff fun _ => by simpa using check

theorem validateListen_iff {listen : String} : validateListen p listen = .ok () ↔
    listen = "" ∨ ∃ port, p.parseAddrPort listen = .ok port ∧ port ≠ 0 := by
  unfold validateListen
  by_cases absent : listen = ""
  · simp [absent]
  · cases p.parseAddrPort listen <;> simp [absent]

theorem monitoring_iff {c c' : MonitoringConfig} : c.setDefaultsAndValidate p = .ok c' ↔
    c' = c.completed p ∧ (c.completed p).Documented p := by
  unfold MonitoringConfig.setDefaultsAndValidate
  simp only [check_bind_iff validateListen_iff, read_bind_iff (fun _ => boundedDuration_iff), pure_ok_iff]
  constructor
  · rintro ⟨listen, interval, rfl⟩
    exact ⟨rfl, listen, interval⟩
  · rintro ⟨rfl, listen, interval⟩
    exact ⟨listen, interval, rfl⟩

theorem unless_iff {value : String} {pattern : String → Bool} :
    ¬(value ≠ "" ∧ pattern value = false) ↔ value = "" ∨ pattern value = true := by
  rw [not_and_or, not_not, Bool.not_eq_false]

theorem postgres_iff {c c' : PostgresConfig} : c.setDefaultsAndValidate p = .ok c' ↔
    c' = c.completed p ∧ (c.completed p).Documented p := by
  unfold PostgresConfig.setDefaultsAndValidate
  simp only [read_bind_iff (fun _ => parseStatusInterval_iff), refuse_bind_iff, pure_ok_iff, outside_iff,
    unless_iff, Int64.not_lt, Bool.not_eq_false, not_not]
  constructor
  · rintro ⟨dsn, dsnEnv, slot, publication, tag, interval, events, bytes, rfl⟩
    exact ⟨rfl, dsn, dsnEnv, slot, publication, tag, interval, events, bytes⟩
  · rintro ⟨rfl, dsn, dsnEnv, slot, publication, tag, interval, events, bytes⟩
    exact ⟨dsn, dsnEnv, slot, publication, tag, interval, events, bytes, rfl⟩

theorem diskSpace_iff {c c' : DiskSpaceConfig} : c.setDefaultsAndValidate p.parseDuration = .ok c' ↔
    c' = diskSpaceCompleted p c ∧ DiskSpaceDocumented p (diskSpaceCompleted p c) := by
  have ordered : (if c.pauseBelowBytes = 0 then
      refuse (c.resumeAtBytes ≠ 0)
        (errorf none "spool.disk_space.resume_at_bytes requires pause_below_bytes" [])
    else refuse (c.resumeAtBytes ≤ c.pauseBelowBytes)
      (errorf none "spool.disk_space.resume_at_bytes must exceed pause_below_bytes" [])) = .ok () ↔
      if c.pauseBelowBytes = 0 then c.resumeAtBytes = 0 else c.pauseBelowBytes < c.resumeAtBytes := by
    split <;> simp
  unfold DiskSpaceConfig.setDefaultsAndValidate
  simp only [check_bind_iff ordered, read_bind_iff (fun _ => boundedDuration_iff), refuse_bind_iff,
    pure_ok_iff, not_or, Int64.not_lt]
  constructor
  · rintro ⟨⟨pause, resume⟩, ordered, interval, rfl⟩
    exact ⟨rfl, pause, resume, ordered, interval⟩
  · rintro ⟨rfl, pause, resume, ordered, interval⟩
    exact ⟨⟨pause, resume⟩, ordered, interval, rfl⟩

theorem spool_iff {c c' : SpoolConfig} : c.setDefaultsAndValidate p = .ok c' ↔
    c' = c.completed p ∧ (c.completed p).Documented p := by
  unfold SpoolConfig.setDefaultsAndValidate
  simp only [read_bind_iff (fun _ => diskSpace_iff), refuse_bind_iff, pure_ok_iff, outside_iff]
  constructor
  · rintro ⟨path, event, diskSpace, rfl⟩
    exact ⟨rfl, path, event, diskSpace⟩
  · rintro ⟨rfl, path, event, diskSpace⟩
    exact ⟨path, event, diskSpace, rfl⟩

theorem retry_iff {c c' : RetryConfig} : c.setDefaultsAndValidate p = .ok c' ↔
    c' = c.completed p ∧ (c.completed p).Documented p := by
  unfold RetryConfig.setDefaultsAndValidate
  simp only [read_bind_iff (fun _ => boundedDuration_iff), refuse_bind_iff, pure_ok_iff, outside_iff,
    Int64.not_lt]
  constructor
  · rintro ⟨initial, most, ordered, attempts, rfl⟩
    exact ⟨rfl, initial, most, ordered, attempts⟩
  · rintro ⟨rfl, initial, most, ordered, attempts⟩
    exact ⟨initial, most, ordered, attempts, rfl⟩

theorem logging_iff {c c' : LoggingConfig} : c.setDefaultsAndValidate = .ok c' ↔
    c' = c.completed ∧ c.completed.Documented := by
  unfold LoggingConfig.setDefaultsAndValidate
  simp only [refuse_bind_iff, pure_ok_iff, not_not, not_and_or]
  constructor
  · rintro ⟨level, format, rfl⟩
    exact ⟨rfl, level, format⟩
  · rintro ⟨rfl, level, format⟩
    exact ⟨level, format, rfl⟩

theorem validateOptionalEnvironmentName_iff {name value : String} :
    validateOptionalEnvironmentName name value = .ok () ↔ value = "" ∨ envPattern value = true := by
  rw [validateOptionalEnvironmentName, refuse_ok_iff, unless_iff]

theorem validateScheme_iff {path scheme : String} {sink : SinkConfig} :
    validateScheme path sink scheme = .ok () ↔
      scheme.toLower = "https" ∨ scheme.toLower = "http" ∧ sink.allowInsecureHTTP = true := by
  unfold validateScheme
  by_cases secure : scheme.toLower = "https"
  · simp [secure]
  · by_cases plain : scheme.toLower = "http" <;> simp [secure, plain]

theorem validateWebhook_iff {path : String} {sink : SinkConfig} (type : sink.type = "webhook") :
    validateWebhook p path sink = .ok () ↔ sink.Webhook p := by
  unfold validateWebhook
  cases parsed : p.parseURL sink.url with
  | error e =>
    refine iff_of_false (by simp) fun documented => ?_
    obtain ⟨u, found, _⟩ := documented.url
    rw [parsed] at found
    contradiction
  | ok u =>
    simp only [refuse_bind_iff, check_bind_iff validateScheme_iff,
      check_bind_iff validateOptionalEnvironmentName_iff, validateOptionalEnvironmentName_iff, not_or,
      not_not, Bool.not_eq_true]
    constructor
    · rintro ⟨host, ⟨user, fragment⟩, scheme, authorization, signingSecret⟩
      exact ⟨type, ⟨u, parsed, host, user, fragment, scheme⟩, authorization, signingSecret⟩
    · rintro ⟨-, ⟨u', found, host, user, fragment, scheme⟩, authorization, signingSecret⟩
      obtain rfl := Except.ok.inj (parsed.symm.trans found)
      exact ⟨host, ⟨user, fragment⟩, scheme, authorization, signingSecret⟩

theorem validateSink_iff {index : Nat} {names : List String} {sink : SinkConfig} :
    validateSink p index names sink = .ok () ↔
      identifierPattern sink.name = true ∧ sink.name ∉ names ∧ (sink.Webhook p ∨ sink.Stdout) := by
  unfold validateSink
  simp only [refuse_bind_iff, Bool.not_eq_false]
  refine and_congr_right fun _ => and_congr_right fun _ => ?_
  by_cases webhook : sink.type = "webhook"
  · rw [if_pos webhook, validateWebhook_iff webhook]
    have other : ¬sink.Stdout := fun stdout => by simp [stdout.type] at webhook
    simp [other]
  · have other : ¬sink.Webhook p := fun documented => webhook documented.type
    rw [if_neg webhook]
    by_cases stdout : sink.type = "stdout"
    · rw [if_pos stdout, refuse_ok_iff]
      simp only [not_or, not_not, Bool.not_eq_true, other, false_or]
      constructor
      · rintro ⟨url, authorization, signingSecret, insecure⟩
        exact ⟨stdout, url, authorization, signingSecret, insecure⟩
      · rintro ⟨-, url, authorization, signingSecret, insecure⟩
        exact ⟨url, authorization, signingSecret, insecure⟩
    · have neither : ¬sink.Stdout := fun documented => stdout documented.type
      simp [stdout, other, neither]

theorem validateSinks_iff {index : Nat} {names : List String} {sinks : List SinkConfig} :
    validateSinks p index names sinks = .ok () ↔
      SinksDocumented p sinks ∧ ∀ sink ∈ sinks, sink.name ∉ names := by
  induction sinks generalizing index names with
  | nil => exact iff_of_true rfl ⟨⟨by simp, by simp, by simp⟩, by simp⟩
  | cons sink rest ih =>
    rw [validateSinks, check_bind_iff validateSink_iff, ih]
    constructor
    · rintro ⟨⟨name, fresh, type⟩, ⟨names', distinct, types⟩, apart⟩
      refine ⟨⟨?_, ?_, ?_⟩, ?_⟩
      · exact List.forall_mem_cons.mpr ⟨name, names'⟩
      · refine List.nodup_cons.mpr ⟨?_, distinct⟩
        rintro repeated
        obtain ⟨other, mem, same⟩ := List.mem_map.mp repeated
        exact apart other mem (by simp [same])
      · exact List.forall_mem_cons.mpr ⟨type, types⟩
      · refine List.forall_mem_cons.mpr ⟨fresh, fun other mem seen => ?_⟩
        exact apart other mem (List.mem_cons_of_mem _ seen)
    · rintro ⟨⟨names', distinct, types⟩, apart⟩
      obtain ⟨name, names'⟩ := List.forall_mem_cons.mp names'
      obtain ⟨type, types⟩ := List.forall_mem_cons.mp types
      obtain ⟨fresh, apart⟩ := List.forall_mem_cons.mp apart
      obtain ⟨first, distinct⟩ := List.nodup_cons.mp distinct
      refine ⟨⟨name, fresh, type⟩, ⟨names', distinct, types⟩, fun other mem seen => ?_⟩
      rcases List.mem_cons.mp seen with same | earlier
      · exact first (List.mem_map.mpr ⟨other, mem, same⟩)
      · exact apart other mem earlier

theorem delivery_iff {c c' : DeliveryConfig} : c.setDefaultsAndValidate p = .ok c' ↔
    c' = c.completed p ∧ (c.completed p).Documented p := by
  unfold DeliveryConfig.setDefaultsAndValidate
  have sinks : validateSinks p 0 [] c.sinks = .ok () ↔ SinksDocumented p c.sinks := by
    rw [validateSinks_iff]
    simp
  simp only [read_bind_iff (fun _ => boundedDuration_iff), read_bind_iff (fun _ => retry_iff),
    check_bind_iff sinks, pure_ok_iff]
  constructor
  · rintro ⟨poll, timeout, retry, sinks, rfl⟩
    exact ⟨rfl, poll, timeout, retry, sinks⟩
  · rintro ⟨rfl, poll, timeout, retry, sinks⟩
    exact ⟨poll, timeout, retry, sinks, rfl⟩

theorem validate_iff {c c' : Config} : c.setDefaultsAndValidate p = .ok c' ↔
    c' = c.completed p ∧ (c.completed p).Documented p := by
  unfold Config.setDefaultsAndValidate
  simp only [read_bind_iff (fun _ => monitoring_iff), read_bind_iff (fun _ => postgres_iff),
    read_bind_iff (fun _ => spool_iff), read_bind_iff (fun _ => delivery_iff),
    read_bind_iff (fun _ => logging_iff), refuse_bind_iff, pure_ok_iff, not_not]
  constructor
  · rintro ⟨monitoring, version, postgres, spool, delivery, logging, rfl⟩
    exact ⟨rfl, version, postgres, spool, delivery, monitoring, logging⟩
  · rintro ⟨rfl, version, postgres, spool, delivery, monitoring, logging⟩
    exact ⟨monitoring, version, postgres, spool, delivery, logging, rfl⟩

/-- Exactly the documented configurations are accepted, and a configuration that was
accepted is accepted again as it is. -/
theorem config_accepted (p : Parsers) (c c' : Config) :
    (c.setDefaultsAndValidate p = .ok c' ↔ c' = c.completed p ∧ c'.Documented p) ∧
      (c.setDefaultsAndValidate p = .ok c' → c'.setDefaultsAndValidate p = .ok c') := by
  constructor
  · rw [validate_iff]
    exact and_congr_right fun same => by rw [same]
  · intro accepted
    obtain ⟨rfl, documented⟩ := validate_iff.mp accepted
    rw [validate_iff, Config.completed_completed]
    exact ⟨rfl, documented⟩

end Exact

end WriteRelay.Settings
