import OrderDispatch.Number.Whole
import OrderDispatch.Text.Blank

/-!
# Settings

The settings of the service, as its environment gives them. A variable that is missing or does not
denote a value of its kind leaves the setting at its default.
-/

namespace OrderDispatch

/-- The settings of the service. -/
structure Settings where
  /-- Where the databases are. -/
  workDir : String
  httpPort : UInt16
  environment : String
  logLevel : String
  logJson : Bool
  logDir : Option String
  /-- The address of a remote provider directory. -/
  directoryUrl : Option String
  /-- The file that seeds the registry of providers. -/
  seedFile : Option String
  directoryTimeoutMs : UInt64
  trackPollIntervalMs : UInt64
  ledgerQueueCapacity : UInt64
  /-- Zero turns the audit off. -/
  ledgerAuditIntervalSecs : UInt64
  shutdownTimeoutMs : UInt64
deriving DecidableEq

/-- The value of a variable of the environment, if it has one. -/
abbrev Environment : Type := String → Option String

namespace Environment

/-- A text variable. -/
def text (env : Environment) (name fallback : String) : String := (env name).getD fallback

/-- A text variable that counts as missing when it is blank. -/
def text? (env : Environment) (name : String) : Option String :=
  (env name).filter (!Text.isBlank ·)

/-- A truth value: nothing but `true` and `false` denotes one. -/
def flag (env : Environment) (name : String) (fallback : Bool) : Bool :=
  match env name with
  | some "true" => true
  | some "false" => false
  | _ => fallback

/-- A number of 16 bits. -/
def word16 (env : Environment) (name : String) (fallback : UInt16) : UInt16 :=
  (((env name).bind (readBelow? UInt16.size)).map UInt16.ofNat).getD fallback

/-- A number of 64 bits. -/
def word64 (env : Environment) (name : String) (fallback : UInt64) : UInt64 :=
  (((env name).bind (readBelow? UInt64.size)).map UInt64.ofNat).getD fallback

end Environment

namespace Settings

/-- The settings that an environment gives. -/
def ofEnvironment (env : Environment) : Settings where
  workDir := env.text "WORK_DIR" "./work_dir"
  httpPort := env.word16 "HTTP_PORT" 8090
  environment := env.text "ENVIRONMENT" "development"
  logLevel := env.text "LOG_LEVEL" "info"
  logJson := env.flag "LOG_JSON" false
  logDir := env.text? "LOG_DIR"
  directoryUrl := env.text? "PROVIDER_DIRECTORY_URL"
  seedFile := env.text? "PROVIDER_SEED_FILE"
  directoryTimeoutMs := env.word64 "DIRECTORY_TIMEOUT_MS" 5000
  trackPollIntervalMs := env.word64 "TRACK_POLL_INTERVAL_MS" 5000
  ledgerQueueCapacity := env.word64 "LEDGER_QUEUE_CAPACITY" 1024
  ledgerAuditIntervalSecs := env.word64 "LEDGER_AUDIT_INTERVAL_SECS" 3600
  shutdownTimeoutMs := env.word64 "SHUTDOWN_TIMEOUT_MS" 10000

/-- The settings with another place for the databases and another port. -/
def withOverrides (s : Settings) (workDir : String) (httpPort : UInt16) : Settings :=
  { s with workDir, httpPort }

/-- A file in a folder. -/
def joinPath (folder file : String) : String :=
  if folder.isEmpty || folder.toList.getLast? == some '/' then folder ++ file
  else folder ++ "/" ++ file

/-- Where the database of the orders is. -/
def ordersPath (s : Settings) : String := joinPath s.workDir "orders.redb"

/-- Where the database of the ledger is. -/
def ledgerPath (s : Settings) : String := joinPath s.workDir "ledger.redb"

/-- The time between two looks at the position of an order, at least a millisecond. -/
def trackPollMs (s : Settings) : UInt64 := max s.trackPollIntervalMs 1

/-- The time between two audits, if there are any. -/
def auditIntervalSecs? (s : Settings) : Option UInt64 :=
  if s.ledgerAuditIntervalSecs = 0 then none else some s.ledgerAuditIntervalSecs

/-- Whether the service runs for real. -/
def isProduction (s : Settings) : Bool := s.environment == "production"

/-- Whether the service runs for its developers. -/
def isDevelopment (s : Settings) : Bool := s.environment == "development"

end Settings

end OrderDispatch
