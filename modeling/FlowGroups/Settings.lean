/-
The daemon's settings, read from environment variables whose names may be in any case.
-/
import FlowGroups.Network

namespace FlowGroups

structure Settings where
  /-- what to log -/
  logFilter : String
  device : DeviceId
  /-- where the store is kept -/
  dataPath : String
  /-- how many milliseconds an objective may wait for confirmation -/
  expiryMillis : Nat
  /-- how many milliseconds there are from one sweep to the next -/
  sweepMillis : Nat
  /-- the port that metrics are served at -/
  metricsPort : Nat
  /-- a file of objectives to install at the start -/
  objectivesPath : Option String
deriving DecidableEq, Repr

inductive SettingsError
  /-- a variable is missing, given twice, or not the number it should be -/
  | unreadable
  | emptyDevice
  | noSweep
deriving DecidableEq, Repr

def SettingsError.message : SettingsError → String
  | unreadable => "error building config from env"
  | emptyDevice => "DEVICE_ID must not be empty"
  | noSweep => "SWEEP_INTERVAL_MILLIS must be greater than 0"

namespace Settings

/-- whole seconds -/
def expirySeconds (s : Settings) : Nat := s.expiryMillis / 1000

/-- whole seconds -/
def sweepSeconds (s : Settings) : Nat := s.sweepMillis / 1000

def defaultDataPath : String := "/usr/local/groupchain/data"
def defaultExpiryMillis : Nat := 20000
def defaultSweepMillis : Nat := 500
def defaultMetricsPort : Nat := 7002

/-- ASCII digits, after at most one plus sign, of a number below `bound` -/
def readNumber? (bound : Nat) (text : String) : Option Nat :=
  let digits := match text.toList with
    | '+' :: rest => rest
    | cs => cs
  if digits = [] ∨ ¬ digits.all Char.isDigit then none
  else
    let n := digits.foldl (fun n c => 10 * n + (c.toNat - 48)) 0
    if n < bound then some n else none

/-- the value of a variable, if there is one; two of them are an error -/
def lookup? (env : List (String × String)) (name : String) :
    Except SettingsError (Option String) :=
  match env.filter fun v => v.1.toLower = name with
  | [] => .ok none
  | [v] => .ok (some v.2)
  | _ => .error .unreadable

def required (env : List (String × String)) (name : String) : Except SettingsError String := do
  match ← lookup? env name with
  | some text => pure text
  | none => throw .unreadable

def number (env : List (String × String)) (name : String) (bound default : Nat) :
    Except SettingsError Nat := do
  match ← lookup? env name with
  | none => pure default
  | some text =>
    match readNumber? bound text with
    | some n => pure n
    | none => throw .unreadable

/-- reads the settings from variables and their values -/
def ofEnv (env : List (String × String)) : Except SettingsError Settings := do
  let logFilter ← required env "rust_log"
  let device ← required env "device_id"
  let dataPath ← lookup? env "storage_data_path"
  let expiryMillis ← number env "pending_expiry_millis" UInt64.size defaultExpiryMillis
  let sweepMillis ← number env "sweep_interval_millis" UInt64.size defaultSweepMillis
  let metricsPort ← number env "metrics_port" UInt16.size defaultMetricsPort
  let objectivesPath ← lookup? env "objectives_path"
  if device = "" then throw .emptyDevice
  if sweepMillis = 0 then throw .noSweep
  pure
    { logFilter, device := ⟨device⟩, dataPath := dataPath.getD defaultDataPath
      expiryMillis, sweepMillis, metricsPort, objectivesPath }

end Settings

end FlowGroups
