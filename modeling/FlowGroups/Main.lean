/-
The command: one run of the daemon with the settings of its environment. It prints what it recovered
and what became of each objective of the replay file.
-/
import FlowGroups.Daemon

namespace FlowGroups

def recoveredLine (r : Record) : String :=
  s!"recovered {r.objective}: {r.chains.length} chains"

def LogLine.text : LogLine → String
  | .applied op n (some g) => s!"{op.name} {n}: {g.text}"
  | .applied op n none => s!"{op.name} {n}: done"
  | .failed op n e => s!"{op.name} {n}: {e.message}"
  | .skipped i e => s!"entry {i}: {e.message}"

/-- the variables the settings are read from -/
def variableNames : List String :=
  ["RUST_LOG", "DEVICE_ID", "STORAGE_DATA_PATH", "PENDING_EXPIRY_MILLIS", "SWEEP_INTERVAL_MILLIS",
    "METRICS_PORT", "OBJECTIVES_PATH"]

def readEnv : IO (List (String × String)) :=
  variableNames.filterMapM fun name => do
    let value ← IO.getEnv name
    return value.map fun v => (name, v)

def readStartFile : Option String → IO StartFile
  | none => return .none
  | some path => do
    try
      let bytes ← IO.FS.readBinFile path
      return .text bytes.toList
    catch _ => return .missing

def runCommand : IO UInt32 := do
  match Settings.ofEnv (← readEnv) with
  | .error e =>
    IO.eprintln e.message
    return 1
  | .ok settings =>
    match Daemon.run settings.device .empty true (← readStartFile settings.objectivesPath) with
    | .error e =>
      IO.eprintln e.message
      return 1
    | .ok run =>
      run.recovered.forM fun r => IO.println (recoveredLine r)
      run.log.forM fun l => IO.println l.text
      return 0

end FlowGroups

def main : IO UInt32 := FlowGroups.runCommand
