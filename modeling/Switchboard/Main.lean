import Switchboard.CommandLine.Usage

/-!
# The program

Reads the settings file, then does what the command line asks for. This program has no network, so
no topology ever arrives.
-/

open Switchboard
open Switchboard.CommandLine

/-- What stands at a path. What is there and is no file counts as a directory. -/
def stateAt (path : String) : IO Settings.FileState := do
  try
    return .file (← IO.FS.readBinFile path).toList
  catch e =>
    match e with
    | .noFileOrDirectory .. => return .absent
    | _ => return .directory

def leave (o : Outcome) : IO UInt32 := do
  IO.print o.stdout
  IO.eprint o.stderr
  return UInt32.ofNat o.exitCode

def main (argv : List String) : IO UInt32 := do
  let home := (← IO.getEnv "HOME").getD ""
  let path := match Arguments.ofList argv with
    | .ok a => a.config.getD (Settings.defaultPath home)
    | .error _ => Settings.defaultPath home
  let state ← stateAt path
  match plan argv home fun p => if p == path then state else .absent with
  | .done o => leave o
  | .inquire _ waitSecs _ =>
    for _ in [0:waitSecs] do
      IO.sleep 1000
    leave (noTopology waitSecs)
  | .watch _ =>
    repeat
      IO.sleep 60000
    return 0
