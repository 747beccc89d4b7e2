import Switchboard.Settings.Reader
import Switchboard.Text.Utf8

/-!
# Settings files

- `FileState`: what stands at a path.
- `load`: the settings in the file at a path.
- `loadDefault`: the settings in the file at the default path, if there is one.
- `LoadError`: why a file was not loaded.
-/

namespace Switchboard.Settings

/-- What stands at a path. -/
inductive FileState
  | absent
  | directory
  | file (bytes : List UInt8)
  deriving DecidableEq, Repr

inductive ReadFault
  | notFound
  | isDirectory
  | notText
  deriving DecidableEq, Repr

def ReadFault.message : ReadFault → String
  | notFound => "No such file or directory (os error 2)"
  | isDirectory => "Is a directory (os error 21)"
  | notText => "stream did not contain valid UTF-8"

inductive LoadError
  | read (path : String) (fault : ReadFault)
  | parse (path : String) (fault : Fault)
  deriving DecidableEq, Repr

namespace LoadError

/-- The file that was not loaded. -/
def path : LoadError → String
  | read p _ => p
  | parse p _ => p

def message : LoadError → String
  | read p fault => "failed to read config at " ++ p ++ ": " ++ fault.message
  | parse p fault => "failed to parse config at " ++ p ++ ": " ++ fault.message

end LoadError

/-- The path of the settings file in a home directory. -/
def defaultPath (home : String) : String := home ++ "/.ribbon/config.toml"

/-- The settings in the file at a path. -/
def load (path : String) (state : FileState) : Except LoadError Settings :=
  match state with
  | .absent => .error (.read path .notFound)
  | .directory => .error (.read path .isDirectory)
  | .file bytes =>
    match Text.Utf8.decode? bytes with
    | none => .error (.read path .notText)
    | some s => (Settings.read s).mapError (.parse path)

/-- The settings in the file at the default path; there need not be one. -/
def loadDefault (path : String) (state : FileState) : Except LoadError (Option Settings) :=
  match state with
  | .absent => .ok none
  | state => (load path state).map some

end Switchboard.Settings
