import Switchboard.Number.Width
import Switchboard.Settings.Basic
import Switchboard.Toml.Reader

/-!
# Reading settings

- `Settings.ofToml`: the settings that a document holds. Keys that are missing have their defaults,
  keys that are unknown are passed over, and a value of the wrong kind is refused.
- `Settings.read`: the settings of a text.

A group of settings may also be written as an array, with its values in the order of the fields.
-/

namespace Switchboard.Settings

open Http (Method Headers)

inductive Fault
  | format (f : Toml.Fault)
  /-- The value of a key is of the wrong kind. -/
  | wrongKind (key : String)
  | missing (key : String)
  deriving DecidableEq, Repr

def Fault.message : Fault → String
  | format f => f.message
  | wrongKind key => "invalid value for " ++ key
  | missing key => "missing field " ++ key

/-- A reader of values; none if the value is of the wrong kind. -/
abbrev Decoder (α : Type) := Toml → Option α

def text : Decoder String
  | .str s => some s
  | _ => none

/-- A whole number of 64 bits. -/
def natural : Decoder Nat
  | .int n => if Number.fitsUnsigned 64 n then some n.toNat else none
  | _ => none

/-- A double; a whole number of 64 bits is one as well. -/
def double : Decoder Number.Binary64
  | .real x => some x
  | .int n => if Number.fitsSigned 64 n || Number.fitsUnsigned 64 n then some (.ofInt n) else none
  | _ => none

def method : Decoder Method
  | .str s => Method.ofText? s
  | _ => none

def textEntries : List (String × Toml) → Option (List (String × String))
  | [] => some []
  | (name, .str value) :: rest => (textEntries rest).map ((name, value) :: ·)
  | _ :: _ => none

/-- Header fields, written in the order of their names. -/
def headers : Decoder Headers
  | .table entries => (textEntries entries).map .ofPairs
  | _ => none

/-- The value of a field in a group of settings. -/
def field? (group : Toml) (key : String) (place : Nat) : Option Toml :=
  match group with
  | .table entries => Dictionary.find? key entries
  | .arr items => items[place]?
  | _ => none

/-- Whether a value can be a group of settings. A date is one without any known key. -/
def isGroup : Toml → Bool
  | .table _ | .arr _ | .moment _ => true
  | _ => false

/-- The value of a field, or the default if it is missing. -/
def get {α : Type} (group : Toml) (key : String) (place : Nat) (decode : Decoder α) (default : α) :
    Except Fault α :=
  match field? group key place with
  | none => .ok default
  | some v =>
    match decode v with
    | some a => .ok a
    | none => .error (.wrongKind key)

/-- The value of a group, or the default if it is missing. -/
def getGroup {α : Type} (group : Toml) (key : String) (place : Nat)
    (read : Toml → Except Fault α) (default : α) : Except Fault α :=
  match field? group key place with
  | none => .ok default
  | some v => if isGroup v then read v else .error (.wrongKind key)

def reconnectOfToml (t : Toml) : Except Fault ReconnectSettings := do
  let d : ReconnectSettings := {}
  .ok
    { initialMillis := ← get t "initial_delay_ms" 0 natural d.initialMillis
      maxMillis := ← get t "max_delay_ms" 1 natural d.maxMillis
      jitter := ← get t "jitter_factor" 2 double d.jitter }

def clientOfToml (t : Toml) : Except Fault ClientSettings := do
  let d : ClientSettings := {}
  .ok
    { origin := ← get t "origin" 0 text d.origin
      scheme := ← get t "scheme" 1 text d.scheme
      method := ← get t "method" 2 method d.method
      headers := ← get t "headers" 3 headers d.headers
      refreshSecs := ← get t "auth_refresh_interval_secs" 4 natural d.refreshSecs
      pushPath := ← get t "push_channel_path" 5 text d.pushPath
      connectTimeoutSecs := ← get t "connect_timeout_secs" 6 natural d.connectTimeoutSecs
      requestTimeoutSecs := ← get t "request_timeout_secs" 7
        (fun v => (natural v).map some) d.requestTimeoutSecs
      reconnect := ← getGroup t "reconnect" 8 reconnectOfToml d.reconnect }

/-- The token must be there; it may be empty. -/
def authOfToml (t : Toml) : Except Fault AuthSettings :=
  match field? t "token" 0 with
  | none => .error (.missing "token")
  | some v =>
    match text v with
    | some s => .ok ⟨s⟩
    | none => .error (.wrongKind "token")

def ofToml (t : Toml) : Except Fault Settings := do
  .ok
    { client := ← getGroup t "client" 0 clientOfToml {}
      auth := ← getGroup t "auth" 1 (fun v => (authOfToml v).map some) none }

/-- The settings that a text holds. -/
def read (s : String) : Except Fault Settings := do
  ofToml (← (Toml.read s).mapError .format)

end Switchboard.Settings
