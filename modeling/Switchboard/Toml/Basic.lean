import Switchboard.Dictionary
import Switchboard.Number.Binary64

/-!
# TOML values

- `Toml`: the value of a key.
- `Toml.Fault`: why a text is no document.
-/

namespace Switchboard

inductive Toml
  | str (s : String)
  | int (n : Int)
  | real (x : Number.Binary64)
  | bool (b : Bool)
  /-- A date, a time or both. -/
  | moment (s : String)
  | arr (items : List Toml)
  | table (entries : List (String × Toml))
  deriving Inhabited

namespace Toml

inductive Fault
  | malformed
  /-- A key was given a second value, or a table a second definition. -/
  | redefined (key : String)
  deriving DecidableEq, Repr

def Fault.message : Fault → String
  | malformed => "the text is not well formed"
  | redefined key => "duplicate key " ++ key

/-- The value of a key of a table. -/
def member? (key : String) : Toml → Option Toml
  | table entries => Dictionary.find? key entries
  | _ => none

end Toml

end Switchboard
