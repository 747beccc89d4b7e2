import Switchboard.Text.Ascii
import Switchboard.Text.Blank
import Switchboard.Text.Quoted

/-!
# Request methods

- `Method`: the methods a request may use.
- `Method.ofText?`: read from a text in any case, blanks around it ignored.
- `Method.carriesBody`: methods whose requests are declared to hold JSON.
-/

namespace Switchboard.Http

inductive Method
  | get | post | put | patch | delete | head | options
  deriving DecidableEq, Repr, Inhabited

namespace Method

def all : List Method := [get, post, put, patch, delete, head, options]

/-- The name on the wire. -/
def name : Method → String
  | get => "GET"
  | post => "POST"
  | put => "PUT"
  | patch => "PATCH"
  | delete => "DELETE"
  | head => "HEAD"
  | options => "OPTIONS"

/-- The name in descriptions. -/
def describe : Method → String
  | get => "Get"
  | post => "Post"
  | put => "Put"
  | patch => "Patch"
  | delete => "Delete"
  | head => "Head"
  | options => "Options"

def carriesBody : Method → Bool
  | post | put | patch => true
  | _ => false

/-- The method with this name. Only ASCII letters have a case here. -/
def ofText? (s : String) : Option Method :=
  let word := Text.upper (Text.trim s)
  all.find? fun m => m.name == word

/-- The message about a text that names no method, quoted as it came. -/
def unknownMessage (s : String) : String := "unknown HTTP method: " ++ Text.quoted s

end Method

end Switchboard.Http
