import Switchboard.Dictionary
import Switchboard.Number.Binary64
import Switchboard.Number.Shortest
import Switchboard.Text.Quoted

/-!
# JSON values

- `Json`: a document. The members of an object stand in the order in which they were written, and
  a key may be repeated.
- `Json.normalize`: the value of a document: of members with one key the last stays, and members
  are in key order.
- `Json.describe`: how a value is named when another kind was expected.
-/

namespace Switchboard

/-- A JSON document or value. Numbers are integers of 64 bits or doubles. -/
inductive Json
  | null
  | bool (b : Bool)
  | int (n : Int)
  | real (x : Number.Binary64)
  | str (s : String)
  | arr (items : List Json)
  | obj (members : List (String × Json))
  deriving Inhabited

namespace Json

/-- The object with the members given, in key order. -/
def ofMembers (members : List (String × Json)) : Json := obj (Dictionary.ofEntries members)

mutual

/-- The value that a document stands for. -/
def normalize : Json → Json
  | arr items => arr (normalizeItems items)
  | obj members => ofMembers (normalizeMembers members)
  | j => j

def normalizeItems : List Json → List Json
  | [] => []
  | j :: rest => normalize j :: normalizeItems rest

def normalizeMembers : List (String × Json) → List (String × Json)
  | [] => []
  | (k, j) :: rest => (k, normalize j) :: normalizeMembers rest

end

/-- The value of a member of an object. -/
def member? (key : String) : Json → Option Json
  | obj members => Dictionary.find? key members
  | _ => none

def str? : Json → Option String
  | str s => some s
  | _ => none

def bool? : Json → Option Bool
  | bool b => some b
  | _ => none

def int? : Json → Option Int
  | int n => some n
  | _ => none

def items? : Json → Option (List Json)
  | arr items => some items
  | _ => none

/-- The name of a value in a message about its kind. -/
def describe : Json → String
  | null => "null"
  | bool b => "boolean `" ++ toString b ++ "`"
  | int n => "integer `" ++ toString n ++ "`"
  | real x => "floating point `" ++ x.text ++ "`"
  | str s => "string " ++ Text.quoted s
  | arr _ => "sequence"
  | obj _ => "map"

/-- What a reader wanted instead of a value. -/
inductive Wanted
  | text
  | sequence
  | map
  deriving DecidableEq, Repr

def Wanted.describe : Wanted → String
  | text => "a string"
  | sequence => "a sequence"
  | map => "a map"

/-- The message about a value of the wrong kind. -/
def wrongKind (found : Json) (wanted : Wanted) : String :=
  "invalid type: " ++ found.describe ++ ", expected " ++ wanted.describe

end Json

end Switchboard
