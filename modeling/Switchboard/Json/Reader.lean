import Switchboard.Json.Token

/-!
# Reading JSON

The tokens of a text go one by one through an automaton that keeps the containers around the place
it has reached. So the first problem in the text decides, and nothing is read after it.

- `Reading`: the place reached and the containers around it.
- `Reading.step`: what one token does.
- `readDocument`: the document of a text, repeated members and all.
- `read`: the value of a text.
-/

namespace Switchboard.Json

/-- An open container, with what is in it so far in reverse. -/
inductive Container
  | array (items : List Json)
  /-- `key` is the member whose value is being read. -/
  | object (members : List (String × Json)) (key : String)

/-- The place that was reached, with the containers around it from the inside out. -/
inductive Reading
  | value (around : List Container)
  | firstItem (around : List Container)
  | firstKey (around : List Container)
  | nextKey (members : List (String × Json)) (around : List Container)
  | colon (key : String) (members : List (String × Json)) (around : List Container)
  | afterItem (items : List Json) (around : List Container)
  | afterMember (members : List (String × Json)) (around : List Container)
  | done (j : Json)

/-- How deep arrays and objects may nest. -/
def maxDepth : Nat := 127

namespace Reading

/-- A value has ended. -/
def complete (j : Json) : List Container → Reading
  | [] => done j
  | .array items :: around => afterItem (j :: items) around
  | .object members key :: around => afterMember ((key, j) :: members) around

/-- A token where a value must start. -/
def stepValue (around : List Container) (t : Token) : Except Fault Reading :=
  match t with
  | .scalar j => .ok (complete j around)
  | .text s => .ok (complete (str s) around)
  | .openArray => if around.length < maxDepth then .ok (firstItem around) else .error .malformed
  | .openObject => if around.length < maxDepth then .ok (firstKey around) else .error .malformed
  | .badText f => .error f
  | .badScalar f => .error f
  | _ => .error .malformed

/-- A token where a key must start. -/
def stepKey (members : List (String × Json)) (around : List Container) (t : Token) :
    Except Fault Reading :=
  match t with
  | .text key => .ok (colon key members around)
  | .badText f => .error f
  | _ => .error .malformed

def step (r : Reading) (t : Token) : Except Fault Reading :=
  match r with
  | value around => stepValue around t
  | firstItem around =>
    match t with
    | .closeArray => .ok (complete (arr []) around)
    | t => stepValue (.array [] :: around) t
  | firstKey around =>
    match t with
    | .closeObject => .ok (complete (obj []) around)
    | t => stepKey [] around t
  | nextKey members around => stepKey members around t
  | colon key members around =>
    match t with
    | .colon => .ok (value (.object members key :: around))
    | _ => .error .malformed
  | afterItem items around =>
    match t with
    | .comma => .ok (value (.array items :: around))
    | .closeArray => .ok (complete (arr items.reverse) around)
    | _ => .error .malformed
  | afterMember members around =>
    match t with
    | .comma => .ok (nextKey members around)
    | .closeObject => .ok (complete (obj members.reverse) around)
    | _ => .error .malformed
  | done _ => .error .malformed

/-- The document, if the text may end here. -/
def finish : Reading → Except Fault Json
  | done j => .ok j
  | _ => .error .unfinished

end Reading

/-- The document of a list of tokens. -/
def ofTokens (ts : List Token) : Except Fault Json := do
  (← ts.foldlM Reading.step (Reading.value [])).finish

/-- The document that a text is, with its members as written. -/
def readDocument (s : String) : Except Fault Json := ofTokens (scan s.toList)

/-- The value that a text is. -/
def read (s : String) : Except Fault Json := (readDocument s).map normalize

end Switchboard.Json
