import Switchboard.Duration
import Switchboard.Text.Ascii
import Switchboard.Text.Search

/-!
# Frames of an event stream

Inside a frame each line is `field: value`; a line that starts with a colon is a comment.

- `Frame`: the fields that were found.
- `Frame.lines`: the lines of a frame without their ends.
- `Frame.absorb`: what one line adds.
- `Frame.ofText`: the fields of a frame.
-/

namespace Switchboard.EventStream

structure Frame where
  event : Option String := none
  /-- The values of the data lines joined by line feeds; none if there was no such line. -/
  data : Option String := none
  id : Option String := none
  /-- How long the server asks the client to wait before it connects again. -/
  retry : Option Duration := none
  deriving DecidableEq, Repr

namespace Frame

/-- The text without a carriage return at its end. -/
def dropCR (line : List Char) : List Char :=
  if line.getLast? = some '\r' then line.dropLast else line

/-- The lines of a text. A line feed ends a line, with a carriage return before it; one more
carriage return at the end of any line is not part of it either. `line` is what was read of the
current line, in reverse. -/
def linesFrom (line : List Char) : List Char → List (List Char)
  | [] => if line.isEmpty then [] else [dropCR line.reverse]
  | c :: rest =>
    if c == '\n' then dropCR (dropCR line.reverse) :: linesFrom [] rest
    else linesFrom (c :: line) rest

def lines (text : List Char) : List (List Char) := linesFrom [] text

/-- Field name and value: the value starts after the first colon and one space after that. -/
def field (line : List Char) : List Char × List Char :=
  match Text.cut? [':'] line with
  | some (name, ' ' :: value) => (name, value)
  | some (name, value) => (name, value)
  | none => (line, [])

/-- The milliseconds of a retry field: digits only, and no more than 64 bits. -/
def retryMillis? (value : List Char) : Option Nat :=
  let n := Text.decimalValue value
  if value.isEmpty || !value.all Text.isDigit || Nat.pow 2 64 ≤ n then none else some n

/-- What one line adds. Blank lines, comments, unknown fields, ids that contain NUL and retry
values that are no number add nothing. -/
def absorb (f : Frame) (line : List Char) : Frame :=
  if line.isEmpty || line.head? == some ':' then f
  else
    let (name, value) := field line
    match String.ofList name with
    | "event" => { f with event := some (String.ofList value) }
    | "data" =>
      match f.data with
      | some d => { f with data := some (d ++ "\n" ++ String.ofList value) }
      | none => { f with data := some (String.ofList value) }
    | "id" => if value.contains '\x00' then f else { f with id := some (String.ofList value) }
    | "retry" =>
      match retryMillis? value with
      | some ms => { f with retry := some (.ofMillis ms) }
      | none => f
    | _ => f

def ofText (text : String) : Frame := (lines text.toList).foldl absorb {}

/-- The name under which a frame is delivered; an empty or missing one is `message`. -/
def name (f : Frame) : String :=
  match f.event with
  | some e => if e.isEmpty then "message" else e
  | none => "message"

end Frame

end Switchboard.EventStream
