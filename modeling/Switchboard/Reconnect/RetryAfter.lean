import Switchboard.Duration
import Switchboard.Number.Decimal
import Switchboard.Text.Ascii
import Switchboard.Text.Blank
import Switchboard.Text.Utf8

/-!
# Waiting as the server asks

A server that rejects a connection may name a delay in one of two header fields. A delay counts
only if it is positive and below one minute before it is turned into a duration.

- `ResponseFields`: field lines as received, values as octets.
- `RetryAfter.inMillis?`, `inSeconds?`: the delay of one field value.
- `RetryAfter.delay?`: the delay asked for.
-/

namespace Switchboard

/-- Header fields of a response in the order received. -/
abbrev ResponseFields := List (String × List UInt8)

namespace RetryAfter

open Number (Binary64 Magnitude)

/-- The first value of a field, if it is printable ASCII with tabs. -/
def fieldText? (fields : ResponseFields) (name : String) : Option String :=
  match fields.find? fun f => Text.sameName f.1 name with
  | some (_, value) =>
    if value.all fun b => b == 9 || (32 ≤ b && b < 127) then Text.Utf8.decode? value else none
  | none => none

/-- Milliseconds as a decimal number, between zero and 60000 exclusively. -/
def inMillis? (s : String) : Option Duration :=
  match Number.readDecimal? s with
  | some (.finite false m) =>
    if 0 < m.units && m.units < 60000 * Magnitude.unitsPerOne then
      (m.div? (.ofNat 1000)).bind Duration.ofSeconds?
    else none
  | _ => none

/-- Whole seconds, between zero and 60 exclusively, blanks around them ignored. -/
def inSeconds? (s : String) : Option Duration :=
  match Text.readUInt64? (Text.trim s) with
  | some n => if 0 < n && n < 60 then some (.ofSecs n) else none
  | none => none

/-- The field with milliseconds goes first; a value that does not count leaves the choice to the
other field. -/
def delay? (fields : ResponseFields) : Option Duration :=
  ((fieldText? fields "retry-after-ms").bind inMillis?).or
    ((fieldText? fields "retry-after").bind inSeconds?)

end RetryAfter

end Switchboard
