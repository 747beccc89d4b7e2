import Switchboard.Number.Binary64

/-!
# Durations

A span of time as a whole number of nanoseconds, and its passage through seconds in double
precision, which the reconnect delays go through.

- `Duration.inSeconds`: the double for a duration, rounded part by part.
- `Duration.ofSeconds?`: the duration nearest to a double, below 2^64 seconds.
-/

namespace Switchboard

open Number (Magnitude roundDiv)

/-- A span of time. -/
structure Duration where
  nanos : Nat
  deriving DecidableEq, Repr

namespace Duration

def nanosPerSecond : Nat := 1000000000

def zero : Duration := ⟨0⟩

def ofSecs (n : Nat) : Duration := ⟨n * nanosPerSecond⟩

def ofMillis (n : Nat) : Duration := ⟨n * 1000000⟩

/-- The whole seconds. -/
def secs (d : Duration) : Nat := d.nanos / nanosPerSecond

/-- The nanoseconds past the whole seconds. -/
def subsecNanos (d : Duration) : Nat := d.nanos % nanosPerSecond

/-- The whole milliseconds. -/
def millis (d : Duration) : Nat := d.nanos / 1000000

def max (a b : Duration) : Duration := if a.nanos ≤ b.nanos then b else a

/-- Seconds in double precision: the whole seconds plus the rest divided by 10^9, each of the
three steps rounded. -/
def inSeconds (d : Duration) : Magnitude :=
  let rest := ((Magnitude.ofNat d.subsecNanos).div? (.ofNat nanosPerSecond)).getD .zero
  ((Magnitude.ofNat d.secs).add? rest).getD .zero

/-- The whole number of nanoseconds nearest to `m` seconds, if that is below 2^64 seconds. -/
def ofSeconds? (m : Magnitude) : Option Duration :=
  if Nat.pow 2 64 * Magnitude.unitsPerOne ≤ m.units then none
  else some ⟨roundDiv (m.units * nanosPerSecond) Magnitude.unitsPerOne⟩

/-- Whole seconds in descriptions. -/
def describe (d : Duration) : String :=
  if d.nanos = 0 then "0ns" else toString d.secs ++ "s"

end Duration

end Switchboard
