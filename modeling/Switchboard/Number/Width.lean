/-!
# Widths

Whole numbers that fit a given count of bits.

- `fitsUnsigned`: numbers from zero.
- `fitsSigned`: numbers in two's complement.
-/

namespace Switchboard.Number

/-- A number that `bits` bits hold without a sign. -/
def fitsUnsigned (bits : Nat) (n : Int) : Bool := 0 ≤ n && n < (Nat.pow 2 bits : Nat)

/-- A number that `bits` bits hold in two's complement. -/
def fitsSigned (bits : Nat) (n : Int) : Bool :=
  -(Nat.pow 2 (bits - 1) : Nat) ≤ n && n < (Nat.pow 2 (bits - 1) : Nat)

end Switchboard.Number
