import Switchboard.Number.Rounding

/-!
# Double precision numbers

Binary floating point with 53 bits of precision, as exact integers. A finite magnitude is a whole
number of units of 2^-1074, the least positive double; every operation computes the exact result
as a ratio and rounds it once, ties to the even significand.

- `Magnitude`: a finite double without its sign.
- `Magnitude.ofRatio?`: the double nearest to a ratio, if that does not overflow.
- `Magnitude.add?`, `mul?`, `div?`: the correctly rounded operations.
- `Binary64`: a double of any kind.
-/

namespace Switchboard.Number

/-- A finite double that is not negative: `mant * 2 ^ exp` units of 2^-1074. -/
structure Magnitude where
  mant : Nat
  exp : Nat
  deriving DecidableEq, Repr

namespace Magnitude

/-- How many units make one. -/
def unitsPerOne : Nat := Nat.pow 2 1074

/-- The value in units of 2^-1074. -/
def units (m : Magnitude) : Nat := m.mant * Nat.pow 2 m.exp

/-- The greatest exponent of a finite double. -/
def maxExp : Nat := 2045

/-- The double nearest to `num / den` units. The significand keeps 53 bits, fewer only next to
zero. There is none when the exponent would grow past that of the greatest double. -/
def ofUnits? (num den : Nat) : Option Magnitude :=
  let exp := Nat.log2 (num / den) - 52
  let mant := roundDiv num (den * Nat.pow 2 exp)
  let m : Magnitude := if mant = Nat.pow 2 53 then ⟨Nat.pow 2 52, exp + 1⟩ else ⟨mant, exp⟩
  if maxExp < m.exp then none else some m

/-- The double nearest to `num / den`. -/
def ofRatio? (num den : Nat) : Option Magnitude := ofUnits? (num * unitsPerOne) den

def zero : Magnitude := ⟨0, 0⟩

/-- The double nearest to a 64-bit number. -/
def ofNat (n : Nat) : Magnitude := (ofRatio? n 1).getD zero

def add? (a b : Magnitude) : Option Magnitude := ofUnits? (a.units + b.units) 1

def mul? (a b : Magnitude) : Option Magnitude := ofUnits? (a.units * b.units) unitsPerOne

/-- The rounded quotient; there is none by zero. -/
def div? (a b : Magnitude) : Option Magnitude :=
  if b.units = 0 then none else ofRatio? a.units b.units

def min (a b : Magnitude) : Magnitude := if b.units < a.units then b else a

end Magnitude

/-- A double. Zero has two signs. -/
inductive Binary64
  | finite (negative : Bool) (magnitude : Magnitude)
  | infinite (negative : Bool)
  | nan
  deriving DecidableEq, Repr

namespace Binary64

def isFinite : Binary64 → Bool
  | finite .. => true
  | _ => false

/-- The double nearest to a signed number. -/
def ofInt (n : Int) : Binary64 :=
  finite (n < 0) (.ofNat n.natAbs)

/-- `x` moved into the interval from zero to one. Negative zero is inside. -/
def clampUnit (x : Binary64) : Binary64 :=
  match x with
  | finite negative m =>
    if negative && m.units ≠ 0 then finite false .zero
    else if Magnitude.unitsPerOne < m.units then finite false (.ofNat 1)
    else x
  | infinite negative => finite false (if negative then .zero else .ofNat 1)
  | nan => nan

end Binary64

end Switchboard.Number
