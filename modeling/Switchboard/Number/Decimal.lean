import Switchboard.Text.Ascii
import Switchboard.Number.Binary64

/-!
# Reading decimals

- `Decimal`: a written number, `digits * 10 ^ exponent`.
- `Decimal.nearest?`: the double nearest to it.
- `Decimal.scaled?`: the double obtained in two roundings, of the digits and of the scaled result.
- `readDecimal?`: the text of a double as command lines and header fields write it.
-/

namespace Switchboard.Number

/-- A written number without its sign. -/
structure Decimal where
  digits : Nat
  exponent : Int
  deriving DecidableEq, Repr

/-- How many decimal digits a number has. Zero has one. -/
def digitCount (n : Nat) : Nat := (Nat.toDigits 10 n).length

namespace Decimal

/-- The double nearest to the written number. Exponents far outside the range of doubles are
decided by the digit count alone. -/
def nearest? (d : Decimal) : Option Magnitude :=
  if d.digits = 0 then some .zero
  else
    let size := d.exponent + digitCount d.digits
    if size > 400 then none
    else if size < -400 then some .zero
    else if d.exponent < 0 then Magnitude.ofRatio? d.digits (Nat.pow 10 d.exponent.natAbs)
    else Magnitude.ofRatio? (d.digits * Nat.pow 10 d.exponent.natAbs) 1

/-- A power of ten as a double. -/
def powerOfTen (n : Nat) : Magnitude := (Magnitude.ofRatio? (Nat.pow 10 n) 1).getD .zero

/-- The digits as a double, then multiplied or divided by a power of ten as a double. A power
below 10^-308 is divided away in steps of 308. There is none when the product overflows. -/
def scaled? (d : Decimal) : Option Magnitude :=
  go 4 (.ofNat d.digits) d.exponent
where
  go : Nat → Magnitude → Int → Option Magnitude
  | 0, _, _ => some .zero
  | steps + 1, m, e =>
    if e.natAbs ≤ 308 then
      if 0 ≤ e then m.mul? (powerOfTen e.natAbs) else m.div? (powerOfTen e.natAbs)
    else if m.units = 0 then some .zero
    else if 0 ≤ e then none
    else (m.div? (powerOfTen 308)).bind fun m => go steps m (e + 308)

end Decimal

/-- The digits before and after a decimal point as one number. -/
def Decimal.ofDigits (whole fraction : List Char) (exponent : Int) : Decimal :=
  ⟨Text.decimalValue (whole ++ fraction), exponent - fraction.length⟩

/-- The exponent of ten after its mark: digits after at most one sign. -/
def readExponent? (s : List Char) : Option Int :=
  let (negative, digits) := match s with
    | '-' :: r => (true, r)
    | '+' :: r => (false, r)
    | r => (false, r)
  if digits.isEmpty || !digits.all Text.isDigit then none
  else
    let n : Int := Text.decimalValue digits
    some (if negative then -n else n)

/-- Digits with at most one point among or beside them, then an optional exponent. -/
def readUnsigned? (s : List Char) : Option Decimal :=
  let whole := s.takeWhile Text.isDigit
  let rest := s.dropWhile Text.isDigit
  let (fraction, rest) := match rest with
    | '.' :: r => (r.takeWhile Text.isDigit, r.dropWhile Text.isDigit)
    | r => ([], r)
  if whole.isEmpty && fraction.isEmpty then none
  else match rest with
    | [] => some (.ofDigits whole fraction 0)
    | c :: r =>
      if c == 'e' || c == 'E' then (readExponent? r).map (.ofDigits whole fraction ·) else none

/-- The text of a double: an optional sign, then a decimal number or, in any case of letters,
`inf`, `infinity` or `nan`. -/
def readDecimal? (s : String) : Option Binary64 :=
  let (negative, body) := match s.toList with
    | '-' :: r => (true, r)
    | '+' :: r => (false, r)
    | r => (false, r)
  let word := Text.lower (String.ofList body)
  if word == "inf" || word == "infinity" then some (.infinite negative)
  else if word == "nan" then some .nan
  else (readUnsigned? body).map fun d =>
    match d.nearest? with
    | some m => .finite negative m
    | none => .infinite negative

end Switchboard.Number
