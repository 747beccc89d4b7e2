import Switchboard.Number.Decimal

/-!
# Writing doubles

A double is written with the fewest digits that read back as the same double, and among those with
the nearest ones.

- `Magnitude.reads`: whether a decimal lies in the interval that rounds to a double.
- `Magnitude.shortest`: the decimal that is written.
- `Binary64.text`: its layout.
-/

namespace Switchboard.Number

namespace Magnitude

/-- Compares `digits * 10 ^ exponent` with `n / 4` units: the two sides over a common
denominator. -/
def sides (d : Decimal) (n : Nat) : Nat × Nat :=
  if d.exponent < 0 then (d.digits * (4 * unitsPerOne), n * Nat.pow 10 d.exponent.natAbs)
  else (d.digits * Nat.pow 10 d.exponent.natAbs * (4 * unitsPerOne), n)

/-- The lower end, in quarter units, of the reals that round to `m`. Just above a power of two the
doubles below are twice as dense. -/
def lowEnd (m : Magnitude) : Nat :=
  let gap := Nat.pow 2 m.exp
  4 * m.units - (if m.mant = Nat.pow 2 52 ∧ 0 < m.exp then gap else 2 * gap)

/-- The upper end, in quarter units, of the reals that round to `m`. -/
def highEnd (m : Magnitude) : Nat := 4 * m.units + 2 * Nat.pow 2 m.exp

/-- The decimal reads back as `m`. The ends belong to the even significand. -/
def reads (m : Magnitude) (d : Decimal) : Bool :=
  let low := sides d m.lowEnd
  let high := sides d m.highEnd
  if m.mant % 2 = 0 then low.2 ≤ low.1 && high.1 ≤ high.2
  else low.2 < low.1 && high.1 < high.2

/-- `10 ^ (k - 1) ≤ m < 10 ^ k` for this `k`, if `m` is not zero. -/
def decade (m : Magnitude) : Int :=
  (digitCount (m.units * Nat.pow 10 400 / unitsPerOne) : Int) - 400

/-- The distance of a decimal from `m`, over a denominator that depends on the exponent only. -/
def distance (m : Magnitude) (d : Decimal) : Nat :=
  let (a, b) := sides d (4 * m.units)
  (a - b) + (b - a)

/-- The grid of decimals with exponent `e` has two neighbours of `m`: the first decimal that reads
back, the nearer one if both do, the even one of two equally near. -/
def onGrid? (m : Magnitude) (e : Int) : Option Decimal :=
  let q := if e < 0 then m.units * Nat.pow 10 e.natAbs / unitsPerOne
    else m.units / (Nat.pow 10 e.natAbs * unitsPerOne)
  let below : Decimal := ⟨q, e⟩
  let above : Decimal := ⟨q + 1, e⟩
  match m.reads below, m.reads above with
  | true, true =>
    let db := m.distance below
    let da := m.distance above
    some (if db < da || (db == da && q % 2 == 0) then below else above)
  | true, false => some below
  | false, true => some above
  | false, false => none

/-- The decimal with the fewest digits that reads back as `m`. Seventeen digits always do. -/
def shortest (m : Magnitude) : Decimal :=
  let k := m.decade
  (((List.range 17).map fun (n : Nat) => k - (n + 1)).findSome? m.onGrid?).getD ⟨0, 0⟩

end Magnitude

/-- Layout: a number from 10^-5 up to 10^16 is written in full, with a decimal point and at least
one digit on either side of it; any other with an exponent, which has a sign. -/
def layout (d : Decimal) : List Char :=
  let digits := Nat.toDigits 10 d.digits
  let point := d.exponent + digits.length
  if 0 ≤ d.exponent && point ≤ 16 then
    digits ++ List.replicate d.exponent.natAbs '0' ++ ['.', '0']
  else if 0 < point && point ≤ 16 then
    digits.take point.natAbs ++ '.' :: digits.drop point.natAbs
  else if -5 < point && point ≤ 0 then
    ['0', '.'] ++ List.replicate point.natAbs '0' ++ digits
  else
    let e := point - 1
    let mark := 'e' :: (if e < 0 then '-' else '+') :: Nat.toDigits 10 e.natAbs
    match digits with
    | [c] => c :: mark
    | c :: rest => c :: '.' :: rest ++ mark
    | [] => mark

/-- A written number without the zeros at the end of its digits. -/
def stripZeros : Nat → Decimal → Decimal
  | 0, d => d
  | fuel + 1, d =>
    if d.digits ≠ 0 && d.digits % 10 == 0 then stripZeros fuel ⟨d.digits / 10, d.exponent + 1⟩
    else d

/-- The text of a double. -/
def Binary64.text : Binary64 → String
  | .finite negative m =>
    let body := if m.units = 0 then ['0', '.', '0'] else layout (stripZeros 20 m.shortest)
    String.ofList (if negative then '-' :: body else body)
  | .infinite negative => if negative then "-inf" else "inf"
  | .nan => "NaN"

end Switchboard.Number
