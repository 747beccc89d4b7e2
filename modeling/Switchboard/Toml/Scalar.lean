import Switchboard.Number.Decimal
import Switchboard.Number.Width
import Switchboard.Toml.Basic

/-!
# Scalars of TOML

Values that are written without quotes.

- `digitRun?`: digits, between which single underscores may stand.
- `integer?`, `real?`, `isMoment`: the three kinds of words that begin like a number.
- `scalar?`: the value that a word stands for.
-/

namespace Switchboard.Toml

open Number (Binary64 fitsSigned fitsUnsigned)

/-- Digits for which `p` holds, without the underscores between them. -/
def digitRun? (p : Char → Bool) : List Char → Option (List Char)
  | [] => none
  | [c] => if p c then some [c] else none
  | c :: '_' :: rest => if p c then (digitRun? p rest).map (c :: ·) else none
  | c :: rest => if p c then (digitRun? p rest).map (c :: ·) else none

/-- Decimal digits that do not start with a superfluous zero. -/
def decimalRun? (s : List Char) : Option (List Char) :=
  match s with
  | '0' :: _ :: _ => none
  | _ => digitRun? Text.isDigit s

/-- The sign and what follows it. -/
def splitSign : List Char → Bool × List Char
  | '-' :: r => (true, r)
  | '+' :: r => (false, r)
  | r => (false, r)

def baseValue (base : Nat) (digits : List Char) : Nat :=
  digits.foldl (fun n c => n * base + (Text.hexValue? c).getD 0) 0

/-- A whole number in base ten, or without a sign in base sixteen, eight or two. -/
def integer? (s : List Char) : Option Int :=
  let inBase (base : Nat) (digits : List Char) : Option Int :=
    (digitRun? (fun c => (Text.hexValue? c).any (· < base)) digits).map fun ds => baseValue base ds
  match s with
  | '0' :: 'x' :: digits => inBase 16 digits
  | '0' :: 'o' :: digits => inBase 8 digits
  | '0' :: 'b' :: digits => inBase 2 digits
  | _ =>
    let (negative, digits) := splitSign s
    (decimalRun? digits).map fun ds =>
      let n : Int := Text.decimalValue ds
      if negative then -n else n

/-- The digits of an exponent with their sign. -/
def exponent? (s : List Char) : Option (List Char) :=
  match s with
  | '-' :: r => (digitRun? Text.isDigit r).map ('-' :: ·)
  | '+' :: r => digitRun? Text.isDigit r
  | r => digitRun? Text.isDigit r

/-- A number with a fraction, an exponent or both, or one that is no number or not finite. Finite
numbers past the range of doubles are none. -/
def real? (s : List Char) : Option Binary64 :=
  let (negative, body) := splitSign s
  if body = "inf".toList then some (.infinite negative)
  else if body = "nan".toList then some .nan
  else
    let mantissa := body.takeWhile fun c => c != 'e' && c != 'E'
    let whole := mantissa.takeWhile (· != '.')
    let fraction : Option (List Char) := match mantissa.dropWhile (· != '.') with
      | [] => some []
      | _ :: f => digitRun? Text.isDigit f
    let power : Option (List Char) := match body.dropWhile fun c => c != 'e' && c != 'E' with
      | [] => some ['0']
      | _ :: e => exponent? e
    match decimalRun? whole, fraction, power with
    | some w, some f, some e =>
      match Number.readDecimal? (String.ofList ((if negative then ['-'] else []) ++ w ++ ['.'] ++ f ++
          ['e'] ++ e)) with
      | some x => if x.isFinite then some x else none
      | none => none
    | _, _, _ => none

/-! ### Dates and times -/

/-- The number that `n` digits at the start of a text write, and what follows them. -/
def take? (n : Nat) (s : List Char) : Option (Nat × List Char) :=
  let digits := s.take n
  if digits.length = n && digits.all Text.isDigit then some (Text.decimalValue digits, s.drop n)
  else none

def expect? (c : Char) : List Char → Option (List Char)
  | x :: r => if x == c then some r else none
  | [] => none

def daysIn (year month : Nat) : Nat :=
  if month = 2 then
    if year % 4 = 0 && (year % 100 ≠ 0 || year % 400 = 0) then 29 else 28
  else if [4, 6, 9, 11].contains month then 30 else 31

/-- What follows the date at the start of a text. -/
def date? (s : List Char) : Option (List Char) := do
  let (year, s) ← take? 4 s
  let s ← expect? '-' s
  let (month, s) ← take? 2 s
  let s ← expect? '-' s
  let (day, s) ← take? 2 s
  if 1 ≤ month && month ≤ 12 && 1 ≤ day && day ≤ daysIn year month then some s else none

/-- What follows the time of day at the start of a text. The seconds may be left out. -/
def time? (s : List Char) : Option (List Char) := do
  let (hour, s) ← take? 2 s
  let s ← expect? ':' s
  let (minute, s) ← take? 2 s
  if 23 < hour || 59 < minute then none
  else match s with
    | ':' :: s =>
      let (second, s) ← take? 2 s
      if 60 < second then none
      else match s with
        | '.' :: f =>
          let digits := f.takeWhile Text.isDigit
          if digits.isEmpty then none else some (f.dropWhile Text.isDigit)
        | s => some s
    | s => some s

/-- What follows the offset at the start of a text. -/
def offset? (s : List Char) : Option (List Char) :=
  match s with
  | 'Z' :: r | 'z' :: r => some r
  | '+' :: r | '-' :: r => do
    let (hour, r) ← take? 2 r
    let r ← expect? ':' r
    let (minute, r) ← take? 2 r
    if 23 < hour || 59 < minute then none else some r
  | r => some r

/-- Whether a text is a date, a time, or both with an optional offset. -/
def isMoment (s : List Char) : Bool :=
  match date? s with
  | some [] => true
  | some (c :: r) =>
    (c == 'T' || c == 't' || c == ' ') && ((time? r).bind offset?) == some []
  | none => time? s == some []

/-- The value that a text without quotes stands for. -/
def scalar? (s : List Char) : Option Toml :=
  if s = "true".toList then some (.bool true)
  else if s = "false".toList then some (.bool false)
  else match integer? s with
    | some n => if fitsSigned 128 n || fitsUnsigned 128 n then some (.int n) else none
    | none =>
      match real? s with
      | some x => some (.real x)
      | none => if isMoment s then some (.moment (String.ofList s)) else none

end Switchboard.Toml
