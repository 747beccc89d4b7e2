import Switchboard.Json.Basic
import Switchboard.Text.Utf8

/-!
# JSON tokens

A text is cut into tokens before its structure is read. Scanning stops at the first piece that is
no token, and that piece is the last in the list: a reader meets it only if everything before it
was in order.

- `Token`: punctuation, values without structure, and ill-formed pieces.
- `Fault`: why a piece is ill formed: it breaks a rule, or the text ended inside it.
- `readString`, `readNumber`, `readWord`: the three kinds of longer tokens.
- `scan`: the tokens of a text.
-/

namespace Switchboard.Json

/-- Why a text is not JSON. -/
inductive Fault
  /-- A rule of the format is broken. -/
  | malformed
  /-- The text ended too early. -/
  | unfinished
  deriving DecidableEq, Repr

inductive Token
  | openObject
  | closeObject
  | openArray
  | closeArray
  | colon
  | comma
  /-- A number, `true`, `false` or `null`. -/
  | scalar (j : Json)
  | text (s : String)
  /-- A piece that starts like a string and is none. -/
  | badText (f : Fault)
  /-- A piece that starts no token, or a number or word that is not finished properly. -/
  | badScalar (f : Fault)

/-! ### Strings -/

/-- Where in an escape the reader of a string is. -/
inductive Escape
  | outside
  | begun
  /-- Hexadecimal digits, of which `missing` are to come; `high` is the first half of a pair. -/
  | digits (high : Option Nat) (missing value : Nat)
  /-- After the first half of a pair, where the second half must start. -/
  | pairBackslash (high : Nat)
  | pairLetter (high : Nat)

/-- The character of a one-letter escape. -/
def simpleEscape? (c : Char) : Option Char :=
  if c == '"' || c == '\\' || c == '/' then some c
  else if c == 'b' then some '\x08'
  else if c == 'f' then some '\x0c'
  else if c == 'n' then some '\n'
  else if c == 'r' then some '\r'
  else if c == 't' then some '\t'
  else none

/-- What four hexadecimal digits mean: a character, the first half of a pair, or nothing. -/
inductive Unit16
  | char (c : Char)
  | high (n : Nat)
  | ill

def unit16 (high : Option Nat) (n : Nat) : Unit16 :=
  match high with
  | some h =>
    if 0xDC00 ≤ n && n ≤ 0xDFFF then .char (Char.ofNat ((h - 0xD800) * 0x400 + (n - 0xDC00) + 0x10000))
    else .ill
  | none =>
    if 0xDC00 ≤ n && n ≤ 0xDFFF then .ill
    else if 0xD800 ≤ n && n ≤ 0xDBFF then .high n
    else .char (Char.ofNat n)

/-- Reads up to the closing quote; `done` holds the characters so far in reverse. Four octets must
follow the letter of a hexadecimal escape before any of them is looked at. -/
def readString (e : Escape) (done : List Char) : List Char → Except Fault (String × List Char)
  | [] => .error .unfinished
  | c :: rest =>
    match e with
    | .outside =>
      if c == '"' then .ok (String.ofList done.reverse, rest)
      else if c == '\\' then readString .begun done rest
      else if c.toNat < 0x20 then .error .malformed
      else readString .outside (c :: done) rest
    | .begun =>
      if c == 'u' then
        if Text.Utf8.sizeUpTo 4 rest < 4 then .error .unfinished
        else readString (.digits none 4 0) done rest
      else match simpleEscape? c with
        | some x => readString .outside (x :: done) rest
        | none => .error .malformed
    | .digits high missing value =>
      match Text.hexValue? c with
      | none => .error .malformed
      | some d =>
        let value := 16 * value + d
        if 1 < missing then readString (.digits high (missing - 1) value) done rest
        else match unit16 high value with
          | .char x => readString .outside (x :: done) rest
          | .high h => readString (.pairBackslash h) done rest
          | .ill => .error .malformed
    | .pairBackslash h =>
      if c == '\\' then readString (.pairLetter h) done rest else .error .malformed
    | .pairLetter h =>
      if c == 'u' then
        if Text.Utf8.sizeUpTo 4 rest < 4 then .error .unfinished
        else readString (.digits (some h) 4 0) done rest
      else .error .malformed

theorem length_readString {e : Escape} {done s r : List Char} {x : String}
    (h : readString e done s = .ok (x, r)) : r.length < s.length := by
  induction s generalizing e done with
  | nil => simp [readString] at h
  | cons c rest ih =>
    have step : ∀ {e done}, readString e done rest = .ok (x, r) → r.length < (c :: rest).length :=
      fun h => Nat.lt_succ_of_lt (ih h)
    simp only [readString] at h
    cases e with
    | outside =>
      simp only at h
      split at h
      · simp only [Except.ok.injEq, Prod.mk.injEq] at h
        simp [h.2]
      · split at h
        · exact step h
        · split at h
          · simp at h
          · exact step h
    | begun =>
      simp only at h
      split at h
      · split at h
        · simp at h
        · exact step h
      · split at h
        · exact step h
        · simp at h
    | digits high missing value =>
      simp only at h
      split at h
      · simp at h
      · split at h
        · exact step h
        · split at h
          · exact step h
          · exact step h
          · simp at h
    | pairBackslash high =>
      simp only at h
      split at h
      · exact step h
      · simp at h
    | pairLetter high =>
      simp only at h
      split at h
      · split at h
        · simp at h
        · exact step h
      · simp at h

/-! ### Numbers -/

def maxUInt64 : Nat := Nat.pow 2 64 - 1

/-- Takes the digits of the whole part while they fit 64 bits, and counts the others. -/
def takeWhole (acc : Nat × Nat) (c : Char) : Nat × Nat :=
  let n := 10 * acc.1 + Text.decimalValue [c]
  if acc.2 = 0 && n ≤ maxUInt64 then (n, 0) else (acc.1, acc.2 + 1)

/-- Takes digits of the fraction until the first that does not fit; `taken` counts them. -/
def takeFraction (significand taken : Nat) : List Char → Nat × Nat
  | [] => (significand, taken)
  | c :: rest =>
    let n := 10 * significand + Text.decimalValue [c]
    if n ≤ maxUInt64 then takeFraction n (taken + 1) rest else (significand, taken)

/-- The number with these digits: `fraction` and `exponent` are there if they were written. An
integer that fits 64 bits stays one, all others are doubles, of which none may overflow. -/
def numberOf (negative : Bool) (whole : List Char) (fraction : Option (List Char))
    (exponent : Option Int) : Except Fault Json :=
  let (significand, dropped) := whole.foldl takeWhole (0, 0)
  let asReal (significand : Nat) (e : Int) : Except Fault Json :=
    match (Number.Decimal.mk significand e).scaled? with
    | some m => .ok (.real (.finite negative m))
    | none => .error .malformed
  match fraction, exponent with
  | none, none =>
    if 0 < dropped then asReal significand dropped
    else if !negative then .ok (.int significand)
    else if significand = 0 || Nat.pow 2 63 < significand then asReal significand 0
    else .ok (.int (-significand))
  | fraction, exponent =>
    let (significand, taken) := takeFraction significand 0 (fraction.getD [])
    asReal significand ((dropped : Int) - taken + exponent.getD 0)

/-- The rest of a text that must start with a digit. -/
def needDigit (s : List Char) : Except Fault Unit :=
  match s with
  | [] => .error .unfinished
  | c :: _ => if Text.isDigit c then .ok () else .error .malformed

/-- The fraction that may follow the whole part. -/
def readFraction (s : List Char) : Except Fault (Option (List Char) × List Char) :=
  match s with
  | '.' :: r => do
    needDigit r
    .ok (some (r.takeWhile Text.isDigit), r.dropWhile Text.isDigit)
  | _ => .ok (none, s)

/-- The digits of an exponent. -/
def readPowerDigits (negative : Bool) (s : List Char) : Except Fault (Option Int × List Char) := do
  needDigit s
  let n : Int := Text.decimalValue (s.takeWhile Text.isDigit)
  .ok (some (if negative then -n else n), s.dropWhile Text.isDigit)

/-- The exponent that may follow the digits. -/
def readPower (s : List Char) : Except Fault (Option Int × List Char) :=
  match s with
  | c :: r =>
    if c == 'e' || c == 'E' then
      match r with
      | '-' :: r => readPowerDigits true r
      | '+' :: r => readPowerDigits false r
      | r => readPowerDigits false r
    else .ok (none, s)
  | [] => .ok (none, s)

/-- Reads a number after its sign. No digit may follow a leading zero. -/
def readNumber (negative : Bool) (s : List Char) : Except Fault (Json × List Char) := do
  needDigit s
  let whole := s.takeWhile Text.isDigit
  if whole.head? == some '0' && 1 < whole.length then .error .malformed
  else
    let (fraction, r) ← readFraction (s.dropWhile Text.isDigit)
    let (exponent, r) ← readPower r
    let n ← numberOf negative whole fraction exponent
    .ok (n, r)

theorem length_dropWhile_le {α : Type} (p : α → Bool) (s : List α) :
    (s.dropWhile p).length ≤ s.length :=
  (List.dropWhile_suffix p).sublist.length_le

theorem length_dropWhile_of_needDigit {s : List Char} (h : needDigit s = .ok ()) :
    (s.dropWhile Text.isDigit).length < s.length := by
  cases s with
  | nil => simp [needDigit] at h
  | cons c t =>
    simp only [needDigit] at h
    split at h
    · next hc => simpa [hc] using Nat.lt_succ_of_le (length_dropWhile_le Text.isDigit t)
    · simp at h

theorem length_readFraction {s r : List Char} {x : Option (List Char)}
    (h : readFraction s = .ok (x, r)) : r.length ≤ s.length := by
  unfold readFraction at h
  split at h
  · next t =>
    cases hd : needDigit t with
    | error f => simp [hd, bind, Except.bind] at h
    | ok u =>
      simp only [hd, bind, Except.bind, Except.ok.injEq, Prod.mk.injEq] at h
      rw [← h.2]
      exact Nat.le_succ_of_le (length_dropWhile_le _ t)
  · simp only [Except.ok.injEq, Prod.mk.injEq] at h
    simp [h.2]

theorem length_readPowerDigits {negative : Bool} {s r : List Char} {x : Option Int}
    (h : readPowerDigits negative s = .ok (x, r)) : r.length ≤ s.length := by
  unfold readPowerDigits at h
  cases hd : needDigit s with
  | error f => simp [hd, bind, Except.bind] at h
  | ok u =>
    simp only [hd, bind, Except.bind, Except.ok.injEq, Prod.mk.injEq] at h
    rw [← h.2]
    exact length_dropWhile_le _ s

theorem length_readPower {s r : List Char} {x : Option Int}
    (h : readPower s = .ok (x, r)) : r.length ≤ s.length := by
  unfold readPower at h
  split at h
  · next c t =>
    have tail : ∀ {b : Bool} {u : List Char}, u.length ≤ t.length →
        readPowerDigits b u = .ok (x, r) → r.length ≤ (c :: t).length :=
      fun hu h => Nat.le_succ_of_le (Nat.le_trans (length_readPowerDigits h) hu)
    split at h
    · split at h
      · exact tail (by simp) h
      · exact tail (by simp) h
      · exact tail (Nat.le_refl _) h
    · simp only [Except.ok.injEq, Prod.mk.injEq] at h
      simp [h.2]
  · simp only [Except.ok.injEq, Prod.mk.injEq] at h
    simp [← h.2]

theorem length_readNumber {negative : Bool} {s r : List Char} {j : Json}
    (h : readNumber negative s = .ok (j, r)) : r.length < s.length := by
  unfold readNumber at h
  cases hd : needDigit s with
  | error f => simp [hd, bind, Except.bind] at h
  | ok u =>
    have h0 := length_dropWhile_of_needDigit hd
    simp only [hd, bind, Except.bind] at h
    split at h
    · simp at h
    · split at h
      · simp at h
      · next v hf =>
        have h1 := length_readFraction (x := v.1) (r := v.2) hf
        split at h
        · simp at h
        · next w hp =>
          have h2 := length_readPower (x := w.1) (r := w.2) hp
          split at h
          · simp at h
          · simp only [Except.ok.injEq, Prod.mk.injEq] at h
            rw [← h.2]
            omega

/-! ### Words and scanning -/

/-- Reads the rest of a word, letter by letter. -/
def readWord (letters : List Char) (s : List Char) : Except Fault (List Char) :=
  match letters, s with
  | [], s => .ok s
  | _ :: _, [] => .error .unfinished
  | l :: letters, c :: s => if l == c then readWord letters s else .error .malformed

theorem length_readWord {letters s r : List Char} (h : readWord letters s = .ok r) :
    r.length ≤ s.length := by
  induction letters generalizing s with
  | nil => simp only [readWord, Except.ok.injEq] at h; simp [h]
  | cons l letters ih =>
    cases s with
    | nil => simp [readWord] at h
    | cons c s =>
      simp only [readWord] at h
      split at h
      · exact Nat.le_succ_of_le (ih h)
      · simp at h

/-- The white space of the format. -/
def isSpace (c : Char) : Bool := c == ' ' || c == '\n' || c == '\t' || c == '\r'

def punctuation? (c : Char) : Option Token :=
  if c == '\x7b' then some .openObject
  else if c == '\x7d' then some .closeObject
  else if c == '[' then some .openArray
  else if c == ']' then some .closeArray
  else if c == ':' then some .colon
  else if c == ',' then some .comma
  else none

/-- The token that starts with `c`, and what follows it; or the ill-formed piece. -/
def longer (c : Char) (rest : List Char) : Except Token (Token × List Char) :=
  let word (j : Json) (letters : List Char) : Except Token (Token × List Char) :=
    match readWord letters rest with
    | .ok r => .ok (.scalar j, r)
    | .error f => .error (.badScalar f)
  let number (negative : Bool) (s : List Char) : Except Token (Token × List Char) :=
    match readNumber negative s with
    | .ok (j, r) => .ok (.scalar j, r)
    | .error f => .error (.badScalar f)
  if c == '"' then
    match readString .outside [] rest with
    | .ok (s, r) => .ok (.text s, r)
    | .error f => .error (.badText f)
  else if c == 'n' then word .null ['u', 'l', 'l']
  else if c == 't' then word (.bool true) ['r', 'u', 'e']
  else if c == 'f' then word (.bool false) ['a', 'l', 's', 'e']
  else if c == '-' then number true rest
  else if Text.isDigit c then number false (c :: rest)
  else .error (.badScalar .malformed)

theorem length_longer {c : Char} {rest r : List Char} {t : Token}
    (h : longer c rest = .ok (t, r)) : r.length ≤ rest.length := by
  have word : ∀ {j : Json} {letters : List Char},
      (match readWord letters rest with
        | .ok r => (.ok (.scalar j, r) : Except Token (Token × List Char))
        | .error f => .error (.badScalar f)) = .ok (t, r) → r.length ≤ rest.length := by
    intro j letters h
    split at h
    · next hw =>
      simp only [Except.ok.injEq, Prod.mk.injEq] at h
      exact h.2 ▸ length_readWord hw
    · simp at h
  have number : ∀ {b : Bool} {s : List Char}, s.length ≤ rest.length + 1 →
      (match readNumber b s with
        | .ok (j, r) => (.ok (.scalar j, r) : Except Token (Token × List Char))
        | .error f => .error (.badScalar f)) = .ok (t, r) → r.length ≤ rest.length := by
    intro b s hs h
    split at h
    · next hn =>
      simp only [Except.ok.injEq, Prod.mk.injEq] at h
      have := length_readNumber hn
      rw [← h.2]
      omega
    · simp at h
  simp only [longer] at h
  split at h
  · split at h
    · next hr =>
      simp only [Except.ok.injEq, Prod.mk.injEq] at h
      exact h.2 ▸ Nat.le_of_lt (length_readString hr)
    · simp at h
  · split at h
    · exact word h
    · split at h
      · exact word h
      · split at h
        · exact word h
        · split at h
          · exact number (Nat.le_succ _) h
          · split at h
            · exact number (Nat.le_refl _) h
            · simp at h

/-- The tokens of a text, up to the first ill-formed piece. -/
def scan (s : List Char) : List Token :=
  match s with
  | [] => []
  | c :: rest =>
    if isSpace c then scan rest
    else match punctuation? c with
      | some t => t :: scan rest
      | none =>
        match _h : longer c rest with
        | .ok (t, r) => t :: scan r
        | .error t => [t]
termination_by s.length
decreasing_by
  · simp
  · simp
  · exact Nat.lt_succ_of_le (length_longer _h)

end Switchboard.Json
