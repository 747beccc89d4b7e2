/-!
# UTF-8

Octets and characters. Decoding goes octet by octet through an automaton whose state is the
unfinished character, so that a text may arrive in pieces. An octet that cannot continue the
unfinished character ends it as one ill-formed piece and starts afresh: what is replaced is always
the longest start of a character that was seen.

- `encode`: the octets of a text.
- `decode?`: the text of octets, if they are well formed.
- `decodeLossy`: the same with U+FFFD for each ill-formed piece.
-/

namespace Switchboard.Text.Utf8

def encode (s : String) : List UInt8 := s.toUTF8.toList

/-- A character of which `missing` octets are still to come, the next one between `low` and
`high`; `bits` holds what the octets so far contribute. -/
structure Unfinished where
  bits : Nat
  missing : Nat
  low : Nat
  high : Nat

/-- What an octet starts when no character is unfinished. -/
inductive Start
  | whole (c : Char)
  | unfinished (u : Unfinished)
  | ill

/-- The first octet of a character fixes its length. The bounds on the second octet keep out
overlong forms, surrogates and numbers past U+10FFFF. -/
def start (b : UInt8) : Start :=
  let n := b.toNat
  if n < 0x80 then .whole (Char.ofNat n)
  else if 0xC2 ≤ n && n ≤ 0xDF then .unfinished ⟨n - 0xC0, 1, 0x80, 0xBF⟩
  else if n == 0xE0 then .unfinished ⟨n - 0xE0, 2, 0xA0, 0xBF⟩
  else if n == 0xED then .unfinished ⟨n - 0xE0, 2, 0x80, 0x9F⟩
  else if 0xE1 ≤ n && n ≤ 0xEF then .unfinished ⟨n - 0xE0, 2, 0x80, 0xBF⟩
  else if n == 0xF0 then .unfinished ⟨n - 0xF0, 3, 0x90, 0xBF⟩
  else if n == 0xF4 then .unfinished ⟨n - 0xF0, 3, 0x80, 0x8F⟩
  else if 0xF1 ≤ n && n ≤ 0xF3 then .unfinished ⟨n - 0xF0, 3, 0x80, 0xBF⟩
  else .ill

/-- Decoded so far: the pieces in reverse, `none` for an ill-formed one, and the unfinished
character if there is one. -/
structure Progress where
  pieces : List (Option Char)
  unfinished : Option Unfinished

def Progress.begin (pieces : List (Option Char)) (b : UInt8) : Progress :=
  match start b with
  | .whole c => ⟨some c :: pieces, none⟩
  | .unfinished u => ⟨pieces, some u⟩
  | .ill => ⟨none :: pieces, none⟩

def Progress.feed (p : Progress) (b : UInt8) : Progress :=
  match p.unfinished with
  | none => .begin p.pieces b
  | some u =>
    if u.low ≤ b.toNat && b.toNat ≤ u.high then
      let bits := u.bits * 64 + (b.toNat - 0x80)
      if u.missing ≤ 1 then ⟨some (Char.ofNat bits) :: p.pieces, none⟩
      else ⟨p.pieces, some ⟨bits, u.missing - 1, 0x80, 0xBF⟩⟩
    else .begin (none :: p.pieces) b

/-- The pieces in order. A character that is still unfinished is an ill-formed piece. -/
def Progress.finish (p : Progress) : List (Option Char) :=
  match p.unfinished with
  | none => p.pieces.reverse
  | some _ => (none :: p.pieces).reverse

/-- The characters of `bytes` in order, `none` for each ill-formed piece. -/
def pieces (bytes : List UInt8) : List (Option Char) :=
  (bytes.foldl Progress.feed ⟨[], none⟩).finish

def decode? (bytes : List UInt8) : Option String :=
  let ps := pieces bytes
  if ps.all Option.isSome then some (String.ofList (ps.filterMap id)) else none

def decodeLossy (bytes : List UInt8) : String :=
  String.ofList ((pieces bytes).map fun p => p.getD '\uFFFD')

/-- How many octets the first characters of a text take, counted up to `limit`. -/
def sizeUpTo (limit : Nat) (s : List Char) : Nat :=
  min limit ((s.take limit).foldl (fun n c => n + c.utf8Size) 0)

end Switchboard.Text.Utf8
