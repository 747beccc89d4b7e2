import Switchboard.Text.Ascii

/-!
# Tokens of TOML

- `Token`: blanks, marks, quoted texts and words. A word is a run of any other characters; whether
  it is a key, a number or nothing at all depends on the place.
- `scan`: the tokens of a text. The first one that cannot be read is the last one.
-/

namespace Switchboard.Toml

inductive Token
  | dot
  | equals
  | comma
  | openSquare
  | closeSquare
  | openBrace
  | closeBrace
  /-- Spaces and tabs. -/
  | blank (s : List Char)
  | newline
  | comment
  | text (s : List Char) (multiline : Bool)
  | word (s : List Char)
  | bad
  deriving DecidableEq, Repr

def isSpace (c : Char) : Bool := c == ' ' || c == '\t'

/-- Controls other than the tab stand nowhere. -/
def isControl (c : Char) : Bool := (c.toNat < 0x20 && c != '\t') || c.toNat == 0x7F

/-- Characters that end a word. -/
def endsWord (c : Char) : Bool := isSpace c || "\n\r.=,[]\x7b\x7d#\"'".toList.contains c

/-- The character with the number that the digits write. -/
def codePoint? (digits : List Char) : Option Char :=
  match digits.mapM Text.hexValue? with
  | some ds =>
    let n := ds.foldl (fun n d => n * 16 + d) 0
    if n.isValidChar then some (Char.ofNat n) else none
  | none => none

/-- The character that `n` digits at the start of a text number, and what follows them. -/
def numbered? (n : Nat) (s : List Char) : Option (Char × List Char) :=
  if s.length < n then none else (codePoint? (s.take n)).map (·, s.drop n)

/-- The character that an escape stands for, after the backslash, and what follows it. -/
def escape? : List Char → Option (Char × List Char)
  | [] => none
  | mark :: r =>
    match mark with
    | 'b' => some ('\x08', r)
    | 't' => some ('\t', r)
    | 'n' => some ('\n', r)
    | 'f' => some ('\x0C', r)
    | 'r' => some ('\r', r)
    | 'e' => some ('\x1B', r)
    | '"' => some ('"', r)
    | '\\' => some ('\\', r)
    | 'x' => numbered? 2 r
    | 'u' => numbered? 4 r
    | 'U' => numbered? 8 r
    | _ => none

theorem length_numbered? {n : Nat} {s r : List Char} {c : Char}
    (h : numbered? n s = some (c, r)) : r.length ≤ s.length := by
  unfold numbered? at h
  split at h
  · simp at h
  · obtain ⟨x, -, hx⟩ := Option.map_eq_some_iff.1 h
    simp only [Prod.mk.injEq] at hx
    simp [← hx.2]

theorem length_escape? {s r : List Char} {c : Char} (h : escape? s = some (c, r)) :
    r.length < s.length := by
  unfold escape? at h
  split at h
  · simp at h
  · have := @length_numbered?
    split at h <;> grind

/-- What follows a line end at the start of a text. -/
def dropNewline : List Char → List Char
  | '\n' :: r => r
  | '\r' :: '\n' :: r => r
  | s => s

theorem length_dropNewline (s : List Char) : (dropNewline s).length ≤ s.length := by
  unfold dropNewline
  split
  · exact Nat.le_succ _
  · exact Nat.le_add_right _ 2
  · exact Nat.le_refl _

/-- What follows a backslash at the end of a line: the text after the blanks and line ends. -/
def continued? (s : List Char) : Option (List Char) :=
  match s.dropWhile isSpace with
  | '\n' :: r | '\r' :: '\n' :: r => some (r.dropWhile fun c => isSpace c || c == '\n' || c == '\r')
  | _ => none

theorem length_dropWhile_le (p : Char → Bool) (s : List Char) :
    (s.dropWhile p).length ≤ s.length :=
  (List.dropWhile_sublist p).length_le

theorem length_continued? {s r : List Char} (h : continued? s = some r) :
    r.length < s.length := by
  have h' := length_dropWhile_le isSpace s
  unfold continued? at h
  split at h
  · next t ht =>
    have h'' := length_dropWhile_le (fun c => isSpace c || c == '\n' || c == '\r') t
    simp only [Option.some.injEq] at h
    simp only [ht, List.length_cons] at h'
    rw [← h]
    omega
  · next t ht =>
    have h'' := length_dropWhile_le (fun c => isSpace c || c == '\n' || c == '\r') t
    simp only [Option.some.injEq] at h
    simp only [ht, List.length_cons] at h'
    rw [← h]
    omega
  · simp at h

mutual

/-- The tokens of a text. -/
def scan : List Char → List Token
  | [] => []
  | '\n' :: rest => .newline :: scan rest
  | '\r' :: '\n' :: rest => .newline :: scan rest
  | '.' :: rest => .dot :: scan rest
  | '=' :: rest => .equals :: scan rest
  | ',' :: rest => .comma :: scan rest
  | '[' :: rest => .openSquare :: scan rest
  | ']' :: rest => .closeSquare :: scan rest
  | '\x7b' :: rest => .openBrace :: scan rest
  | '\x7d' :: rest => .closeBrace :: scan rest
  | '#' :: rest => comment rest
  | '"' :: '"' :: '"' :: rest =>
    have := length_dropNewline rest
    basicLines [] (dropNewline rest)
  | '"' :: rest => basic [] rest
  | '\'' :: '\'' :: '\'' :: rest =>
    have := length_dropNewline rest
    literalLines [] (dropNewline rest)
  | '\'' :: rest => literal [] rest
  | c :: rest =>
    if isSpace c then
      have := length_dropWhile_le isSpace rest
      .blank (c :: rest.takeWhile isSpace) :: scan (rest.dropWhile isSpace)
    else if isControl c then [.bad]
    else
      have := length_dropWhile_le (fun x => !endsWord x) rest
      .word (c :: rest.takeWhile fun x => !endsWord x) :: scan (rest.dropWhile fun x => !endsWord x)
termination_by s => s.length

/-- The rest of a comment, up to the end of the line. -/
def comment : List Char → List Token
  | [] => [.comment]
  | '\n' :: rest => .comment :: .newline :: scan rest
  | '\r' :: '\n' :: rest => .comment :: .newline :: scan rest
  | c :: rest => if isControl c then [.bad] else comment rest
termination_by s => s.length

/-- The rest of a quoted text on one line; `seen` is what was read of it, in reverse. -/
def basic (seen : List Char) : List Char → List Token
  | [] => [.bad]
  | '"' :: rest => .text seen.reverse false :: scan rest
  | '\\' :: rest =>
    match _h : escape? rest with
    | some (c, r) =>
      have := length_escape? _h
      basic (c :: seen) r
    | none => [.bad]
  | c :: rest => if isControl c then [.bad] else basic (c :: seen) rest
termination_by s => s.length

/-- The rest of a quoted text over several lines. Up to two quotes may stand before the three that
end it. -/
def basicLines (seen : List Char) : List Char → List Token
  | [] => [.bad]
  | '"' :: '"' :: '"' :: '"' :: '"' :: rest => .text ('"' :: '"' :: seen).reverse true :: scan rest
  | '"' :: '"' :: '"' :: '"' :: rest => .text ('"' :: seen).reverse true :: scan rest
  | '"' :: '"' :: '"' :: rest => .text seen.reverse true :: scan rest
  | '\r' :: '\n' :: rest => basicLines ('\n' :: '\r' :: seen) rest
  | '\n' :: rest => basicLines ('\n' :: seen) rest
  | '\\' :: rest =>
    match _h : continued? rest with
    | some r =>
      have := length_continued? _h
      basicLines seen r
    | none =>
      match _h' : escape? rest with
      | some (c, r) =>
        have := length_escape? _h'
        basicLines (c :: seen) r
      | none => [.bad]
  | c :: rest => if isControl c then [.bad] else basicLines (c :: seen) rest
termination_by s => s.length

/-- The rest of a text that is taken as it stands, on one line. -/
def literal (seen : List Char) : List Char → List Token
  | [] => [.bad]
  | '\'' :: rest => .text seen.reverse false :: scan rest
  | c :: rest => if isControl c then [.bad] else literal (c :: seen) rest
termination_by s => s.length

/-- The rest of a text that is taken as it stands, over several lines. -/
def literalLines (seen : List Char) : List Char → List Token
  | [] => [.bad]
  | '\'' :: '\'' :: '\'' :: '\'' :: '\'' :: rest =>
    .text ('\'' :: '\'' :: seen).reverse true :: scan rest
  | '\'' :: '\'' :: '\'' :: '\'' :: rest => .text ('\'' :: seen).reverse true :: scan rest
  | '\'' :: '\'' :: '\'' :: rest => .text seen.reverse true :: scan rest
  | '\r' :: '\n' :: rest => literalLines ('\n' :: '\r' :: seen) rest
  | '\n' :: rest => literalLines ('\n' :: seen) rest
  | c :: rest => if isControl c then [.bad] else literalLines (c :: seen) rest
termination_by s => s.length

end

end Switchboard.Toml
