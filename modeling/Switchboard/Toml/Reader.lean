import Switchboard.Toml.Scalar
import Switchboard.Toml.Table
import Switchboard.Toml.Token

/-!
# Reading TOML

- `keyPath`: a key, which may be dotted.
- `value`: a value; arrays and inline tables may go over several lines.
- `lines`: the lines of a document.
- `read`: the document that a text is.

The first argument of the functions that call one another bounds how often they do; the number of
tokens that are left decides it.
-/

namespace Switchboard.Toml

/-- How deep arrays and inline tables may nest. -/
def maxDepth : Nat := 80

def dropBlank : List Token → List Token
  | .blank _ :: r => r
  | r => r

/-- What follows blanks, comments and line ends. -/
def dropLines : List Token → List Token
  | .blank _ :: r | .newline :: r | .comment :: r => dropLines r
  | r => r

/-- Letters, digits, dashes and underscores make a key without quotes. -/
def isKeyChar (c : Char) : Bool := c.isAlphanum || c == '_' || c == '-'

def simpleKey : List Token → Except Fault (String × List Token)
  | .word s :: r => if s.all isKeyChar then .ok (String.ofList s, r) else .error .malformed
  | .text s false :: r => .ok (String.ofList s, r)
  | _ => .error .malformed

/-- Simple keys with dots between them. -/
def keyPath : Nat → List Token → Except Fault (List String × List Token)
  | 0, _ => .error .malformed
  | n + 1, ts => do
    let (key, r) ← simpleKey ts
    match dropBlank r with
    | .dot :: r =>
      let (keys, r) ← keyPath n (dropBlank r)
      .ok (key :: keys, r)
    | _ => .ok ([key], r)

/-- Words and dots up to the next other token, put together. -/
def bareText : List Token → List Char × List Token
  | .word s :: r =>
    let (t, r) := bareText r
    (s ++ t, r)
  | .dot :: r =>
    let (t, r) := bareText r
    ('.' :: t, r)
  | r => ([], r)

/-- A value without quotes. One space may stand between a date and a time. -/
def bareValue (ts : List Token) : Except Fault (Toml × List Token) :=
  let (s, r) := bareText ts
  let (s, r) := match r with
    | .blank [' '] :: .word (c :: w) :: r' =>
      if date? s = some [] && Text.isDigit c then
        let (t, r'') := bareText (.word (c :: w) :: r')
        (s ++ ' ' :: t, r'')
      else (s, r)
    | r => (s, r)
  match scalar? s with
  | some v => .ok (v, r)
  | none => .error .malformed

mutual

/-- A value, with arrays and inline tables at most `depth` deep. -/
def value : Nat → Nat → List Token → Except Fault (Toml × List Token)
  | 0, _, _ => .error .malformed
  | n + 1, depth, ts =>
    match ts, depth with
    | .text s _ :: r, _ => .ok (.str (String.ofList s), r)
    | .openSquare :: r, d + 1 => items n d [] (dropLines r)
    | .openBrace :: r, d + 1 => members n d .empty (dropLines r)
    | .word s :: r, _ => bareValue (.word s :: r)
    | _, _ => .error .malformed

/-- The rest of an array; `seen` are the items before, in reverse. -/
def items : Nat → Nat → List Toml → List Token → Except Fault (Toml × List Token)
  | 0, _, _, _ => .error .malformed
  | _ + 1, _, seen, .closeSquare :: r => .ok (.arr seen.reverse, r)
  | n + 1, depth, seen, ts => do
    let (v, r) ← value n depth ts
    match dropLines r with
    | .comma :: r => items n depth (v :: seen) (dropLines r)
    | .closeSquare :: r => .ok (.arr (v :: seen).reverse, r)
    | _ => .error .malformed

/-- The rest of an inline table. -/
def members : Nat → Nat → Table → List Token → Except Fault (Toml × List Token)
  | 0, _, _, _ => .error .malformed
  | _ + 1, _, t, .closeBrace :: r => .ok (t.close, r)
  | n + 1, depth, t, ts => do
    let (path, r) ← keyPath n ts
    match dropBlank r with
    | .equals :: r =>
      let (v, r) ← value n depth (dropBlank r)
      let t ← t.assign path v
      match dropLines r with
      | .comma :: r => members n depth t (dropLines r)
      | .closeBrace :: r => .ok (t.close, r)
      | _ => .error .malformed
    | _ => .error .malformed

end

/-- The tokens after the end of a line that must end here. -/
def lineEnd (ts : List Token) : Except Fault (List Token) :=
  match dropBlank ts with
  | [] => .ok []
  | .newline :: r => .ok r
  | .comment :: r => .ok r
  | _ => .error .malformed

/-- The lines of a document; `header` is the path of the table to which keys belong. -/
def lines : Nat → List String → Table → List Token → Except Fault Table
  | 0, _, _, _ => .error .malformed
  | n + 1, header, t, ts =>
    match dropBlank ts with
    | [] => .ok t
    | .newline :: r | .comment :: r => lines n header t r
    | .openSquare :: .openSquare :: r => do
      let (path, r) ← keyPath n (dropBlank r)
      match dropBlank r with
      | .closeSquare :: .closeSquare :: r =>
        let t ← t.openItem path
        lines n path t (← lineEnd r)
      | _ => .error .malformed
    | .openSquare :: r => do
      let (path, r) ← keyPath n (dropBlank r)
      match dropBlank r with
      | .closeSquare :: r =>
        let t ← t.openTable path
        lines n path t (← lineEnd r)
      | _ => .error .malformed
    | r => do
      let (path, r) ← keyPath n r
      match dropBlank r with
      | .equals :: r =>
        let (v, r) ← value n maxDepth (dropBlank r)
        let t ← t.update false (Table.assign path v) header
        lines n header t (← lineEnd r)
      | _ => .error .malformed

/-- The document that a text is. A byte order mark may stand before it. -/
def read (s : String) : Except Fault Toml :=
  let cs := match s.toList with
    | '\uFEFF' :: r => r
    | cs => cs
  let ts := scan cs
  (lines (2 * ts.length + 2) [] .empty ts).map Table.close

end Switchboard.Toml
