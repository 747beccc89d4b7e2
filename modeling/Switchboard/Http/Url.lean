import Switchboard.Text.Ascii
import Switchboard.Text.Search
import Switchboard.Text.Utf8

/-!
# URLs

The addresses to which requests can be sent: absolute URLs with the scheme `http` or `https` and a host.

- `Url`: whether it asks for TLS, and user, host, port, path and query.
- `Url.ofText?`: a text taken apart; letter case of the scheme, backslashes for slashes, blanks
  around the text and surplus slashes before the host make no difference.
- `resolveDots`: `.` and `..` in paths.
- `percentEncode`: characters that may not stand for themselves.
- `Url.target`: path and query as they are sent; fragments stay behind.
-/

namespace Switchboard.Http

/-- Who the URL says is asking. -/
structure UserInfo where
  name : String
  password : Option String
  deriving DecidableEq, Repr

structure Url where
  /-- The scheme is `https`. -/
  secure : Bool
  user : Option UserInfo
  host : String
  port : Option Nat
  /-- The path, encoded. -/
  path : List Char
  /-- The query, encoded, if there is a question mark. -/
  query : Option (List Char)
  deriving DecidableEq, Repr

namespace Url

/-! ### Percent-encoding -/

/-- An octet as a percent sign and two hexadecimal digits in upper case. -/
def percentByte (b : UInt8) : List Char :=
  ['%', (Text.hexDigit (b.toNat / 16)).toUpper, (Text.hexDigit (b.toNat % 16)).toUpper]

/-- Characters that are not plain ASCII, and those in `encoded`, by their UTF-8 octets. -/
def percentEncode (encoded : List Char) (s : List Char) : List Char :=
  s.flatMap fun c =>
    if c.toNat < 0x20 || 0x7F ≤ c.toNat || encoded.contains c then
      (Text.Utf8.encode (String.singleton c)).flatMap percentByte
    else [c]

/-- The octets of a text in which octets may be percent-encoded. -/
def percentDecode : List Char → List UInt8
  | [] => []
  | '%' :: a :: b :: rest =>
    match Text.hexValue? a, Text.hexValue? b with
    | some x, some y => UInt8.ofNat (x * 16 + y) :: percentDecode rest
    | _, _ => 37 :: percentDecode (a :: b :: rest)
  | c :: rest => Text.Utf8.encode (String.singleton c) ++ percentDecode rest

/-- What is encoded in paths. -/
def pathEncoded : List Char := " \"#<>?^\x60\x7b\x7d".toList

/-- What is encoded in queries. -/
def queryEncoded : List Char := " \"#<>'".toList

/-! ### Hosts -/

/-- The marks that may stand in a host name. -/
def hostMarks : List Char := "-._~!$&'()*+,;=".toList

def isHostChar (c : Char) : Bool := c.isAlphanum || hostMarks.contains c || 0x80 ≤ c.toNat

/-- The parts of `s` between the characters for which `sep` holds. -/
def splitAt (sep : Char → Bool) : List Char → List (List Char)
  | [] => [[]]
  | c :: rest =>
    match splitAt sep rest with
    | part :: parts => if sep c then [] :: part :: parts else (c :: part) :: parts
    | [] => [[c]]

/-- A part of an address in numbers: hexadecimal after `0x`, octal after `0`, else decimal. -/
def partValue? (s : List Char) : Option Nat :=
  let value (base : Nat) (digits : List Char) : Option Nat :=
    digits.foldlM (fun n c => (Text.hexValue? c).bind fun d =>
      if d < base then some (n * base + d) else none) 0
  match s with
  | [] => none
  | '0' :: 'x' :: digits | '0' :: 'X' :: digits => value 16 digits
  | '0' :: digits => value 8 digits
  | digits => value 10 digits

/-- The labels of a host name; one dot at the end does not count. -/
def labels (host : List Char) : List (List Char) :=
  match (splitAt (· == '.') host).reverse with
  | [] :: (l :: rest) => (l :: rest).reverse
  | parts => parts.reverse

/-- Whether a host name ends in a number, so that it must be an address. -/
def endsInNumber (host : List Char) : Bool :=
  match (labels host).getLast? with
  | some l => !l.isEmpty && (l.all Text.isDigit || (match l with
    | '0' :: 'x' :: digits | '0' :: 'X' :: digits => digits.all fun c => (Text.hexValue? c).isSome
    | _ => false))
  | none => false

/-- At most four numbers below 256; the last one fills what the others leave. -/
def isAddress4 (host : List Char) : Bool :=
  let parts := labels host
  match parts.mapM partValue? with
  | some values =>
    parts.length ≤ 4 && values.dropLast.all (· < 256) &&
      (values.getLast?.getD 0) < Nat.pow 256 (5 - parts.length)
  | none => false

/-- The number of 16-bit groups in a list of them, of which the last may be four decimal numbers. -/
def groupCount? : List (List Char) → Option Nat
  | [] => some 0
  | [g] =>
    if g.contains '.' then
      let parts := splitAt (· == '.') g
      let fits (p : List Char) := !p.isEmpty && p.all Text.isDigit && p.length ≤ 3 &&
        Text.decimalValue p < 256 && (p.head? != some '0' || p.length == 1)
      if parts.length == 4 && parts.all fits then some 2 else none
    else if !g.isEmpty && g.length ≤ 4 && g.all (fun c => (Text.hexValue? c).isSome) then some 1
    else none
  | g :: rest =>
    if !g.isEmpty && g.length ≤ 4 && g.all (fun c => (Text.hexValue? c).isSome) then
      (groupCount? rest).map (· + 1)
    else none

def groups (s : List Char) : List (List Char) := if s.isEmpty then [] else splitAt (· == ':') s

/-- Eight groups, or fewer around one `::`. -/
def isAddress6 (s : List Char) : Bool :=
  match Text.cut? [':', ':'] s with
  | none => groupCount? (groups s) == some 8
  | some (before, after) =>
    match groupCount? (groups before), groupCount? (groups after) with
    | some a, some b => a + b ≤ 7 && !before.contains '.'
    | _, _ => false

/-- The host that a text names. -/
def host? (s : List Char) : Option String :=
  match s with
  | '[' :: rest =>
    if rest.getLast? == some ']' && isAddress6 rest.dropLast then some (String.ofList s) else none
  | _ => do
    let name ← Text.Utf8.decode? (percentDecode s)
    let cs := (Text.lower name).toList
    if cs.isEmpty || !cs.all isHostChar || (endsInNumber cs && !isAddress4 cs) then none
    else some (String.ofList cs)

/-! ### Taking a text apart -/

def isSlash (c : Char) : Bool := c == '/' || c == '\\'

def endsAuthority (c : Char) : Bool := isSlash c || c == '?' || c == '#'

/-- Without the controls and spaces around it, and without tabs and line ends. -/
def clean (s : List Char) : List Char :=
  let isEdge (c : Char) : Bool := c.toNat ≤ 0x20
  (((s.dropWhile isEdge).reverse.dropWhile isEdge).reverse).filter fun c =>
    c != '\t' && c != '\n' && c != '\r'

/-- The scheme and what follows its colon. -/
def scheme? (s : List Char) : Option (List Char × List Char) :=
  match Text.cut? [':'] s with
  | some (c :: name, rest) =>
    if c.isAlpha && name.all (fun x => x.isAlphanum || x == '+' || x == '-' || x == '.') then
      some ((c :: name).map Char.toLower, rest)
    else none
  | _ => none

/-- What stands before the last `@`, and what stands after it. -/
def splitUser (authority : List Char) : Option (List Char) × List Char :=
  match Text.cut? ['@'] authority.reverse with
  | some (host, user) => (some user.reverse, host.reverse)
  | none => (none, authority)

/-- User and password, decoded; both must be texts, and one of them must be there. -/
def userInfo? (s : List Char) : Option UserInfo :=
  let (name, password) := match Text.cut? [':'] s with
    | some (name, password) => (name, if password.isEmpty then none else some password)
    | none => (s, none)
  match Text.Utf8.decode? (percentDecode name) with
  | some n =>
    let p := password.bind fun p => Text.Utf8.decode? (percentDecode p)
    if n.isEmpty && p.isNone then none else some ⟨n, p⟩
  | none => none

/-- Host and port; a colon may stand without a port. -/
def hostPort? (s : List Char) : Option (String × Option Nat) :=
  let (host, port) := match s with
    | '[' :: _ =>
      match Text.cut? [']'] s with
      | some (a, rest) => (a ++ [']'], rest)
      | none => (s, [])
    | _ => (s.takeWhile (· != ':'), s.dropWhile (· != ':'))
  match host? host, port with
  | some h, [] => some (h, none)
  | some h, ':' :: digits =>
    let n := Text.decimalValue digits
    if !digits.all Text.isDigit || 65535 < n then none
    else some (h, if digits.isEmpty then none else some n)
  | _, _ => none

def isDot (segment : List Char) : Bool :=
  [['.'], ['%', '2', 'e']].contains (segment.map Char.toLower)

def isDoubleDot (segment : List Char) : Bool :=
  [['.', '.'], ['.', '%', '2', 'e'], ['%', '2', 'e', '.'], ['%', '2', 'e', '%', '2', 'e']].contains
    (segment.map Char.toLower)

/-- Segments after the dots in them were followed; `passed` are those before, in reverse. -/
def resolveDots (passed : List (List Char)) : List (List Char) → List (List Char)
  | [] => passed.reverse
  | [s] =>
    if isDoubleDot s then ([] :: passed.tail).reverse
    else if isDot s then ([] :: passed).reverse
    else (s :: passed).reverse
  | s :: rest =>
    if isDoubleDot s then resolveDots passed.tail rest
    else if isDot s then resolveDots passed rest
    else resolveDots (s :: passed) rest

/-- The path that a text names, encoded; it starts with a slash. -/
def pathOf (s : List Char) : List Char :=
  let s := match s with
    | c :: rest => if isSlash c then rest else s
    | [] => []
  (resolveDots [] (splitAt isSlash s)).flatMap fun segment =>
    '/' :: percentEncode pathEncoded segment

/-- Whether a scheme asks for TLS, if requests can be sent with it. -/
def secure? (scheme : List Char) : Option Bool :=
  if scheme = "http".toList then some false
  else if scheme = "https".toList then some true
  else none

/-- The URL that a text is, if a request can be sent there. -/
def ofText? (text : String) : Option Url := do
  let (scheme, rest) ← scheme? (clean text.toList)
  let secure ← secure? scheme
  let rest := rest.dropWhile isSlash
  let authority := rest.takeWhile fun c => !endsAuthority c
  let rest := rest.dropWhile fun c => !endsAuthority c
  let (user, server) := splitUser authority
  let (host, port) ← hostPort? server
  let path := rest.takeWhile fun c => c != '?' && c != '#'
  let query := match rest.dropWhile fun c => c != '?' && c != '#' with
    | '?' :: q => some (percentEncode queryEncoded (q.takeWhile (· != '#')))
    | _ => none
  some ⟨secure, user.bind userInfo?, host, port, pathOf path, query⟩

/-- Path and query as they are sent. -/
def target (u : Url) : String :=
  String.ofList (u.path ++ match u.query with
    | some q => '?' :: q
    | none => [])

end Url

end Switchboard.Http
