import Switchboard.Http.Exchange
import Switchboard.Http.Field
import Switchboard.Http.Url
import Switchboard.Text.Base64
import Switchboard.Text.Blank

/-!
# Requests on the wire

- `Outgoing`: a request as it is sent.
- `Outgoing.build?`: the request for a URL and field lines, if all of them are legal; nothing is
  sent otherwise.
- `Outgoing.listed`: the field lines as a peer reports them.
-/

namespace Switchboard.Http

structure Outgoing where
  /-- It is sent over TLS. -/
  secure : Bool
  method : Method
  /-- Path and query. -/
  target : String
  /-- Field lines, names in lower case. -/
  fields : List (String × String)
  body : String
  deriving DecidableEq, Repr

namespace Outgoing

/-- What the program calls itself. -/
def userAgent : String := "ribbon/0.0.0"

/-- Field lines that every request has unless it sets them itself. -/
def standing : List (String × String) := [("accept", "*/*"), ("user-agent", userAgent)]

/-- The field line that stands for the user of a URL. -/
def userFields (u : Url) : List (String × String) :=
  match u.user with
  | some i =>
    [("authorization",
      "Basic " ++ Text.Base64.encode (Text.Utf8.encode (i.name ++ ":" ++ i.password.getD "")))]
  | none => []

def legal (f : String × String) : Bool := isFieldName f.1 && isFieldText f.2

def build? (method : Method) (url : String) (given : List (String × String))
    (body : Option String) : Option Outgoing := do
  let u ← Url.ofText? url
  if given.all legal then
    let own := userFields u ++ given.map fun f => (Text.lower f.1, f.2)
    some
      { secure := u.secure
        method
        target := u.target
        fields := own ++ standing.filter fun f => !own.any fun g => g.1 == f.1
        body := body.getD "" }
  else none

/-- The request of an exchange. -/
def ofExchange? (e : Exchange) : Option Outgoing := build? e.method e.url e.headers.entries e.body

/-- Field lines that say how a request is transmitted. -/
def transmission : List String := ["host", "content-length"]

/-- The other field lines in order, values without the blanks around them. -/
def listed (r : Outgoing) : List (String × String) :=
  let shown := r.fields.filter fun f => !transmission.contains f.1
  (shown.map fun f => (f.1, Text.trim f.2)).mergeSort fun a b =>
    a.1 < b.1 || (a.1 == b.1 && a.2 ≤ b.2)

end Outgoing

end Switchboard.Http
