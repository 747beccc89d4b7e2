import Switchboard.Http.Outgoing
import Switchboard.Http.Status
import Switchboard.Reconnect.RetryAfter

/-!
# Connections

What comes back over a connection, and how it becomes a response.

- `Incoming`: a response whose head has arrived.
- `Connection`: how the peer behaves.
- `Connection.receive?`: what a request brings over a connection.
- `errorText`: the text of an error body, up to a limit. `Incoming.awaited`: its end is still to come.
- `respond`: the outcome of an exchange.
-/

namespace Switchboard.Http

/-- How the stream of body octets ends. -/
inductive Ending
  /-- The body is complete. -/
  | complete
  /-- The connection broke before the body was complete. -/
  | cut
  /-- Nothing more arrives, and the connection stays open until the reader gives up. -/
  | open
  deriving DecidableEq, Repr

/-- A response whose head has arrived; the body comes in pieces. -/
structure Incoming where
  status : Nat
  fields : ResponseFields
  chunks : List (List UInt8)
  ending : Ending

/-- How the peer behaves once it is connected to. -/
structure Connection where
  /-- It speaks TLS, or else it does not. -/
  secure : Bool
  /-- What it answers; otherwise it closes the connection. -/
  answer : Option Incoming

namespace Connection

def refused : Connection := ⟨false, none⟩

def answered (status : Nat) (fields : ResponseFields) (chunks : List (List UInt8))
    (ending : Ending) : Connection :=
  ⟨false, some ⟨status, fields, chunks, ending⟩⟩

/-- A request reaches the peer if both speak TLS, or neither does. -/
def hears (c : Connection) (r : Outgoing) : Bool := c.secure == r.secure

end Connection

/-- Status codes of three digits that are no interim report. -/
def isFinal (status : Nat) : Bool := status == 101 || (200 ≤ status && status ≤ 999)

/-- Responses that never have a body. -/
def lacksBody (method : Method) (status : Nat) : Bool :=
  method == .head || [101, 204, 304].contains status

/-- The head of a response is legal. -/
def Incoming.legal (i : Incoming) : Bool :=
  isFinal i.status && i.fields.all fun f => isFieldName f.1 && isFieldValue f.2

/-- The response to a request, if it reaches the peer and there is a legal one. -/
def Connection.receive? (c : Connection) (r : Outgoing) : Option Incoming :=
  match c.answer with
  | none => none
  | some i =>
    if c.hears r && i.legal then
      let fields := i.fields.map fun f => (f.1, trimValue f.2)
      if lacksBody r.method i.status then some ⟨i.status, fields, [], .complete⟩
      else some { i with fields }
    else none

/-- How many octets of an error body are kept. -/
def errorLimit : Nat := 32768

/-- What stands after an error body that was longer. -/
def truncationMark : String := "...(truncated)"

/-- Reads pieces until the body ends or is longer than the limit; `seen` is what was read. -/
def errorTextFrom (seen : List UInt8) : List (List UInt8) → String
  | [] => Text.Utf8.decodeLossy seen
  | chunk :: rest =>
    let seen := seen ++ chunk
    if errorLimit < seen.length then
      Text.Utf8.decodeLossy (seen.take errorLimit) ++ truncationMark
    else errorTextFrom seen rest

/-- The text of an error body. A body that breaks off counts as far as it came. -/
def errorText (chunks : List (List UInt8)) : String := errorTextFrom [] chunks

/-- A reader who waits for the end of an error body waits still. One that is longer than the limit has
been given up. -/
def Incoming.awaited (i : Incoming) : Bool :=
  i.ending == .open && i.chunks.flatten.length ≤ errorLimit

/-- Why an exchange brought no response. -/
inductive ExchangeFault
  | illegalRequest
  | noAnswer
  | brokenBody
  deriving DecidableEq, Repr

def ExchangeFault.message : ExchangeFault → String
  | illegalRequest => "the request cannot be sent"
  | noAnswer => "the connection brought no response"
  | brokenBody => "the body of the response is incomplete"

/-- The response once its body was read. The body of a success must be complete. -/
def Incoming.read (i : Incoming) : Except ExchangeFault Response :=
  if isSuccess i.status then
    if i.ending = .complete then
      .ok ⟨i.status, statusText i.status, Text.Utf8.decodeLossy i.chunks.flatten⟩
    else .error .brokenBody
  else .ok ⟨i.status, statusText i.status, errorText i.chunks⟩

/-- The outcome of a request that was sent over a connection. Redirects are not followed. -/
def respond (r : Outgoing) (c : Connection) : Except ExchangeFault Response :=
  match c.receive? r with
  | some i => i.read
  | none => .error .noAnswer

end Switchboard.Http
