import Switchboard.EventStream.Frame
import Switchboard.EventStream.Framing
import Switchboard.Http.Connection
import Switchboard.Push.Error
import Switchboard.Reconnect.Backoff

/-!
# Subscriptions

One subscription of the push channel: it connects, delivers the events of the stream, and connects
again after a while when the connection has ended.

- `Subscription`: what outlives a connection: the last event id and the reconnect state.
- `Subscription.request`: what an attempt to connect asks for.
- `Subscription.Reading`: one connection while its stream is read; `chunk` takes in a piece.
- `Subscription.attempt`: a connection from its response to its end.
- `Subscription.run`: attempts one after the other, over given connections.
-/

namespace Switchboard

open Http (Connection Incoming Outgoing)

/-- A frame that was delivered. -/
structure PushEvent where
  name : String
  data : String
  /-- The last id that the stream has named. -/
  id : Option String
  deriving DecidableEq, Repr

structure Subscription where
  url : String
  backoff : Backoff
  /-- The last id of any frame so far, on any connection. -/
  lastId : Option String
  deriving DecidableEq, Repr

/-- How a connection ended, with the field lines of a rejection. -/
structure Disconnect where
  error : PushError
  fields : ResponseFields

namespace Subscription

/-- The URL of a path on a server: one slash stands between them. -/
def urlFor (origin path : String) : String :=
  let base := String.ofList (origin.toList.reverse.dropWhile (· == '/')).reverse
  match path.toList with
  | '/' :: _ => base ++ path
  | _ => base ++ "/" ++ path

def new (origin path : String) (config : Backoff.Config) : Subscription :=
  ⟨urlFor origin path, .new config, none⟩

/-- The field lines of an attempt. The last id is named once there is one, even an empty one. -/
def requestFields (s : Subscription) : List (String × String) :=
  [("accept", "text/event-stream"), ("cache-control", "no-cache")] ++
    match s.lastId with
    | some id => [("last-event-id", id)]
    | none => []

/-- The request of an attempt, if it can be sent. -/
def request (s : Subscription) : Option Outgoing :=
  Outgoing.build? .get s.url s.requestFields none

/-- Takes in the fields of a frame. Only a frame with data is an event. -/
def absorb (s : Subscription) (f : EventStream.Frame) : Subscription × Option PushEvent :=
  let s := match f.id with
    | some id => { s with lastId := some id }
    | none => s
  let s := match f.retry with
    | some d => { s with backoff := s.backoff.setServerDelay d }
    | none => s
  (s, f.data.map fun data => ⟨f.name, data, s.lastId⟩)

/-- How many octets may wait for the end of their frame: 4 MiB. -/
def maxPending : Nat := 4 * 1024 * 1024

/-- A connection while its stream is read. -/
structure Reading where
  subscription : Subscription
  /-- Octets whose frame has not ended. -/
  pending : EventStream.Bytes
  /-- Events so far, latest first. -/
  events : List PushEvent
  /-- What ended the reading, if anything did. -/
  failure : Option PushError

namespace Reading

/-- Takes in the text of a frame. -/
def text (r : Reading) (t : String) : Reading :=
  let (s, event) := r.subscription.absorb (.ofText t)
  { r with subscription := s, events := event.toList ++ r.events }

/-- Takes in complete frames up to the first that is no text; empty ones are passed over. -/
def frames (r : Reading) : List EventStream.Bytes → Reading
  | [] => r
  | f :: rest =>
    if f.isEmpty then r.frames rest
    else
      match Text.Utf8.decode? f with
      | some t => (r.text t).frames rest
      | none => { r with failure := some .invalidUtf8 }

/-- Takes in a piece of the stream, unless the reading has ended. -/
def chunk (r : Reading) (bytes : EventStream.Bytes) : Reading :=
  match r.failure with
  | some _ => r
  | none =>
    let (cuts, left) := EventStream.drain (r.pending ++ bytes)
    let r := { r with pending := left }.frames (cuts.map fun (c : EventStream.Cut) => c.frame)
    match r.failure with
    | some _ => r
    | none => if maxPending < left.length then { r with failure := some .bufferOverflow } else r

end Reading

/-- What an attempt came to: events in order, and how the connection ended, if it did. -/
structure Outcome where
  events : List PushEvent
  ended : Option Disconnect
  subscription : Subscription

/-- Reads the stream of a connection. The reconnect state starts anew. -/
def stream (s : Subscription) (i : Incoming) : Outcome :=
  let start : Reading := ⟨{ s with backoff := s.backoff.reset }, [], [], none⟩
  let r := i.chunks.foldl Reading.chunk start
  let ended := match r.failure, i.ending with
    | some e, _ => some e
    | none, .complete => some .closed
    | none, .cut => some (.stream Http.ExchangeFault.brokenBody.message)
    | none, .open => none
  ⟨r.events.reverse, ended.map (⟨·, []⟩), r.subscription⟩

/-- An attempt that brought `i`, or no response. A rejection ends when its body has been read, for which
there is no time limit. -/
def attempt (s : Subscription) : Option Incoming → Outcome
  | none => ⟨[], some ⟨.connect Http.ExchangeFault.noAnswer.message, []⟩, s⟩
  | some i =>
    if Http.isSuccess i.status then s.stream i
    else if i.awaited then ⟨[], none, s⟩
    else ⟨[], some ⟨.status i.status (Http.errorText i.chunks), i.fields⟩, s⟩

/-- An attempt that meets `c`, unless its request cannot be sent. -/
def encounter (s : Subscription) (c : Connection) : Outcome :=
  match s.request with
  | none => ⟨[], some ⟨.connect Http.ExchangeFault.illegalRequest.message, []⟩, s⟩
  | some r => s.attempt (c.receive? r)

/-- What a subscription reports: an event, or the end of a connection with the delay before the
next attempt. -/
inductive Report
  | event (e : PushEvent)
  | disconnect (error : PushError) (delay : Duration)

/-- What a run did. -/
structure Run where
  reports : List Report
  /-- The requests that reached their peer. -/
  requests : List Outgoing

/-- The delay after a connection that ended. -/
def pause (s : Subscription) (d : Disconnect) : Duration × Subscription :=
  let (delay, b) := s.backoff.next d.fields .zero
  (delay, { s with backoff := b })

/-- Attempts one after the other, as long as each one ends. There is one connection for each attempt:
what it meets, if its request can be sent. -/
def run (s : Subscription) : List Connection → Run
  | [] => ⟨[], []⟩
  | c :: rest =>
    let o := s.encounter c
    let events := o.events.map Report.event
    let sent := (s.request.filter c.hears).toList
    match o.ended with
    | none => ⟨events, sent⟩
    | some d =>
      let (delay, s) := o.subscription.pause d
      let later := run s rest
      ⟨events ++ .disconnect d.error delay :: later.reports, sent ++ later.requests⟩

end Subscription

end Switchboard
