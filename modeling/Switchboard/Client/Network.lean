import Switchboard.Client.Basic
import Switchboard.Push.Subscription

/-!
# A client on a network

A client whose push channel and exchanges run over connections.

- `follow`: the events of a subscription reach the topology.
- `Network.exchange`: what an exchange comes to over the next connection.
- `Network.call`: one call from the request to its outcome.
- `Network.run`: a subscription, and calls one after the other.
-/

namespace Switchboard.Client

open Http (Connection Exchange Outgoing)
open Promise (AwaitId Settlement)

/-- One call: a value to post, or a request without a body. -/
structure Call where
  service : String
  path : String
  body : Option Json

/-- The events of a subscription reach the topology. -/
def follow (c : Client) (reports : List Subscription.Report) : Client :=
  reports.foldl (fun c r => match r with
    | .event e => c.announce e.name e.data
    | .disconnect .. => c) c

/-- Up to `n` jobs, with the awaits that they answered. -/
def answersIn : Nat → Client → List (AwaitId × Settlement Payload ClientError) × Client
  | 0, c => ([], c)
  | n + 1, c =>
    match c.job with
    | none => ([], c)
    | some (answer, c) =>
      let (answers, c) := answersIn n c
      (answer.toList ++ answers, c)

/-- Jobs until none is left, with the awaits that they answered. -/
def settle (c : Client) : List (AwaitId × Settlement Payload ClientError) × Client :=
  answersIn c.load c

structure Network where
  client : Client
  /-- Connections for exchanges still to come. -/
  connections : List Connection
  /-- Requests that reached a peer, latest first. -/
  sent : List Outgoing

namespace Network

/-- What an exchange comes to. A request that cannot be sent takes no connection. -/
def exchange (n : Network) (e : Exchange) : Except Http.ExchangeFault Http.Response × Network :=
  match Outgoing.ofExchange? e, n.connections with
  | none, _ => (.error .illegalRequest, n)
  | some _, [] => (.error .noAnswer, n)
  | some r, c :: rest =>
    
    (Http.respond r c, { n with
      connections := rest
      sent := if c.hears r then r :: n.sent else n.sent })

/-- The name under which the callback of the exchange in flight is kept. -/
def inFlight : String := "in flight"

/-- The exchange that was started last. -/
def lastCall? (effects : List Effect) : Option Exchange :=
  effects.findSome? fun
    | .call e => some e
    | .refresh _ => none

/-- Makes a call and waits for its outcome. -/
def call (n : Network) (k : Call) : Option (Except ClientError Json) × Network :=
  let c := { n.client with transport := [.hold inFlight] }
  let (p, c) := match k.body with
    | some j => c.post k.service k.path (.ok j)
    | none => c.request k.service k.path {}
  let (answers, c) := (c.await p).2.settle
  match c.takeExchange? inFlight, lastCall? c.effects with
  | some (r, c), some e =>
    let (outcome, n) := n.exchange e
    let reply : Reply := .complete (outcome.mapError fun f => f.message)
    let (answers, c) := (c.completeExchange r reply).settle
    (answers.head?.map fun a => resultOf a.2, { n with client := c })
  | _, _ => (answers.head?.map fun a => resultOf a.2, { n with client := c })

/-- Calls one after the other. -/
def calls (n : Network) : List Call → List (Option (Except ClientError Json)) × Network
  | [] => ([], n)
  | k :: rest =>
    let (r, n) := n.call k
    let (rs, n) := n.calls rest
    (r :: rs, n)

end Network

/-- What a client did on a network. -/
structure Traffic where
  results : List (Option (Except ClientError Json))
  streamRequests : List Outgoing
  requests : List Outgoing

/-- A client that has followed its push channel over `streams` makes calls over `connections`. -/
def converse (settings : ClientSettings) (env : Settings.Environment) (token : Option BearerToken)
    (streams connections : List Connection) (calls : List Call) : Traffic :=
  let c := Client.ofSettings settings env (token.map .fixed) []
  let channel := (Subscription.new settings.origin settings.pushPath
    (.ofSettings settings.reconnect)).run streams
  let (results, n) := Network.calls ⟨c.follow channel.reports, connections, []⟩ calls
  ⟨results, channel.requests, n.sent.reverse⟩

end Switchboard.Client
