import Switchboard.Client.Request
import Switchboard.Promise.Work
import Switchboard.Topology.Reader

/-!
# The client

Requests go to the first server of the topology as it is when they are made. Every request is a
promise; the token refresh and the exchange behind it are completed by callbacks, at once or later
and in any order.

- `Client`: topology, provider, transport and all promises.
- `Client.announce`: a push event; only valid announcements change the topology.
- `Client.request`: one call.
- `Client.completeExchange`, `completeRefresh`: what a callback does, or its loss.
- `Client.job`: the next job of the host.

The transport and the provider are lists of replies, one for each exchange or refresh that is
started.
-/

namespace Switchboard

open Promise (PromiseId ResolverId AwaitId Settlement)
open Http (Exchange Response)

namespace Client

/-- The values of the client's promises. -/
inductive Payload
  | json (j : Json)
  | response (r : Response)
  | token (t : BearerToken)

/-- The handlers of the client. -/
inductive Handler
  /-- The response becomes a value. -/
  | decode
  /-- The exchange is started with the token that was obtained. -/
  | dispatch (e : Exchange)

abbrev Machine := Promise.Machine Payload ClientError Handler Empty

/-- What becomes of an exchange: it completes, its callback is kept under a name, or lost. -/
inductive Reply
  | complete (r : Except String Response)
  | hold (id : String)
  | drop

/-- What becomes of a refresh. The provider may hold another token when it completes. -/
inductive RefreshReply
  | complete (token : Option (Option BearerToken)) (r : Except String Unit)
  | hold (id : String)
  | drop

/-- Who vouches for the caller. -/
inductive Provider
  /-- A token that never expires. -/
  | fixed (t : BearerToken)
  | scripted (authenticated : Bool) (token : Option BearerToken) (replies : List RefreshReply)

namespace Provider

def authenticated : Provider → Bool
  | fixed _ => true
  | scripted a _ _ => a

def token? : Provider → Option BearerToken
  | fixed t => some t
  | scripted _ t _ => t

def setToken (t : Option BearerToken) : Provider → Provider
  | scripted a _ rs => scripted a t rs
  | p => p

def setAuthenticated (a : Bool) : Provider → Provider
  | scripted _ t rs => scripted a t rs
  | p => p

end Provider

/-- What the client asked of the outside. -/
inductive Effect
  | call (e : Exchange)
  | refresh (minValidity : Duration)

/-- The name of the events that carry a topology. -/
def topologyEvent : String := "topologyChange"

/-- The reply of a transport that has no other: success with an empty object. -/
def defaultReply : Reply := .complete (.ok ⟨200, "OK", "\x7b\x7d"⟩)

def defaultRefresh : RefreshReply := .complete none (.ok ())

end Client

open Client

structure Client where
  defaults : Defaults
  provider : Option Provider
  topology : Topology
  transport : List Reply
  machine : Client.Machine
  /-- Callbacks of exchanges that were kept, by name. -/
  heldExchanges : Dictionary ResolverId
  heldRefreshes : Dictionary ResolverId
  /-- Promises whose callback was lost. -/
  lost : List PromiseId
  /-- What was asked of the outside, latest first. -/
  effects : List Effect

namespace Client

def init (d : Defaults) (provider : Option Provider) (transport : List Reply) : Client where
  defaults := d
  provider := provider
  topology := .empty
  transport := transport
  machine := .empty
  heldExchanges := []
  heldRefreshes := []
  lost := []
  effects := []

/-- A client as its settings say; environment references are expanded once, here. -/
def ofSettings (s : ClientSettings) (env : Settings.Environment) (provider : Option Provider)
    (transport : List Reply) : Client :=
  init (.ofSettings s env) provider transport

/-- A push event. Events of other names and announcements that cannot be read change nothing. -/
def announce (c : Client) (name payload : String) : Client :=
  if name = topologyEvent then
    match Topology.read payload with
    | .ok t => { c with topology := t }
    | .error _ => c
  else c

def updateProvider (c : Client) (f : Provider → Provider) : Client :=
  { c with provider := c.provider.map f }

/-! ### Callbacks -/

/-- The callback behind a resolver is lost. -/
def lose (c : Client) (r : ResolverId) : Client :=
  match c.machine.target? r with
  | some p => { c with lost := c.lost ++ [p] }
  | none => c

/-- Resolves or rejects through a resolver, unless it was used before. -/
def settleVia (c : Client) (r : ResolverId) (s : Settlement Payload ClientError) : Client :=
  match c.machine.use? r with
  | some (p, m) => { c with machine := m.settle p s }
  | none => c

/-- What the reply does to the exchange behind `r`. A name that is used again loses the callback
that it stood for. -/
def completeExchange (c : Client) (r : ResolverId) : Reply → Client
  | .complete (.ok response) => c.settleVia r (.fulfilled (.response response))
  | .complete (.error cause) => c.settleVia r (.rejected (.connection cause))
  | .hold id =>
    let c := match Dictionary.find? id c.heldExchanges with
      | some old => c.lose old
      | none => c
    { c with heldExchanges := c.heldExchanges.insert id r }
  | .drop => c.lose r

/-- What the reply does to the refresh behind `r`: success counts only if the provider holds a
token now. -/
def completeRefresh (c : Client) (r : ResolverId) : RefreshReply → Client
  | .complete token result =>
    let c := match token with
      | some t => c.updateProvider (·.setToken t)
      | none => c
    match result with
    | .error cause => c.settleVia r (.rejected (.tokenRefresh cause))
    | .ok () =>
      match c.provider.bind fun (p : Provider) => p.token? with
      | some t => c.settleVia r (.fulfilled (.token t))
      | none => c.settleVia r (.rejected .missingToken)
  | .hold id =>
    let c := match Dictionary.find? id c.heldRefreshes with
      | some old => c.lose old
      | none => c
    { c with heldRefreshes := c.heldRefreshes.insert id r }
  | .drop => c.lose r

/-- The callback kept under a name, which is then free. -/
def takeExchange? (c : Client) (id : String) : Option (ResolverId × Client) :=
  (Dictionary.find? id c.heldExchanges).map fun r =>
    (r, { c with heldExchanges := c.heldExchanges.filter fun e => e.1 ≠ id })

def takeRefresh? (c : Client) (id : String) : Option (ResolverId × Client) :=
  (Dictionary.find? id c.heldRefreshes).map fun r =>
    (r, { c with heldRefreshes := c.heldRefreshes.filter fun e => e.1 ≠ id })

/-! ### Requests -/

/-- Starts an exchange; the promise is that of the decoded value. -/
def startExchange (c : Client) (e : Exchange) : PromiseId × Client :=
  let (p, r, m) := c.machine.defer
  let reply := c.transport.head?.getD defaultReply
  let c := { c with
    machine := m, transport := c.transport.tail, effects := .call e :: c.effects }
  let c := c.completeExchange r reply
  let (d, m) := c.machine.register p .decode
  (d, { c with machine := m })

/-- Starts a refresh; the promise is that of the token. -/
def startRefresh (c : Client) (provider : Provider) : PromiseId × Client :=
  let (p, r, m) := c.machine.defer
  let c := { c with machine := m }
  match provider with
  | .fixed _ => (p, c.completeRefresh r defaultRefresh)
  | .scripted a t replies =>
    let c := { c with
      provider := some (.scripted a t replies.tail)
      effects := .refresh c.defaults.refreshInterval :: c.effects }
    (p, c.completeRefresh r (replies.head?.getD defaultRefresh))

/-- A promise that is rejected from the start. -/
def fail (c : Client) (e : ClientError) : PromiseId × Client :=
  let (p, m) := c.machine.create
  (p, { c with machine := m.reject p e })

/-- One call. Without a server, or with a provider that does not vouch for the caller, nothing is
asked of the outside. -/
def request (c : Client) (service path : String) (s : RequestSettings) : PromiseId × Client :=
  match c.topology.firstServer? service with
  | none => c.fail (.noServers service)
  | some server =>
    let e := prepare c.defaults server path s
    match c.provider with
    | none => c.startExchange e
    | some provider =>
      if provider.authenticated then
        let (p, c) := c.startRefresh provider
        let (d, m) := c.machine.register p (.dispatch e)
        (d, { c with machine := m })
      else c.fail .notAuthenticated

/-- The settings of a posted value. -/
def postSettings (body : Json) : RequestSettings :=
  { method := some .post, body := some body.text }

/-- Posts a value, unless it could not be encoded. -/
def post (c : Client) (service path : String) (body : Except String Json) : PromiseId × Client :=
  match body with
  | .ok j => c.request service path (postSettings j)
  | .error cause => c.fail (.encode cause)

/-! ### Jobs -/

/-- Runs a handler for the dependent `d`. -/
def handle (c : Client) (d : PromiseId) (s : Settlement Payload ClientError) : Handler → Client
  | .decode =>
    match s with
    | .fulfilled (.response r) =>
      match decodeResponse r with
      | .ok j => { c with machine := c.machine.resolveValue d (.json j) }
      | .error e => { c with machine := c.machine.reject d e }
    | s => { c with machine := c.machine.settle d s }
  | .dispatch e =>
    match s with
    | .fulfilled (.token t) =>
      let (q, c) := c.startExchange (authorize e t)
      { c with machine := c.machine.adopt d q }
    | s => { c with machine := c.machine.settle d s }

/-- Those who wait for a promise whose callback was lost learn that. -/
def tellLost (c : Client) : Client :=
  { c with machine := c.lost.foldl (fun m p => m.abandon p) c.machine }

/-- Someone waits for a request. -/
def await (c : Client) (p : PromiseId) : AwaitId × Client :=
  let (a, m) := c.machine.awaitApart p
  (a, { c with machine := m }.tellLost)

/-- Runs a job. An await that is answered is returned with its outcome. -/
def start (c : Client) : Promise.Job Payload ClientError Handler Empty →
    Option (AwaitId × Settlement Payload ClientError) × Client
  | .deliver (.handler code d) s => (none, c.handle d s code)
  | .deliver (.adoption p) s => (none, { c with machine := c.machine.settle p s })
  | .deliver (.wake a) s => (none, { c with machine := c.machine.wake a s })
  | .poll a =>
    let (s, m) := c.machine.poll a
    (s.map (a, ·), { c with machine := m })

/-- The next job of the host. -/
def job (c : Client) : Option (Option (AwaitId × Settlement Payload ClientError) × Client) :=
  c.machine.next?.map fun (j, m) =>
    let (answer, c) := { c with machine := m }.start j
    (answer, c.tellLost)

/-- What a reaction is worth: a dispatch makes two others. -/
def effort : Promise.Reaction Handler → Nat
  | .handler (.dispatch _) _ => 3
  | .handler .decode _ => 1
  | .adoption _ => 1
  | .wake _ => 1

/-- The work that the host has left. No more jobs than that run unless something else happens. -/
def load (c : Client) : Nat := c.machine.work effort

/-- What an answered await is told. -/
def resultOf : Settlement Payload ClientError → Except ClientError Json
  | .fulfilled (.json j) => .ok j
  | .fulfilled _ => .ok .null
  | .rejected e => .error e

def describe (c : Client) : String :=
  "RibbonClient \x7b defaults: " ++ c.defaults.describe ++ ", credentials: " ++
    toString c.provider.isSome ++ ", topology: " ++ c.topology.describe ++ ", .. \x7d"

/-- The description of the read-only view of the topology. -/
def describeView (c : Client) : String := "TopologyView(" ++ c.topology.describe ++ ")"

end Client

end Switchboard
