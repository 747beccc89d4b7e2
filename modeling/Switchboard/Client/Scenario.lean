import Switchboard.Client.Basic

/-!
# Scenarios

A client driven from outside: push events arrive, requests are made and awaited, callbacks that
were kept complete, and observers of the topology run steps of their own.

- `Step`: one thing that happens.
- `Observer`: who is told about topology announcements.
- `Session.publish`: an announcement; who registers while observers run is told from the next one.
- `Session.drain`: jobs of the host until none is left.
- `run`: the report of a whole scenario.
-/

namespace Switchboard.Client

open Http (Method Headers Exchange)
open Promise (PromiseId AwaitId Settlement State)

namespace Scenario

inductive Step
  /-- A push event. -/
  | publish (name payload : String)
  /-- The push channel reports a failure. -/
  | pushFailure
  | request (name service path : String) (method : Option String)
      (headers : List (String × String)) (body : Option String)
  | get (name service path : String)
  | post (kind name service path : String) (body : Except String Json)
  /-- Registers an observer; one that reacts once runs its steps only the first time. -/
  | observe (tag : Json) (body : List Step) (once : Bool)
  | snapshot (name : String)
  | servers (service : String) (snapshot : Option String)
  /-- Completes, keeps or loses the callback of an exchange. -/
  | complete (id : String) (reply : Reply)
  | refreshed (id : String) (reply : RefreshReply)
  | authenticate (value : Bool)
  | setToken (token : Option BearerToken)
  | describe
  /-- Lets the host run all jobs. -/
  | run

instance : Inhabited Step := ⟨.run⟩

/-- The path of requests to the root of a service. -/
def rootPath : String := "/"

/-- Why a value with a key that is no text cannot be encoded. -/
def keyFault : String := "key must be a string"

mutual

/-- How deeply the steps of observers nest. -/
def Step.depth : Step → Nat
  | .observe _ body _ => depths body + 1
  | _ => 0

def depths : List Step → Nat
  | [] => 0
  | s :: rest => max s.depth (depths rest)

end

structure Observer where
  tag : Json
  body : List Step
  once : Bool
  /-- Whether it ran before. -/
  ran : Bool := false

/-- A line of the report. -/
inductive Entry
  | effect (e : Effect)
  | pushed (kind : String) (t : Topology)
  | asked (kind name : String) (state : State)
  | badMethod (message : String)
  | result (name : String) (r : Except ClientError Json)
  | observing (tag : Json)
  | observed (tag : Json) (payload : String)
  | snapshot (name : String) (t : Topology)
  | servers (all : List Address) (services : Nat)
  | completed (kind id : String) (found : Bool)
  | authenticated (value : Bool)
  | token (t : Option BearerToken)
  | described (client view : String)
  | ran

structure Session where
  client : Client
  observers : List Observer
  snapshots : Dictionary Topology
  /-- The names of the awaits in the order in which they started. -/
  awaits : Array String
  /-- The report, latest entry first. -/
  entries : List Entry

namespace Session

def report (s : Session) (e : Entry) : Session := { s with entries := e :: s.entries }

/-- The client moved on to `c`; what it asked of the outside is reported. -/
def advance (s : Session) (c : Client) : Session :=
  let asked := c.effects.take (c.effects.length - s.client.effects.length)
  { s with client := c, entries := asked.map .effect ++ s.entries }

/-- A request that was just made is reported and awaited. -/
def asked (s : Session) (kind name : String) (made : PromiseId × Client) : Session :=
  let (p, c) := made
  let s := (s.advance c).report (.asked kind name (c.machine.state p))
  let (_, c) := c.await p
  { s with client := c, awaits := s.awaits.push name }

/-- Up to `n` jobs. -/
def jobs : Nat → Session → Session
  | 0, s => s
  | n + 1, s =>
    match s.client.job with
    | none => s
    | some (answer, c) =>
      let s := s.advance c
      jobs n (match answer with
        | none => s
        | some (a, outcome) =>
          match s.awaits[a]? with
          | some name => s.report (.result name (resultOf outcome))
          | none => s)

/-- Jobs until none is left. -/
def drain (s : Session) : Session := s.jobs s.client.load

/-- Tells one observer; its steps may change the session. -/
def tell (react : List Step → Session → Session) (payload : String) (s : Session)
    (o : Observer) : Session :=
  let s := s.report (.observed o.tag payload)
  if o.once && o.ran then s else react o.body s

/-- A push event. Observers are told about every announcement, readable or not, after the topology
was updated. Those that register meanwhile are told from the next one on and stand behind. -/
def publish (react : List Step → Session → Session) (s : Session) (name payload : String) :
    Session :=
  let s := { s with client := s.client.announce name payload }
  if name = topologyEvent then
    let running := s.observers
    let s := running.foldl (tell react payload) { s with observers := [] }
    { s with observers := running.map (fun o => { o with ran := true }) ++ s.observers }
  else s

def topologyOf (s : Session) : Option String → Topology
  | none => s.client.topology
  | some name => (Dictionary.find? name s.snapshots).getD .empty

/-- One step; `react` runs the steps of an observer. -/
def step (react : List Step → Session → Session) (s : Session) : Step → Session
  | .publish name payload =>
    let s := s.publish react name payload
    s.report (.pushed "publish" s.client.topology)
  | .pushFailure => s.report (.pushed "push_error" s.client.topology)
  | .request name service path method headers body =>
    let settings (m : Option Method) : RequestSettings := ⟨m, .ofPairs headers, body⟩
    match method with
    | none => s.asked "request" name (s.client.request service path (settings none))
    | some text =>
      match Method.ofText? text with
      | some m => s.asked "request" name (s.client.request service path (settings (some m)))
      | none => s.report (.badMethod (Method.unknownMessage text))
  | .get name service path => s.asked "get" name (s.client.request service path {})
  | .post kind name service path body =>
    s.asked kind name (s.client.post service path body)
  | .observe tag body once =>
    let o : Observer := ⟨tag, body, once, false⟩
    { s with observers := s.observers ++ [o] }.report (.observing tag)
  | .snapshot name =>
    { s with snapshots := s.snapshots.insert name s.client.topology }.report
      (.snapshot name s.client.topology)
  | .servers service of =>
    let t := s.topologyOf of
    s.report (.servers (t.servers service) t.size)
  | .complete id reply =>
    match s.client.takeExchange? id with
    | some (r, c) =>
      (s.report (.completed "complete" id true)).advance (c.completeExchange r reply).tellLost
    | none => s.report (.completed "complete" id false)
  | .refreshed id reply =>
    match s.client.takeRefresh? id with
    | some (r, c) =>
      (s.report (.completed "refreshed" id true)).advance (c.completeRefresh r reply).tellLost
    | none => s.report (.completed "refreshed" id false)
  | .authenticate value =>
    { s with client := s.client.updateProvider (·.setAuthenticated value) }.report
      (.authenticated value)
  | .setToken t =>
    { s with client := s.client.updateProvider (·.setToken t) }.report (.token t)
  | .describe => s.report (.described s.client.describe s.client.describeView)
  | .run => s.drain.report .ran

/-- Steps in order. Observers inside one another nest at most `n` deep. -/
def steps : Nat → List Step → Session → Session
  | 0, script, s => script.foldl (step fun _ s => s) s
  | n + 1, script, s => script.foldl (step (steps n)) s

def init (c : Client) : Session where
  client := c
  observers := []
  snapshots := []
  awaits := #[]
  entries := []

end Session

/-- The session after a scenario, when nothing is left to do. -/
def run (c : Client) (script : List Step) : Session :=
  (Session.steps (depths script) script (.init c)).drain

end Scenario

end Switchboard.Client
