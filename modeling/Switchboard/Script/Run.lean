import Switchboard.Json.Printer
import Switchboard.Number.Width
import Switchboard.Promise.Machine
import Switchboard.Script.Basic

/-!
# Running scripts

The host of a script: the promise machine, the names, and a stack of step lists that are being run.
A list on top of another was called by it (an initializer, or the body of a thenable), so the lower
one goes on when the upper one ends. The host takes the next job from the queue when the stack is
empty.

- `Host`: the state.
- `Host.tick`: one move: a step, the end of a list, or the start of a job.
- `run`: all moves of a script; its weight bounds their number.
- `Entry`: what a run reports.
-/

namespace Switchboard.Script

open Promise (PromiseId ResolverId AwaitId Settlement State)

/-- A line of the report of a run. -/
inductive Entry
  | log (tag : Json)
  /-- A promise was created by a step of this kind. -/
  | made (kind name : String) (state : State)
  | resolver (name text : String)
  /-- A settle step; the state is that of a deferred, a bare resolver does not show it. -/
  | settled (kind on : String) (state : Option State)
  | unresolvable (on message : String)
  | fanMade (name : String)
  | fanRan (name : String) (index : Nat)
  | mapRan (name : String) (input : Json)
  | okRan (name : String) (value : Json)
  | errRan (name cause : String)
  | state (on : String) (state : State)
  | settlement (on : String) (s : Option (Settlement Json String))
  | awaiting (name : String)
  | awaitingOrphan (name : String)
  | awaited (name : String) (s : Settlement Json String)
  | isSame (same : Option Bool)
  | debug (on text : String)
  | spawned
  | resumed
  | missing (on : String)
  | read (label : String)
  | called (label : String)

/-- The handlers that steps register. -/
inductive Code
  | scripted (name : String) (ok err : Handler)
  /-- Adds to the value; a named one reports its input. -/
  | add (name : Option String) (n : Int)
  | encode
  | size
  | fan (name : String) (index : Nat)
  | relay

abbrev Machine := Promise.Machine Json String Code (List Step)

/-- What happens when a list of steps ends. -/
inductive Frame
  | task
  /-- An initializer: the promise gets its name. -/
  | initializer (name : String) (promise : PromiseId)
  /-- A handler: its outcome settles the dependent. -/
  | handler (input : Json) (outcome : Outcome) (dependent : PromiseId)
  /-- The body of a thenable: a failure rejects, if the resolver was not used before. -/
  | body (resolver : ResolverId) (thrown : Option String)

structure Host where
  machine : Machine
  stack : List (Frame × List Step)
  values : Dictionary PromiseId
  deferreds : Dictionary (PromiseId × ResolverId)
  resolvers : Dictionary ResolverId
  /-- The names of the awaits in the order in which they started. -/
  awaits : Array String
  /-- The report, latest entry first. -/
  entries : List Entry

namespace Host

def report (h : Host) (e : Entry) : Host := { h with entries := e :: h.entries }

def bindValue (h : Host) (name : String) (p : PromiseId) : Host :=
  { h with values := h.values.insert name p }

def bindResolver (h : Host) (name : String) (r : ResolverId) : Host :=
  { h with resolvers := h.resolvers.insert name r }

def value? (h : Host) (name : String) : Option PromiseId := Dictionary.find? name h.values

/-- Calls a list of steps. -/
def push (h : Host) (f : Frame) (steps : List Step) : Host :=
  { h with stack := (f, steps) :: h.stack }

/-! ### Texts -/

def describeSettlement : Settlement Json String → String
  | .fulfilled v => "Fulfilled(" ++ v.text ++ ")"
  | .rejected c => "Rejected(" ++ Text.quoted c ++ ")"

def describePromise (m : Machine) (p : PromiseId) : String :=
  match m.settlement? p with
  | some s => "Eventual \x7b settlement: " ++ describeSettlement s ++ " \x7d"
  | none =>
    "Eventual \x7b state: Pending, dependents: " ++ toString (m.reactions p).length ++ " \x7d"

def describeDeferred (m : Machine) (p : PromiseId) : String :=
  "Deferred \x7b eventual: " ++ describePromise m p ++ ", .. \x7d"

def describeResolver (m : Machine) (r : ResolverId) : String :=
  "Resolver \x7b used: " ++ toString (m.used r) ++ ", .. \x7d"

def describeResolution (m : Machine) : Promise.Resolution Json Thenable → String
  | .value v => "Value(" ++ v.text ++ ")"
  | .promise p => "Eventual(" ++ describePromise m p ++ ")"
  | .thenable _ => "Thenable(..)"

/-! ### Resolution -/

/-- Adds in 64-bit two's complement if the value is an integer of that range. -/
def addTo (n : Int) (v : Json) : Json :=
  match v with
  | .int k => if Number.fitsSigned 64 k then .int ((k + n).bmod (Nat.pow 2 64)) else v
  | v => v

/-- The resolution that an input stands for, or the cause if it refers to an unknown name. -/
def evaluate (h : Host) (input : Json) : Input → Except String (Promise.Resolution Json Thenable)
  | .value v => .ok (.value v)
  | .wrap tag => .ok (.value (.arr [tag, input]))
  | .add n => .ok (.value (addTo n input))
  | .ref name =>
    match h.value? name with
    | some p => .ok (.promise p)
    | none => .error ("missing " ++ name)
  | .thenable t => .ok (.thenable t)
  | .same => .ok (.value input)

/-- Reads the `then` member of an object for `p`; what can be called is called at once, with a new
resolver for `p`. -/
def assimilate (h : Host) (p : PromiseId) : Thenable → Host
  | .unreadable label cause =>
    let h := h.report (.read label)
    { h with machine := h.machine.reject p cause }
  | .plain label v =>
    let h := h.report (.read label)
    { h with machine := h.machine.resolveValue p v }
  | .callable label resolver body thrown =>
    let (r, m) := h.machine.openResolver p
    let h := { (h.report (.read label)).report (.called label) with machine := m }
    let h := match resolver with
      | some name => h.bindResolver name r
      | none => h
    h.push (.body r thrown) body

/-- Resolves `p`. -/
def resolve (h : Host) (p : PromiseId) : Promise.Resolution Json Thenable → Host
  | .value v => { h with machine := h.machine.resolveValue p v }
  | .promise q => { h with machine := h.machine.adopt p q }
  | .thenable t => h.assimilate p t

/-- Resolves through a resolver, if it was not used before. -/
def resolveVia (h : Host) (r : ResolverId) (x : Promise.Resolution Json Thenable) : Host :=
  match h.machine.use? r with
  | some (p, m) => { h with machine := m }.resolve p x
  | none => h

def rejectVia (h : Host) (r : ResolverId) (cause : String) : Host :=
  match h.machine.use? r with
  | some (p, m) => { h with machine := m.reject p cause }
  | none => h

/-- The resolver that a settle step means: that of a deferred, else one by its own name. -/
def resolver? (h : Host) (on : String) : Option ResolverId :=
  match Dictionary.find? on h.deferreds with
  | some d => some d.2
  | none => Dictionary.find? on h.resolvers

/-! ### Steps -/

/-- Runs `f` on the promise with this name, if there is one. -/
def withValue (h : Host) (on : String) (f : PromiseId → Host) : Host :=
  match h.value? on with
  | some p => f p
  | none => h.report (.missing on)

/-- Names a new promise and reports it. -/
def made (h : Host) (kind name : String) (p : PromiseId) : Host :=
  (h.bindValue name p).report (.made kind name (h.machine.state p))

/-- A new promise that is settled at once, or not at all. -/
def make (h : Host) (kind name : String) (s : Option (Settlement Json String)) : Host :=
  let (p, m) := h.machine.create
  let m := match s with
    | some s => m.settle p s
    | none => m
  { h with machine := m }.made kind name p

/-- Registers several handlers one after the other, each on the promise before. -/
def registerChain (m : Machine) (p : PromiseId) : List Code → PromiseId × Machine
  | [] => (p, m)
  | c :: rest =>
    let (d, m) := m.register p c
    registerChain m d rest

def registered (h : Host) (kind on name : String) (codes : List Code) : Host :=
  h.withValue on fun p =>
    let (d, m) := registerChain h.machine p codes
    { h with machine := m }.made kind name d

def describeNamed (h : Host) (on : String) : String :=
  match Dictionary.find? on h.deferreds, Dictionary.find? on h.resolvers, h.value? on with
  | some d, _, _ => describeDeferred h.machine d.1
  | none, some r, _ => describeResolver h.machine r
  | none, none, some p => describePromise h.machine p
  | none, none, none => "missing"

def startAwait (h : Host) (name : String) (p : PromiseId) : Host :=
  { h with machine := (h.machine.awaitApart p).2, awaits := h.awaits.push name }

/-- One step. `rest` is what follows it in its list, which is on top of the stack. -/
def step (h : Host) (f : Frame) (rest : List Step) (below : List (Frame × List Step)) :
    Step → Host
  | .log tag => h.report (.log tag)
  | .deferred name =>
    let (p, r, m) := h.machine.defer
    { h with machine := m, deferreds := h.deferreds.insert name (p, r) }.made "deferred" name p
  | .resolver on name =>
    match Dictionary.find? on h.deferreds with
    | some d =>
      (h.bindResolver name d.2).report (.resolver name (describeResolver h.machine d.2))
    | none => h.report (.missing on)
  | .create name resolver body =>
    let (p, r, m) := h.machine.defer
    let h := { h with machine := m }
    let h := match resolver with
      | some x => h.bindResolver x r
      | none => h
    h.push (.initializer name p) body
  | .pending name => h.make "pending" name none
  | .fulfilled name v => h.make "fulfilled" name (some (.fulfilled v))
  | .rejected name c => h.make "rejected" name (some (.rejected c))
  | .resolve on input =>
    match h.evaluate .null input with
    | .error message => h.report (.unresolvable on message)
    | .ok x =>
      match h.resolver? on with
      | some r => { h with stack := (f, .report "resolve" on :: rest) :: below }.resolveVia r x
      | none => h.report (.missing on)
  | .reject on cause =>
    match h.resolver? on with
    | some r => { h with stack := (f, .report "reject" on :: rest) :: below }.rejectVia r cause
    | none => h.report (.missing on)
  | .register kind on name ok err => h.registered kind.label on name [.scripted name ok err]
  | .map on name n => h.registered "map" on name [.add (some name) n]
  | .measure on name => h.registered "measure" on name [.encode, .size]
  | .chain on name count n => h.registered "chain" on name (List.replicate count (.add none n))
  | .fan on name count =>
    h.withValue on fun p =>
      let m := (List.range count).foldl (fun m i => (m.register p (.fan name i)).2) h.machine
      { h with machine := m }.report (.fanMade name)
  | .state on => h.withValue on fun p => h.report (.state on (h.machine.state p))
  | .settlement on => h.withValue on fun p => h.report (.settlement on (h.machine.settlement? p))
  | .await on name => h.withValue on fun p => (h.startAwait name p).report (.awaiting name)
  | .awaitOrphan name depth =>
    let (p, m) := h.machine.create
    let (d, m) := registerChain m p (List.replicate depth .relay)
    let h := { h with machine := m }.startAwait name d
    { h with machine := h.machine.abandon p }.report (.awaitingOrphan name)
  | .isSame on other =>
    h.report (.isSame (match h.value? on, h.value? other with
      | some p, some q => some (p == q)
      | _, _ => none))
  | .debug on => h.report (.debug on (h.describeNamed on))
  | .debugInput on input =>
    h.report (.debug on (match h.evaluate .null input with
      | .ok x => describeResolution h.machine x
      | .error message => message))
  | .spawn body => { h with machine := h.machine.enqueue (.task body) }.report .spawned
  | .turn =>
    { h with machine := h.machine.enqueue (.task (.resumed :: rest)), stack := (f, []) :: below }
  | .resumed => h.report .resumed
  | .report kind on =>
    h.report (.settled kind on
      ((Dictionary.find? on h.deferreds).map fun d => h.machine.state d.1))

/-! ### Ends of lists and starts of jobs -/

/-- The list on top has ended and is gone from the stack. -/
def leave (h : Host) : Frame → Host
  | .task => h
  | .initializer name p => h.made "new" name p
  | .handler input outcome d =>
    match outcome with
    | .throw cause => { h with machine := h.machine.reject d cause }
    | .throwInput =>
      let cause := match input with
        | .str s => s
        | v => v.text
      { h with machine := h.machine.reject d cause }
    | .answer i =>
      match h.evaluate input i with
      | .ok x => h.resolve d x
      | .error message => { h with machine := h.machine.reject d message }
  | .body r thrown =>
    match thrown with
    | some cause => h.rejectVia r cause
    | none => h

/-- Without a handler the outcome passes through. -/
def passOn (h : Host) (d : PromiseId) (s : Settlement Json String) : Host :=
  { h with machine := h.machine.settle d s }

/-- A handler of a fulfilled promise starts with the value. -/
def handle (h : Host) (d : PromiseId) (s : Settlement Json String) : Code → Host
  | .scripted name ok err =>
    match s, ok, err with
    | .fulfilled v, .run body outcome, _ =>
      (h.report (.okRan name v)).push (.handler v outcome d) body
    | .rejected c, _, .run body outcome =>
      (h.report (.errRan name c)).push (.handler (.str c) outcome d) body
    | s, _, _ => h.passOn d s
  | .add name n =>
    match s with
    | .fulfilled v =>
      let h := match name with
        | some x => h.report (.mapRan x v)
        | none => h
      h.passOn d (.fulfilled (addTo n v))
    | s => h.passOn d s
  | .encode =>
    match s with
    | .fulfilled v => h.passOn d (.fulfilled (.str v.text))
    | s => h.passOn d s
  | .size =>
    match s with
    | .fulfilled (.str t) => h.passOn d (.fulfilled (.int t.utf8ByteSize))
    | s => h.passOn d s
  | .fan name i =>
    match s with
    | .fulfilled _ => (h.report (.fanRan name i)).passOn d s
    | s => h.passOn d s
  | .relay => h.passOn d s

def start (h : Host) : Promise.Job Json String Code (List Step) → Host
  | .deliver (.handler code d) s => h.handle d s code
  | .deliver (.adoption p) s => h.passOn p s
  | .deliver (.wake a) s => { h with machine := h.machine.wake a s }
  | .poll a =>
    let (s, m) := h.machine.poll a
    let h := { h with machine := m }
    match s, h.awaits[a]? with
    | some s, some name => h.report (.awaited name s)
    | _, _ => h
  | .task steps => h.push .task steps

/-- One move, if there is anything left to do. -/
def tick (h : Host) : Option Host :=
  match h.stack with
  | (f, s :: rest) :: below => some ({ h with stack := (f, rest) :: below }.step f rest below s)
  | (f, []) :: below => some ({ h with stack := below }.leave f)
  | [] =>
    match h.machine.next? with
    | some (j, m) => some ({ h with machine := m }.start j)
    | none => none

/-- Up to `n` moves. -/
def moves : Nat → Host → Host
  | 0, h => h
  | n + 1, h =>
    match h.tick with
    | some h => moves n h
    | none => h

/-- The script is about to start. -/
def init (script : List Step) : Host where
  machine := .empty
  stack := [(.task, script)]
  values := []
  deferreds := []
  resolvers := []
  awaits := #[]
  entries := []

/-- The names of the awaits that were not answered. -/
def unresolved (h : Host) : List String :=
  (h.awaits.toList.zip h.machine.awaits.toList).filterMap fun e =>
    if e.2.answered then none else some e.1

end Host

/-- What a script did. -/
structure Report where
  entries : List Entry
  /-- Every name with its outcome, if it has one. -/
  final : Dictionary (Option (Settlement Json String))
  unresolved : List String

/-- Runs a script until nothing is left to do. -/
def run (script : List Step) : Report :=
  let h := (Host.init script).moves (1 + weights script)
  { entries := h.entries.reverse
    final := h.values.mapValues h.machine.settlement?
    unresolved := h.unresolved }

end Switchboard.Script
