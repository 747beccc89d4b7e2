import Switchboard.Promise.Basic

/-!
# The promise machine

All promises of a program, their resolvers and the host's queue of jobs. Nothing here runs a
handler: settling a promise, and registering on a settled one, put a job at the end of the queue,
and the host takes jobs from its front one at a time.

- `Machine`: promises, resolvers, awaits and the queue.
- `Machine.settle`: a pending promise takes its outcome; its reactions are queued in the order of
  their registration. A settled one keeps its outcome.
- `Machine.react`: a reaction waits in a pending promise, and is queued at once for a settled one.
- `Machine.resolveValue`, `adopt`: resolution with a value and with another promise.
- `Machine.use?`: a resolver acts the first time it is used and never again.
- `Machine.await`, `wake`, `poll`: waiting for a promise outside of handlers. Who waits looks for the
  outcome right away or in a later job (`lookLater`, `awaitApart`), and once more after a vain look when
  the outcome has come.

`κ` is the type of handlers and `τ` that of the host's own tasks.
-/

namespace Switchboard.Promise

/-- What happens once a promise has settled. -/
inductive Reaction (κ : Type)
  /-- Run a handler; `dependent` is the promise that its result settles. -/
  | handler (code : κ) (dependent : PromiseId)
  /-- Settle `target` likewise. -/
  | adoption (target : PromiseId)
  /-- Tell an await. -/
  | wake (await : AwaitId)

/-- A promise: reactions in the order of registration, or the outcome. -/
inductive Slot (α ε κ : Type)
  | pending (reactions : List (Reaction κ))
  | settled (s : Settlement α ε)

/-- The right to resolve or reject a promise, once. -/
structure Resolver where
  target : PromiseId
  used : Bool

/-- Someone waits for a promise. -/
structure Await (α ε : Type) where
  outcome : Option (Settlement α ε)
  /-- The waiter looked for the outcome when there was none. -/
  polled : Bool
  answered : Bool

inductive Job (α ε κ τ : Type)
  | deliver (r : Reaction κ) (s : Settlement α ε)
  /-- A waiter looks for its outcome. -/
  | poll (a : AwaitId)
  | task (t : τ)

structure Machine (α ε κ τ : Type) where
  slots : Array (Slot α ε κ)
  resolvers : Array Resolver
  awaits : Array (Await α ε)
  /-- The jobs to run, the next one first. -/
  queue : List (Job α ε κ τ)

namespace Machine

variable {α ε κ τ : Type}

def empty : Machine α ε κ τ := ⟨#[], #[], #[], []⟩

instance : Inhabited (Machine α ε κ τ) := ⟨empty⟩

def settlement? (m : Machine α ε κ τ) (p : PromiseId) : Option (Settlement α ε) :=
  match m.slots[p]? with
  | some (.settled s) => some s
  | _ => none

def state (m : Machine α ε κ τ) (p : PromiseId) : State :=
  match m.settlement? p with
  | some s => s.state
  | none => .pending

/-- The reactions that a pending promise holds. -/
def reactions (m : Machine α ε κ τ) (p : PromiseId) : List (Reaction κ) :=
  match m.slots[p]? with
  | some (.pending rs) => rs
  | _ => []

/-- Puts a job at the end of the queue. -/
def enqueue (m : Machine α ε κ τ) (j : Job α ε κ τ) : Machine α ε κ τ :=
  { m with queue := m.queue ++ [j] }

/-! ### Promises -/

/-- A new pending promise. -/
def create (m : Machine α ε κ τ) : PromiseId × Machine α ε κ τ :=
  (m.slots.size, { m with slots := m.slots.push (.pending []) })

/-- A pending promise takes its outcome and its reactions become jobs. -/
def settle (m : Machine α ε κ τ) (p : PromiseId) (s : Settlement α ε) : Machine α ε κ τ :=
  match m.slots[p]? with
  | some (.pending rs) =>
    { m with
      slots := m.slots.setIfInBounds p (.settled s)
      queue := m.queue ++ rs.map (Job.deliver · s) }
  | _ => m

/-- A reaction waits in the promise or, if that is settled, becomes a job. -/
def react (m : Machine α ε κ τ) (p : PromiseId) (r : Reaction κ) : Machine α ε κ τ :=
  match m.slots[p]? with
  | some (.pending rs) => { m with slots := m.slots.setIfInBounds p (.pending (rs ++ [r])) }
  | some (.settled s) => m.enqueue (.deliver r s)
  | none => m

/-- Registers a handler; the promise returned is the one that its result settles. -/
def register (m : Machine α ε κ τ) (p : PromiseId) (code : κ) : PromiseId × Machine α ε κ τ :=
  let (d, m) := m.create
  (d, m.react p (.handler code d))

def resolveValue (m : Machine α ε κ τ) (p : PromiseId) (v : α) : Machine α ε κ τ :=
  m.settle p (.fulfilled v)

def reject (m : Machine α ε κ τ) (p : PromiseId) (cause : ε) : Machine α ε κ τ :=
  m.settle p (.rejected cause)

/-- `p` takes over the outcome of `q`: at once if there is one, in a later job otherwise. A promise
cannot wait for itself. -/
def adopt [Cause ε] (m : Machine α ε κ τ) (p q : PromiseId) : Machine α ε κ τ :=
  if p = q then m.reject p (Cause.ofFault .selfResolution)
  else match m.settlement? q with
    | some s => m.settle p s
    | none => m.react q (.adoption p)

/-! ### Resolvers -/

/-- A new resolver for a promise. -/
def openResolver (m : Machine α ε κ τ) (p : PromiseId) : ResolverId × Machine α ε κ τ :=
  (m.resolvers.size, { m with resolvers := m.resolvers.push ⟨p, false⟩ })

/-- A new pending promise with a resolver. -/
def defer (m : Machine α ε κ τ) : PromiseId × ResolverId × Machine α ε κ τ :=
  let (p, m) := m.create
  let (r, m) := m.openResolver p
  (p, r, m)

def target? (m : Machine α ε κ τ) (r : ResolverId) : Option PromiseId :=
  (m.resolvers[r]?).map (·.target)

def used (m : Machine α ε κ τ) (r : ResolverId) : Bool :=
  ((m.resolvers[r]?).map (·.used)).getD true

/-- The target of a resolver that was not used before; now it is. -/
def use? (m : Machine α ε κ τ) (r : ResolverId) : Option (PromiseId × Machine α ε κ τ) :=
  match m.resolvers[r]? with
  | some ⟨p, false⟩ => some (p, { m with resolvers := m.resolvers.setIfInBounds r ⟨p, true⟩ })
  | _ => none

/-! ### Awaits -/

/-- Someone starts to wait: a reaction on the promise. The first look for the outcome is up to the
waiter, who may take it at once. -/
def await (m : Machine α ε κ τ) (p : PromiseId) : AwaitId × Machine α ε κ τ :=
  let a := m.awaits.size
  (a, { m with awaits := m.awaits.push ⟨none, false, false⟩ }.react p (.wake a))

/-- Someone will look for the outcome in a job. -/
def lookLater (m : Machine α ε κ τ) (a : AwaitId) : Machine α ε κ τ := m.enqueue (.poll a)

/-- Someone starts to wait in a job of its own, in which the first look is taken. -/
def awaitApart (m : Machine α ε κ τ) (p : PromiseId) : AwaitId × Machine α ε κ τ :=
  let (a, m) := m.await p
  (a, m.lookLater a)

/-- The outcome reaches an await, which looks again if it looked too early. -/
def wake (m : Machine α ε κ τ) (a : AwaitId) (s : Settlement α ε) : Machine α ε κ τ :=
  match m.awaits[a]? with
  | some ⟨none, polled, answered⟩ =>
    let m := { m with awaits := m.awaits.setIfInBounds a ⟨some s, polled, answered⟩ }
    if polled then m.enqueue (.poll a) else m
  | _ => m

/-- An await looks for its outcome, which answers it. -/
def poll (m : Machine α ε κ τ) (a : AwaitId) : Option (Settlement α ε) × Machine α ε κ τ :=
  match m.awaits[a]? with
  | some ⟨some s, polled, false⟩ =>
    (some s, { m with awaits := m.awaits.setIfInBounds a ⟨some s, polled, true⟩ })
  | some ⟨none, _, answered⟩ =>
    (none, { m with awaits := m.awaits.setIfInBounds a ⟨none, true, answered⟩ })
  | _ => (none, m)

/-- The awaits that only the settlement of `p` could still answer, through at most `fuel`
promises. -/
def waitersOf (m : Machine α ε κ τ) : Nat → PromiseId → List AwaitId
  | 0, _ => []
  | fuel + 1, p => (m.reactions p).flatMap fun
    | .handler _ d => m.waitersOf fuel d
    | .adoption t => m.waitersOf fuel t
    | .wake a => [a]

/-- The last thing that could settle `p` is gone: those who wait for it learn that. -/
def abandon [Cause ε] (m : Machine α ε κ τ) (p : PromiseId) : Machine α ε κ τ :=
  (m.waitersOf m.slots.size p).foldl
    (fun m a => m.wake a (.rejected (Cause.ofFault .abandoned))) m

/-- The next job, taken from the queue. -/
def next? (m : Machine α ε κ τ) : Option (Job α ε κ τ × Machine α ε κ τ) :=
  match m.queue with
  | [] => none
  | j :: rest => some (j, { m with queue := rest })

end Machine

end Switchboard.Promise
