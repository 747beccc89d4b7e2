import Switchboard.Json.Basic
import Switchboard.Promise.Basic

/-!
# Scripts

Finite programs over promises, whose values are JSON and whose causes are texts. A script names
what it creates; handlers, initializers, the bodies of thenables and spawned tasks are lists of
steps again.

- `Step`: one operation.
- `Handler`: what runs when a promise has settled.
- `Input`: what a promise is resolved with.
- `Thenable`: a foreign object with a `then` member.
- `weight`: how many moves of the host a script can cause.
-/

namespace Switchboard.Script

/-- Which handlers a registration has. -/
inductive Registration
  | both
  | onFulfilled
  | onRejected
  deriving DecidableEq, Repr

def Registration.label : Registration → String
  | both => "then"
  | onFulfilled => "and_then"
  | onRejected => "or_else"

mutual

inductive Step
  | log (tag : Json)
  | deferred (name : String)
  /-- Another name for the resolver of a deferred. -/
  | resolver (on name : String)
  /-- A promise whose initializer runs at once, with the resolver under the name given. -/
  | create (name : String) (resolver : Option String) (body : List Step)
  | pending (name : String)
  | fulfilled (name : String) (value : Json)
  | rejected (name : String) (cause : String)
  | resolve (on : String) (input : Input)
  | reject (on cause : String)
  | register (kind : Registration) (on name : String) (ok err : Handler)
  | map (on name : String) (add : Int)
  /-- The size in octets of the compact text of the value, in two registrations. -/
  | measure (on name : String)
  | chain (on name : String) (count : Nat) (add : Int)
  | fan (on name : String) (count : Nat)
  | state (on : String)
  | settlement (on : String)
  | await (on name : String)
  /-- Waits for a promise that nothing else refers to, at the end of `depth` registrations. -/
  | awaitOrphan (name : String) (depth : Nat)
  | isSame (on other : String)
  | debug (on : String)
  | debugInput (on : String) (input : Input)
  | spawn (body : List Step)
  /-- The rest of the list becomes a task of its own. -/
  | turn
  /-- The rest of a list starts after a `turn`. -/
  | resumed
  /-- The state of what was settled is reported. -/
  | report (kind on : String)

inductive Handler
  /-- No handler: the outcome passes through. -/
  | pass
  | run (body : List Step) (outcome : Outcome)

/-- How a handler ends. -/
inductive Outcome
  | throw (cause : String)
  | throwInput
  | answer (input : Input)

/-- What a promise is resolved with, from the input of the handler. -/
inductive Input
  | value (v : Json)
  | wrap (tag : Json)
  | add (n : Int)
  | ref (name : String)
  | thenable (t : Thenable)
  | same

/-- The `then` member of an object: reading it fails, finds something that cannot be called, or
finds something that runs a body with a resolver and may fail after that. -/
inductive Thenable
  | unreadable (label cause : String)
  | plain (label : String) (value : Json)
  | callable (label : String) (resolver : Option String) (body : List Step)
      (thrown : Option String)

end

instance : Inhabited Step := ⟨.turn⟩

instance : Inhabited Handler := ⟨.pass⟩

instance : Inhabited Input := ⟨.same⟩

instance : Inhabited Thenable := ⟨.unreadable "" ""⟩

/-! ### Weight -/

mutual

/-- More than the number of moves that a step can cause, with all that it registers and queues. -/
def Step.weight : Step → Nat
  | .create _ _ body => 2 + weights body
  | .resolve _ input => 3 + input.weight
  | .reject .. => 2
  | .register _ _ _ ok err => 2 + ok.weight + err.weight
  | .map .. => 3
  | .measure .. => 4
  | .chain _ _ count _ => 1 + 2 * count
  | .fan _ _ count => 1 + 2 * count
  | .await .. => 5
  | .awaitOrphan _ depth => 5 + 2 * depth
  | .debugInput _ _ => 1
  | .spawn body => 3 + weights body
  | .turn => 5
  | _ => 1

def weights : List Step → Nat
  | [] => 0
  | s :: rest => s.weight + weights rest

def Handler.weight : Handler → Nat
  | .pass => 0
  | .run body outcome => 2 + weights body + outcome.weight

def Outcome.weight : Outcome → Nat
  | .answer input => input.weight
  | _ => 0

def Input.weight : Input → Nat
  | .ref _ => 2
  | .thenable t => t.weight
  | _ => 0

def Thenable.weight : Thenable → Nat
  | .callable _ _ body _ => 2 + weights body
  | _ => 0

end

end Switchboard.Script
