/-!
# Promises

A promise is fulfilled with a value or rejected with a cause, at most once, some time later.

- `Settlement`: the outcome of a promise; `State`: whether there is one.
- `Resolution`: what a promise can be resolved with: a value, another promise whose outcome it
  takes over, or a foreign object with a `then` of its own.
- `Fault`: the causes that the promises themselves produce; `Cause` embeds them in the causes of
  a program.
-/

namespace Switchboard.Promise

inductive State
  | pending
  | fulfilled
  | rejected
  deriving DecidableEq, Repr

def State.name : State → String
  | pending => "pending"
  | fulfilled => "fulfilled"
  | rejected => "rejected"

inductive Settlement (α ε : Type)
  | fulfilled (value : α)
  | rejected (cause : ε)
  deriving DecidableEq, Repr

def Settlement.state {α ε : Type} : Settlement α ε → State
  | fulfilled _ => .fulfilled
  | rejected _ => .rejected

/-- A promise, a resolver and an await are known by their numbers. -/
abbrev PromiseId := Nat

abbrev ResolverId := Nat

abbrev AwaitId := Nat

/-- What a promise is resolved with; `θ` is the type of foreign objects. -/
inductive Resolution (α θ : Type)
  | value (v : α)
  | promise (p : PromiseId)
  | thenable (t : θ)

/-- Why a promise is rejected by the rules of promises alone. -/
inductive Fault
  /-- It was resolved with itself. -/
  | selfResolution
  /-- Nothing was left that could settle it while someone waited for it. -/
  | abandoned
  deriving DecidableEq, Repr

def Fault.message : Fault → String
  | selfResolution => "an eventual value cannot be resolved with itself"
  | abandoned => "eventual value was dropped before it settled"

def Fault.describe : Fault → String
  | selfResolution => "SelfResolution"
  | abandoned => "Abandoned"

/-- Types of causes with a place for the promises' own. -/
class Cause (ε : Type) where
  ofFault : Fault → ε

instance : Cause String := ⟨Fault.message⟩

end Switchboard.Promise
