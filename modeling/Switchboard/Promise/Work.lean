import Switchboard.Promise.Machine

/-!
# The work that a machine has left

Reactions wait in promises and in the queue, jobs wait in the queue, and awaits wait to be told. All of
this is work. What a reaction is worth is for those who write its handlers to say, since a handler may
register further reactions.

- `Machine.due`, `outstanding`: the reactions in the queue, and all that wait.
- `Machine.work`: the work that is left, when a reaction counts as `effort` says.
-/

namespace Switchboard.Promise

variable {α ε κ τ : Type}

/-- The reactions that a promise holds. -/
def Slot.held : Slot α ε κ → List (Reaction κ)
  | .pending rs => rs
  | .settled _ => []

/-- The delivery that a job makes. -/
def Job.delivery? : Job α ε κ τ → Option (Reaction κ × Settlement α ε)
  | .deliver r x => some (r, x)
  | _ => none

namespace Machine

/-- The deliveries in the queue, the next one first. -/
def due (m : Machine α ε κ τ) : List (Reaction κ × Settlement α ε) :=
  m.queue.filterMap Job.delivery?

/-- All reactions that a promise or the queue holds. -/
def outstanding (m : Machine α ε κ τ) : List (Reaction κ) :=
  m.slots.toList.flatMap Slot.held ++ m.due.map (·.1)

/-- The jobs in the queue that deliver nothing. -/
def idleJobs (m : Machine α ε κ τ) : Nat := m.queue.countP (·.delivery?.isNone)

/-- The awaits that have no outcome yet. -/
def openAwaits (m : Machine α ε κ τ) : Nat := m.awaits.countP (·.outcome.isNone)

/-- What reactions are worth together. -/
def worth (effort : Reaction κ → Nat) (rs : List (Reaction κ)) : Nat :=
  rs.foldr (fun r n => effort r + n) 0

/-- The work that is left. An await without an outcome may still have to look for one. -/
def work (effort : Reaction κ → Nat) (m : Machine α ε κ τ) : Nat :=
  worth effort m.outstanding + m.idleJobs + m.openAwaits

end Machine

end Switchboard.Promise
