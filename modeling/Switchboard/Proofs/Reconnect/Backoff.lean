import Switchboard.Reconnect.Backoff
import Mathlib.Data.List.Induction

/-!
# The history of a reconnect state

A reconnect state counts, and keeps a delay that the server named. Both are read off the operations
that were performed on it, whatever those are and in whatever order.

- `Operation`: what is done to a reconnect state; `perform`, `returns`.
- `sinceReset`, `latestServerDelay`: what a history of operations comes to.
- `foldl_perform_new`: the state is that history.
- `returns_next`: each delay follows from the operations before it.
-/

namespace Switchboard.Backoff

open Number (Magnitude)

/-- What is done to a reconnect state. -/
inductive Operation
  | next (fields : ResponseFields) (draw : Magnitude)
  | reset
  | setServerDelay (d : Duration)

namespace Operation

def isNext : Operation → Bool
  | next .. => true
  | _ => false

def isReset : Operation → Bool
  | reset => true
  | _ => false

def serverDelay? : Operation → Option Duration
  | setServerDelay d => some d
  | _ => none

end Operation

/-- The state after an operation. -/
def perform (b : Backoff) : Operation → Backoff
  | .next fields draw => (b.next fields draw).2
  | .reset => b.reset
  | .setServerDelay d => b.setServerDelay d

/-- The delay that an operation returns, if it returns one. -/
def returned? (b : Backoff) : Operation → Option Duration
  | .next fields draw => some (b.next fields draw).1
  | _ => none

/-- What operations return that are performed one after the other. -/
def returns (b : Backoff) : List Operation → List (Option Duration)
  | [] => []
  | op :: ops => b.returned? op :: (b.perform op).returns ops

/-- How many delays were asked for since the latest reset, or since the beginning. -/
def sinceReset (past : List Operation) : Nat :=
  (past.reverse.takeWhile fun op => !op.isReset).countP Operation.isNext

/-- The delay that the server named last. -/
def latestServerDelay (past : List Operation) : Option Duration :=
  (past.filterMap Operation.serverDelay?).getLast?

/-- The delay before the next attempt when `n` delays were asked for since the latest reset and the
server has named `base`: the one that the fields ask for, or else the computed one. -/
def delayAfter (config : Config) (n : Nat) (base : Option Duration) (fields : ResponseFields)
    (draw : Magnitude) : Duration :=
  (RetryAfter.delay? fields).getD (reconnectDelay (min n maxStep) config base draw)

variable {config : Config} {b : Backoff} {past ops : List Operation} {fields : ResponseFields}
  {draw : Magnitude} {d : Duration}

theorem sinceReset_concat (past : List Operation) (op : Operation) :
    sinceReset (past ++ [op]) = if op.isReset then 0 else sinceReset past + op.isNext.toNat := by
  simp only [sinceReset, List.reverse_append, List.reverse_singleton, List.singleton_append,
    List.takeWhile_cons]
  cases op <;> simp [Operation.isReset, Operation.isNext, List.countP_cons]

theorem latestServerDelay_append (past ops : List Operation) :
    latestServerDelay (past ++ ops) = (latestServerDelay ops).or (latestServerDelay past) := by
  rw [latestServerDelay, List.filterMap_append, List.getLast?_append]
  rfl

/-- The state is the history: counted up to its limit since the latest reset, and with the latest
delay of the server, which no reset clears. The induction is on the operations from the latest
one. -/
theorem foldl_perform_new (config : Config) (past : List Operation) :
    past.foldl perform (new config) =
      ⟨config, min (sinceReset past) maxStep, latestServerDelay past⟩ := by
  induction past using List.reverseRecOn with
  | nil => rfl
  | append_singleton past op ih =>
    rw [List.foldl_append, ih, latestServerDelay_append, sinceReset_concat]
    cases op with
    | next fields draw =>
      have hstep : min (min (sinceReset past) maxStep + 1) maxStep =
          min (sinceReset past + 1) maxStep := by omega
      show (⟨config, min (min (sinceReset past) maxStep + 1) maxStep, _⟩ : Backoff) = _
      rw [hstep]
      rfl
    | reset => rfl
    | setServerDelay d => rfl

/-- What an operation returns depends on the state that those before it have left. -/
theorem getElem?_returns (b : Backoff) (ops : List Operation) (k : Nat) :
    (b.returns ops)[k]? = ops[k]?.map ((ops.take k).foldl perform b).returned? := by
  induction ops generalizing b k with
  | nil => rfl
  | cons op ops ih =>
    cases k with
    | zero => rfl
    | succ k => simpa [returns] using ih (b.perform op) k

/-- Asking for a delay is one more operation. -/
theorem snd_next_foldl_perform (b : Backoff) (past : List Operation) (fields : ResponseFields)
    (draw : Magnitude) :
    ((past.foldl perform b).next fields draw).2 =
      (past ++ [Operation.next fields draw]).foldl perform b := by
  rw [List.foldl_append]
  rfl

/-- A delay follows from the operations before it. -/
theorem next_foldl_perform (config : Config) (past : List Operation) (fields : ResponseFields)
    (draw : Magnitude) :
    ((past.foldl perform (new config)).next fields draw).1 =
      delayAfter config (sinceReset past) (latestServerDelay past) fields draw := by
  rw [foldl_perform_new]
  rfl

/-- **Each delay follows from the operations before it.** -/
theorem returns_next (h : ops[k]? = some (.next fields draw)) :
    ((new config).returns ops)[k]? =
      some (some (delayAfter config (sinceReset (ops.take k)) (latestServerDelay (ops.take k)) fields
        draw)) := by
  rw [getElem?_returns, h, ← next_foldl_perform]
  rfl

end Switchboard.Backoff
