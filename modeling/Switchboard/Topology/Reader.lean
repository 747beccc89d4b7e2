import Switchboard.Json.Token
import Switchboard.Topology.Basic

/-!
# Reading announcements

An announcement is read token by token as a topology, not first as a general value: the first
problem in the text decides, be it one of the format, a value of the wrong kind or an address that
breaks the rules.

- `Topology.Problem`: what was wrong.
- `Topology.Announcement`: the place that was reached.
- `Topology.read`: the topology of a text.
-/

namespace Switchboard.Topology

open Json (Token Fault Wanted)

/-- Why a text is no announcement. -/
inductive Problem
  | format (f : Fault)
  | kind (found : Json) (wanted : Wanted)
  | address (e : AddressError)

/-- The message about what the text says, if its format was in order. -/
def Problem.message? : Problem → Option String
  | format _ => none
  | kind found wanted => some (found.wrongKind wanted)
  | address e => some e.message

/-- The place reached in an announcement. Entries and addresses so far are in reverse. -/
inductive Announcement
  | start
  | firstKey
  | nextKey (entries : List (String × List Address))
  | colon (entries : List (String × List Address)) (service : String)
  | servers (entries : List (String × List Address)) (service : String)
  | firstServer (entries : List (String × List Address)) (service : String)
  | nextServer (entries : List (String × List Address)) (service : String)
      (addresses : List Address)
  | afterServer (entries : List (String × List Address)) (service : String)
      (addresses : List Address)
  | afterEntry (entries : List (String × List Address))
  | done (entries : List (String × List Address))

namespace Announcement

/-- A token that starts something other than what was wanted. A container is found wanting at its
bracket, before what is inside is looked at. -/
def unexpected {α : Type} (wanted : Wanted) : Token → Except Problem α
  | .scalar j => .error (.kind j wanted)
  | .text s => .error (.kind (.str s) wanted)
  | .openArray => .error (.kind (.arr []) wanted)
  | .openObject => .error (.kind (.obj []) wanted)
  | .badText f => .error (.format f)
  | .badScalar f => .error (.format f)
  | _ => .error (.format .malformed)

/-- A token where the name of a service must stand. -/
def stepKey (entries : List (String × List Address)) : Token → Except Problem Announcement
  | .text service => .ok (colon entries service)
  | .badText f => .error (.format f)
  | _ => .error (.format .malformed)

/-- A token where an address must stand. -/
def stepServer (entries : List (String × List Address)) (service : String)
    (addresses : List Address) : Token → Except Problem Announcement
  | .text s =>
    match Address.ofText s with
    | .ok a => .ok (afterServer entries service (a :: addresses))
    | .error e => .error (.address e)
  | t => unexpected .text t

def step (a : Announcement) (t : Token) : Except Problem Announcement :=
  match a, t with
  | start, .openObject => .ok firstKey
  | start, t => unexpected .map t
  | firstKey, .closeObject => .ok (done [])
  | firstKey, t => stepKey [] t
  | nextKey entries, t => stepKey entries t
  | colon entries service, .colon => .ok (servers entries service)
  | colon _ _, _ => .error (.format .malformed)
  | servers entries service, .openArray => .ok (firstServer entries service)
  | servers _ _, t => unexpected .sequence t
  | firstServer entries service, .closeArray => .ok (afterEntry ((service, []) :: entries))
  | firstServer entries service, t => stepServer entries service [] t
  | nextServer entries service addresses, t => stepServer entries service addresses t
  | afterServer entries service addresses, .comma => .ok (nextServer entries service addresses)
  | afterServer entries service addresses, .closeArray =>
    .ok (afterEntry ((service, addresses.reverse) :: entries))
  | afterServer _ _ _, _ => .error (.format .malformed)
  | afterEntry entries, .comma => .ok (nextKey entries)
  | afterEntry entries, .closeObject => .ok (done entries)
  | afterEntry _, _ => .error (.format .malformed)
  | done _, _ => .error (.format .malformed)

/-- The topology, if the text may end here. -/
def finish : Announcement → Except Problem Topology
  | done entries => .ok (.ofEntries entries.reverse)
  | _ => .error (.format .unfinished)

end Announcement

def ofTokens (ts : List Token) : Except Problem Topology := do
  (← ts.foldlM Announcement.step .start).finish

/-- The topology that a text announces. -/
def read (s : String) : Except Problem Topology := ofTokens (Json.scan s.toList)

end Switchboard.Topology
