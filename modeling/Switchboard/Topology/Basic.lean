import Switchboard.Json.Basic
import Switchboard.Json.Printer
import Switchboard.Topology.Address

/-!
# Topologies

Which servers back each service. A topology is replaced as a whole, never merged.

- `Topology`: addresses per service, services in key order.
- `servers`, `firstServer?`: look-up; a service that is not listed has no server.
- `toJson`: the announced form.
-/

namespace Switchboard

/-- The servers of each service, in the order announced. -/
structure Topology where
  services : Dictionary (List Address)
  ordered : services.Ordered
  deriving DecidableEq

namespace Topology

def empty : Topology := ⟨[], .nil⟩

instance : Inhabited Topology := ⟨empty⟩

def servers (t : Topology) (service : String) : List Address :=
  (Dictionary.find? service t.services).getD []

def firstServer? (t : Topology) (service : String) : Option Address := (t.servers service).head?

/-- The first server of a service is the one that is listed first for it. -/
theorem firstServer?_eq_some_iff {t : Topology} {service : String} {server : Address} :
    t.firstServer? service = some server ↔
      ∃ others, (service, server :: others) ∈ t.services := by
  unfold firstServer? servers
  constructor
  · intro h
    obtain ⟨others, hlisted⟩ := List.head?_eq_some_iff.mp h
    rcases hfind : Dictionary.find? service t.services with _ | listed
    · rw [hfind] at hlisted
      cases hlisted
    · rw [hfind, Option.getD_some] at hlisted
      exact ⟨others, hlisted ▸ Dictionary.mem_of_find? hfind⟩
  · rintro ⟨others, hmem⟩
    rw [t.ordered.find?_eq_some_iff.mpr hmem]
    rfl

/-- The number of services. -/
def size (t : Topology) : Nat := t.services.length

def isEmpty (t : Topology) : Bool := t.services.isEmpty

/-- A later entry for a service replaces an earlier one. -/
def ofEntries (entries : List (String × List Address)) : Topology :=
  ⟨Dictionary.ofEntries entries, Dictionary.ordered_ofEntries entries⟩

def addressesToJson (addresses : List Address) : Json :=
  .arr (addresses.map fun a => .str a.text)

/-- An object that maps each service to the array of its addresses. -/
def toJson (t : Topology) : Json := .obj (Dictionary.mapValues addressesToJson t.services)

/-- The announcement of a topology. -/
def text (t : Topology) : String := t.toJson.text

def describe (t : Topology) : String :=
  "Topology(" ++ Text.braced (Dictionary.mapValues
    (fun l => Text.bracketed (l.map Address.describe)) t.services) ++ ")"

end Topology

end Switchboard
