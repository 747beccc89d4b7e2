import Switchboard.Proofs.Json.Printing
import Switchboard.Proofs.Topology.Format

/-!
# A topology is what it announces

The announcement of a topology is read as that topology, whatever its services are called: what the
printer makes of it is what the grammar writes, and what the grammar writes is read.

- `integral_toJson`: there are no numbers in an announcement.
- `reads_toJson`: it is read to its end.
- `read_text`: the whole.
-/

namespace Switchboard

namespace Topology

open Json (Passes)

theorem integral_addressesToJson (bs : List Address) : (addressesToJson bs).Integral := by
  show Json.IntegralItems _
  induction bs with
  | nil => trivial
  | cons b bs ih => exact ⟨trivial, ih⟩

/-- There are no numbers in an announcement. -/
theorem integral_toJson (t : Topology) : t.toJson.Integral := by
  show Json.IntegralMembers (t.services.map member)
  induction t.services with
  | nil => trivial
  | cons e es ih => exact ⟨integral_addressesToJson e.2, ih⟩

/-- What is announced is read to its end. -/
theorem reads_toJson (t : Topology) :
    Passes Announcement.step .start t.toJson.compact (.done t.services.reverse) :=
  Announcement.passes_object t.services (Json.written_compact t.toJson t.integral_toJson)

/-- **A topology is read back from its announcement**, with the same services and the same addresses in
the same order, whatever characters the names of the services and the addresses are made of. -/
theorem read_text (t : Topology) : Topology.read t.text = .ok t := by
  have htokens : Topology.read t.text =
      (Announcement.done t.services.reverse).finish := by
    unfold Topology.read ofTokens text Json.text
    rw [String.toList_ofList, t.reads_toJson.foldlM_eq]
    rfl
  have hservices : Dictionary.ofEntries t.services.reverse.reverse = t.services := by
    rw [List.reverse_reverse, t.ordered.ofEntries_eq]
  have hsame : Topology.ofEntries t.services.reverse.reverse = t := by
    obtain ⟨services, ordered⟩ := t
    exact (Topology.mk.injEq ..).mpr hservices
  rw [htokens]
  exact congrArg _ hsame

end Topology

end Switchboard
