import Switchboard.Dictionary
import Switchboard.Text.Ascii
import Switchboard.Text.Quoted
import Switchboard.Json.Basic

/-!
# Header fields

Field names are compared without their case, and the latest spelling of a name replaces the
earlier ones: laying `content-type` over `Content-Type` leaves one entry.

- `Headers`: entries in the order of the names as spelled.
- `insert`: one write; `overlay`: every entry of another set written in its order.
- `get?`: look-up under any spelling.
- `ofPairs`: writes from left to right.
-/

namespace Switchboard.Http

/-- No two names are the same up to case. -/
def Headers.Distinct (entries : Dictionary String) : Prop :=
  entries.Pairwise fun a b => Text.sameName a.1 b.1 = false

/-- Header fields in the order of their names. -/
structure Headers where
  entries : Dictionary String
  ordered : entries.Ordered
  distinct : Headers.Distinct entries
  deriving DecidableEq, Repr

namespace Headers

def empty : Headers := ⟨[], .nil, .nil⟩

instance : Inhabited Headers := ⟨empty⟩

/-- The entries with another name. -/
def others (name : String) (entries : Dictionary String) : Dictionary String :=
  entries.filter fun e => !Text.sameName e.1 name

theorem mem_others {name : String} {entries : Dictionary String} {e : String × String} :
    e ∈ others name entries ↔ e ∈ entries ∧ Text.sameName e.1 name = false := by
  simp [others]

/-- A name meets no spelling of itself among the others. -/
theorem perm_insert_others (name value : String) (entries : Dictionary String) :
    (Dictionary.insert name value (others name entries)).Perm
      ((name, value) :: others name entries) := by
  refine Dictionary.perm_insert (fun e he heq => ?_) value
  have hne := (mem_others.mp he).2
  rw [← heq, Text.sameName_self] at hne
  cases hne

theorem Distinct.insert {entries : Dictionary String} (h : Distinct entries)
    (name value : String) : Distinct (Dictionary.insert name value (others name entries)) := by
  have hfirst : Distinct ((name, value) :: others name entries) := by
    refine List.pairwise_cons.mpr ⟨fun e he => ?_, List.Pairwise.filter _ h⟩
    rw [Text.sameName_comm]
    exact (mem_others.mp he).2
  refine (perm_insert_others name value entries).symm.pairwise hfirst fun hne => ?_
  rwa [Text.sameName_comm]

/-- Entries spelled differently but with the same name go, then the new one is put in place. -/
def insert (h : Headers) (name value : String) : Headers where
  entries := Dictionary.insert name value (others name h.entries)
  ordered := (h.ordered.filter _).insert name value
  distinct := h.distinct.insert name value

def get? (h : Headers) (name : String) : Option String :=
  (List.find? (fun e => Text.sameName e.1 name) h.entries).map (·.2)

def contains (h : Headers) (name : String) : Bool := (h.get? name).isSome

/-- Writes from left to right. -/
def insertAll (h : Headers) (pairs : List (String × String)) : Headers :=
  pairs.foldl (fun h e => h.insert e.1 e.2) h

def ofPairs (pairs : List (String × String)) : Headers := empty.insertAll pairs

/-- Every entry of `other` written over `h`, in the order of `other`. -/
def overlay (h other : Headers) : Headers := h.insertAll other.entries

def size (h : Headers) : Nat := h.entries.length

def isEmpty (h : Headers) : Bool := h.entries.isEmpty

/-- Each value replaced, all written anew. -/
def mapValues (f : String → String) (h : Headers) : Headers :=
  ofPairs (h.entries.map fun e => (e.1, f e.2))

def toJson (h : Headers) : Json := .obj (Dictionary.mapValues .str h.entries)

/-- Why a value is no set of header fields: the first part of the wrong kind. -/
structure WrongKind where
  found : Json
  wanted : Json.Wanted

def textEntries : List (String × Json) → Except WrongKind (List (String × String))
  | [] => .ok []
  | (name, .str value) :: rest => (textEntries rest).map ((name, value) :: ·)
  | (_, j) :: _ => .error ⟨j, .text⟩

/-- Header fields from an object of texts, written in the order of its members. -/
def ofJson : Json → Except WrongKind Headers
  | .obj members => (textEntries members).map ofPairs
  | j => .error ⟨j, .map⟩

def describe (h : Headers) : String :=
  "Headers(" ++ Text.braced (Dictionary.mapValues Text.quoted h.entries) ++ ")"

end Headers

end Switchboard.Http
