import Switchboard.Text.Blank
import Switchboard.Text.Quoted
import Switchboard.Text.Search

/-!
# Server addresses

An address is `host[:port]` as it stands in a topology: no scheme, no path, no white space.

- `Address`: a text that passed the checks.
- `AddressError`: what was wrong with one that did not.
- `Address.ofText`: the checks, in their order.
-/

namespace Switchboard

/-- Why a text is no address. -/
inductive AddressError
  | empty
  | scheme (text : String)
  | malformed (text : String)
  deriving DecidableEq, Repr

def AddressError.message : AddressError → String
  | empty => "server address must not be empty"
  | scheme text => "server address " ++ Text.quoted text ++ " must not carry a scheme"
  | malformed text =>
    "server address " ++ Text.quoted text ++ " must be host[:port] without path or whitespace"

namespace Address

/-- A character that ends the authority of a URL, or white space. -/
def forbidden (c : Char) : Bool := c == '/' || c == '?' || c == '#' || Text.isBlank c

/-- What an address must be: not empty, free of `://` and of forbidden characters. -/
def Legal (text : String) : Prop :=
  text.toList ≠ [] ∧ Text.contains [':', '/', '/'] text.toList = false ∧
    text.toList.any forbidden = false

instance (text : String) : Decidable (Legal text) := inferInstanceAs (Decidable (_ ∧ _ ∧ _))

end Address

/-- An address of a server. -/
structure Address where
  text : String
  legal : Address.Legal text

namespace Address

instance : DecidableEq Address := fun a b =>
  decidable_of_iff (a.text = b.text) ⟨fun h => by cases a; cases b; simp_all, fun h => h ▸ rfl⟩

/-- The first rule that is broken decides the error. -/
def ofText (text : String) : Except AddressError Address :=
  if h0 : text.toList = [] then .error .empty
  else if h1 : Text.contains [':', '/', '/'] text.toList = true then .error (.scheme text)
  else if h2 : text.toList.any forbidden = true then .error (.malformed text)
  else .ok ⟨text, h0, Bool.eq_false_iff.2 h1, Bool.eq_false_iff.2 h2⟩

/-- Description with the type's name. -/
def describe (a : Address) : String := "ServerAddress(" ++ Text.quoted a.text ++ ")"

end Address

end Switchboard
