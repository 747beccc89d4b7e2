import Switchboard.Text.Search

/-!
# Environment references

A setting may refer to an environment variable as `${NAME}`.

- `expand`: every reference replaced by the variable's value, by nothing if it is unset.
-/

namespace Switchboard.Settings

/-- The variables that are set. -/
abbrev Environment := String → Option String

def opening : List Char := ['$', '\x7b']

def closing : List Char := ['\x7d']

/-- Goes through the text once, from left to right; what is put in is not looked at again. A
reference without a name stands for itself, and so does one that is not closed, with all that
follows it. -/
def expandChars (env : Environment) (s : List Char) : List Char :=
  match _h : Text.cut? opening s with
  | none => s
  | some (before, after) =>
    match _h' : Text.cut? closing after with
    | none => s
    | some ([], rest) => before ++ opening ++ closing ++ expandChars env rest
    | some (c :: name, rest) =>
      before ++ ((env (String.ofList (c :: name))).getD "").toList ++ expandChars env rest
termination_by s.length
decreasing_by
  all_goals
    have h := Text.length_cut? _h
    have h' := Text.length_cut? _h'
    simp only [opening, closing, List.length_cons, List.length_nil] at h h'
    omega

def expand (env : Environment) (s : String) : String := String.ofList (expandChars env s.toList)

end Switchboard.Settings
