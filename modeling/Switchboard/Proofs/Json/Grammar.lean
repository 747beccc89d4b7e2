import Switchboard.Json.Token

/-!
# The grammar of JSON

The texts of documents, said without a reader: what may be written, and for what it stands. Nothing here
knows in which order a text is looked at, or where a reader gives up.

- `Spelling`, `Spelled`: a character of a string, and a run of them, as they may be written.
- `Numeral`: a number; `numberOf` says for which value its digits stand.
- `Written`: values, the items of an array and the members of an object.
- `IsText`: a whole text, which is one value with white space around it.
- `depth`: how deep arrays and objects nest.
-/

namespace Switchboard.Json

/-- White space, or nothing. -/
def Spaces (s : List Char) : Prop := ∀ c ∈ s, isSpace c = true

/-! ### Strings -/

/-- The escapes of one letter, with the characters that they stand for. -/
def letters : List (Char × Char) :=
  [('"', '"'), ('\\', '\\'), ('/', '/'), ('b', '\x08'), ('f', '\x0c'), ('n', '\n'), ('r', '\r'),
    ('t', '\t')]

/-- The number that hexadecimal digits stand for, the most significant first. -/
def hexNumber? (s : List Char) : Option Nat :=
  s.foldlM (fun n c => (Text.hexValue? c).map (16 * n + ·)) 0

/-- Four hexadecimal digits of either case. -/
def Hex4 (s : List Char) (n : Nat) : Prop := s.length = 4 ∧ hexNumber? s = some n

/-- How a character of a string may be written: as itself, by a letter, by its number, or by the two
halves of a surrogate pair. A half alone is no character. -/
inductive Spelling : List Char → Char → Prop
  | plain {c} (hcontrol : 0x20 ≤ c.toNat) (hquote : c ≠ '"') (hbackslash : c ≠ '\\') :
      Spelling [c] c
  | letter {x c} (h : (x, c) ∈ letters) : Spelling ['\\', x] c
  | number {s n} (hs : Hex4 s n) (h : n < 0xD800 ∨ 0xDFFF < n) :
      Spelling ('\\' :: 'u' :: s) (Char.ofNat n)
  | pair {s s' n n'} (hs : Hex4 s n) (h : 0xD800 ≤ n ∧ n ≤ 0xDBFF) (hs' : Hex4 s' n')
      (h' : 0xDC00 ≤ n' ∧ n' ≤ 0xDFFF) :
      Spelling ('\\' :: 'u' :: s ++ '\\' :: 'u' :: s')
        (Char.ofNat ((n - 0xD800) * 0x400 + (n' - 0xDC00) + 0x10000))

/-- A text between quotes, and the characters that it stands for. -/
inductive Spelled : List Char → List Char → Prop
  | nil : Spelled [] []
  | cons {w s c cs} (hw : Spelling w c) (hs : Spelled s cs) : Spelled (w ++ s) (c :: cs)

/-! ### Numbers -/

def Digits (s : List Char) : Prop := s ≠ [] ∧ ∀ c ∈ s, Text.isDigit c = true

/-- Digits without a leading zero. -/
def Whole (s : List Char) : Prop := Digits s ∧ (s.head? = some '0' → s.length = 1)

inductive Fraction : List Char → Option (List Char) → Prop
  | none : Fraction [] none
  | some {ds} (hds : Digits ds) : Fraction ('.' :: ds) (some ds)

/-- The letter of an exponent, a sign or none, and digits. -/
inductive Power : List Char → Option Int → Prop
  | none : Power [] none
  | bare {e ds} (he : e = 'e' ∨ e = 'E') (hds : Digits ds) :
      Power (e :: ds) (some (Text.decimalValue ds))
  | plus {e ds} (he : e = 'e' ∨ e = 'E') (hds : Digits ds) :
      Power (e :: '+' :: ds) (some (Text.decimalValue ds))
  | minus {e ds} (he : e = 'e' ∨ e = 'E') (hds : Digits ds) :
      Power (e :: '-' :: ds) (some (-Text.decimalValue ds))

/-- The sign of a number. -/
def sign (negative : Bool) : List Char := if negative then ['-'] else []

/-- A number whose value can be represented. -/
inductive Numeral : List Char → Json → Prop
  | mk {negative w f e fraction power j} (hw : Whole w) (hf : Fraction f fraction)
      (he : Power e power) (hj : numberOf negative w fraction power = .ok j) :
      Numeral (sign negative ++ (w ++ (f ++ e))) j

/-! ### Values -/

/-- What a piece of text stands for: a value, the same with white space around it, the items of an
array, a member of an object, or its members. -/
inductive Phrase
  | value (j : Json)
  | item (j : Json)
  | items (js : List Json)
  | member (key : String) (j : Json)
  | members (ms : List (String × Json))

inductive Written : Phrase → List Char → Prop
  | null : Written (.value .null) ['n', 'u', 'l', 'l']
  | yes : Written (.value (.bool true)) ['t', 'r', 'u', 'e']
  | no : Written (.value (.bool false)) ['f', 'a', 'l', 's', 'e']
  | number {s j} (h : Numeral s j) : Written (.value j) s
  | string {s x} (h : Spelled s x.toList) : Written (.value (.str x)) ('"' :: (s ++ ['"']))
  | emptyArray {w} (hw : Spaces w) : Written (.value (.arr [])) ('[' :: (w ++ [']']))
  | array {s js} (h : Written (.items js) s) : Written (.value (.arr js)) ('[' :: (s ++ [']']))
  | emptyObject {w} (hw : Spaces w) :
      Written (.value (.obj [])) ('\x7b' :: (w ++ ['\x7d']))
  | object {s ms} (h : Written (.members ms) s) :
      Written (.value (.obj ms)) ('\x7b' :: (s ++ ['\x7d']))
  | item {w s w' j} (hw : Spaces w) (h : Written (.value j) s) (hw' : Spaces w') :
      Written (.item j) (w ++ (s ++ w'))
  | firstItem {s j} (h : Written (.item j) s) : Written (.items [j]) s
  | nextItem {t s js j} (ht : Written (.items js) t) (h : Written (.item j) s) :
      Written (.items (js ++ [j])) (t ++ ',' :: s)
  | member {w k key w' s j} (hw : Spaces w) (hk : Spelled k key.toList) (hw' : Spaces w')
      (h : Written (.item j) s) :
      Written (.member key j) (w ++ '"' :: (k ++ '"' :: (w' ++ ':' :: s)))
  | firstMember {s key j} (h : Written (.member key j) s) : Written (.members [(key, j)]) s
  | nextMember {t s ms key j} (ht : Written (.members ms) t) (h : Written (.member key j) s) :
      Written (.members (ms ++ [(key, j)])) (t ++ ',' :: s)

/-- The whole text `s` is the document `j`. -/
def IsText (s : String) (j : Json) : Prop := Written (.item j) s.toList

/-! ### Depth -/

mutual

/-- How deep arrays and objects nest. -/
def depth : Json → Nat
  | arr items => depthItems items + 1
  | obj members => depthMembers members + 1
  | _ => 0

def depthItems : List Json → Nat
  | [] => 0
  | j :: rest => max (depth j) (depthItems rest)

def depthMembers : List (String × Json) → Nat
  | [] => 0
  | (_, j) :: rest => max (depth j) (depthMembers rest)

end

/-! ### White space -/

theorem Spaces.nil : Spaces [] := fun _ h => by cases h

theorem Spaces.append {s t : List Char} (hs : Spaces s) (ht : Spaces t) : Spaces (s ++ t) := by
  intro c hc
  exact (List.mem_append.mp hc).elim (hs c) (ht c)

theorem Spaces.concat {s : List Char} {c : Char} (hs : Spaces s) (hc : isSpace c = true) :
    Spaces (s ++ [c]) :=
  hs.append fun _ hx => List.mem_singleton.mp hx ▸ hc

/-- White space may follow an item. -/
theorem Written.item_space {s : List Char} {j : Json} {c : Char} (h : Written (.item j) s)
    (hc : isSpace c = true) : Written (.item j) (s ++ [c]) := by
  cases h with
  | item hw h hw' =>
    rw [List.append_assoc, List.append_assoc]
    exact .item hw h (hw'.concat hc)

theorem Written.items_space {s : List Char} {js : List Json} {c : Char}
    (h : Written (.items js) s) (hc : isSpace c = true) : Written (.items js) (s ++ [c]) := by
  cases h with
  | firstItem h => exact .firstItem (h.item_space hc)
  | nextItem ht h =>
    rw [List.append_assoc]
    exact .nextItem ht (h.item_space hc)

theorem Written.member_space {s : List Char} {key : String} {j : Json} {c : Char}
    (h : Written (.member key j) s) (hc : isSpace c = true) :
    Written (.member key j) (s ++ [c]) := by
  cases h with
  | member hw hk hw' h => simpa using Written.member hw hk hw' (h.item_space hc)

theorem Written.members_space {s : List Char} {ms : List (String × Json)} {c : Char}
    (h : Written (.members ms) s) (hc : isSpace c = true) : Written (.members ms) (s ++ [c]) := by
  cases h with
  | firstMember h => exact .firstMember (h.member_space hc)
  | nextMember ht h =>
    rw [List.append_assoc]
    exact .nextMember ht (h.member_space hc)

/-! ### Induction over what is in a container -/

/-- The items of an array are one item, or some items and one more. -/
theorem Written.items_induction {P : List Json → List Char → Prop}
    (first : ∀ {j s}, Written (.item j) s → P [j] s)
    (next : ∀ {js t j s}, P js t → Written (.item j) s → P (js ++ [j]) (t ++ ',' :: s))
    {js : List Json} {s : List Char} (h : Written (.items js) s) : P js s := by
  generalize hp : Phrase.items js = p at h
  induction h generalizing js with
  | firstItem h =>
    cases hp
    exact first h
  | nextItem _ h ih =>
    cases hp
    exact next (ih rfl) h
  | _ => cases hp

/-- The members of an object are one member, or some members and one more. -/
theorem Written.members_induction {P : List (String × Json) → List Char → Prop}
    (first : ∀ {key j s}, Written (.member key j) s → P [(key, j)] s)
    (next : ∀ {ms t key j s}, P ms t → Written (.member key j) s →
      P (ms ++ [(key, j)]) (t ++ ',' :: s))
    {ms : List (String × Json)} {s : List Char} (h : Written (.members ms) s) : P ms s := by
  generalize hp : Phrase.members ms = p at h
  induction h generalizing ms with
  | firstMember h =>
    cases hp
    exact first h
  | nextMember _ h ih =>
    cases hp
    exact next (ih rfl) h
  | _ => cases hp

end Switchboard.Json
