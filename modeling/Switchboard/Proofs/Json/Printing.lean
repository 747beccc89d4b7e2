import Switchboard.Proofs.Json.Reading
import Switchboard.Text.Blank

/-!
# What is printed is read

The printer writes what the grammar writes, so a value comes back from its text: every string, however
it has to be escaped, and every integer of 64 bits, with or without a sign. Doubles are not part of
this: their digits are chosen for the value, not for the text.

- `takeWhole_toDigits`: the digits of a number of 64 bits stand for it.
- `Integral`: the values whose numbers are all integers of 64 bits.
- `written_compact`: the printer writes what the grammar writes.
- `read_of_integral`: a value is read from its text.

The reader does not occur in the proof. `written_compact` goes along the value and lands in the grammar,
and from there `read_of_integral` is the theorem about every text of the grammar. The bound on the depth
is that of the reader; the printer has none. Two things are lost on the way and no more, which is what
`normalize` says: the order of the members of an object, and all but the last of those with one name.
-/

namespace Switchboard.Json

variable {n : Nat} {j : Json} {s t : List Char}

/-! ### Digits -/

theorem toNat_digitChar (h : n < 10) : n.digitChar.toNat - '0'.toNat = n :=
  Nat.toNat_digitChar_sub_48_of_lt_ten h

/-- The digits of a number are one digit, or the digits of a tenth of it and one more. -/
theorem toDigits_induction {P : Nat → List Char → Prop} (one : ∀ n < 10, P n [n.digitChar])
    (more : ∀ n, 10 ≤ n → P (n / 10) (Nat.toDigits 10 (n / 10)) →
      P n (Nat.toDigits 10 (n / 10) ++ [(n % 10).digitChar])) (n : Nat) : P n (Nat.toDigits 10 n) := by
  induction n using Nat.strongRecOn with
  | _ n ih =>
    rcases Nat.lt_or_ge n 10 with h | h
    · rw [Nat.toDigits_of_lt_base h]
      exact one n h
    · rw [Nat.toDigits_of_base_le (by decide) h]
      exact more n h (ih _ (Nat.div_lt_self (by omega) (by decide)))

theorem isDigit_toDigits : ∀ c ∈ Nat.toDigits 10 n, Text.isDigit c = true := by
  intro c hc
  have hdigit := Nat.isDigit_of_mem_toDigits (by decide) (by decide) hc
  simpa [Char.isDigit, Text.isDigit, Char.le_def] using hdigit

/-- A number that is not zero does not start with a zero. -/
theorem whole_toDigits (n : Nat) : Whole (Nat.toDigits 10 n) := by
  have hhead : (Nat.toDigits 10 n).head? = some '0' → n = 0 := by
    refine toDigits_induction (P := fun n ds => ds.head? = some '0' → n = 0) ?_ ?_ n
    · intro n hn h
      simpa using h
    · intro n hn ih h
      obtain ⟨d, ds, hds⟩ := List.exists_cons_of_ne_nil (@Nat.toDigits_ne_nil (n / 10) 10)
      rw [hds] at h ih
      have hzero := ih h
      omega
  refine ⟨⟨Nat.toDigits_ne_nil, fun c hc => isDigit_toDigits c hc⟩, fun h => ?_⟩
  obtain rfl := hhead h
  rfl

/-- The digits of a number of 64 bits are taken without a loss. -/
theorem takeWhole_toDigits (h : n ≤ maxUInt64) :
    (Nat.toDigits 10 n).foldl takeWhole (0, 0) = (n, 0) := by
  have hdigit : ∀ m d, d < 10 → 10 * m + d ≤ maxUInt64 →
      takeWhole (m, 0) d.digitChar = (10 * m + d, 0) := by
    intro m d hd hle
    have hvalue : Text.decimalValue [d.digitChar] = d := by
      show 10 * 0 + (d.digitChar.toNat - '0'.toNat) = d
      rw [toNat_digitChar hd, Nat.mul_zero, Nat.zero_add]
    unfold takeWhole
    rw [hvalue]
    simp [hle]
  revert h
  refine toDigits_induction
    (P := fun n ds => n ≤ maxUInt64 → ds.foldl takeWhole (0, 0) = (n, 0)) ?_ ?_ n
  · intro n hn h
    rw [List.foldl_cons, List.foldl_nil, hdigit 0 n hn (by omega), Nat.mul_zero, Nat.zero_add]
  · intro n hn ih h
    rw [List.foldl_append, ih (by omega), List.foldl_cons, List.foldl_nil,
      hdigit (n / 10) (n % 10) (Nat.mod_lt _ (by decide)) (by omega), Nat.div_add_mod]

theorem numberOf_toDigits (h : n ≤ maxUInt64) :
    numberOf false (Nat.toDigits 10 n) none none = .ok (.int n) := by
  unfold numberOf
  rw [takeWhole_toDigits h]
  rfl

theorem numberOf_toDigits_neg (hpos : 0 < n) (h : n ≤ Nat.pow 2 63) :
    numberOf true (Nat.toDigits 10 n) none none = .ok (.int (-n)) := by
  have hmax : n ≤ maxUInt64 := Nat.le_trans h (by decide)
  have hsmall : (decide (n = 0) || decide (Nat.pow 2 63 < n)) = false := by
    rw [decide_eq_false (Nat.ne_of_gt hpos), decide_eq_false (Nat.not_lt.mpr h)]
    rfl
  unfold numberOf
  rw [takeWhole_toDigits hmax]
  dsimp only
  rw [if_neg (Nat.lt_irrefl 0), hsmall]
  rfl

/-- An integer of 64 bits is written as a number. -/
theorem numeral_int {i : Int} (hlow : -(Nat.pow 2 63 : Int) ≤ i) (hhigh : i < Nat.pow 2 64) :
    Numeral (toString i).toList (.int i) := by
  rw [Int.toString_eq_repr, Int.repr_eq_if]
  split
  · rename_i hpos
    obtain ⟨n, rfl⟩ := Int.eq_ofNat_of_zero_le hpos
    have hmax : n ≤ maxUInt64 := by
      have hlt : n < Nat.pow 2 64 := Int.ofNat_lt.mp hhigh
      unfold maxUInt64
      omega
    have hnumeral := Numeral.mk (whole_toDigits n) .none .none (numberOf_toDigits hmax)
    simpa [sign] using hnumeral
  · rename_i hneg
    obtain ⟨n, hn⟩ := Int.eq_ofNat_of_zero_le (show 0 ≤ -i by omega)
    obtain rfl : i = -(n : Int) := by omega
    have hnumeral := Numeral.mk (whole_toDigits n) .none .none
      (numberOf_toDigits_neg (by omega) (Int.ofNat_le.mp (by omega)))
    simpa [sign] using hnumeral

/-! ### Values -/

mutual

/-- All numbers are integers of 64 bits, with or without a sign. -/
def Integral : Json → Prop
  | int i => -(Nat.pow 2 63 : Int) ≤ i ∧ i < Nat.pow 2 64
  | real _ => False
  | arr items => IntegralItems items
  | obj members => IntegralMembers members
  | _ => True

def IntegralItems : List Json → Prop
  | [] => True
  | j :: rest => Integral j ∧ IntegralItems rest

def IntegralMembers : List (String × Json) → Prop
  | [] => True
  | (_, j) :: rest => Integral j ∧ IntegralMembers rest

end

/-- An item goes before others. -/
theorem Written.items_cons {js : List Json} (h : Written (.item j) s) (ht : Written (.items js) t) :
    Written (.items (j :: js)) (s ++ ',' :: t) := by
  refine Written.items_induction (P := fun js t => Written (.items (j :: js)) (s ++ ',' :: t)) ?_ ?_ ht
  · intro i t ht
    exact .nextItem (.firstItem h) ht
  · intro js t i t' hjs ht'
    simpa using Written.nextItem hjs ht'

/-- A member goes before others. -/
theorem Written.members_cons {key : String} {ms : List (String × Json)}
    (h : Written (.member key j) s) (ht : Written (.members ms) t) :
    Written (.members ((key, j) :: ms)) (s ++ ',' :: t) := by
  refine Written.members_induction
    (P := fun ms t => Written (.members ((key, j) :: ms)) (s ++ ',' :: t)) ?_ ?_ ht
  · intro k i t ht
    exact .nextMember (.firstMember h) ht
  · intro ms t k i t' hms ht'
    simpa using Written.nextMember hms ht'

/-- A value stands for itself where no white space is. -/
theorem Written.bare (h : Written (.value j) s) : Written (.item j) s := by
  simpa using Written.item .nil h .nil

theorem Written.bare_member {key : String} (h : Written (.value j) s) :
    Written (.member key j) (quote key ++ ':' :: s) := by
  simpa [quote] using Written.member .nil (spelled_escape key.toList) .nil h.bare

theorem compactItems_cons (j i : Json) (rest : List Json) :
    compactItems (j :: i :: rest) = j.compact ++ ',' :: compactItems (i :: rest) := rfl

theorem compactMembers_cons (key : String) (j : Json) (m : String × Json)
    (rest : List (String × Json)) :
    compactMembers ((key, j) :: m :: rest) =
      quote key ++ ':' :: j.compact ++ ',' :: compactMembers (m :: rest) := by
  rw [compactMembers]
  simp

mutual

/-- **The printer writes what the grammar writes.** -/
theorem written_compact : ∀ j : Json, j.Integral → Written (.value j) j.compact
  | .null, _ => .null
  | .bool true, _ => .yes
  | .bool false, _ => .no
  | .int _, h => .number (numeral_int h.1 h.2)
  | .str x, _ => .string (spelled_escape x.toList)
  | .arr [], _ => .emptyArray .nil
  | .arr (j :: items), h => by
    obtain ⟨s, hs, hitems⟩ := written_compactItems (j :: items) (List.cons_ne_nil _ _) h
    rw [compact, hs]
    exact .array hitems
  | .obj [], _ => .emptyObject .nil
  | .obj (m :: members), h => by
    obtain ⟨s, hs, hmembers⟩ := written_compactMembers (m :: members) (List.cons_ne_nil _ _) h
    rw [compact, hs]
    exact .object hmembers

theorem written_compactItems : ∀ items : List Json, items ≠ [] → IntegralItems items →
    ∃ s, compactItems items = s ++ [']'] ∧ Written (.items items) s
  | [], hne, _ => absurd rfl hne
  | [j], _, h => ⟨j.compact, rfl, .firstItem (written_compact j h.1).bare⟩
  | j :: i :: items, _, h => by
    obtain ⟨s, hs, hitems⟩ := written_compactItems (i :: items) (List.cons_ne_nil _ _) h.2
    refine ⟨j.compact ++ ',' :: s, ?_, (written_compact j h.1).bare.items_cons hitems⟩
    rw [compactItems_cons, hs, List.append_assoc, List.cons_append]

theorem written_compactMembers : ∀ members : List (String × Json), members ≠ [] →
    IntegralMembers members →
    ∃ s, compactMembers members = s ++ ['\x7d'] ∧ Written (.members members) s
  | [], hne, _ => absurd rfl hne
  | [(key, j)], _, h =>
    ⟨quote key ++ ':' :: j.compact, rfl, .firstMember (written_compact j h.1).bare_member⟩
  | (key, j) :: m :: members, _, h => by
    obtain ⟨s, hs, hmembers⟩ := written_compactMembers (m :: members) (List.cons_ne_nil _ _) h.2
    refine ⟨quote key ++ ':' :: j.compact ++ ',' :: s, ?_,
      (written_compact j h.1).bare_member.members_cons hmembers⟩
    simp [compactMembers_cons, hs]

end

/-- The text of a value is a document. -/
theorem isText_text (h : j.Integral) : IsText j.text j := by
  unfold IsText text
  rw [String.toList_ofList]
  exact (written_compact j h).bare

/-- **A value is read from its text.** -/
theorem read_of_integral (h : j.Integral) (hdepth : j.depth ≤ maxDepth) : read j.text = .ok j.normalize := by
  unfold read
  rw [readDocument_eq_ok_iff.mpr ⟨isText_text h, hdepth⟩]
  rfl

/-! ### Blank texts -/

theorem isBlank_of_isDigit {c : Char} (h : Text.isDigit c = true) : Text.isBlank c = false := by
  have hrange : 48 ≤ c.toNat ∧ c.toNat ≤ 57 := by
    simpa [Text.isDigit, Char.le_def, UInt32.le_iff_toNat_le] using h
  simp [Text.isBlank, Text.blankRanges]
  omega

/-- What is written has something to it. -/
theorem exists_not_blank (h : Written (.value j) s) : ∃ c ∈ s, Text.isBlank c = false := by
  cases h with
  | number h =>
    cases h with
    | @mk negative w f e _ _ _ hw _ _ _ =>
      obtain ⟨d, ds, rfl⟩ := List.exists_cons_of_ne_nil hw.1.1
      exact ⟨d, by simp, isBlank_of_isDigit (hw.1.2 d List.mem_cons_self)⟩
  | _ => exact ⟨_, List.mem_cons_self, by decide⟩

/-- What is dropped from a text is blank. -/
theorem exists_mem_dropWhile (h : ∃ c ∈ s, Text.isBlank c = false) :
    ∃ c ∈ s.dropWhile Text.isBlank, Text.isBlank c = false := by
  obtain ⟨c, hc, hblank⟩ := h
  have hne : s.dropWhile Text.isBlank ≠ [] := by
    intro hnil
    have hall := List.dropWhile_eq_nil_iff.mp hnil c hc
    rw [hblank] at hall
    cases hall
  exact ⟨_, List.head_mem hne, List.head_dropWhile_not Text.isBlank hne⟩

/-- A text with something to it is not trimmed away. -/
theorem isEmpty_trim {x : String} (h : ∃ c ∈ x.toList, Text.isBlank c = false) :
    (Text.trim x).isEmpty = false := by
  have hstart : ∃ c ∈ (Text.trimStart x.toList).reverse, Text.isBlank c = false := by
    simpa [Text.trimStart] using exists_mem_dropWhile h
  obtain ⟨c, hc, -⟩ := exists_mem_dropWhile hstart
  have hmem : c ∈ (Text.trim x).toList := by
    simpa [Text.trim, Text.trimEnd] using hc
  refine Bool.eq_false_iff.mpr fun hempty => ?_
  rw [String.isEmpty_iff.mp hempty] at hmem
  cases hmem

end Switchboard.Json
