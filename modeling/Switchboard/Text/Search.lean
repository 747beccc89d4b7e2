/-!
# Finding one text in another

- `rest?`: what follows a given start of a text.
- `cut?`: what stands before the first occurrence of a pattern, and what stands after it.
- `cut?_eq_some`: cutting loses nothing.
- `contains_iff`: what is found stands in the text, and the other way round.
-/

namespace Switchboard.Text

variable {α : Type} [BEq α]

/-- The rest of `s` after `pat`, if `s` starts with it. -/
def rest? : (pat s : List α) → Option (List α)
  | [], s => some s
  | _ :: _, [] => none
  | p :: pat, c :: s => if p == c then rest? pat s else none

/-- Goes through `s`, keeping what was passed in reverse. -/
def cutFrom (pat passed : List α) : List α → Option (List α × List α)
  | [] => if pat.isEmpty then some (passed.reverse, []) else none
  | c :: s =>
    match rest? pat (c :: s) with
    | some rest => some (passed.reverse, rest)
    | none => cutFrom pat (c :: passed) s

/-- What stands before the first occurrence of `pat` in `s`, and what stands after it. -/
def cut? (pat s : List α) : Option (List α × List α) := cutFrom pat [] s

def contains (pat s : List α) : Bool := (cut? pat s).isSome

theorem rest?_eq_some [LawfulBEq α] {pat s r : List α} (h : rest? pat s = some r) :
    s = pat ++ r := by
  induction pat generalizing s with
  | nil => simpa [rest?] using h
  | cons p pat ih =>
    cases s with
    | nil => simp [rest?] at h
    | cons c s =>
      simp only [rest?] at h
      split at h
      · next hp => simp [ih h, eq_of_beq hp]
      · simp at h

theorem cutFrom_eq_some [LawfulBEq α] {pat passed s a b : List α}
    (h : cutFrom pat passed s = some (a, b)) : passed.reverse ++ s = a ++ pat ++ b := by
  induction s generalizing passed with
  | nil =>
    simp only [cutFrom] at h
    split at h
    · next hp =>
      simp only [Option.some.injEq, Prod.mk.injEq] at h
      simp [← h.1, ← h.2, List.isEmpty_iff.1 hp]
    · simp at h
  | cons c s ih =>
    simp only [cutFrom] at h
    split at h
    · next hr =>
      simp only [Option.some.injEq, Prod.mk.injEq] at h
      simp [← h.1, ← h.2, rest?_eq_some hr]
    · simpa using ih h

/-- Cutting loses nothing. -/
theorem cut?_eq_some [LawfulBEq α] {pat s a b : List α} (h : cut? pat s = some (a, b)) :
    s = a ++ pat ++ b := by
  simpa using cutFrom_eq_some h

/-- What stands after the pattern is shorter by it. -/
theorem length_cut? [LawfulBEq α] {pat s a b : List α} (h : cut? pat s = some (a, b)) :
    a.length + pat.length + b.length = s.length := by
  rw [cut?_eq_some h]
  simp [Nat.add_assoc]

theorem rest?_append [LawfulBEq α] (pat r : List α) : rest? pat (pat ++ r) = some r := by
  induction pat with
  | nil => rfl
  | cons p pat ih => simp [rest?, ih]

theorem isSome_cutFrom [LawfulBEq α] {pat s : List α} (h : pat <:+: s) (passed : List α) :
    (cutFrom pat passed s).isSome = true := by
  induction s generalizing passed with
  | nil => simp [cutFrom, List.infix_nil.mp h]
  | cons c s ih =>
    simp only [cutFrom]
    cases hr : rest? pat (c :: s) with
    | some r => rfl
    | none =>
      rcases List.infix_cons_iff.mp h with ⟨r, hr'⟩ | hlater
      · rw [← hr', rest?_append] at hr
        cases hr
      · exact ih hlater (c :: passed)

/-- A text contains the patterns that stand in it. -/
theorem contains_iff [LawfulBEq α] {pat s : List α} : contains pat s = true ↔ pat <:+: s := by
  constructor
  · intro h
    obtain ⟨⟨a, b⟩, hcut⟩ := Option.isSome_iff_exists.mp h
    exact ⟨a, b, (cut?_eq_some hcut).symm⟩
  · exact fun h => isSome_cutFrom h []

end Switchboard.Text
