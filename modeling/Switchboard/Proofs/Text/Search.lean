import Mathlib.Data.List.Infix
import Switchboard.Text.Search

/-!
# The first occurrence of a pattern

A text is cut at a pattern where the pattern first stands complete. What stands before the cut has no
occurrence in it, nor one that only the end of the pattern completes: this is what
`¬ pat <:+: a ++ pat.dropLast` says, and with `pat` in place of `pat.dropLast` it would be false of
every cut.

- `cut?_cons`: the cut of a text by its first element.
- `cut?_eq_some_iff`: a cut is the one way to write the text with no earlier occurrence.
- `cut?_eq_none_iff`: texts without a cut.
- `cut?_singleton_iff`: patterns of one element.

The program goes through the text once and carries what it has passed, in reverse. `cutFrom_eq_map`
takes that out of the recursion, so that the inductions below are over the text alone.
-/

namespace Switchboard.Text

variable {α : Type} {pat s a b : List α} {c x : α}

/-- A pattern that stands before its own last element stands in a longer text as well. -/
theorem prefix_dropLast_iff (hpat : pat ≠ []) (b : List α) :
    pat <+: c :: a ++ pat.dropLast ↔ pat <+: c :: a ++ pat ++ b := by
  have hwhole : pat.dropLast ++ [pat.getLast hpat] = pat := List.dropLast_append_getLast hpat
  have hsplit : c :: a ++ pat ++ b = (c :: a ++ pat.dropLast) ++ ([pat.getLast hpat] ++ b) := by
    conv_lhs => rw [← hwhole]
    simp
  rw [hsplit]
  constructor
  · exact fun h => h.trans (List.prefix_append _ _)
  · intro h
    refine List.prefix_of_prefix_length_le h (List.prefix_append _ _) ?_
    simp only [List.length_append, List.length_cons, List.length_dropLast]
    omega

/-- A pattern does not fit into less than itself. -/
theorem not_infix_dropLast (hpat : pat ≠ []) : ¬ pat <:+: pat.dropLast := by
  intro hin
  have hle := hin.length_le
  have hpos := List.length_pos_iff.mpr hpat
  rw [List.length_dropLast] at hle
  omega

variable [BEq α]

/-- What was passed goes before the cut. -/
theorem cutFrom_eq_map (pat passed s : List α) :
    cutFrom pat passed s = (cut? pat s).map fun p => (passed.reverse ++ p.1, p.2) := by
  induction s generalizing passed with
  | nil =>
    unfold cut? cutFrom
    split <;> simp
  | cons c s ih =>
    unfold cut?
    simp only [cutFrom]
    cases rest? pat (c :: s) with
    | some r => simp
    | none =>
      dsimp only
      rw [ih, ih [c], Option.map_map]
      congr 1
      funext p
      simp

/-- A text is cut at its start, or its first element is passed. -/
theorem cut?_cons (pat : List α) (c : α) (s : List α) : cut? pat (c :: s) =
    match rest? pat (c :: s) with
    | some rest => some ([], rest)
    | none => (cut? pat s).map fun p => (c :: p.1, p.2) := by
  unfold cut?
  simp only [cutFrom]
  cases rest? pat (c :: s) with
  | some rest => rfl
  | none =>
    dsimp only
    rw [cutFrom_eq_map]
    rfl

variable [LawfulBEq α]

theorem rest?_eq_none_iff : rest? pat s = none ↔ ¬ pat <+: s := by
  constructor
  · rintro h ⟨r, rfl⟩
    rw [rest?_append] at h
    cases h
  · intro h
    rcases hr : rest? pat s with _ | r
    · rfl
    · exact absurd ⟨r, (rest?_eq_some hr).symm⟩ h

/-- There is no occurrence before a cut. -/
theorem not_infix_of_cut? (hpat : pat ≠ []) (h : cut? pat s = some (a, b)) :
    ¬ pat <:+: a ++ pat.dropLast := by
  induction s generalizing a with
  | nil =>
    have hnil := cut?_eq_some h
    simp [hpat] at hnil
  | cons c s ih =>
    rw [cut?_cons] at h
    cases hr : rest? pat (c :: s) with
    | some r =>
      rw [hr] at h
      obtain ⟨rfl, -⟩ := Prod.mk.inj (Option.some.inj h)
      exact not_infix_dropLast hpat
    | none =>
      rw [hr] at h
      obtain ⟨⟨a', b'⟩, hcut, heq⟩ := Option.map_eq_some_iff.mp h
      obtain ⟨rfl, rfl⟩ := Prod.mk.inj heq
      -- An occurrence starts at the first element, which was tried and left, or later.
      intro hin
      rcases List.infix_cons_iff.mp hin with hfirst | hlater
      · refine rest?_eq_none_iff.mp hr ?_
        rw [cut?_eq_some hcut]
        exact (prefix_dropLast_iff hpat b').mp hfirst
      · exact ih hcut hlater

/-- The first occurrence is found. -/
theorem cut?_append (hpat : pat ≠ []) (h : ¬ pat <:+: a ++ pat.dropLast) (b : List α) :
    cut? pat (a ++ pat ++ b) = some (a, b) := by
  induction a with
  | nil =>
    obtain ⟨p, ps, rfl⟩ := List.exists_cons_of_ne_nil hpat
    have hrest : rest? (p :: ps) (p :: (ps ++ b)) = some b := rest?_append (p :: ps) b
    show cut? (p :: ps) (p :: (ps ++ b)) = _
    rw [cut?_cons, hrest]
  | cons c a ih =>
    have hnone : rest? pat (c :: (a ++ pat ++ b)) = none := by
      refine rest?_eq_none_iff.mpr fun hin => h ?_
      exact ((prefix_dropLast_iff hpat b).mpr hin).isInfix
    show cut? pat (c :: (a ++ pat ++ b)) = _
    rw [cut?_cons, hnone, ih fun hin => h (List.infix_cons hin)]
    rfl

/-- **A cut is made at the first occurrence.** -/
theorem cut?_eq_some_iff (hpat : pat ≠ []) :
    cut? pat s = some (a, b) ↔ s = a ++ pat ++ b ∧ ¬ pat <:+: a ++ pat.dropLast := by
  constructor
  · exact fun h => ⟨cut?_eq_some h, not_infix_of_cut? hpat h⟩
  · rintro ⟨rfl, h⟩
    exact cut?_append hpat h b

/-- A text without a cut has no occurrence of the pattern. -/
theorem cut?_eq_none_iff : cut? pat s = none ↔ ¬ pat <:+: s := by
  rw [← contains_iff, contains, Option.not_isSome_iff_eq_none]

/-- A pattern of one element is cut at where the element first stands. -/
theorem cut?_singleton_iff : cut? [x] s = some (a, b) ↔ s = a ++ x :: b ∧ x ∉ a := by
  rw [cut?_eq_some_iff (List.cons_ne_nil x []), List.dropLast_singleton, List.append_nil,
    List.singleton_infix_iff, List.append_assoc, List.singleton_append]

theorem cut?_singleton_eq_none_iff : cut? [x] s = none ↔ x ∉ s := by
  rw [cut?_eq_none_iff, List.singleton_infix_iff]

end Switchboard.Text
