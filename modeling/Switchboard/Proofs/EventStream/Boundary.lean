import Mathlib.Data.List.Infix
import Switchboard.EventStream.Framing
import Switchboard.Proofs.Text.Search

/-!
# The boundaries of frames

The two forms of a blank line may overlap in a buffer, and one may be complete while the other is not.
A frame ends at the first one that is complete. It is cut off at once, while more octets may still
follow, so the cut must remain the first one whatever follows.

- `Unbroken`: no blank line stands in the octets.
- `cut?_eq_some_iff`: a cut is the one way to write a buffer with no blank line before the first one;
  `cut?_eq_none_iff`.
- `cut?_append`: a cut stays where it is when octets are added.
- `boundary?`: where the first blank line stands, and how long it is; `boundary?_eq_earlier`: it is the
  earlier of the first ones in either form.

The characterization is the same as for one pattern, with `Unbroken (f ++ d.bytes.dropLast)` in place of
the missing occurrence: what counts is where a delimiter is complete, not where it begins. As neither
form is a part of the other, the one that begins first is also complete first (`prefix_dropLast`), and
only for this reason is the earlier place the right one. All that is said about growing buffers follows
from the characterization, which does not mention what stands behind the cut.
-/

namespace Switchboard.EventStream

variable {s t f r : Bytes} {c : Cut} {d e : Delimiter} {b : UInt8}

theorem delimiter?_bytes (d : Delimiter) (r : Bytes) : delimiter? (d.bytes ++ r) = some (d, r) := by
  cases d <;> rfl

/-- No delimiter stands in the octets. -/
def Unbroken (s : Bytes) : Prop := ∀ d : Delimiter, ¬ d.bytes <:+: s

theorem Unbroken.within (h : Unbroken t) (hs : s <:+: t) : Unbroken s :=
  fun d hd => h d (hd.trans hs)

theorem delimiter?_eq_none_iff : delimiter? s = none ↔ ∀ d : Delimiter, ¬ d.bytes <+: s := by
  constructor
  · rintro h d ⟨r, rfl⟩
    rw [delimiter?_bytes] at h
    cases h
  · intro h
    rcases hd : delimiter? s with _ | ⟨d, r⟩
    · rfl
    · exact absurd ⟨r, (eq_of_delimiter? hd).symm⟩ (h d)

theorem Delimiter.two_le_length (d : Delimiter) : 2 ≤ d.bytes.length := by
  cases d <;> decide

theorem Delimiter.bytes_ne_nil (d : Delimiter) : d.bytes ≠ [] := by
  cases d <;> exact List.cons_ne_nil _ _

/-- A delimiter is not complete before its last octet. -/
theorem unbroken_dropLast (d : Delimiter) : Unbroken d.bytes.dropLast := by
  intro e
  cases d <;> cases e <;> decide

/-! ### The first delimiter -/

/-- What was passed goes before the cut. -/
theorem cutFrom_eq_map (passed s : Bytes) :
    cutFrom passed s = (cut? s).map fun c => { c with frame := passed.reverse ++ c.frame } := by
  induction s generalizing passed with
  | nil => rfl
  | cons b s ih =>
    unfold cut?
    simp only [cutFrom]
    rcases delimiter? (b :: s) with _ | ⟨d, r⟩
    · dsimp only
      rw [ih, ih [b], Option.map_map]
      congr 1
      funext c
      simp
    · simp

/-- A buffer is cut at its start, or its first octet is passed. -/
theorem cut?_cons (b : UInt8) (s : Bytes) : cut? (b :: s) =
    match delimiter? (b :: s) with
    | some (d, r) => some ⟨[], d, r⟩
    | none => (cut? s).map fun c => { c with frame := b :: c.frame } := by
  unfold cut?
  rw [cutFrom]
  rcases delimiter? (b :: s) with _ | ⟨d, r⟩
  · exact cutFrom_eq_map [b] s
  · rfl

theorem prefix_of_cut? (h : cut? s = some c) : c.frame ++ c.delimiter.bytes.dropLast <+: s := by
  rw [eq_of_cut? h, List.append_assoc]
  refine (List.prefix_append_right_inj _).mpr ?_
  exact (List.dropLast_prefix _).trans (List.prefix_append _ _)

/-- No delimiter is complete before the one that a cut is made at. -/
theorem unbroken_of_cut? (h : cut? s = some c) :
    Unbroken (c.frame ++ c.delimiter.bytes.dropLast) := by
  induction s generalizing c with
  | nil => cases h
  | cons b s ih =>
    rw [cut?_cons] at h
    rcases hd : delimiter? (b :: s) with _ | ⟨d, r⟩
    · rw [hd] at h
      obtain ⟨c', hc, rfl⟩ := Option.map_eq_some_iff.mp h
      intro e he
      rcases List.infix_cons_iff.mp he with hfirst | hlater
      · -- It would be the delimiter that the whole buffer begins with.
        have hhere : b :: (c'.frame ++ c'.delimiter.bytes.dropLast) <+: b :: s :=
          List.cons_prefix_cons.mpr ⟨rfl, prefix_of_cut? hc⟩
        exact delimiter?_eq_none_iff.mp hd e (hfirst.trans hhere)
      · exact ih hc e hlater
    · rw [hd] at h
      obtain rfl := Option.some.inj h
      exact unbroken_dropLast d

/-- A delimiter that begins before another one is complete before that one is. -/
theorem prefix_dropLast (h : e.bytes <+: b :: f ++ d.bytes ++ r) :
    e.bytes <+: b :: f ++ d.bytes.dropLast := by
  by_cases hlong : e.bytes.length ≤ (b :: f ++ d.bytes.dropLast).length
  · refine List.prefix_of_prefix_length_le h ?_ hlong
    rw [List.append_assoc]
    refine (List.prefix_append_right_inj _).mpr ?_
    exact (List.dropLast_prefix _).trans (List.prefix_append _ _)
  · -- Only CR LF CR LF is long enough to reach behind LF LF, where it has CR and not LF.
    exfalso
    cases d <;> cases e <;> simp [Delimiter.bytes] at hlong
    rcases f with _ | ⟨x, _ | ⟨y, f⟩⟩
    · simp [Delimiter.bytes, lf, cr] at h
    · simp [Delimiter.bytes, lf, cr] at h
    · rw [List.length_cons, List.length_cons] at hlong
      omega

/-- The first delimiter is found. -/
theorem cut?_of_unbroken (h : Unbroken (f ++ d.bytes.dropLast)) (r : Bytes) :
    cut? (f ++ d.bytes ++ r) = some ⟨f, d, r⟩ := by
  induction f with
  | nil => cases d <;> rfl
  | cons b f ih =>
    have hnone : delimiter? (b :: (f ++ d.bytes ++ r)) = none :=
      delimiter?_eq_none_iff.mpr fun e he => h e (prefix_dropLast he).isInfix
    show cut? (b :: (f ++ d.bytes ++ r)) = _
    rw [cut?_cons, hnone, ih (h.within (List.suffix_cons b _).isInfix)]
    rfl

/-- **A cut is made at the first delimiter.** -/
theorem cut?_eq_some_iff : cut? s = some ⟨f, d, r⟩ ↔
    s = f ++ d.bytes ++ r ∧ Unbroken (f ++ d.bytes.dropLast) := by
  constructor
  · exact fun h => ⟨eq_of_cut? h, unbroken_of_cut? h⟩
  · rintro ⟨rfl, h⟩
    exact cut?_of_unbroken h r

/-- A cut stays where it is when octets are added behind. -/
theorem cut?_append (h : cut? s = some c) (t : Bytes) :
    cut? (s ++ t) = some { c with rest := c.rest ++ t } := by
  rw [eq_of_cut? h, List.append_assoc]
  exact cut?_of_unbroken (unbroken_of_cut? h) (c.rest ++ t)

/-- A buffer without a cut has no delimiter in it. -/
theorem cut?_eq_none_iff : cut? s = none ↔ Unbroken s := by
  induction s with
  | nil =>
    refine iff_of_true rfl fun d => ?_
    cases d <;> decide
  | cons b s ih =>
    rw [cut?_cons]
    constructor
    · intro h d hd
      rcases hnone : delimiter? (b :: s) with _ | x
      · rw [hnone] at h
        rcases List.infix_cons_iff.mp hd with hfirst | hlater
        · exact delimiter?_eq_none_iff.mp hnone d hfirst
        · exact ih.mp (Option.map_eq_none_iff.mp h) d hlater
      · rw [hnone] at h
        cases h
    · intro h
      have hnone : delimiter? (b :: s) = none :=
        delimiter?_eq_none_iff.mpr fun d hd => h d hd.isInfix
      rw [hnone, ih.mpr (h.within (List.suffix_cons b s).isInfix)]
      rfl

/-! ### Places -/

/-- Where the first delimiter of a buffer stands, and how many octets it has. -/
def boundary? (s : Bytes) : Option (Nat × Nat) :=
  (cut? s).map fun c => (c.frame.length, c.delimiter.bytes.length)

/-- Where one delimiter first stands, whether or not the other stands before it. -/
def place? (d : Delimiter) (s : Bytes) : Option Nat := (Text.cut? d.bytes s).map fun p => p.1.length

/-- The earlier of two places of LF LF and CR LF CR LF, with the length of what stands there. -/
def earlier? : Option Nat → Option Nat → Option (Nat × Nat)
  | some i, some j => some (if i ≤ j then (i, 2) else (j, 4))
  | some i, none => some (i, 2)
  | none, some j => some (j, 4)
  | none, none => none

theorem place?_eq_some_iff {i : Nat} : place? d s = some i ↔
    ∃ f r, s = f ++ d.bytes ++ r ∧ ¬ d.bytes <:+: f ++ d.bytes.dropLast ∧ f.length = i := by
  unfold place?
  rw [Option.map_eq_some_iff]
  constructor
  · rintro ⟨⟨f, r⟩, hcut, hi⟩
    obtain ⟨hs, hfirst⟩ := (Text.cut?_eq_some_iff d.bytes_ne_nil).mp hcut
    exact ⟨f, r, hs, hfirst, hi⟩
  · rintro ⟨f, r, hs, hfirst, hi⟩
    exact ⟨(f, r), (Text.cut?_eq_some_iff d.bytes_ne_nil).mpr ⟨hs, hfirst⟩, hi⟩

/-- No delimiter begins before a cut. -/
theorem length_frame_le (h : cut? s = some c) (hs : s = f ++ e.bytes ++ r) :
    c.frame.length ≤ f.length := by
  induction s generalizing c f with
  | nil => cases h
  | cons b s ih =>
    rw [cut?_cons] at h
    rcases hd : delimiter? (b :: s) with _ | ⟨d, r'⟩
    · rw [hd] at h
      obtain ⟨c', hc, rfl⟩ := Option.map_eq_some_iff.mp h
      cases f with
      | nil => exact absurd ⟨r, hs.symm⟩ (delimiter?_eq_none_iff.mp hd e)
      | cons x f => exact Nat.succ_le_succ (ih hc (List.cons.inj hs).2)
    · rw [hd] at h
      obtain rfl := Option.some.inj h
      exact Nat.zero_le _

theorem place?_of_cut? (h : cut? s = some c) : place? c.delimiter s = some c.frame.length :=
  place?_eq_some_iff.mpr ⟨c.frame, c.rest, eq_of_cut? h, unbroken_of_cut? h _, rfl⟩

/-- The other delimiter first stands behind a cut. -/
theorem lt_of_place? {i : Nat} (h : cut? s = some c) (hp : place? e s = some i)
    (he : e ≠ c.delimiter) : c.frame.length < i := by
  obtain ⟨f, r, hs, -, rfl⟩ := place?_eq_some_iff.mp hp
  refine Nat.lt_of_le_of_ne (length_frame_le h hs) fun hsame => he ?_
  -- Only one delimiter begins at a place.
  have hboth : c.frame ++ (c.delimiter.bytes ++ c.rest) = f ++ (e.bytes ++ r) := by
    rw [← List.append_assoc, ← List.append_assoc, ← eq_of_cut? h, hs]
  have htail := (List.append_inj hboth hsame).2
  have hdelim := congrArg delimiter? htail
  rw [delimiter?_bytes, delimiter?_bytes] at hdelim
  exact (Prod.mk.inj (Option.some.inj hdelim)).1.symm

/-- Looking for each delimiter on its own and taking the earlier one finds the boundary. -/
theorem boundary?_eq_earlier (s : Bytes) :
    boundary? s = earlier? (place? .lfLf s) (place? .crLfCrLf s) := by
  unfold boundary?
  rcases hc : cut? s with _ | c
  · have hnone (d : Delimiter) : place? d s = none := by
      unfold place?
      rw [Option.map_eq_none_iff]
      exact Text.cut?_eq_none_iff.mpr (cut?_eq_none_iff.mp hc d)
    rw [hnone, hnone]
    rfl
  · -- The cut is the first place of its own form, and the other form comes later if at all.
    have hplace := place?_of_cut? hc
    rcases hd : c.delimiter with _ | _
    · rw [hd] at hplace
      rw [hplace]
      rcases hother : place? .crLfCrLf s with _ | j
      · simp [earlier?, hd, Delimiter.bytes]
      · have hlt := lt_of_place? hc hother (by simp [hd])
        simp [earlier?, hd, Delimiter.bytes, Nat.le_of_lt hlt]
    · rw [hd] at hplace
      rw [hplace]
      rcases hother : place? .lfLf s with _ | i
      · simp [earlier?, hd, Delimiter.bytes]
      · have hlt := lt_of_place? hc hother (by simp [hd])
        simp [earlier?, hd, Delimiter.bytes, Nat.not_le.mpr hlt]

/-- A cut splits the buffer at its boundary. -/
theorem cut?_of_boundary? {p n : Nat} (h : boundary? s = some (p, n)) :
    ∃ c, cut? s = some c ∧ c.frame = s.take p ∧ c.rest = s.drop (p + n) := by
  obtain ⟨c, hc, hplace⟩ := Option.map_eq_some_iff.mp h
  obtain ⟨rfl, rfl⟩ := Prod.mk.inj hplace
  have hs := eq_of_cut? hc
  refine ⟨c, hc, ?_, ?_⟩
  · rw [hs, List.append_assoc, List.take_left]
  · rw [hs, ← List.length_append, List.drop_left]

/-- More octets do not move a boundary. -/
theorem boundary?_append {x : Nat × Nat} (h : boundary? s = some x) (t : Bytes) :
    boundary? (s ++ t) = some x := by
  obtain ⟨c, hc, rfl⟩ := Option.map_eq_some_iff.mp h
  rw [boundary?, cut?_append hc t]
  rfl

end Switchboard.EventStream
