import Mathlib.Data.List.TakeWhile
import Mathlib.Tactic.SplitIfs
import Switchboard.Proofs.Json.Grammar

/-!
# Numbers are read as they are written

The reader of a number takes digits as long as there are some, so a number must end before something
that could not go on with it: white space, a comma, a bracket that closes, or the end of the text.

- `Ends`: what may follow a value.
- `readNumber_append`: a number of the grammar is read to its end, if something that `Ends` it follows.
- `numeral_of_readNumber`: what is read is a number of the grammar.

Without `Ends` the first of these is false: the grammar has `1` as a number, and in `12` the reader does
not stop behind it. Inside a document the condition costs nothing, since what may follow a value there
is one of the characters of `Ends`. Each part of a number has its own pair of lemmas, one for each
direction; `NoDigit` and `Power.head` carry over what follows one part to the part before it.
-/

namespace Switchboard.Json

variable {s r w f e ds rest : List Char} {c : Char} {negative : Bool} {j : Json}
  {fraction : Option (List Char)} {power : Option Int}

/-- What may follow a value. -/
def Ends (rest : List Char) : Prop :=
  ∀ c ∈ rest.head?, isSpace c = true ∨ c ∈ [',', ']', '\x7d']

theorem Ends.nil : Ends [] := fun _ h => by cases h

theorem Ends.cons (h : isSpace c = true ∨ c ∈ [',', ']', '\x7d']) : Ends (c :: rest) := by
  intro x hx
  obtain rfl := Option.some.inj hx
  exact h

theorem Ends.spaces (hw : Spaces w) (h : Ends rest) : Ends (w ++ rest) := by
  cases w with
  | nil => exact h
  | cons c w => exact .cons (.inl (hw c List.mem_cons_self))

/-- Nothing of a number may follow a value. -/
theorem Ends.not_numeric (h : Ends (c :: rest)) :
    Text.isDigit c = false ∧ c ≠ '.' ∧ c ≠ 'e' ∧ c ≠ 'E' := by
  have hc := h c rfl
  simp only [isSpace, Bool.or_eq_true, beq_iff_eq, List.mem_cons, List.not_mem_nil, or_false] at hc
  rcases hc with (((rfl | rfl) | rfl) | rfl) | rfl | rfl | rfl <;> decide

/-! ### Runs of digits -/

/-- The text does not start with a digit. -/
def NoDigit (rest : List Char) : Prop := ∀ c ∈ rest.head?, Text.isDigit c = false

theorem NoDigit.dropWhile (s : List Char) : NoDigit (s.dropWhile Text.isDigit) := by
  intro c hc
  have hnot := List.head?_dropWhile_not Text.isDigit s
  rw [Option.mem_def.mp hc] at hnot
  simpa using hnot

theorem needDigit_eq_ok_iff : needDigit s = .ok () ↔ ∃ c ∈ s.head?, Text.isDigit c = true := by
  cases s with
  | nil => simp [needDigit]
  | cons c s => by_cases hc : Text.isDigit c = true <;> simp [needDigit, hc]

/-- The digits at the beginning of a text, if it has to begin with one. -/
theorem digits_takeWhile (h : needDigit s = .ok ()) : Digits (s.takeWhile Text.isDigit) := by
  obtain ⟨c, hc, hdigit⟩ := needDigit_eq_ok_iff.mp h
  refine ⟨?_, fun x hx => List.mem_takeWhile_imp hx⟩
  cases s with
  | nil => cases hc
  | cons a s =>
    obtain rfl := Option.some.inj hc
    simp [hdigit]

/-- A run of digits that does not go on. -/
theorem Digits.append (hds : Digits ds) (hrest : NoDigit rest) :
    needDigit (ds ++ rest) = .ok () ∧ (ds ++ rest).takeWhile Text.isDigit = ds ∧
      (ds ++ rest).dropWhile Text.isDigit = rest := by
  obtain ⟨hne, hall⟩ := hds
  have htake : rest.takeWhile Text.isDigit = [] := by
    cases rest with
    | nil => rfl
    | cons c rest => simp [hrest c rfl]
  have hdrop : rest.dropWhile Text.isDigit = rest := by
    cases rest with
    | nil => rfl
    | cons c rest => simp [hrest c rfl]
  refine ⟨?_, ?_, ?_⟩
  · obtain ⟨c, ds, rfl⟩ := List.exists_cons_of_ne_nil hne
    exact needDigit_eq_ok_iff.mpr ⟨c, rfl, hall c List.mem_cons_self⟩
  · rw [List.takeWhile_append_of_pos hall, htake, List.append_nil]
  · rw [List.dropWhile_append_of_pos hall, hdrop]

/-! ### Parts of a number -/

theorem fraction_of_readFraction (h : readFraction s = .ok (fraction, r)) :
    ∃ f, s = f ++ r ∧ Fraction f fraction := by
  unfold readFraction at h
  split at h
  · rename_i t
    cases hd : needDigit t with
    | error x => simp [hd, bind, Except.bind] at h
    | ok u =>
      simp only [hd, bind, Except.bind, Except.ok.injEq, Prod.mk.injEq] at h
      obtain ⟨rfl, rfl⟩ := h
      refine ⟨'.' :: t.takeWhile Text.isDigit, ?_, .some (digits_takeWhile hd)⟩
      rw [List.cons_append, List.takeWhile_append_dropWhile]
  · obtain ⟨rfl, rfl⟩ := Prod.mk.inj (Except.ok.inj h)
    exact ⟨[], rfl, .none⟩

theorem readFraction_append (hf : Fraction f fraction) (hrest : NoDigit rest)
    (hpoint : ∀ c ∈ rest.head?, c ≠ '.') : readFraction (f ++ rest) = .ok (fraction, rest) := by
  cases hf with
  | none =>
    show readFraction rest = _
    unfold readFraction
    split
    · exact absurd rfl (hpoint '.' rfl)
    · rfl
  | @some ds hds =>
    obtain ⟨hneed, htake, hdrop⟩ := hds.append hrest
    rw [List.cons_append]
    simp only [readFraction, hneed, htake, hdrop]
    rfl

theorem digits_of_readPowerDigits (h : readPowerDigits negative s = .ok (power, r)) :
    ∃ ds, s = ds ++ r ∧ Digits ds ∧
      power = some (if negative then -(Text.decimalValue ds : Int) else Text.decimalValue ds) := by
  unfold readPowerDigits at h
  cases hd : needDigit s with
  | error x => simp [hd, bind, Except.bind] at h
  | ok u =>
    simp only [hd, bind, Except.bind, Except.ok.injEq, Prod.mk.injEq] at h
    obtain ⟨rfl, rfl⟩ := h
    exact ⟨_, (List.takeWhile_append_dropWhile).symm, digits_takeWhile hd, rfl⟩

theorem readPowerDigits_append (negative : Bool) (hds : Digits ds) (hrest : NoDigit rest) :
    readPowerDigits negative (ds ++ rest) =
      .ok (some (if negative then -(Text.decimalValue ds : Int) else Text.decimalValue ds), rest) := by
  obtain ⟨hneed, htake, hdrop⟩ := hds.append hrest
  unfold readPowerDigits
  rw [hneed, htake, hdrop]
  rfl

theorem power_of_readPower (h : readPower s = .ok (power, r)) : ∃ e, s = e ++ r ∧ Power e power := by
  unfold readPower at h
  split at h
  · rename_i c t
    split_ifs at h with hc
    · have he : c = 'e' ∨ c = 'E' := by simpa using hc
      split at h
      · obtain ⟨ds, rfl, hds, rfl⟩ := digits_of_readPowerDigits h
        exact ⟨c :: '-' :: ds, rfl, .minus he hds⟩
      · obtain ⟨ds, rfl, hds, rfl⟩ := digits_of_readPowerDigits h
        exact ⟨c :: '+' :: ds, rfl, .plus he hds⟩
      · obtain ⟨ds, rfl, hds, rfl⟩ := digits_of_readPowerDigits h
        exact ⟨c :: ds, rfl, .bare he hds⟩
    · obtain ⟨rfl, rfl⟩ := Prod.mk.inj (Except.ok.inj h)
      exact ⟨[], rfl, .none⟩
  · obtain ⟨rfl, rfl⟩ := Prod.mk.inj (Except.ok.inj h)
    exact ⟨[], rfl, .none⟩

theorem readPower_append (he : Power e power) (hrest : NoDigit rest)
    (hletter : ∀ c ∈ rest.head?, c ≠ 'e' ∧ c ≠ 'E') :
    readPower (e ++ rest) = .ok (power, rest) := by
  cases he with
  | none =>
    cases rest with
    | nil => rfl
    | cons c rest =>
      obtain ⟨he, hE⟩ := hletter c rfl
      simp [readPower, he, hE]
  | @bare e ds he hds =>
    have hmark : (e == 'e' || e == 'E') = true := by simpa using he
    have hdigits := readPowerDigits_append false hds hrest
    obtain ⟨d, ds, rfl⟩ := List.exists_cons_of_ne_nil hds.1
    have hd := hds.2 d List.mem_cons_self
    have hminus : d ≠ '-' := by
      rintro rfl
      cases hd
    have hplus : d ≠ '+' := by
      rintro rfl
      cases hd
    simpa [readPower, hmark, hminus, hplus] using hdigits
  | @plus e ds he hds =>
    have hmark : (e == 'e' || e == 'E') = true := by simpa using he
    simpa [readPower, hmark] using readPowerDigits_append false hds hrest
  | @minus e ds he hds =>
    have hmark : (e == 'e' || e == 'E') = true := by simpa using he
    simpa [readPower, hmark] using readPowerDigits_append true hds hrest

/-! ### Numbers -/

/-- Digits that do not start with a zero that others follow. -/
theorem whole_iff (hds : Digits ds) :
    Whole ds ↔ (ds.head? == some '0' && 1 < ds.length) = false := by
  have hlength : 0 < ds.length := List.length_pos_iff.mpr hds.1
  constructor
  · rintro ⟨-, hzero⟩
    by_cases h : ds.head? = some '0'
    · simp [h, hzero h]
    · simp [h]
  · intro h
    refine ⟨hds, fun hzero => ?_⟩
    simp [hzero] at h
    omega

/-- What is read after the sign of a number is the rest of a number. -/
theorem numeral_of_readNumber (h : readNumber negative s = .ok (j, r)) :
    ∃ l, s = l ++ r ∧ Numeral (sign negative ++ l) j := by
  unfold readNumber at h
  -- The reader takes the whole part, the fraction and the power one after the other, and what it
  -- leaves of each is where the next one begins.
  cases hd : needDigit s with
  | error x => simp [hd, bind, Except.bind] at h
  | ok u =>
    simp only [hd, bind, Except.bind] at h
    split_ifs at h with hzero
    have hwhole := (whole_iff (digits_takeWhile hd)).mpr (Bool.eq_false_iff.mpr hzero)
    cases hfraction : readFraction (s.dropWhile Text.isDigit) with
    | error x => simp [hfraction] at h
    | ok v =>
      obtain ⟨fraction, t⟩ := v
      simp only [hfraction] at h
      cases hpower : readPower t with
      | error x => simp [hpower] at h
      | ok v =>
        obtain ⟨power, t'⟩ := v
        simp only [hpower] at h
        cases hn : numberOf negative (s.takeWhile Text.isDigit) fraction power with
        | error x => simp [hn] at h
        | ok n =>
          simp only [hn, Except.ok.injEq, Prod.mk.injEq] at h
          obtain ⟨rfl, rfl⟩ := h
          obtain ⟨f, hf, hfs⟩ := fraction_of_readFraction hfraction
          obtain ⟨e, rfl, hes⟩ := power_of_readPower hpower
          refine ⟨s.takeWhile Text.isDigit ++ (f ++ e), ?_, .mk hwhole hfs hes hn⟩
          rw [List.append_assoc, List.append_assoc, ← hf, List.takeWhile_append_dropWhile]

theorem Ends.noDigit (h : Ends rest) : NoDigit rest := by
  cases rest with
  | nil => exact nofun
  | cons c rest =>
    intro x hx
    obtain rfl := Option.some.inj hx
    exact h.not_numeric.1

theorem Fraction.noDigit (hf : Fraction f fraction) (hrest : NoDigit rest) :
    NoDigit (f ++ rest) := by
  cases hf with
  | none => exact hrest
  | some hds =>
    intro x hx
    obtain rfl := Option.some.inj hx
    rfl

/-- Where an exponent starts, or a number ends, neither the whole part nor the fraction goes on. -/
theorem Power.head (he : Power e power) (hrest : Ends rest) :
    ∀ c ∈ (e ++ rest).head?, Text.isDigit c = false ∧ c ≠ '.' := by
  have hmark : ∀ {e : Char}, e = 'e' ∨ e = 'E' → Text.isDigit e = false ∧ e ≠ '.' := by
    rintro e (rfl | rfl) <;> decide
  intro x hx
  cases he with
  | none =>
    cases rest with
    | nil => cases hx
    | cons c rest =>
      obtain rfl := Option.some.inj hx
      exact ⟨hrest.not_numeric.1, hrest.not_numeric.2.1⟩
  | bare he hds =>
    obtain rfl := Option.some.inj hx
    exact hmark he
  | plus he hds =>
    obtain rfl := Option.some.inj hx
    exact hmark he
  | minus he hds =>
    obtain rfl := Option.some.inj hx
    exact hmark he

/-- A number is read to its end if something that may follow a value follows it. -/
theorem readNumber_append (hw : Whole w) (hf : Fraction f fraction) (he : Power e power)
    (hj : numberOf negative w fraction power = .ok j) (hrest : Ends rest) :
    readNumber negative (w ++ (f ++ (e ++ rest))) = .ok (j, rest) := by
  -- Each part stops at the next one, and the last at what follows the number.
  have hpower := he.head hrest
  obtain ⟨hneed, htake, hdrop⟩ := hw.1.append (hf.noDigit fun c hc => (hpower c hc).1)
  have hfraction := readFraction_append hf (fun c hc => (hpower c hc).1) fun c hc => (hpower c hc).2
  have hexponent := readPower_append he hrest.noDigit (by
    intro c hc
    cases rest with
    | nil => cases hc
    | cons x rest =>
      obtain rfl := Option.some.inj hc
      exact hrest.not_numeric.2.2)
  have hzero := (whole_iff hw.1).mp hw
  simp only [readNumber, hneed, htake, hdrop, hzero, hfraction, hexponent, hj, bind, Except.bind,
    Bool.false_eq_true, if_false]

end Switchboard.Json
