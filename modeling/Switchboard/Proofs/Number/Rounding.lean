import Switchboard.Number.Decimal
import Mathlib.Data.Nat.Log
import Mathlib.Tactic.Ring

/-!
# Rounding keeps the order

A quotient that grows never rounds to less, neither to a whole number nor to a double. A function
built from such steps is therefore settled between two arguments by its values at them.

- `roundDiv_le_iff`: the quotients that round to at most a given number.
- `Magnitude.nearest`: the units of the double nearest to a ratio, before the range is looked at.
- `Magnitude.ofUnits?_mono`, `Magnitude.div?_mono`: rounding to a double is monotone.
- `Magnitude.next_le`: between a double and its neighbour there is no other double.

A ratio is a pair of natural numbers and is never divided out: `num / den ≤ num' / den'` is written as
`num * den' ≤ num' * den`, and all of the module is about natural numbers.

The last place moves with the size of the ratio, so monotonicity is not that of one division. Inside one
range of exponents it is `roundDiv_mono` with a common factor. From one range to a higher one the power
of two between them decides: `significand_le` keeps the lesser double at most there, also if rounding
carried, and `le_significand` keeps the greater one at least there. Near zero, where not all 53 bits are
in use, the last place no longer moves, and no second case comes up.
-/

namespace Switchboard.Number

/-- What rounds to at most `k` is less than half past `k`, or exactly there if `k` is even. -/
theorem roundDiv_le_iff (num k : Nat) {den : Nat} (h : 0 < den) :
    roundDiv num den ≤ k ↔
      2 * num < (2 * k + 1) * den ∨ (2 * num = (2 * k + 1) * den ∧ k % 2 = 0) := by
  have hdiv : den * (num / den) + num % den = num := Nat.div_add_mod num den
  have hmod : num % den < den := Nat.mod_lt num h
  simp only [roundDiv]
  generalize num / den = q at *
  generalize num % den = r at *
  subst hdiv
  have expand : (2 * k + 1) * den = 2 * (den * k) + den := by ring
  rw [expand]
  -- Against the whole part of the quotient; only if that is `k` does the remainder matter.
  rcases Nat.lt_trichotomy k q with hk | rfl | hk
  · -- Everything that rounds to `q` or more lies above.
    have : den * (k + 1) ≤ den * q := Nat.mul_le_mul_left den hk
    rw [Nat.mul_add, Nat.mul_one] at this
    constructor
    · intro hle
      split at hle
      · omega
      · split at hle <;> omega
    · omega
  · split
    · omega
    · split <;> omega
  · have : den * (q + 1) ≤ den * k := Nat.mul_le_mul_left den hk
    rw [Nat.mul_add, Nat.mul_one] at this
    constructor
    · omega
    · intro _
      split
      · omega
      · split <;> omega

/-- Rounding a quotient to a whole number is monotone. -/
theorem roundDiv_mono {num den num' den' : Nat} (h : 0 < den) (h' : 0 < den')
    (hle : num * den' ≤ num' * den) : roundDiv num den ≤ roundDiv num' den' := by
  have scaled : 2 * num * den' ≤ 2 * num' * den := by
    rw [Nat.mul_assoc, Nat.mul_assoc]
    exact Nat.mul_le_mul_left 2 hle
  have swap : ∀ k, (2 * k + 1) * den' * den = (2 * k + 1) * den * den' := fun k => by ring
  rw [roundDiv_le_iff num _ h]
  rcases (roundDiv_le_iff num' _ h').mp (Nat.le_refl _) with hlt | ⟨heq, heven⟩
  · refine .inl (Nat.lt_of_mul_lt_mul_right (a := den') ?_)
    calc 2 * num * den' ≤ 2 * num' * den := scaled
      _ < (2 * roundDiv num' den' + 1) * den' * den := Nat.mul_lt_mul_of_pos_right hlt h
      _ = (2 * roundDiv num' den' + 1) * den * den' := swap _
  · have : 2 * num ≤ (2 * roundDiv num' den' + 1) * den := by
      refine Nat.le_of_mul_le_mul_right (c := den') ?_ h'
      rw [← swap, ← heq]
      exact scaled
    rcases Nat.lt_or_eq_of_le this with hlt | heq'
    · exact .inl hlt
    · exact .inr ⟨heq', heven⟩

theorem div_le_div_of_mul_le {num den num' den' : Nat} (h : 0 < den) (h' : 0 < den')
    (hle : num * den' ≤ num' * den) : num / den ≤ num' / den' := by
  rw [Nat.le_div_iff_mul_le h']
  refine Nat.le_of_mul_le_mul_right (c := den) ?_ h
  calc num / den * den' * den = num / den * den * den' := Nat.mul_right_comm _ _ _
    _ ≤ num * den' := Nat.mul_le_mul_right den' (Nat.div_mul_le_self num den)
    _ ≤ num' * den := hle

namespace Magnitude

/-- The exponent of the last place of the double nearest to a ratio. -/
def lastPlace (num den : Nat) : Nat := Nat.log2 (num / den) - 52

/-- The units of the double nearest to a ratio, were there no greatest double. -/
def nearest (num den : Nat) : Nat :=
  roundDiv num (den * 2 ^ lastPlace num den) * 2 ^ lastPlace num den

theorem lastPlace_mono {num den num' den' : Nat} (h : 0 < den) (h' : 0 < den')
    (hle : num * den' ≤ num' * den) : lastPlace num den ≤ lastPlace num' den' := by
  have hdiv := div_le_div_of_mul_le h h' hle
  have : Nat.log2 (num / den) ≤ Nat.log2 (num' / den') := by
    rw [Nat.log2_eq_log_two, Nat.log2_eq_log_two]
    exact Nat.log_mono_right hdiv
  exact Nat.sub_le_sub_right this 52

/-- The significand has at most 53 bits, or is the next power of two. -/
theorem significand_le (num : Nat) {den : Nat} (h : 0 < den) :
    roundDiv num (den * 2 ^ lastPlace num den) ≤ 2 ^ 53 := by
  have hpos : 0 < den * 2 ^ lastPlace num den := Nat.mul_pos h (Nat.two_pow_pos _)
  have hlog : num / den < 2 ^ (53 + lastPlace num den) :=
    calc num / den < 2 ^ (Nat.log2 (num / den) + 1) := Nat.lt_log2_self
      _ ≤ 2 ^ (53 + lastPlace num den) :=
        Nat.pow_le_pow_right (by decide) (by unfold lastPlace; omega)
  have hnum : num ≤ 2 ^ 53 * (den * 2 ^ lastPlace num den) :=
    calc num ≤ den * 2 ^ (53 + lastPlace num den) :=
          Nat.le_of_lt (Nat.mul_comm _ den ▸ Nat.lt_mul_of_div_lt hlog h)
      _ = 2 ^ 53 * (den * 2 ^ lastPlace num den) := by rw [Nat.pow_add]; ring
  calc roundDiv num (den * 2 ^ lastPlace num den)
      ≤ roundDiv (2 ^ 53 * (den * 2 ^ lastPlace num den)) (den * 2 ^ lastPlace num den) :=
        roundDiv_mono hpos hpos (Nat.mul_le_mul_right _ hnum)
    _ = 2 ^ 53 := roundDiv_mul _ hpos

/-- Away from zero all 53 bits are in use. -/
theorem le_significand (num : Nat) {den : Nat} (h : 0 < den) (hplace : 0 < lastPlace num den) :
    2 ^ 52 ≤ roundDiv num (den * 2 ^ lastPlace num den) := by
  have hpos : 0 < den * 2 ^ lastPlace num den := Nat.mul_pos h (Nat.two_pow_pos _)
  have hne : num / den ≠ 0 := fun h0 => by simp [lastPlace, h0] at hplace
  have hlog : 2 ^ (52 + lastPlace num den) ≤ num / den :=
    calc 2 ^ (52 + lastPlace num den) = 2 ^ Nat.log2 (num / den) := by
          congr 1
          unfold lastPlace at hplace ⊢
          omega
      _ ≤ num / den := Nat.log2_self_le hne
  have hnum : 2 ^ 52 * (den * 2 ^ lastPlace num den) ≤ num :=
    calc 2 ^ 52 * (den * 2 ^ lastPlace num den) = 2 ^ (52 + lastPlace num den) * den := by
          rw [Nat.pow_add]; ring
      _ ≤ num := (Nat.le_div_iff_mul_le h).mp hlog
  calc 2 ^ 52 = roundDiv (2 ^ 52 * (den * 2 ^ lastPlace num den)) (den * 2 ^ lastPlace num den) :=
        (roundDiv_mul _ hpos).symm
    _ ≤ roundDiv num (den * 2 ^ lastPlace num den) :=
        roundDiv_mono hpos hpos (Nat.mul_le_mul_right _ hnum)

/-- The nearest double grows with the ratio, also where the last place moves. -/
theorem nearest_mono {num den num' den' : Nat} (h : 0 < den) (h' : 0 < den')
    (hle : num * den' ≤ num' * den) : nearest num den ≤ nearest num' den' := by
  have hplace := lastPlace_mono h h' hle
  unfold nearest
  -- The last place moves or stays where it is.
  rcases Nat.lt_or_eq_of_le hplace with hlt | heq
  · -- The power of two above the lesser ratio is not above the greater one.
    calc roundDiv num (den * 2 ^ lastPlace num den) * 2 ^ lastPlace num den
        ≤ 2 ^ 53 * 2 ^ lastPlace num den := Nat.mul_le_mul_right _ (significand_le num h)
      _ = 2 ^ 52 * 2 ^ (lastPlace num den + 1) := by ring
      _ ≤ 2 ^ 52 * 2 ^ lastPlace num' den' :=
        Nat.mul_le_mul_left _ (Nat.pow_le_pow_right (by decide) hlt)
      _ ≤ roundDiv num' (den' * 2 ^ lastPlace num' den') * 2 ^ lastPlace num' den' :=
        Nat.mul_le_mul_right _ (le_significand num' h' (Nat.zero_lt_of_lt hlt))
  · rw [heq]
    refine Nat.mul_le_mul_right _ (roundDiv_mono ?_ ?_ ?_)
    · exact Nat.mul_pos h (Nat.two_pow_pos _)
    · exact Nat.mul_pos h' (Nat.two_pow_pos _)
    · calc num * (den' * 2 ^ lastPlace num' den') = num * den' * 2 ^ lastPlace num' den' :=
            (Nat.mul_assoc _ _ _).symm
        _ ≤ num' * den * 2 ^ lastPlace num' den' := Nat.mul_le_mul_right _ hle
        _ = num' * (den * 2 ^ lastPlace num' den') := Nat.mul_assoc _ _ _

theorem ofUnits?_eq (num den : Nat) :
    ofUnits? num den =
      let mant := roundDiv num (den * 2 ^ lastPlace num den)
      let m : Magnitude :=
        if mant = 2 ^ 53 then ⟨2 ^ 52, lastPlace num den + 1⟩ else ⟨mant, lastPlace num den⟩
      if maxExp < m.exp then none else some m := rfl

/-- A double that rounding gives: its units are the nearest ones, and its significand has at most
53 bits. -/
theorem ofUnits?_spec {num den : Nat} (h : 0 < den) {m : Magnitude}
    (hm : ofUnits? num den = some m) : m.units = nearest num den ∧ m.mant < 2 ^ 53 := by
  have hle := significand_le num h
  rw [ofUnits?_eq] at hm
  unfold nearest
  generalize roundDiv num (den * 2 ^ lastPlace num den) = mant at *
  simp only [Option.ite_none_left_eq_some, Option.some.injEq] at hm
  obtain ⟨-, rfl⟩ := hm
  split
  · next heq =>
    simp only [units, Nat.pow_eq, heq]
    exact ⟨by ring, by decide⟩
  · next hne => exact ⟨by simp only [units, Nat.pow_eq], Nat.lt_of_le_of_ne hle hne⟩

/-- A ratio has no double exactly if it rounds to the power of two after the greatest one. -/
theorem ofUnits?_eq_none_iff (num : Nat) {den : Nat} (h : 0 < den) :
    ofUnits? num den = none ↔ 2 ^ 53 * 2 ^ maxExp ≤ nearest num den := by
  have hle := significand_le num h
  have hge := le_significand num h
  rw [ofUnits?_eq]
  unfold nearest
  generalize roundDiv num (den * 2 ^ lastPlace num den) = mant at *
  generalize lastPlace num den = place at *
  simp only
  have lift : ∀ {a b : Nat}, a < b → 2 ^ 53 * 2 ^ a ≤ 2 ^ 52 * 2 ^ b := fun {a b} hab =>
    calc 2 ^ 53 * 2 ^ a = 2 ^ 52 * 2 ^ (a + 1) := by ring
      _ ≤ 2 ^ 52 * 2 ^ b := Nat.mul_le_mul_left _ (Nat.pow_le_pow_right (by decide) hab)
  have strict : ∀ {k b : Nat}, k < 2 ^ 53 → b ≤ maxExp → k * 2 ^ b < 2 ^ 53 * 2 ^ maxExp :=
    fun {k b} hk hb =>
      calc k * 2 ^ b < 2 ^ 53 * 2 ^ b := Nat.mul_lt_mul_of_pos_right hk (Nat.two_pow_pos b)
        _ ≤ 2 ^ 53 * 2 ^ maxExp :=
          Nat.mul_le_mul_left _ (Nat.pow_le_pow_right (by decide) hb)
  split
  -- Rounding may carry into one more bit; the exponent is then one more as well.
  · next heq =>
    subst heq
    have carried : 2 ^ 53 * 2 ^ place = 2 ^ 52 * 2 ^ (place + 1) := by ring
    rw [carried]
    split
    · next hmax => simpa using lift hmax
    · next hmax => simpa using strict (by decide) (Nat.le_of_not_lt hmax)
  · next hne =>
    have hlt : mant < 2 ^ 53 := Nat.lt_of_le_of_ne hle hne
    split
    · next hmax =>
      have hmax : maxExp < place := hmax
      simpa using Nat.le_trans (lift hmax)
        (Nat.mul_le_mul_right _ (hge (Nat.zero_lt_of_lt hmax)))
    · next hmax => simpa using strict hlt (Nat.le_of_not_lt hmax)

/-- Rounding a ratio to a double is monotone, and a ratio below one that has a double has one. -/
theorem ofUnits?_mono {num den num' den' : Nat} (h : 0 < den) (h' : 0 < den')
    (hle : num * den' ≤ num' * den) {b : Magnitude} (hb : ofUnits? num' den' = some b) :
    ∃ a, ofUnits? num den = some a ∧ a.units ≤ b.units := by
  have hnearest := nearest_mono h h' hle
  cases ha : ofUnits? num den with
  | none =>
    have hover := Nat.le_trans ((ofUnits?_eq_none_iff num h).mp ha) hnearest
    rw [(ofUnits?_eq_none_iff num' h').mpr hover] at hb
    cases hb
  | some a =>
    refine ⟨a, rfl, ?_⟩
    rw [(ofUnits?_spec h ha).1, (ofUnits?_spec h' hb).1]
    exact hnearest

/-- Division by a fixed double is monotone. -/
theorem div?_mono {m m' divisor b : Magnitude} (hle : m.units ≤ m'.units)
    (hb : m'.div? divisor = some b) : ∃ a, m.div? divisor = some a ∧ a.units ≤ b.units := by
  unfold div? at hb ⊢
  split at hb
  · cases hb
  · next hne =>
    rw [if_neg hne]
    have hpos := Nat.pos_of_ne_zero hne
    exact ofUnits?_mono hpos hpos
      (Nat.mul_le_mul_right _ (Nat.mul_le_mul_right unitsPerOne hle)) hb

/-- One more in the last place. -/
def next (m : Magnitude) : Magnitude := ⟨m.mant + 1, m.exp⟩

/-- Right above a double with all 53 bits in use stands the one that is one more in the last
place. -/
theorem next_le {last m : Magnitude} (hlast : 2 ^ 52 ≤ last.mant) (hm : m.mant < 2 ^ 53)
    (hlt : last.units < m.units) : last.next.units ≤ m.units := by
  simp only [next, units, Nat.pow_eq] at hlt ⊢
  rcases Nat.lt_or_ge m.exp last.exp with hexp | hexp
  · -- A smaller last place would keep `m` below.
    have : m.mant * 2 ^ m.exp ≤ last.mant * 2 ^ last.exp :=
      calc m.mant * 2 ^ m.exp ≤ 2 ^ 53 * 2 ^ m.exp := Nat.mul_le_mul_right _ (Nat.le_of_lt hm)
        _ = 2 ^ 52 * 2 ^ (m.exp + 1) := by ring
        _ ≤ 2 ^ 52 * 2 ^ last.exp := Nat.mul_le_mul_left _ (Nat.pow_le_pow_right (by decide) hexp)
        _ ≤ last.mant * 2 ^ last.exp := Nat.mul_le_mul_right _ hlast
    omega
  · obtain ⟨k, hk⟩ := Nat.exists_eq_add_of_le hexp
    have split : m.mant * 2 ^ m.exp = m.mant * 2 ^ k * 2 ^ last.exp := by
      rw [hk, Nat.pow_add]; ring
    rw [split] at hlt ⊢
    exact Nat.mul_le_mul_right _ (Nat.lt_of_mul_lt_mul_right hlt)

end Magnitude

/-- A written number rounds to at most 53 bits of significand. -/
theorem Decimal.nearest?_mant {d : Decimal} {m : Magnitude} (h : d.nearest? = some m) :
    m.mant < 2 ^ 53 := by
  simp only [Decimal.nearest?, Magnitude.ofRatio?] at h
  split at h
  · cases h; decide
  split at h
  · cases h
  split at h
  · cases h; decide
  split at h
  · exact (Magnitude.ofUnits?_spec (Nat.pow_pos (by decide)) h).2
  · exact (Magnitude.ofUnits?_spec Nat.one_pos h).2

/-- The text of a double gives at most 53 bits of significand, whatever it spells. -/
theorem readDecimal?_mant {s : String} {negative : Bool} {m : Magnitude}
    (h : readDecimal? s = some (.finite negative m)) : m.mant < 2 ^ 53 := by
  simp only [readDecimal?] at h
  split at h
  all_goals
    split at h
    · cases h
    split at h
    · cases h
    obtain ⟨d, -, hd⟩ := Option.map_eq_some_iff.mp h
    split at hd
    · next hn =>
      cases hd
      exact Decimal.nearest?_mant hn
    · cases hd

end Switchboard.Number
