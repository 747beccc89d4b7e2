import Switchboard.Proofs.Number.Rounding
import Switchboard.Reconnect.RetryAfter

/-!
# The range of the delays a server asks for

The field in milliseconds is checked against its range before the number is divided by a thousand
and rounded to nanoseconds. Both steps keep the order, so two numbers decide which delays leave
the range: below half a nanosecond a positive number becomes no delay at all, and within half a
nanosecond of one minute it becomes the whole minute.

- `RetryAfter.AsksMillis`: the field in milliseconds holds a number in its range.
- `RetryAfter.ofMillis?_spec`: the delay of such a number, and when it is positive and below a
  minute.
- `RetryAfter.delay_bounds`: every delay of every list of fields.
- `RetryAfter.delay_leaves_range`: a number in the range whose delay is not.

The two bounds are numbers of nanoseconds with a half, and no double is equal to either. What is
evaluated is the double below each and its neighbour (`lastZero`, `lastShort`), and monotonicity does
the rest.
-/

namespace Switchboard.RetryAfter

open Number (Binary64 Magnitude readDecimal? roundDiv)

/-- One minute in nanoseconds. -/
def minute : Nat := 60 * Duration.nanosPerSecond

/-! ### From milliseconds to nanoseconds -/

/-- The duration of a number of milliseconds. -/
def ofMillis? (m : Magnitude) : Option Duration :=
  (m.div? (.ofNat 1000)).bind Duration.ofSeconds?

/-- Seconds turn into nanoseconds in order. -/
theorem ofSeconds?_mono {m m' : Magnitude} (hle : m.units ≤ m'.units) {d' : Duration}
    (h : Duration.ofSeconds? m' = some d') :
    ∃ d, Duration.ofSeconds? m = some d ∧ d.nanos ≤ d'.nanos := by
  have one_pos : 0 < Magnitude.unitsPerOne := by decide +kernel
  have scaled : m.units * Duration.nanosPerSecond * Magnitude.unitsPerOne ≤
      m'.units * Duration.nanosPerSecond * Magnitude.unitsPerOne :=
    Nat.mul_le_mul_right _ (Nat.mul_le_mul_right _ hle)
  have rounded := Number.roundDiv_mono one_pos one_pos scaled
  unfold Duration.ofSeconds? at h ⊢
  split at h
  · cases h
  · next hlt =>
    obtain rfl := Option.some.inj h
    refine ⟨⟨roundDiv (m.units * Duration.nanosPerSecond) Magnitude.unitsPerOne⟩, if_neg ?_, ?_⟩
    · exact fun hge => hlt (Nat.le_trans hge hle)
    · simpa only using rounded

/-- More milliseconds never give a shorter duration. -/
theorem ofMillis?_mono {m m' : Magnitude} (hle : m.units ≤ m'.units) {d' : Duration}
    (h : ofMillis? m' = some d') : ∃ d, ofMillis? m = some d ∧ d.nanos ≤ d'.nanos := by
  obtain ⟨q', hq', hd'⟩ := Option.bind_eq_some_iff.mp h
  obtain ⟨q, hq, hqle⟩ := Magnitude.div?_mono hle hq'
  obtain ⟨d, hd, hdle⟩ := ofSeconds?_mono hqle hd'
  exact ⟨d, Option.bind_eq_some_iff.mpr ⟨q, hq, hd⟩, hdle⟩

/-- Where the duration moves on from one number of nanoseconds to the next: no double lies between
`last` and its neighbour, so any `bound` between the two tells which side a number is on. -/
theorem lt_nanos_iff {last : Magnitude} {k bound : Nat} (hlast : 2 ^ 52 ≤ last.mant)
    (hat : ofMillis? last = some ⟨k⟩) (hafter : ofMillis? last.next = some ⟨k + 1⟩)
    (hbelow : 2000000 * last.units < bound) (habove : bound ≤ 2000000 * last.next.units)
    {m : Magnitude} (hm : m.mant < 2 ^ 53) {d : Duration} (hd : ofMillis? m = some d) :
    k < d.nanos ↔ bound ≤ 2000000 * m.units := by
  rcases Nat.lt_or_ge last.units m.units with hcase | hcase
  · have hnext : last.next.units ≤ m.units := Magnitude.next_le hlast hm hcase
    obtain ⟨d', hd', hle⟩ := ofMillis?_mono hnext hd
    obtain rfl := Option.some.inj (hafter.symm.trans hd')
    have hlong : k < d.nanos := hle
    exact iff_of_true hlong (by omega)
  · obtain ⟨d', hd', hle⟩ := ofMillis?_mono hcase hat
    obtain rfl := Option.some.inj (hd'.symm.trans hd)
    have hshort : d'.nanos ≤ k := hle
    exact iff_of_false (by omega) (by omega)

/-- The greatest double below half a nanosecond, in milliseconds. -/
def lastZero : Magnitude := ⟨0x10c6f7a0b5ed8d, 1001⟩

/-- The greatest double that is more than half a nanosecond below one minute, in milliseconds. -/
def lastShort : Magnitude := ⟨0x1d4bfffffef390, 1037⟩

/-- A number of milliseconds up to one minute has a duration up to one minute. It is positive
exactly from half a nanosecond on, and the whole minute exactly from half a nanosecond before
it. -/
theorem ofMillis?_spec {m : Magnitude} (hm : m.mant < 2 ^ 53)
    (hrange : m.units ≤ 60000 * Magnitude.unitsPerOne) :
    ∃ d, ofMillis? m = some d ∧ d.nanos ≤ minute ∧
      (0 < d.nanos ↔ Magnitude.unitsPerOne ≤ 2000000 * m.units) ∧
      (d.nanos = minute ↔ (2 * minute - 1) * Magnitude.unitsPerOne ≤ 2000000 * m.units) := by
  -- The end of the range has the duration of one minute.
  have hend : (Magnitude.ofNat 60000).units = 60000 * Magnitude.unitsPerOne := by decide +kernel
  have hfull : ofMillis? (.ofNat 60000) = some ⟨minute⟩ := by decide +kernel
  obtain ⟨d, hd, hle⟩ := ofMillis?_mono (hrange.trans_eq hend.symm) hfull
  have positive : 0 < d.nanos ↔ Magnitude.unitsPerOne ≤ 2000000 * m.units :=
    lt_nanos_iff (show 2 ^ 52 ≤ lastZero.mant by decide) (by decide +kernel) (by decide +kernel)
      (by decide +kernel) (by decide +kernel) hm hd
  have whole : minute - 1 < d.nanos ↔
      (2 * minute - 1) * Magnitude.unitsPerOne ≤ 2000000 * m.units :=
    lt_nanos_iff (show 2 ^ 52 ≤ lastShort.mant by decide) (by decide +kernel) (by decide +kernel)
      (by decide +kernel) (by decide +kernel) hm hd
  have hle : d.nanos ≤ minute := hle
  have minute_pos : 0 < minute := by decide
  refine ⟨d, hd, hle, positive, ?_⟩
  rw [← whole]
  omega

/-! ### From fields to a delay -/

/-- The first field in milliseconds is readable and holds the number `m`, which is in its range. No
number does so where the field is missing or unreadable, where its text is no number, and where it
is not a number, infinite, zero, negative, or a minute or more. -/
def AsksMillis (fields : ResponseFields) (m : Magnitude) : Prop :=
  ∃ s, fieldText? fields "retry-after-ms" = some s ∧ readDecimal? s = some (.finite false m) ∧
    0 < m.units ∧ m.units < 60000 * Magnitude.unitsPerOne

variable {fields : ResponseFields} {m : Magnitude} {d : Duration}

theorem inMillis?_eq_some_iff {s : String} :
    inMillis? s = some d ↔ ∃ m, readDecimal? s = some (.finite false m) ∧
      (0 < m.units ∧ m.units < 60000 * Magnitude.unitsPerOne) ∧ ofMillis? m = some d := by
  unfold inMillis? ofMillis?
  split
  · next m hread =>
    have same : ∀ m', readDecimal? s = some (.finite false m') ↔ m' = m := fun m' => by
      rw [hread, Option.some.injEq, Binary64.finite.injEq]
      exact ⟨fun h => h.2.symm, fun h => ⟨rfl, h.symm⟩⟩
    simp only [same, exists_eq_left, Bool.and_eq_true, decide_eq_true_eq,
      Option.ite_none_right_eq_some]
  · next hother =>
    refine iff_of_false (by simp) ?_
    rintro ⟨m, hread, -⟩
    exact hother m hread

/-- A delay in whole seconds has at least one and at most fifty-nine of them. -/
theorem inSeconds?_range {s : String} (h : inSeconds? s = some d) :
    0 < d.nanos ∧ d.nanos < minute := by
  unfold inSeconds? at h
  split at h
  · next n hn =>
    split at h
    · next hrange =>
      cases h
      simp only [Bool.and_eq_true, decide_eq_true_eq] at hrange
      simp only [Duration.ofSecs, minute, Duration.nanosPerSecond]
      omega
    · cases h
  · cases h

/-- A number of milliseconds in its range goes first. -/
theorem delay?_of_asksMillis (h : AsksMillis fields m) : delay? fields = ofMillis? m := by
  obtain ⟨s, htext, hread, hrange⟩ := h
  obtain ⟨d, hd, -⟩ :=
    ofMillis?_spec (Number.readDecimal?_mant hread) (Nat.le_of_lt hrange.2)
  have hmillis : inMillis? s = some d := inMillis?_eq_some_iff.mpr ⟨m, hread, hrange, hd⟩
  simp only [delay?, htext, Option.bind_some, hmillis, Option.some_or, hd]

/-- Anything else in that field leaves the choice to the field in seconds. -/
theorem delay?_of_not_asksMillis (h : ∀ m, ¬ AsksMillis fields m) :
    delay? fields = (fieldText? fields "retry-after").bind inSeconds? := by
  have hmillis : (fieldText? fields "retry-after-ms").bind inMillis? = none := by
    rw [Option.eq_none_iff_forall_not_mem]
    intro d hd
    obtain ⟨s, htext, hs⟩ := Option.bind_eq_some_iff.mp hd
    obtain ⟨m, hread, hrange, -⟩ := inMillis?_eq_some_iff.mp hs
    exact h m ⟨s, htext, hread, hrange⟩
  simp only [delay?, hmillis, Option.none_or]

/-- **Range of the delays.** If the field in milliseconds holds a number between zero and one
minute, there is a delay, of at most one minute: none at all exactly below half a nanosecond, the
whole minute exactly from half a nanosecond before it, and in between a positive one below a
minute. If it holds anything else or is missing, the field in seconds decides alone, and any delay
is positive and below a minute. -/
theorem delay_bounds (fields : ResponseFields) :
    (∀ m, AsksMillis fields m → ∃ d, delay? fields = some d ∧ d.nanos ≤ minute ∧
      (0 < d.nanos ↔ Magnitude.unitsPerOne ≤ 2000000 * m.units) ∧
      (d.nanos = minute ↔ (2 * minute - 1) * Magnitude.unitsPerOne ≤ 2000000 * m.units)) ∧
    ((∀ m, ¬ AsksMillis fields m) →
      delay? fields = (fieldText? fields "retry-after").bind inSeconds? ∧
      ∀ d, delay? fields = some d → 0 < d.nanos ∧ d.nanos < minute) := by
  constructor
  · intro m hasks
    rw [delay?_of_asksMillis hasks]
    obtain ⟨s, -, hread, hrange⟩ := hasks
    exact ofMillis?_spec (Number.readDecimal?_mant hread) (Nat.le_of_lt hrange.2)
  · intro hnone
    have hseconds := delay?_of_not_asksMillis hnone
    refine ⟨hseconds, ?_⟩
    intro d hd
    rw [hseconds] at hd
    obtain ⟨s, -, hs⟩ := Option.bind_eq_some_iff.mp hd
    exact inSeconds?_range hs

/-- One and a half seconds are asked for, and both ends of the range are far away. -/
theorem delay_bounds_ordinary :
    let fields : ResponseFields := [("Retry-After-Ms", "1.5e3".toUTF8.toList)]
    AsksMillis fields ⟨0x17700000000000, 1032⟩ ∧
      ∃ d, delay? fields = some d ∧ 0 < d.nanos ∧ d.nanos < minute := by
  intro fields
  have hasks : AsksMillis fields ⟨0x17700000000000, 1032⟩ :=
    ⟨"1.5e3", by decide +kernel, by decide +kernel, by decide +kernel, by decide +kernel⟩
  obtain ⟨d, hd, hle, hpositive, hwhole⟩ := (delay_bounds fields).1 _ hasks
  refine ⟨hasks, d, hd, hpositive.mpr (by decide +kernel), ?_⟩
  have hshort : d.nanos ≠ minute := fun heq => absurd (hwhole.mp heq) (by decide +kernel)
  omega

/-- Numbers inside the range of the field whose delays are outside: a tenth of a nanosecond is no
delay, and a tenth of a nanosecond less than a minute is a minute. -/
theorem delay_leaves_range :
    delay? [("retry-after-ms", "1e-7".toUTF8.toList)] = some .zero ∧
      delay? [("retry-after-ms", "59999.9999999".toUTF8.toList)] = some ⟨minute⟩ ∧
      ¬ ∀ fields d, delay? fields = some d → 0 < d.nanos ∧ d.nanos < minute := by
  have hzero : delay? [("retry-after-ms", "1e-7".toUTF8.toList)] = some .zero := by
    decide +kernel
  refine ⟨hzero, by decide +kernel, ?_⟩
  intro hrange
  exact absurd (hrange _ _ hzero).1 (by decide)

end Switchboard.RetryAfter
