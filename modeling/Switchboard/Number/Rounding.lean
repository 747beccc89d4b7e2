/-!
# Rounding a quotient

- `roundDiv`: the integer nearest to a quotient. A half goes to the even neighbour.
-/

namespace Switchboard.Number

/-- The integer nearest to `num / den`, and the even one of two that are equally near. -/
def roundDiv (num den : Nat) : Nat :=
  let q := num / den
  let r := num % den
  if 2 * r < den then q else if den < 2 * r then q + 1 else q + q % 2

theorem roundDiv_mul (n : Nat) {den : Nat} (h : 0 < den) : roundDiv (n * den) den = n := by
  simp [roundDiv, Nat.mul_div_cancel _ h, h]

end Switchboard.Number
