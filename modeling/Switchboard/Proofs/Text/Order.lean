import Mathlib.Tactic.SplitIfs
import Switchboard.Text.Utf8

/-!
# The order of texts

Texts are in the order of their characters, and that is also the order of their octets: UTF-8 was made
so. A list kept in the order of its texts is therefore in the order of their octets.

- `encode_eq`: the octets of a text are those of its characters.
- `encodeChar_lt`: the first of two characters has the lesser octets, whatever follows them.
- `encode_lt`: so does the first of two texts; `encode_le_iff`.
-/

namespace Switchboard.Text.Utf8

variable {c d : Char} {s t : String}

/-! ### Octets of characters -/

theorem toList_loop (bytes : ByteArray) (i : Nat) (r : List UInt8) :
    ByteArray.toList.loop bytes i r = r.reverse ++ bytes.data.toList.drop i := by
  fun_induction ByteArray.toList.loop bytes i r with
  | case1 i r h ih =>
    have hi : i < bytes.data.toList.length := h
    have hget : bytes.get! i = bytes.data.toList[i] := by
      show bytes.data[i]! = _
      rw [getElem!_pos bytes.data i h, Array.getElem_toList]
    rw [ih, List.drop_eq_getElem_cons hi, hget, List.reverse_cons, List.append_assoc]
    rfl
  | case2 i r h =>
    have hi : bytes.data.toList.length ≤ i := Nat.le_of_not_lt h
    rw [List.drop_eq_nil_of_le hi, List.append_nil]

theorem encode_eq (s : String) : encode s = s.toList.flatMap String.utf8EncodeChar := by
  have hbytes : s.toByteArray.data.toList = s.toList.flatMap String.utf8EncodeChar := by
    rw [← String.utf8Encode_toList, List.utf8Encode, List.toList_data_toByteArray]
  have hloop := toList_loop s.toByteArray 0 []
  rw [hbytes] at hloop
  exact hloop

/-! ### Order -/

/-- A number by its last three digits in base 64 and what is before them. -/
theorem digits_eq (n : Nat) :
    n = 262144 * (n / 262144) + 4096 * (n / 4096 % 64) + 64 * (n / 64 % 64) + n % 64 := by
  omega

/-- The first octet of a character grows with the number of its octets, and of two characters with as
many octets the digits decide, from the first to the last. -/
theorem encodeChar_lt (h : c < d) (xs ys : List UInt8) :
    String.utf8EncodeChar c ++ xs < String.utf8EncodeChar d ++ ys := by
  have hlt : c.val.toNat < d.val.toNat := h
  have hmax : d.val.toNat < 0x110000 := by
    rcases d.valid with h | ⟨-, h⟩ <;> omega
  have hc := digits_eq c.val.toNat
  have hd := digits_eq d.val.toNat
  unfold String.utf8EncodeChar
  generalize c.val.toNat = v at *
  generalize d.val.toNat = w at *
  dsimp only
  split_ifs <;> simp only [List.cons_append, List.nil_append, List.cons_lt_cons_iff,
    UInt8.lt_iff_toNat_lt, ← UInt8.toNat_inj, UInt8.toNat_ofNat']
  -- No octet overflows.
  all_goals
    simp (disch := omega) only [Nat.mod_eq_of_lt]
    omega

theorem flatMap_encodeChar_lt {l m : List Char} (h : l < m) :
    l.flatMap String.utf8EncodeChar < m.flatMap String.utf8EncodeChar := by
  induction h with
  | @nil d m =>
    rw [List.flatMap_nil, List.flatMap_cons]
    obtain ⟨b, bs, hb⟩ := List.exists_cons_of_ne_nil (String.utf8EncodeChar_ne_nil (c := d))
    rw [hb]
    exact List.nil_lt_cons _ _
  | rel hlt =>
    rw [List.flatMap_cons, List.flatMap_cons]
    exact encodeChar_lt hlt _ _
  | cons _ ih =>
    rw [List.flatMap_cons, List.flatMap_cons]
    exact List.append_left_lt ih

/-- A text that comes first has the lesser octets. -/
theorem encode_lt (h : s < t) : encode s < encode t := by
  rw [encode_eq, encode_eq]
  exact flatMap_encodeChar_lt h

theorem encode_le_iff : encode s ≤ encode t ↔ s ≤ t := by
  constructor
  · intro h
    refine String.not_lt.mp fun hlt => ?_
    exact absurd h (List.not_le.mpr (encode_lt hlt))
  · intro h
    by_cases heq : s = t
    · rw [heq]
      exact List.le_refl _
    · exact List.le_of_lt (encode_lt (Std.lt_of_le_of_ne h heq))

end Switchboard.Text.Utf8
