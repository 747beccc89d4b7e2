import Mathlib.Tactic.SplitIfs
import Switchboard.Proofs.Text.Utf8

/-!
# The octets of characters

Decoding reads a character octet by octet. What it accepts are exactly the octets that characters
have in UTF-8: none is left out, and none is taken for another one.

- `Reads`: the octets that have been read of an unfinished character.
- `Spells`: the octets that are read as the character with a number.
- `spells_encodeChar`: every character is read from its own octets.
- `Spells.encodeChar_eq`: what is read as a character are its own octets.
- `foldl_feed_encodeChar`: the octets of a character are decoded to it.

The two inductives say what the automaton does without its buffer of pieces; `Reads.foldl_feed` and
`Spells.foldl_feed` tie them to it. On the other side is the encoder of the library, which computes the
octets from the number of the character by division. So the module compares digits in base 64 with
ranges of octets, once for each length. The bounds on the second octet are what makes both directions
true: they keep out the overlong forms, which no character has, and the surrogates, which are numbers
of no character.
-/

namespace Switchboard.Text.Utf8

open String (utf8EncodeChar)

variable {b b₀ b₁ b₂ b₃ : UInt8} {p : List UInt8} {u : Unfinished} {ps : List (Option Char)}
  {n bits missing low high : Nat}

namespace Unfinished

/-- The octet may come next in an unfinished character. -/
def Takes (u : Unfinished) (b : UInt8) : Prop := u.low ≤ b.toNat ∧ b.toNat ≤ u.high

/-- What an unfinished character contributes with one octet more. -/
def number (u : Unfinished) (b : UInt8) : Nat := u.bits * 64 + (b.toNat - 0x80)

end Unfinished

/-- The octets that have been read of an unfinished character. -/
inductive Reads : List UInt8 → Unfinished → Prop
  | first {b : UInt8} {u : Unfinished} (h : start b = .unfinished u) : Reads [b] u
  | more {p : List UInt8} {u : Unfinished} {b : UInt8} (h : Reads p u) (hb : u.Takes b)
      (hm : 1 < u.missing) : Reads (p ++ [b]) ⟨u.number b, u.missing - 1, 0x80, 0xBF⟩

/-- The octets that are read as the character with a number. -/
inductive Spells : List UInt8 → Nat → Prop
  | one {b : UInt8} (h : b.toNat < 0x80) : Spells [b] b.toNat
  | last {p : List UInt8} {u : Unfinished} {b : UInt8} (h : Reads p u) (hb : u.Takes b)
      (hm : u.missing ≤ 1) : Spells (p ++ [b]) (u.number b)

/-! ### First octets -/

/-- The least octet that may follow a first octet of three or four. -/
def leastSecond (first : Nat) : Nat :=
  if first = 0xE0 then 0xA0 else if first = 0xF0 then 0x90 else 0x80

/-- The greatest octet that may follow a first octet of three or four. -/
def greatestSecond (first : Nat) : Nat :=
  if first = 0xED then 0x9F else if first = 0xF4 then 0x8F else 0xBF

theorem second_range (h₁ : leastSecond n ≤ b.toNat ∧ b.toNat ≤ greatestSecond n) :
    0x80 ≤ b.toNat ∧ b.toNat ≤ 0xBF ∧ (n = 0xE0 → 0xA0 ≤ b.toNat) ∧ (n = 0xED → b.toNat ≤ 0x9F) ∧
      (n = 0xF0 → 0x90 ≤ b.toNat) ∧ (n = 0xF4 → b.toNat ≤ 0x8F) := by
  unfold leastSecond greatestSecond at h₁
  split_ifs at h₁ <;> omega

/-- What a first octet begins, by the number of octets that are to follow. -/
theorem start_eq_unfinished_iff : start b = .unfinished u ↔
    (0xC2 ≤ b.toNat ∧ b.toNat ≤ 0xDF ∧ u = ⟨b.toNat - 0xC0, 1, 0x80, 0xBF⟩) ∨
    (0xE0 ≤ b.toNat ∧ b.toNat ≤ 0xEF ∧
      u = ⟨b.toNat - 0xE0, 2, leastSecond b.toNat, greatestSecond b.toNat⟩) ∨
    (0xF0 ≤ b.toNat ∧ b.toNat ≤ 0xF4 ∧
      u = ⟨b.toNat - 0xF0, 3, leastSecond b.toNat, greatestSecond b.toNat⟩) := by
  simp only [start, Bool.and_eq_true, decide_eq_true_eq, beq_iff_eq, leastSecond, greatestSecond]
  generalize b.toNat = n
  grind

theorem toNat_octet (h : n < 256) : (UInt8.ofNat n).toNat = n := by
  rw [UInt8.toNat_ofNat']
  exact Nat.mod_eq_of_lt h

theorem start_two (h : 2 ≤ n ∧ n < 32) :
    start (UInt8.ofNat (n % 32 + 192)) = .unfinished ⟨n, 1, 0x80, 0xBF⟩ := by
  rw [start_eq_unfinished_iff, toNat_octet (by omega), Nat.mod_eq_of_lt h.2, Nat.add_sub_cancel]
  exact .inl ⟨by omega, by omega, rfl⟩

theorem start_three (h : n < 16) : start (UInt8.ofNat (n % 16 + 224)) =
    .unfinished ⟨n, 2, leastSecond (n + 224), greatestSecond (n + 224)⟩ := by
  rw [start_eq_unfinished_iff, toNat_octet (by omega), Nat.mod_eq_of_lt h, Nat.add_sub_cancel]
  exact .inr (.inl ⟨by omega, by omega, rfl⟩)

theorem start_four (h : n < 5) : start (UInt8.ofNat (n % 8 + 240)) =
    .unfinished ⟨n, 3, leastSecond (n + 240), greatestSecond (n + 240)⟩ := by
  rw [start_eq_unfinished_iff, toNat_octet (by omega), Nat.mod_eq_of_lt (by omega),
    Nat.add_sub_cancel]
  exact .inr (.inr ⟨by omega, by omega, rfl⟩)

/-! ### Every character is spelled -/

theorem takes_octet (h : n < 64) (hlow : low ≤ n + 128) (hhigh : n + 128 ≤ high) :
    Unfinished.Takes ⟨bits, missing, low, high⟩ (UInt8.ofNat (n + 128)) := by
  unfold Unfinished.Takes
  rw [toNat_octet (by omega)]
  exact ⟨hlow, hhigh⟩

theorem number_octet (h : n < 64) :
    Unfinished.number ⟨bits, missing, low, high⟩ (UInt8.ofNat (n + 128)) = bits * 64 + n := by
  unfold Unfinished.number
  rw [toNat_octet (by omega), Nat.add_sub_cancel]

/-- Every character is read from its own octets. -/
theorem spells_encodeChar (c : Char) : Spells (utf8EncodeChar c) c.val.toNat := by
  have hvalid : c.val.toNat < 0xD800 ∨ 0xDFFF < c.val.toNat ∧ c.val.toNat < 0x110000 := c.valid
  unfold utf8EncodeChar
  generalize c.val.toNat = v at *
  dsimp only
  have hlast : v % 64 < 64 := Nat.mod_lt _ (by decide)
  have hbefore : v / 64 % 64 < 64 := Nat.mod_lt _ (by decide)
  have hsecond : v / 4096 % 64 < 64 := Nat.mod_lt _ (by decide)
  -- One case for each number of octets, with the digits of the number in base 64.
  split_ifs with hone htwo hthree
  · have hspells := Spells.one (b := UInt8.ofNat v) (by rw [toNat_octet] <;> omega)
    rwa [toNat_octet (by omega)] at hspells
  · have hspells := Spells.last (.first (start_two (n := v / 64) (by omega)))
      (takes_octet hlast (by omega) (by omega)) (Nat.le_refl 1)
    have hnumber : v / 64 * 64 + v % 64 = v := by omega
    rwa [number_octet hlast, hnumber] at hspells
  · have hrange : leastSecond (v / 4096 + 224) ≤ v / 64 % 64 + 128 ∧
        v / 64 % 64 + 128 ≤ greatestSecond (v / 4096 + 224) := by
      unfold leastSecond greatestSecond
      split_ifs <;> omega
    have hspells := Spells.last (.more (.first (start_three (n := v / 4096) (by omega)))
      (takes_octet hbefore hrange.1 hrange.2) Nat.one_lt_two)
      (takes_octet hlast (by omega) (by omega)) (Nat.le_refl 1)
    have hnumber : (v / 4096 * 64 + v / 64 % 64) * 64 + v % 64 = v := by omega
    rwa [number_octet hlast, number_octet hbefore, hnumber] at hspells
  · have hrange : leastSecond (v / 262144 + 240) ≤ v / 4096 % 64 + 128 ∧
        v / 4096 % 64 + 128 ≤ greatestSecond (v / 262144 + 240) := by
      unfold leastSecond greatestSecond
      split_ifs <;> omega
    have hspells := Spells.last (.more (.more (.first (start_four (n := v / 262144) (by omega)))
      (takes_octet hsecond hrange.1 hrange.2) (Nat.lt_succ_of_lt Nat.one_lt_two))
      (takes_octet hbefore (by omega) (by omega)) Nat.one_lt_two)
      (takes_octet hlast (by omega) (by omega)) (Nat.le_refl 1)
    have hnumber : ((v / 262144 * 64 + v / 4096 % 64) * 64 + v / 64 % 64) * 64 + v % 64 = v := by
      omega
    rwa [number_octet hlast, number_octet hbefore, number_octet hsecond, hnumber] at hspells

/-! ### What is spelled is a character -/

theorem val_ofNat (h : n < 0xD800 ∨ 0xDFFF < n ∧ n < 0x110000) :
    (Char.ofNat n).val.toNat = n := by
  have hvalid : n.isValidChar := h
  rw [Char.ofNat, dif_pos hvalid]
  rfl

theorem encode_two (h₀ : 0xC2 ≤ b₀.toNat ∧ b₀.toNat ≤ 0xDF)
    (h₁ : 0x80 ≤ b₁.toNat ∧ b₁.toNat ≤ 0xBF) :
    utf8EncodeChar (Char.ofNat ((b₀.toNat - 0xC0) * 64 + (b₁.toNat - 0x80))) = [b₀, b₁] := by
  unfold utf8EncodeChar
  rw [val_ofNat (by omega)]
  dsimp only
  rw [if_neg (by omega), if_pos (by omega)]
  simp only [List.cons.injEq, ← UInt8.toNat_inj, UInt8.toNat_ofNat', and_true]
  omega

theorem encode_three (h₀ : 0xE0 ≤ b₀.toNat ∧ b₀.toNat ≤ 0xEF)
    (h₁ : leastSecond b₀.toNat ≤ b₁.toNat ∧ b₁.toNat ≤ greatestSecond b₀.toNat)
    (h₂ : 0x80 ≤ b₂.toNat ∧ b₂.toNat ≤ 0xBF) :
    utf8EncodeChar (Char.ofNat (((b₀.toNat - 0xE0) * 64 + (b₁.toNat - 0x80)) * 64 +
      (b₂.toNat - 0x80))) = [b₀, b₁, b₂] := by
  have hrange := second_range h₁
  unfold utf8EncodeChar
  rw [val_ofNat (by omega)]
  dsimp only
  rw [if_neg (by omega), if_neg (by omega), if_pos (by omega)]
  simp only [List.cons.injEq, ← UInt8.toNat_inj, UInt8.toNat_ofNat', and_true]
  omega

theorem encode_four (h₀ : 0xF0 ≤ b₀.toNat ∧ b₀.toNat ≤ 0xF4)
    (h₁ : leastSecond b₀.toNat ≤ b₁.toNat ∧ b₁.toNat ≤ greatestSecond b₀.toNat)
    (h₂ : 0x80 ≤ b₂.toNat ∧ b₂.toNat ≤ 0xBF) (h₃ : 0x80 ≤ b₃.toNat ∧ b₃.toNat ≤ 0xBF) :
    utf8EncodeChar (Char.ofNat ((((b₀.toNat - 0xF0) * 64 + (b₁.toNat - 0x80)) * 64 +
      (b₂.toNat - 0x80)) * 64 + (b₃.toNat - 0x80))) = [b₀, b₁, b₂, b₃] := by
  have hrange := second_range h₁
  unfold utf8EncodeChar
  rw [val_ofNat (by omega)]
  dsimp only
  rw [if_neg (by omega), if_neg (by omega), if_neg (by omega)]
  simp only [List.cons.injEq, ← UInt8.toNat_inj, UInt8.toNat_ofNat', and_true]
  omega

/-- A character has at most four octets. -/
theorem Reads.length_le (h : Reads p u) : 1 ≤ p.length ∧ p.length + u.missing ≤ 4 := by
  induction h with
  | first h =>
    rcases start_eq_unfinished_iff.mp h with ⟨-, -, rfl⟩ | ⟨-, -, rfl⟩ | ⟨-, -, rfl⟩ <;> simp
  | more h hb hm ih =>
    rw [List.length_append, List.length_singleton]
    dsimp only
    omega

/-- What is read as a character are its own octets. -/
theorem Spells.encodeChar_eq (h : Spells p n) : utf8EncodeChar (Char.ofNat n) = p := by
  cases h with
  | one h =>
    unfold utf8EncodeChar
    rw [val_ofNat (by omega)]
    dsimp only
    rw [if_pos (by omega), UInt8.ofNat_toNat]
  | last h hb hm =>
    -- One case for each number of octets; the first octet must have announced just as many.
    cases h with
    | first hs =>
      rcases start_eq_unfinished_iff.mp hs with ⟨hl, hr, rfl⟩ | ⟨-, -, rfl⟩ | ⟨-, -, rfl⟩
      · exact encode_two ⟨hl, hr⟩ hb
      · simp at hm
      · simp at hm
    | more h hb₂ hm₂ =>
      cases h with
      | first hs =>
        rcases start_eq_unfinished_iff.mp hs with ⟨-, -, rfl⟩ | ⟨hl, hr, rfl⟩ | ⟨-, -, rfl⟩
        · simp at hm₂
        · exact encode_three ⟨hl, hr⟩ hb₂ hb
        · simp at hm
      | more h hb₁ hm₁ =>
        cases h with
        | first hs =>
          rcases start_eq_unfinished_iff.mp hs with ⟨-, -, rfl⟩ | ⟨-, -, rfl⟩ | ⟨hl, hr, rfl⟩
          · simp at hm₁
          · simp at hm₂
          · exact encode_four ⟨hl, hr⟩ hb₁ hb₂ hb
        | more h _ hm₀ =>
          obtain ⟨hone, hfour⟩ := h.length_le
          dsimp only at hm₁ hm₂
          omega

/-! ### Decoding a character -/

theorem feed_start (h : start b = .unfinished u) : Progress.feed ⟨ps, none⟩ b = ⟨ps, some u⟩ := by
  simp only [Progress.feed, Progress.begin, h]

theorem feed_last (h : u.Takes b) (hm : u.missing ≤ 1) :
    Progress.feed ⟨ps, some u⟩ b = ⟨some (Char.ofNat (u.number b)) :: ps, none⟩ := by
  unfold Progress.feed
  dsimp only
  rw [if_pos (by simpa [Unfinished.Takes] using h), if_pos hm]
  rfl

theorem feed_more (h : u.Takes b) (hm : 1 < u.missing) :
    Progress.feed ⟨ps, some u⟩ b = ⟨ps, some ⟨u.number b, u.missing - 1, 0x80, 0xBF⟩⟩ := by
  unfold Progress.feed
  dsimp only
  rw [if_pos (by simpa [Unfinished.Takes] using h), if_neg (by omega)]
  rfl

/-- An octet that may not come next ends an unfinished character as ill-formed. -/
theorem feed_ill (h : ¬ u.Takes b) :
    Progress.feed ⟨ps, some u⟩ b = Progress.feed ⟨none :: ps, none⟩ b := by
  unfold Progress.feed
  dsimp only
  rw [if_neg (by simpa [Unfinished.Takes] using h)]

theorem Reads.foldl_feed (h : Reads p u) : p.foldl Progress.feed ⟨[], none⟩ = ⟨[], some u⟩ := by
  induction h with
  | first h => exact feed_start h
  | more h hb hm ih => rw [List.foldl_append, ih, List.foldl_cons, feed_more hb hm, List.foldl_nil]

theorem Spells.foldl_feed (h : Spells p n) :
    p.foldl Progress.feed ⟨[], none⟩ = ⟨[some (Char.ofNat n)], none⟩ := by
  cases h with
  | one h => simp only [List.foldl_cons, List.foldl_nil, Progress.feed, Progress.begin, start_of_lt h]
  | last h hb hm =>
    rw [List.foldl_append, h.foldl_feed, List.foldl_cons, feed_last hb hm, List.foldl_nil]

/-- The octets of a character are decoded to it. -/
theorem foldl_feed_encodeChar (c : Char) :
    (utf8EncodeChar c).foldl Progress.feed ⟨[], none⟩ = ⟨[some c], none⟩ := by
  have hc : Char.ofNat c.val.toNat = c := Char.ofNat_toNat c
  have hrun := (spells_encodeChar c).foldl_feed
  rwa [hc] at hrun

end Switchboard.Text.Utf8
