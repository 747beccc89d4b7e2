import Mathlib.Tactic.SplitIfs
import Switchboard.Proofs.Json.Grammar

/-!
# Strings are read as they are spelled

The reader of a string goes character by character and keeps in an `Escape` how far it is inside one.
What it takes up to the closing quote is exactly what the grammar allows there, and it is read as what
it stands for.

- `readString_spelling`, `readString_spelled`: a character, and a whole string, however it is spelled.
- `Inside`: the text of an escape that is not finished.
- `readString_eq_ok_iff`: nothing else is read.

From the grammar to the reader the induction is over the spelling, and each spelling is a fixed run of
the automaton. The way back has no spelling to go by. There the induction is over the text, with
`Inside` between the state of the automaton and what it has passed since the last whole character:
`readString_cons` says that one more character ends the string, keeps the escape unfinished, or makes it
the spelling of a character. The two halves of a surrogate pair are the reason that an escape can be
unfinished after four digits.
-/

namespace Switchboard

/-- Every character takes an octet at least. -/
theorem Text.Utf8.le_sizeUpTo (a b c d : Char) (rest : List Char) :
    4 ≤ sizeUpTo 4 (a :: b :: c :: d :: rest) := by
  have ha := a.utf8Size_pos
  have hb := b.utf8Size_pos
  have hc := c.utf8Size_pos
  have hd := d.utf8Size_pos
  show 4 ≤ min 4 (0 + a.utf8Size + b.utf8Size + c.utf8Size + d.utf8Size)
  omega

namespace Json

variable {s r w pre rest done ds : List Char} {c x : Char} {e : Escape} {n missing : Nat}
  {high : Option Nat}

/-! ### Escapes -/

theorem hexNumber?_concat (ds : List Char) (c : Char) :
    hexNumber? (ds ++ [c]) =
      (hexNumber? ds).bind fun n => (Text.hexValue? c).map (16 * n + ·) := by
  unfold hexNumber?
  rw [List.foldlM_append]
  simp

theorem simpleEscape?_eq_some_iff : simpleEscape? x = some c ↔ (x, c) ∈ letters := by
  unfold simpleEscape?
  constructor
  · intro h
    split_ifs at h with hself hb hf hn hr ht
    · simp only [Bool.or_eq_true, beq_iff_eq] at hself
      obtain rfl := Option.some.inj h
      rcases hself with (rfl | rfl) | rfl <;> decide
    · rw [eq_of_beq hb, ← Option.some.inj h]; decide
    · rw [eq_of_beq hf, ← Option.some.inj h]; decide
    · rw [eq_of_beq hn, ← Option.some.inj h]; decide
    · rw [eq_of_beq hr, ← Option.some.inj h]; decide
    · rw [eq_of_beq ht, ← Option.some.inj h]; decide
  · intro h
    simp only [letters, List.mem_cons, Prod.mk.injEq, List.not_mem_nil, or_false] at h
    rcases h with ⟨rfl, rfl⟩ | ⟨rfl, rfl⟩ | ⟨rfl, rfl⟩ | ⟨rfl, rfl⟩ | ⟨rfl, rfl⟩ | ⟨rfl, rfl⟩ |
      ⟨rfl, rfl⟩ | ⟨rfl, rfl⟩ <;> decide

theorem Hex4.cases (h : Hex4 s n) :
    ∃ a b c d i j k l, s = [a, b, c, d] ∧ Text.hexValue? a = some i ∧ Text.hexValue? b = some j ∧
      Text.hexValue? c = some k ∧ Text.hexValue? d = some l ∧
      n = 16 * (16 * (16 * (16 * 0 + i) + j) + k) + l := by
  obtain ⟨hlength, hn⟩ := h
  match s, hlength with
  | [a, b, c, d], _ =>
    simp only [hexNumber?, List.foldlM_cons, List.foldlM_nil, Option.bind_eq_bind,
      Option.bind_eq_some_iff, Option.map_eq_some_iff, Option.pure_def, Option.some.injEq] at hn
    obtain ⟨_, ⟨i, hi, rfl⟩, _, ⟨j, hj, rfl⟩, _, ⟨k, hk, rfl⟩, _, ⟨l, hl, rfl⟩, rfl⟩ := hn
    exact ⟨a, b, c, d, i, j, k, l, rfl, hi, hj, hk, hl, rfl⟩

/-- Four digits that make a character. -/
theorem readString_char (hs : Hex4 s n) (hx : unit16 high n = .char x) (done rest : List Char) :
    readString (.digits high 4 0) done (s ++ rest) = readString .outside (x :: done) rest := by
  obtain ⟨a, b, c, d, i, j, k, l, rfl, ha, hb, hc, hd, rfl⟩ := hs.cases
  simp only [List.cons_append, List.nil_append, readString, ha, hb, hc, hd, hx]
  rfl

/-- Four digits that are the first half of a pair. -/
theorem readString_high {h : Nat} (hs : Hex4 s n) (hx : unit16 high n = .high h)
    (done rest : List Char) :
    readString (.digits high 4 0) done (s ++ rest) = readString (.pairBackslash h) done rest := by
  obtain ⟨a, b, c, d, i, j, k, l, rfl, ha, hb, hc, hd, rfl⟩ := hs.cases
  simp only [List.cons_append, List.nil_append, readString, ha, hb, hc, hd, hx]
  rfl

/-- The octets of four digits are there. -/
theorem Hex4.not_sizeUpTo_lt (hs : Hex4 s n) (rest : List Char) :
    ¬ Text.Utf8.sizeUpTo 4 (s ++ rest) < 4 := by
  obtain ⟨a, b, c, d, -, -, -, -, rfl, -⟩ := hs.cases
  exact Nat.not_lt.mpr (Text.Utf8.le_sizeUpTo a b c d rest)

/-- However a character is spelled, it is read as that character. -/
theorem readString_spelling (h : Spelling w c) (done rest : List Char) :
    readString .outside done (w ++ rest) = readString .outside (c :: done) rest := by
  cases h with
  | plain hcontrol hquote hbackslash =>
    have hlow : ¬ c.toNat < 0x20 := Nat.not_lt.mpr hcontrol
    simp [readString, hquote, hbackslash, hlow]
  | @letter x _ hx =>
    have hu : x ≠ 'u' := by
      rintro rfl
      simp [letters] at hx
    simp [readString, hu, simpleEscape?_eq_some_iff.mpr hx]
  | @number s n hs hn =>
    -- A unit outside the range of surrogates stands for itself.
    have hunit : unit16 none n = .char (Char.ofNat n) := by
      unfold unit16
      rw [if_neg (by simp; omega), if_neg (by simp; omega)]
    simp [readString, hs.not_sizeUpTo_lt rest, readString_char hs hunit]
  | @pair s s' n n' hs hn hs' hn' =>
    have hhigh : unit16 none n = .high n := by
      unfold unit16
      rw [if_neg (by simp; omega), if_pos (by simpa using hn)]
    have hlow : unit16 (some n) n' =
        .char (Char.ofNat ((n - 0xD800) * 0x400 + (n' - 0xDC00) + 0x10000)) := by
      unfold unit16
      exact if_pos (by simpa using hn')
    simp [readString, hs.not_sizeUpTo_lt, hs'.not_sizeUpTo_lt, readString_high hs hhigh,
      readString_char hs' hlow]

/-- A string is read up to its closing quote. -/
theorem readString_spelled {cs : List Char} (h : Spelled w cs) (done rest : List Char) :
    readString .outside done (w ++ '"' :: rest) =
      .ok (String.ofList (done.reverse ++ cs), rest) := by
  induction h generalizing done with
  | nil => simp [readString]
  | cons hw _ ih =>
    rw [List.append_assoc, readString_spelling hw, ih, List.reverse_cons, List.append_assoc]
    rfl

/-! ### What is read -/

/-- The text of an escape that is not finished. -/
inductive Inside : Escape → List Char → Prop
  | outside : Inside .outside []
  | begun : Inside .begun ['\\']
  | digits {ds : List Char} {n missing : Nat} (hlength : ds.length + missing = 4) (hmissing : 0 < missing)
      (hds : hexNumber? ds = some n) : Inside (.digits none missing n) ('\\' :: 'u' :: ds)
  | pairBackslash {s : List Char} {h : Nat} (hs : Hex4 s h) (hh : 0xD800 ≤ h ∧ h ≤ 0xDBFF) :
      Inside (.pairBackslash h) ('\\' :: 'u' :: s)
  | pairLetter {s : List Char} {h : Nat} (hs : Hex4 s h) (hh : 0xD800 ≤ h ∧ h ≤ 0xDBFF) :
      Inside (.pairLetter h) ('\\' :: 'u' :: s ++ ['\\'])
  | pairDigits {s ds : List Char} {h n missing : Nat} (hs : Hex4 s h)
      (hh : 0xD800 ≤ h ∧ h ≤ 0xDBFF)
      (hlength : ds.length + missing = 4) (hmissing : 0 < missing)
      (hds : hexNumber? ds = some n) :
      Inside (.digits (some h) missing n) ('\\' :: 'u' :: s ++ '\\' :: 'u' :: ds)

/-- One more digit. -/
theorem hexNumber?_concat_some {d : Nat} (hds : hexNumber? ds = some n)
    (hd : Text.hexValue? c = some d) : hexNumber? (ds ++ [c]) = some (16 * n + d) := by
  rw [hexNumber?_concat, hds, hd]
  rfl

theorem unit16_none_eq_char (h : unit16 none n = .char x) :
    (n < 0xD800 ∨ 0xDFFF < n) ∧ x = Char.ofNat n := by
  unfold unit16 at h
  split_ifs at h with hlow hhigh
  simp only [Bool.and_eq_true, decide_eq_true_eq] at hlow hhigh
  exact ⟨by omega, (Unit16.char.inj h).symm⟩

theorem unit16_some_eq_char {m : Nat} (h : unit16 (some m) n = .char x) :
    (0xDC00 ≤ n ∧ n ≤ 0xDFFF) ∧
      x = Char.ofNat ((m - 0xD800) * 0x400 + (n - 0xDC00) + 0x10000) := by
  unfold unit16 at h
  split_ifs at h with hlow
  simp only [Bool.and_eq_true, decide_eq_true_eq] at hlow
  exact ⟨hlow, (Unit16.char.inj h).symm⟩

theorem unit16_eq_high {m : Nat} (h : unit16 high n = .high m) :
    high = none ∧ m = n ∧ 0xD800 ≤ n ∧ n ≤ 0xDBFF := by
  unfold unit16 at h
  cases high with
  | none =>
    dsimp only at h
    split_ifs at h with hlow hhigh
    simp only [Bool.and_eq_true, decide_eq_true_eq] at hhigh
    exact ⟨rfl, (Unit16.high.inj h).symm, hhigh⟩
  | some k =>
    dsimp only at h
    split_ifs at h

/-- The digits that are there and one more are the four. -/
theorem Hex4.of_last {d : Nat} (hlength : ds.length + missing = 4) (hmissing : ¬ 1 < missing)
    (hpos : 0 < missing) (hds : hexNumber? ds = some n) (hd : Text.hexValue? c = some d) :
    Hex4 (ds ++ [c]) (16 * n + d) := by
  refine ⟨?_, hexNumber?_concat_some hds hd⟩
  rw [List.length_append, List.length_singleton]
  omega

/-- One character ends the string, goes on with an escape, or finishes the spelling of a character. -/
theorem readString_cons {y : String} (he : Inside e pre)
    (h : readString e done (c :: s) = .ok (y, r)) :
    (pre = [] ∧ c = '"' ∧ y = String.ofList done.reverse ∧ s = r) ∨
      (∃ e', Inside e' (pre ++ [c]) ∧ readString e' done s = .ok (y, r)) ∨
      ∃ x, Spelling (pre ++ [c]) x ∧ readString .outside (x :: done) s = .ok (y, r) := by
  simp only [readString] at h
  -- One case for each place inside an escape that a character can come to.
  cases he with
  | outside =>
    dsimp only at h
    split_ifs at h with hquote hbackslash hcontrol
    · obtain ⟨rfl, rfl⟩ := Prod.mk.inj (Except.ok.inj h)
      exact .inl ⟨rfl, eq_of_beq hquote, rfl, rfl⟩
    · rw [eq_of_beq hbackslash]
      exact .inr (.inl ⟨_, .begun, h⟩)
    · refine .inr (.inr ⟨c, .plain (Nat.not_lt.mp hcontrol) ?_ ?_, h⟩)
      · exact fun hc => hquote (beq_iff_eq.mpr hc)
      · exact fun hc => hbackslash (beq_iff_eq.mpr hc)
  | begun =>
    dsimp only at h
    split_ifs at h with hu
    · rw [eq_of_beq hu]
      have hdigits : Inside (.digits none 4 0) ['\\', 'u'] := .digits rfl (by decide) rfl
      exact .inr (.inl ⟨_, hdigits, h⟩)
    · split at h
      · rename_i x hx
        exact .inr (.inr ⟨x, .letter (simpleEscape?_eq_some_iff.mp hx), h⟩)
      · cases h
  | @digits ds n missing hlength hpos hds =>
    dsimp only at h
    split at h
    · cases h
    · rename_i d hd
      split_ifs at h with hmissing
      · have hlength' : (ds ++ [c]).length + (missing - 1) = 4 := by
          rw [List.length_append, List.length_singleton]
          omega
        exact .inr (.inl ⟨_, .digits hlength' (by omega) (hexNumber?_concat_some hds hd), h⟩)
      · have hfour := Hex4.of_last hlength hmissing hpos hds hd
        split at h
        · rename_i x hx
          obtain ⟨hrange, rfl⟩ := unit16_none_eq_char hx
          exact .inr (.inr ⟨_, .number hfour hrange, h⟩)
        · rename_i m hm
          obtain ⟨-, rfl, hrange⟩ := unit16_eq_high hm
          exact .inr (.inl ⟨_, .pairBackslash hfour hrange, h⟩)
        · cases h
  | pairBackslash hs hh =>
    dsimp only at h
    split_ifs at h with hbackslash
    rw [eq_of_beq hbackslash]
    exact .inr (.inl ⟨_, .pairLetter hs hh, h⟩)
  | @pairLetter s n hs hh =>
    dsimp only at h
    split_ifs at h with hu
    have hdigits : Inside (.digits (some n) 4 0) ('\\' :: 'u' :: s ++ ['\\', 'u']) :=
      .pairDigits hs hh rfl (by decide) rfl
    rw [eq_of_beq hu, List.append_assoc]
    exact .inr (.inl ⟨_, hdigits, h⟩)
  | @pairDigits _ ds _ n missing hs hh hlength hpos hds =>
    rw [List.append_assoc]
    dsimp only at h
    split at h
    · cases h
    · rename_i d hd
      split_ifs at h with hmissing
      · have hlength' : (ds ++ [c]).length + (missing - 1) = 4 := by
          rw [List.length_append, List.length_singleton]
          omega
        exact .inr (.inl
          ⟨_, .pairDigits hs hh hlength' (by omega) (hexNumber?_concat_some hds hd), h⟩)
      · have hfour := Hex4.of_last hlength hmissing hpos hds hd
        split at h
        · rename_i x hx
          obtain ⟨hrange, hvalue⟩ := unit16_some_eq_char hx
          rw [hvalue] at h
          exact .inr (.inr ⟨_, .pair hs hh hfour hrange, h⟩)
        · rename_i m hm
          obtain ⟨hnone, -⟩ := unit16_eq_high hm
          cases hnone
        · cases h

/-- What an unfinished escape and the rest of the string are read as, they spell. -/
theorem spelled_of_readString {y : String} (he : Inside e pre)
    (h : readString e done s = .ok (y, r)) :
    ∃ w cs, pre ++ s = w ++ '"' :: r ∧ Spelled w cs ∧
      y = String.ofList (done.reverse ++ cs) := by
  induction s generalizing e done pre with
  | nil => simp [readString] at h
  | cons c s ih =>
    rcases readString_cons he h with ⟨rfl, rfl, rfl, rfl⟩ | ⟨e', he', h'⟩ | ⟨x, hx, h'⟩
    · exact ⟨[], [], rfl, .nil, by rw [List.append_nil]⟩
    · have hgo := ih he' h'
      rwa [List.append_assoc] at hgo
    · obtain ⟨w, cs, hs, hw, rfl⟩ := ih .outside h'
      rw [List.nil_append] at hs
      refine ⟨pre ++ [c] ++ w, x :: cs, ?_, .cons hx hw, ?_⟩
      · rw [hs]
        simp
      · rw [List.reverse_cons, List.append_assoc]
        rfl

/-- A string is read exactly if a closing quote comes after what the grammar allows in one. -/
theorem readString_eq_ok_iff {y : String} :
    readString .outside [] s = .ok (y, r) ↔ ∃ w, s = w ++ '"' :: r ∧ Spelled w y.toList := by
  constructor
  · intro h
    obtain ⟨w, cs, hs, hw, rfl⟩ := spelled_of_readString .outside h
    refine ⟨w, hs, ?_⟩
    rwa [List.reverse_nil, List.nil_append, String.toList_ofList]
  · rintro ⟨w, rfl, hw⟩
    rw [readString_spelled hw, List.reverse_nil, List.nil_append, String.ofList_toList]

end Json

end Switchboard
