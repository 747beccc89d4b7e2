import Mathlib.Data.List.Infix
import Switchboard.Proofs.Text.Spelling

/-!
# Texts of octets that are no text

Where no character begins, the octets that one could have begun with, as many as possible, are
replaced together by U+FFFD, and then the text goes on. Decoding does this octet by octet, without
going back.

- `Begins`: octets that a character could begin with.
- `FirstPiece`: the first piece of octets, a character or an ill-formed one, and what follows it.
- `Lossy`: the text of octets, piece by piece.
- `decodeLossy_eq_iff`: decoding finds this text and no other.

None of the definitions mentions the decoder: `Begins` asks for a character whose octets start so, and
`Ill` for the longest such piece. `Lossy` is a relation and not a second decoder, since the longest
piece is described and not computed; `FirstPiece.unique` and `Lossy.unique` make it a function.

That the decoder never goes back is right because of two facts about what was read of an unfinished
character. It can always be finished (`Reads.begins`), so it is all a piece; and an octet that may not
come next makes it the beginning of no character (`Reads.not_begins`), so the piece ends there.
-/

namespace Switchboard.Text.Utf8

open String (utf8EncodeChar)

variable {b : UInt8} {p q bytes rest : List UInt8} {u : Unfinished} {text : List Char}

/-- The octets could begin a character. -/
def Begins (p : List UInt8) : Prop := ∃ c : Char, p <+: utf8EncodeChar c

/-- The octets `bytes` begin with no character, and `piece` is what is replaced of them: the longest
piece that could begin one, or a single octet if none could. -/
structure Ill (piece bytes : List UInt8) : Prop where
  ne_nil : piece ≠ []
  no_char : ∀ c : Char, ¬ utf8EncodeChar c <+: bytes
  begins : Begins piece ∨ piece.length = 1
  longest : ∀ q, q <+: bytes → Begins q → q.length ≤ piece.length

/-- The first piece of `bytes`, a character or an ill-formed one, and what follows it. -/
inductive FirstPiece (bytes : List UInt8) : Option Char → List UInt8 → Prop
  | char (c : Char) {rest : List UInt8} (h : bytes = utf8EncodeChar c ++ rest) :
    FirstPiece bytes (some c) rest
  | ill {piece rest : List UInt8} (h : bytes = piece ++ rest) (hill : Ill piece bytes) :
    FirstPiece bytes none rest

/-- The text of octets, with U+FFFD for each ill-formed piece. -/
inductive Lossy : List UInt8 → List Char → Prop
  | nil : Lossy [] []
  | cons {bytes rest : List UInt8} {x : Option Char} {text : List Char}
      (h : FirstPiece bytes x rest) (more : Lossy rest text) :
    Lossy bytes (x.getD '\uFFFD' :: text)

/-! ### What no character begins with -/

theorem Begins.shorter (h : Begins q) (hp : p <+: q) : Begins p := by
  obtain ⟨c, hc⟩ := h
  exact ⟨c, hp.trans hc⟩

/-- What was decoded stays decoded. -/
theorem suffix_pieces (bytes : List UInt8) (p : Progress) :
    p.pieces <:+ (bytes.foldl Progress.feed p).pieces := by
  have hgrow := foldl_feed_append bytes ⟨[], p.unfinished⟩ p.pieces
  rw [List.nil_append] at hgrow
  show p.pieces <:+ (bytes.foldl Progress.feed ⟨p.pieces, p.unfinished⟩).pieces
  rw [hgrow]
  exact List.suffix_append _ _

/-- No character begins with octets in which something was found ill-formed. -/
theorem not_begins (h : none ∈ (p.foldl Progress.feed ⟨[], none⟩).pieces) : ¬ Begins p := by
  rintro ⟨c, t, ht⟩
  have hrun := foldl_feed_encodeChar c
  rw [← ht, List.foldl_append] at hrun
  have hmem := (suffix_pieces t _).subset h
  rw [hrun] at hmem
  simp at hmem

theorem not_begins_of_ill (h : start b = .ill) : ¬ Begins [b] := by
  refine not_begins ?_
  simp only [List.foldl_cons, List.foldl_nil, Progress.feed, Progress.begin, h]
  exact List.mem_singleton_self _

/-- No character is spelled like the beginning of another one. -/
theorem eq_of_begins_encodeChar {c d : Char} (h : utf8EncodeChar c <+: utf8EncodeChar d) :
    c = d := by
  obtain ⟨t, ht⟩ := h
  have hrun := foldl_feed_encodeChar d
  rw [← ht, List.foldl_append, foldl_feed_encodeChar] at hrun
  have hmem := (suffix_pieces t ⟨[some c], none⟩).subset (List.mem_singleton_self _)
  rw [hrun] at hmem
  simpa using hmem

namespace Reads

theorem not_begins (h : Reads p u) (hb : ¬ u.Takes b) : ¬ Begins (p ++ [b]) := by
  refine Utf8.not_begins ?_
  rw [List.foldl_append, h.foldl_feed, List.foldl_cons, List.foldl_nil, feed_ill hb]
  exact (suffix_pieces [b] ⟨[none], none⟩).subset (List.mem_singleton_self _)

theorem no_char_within (h : Reads p u) (c : Char) : ¬ utf8EncodeChar c <+: p := by
  rintro ⟨t, rfl⟩
  have hrun := h.foldl_feed
  rw [List.foldl_append, foldl_feed_encodeChar] at hrun
  have hsuffix := suffix_pieces t ⟨[some c], none⟩
  rw [hrun] at hsuffix
  simp at hsuffix

/-- There is always an octet that may come next. -/
theorem takes_low (h : Reads p u) : u.Takes (UInt8.ofNat u.low) := by
  have hrange : u.low ≤ u.high ∧ u.low < 256 := by
    cases h with
    | first h =>
      rcases start_eq_unfinished_iff.mp h with ⟨-, -, rfl⟩ | ⟨-, -, rfl⟩ | ⟨-, -, rfl⟩
      · simp
      · unfold leastSecond greatestSecond
        dsimp only
        split_ifs <;> omega
      · unfold leastSecond greatestSecond
        dsimp only
        split_ifs <;> omega
    | more h hb hm => simp
  unfold Unfinished.Takes
  rw [toNat_octet hrange.2]
  exact ⟨Nat.le_refl _, hrange.1⟩

/-- What is unfinished can be finished. -/
theorem begins (h : Reads p u) : Begins p := by
  induction hm : u.missing using Nat.strong_induction_on generalizing p u with
  | _ m ih =>
    by_cases hlast : u.missing ≤ 1
    · refine ⟨Char.ofNat (u.number (UInt8.ofNat u.low)), ?_⟩
      rw [(Spells.last h h.takes_low hlast).encodeChar_eq]
      exact List.prefix_append _ _
    · have hmore := Reads.more h h.takes_low (Nat.lt_of_not_le hlast)
      exact (ih (u.missing - 1) (by omega) hmore rfl).shorter (List.prefix_append _ _)

/-- What was read is an ill-formed piece if the octets end, or go on with one that may not come
next. -/
theorem ill (h : Reads p u) (hs : ∀ b ∈ bytes.head?, ¬ u.Takes b) : Ill p (p ++ bytes) := by
  have hshort (q : List UInt8) (hq : q <+: p ++ bytes) (hbegins : Begins q) :
      q.length ≤ p.length := by
    by_contra hlong
    cases bytes with
    | nil =>
      rw [List.append_nil] at hq
      exact hlong hq.length_le
    | cons b s =>
      have hnext : p ++ [b] <+: p ++ b :: s := ⟨s, by simp⟩
      refine h.not_begins (hs b rfl) (hbegins.shorter ?_)
      refine List.prefix_of_prefix_length_le hnext hq ?_
      rw [List.length_append, List.length_singleton]
      omega
  refine ⟨List.length_pos_iff.mp h.length_le.1, fun c hc => ?_, .inl h.begins, hshort⟩
  have hle := hshort _ hc ⟨c, List.prefix_rfl⟩
  exact h.no_char_within c (List.prefix_of_prefix_length_le hc (List.prefix_append _ _) hle)

end Reads

/-- An octet that no character begins with is an ill-formed piece. -/
theorem ill_singleton (h : start b = .ill) (s : List UInt8) : Ill [b] (b :: s) := by
  have hnone (q : List UInt8) (hq : q <+: b :: s) (hbegins : Begins q) : q = [] := by
    rcases q with _ | ⟨x, q⟩
    · rfl
    · obtain ⟨rfl, -⟩ := List.cons_prefix_cons.mp hq
      exact absurd (hbegins.shorter (List.prefix_append [x] q)) (not_begins_of_ill h)
  refine ⟨List.cons_ne_nil _ _, fun c hc => ?_, .inr rfl, fun q hq hbegins => ?_⟩
  · exact String.utf8EncodeChar_ne_nil (hnone _ hc ⟨c, List.prefix_rfl⟩)
  · rw [hnone q hq hbegins]
    exact Nat.zero_le _

/-! ### Decoding piece by piece -/

theorem finish_foldl_feed (x : Option Char) (bytes : List UInt8) :
    (bytes.foldl Progress.feed ⟨[x], none⟩).finish = x :: pieces bytes := by
  have hgrow := foldl_feed_append bytes ⟨[], none⟩ [x]
  rw [List.nil_append] at hgrow
  rw [hgrow, pieces]
  rcases bytes.foldl Progress.feed ⟨[], none⟩ with ⟨ps, _ | u⟩
  · simp [Progress.finish]
  · simp [Progress.finish]

/-- Inside a character, decoding finds the piece that it is in and goes on behind it. -/
theorem Reads.exists_firstPiece (h : Reads p u) (s : List UInt8) :
    ∃ x rest, FirstPiece (p ++ s) x rest ∧
      (s.foldl Progress.feed ⟨[], some u⟩).finish = x :: pieces rest := by
  induction s generalizing p u with
  | nil =>
    refine ⟨none, [], .ill rfl (h.ill ?_), rfl⟩
    simp
  | cons b s ih =>
    rw [List.foldl_cons]
    -- The character goes on, and is complete or not, or it breaks off here.
    by_cases hb : u.Takes b
    · by_cases hm : u.missing ≤ 1
      · refine ⟨some (Char.ofNat (u.number b)), s, .char _ ?_, ?_⟩
        · rw [(Spells.last h hb hm).encodeChar_eq, List.append_assoc, List.singleton_append]
        · rw [feed_last hb hm, finish_foldl_feed]
      · have hmore := ih (h.more hb (Nat.lt_of_not_le hm))
        rw [feed_more hb (Nat.lt_of_not_le hm)]
        rwa [List.append_assoc, List.singleton_append] at hmore
    · -- The octet is not part of the ill-formed piece but begins the next one.
      refine ⟨none, b :: s, .ill rfl (h.ill ?_), ?_⟩
      · simpa using hb
      · rw [feed_ill hb, ← List.foldl_cons, finish_foldl_feed]

theorem exists_firstPiece (b : UInt8) (s : List UInt8) :
    ∃ x rest, FirstPiece (b :: s) x rest ∧ pieces (b :: s) = x :: pieces rest := by
  unfold pieces
  rw [List.foldl_cons]
  rcases hb : start b with c | u | _
  · obtain ⟨hlt, rfl⟩ := eq_of_start_whole hb
    refine ⟨some (Char.ofNat b.toNat), s, .char _ ?_, ?_⟩
    · rw [(Spells.one hlt).encodeChar_eq, List.singleton_append]
    · simp only [Progress.feed, Progress.begin, hb]
      exact finish_foldl_feed _ s
  · rw [feed_start hb]
    exact (Reads.first hb).exists_firstPiece s
  · refine ⟨none, s, .ill List.singleton_append.symm (ill_singleton hb s), ?_⟩
    simp only [Progress.feed, Progress.begin, hb]
    exact finish_foldl_feed _ s

theorem Ill.length_le {piece piece' : List UInt8} (h : Ill piece bytes) (h' : Ill piece' bytes)
    (hp : piece <+: bytes) : piece.length ≤ piece'.length := by
  rcases h.begins with hbegins | hone
  · exact h'.longest piece hp hbegins
  · rw [hone]
    exact List.length_pos_iff.mpr h'.ne_nil

namespace FirstPiece

variable {x y : Option Char} {rest' : List UInt8}

theorem length_lt (h : FirstPiece bytes x rest) : rest.length < bytes.length := by
  have hpiece : ∃ piece, bytes = piece ++ rest ∧ piece ≠ [] := by
    cases h with
    | char c h => exact ⟨_, h, String.utf8EncodeChar_ne_nil⟩
    | ill h hill => exact ⟨_, h, hill.ne_nil⟩
  obtain ⟨piece, rfl, hne⟩ := hpiece
  have hpos := List.length_pos_iff.mpr hne
  rw [List.length_append]
  omega

theorem unique (h : FirstPiece bytes x rest) (h' : FirstPiece bytes y rest') :
    x = y ∧ rest = rest' := by
  cases h with
  | char c h =>
    cases h' with
    | char d h' =>
      have hcd : c = d := by
        -- The octets of one character are a prefix of those of the other.
        rcases List.prefix_or_prefix_of_prefix ⟨rest, h.symm⟩ ⟨rest', h'.symm⟩ with hp | hp
        · exact eq_of_begins_encodeChar hp
        · exact (eq_of_begins_encodeChar hp).symm
      subst hcd
      exact ⟨rfl, List.append_cancel_left (h.symm.trans h')⟩
    | ill h' hill => exact absurd ⟨rest, h.symm⟩ (hill.no_char c)
  | ill h hill =>
    cases h' with
    | char d h' => exact absurd ⟨rest', h'.symm⟩ (hill.no_char d)
    | ill h' hill' =>
      have hlength := Nat.le_antisymm (hill.length_le hill' ⟨_, h.symm⟩)
        (hill'.length_le hill ⟨_, h'.symm⟩)
      exact ⟨rfl, (List.append_inj (h.symm.trans h') hlength).2⟩

end FirstPiece

/-! ### Texts -/

theorem lossy_pieces (bytes : List UInt8) :
    Lossy bytes ((pieces bytes).map fun x => x.getD '\uFFFD') := by
  induction hn : bytes.length using Nat.strong_induction_on generalizing bytes with
  | _ n ih =>
    cases bytes with
    | nil => exact .nil
    | cons b s =>
      obtain ⟨x, rest, hfirst, hpieces⟩ := exists_firstPiece b s
      rw [hpieces, List.map_cons]
      exact .cons hfirst (ih rest.length (hn ▸ hfirst.length_lt) rest rfl)

theorem Lossy.unique {text' : List Char} (h : Lossy bytes text) (h' : Lossy bytes text') :
    text = text' := by
  induction h generalizing text' with
  | nil =>
    cases h' with
    | nil => rfl
    | cons hfirst more => cases hfirst.length_lt
  | cons hfirst more ih =>
    cases h' with
    | nil => cases hfirst.length_lt
    | cons hfirst' more' =>
      obtain ⟨rfl, rfl⟩ := hfirst.unique hfirst'
      rw [ih more']

/-- Characters stay what they are, whatever follows them. -/
theorem Lossy.chars (h : Lossy rest text) (cs : List Char) :
    Lossy (cs.flatMap utf8EncodeChar ++ rest) (cs ++ text) := by
  induction cs with
  | nil => exact h
  | cons c cs ih =>
    rw [List.flatMap_cons, List.append_assoc]
    exact .cons (.char c rfl) ih

/-- **Decoding replaces the ill-formed pieces and nothing else.** -/
theorem decodeLossy_eq_iff {t : String} : decodeLossy bytes = t ↔ Lossy bytes t.toList := by
  constructor
  · rintro rfl
    unfold decodeLossy
    rw [String.toList_ofList]
    exact lossy_pieces bytes
  · intro h
    unfold decodeLossy
    rw [(lossy_pieces bytes).unique h, String.ofList_toList]

end Switchboard.Text.Utf8
