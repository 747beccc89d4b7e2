import Switchboard.Json.Printer
import Switchboard.Proofs.Json.Numbers
import Switchboard.Proofs.Json.Strings

/-!
# The tokens of a text

Every token but an ill-formed one stands for a piece of the text that the grammar allows, and a piece
that the grammar allows is one token. What the printer writes is a piece of the grammar as any other, so
what is printed is scanned without another argument.

- `spelled_escape`: the escapes of the printer spell what they were made of.
- `Lexeme`: the piece of text behind a token.
- `lexeme_of_longer`, `scan_cases`: each token has its piece, and the pieces make up the text.
- `keeps_scan`: what a reader keeps from token to token holds of the text that it has passed.
- `Reads`, `Passes`: how far a piece of text takes a reader that goes from token to token.

Nothing here knows the reader of documents: `step` is any function of tokens. `keeps_scan` is the one
induction over a text for an invariant of such a function, and `Reads` and `Passes` compose along pieces
in the other direction. The two differ only in `Ends`, which a piece needs if it may be a number;
`Passes.punctuation` turns the one into the other as soon as a comma or a bracket stands behind it.
-/

namespace Switchboard

theorem Text.hexValue?_hexDigit {n : Nat} (h : n < 16) : hexValue? (hexDigit n) = some n := by
  have hall : ∀ k < 16, hexValue? (hexDigit k) = some k := by decide
  exact hall n h

namespace Json

variable {σ ε : Type} {step : σ → Token → Except ε σ} {a a' a'' : σ}
  {s s' w rest r pre : List Char} {c : Char} {t : Token} {j : Json}

/-! ### What is printed -/

/-- The escape of a character spells it. -/
theorem spelling_escape (c : Char) : Spelling (escape c) c := by
  unfold escape
  split_ifs with hquote hbackslash hletter hletter hletter hletter hletter hcontrol
  · rw [eq_of_beq hquote]
    exact .letter (by decide)
  · rw [eq_of_beq hbackslash]
    exact .letter (by decide)
  -- The five controls that have a letter.
  iterate 5
    · rw [eq_of_beq hletter]
      exact .letter (by decide)
  · have hzero : Text.hexValue? '0' = some 0 := by decide
    have hhigh := Text.hexValue?_hexDigit (n := c.toNat / 16) (by omega)
    have hlow := Text.hexValue?_hexDigit (n := c.toNat % 16) (Nat.mod_lt _ (by decide))
    have hdigits : Hex4 ['0', '0', Text.hexDigit (c.toNat / 16), Text.hexDigit (c.toNat % 16)]
        c.toNat := by
      refine ⟨rfl, ?_⟩
      simp only [hexNumber?, List.foldlM_cons, List.foldlM_nil, hzero, hhigh, hlow, Option.map_some,
        Option.bind_eq_bind, Option.bind_some, Option.pure_def, Option.some.injEq]
      omega
    have hspelling := Spelling.number hdigits (.inl (by omega))
    rwa [Char.ofNat_toNat] at hspelling
  · have hne : ∀ {x : Char}, ¬ (c == x) = true → c ≠ x := fun h heq => h (beq_iff_eq.mpr heq)
    exact .plain (Nat.not_lt.mp hcontrol) (hne hquote) (hne hbackslash)

theorem spelled_escape (cs : List Char) : Spelled (cs.flatMap escape) cs := by
  induction cs with
  | nil => exact .nil
  | cons c cs ih => exact .cons (spelling_escape c) ih

/-! ### Tokens -/

theorem scan_nil : scan [] = [] := by rw [scan]

theorem scan_space (hspace : isSpace c = true) (rest : List Char) : scan (c :: rest) = scan rest := by
  rw [scan, if_pos hspace]

theorem scan_punctuation (hspace : isSpace c = false) (h : punctuation? c = some t)
    (rest : List Char) : scan (c :: rest) = t :: scan rest := by
  rw [scan, hspace, h]
  rfl

theorem scan_longer (hspace : isSpace c = false) (hpunctuation : punctuation? c = none)
    (h : longer c rest = .ok (t, r)) : scan (c :: rest) = t :: scan r := by
  rw [scan, hspace, if_neg Bool.false_ne_true, hpunctuation]
  dsimp only
  split
  · rename_i h'
    obtain ⟨rfl, rfl⟩ := Prod.mk.inj (Except.ok.inj (h.symm.trans h'))
    rfl
  · rename_i h'
    cases h.symm.trans h'

theorem scan_ill (hspace : isSpace c = false) (hpunctuation : punctuation? c = none)
    (h : longer c rest = .error t) : scan (c :: rest) = [t] := by
  rw [scan, hspace, if_neg Bool.false_ne_true, hpunctuation]
  dsimp only
  split
  · rename_i h'
    cases h.symm.trans h'
  · rename_i h'
    rw [Except.error.inj (h.symm.trans h')]

theorem scan_spaces (hw : Spaces w) (rest : List Char) : scan (w ++ rest) = scan rest := by
  induction w with
  | nil => rfl
  | cons c w ih =>
    rw [List.cons_append, scan_space (hw c List.mem_cons_self),
      ih fun x hx => hw x (List.mem_cons_of_mem _ hx)]

theorem readWord_eq_ok_iff {letters : List Char} : readWord letters s = .ok r ↔ s = letters ++ r := by
  induction letters generalizing s with
  | nil => simp [readWord]
  | cons l letters ih =>
    cases s with
    | nil => simp [readWord]
    | cons c s =>
      by_cases hc : l = c
      · simp [readWord, hc, ih]
      · simp [readWord, hc, Ne.symm hc]

/-- A character that is no digit is told apart from one. -/
theorem beq_digit {x : Char} (hc : Text.isDigit c = true) (hx : Text.isDigit x = false) :
    (c == x) = false := by
  refine Bool.eq_false_iff.mpr fun h => ?_
  rw [eq_of_beq h, hx] at hc
  cases hc

theorem isSpace_digit (hc : Text.isDigit c = true) : isSpace c = false := by
  simp only [isSpace, beq_digit hc (x := ' ') rfl, beq_digit hc (x := '\n') rfl,
    beq_digit hc (x := '\t') rfl, beq_digit hc (x := '\r') rfl, Bool.or_self]

theorem punctuation?_digit (hc : Text.isDigit c = true) : punctuation? c = none := by
  simp only [punctuation?, beq_digit hc (x := '\x7b') rfl, beq_digit hc (x := '\x7d') rfl,
    beq_digit hc (x := '[') rfl, beq_digit hc (x := ']') rfl, beq_digit hc (x := ':') rfl,
    beq_digit hc (x := ',') rfl, Bool.false_eq_true, if_false]

theorem longer_minus (h : readNumber true rest = .ok (j, r)) :
    longer '-' rest = .ok (.scalar j, r) := by
  simp [longer, h]

theorem longer_digit (hc : Text.isDigit c = true) (h : readNumber false (c :: rest) = .ok (j, r)) :
    longer c rest = .ok (.scalar j, r) := by
  simp only [longer, beq_digit hc (x := '"') rfl, beq_digit hc (x := 'n') rfl,
    beq_digit hc (x := 't') rfl, beq_digit hc (x := 'f') rfl, beq_digit hc (x := '-') rfl, hc,
    Bool.false_eq_true, if_false, if_true, h]

/-- The pieces of text behind the tokens. None stands behind an ill-formed one. -/
inductive Lexeme : Token → List Char → Prop
  | openObject : Lexeme .openObject ['\x7b']
  | closeObject : Lexeme .closeObject ['\x7d']
  | openArray : Lexeme .openArray ['[']
  | closeArray : Lexeme .closeArray [']']
  | colon : Lexeme .colon [':']
  | comma : Lexeme .comma [',']
  | scalar {i l} (h : Written (.value i) l) (hi : i.depth = 0) : Lexeme (.scalar i) l
  | text {x l} (h : Spelled l x.toList) : Lexeme (.text x) ('"' :: (l ++ ['"']))

/-- An ill-formed piece. -/
inductive Ill : Token → Prop
  | text (f : Fault) : Ill (.badText f)
  | scalar (f : Fault) : Ill (.badScalar f)

theorem lexeme_of_punctuation? (h : punctuation? c = some t) : Lexeme t [c] := by
  unfold punctuation? at h
  split_ifs at h with hc hc hc hc hc hc
  · rw [eq_of_beq hc, ← Option.some.inj h]; exact .openObject
  · rw [eq_of_beq hc, ← Option.some.inj h]; exact .closeObject
  · rw [eq_of_beq hc, ← Option.some.inj h]; exact .openArray
  · rw [eq_of_beq hc, ← Option.some.inj h]; exact .closeArray
  · rw [eq_of_beq hc, ← Option.some.inj h]; exact .colon
  · rw [eq_of_beq hc, ← Option.some.inj h]; exact .comma

/-- A number is an integer or a double. -/
theorem numeral_cases (h : Numeral s j) : (∃ n, j = .int n) ∨ ∃ x, j = .real x := by
  cases h with
  | mk _ _ _ hj =>
    unfold numberOf at hj
    dsimp only at hj
    repeat' split at hj
    all_goals cases hj
    all_goals first | exact .inl ⟨_, rfl⟩ | exact .inr ⟨_, rfl⟩

theorem depth_of_numeral (h : Numeral s j) : j.depth = 0 := by
  obtain ⟨n, rfl⟩ | ⟨x, rfl⟩ := numeral_cases h <;> rfl

/-- A longer token stands for a piece of the grammar, or it is ill formed. -/
theorem lexeme_of_longer {result : Except Token (Token × List Char)} (h : longer c rest = result) :
    (∃ t l r, result = .ok (t, r) ∧ c :: rest = l ++ r ∧ Lexeme t l) ∨
      ∃ t, result = .error t ∧ Ill t := by
  have hword : ∀ {j letters r}, Written (.value j) (c :: letters) → j.depth = 0 →
      readWord letters rest = .ok r → .ok (.scalar j, r) = result →
      ∃ t l r, result = .ok (t, r) ∧ c :: rest = l ++ r ∧ Lexeme t l := by
    rintro j letters r hj hdepth hr rfl
    rw [readWord_eq_ok_iff.mp hr]
    exact ⟨_, c :: letters, r, rfl, rfl, .scalar hj hdepth⟩
  have hnumber : ∀ {negative s j r}, c :: rest = sign negative ++ s →
      readNumber negative s = .ok (j, r) → .ok (.scalar j, r) = result →
      ∃ t l r, result = .ok (t, r) ∧ c :: rest = l ++ r ∧ Lexeme t l := by
    rintro negative s j r hs hr rfl
    obtain ⟨l, rfl, hl⟩ := numeral_of_readNumber hr
    rw [hs, ← List.append_assoc]
    exact ⟨_, sign negative ++ l, r, rfl, rfl, .scalar (.number hl) (depth_of_numeral hl)⟩
  have hill : ∀ {f}, .error (.badScalar f) = result → ∃ t, result = .error t ∧ Ill t := by
    rintro f rfl
    exact ⟨_, rfl, .scalar f⟩
  -- The first character decides: a string, one of the three words, or a number.
  unfold longer at h
  dsimp only at h
  split_ifs at h with hquote hn ht hf hminus hdigit
  · obtain rfl := eq_of_beq hquote
    split at h
    · rename_i x r hr
      obtain ⟨l, rfl, hl⟩ := readString_eq_ok_iff.mp hr
      exact .inl ⟨_, '"' :: (l ++ ['"']), r, h.symm, by simp, .text hl⟩
    · exact .inr ⟨_, h.symm, .text _⟩
  · split at h
    · rename_i r hr
      exact .inl (hword (eq_of_beq hn ▸ .null) rfl hr h)
    · exact .inr (hill h)
  · split at h
    · rename_i r hr
      exact .inl (hword (eq_of_beq ht ▸ .yes) rfl hr h)
    · exact .inr (hill h)
  · split at h
    · rename_i r hr
      exact .inl (hword (eq_of_beq hf ▸ .no) rfl hr h)
    · exact .inr (hill h)
  · split at h
    · rename_i j r hr
      exact .inl (hnumber (by rw [eq_of_beq hminus]; rfl) hr h)
    · exact .inr (hill h)
  · split at h
    · rename_i j r hr
      exact .inl (hnumber rfl hr h)
    · exact .inr (hill h)
  · exact .inr (hill h)

theorem Lexeme.ne_nil {l : List Char} (h : Lexeme t l) : l ≠ [] := by
  cases h with
  | scalar h _ =>
    cases h with
    | number h =>
      cases h with
      | mk hw _ _ _ => simp [hw.1.1]
    | _ => exact List.cons_ne_nil _ _
  | _ => exact List.cons_ne_nil _ _

/-- How a text goes on: with white space, with a piece of the grammar, or with an ill-formed piece. -/
theorem scan_cases (s : List Char) :
    s = [] ∨ (∃ c rest, s = c :: rest ∧ isSpace c = true ∧ scan s = scan rest) ∨
      (∃ t l rest, s = l ++ rest ∧ Lexeme t l ∧ scan s = t :: scan rest) ∨
        ∃ t, Ill t ∧ scan s = [t] := by
  cases s with
  | nil => exact .inl rfl
  | cons c rest =>
    by_cases hc : isSpace c = true
    · exact .inr (.inl ⟨c, rest, rfl, hc, scan_space hc rest⟩)
    have hc := Bool.eq_false_iff.mpr hc
    cases hp : punctuation? c with
    | some t =>
      exact .inr (.inr (.inl ⟨t, [c], rest, rfl, lexeme_of_punctuation? hp, scan_punctuation hc hp rest⟩))
    | none =>
      rcases lexeme_of_longer (Eq.refl (longer c rest)) with
        ⟨t, l, r, hlonger, hs, hl⟩ | ⟨t, hlonger, ht⟩
      · exact .inr (.inr (.inl ⟨t, l, r, hs, hl, scan_longer hc hp hlonger⟩))
      · exact .inr (.inr (.inr ⟨t, ht, scan_ill hc hp hlonger⟩))

/-- **What white space and every piece of the grammar keep is kept by a whole text.** A reader that is
stopped by ill-formed pieces meets none. -/
theorem keeps_scan {P : σ → List Char → Prop} (hill : ∀ a a' t, Ill t → step a t ≠ .ok a')
    (hspace : ∀ a pre c, isSpace c = true → P a pre → P a (pre ++ [c]))
    (hstep : ∀ a a' t pre l, Lexeme t l → step a t = .ok a' → P a pre → P a' (pre ++ l))
    (ha : P a pre) (hrun : (scan s).foldlM step a = .ok a') : P a' (pre ++ s) := by
  have htoken : ∀ {a : σ} {t : Token} {ts : List Token}, (t :: ts).foldlM step a = .ok a' →
      ∃ b, step a t = .ok b ∧ ts.foldlM step b = .ok a' := by
    intro a t ts h
    rw [List.foldlM_cons] at h
    cases hb : step a t with
    | error e => rw [hb] at h; cases h
    | ok b => exact ⟨b, rfl, by rwa [hb] at h⟩
  -- Over the length, since a token takes any number of characters.
  induction hn : s.length using Nat.strongRecOn generalizing s a pre with
  | _ n ih =>
    rcases scan_cases s with rfl | ⟨c, rest, rfl, hc, hscan⟩ | ⟨t, l, rest, rfl, hl, hscan⟩ | ⟨t, ht, hscan⟩
    · rw [scan_nil] at hrun
      obtain rfl := Except.ok.inj hrun
      rwa [List.append_nil]
    · have hshorter : rest.length < n := by
        rw [← hn, List.length_cons]
        omega
      have hgo := ih _ hshorter (hspace a pre c hc ha) (hscan ▸ hrun) rfl
      rwa [List.append_assoc] at hgo
    · obtain ⟨b, hb, hrun⟩ := htoken (hscan ▸ hrun)
      have hshorter : rest.length < n := by
        have hpos := List.length_pos_iff.mpr hl.ne_nil
        rw [← hn, List.length_append]
        omega
      have hgo := ih _ hshorter (hstep a b t pre l hl hb ha) hrun rfl
      rwa [List.append_assoc] at hgo
    · obtain ⟨b, hb, -⟩ := htoken (hscan ▸ hrun)
      exact absurd hb (hill a b t ht)

/-! ### Readers -/

/-- The text `s`, whatever follows it, takes a reader from one place to another. -/
def Reads (step : σ → Token → Except ε σ) (a : σ) (s : List Char) (a' : σ) : Prop :=
  ∀ rest, (scan (s ++ rest)).foldlM step a = (scan rest).foldlM step a'

/-- The same, if something that may follow a value follows it. -/
def Passes (step : σ → Token → Except ε σ) (a : σ) (s : List Char) (a' : σ) : Prop :=
  ∀ rest, Ends rest → (scan (s ++ rest)).foldlM step a = (scan rest).foldlM step a'

theorem Reads.passes (h : Reads step a s a') : Passes step a s a' := fun rest _ => h rest

theorem Reads.trans (h : Reads step a s a') (h' : Reads step a' s' a'') :
    Reads step a (s ++ s') a'' := by
  intro rest
  rw [List.append_assoc, h, h']

theorem Reads.trans_passes (h : Reads step a s a') (h' : Passes step a' s' a'') :
    Passes step a (s ++ s') a'' := by
  intro rest hrest
  rw [List.append_assoc, h, h' rest hrest]

/-- What may follow a value closes it. -/
theorem Passes.punctuation (h : Passes step a s a') (hc : c ∈ [',', ']', '\x7d'])
    (ht : punctuation? c = some t) (hstep : step a' t = .ok a'') : Reads step a (s ++ [c]) a'' := by
  have hspace : isSpace c = false := by
    simp only [List.mem_cons, List.not_mem_nil, or_false] at hc
    rcases hc with rfl | rfl | rfl <;> rfl
  intro rest
  rw [List.append_assoc, List.singleton_append, h _ (.cons (.inr hc)), scan_punctuation hspace ht,
    List.foldlM_cons, hstep]
  rfl

theorem Passes.spaces (h : Passes step a s a') (hw : Spaces w) : Passes step a (s ++ w) a' := by
  intro rest hrest
  rw [List.append_assoc, h _ (hrest.spaces hw), scan_spaces hw]

theorem Reads.spaces (hw : Spaces w) (a : σ) : Reads step a w a := by
  intro rest
  rw [scan_spaces hw]

theorem Reads.punctuation (hspace : isSpace c = false) (h : punctuation? c = some t)
    (hstep : step a t = .ok a') : Reads step a [c] a' := by
  intro rest
  rw [List.singleton_append, scan_punctuation hspace h, List.foldlM_cons, hstep]
  rfl

/-- A token that is longer than one character, before what may follow it. -/
theorem foldlM_scan_longer (hspace : isSpace c = false) (hpunctuation : punctuation? c = none)
    (h : longer c rest = .ok (t, r)) (hstep : step a t = .ok a') :
    (scan (c :: rest)).foldlM step a = (scan r).foldlM step a' := by
  rw [scan_longer hspace hpunctuation h, List.foldlM_cons, hstep]
  rfl

/-- A string, however it is spelled. -/
theorem Reads.string {x : String} (hs : Spelled s x.toList) (hstep : step a (.text x) = .ok a') :
    Reads step a ('"' :: (s ++ ['"'])) a' := by
  intro rest
  have hlonger : longer '"' (s ++ ['"'] ++ rest) = .ok (.text x, rest) := by
    unfold longer
    rw [List.append_assoc, List.singleton_append, readString_eq_ok_iff.mpr ⟨s, rfl, hs⟩]
    rfl
  exact foldlM_scan_longer (by decide) (by decide) hlonger hstep

/-- A printed string. -/
theorem Reads.quote {x : String} (hstep : step a (.text x) = .ok a') :
    Reads step a (Json.quote x) a' :=
  .string (spelled_escape x.toList) hstep

theorem Reads.null (hstep : step a (.scalar .null) = .ok a') :
    Reads step a ['n', 'u', 'l', 'l'] a' :=
  fun _ => foldlM_scan_longer (by decide) (by decide) rfl hstep

theorem Reads.yes (hstep : step a (.scalar (.bool true)) = .ok a') :
    Reads step a ['t', 'r', 'u', 'e'] a' :=
  fun _ => foldlM_scan_longer (by decide) (by decide) rfl hstep

theorem Reads.no (hstep : step a (.scalar (.bool false)) = .ok a') :
    Reads step a ['f', 'a', 'l', 's', 'e'] a' :=
  fun _ => foldlM_scan_longer (by decide) (by decide) rfl hstep

/-- A number. Its end is found only by what follows it. -/
theorem Passes.numeral (h : Numeral s j) (hstep : step a (.scalar j) = .ok a') :
    Passes step a s a' := by
  intro rest hrest
  cases h with
  | @mk negative w f e fraction power _ hw hf he hj =>
    have hread := readNumber_append hw hf he hj hrest
    rw [List.append_assoc, List.append_assoc, List.append_assoc]
    cases negative with
    | true => exact foldlM_scan_longer (by decide) (by decide) (longer_minus hread) hstep
    | false =>
      obtain ⟨d, ds, rfl⟩ := List.exists_cons_of_ne_nil hw.1.1
      have hd := hw.1.2 d List.mem_cons_self
      exact foldlM_scan_longer (isSpace_digit hd) (punctuation?_digit hd) (longer_digit hd hread) hstep

/-- Nothing is left to read. -/
theorem Passes.foldlM_eq (h : Passes step a s a') : (scan s).foldlM step a = .ok a' := by
  have hend := h [] .nil
  rw [List.append_nil, scan_nil] at hend
  exact hend

theorem Reads.foldlM_eq (h : Reads step a s a') : (scan s).foldlM step a = .ok a' :=
  h.passes.foldlM_eq

end Json

end Switchboard
