import Mathlib.Data.List.Infix
import Mathlib.Tactic.SplitIfs
import Switchboard.Proofs.EventStream.Draining
import Switchboard.Proofs.Text.Utf8
import Switchboard.EventStream.Frame

/-!
# The lines of an event stream

A stream is cut at octets that look like a blank line, never line by line. Where each line ends is
read off it here, and the cuts are found again between the lines.

- `Line`, `splitLines`: the lines of a stream, each ended by LF or CR LF.
- `Line.Closes`: the second of two lines is a blank one that a cut is made at.
- `Tame`: streams in which a blank line after another line always closes it.
- `cutFrom_of_closes`, `cutFrom_line`: the search for a cut goes from line to line.
- `Frame.absorb_eq`: a line adds its field to a frame, whatever kind of line it is.
- `lines_segment`: the lines that a frame is parsed into are those of the stream.

Whether a blank line cuts depends on the line before it, because the two octets of LF LF and the four of
CR LF CR LF begin in the end of that one. A line that LF alone ends and a blank line that CR LF ends
have neither between them, and this is the one combination that `Tame` leaves out. A blank line with LF
alone behind a line with CR LF does cut, and leaves its CR in the frame; `Line.trace` is that CR, and
`lines_segment` shows that it makes no difference to the lines of the frame.

A frame is decoded as a whole, and its lines are taken from the characters. They are the lines of the
stream since LF and CR are ASCII, so that decoding may be cut at them (`chars?_append_cons`). In this
way each lemma about a frame goes by induction over the lines behind which its last one stands.
-/

namespace Switchboard.EventStream

/-- A line without its end, and whether that is CR LF and not LF alone. -/
structure Line where
  content : Bytes
  crLf : Bool
  deriving DecidableEq, Repr

namespace Line

def terminator (l : Line) : Bytes := if l.crLf then [cr, lf] else [lf]

def bytes (l : Line) : Bytes := l.content ++ l.terminator

/-- A cut is made at the line `l'` behind `l`: it is blank, and LF LF or CR LF CR LF stands
there. -/
def Closes (l l' : Line) : Prop := l'.content = [] ∧ (l'.crLf = true → l.crLf = true)

instance (l l' : Line) : Decidable (l.Closes l') := inferInstanceAs (Decidable (_ ∧ _))

/-- No octet of the line looks like an end of it. -/
def Clean (l : Line) : Prop := ∀ b ∈ l.content, b ≠ lf ∧ b ≠ cr

end Line

/-- The lines of a stream that have ended, and what follows the last one. -/
def splitLines : Bytes → List Line × Bytes
  | [] => ([], [])
  | 10 :: s => (⟨[], false⟩ :: (splitLines s).1, (splitLines s).2)
  | 13 :: 10 :: s => (⟨[], true⟩ :: (splitLines s).1, (splitLines s).2)
  | b :: s =>
    match splitLines s with
    | ([], tail) => ([], b :: tail)
    | (l :: ls, tail) => (⟨b :: l.content, l.crLf⟩ :: ls, tail)

/-- Every CR is directly followed by LF. -/
def Paired (s : Bytes) : Prop := s.IsChain (fun a b => a = cr → b = lf) ∧ s.getLast? ≠ some cr

instance (s : Bytes) : Decidable (Paired s) := inferInstanceAs (Decidable (_ ∧ _))

/-- Streams in which each blank line ends what stands before it. -/
structure Tame (s : Bytes) : Prop where
  paired : Paired s
  /-- No line that is not blank and that LF alone ends is directly followed by a blank line that CR LF
  ends. -/
  separated : (splitLines s).1.IsChain fun l l' =>
    ¬(l.content ≠ [] ∧ l.crLf = false ∧ l'.content = [] ∧ l'.crLf = true)

variable {s u p : Bytes} {l l' : Line} {b : UInt8}

/-! ### Lines make up the stream -/

theorem splitLines_eq (s : Bytes) :
    s = (splitLines s).1.flatMap Line.bytes ++ (splitLines s).2 := by
  fun_induction splitLines s with
  | case1 => rfl
  | case2 s ih => simpa [Line.bytes, Line.terminator, lf] using ih
  | case3 s ih => simpa [Line.bytes, Line.terminator, lf, cr] using ih
  | case4 b s _ _ tail heq ih => simpa [heq] using ih
  | case5 b s _ _ l ls tail heq ih => simpa [heq, Line.bytes, Line.terminator] using ih

theorem Paired.tail (h : Paired (b :: s)) : Paired s := by
  refine ⟨h.1.of_cons, fun hlast => h.2 ?_⟩
  rw [List.getLast?_cons, hlast]
  rfl

/-- Where no line ends there is no CR. -/
theorem Paired.ne_cr (h : Paired (b :: s)) (hs : ∀ s', s = lf :: s' → b ≠ cr) : b ≠ cr := by
  rintro rfl
  cases s with
  | nil => exact h.2 rfl
  | cons c s =>
    obtain rfl : c = lf := (List.isChain_cons_cons.mp h.1).1 rfl
    exact hs s rfl rfl

/-- Neither a line nor what follows the last one holds an LF, or a CR if each is followed by LF. -/
theorem clean_splitLines (h : Paired s) :
    (∀ l ∈ (splitLines s).1, l.Clean) ∧ ∀ b ∈ (splitLines s).2, b ≠ lf ∧ b ≠ cr := by
  fun_induction splitLines s with
  | case1 => simp
  | case2 s ih =>
    obtain ⟨hlines, htail⟩ := ih h.tail
    refine ⟨fun l hl => ?_, htail⟩
    rcases List.mem_cons.mp hl with rfl | hl
    · exact fun b hb => by cases hb
    · exact hlines l hl
  | case3 s ih =>
    obtain ⟨hlines, htail⟩ := ih h.tail.tail
    refine ⟨fun l hl => ?_, htail⟩
    rcases List.mem_cons.mp hl with rfl | hl
    · exact fun b hb => by cases hb
    · exact hlines l hl
  -- Inside a line no LF stands, and no CR as each is followed by LF.
  | case4 b s hlf hcr tail heq ih =>
    obtain ⟨-, htail⟩ := ih h.tail
    rw [heq] at htail
    refine ⟨by simp, fun c hc => ?_⟩
    rcases List.mem_cons.mp hc with rfl | hc
    · exact ⟨hlf, h.ne_cr fun s' hs hc => hcr s' hc hs⟩
    · exact htail c hc
  | case5 b s hlf hcr l ls tail heq ih =>
    obtain ⟨hlines, htail⟩ := ih h.tail
    rw [heq] at hlines htail
    refine ⟨fun l' hl' => ?_, htail⟩
    rcases List.mem_cons.mp hl' with rfl | hl'
    · intro c hc
      rcases List.mem_cons.mp hc with rfl | hc
      · exact ⟨hlf, h.ne_cr fun s' hs hc => hcr s' hc hs⟩
      · exact hlines l List.mem_cons_self c hc
    · exact hlines l' (List.mem_cons_of_mem _ hl')

/-! ### Cuts between lines

The search carries the octets that it has passed, in reverse. A whole line goes over to them at once,
and the blank line that closes it is found behind it. -/

theorem cutFrom_cons (h : delimiter? (b :: s) = none) : cutFrom p (b :: s) = cutFrom (b :: p) s := by
  rw [cutFrom, h]

/-- No cut is made inside a line. -/
theorem cutFrom_content {content : Bytes} (h : ∀ b ∈ content, b ≠ lf ∧ b ≠ cr) (p u : Bytes) :
    cutFrom p (content ++ u) = cutFrom (content.reverse ++ p) u := by
  induction content generalizing p with
  | nil => rfl
  | cons b content ih =>
    obtain ⟨hlf, hcr⟩ := h b List.mem_cons_self
    have hnone : delimiter? (b :: (content ++ u)) = none := by
      rcases hd : delimiter? (b :: (content ++ u)) with _ | ⟨d, r⟩
      · rfl
      · have heq := eq_of_delimiter? hd
        cases d
        · exact absurd (List.cons.inj heq).1 hlf
        · exact absurd (List.cons.inj heq).1 hcr
    rw [List.cons_append, cutFrom_cons hnone, ih fun c hc => h c (List.mem_cons_of_mem _ hc)]
    simp

/-- What the frame has of the end of its last line. -/
def Line.trace (l l' : Line) : Bytes := if l.crLf ∧ l'.crLf = false then [cr] else []

theorem Line.trace_cases (l l' : Line) : l.trace l' = [] ∨ l.trace l' = [cr] := by
  unfold Line.trace
  split_ifs
  · exact .inr rfl
  · exact .inl rfl

/-- The cut at a blank line. -/
theorem cutFrom_of_closes (hl : l.Clean) (h : l.Closes l') (p u : Bytes) :
    ∃ d, cutFrom p (l.bytes ++ (l'.bytes ++ u)) =
      some ⟨p.reverse ++ l.content ++ l.trace l', d, u⟩ := by
  obtain ⟨content, crLf⟩ := l
  obtain ⟨content', crLf'⟩ := l'
  obtain ⟨rfl, hcr⟩ : content' = [] ∧ (crLf' = true → crLf = true) := h
  rw [Line.bytes, List.append_assoc, cutFrom_content hl]
  cases crLf' with
  | false =>
    refine ⟨.lfLf, ?_⟩
    cases crLf <;> simp [Line.terminator, Line.bytes, Line.trace, cutFrom, delimiter?, cr, lf]
  | true =>
    obtain rfl := hcr rfl
    refine ⟨.crLfCrLf, ?_⟩
    simp [Line.terminator, Line.bytes, Line.trace, cutFrom, delimiter?, cr, lf]

/-- No cut is made at a line behind which no blank line closes it. -/
theorem cutFrom_line (hl : l.Clean) (hu : ∀ v, u ≠ lf :: v)
    (hcr : l.crLf = true → ∀ v, u ≠ cr :: lf :: v) (p : Bytes) :
    cutFrom p (l.bytes ++ u) = cutFrom (l.bytes.reverse ++ p) u := by
  -- A terminator is a delimiter only together with a second one behind it, which does not come.
  have hlf : delimiter? (lf :: u) = none := by
    rcases hd : delimiter? (lf :: u) with _ | ⟨d, r⟩
    · rfl
    · have heq := eq_of_delimiter? hd
      cases d
      · exact absurd (List.cons.inj heq).2 (hu _)
      · cases (List.cons.inj heq).1
  rw [Line.bytes, List.append_assoc, cutFrom_content hl]
  rcases hend : l.crLf with _ | _
  · simp only [Line.terminator, hend, Bool.false_eq_true, if_false, List.singleton_append]
    rw [cutFrom_cons hlf]
    simp
  · have hboth : delimiter? (cr :: lf :: u) = none := by
      rcases hd : delimiter? (cr :: lf :: u) with _ | ⟨d, r⟩
      · rfl
      · have heq := eq_of_delimiter? hd
        cases d
        · cases (List.cons.inj heq).1
        · exact absurd (List.cons.inj (List.cons.inj heq).2).2 (hcr hend _)
    simp only [Line.terminator, hend, if_true, List.cons_append, List.nil_append]
    rw [cutFrom_cons hboth, cutFrom_cons hlf]
    simp

/-- A line that does not close the one before it does not start like one that does. -/
theorem bytes_append_ne (hl : l'.Clean) (h : ¬ l.Closes l') (u : Bytes) :
    (∀ v, l'.bytes ++ u ≠ lf :: v) ∧ (l.crLf = true → ∀ v, l'.bytes ++ u ≠ cr :: lf :: v) := by
  obtain ⟨content, crLf⟩ := l'
  cases content with
  | cons b content =>
    obtain ⟨hlf, hcr⟩ := hl b List.mem_cons_self
    exact ⟨fun v hv => hlf (List.cons.inj hv).1, fun _ v hv => hcr (List.cons.inj hv).1⟩
  | nil =>
    -- A blank line that closes nothing ends with CR LF, and the line before it with LF.
    have hends : crLf = true ∧ l.crLf = false := by
      simpa [Line.Closes] using h
    obtain ⟨rfl, hprev⟩ := hends
    refine ⟨fun v hv => ?_, fun hcr => ?_⟩
    · cases (List.cons.inj hv).1
    · rw [hprev] at hcr
      cases hcr

theorem cutFrom_eq_none (h : ∀ b ∈ s, b ≠ lf ∧ b ≠ cr) (p : Bytes) : cutFrom p s = none := by
  have hskip := cutFrom_content h p []
  rwa [List.append_nil, cutFrom] at hskip

/-! ### The lines of a frame -/

open Text.Utf8 (chars? chars?_append_cons mem_of_chars?)

/-- The characters of a clean line hold no line end. -/
theorem chars?_ne {content : Bytes} (h : ∀ b ∈ content, b ≠ lf ∧ b ≠ cr) {x : List Char}
    (hx : chars? content = some x) : ∀ c ∈ x, c ≠ '\n' ∧ c ≠ '\r' := by
  intro c hc
  constructor
  · rintro rfl
    obtain ⟨b, hb, heq⟩ := mem_of_chars? hx hc (by decide) (by decide)
    exact (h b hb).1 (UInt8.toNat_inj.mp heq)
  · rintro rfl
    obtain ⟨b, hb, heq⟩ := mem_of_chars? hx hc (by decide) (by decide)
    exact (h b hb).2 (UInt8.toNat_inj.mp heq)

namespace Frame

theorem dropCR_of_ne {x : List Char} (h : ∀ c ∈ x, c ≠ '\r') : dropCR x = x := by
  unfold dropCR
  split_ifs with hlast
  · exact absurd rfl (h '\r' (List.mem_of_getLast? hlast))
  · rfl

theorem dropCR_concat (x : List Char) : dropCR (x ++ ['\r']) = x := by
  simp [dropCR]

/-- The field of a comment has no name. -/
theorem field_comment (line : List Char) : (field (':' :: line)).1 = [] := by
  have hcut : Text.cut? [':'] (':' :: line) = some ([], line) := by
    simp [Text.cut?, Text.cutFrom, Text.rest?]
  unfold field
  rw [hcut]
  rcases line with _ | ⟨c, line⟩
  · rfl
  · split <;> simp_all

theorem linesFrom_append {x : List Char} (h : ∀ c ∈ x, c ≠ '\n') (line rest : List Char) :
    linesFrom line (x ++ rest) = linesFrom (x.reverse ++ line) rest := by
  induction x generalizing line with
  | nil => rfl
  | cons c x ih =>
    have hc : (c == '\n') = false := by simpa using h c List.mem_cons_self
    rw [List.cons_append, linesFrom, hc, if_neg Bool.false_ne_true,
      ih fun d hd => h d (List.mem_cons_of_mem _ hd)]
    simp

/-- A line that has ended is a line of the frame, and the others follow. -/
theorem lines_append_lf {x : List Char} (h : ∀ c ∈ x, c ≠ '\n' ∧ c ≠ '\r') (z : List Char) :
    lines (x ++ '\n' :: z) = x :: lines z := by
  have hx : dropCR x = x := dropCR_of_ne fun c hc => (h c hc).2
  rw [lines, linesFrom_append (fun c hc => (h c hc).1), linesFrom, if_pos (beq_self_eq_true _)]
  simp [hx, lines]

theorem lines_append_crLf {x : List Char} (h : ∀ c ∈ x, c ≠ '\n' ∧ c ≠ '\r') (z : List Char) :
    lines (x ++ '\r' :: '\n' :: z) = x :: lines z := by
  have hx : dropCR x = x := dropCR_of_ne fun c hc => (h c hc).2
  have hcr : ∀ c ∈ x ++ ['\r'], c ≠ '\n' := by
    intro c hc
    rcases List.mem_append.mp hc with hc | hc
    · exact (h c hc).1
    · obtain rfl := List.mem_singleton.mp hc
      decide
  have hassoc : x ++ '\r' :: '\n' :: z = (x ++ ['\r']) ++ '\n' :: z := by simp
  rw [hassoc, lines, linesFrom_append hcr, linesFrom, if_pos (beq_self_eq_true _)]
  simp [hx, lines, dropCR_concat]

/-- What stands behind the last line end is a line if it is not empty. -/
theorem lines_last {x : List Char} (h : ∀ c ∈ x, c ≠ '\n' ∧ c ≠ '\r') :
    lines x = (if x = [] then [] else [x]) ∧ lines (x ++ ['\r']) = [x] := by
  have hx : dropCR x = x := dropCR_of_ne fun c hc => (h c hc).2
  constructor
  · have hlast := linesFrom_append (fun c hc => (h c hc).1) [] []
    rw [List.append_nil, List.append_nil] at hlast
    rw [lines, hlast, linesFrom]
    simp [hx]
  · have hlast := linesFrom_append (fun c hc => (h c hc).1) [] ['\r']
    rw [List.append_nil] at hlast
    rw [lines, hlast]
    simp [linesFrom, dropCR_concat]

/-- A blank line adds nothing. -/
@[simp] theorem absorb_nil (f : Frame) : f.absorb [] = f := rfl

/-- What a field adds. Of the others, one without a name adds nothing. -/
def addField (f : Frame) (name : String) (value : List Char) : Frame :=
  match name with
  | "event" => { f with event := some (String.ofList value) }
  | "data" =>
    { f with data := some (f.data.elim (String.ofList value) (· ++ "\n" ++ String.ofList value)) }
  | "id" => if '\x00' ∈ value then f else { f with id := some (String.ofList value) }
  | "retry" => { f with retry := ((retryMillis? value).map .ofMillis).or f.retry }
  | _ => f

/-- A line adds its field. Blank lines and comments are fields without a name. -/
theorem absorb_eq (f : Frame) (line : List Char) :
    f.absorb line = f.addField (String.ofList (field line).1) (field line).2 := by
  match line with
  | [] => rfl
  | c :: line =>
    by_cases hc : c = ':'
    · subst hc
      rw [field_comment]
      rfl
    · unfold absorb addField
      rw [if_neg (by simpa using hc)]
      generalize field (c :: line) = g
      obtain ⟨name, value⟩ := g
      dsimp only
      generalize String.ofList name = n
      split
      · rfl
      · rcases f.data with _ | d <;> rfl
      · by_cases hnul : '\x00' ∈ value <;> simp [hnul]
      · rcases retryMillis? value with _ | ms <;> rfl
      · simp_all

end Frame

/-- The lines of a frame that ends inside the line `l`, before or behind a CR. -/
theorem lines_segment {passed : List Line} (hpassed : ∀ l ∈ passed, l.Clean) (hl : l.Clean)
    {trace : Bytes} (htrace : trace = [] ∨ trace = [cr]) :
    (chars? (passed.flatMap Line.bytes ++ (l.content ++ trace))).map Frame.lines =
      ((passed.map Line.content).mapM chars?).bind fun xs =>
        (chars? l.content).map fun x => xs ++ if x = [] ∧ trace = [] then [] else [x] := by
  -- Over the lines that have ended; the last one is part of both cases.
  induction passed with
  | nil =>
    have hlast (x : List Char) (hx : chars? l.content = some x) := Frame.lines_last (chars?_ne hl hx)
    rcases htrace with rfl | rfl
    · rcases hx : chars? l.content with _ | x
      · simp [hx]
      · simp [hx, (hlast x hx).1]
    · have hcut := chars?_append_cons (b := cr) l.content [] (by decide)
      rcases hx : chars? l.content with _ | x
      · simp [hcut, hx]
      · have hcr : Char.ofNat cr.toNat = '\r' := rfl
        simp [hcut, hx, hcr, (hlast x hx).2]
  | cons l' passed ih =>
    have ih := ih fun l hl => hpassed l (List.mem_cons_of_mem _ hl)
    have hne (x : List Char) (hx : chars? l'.content = some x) :=
      chars?_ne (hpassed l' List.mem_cons_self) hx
    generalize hmore : passed.flatMap Line.bytes ++ (l.content ++ trace) = more at ih
    -- The frame is cut behind its first line.
    have hfirst : (chars? (l'.bytes ++ more)).map Frame.lines =
        (chars? l'.content).bind fun x => ((chars? more).map Frame.lines).map fun xs => x :: xs := by
      have hcut := chars?_append_cons (b := lf) l'.content more (by decide)
      have hcutCr := chars?_append_cons (b := cr) l'.content (lf :: more) (by decide)
      have hcutLf := chars?_append_cons (b := lf) [] more (by decide)
      have hcr : Char.ofNat cr.toNat = '\r' := rfl
      have hlf : Char.ofNat lf.toNat = '\n' := rfl
      rw [List.nil_append] at hcutLf
      unfold Line.bytes Line.terminator
      rcases hx : chars? l'.content with _ | x
      · split_ifs <;> simp [hcut, hcutCr, hx]
      · rcases hy : chars? more with _ | y
        · split_ifs <;> simp [hcut, hcutCr, hcutLf, hx, hy]
        · split_ifs
          · simp [hcutCr, hcutLf, hx, hy, hcr, hlf, Frame.lines_append_crLf (hne x hx)]
          · simp [hcut, hx, hy, hlf, Frame.lines_append_lf (hne x hx)]
    rw [List.flatMap_cons, List.append_assoc, hmore, hfirst, ih, List.map_cons, List.mapM_cons]
    rcases chars? l'.content with _ | x
    · rfl
    · rcases (passed.map Line.content).mapM chars? with _ | xs
      · rfl
      · rcases chars? l.content with _ | y <;> rfl

/-- Blank lines may be left out before the others are taken together. -/
theorem foldl_absorb_filter (contents : List Bytes) (f : Frame) :
    (contents.mapM chars?).map (·.foldl Frame.absorb f) =
      ((contents.filter (· ≠ [])).mapM chars?).map (·.foldl Frame.absorb f) := by
  induction contents generalizing f with
  | nil => rfl
  | cons c contents ih =>
    by_cases hc : c = []
    · subst hc
      have hskip := ih f
      rw [List.filter_cons_of_neg (by simp), ← hskip, List.mapM_cons]
      rcases contents.mapM chars? with _ | xs <;> simp
    · rw [List.filter_cons_of_pos (by simpa using hc)]
      rcases hx : chars? c with _ | x
      · rw [List.mapM_cons, List.mapM_cons, hx]
        rfl
      · have hcons (cs : List Bytes) : ((c :: cs).mapM chars?).map (·.foldl Frame.absorb f) =
            (cs.mapM chars?).map (·.foldl Frame.absorb (f.absorb x)) := by
          rw [List.mapM_cons, hx]
          rcases cs.mapM chars? with _ | xs <;> rfl
        rw [hcons, hcons]
        exact ih (f.absorb x)

/-- A frame that ends inside the line `l` says what its lines say that are not blank. -/
theorem ofText_segment {passed : List Line} (hpassed : ∀ l ∈ passed, l.Clean) (hl : l.Clean)
    {trace : Bytes} (htrace : trace = [] ∨ trace = [cr]) :
    (Text.Utf8.decode? (passed.flatMap Line.bytes ++ (l.content ++ trace))).map Frame.ofText =
      ((((passed ++ [l]).map Line.content).filter (· ≠ [])).mapM chars?).map
        (·.foldl Frame.absorb {}) := by
  have hlines := lines_segment hpassed hl htrace
  have hmapM : ((passed ++ [l]).map Line.content).mapM chars? =
      ((passed.map Line.content).mapM chars?).bind fun xs =>
        (chars? l.content).map fun x => xs ++ [x] := by
    rw [List.map_append, List.mapM_append, List.map_singleton, List.mapM_cons, List.mapM_nil]
    rcases (passed.map Line.content).mapM chars? with _ | xs
    · rfl
    · rcases chars? l.content with _ | x <;> rfl
  have hdecode (bytes : Bytes) : (Text.Utf8.decode? bytes).map Frame.ofText =
      ((chars? bytes).map Frame.lines).map (·.foldl Frame.absorb {}) := by
    rw [Text.Utf8.decode?_eq]
    rcases chars? bytes with _ | x
    · rfl
    · simp [Frame.ofText]
  rw [← foldl_absorb_filter, hmapM, hdecode, hlines]
  rcases (passed.map Line.content).mapM chars? with _ | xs
  · rfl
  · rcases chars? l.content with _ | x
    · rfl
    · -- What was left out behind the last line end is blank.
      by_cases hblank : x = [] ∧ trace = []
      · simp [hblank]
      · simp [hblank]

end Switchboard.EventStream
