import Mathlib.Data.List.TakeWhile
import Mathlib.Data.Nat.Digits.Defs
import Switchboard.Proofs.EventStream.Lines
import Switchboard.Proofs.Text.Search

/-!
# The fields of a frame

The lines of a frame are taken together one by one, and each field has a rule of its own: the last
event, the last id without NUL, the last delay that is a number, and all data. What a field comes to is
read off the lines of that field alone.

- `Frame.fieldName`, `Frame.fieldValue`, `Frame.values`: what lines say of a field.
- `Frame.ids`, `Frame.retries`: the ids and the delays that the lines of a frame name.
- `Frame.latest_foldl`: a field that the last line decides.
- `Frame.textLines`: the lines of a text, where CR does nothing but end them.
- `Frame.byName`: the fields by the lines of their names, and `Frame.Idle`, the lines that say nothing.
- `Frame.fields_by_name`: a frame is read field by field.

`absorb_fields` says for all four fields at once what one line does to a frame. The three of which the
last line decides are then one lemma about folds, and data is another; that the fields do not depend on
each other is no further statement, since `byName` reads each of them off its own lines.

The reader finds lines in a way of its own: it takes off a CR at the end of a line, and once more at the
end of the text, and leaves any other one where it is. `textLines` has no such rule. The two agree where
CR stands before LF or at the very end, which is what `CrEndsLine` asks for, and they may then differ in
one blank line at the end. So what agrees is what the lines add up to, and not the lines.
-/

namespace Switchboard.EventStream.Frame

variable {line p s : List Char}

/-! ### One line -/

/-- What stands before the first colon of a line, or all of it. -/
def fieldName (line : List Char) : List Char := line.takeWhile (· ≠ ':')

/-- What stands behind the first colon, without one space in front. -/
def fieldValue (line : List Char) : List Char :=
  match line.dropWhile (· ≠ ':') with
  | _ :: ' ' :: value => value
  | _ :: value => value
  | [] => []

/-- A line without a colon is all name. -/
theorem fieldName_of_notMem (h : ':' ∉ line) : fieldName line = line ∧ fieldValue line = [] := by
  have hall : ∀ c ∈ line, decide (c ≠ ':') = true := fun c hc =>
    decide_eq_true fun heq => h (heq ▸ hc)
  unfold fieldName fieldValue
  rw [List.takeWhile_eq_self_iff.mpr hall, List.dropWhile_eq_nil_iff.mpr hall]
  exact ⟨rfl, rfl⟩

theorem fieldName_append {a b : List Char} (h : ':' ∉ a) : fieldName (a ++ ':' :: b) = a ∧
    fieldValue (a ++ ':' :: b) = if b.head? = some ' ' then b.tail else b := by
  have hall : ∀ c ∈ a, decide (c ≠ ':') = true := fun c hc =>
    decide_eq_true fun heq => h (heq ▸ hc)
  unfold fieldName fieldValue
  rw [List.takeWhile_append_of_pos hall, List.dropWhile_append_of_pos hall]
  constructor
  · simp
  · rcases b with _ | ⟨c, b⟩
    · rfl
    · by_cases hc : c = ' '
      · subst hc
        rfl
      · simp [hc]

/-- A line is taken apart at its first colon. -/
theorem field_eq (line : List Char) : field line = (fieldName line, fieldValue line) := by
  unfold field
  rcases hcut : Text.cut? [':'] line with _ | ⟨a, b⟩
  · obtain ⟨hname, hvalue⟩ := fieldName_of_notMem (Text.cut?_singleton_eq_none_iff.mp hcut)
    rw [hname, hvalue]
  · obtain ⟨rfl, ha⟩ := Text.cut?_singleton_iff.mp hcut
    obtain ⟨hname, hvalue⟩ := fieldName_append (b := b) ha
    rw [hname, hvalue]
    rcases b with _ | ⟨c, b⟩
    · rfl
    · by_cases hc : c = ' '
      · subst hc
        rfl
      · simp [hc]

/-- The value of a line that has the field. -/
def valueOf? (name : String) (line : List Char) : Option (List Char) :=
  if String.ofList (fieldName line) = name then some (fieldValue line) else none

/-- The values of a field, in the order of its lines. -/
def values (name : String) (ls : List (List Char)) : List (List Char) := ls.filterMap (valueOf? name)

/-! ### What a line adds -/

/-- The id that a line names, if there is no NUL in it. -/
def idOf? (line : List Char) : Option String :=
  let (name, value) := field line
  if String.ofList name = "id" ∧ '\x00' ∉ value then some (String.ofList value) else none

/-- The ids that the lines of a frame name, in order. -/
def ids (text : String) : List String := (lines text.toList).filterMap idOf?

/-- The delay that a line names, if its value is a number. -/
def retryOf? (line : List Char) : Option Duration :=
  let (name, value) := field line
  if String.ofList name = "retry" then (retryMillis? value).map .ofMillis else none

/-- The delays that the lines of a frame name, in order. -/
def retries (text : String) : List Duration := (lines text.toList).filterMap retryOf?

/-- A line that names an event, an id or a delay replaces the one before, and data goes behind the data
before it. -/
theorem absorb_fields (f : Frame) (line : List Char) : f.absorb line =
    { event := ((valueOf? "event" line).map String.ofList).or f.event
      data := ((valueOf? "data" line).map fun value =>
        f.data.elim (String.ofList value) (· ++ "\n" ++ String.ofList value)).or f.data
      id := (idOf? line).or f.id
      retry := (retryOf? line).or f.retry } := by
  rw [absorb_eq]
  unfold addField valueOf? idOf? retryOf?
  rw [field_eq]
  dsimp only
  generalize String.ofList (fieldName line) = n
  split
  · simp
  · simp
  · by_cases hnul : '\x00' ∈ fieldValue line <;> simp [hnul]
  · simp
  · simp_all

theorem event_absorb (f : Frame) (line : List Char) :
    (f.absorb line).event = ((valueOf? "event" line).map String.ofList).or f.event := by
  rw [absorb_fields]

theorem data_absorb (f : Frame) (line : List Char) :
    (f.absorb line).data =
      ((valueOf? "data" line).map fun value =>
        f.data.elim (String.ofList value) (· ++ "\n" ++ String.ofList value)).or f.data := by
  rw [absorb_fields]

theorem id_absorb (f : Frame) (line : List Char) : (f.absorb line).id = (idOf? line).or f.id := by
  rw [absorb_fields]

theorem retry_absorb (f : Frame) (line : List Char) :
    (f.absorb line).retry = (retryOf? line).or f.retry := by
  rw [absorb_fields]

/-- A part of a frame that each line replaces or keeps is what the last line makes it that names it
at all. -/
theorem latest_foldl {β : Type} {part : Frame → Option β} {named : List Char → Option β}
    (h : ∀ f line, part (f.absorb line) = (named line).or (part f)) (lines : List (List Char))
    (f : Frame) : part (lines.foldl absorb f) = (lines.filterMap named).getLast?.or (part f) := by
  induction lines generalizing f with
  | nil => rfl
  | cons line lines ih =>
    rw [List.foldl_cons, ih, h, List.filterMap_cons]
    rcases named line with _ | x
    · rfl
    · rw [List.getLast?_cons]
      rcases (lines.filterMap named).getLast? with _ | last <;> rfl

/-- The id of a frame is the last that a line of it names. -/
theorem id_ofText (text : String) : (ofText text).id = (ids text).getLast? := by
  rw [ofText, latest_foldl id_absorb, ids]
  exact Option.or_none

/-- The delay of a frame is the last that a line of it names. -/
theorem retry_ofText (text : String) : (ofText text).retry = (retries text).getLast? := by
  rw [ofText, latest_foldl retry_absorb, retries]
  exact Option.or_none

/-! ### Lines of a text -/

/-- The lines of a text. A line ends at LF or at CR LF, and a CR that ends the text is no part of its
last line. -/
def textLines : List Char → List (List Char)
  | [] => [[]]
  | '\n' :: s => [] :: textLines s
  | '\r' :: '\n' :: s => [] :: textLines s
  | ['\r'] => [[]]
  | c :: s => (textLines s).modifyHead (c :: ·)

/-- CR stands directly before LF and at the end of the text only. -/
def CrEndsLine (s : List Char) : Prop := s.IsChain fun a b => a = '\r' → b = '\n'

instance (s : List Char) : Decidable (CrEndsLine s) := inferInstanceAs (Decidable (List.IsChain _ _))

theorem modifyHead_nil_append (ls : List (List Char)) : ls.modifyHead ([] ++ ·) = ls := by
  cases ls <;> rfl

theorem textLines_cons {c : Char} (hc : c ≠ '\n' ∧ c ≠ '\r') (s : List Char) :
    textLines (c :: s) = (textLines s).modifyHead (c :: ·) := by
  rw [textLines]
  · exact hc.1
  · rintro _ rfl
    exact absurd rfl hc.2
  · rintro rfl
    exact absurd rfl hc.2

/-- The lines are what stands between the line ends. -/
theorem textLines_append {x : List Char} (h : ∀ c ∈ x, c ≠ '\n' ∧ c ≠ '\r') (s : List Char) :
    textLines (x ++ '\n' :: s) = x :: textLines s ∧
      textLines (x ++ '\r' :: '\n' :: s) = x :: textLines s ∧
      textLines x = [x] ∧ textLines (x ++ ['\r']) = [x] := by
  induction x with
  | nil => exact ⟨rfl, rfl, rfl, rfl⟩
  | cons c x ih =>
    have hc := textLines_cons (h c List.mem_cons_self)
    obtain ⟨hlf, hcrLf, hlast, hcr⟩ := ih fun d hd => h d (List.mem_cons_of_mem _ hd)
    simp only [List.cons_append, hc, hlf, hcrLf, hlast, hcr, List.modifyHead_cons, and_self]

theorem linesFrom_lf (line s : List Char) :
    linesFrom line ('\n' :: s) = dropCR (dropCR line.reverse) :: linesFrom [] s := rfl

theorem linesFrom_cons {c : Char} (hc : c ≠ '\n') (line s : List Char) :
    linesFrom line (c :: s) = linesFrom (c :: line) s := by
  rw [linesFrom, if_neg (by simpa using hc)]

/-- What was read of the current line goes before the rest of it. The lines that are found differ at
most in a blank one at the end, which says nothing. -/
theorem foldl_linesFrom (h : CrEndsLine s) (hp : ∀ c ∈ p, c ≠ '\r') (f : Frame) :
    (linesFrom p.reverse s).foldl absorb f =
      ((textLines s).modifyHead (p ++ ·)).foldl absorb f := by
  have hline : dropCR p = p := dropCR_of_ne hp
  -- Along the lines, with what was read of the current one in `p`.
  fun_induction textLines s generalizing p f with
  | case1 =>
    rcases p with _ | ⟨c, p⟩
    · rfl
    · simp [linesFrom, hline]
  | case2 s ih =>
    have hrest := ih h.of_cons (p := []) (by simp) (f.absorb p) rfl
    rw [modifyHead_nil_append] at hrest
    rw [linesFrom_lf, List.reverse_reverse, hline, hline, List.modifyHead_cons, List.append_nil,
      List.foldl_cons, List.foldl_cons]
    exact hrest
  | case3 s ih =>
    have hrest := ih h.of_cons.of_cons (p := []) (by simp) (f.absorb p) rfl
    rw [modifyHead_nil_append] at hrest
    rw [linesFrom_cons (by decide), linesFrom_lf, List.reverse_cons, List.reverse_reverse,
      dropCR_concat, hline, List.modifyHead_cons, List.append_nil, List.foldl_cons, List.foldl_cons]
    exact hrest
  | case4 =>
    rw [linesFrom_cons (by decide)]
    simp [linesFrom, dropCR_concat]
  | case5 c s hlf hcrlf hcr ih =>
    have hc : c ≠ '\r' := by
      rintro rfl
      rcases s with _ | ⟨d, s⟩
      · exact hcr rfl rfl
      · obtain rfl : d = '\n' := (List.isChain_cons_cons.mp h).1 rfl
        exact hcrlf s rfl rfl
    have hnext : ∀ d ∈ p ++ [c], d ≠ '\r' := by
      intro d hd
      rcases List.mem_append.mp hd with hd | hd
      · exact hp d hd
      · exact List.mem_singleton.mp hd ▸ hc
    have hrest := ih h.of_cons hnext f (dropCR_of_ne hnext)
    rw [linesFrom_cons hlf, List.modifyHead_modifyHead]
    simpa [Function.comp_def] using hrest

/-- The fields of a text are those of its lines. -/
theorem ofText_eq {text : String} (h : CrEndsLine text.toList) :
    ofText text = (textLines text.toList).foldl absorb {} := by
  have hlines := foldl_linesFrom (p := []) h (by simp) {}
  rwa [modifyHead_nil_append] at hlines

/-! ### Each field by its own lines

The lines of the other names are left out by `values`, which is why their order to these does not
matter. -/

theorem idOf?_eq (line : List Char) :
    idOf? line = ((valueOf? "id" line).filter ('\x00' ∉ ·)).map String.ofList := by
  unfold idOf? valueOf?
  rw [field_eq]
  by_cases hname : String.ofList (fieldName line) = "id"
  · by_cases hnul : '\x00' ∈ fieldValue line <;> simp [hname, hnul]
  · simp [hname]

theorem retryOf?_eq (line : List Char) :
    retryOf? line = ((valueOf? "retry" line).bind retryMillis?).map .ofMillis := by
  unfold retryOf? valueOf?
  rw [field_eq]
  by_cases hname : String.ofList (fieldName line) = "retry" <;> simp [hname]

/-- The values of all data lines, joined. -/
theorem data_foldl (ls : List (List Char)) :
    (ls.foldl absorb {}).data =
      if values "data" ls = [] then none
      else some ("\n".intercalate ((values "data" ls).map String.ofList)) := by
  induction ls using List.reverseRecOn with
  | nil => rfl
  | append_singleton ls line ih =>
    have hvalues : values "data" (ls ++ [line]) =
        values "data" ls ++ (valueOf? "data" line).toList := by
      unfold values
      rw [List.filterMap_append, List.filterMap_cons]
      rcases valueOf? "data" line with _ | value <;> rfl
    rw [List.foldl_append, List.foldl_cons, List.foldl_nil, data_absorb, ih, hvalues]
    rcases valueOf? "data" line with _ | value
    · simp
    · by_cases hnone : values "data" ls = []
      · simp [hnone, String.intercalate_singleton]
      · have hmap : (values "data" ls).map String.ofList ≠ [] := by simpa using hnone
        simp [hnone, String.intercalate_append_of_ne_nil hmap]

/-- What the lines say, field by field: the last event, the data of all lines, the last id without NUL
and the last delay that is a number. -/
def byName (ls : List (List Char)) : Frame where
  event := (values "event" ls).getLast?.map String.ofList
  data := if values "data" ls = [] then none
    else some ("\n".intercalate ((values "data" ls).map String.ofList))
  id := ((values "id" ls).filter ('\x00' ∉ ·)).getLast?.map String.ofList
  retry := ((values "retry" ls).filterMap retryMillis?).getLast?.map .ofMillis

theorem filterMap_idOf? (ls : List (List Char)) :
    ls.filterMap idOf? = ((values "id" ls).filter ('\x00' ∉ ·)).map String.ofList := by
  rw [funext idOf?_eq, ← List.map_filterMap, values, List.filter_filterMap]

theorem filterMap_retryOf? (ls : List (List Char)) :
    ls.filterMap retryOf? = ((values "retry" ls).filterMap retryMillis?).map .ofMillis := by
  rw [funext retryOf?_eq, ← List.map_filterMap, values, List.filterMap_filterMap]

/-- The fields do not depend on each other. -/
theorem foldl_absorb (ls : List (List Char)) : ls.foldl absorb {} = byName ls := by
  have hevent : (ls.foldl absorb {}).event = (byName ls).event := by
    rw [latest_foldl event_absorb, ← List.map_filterMap, List.getLast?_map]
    exact Option.or_none
  have hdata : (ls.foldl absorb {}).data = (byName ls).data := data_foldl ls
  have hid : (ls.foldl absorb {}).id = (byName ls).id := by
    rw [latest_foldl id_absorb, filterMap_idOf?, List.getLast?_map]
    exact Option.or_none
  have hretry : (ls.foldl absorb {}).retry = (byName ls).retry := by
    rw [latest_foldl retry_absorb, filterMap_retryOf?, List.getLast?_map]
    exact Option.or_none
  generalize ls.foldl absorb {} = f at *
  obtain ⟨event, data, id, retry⟩ := f
  rw [Frame.mk.injEq]
  exact ⟨hevent, hdata, hid, hretry⟩

/-- A line that says nothing: it has no known field, an id with NUL, or a delay that is no number. -/
def Idle (line : List Char) : Prop :=
  String.ofList (fieldName line) ∉ ["event", "data", "id", "retry"] ∨
    String.ofList (fieldName line) = "id" ∧ '\x00' ∈ fieldValue line ∨
    String.ofList (fieldName line) = "retry" ∧ retryMillis? (fieldValue line) = none

theorem absorb_idle (h : Idle line) (f : Frame) : f.absorb line = f := by
  rw [absorb_eq, field_eq]
  unfold addField
  rcases h with hname | ⟨hname, hnul⟩ | ⟨hname, hmillis⟩
  · split <;> simp_all
  · simp [hname, hnul]
  · simp [hname, hmillis]

/-! ### Delays -/

theorem decimalValue_eq (digits : List Char) :
    Text.decimalValue digits =
      Nat.ofDigits 10 (digits.reverse.map fun c => c.toNat - '0'.toNat) := by
  rw [Nat.ofDigits_eq_foldr, List.foldr_map, List.foldr_reverse, Text.decimalValue]
  refine List.foldl_ext _ _ _ fun n c _ => ?_
  exact Nat.add_comm _ _

/-- A delay is one or more digits that make a number of 64 bits. -/
theorem retryMillis?_eq_some_iff {value : List Char} {n : Nat} :
    retryMillis? value = some n ↔
      value ≠ [] ∧ (∀ c ∈ value, '0' ≤ c ∧ c ≤ '9') ∧ n < 2 ^ 64 ∧
        Nat.ofDigits 10 (value.reverse.map fun c => c.toNat - '0'.toNat) = n := by
  have hdigits : value.all Text.isDigit = true ↔ ∀ c ∈ value, '0' ≤ c ∧ c ≤ '9' := by
    simp [Text.isDigit]
  have hrejected : (value.isEmpty || !value.all Text.isDigit ||
      decide (Nat.pow 2 64 ≤ Text.decimalValue value)) = true ↔
      ¬(value ≠ [] ∧ value.all Text.isDigit = true ∧ Text.decimalValue value < 2 ^ 64) := by
    simp only [Bool.or_eq_true, List.isEmpty_iff, Bool.not_eq_true', decide_eq_true_eq, ne_eq,
      not_and_or, not_not, Bool.not_eq_true, not_lt, or_assoc]
    rfl
  rw [← hdigits, ← decimalValue_eq]
  dsimp only [retryMillis?]
  split_ifs with h
  · have hnone := hrejected.mp h
    refine iff_of_false nofun ?_
    rintro ⟨hne, hall, hlt, rfl⟩
    exact hnone ⟨hne, hall, hlt⟩
  · obtain ⟨hne, hall, hlt⟩ := not_not.mp (hrejected.not.mp h)
    rw [Option.some.injEq]
    refine ⟨?_, fun hn => hn.2.2.2⟩
    rintro rfl
    exact ⟨hne, hall, hlt, rfl⟩

/-- **Fields by their names.** A text in which CR stands before LF or at the end alone says of each field
what the lines of its name say, each taken apart at its first colon. There is no data without a line of it,
and what there is are all its lines; of events, ids without NUL, and delays, which are digits for a number
of 64 bits, the last counts. Lines are what LF, CR LF and a CR at the very end leave of the text.

So the result is that of every text with the same values for the same names, however their lines stand to
those of other names, and a line that says nothing may be put in anywhere. -/
theorem fields_by_name (text : String) (h : CrEndsLine text.toList) :
    let ls := textLines text.toList
    ((ofText text).event = (values "event" ls).getLast?.map String.ofList ∧
      (ofText text).data = (if values "data" ls = [] then none
        else some ("\n".intercalate ((values "data" ls).map String.ofList))) ∧
      (ofText text).id = ((values "id" ls).filter ('\x00' ∉ ·)).getLast?.map String.ofList ∧
      (ofText text).retry = ((values "retry" ls).filterMap retryMillis?).getLast?.map .ofMillis) ∧
    (∀ value n, retryMillis? value = some n ↔
      value ≠ [] ∧ (∀ c ∈ value, '0' ≤ c ∧ c ≤ '9') ∧ n < 2 ^ 64 ∧
        Nat.ofDigits 10 (value.reverse.map fun c => c.toNat - '0'.toNat) = n) ∧
    (∀ x s, (∀ c ∈ x, c ≠ '\n' ∧ c ≠ '\r') →
      textLines (x ++ '\n' :: s) = x :: textLines s ∧
        textLines (x ++ '\r' :: '\n' :: s) = x :: textLines s ∧
        textLines x = [x] ∧ textLines (x ++ ['\r']) = [x]) ∧
    ∀ text', CrEndsLine text'.toList →
      ((∀ name ∈ ["event", "data", "id", "retry"],
          values name (textLines text'.toList) = values name ls) → ofText text' = ofText text) ∧
      ∀ before line behind, Idle line → ls = before ++ behind →
        textLines text'.toList = before ++ line :: behind → ofText text' = ofText text := by
  intro ls
  have hfields : ofText text = byName ls := by rw [ofText_eq h, foldl_absorb]
  refine ⟨?_, fun value n => retryMillis?_eq_some_iff, fun x s hx => textLines_append hx s,
    fun text' h' => ⟨fun hvalues => ?_, fun before line behind hidle hls hls' => ?_⟩⟩
  · rw [hfields]
    exact ⟨rfl, rfl, rfl, rfl⟩
  · rw [ofText_eq h', foldl_absorb, hfields]
    simp only [List.forall_mem_cons] at hvalues
    obtain ⟨hevent, hdata, hid, hretry, -⟩ := hvalues
    simp only [byName, hevent, hdata, hid, hretry]
  · rw [ofText_eq h', ofText_eq h, hls']
    show _ = ls.foldl absorb {}
    rw [hls, List.foldl_append, List.foldl_append, List.foldl_cons, absorb_idle hidle]

/-- An id with NUL and a delay of more than 64 bits are passed over, only one space and one colon go off
a line, and the last line may lack its LF. The lines in another order say the same, and so do they with
another rejected id before the last. -/
theorem fields_by_name_interleaved :
    let text := "id: 7\r\ndata: a: b\nid: \x00\nretry: 250\n:data\nretry: 18446744073709551616\ndata\r"
    let text' := "retry: 250\nretry: 18446744073709551616\nid:7\ndata: a: b\nid:\x00\nfoo\ndata:"
    let text'' :=
      "id: 7\ndata: a: b\nid: \x00\nretry: 250\n:data\nretry: 18446744073709551616\nid: 8\x00\ndata"
    ofText text = { data := some "a: b\n", id := some "7", retry := some (.ofMillis 250) } ∧
      ofText text' = ofText text ∧ ofText text'' = ofText text := by
  intro text text' text''
  have h : CrEndsLine text.toList := by decide +kernel
  have h' : CrEndsLine text'.toList := by decide +kernel
  have h'' : CrEndsLine text''.toList := by decide +kernel
  obtain ⟨⟨hevent, hdata, hid, hretry⟩, -, -, hother⟩ := fields_by_name text h
  refine ⟨?_, ?_, ?_⟩
  · generalize ofText text = f at hevent hdata hid hretry ⊢
    obtain ⟨event, data, id, retry⟩ := f
    obtain rfl : event = none := hevent.trans (by decide +kernel)
    obtain rfl : data = some "a: b\n" := hdata.trans (by decide +kernel)
    obtain rfl : id = some "7" := hid.trans (by decide +kernel)
    obtain rfl : retry = some (.ofMillis 250) := hretry.trans (by decide +kernel)
    rfl
  · refine (hother text' h').1 ?_
    decide +kernel
  · have hidle : Idle "id: 8\x00".toList := .inr (.inl (by decide +kernel))
    refine (hother text'' h'').2 _ _ _ hidle (List.take_append_drop 6 _).symm ?_
    decide +kernel

end Switchboard.EventStream.Frame
