import Switchboard.Proofs.EventStream.Lines
import Switchboard.Proofs.Push.Chunking

/-!
# Reading a stream line by line

A reader that goes through the stream line by line, as event streams are commonly described: it
collects what the lines say, and at a blank line it dispatches an event if it saw data since the last
one. A subscription never looks for lines before it has cut a frame.

- `ByLine`: the reader; `ByLine.line` takes a line, `ByLine.dispatch` is what a blank line does.
- `byLine`: the reader after a whole stream.
- `Tracks`: a reading by frames and one by lines that made the same reports.
- `framing_by_lines`: both agree on every stream in which blank lines end what stands before them.

`ByLine` shares nothing with the reading of frames except the field of a single line and the delay that
a value stands for. It has its own names for what is collected, keeps the values of data apart until it
dispatches, and decodes a block only then, so that a block that is no text fails as a whole and at the
place where the frame would.

The two readers are not in step. A cut takes the last line of its frame and the blank line behind it in
one, and a blank line that closes nothing is no cut but becomes the beginning of the next frame. `Waits`
is what carries the induction over this: the lines passed since the last cut are still to be cut, and
the lines of the block are those of them that are not blank. That `Tame` is needed is seen in
`Waits.pass`. Without it a blank line could dispatch a block here that no cut has ended there.
-/

namespace Switchboard.Subscription

open EventStream (Bytes Line Frame frames rest splitLines Tame)
open Text.Utf8 (decode? chars?)

/-- What the lines since the last blank one say. -/
structure Block where
  event : Option String := none
  /-- The values of the data lines, in order. -/
  data : List String := []
  id : Option String := none
  retry : Option Duration := none

namespace Block

/-- What one line adds. The name of a comment is empty. -/
def add (b : Block) (line : List Char) : Block :=
  let (name, value) := Frame.field line
  match String.ofList name with
  | "event" => { b with event := some (String.ofList value) }
  | "data" => { b with data := b.data ++ [String.ofList value] }
  | "id" => if '\x00' ∈ value then b else { b with id := some (String.ofList value) }
  | "retry" =>
    match Frame.retryMillis? value with
    | some ms => { b with retry := some (.ofMillis ms) }
    | none => b
  | _ => b

/-- The name of the event; an empty or missing one is `message`. -/
def name (b : Block) : String :=
  match b.event with
  | none => "message"
  | some "" => "message"
  | some e => e

end Block

/-- A reader that goes from line to line. -/
structure ByLine where
  lastId : Option String
  serverDelay : Option Duration
  /-- The lines since the last blank one, in order. -/
  block : List Bytes
  /-- Events so far, in order. -/
  events : List PushEvent
  /-- A block was no text, and nothing more is read. -/
  failed : Bool

namespace ByLine

/-- Takes what the lines of a block say: an event if there was data. -/
def take (l : ByLine) (b : Block) : ByLine where
  lastId := b.id.or l.lastId
  serverDelay := b.retry.or l.serverDelay
  block := []
  events := l.events ++
    if b.data = [] then [] else [⟨b.name, "\n".intercalate b.data, b.id.or l.lastId⟩]
  failed := false

/-- What a blank line does: the lines before it are taken together, unless they are no text. -/
def dispatch (l : ByLine) : ByLine :=
  match l.block.mapM decode? with
  | none => { l with failed := true }
  | some texts => l.take ((texts.map String.toList).foldl Block.add {})

/-- Takes a line without its end. -/
def line (l : ByLine) (content : Bytes) : ByLine :=
  if l.failed then l
  else if content = [] then l.dispatch
  else { l with block := l.block ++ [content] }

end ByLine

/-- The lines of a stream, read one after the other. What follows the last line is not read. -/
def byLine (s : Subscription) (bytes : Bytes) : ByLine :=
  ((splitLines bytes).1.map Line.content).foldl ByLine.line
    ⟨s.lastId, s.backoff.serverDelay, [], [], false⟩

/-! ### What a block says -/

namespace Block

/-- The fields of a frame that says what the block says. -/
def frame (b : Block) : Frame where
  event := b.event
  data := if b.data = [] then none else some ("\n".intercalate b.data)
  id := b.id
  retry := b.retry

/-- A block takes a line as a frame does. -/
theorem frame_add (b : Block) (line : List Char) : (b.add line).frame = b.frame.absorb line := by
  rw [Frame.absorb_eq]
  unfold add Frame.addField
  generalize Frame.field line = f
  obtain ⟨name, value⟩ := f
  dsimp only
  generalize String.ofList name = n
  -- Both look at the name in the same order.
  split
  · rfl
  · by_cases hdata : b.data = []
    · simp [frame, hdata]
    · simp [frame, hdata, String.intercalate_append_of_ne_nil hdata]
  · by_cases hnul : '\x00' ∈ value <;> simp [frame, hnul]
  · rcases Frame.retryMillis? value with _ | ms <;> simp [frame]
  · simp [frame]

/-- The lines of a block, taken together, are the fields of a frame. -/
theorem frame_foldl (lines : List (List Char)) (b : Block) :
    (lines.foldl add b).frame = lines.foldl Frame.absorb b.frame := by
  induction lines generalizing b with
  | nil => rfl
  | cons line lines ih => rw [List.foldl_cons, ih, frame_add, List.foldl_cons]

theorem name_frame (b : Block) : b.frame.name = b.name := by
  unfold Frame.name frame name
  rcases b.event with _ | e
  · rfl
  · by_cases he : e = ""
    · subst he
      rfl
    · simp [he]

end Block

/-! ### Two readers side by side -/

/-- A reading by frames and one by lines that made the same reports, remember the same id and the same
server delay, and have failed both or neither. -/
structure Tracks (r : Reading) (l : ByLine) : Prop where
  events : r.events.reverse = l.events
  lastId : r.subscription.lastId = l.lastId
  serverDelay : r.subscription.backoff.serverDelay = l.serverDelay
  failure : r.failure = if l.failed then some .invalidUtf8 else none

variable {r : Reading} {l : ByLine}

theorem mapM_chars? (block : List Bytes) :
    block.mapM chars? = (block.mapM decode?).map (·.map String.toList) := by
  induction block with
  | nil => rfl
  | cons c block ih =>
    rw [List.mapM_cons, List.mapM_cons, ih, Text.Utf8.decode?_eq]
    rcases chars? c with _ | x
    · rfl
    · rcases block.mapM decode? with _ | xs <;> simp

namespace ByLine

theorem line_of_failed (h : l.failed = true) (content : Bytes) : l.line content = l := if_pos h

theorem foldl_line_of_failed (h : l.failed = true) (contents : List Bytes) :
    contents.foldl line l = l := by
  induction contents with
  | nil => rfl
  | cons c contents ih => rw [List.foldl_cons, line_of_failed h, ih]

/-- A blank line without lines before it does nothing. -/
theorem dispatch_of_block_eq_nil (h : l.block = []) (hok : l.failed = false) : l.dispatch = l := by
  obtain ⟨lastId, serverDelay, block, events, failed⟩ := l
  obtain rfl : block = [] := h
  obtain rfl : failed = false := hok
  simp [dispatch, take]

theorem line_nil (h : l.failed = false) : l.line [] = l.dispatch := by
  simp [line, h]

theorem line_of_ne_nil (h : l.failed = false) {content : Bytes} (hc : content ≠ []) :
    l.line content = { l with block := l.block ++ [content] } := by
  simp [line, h, hc]

end ByLine

/-- A frame that says what a block says adds what the block adds. -/
theorem Tracks.take (h : Tracks r l) (hok : l.failed = false) {t : String} {b : Block}
    (hfields : Frame.ofText t = b.frame) : Tracks (r.text t) (l.take b) := by
  refine ⟨?_, ?_, ?_, ?_⟩
  · show (((r.subscription.absorb (.ofText t)).2).toList ++ r.events).reverse = _
    rw [event_absorb, hfields, List.reverse_append, h.events, Block.name_frame, h.lastId]
    by_cases hdata : b.data = []
    · simp [Block.frame, ByLine.take, hdata]
    · simp [Block.frame, ByLine.take, hdata]
  · show (r.subscription.absorb (.ofText t)).1.lastId = _
    rw [lastId_absorb, hfields, h.lastId]
    rfl
  · show (r.subscription.absorb (.ofText t)).1.backoff.serverDelay = _
    rw [backoff_absorb, hfields, h.serverDelay]
    rfl
  · rw [Reading.failure_text, h.failure, hok]
    rfl

/-- At a blank line both readers fail, or go on alike. -/
theorem Tracks.dispatch (h : Tracks r l) (hok : l.failed = false) {f : Bytes}
    (hf : (decode? f).map Frame.ofText = (l.block.mapM chars?).map (·.foldl Frame.absorb {}))
    (fs : List Bytes) :
    (l.dispatch.failed = true ∧ Tracks (r.frames (f :: fs)) l.dispatch) ∨
      ∃ r', r.frames (f :: fs) = r'.frames fs ∧ Tracks r' l.dispatch ∧ l.dispatch.failed = false ∧
        l.dispatch.block = [] := by
  rw [mapM_chars?] at hf
  rw [Reading.frames_cons]
  unfold ByLine.dispatch
  rcases htexts : l.block.mapM decode? with _ | texts
  · rw [htexts] at hf
    obtain hnone : decode? f = none := by simpa using hf
    rw [hnone]
    exact .inl ⟨rfl, h.events, h.lastId, h.serverDelay, rfl⟩
  · rw [htexts] at hf
    obtain ⟨t, ht, hframe⟩ : ∃ t, decode? f = some t ∧
        Frame.ofText t = (texts.map String.toList).foldl Frame.absorb {} := by simpa using hf
    rw [ht]
    refine .inr ⟨r.text t, rfl, h.take hok ?_, rfl, rfl⟩
    rw [hframe, Block.frame_foldl]
    rfl

/-! ### From line to line -/

/-- The lines `passed` wait for a blank line: no cut was made behind them, and unless all of them are
blank the next line is not. -/
structure Waits (passed ls : List Line) (tail : Bytes) : Prop where
  cut : EventStream.cut? (passed.flatMap Line.bytes ++ (ls.flatMap Line.bytes ++ tail)) =
    EventStream.cutFrom (passed.flatMap Line.bytes).reverse (ls.flatMap Line.bytes ++ tail)
  next : ∀ a ∈ passed, a.content ≠ [] → ∀ b ∈ ls.head?, b.content ≠ []

section Lines

variable {passed ls more : List Line} {tail : Bytes} {a b : Line}

theorem waits_nil (ls : List Line) (tail : Bytes) : Waits [] ls tail := ⟨rfl, by simp⟩

/-- The frame that a cut behind `a` leaves. -/
theorem Waits.frames_of_closes (h : Waits passed (a :: b :: more) tail) (ha : a.Clean)
    (hab : a.Closes b) :
    frames (passed.flatMap Line.bytes ++ ((a :: b :: more).flatMap Line.bytes ++ tail)) =
      (passed.flatMap Line.bytes ++ (a.content ++ a.trace b)) ::
        frames (more.flatMap Line.bytes ++ tail) := by
  obtain ⟨d, hcut⟩ := EventStream.cutFrom_of_closes ha hab (passed.flatMap Line.bytes).reverse
    (more.flatMap Line.bytes ++ tail)
  have hcut' := h.cut
  simp only [List.flatMap_cons, List.append_assoc] at hcut' ⊢
  rw [EventStream.frames_of_cut? (hcut'.trans hcut)]
  simp

/-- A line that the next one does not close waits as well. -/
theorem Waits.pass (h : Waits passed (a :: ls) tail) (ha : a.Clean) (hls : ∀ b ∈ ls, b.Clean)
    (htail : ∀ b ∈ tail, b ≠ EventStream.lf ∧ b ≠ EventStream.cr)
    (hsep : (a :: ls).IsChain fun a b =>
      ¬(a.content ≠ [] ∧ a.crLf = false ∧ b.content = [] ∧ b.crLf = true))
    (hopen : ¬∃ b more, ls = b :: more ∧ a.Closes b) : Waits (passed ++ [a]) ls tail := by
  constructor
  · have hfollows : (∀ v, ls.flatMap Line.bytes ++ tail ≠ EventStream.lf :: v) ∧
        (a.crLf = true → ∀ v, ls.flatMap Line.bytes ++ tail ≠
          EventStream.cr :: EventStream.lf :: v) := by
      cases ls with
      | nil =>
        refine ⟨fun v hv => ?_, fun _ v hv => ?_⟩
        · exact (htail EventStream.lf (by simp_all)).1 rfl
        · exact (htail EventStream.lf (by simp_all)).1 rfl
      | cons b more =>
        have hnot : ¬a.Closes b := fun hab => hopen ⟨b, more, rfl, hab⟩
        have hne := EventStream.bytes_append_ne (hls b (by simp)) hnot
          (more.flatMap Line.bytes ++ tail)
        simpa using hne
    have hstep := EventStream.cutFrom_line ha hfollows.1 hfollows.2
      (passed.flatMap Line.bytes).reverse
    have hcut := h.cut
    simp only [List.flatMap_cons, List.append_assoc] at hcut
    simpa using hcut.trans hstep
  · intro c hc hne b hb hblank
    obtain ⟨more, rfl⟩ : ∃ more, ls = b :: more := by
      cases ls with
      | nil => cases hb
      | cons b' more => exact ⟨more, by simpa using hb⟩
    -- A blank line that closes nothing stands behind a blank one.
    have hends : b.crLf = true ∧ a.crLf = false := by
      by_contra hno
      refine hopen ⟨b, more, rfl, hblank, fun hcr => ?_⟩
      rcases hacr : a.crLf with _ | _
      · exact absurd ⟨hcr, hacr⟩ hno
      · rfl
    have hablank : a.content = [] := by
      by_contra hne
      exact (List.isChain_cons_cons.mp hsep).1 ⟨hne, hends.2, hblank, hends.1⟩
    rcases List.mem_append.mp hc with hc | hc
    · exact h.next c hc hne a rfl hablank
    · obtain rfl := List.mem_singleton.mp hc
      exact hne hablank

/-- The next line joins the block, unless it is blank and so are all that wait. -/
theorem Waits.line_eq (h : Waits passed (a :: ls) tail) (hok : l.failed = false)
    (hblock : l.block = (passed.map Line.content).filter (· ≠ [])) :
    l.line a.content =
      { l with block := ((passed ++ [a]).map Line.content).filter (· ≠ []) } := by
  rw [List.map_append, List.filter_append, ← hblock]
  by_cases hblank : a.content = []
  · have hnone : l.block = [] := by
      rw [hblock, List.filter_eq_nil_iff]
      intro content hcontent
      obtain ⟨b, hb, rfl⟩ := List.mem_map.mp hcontent
      by_contra hb'
      exact h.next b hb (by simpa using hb') a rfl hblank
    rw [hblank, ByLine.line_nil hok, ByLine.dispatch_of_block_eq_nil hnone hok]
    simp [hblank]
  · rw [ByLine.line_of_ne_nil hok hblank]
    simp [hblank]

/-- Lines and those that wait before them are read alike. The induction is on the lines to come, of
which a cut takes two: the last line of its frame and the blank one. -/
theorem tracks_lines (htail : ∀ b ∈ tail, b ≠ EventStream.lf ∧ b ≠ EventStream.cr)
    (hclean : ∀ a ∈ passed ++ ls, a.Clean)
    (hsep : ls.IsChain fun a b =>
      ¬(a.content ≠ [] ∧ a.crLf = false ∧ b.content = [] ∧ b.crLf = true))
    (hwaits : Waits passed ls tail) (h : Tracks r l) (hok : l.failed = false)
    (hblock : l.block = (passed.map Line.content).filter (· ≠ [])) :
    Tracks (r.frames (frames (passed.flatMap Line.bytes ++ (ls.flatMap Line.bytes ++ tail))))
      ((ls.map Line.content).foldl ByLine.line l) := by
  -- Over the number of lines, since a cut takes two of them.
  induction hn : ls.length using Nat.strong_induction_on generalizing ls passed r l with
  | _ n ih =>
  match ls with
  | [] =>
    -- What follows the last line holds no cut.
    have hnone := hwaits.cut
    rw [List.flatMap_nil, List.nil_append, EventStream.cutFrom_eq_none htail] at hnone
    rw [List.flatMap_nil, List.nil_append, EventStream.frames_of_cut?_eq_none hnone]
    exact h
  | a :: ls =>
    have ha : a.Clean := hclean a (by simp)
    rw [List.map_cons, List.foldl_cons, hwaits.line_eq hok hblock]
    generalize hl : { l with block := ((passed ++ [a]).map Line.content).filter (· ≠ []) } = l'
    have h' : Tracks r l' := hl ▸ ⟨h.events, h.lastId, h.serverDelay, h.failure⟩
    have hok' : l'.failed = false := hl ▸ hok
    have hblock' : l'.block = ((passed ++ [a]).map Line.content).filter (· ≠ []) := hl ▸ rfl
    by_cases hclose : ∃ b more, ls = b :: more ∧ a.Closes b
    · -- The frame ends here, and both readers take in what stands before it.
      obtain ⟨b, more, rfl, hab⟩ := hclose
      have hpassed : ∀ c ∈ passed, c.Clean := fun c hc => hclean c (by simp [hc])
      have hmore : ∀ c ∈ [] ++ more, c.Clean := fun c hc => hclean c (by simp_all)
      have hlt : more.length < n := by
        rw [← hn, List.length_cons, List.length_cons]
        omega
      have hsegment := EventStream.ofText_segment hpassed ha (a.trace_cases b)
      rw [hwaits.frames_of_closes ha hab, List.map_cons, List.foldl_cons, hab.1,
        ByLine.line_nil hok']
      rcases h'.dispatch hok' (hblock' ▸ hsegment) (frames (more.flatMap Line.bytes ++ tail)) with
        ⟨hfailed, htracks⟩ | ⟨r', hr', htracks, hnext, hnil⟩
      · rwa [ByLine.foldl_line_of_failed hfailed]
      · rw [hr']
        exact ih more.length hlt hmore hsep.of_cons.of_cons
          (waits_nil more tail) htracks hnext hnil rfl
    · -- No cut is made, and the line is one of those that wait for a blank one.
      have hpass := hwaits.pass ha (fun b hb => hclean b (by simp [hb])) htail hsep hclose
      have hgoal := ih ls.length (by simp [← hn]) (by simpa using hclean) hsep.of_cons hpass h' hok'
        hblock' rfl
      simpa using hgoal

end Lines

/-- **Framing agrees with reading line by line.** In every stream in which each CR stands before an LF
and no line ended by LF alone is directly followed by a blank line ended by CR LF, cutting frames and
parsing each one makes the same reports as going through the stream line by line, leaves the same id
and server delay, and fails at the same block. So it does when the stream comes in pieces that fit
under the limit. -/
theorem framing_by_lines {bytes : Bytes} (h : Tame bytes) (s : Subscription) :
    Tracks ((Reading.begin s).frames (frames bytes)) (byLine s bytes) ∧
      ∀ chunks, chunks.flatten = bytes → Fits chunks → Tracks (reading s chunks) (byLine s bytes) := by
  have hwhole : Tracks ((Reading.begin s).frames (frames bytes)) (byLine s bytes) := by
    obtain ⟨hlines, htail⟩ := EventStream.clean_splitLines h.paired
    have hstart : Tracks (Reading.begin s) ⟨s.lastId, s.backoff.serverDelay, [], [], false⟩ :=
      ⟨rfl, rfl, rfl, rfl⟩
    have hclean : ∀ a ∈ [] ++ (splitLines bytes).1, a.Clean := by simpa using hlines
    have hall := tracks_lines htail hclean h.separated (waits_nil _ _) hstart rfl rfl
    rw [List.flatMap_nil, List.nil_append, ← EventStream.splitLines_eq] at hall
    exact hall
  refine ⟨hwhole, ?_⟩
  rintro chunks rfl hfits
  have hagrees := hfits.agrees s
  rw [whole_eq] at hagrees
  refine ⟨?_, ?_, ?_, ?_⟩
  · rw [hagrees.events]
    exact hwhole.events
  · rw [hagrees.subscription]
    exact hwhole.lastId
  · rw [hagrees.subscription]
    exact hwhole.serverDelay
  · rw [hagrees.failure]
    exact hwhole.failure

/-- A stream with both line ends: a blank line at the start, a frame that a lone LF behind CR LF ends,
one without data, and a line that has not ended. -/
theorem framing_by_lines_mixed :
    let bytes : Bytes := [10] ++ "data: a".toUTF8.toList ++ [13, 10, 10] ++ "id: 7".toUTF8.toList ++
      [10, 10] ++ "event: e".toUTF8.toList ++ [13, 10] ++ "data".toUTF8.toList ++ [13, 10, 13, 10] ++
      "data: b".toUTF8.toList
    let s := Subscription.new "http://h" "/s" ⟨.ofMillis 500, .ofSecs 8, Backoff.defaultJitter⟩
    Tame bytes ∧ Tracks ((Reading.begin s).frames (frames bytes)) (byLine s bytes) ∧
      (byLine s bytes).events = [⟨"message", "a", none⟩, ⟨"e", "", some "7"⟩] := by
  intro bytes s
  have h : Tame bytes := ⟨by decide +kernel, by decide +kernel⟩
  exact ⟨h, (framing_by_lines h s).1, by decide +kernel⟩

end Switchboard.Subscription
