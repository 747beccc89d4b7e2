import Switchboard.Proofs.EventStream.Draining
import Switchboard.Push.Subscription

/-!
# The pieces of a stream do not matter

The stream of a connection arrives in pieces, and after each piece all complete frames are taken
in. What comes of a stream is the same however it was cut, as long as no piece leaves more than
`maxPending` octets waiting.

- `reading`: a connection after some pieces of its stream.
- `whole`: what the frames of a stream come to when all of it is there at once.
- `received`: the octets that are looked at before the limit ends the reading.
- `reading_received`: the pieces come to what the received octets come to as a whole.
- `chunking_irrelevant`: two ways of cutting a stream that fit under the limit.

Without the limit the pieces would not matter at all, as draining in two pieces is draining at once. The
limit is looked at after each piece, so a cut can matter through it alone. `reading_received` keeps
the limit and says so: it decides how much of the stream is looked at, and what is looked at counts as a
whole. The condition `Fits` then makes that the whole stream.

`Fits` asks nothing of what comes behind a frame that is no text, since the reading has ended there. A
bound on the length of the stream implies it (`fits_of_length_le`), but an endless stream of small
frames fits as well.
-/

namespace Switchboard.Subscription

open EventStream (Bytes frames rest)
open Text.Utf8 (decode?)

/-- A frame that is a text. Any other ends the reading. -/
def readable (f : Bytes) : Bool := (decode? f).isSome

/-- A connection whose reading begins. -/
def Reading.begin (s : Subscription) : Reading :=
  ⟨{ s with backoff := s.backoff.reset }, [], [], none⟩

/-- A connection after some pieces of its stream. -/
def reading (s : Subscription) (chunks : List Bytes) : Reading :=
  chunks.foldl Reading.chunk (.begin s)

/-- The frames of a stream, taken in at once. -/
def whole (s : Subscription) (bytes : Bytes) : Reading :=
  { Reading.begin s with pending := rest bytes }.frames (frames bytes)

/-- What the frames before the first that is no text come to. -/
def taken (s : Subscription) (bytes : Bytes) : Reading :=
  (Reading.begin s).frames ((frames bytes).takeWhile readable)

/-- Readings that made the same reports and left the same state. What waits in a reading that has
failed is never looked at again. -/
structure Reading.Agrees (r r' : Reading) : Prop where
  events : r.events = r'.events
  subscription : r.subscription = r'.subscription
  failure : r.failure = r'.failure
  pending : r.failure = none → r.pending = r'.pending

/-! ### What a frame adds -/

theorem lastId_absorb (s : Subscription) (f : EventStream.Frame) :
    (s.absorb f).1.lastId = f.id.or s.lastId := by
  rcases f with ⟨event, data, _ | id, _ | retry⟩ <;> rfl

theorem backoff_absorb (s : Subscription) (f : EventStream.Frame) :
    (s.absorb f).1.backoff = { s.backoff with serverDelay := f.retry.or s.backoff.serverDelay } := by
  rcases f with ⟨event, data, _ | id, _ | retry⟩ <;> rfl

theorem event_absorb (s : Subscription) (f : EventStream.Frame) :
    (s.absorb f).2 = f.data.map fun data => ⟨f.name, data, f.id.or s.lastId⟩ := by
  rcases f with ⟨event, data, _ | id, _ | retry⟩ <;> rfl

namespace Reading

variable {r r' r'' : Reading} {fs gs : List Bytes}

theorem Agrees.symm (h : r.Agrees r') : r'.Agrees r :=
  ⟨h.events.symm, h.subscription.symm, h.failure.symm,
    fun hr => (h.pending (h.failure.trans hr)).symm⟩

theorem Agrees.trans (h : r.Agrees r') (h' : r'.Agrees r'') : r.Agrees r'' :=
  ⟨h.events.trans h'.events, h.subscription.trans h'.subscription, h.failure.trans h'.failure,
    fun hr => (h.pending hr).trans (h'.pending (h.failure.symm.trans hr))⟩

/-! ### Frames one after the other -/

@[simp] theorem failure_text (r : Reading) (t : String) : (r.text t).failure = r.failure := rfl

/-- A frame that is a text is taken in, and an empty one adds nothing. -/
theorem frames_cons (r : Reading) (f : Bytes) (fs : List Bytes) :
    r.frames (f :: fs) =
      match decode? f with
      | some t => (r.text t).frames fs
      | none => { r with failure := some .invalidUtf8 } := by
  cases f with
  | nil => rfl
  | cons b f =>
    rcases h : decode? (b :: f) with _ | t
    · simp [frames, h]
    · simp [frames, h]

/-- What waits has no part in how frames are taken in. -/
theorem frames_pending (r : Reading) (b : Bytes) (fs : List Bytes) :
    { r with pending := b }.frames fs = { r.frames fs with pending := b } := by
  induction fs generalizing r with
  | nil => rfl
  | cons f fs ih =>
    rw [frames_cons, frames_cons]
    split
    · exact ih (r.text _)
    · rfl

/-- A frame that is no text ends the reading, and nothing else that frames hold does. -/
theorem failure_frames (r : Reading) (fs : List Bytes) :
    (r.frames fs).failure = if fs.all readable then r.failure else some .invalidUtf8 := by
  induction fs generalizing r with
  | nil => rfl
  | cons f fs ih =>
    rw [frames_cons, List.all_cons]
    rcases hf : decode? f with _ | t
    · simp [readable, hf]
    · simpa [readable, hf] using ih (r.text t)

theorem failure_frames_eq_none (h : r.failure = none) :
    (r.frames fs).failure = none ↔ ∀ f ∈ fs, readable f = true := by
  rw [failure_frames, h]
  split_ifs with hall
  · exact iff_of_true rfl (List.all_eq_true.mp hall)
  · refine iff_of_false (by simp) fun hf => hall (List.all_eq_true.mpr hf)

/-- Behind frames that are all readable the reading goes on. -/
theorem frames_append (h : ∀ f ∈ fs, readable f = true) (r : Reading) (gs : List Bytes) :
    r.frames (fs ++ gs) = (r.frames fs).frames gs := by
  induction fs generalizing r with
  | nil => rfl
  | cons f fs ih =>
    have ih := ih fun g hg => h g (List.mem_cons_of_mem _ hg)
    obtain ⟨t, ht⟩ := Option.isSome_iff_exists.mp (h f List.mem_cons_self)
    rw [List.cons_append, frames_cons, frames_cons, ht]
    exact ih (r.text t)

/-- Behind a frame that is not readable nothing is taken in. -/
theorem frames_append_of_unreadable (h : ∃ f ∈ fs, readable f = false) (r : Reading)
    (gs : List Bytes) : r.frames (fs ++ gs) = r.frames fs := by
  induction fs generalizing r with
  | nil => simp at h
  | cons f fs ih =>
    rw [List.cons_append, frames_cons, frames_cons]
    rcases hf : decode? f with _ | t
    · rfl
    · refine ih ?_ _
      obtain ⟨g, hg, hbad⟩ := h
      rcases List.mem_cons.mp hg with rfl | hg
      · simp [readable, hf] at hbad
      · exact ⟨g, hg, hbad⟩

/-- The frames before the first unreadable one are those that are taken in. -/
theorem frames_takeWhile (r : Reading) (fs : List Bytes) :
    (r.frames (fs.takeWhile readable)).events = (r.frames fs).events ∧
      (r.frames (fs.takeWhile readable)).subscription = (r.frames fs).subscription := by
  induction fs generalizing r with
  | nil => exact ⟨rfl, rfl⟩
  | cons f fs ih =>
    rcases hf : decode? f with _ | t
    · rw [List.takeWhile_cons_of_neg (by simp [readable, hf]), frames_cons, hf]
      exact ⟨rfl, rfl⟩
    · rw [List.takeWhile_cons_of_pos (by simp [readable, hf]), frames_cons, frames_cons, hf]
      exact ih (r.text t)

/-! ### Pieces -/

/-- A reading with more octets waiting than the limit has failed. -/
def limit (r : Reading) : Reading :=
  if r.failure = none ∧ maxPending < r.pending.length then { r with failure := some .bufferOverflow }
  else r

theorem chunk_of_failure (h : r.failure ≠ none) (bytes : Bytes) : r.chunk bytes = r := by
  unfold chunk
  split
  · rfl
  · exact absurd (by assumption) h

theorem foldl_chunk_of_failure (h : r.failure ≠ none) (chunks : List Bytes) :
    chunks.foldl chunk r = r := by
  induction chunks with
  | nil => rfl
  | cons c chunks ih => rw [List.foldl_cons, chunk_of_failure h, ih]

/-- Takes in what waits and `bytes`, without a limit. -/
def intake (r : Reading) (bytes : Bytes) : Reading :=
  { r with pending := rest (r.pending ++ bytes) }.frames (EventStream.frames (r.pending ++ bytes))

/-- A piece that arrives is taken in together with what waited before it, up to the limit. -/
theorem chunk_of_failure_eq_none (h : r.failure = none) (bytes : Bytes) :
    r.chunk bytes = (r.intake bytes).limit := by
  have hpending : (r.intake bytes).pending = rest (r.pending ++ bytes) := by
    rw [intake, frames_pending]
  unfold chunk
  split
  · simp_all
  · dsimp only
    split
    · rename_i e hfailure
      have hfailed : (r.intake bytes).failure = some e := hfailure
      rw [limit, hfailed, if_neg (by simp)]
      rfl
    · rename_i hfailure
      have hok : (r.intake bytes).failure = none := hfailure
      show (if maxPending < (rest (r.pending ++ bytes)).length then
        { r.intake bytes with failure := some .bufferOverflow } else r.intake bytes) = _
      rw [← hpending, limit]
      simp only [hok, true_and]

end Reading

open Reading (begin limit)

variable {s : Subscription} {bytes : Bytes} {chunks : List Bytes}

/-! ### The whole stream -/

theorem begin_eq_whole (s : Subscription) : begin s = whole s [] := by
  simp [whole, Reading.frames, begin]

theorem whole_eq (s : Subscription) (bytes : Bytes) :
    whole s bytes = { (begin s).frames (frames bytes) with pending := rest bytes } :=
  Reading.frames_pending _ _ _

theorem pending_whole (s : Subscription) (bytes : Bytes) :
    (whole s bytes).pending = rest bytes := by
  rw [whole, Reading.frames_pending]

theorem failure_whole (s : Subscription) (bytes : Bytes) :
    (whole s bytes).failure = if (frames bytes).all readable then none else some .invalidUtf8 :=
  Reading.failure_frames _ _

theorem failure_whole_eq_none :
    (whole s bytes).failure = none ↔ ∀ f ∈ frames bytes, readable f = true :=
  Reading.failure_frames_eq_none rfl

/-- What follows a readable beginning is taken in behind it. -/
theorem whole_append (h : (whole s bytes).failure = none) (more : Bytes) :
    whole s (bytes ++ more) = (whole s bytes).intake more := by
  rw [Reading.intake, pending_whole, ← EventStream.rest_append, whole_eq s (bytes ++ more),
    EventStream.frames_append, Reading.frames_append (failure_whole_eq_none.mp h), whole_eq s bytes]
  simp only [Reading.frames_pending]

/-- What follows an unreadable frame is not looked at. -/
theorem agrees_whole_append (h : (whole s bytes).failure ≠ none) (more : Bytes) :
    (whole s bytes).Agrees (whole s (bytes ++ more)) := by
  have hbad : ∃ f ∈ frames bytes, readable f = false := by
    by_contra hno
    refine h (failure_whole_eq_none.mpr fun f hf => ?_)
    rcases hr : readable f with _ | _
    · exact absurd ⟨f, hf, hr⟩ hno
    · rfl
  have hsame : whole s (bytes ++ more) = { whole s bytes with pending := rest (bytes ++ more) } := by
    rw [whole_eq, whole_eq, EventStream.frames_append, Reading.frames_append_of_unreadable hbad]
  rw [hsame]
  exact ⟨rfl, rfl, rfl, fun hnone => absurd hnone h⟩

/-! ### What is received -/

/-- The octets behind `seen` up to the end of the piece after which more of them wait than the limit
allows. -/
def receivedFrom (seen : Bytes) : List Bytes → Bytes
  | [] => seen
  | c :: chunks =>
    if maxPending < (rest (seen ++ c)).length then seen ++ c else receivedFrom (seen ++ c) chunks

/-- The octets of a stream that are looked at, whatever the frames in them hold. -/
def received (chunks : List Bytes) : Bytes := receivedFrom [] chunks

theorem exists_receivedFrom_eq (seen : Bytes) (chunks : List Bytes) :
    ∃ pre, pre <+: chunks ∧ receivedFrom seen chunks = seen ++ pre.flatten ∧
      (pre = chunks ∨ maxPending < (rest (seen ++ pre.flatten)).length) := by
  induction chunks generalizing seen with
  | nil => exact ⟨[], List.prefix_rfl, by simp [receivedFrom], .inl rfl⟩
  | cons c chunks ih =>
    unfold receivedFrom
    split_ifs with hlimit
    · exact ⟨[c], by simp, by simp, .inr (by simpa using hlimit)⟩
    · obtain ⟨pre, hpre, heq, hend⟩ := ih (seen ++ c)
      refine ⟨c :: pre, List.cons_prefix_cons.mpr ⟨rfl, hpre⟩, by simp [heq], ?_⟩
      rcases hend with rfl | hend
      · exact .inl rfl
      · exact .inr (by simpa using hend)

theorem foldl_chunk_whole (seen : Bytes) (h : (whole s seen).failure = none)
    (hseen : (rest seen).length ≤ maxPending) (chunks : List Bytes) :
    (chunks.foldl Reading.chunk (whole s seen)).Agrees
      (limit (whole s (receivedFrom seen chunks))) := by
  -- As long as nothing has failed, what was seen has been taken in as a whole.
  induction chunks generalizing seen with
  | nil =>
    have hlimit : limit (whole s seen) = whole s seen := by
      rw [limit, if_neg]
      rw [pending_whole]
      omega
    rw [receivedFrom, hlimit]
    exact ⟨rfl, rfl, rfl, fun _ => rfl⟩
  | cons c chunks ih =>
    rw [List.foldl_cons, Reading.chunk_of_failure_eq_none h, ← whole_append h, receivedFrom]
    split_ifs with hlimit
    · -- The piece fills the buffer.
      rw [Reading.foldl_chunk_of_failure]
      · exact ⟨rfl, rfl, rfl, fun _ => rfl⟩
      · rw [limit]
        split_ifs with hfull
        · simp
        · rw [pending_whole] at hfull
          exact fun hnone => hfull ⟨hnone, hlimit⟩
    · have hsame : limit (whole s (seen ++ c)) = whole s (seen ++ c) := by
        rw [limit, if_neg]
        rw [pending_whole]
        omega
      rw [hsame]
      by_cases hok : (whole s (seen ++ c)).failure = none
      · exact ih (seen ++ c) hok (Nat.le_of_not_lt hlimit)
      · -- A frame in the piece ends the reading.
        obtain ⟨pre, -, heq, -⟩ := exists_receivedFrom_eq (seen ++ c) chunks
        have hmore := agrees_whole_append hok pre.flatten
        have hfail : (whole s (receivedFrom (seen ++ c) chunks)).failure ≠ none := by
          rw [heq, ← hmore.failure]
          exact hok
        have hlast : limit (whole s (receivedFrom (seen ++ c) chunks))
            = whole s (receivedFrom (seen ++ c) chunks) := by
          rw [limit, if_neg]
          exact fun hnone => hfail hnone.1
        rw [Reading.foldl_chunk_of_failure hok, hlast, heq]
        exact hmore

/-- The pieces of a stream come to what the received octets come to as a whole. -/
theorem reading_received (s : Subscription) (chunks : List Bytes) :
    (reading s chunks).Agrees (limit (whole s (received chunks))) := by
  rw [reading, begin_eq_whole]
  exact foldl_chunk_whole [] (by rw [← begin_eq_whole]; rfl) (by simp) chunks

/-! ### Pieces that fit -/

/-- No piece leaves more octets waiting than the limit allows, up to the piece with the first frame
that is no text, where the reading ends. -/
def Fits (chunks : List Bytes) : Prop :=
  ∀ pre, pre <+: chunks → (∀ f ∈ frames pre.flatten, readable f = true) →
    (rest pre.flatten).length ≤ maxPending

theorem fits_of_length_le (h : chunks.flatten.length ≤ maxPending) : Fits chunks := by
  rintro pre ⟨more, rfl⟩ -
  rw [List.flatten_append, List.length_append] at h
  exact Nat.le_trans (EventStream.length_rest_le _) (by omega)

/-- Pieces that fit come to what the stream comes to as a whole. -/
theorem Fits.agrees (h : Fits chunks) (s : Subscription) :
    (reading s chunks).Agrees (whole s chunks.flatten) := by
  obtain ⟨pre, ⟨more, rfl⟩, heq, hend⟩ := exists_receivedFrom_eq [] chunks
  have hread := reading_received s (pre ++ more)
  simp only [received, heq, List.nil_append] at hread hend
  by_cases hok : (whole s pre.flatten).failure = none
  · have hfits := h pre (List.prefix_append _ _) (failure_whole_eq_none.mp hok)
    have hlimit : limit (whole s pre.flatten) = whole s pre.flatten := by
      rw [limit, if_neg]
      rw [pending_whole]
      omega
    obtain hpre | hfull := hend
    · obtain rfl : more = [] := by simpa using hpre
      rw [hlimit] at hread
      simpa using hread
    · omega
  · -- The reading has ended before any limit.
    have hlimit : limit (whole s pre.flatten) = whole s pre.flatten := by
      rw [limit, if_neg]
      exact fun hnone => hok hnone.1
    rw [hlimit] at hread
    rw [List.flatten_append]
    exact hread.trans (agrees_whole_append hok _)

/-- What a reading that has failed or not comes to when the stream ends. -/
def endedBy : Option PushError → Http.Ending → Option PushError
  | some e, _ => some e
  | none, .complete => some .closed
  | none, .cut => some (.stream Http.ExchangeFault.brokenBody.message)
  | none, .open => none

/-- A connection comes to what the reading of its pieces comes to. -/
theorem stream_eq (s : Subscription) (i : Http.Incoming) :
    s.stream i =
      { events := (reading s i.chunks).events.reverse
        ended := (endedBy (reading s i.chunks).failure i.ending).map (⟨·, []⟩)
        subscription := (reading s i.chunks).subscription } := by
  rfl

/-- **The pieces of a stream do not matter.** Two ways of cutting a stream that fit under the limit
lead to the same reports, the same last id and the same reconnect state; both readings take in
exactly the frames before the first that is no text, and end there, or go on with the same octets
waiting. So the connection comes to the same, however it ends. -/
theorem chunking_irrelevant {cs ds : List Bytes} (h : cs.flatten = ds.flatten) (hc : Fits cs)
    (hd : Fits ds) (s : Subscription) :
    (reading s cs).Agrees (reading s ds) ∧
    ((reading s cs).events = (taken s cs.flatten).events ∧
      (reading s cs).subscription = (taken s cs.flatten).subscription) ∧
    ((reading s cs).failure = if (frames cs.flatten).all readable then none else some .invalidUtf8) ∧
    ((reading s cs).failure = none → (reading s cs).pending = rest cs.flatten) ∧
    ∀ status fields ending,
      s.stream ⟨status, fields, cs, ending⟩ = s.stream ⟨status, fields, ds, ending⟩ := by
  have hcs := hc.agrees s
  have hds := hd.agrees s
  rw [← h] at hds
  have hsame := hcs.trans hds.symm
  obtain ⟨hevents, hsubscription⟩ := (begin s).frames_takeWhile (frames cs.flatten)
  refine ⟨hsame, ⟨?_, ?_⟩, ?_, fun hnone => ?_, fun status fields ending => ?_⟩
  · rw [hcs.events, whole_eq, taken, hevents]
  · rw [hcs.subscription, whole_eq, taken, hsubscription]
  · rw [hcs.failure, failure_whole]
  · rw [hcs.pending hnone, pending_whole]
  · rw [stream_eq, stream_eq, hsame.events, hsame.failure, hsame.subscription]

/-- A stream cut inside a character and inside the blank line that ends its frame. -/
theorem chunking_irrelevant_inside_delimiter :
    let cs : List Bytes := [[100, 97, 116, 97, 58, 195], [], [169, 13, 10, 13], [10, 100]]
    let ds : List Bytes := [[100, 97, 116, 97, 58, 195, 169, 13, 10, 13, 10, 100]]
    let s := Subscription.new "http://h" "/s" ⟨.ofMillis 500, .ofSecs 8, Backoff.defaultJitter⟩
    cs.flatten = ds.flatten ∧ Fits cs ∧ Fits ds ∧ (reading s cs).Agrees (reading s ds) ∧
      (reading s cs).events = [⟨"message", "é", none⟩] := by
  intro cs ds s
  have hsame : cs.flatten = ds.flatten := rfl
  have hc : Fits cs := fits_of_length_le (by decide)
  have hd : Fits ds := fits_of_length_le (by decide)
  obtain ⟨hagrees, ⟨hevents, -⟩, -⟩ := chunking_irrelevant hsame hc hd s
  refine ⟨hsame, hc, hd, hagrees, hevents.trans ?_⟩
  have hframes : frames cs.flatten = [[100, 97, 116, 97, 58, 195, 169]] := by
    rw [EventStream.frames_of_cut? (c := ⟨[100, 97, 116, 97, 58, 195, 169], .crLfCrLf, [100]⟩) rfl,
      EventStream.frames_of_cut?_eq_none rfl]
  rw [taken, hframes]
  decide +kernel

end Switchboard.Subscription
