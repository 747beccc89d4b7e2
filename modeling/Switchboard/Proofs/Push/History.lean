import Switchboard.Proofs.EventStream.Fields
import Switchboard.Proofs.Http.ErrorBody
import Switchboard.Proofs.Push.Chunking

/-!
# What a subscription remembers of its history

A subscription keeps one id from attempt to attempt, and a connection keeps what waits of its
stream. Here the texts of all frames that were dispatched so far take the place of both.

- `texts`, `ending`: what an attempt brought, from its own answer alone.
- `lastNamed`, `eventsAfter`: the last id of a history, and the events of the texts behind one.
- `visits`: the attempts of a subscription one after the other.
- `reconnect_history`: each visit follows from the history before it and its own answer.

## When a connection has ended

An attempt ends when its connection has, and the two are defined apart. `ending` goes along the program:
a success is read as a stream, and of any other answer the body is read for the text of the error.
`Ended` lists the ways in which a connection can end, whatever is done with it: no head arrives, the
peer completes or breaks off the body, or the reader gives up on a fault or on the length.
`ending_ne_none_iff` says that these are the same. Among the answers that have not ended there are
rejections. A peer that sends the head of one and part of a short body, and then nothing more, keeps the
attempt waiting without a report, since the text of the error is what is still awaited.

## Proof structure

`meet_history` is about one attempt, and `visits_follow` carries along that the subscription remembers
the last id of all texts so far; the texts are those of complete frames only, so a stream that breaks
off inside a frame leaves nothing behind. A run adds peers and requests. An attempt whose request cannot
be sent is an attempt as any other there (`answerOver`): it has ended with a report, its connection was
not used, and the next attempt follows.
-/

namespace Switchboard

namespace Subscription

open EventStream (Bytes Frame frames rest)
open Http (Connection Incoming Outgoing)
open Text.Utf8 (decode?)

/-! ### The history in place of the state

All of these are functions of answers. None looks at a subscription. -/

/-- What an attempt brings: the head of a response, or why there is none. -/
abbrev Answer := Except Http.ExchangeFault Incoming

/-- The texts of frames up to the first that is none. -/
def readableTexts (fs : List Bytes) : List String := (fs.takeWhile readable).filterMap decode?

/-- The texts that an attempt dispatches: those of the complete frames of a success, up to the first
that is no text. -/
def texts : Answer → List String
  | .error _ => []
  | .ok i =>
    if Http.isSuccess i.status then readableTexts (frames (received i.chunks)) else []

/-- What ends the reading of octets before the connection does. -/
def faultIn (bytes : Bytes) : Option PushError :=
  if (frames bytes).all readable then
    if maxPending < (rest bytes).length then some .bufferOverflow else none
  else some .invalidUtf8

/-- How an attempt ends, if it does. -/
def ending : Answer → Option PushError
  | .error fault => some (.connect fault.message)
  | .ok i =>
    if Http.isSuccess i.status then endedBy (faultIn (received i.chunks)) i.ending
    else if i.awaited then none
    else some (.status i.status (Http.errorText i.chunks))

/-- The connection of an attempt has ended: it did not come about, or the peer has ended the body, or
the reader has given up, a stream for a fault in it and an error body for its length. -/
inductive Ended : Answer → Prop
  | unconnected (fault : Http.ExchangeFault) : Ended (.error fault)
  | closed {i : Incoming} (h : i.ending ≠ .open) : Ended (.ok i)
  | faulty {i : Incoming} (hi : Http.isSuccess i.status = true)
      (h : faultIn (received i.chunks) ≠ none) : Ended (.ok i)
  | overlong {i : Incoming} (hi : Http.isSuccess i.status = false)
      (h : 32768 < i.chunks.flatten.length) : Ended (.ok i)

/-- The last id that a line of the texts names. -/
def lastNamed (ts : List String) : Option String := (ts.flatMap Frame.ids).getLast?

/-- The events of texts behind `earlier`: each text with data is one, with the last id that was named
up to its own end. -/
def eventsAfter (earlier : List String) : List String → List PushEvent
  | [] => []
  | t :: ts =>
    ((Frame.ofText t).data.map fun data =>
        ⟨(Frame.ofText t).name, data, lastNamed (earlier ++ [t])⟩).toList ++
      eventsAfter (earlier ++ [t]) ts

/-! ### Attempts one after the other -/

/-- What an attempt comes to. -/
def meet (s : Subscription) : Answer → Outcome
  | .error fault => ⟨[], some ⟨.connect fault.message, []⟩, s⟩
  | .ok i => s.attempt (some i)

/-- One attempt of a subscription. -/
structure Visit where
  /-- The field lines of its request. -/
  asked : List (String × String)
  answer : Answer
  events : List PushEvent
  /-- The failure that was reported, and the delay after it; none while the connection is open. -/
  ended : Option (PushError × Duration)

/-- The attempt that brings `a`. -/
def visit (s : Subscription) (a : Answer) (ended : Option (PushError × Duration)) : Visit :=
  ⟨s.requestFields, a, (s.meet a).events, ended⟩

/-- The delay after an attempt that ended, and what goes into the next one. -/
def after (s : Subscription) (a : Answer) (d : Disconnect) : Duration × Subscription :=
  (s.meet a).subscription.pause d

/-- The attempts that bring `answers`. The next one begins when the one before has ended. -/
def visits (s : Subscription) : List Answer → List Visit
  | [] => []
  | a :: answers =>
    match (s.meet a).ended with
    | none => [s.visit a none]
    | some d => s.visit a (some (d.error, (s.after a d).1)) :: visits (s.after a d).2 answers

namespace Visit

/-- What is reported of an attempt: its events, then its end. -/
def reports (v : Visit) : List Report :=
  v.events.map .event ++ v.ended.toList.map fun e => .disconnect e.1 e.2

/-- The request of an attempt, if it can be sent. -/
def request? (url : String) (v : Visit) : Option Outgoing := Outgoing.build? .get url v.asked none

/-- The request of an attempt, if it reaches its peer. -/
def sent? (url : String) (c : Connection) (v : Visit) : Option Outgoing :=
  (v.request? url).filter c.hears

/-- A visit that follows from the texts that were dispatched before it, and from what it brought. -/
structure Follows (earlier : List String) (a : Answer) (v : Visit) : Prop where
  answer : v.answer = a
  /-- The last id is asked for once there is one. -/
  asked : v.asked = [("accept", "text/event-stream"), ("cache-control", "no-cache")] ++
    ((lastNamed earlier).map fun id => ("last-event-id", id)).toList
  events : v.events = eventsAfter earlier (texts a)
  ended : v.ended.map Prod.fst = ending a

end Visit

/-- What a connection brings to a request. -/
def answerOver (c : Connection) : Option Outgoing → Answer
  | none => .error .illegalRequest
  | some r =>
    match c.receive? r with
    | none => .error .noAnswer
    | some i => .ok i

/-- A run over `cs` that made the visits `vs`, one for each connection until one stays open. A request
that cannot be sent is a visit as well, whose connection is not used. -/
structure Run.Tells (run : Run) (url : String) (cs : List Connection) (vs : List Visit) : Prop where
  reports : run.reports = vs.flatMap Visit.reports
  requests : run.requests = (cs.zip vs).filterMap fun e => e.2.sent? url e.1
  answers : ∀ (k : Nat) (v : Visit), vs[k]? = some v →
    ∃ c, cs[k]? = some c ∧ v.answer = answerOver c (v.request? url)
  ends : vs.length = cs.length ∨ ∃ v, vs.getLast? = some v ∧ v.ended = none

variable {s : Subscription} {earlier : List String}

/-! ### One connection

A reading adds the texts of its frames to the history, whatever the history was. -/

theorem lastNamed_append (earlier ts : List String) :
    lastNamed (earlier ++ ts) = (lastNamed ts).or (lastNamed earlier) := by
  rw [lastNamed, List.flatMap_append, List.getLast?_append]
  rfl

@[simp] theorem lastNamed_singleton (t : String) : lastNamed [t] = (Frame.ofText t).id := by
  rw [Frame.id_ofText, lastNamed, List.flatMap_singleton]

/-- Frames that are taken in add their texts to the history. -/
theorem frames_history {r : Reading} (h : r.subscription.lastId = lastNamed earlier) (fs : List Bytes) :
    (r.frames fs).subscription.lastId = lastNamed (earlier ++ readableTexts fs) ∧
      (r.frames fs).events.reverse =
        r.events.reverse ++ eventsAfter earlier (readableTexts fs) := by
  induction fs generalizing r earlier with
  | nil => simp [readableTexts, Reading.frames, eventsAfter, h]
  | cons f fs ih =>
    rw [Reading.frames_cons]
    rcases hf : decode? f with _ | t
    · have hnone : readableTexts (f :: fs) = [] := by simp [readableTexts, readable, hf]
      simp [hnone, eventsAfter, h]
    · have hcons : readableTexts (f :: fs) = t :: readableTexts fs := by
        simp [readableTexts, readable, hf]
      have hlast : (r.text t).subscription.lastId = lastNamed (earlier ++ [t]) := by
        show (r.subscription.absorb (.ofText t)).1.lastId = _
        rw [lastId_absorb, h, lastNamed_append, lastNamed_singleton]
      obtain ⟨hid, hevents⟩ := ih hlast
      rw [hcons]
      constructor
      · simpa using hid
      · show ((r.text t).frames fs).events.reverse = _
        rw [hevents]
        show (((r.subscription.absorb (.ofText t)).2).toList ++ r.events).reverse ++ _ = _
        rw [event_absorb, h, eventsAfter, lastNamed_append, lastNamed_singleton]
        rcases (Frame.ofText t).data with _ | data <;> simp

/-- The limit keeps what the frames came to. -/
theorem limit_whole (s : Subscription) (bytes : Bytes) :
    (whole s bytes).limit.events = ((Reading.begin s).frames (frames bytes)).events ∧
      (whole s bytes).limit.subscription = ((Reading.begin s).frames (frames bytes)).subscription ∧
      (whole s bytes).limit.failure = faultIn bytes := by
  unfold Reading.limit faultIn
  rw [pending_whole, failure_whole]
  refine ⟨?_, ?_, ?_⟩
  · rw [whole_eq]
    split_ifs <;> rfl
  · rw [whole_eq]
    split_ifs <;> rfl
  · by_cases hall : (frames bytes).all readable
    · by_cases hfull : maxPending < (rest bytes).length
      · simp [hall, hfull]
      · simp [hall, hfull, failure_whole]
    · simp [hall, failure_whole]

/-- What a stream leaves behind, from the history and its own octets. -/
theorem stream_history (h : s.lastId = lastNamed earlier) {i : Incoming}
    (hi : Http.isSuccess i.status = true) :
    (s.stream i).events = eventsAfter earlier (texts (.ok i)) ∧
      (s.stream i).subscription.lastId = lastNamed (earlier ++ texts (.ok i)) ∧
      (s.stream i).ended.map Disconnect.error = ending (.ok i) := by
  have hread := reading_received s i.chunks
  have htexts : texts (.ok i) = readableTexts (frames (received i.chunks)) := if_pos hi
  have hbegin : (Reading.begin s).subscription.lastId = lastNamed earlier := h
  obtain ⟨hid, hevents⟩ := frames_history hbegin (frames (received i.chunks))
  have hending : ending (.ok i) = endedBy (faultIn (received i.chunks)) i.ending := if_pos hi
  rw [stream_eq, htexts, hending]
  refine ⟨?_, ?_, ?_⟩
  · rw [hread.events, (limit_whole s _).1, hevents]
    rfl
  · rw [hread.subscription, (limit_whole s _).2.1, hid]
  · rw [hread.failure, (limit_whole s _).2.2, Option.map_map]
    exact Option.map_id'

/-- Nothing but the listed ways ends a connection. So a connection that has not ended is one whose body
stays open, and which still may bring what the reader waits for. -/
theorem ending_ne_none_iff {a : Answer} : ending a ≠ none ↔ Ended a := by
  rcases a with fault | i
  · exact ⟨fun _ => .unconnected fault, fun _ => Option.some_ne_none _⟩
  · by_cases hi : Http.isSuccess i.status = true
    · have hending : ending (.ok i) = endedBy (faultIn (received i.chunks)) i.ending := if_pos hi
      rw [hending]
      constructor
      · intro h
        rcases hfault : faultIn (received i.chunks) with _ | e
        · refine .closed fun hopen => h ?_
          rw [hfault, hopen]
          rfl
        · exact .faulty hi (by simp [hfault])
      · rintro (_ | hclosed | ⟨-, hfault⟩ | ⟨hreject, -⟩)
        · rcases faultIn (received i.chunks) with _ | e
          · rcases hend : i.ending with _ | _ | _
            · exact Option.some_ne_none _
            · exact Option.some_ne_none _
            · exact absurd hend hclosed
          · exact Option.some_ne_none _
        · obtain ⟨e, he⟩ := Option.ne_none_iff_exists'.mp hfault
          rw [he]
          exact Option.some_ne_none _
        · rw [hi] at hreject
          cases hreject
    · -- A rejection ends with its body, or when more of the body has come than is kept.
      have hreject : Http.isSuccess i.status = false := Bool.eq_false_iff.mpr hi
      have hending : ending (.ok i) =
          if i.awaited then none else some (.status i.status (Http.errorText i.chunks)) := if_neg hi
      have hread : ending (.ok i) ≠ none ↔ i.awaited = false := by
        rw [hending]
        cases i.awaited <;> simp
      rw [hread, Http.awaited_eq_false_iff]
      constructor
      · intro h
        by_cases hopen : i.ending = .open
        · exact .overlong hreject (h hopen)
        · exact .closed hopen
      · rintro (_ | hclosed | ⟨hsuccess, -⟩ | ⟨-, hlong⟩) hopen
        · exact absurd hopen hclosed
        · exact absurd hsuccess hi
        · exact hlong

theorem meet_of_success {i : Incoming} (hi : Http.isSuccess i.status = true) :
    s.meet (.ok i) = s.stream i := if_pos hi

/-- A rejection leaves the subscription alone. -/
theorem meet_of_rejection {i : Incoming} (hi : ¬ Http.isSuccess i.status = true) :
    s.meet (.ok i) = ⟨[], (ending (.ok i)).map (⟨·, i.fields⟩), s⟩ := by
  have hmeet : s.meet (.ok i) = if i.awaited then ⟨[], none, s⟩
      else ⟨[], some ⟨.status i.status (Http.errorText i.chunks), i.fields⟩, s⟩ := if_neg hi
  have hending : ending (.ok i) =
      if i.awaited then none else some (.status i.status (Http.errorText i.chunks)) := if_neg hi
  rw [hmeet, hending]
  split_ifs <;> rfl

theorem meet_history (h : s.lastId = lastNamed earlier) (a : Answer) :
    (s.meet a).events = eventsAfter earlier (texts a) ∧
      (s.meet a).subscription.lastId = lastNamed (earlier ++ texts a) ∧
      (s.meet a).ended.map Disconnect.error = ending a := by
  rcases a with fault | i
  · simp [meet, texts, ending, eventsAfter, h]
  · by_cases hi : Http.isSuccess i.status = true
    · rw [meet_of_success hi]
      exact stream_history h hi
    · have htexts : texts (.ok i) = [] := if_neg hi
      rw [meet_of_rejection hi, htexts, List.append_nil, Option.map_map]
      exact ⟨rfl, h, Option.map_id'⟩

/-! ### All connections -/

theorem requestFields_eq (h : s.lastId = lastNamed earlier) :
    s.requestFields = [("accept", "text/event-stream"), ("cache-control", "no-cache")] ++
      ((lastNamed earlier).map fun id => ("last-event-id", id)).toList := by
  unfold requestFields
  rw [h]
  rcases lastNamed earlier with _ | id <;> rfl

@[simp] theorem request?_visit (s : Subscription) (a : Answer)
    (ended : Option (PushError × Duration)) : (s.visit a ended).request? s.url = s.request := rfl

theorem visit_follows (h : s.lastId = lastNamed earlier) {a : Answer}
    {ended : Option (PushError × Duration)} (hended : ended.map Prod.fst = ending a) :
    (s.visit a ended).Follows earlier a :=
  ⟨rfl, requestFields_eq h, (meet_history h a).1, hended⟩

section Visits

variable {a : Answer} {answers : List Answer} {d : Disconnect}

theorem visits_of_open (h : (s.meet a).ended = none) : s.visits (a :: answers) = [s.visit a none] := by
  rw [visits, h]

theorem visits_of_ended (h : (s.meet a).ended = some d) :
    s.visits (a :: answers) =
      s.visit a (some (d.error, (s.after a d).1)) :: (s.after a d).2.visits answers := by
  rw [visits, h]

theorem lastId_after (h : s.lastId = lastNamed earlier) (a : Answer) (d : Disconnect) :
    (s.after a d).2.lastId = lastNamed (earlier ++ texts a) := (meet_history h a).2.1

/-- Each visit follows from the answers before it. The induction is on the answers; what is carried
from attempt to attempt is that the subscription remembers the last id of the history. -/
theorem visits_follow (h : s.lastId = lastNamed earlier) {k : Nat} {v : Visit}
    (hv : (s.visits answers)[k]? = some v) :
    ∃ a, answers[k]? = some a ∧ v.Follows (earlier ++ (answers.take k).flatMap texts) a := by
  induction answers generalizing s earlier k with
  | nil => simp [visits] at hv
  | cons a answers ih =>
    have hended := (meet_history h a).2.2
    rcases hd : (s.meet a).ended with _ | d
    · rw [visits_of_open hd] at hv
      obtain ⟨rfl, rfl⟩ := by simpa [List.getElem?_singleton] using hv
      have hfollows : (s.visit a none).Follows earlier a :=
        visit_follows h (by simpa [hd] using hended)
      exact ⟨a, rfl, by simpa using hfollows⟩
    · rw [visits_of_ended hd] at hv
      cases k with
      | zero =>
        obtain rfl := Option.some.inj hv
        have hfollows : (s.visit a (some (d.error, (s.after a d).1))).Follows earlier a :=
          visit_follows h (by simpa [hd] using hended)
        exact ⟨a, rfl, by simpa using hfollows⟩
      | succ k =>
        obtain ⟨b, hb, hfollows⟩ := ih (lastId_after h a d) hv
        exact ⟨b, hb, by simpa using hfollows⟩

/-- What an attempt does is settled before the next one begins. -/
theorem visits_take (s : Subscription) (answers : List Answer) (k : Nat) :
    s.visits (answers.take k) = (s.visits answers).take k := by
  induction answers generalizing s k with
  | nil => simp [visits]
  | cons a answers ih =>
    cases k with
    | zero => rfl
    | succ k =>
      rw [List.take_succ_cons]
      rcases hd : (s.meet a).ended with _ | d
      · rw [visits_of_open hd, visits_of_open hd, List.take_succ_cons, List.take_nil]
      · rw [visits_of_ended hd, visits_of_ended hd, ih, List.take_succ_cons]

/-- An attempt is made once all connections before it have ended, and not earlier. -/
theorem lt_length_visits (h : s.lastId = lastNamed earlier) {k : Nat} :
    k < (s.visits answers).length ↔ k < answers.length ∧ ∀ a ∈ answers.take k, Ended a := by
  induction answers generalizing s earlier k with
  | nil => simp [visits]
  | cons a answers ih =>
    have hended := (meet_history h a).2.2
    have hends : Ended a ↔ (s.meet a).ended ≠ none := by
      rw [← ending_ne_none_iff, ← hended, ne_eq, Option.map_eq_none_iff]
    rcases hd : (s.meet a).ended with _ | d
    · rw [visits_of_open hd]
      -- The first attempt is made, and no other.
      cases k with
      | zero => simp
      | succ k => simp [hends, hd]
    · rw [visits_of_ended hd]
      cases k with
      | zero => simp
      | succ k =>
        have hfirst : Ended a := hends.mpr (by simp [hd])
        simp [ih (lastId_after h a d), hfirst]

end Visits

/-! ### What is received of a stream that fits -/

/-- Where no piece leaves too much waiting, nothing of the stream is missed. -/
theorem received_of_fits {chunks : List Bytes} (h : Fits chunks) :
    readableTexts (frames (received chunks)) = readableTexts (frames chunks.flatten) ∧
      faultIn (received chunks) =
        if (frames chunks.flatten).all readable then none else some .invalidUtf8 := by
  obtain ⟨pre, ⟨more, rfl⟩, heq, hend⟩ := exists_receivedFrom_eq [] chunks
  rw [received, heq, List.nil_append] at *
  by_cases hall : (frames pre.flatten).all readable
  · have hfits := h pre (List.prefix_append _ _) (List.all_eq_true.mp hall)
    obtain hpre | hfull := hend
    · obtain rfl : more = [] := by simpa using hpre
      rw [List.append_nil, faultIn, if_pos hall, if_neg (by omega), if_pos hall]
      exact ⟨rfl, rfl⟩
    · omega
  · -- The frame that ends the reading is among the received ones.
    have hbad : ¬(frames pre.flatten ++ frames (rest pre.flatten ++ more.flatten)).all readable := by
      rw [List.all_append, Bool.and_eq_true]
      exact fun hboth => hall hboth.1
    have hcut : ¬((frames pre.flatten).takeWhile readable).length = (frames pre.flatten).length := by
      intro hlength
      rw [List.IsPrefix.eq_of_length (List.takeWhile_prefix _) hlength |>.symm] at hall
      exact hall List.all_takeWhile
    rw [List.flatten_append, EventStream.frames_append, readableTexts, readableTexts, faultIn,
      if_neg hall, if_neg hbad, List.takeWhile_append, if_neg hcut]
    exact ⟨rfl, rfl⟩

/-! ### Runs

Over connections instead of answers: what a connection brings depends on whether the request can be
sent, and whether the peer hears it. -/

theorem url_frames (r : Reading) (fs : List Bytes) :
    (r.frames fs).subscription.url = r.subscription.url := by
  induction fs generalizing r with
  | nil => rfl
  | cons f fs ih =>
    rw [Reading.frames_cons]
    split
    · rename_i t _
      rw [ih (r.text t)]
      show (r.subscription.absorb (.ofText t)).1.url = _
      rcases Frame.ofText t with ⟨event, data, _ | id, _ | retry⟩ <;> rfl
    · rfl

theorem url_meet (s : Subscription) (a : Answer) : (s.meet a).subscription.url = s.url := by
  rcases a with fault | i
  · rfl
  · by_cases hi : Http.isSuccess i.status = true
    · rw [meet_of_success hi, stream_eq, (reading_received s i.chunks).subscription,
        (limit_whole s _).2.1, url_frames]
      rfl
    · rw [meet_of_rejection hi]

section Runs

variable {c : Connection} {cs : List Connection} {d : Disconnect}

theorem encounter_eq_meet (s : Subscription) (c : Connection) :
    s.encounter c = s.meet (answerOver c s.request) := by
  unfold encounter answerOver
  rcases s.request with _ | r
  · rfl
  · dsimp only
    rcases c.receive? r with _ | i <;> rfl

theorem run_of_open (hd : (s.meet (answerOver c s.request)).ended = none) :
    s.run (c :: cs) = ⟨(s.meet (answerOver c s.request)).events.map .event,
      (s.request.filter c.hears).toList⟩ := by
  rw [← encounter_eq_meet] at hd ⊢
  rw [run]
  dsimp only
  rw [hd]

theorem run_of_ended (hd : (s.meet (answerOver c s.request)).ended = some d) :
    s.run (c :: cs) =
      ⟨(s.meet (answerOver c s.request)).events.map .event ++
          .disconnect d.error (s.after (answerOver c s.request) d).1 ::
            ((s.after (answerOver c s.request) d).2.run cs).reports,
        (s.request.filter c.hears).toList ++
          ((s.after (answerOver c s.request) d).2.run cs).requests⟩ := by
  unfold after
  rw [← encounter_eq_meet] at hd ⊢
  rw [run]
  dsimp only
  rw [hd]

/-- A run over connections makes visits, one after the other. -/
theorem run_tells (s : Subscription) (cs : List Connection) :
    ∃ answers, (s.run cs).Tells s.url cs (s.visits answers) := by
  induction cs generalizing s with
  | nil => exact ⟨[], rfl, rfl, by simp [visits], .inl rfl⟩
  | cons c cs ih =>
    generalize ha : answerOver c s.request = a
    have hsent (ended : Option (PushError × Duration)) :
        (s.visit a ended).sent? s.url c = s.request.filter c.hears := rfl
    rcases hd : (s.meet a).ended with _ | d
    · -- The connection stays open.
      refine ⟨[a], ?_⟩
      rw [run_of_open (ha ▸ hd), visits_of_open hd, ha]
      refine ⟨?_, ?_, ?_, .inr ⟨_, rfl, rfl⟩⟩
      · simp [Visit.reports, visit]
      · rw [List.zip_cons_cons, List.zip_nil_right, List.filterMap_cons, hsent]
        rcases s.request.filter c.hears with _ | r <;> rfl
      · intro k v hv
        obtain ⟨rfl, rfl⟩ := by simpa [List.getElem?_singleton] using hv
        exact ⟨c, rfl, ha.symm⟩
    · obtain ⟨answers, hreports, hrequests, hanswers, hends⟩ := ih (s.after a d).2
      have hurl : (s.after a d).2.url = s.url := url_meet s a
      rw [hurl] at hrequests hanswers
      refine ⟨a :: answers, ?_⟩
      rw [run_of_ended (ha ▸ hd), visits_of_ended hd, ha]
      refine ⟨?_, ?_, ?_, ?_⟩
      · simp [Visit.reports, visit, hreports]
      · rw [List.zip_cons_cons, List.filterMap_cons, hsent, ← hrequests]
        rcases s.request.filter c.hears with _ | r <;> rfl
      · intro k v hv
        cases k with
        | zero =>
          obtain rfl := Option.some.inj hv
          exact ⟨c, rfl, ha.symm⟩
        | succ k => exact hanswers k v hv
      · rcases hends with hlength | ⟨v, hlast, hv⟩
        · exact .inl (congrArg (· + 1) hlength)
        · refine .inr ⟨v, ?_, hv⟩
          rw [List.getLast?_cons, hlast]
          rfl

end Runs

/-- **Each attempt follows from the history before it.** Whatever the attempts of a subscription bring,
an attempt names the last id that the texts dispatched by earlier attempts name, and none if they name
none; it makes the events of its own texts, which are those of the complete frames of a success up to
the first that is no text, each with the last id up to its own end; and it ends as its own answer says,
which is reported once, after its events and before the next attempt. It ends just if its connection has
ended, and then, but not before, the next attempt is made. A run over connections reports these visits
and sends their requests.

A connection whose body stays open has not ended, whatever its status: also the body of a rejection is
waited for, unless it is longer than what is kept of it. -/
theorem reconnect_history (origin path : String) (config : Backoff.Config) :
    let s := Subscription.new origin path config
    (∀ answers,
      (∀ (k : Nat) (v : Visit), (s.visits answers)[k]? = some v →
        ∃ a, answers[k]? = some a ∧ v.Follows ((answers.take k).flatMap texts) a) ∧
      (∀ k, s.visits (answers.take k) = (s.visits answers).take k) ∧
      ∀ k, k < (s.visits answers).length ↔ k < answers.length ∧ ∀ a ∈ answers.take k, Ended a) ∧
    (∀ a, ending a ≠ none ↔ Ended a) ∧
    (∀ i : Incoming, Fits i.chunks → Http.isSuccess i.status = true →
      texts (.ok i) = readableTexts (frames i.chunks.flatten) ∧
        ending (.ok i) =
          endedBy (if (frames i.chunks.flatten).all readable then none else some .invalidUtf8)
            i.ending) ∧
    ∀ cs, ∃ answers, (s.run cs).Tells s.url cs (s.visits answers) := by
  intro s
  have hstart : s.lastId = lastNamed [] := rfl
  refine ⟨fun answers => ⟨?_, s.visits_take answers, ?_⟩, fun a => ending_ne_none_iff, ?_, s.run_tells⟩
  · intro k v hv
    simpa using visits_follow hstart hv
  · intro k
    exact lt_length_visits hstart
  · intro i hfits hi
    obtain ⟨htexts, hfault⟩ := received_of_fits hfits
    rw [← htexts, ← hfault]
    exact ⟨if_pos hi, if_pos hi⟩

/-- A frame without data names an id, and the stream ends inside the next frame but one. The second
attempt asks for what follows that id, and nothing of the first stream is left in it. Behind a rejection
whose body stays open there is no other attempt. -/
theorem reconnect_history_resumes :
    let first : Incoming :=
      ⟨200, [], ["id: 7\n\ndata: a\n\ndata: b".toUTF8.toList], .complete⟩
    let second : Incoming := ⟨200, [], ["\n\ndata: c\n\n".toUTF8.toList], .complete⟩
    let held : Incoming := ⟨503, [], ["busy".toUTF8.toList], .open⟩
    let s := Subscription.new "http://h" "/s" ⟨.ofMillis 500, .ofSecs 8, Backoff.defaultJitter⟩
    ((s.visits [.ok first, .ok second]).map Visit.events =
      [[⟨"message", "a", some "7"⟩], [⟨"message", "c", some "7"⟩]]) ∧
    ((s.visits [.ok first, .ok second])[1]?).map Visit.asked =
      some [("accept", "text/event-stream"), ("cache-control", "no-cache"), ("last-event-id", "7")] ∧
    (s.visits [.ok held, .ok second]).length = 1 := by
  intro first second held s
  obtain ⟨hvisits, hends, hfit, -⟩ :=
    reconnect_history "http://h" "/s" ⟨.ofMillis 500, .ofSecs 8, Backoff.defaultJitter⟩
  have hfirst := hfit first (fits_of_length_le (by decide +kernel)) rfl
  have hsecond := hfit second (fits_of_length_le (by decide +kernel)) rfl
  have hframes : frames first.chunks.flatten = ["id: 7".toUTF8.toList, "data: a".toUTF8.toList] := by
    rw [EventStream.frames_of_cut? (c := ⟨"id: 7".toUTF8.toList, .lfLf,
        "data: a\n\ndata: b".toUTF8.toList⟩) (by decide +kernel),
      EventStream.frames_of_cut? (c := ⟨"data: a".toUTF8.toList, .lfLf, "data: b".toUTF8.toList⟩)
        (by decide +kernel),
      EventStream.frames_of_cut?_eq_none (by decide +kernel)]
  have hframes' : frames second.chunks.flatten = [[], "data: c".toUTF8.toList] := by
    rw [EventStream.frames_of_cut? (c := ⟨[], .lfLf, "data: c\n\n".toUTF8.toList⟩)
        (by decide +kernel),
      EventStream.frames_of_cut? (c := ⟨"data: c".toUTF8.toList, .lfLf, []⟩) (by decide +kernel),
      EventStream.frames_of_cut?_eq_none (by decide +kernel)]
  rw [hframes] at hfirst
  rw [hframes'] at hsecond
  obtain ⟨hfollows, -, hmade⟩ := hvisits [.ok first, .ok second]
  have hended : Ended (.ok first) := by
    refine (hends _).mp ?_
    rw [hfirst.2]
    decide +kernel
  have htwo : (s.visits [.ok first, .ok second]).length = 2 := by
    have hsome : 1 < (s.visits [.ok first, .ok second]).length :=
      (hmade 1).mpr ⟨Nat.one_lt_two, by simpa using hended⟩
    have hall : ¬ 2 < (s.visits [.ok first, .ok second]).length := by
      rw [hmade 2]
      exact fun hmore => Nat.lt_irrefl 2 hmore.1
    omega
  have hone : (s.visits [.ok held, .ok second]).length = 1 := by
    obtain ⟨-, -, hmade⟩ := hvisits [.ok held, .ok second]
    have hsome : 0 < (s.visits [.ok held, .ok second]).length :=
      (hmade 0).mpr ⟨Nat.two_pos, by simp⟩
    have hall : ¬ 1 < (s.visits [.ok held, .ok second]).length := by
      intro hmore
      exact (hends _).mpr (((hmade 1).mp hmore).2 (.ok held) List.mem_cons_self) (by decide +kernel)
    omega
  obtain ⟨v, w, hvw⟩ := List.length_eq_two.mp htwo
  obtain ⟨a, ha, hv⟩ := hfollows 0 v (by rw [hvw]; rfl)
  obtain ⟨b, hb, hw⟩ := hfollows 1 w (by rw [hvw]; rfl)
  obtain rfl := Option.some.inj ha
  obtain rfl := Option.some.inj hb
  have hearlier : ([Except.ok first, .ok second].take 1).flatMap texts = ["id: 7", "data: a"] := by
    show texts (.ok first) ++ [] = _
    rw [hfirst.1]
    decide +kernel
  rw [hearlier] at hw
  rw [hvw]
  refine ⟨?_, ?_, hone⟩
  · show [v.events, w.events] = _
    rw [hv.events, hw.events, hfirst.1, hsecond.1]
    decide +kernel
  · show some w.asked = _
    rw [hw.asked]
    decide +kernel

end Subscription

end Switchboard
