import Switchboard.Proofs.Push.History
import Switchboard.Proofs.Reconnect.Backoff

/-!
# How long a subscription waits

The reconnect state of a subscription changes at three moments: when a connection is established,
when a frame names a delay, and when a connection has ended. What it comes to is told here by the
answers that the attempts brought, without any state.

- `operations`: what an attempt does to the reconnect state.
- `waits`: the delays of a subscription, whatever is drawn for each of them.
- `Happening`, `sinceConnected`: how many connections have ended since the latest success.
- `backoff_history`: each delay follows from the history before it.

An attempt is a list of operations, and so all attempts together are one; the law of reconnect states is
about any such list. What is left is to read the list: a reset stands for a success, a delay that was
asked for stands for an end, and a delay of the server for a line of a text. The last of these is kept
over resets, so it is looked for in all texts so far, and the first two only count since the latest
success.

What is drawn at random is an argument of `waits` and is chosen freely, once for each end. A run of the
program draws nothing, and its delays are those with nothing taken off (`visits_waits`).
-/

namespace Switchboard

namespace Subscription

open Backoff (Operation)
open EventStream (Bytes Frame frames)
open Number (Magnitude)
open Text.Utf8 (decode?)

/-! ### One attempt -/

/-- The attempt was answered with a success. -/
def connects : Answer → Bool
  | .ok i => Http.isSuccess i.status
  | .error _ => false

/-- The field lines of a rejection. No other end of a connection has any. -/
def rejection : Answer → ResponseFields
  | .ok i => if Http.isSuccess i.status then [] else i.fields
  | .error _ => []

/-- A reset for a success, then the delays that its frames name. -/
def operations (a : Answer) : List Operation :=
  (if connects a then [.reset] else []) ++
    (texts a).filterMap fun t => (Frame.ofText t).retry.map .setServerDelay

variable {s : Subscription} {a : Answer} {d : Disconnect} {config : Backoff.Config}

/-- Frames that are taken in hand their delays to the reconnect state. -/
theorem backoff_frames (r : Reading) (fs : List Bytes) :
    (r.frames fs).subscription.backoff =
      ((readableTexts fs).filterMap fun t => (Frame.ofText t).retry.map .setServerDelay).foldl
        Backoff.perform r.subscription.backoff := by
  induction fs generalizing r with
  | nil => rfl
  | cons f fs ih =>
    rw [Reading.frames_cons]
    rcases hf : decode? f with _ | t
    · have hnone : readableTexts (f :: fs) = [] := by simp [readableTexts, readable, hf]
      simp [hnone]
    · have hcons : readableTexts (f :: fs) = t :: readableTexts fs := by
        simp [readableTexts, readable, hf]
      have htext : (r.text t).subscription.backoff =
          { r.subscription.backoff with
            serverDelay := (Frame.ofText t).retry.or r.subscription.backoff.serverDelay } :=
        backoff_absorb _ _
      show ((r.text t).frames fs).subscription.backoff = _
      rw [ih, htext, hcons, List.filterMap_cons]
      rcases (Frame.ofText t).retry with _ | d <;> rfl

/-- The reconnect state after a connection is what the operations of the attempt come to. -/
theorem backoff_meet (s : Subscription) (a : Answer) :
    (s.meet a).subscription.backoff = (operations a).foldl Backoff.perform s.backoff := by
  rcases a with fault | i
  · rfl
  · by_cases hi : Http.isSuccess i.status = true
    · have htexts : texts (.ok i) = readableTexts (frames (received i.chunks)) := if_pos hi
      have hconnects : connects (.ok i) = true := hi
      rw [meet_of_success hi, stream_eq, (reading_received s i.chunks).subscription, (limit_whole s _).2.1,
        backoff_frames, operations, htexts, if_pos hconnects, List.foldl_append]
      rfl
    · simp [meet_of_rejection hi, operations, connects, texts, hi]

/-- The field lines that a connection ended with. -/
theorem fields_of_ended (h : (s.meet a).ended = some d) : d.fields = rejection a := by
  rcases a with fault | i
  · obtain rfl := Option.some.inj h
    rfl
  · by_cases hi : Http.isSuccess i.status = true
    · rw [meet_of_success hi, stream_eq] at h
      obtain ⟨e, -, rfl⟩ := Option.map_eq_some_iff.mp h
      exact (if_pos hi).symm
    · rw [meet_of_rejection hi] at h
      obtain ⟨e, -, rfl⟩ := Option.map_eq_some_iff.mp h
      exact (if_neg hi).symm

/-! ### All attempts -/

/-- The delays of a subscription after attempts that bring these answers, one after the other, each
with what is drawn for it. -/
def waits (s : Subscription) : List (Answer × Magnitude) → List Duration
  | [] => []
  | (a, draw) :: answers =>
    match (s.meet a).ended with
    | none => []
    | some d =>
      let (delay, backoff) := (s.meet a).subscription.backoff.next d.fields draw
      delay :: waits { (s.meet a).subscription with backoff } answers

/-- What is done to the reconnect state by attempts that have ended. -/
def performed (answers : List (Answer × Magnitude)) : List Operation :=
  answers.flatMap fun answer => operations answer.1 ++ [.next (rejection answer.1) answer.2]

/-- Each delay is what the operations before it make of it. The induction is on the answers; what is
carried from attempt to attempt is that the reconnect state is the history of its operations. -/
theorem getElem?_waits {past : List Operation}
    (h : s.backoff = past.foldl Backoff.perform (.new config)) {answers : List (Answer × Magnitude)}
    {k : Nat} {delay : Duration} (hk : (s.waits answers)[k]? = some delay) :
    ∃ a draw, answers[k]? = some (a, draw) ∧
      delay =
        (((past ++ performed (answers.take k) ++ operations a).foldl Backoff.perform
          (.new config)).next (rejection a) draw).1 := by
  -- The past is that of the whole subscription, and grows by one attempt.
  induction answers generalizing s past k with
  | nil => simp [waits] at hk
  | cons answer answers ih =>
    obtain ⟨a, draw⟩ := answer
    rw [waits] at hk
    rcases hd : (s.meet a).ended with _ | d
    · simp [hd] at hk
    · have hmeet : (s.meet a).subscription.backoff =
          (past ++ operations a).foldl Backoff.perform (.new config) := by
        rw [backoff_meet, h, List.foldl_append]
      simp only [hd, fields_of_ended hd, hmeet] at hk
      cases k with
      | zero =>
        obtain rfl := Option.some.inj hk
        exact ⟨a, draw, rfl, by simp [performed]⟩
      | succ k =>
        have hnext : (((past ++ operations a).foldl Backoff.perform (.new config)).next
            (rejection a) draw).2 =
            (past ++ (operations a ++ [Operation.next (rejection a) draw])).foldl Backoff.perform
              (.new config) := by
          rw [← List.append_assoc]
          exact Backoff.snd_next_foldl_perform _ _ _ _
        obtain ⟨b, draw', hb, hdelay⟩ := ih hnext hk
        refine ⟨b, draw', hb, ?_⟩
        simpa [performed] using hdelay

/-- Every attempt that ended is followed by a delay. -/
theorem length_waits {answers : List (Answer × Magnitude)}
    (h : ∀ answer ∈ answers, ending answer.1 ≠ none) {earlier : List String}
    (hs : s.lastId = lastNamed earlier) : (s.waits answers).length = answers.length := by
  induction answers generalizing s earlier with
  | nil => rfl
  | cons answer answers ih =>
    obtain ⟨a, draw⟩ := answer
    obtain ⟨-, hid, hended⟩ := meet_history hs a
    rw [waits]
    rcases hd : (s.meet a).ended with _ | d
    · rw [hd] at hended
      exact absurd hended.symm (h (a, draw) List.mem_cons_self)
    · exact congrArg (· + 1) (ih (fun b hb => h b (List.mem_cons_of_mem _ hb)) hid)

/-- The delays that visits report are those of the same answers with nothing taken off at random. -/
theorem visits_waits (s : Subscription) (answers : List Answer) :
    (s.visits answers).filterMap (fun v => v.ended.map Prod.snd) =
      s.waits (answers.map fun a => (a, .zero)) := by
  induction answers generalizing s with
  | nil => rfl
  | cons a answers ih =>
    rw [List.map_cons, waits]
    rcases hd : (s.meet a).ended with _ | d
    · rw [visits_of_open hd]
      rfl
    · rw [visits_of_ended hd]
      exact congrArg (_ :: ·) (ih _)

/-! ### What the attempts have in common with their history -/

/-- What counts for the delay after a connection. -/
inductive Happening
  | connected
  | disconnected
  deriving DecidableEq

/-- The beginning of an attempt that was answered with a success. -/
def opening (a : Answer) : List Happening := if connects a then [.connected] else []

/-- What happened in attempts that have ended. -/
def happenings (answers : List Answer) : List Happening :=
  answers.flatMap fun a => opening a ++ [.disconnected]

/-- How many connections have ended since the latest success, or since the beginning. -/
def sinceConnected (past : List Happening) : Nat :=
  (past.reverse.takeWhile (· ≠ .connected)).length

/-- The last delay that a line of the texts names. -/
def lastRetry (ts : List String) : Option Duration := (ts.flatMap Frame.retries).getLast?

/-- What an operation tells of the connections. -/
def happening? : Operation → Option Happening
  | .next .. => some .disconnected
  | .reset => some .connected
  | .setServerDelay _ => none

theorem sinceReset_eq (past : List Operation) :
    Backoff.sinceReset past = sinceConnected (past.filterMap happening?) := by
  induction past using List.reverseRecOn with
  | nil => rfl
  | append_singleton past op ih =>
    rw [Backoff.sinceReset_concat, ih, List.filterMap_append, sinceConnected, sinceConnected]
    cases op <;> simp [happening?, Operation.isReset, Operation.isNext]

/-- The delays of frames are no connections. -/
theorem happening?_operations (a : Answer) :
    (operations a).filterMap happening? = opening a := by
  have hnone : ((texts a).filterMap fun t => (Frame.ofText t).retry.map
      Operation.setServerDelay).filterMap happening? = [] := by
    rw [List.filterMap_filterMap, List.filterMap_eq_nil_iff]
    intro t _
    rcases (Frame.ofText t).retry with _ | d <;> rfl
  rw [operations, List.filterMap_append, hnone, List.append_nil, opening]
  split <;> rfl

/-- What is told of the operations of attempts is told of them attempt by attempt. -/
theorem filterMap_performed {β : Type} (g : Operation → Option β)
    (answers : List (Answer × Magnitude)) :
    (performed answers).filterMap g = answers.flatMap fun answer =>
      (operations answer.1).filterMap g ++ (g (.next (rejection answer.1) answer.2)).toList := by
  rw [performed, List.filterMap_flatMap]
  refine congrArg answers.flatMap (funext fun answer => ?_)
  rw [List.filterMap_append, List.filterMap_cons]
  rcases g (.next (rejection answer.1) answer.2) with _ | x <;> rfl

theorem happening?_performed (answers : List (Answer × Magnitude)) :
    (performed answers).filterMap happening? = happenings (answers.map Prod.fst) := by
  rw [filterMap_performed, happenings, List.flatMap_map]
  refine congrArg answers.flatMap (funext fun answer => ?_)
  rw [happening?_operations]
  rfl

/-- A success names no delay by itself. -/
theorem serverDelay?_operations (a : Answer) :
    (operations a).filterMap Operation.serverDelay? =
      (texts a).filterMap fun t => (Frame.ofText t).retry := by
  have hset : ((texts a).filterMap fun t => (Frame.ofText t).retry.map
      Operation.setServerDelay).filterMap Operation.serverDelay? =
      (texts a).filterMap fun t => (Frame.ofText t).retry := by
    rw [List.filterMap_filterMap]
    refine List.filterMap_congr fun t _ => ?_
    rcases (Frame.ofText t).retry with _ | d <;> rfl
  rw [operations, List.filterMap_append, hset]
  split <;> rfl

theorem serverDelay?_performed (answers : List (Answer × Magnitude)) :
    (performed answers).filterMap Operation.serverDelay? =
      ((answers.map Prod.fst).flatMap texts).filterMap fun t => (Frame.ofText t).retry := by
  rw [filterMap_performed, List.flatMap_map, List.filterMap_flatMap]
  refine congrArg answers.flatMap (funext fun answer => ?_)
  rw [serverDelay?_operations]
  exact List.append_nil _

/-- The last delay of all frames is the last of all their lines. -/
theorem lastRetry_eq (ts : List String) :
    (ts.filterMap fun t => (Frame.ofText t).retry).getLast? = lastRetry ts := by
  induction ts using List.reverseRecOn with
  | nil => rfl
  | append_singleton ts t ih =>
    have hone : lastRetry [t] = (Frame.ofText t).retry := by
      rw [Frame.retry_ofText, lastRetry, List.flatMap_singleton]
    have hlast : lastRetry (ts ++ [t]) = (lastRetry [t]).or (lastRetry ts) := by
      rw [lastRetry, List.flatMap_append, List.getLast?_append]
      rfl
    rw [List.filterMap_append, List.getLast?_append, ih, hlast, hone, List.filterMap_cons]
    rcases (Frame.ofText t).retry with _ | d <;> rfl

/-- A delay that is reported. -/
def Report.delay? : Report → Option Duration
  | .event _ => none
  | .disconnect _ delay => some delay

theorem delays_reports (vs : List Visit) :
    (vs.flatMap Visit.reports).filterMap Report.delay? =
      vs.filterMap fun v => v.ended.map Prod.snd := by
  induction vs with
  | nil => rfl
  | cons v vs ih =>
    have hevents : (v.events.map Report.event).filterMap Report.delay? = [] := by
      simp [Report.delay?, List.filterMap_map]
    rw [List.flatMap_cons, List.filterMap_append, ih, Visit.reports, List.filterMap_append, hevents]
    rcases hv : v.ended with _ | ⟨e, delay⟩
    · simp [hv]
    · simp [hv, Report.delay?]

end Subscription

/-- **Delays follow from the history.** Whatever is done to a reconnect state, in whatever order, each
delay is the one that the fields ask for, or else the computed one for the count of delays since the
latest reset and for the latest delay that the server named at all.

So in every run of a subscription, the delay after an attempt is the one that its rejection asks for,
or else the computed one for the count of connections that have ended since the latest success,
its own included if it was one, and for the last delay that any line of any text dispatched so far
names. -/
theorem backoff_history (config : Backoff.Config) :
    (∀ (ops : List Backoff.Operation) (k : Nat) fields draw, ops[k]? = some (.next fields draw) →
      ((Backoff.new config).returns ops)[k]? = some (some (Backoff.delayAfter config
        (Backoff.sinceReset (ops.take k)) (Backoff.latestServerDelay (ops.take k)) fields draw))) ∧
    (∀ origin path, let s := Subscription.new origin path config
      (∀ answers,
        (∀ (k : Nat) delay, (s.waits answers)[k]? = some delay →
          ∃ a draw, answers[k]? = some (a, draw) ∧
            let earlier := (answers.take k).map Prod.fst
            delay = Backoff.delayAfter config
              (Subscription.sinceConnected
                (Subscription.happenings earlier ++ Subscription.opening a))
              (Subscription.lastRetry ((earlier ++ [a]).flatMap Subscription.texts))
              (Subscription.rejection a) draw) ∧
        ((∀ answer ∈ answers, Subscription.ending answer.1 ≠ none) →
          (s.waits answers).length = answers.length)) ∧
      ∀ cs, ∃ answers, (s.run cs).Tells s.url cs (s.visits answers) ∧
        (s.run cs).reports.filterMap Subscription.Report.delay? =
          s.waits (answers.map fun a => (a, .zero))) := by
  refine ⟨fun ops k fields draw h => Backoff.returns_next h, ?_⟩
  intro origin path s
  have hid : s.lastId = Subscription.lastNamed [] := rfl
  refine ⟨fun answers => ⟨?_, fun h => s.length_waits h hid⟩, ?_⟩
  · intro k delay hk
    have hstart : s.backoff = [].foldl Backoff.perform (.new config) := rfl
    obtain ⟨a, draw, ha, hdelay⟩ := Subscription.getElem?_waits hstart hk
    refine ⟨a, draw, ha, ?_⟩
    rw [hdelay, List.nil_append, Backoff.next_foldl_perform, Subscription.sinceReset_eq,
      Backoff.latestServerDelay, List.filterMap_append, List.filterMap_append,
      Subscription.happening?_performed, Subscription.happening?_operations,
      Subscription.serverDelay?_performed, Subscription.serverDelay?_operations,
      ← List.filterMap_append, Subscription.lastRetry_eq]
    simp
  · intro cs
    obtain ⟨answers, htells⟩ := s.run_tells cs
    refine ⟨answers, htells, ?_⟩
    rw [htells.reports, Subscription.delays_reports, Subscription.visits_waits]

/-- A delay that the server named is kept over a reset and over a rejection with its own delay. A
subscription meets a server that is down, one that rejects it, a success that names a delay, and three
more failures, the second of which asks for three seconds. -/
theorem backoff_history_run :
    let config : Backoff.Config := ⟨.ofMillis 100, .ofSecs 1, .finite false .zero⟩
    let wait : ResponseFields := [("retry-after", "3".toUTF8.toList)]
    let ops : List Backoff.Operation :=
      [.next [] .zero, .setServerDelay (.ofMillis 250), .next wait .zero, .reset, .next [] .zero]
    let down : Subscription.Answer := .error .noAnswer
    let answers : List (Subscription.Answer × Number.Magnitude) :=
      [down, .ok ⟨503, [], [], .complete⟩,
        .ok ⟨200, [], ["retry: 250\n\n".toUTF8.toList], .complete⟩, down,
        .ok ⟨503, wait, [], .complete⟩, down].map (·, .zero)
    let s := Subscription.new "http://h" "/s" config
    ((Backoff.new config).returns ops)[4]? = some (some (.ofMillis 250)) ∧
      s.waits answers =
        [.ofMillis 100, .ofMillis 200, .ofMillis 250, .ofMillis 500, .ofSecs 3, .ofSecs 1] ∧
      ∃ a draw, answers[5]? = some (a, draw) ∧
        Duration.ofSecs 1 = Backoff.delayAfter config 3 (some (.ofMillis 250)) [] draw := by
  intro config wait ops down answers s
  obtain ⟨hreturns, hruns⟩ := backoff_history config
  have hwaits : s.waits answers =
      [.ofMillis 100, .ofMillis 200, .ofMillis 250, .ofMillis 500, .ofSecs 3, .ofSecs 1] := by
    decide +kernel
  refine ⟨?_, hwaits, ?_⟩
  · rw [hreturns ops 4 [] .zero rfl]
    decide +kernel
  · obtain ⟨a, draw, ha, hdelay⟩ :=
      ((hruns "http://h" "/s").1 answers).1 5 (.ofSecs 1) (by rw [hwaits]; rfl)
    have hcount : Subscription.sinceConnected
        (Subscription.happenings ((answers.take 5).map Prod.fst) ++ Subscription.opening down) = 3 := by
      decide +kernel
    have hretry : Subscription.lastRetry
        (((answers.take 5).map Prod.fst ++ [down]).flatMap Subscription.texts) =
          some (.ofMillis 250) := by decide +kernel
    refine ⟨a, draw, ha, ?_⟩
    obtain ⟨rfl, rfl⟩ := Prod.mk.inj (Option.some.inj ha)
    rw [← hcount, ← hretry]
    exact hdelay

end Switchboard
