import Switchboard.Proofs.Push.History

/-!
# Which attempts are sent

The last id of a stream goes into the request of the next attempt as it is, and a request with an octet
that cannot stand on a field line is not sent. Only NUL is kept out of ids, so a stream can name an id
that no later attempt gets past: what is not sent brings no other id.

- `FieldSafe`: a text whose octets may all stand on a field line.
- `isSome_request?`: the request of a visit can be sent, or not, by the last id before it.
- `refused_of_refused`: an attempt that was not sent is followed by others that are not.
- `attempts_sent`: which attempts are sent. `attempts_refused`: one is not.

A visit says what an attempt brought, whether or not it was sent, so that nothing comes of one that was
not sent is a hypothesis of `refused_succ`. In a run it holds, as `Run.Tells` ties each answer to its
request.
-/

namespace Switchboard

namespace Subscription

open EventStream (Frame)
open Http (Incoming Outgoing)

/-- A text that may stand on a field line: it has no control besides tabs. -/
def FieldSafe (text : String) : Prop := ∀ b ∈ Text.Utf8.encode text, b = 9 ∨ 32 ≤ b ∧ b ≠ 127

instance (text : String) : Decidable (FieldSafe text) :=
  inferInstanceAs (Decidable (∀ b ∈ _, _))

theorem isFieldText_iff (text : String) : Http.isFieldText text = true ↔ FieldSafe text := by
  unfold Http.isFieldText Http.isFieldValue FieldSafe
  rw [List.all_eq_true]
  simp [Http.isValueByte]

/-- A request can be sent if its URL can be read and all field lines are legal. -/
theorem isSome_build? (method : Http.Method) (url : String) (given : List (String × String))
    (body : Option String) :
    (Outgoing.build? method url given body).isSome ↔
      (Http.Url.ofText? url).isSome ∧ given.all Outgoing.legal := by
  unfold Outgoing.build?
  rcases Http.Url.ofText? url with _ | u
  · simp
  · by_cases hgiven : given.all Outgoing.legal = true <;> simp [hgiven]

variable {s : Subscription} {earlier : List String} {answers : List Answer} {a : Answer}
  {v w : Visit} {url : String} {j k : Nat}

/-- The last id decides. -/
theorem isSome_request? (hv : v.Follows earlier a) (hurl : (Http.Url.ofText? url).isSome) :
    (v.request? url).isSome ↔ ∀ id, lastNamed earlier = some id → FieldSafe id := by
  have hstanding : [("accept", "text/event-stream"), ("cache-control", "no-cache")].all
      Outgoing.legal = true := by decide +kernel
  have hname : Http.isFieldName "last-event-id" = true := by decide +kernel
  unfold Visit.request?
  rw [isSome_build?, hv.asked, List.all_append, hstanding]
  rcases lastNamed earlier with _ | id
  · simp [hurl]
  · simp [hurl, Outgoing.legal, hname, isFieldText_iff]

theorem mem_of_lastNamed {ts : List String} {id : String} (h : lastNamed ts = some id) :
    id ∈ ts.flatMap Frame.ids := List.mem_of_getLast? h

/-- What is not sent brings nothing, so the next attempt is not sent either. -/
theorem refused_succ (h : s.lastId = lastNamed []) (hurl : (Http.Url.ofText? url).isSome)
    (hv : (s.visits answers)[k]? = some v) (hw : (s.visits answers)[k + 1]? = some w)
    (hrefused : v.request? url = none) (hanswer : v.answer = .error .illegalRequest) :
    w.request? url = none := by
  obtain ⟨a, ha, hv⟩ := visits_follow h hv
  obtain ⟨b, -, hw⟩ := visits_follow h hw
  obtain rfl : a = .error .illegalRequest := hv.answer.symm.trans hanswer
  have hsame : (answers.take (k + 1)).flatMap texts = (answers.take k).flatMap texts := by
    rw [List.take_add_one, ha, List.flatMap_append]
    exact List.append_nil _
  rw [List.nil_append] at hv hw
  rw [hsame] at hw
  rw [← Option.not_isSome_iff_eq_none] at hrefused ⊢
  rwa [isSome_request? hw hurl, ← isSome_request? hv hurl]

/-- So are all attempts after it. -/
theorem refused_of_refused (h : s.lastId = lastNamed []) (hurl : (Http.Url.ofText? url).isSome)
    (hanswers : ∀ (i : Nat) u, (s.visits answers)[i]? = some u → u.request? url = none →
      u.answer = .error .illegalRequest)
    (hv : (s.visits answers)[k]? = some v) (hrefused : v.request? url = none) (hkj : k ≤ j)
    (hw : (s.visits answers)[j]? = some w) : w.request? url = none := by
  induction j, hkj using Nat.le_induction generalizing w with
  | base =>
    obtain rfl := Option.some.inj (hv.symm.trans hw)
    exact hrefused
  | succ j _ ih =>
    obtain ⟨hlt, -⟩ := List.getElem?_eq_some_iff.mp hw
    have hu : (s.visits answers)[j]? = some (s.visits answers)[j] :=
      List.getElem?_eq_getElem (Nat.lt_of_succ_lt hlt)
    have hunsent := ih hu
    exact refused_succ h hurl hu hw hunsent (hanswers j _ hu hunsent)

/-- **Which attempts are sent.** On a URL that can be read, an attempt is sent if and only if the last
id that the texts before it name, if they name one, may stand on a field line. So all attempts are sent
if every id that is named may; but once an attempt is not sent, as it brings nothing, no later one is.
-/
theorem attempts_sent (origin path : String) (config : Backoff.Config)
    (hurl : (Http.Url.ofText? (urlFor origin path)).isSome) :
    let s := Subscription.new origin path config
    ∀ answers,
      (∀ (k : Nat) v, (s.visits answers)[k]? = some v → ((v.request? s.url).isSome ↔
        ∀ id, lastNamed ((answers.take k).flatMap texts) = some id → FieldSafe id)) ∧
      ((∀ id ∈ (answers.flatMap texts).flatMap Frame.ids, FieldSafe id) →
        ∀ v ∈ s.visits answers, (v.request? s.url).isSome) ∧
      ((∀ (i : Nat) u, (s.visits answers)[i]? = some u → u.request? s.url = none →
          u.answer = .error .illegalRequest) →
        ∀ (k j : Nat) v w, (s.visits answers)[k]? = some v → v.request? s.url = none → k ≤ j →
          (s.visits answers)[j]? = some w → w.request? s.url = none) := by
  intro s answers
  have hstart : s.lastId = lastNamed [] := rfl
  have hsent : ∀ (k : Nat) v, (s.visits answers)[k]? = some v → ((v.request? s.url).isSome ↔
      ∀ id, lastNamed ((answers.take k).flatMap texts) = some id → FieldSafe id) := by
    intro k v hv
    obtain ⟨a, -, hfollows⟩ := visits_follow hstart hv
    exact isSome_request? hfollows hurl
  refine ⟨hsent, ?_, ?_⟩
  · intro hsafe v hv
    obtain ⟨k, hk⟩ := List.getElem?_of_mem hv
    refine (hsent k v hk).mpr ?_
    intro id hid
    -- The ids before an attempt are among all of them.
    have hsub : ((answers.take k).flatMap texts).flatMap Frame.ids ⊆
        (answers.flatMap texts).flatMap Frame.ids := by
      intro id hid
      obtain ⟨t, ht, hid⟩ := List.mem_flatMap.mp hid
      obtain ⟨a, ha, ht⟩ := List.mem_flatMap.mp ht
      exact List.mem_flatMap.mpr
        ⟨t, List.mem_flatMap.mpr ⟨a, List.mem_of_mem_take ha, ht⟩, hid⟩
    exact hsafe id (hsub (mem_of_lastNamed hid))
  · intro hanswers k j v w hv hrefused hkj hw
    exact refused_of_refused hstart hurl hanswers hv hrefused hkj hw

/-- A tab is harmless. -/
theorem attempts_sent_tab :
    let first : Incoming := ⟨200, [], ["id: a\tb\ndata: n\n\n".toUTF8.toList], .complete⟩
    let s := Subscription.new "http://h" "/s" ⟨.ofMillis 500, .ofSecs 8, Backoff.defaultJitter⟩
    (Http.Url.ofText? (urlFor "http://h" "/s")).isSome ∧
      ((s.visits [.ok first, .error .noAnswer])[1]?).map Visit.asked = some [
        ("accept", "text/event-stream"), ("cache-control", "no-cache"),
        ("last-event-id", "a\tb")] ∧
      ∀ v ∈ s.visits [.ok first, .error .noAnswer], (v.request? s.url).isSome := by
  intro first s
  have hurl : (Http.Url.ofText? (urlFor "http://h" "/s")).isSome := by decide +kernel
  refine ⟨hurl, by decide +kernel, ?_⟩
  obtain ⟨-, hsent, -⟩ := attempts_sent "http://h" "/s"
    ⟨.ofMillis 500, .ofSecs 8, Backoff.defaultJitter⟩ hurl [.ok first, .error .noAnswer]
  exact hsent (by decide +kernel)

/-- One control in an id is enough: the first attempt is sent and delivers its event, the second asks
for what follows that id, and is not sent. -/
theorem attempts_refused :
    let first : Incoming := ⟨200, [], ["id: a\x01b\ndata: n\n\n".toUTF8.toList], .complete⟩
    let s := Subscription.new "http://h" "/s" ⟨.ofMillis 500, .ofSecs 8, Backoff.defaultJitter⟩
    let vs := s.visits [.ok first, .error .illegalRequest]
    vs.map Visit.events = [[⟨"message", "n", some "a\x01b"⟩], []] ∧
      vs.map (fun v => (v.request? s.url).isSome) = [true, false] ∧
      ¬ ∀ answers, ∀ v ∈ s.visits answers, (v.request? s.url).isSome := by
  intro first s vs
  have hsecond : vs.map (fun v => (v.request? s.url).isSome) = [true, false] := by decide +kernel
  refine ⟨by decide +kernel, hsecond, ?_⟩
  intro hall
  have hmem : false ∈ vs.map fun v => (v.request? s.url).isSome := by
    rw [hsecond]
    exact List.mem_cons_of_mem _ List.mem_cons_self
  obtain ⟨v, hv, hrefused⟩ := List.mem_map.mp hmem
  rw [hall _ v hv] at hrefused
  cases hrefused

end Subscription

end Switchboard
