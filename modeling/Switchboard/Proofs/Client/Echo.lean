import Switchboard.Proofs.Client.Fields
import Switchboard.Proofs.Json.Printing

/-!
# What is posted comes back

Two halves of the program must fit for an echo to be silent: the text that a posted value is sent as is
read as that value, and nothing on the way from the call to its promise looks at it.

- `decodeResponse_text`: a response that carries the text of a value stands for the value.
- `Echoed`: the exchanges of a request were completed with what they sent.
- `post_echo`: a posted value comes back.

The first half is a property of the text of values, and is proved there; what remains to be shown is
that a text that begins with a value is not blank, because a blank response is read as null. Its
hypotheses are those of the reader. Numbers must be integers, since others are rounded when they are
written. Nesting is limited, since the reader gives up below a certain depth.

The second half is the course of a request without a provider. Its plan is to start an exchange, so the
log has that exchange and no other, and its end is the end of the request. The echo is a hypothesis
about the log alone: it says what the transport did, when the callback was called at last, and leaves
open when that was.
-/

namespace Switchboard.Client

open Promise (PromiseId ResolverId Settlement)
open Http (Exchange Response)

variable {c : Client} {s : Session} {log : List Happening} {p : PromiseId} {r : ResolverId} {v : Json}
  {service path : String} {e : Exchange}

/-- A response that carries the text of a value stands for the value. -/
theorem decodeResponse_text (hintegral : v.Integral) (hdepth : v.depth ≤ Json.maxDepth) {status : Nat}
    (hstatus : Http.isSuccess status = true) (statusText : String) :
    decodeResponse ⟨status, statusText, v.text⟩ = .ok v.normalize := by
  have hblank : ∃ c ∈ v.text.toList, Text.isBlank c = false := by
    rw [Json.text, String.toList_ofList]
    exact Json.exists_not_blank (Json.written_compact v hintegral)
  unfold decodeResponse
  rw [if_pos hstatus, Json.isEmpty_trim hblank, if_neg Bool.false_ne_true,
    Json.read_of_integral hintegral hdepth]
  rfl

deriving instance DecidableEq for Answer

/-- Every exchange that was started for `p` was completed as a success, with its own body. -/
def Echoed (log : List Happening) (p : PromiseId) : Prop :=
  ∀ e r, .asked p (.exchange e) r ∈ log → ∃ status statusText, Http.isSuccess status = true ∧
    answer? log r = some (.exchanged (.ok ⟨status, statusText, e.body.getD ""⟩))

/-- A value that is posted to a server without a provider is sent at once. -/
theorem plan_post (hprovider : c.provider = none) (hserver : c.topology.firstServer? service ≠ none)
    (path : String) (v : Json) : ∃ server,
      c.plan service path (postSettings v) =
        .exchange (prepare c.defaults server path (postSettings v)) := by
  obtain ⟨server, hserver⟩ := Option.ne_none_iff_exists'.mp hserver
  refine ⟨server, ?_⟩
  unfold plan
  rw [hserver, hprovider]

theorem Course.of_exchange {busy : Prop} {rs : List ResolverId} {es : List (Exchange × ResolverId)}
    {x : Option (Settlement Payload ClientError)} (h : Course log busy (.exchange e) rs es x) :
    ∃ r, es = [(e, r)] ∧ x = exchangeEnd log r := by
  cases h with
  | exchanged => exact ⟨_, rfl, rfl⟩

/-- A value that is posted when nothing was asked for before starts one exchange, which carries its
text, and its promise shows the value once that was echoed. -/
theorem books_of_post (h : Books c s []) (hprovider : c.provider = none) {ms before after : List Move}
    (hms : ms = before ++ .post service path (.ok v) :: after)
    (hserver : (c.moves before).topology.firstServer? service ≠ none) (hintegral : v.Integral)
    (hordered : v.normalize = v) (hdepth : v.depth ≤ Json.maxDepth) :
    let p := ((c.moves before).post service path (.ok v)).1
    let log := c.history ms
    ∃ t e r, Books (c.moves ms) t log ∧ exchanges p log = [(e, r)] ∧
      (e.method = .post ∧ e.body = some v.text) ∧
      (Echoed log p → Shows t.machine p (some (.fulfilled (.json v)))) := by
  intro p log
  have hnone : (c.moves before).provider = none := by
    have hsome := c.provider_moves before
    rwa [hprovider, Option.isSome_none, Option.isSome_eq_false_iff, Option.isNone_iff_eq_none] at hsome
  obtain ⟨server, hplan⟩ := plan_post hnone hserver path v
  obtain ⟨t, x, hbooks, hcourse, hshows⟩ :=
    c.books_of_request h hms (k := ⟨service, path, postSettings v⟩) rfl
  dsimp only at hcourse
  rw [hplan] at hcourse
  obtain ⟨r, hexchanges, rfl⟩ := hcourse.of_exchange
  refine ⟨t, _, r, hbooks, hexchanges, ⟨rfl, rfl⟩, fun hecho => ?_⟩
  obtain ⟨status, statusText, hstatus, hanswer⟩ :=
    hecho _ r (mem_exchanges.mp (hexchanges ▸ List.mem_singleton_self _))
  have hend : exchangeEnd log r = some (.fulfilled (.json v)) := by
    unfold exchangeEnd
    rw [hanswer]
    show some (verdict (.ok ⟨status, statusText, v.text⟩)) = _
    unfold verdict
    dsimp only
    rw [decodeResponse_text hintegral hdepth hstatus, hordered]
  exact hend ▸ hshows

/-- An outcome stays. -/
theorem Books.settlement?_moves {x : Settlement Payload ClientError} (h : Books c s log)
    (ms : List Move) (hx : s.machine.settlement? p = some x) :
    (c.moves ms).machine.settlement? p = some x := by
  obtain ⟨t, ht⟩ := h.moves ms
  rw [← ht.books.told.machine]
  exact (ht.run.keeps h.told.reachable).settlement? p x hx

/-- What was completed stays so, and no other exchange is started. -/
theorem Echoed.append {new : List Happening} (h : Echoed log p)
    (hexchanges : exchanges p (log ++ new) = exchanges p log) : Echoed (log ++ new) p := by
  intro e r ha
  have hold : .asked p (.exchange e) r ∈ log := by
    rw [← mem_exchanges, ← hexchanges]
    exact mem_exchanges.mpr ha
  obtain ⟨status, statusText, hstatus, hanswer⟩ := h e r hold
  refine ⟨status, statusText, hstatus, ?_⟩
  rw [answer?_append, hanswer]
  rfl

/-- **A posted value comes back from an echo.** Whatever happens before the call, after it and between
its parts, the call starts just one exchange, which carries the text of the value. Whether that is
completed at once or later: once the transport has completed it, as a success and with the body that it
was given, the promise of the call is fulfilled with the value that was posted, at the latest when the
host has nothing left to do, and stays so. The members of the value are in the order of their keys, as
in every value that the program keeps, and its numbers are integers. -/
theorem post_echo (d : Defaults) (transport : List Reply) (before after : List Move)
    (service path : String) (v : Json) (hintegral : v.Integral) (hordered : v.normalize = v)
    (hdepth : v.depth ≤ 127) :
    let start := init d none transport
    let here := start.moves before
    let p := (here.post service path (.ok v)).1
    let ms := before ++ .post service path (.ok v) :: after
    let c := start.moves ms
    here.topology.firstServer? service ≠ none →
      (∃ e r, e.method = .post ∧ e.body = some v.text ∧
        ∀ more, exchanges p (start.history (ms ++ more)) = [(e, r)]) ∧
      (Echoed (start.history ms) p →
        (∀ more, Shows (c.moves more).machine p (some (.fulfilled (.json v)))) ∧
        ∃ n, ∀ more, (c.moves (.replicate n .job ++ more)).machine.settlement? p =
          some (.fulfilled (.json v))) := by
  intro start here p ms c hserver
  have hinit := books_init d none transport
  obtain ⟨s, e, r, -, hexchanges, hcarries, -⟩ :=
    books_of_post hinit rfl (Eq.refl ms) hserver hintegral hordered hdepth
  have hsplit (more : List Move) :
      ms ++ more = before ++ .post service path (.ok v) :: (after ++ more) := by
    rw [List.append_assoc, List.cons_append]
  have honce (more : List Move) : exchanges p (start.history (ms ++ more)) = [(e, r)] := by
    obtain ⟨t, e', r', -, hexchanges', -⟩ :=
      books_of_post hinit rfl (hsplit more) hserver hintegral hordered hdepth
    -- The one exchange of the call was in the log before.
    rw [start.history_append, exchanges_append, hexchanges] at hexchanges' ⊢
    have hnew : exchanges p ((start.moves ms).history more) = [] := (List.cons.inj hexchanges').2
    rw [hnew, List.append_nil]
  refine ⟨⟨e, r, hcarries.1, hcarries.2, honce⟩, fun hecho => ?_⟩
  have hlater : ∀ more, ∃ t, Books (c.moves more) t (start.history (ms ++ more)) ∧
      Shows t.machine p (some (.fulfilled (.json v))) := by
    intro more
    obtain ⟨t, e', r', ht, -, -, hshows⟩ :=
      books_of_post hinit rfl (hsplit more) hserver hintegral hordered hdepth
    rw [start.moves_append] at ht
    refine ⟨t, ht, hshows ?_⟩
    have hsame := honce more
    rw [start.history_append] at hsame ⊢
    exact hecho.append (hsame.trans hexchanges.symm)
  -- The promise shows the value after any moves, and once the host is done it has it.
  refine ⟨fun more => ?_, ?_⟩
  · obtain ⟨t, ht, hshows⟩ := hlater more
    rwa [ht.told.machine] at hshows
  · obtain ⟨n, hn⟩ := c.queue_drained
    obtain ⟨t, ht, hshows⟩ := hlater (.replicate n .job)
    have hsettled : t.machine.settlement? p = some (.fulfilled (.json v)) := by
      rcases hshows with hsettled | ⟨-, hbusy⟩
      · exact hsettled
      · exact absurd (ht.told.machine ▸ hn) hbusy
    refine ⟨n, fun more => ?_⟩
    rw [c.moves_append]
    exact ht.settlement?_moves more hsettled

/-- The extremes of the integers, an escaped text and an empty object go through an exchange that is
completed only after other things have happened, another request among them. -/
theorem post_echo_held :
    let v : Json := .obj [("k", .arr [.int (-9223372036854775808), .int 18446744073709551615,
      .str "\"\n\\\u0001é", .obj [], .null])]
    let before : List Move := [.announce topologyEvent "\x7b\"db\":[\"a:1\"]\x7d"]
    let after : List Move := [.request "db" "/" {}, .job,
      .complete "reply" (.complete (.ok ⟨201, "Created", v.text⟩))]
    let start := init {} none [.hold "reply"]
    let p := ((start.moves before).post "db" "/v" (.ok v)).1
    let c := start.moves (before ++ .post "db" "/v" (.ok v) :: after)
    (∃ e r, e.method = .post ∧ e.body = some v.text ∧ ∀ more,
      exchanges p (start.history ((before ++ .post "db" "/v" (.ok v) :: after) ++ more)) = [(e, r)]) ∧
    ∃ n, ∀ more, (c.moves (.replicate n .job ++ more)).machine.settlement? p =
      some (.fulfilled (.json v)) := by
  intro v before after start p c
  have hintegral : v.Integral := by
    simp only [v, Json.Integral, Json.IntegralMembers, Json.IntegralItems]
    decide
  have hserver : (start.moves before).topology.firstServer? "db" ≠ none := by decide +kernel
  let log := start.history (before ++ .post "db" "/v" (.ok v) :: after)
  have hexchanges : (exchanges p log).map (fun y => (y.1.body, y.2)) = [(some v.text, 0)] := by
    decide +kernel
  have hanswer : answer? log 0 = some (.exchanged (.ok ⟨201, "Created", v.text⟩)) := by
    decide +kernel
  have hecho : Echoed log p := by
    intro e r ha
    have hmem : (e.body, r) ∈ (exchanges p log).map (fun y => (y.1.body, y.2)) :=
      List.mem_map_of_mem (mem_exchanges.mpr ha)
    rw [hexchanges] at hmem
    obtain ⟨hbody, rfl⟩ := Prod.mk.inj (List.mem_singleton.mp hmem)
    rw [hbody]
    exact ⟨201, "Created", by decide, hanswer⟩
  obtain ⟨honce, hback⟩ := post_echo {} [.hold "reply"] before after "db" "/v" v hintegral rfl
    (by decide +kernel) hserver
  exact ⟨honce, (hback hecho).2⟩

end Switchboard.Client
