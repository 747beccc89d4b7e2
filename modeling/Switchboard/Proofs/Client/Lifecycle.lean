import Switchboard.Proofs.Client.Account
import Switchboard.Proofs.Client.Draining

/-!
# The course of a request

What a call decides from the topology and the provider as they are, and what its callbacks are called
with later, is all that its promise depends on, whatever else happens meanwhile.

- `Course`: what is asked for on behalf of a request, and how the request ends, by what its callbacks
  were called with.
- `request_lifecycle`: every request takes its course.

## Proof structure

A course has no time in it. It is a relation between the plan of the call, the answers in the log and
what was asked for, and it says how the request stands for any log, a finished one or not. So there is
one theorem about all runs and not one about the end of a run.

The account of the request is what connects the two sides. At the end of any run it tells where the
handlers of the request stand, and `Books.behind` what the log has to do with that: a handler behind a
callback that was not called still waits, and one behind a callback that was called ran with the
outcome, or is about to run. `Account.course` puts this together by the cases of the plan.

A promise may lag behind its course, as handlers run in jobs. Therefore `Shows` allows a promise to be
pending as long as the host has something to do, and the theorem says that the host always gets to the
end of its jobs. Only for a host that is done does it give the outcome.
-/

namespace Switchboard.Client

open Promise (PromiseId ResolverId Settlement Run Reachable)
open Http (Exchange Response)

/-- How the exchange with the callback `r` ends its request, if it has ended. -/
def exchangeEnd (log : List Happening) (r : ResolverId) : Option (Settlement Payload ClientError) :=
  match answer? log r with
  | some (.exchanged result) => some (verdict result)
  | _ => none

/-- The course of a request by its plan and the answers in the log: the refreshes that were asked for,
the exchanges, and the outcome, if it is decided. A request whose token is there but whose exchange is
not is one that a busy host will go on with. -/
inductive Course (log : List Happening) (busy : Prop) : Plan → List ResolverId →
    List (Exchange × ResolverId) → Option (Settlement Payload ClientError) → Prop
  | failed {cause} : Course log busy (.fail cause) [] [] (some (.rejected cause))
  | exchanged {e r} : Course log busy (.exchange e) [] [(e, r)] (exchangeEnd log r)
  | refreshing {e r} (h : answer? log r = none) : Course log busy (.refresh e) [r] [] none
  | refreshFailed {e r cause held} (h : answer? log r = some (.refreshed (.error cause) held)) :
      Course log busy (.refresh e) [r] [] (some (.rejected (.tokenRefresh cause)))
  | missingToken {e r} (h : answer? log r = some (.refreshed (.ok ()) none)) :
      Course log busy (.refresh e) [r] [] (some (.rejected .missingToken))
  | due {e r t} (h : answer? log r = some (.refreshed (.ok ()) (some t))) (hbusy : busy) :
      Course log busy (.refresh e) [r] [] none
  | dispatched {e r t r'} (h : answer? log r = some (.refreshed (.ok ()) (some t))) :
      Course log busy (.refresh e) [r] [(authorize e t, r')] (exchangeEnd log r')

/-- A promise has the outcome `x`, or has none although the host is not done. -/
def Shows (m : Machine) (p : PromiseId) (x : Option (Settlement Payload ClientError)) : Prop :=
  m.settlement? p = x ∨ m.settlement? p = none ∧ m.queue ≠ []

variable {c c' : Client} {s t : Session} {log new : List Happening} {m : Machine}
  {d p q o : PromiseId} {r r' : ResolverId} {e : Exchange} {x : Settlement Payload ClientError}
  {a : Ask} {code : Handler} {y : BearerToken}

/-! ### Behind a callback

Here the log, the machine and the record of the session meet. A registration behind a promise waits
while the promise is pending, and is due or was delivered once it is settled; whether the promise is
settled is decided by the callback. -/

theorem queue_ne_nil_of_due {b : Promise.Reaction Handler} (h : (b, x) ∈ m.due) : m.queue ≠ [] := by
  intro hq
  simp [Promise.Machine.due, hq] at h

/-- A handler that waits for what was asked for runs once the callback is called, with what it was
called with. -/
theorem Books.behind (h : Books c s log) (ha : .asked o a r ∈ log)
    (hp : s.machine.target? r = some p) (hreg : .handler code d ∈ s.registered p) :
    (answer? log r = none ∧ s.machine.settlement? p = none ∧ s.machine.settlement? d = none) ∨
    ∃ x, answer? log r = some x ∧ x.Answers a ∧ s.machine.settlement? p = some x.settlement ∧
      ((.handler code d, x.settlement) ∈ s.deliveries ∨
        s.machine.settlement? d = none ∧ s.machine.queue ≠ []) := by
  have hs := h.told.reachable
  have hentry := h.told.entry o a r ha
  rw [← h.told.machine] at hentry
  obtain ⟨p', hp', hanswer⟩ := hentry.target
  obtain rfl := Option.some.inj (hp.symm.trans hp')
  -- The callback is the only one that settles the promise, so the handler waits until it is called.
  rcases hlog : answer? log r with _ | x
  · have hunused : s.machine.used r = false := by
      rw [hentry.used, hlog]
      rfl
    have hpending := hs.settlement?_of_unused hp hunused
    refine .inl ⟨rfl, hpending, ?_⟩
    rcases hs.reaction_cases hreg with ⟨-, hheld⟩ | ⟨x, hx, -⟩
    · exact hs.settlement?_of_outstanding hheld rfl
    · rw [hpending] at hx
      cases hx
  · obtain ⟨hfits, hsettled⟩ := hanswer x hlog
    refine .inr ⟨x, rfl, hfits, hsettled, ?_⟩
    -- The promise is settled, so the handler ran, or its turn comes while its own promise is pending.
    rcases hs.reaction_cases hreg with ⟨hpending, -⟩ | ⟨x', hx', hran | hdue⟩
    · rw [hpending] at hsettled
      cases hsettled
    · obtain rfl := Option.some.inj (hsettled.symm.trans hx')
      exact .inl hran
    · exact .inr ⟨hs.settlement?_of_outstanding
        (List.mem_append_right _ (List.mem_map_of_mem hdue)) rfl, queue_ne_nil_of_due hdue⟩

/-- A decoder ends what its exchange ends. -/
theorem Books.shows_exchangeEnd (h : Books c s log) (ha : .asked o (.exchange e) r ∈ log)
    (hdecodes : Decodes s r q) : Shows s.machine q (exchangeEnd log r) := by
  obtain ⟨p, hp, hreg⟩ := hdecodes
  unfold exchangeEnd
  rcases h.behind ha hp hreg with ⟨hnone, -, hpending⟩ | ⟨x, hx, hfits, -, hran | hbusy⟩
  · rw [hnone]
    exact .inl hpending
  · rw [hx]
    cases x with
    | refreshed => exact absurd hfits id
    | exchanged result =>
      have hdecoded := h.decoded q _ hran
      cases result <;> exact .inl hdecoded
  · exact .inr hbusy

/-- One that follows another shows the same. -/
theorem Shows.follow {x? : Option (Settlement Payload ClientError)} (hs : Reachable s)
    (h : Shows s.machine q x?) (hpq : s.Follows p q) :
    Shows s.machine p x? := by
  rcases hp : s.machine.settlement? p with _ | x
  · by_cases hqueue : s.machine.queue = []
    · rcases h with h | ⟨-, hbusy⟩
      · exact .inl ((hs.settlement?_of_follows hqueue hpq).trans h)
      · exact absurd hqueue hbusy
    · exact .inr ⟨hp, hqueue⟩
  · have hq := hs.adoptions.copied p q x hpq hp
    rcases h with h | ⟨hnone, -⟩
    · exact .inl (hp.trans (hq.symm.trans h))
    · rw [hnone] at hq
      cases hq

/-- A handler that was given a token stands behind a refresh that brought it. -/
theorem Books.token (h : Books c s log) (hreg : .handler code d ∈ s.registered p)
    (hran : (.handler code d, x) ∈ s.deliveries) : s.machine.settlement? p = some x := by
  obtain ⟨p', hreg', hp'⟩ := h.told.reachable.source (List.mem_append_left _ hran)
  obtain ⟨rfl, -⟩ := h.told.reachable.eq_of_purpose hreg hreg' rfl
  exact hp'

/-- A request whose exchange was not started waits for its token, or failed, or is about to start it. -/
theorem Books.course_waiting (h : Books c s log) (ha : .asked d .refresh r ∈ log)
    (hp : s.machine.target? r = some p) (hreg : .handler (.dispatch e) d ∈ s.registered p)
    (hnone : ∀ t, (.handler (.dispatch e) d, .fulfilled (.token t)) ∉ s.deliveries) :
    ∃ x, Course log (s.machine.queue ≠ []) (.refresh e) [r] [] x ∧ Shows s.machine d x := by
  rcases h.behind ha hp hreg with ⟨hanswer, -, hpending⟩ | ⟨x, hanswer, hfits, -, hran⟩
  · exact ⟨_, .refreshing hanswer, .inl hpending⟩
  · match x, hfits with
    | .refreshed (.error cause) held, _ =>
      refine ⟨_, .refreshFailed hanswer, ?_⟩
      exact hran.imp (h.refused e d _) id
    | .refreshed (.ok ()) none, _ =>
      refine ⟨_, .missingToken hanswer, ?_⟩
      exact hran.imp (h.refused e d _) id
    | .refreshed (.ok ()) (some t), _ =>
      rcases hran with hran | ⟨hpending, hbusy⟩
      · exact absurd hran (hnone t)
      · exact ⟨_, .due hanswer hbusy, .inl hpending⟩

/-- A request whose exchange was started got the token for it, and ends as the exchange ends. -/
theorem Books.course_dispatched (h : Books c s log) (ha : .asked d .refresh r ∈ log)
    (hp : s.machine.target? r = some p) (hreg : .handler (.dispatch e) d ∈ s.registered p)
    (ha' : .asked d (.exchange (authorize e y)) r' ∈ log)
    (hran : (.handler (.dispatch e) d, .fulfilled (.token y)) ∈ s.deliveries)
    (hdecodes : Decodes s r' q) (hfollows : s.Follows d q) :
    ∃ x, Course log (s.machine.queue ≠ []) (.refresh e) [r] [(authorize e y, r')] x ∧
      Shows s.machine d x := by
  have hsettled := h.token hreg hran
  refine ⟨_, .dispatched (t := y) ?_,
    (h.shows_exchangeEnd ha' hdecodes).follow h.told.reachable hfollows⟩
  rcases h.behind ha hp hreg with ⟨-, hpending, -⟩ | ⟨x, hanswer, hfits, hx, -⟩
  · rw [hpending] at hsettled
    cases hsettled
  · rw [hx] at hsettled
    match x, hfits with
    | .refreshed (.error cause) held, _ => cases hsettled
    | .refreshed (.ok ()) none, _ => cases hsettled
    | .refreshed (.ok ()) (some t), _ =>
      cases hsettled
      exact hanswer

/-- A request stands where its plan and the answers say. -/
theorem Account.course {pl : Plan} (h : Account s log d pl) (hb : Books c s log) :
    ∃ x, Course log (s.machine.queue ≠ []) pl (refreshes d log) (exchanges d log) x ∧
      Shows s.machine d x := by
  cases pl with
  | fail cause =>
    obtain ⟨hsettled, hr, he⟩ := h
    rw [hr, he]
    exact ⟨_, .failed, .inl hsettled⟩
  | exchange e =>
    obtain ⟨hr, r, he, hdecodes⟩ := h
    have ha : .asked d (.exchange e) r ∈ log := mem_exchanges.mp (he ▸ List.mem_singleton_self _)
    rw [hr, he]
    exact ⟨_, .exchanged, hb.shows_exchangeEnd ha hdecodes⟩
  | refresh e =>
    obtain ⟨r, p, hr, hp, hreg, hdispatched⟩ := h
    have ha : .asked d .refresh r ∈ log := mem_refreshes.mp (hr ▸ List.mem_singleton_self _)
    rw [hr]
    -- What the token led to is decided by whether the handler ran with it.
    rcases hdispatched with ⟨he, hnone⟩ | ⟨y, r', q, he, hran, hdecodes, hfollows⟩
    · rw [he]
      exact hb.course_waiting ha hp hreg hnone
    · have ha' : .asked d (.exchange (authorize e y)) r' ∈ log :=
        mem_exchanges.mp (he ▸ List.mem_singleton_self _)
      rw [he]
      exact hb.course_dispatched ha hp hreg ha' hran hdecodes hfollows

/-! ### Many moves

By induction on the moves, from a client to which nothing happened. A call in the middle of a run opens
an account, which the moves behind it keep. -/

/-- Moves keep the books, and the account of every request. -/
theorem Books.moves (h : Books c s log) (ms : List Move) :
    ∃ t, Goes c s log (c.moves ms) t (c.history ms) := by
  induction ms generalizing c s log with
  | nil => exact ⟨s, h.calm (.refl s) h.told⟩
  | cons mv ms ih =>
    obtain ⟨t, ht⟩ := h.step mv
    obtain ⟨u, hu⟩ := ih ht.books
    exact ⟨u, ht.trans hu⟩

/-- Nothing happened yet. -/
theorem books_init (d : Defaults) (provider : Option Provider) (transport : List Reply) :
    Books (init d provider transport) .empty [] where
  told := {
    reachable := .refl
    machine := rfl
    entry := fun _ _ _ h => by cases h
    once := fun _ _ _ _ _ h => by cases h
    answered := fun _ _ h => by cases h
    held := ⟨fun _ h => (by cases h), fun _ h => (by cases h)⟩ }
  idle := rfl
  owner := fun _ _ _ h => by cases h
  decoded := fun _ _ h => by cases h
  refused := fun _ _ _ h => by cases h

/-- Whatever happens before a call, after it and between its callbacks, its promise takes the course
that the topology and the provider at the time of the call, and what its own callbacks are called with,
decide: it asks for one refresh and one exchange at most. Its outcome stays; no callback belongs to two
requests, and those that were called are in the log; the exchanges and refreshes of the log are those
that the client started; and the host always gets to the end of its jobs. -/
theorem request_lifecycle (d : Defaults) (provider : Option Provider) (transport : List Reply)
    (before after : List Move) (service path : String) (settings : RequestSettings) :
    let start := init d provider transport
    let here := start.moves before
    let p := (here.request service path settings).1
    let ms := before ++ .request service path settings :: after
    let c := start.moves ms
    let log := start.history ms
    (∃ x, Course log (c.machine.queue ≠ []) (here.plan service path settings) (refreshes p log)
        (exchanges p log) x ∧ Shows c.machine p x) ∧
      (∀ more x, c.machine.settlement? p = some x → (c.moves more).machine.settlement? p = some x) ∧
      (∀ o a o' a' r, .asked o a r ∈ log → .asked o' a' r ∈ log → o = o' ∧ a = a') ∧
      (∀ o a r, .asked o a r ∈ log → c.machine.used r = (answer? log r).isSome) ∧
      c.calls = log.filterMap Happening.call? ∧
      c.refreshCount ≤ log.countP Happening.isRefresh ∧
      ∃ n, (c.moves (.replicate n .job)).machine.queue = [] := by
  intro start here p ms c log
  -- The run falls into what comes before the call, the call, and what comes after it.
  obtain ⟨s₀, h₀⟩ := (books_init d provider transport).moves before
  obtain ⟨s₁, -, h₁, -, -, haccount⟩ := h₀.books.request service path settings
  obtain ⟨s, h⟩ := h₁.moves after
  have hc : c = ((here.request service path settings).2).moves after := start.moves_append before _
  have hlog : log = [] ++ start.history before ++ here.requestHappenings service path settings ++
      ((here.request service path settings).2).history after := by
    rw [List.nil_append, List.append_assoc]
    exact start.history_append before _
  have hbooks : Books c s log := by
    rw [hlog, hc]
    exact h.books
  have hp : Account s log p (here.plan service path settings) := by
    rw [hlog]
    exact h.account p _ haccount
  obtain ⟨hcalls, hcount⟩ := start.written_moves ms
  obtain ⟨x, hcourse, hshows⟩ := hp.course hbooks
  rw [hbooks.told.machine] at hcourse hshows
  refine ⟨⟨x, hcourse, hshows⟩, fun more x hx => ?_, hbooks.told.once,
    fun o a r ha => (hbooks.told.entry o a r ha).used, hcalls, ?_, c.queue_drained⟩
  · obtain ⟨t, ht⟩ := hbooks.moves more
    have hset := (ht.run.keeps hbooks.told.reachable).settlement?
    rw [hbooks.told.machine, ht.books.told.machine] at hset
    exact hset p x hx
  · exact Nat.le_trans hcount (Nat.le_of_eq (Nat.zero_add _))

/-- A request goes to the server that was first when it was made, although the topology is replaced
while its token is refreshed; the loss of the connection is its end. -/
theorem request_lifecycle_outdated_topology :
    let start := init {} (some (.scripted true none [.hold "token"])) [.hold "reply"]
    let before : List Move := [.announce topologyEvent "\x7b\"db\":[\"a:1\",\"c:3\"]\x7d"]
    let after : List Move := [.announce topologyEvent "\x7b\"db\":[\"b:2\",\"a:1\"]\x7d",
      .refreshed "token" (.complete (some (some ⟨"t"⟩)) (.ok ())), .job,
      .complete "reply" (.complete (.error "reset")), .job, .job]
    let p := ((start.moves before).request "db" "/" {}).1
    let c := start.moves (before ++ .request "db" "/" {} :: after)
    c.calls.map (·.url) = ["http://a:1/"] ∧
      c.machine.settlement? p = some (.rejected (.connection "reset")) ∧
      (c.moves [.announce topologyEvent "\x7b\x7d", .job]).machine.settlement? p =
        some (.rejected (.connection "reset")) := by
  intro start before after p c
  have hlost : c.machine.settlement? p = some (.rejected (.connection "reset")) := by
    have hcause : (c.machine.settlement? p).bind
        (fun | .rejected cause => some cause | .fulfilled _ => none) = some (.connection "reset") := by
      decide +kernel
    rcases h : c.machine.settlement? p with _ | _ | cause
    · simp [h] at hcause
    · simp [h] at hcause
    · simpa [h] using hcause
  obtain ⟨-, hkeep, -⟩ := request_lifecycle {} (some (.scripted true none [.hold "token"]))
    [.hold "reply"] before after "db" "/" {}
  exact ⟨by decide +kernel, hlost, hkeep _ _ hlost⟩

end Switchboard.Client
