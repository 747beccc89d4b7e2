import Switchboard.Proofs.Client.Account

/-!
# On whose behalf something is asked for

Whatever a client asks of the outside, it asks on behalf of a call that was made: the exchange of a call
without a provider, its refresh, and the exchange that its handler starts with the token. Handlers come
from calls only.

- `Request`, `Move.request?`: the moves that call, whatever the call is made of.
- `Waits`: a handler waits for a token on behalf of a promise.
- `Lasts`: what happens to a client besides calls. `step_of_request`: a call.
- `asked_moves`: everything that is asked for in a run.

An exchange that appears in a log was asked for in some move. If the move is a call, there is nothing
left to show. If it is a job, a handler ran, and the handler was waiting since an earlier move. So the
theorem is proved with the handlers that wait at the beginning as a second way out, which a client that
has just been made does not have, and the induction needs to know of each move what it does to those who
wait. It is `Lasts` for the moves that are no calls, by which handlers can only cease to wait; a call
adds its own.

That a request asks for one exchange at most is not shown here. It needs the account of the request, and
not only its handler.
-/

namespace Switchboard.Client

open Promise (PromiseId ResolverId Settlement)
open Http (Exchange)

/-! ### Calls

A value that is posted and a request with a method, fields and a body are the same call. What is said
of calls is said of `Request` once. -/

/-- A call with all that it says. -/
structure Request where
  service : String
  path : String
  settings : RequestSettings

/-- The call that a move makes. A value is posted as its text. -/
def Move.request? : Move → Option Request
  | .request service path settings => some ⟨service, path, settings⟩
  | .post service path (.ok body) => some ⟨service, path, postSettings body⟩
  | _ => none

/-- The promise of a call to the client `c`. -/
def Request.promise (k : Request) (c : Client) : PromiseId := (c.request k.service k.path k.settings).1

/-- A handler waits for a token on behalf of `d`. -/
def Waits (m : Machine) (d : PromiseId) : Prop :=
  ∃ e, .handler (.dispatch e) d ∈ m.outstanding

/-- No handler more waits for a token, and a client without a provider gets none. -/
structure Lasts (c c' : Client) : Prop where
  waits : ∀ d, Waits c'.machine d → Waits c.machine d
  provider : c'.provider.isSome = c.provider.isSome

variable {c c' c'' : Client} {m m' : Machine} {mv : Move} {k : Request} {d o p q : PromiseId}
  {a : Ask} {r : ResolverId} {e : Exchange} {reaction : Promise.Reaction Handler}

/-! ### Machines

What the operations on promises do to those who wait. An operation that touches no reaction leaves all
of them (`waits_congr`); a settlement moves them from one list to the other. -/

theorem waits_settle (x : Settlement Payload ClientError) :
    Waits (m.settle p x) d ↔ Waits m d :=
  exists_congr fun _ => (m.outstanding_settle p x).mem_iff

theorem waits_congr (h : m.Alike m') : Waits m' d ↔ Waits m d := by
  unfold Waits Promise.Machine.outstanding
  rw [h.slots, h.due]

/-- Only the registration of a handler that is given a token makes one wait. -/
theorem waits_react (h : ∀ e, reaction ≠ .handler (.dispatch e) d)
    (hd : Waits (m.react p reaction) d) : Waits m d := by
  obtain ⟨e, he⟩ := hd
  rcases Promise.Machine.mem_outstanding_react he with he | he
  · exact absurd he.symm (h e)
  · exact ⟨e, he⟩

theorem waits_create : Waits m.create.2 d ↔ Waits m d := by
  unfold Waits
  rw [Promise.Machine.outstanding_create]

theorem waits_use (h : m.use? r = some (p, m')) (hd : Waits m' d) : Waits m d := by
  obtain ⟨-, rfl⟩ := Promise.Machine.use?_eq_some h
  exact hd

theorem waits_adopt (hd : Waits (m.adopt p q) d) : Waits m d := by
  unfold Promise.Machine.adopt at hd
  split at hd
  · exact (waits_settle _).mp hd
  · split at hd
    · exact (waits_settle _).mp hd
    · exact waits_react (by simp) hd

/-- The handler whose turn has come waited. -/
theorem waits_next? {j : Promise.Job Payload ClientError Handler Empty}
    (hj : m.next? = some (j, m')) (hd : Waits m' d) : Waits m d := by
  obtain ⟨e, he⟩ := hd
  obtain ⟨-, hslots, -, -⟩ := Promise.Machine.next?_eq_some hj
  refine ⟨e, ?_⟩
  unfold Promise.Machine.outstanding at he ⊢
  rw [Promise.Machine.due_next? hj, ← hslots, List.map_append]
  rcases List.mem_append.mp he with he | he
  · exact List.mem_append_left _ he
  · exact List.mem_append_right _ (List.mem_append_right _ he)

/-! ### What is no call

Most of what a client does adds reactions, but none that waits for a token: decoders, adoptions and
awaits. Whether there is a provider is kept beside it, because the form of an exchange depends on it. -/

theorem Lasts.refl (c : Client) : Lasts c c := ⟨fun _ => id, rfl⟩

theorem Lasts.trans (h : Lasts c c') (h' : Lasts c' c'') : Lasts c c'' := by
  constructor
  · intro d hd
    exact h.waits d (h'.waits d hd)
  · exact h'.provider.trans h.provider

/-- Only the promises went on. -/
theorem Lasts.move (h : ∀ d, Waits m d → Waits c.machine d) : Lasts c { c with machine := m } :=
  ⟨h, rfl⟩

theorem lasts_settleVia (c : Client) (r : ResolverId) (x : Settlement Payload ClientError) :
    Lasts c (c.settleVia r x) := by
  unfold settleVia
  split
  · rename_i p m hm
    refine .move ?_
    intro d hd
    exact waits_use hm ((waits_settle x).mp hd)
  · exact .refl c

theorem lasts_lose (c : Client) (r : ResolverId) : Lasts c (c.lose r) := by
  unfold lose
  split <;> exact ⟨fun _ => id, rfl⟩

theorem lasts_replaced (c : Client) (old : Option ResolverId) : Lasts c (c.replaced old) := by
  cases old with
  | none => exact .refl c
  | some r => exact lasts_lose c r

theorem lasts_given (c : Client) (token : Option (Option BearerToken)) : Lasts c (c.given token) := by
  cases token with
  | none => exact .refl c
  | some t => exact ⟨fun _ => id, Option.isSome_map⟩

theorem lasts_completeExchange (c : Client) (r : ResolverId) (reply : Reply) :
    Lasts c (c.completeExchange r reply) := by
  rcases reply with (cause | response) | id | _
  · exact lasts_settleVia _ _ _
  · exact lasts_settleVia _ _ _
  · have hreplaced := lasts_replaced c (Dictionary.find? id c.heldExchanges)
    exact ⟨hreplaced.waits, hreplaced.provider⟩
  · exact lasts_lose _ _

theorem lasts_completeRefresh (c : Client) (r : ResolverId) (reply : RefreshReply) :
    Lasts c (c.completeRefresh r reply) := by
  rcases reply with ⟨token, result⟩ | id | _
  · rw [completeRefresh_complete]
    exact (lasts_given c token).trans (lasts_settleVia _ _ _)
  · have hreplaced := lasts_replaced c (Dictionary.find? id c.heldRefreshes)
    exact ⟨hreplaced.waits, hreplaced.provider⟩
  · exact lasts_lose _ _

theorem lasts_startExchange (c : Client) (e : Exchange) : Lasts c (c.startExchange e).2 := by
  have hcalled : Lasts { c with
      machine := c.machine.defer.2.2
      transport := c.transport.tail
      effects := .call e :: c.effects } (c.called e) := lasts_completeExchange _ _ _
  rw [startExchange_eq]
  constructor
  · intro d hd
    -- The decoder that is registered waits for no token.
    have hregistered := waits_create.mp (waits_react (by simp) hd)
    exact waits_create.mp (hcalled.waits d hregistered)
  · exact hcalled.provider

theorem lasts_startRefresh (c : Client) {provider : Provider} (h : c.provider = some provider) :
    Lasts c (c.startRefresh provider).2 := by
  cases provider with
  | fixed t =>
    have hrefresh := lasts_completeRefresh { c with machine := c.machine.defer.2.2 }
      c.machine.resolvers.size defaultRefresh
    constructor
    · intro d hd
      exact waits_create.mp (hrefresh.waits d hd)
    · exact hrefresh.provider
  | scripted authenticated token replies =>
    have hrefresh := lasts_completeRefresh { c with
        machine := c.machine.defer.2.2
        provider := some (.scripted authenticated token replies.tail)
        effects := .refresh c.defaults.refreshInterval :: c.effects }
      c.machine.resolvers.size (replies.head?.getD defaultRefresh)
    constructor
    · intro d hd
      exact waits_create.mp (hrefresh.waits d hd)
    · refine hrefresh.provider.trans ?_
      rw [h]
      rfl

theorem lasts_tellLost (c : Client) : Lasts c c.tellLost := by
  have halike : c.machine.Alike c.tellLost.machine :=
    c.tellLost_keeps (.refl _) fun m p hm => hm.trans (Promise.Machine.alike_abandon m p)
  refine .move ?_
  intro d hd
  exact (waits_congr halike).mp hd

theorem lasts_await (c : Client) (p : PromiseId) : Lasts c (c.await p).2 := by
  have hawait : Lasts c { c with machine := (c.machine.awaitApart p).2 } := by
    refine .move ?_
    intro d hd
    -- The waiter looks once, which delivers nothing, after it has registered.
    have hreacted := (waits_congr (Promise.Machine.alike_enqueue _ rfl)).mp hd
    have hpushed := Promise.Machine.alike_push c.machine ⟨none, false, false⟩
    exact (waits_congr hpushed).mp (waits_react (by simp) hreacted)
  exact hawait.trans (lasts_tellLost _)

/-- A handler that runs may start an exchange, which waits for no token. -/
theorem lasts_handle (c : Client) (d : PromiseId) (x : Settlement Payload ClientError)
    (code : Handler) : Lasts c (c.handle d x code) := by
  by_cases htoken : ∃ e t, code = .dispatch e ∧ x = .fulfilled (.token t)
  · obtain ⟨e, t, rfl, rfl⟩ := htoken
    have hexchange := lasts_startExchange c (authorize e t)
    constructor
    · intro d hd
      exact hexchange.waits d (waits_adopt hd)
    · exact hexchange.provider
  · rw [handle_eq c d fun e t hcode hx => htoken ⟨e, t, hcode, hx⟩]
    refine .move ?_
    intro d hd
    exact (waits_settle _).mp hd

theorem lasts_start (c : Client) (j : Promise.Job Payload ClientError Handler Empty) :
    Lasts c (c.start j).2 := by
  match j with
  | .deliver (.handler code d) x => exact lasts_handle c d x code
  | .deliver (.adoption p) x =>
    refine .move ?_
    intro d hd
    exact (waits_settle x).mp hd
  | .deliver (.wake a) x =>
    refine .move ?_
    intro d hd
    exact (waits_congr (Promise.Machine.alike_wake c.machine a x)).mp hd
  | .poll a =>
    refine .move ?_
    intro d hd
    exact (waits_congr (Promise.Machine.alike_poll c.machine a)).mp hd

/-! ### Moves

The moves fall into two classes, which `Move.request?` tells apart. -/

/-- What is made of a posted value is a request like others. -/
theorem step_of_request (c : Client) (h : mv.request? = some k) :
    c.step mv = (c.request k.service k.path k.settings).2 ∧
      c.happenings mv = c.requestHappenings k.service k.path k.settings := by
  cases mv with
  | request service path settings =>
    obtain rfl := Option.some.inj h
    exact ⟨rfl, rfl⟩
  | post service path body =>
    cases body with
    | ok j =>
      obtain rfl := Option.some.inj h
      exact ⟨rfl, rfl⟩
    | error cause => cases h
  | _ => cases h

theorem lasts_step (c : Client) (h : mv.request? = none) : Lasts c (c.step mv) := by
  cases mv with
  | announce name payload =>
    dsimp only [step, announce]
    split
    · split <;> exact ⟨fun _ => id, rfl⟩
    · exact .refl c
  | request service path settings => cases h
  | post service path body =>
    cases body with
    | ok j => cases h
    | error cause =>
      refine .move ?_
      intro d hd
      exact waits_create.mp ((waits_settle _).mp hd)
  | await p =>
    dsimp only [step]
    split
    · exact lasts_await c p
    · exact .refl c
  -- A callback that was kept is taken out of the store before it is used.
  | complete id reply =>
    dsimp only [step, takeExchange?]
    rcases Dictionary.find? id c.heldExchanges with _ | r
    · exact .refl c
    · have htaken := lasts_completeExchange
        { c with heldExchanges := c.heldExchanges.filter fun e => e.1 ≠ id } r reply
      exact Lasts.trans ⟨htaken.waits, htaken.provider⟩ (lasts_tellLost _)
  | refreshed id reply =>
    dsimp only [step, takeRefresh?]
    rcases Dictionary.find? id c.heldRefreshes with _ | r
    · exact .refl c
    · have htaken := lasts_completeRefresh
        { c with heldRefreshes := c.heldRefreshes.filter fun e => e.1 ≠ id } r reply
      exact Lasts.trans ⟨htaken.waits, htaken.provider⟩ (lasts_tellLost _)
  | provider change => exact ⟨fun _ => id, Option.isSome_map⟩
  | job =>
    dsimp only [step, job]
    rcases hj : c.machine.next? with _ | ⟨j, m⟩
    · exact .refl c
    · -- Who waits after the job has waited after it was taken from the queue, and so before.
      have hstart := lasts_start { c with machine := m } j
      have hjob : Lasts c (Client.start { c with machine := m } j).2 := by
        constructor
        · intro d hd
          exact waits_next? hj (hstart.waits d hd)
        · exact hstart.provider
      exact hjob.trans (lasts_tellLost _)

/-- The handler of a call waits on behalf of that call. -/
theorem waits_request {service path : String} {settings : RequestSettings}
    (hd : Waits (c.request service path settings).2.machine d) :
    Waits c.machine d ∨ d = (c.request service path settings).1 := by
  rcases c.request_cases service path settings with ⟨cause, -, hrequest, -⟩ |
    ⟨e, -, hrequest, -⟩ | ⟨e, provider, c₁, -, hprovider, rfl, hrequest, -⟩
  · rw [hrequest] at hd
    exact .inl (waits_create.mp ((waits_settle _).mp hd))
  · rw [hrequest] at hd
    exact .inl ((lasts_startExchange c e).waits d hd)
  · rw [hrequest] at hd ⊢
    by_cases hnew : d = (c.startRefresh provider).2.machine.slots.size
    · exact .inr hnew
    · have hother : ∀ e', Promise.Reaction.handler (Handler.dispatch e)
          (c.startRefresh provider).2.machine.slots.size ≠ .handler (.dispatch e') d := by
        rintro e' he
        cases he
        exact hnew rfl
      have hregistered := waits_react hother hd
      exact .inl ((lasts_startRefresh c hprovider).waits d (waits_create.mp hregistered))

theorem provider_request (c : Client) (service path : String) (settings : RequestSettings) :
    (c.request service path settings).2.provider.isSome = c.provider.isSome := by
  rcases c.request_cases service path settings with ⟨cause, -, hrequest, -⟩ |
    ⟨e, -, hrequest, -⟩ | ⟨e, provider, c₁, -, hprovider, rfl, hrequest, -⟩
  · rw [hrequest]
    rfl
  · rw [hrequest]
    exact (lasts_startExchange c e).provider
  · rw [hrequest]
    exact (lasts_startRefresh c hprovider).provider

/-- A move makes no handler wait but that of its call. -/
theorem waits_step (hd : Waits (c.step mv).machine d) :
    Waits c.machine d ∨ ∃ k, mv.request? = some k ∧ k.promise c = d := by
  rcases hcall : mv.request? with _ | k
  · exact .inl ((lasts_step c hcall).waits d hd)
  · rw [(step_of_request c hcall).1] at hd
    exact (waits_request hd).imp_right fun hd => ⟨k, rfl, hd.symm⟩

/-- A call asks on behalf of its own promise. -/
theorem asked_request {service path : String} {settings : RequestSettings}
    (ha : .asked o a r ∈ c.requestHappenings service path settings) :
    (c.request service path settings).1 = o := by
  rcases c.request_cases service path settings with ⟨cause, -, -, hlog⟩ |
    ⟨e, -, hrequest, hlog⟩ | ⟨e, provider, c₁, -, -, -, hrequest, hlog⟩
  · rw [hlog] at ha
    cases ha
  · rw [hlog] at ha
    rw [hrequest, (asked_exchangeHappenings ha).1]
  · rw [hlog] at ha
    rw [hrequest, (asked_refreshHappenings ha).1]

/-- A job asks on behalf of the handler that it runs. -/
theorem asked_job {j : Promise.Job Payload ClientError Handler Empty}
    (hj : c.machine.next? = some (j, m))
    (ha : .asked o a r ∈ Client.jobHappenings { c with machine := m } j) : Waits c.machine o := by
  unfold jobHappenings at ha
  split at ha
  · rename_i e d t
    obtain ⟨rfl, -, -⟩ := asked_exchangeHappenings ha
    refine ⟨e, List.mem_append_right _ ?_⟩
    exact List.mem_map_of_mem (Promise.Machine.mem_due_of_next? hj)
  · cases ha

/-- Besides a call, only a handler that waited asks for something. -/
theorem asked_step (ha : .asked o a r ∈ c.happenings mv) :
    Waits c.machine o ∨ ∃ k, mv.request? = some k ∧ k.promise c = o := by
  rcases hcall : mv.request? with _ | k
  · left
    cases mv with
    | request service path settings => cases hcall
    | post service path body =>
      cases body with
      | ok j => cases hcall
      | error cause => cases ha
    | complete id reply =>
      dsimp only [happenings] at ha
      split at ha
      · exact absurd ha (not_asked_exchangeAnswers _ _ _ _ _)
      · cases ha
    | refreshed id reply =>
      dsimp only [happenings] at ha
      split at ha
      · exact absurd ha (not_asked_refreshAnswers _ _ _ _ _ _)
      · cases ha
    | job =>
      dsimp only [happenings] at ha
      split at ha
      · rename_i j m hj
        exact asked_job hj ha
      · cases ha
    | announce name payload | await p | provider change => cases ha
  · right
    rw [(step_of_request c hcall).2] at ha
    exact ⟨k, rfl, asked_request ha⟩

/-! ### Runs

By induction on the moves. The call that is found is given with the client that it was made to. -/

theorem provider_moves (c : Client) (ms : List Move) :
    (c.moves ms).provider.isSome = c.provider.isSome := by
  induction ms generalizing c with
  | nil => rfl
  | cons mv ms ih =>
    refine (ih (c.step mv)).trans ?_
    rcases hcall : mv.request? with _ | k
    · exact (lasts_step c hcall).provider
    · rw [(step_of_request c hcall).1]
      exact c.provider_request _ _ _

/-- Whatever is asked for is asked for on behalf of a call, unless its handler waited before. -/
theorem asked_moves {ms : List Move} (ha : .asked o a r ∈ c.history ms) :
    Waits c.machine o ∨ ∃ before mv after k, ms = before ++ mv :: after ∧ mv.request? = some k ∧
      k.promise (c.moves before) = o := by
  induction ms generalizing c with
  | nil => cases ha
  | cons mv ms ih =>
    have hhere : (∃ k, mv.request? = some k ∧ k.promise c = o) →
        ∃ before mv' after k, mv :: ms = before ++ mv' :: after ∧ mv'.request? = some k ∧
          k.promise (c.moves before) = o := by
      rintro ⟨k, hcall, hk⟩
      exact ⟨[], mv, ms, k, rfl, hcall, hk⟩
    rcases List.mem_append.mp ha with ha | ha
    · -- It is asked for in the first move, or later by someone who may have begun to wait in it.
      exact (asked_step ha).imp_right hhere
    · rcases ih ha with hwaits | ⟨before, mv', after, k, rfl, hcall, hk⟩
      · exact (waits_step hwaits).imp_right hhere
      · exact .inr ⟨mv :: before, mv', after, k, rfl, hcall, hk⟩

end Switchboard.Client
