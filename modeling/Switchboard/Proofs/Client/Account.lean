import Switchboard.Proofs.Client.Session

/-!
# What is written down for a request

A call fails, starts its exchange or starts a refresh first. From then on nothing but the callbacks that
were handed out for it has a part in it, whatever else happens to the client.

- `Books`: what the log, the session and the client have to do with each other between two moves.
- `Account`: what is written down for one request.
- `Books.step`: every move keeps the books, and the account of every request.

## Proof structure

The promise of a request without a provider is that of a decoder, behind the promise that the callback
of its exchange settles. The promise of a request with a provider is that of a handler behind the
refresh. Once it is given the token, this handler starts an exchange, which gets a decoder of its own,
and the promise of the handler adopts that of the decoder. An `Account` records which of these exist. It
does not say what the outcome is; this follows from the log and from the session, and is read off only
at the end of a run.

An account changes at one point, when its own handler runs with a token. The exchange is started then,
and `Dispatched` goes from its first to its second case. At every other step of the client an account is
kept because nothing is asked for on behalf of its request. That this cannot be someone else's exchange
is the reason for `owner`: what is asked for is asked for on behalf of a promise that exists, so the
promise of a later call is a new one.

The handler cannot start a second exchange. A handler that is due has a dependent that is pending and
adopted nothing, whereas the dependent of a handler that ran with a token has adopted the promise of its
exchange (`Account.of_due`).

Between moves the host is idle. A job runs from its start to its end within one move, as jobs do not
interrupt each other, and so the books need not describe a handler that is half done.
-/

namespace Switchboard.Client

open Promise (PromiseId ResolverId Settlement Run Reachable)
open Http (Exchange Response)

/-! ### What is written down

The promise of a request is named by `d`, that of its exchange by `q`, and the callback of the exchange
by `r`. A handler that asks for nothing settles its dependent with a function of what it was given,
which is `Handler.outcome`; a decoder is always of that kind. -/

/-- How the end of its exchange ends a request. -/
def verdict : Except String Response → Settlement Payload ClientError
  | .error cause => .rejected (.connection cause)
  | .ok response =>
    match decodeResponse response with
    | .ok j => .fulfilled (.json j)
    | .error e => .rejected e

/-- The outcome of a decoder. -/
def decoded : Settlement Payload ClientError → Settlement Payload ClientError
  | .fulfilled (.response response) => verdict (.ok response)
  | x => x

/-- What a handler that asks for nothing makes of an outcome. -/
def Handler.outcome : Handler → Settlement Payload ClientError → Settlement Payload ClientError
  | .decode, x => decoded x
  | .dispatch _, x => x

/-- What holds between two moves: the host is idle, only promises ask, and handlers that ran without
asking for anything have settled their promise. -/
structure Books (c : Client) (s : Session) (log : List Happening) : Prop where
  told : Told c s log
  idle : s.calls = []
  owner : ∀ o a r, .asked o a r ∈ log → o < s.machine.slots.size
  decoded : ∀ d x, (.handler .decode d, x) ∈ s.deliveries →
    s.machine.settlement? d = some (decoded x)
  refused : ∀ e d cause, (.handler (.dispatch e) d, .rejected cause) ∈ s.deliveries →
    s.machine.settlement? d = some (.rejected cause)

/-- The promise of the callback `r` has a decoder with the dependent `q`. -/
def Decodes (s : Session) (r : ResolverId) (q : PromiseId) : Prop :=
  ∃ p, s.machine.target? r = some p ∧ .handler .decode q ∈ s.registered p

/-- The exchange of `d` has not been started, or was started with the token that was delivered. -/
def Dispatched (s : Session) (log : List Happening) (d : PromiseId) (e : Exchange) : Prop :=
  (exchanges d log = [] ∧ ∀ t, (.handler (.dispatch e) d, .fulfilled (.token t)) ∉ s.deliveries) ∨
    ∃ t r q, exchanges d log = [(authorize e t, r)] ∧
      (.handler (.dispatch e) d, .fulfilled (.token t)) ∈ s.deliveries ∧ Decodes s r q ∧ s.Follows d q

/-- What is written down for the request `d` with a plan. -/
def Account (s : Session) (log : List Happening) (d : PromiseId) : Plan → Prop
  | .fail cause =>
    s.machine.settlement? d = some (.rejected cause) ∧ refreshes d log = [] ∧ exchanges d log = []
  | .exchange e => refreshes d log = [] ∧ ∃ r, exchanges d log = [(e, r)] ∧ Decodes s r d
  | .refresh e =>
    ∃ r p, refreshes d log = [r] ∧ s.machine.target? r = some p ∧
      .handler (.dispatch e) d ∈ s.registered p ∧ Dispatched s log d e

variable {c c' c'' : Client} {s t u : Session} {log new new' : List Happening} {m : Machine}
  {d p q o : PromiseId} {r : ResolverId} {e : Exchange} {x : Settlement Payload ClientError}
  {code : Handler} {y : BearerToken}

/-! ### The log of one request

What a client logs when something is asked for is about one request. For every other one it is `Silent`.
-/

theorem refreshes_append (d : PromiseId) (log new : List Happening) :
    refreshes d (log ++ new) = refreshes d log ++ refreshes d new := List.filterMap_append

theorem exchanges_append (d : PromiseId) (log new : List Happening) :
    exchanges d (log ++ new) = exchanges d log ++ exchanges d new := List.filterMap_append

theorem mem_refreshes : r ∈ refreshes d log ↔ .asked d .refresh r ∈ log := by
  unfold refreshes
  rw [List.mem_filterMap]
  constructor
  · rintro ⟨y, hy, hr⟩
    unfold Happening.refresh? at hr
    split at hr
    · split_ifs at hr with ho
      obtain rfl := Option.some.inj hr
      rwa [ho] at hy
    · cases hr
  · exact fun h => ⟨_, h, if_pos rfl⟩

theorem mem_exchanges : (e, r) ∈ exchanges d log ↔ .asked d (.exchange e) r ∈ log := by
  unfold exchanges
  rw [List.mem_filterMap]
  constructor
  · rintro ⟨y, hy, hr⟩
    unfold Happening.exchange? at hr
    split at hr
    · split_ifs at hr with ho
      obtain ⟨rfl, rfl⟩ := Prod.mk.inj (Option.some.inj hr)
      rwa [ho] at hy
    · cases hr
  · exact fun h => ⟨_, h, if_pos rfl⟩

/-- Nothing was asked for on behalf of `d`. -/
def Silent (d : PromiseId) (new : List Happening) : Prop := ∀ a r, .asked d a r ∉ new

theorem Silent.nil (d : PromiseId) : Silent d [] := fun _ _ h => by cases h

theorem Silent.refreshes (h : Silent d new) : refreshes d new = [] := by
  rw [List.eq_nil_iff_forall_not_mem]
  exact fun r hr => h _ r (mem_refreshes.mp hr)

theorem Silent.exchanges (h : Silent d new) : exchanges d new = [] := by
  rw [List.eq_nil_iff_forall_not_mem]
  exact fun x hx => h _ x.2 (mem_exchanges.mp hx)

theorem not_asked_exchangeAnswers (r : ResolverId) (reply : Reply) (o : PromiseId) (a : Ask)
    (r' : ResolverId) : .asked o a r' ∉ exchangeAnswers r reply := by
  cases reply <;> simp [exchangeAnswers]

theorem not_asked_refreshAnswers (c : Client) (r : ResolverId) (reply : RefreshReply) (o : PromiseId)
    (a : Ask) (r' : ResolverId) : .asked o a r' ∉ c.refreshAnswers r reply := by
  cases reply <;> simp [refreshAnswers]

/-- The exchange that is started is the only thing asked for. -/
theorem asked_exchangeHappenings {a : Ask} (h : .asked d a r ∈ c.exchangeHappenings o e) :
    d = o ∧ a = .exchange e ∧ r = c.machine.resolvers.size := by
  rcases List.mem_cons.mp h with h | h
  · simpa using h
  · exact absurd h (not_asked_exchangeAnswers _ _ _ _ _)

theorem asked_refreshHappenings {a : Ask} {provider : Provider}
    (h : .asked d a r ∈ c.refreshHappenings o provider) :
    d = o ∧ a = .refresh ∧ r = c.machine.resolvers.size := by
  rcases List.mem_cons.mp h with h | h
  · simpa using h
  · exact absurd h (not_asked_refreshAnswers _ _ _ _ _ _)

theorem exchanges_exchangeHappenings (c : Client) (o : PromiseId) (e : Exchange) :
    exchanges o (c.exchangeHappenings o e) = [(e, c.machine.resolvers.size)] := by
  have hrest : Silent o (exchangeAnswers c.machine.resolvers.size
      (c.transport.head?.getD defaultReply)) := fun a r => not_asked_exchangeAnswers _ _ _ _ _
  have hfirst : Happening.exchange? o (.asked o (.exchange e) c.machine.resolvers.size) =
      some (e, c.machine.resolvers.size) := if_pos rfl
  unfold exchanges exchangeHappenings
  rw [List.filterMap_cons_some hfirst]
  exact congrArg _ hrest.exchanges

theorem refreshes_exchangeHappenings (c : Client) (o : PromiseId) (e : Exchange) :
    refreshes o (c.exchangeHappenings o e) = [] := by
  rw [List.eq_nil_iff_forall_not_mem]
  intro r hr
  obtain ⟨-, ha, -⟩ := asked_exchangeHappenings (mem_refreshes.mp hr)
  cases ha

theorem refreshes_refreshHappenings (c : Client) (o : PromiseId) (provider : Provider) :
    refreshes o (c.refreshHappenings o provider) = [c.machine.resolvers.size] := by
  have hrest : Silent o (c.refreshAnswers c.machine.resolvers.size provider.reply) :=
    fun a r => not_asked_refreshAnswers _ _ _ _ _ _
  have hfirst : Happening.refresh? o (.asked o .refresh c.machine.resolvers.size) =
      some c.machine.resolvers.size := if_pos rfl
  unfold refreshes refreshHappenings
  rw [List.filterMap_cons_some hfirst]
  exact congrArg _ hrest.refreshes

theorem exchanges_refreshHappenings (c : Client) (o : PromiseId) (provider : Provider) :
    exchanges o (c.refreshHappenings o provider) = [] := by
  rw [List.eq_nil_iff_forall_not_mem]
  intro y hy
  obtain ⟨-, ha, -⟩ := asked_refreshHappenings (mem_exchanges.mp hy)
  cases ha

/-! ### What stays written down

Runs of the session keep whatever the books and the accounts say of promises, since registrations,
deliveries, outcomes and adoptions are never taken back. What remains to be shown of a move is about the
log and about the handlers that ran. -/

theorem Books.silent (h : Books c s log) (hd : s.machine.slots.size ≤ d) : Silent d log :=
  fun a r ha => Nat.not_lt_of_le hd (h.owner d a r ha)

/-- The session and the log go on. Handlers that ran meanwhile settled their promise, or started an
exchange. -/
theorem Books.extend (h : Books c s log) (hrun : Run s t) (ht : Told c' t (log ++ new))
    (hidle : t.calls = []) (howner : ∀ o a r, .asked o a r ∈ new → o < t.machine.slots.size)
    (hdel : ∀ code d x, (.handler code d, x) ∈ t.deliveries →
      (.handler code d, x) ∈ s.deliveries ∨ t.machine.settlement? d = some (code.outcome x) ∨
        ∃ e y, code = .dispatch e ∧ x = .fulfilled (.token y)) : Books c' t (log ++ new) := by
  have hset := (hrun.keeps h.told.reachable).settlement?
  -- What was delivered before settled its dependent then, and outcomes stay. What was delivered
  -- meanwhile did so itself, unless it started an exchange.
  refine ⟨ht, hidle, fun o a r ha => ?_, fun d x hx => ?_, fun e d cause hx => ?_⟩
  · rcases List.mem_append.mp ha with ha | ha
    · exact Nat.lt_of_lt_of_le (h.owner o a r ha) (Promise.Run.transfers hrun).size_le
    · exact howner o a r ha
  · rcases hdel _ _ _ hx with hx | hx | ⟨e, y, he, -⟩
    · exact hset _ _ (h.decoded d x hx)
    · exact hx
    · cases he
  · rcases hdel _ _ _ hx with hx | hx | ⟨e, y, -, hy⟩
    · exact hset _ _ (h.refused e d cause hx)
    · exact hx
    · cases hy

/-- Without a job, handlers have no part in what happens. -/
theorem Books.quiet (h : Books c s log) (hquiet : Quiet s t) (ht : Told c' t (log ++ new))
    (howner : ∀ o a r, .asked o a r ∈ new → o < t.machine.slots.size) :
    Books c' t (log ++ new) :=
  h.extend hquiet.run ht (hquiet.calls.trans h.idle) howner fun _ _ _ hx =>
    .inl (hquiet.deliveries ▸ hx)

theorem Decodes.keep (h : Decodes s r q) (hs : Reachable s) (hrun : Run s t) : Decodes t r q := by
  obtain ⟨p, hp, hq⟩ := h
  exact ⟨p, (Promise.Run.transfers hrun).target?_of_some hp, (hrun.keeps hs).registered _ _ hq⟩

/-- What is written down for a request stays, unless its own handler starts the exchange. -/
theorem Account.keep {pl : Plan} (h : Account s log d pl) (hs : Reachable s) (hrun : Run s t)
    (hsilent : Silent d new)
    (hdel : ∀ e y, (.handler (.dispatch e) d, .fulfilled (.token y)) ∈ t.deliveries →
      (.handler (.dispatch e) d, .fulfilled (.token y)) ∈ s.deliveries) :
    Account t (log ++ new) d pl := by
  have hkeeps := hrun.keeps hs
  -- The log of this request stays as it is.
  have hrefreshes : refreshes d (log ++ new) = refreshes d log := by
    rw [refreshes_append, hsilent.refreshes, List.append_nil]
  have hexchanges : exchanges d (log ++ new) = exchanges d log := by
    rw [exchanges_append, hsilent.exchanges, List.append_nil]
  -- Registrations, outcomes and adoptions stay by themselves.
  cases pl with
  | fail cause =>
    obtain ⟨hsettled, hr, he⟩ := h
    exact ⟨hkeeps.settlement? _ _ hsettled, hrefreshes.trans hr, hexchanges.trans he⟩
  | exchange e =>
    obtain ⟨hr, r, he, hdecodes⟩ := h
    exact ⟨hrefreshes.trans hr, r, hexchanges.trans he, hdecodes.keep hs hrun⟩
  | refresh e =>
    obtain ⟨r, p, hr, hp, hreg, hdispatched⟩ := h
    refine ⟨r, p, hrefreshes.trans hr, (Promise.Run.transfers hrun).target?_of_some hp,
      hkeeps.registered _ _ hreg, ?_⟩
    rcases hdispatched with ⟨he, hnone⟩ | ⟨y, r', q, he, hran, hdecodes, hadopted, hne⟩
    · exact .inl ⟨hexchanges.trans he, fun y hy => hnone y (hdel e y hy)⟩
    · exact .inr ⟨y, r', q, hexchanges.trans he, hrun.deliveries_subset hran, hdecodes.keep hs hrun,
        hkeeps.adopted _ _ hadopted, hne⟩

/-- What is written down is written down for a promise. -/
theorem Account.lt {pl : Plan} (h : Account s log d pl) (hb : Books c s log) :
    d < s.machine.slots.size := by
  cases pl with
  | fail cause => exact Promise.Machine.lt_of_settlement? h.1
  | exchange e =>
    obtain ⟨-, r, he, -⟩ := h
    exact hb.owner _ _ r (mem_exchanges.mp (he ▸ List.mem_singleton_self _))
  | refresh e =>
    obtain ⟨r, p, hr, -⟩ := h
    exact hb.owner _ _ r (mem_refreshes.mp (hr ▸ List.mem_singleton_self _))

/-! ### A call

A call runs no job. It makes promises, and it asks on behalf of the one that it returns. -/

/-- A call that asks for nothing. -/
theorem Books.fail (h : Books c s log) (cause : ClientError) :
    ∃ t, Quiet s t ∧ Books (c.fail cause).2 t log ∧ s.machine.slots.size ≤ (c.fail cause).1 ∧
      Account t log (c.fail cause).1 (.fail cause) := by
  obtain ⟨t, hquiet, ht, hp, hsettled, -⟩ := h.told.fail cause
  have hbooks : Books (c.fail cause).2 t (log ++ []) :=
    h.quiet hquiet (by rwa [List.append_nil]) fun o a r ha => by cases ha
  have hle : s.machine.slots.size ≤ (c.fail cause).1 :=
    Nat.le_of_eq (by rw [hp, h.told.machine])
  rw [List.append_nil] at hbooks
  refine ⟨t, hquiet, hbooks, hle, ?_, (h.silent hle).refreshes, (h.silent hle).exchanges⟩
  rw [hp]
  exact hsettled

/-- A call that starts its exchange. -/
theorem Books.exchange (h : Books c s log) (e : Exchange) :
    ∃ t, Quiet s t ∧
      Books (c.startExchange e).2 t (log ++ c.exchangeHappenings (c.startExchange e).1 e) ∧
      s.machine.slots.size ≤ (c.startExchange e).1 ∧
      Account t (log ++ c.exchangeHappenings (c.startExchange e).1 e) (c.startExchange e).1
        (.exchange e) := by
  obtain ⟨t, hquiet, ht, hlt, hsize, hdecodes⟩ := h.told.startExchange (c.startExchange e).1 e
  have hle : s.machine.slots.size ≤ (c.startExchange e).1 := by
    rw [h.told.machine]
    exact Nat.le_of_lt hlt
  have hbooks := h.quiet hquiet ht fun o a r ha => by
    obtain ⟨rfl, -, -⟩ := asked_exchangeHappenings ha
    exact hsize
  refine ⟨t, hquiet, hbooks, hle, ?_, c.machine.resolvers.size, ?_, hdecodes⟩
  · rw [refreshes_append, (h.silent hle).refreshes, refreshes_exchangeHappenings]
    rfl
  · rw [exchanges_append, (h.silent hle).exchanges, exchanges_exchangeHappenings]
    rfl

/-- A call that starts a refresh, behind which its handler waits for the token. -/
theorem Books.refresh (h : Books c s log) (e : Exchange) {provider : Provider}
    (hprovider : c.provider = some provider) {c₁ : Client}
    (hc₁ : (c.startRefresh provider).2 = c₁) :
    ∃ t, Quiet s t ∧
      Books { c₁ with
        machine := (c₁.machine.register c.machine.slots.size (.dispatch e)).2 } t
        (log ++ c.refreshHappenings c₁.machine.slots.size provider) ∧
      s.machine.slots.size ≤ c₁.machine.slots.size ∧
      Account t (log ++ c.refreshHappenings c₁.machine.slots.size provider) c₁.machine.slots.size
        (.refresh e) := by
  obtain ⟨s₁, hrefresh, h₁, -, hlt, htarget⟩ :=
    h.told.startRefresh c₁.machine.slots.size provider hprovider
  rw [hc₁] at h₁
  have hregister := quiet_register hlt (.dispatch e)
  have hquiet := hrefresh.trans hregister
  -- The promise of the call is made behind that of the refresh, so it is new as well.
  have hle : s.machine.slots.size ≤ c₁.machine.slots.size := by
    rw [← h₁.machine]
    exact (Promise.Run.transfers hrefresh.run).size_le
  have hsize : c₁.machine.slots.size <
      (s₁.register c.machine.slots.size (.dispatch e)).machine.slots.size := by
    rw [size_register, h₁.machine]
    exact Nat.lt_succ_self _
  have hbooks := h.quiet hquiet (h₁.register hlt (.dispatch e)) fun o a r ha => by
    obtain ⟨rfl, -, -⟩ := asked_refreshHappenings ha
    exact hsize
  refine ⟨_, hquiet, hbooks, hle, c.machine.resolvers.size, c.machine.slots.size, ?_, ?_, ?_,
    .inl ⟨?_, fun y hy => ?_⟩⟩
  · rw [refreshes_append, (h.silent hle).refreshes, refreshes_refreshHappenings]
    rfl
  · exact (Promise.Run.transfers hregister.run).target?_of_some htarget
  · rw [← h₁.machine]
    exact mem_registered_register _ _ _
  · rw [exchanges_append, (h.silent hle).exchanges, exchanges_refreshHappenings]
    rfl
  · -- No handler ran for a promise that is new.
    rw [hquiet.deliveries] at hy
    exact Nat.not_lt_of_le hle (h.told.reachable.dependent_lt (List.mem_append_left _ hy))

/-- A call is written down for its promise, and for no other. -/
theorem Books.request (h : Books c s log) (service path : String) (settings : RequestSettings) :
    ∃ t, Quiet s t ∧
      Books (c.request service path settings).2 t
        (log ++ c.requestHappenings service path settings) ∧
      s.machine.slots.size ≤ (c.request service path settings).1 ∧
      (∀ o a r, .asked o a r ∈ c.requestHappenings service path settings →
        o = (c.request service path settings).1) ∧
      Account t (log ++ c.requestHappenings service path settings)
        (c.request service path settings).1 (c.plan service path settings) := by
  rcases c.request_cases service path settings with ⟨cause, hplan, hrequest, hlog⟩ |
    ⟨e, hplan, hrequest, hlog⟩ | ⟨e, provider, c₁, hplan, hprovider, hc₁, hrequest, hlog⟩
  · rw [hrequest, hlog, hplan, List.append_nil]
    obtain ⟨t, hquiet, hbooks, hle, haccount⟩ := h.fail cause
    exact ⟨t, hquiet, hbooks, hle, fun o a r ha => (by cases ha), haccount⟩
  · rw [hrequest, hlog, hplan]
    obtain ⟨t, hquiet, hbooks, hle, haccount⟩ := h.exchange e
    exact ⟨t, hquiet, hbooks, hle, fun o a r ha => (asked_exchangeHappenings ha).1, haccount⟩
  · rw [hrequest, hlog, hplan]
    obtain ⟨t, hquiet, hbooks, hle, haccount⟩ := h.refresh e hprovider hc₁
    exact ⟨t, hquiet, hbooks, hle, fun o a r ha => (asked_refreshHappenings ha).1, haccount⟩

/-! ### A job

A job belongs to the host or to a handler. Of the jobs of handlers only one asks for something: that of
a `dispatch` that is given a token. All others end with the settlement of their dependent, so one lemma
is about all of them. -/

/-- The host did something, and the handlers that ran asked for nothing. -/
theorem Books.advance (h : Books c s log) (hrun : Run s t) (hm : t.machine = m)
    (hres : m.resolvers = c.machine.resolvers) (hidle : t.calls = [])
    (hdel : ∀ code d x, (.handler code d, x) ∈ t.deliveries →
      (.handler code d, x) ∈ s.deliveries ∨ t.machine.settlement? d = some (code.outcome x)) :
    Books { c with machine := m } t log := by
  have htold := h.told.move hrun hm hres
  rw [← List.append_nil log] at htold ⊢
  exact h.extend hrun htold hidle (fun o a r ha => by cases ha) fun code d x hx =>
    (hdel code d x hx).imp_right .inl

/-- A handler settles its dependent, or the host does so in its place. -/
theorem run_settle (hidle : s.calls = [])
    (hj : s.machine.next? = some (.deliver (.handler code d) x, m)) :
    Run s ((s.taken (.deliver (.handler code d) x) m).settle d (code.outcome x)) := by
  have hjob := Promise.Step.job hidle hj
  cases x with
  | rejected cause =>
    have hpass : code.outcome (.rejected cause) = .rejected cause := by cases code <;> rfl
    rw [hpass]
    exact .single hjob
  | fulfilled v =>
    rw [← conclude_outcomeOf]
    exact (Relation.ReflTransGen.single hjob).tail (.endHandler rfl (known_outcomeOf _ _))

theorem deliveries_taken (s : Session) (r : Promise.Reaction Handler)
    (x : Settlement Payload ClientError) (m : Machine) :
    (s.taken (.deliver r x) m).deliveries = s.deliveries ++ [(r, x)] :=
  Promise.Session.deliveries_record _ _

/-- Only a token makes a handler ask for something. -/
theorem handle_eq (c : Client) (d : PromiseId)
    (h : ∀ e y, code = .dispatch e → x ≠ .fulfilled (.token y)) :
    c.handle d x code = { c with machine := c.machine.settle d (code.outcome x) } := by
  cases code with
  | decode =>
    rcases x with (j | response | y) | cause
    · rfl
    · show (match decodeResponse response with
        | .ok j => { c with machine := c.machine.resolveValue d (.json j) }
        | .error e => { c with machine := c.machine.reject d e } : Client) =
          { c with machine := c.machine.settle d (verdict (.ok response)) }
      unfold verdict
      dsimp only
      rcases decodeResponse response with e | j <;> rfl
    · rfl
    · rfl
  | dispatch e =>
    rcases x with (j | response | y) | cause
    · rfl
    · rfl
    · exact absurd rfl (h e y rfl)
    · rfl

/-- A handler that asks for nothing settles its dependent. -/
theorem Books.settle (h : Books c s log)
    (hj : c.machine.next? = some (.deliver (.handler code d) x, m)) :
    ∃ t, Run s t ∧ Books { c with machine := m.settle d (code.outcome x) } t log ∧
      t.deliveries = s.deliveries ++ [(.handler code d, x)] := by
  rw [← h.told.machine] at hj
  obtain ⟨-, -, hres, -⟩ := Promise.Machine.next?_eq_some hj
  have hrun := run_settle h.idle hj
  have hdel : ((s.taken (.deliver (.handler code d) x) m).settle d (code.outcome x)).deliveries =
      s.deliveries ++ [(.handler code d, x)] :=
    (Promise.Session.deliveries_settle _ _ _).trans (deliveries_taken s _ x m)
  have htaken : Promise.Sound [d] (s.taken (.deliver (.handler code d) x) m) :=
    h.told.reachable.sound.take hj
  have hsettled : ((s.taken (.deliver (.handler code d) x) m).settle d
      (code.outcome x)).machine.settlement? d = some (code.outcome x) :=
    (htaken.settlement?_settle _ d).trans (if_pos rfl)
  refine ⟨_, hrun, h.advance hrun rfl ?_ h.idle fun code' d' x' hx => ?_, hdel⟩
  · rw [Promise.Machine.resolvers_settle, hres, h.told.machine]
  · rw [hdel] at hx
    rcases List.mem_append.mp hx with hx | hx
    · exact .inl hx
    · obtain ⟨⟨rfl, rfl⟩, rfl⟩ : (code' = code ∧ d' = d) ∧ x' = x := by simpa using hx
      exact .inr hsettled

/-- A job that runs no handler leaves the resolvers alone, and delivers to none. -/
theorem start_host {j : Promise.Job Payload ClientError Handler Empty}
    (hcode : ∀ code d x, j ≠ .deliver (.handler code d) x) (c : Client) (s : Session) (m : Machine) :
    (Client.start { c with machine := m } j).2 =
        { c with machine := (Promise.Session.start { s with machine := m } j).machine } ∧
      (Promise.Session.start { s with machine := m } j).machine.resolvers = m.resolvers ∧
      (Promise.Session.start { s with machine := m } j).calls = s.calls ∧
      ∀ code d y, (.handler code d, y) ∈
          (Promise.Session.start { s with machine := m } j).deliveries →
        (.handler code d, y) ∈ s.deliveries := by
  match j, hcode with
  | .deliver (.handler code d) x, hcode => exact absurd rfl (hcode code d x)
  | .deliver (.adoption p) x, _ =>
    refine ⟨rfl, Promise.Machine.resolvers_settle _ _ _, rfl, fun code d y hy => ?_⟩
    have hdel : (Promise.Session.settle (s.taken (.deliver (.adoption p) x) m) p x).deliveries =
        s.deliveries ++ [(.adoption p, x)] :=
      (Promise.Session.deliveries_settle _ _ _).trans (deliveries_taken s _ x m)
    have hy : (.handler code d, y) ∈ s.deliveries ++ [(.adoption p, x)] := hdel ▸ hy
    simpa using hy
  | .deliver (.wake a) x, _ =>
    refine ⟨rfl, (Promise.Machine.alike_wake m a x).resolvers, rfl, fun code d y hy => ?_⟩
    have hy : (.handler code d, y) ∈ s.deliveries ++ [(.wake a, x)] :=
      deliveries_taken s (.wake a) x m ▸ hy
    simpa using hy
  | .poll a, _ =>
    refine ⟨rfl, (Promise.Machine.alike_poll m a).resolvers, rfl, fun code d y hy => ?_⟩
    have hdel : (s.taken (.poll a) m).deliveries = s.deliveries :=
      Promise.Session.deliveries_record_of_none rfl
    exact hdel ▸ hy

/-- A job that runs no handler. -/
theorem Books.host (h : Books c s log) {j : Promise.Job Payload ClientError Handler Empty}
    (hj : c.machine.next? = some (j, m))
    (hcode : ∀ code d x, j ≠ .deliver (.handler code d) x) :
    ∃ t, Run s t ∧ Books (Client.start { c with machine := m } j).2 t log ∧
      ∀ code d x, (.handler code d, x) ∈ t.deliveries → (.handler code d, x) ∈ s.deliveries := by
  rw [← h.told.machine] at hj
  obtain ⟨-, -, hres, -⟩ := Promise.Machine.next?_eq_some hj
  obtain ⟨hclient, hresolvers, hcalls, hdel⟩ := start_host hcode c s m
  have hrun : Run s (Promise.Session.start { s with machine := m } j) := .single (.job h.idle hj)
  refine ⟨_, hrun, ?_, hdel⟩
  rw [hclient]
  refine h.advance hrun rfl ?_ (hcalls.trans h.idle) fun code d x hx => .inl (hdel code d x hx)
  rw [hresolvers, hres, h.told.machine]

/-- A handler that is given a token starts the exchange and returns its promise, which its own promise
adopts. -/
theorem Told.dispatch (h : Told c s log) (hidle : s.calls = [])
    (hj : s.machine.next? = some (.deliver (.handler (.dispatch e) d) (.fulfilled (.token y)), m)) :
    ∃ t, Run s t ∧
      Told (Client.handle { c with machine := m } d (.fulfilled (.token y)) (.dispatch e)) t
        (log ++ Client.exchangeHappenings { c with machine := m } d (authorize e y)) ∧
      t.calls = [] ∧
      t.deliveries = s.deliveries ++ [(.handler (.dispatch e) d, .fulfilled (.token y))] ∧
      ∃ q, Decodes t m.resolvers.size q ∧ t.Follows d q := by
  obtain ⟨-, hslots, hres, -⟩ := Promise.Machine.next?_eq_some hj
  -- The session calls the handler, which starts the exchange and then returns its promise.
  have hcall : Run s ((s.taken (.deliver (.handler (.dispatch e) d) (.fulfilled (.token y))) m).call
      (.handler d)) := .single (.job hidle hj)
  have htold : Told { c with machine := m } _ log :=
    h.move hcall rfl (hres.trans (congrArg _ h.machine))
  obtain ⟨t₁, hquiet, ht₁, hlt, hsize, hdecodes⟩ := htold.startExchange d (authorize e y)
  have hhandle : Client.handle { c with machine := m } d (.fulfilled (.token y)) (.dispatch e) =
      { (Client.startExchange { c with machine := m } (authorize e y)).2 with
        machine := (Client.startExchange { c with machine := m } (authorize e y)).2.machine.adopt d
          (Client.startExchange { c with machine := m } (authorize e y)).1 } := rfl
  rw [hhandle]
  generalize (Client.startExchange { c with machine := m } (authorize e y)).1 = q at *
  generalize (Client.startExchange { c with machine := m } (authorize e y)).2 = c₁ at *
  have hcalls : t₁.calls = [.handler d] := hquiet.calls.trans (congrArg _ hidle)
  have hend : Promise.Step t₁ (Promise.Session.adopt { t₁ with calls := [] } d q) :=
    .endHandler hcalls (o := .ok (.promise q)) hsize
  obtain ⟨-, hresolvers, hidle', hdel⟩ := Promise.Session.still_adopt { t₁ with calls := [] } d q
  have hmachine : (Promise.Session.adopt { t₁ with calls := [] } d q).machine =
      c₁.machine.adopt d q := by
    rw [Promise.Session.machine_adopt, ← ht₁.machine]
  refine ⟨_, (hcall.trans hquiet.run).tail hend, ht₁.move (.single hend) hmachine ?_, hidle',
    (hdel.trans hquiet.deliveries).trans (deliveries_taken s _ _ m), q,
    Decodes.keep hdecodes ht₁.reachable (.single hend), ?_, ?_⟩
  · rw [← hmachine, ← ht₁.machine]
    exact hresolvers
  · exact (Promise.Session.adopted_conclude { t₁ with calls := [] } d (.ok (.promise q)) d q).mpr
      (.inr ⟨rfl, rfl⟩)
  · -- The promise of the exchange is newer than the one that adopts it.
    have hd : d < s.machine.slots.size :=
      h.reachable.dependent_lt (List.mem_append_right _ (Promise.Machine.mem_due_of_next? hj))
    rw [← hslots] at hd
    exact Nat.ne_of_lt (Nat.lt_trans hd hlt)

/-- A token starts the exchange, whose end the request takes over. -/
theorem Books.dispatch (h : Books c s log)
    (hj : c.machine.next? = some (.deliver (.handler (.dispatch e) d) (.fulfilled (.token y)), m)) :
    ∃ t, Run s t ∧
      Books (Client.handle { c with machine := m } d (.fulfilled (.token y)) (.dispatch e)) t
        (log ++ Client.exchangeHappenings { c with machine := m } d (authorize e y)) ∧
      t.deliveries = s.deliveries ++ [(.handler (.dispatch e) d, .fulfilled (.token y))] ∧
      ∃ q, Decodes t m.resolvers.size q ∧ t.Follows d q := by
  rw [← h.told.machine] at hj
  obtain ⟨t, hrun, ht, hidle, hdel, hq⟩ := h.told.dispatch h.idle hj
  refine ⟨t, hrun, h.extend hrun ht hidle (fun o a r ha => ?_) fun code d' x hx => ?_, hdel, hq⟩
  · rw [(asked_exchangeHappenings ha).1]
    exact Nat.lt_of_lt_of_le (h.told.reachable.dependent_lt
      (List.mem_append_right _ (Promise.Machine.mem_due_of_next? hj)))
      (Promise.Run.transfers hrun).size_le
  · rw [hdel] at hx
    rcases List.mem_append.mp hx with hx | hx
    · exact .inl hx
    · obtain ⟨⟨rfl, -⟩, rfl⟩ : (code = .dispatch e ∧ d' = d) ∧ x = .fulfilled (.token y) := by
        simpa using hx
      exact .inr (.inr ⟨e, y, rfl, rfl⟩)

/-- A request whose handler is about to run with a token has started no exchange. -/
theorem Account.of_due {pl : Plan} (h : Account s log d pl) (hs : Reachable s)
    (hj : s.machine.next? = some (.deliver (.handler (.dispatch e) d) (.fulfilled (.token y)), m)) :
    pl = .refresh e ∧ exchanges d log = [] := by
  have hdue : (.handler (.dispatch e) d, .fulfilled (.token y)) ∈ s.machine.due :=
    Promise.Machine.mem_due_of_next? hj
  have hpending : s.machine.settlement? d = none := hs.settlement?_of_outstanding
    (List.mem_append_right _ (List.mem_map_of_mem hdue)) rfl
  obtain ⟨p', hreg', -⟩ := hs.source (List.mem_append_right _ hdue)
  cases pl with
  | fail cause =>
    rw [h.1] at hpending
    cases hpending
  | exchange e₀ =>
    -- A promise is the dependent of one handler only, here a decoder.
    obtain ⟨-, r, -, p, -, hreg⟩ := h
    obtain ⟨-, hsame⟩ := hs.eq_of_purpose hreg hreg' rfl
    cases hsame
  | refresh e₀ =>
    obtain ⟨r, p, -, -, hreg, hdispatched⟩ := h
    obtain ⟨-, hsame⟩ := hs.eq_of_purpose hreg hreg' rfl
    cases hsame
    rcases hdispatched with ⟨he, -⟩ | ⟨y', r', q, -, -, -, hadopted, -⟩
    · exact ⟨rfl, he⟩
    · exact absurd hadopted (hs.not_adopted_of_next? hj)

/-- The exchange that a job starts is written down for the request whose handler ran. -/
theorem Account.dispatch {pl : Plan} (h : Account s log o pl) (hb : Books c s log)
    (hj : c.machine.next? = some (.deliver (.handler (.dispatch e) d) (.fulfilled (.token y)), m))
    (hrun : Run s t)
    (hdel : t.deliveries = s.deliveries ++ [(.handler (.dispatch e) d, .fulfilled (.token y))])
    (hq : ∃ q, Decodes t m.resolvers.size q ∧ t.Follows d q) :
    Account t (log ++ Client.exchangeHappenings { c with machine := m } d (authorize e y)) o pl := by
  have hs := hb.told.reachable
  rw [← hb.told.machine] at hj
  -- The request whose handler runs gets its exchange; nothing is asked for on behalf of the others.
  by_cases ho : o = d
  · subst ho
    obtain ⟨rfl, hexchanges⟩ := h.of_due hs hj
    obtain ⟨r, p, hr, hp, hreg, -⟩ := h
    obtain ⟨q, hdecodes, hfollows⟩ := hq
    refine ⟨r, p, ?_, (Promise.Run.transfers hrun).target?_of_some hp,
      (hrun.keeps hs).registered _ _ hreg,
      .inr ⟨y, m.resolvers.size, q, ?_, ?_, hdecodes, hfollows⟩⟩
    · rw [refreshes_append, hr, refreshes_exchangeHappenings]
      rfl
    · rw [exchanges_append, hexchanges, exchanges_exchangeHappenings]
      rfl
    · rw [hdel]
      exact List.mem_append_right _ (List.mem_singleton_self _)
  · refine h.keep hs hrun (fun a r ha => ho (asked_exchangeHappenings ha).1) fun e' y' hy => ?_
    rw [hdel] at hy
    simpa [ho] using hy

/-! ### A move

`Goes` is the induction step over a run: the session goes on, the books are kept, and so is the account
of every request. It is closed under composition, so that a move may be taken apart. -/

/-- What was written down stays, and what a move does is added to it. -/
structure Goes (c : Client) (s : Session) (log : List Happening) (c' : Client) (t : Session)
    (new : List Happening) : Prop where
  run : Run s t
  books : Books c' t (log ++ new)
  account : ∀ o pl, Account s log o pl → Account t (log ++ new) o pl

theorem Goes.trans (h : Goes c s log c' t new) (h' : Goes c' t (log ++ new) c'' u new') :
    Goes c s log c'' u (new ++ new') where
  run := h.run.trans h'.run
  books := by
    rw [← List.append_assoc]
    exact h'.books
  account := fun o pl ha => by
    rw [← List.append_assoc]
    exact h'.account o pl (h.account o pl ha)

/-- Nothing is asked for. -/
theorem Books.still (h : Books c s log) (hquiet : Quiet s t) (ht : Told c' t (log ++ new))
    (hsilent : ∀ o, Silent o new) : Goes c s log c' t new where
  run := hquiet.run
  books := h.quiet hquiet ht fun o a r ha => absurd ha (hsilent o a r)
  account := fun o _ ha => ha.keep h.told.reachable hquiet.run (hsilent o) fun _ _ hy =>
    hquiet.deliveries ▸ hy

/-- Nothing happens. -/
theorem Books.calm (h : Books c s log) (hquiet : Quiet s t) (ht : Told c' t log) :
    Goes c s log c' t [] :=
  h.still hquiet (by rwa [List.append_nil]) Silent.nil

/-- Awaits that are told of a loss are of no account. -/
theorem Goes.tellLost (h : Goes c s log c' t new) :
    ∃ u, Goes c s log c'.tellLost u new := by
  obtain ⟨u, hquiet, hu⟩ := h.books.told.tellLost
  have hcalm := h.trans (h.books.calm hquiet hu)
  rw [List.append_nil] at hcalm
  exact ⟨u, hcalm⟩

theorem Books.complete (h : Books c s log) (id : String) (reply : Reply) :
    ∃ t, Goes c s log (c.step (.complete id reply)) t (c.happenings (.complete id reply)) := by
  dsimp only [Client.step, happenings, takeExchange?]
  rcases hfind : Dictionary.find? id c.heldExchanges with _ | r
  · exact ⟨s, h.calm (.refl s) h.told⟩
  · obtain ⟨entry, hentry, rfl⟩ := Dictionary.exists_mem_of_find? hfind
    obtain ⟨o, e, ha⟩ := h.told.held.exchanges entry hentry
    have htaken : Told { c with heldExchanges := c.heldExchanges.filter fun e => e.1 ≠ id } s log :=
      h.told.update .refl h.told.machine rfl
        ⟨fun e he => h.told.held.exchanges e (List.mem_of_mem_filter he), h.told.held.refreshes⟩
    obtain ⟨t, hquiet, ht⟩ := htaken.completeExchange ha reply
    exact (h.still hquiet ht fun o a r => not_asked_exchangeAnswers _ _ _ _ _).tellLost

theorem Books.completeRefresh (h : Books c s log) (id : String) (reply : RefreshReply) :
    ∃ t, Goes c s log (c.step (.refreshed id reply)) t (c.happenings (.refreshed id reply)) := by
  dsimp only [Client.step, happenings, takeRefresh?]
  rcases hfind : Dictionary.find? id c.heldRefreshes with _ | r
  · exact ⟨s, h.calm (.refl s) h.told⟩
  · obtain ⟨entry, hentry, rfl⟩ := Dictionary.exists_mem_of_find? hfind
    obtain ⟨o, ha⟩ := h.told.held.refreshes entry hentry
    have htaken : Told { c with heldRefreshes := c.heldRefreshes.filter fun e => e.1 ≠ id } s log :=
      h.told.update .refl h.told.machine rfl
        ⟨h.told.held.exchanges, fun e he => h.told.held.refreshes e (List.mem_of_mem_filter he)⟩
    obtain ⟨t, hquiet, ht⟩ := htaken.completeRefresh ha reply
    exact (h.still hquiet ht fun o a r => not_asked_refreshAnswers _ _ _ _ _ _).tellLost

/-- A call asks on behalf of a new promise only. -/
theorem Books.call (h : Books c s log) (service path : String) (settings : RequestSettings) :
    ∃ t, Goes c s log (c.request service path settings).2 t
      (c.requestHappenings service path settings) := by
  obtain ⟨t, hquiet, hbooks, hle, howner, -⟩ := h.request service path settings
  refine ⟨t, hquiet.run, hbooks, fun o pl ha => ha.keep h.told.reachable hquiet.run ?_ ?_⟩
  · intro a r hasked
    have hlt := ha.lt h
    rw [howner o a r hasked] at hlt
    exact Nat.not_lt_of_le hle hlt
  · exact fun e y hy => hquiet.deliveries ▸ hy

/-- What the host did asked for nothing. -/
theorem Books.ran (h : Books c s log) (hrun : Run s t) (hbooks : Books c' t log)
    (hdel : ∀ o e y, (.handler (.dispatch e) o, .fulfilled (.token y)) ∈ t.deliveries →
      (.handler (.dispatch e) o, .fulfilled (.token y)) ∈ s.deliveries) :
    Goes c s log c' t [] where
  run := hrun
  books := by rwa [List.append_nil]
  account := fun o _ ha => ha.keep h.told.reachable hrun (Silent.nil o) (hdel o)

/-- A handler that runs without a token settles its promise. -/
theorem Books.handle (h : Books c s log)
    (hj : c.machine.next? = some (.deliver (.handler code d) x, m))
    (hx : ∀ e y, code = .dispatch e → x ≠ .fulfilled (.token y)) :
    ∃ t, Goes c s log (Client.handle { c with machine := m } d x code) t [] := by
  obtain ⟨t, hrun, hbooks, hdel⟩ := h.settle hj
  rw [handle_eq _ _ hx]
  refine ⟨t, h.ran hrun hbooks fun o e y hy => ?_⟩
  rw [hdel] at hy
  rcases List.mem_append.mp hy with hy | hy
  · exact hy
  · obtain ⟨⟨rfl, -⟩, rfl⟩ : (.dispatch e = code ∧ o = d) ∧ .fulfilled (.token y) = x := by
      simpa using hy
    exact absurd rfl (hx e y rfl)

/-- The next job runs. -/
theorem Books.start (h : Books c s log) {j : Promise.Job Payload ClientError Handler Empty}
    (hj : c.machine.next? = some (j, m)) :
    ∃ t, Goes c s log (Client.start { c with machine := m } j).2 t
      (Client.jobHappenings { c with machine := m } j) := by
  -- A `dispatch` with a token is the only job that asks for something.
  match j with
  | .deliver (.handler (.dispatch e) d) (.fulfilled (.token y)) =>
    obtain ⟨t, hrun, hbooks, hdel, hq⟩ := h.dispatch hj
    exact ⟨t, hrun, hbooks, fun o pl ha => ha.dispatch h hj hrun hdel hq⟩
  | .deliver (.handler (.dispatch e) d) (.fulfilled (.json j)) =>
    exact h.handle hj fun e y _ => by simp
  | .deliver (.handler (.dispatch e) d) (.fulfilled (.response r)) =>
    exact h.handle hj fun e y _ => by simp
  | .deliver (.handler (.dispatch e) d) (.rejected cause) =>
    exact h.handle hj fun e y _ => by simp
  | .deliver (.handler .decode d) x => exact h.handle hj fun e y he => by cases he
  | .deliver (.adoption p) x | .deliver (.wake a) x | .poll a =>
    obtain ⟨t, hrun, hbooks, hdel⟩ := h.host hj (by simp)
    exact ⟨t, h.ran hrun hbooks fun o e y hy => hdel _ _ _ hy⟩

/-- Every move keeps the books. -/
theorem Books.step (h : Books c s log) (mv : Move) :
    ∃ t, Goes c s log (c.step mv) t (c.happenings mv) := by
  cases mv with
  | announce name payload =>
    refine ⟨s, h.calm (.refl s) ?_⟩
    dsimp only [Client.step, announce]
    split
    · split
      · exact h.told.same rfl rfl rfl
      · exact h.told
    · exact h.told
  | request service path settings => exact h.call service path settings
  | post service path body =>
    cases body with
    | ok j => exact h.call service path (postSettings j)
    | error cause =>
      obtain ⟨t, hquiet, hbooks, -, -⟩ := h.fail (.encode cause)
      exact ⟨t, h.calm hquiet hbooks.told⟩
  | await p =>
    dsimp only [Client.step, happenings]
    split_ifs with hp
    · obtain ⟨t, hquiet, ht⟩ := h.told.await hp
      exact ⟨t, h.calm hquiet ht⟩
    · exact ⟨s, h.calm (.refl s) h.told⟩
  | complete id reply => exact h.complete id reply
  | refreshed id reply => exact h.completeRefresh id reply
  | provider change => exact ⟨s, h.calm (.refl s) (h.told.same rfl rfl rfl)⟩
  | job =>
    dsimp only [Client.step, happenings, Client.job]
    rcases hj : c.machine.next? with _ | ⟨j, m⟩
    · exact ⟨s, h.calm (.refl s) h.told⟩
    · obtain ⟨t, ht⟩ := h.start hj
      exact ht.tellLost

end Switchboard.Client
