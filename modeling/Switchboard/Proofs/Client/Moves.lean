import Switchboard.Client.Basic

/-!
# What can happen to a client

A client is driven from outside: push events, requests, callbacks that complete, providers that change
their mind, and jobs of the host, in any order. What it does on its part is written to a log.

- `Move`, `Client.step`, `Client.moves`: one thing that happens, and any number of them.
- `Client.plan`: what a call decides.
- `Happening`: a refresh or an exchange was asked for, on behalf of a request, or was answered.
- `Client.happenings`, `Client.history`: the log of one move, and of many.
- `written_moves`: the exchanges of the log are those that the client called.

The log is not part of the client, which keeps only the effects that it had: an effect does not say for
which request it was meant, nor which callback was handed out with it. The log says both. It is computed
from the client and the move alone, so that it could tell anything; that it does not is what
`written_moves` adds, which reads the effects off the log in their order. A log that tells of the
promises and callbacks what the machine says is the matter of `Told`, and not of this file.

A refresh counts once as an effect and once in the log, but the two numbers are not the same. A provider
with a token that never expires answers without asking anybody. So the refreshes of the log bound those
of the effects.
-/

namespace Switchboard.Client

open Promise (PromiseId ResolverId Settlement)
open Http (Exchange Response)

inductive Move
  /-- A push event. -/
  | announce (name payload : String)
  | request (service path : String) (settings : RequestSettings)
  | post (service path : String) (body : Except String Json)
  /-- Someone waits for a promise. -/
  | await (p : PromiseId)
  /-- The callback of an exchange that was kept under a name is used, kept again or lost. -/
  | complete (id : String) (reply : Reply)
  /-- So is that of a refresh. -/
  | refreshed (id : String) (reply : RefreshReply)
  | provider (change : Provider → Provider)
  /-- The host runs its next job. -/
  | job

/-- The push event that a move delivers: its name and what it carries. -/
def Move.event? : Move → Option (String × String)
  | .announce name payload => some (name, payload)
  | _ => none

/-- The next thing happens. A promise that does not exist cannot be awaited, and a name that no callback
was kept under completes nothing. -/
def step (c : Client) : Move → Client
  | .announce name payload => c.announce name payload
  | .request service path settings => (c.request service path settings).2
  | .post service path body => (c.post service path body).2
  | .await p => if p < c.machine.slots.size then (c.await p).2 else c
  | .complete id reply =>
    match c.takeExchange? id with
    | some (r, c) => (c.completeExchange r reply).tellLost
    | none => c
  | .refreshed id reply =>
    match c.takeRefresh? id with
    | some (r, c) => (c.completeRefresh r reply).tellLost
    | none => c
  | .provider change => c.updateProvider change
  | .job =>
    match c.job with
    | some (_, c) => c
    | none => c

def moves (c : Client) (ms : List Move) : Client := ms.foldl step c

/-! ### Calls

What a call decides depends on the client as it is when the call is made. A `Plan` keeps the decision
apart from what is done about it. The exchange that a handler will start later is fixed by then, but for
the token. -/

/-- What a call decides before anything is asked of the outside. -/
inductive Plan
  | fail (cause : ClientError)
  /-- The exchange is started at once. -/
  | exchange (e : Exchange)
  /-- The exchange is started with the token that a refresh obtains. -/
  | refresh (e : Exchange)

/-- The decision of a call: it needs a server, and a provider that vouches for the caller if there is a
provider. -/
def plan (c : Client) (service path : String) (settings : RequestSettings) : Plan :=
  match c.topology.firstServer? service with
  | none => .fail (.noServers service)
  | some server =>
    match c.provider with
    | none => .exchange (prepare c.defaults server path settings)
    | some provider =>
      if provider.authenticated then .refresh (prepare c.defaults server path settings)
      else .fail .notAuthenticated

/-- A callback was kept under a name that stood for another, which is lost. -/
def replaced (c : Client) : Option ResolverId → Client
  | some old => c.lose old
  | none => c

theorem completeExchange_hold (c : Client) (r : ResolverId) (id : String) :
    c.completeExchange r (.hold id) =
      let c := c.replaced (Dictionary.find? id c.heldExchanges)
      { c with heldExchanges := c.heldExchanges.insert id r } := rfl

theorem completeRefresh_hold (c : Client) (r : ResolverId) (id : String) :
    c.completeRefresh r (.hold id) =
      let c := c.replaced (Dictionary.find? id c.heldRefreshes)
      { c with heldRefreshes := c.heldRefreshes.insert id r } := rfl

/-- An exchange was started and its reply came; its promise has no decoder yet. -/
def called (c : Client) (e : Exchange) : Client :=
  Client.completeExchange { c with
    machine := c.machine.defer.2.2
    transport := c.transport.tail
    effects := .call e :: c.effects } c.machine.resolvers.size (c.transport.head?.getD defaultReply)

theorem startExchange_eq (c : Client) (e : Exchange) :
    c.startExchange e = ((c.called e).machine.slots.size,
      { c.called e with
        machine := ((c.called e).machine.register c.machine.slots.size .decode).2 }) := rfl

/-! ### The log

The happenings of a move are defined beside the move, and by the same cases. An answer is written down
as it comes, also if it is the second one of its callback; the client ignores it then, and `answer?`
reads the first. -/

/-- What was asked for. -/
inductive Ask
  | refresh
  | exchange (e : Exchange)

/-- What a callback was called with. A refresh that succeeded finds the token that the provider holds by
then. -/
inductive Answer
  | refreshed (result : Except String Unit) (held : Option BearerToken)
  | exchanged (result : Except String Response)

inductive Happening
  /-- Something was asked for on behalf of the request `owner`; `r` stands for the callback. -/
  | asked (owner : PromiseId) (a : Ask) (r : ResolverId)
  | answered (r : ResolverId) (x : Answer)

/-- The use of the callback `r` of an exchange, if the reply is one. -/
def exchangeAnswers (r : ResolverId) : Reply → List Happening
  | .complete result => [.answered r (.exchanged result)]
  | _ => []

/-- The provider was given another token, or none, or is left alone. -/
def given (c : Client) : Option (Option BearerToken) → Client
  | some t => c.updateProvider (·.setToken t)
  | none => c

/-- The token that the provider holds. -/
def held? (c : Client) : Option BearerToken := c.provider.bind fun (p : Provider) => p.token?

/-- The use of the callback `r` of a refresh, if the reply is one. -/
def refreshAnswers (c : Client) (r : ResolverId) : RefreshReply → List Happening
  | .complete token result => [.answered r (.refreshed result (c.given token).held?)]
  | _ => []

def exchangeHappenings (c : Client) (owner : PromiseId) (e : Exchange) : List Happening :=
  .asked owner (.exchange e) c.machine.resolvers.size ::
    exchangeAnswers c.machine.resolvers.size (c.transport.head?.getD defaultReply)

/-- The reply of the provider to the next refresh. -/
def Provider.reply : Provider → RefreshReply
  | .fixed _ => defaultRefresh
  | .scripted _ _ replies => replies.head?.getD defaultRefresh

def refreshHappenings (c : Client) (owner : PromiseId) (provider : Provider) : List Happening :=
  .asked owner .refresh c.machine.resolvers.size ::
    c.refreshAnswers c.machine.resolvers.size provider.reply

def requestHappenings (c : Client) (service path : String) (settings : RequestSettings) :
    List Happening :=
  let owner := (c.request service path settings).1
  match c.topology.firstServer? service with
  | none => []
  | some server =>
    match c.provider with
    | none => c.exchangeHappenings owner (prepare c.defaults server path settings)
    | some provider =>
      if provider.authenticated then c.refreshHappenings owner provider else []

/-- A call fails, starts an exchange, or starts a refresh behind which its handler waits. -/
theorem request_cases (c : Client) (service path : String) (settings : RequestSettings) :
    (∃ cause, c.plan service path settings = .fail cause ∧
      c.request service path settings = c.fail cause ∧
      c.requestHappenings service path settings = []) ∨
    (∃ e, c.plan service path settings = .exchange e ∧
      c.request service path settings = c.startExchange e ∧
      c.requestHappenings service path settings = c.exchangeHappenings (c.startExchange e).1 e) ∨
    ∃ e provider c₁, c.plan service path settings = .refresh e ∧ c.provider = some provider ∧
      (c.startRefresh provider).2 = c₁ ∧
      c.request service path settings = (c₁.machine.slots.size,
        { c₁ with machine := (c₁.machine.register c.machine.slots.size (.dispatch e)).2 }) ∧
      c.requestHappenings service path settings =
        c.refreshHappenings c₁.machine.slots.size provider := by
  unfold requestHappenings Client.request plan
  rcases c.topology.firstServer? service with _ | server
  · exact .inl ⟨_, rfl, rfl, rfl⟩
  · rcases hprovider : c.provider with _ | provider
    · exact .inr (.inl ⟨prepare c.defaults server path settings, rfl, rfl, rfl⟩)
    · dsimp only
      by_cases hauth : provider.authenticated = true
      · rw [if_pos hauth, if_pos hauth, if_pos hauth]
        refine .inr (.inr ⟨_, provider, _, rfl, rfl, rfl, ?_, rfl⟩)
        cases provider <;> rfl
      · rw [if_neg hauth, if_neg hauth, if_neg hauth]
        exact .inl ⟨_, rfl, rfl, rfl⟩

/-- What happens in a job: a token starts the exchange of the request that asked for it. -/
def jobHappenings (c : Client) : Promise.Job Payload ClientError Handler Empty → List Happening
  | .deliver (.handler (.dispatch e) d) (.fulfilled (.token t)) =>
    c.exchangeHappenings d (authorize e t)
  | _ => []

/-- What happens in a move. -/
def happenings (c : Client) : Move → List Happening
  | .request service path settings => c.requestHappenings service path settings
  | .post service path (.ok body) => c.requestHappenings service path (postSettings body)
  | .complete id reply =>
    match c.takeExchange? id with
    | some (r, _) => exchangeAnswers r reply
    | none => []
  | .refreshed id reply =>
    match c.takeRefresh? id with
    | some (r, c) => c.refreshAnswers r reply
    | none => []
  | .job =>
    match c.machine.next? with
    | some (j, m) => { c with machine := m }.jobHappenings j
    | none => []
  | _ => []

/-- All that happens in moves, in order. -/
def history (c : Client) : List Move → List Happening
  | [] => []
  | m :: ms => c.happenings m ++ (c.step m).history ms

theorem moves_append (c : Client) (ms ms' : List Move) :
    c.moves (ms ++ ms') = (c.moves ms).moves ms' := List.foldl_append

theorem step_job_of_some {c c' : Client} {answer : Option (Promise.AwaitId × Settlement Payload ClientError)}
    (h : c.job = some (answer, c')) : c.step .job = c' := by
  unfold step
  rw [h]

/-- A host without jobs goes on without doing anything. -/
theorem moves_jobs_of_none {c : Client} (h : c.job = none) (n : Nat) :
    c.moves (List.replicate n .job) = c := by
  have hstep : c.step .job = c := by
    unfold step
    rw [h]
  induction n with
  | zero => rfl
  | succ n ih =>
    show (c.step .job).moves _ = c
    rwa [hstep]

theorem job_eq_none_iff {c : Client} : c.job = none ↔ c.machine.queue = [] := by
  unfold job Promise.Machine.next?
  cases c.machine.queue <;> simp

/-- Losses are told one after the other, so what telling one keeps is kept. -/
theorem tellLost_keeps {P : Machine → Prop} (c : Client) (h : P c.machine)
    (habandon : ∀ m p, P m → P (m.abandon p)) : P c.tellLost.machine :=
  List.foldlRecOn c.lost _ h fun m hm p _ => habandon m p hm

theorem history_append (c : Client) (ms ms' : List Move) :
    c.history (ms ++ ms') = c.history ms ++ (c.moves ms).history ms' := by
  induction ms generalizing c with
  | nil => rfl
  | cons mv ms ih =>
    show c.happenings mv ++ (c.step mv).history (ms ++ ms') = _
    rw [ih, ← List.append_assoc]
    rfl

/-! ### Views of the log

Statements about one request filter the log by the promise of the request, and those about one callback
by the callback. -/

def Happening.refresh? (owner : PromiseId) : Happening → Option ResolverId
  | .asked o .refresh r => if o = owner then some r else none
  | _ => none

def Happening.exchange? (owner : PromiseId) : Happening → Option (Exchange × ResolverId)
  | .asked o (.exchange e) r => if o = owner then some (e, r) else none
  | _ => none

def Happening.answer? (r : ResolverId) : Happening → Option Answer
  | .answered r' x => if r' = r then some x else none
  | _ => none

/-- The refreshes that were started for a request, by their callbacks. -/
def refreshes (owner : PromiseId) (log : List Happening) : List ResolverId :=
  log.filterMap (Happening.refresh? owner)

/-- The exchanges that were started for a request, with their callbacks. -/
def exchanges (owner : PromiseId) (log : List Happening) : List (Exchange × ResolverId) :=
  log.filterMap (Happening.exchange? owner)

/-- What a callback was first called with. -/
def answer? (log : List Happening) (r : ResolverId) : Option Answer :=
  log.findSome? (Happening.answer? r)

def Happening.call? : Happening → Option Exchange
  | .asked _ (.exchange e) _ => some e
  | _ => none

def Happening.isRefresh : Happening → Bool
  | .asked _ .refresh _ => true
  | _ => false

def Effect.call? : Effect → Option Exchange
  | .call e => some e
  | .refresh _ => none

def Effect.isRefresh : Effect → Bool
  | .refresh _ => true
  | .call _ => false

/-- The exchanges that the client called, in order. -/
def calls (c : Client) : List Exchange := c.effects.reverse.filterMap Effect.call?

/-- How many refreshes the client asked the outside for. -/
def refreshCount (c : Client) : Nat := c.effects.countP Effect.isRefresh

/-! ### The log tells what was called

`Written` relates two clients and what was logged between them, so it composes along a run. The work is
in the two operations that ask for something; whatever else a move does leaves the effects as they are.
-/

/-- What the client asked of the outside between `c` and `c'` is in `new`. A provider whose token never
expires is not asked for a refresh. -/
structure Written (c c' : Client) (new : List Happening) : Prop where
  calls : c'.calls = c.calls ++ new.filterMap Happening.call?
  count : c'.refreshCount ≤ c.refreshCount + new.countP Happening.isRefresh

variable {c c' c'' : Client} {new new' : List Happening}

theorem Written.trans (h : Written c c' new) (h' : Written c' c'' new') :
    Written c c'' (new ++ new') := by
  constructor
  · rw [h'.calls, h.calls, List.filterMap_append, List.append_assoc]
  · have hcount := h.count
    have hcount' := h'.count
    rw [List.countP_append]
    omega

theorem Written.congr (h : Written c c' new) (heffects : c''.effects = c'.effects) :
    Written c c'' new := by
  constructor
  · rw [Client.calls, heffects]
    exact h.calls
  · rw [refreshCount, heffects]
    exact h.count

/-- Nothing was asked of the outside. -/
theorem Written.of_effects (heffects : c'.effects = c.effects)
    (hnew : new.filterMap Happening.call? = []) : Written c c' new := by
  constructor
  · rw [hnew, List.append_nil, Client.calls, heffects]
    rfl
  · rw [refreshCount, heffects]
    exact Nat.le_add_right _ _

theorem call?_exchangeAnswers (r : ResolverId) (reply : Reply) :
    (exchangeAnswers r reply).filterMap Happening.call? = [] := by
  cases reply <;> rfl

theorem call?_refreshAnswers (c : Client) (r : ResolverId) (reply : RefreshReply) :
    (c.refreshAnswers r reply).filterMap Happening.call? = [] := by
  cases reply <;> rfl

theorem effects_settleVia (c : Client) (r : ResolverId) (x : Settlement Payload ClientError) :
    (c.settleVia r x).effects = c.effects := by
  unfold settleVia
  split <;> rfl

theorem effects_lose (c : Client) (r : ResolverId) : (c.lose r).effects = c.effects := by
  unfold lose
  split <;> rfl

theorem effects_replaced (c : Client) (old : Option ResolverId) :
    (c.replaced old).effects = c.effects := by
  cases old with
  | none => rfl
  | some r => exact effects_lose c r

theorem effects_completeExchange (c : Client) (r : ResolverId) (reply : Reply) :
    (c.completeExchange r reply).effects = c.effects := by
  rcases reply with (cause | response) | id | _
  · exact effects_settleVia _ _ _
  · exact effects_settleVia _ _ _
  · exact effects_replaced _ _
  · exact effects_lose _ _

theorem effects_completeRefresh (c : Client) (r : ResolverId) (reply : RefreshReply) :
    (c.completeRefresh r reply).effects = c.effects := by
  rcases reply with ⟨token, cause | _⟩ | id | _
  · exact (effects_settleVia _ _ _).trans (by cases token <;> rfl)
  · unfold completeRefresh
    dsimp only
    split <;> exact (effects_settleVia _ _ _).trans (by cases token <;> rfl)
  · exact effects_replaced _ _
  · exact effects_lose _ _

/-- An exchange is called when it is asked for. -/
theorem written_startExchange (c : Client) (o : PromiseId) (e : Exchange) :
    Written c (c.startExchange e).2 (c.exchangeHappenings o e) := by
  have heffects : (c.startExchange e).2.effects = .call e :: c.effects :=
    effects_completeExchange _ _ _
  constructor
  · unfold calls exchangeHappenings
    rw [heffects, List.reverse_cons, List.filterMap_append,
      List.filterMap_cons_some (show Happening.call? _ = some e from rfl), call?_exchangeAnswers]
    rfl
  · unfold refreshCount
    rw [heffects]
    exact Nat.le_add_right _ _

theorem written_startRefresh (c : Client) (o : PromiseId) (provider : Provider) :
    Written c (c.startRefresh provider).2 (c.refreshHappenings o provider) := by
  have hnew : (c.refreshHappenings o provider).filterMap Happening.call? = [] :=
    c.call?_refreshAnswers _ _
  cases provider with
  | fixed t =>
    -- The request waits for a refresh here, too, but nobody outside is asked for it.
    exact .of_effects (effects_completeRefresh _ _ _) hnew
  | scripted authenticated token replies =>
    have heffects : (c.startRefresh (.scripted authenticated token replies)).2.effects =
        .refresh c.defaults.refreshInterval :: c.effects := effects_completeRefresh _ _ _
    constructor
    · unfold calls
      rw [heffects, hnew, List.append_nil, List.reverse_cons, List.filterMap_append]
      exact List.append_nil _
    · unfold refreshCount refreshHappenings
      rw [heffects, List.countP_cons, List.countP_cons]
      simp [Effect.isRefresh, Happening.isRefresh]

theorem written_request (c : Client) (service path : String) (settings : RequestSettings) :
    Written c (c.request service path settings).2 (c.requestHappenings service path settings) := by
  rcases c.request_cases service path settings with ⟨cause, -, hrequest, hlog⟩ |
    ⟨e, -, hrequest, hlog⟩ | ⟨e, provider, c₁, -, -, rfl, hrequest, hlog⟩
  · rw [hrequest, hlog]
    exact .of_effects rfl rfl
  · rw [hrequest, hlog]
    exact c.written_startExchange _ e
  · rw [hrequest, hlog]
    exact (c.written_startRefresh _ provider).congr rfl

theorem written_start (c : Client) (j : Promise.Job Payload ClientError Handler Empty) :
    Written c (c.start j).2 (c.jobHappenings j) := by
  match j with
  | .deliver (.handler (.dispatch e) d) (.fulfilled (.token t)) =>
    exact (c.written_startExchange d (authorize e t)).congr rfl
  | .deliver (.handler .decode d) (.fulfilled (.response response)) =>
    refine .of_effects ?_ rfl
    dsimp only [start, handle]
    split <;> rfl
  | .deliver (.handler .decode d) (.fulfilled (.json j))
  | .deliver (.handler .decode d) (.fulfilled (.token t))
  | .deliver (.handler .decode d) (.rejected cause)
  | .deliver (.handler (.dispatch e) d) (.fulfilled (.json j))
  | .deliver (.handler (.dispatch e) d) (.fulfilled (.response response))
  | .deliver (.handler (.dispatch e) d) (.rejected cause)
  | .deliver (.adoption p) x | .deliver (.wake a) x | .poll a => exact .of_effects rfl rfl

theorem written_step (c : Client) (mv : Move) : Written c (c.step mv) (c.happenings mv) := by
  cases mv with
  | announce name payload =>
    refine .of_effects ?_ rfl
    dsimp only [step, announce]
    split
    · split <;> rfl
    · rfl
  | request service path settings => exact c.written_request service path settings
  | post service path body =>
    cases body with
    | ok j => exact c.written_request service path (postSettings j)
    | error cause => exact .of_effects rfl rfl
  -- Moves by which nothing is asked for leave the effects alone.
  | await p =>
    refine .of_effects ?_ rfl
    dsimp only [step]
    split <;> rfl
  | complete id reply =>
    dsimp only [step, happenings, takeExchange?]
    rcases Dictionary.find? id c.heldExchanges with _ | r
    · exact .of_effects rfl rfl
    · exact .of_effects (effects_completeExchange _ _ _) (call?_exchangeAnswers _ _)
  | refreshed id reply =>
    dsimp only [step, happenings, takeRefresh?]
    rcases Dictionary.find? id c.heldRefreshes with _ | r
    · exact .of_effects rfl rfl
    · exact .of_effects (effects_completeRefresh _ _ _) (call?_refreshAnswers _ _ _)
  | provider change => exact .of_effects rfl rfl
  | job =>
    dsimp only [step, happenings, job]
    rcases c.machine.next? with _ | ⟨j, m⟩
    · exact .of_effects rfl rfl
    · -- The job is taken from the queue first, which is not one of the effects.
      have hstart := written_start { c with machine := m } j
      exact ⟨hstart.calls, hstart.count⟩

/-- All exchanges that the client called are in the log, in order, and all refreshes. -/
theorem written_moves (c : Client) (ms : List Move) : Written c (c.moves ms) (c.history ms) := by
  induction ms generalizing c with
  | nil => exact .of_effects rfl rfl
  | cons mv ms ih => exact (c.written_step mv).trans (ih (c.step mv))

end Switchboard.Client
