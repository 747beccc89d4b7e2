import Switchboard.Proofs.Client.Moves
import Switchboard.Proofs.Promise.Adoption

/-!
# A client is a session

The promises of a client are those of a session, so what holds of every session holds of the promises
of a client: a callback settles the promise behind it, once, and an outcome stays.

- `Quiet`: a run of a session in which no job is run.
- `Told`: the session beside a client, and what the log says of its callbacks: one that was not called
  can still settle its promise, and one that was called did.
- `Told.startExchange`, `Told.startRefresh`: what is asked for is written down.

## Proof structure

A client carries the machine of its promises, but no record of who registered what and of what was
delivered. A session carries that record. `Told c s log` says that the session `s` has the machine of
the client `c` and that the log agrees with it. Each operation of a client is shown to be a run of the
session that ends in such a pair again. The theorems about sessions then apply as they are, without a
second induction over clients.

The invariant that is about the client itself is in `Entry`. The log has an answer for a callback if and
only if the resolver of the callback was used, and then the promise behind it has the outcome of that
answer. Only the first answer counts on both sides: `answer?` takes the first in the log, and a resolver
that was used does nothing. A callback must belong to one request (`once`), since otherwise an answer to
one would have to be one to the other. And a callback that is kept under a name must have been asked for
(`held`), since its use comes from outside, and only by its name.

None of the operations in this file run a job. A call, a push event or a completed exchange only queues
what is to be done; so their runs are `Quiet`, and what was delivered stays what it was. The file on
accounts treats the jobs.
-/

namespace Switchboard.Client

open Promise (PromiseId ResolverId Settlement Run Reachable)
open Http (Exchange Response)

instance : Promise.Registration Handler where
  handles
    | _, .fulfilled => true
    | _, _ => false

abbrev Session := Promise.Session Payload ClientError Handler Empty

/-- A run from `s` to `t` that starts no job. -/
structure Quiet (s t : Session) : Prop where
  run : Run s t
  calls : t.calls = s.calls
  deliveries : t.deliveries = s.deliveries

/-- What a promise is resolved or rejected with to have this outcome. -/
def outcomeOf : Settlement Payload ClientError → Promise.Outcome Payload ClientError
  | .fulfilled v => .ok (.value v)
  | .rejected e => .error e

/-- The outcome that an answer gives to the promise behind its callback. -/
def Answer.settlement : Answer → Settlement Payload ClientError
  | .refreshed (.error cause) _ => .rejected (.tokenRefresh cause)
  | .refreshed (.ok ()) none => .rejected .missingToken
  | .refreshed (.ok ()) (some t) => .fulfilled (.token t)
  | .exchanged (.error cause) => .rejected (.connection cause)
  | .exchanged (.ok response) => .fulfilled (.response response)

/-- The answer is one to what was asked for. -/
def Answer.Answers : Answer → Ask → Prop
  | .refreshed .., .refresh => True
  | .exchanged _, .exchange _ => True
  | _, _ => False

/-- What the log says of a callback is so in the machine. -/
structure Entry (m : Machine) (log : List Happening) (a : Ask) (r : ResolverId) : Prop where
  used : m.used r = (answer? log r).isSome
  target : ∃ p, m.target? r = some p ∧
    ∀ x, answer? log r = some x → x.Answers a ∧ m.settlement? p = some x.settlement

/-- The callbacks that are kept under names were asked for. -/
structure Held (c : Client) (log : List Happening) : Prop where
  exchanges : ∀ e ∈ c.heldExchanges, ∃ o x, .asked o (.exchange x) e.2 ∈ log
  refreshes : ∀ e ∈ c.heldRefreshes, ∃ o, .asked o .refresh e.2 ∈ log

structure Told (c : Client) (s : Session) (log : List Happening) : Prop where
  reachable : Reachable s
  machine : s.machine = c.machine
  entry : ∀ o a r, .asked o a r ∈ log → Entry c.machine log a r
  /-- A callback is handed out once. -/
  once : ∀ o a o' a' r, .asked o a r ∈ log → .asked o' a' r ∈ log → o = o' ∧ a = a'
  answered : ∀ r x, .answered r x ∈ log → r < c.machine.resolvers.size
  held : Held c log

variable {c c' : Client} {s t u : Session} {log : List Happening} {m m' : Machine}
  {p q : PromiseId} {r : ResolverId} {o : PromiseId} {a : Ask} {x : Answer} {e : Exchange}

/-! ### Runs without jobs

The operations on promises by which the client is built, each as a quiet run. -/

theorem Quiet.refl (s : Session) : Quiet s s := ⟨.refl, rfl, rfl⟩

theorem Quiet.trans (h : Quiet s t) (h' : Quiet t u) : Quiet s u :=
  ⟨h.run.trans h'.run, h'.calls.trans h.calls, h'.deliveries.trans h.deliveries⟩

theorem conclude_outcomeOf (s : Session) (p : PromiseId) (y : Settlement Payload ClientError) :
    s.conclude p (outcomeOf y) = s.settle p y := by
  cases y <;> rfl

theorem known_outcomeOf (m : Machine) (y : Settlement Payload ClientError) :
    (outcomeOf y).Known m := by
  cases y <;> trivial

theorem quiet_defer (s : Session) : Quiet s s.defer := ⟨.single .defer, rfl, rfl⟩

theorem quiet_register (hp : p < s.machine.slots.size) (code : Handler) :
    Quiet s (s.register p code) :=
  ⟨.single (.register hp code), rfl, Promise.Session.deliveries_react _ _ _⟩

theorem size_register (s : Session) (p : PromiseId) (code : Handler) :
    (s.register p code).machine.slots.size = s.machine.slots.size + 1 :=
  (Promise.Machine.size_react _ _ _).trans (Array.size_push _)

theorem quiet_via (hr : s.machine.use? r = some (p, m)) (y : Settlement Payload ClientError) :
    Quiet s ({ s with machine := m }.settle p y) := by
  have hvia : s.via r (outcomeOf y) = { s with machine := m }.settle p y := by
    unfold Promise.Session.via
    rw [hr]
    exact conclude_outcomeOf _ p y
  refine ⟨?_, rfl, Promise.Session.deliveries_settle _ _ _⟩
  rw [← hvia]
  exact .single (.via r (known_outcomeOf _ y))

/-! ### The log

The answer of a callback is the first in the log. What is logged later can only give an answer to a
callback that has none yet. -/

theorem answer?_append (log log' : List Happening) (r : ResolverId) :
    answer? (log ++ log') r = (answer? log r).or (answer? log' r) :=
  List.findSome?_append

@[simp] theorem answer?_asked (o : PromiseId) (a : Ask) (r' r : ResolverId) :
    answer? [.asked o a r'] r = none := rfl

theorem answer?_answered (r' : ResolverId) (x : Answer) (r : ResolverId) :
    answer? [.answered r' x] r = if r' = r then some x else none := by
  unfold answer? Happening.answer?
  rw [List.findSome?_singleton]

theorem answer?_eq_none (h : ∀ x, .answered r x ∉ log) : answer? log r = none := by
  unfold answer?
  rw [List.findSome?_eq_none_iff]
  intro y hy
  cases y with
  | asked => rfl
  | answered r' x =>
    refine if_neg ?_
    rintro rfl
    exact h x hy

/-! ### What the log says

The two ways in which a log grows. Something is asked for, with a new callback, of which the log cannot
know an answer; or a callback is called, for the first time or again. -/

/-- What is known of a callback stays true. -/
theorem Entry.keep (h : Entry m log a r) {log' : List Happening}
    (htarget : m'.target? r = m.target? r) (hused : m'.used r = m.used r)
    (hset : ∀ p y, m.settlement? p = some y → m'.settlement? p = some y)
    (hlog : answer? log' r = answer? log r) : Entry m' log' a r := by
  obtain ⟨p, hp, hanswer⟩ := h.target
  refine ⟨?_, p, htarget.trans hp, fun x hx => ?_⟩
  · rw [hused, hlog, h.used]
  · obtain ⟨hfits, hsettled⟩ := hanswer x (hlog ▸ hx)
    exact ⟨hfits, hset p _ hsettled⟩

theorem Entry.lt (h : Entry m log a r) : r < m.resolvers.size := by
  obtain ⟨p, hp, -⟩ := h.target
  exact Promise.Machine.lt_of_target? hp

theorem Held.append (h : Held c log) (new : List Happening) : Held c (log ++ new) where
  exchanges := fun e he => (h.exchanges e he).imp fun _ => .imp fun _ => List.mem_append_left _
  refreshes := fun e he => (h.refreshes e he).imp fun _ => List.mem_append_left _

/-- The session went on, and so did the client; no callback was called or handed out. -/
theorem Told.update (h : Told c s log) (hrun : Run s t) (hm : t.machine = c'.machine)
    (hres : c'.machine.resolvers = c.machine.resolvers) (hheld : Held c' log) : Told c' t log := by
  have hset := (hrun.keeps h.reachable).settlement?
  rw [h.machine, hm] at hset
  refine ⟨h.reachable.trans hrun, hm, fun o a r ha => ?_, h.once, fun r x hx => ?_, hheld⟩
  · exact (h.entry o a r ha).keep (Promise.Machine.target?_congr hres r)
      (Promise.Machine.used_congr hres r) hset rfl
  · rw [hres]
    exact h.answered r x hx

theorem Told.same (h : Told c s log) (hm : c'.machine = c.machine)
    (hexchanges : c'.heldExchanges = c.heldExchanges)
    (hrefreshes : c'.heldRefreshes = c.heldRefreshes) : Told c' s log :=
  h.update .refl (h.machine.trans hm.symm) (congrArg _ hm)
    ⟨hexchanges ▸ h.held.exchanges, hrefreshes ▸ h.held.refreshes⟩

theorem Told.move (h : Told c s log) (hrun : Run s t) (hm : t.machine = m)
    (hres : m.resolvers = c.machine.resolvers) : Told { c with machine := m } t log :=
  h.update hrun hm hres ⟨h.held.exchanges, h.held.refreshes⟩

theorem answer?_append_asked (log : List Happening) (o : PromiseId) (a : Ask) (r' r : ResolverId) :
    answer? (log ++ [.asked o a r']) r = answer? log r := by
  rw [answer?_append, answer?_asked, Option.or_none]

/-- A callback that was handed out before is not the new one. -/
theorem Entry.defer (h : Entry m log a r) (o : PromiseId) (a' : Ask) :
    Entry m.defer.2.2 (log ++ [.asked o a' m.resolvers.size]) a r := by
  have hr : r ≠ m.resolvers.size := Nat.ne_of_lt h.lt
  refine h.keep ?_ ?_ (fun p y hy => ?_) (answer?_append_asked ..)
  · rw [Promise.Machine.target?_defer, if_neg hr]
  · rw [Promise.Machine.used_defer, if_neg hr]
  · rwa [Promise.Machine.settlement?_defer]

/-- The new callback was not called. -/
theorem entry_defer (hnone : answer? log m.resolvers.size = none) (o : PromiseId) (a : Ask) :
    Entry m.defer.2.2 (log ++ [.asked o a m.resolvers.size]) a m.resolvers.size := by
  refine ⟨?_, m.slots.size, ?_, fun x hx => ?_⟩
  · rw [Promise.Machine.used_defer, if_pos rfl, answer?_append_asked, hnone]
    rfl
  · rw [Promise.Machine.target?_defer, if_pos rfl]
  · rw [answer?_append_asked, hnone] at hx
    cases hx

/-- Something is asked for: there is a promise for it, and a callback. -/
theorem Told.ask (h : Told c s log) (o : PromiseId) (a : Ask) :
    ∃ t, Quiet s t ∧
      Told { c with machine := c.machine.defer.2.2 } t
        (log ++ [.asked o a c.machine.resolvers.size]) := by
  have hnone : answer? log c.machine.resolvers.size = none :=
    answer?_eq_none fun x hx => Nat.lt_irrefl _ (h.answered _ x hx)
  have hasked {o' a' r} (ha : .asked o' a' r ∈ log ++ [.asked o a c.machine.resolvers.size]) :
      .asked o' a' r ∈ log ∧ r < c.machine.resolvers.size ∨
        o' = o ∧ a' = a ∧ r = c.machine.resolvers.size := by
    rcases List.mem_append.mp ha with ha | ha
    · exact .inl ⟨ha, (h.entry o' a' r ha).lt⟩
    · exact .inr (by simpa using ha)
  refine ⟨s.defer, quiet_defer s, h.reachable.tail .defer, ?_, ?_, ?_, ?_,
    ⟨(h.held.append _).exchanges, (h.held.append _).refreshes⟩⟩
  · show (s.create.openResolver _).machine = _
    rw [← h.machine]
    rfl
  · intro o' a' r ha
    rcases hasked ha with ⟨ha, -⟩ | ⟨rfl, rfl, rfl⟩
    · exact (h.entry o' a' r ha).defer o a
    · exact entry_defer hnone _ _
  · -- Two that ask with one callback are both old, or both the new one.
    intro o₁ a₁ o₂ a₂ r h₁ h₂
    rcases hasked h₁ with ⟨h₁, hlt⟩ | ⟨rfl, rfl, hr⟩ <;>
      rcases hasked h₂ with ⟨h₂, hlt'⟩ | ⟨rfl, rfl, hr'⟩
    · exact h.once o₁ a₁ o₂ a₂ r h₁ h₂
    · exact absurd hr' (Nat.ne_of_lt hlt)
    · exact absurd hr (Nat.ne_of_lt hlt')
    · exact ⟨rfl, rfl⟩
  · intro r x hx
    have hlt := h.answered r x (by simpa using hx)
    show r < (c.machine.resolvers.push _).size
    rw [Array.size_push]
    omega

theorem answer?_concat (log : List Happening) (r r' : ResolverId) (x : Answer) :
    answer? (log ++ [.answered r x]) r' = (answer? log r').or (if r = r' then some x else none) := by
  rw [answer?_append, answer?_answered]

/-- A call of a callback is written down. -/
theorem Told.write (h : Told c s log) (hr : r < c.machine.resolvers.size) (hrun : Run s t)
    (hm : t.machine = m) (hsize : m.resolvers.size = c.machine.resolvers.size)
    (hentry : ∀ o a r', .asked o a r' ∈ log → Entry m (log ++ [.answered r x]) a r') :
    Told { c with machine := m } t (log ++ [.answered r x]) := by
  have hasked {o' a' r'} (h' : .asked o' a' r' ∈ log ++ [.answered r x]) : .asked o' a' r' ∈ log := by
    simpa using h'
  refine ⟨h.reachable.trans hrun, hm, fun o a r' ha => hentry o a r' (hasked ha), ?_, ?_,
    ⟨(h.held.append _).exchanges, (h.held.append _).refreshes⟩⟩
  · intro o₁ a₁ o₂ a₂ r' h₁ h₂
    exact h.once o₁ a₁ o₂ a₂ r' (hasked h₁) (hasked h₂)
  · intro r' y hy
    show r' < m.resolvers.size
    rw [hsize]
    rcases List.mem_append.mp hy with hy | hy
    · exact h.answered r' y hy
    · obtain ⟨rfl, -⟩ : r' = r ∧ y = x := by simpa using hy
      exact hr

/-- The first call settles the promise behind the callback. -/
theorem Told.answer_first (h : Told c s log) (ha : .asked o a r ∈ log) (hx : x.Answers a)
    (hp : c.machine.target? r = some p) (hfirst : answer? log r = none)
    (hm : c.machine.use? r = some (p, m)) :
    ∃ t, Quiet s t ∧ Told { c with machine := m.settle p x.settlement } t
      (log ++ [.answered r x]) := by
  have hm' : s.machine.use? r = some (p, m) := h.machine ▸ hm
  have hquiet := quiet_via hm' x.settlement
  have hset := (hquiet.run.keeps h.reachable).settlement?
  rw [h.machine] at hset
  have hsettled : (m.settle p x.settlement).settlement? p = some x.settlement :=
    ((h.reachable.sound.use hm').settlement?_settle x.settlement p).trans (if_pos rfl)
  have htarget (r' : ResolverId) : (m.settle p x.settlement).target? r' = c.machine.target? r' := by
    rw [Promise.Machine.target?, Promise.Machine.resolvers_settle]
    exact Promise.Machine.target?_use hm r'
  have hused (r' : ResolverId) :
      (m.settle p x.settlement).used r' = if r = r' then true else c.machine.used r' := by
    rw [Promise.Machine.used, Promise.Machine.resolvers_settle]
    exact Promise.Machine.used_use hm r'
  have hsize : (m.settle p x.settlement).resolvers.size = c.machine.resolvers.size := by
    obtain ⟨-, rfl⟩ := Promise.Machine.use?_eq_some hm
    rw [Promise.Machine.resolvers_settle, Array.size_setIfInBounds]
  -- One entry is about this callback, and the others are about callbacks that were not touched.
  refine ⟨_, hquiet, h.write (h.entry o a r ha).lt hquiet.run rfl hsize fun o' a' r' h' => ?_⟩
  by_cases hr : r = r'
  · subst hr
    obtain ⟨-, rfl⟩ := h.once _ _ _ _ _ ha h'
    have hnow : answer? (log ++ [.answered r x]) r = some x := by
      rw [answer?_concat, hfirst, if_pos rfl]
      rfl
    refine ⟨?_, p, (htarget r).trans hp, fun y hy => ?_⟩
    · rw [hused, if_pos rfl, hnow]
      rfl
    · obtain rfl := Option.some.inj (hnow.symm.trans hy)
      exact ⟨hx, hsettled⟩
  · -- Other callbacks are as they were, and outcomes stay.
    refine (h.entry o' a' r' h').keep (htarget r') ?_ hset ?_
    · rw [hused, if_neg hr]
    · rw [answer?_concat, if_neg hr, Option.or_none]

/-- A callback is called. Only the first time counts. -/
theorem Told.answer (h : Told c s log) (ha : .asked o a r ∈ log) (hx : x.Answers a) :
    ∃ t, Quiet s t ∧ Told (c.settleVia r x.settlement) t (log ++ [.answered r x]) := by
  have hentry := h.entry o a r ha
  obtain ⟨p, hp, -⟩ := hentry.target
  unfold settleVia
  rcases hfirst : answer? log r with _ | y
  · have hunused : c.machine.used r = false := by
      rw [hentry.used, hfirst]
      rfl
    obtain ⟨m, hm⟩ := Promise.Machine.use?_of_unused hp hunused
    rw [hm]
    exact h.answer_first ha hx hp hfirst hm
  · -- The callback was called before: the machine ignores it, and the log keeps its first answer.
    have hused : c.machine.used r = true := by
      rw [hentry.used, hfirst]
      rfl
    rw [Promise.Machine.use?_of_used hused]
    refine ⟨s, .refl s, h.write hentry.lt .refl h.machine rfl fun o' a' r' h' => ?_⟩
    refine (h.entry o' a' r' h').keep rfl rfl (fun _ _ hy => hy) ?_
    rw [answer?_concat]
    by_cases hr : r = r'
    · subst hr
      rw [hfirst]
      rfl
    · rw [if_neg hr, Option.or_none]

/-! ### What is asked for

A reply uses the callback, keeps it under a name or drops it. The lemmas are about a callback that was
asked for, whoever has it by then: a reply that comes at once is completed by the same operation as one
that comes out of the store of held callbacks. -/

theorem Told.lose (h : Told c s log) (r : ResolverId) : Told (c.lose r) s log := by
  unfold Client.lose
  split
  · exact h.same rfl rfl rfl
  · exact h

theorem Told.replaced (h : Told c s log) (old : Option ResolverId) :
    Told (c.replaced old) s log := by
  cases old with
  | none => exact h
  | some r => exact h.lose r

/-- What a reply does to the callback of an exchange. -/
theorem Told.completeExchange (h : Told c s log) (ha : .asked o (.exchange e) r ∈ log)
    (reply : Reply) :
    ∃ t, Quiet s t ∧ Told (c.completeExchange r reply) t (log ++ exchangeAnswers r reply) := by
  cases reply with
  | complete result =>
    have hanswer := h.answer (x := .exchanged result) ha trivial
    cases result <;> exact hanswer
  | hold id =>
    have hlost := h.replaced (Dictionary.find? id c.heldExchanges)
    refine ⟨s, .refl s, ?_⟩
    rw [completeExchange_hold, show exchangeAnswers r (.hold id) = [] from rfl, List.append_nil]
    refine hlost.update .refl hlost.machine rfl ⟨fun e' he' => ?_, hlost.held.refreshes⟩
    rcases Dictionary.mem_insert he' with rfl | he'
    · exact ⟨o, e, ha⟩
    · exact hlost.held.exchanges e' he'
  | drop =>
    rw [show exchangeAnswers r .drop = [] from rfl, List.append_nil]
    exact ⟨s, .refl s, h.lose r⟩

/-- The use of a refresh callback looks for the token after the provider was given one. -/
theorem completeRefresh_complete (c : Client) (r : ResolverId) (token : Option (Option BearerToken))
    (result : Except String Unit) :
    c.completeRefresh r (.complete token result) =
      (c.given token).settleVia r (Answer.refreshed result (c.given token).held?).settlement := by
  rcases result with cause | _
  · cases token <;> rfl
  · -- Which of the two it is depends on the provider after it was given the token.
    unfold completeRefresh
    dsimp only
    split
    · rename_i t ht
      have hheld : (c.given token).held? = some t := by cases token <;> exact ht
      rw [hheld]
      cases token <;> rfl
    · rename_i ht
      have hheld : (c.given token).held? = none := by cases token <;> exact ht
      rw [hheld]
      cases token <;> rfl

theorem Told.given (h : Told c s log) (token : Option (Option BearerToken)) :
    Told (c.given token) s log := by
  cases token with
  | none => exact h
  | some t => exact h.same rfl rfl rfl

/-- What a reply does to the callback of a refresh. -/
theorem Told.completeRefresh (h : Told c s log) (ha : .asked o .refresh r ∈ log)
    (reply : RefreshReply) :
    ∃ t, Quiet s t ∧ Told (c.completeRefresh r reply) t (log ++ c.refreshAnswers r reply) := by
  cases reply with
  | complete token result =>
    rw [completeRefresh_complete]
    exact (h.given token).answer (x := .refreshed result (c.given token).held?) ha trivial
  | hold id =>
    have hlost := h.replaced (Dictionary.find? id c.heldRefreshes)
    refine ⟨s, .refl s, ?_⟩
    rw [completeRefresh_hold, show c.refreshAnswers r (.hold id) = [] from rfl, List.append_nil]
    refine hlost.update .refl hlost.machine rfl ⟨hlost.held.exchanges, fun e' he' => ?_⟩
    rcases Dictionary.mem_insert he' with rfl | he'
    · exact ⟨o, ha⟩
    · exact hlost.held.refreshes e' he'
  | drop =>
    rw [show c.refreshAnswers r .drop = [] from rfl, List.append_nil]
    exact ⟨s, .refl s, h.lose r⟩

/-- What is asked for has a promise of its own. -/
theorem target?_of_ask (h : Told { c with machine := c.machine.defer.2.2 } s log) (hrun : Run s t) :
    t.machine.target? c.machine.resolvers.size = some c.machine.slots.size ∧
      c.machine.slots.size < t.machine.slots.size := by
  have hmachine : s.machine = c.machine.defer.2.2 := h.machine
  constructor
  · refine (Promise.Run.transfers hrun).target?_of_some ?_
    rw [hmachine, Promise.Machine.target?_defer, if_pos rfl]
  · refine Nat.lt_of_lt_of_le ?_ (Promise.Run.transfers hrun).size_le
    rw [hmachine, Promise.Machine.size_defer]
    exact Nat.lt_succ_self _

theorem Told.register (h : Told c s log) (hp : p < s.machine.slots.size) (code : Handler) :
    Told { c with machine := (c.machine.register p code).2 } (s.register p code) log := by
  refine h.move (quiet_register hp code).run ?_ (Promise.Machine.resolvers_react _ _ _)
  rw [← h.machine]
  rfl

/-- The dependent of a registration is the promise that it makes. -/
theorem mem_registered_register (s : Session) (p : PromiseId) (code : Handler) :
    .handler code s.machine.slots.size ∈ (s.register p code).registered p := by
  rw [Promise.Session.mem_registered, Promise.Session.register,
    Promise.Session.registrations_react]
  exact List.mem_append_right _ (List.mem_singleton_self _)

theorem Told.called (h : Told c s log) (o : PromiseId) (e : Exchange) :
    ∃ t, Quiet s t ∧ Told (c.called e) t (log ++ c.exchangeHappenings o e) ∧
      t.machine.target? c.machine.resolvers.size = some c.machine.slots.size ∧
      c.machine.slots.size < t.machine.slots.size := by
  obtain ⟨s₁, hask, h₁⟩ := h.ask o (.exchange e)
  have hcalled : Told { c with
      machine := c.machine.defer.2.2
      transport := c.transport.tail
      effects := .call e :: c.effects } s₁ _ := h₁.same rfl rfl rfl
  obtain ⟨s₂, hcomplete, h₂⟩ := hcalled.completeExchange
    (List.mem_append_right _ (List.mem_singleton_self _)) (c.transport.head?.getD defaultReply)
  rw [List.append_assoc] at h₂
  exact ⟨s₂, hask.trans hcomplete, h₂, target?_of_ask h₁ hcomplete.run⟩

/-- An exchange is asked for, and its promise gets a decoder. -/
theorem Told.startExchange (h : Told c s log) (o : PromiseId) (e : Exchange) :
    ∃ t, Quiet s t ∧ Told (c.startExchange e).2 t (log ++ c.exchangeHappenings o e) ∧
      c.machine.slots.size < (c.startExchange e).1 ∧
      (c.startExchange e).1 < t.machine.slots.size ∧
      ∃ p, t.machine.target? c.machine.resolvers.size = some p ∧
        .handler .decode (c.startExchange e).1 ∈ t.registered p := by
  obtain ⟨s₁, hquiet, h₁, htarget, hlt⟩ := h.called o e
  have hregister := quiet_register hlt .decode
  rw [startExchange_eq, ← h₁.machine]
  refine ⟨s₁.register c.machine.slots.size .decode, hquiet.trans hregister, ?_, hlt, ?_,
    c.machine.slots.size, ?_, mem_registered_register _ _ _⟩
  · rw [h₁.machine]
    exact h₁.register hlt .decode
  · rw [size_register]
    exact Nat.lt_succ_self _
  · exact (Promise.Run.transfers hregister.run).target?_of_some htarget

/-- What a refresh finds is the token that the provider holds, not what it will reply later. -/
theorem refreshAnswers_of_scripted {authenticated authenticated' : Bool} {token : Option BearerToken}
    {replies replies' : List RefreshReply}
    (h : c.provider = some (.scripted authenticated token replies))
    (h' : c'.provider = some (.scripted authenticated' token replies')) (r : ResolverId)
    (reply : RefreshReply) : c'.refreshAnswers r reply = c.refreshAnswers r reply := by
  rcases reply with ⟨_ | t, result⟩ | _ | _
  · simp [refreshAnswers, Client.given, held?, h, h', Provider.token?]
  · simp [refreshAnswers, Client.given, held?, updateProvider, h, h', Provider.setToken,
      Provider.token?]
  · rfl
  · rfl

/-- A refresh is asked for. -/
theorem Told.startRefresh (h : Told c s log) (o : PromiseId) (provider : Provider)
    (hprovider : c.provider = some provider) :
    ∃ t, Quiet s t ∧ Told (c.startRefresh provider).2 t (log ++ c.refreshHappenings o provider) ∧
      (c.startRefresh provider).1 = c.machine.slots.size ∧
      c.machine.slots.size < t.machine.slots.size ∧
      t.machine.target? c.machine.resolvers.size = some c.machine.slots.size := by
  obtain ⟨s₁, hask, h₁⟩ := h.ask o .refresh
  have hmem : .asked o .refresh c.machine.resolvers.size ∈
      log ++ [.asked o .refresh c.machine.resolvers.size] :=
    List.mem_append_right _ (List.mem_singleton_self _)
  -- A provider without a script replies at once. One with a script is asked, which is an effect, and
  -- replies with the next line of the script.
  have hcomplete : ∃ t, Quiet s₁ t ∧ Told (c.startRefresh provider).2 t
      (log ++ c.refreshHappenings o provider) := by
    cases provider with
    | fixed t =>
      obtain ⟨s₂, hquiet, h₂⟩ := h₁.completeRefresh hmem defaultRefresh
      rw [List.append_assoc] at h₂
      exact ⟨s₂, hquiet, h₂⟩
    | scripted authenticated token replies =>
      have hasked : Told { c with
          machine := c.machine.defer.2.2
          provider := some (.scripted authenticated token replies.tail)
          effects := .refresh c.defaults.refreshInterval :: c.effects } s₁ _ := h₁.same rfl rfl rfl
      obtain ⟨s₂, hquiet, h₂⟩ := hasked.completeRefresh hmem (replies.head?.getD defaultRefresh)
      rw [refreshAnswers_of_scripted hprovider rfl, List.append_assoc] at h₂
      exact ⟨s₂, hquiet, h₂⟩
  obtain ⟨s₂, hquiet, h₂⟩ := hcomplete
  obtain ⟨htarget, hlt⟩ := target?_of_ask h₁ hquiet.run
  exact ⟨s₂, hask.trans hquiet, h₂, by cases provider <;> rfl, hlt, htarget⟩

/-- A promise that is rejected from the start. -/
theorem Told.fail (h : Told c s log) (cause : ClientError) :
    ∃ t, Quiet s t ∧ Told (c.fail cause).2 t log ∧ (c.fail cause).1 = c.machine.slots.size ∧
      t.machine.settlement? c.machine.slots.size = some (.rejected cause) ∧
      c.machine.slots.size < t.machine.slots.size := by
  have hquiet : Quiet s (s.make (some (.rejected cause))) :=
    ⟨.single (.make _), rfl, Promise.Session.deliveries_settle _ _ _⟩
  have hmachine : (s.make (some (.rejected cause))).machine = (c.fail cause).2.machine := by
    show s.machine.create.2.settle s.machine.slots.size _ = _
    rw [h.machine]
    rfl
  have hsettled : (s.make (some (.rejected cause))).machine.settlement? s.machine.slots.size =
      some (.rejected cause) :=
    ((h.reachable.sound.create).settlement?_settle _ _).trans (if_pos rfl)
  refine ⟨_, hquiet, h.update hquiet.run hmachine (Promise.Machine.resolvers_settle _ _ _)
    ⟨h.held.exchanges, h.held.refreshes⟩, rfl, ?_, ?_⟩
  · rwa [h.machine] at hsettled
  · rw [hmachine]
    exact Nat.lt_of_lt_of_eq (by simp) (Promise.Machine.size_settle _ _ _).symm

/-! ### Those who wait

Awaits have no part in what is written down; they only learn outcomes. -/

/-- Awaits that are told of a loss change no promise. -/
theorem Told.tellLost (h : Told c s log) : ∃ t, Quiet s t ∧ Told c.tellLost t log := by
  obtain ⟨t, hquiet, hmachine, hres⟩ := c.tellLost_keeps
    (P := fun m => ∃ t, Quiet s t ∧ t.machine = m ∧ m.resolvers = c.machine.resolvers)
    ⟨s, .refl s, h.machine, rfl⟩ fun m p ⟨t, hquiet, hmachine, hres⟩ =>
      ⟨t.abandon p, hquiet.trans ⟨.single (.abandon p), rfl, rfl⟩, congrArg (·.abandon p) hmachine,
        (Promise.Machine.alike_abandon m p).resolvers.trans hres⟩
  exact ⟨t, hquiet, h.move hquiet.run hmachine hres⟩

theorem Told.await (h : Told c s log) (hp : p < c.machine.slots.size) :
    ∃ t, Quiet s t ∧ Told (c.await p).2 t log := by
  have hquiet : Quiet s (s.awaitApart p) :=
    ⟨Promise.run_awaitApart (h.machine ▸ hp), rfl, Promise.Session.deliveries_record_of_none rfl⟩
  have hmachine : (s.awaitApart p).machine = (c.machine.awaitApart p).2 := by
    show (s.machine.awaitApart p).2 = _
    rw [h.machine]
  have hres : (c.machine.awaitApart p).2.resolvers = c.machine.resolvers :=
    Promise.Machine.resolvers_react { c.machine with
      awaits := c.machine.awaits.push ⟨none, false, false⟩ } p (.wake c.machine.awaits.size)
  obtain ⟨t, hquiet', ht⟩ := (h.move hquiet.run hmachine hres).tellLost
  exact ⟨t, hquiet.trans hquiet', ht⟩

end Switchboard.Client
