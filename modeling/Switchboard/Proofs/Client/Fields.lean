import Switchboard.Proofs.Client.Lifecycle
import Switchboard.Proofs.Client.Ownership
import Switchboard.Proofs.Client.Topology
import Switchboard.Proofs.Http.Headers

/-!
# The header fields that are sent

A header field has up to four sources: the token, which is there only after the refresh; the content of
a request with a body; the call; and the configuration. The spellings of a name differ from one source
to the next, and the first source that has a value for the name wins.

- `sentField`: the value that the sources give to a name.
- `get?_prepare`, `get?_authorize`: what is found before the refresh, and after it.
- `exchange_fields`: every exchange that is started, by the call that it was started for.

The value of a name is stated as an alternative of the four sources in the order of their rank, and
holds for every name at once, in every spelling. So it also says which fields are not there. In the
program the sources come one after the other, each written over the last one, and the token only when
the handler of the refresh runs. The laws of overlaying and of insertion turn the order of writing into
the order of rank.

Which call an exchange belongs to is known from its owner. The token is the one that the refresh of that
call brought, and not the one that the provider holds when the exchange starts: the course of the
request names the callback of its refresh and what it was called with.
-/

namespace Switchboard.Client

open Promise (PromiseId ResolverId Settlement)
open Http (Exchange Headers Method)

/-- The value that a name is sent with: that of the token, else that of the content of a request with a
body, else that of the call, else that of the configuration. -/
def sentField (token : Option BearerToken) (method : Method) (call configured : Headers)
    (env : Settings.Environment) (n : String) : Option String :=
  (if Text.sameName "Authorization" n then token.map fun t => "Bearer " ++ t.secret else none).or <|
    (if Text.sameName "Content-Type" n ∧ method ∈ [.post, .put, .patch] then some "application/json"
      else none).or <|
    (call.get? n).or <| (configured.get? n).map (Settings.expand env)

variable {c : Client} {service path : String} {settings : RequestSettings} {e : Exchange}
  {log : List Happening} {d : PromiseId} {r : ResolverId} {busy : Prop}
  {x : Option (Settlement Payload ClientError)}

/-! ### One exchange

The two steps in which the fields of an exchange are put together. -/

theorem carriesBody_iff (method : Method) :
    method.carriesBody = true ↔ method ∈ [.post, .put, .patch] := by
  cases method <;> decide

/-- Before the refresh there is no token. -/
theorem get?_prepare (s : ClientSettings) (env : Settings.Environment) (server : Address)
    (path : String) (settings : RequestSettings) (n : String) :
    (prepare (.ofSettings s env) server path settings).headers.get? n =
      sentField none (settings.method.getD s.method) settings.headers s.headers env n := by
  have hlayers : ((s.expandedHeaders env).overlay settings.headers).get? n =
      (settings.headers.get? n).or ((s.headers.get? n).map (Settings.expand env)) := by
    rw [Headers.get?_overlay, ClientSettings.expandedHeaders, Headers.get?_mapValues]
  unfold prepare sentField Defaults.ofSettings
  dsimp only
  rw [Option.map_none, ite_self, Option.none_or]
  by_cases hbody : (settings.method.getD s.method).carriesBody = true
  · rw [if_pos hbody, Headers.get?_insert, hlayers]
    simp only [(carriesBody_iff _).mp hbody, and_true]
  · have hplain : ¬ (Text.sameName "Content-Type" n = true ∧
        settings.method.getD s.method ∈ [.post, .put, .patch]) := by
      rintro ⟨-, hmem⟩
      exact hbody ((carriesBody_iff _).mpr hmem)
    rw [if_neg hbody, hlayers, if_neg hplain, Option.none_or]

/-- With its token an exchange carries what it carried, under all other names. -/
theorem get?_authorize {method : Method} {call configured : Headers} {env : Settings.Environment}
    {n : String} (h : e.headers.get? n = sentField none method call configured env n)
    (t : BearerToken) :
    (authorize e t).headers.get? n = sentField (some t) method call configured env n := by
  unfold authorize
  rw [Headers.get?_insert, h]
  unfold sentField
  rw [Option.map_none, ite_self, Option.none_or]
  rfl

/-! ### One call

The plan of a call and the course of its request, as far as they fix the fields. -/

theorem plan_eq_exchange (h : c.plan service path settings = .exchange e) :
    c.provider = none ∧ ∃ server, e = prepare c.defaults server path settings := by
  unfold plan at h
  split at h
  · cases h
  · rename_i server _
    split at h
    · rename_i hprovider
      obtain rfl := Plan.exchange.inj h
      exact ⟨hprovider, server, rfl⟩
    · split at h <;> cases h

theorem plan_eq_refresh (h : c.plan service path settings = .refresh e) :
    c.provider.isSome = true ∧ ∃ server, e = prepare c.defaults server path settings := by
  unfold plan at h
  split at h
  · cases h
  · rename_i server _
    split at h
    · cases h
    · rename_i provider hprovider
      split at h
      · obtain rfl := Plan.refresh.inj h
        exact ⟨by rw [hprovider]; rfl, server, rfl⟩
      · cases h

/-- The exchange of a call is the one that was prepared for it, with the token that its refresh brought
if there is a provider. -/
theorem Course.exchange {rs : List ResolverId} {es : List (Exchange × ResolverId)}
    (h : Course log busy (c.plan service path settings) rs es x) (he : (e, r) ∈ es) :
    ∃ server, (c.provider = none ∧ e = prepare c.defaults server path settings) ∨
      ∃ t r', c.provider.isSome = true ∧ rs = [r'] ∧
        answer? log r' = some (.refreshed (.ok ()) (some t)) ∧
        e = authorize (prepare c.defaults server path settings) t := by
  generalize hplan : c.plan service path settings = pl at h
  cases h with
  | exchanged =>
    obtain ⟨hprovider, server, rfl⟩ := plan_eq_exchange hplan
    obtain ⟨rfl, -⟩ := Prod.mk.inj (List.mem_singleton.mp he)
    exact ⟨server, .inl ⟨hprovider, rfl⟩⟩
  | dispatched hanswer =>
    obtain ⟨hprovider, server, rfl⟩ := plan_eq_refresh hplan
    obtain ⟨rfl, -⟩ := Prod.mk.inj (List.mem_singleton.mp he)
    exact ⟨server, .inr ⟨_, _, hprovider, rfl, hanswer, rfl⟩⟩
  | failed | refreshing | refreshFailed | missingToken | due => cases he

/-- A call takes its course in every run that it is made in, from when nothing was asked for, and its
promise shows how far it is. -/
theorem books_of_request (c : Client) {s : Session} (h : Books c s []) {ms before after : List Move}
    {mv : Move} {k : Request} (hms : ms = before ++ mv :: after) (hcall : mv.request? = some k) :
    let here := c.moves before
    let log := c.history ms
    ∃ t x, Books (c.moves ms) t log ∧
      Course log (t.machine.queue ≠ []) (here.plan k.service k.path k.settings)
        (refreshes (k.promise here) log) (exchanges (k.promise here) log) x ∧
      Shows t.machine (k.promise here) x := by
  intro here log
  -- The run falls into what comes before the call, the call, and what comes after it.
  obtain ⟨s₀, h₀⟩ := h.moves before
  obtain ⟨s₁, -, h₁, -, -, haccount⟩ := h₀.books.request k.service k.path k.settings
  obtain ⟨t, ht⟩ := h₁.moves after
  obtain ⟨hstep, hhappenings⟩ := step_of_request here hcall
  have hlog : log = [] ++ c.history before ++
      here.requestHappenings k.service k.path k.settings ++
      ((here.request k.service k.path k.settings).2).history after := by
    rw [List.nil_append, List.append_assoc, ← hhappenings, ← hstep]
    exact (congrArg c.history hms).trans (c.history_append before _)
  have hc : c.moves ms = ((here.request k.service k.path k.settings).2).moves after := by
    rw [← hstep]
    exact (congrArg c.moves hms).trans (c.moves_append before _)
  obtain ⟨x, hcourse, hshows⟩ := (ht.account _ _ haccount).course ht.books
  rw [hc, hlog]
  exact ⟨t, x, ht.books, hcourse, hshows⟩

theorem course_of_request (c : Client) {s : Session} (h : Books c s []) {ms before after : List Move}
    {mv : Move} {k : Request} (hms : ms = before ++ mv :: after) (hcall : mv.request? = some k) :
    let here := c.moves before
    let log := c.history ms
    ∃ busy x, Course log busy (here.plan k.service k.path k.settings)
      (refreshes (k.promise here) log) (exchanges (k.promise here) log) x := by
  intro here log
  obtain ⟨t, x, -, hcourse, -⟩ := c.books_of_request h hms hcall
  exact ⟨_, x, hcourse⟩

/-! ### All exchanges

Every exchange of a run is found in the log with an owner, and the owner is the promise of a call. -/

/-- **The header fields that are sent.** Every exchange that is started is that of a call that was made.
It has the call's method and body. Under each name, in whatever spelling, its header fields have what
the token gives that the provider held when the refresh of that call completed, if there is a provider;
else what a request with a body says of its content; else what the call says; else what the
configuration says, with its environment references replaced. No name is there twice, and what calls
inherit from the configuration is the same after any run. -/
theorem exchange_fields (s : ClientSettings) (env : Settings.Environment)
    (provider : Option Provider) (transport : List Reply) (ms : List Move) :
    let start := ofSettings s env provider transport
    let log := start.history ms
    (start.moves ms).calls = log.filterMap Happening.call? ∧
      (start.moves ms).defaults = .ofSettings s env ∧
      ∀ o e r, .asked o (.exchange e) r ∈ log →
        ∃ before mv after k token, ms = before ++ mv :: after ∧ mv.request? = some k ∧
          k.promise (start.moves before) = o ∧
          token.isSome = provider.isSome ∧
          (∀ t, token = some t → ∃ r', .asked o .refresh r' ∈ log ∧
            answer? log r' = some (.refreshed (.ok ()) (some t))) ∧
          e.method = k.settings.method.getD s.method ∧
          e.body = k.settings.body ∧
          e.headers.entries.Pairwise (fun x y => Text.sameName x.1 y.1 = false) ∧
          ∀ n, e.headers.get? n = sentField token e.method k.settings.headers s.headers env n := by
  intro start log
  refine ⟨(start.written_moves ms).calls, (start.topology_moves ms).2, ?_⟩
  intro o e r ha
  -- Nobody waits at the beginning, so the exchange is that of a call.
  have hnone : ¬ Waits start.machine o := by
    rintro ⟨e, he⟩
    cases he
  obtain ⟨before, mv, after, k, hms, hcall, rfl⟩ := (asked_moves ha).resolve_left hnone
  obtain ⟨busy, x, hcourse⟩ := start.course_of_request (books_init _ _ _) hms hcall
  obtain ⟨server, hexchange⟩ := hcourse.exchange (mem_exchanges.mpr ha)
  have hdefaults : (start.moves before).defaults = .ofSettings s env :=
    (start.topology_moves before).2
  have hprovider : (start.moves before).provider.isSome = provider.isSome :=
    start.provider_moves before
  rw [hdefaults] at hexchange
  rcases hexchange with ⟨hnone, rfl⟩ | ⟨t, r', hsome, hrefreshes, hanswer, rfl⟩
  · refine ⟨before, mv, after, k, none, hms, hcall, rfl, ?_, by simp, rfl, rfl,
      Headers.distinct _, ?_⟩
    · rw [← hprovider, hnone]
      rfl
    · intro n
      exact get?_prepare s env server k.path k.settings n
  · refine ⟨before, mv, after, k, some t, hms, hcall, rfl, ?_, ?_, rfl, rfl,
      Headers.distinct _, ?_⟩
    · rw [← hprovider, hsome]
      rfl
    · intro t' ht
      obtain rfl := Option.some.inj ht
      exact ⟨r', mem_refreshes.mp (hrefreshes ▸ List.mem_singleton_self _), hanswer⟩
    · intro n
      exact get?_authorize (get?_prepare s env server k.path k.settings n) t

/-- The call's spelling of a name stands in the place of the configured one, its token in the place of
the call's own, and the provider was given another token while the refresh was pending. -/
theorem exchange_fields_spellings :
    let s : ClientSettings := {
      method := .put
      headers := .ofPairs
        [("content-type", "text/plain"), ("X-Env", "v=$\x7bV\x7d"), ("Accept", "*/*")] }
    let env : Settings.Environment := fun name => if name = "V" then some "1" else none
    let call : RequestSettings := {
      headers := .ofPairs [("AUTHORIZATION", "mine"), ("ACCEPT", "text/csv")]
      body := some "b" }
    let start := ofSettings s env (some (.scripted true (some ⟨"old"⟩) [.hold "token"])) []
    let ms : List Move := [.announce topologyEvent "\x7b\"db\":[\"a:1\"]\x7d",
      .request "db" "x" call, .refreshed "token" (.complete (some (some ⟨"new"⟩)) (.ok ())), .job]
    ∃ e token, (start.moves ms).calls = [e] ∧
      e.headers.entries = [("ACCEPT", "text/csv"), ("Authorization", "Bearer new"),
        ("Content-Type", "application/json"), ("X-Env", "v=1")] ∧
      e.body = some "b" ∧
      ∀ n, e.headers.get? n = sentField (some token) .put call.headers s.headers env n := by
  intro s env call start ms
  have hcalls : (start.moves ms).calls.map (fun e => (e.method, e.headers.entries)) =
      [(.put, [("ACCEPT", "text/csv"), ("Authorization", "Bearer new"),
        ("Content-Type", "application/json"), ("X-Env", "v=1")])] := by decide +kernel
  obtain ⟨e, he, hentry⟩ := List.map_eq_singleton_iff.mp hcalls
  obtain ⟨hmethod, hentries⟩ := Prod.mk.inj hentry
  obtain ⟨hlog, -, hfields⟩ := exchange_fields s env
    (some (.scripted true (some ⟨"old"⟩) [.hold "token"])) [] ms
  -- The call is the only one, so it is the one that the exchange was started for.
  have hmem : e ∈ (start.history ms).filterMap Happening.call? := by
    rw [← hlog, he]
    exact List.mem_singleton_self e
  obtain ⟨y, hy, hcall⟩ := List.mem_filterMap.mp hmem
  obtain ⟨o, r, rfl⟩ : ∃ o r, y = .asked o (.exchange e) r := by
    unfold Happening.call? at hcall
    split at hcall
    · obtain rfl := Option.some.inj hcall
      exact ⟨_, _, rfl⟩
    · cases hcall
  obtain ⟨before, mv, after, k, token, hms, hk, -, htoken, -, -, hbody, -, hfield⟩ :=
    hfields o e r hy
  have hrequests : k ∈ ms.filterMap Move.request? :=
    List.mem_filterMap.mpr ⟨mv, hms ▸ List.mem_append_right _ (List.mem_cons_self ..), hk⟩
  obtain rfl : k = ⟨"db", "x", call⟩ := List.mem_singleton.mp hrequests
  obtain ⟨t, rfl⟩ := Option.isSome_iff_exists.mp htoken
  rw [hmethod] at hfield
  exact ⟨e, t, he, hentries, hbody, hfield⟩

end Switchboard.Client
