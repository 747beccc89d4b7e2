import Switchboard.Client.Network
import Switchboard.Proofs.Client.Scenario

/-!
# The topology of a client

Whatever else happens to a client, its topology is read off the push events: it is what the latest of
those announces that announce one, whole and alone.

- `Topology.announced?`, `Topology.after`: the topology that an event announces, and the one that stands
  after some events.
- `Announcement.WantsServer`: where an address must stand. `read_of_illegal`: one that breaks the rules
  spoils all of an announcement.
- `Keeps`: what happens to a client besides push events. `topology_moves`: a run.
- `Scenario.Retains`: snapshots are replaced only by snapshots of the same name.
- `latest_topology`: all of it.

## Proof structure

`Topology.after` is a function of a list of events, and knows nothing of clients. What the theorems say
is that a client computes it. For moves this is an induction with two cases, an event or something else
(`Keeps`). For a scenario, with observers that publish from within the event that they are told of, it
needs no induction any more: a scenario is a sequence of moves, and its events are those of the moves.

The event that an observer publishes is met in the middle of the step in which it is told. Since the
topology is updated before anybody is told, the latest event is still the last one to begin. Nothing in
the statement depends on this, as the events of a scenario come in the order in which the topology meets
them.

That an announcement replaces the topology as a whole is not a law about sets of servers. What the
latest readable event announces is all of the topology; servers that an earlier one listed are gone.
-/

namespace Switchboard

namespace Topology

/-- The topology that a push event announces, if it announces one. -/
def announced? (e : String × String) : Option Topology :=
  if e.1 = Client.topologyEvent then (read e.2).toOption else none

/-- The topology that stands after some push events, when it was `t` before them. -/
def after (t : Topology) (es : List (String × String)) : Topology :=
  (es.filterMap announced?).getLast?.getD t

theorem after_append (t : Topology) (es es' : List (String × String)) :
    t.after (es ++ es') = (t.after es).after es' := by
  unfold after
  rw [List.filterMap_append, List.getLast?_append]
  cases (es'.filterMap announced?).getLast? <;> rfl

namespace Announcement

/-- An address must follow, if there is to be another. -/
def WantsServer : Announcement → Prop
  | firstServer .. | nextServer .. => True
  | _ => False

theorem step_illegal {a : Announcement} (ha : a.WantsServer) {text : String} {e : AddressError}
    (he : Address.ofText text = .error e) : a.step (.text text) = .error (.address e) := by
  cases a with
  | firstServer entries service => simp [step, stepServer, he]
  | nextServer entries service addresses => simp [step, stepServer, he]
  | _ => exact ha.elim

end Announcement

/-- What was read before an address that breaks the rules, and what would follow it, is of no use. -/
theorem read_of_illegal {payload text : String} {ts rest : List Json.Token} {a : Announcement}
    {e : AddressError} (hscan : Json.scan payload.toList = ts ++ .text text :: rest)
    (hread : ts.foldlM Announcement.step .start = .ok a) (ha : a.WantsServer)
    (he : Address.ofText text = .error e) : read payload = .error (.address e) := by
  unfold read ofTokens
  rw [hscan, List.foldlM_append, hread]
  show (Except.bind (Except.bind (a.step (.text text)) _) _) = _
  rw [Announcement.step_illegal ha he]
  rfl

end Topology

namespace Client

open Promise (PromiseId ResolverId Settlement)
open Http (Exchange)

/-! ### Clients

The topology and the defaults are the two components that requests read and only push events, or nothing
at all, can change. -/

/-- What was not announced, and what every request inherits, stays. -/
structure Keeps (c c' : Client) : Prop where
  topology : c'.topology = c.topology
  defaults : c'.defaults = c.defaults

variable {c c' c'' : Client}

theorem Keeps.refl (c : Client) : Keeps c c := ⟨rfl, rfl⟩

theorem Keeps.trans (h : Keeps c c') (h' : Keeps c' c'') : Keeps c c'' :=
  ⟨h'.topology.trans h.topology, h'.defaults.trans h.defaults⟩

theorem keeps_settleVia (c : Client) (r : ResolverId) (x : Settlement Payload ClientError) :
    Keeps c (c.settleVia r x) := by
  unfold settleVia
  split <;> exact ⟨rfl, rfl⟩

theorem keeps_lose (c : Client) (r : ResolverId) : Keeps c (c.lose r) := by
  unfold lose
  split <;> exact ⟨rfl, rfl⟩

theorem keeps_replaced (c : Client) (old : Option ResolverId) : Keeps c (c.replaced old) := by
  cases old with
  | none => exact .refl c
  | some r => exact keeps_lose c r

theorem keeps_completeExchange (c : Client) (r : ResolverId) (reply : Reply) :
    Keeps c (c.completeExchange r reply) := by
  rcases reply with (cause | response) | id | _
  · exact keeps_settleVia _ _ _
  · exact keeps_settleVia _ _ _
  · have hreplaced := keeps_replaced c (Dictionary.find? id c.heldExchanges)
    exact ⟨hreplaced.topology, hreplaced.defaults⟩
  · exact keeps_lose _ _

theorem keeps_completeRefresh (c : Client) (r : ResolverId) (reply : RefreshReply) :
    Keeps c (c.completeRefresh r reply) := by
  rcases reply with ⟨token, result⟩ | id | _
  · have hgiven : Keeps c (c.given token) := by cases token <;> exact ⟨rfl, rfl⟩
    rcases result with cause | _
    · exact hgiven.trans (keeps_settleVia _ _ _)
    · unfold completeRefresh
      dsimp only
      split <;> exact hgiven.trans (keeps_settleVia _ _ _)
  · have hreplaced := keeps_replaced c (Dictionary.find? id c.heldRefreshes)
    exact ⟨hreplaced.topology, hreplaced.defaults⟩
  · exact keeps_lose _ _

theorem keeps_startExchange (c : Client) (e : Exchange) : Keeps c (c.startExchange e).2 := by
  have hcalled : Keeps { c with
      machine := c.machine.defer.2.2
      transport := c.transport.tail
      effects := .call e :: c.effects } (c.called e) := keeps_completeExchange _ _ _
  rw [startExchange_eq]
  exact ⟨hcalled.topology, hcalled.defaults⟩

theorem keeps_startRefresh (c : Client) (provider : Provider) :
    Keeps c (c.startRefresh provider).2 := by
  cases provider with
  | fixed t =>
    have hrefresh := keeps_completeRefresh { c with machine := c.machine.defer.2.2 }
      c.machine.resolvers.size defaultRefresh
    exact ⟨hrefresh.topology, hrefresh.defaults⟩
  | scripted authenticated token replies =>
    have hrefresh := keeps_completeRefresh { c with
        machine := c.machine.defer.2.2
        provider := some (.scripted authenticated token replies.tail)
        effects := .refresh c.defaults.refreshInterval :: c.effects }
      c.machine.resolvers.size (replies.head?.getD defaultRefresh)
    exact ⟨hrefresh.topology, hrefresh.defaults⟩

theorem keeps_request (c : Client) (service path : String) (settings : RequestSettings) :
    Keeps c (c.request service path settings).2 := by
  rcases c.request_cases service path settings with ⟨cause, -, hrequest, -⟩ |
    ⟨e, -, hrequest, -⟩ | ⟨e, provider, c₁, -, -, rfl, hrequest, -⟩
  · rw [hrequest]
    exact ⟨rfl, rfl⟩
  · rw [hrequest]
    exact keeps_startExchange c e
  · have hrefresh := keeps_startRefresh c provider
    rw [hrequest]
    exact ⟨hrefresh.topology, hrefresh.defaults⟩

theorem keeps_start (c : Client) (j : Promise.Job Payload ClientError Handler Empty) :
    Keeps c (c.start j).2 := by
  match j with
  | .deliver (.handler (.dispatch e) d) (.fulfilled (.token t)) =>
    have hexchange := keeps_startExchange c (authorize e t)
    exact ⟨hexchange.topology, hexchange.defaults⟩
  | .deliver (.handler .decode d) (.fulfilled (.response response)) =>
    dsimp only [start, handle]
    split <;> exact ⟨rfl, rfl⟩
  | .deliver (.handler .decode d) (.fulfilled (.json j))
  | .deliver (.handler .decode d) (.fulfilled (.token t))
  | .deliver (.handler .decode d) (.rejected cause)
  | .deliver (.handler (.dispatch e) d) (.fulfilled (.json j))
  | .deliver (.handler (.dispatch e) d) (.fulfilled (.response response))
  | .deliver (.handler (.dispatch e) d) (.rejected cause)
  | .deliver (.adoption p) x | .deliver (.wake a) x | .poll a => exact ⟨rfl, rfl⟩

theorem topology_announce (c : Client) (name payload : String) :
    (c.announce name payload).topology = c.topology.after [(name, payload)] ∧
      (c.announce name payload).defaults = c.defaults := by
  unfold announce
  by_cases hname : name = topologyEvent
  · rw [if_pos hname]
    cases hread : Topology.read payload <;>
      simp [Topology.after, Topology.announced?, hname, hread, Except.toOption]
  · rw [if_neg hname]
    simp [Topology.after, Topology.announced?, hname]

/-- Only push events change the topology. -/
theorem keeps_step (c : Client) {mv : Move} (hmv : mv.event? = none) : Keeps c (c.step mv) := by
  cases mv with
  | announce name payload => cases hmv
  | request service path settings => exact keeps_request c service path settings
  | post service path body =>
    cases body with
    | ok j => exact keeps_request c service path (postSettings j)
    | error cause => exact ⟨rfl, rfl⟩
  | await p =>
    dsimp only [step]
    split <;> exact ⟨rfl, rfl⟩
  -- To take a callback out of the store changes neither of the two components.
  | complete id reply =>
    dsimp only [step, takeExchange?]
    rcases Dictionary.find? id c.heldExchanges with _ | r
    · exact .refl c
    · have htaken := keeps_completeExchange
        { c with heldExchanges := c.heldExchanges.filter fun e => e.1 ≠ id } r reply
      exact ⟨htaken.topology, htaken.defaults⟩
  | refreshed id reply =>
    dsimp only [step, takeRefresh?]
    rcases Dictionary.find? id c.heldRefreshes with _ | r
    · exact .refl c
    · have htaken := keeps_completeRefresh
        { c with heldRefreshes := c.heldRefreshes.filter fun e => e.1 ≠ id } r reply
      exact ⟨htaken.topology, htaken.defaults⟩
  | provider change => exact ⟨rfl, rfl⟩
  | job =>
    dsimp only [step, job]
    rcases c.machine.next? with _ | ⟨j, m⟩
    · exact .refl c
    · have hstart := keeps_start { c with machine := m } j
      exact ⟨hstart.topology, hstart.defaults⟩

/-- **The topology follows the push events**, in any run. -/
theorem topology_moves (c : Client) (ms : List Move) :
    (c.moves ms).topology = c.topology.after (ms.filterMap Move.event?) ∧
      (c.moves ms).defaults = c.defaults := by
  induction ms generalizing c with
  | nil => exact ⟨rfl, rfl⟩
  | cons mv ms ih =>
    obtain ⟨htopology, hdefaults⟩ := ih (c.step mv)
    have hmoves : c.moves (mv :: ms) = (c.step mv).moves ms := rfl
    rw [hmoves, htopology, hdefaults]
    -- Only a push event counts, and it is put in front of the events that follow.
    rcases hevent : mv.event? with _ | e
    · have hkeeps := keeps_step c hevent
      rw [hkeeps.topology, hkeeps.defaults, List.filterMap_cons_none hevent]
      exact ⟨rfl, rfl⟩
    · obtain ⟨name, payload, rfl⟩ : ∃ name payload, mv = .announce name payload := by
        cases mv <;> simp_all [Move.event?]
      obtain ⟨hnew, hsame⟩ := topology_announce c name payload
      rw [List.filterMap_cons_some hevent]
      refine ⟨?_, hsame⟩
      obtain rfl : (name, payload) = e := by simpa [Move.event?] using hevent
      show (c.announce name payload).topology.after _ = _
      rw [hnew, ← Topology.after_append]
      rfl

/-- The push event that a subscription reports. -/
def reported? : Subscription.Report → Option (String × String)
  | .event e => some (e.name, e.data)
  | .disconnect .. => none

/-- To follow a subscription is to meet its push events. -/
theorem follow_eq_moves (c : Client) (reports : List Subscription.Report) :
    c.follow reports = c.moves ((reports.filterMap reported?).map fun e => .announce e.1 e.2) := by
  induction reports generalizing c with
  | nil => rfl
  | cons r reports ih =>
    cases r with
    | event e => exact ih (c.announce e.name e.data)
    | disconnect error delay => exact ih c

theorem topology_follow (c : Client) (reports : List Subscription.Report) :
    (c.follow reports).topology = c.topology.after (reports.filterMap reported?) := by
  rw [follow_eq_moves, (topology_moves _ _).1, List.filterMap_map]
  congr 1
  exact List.filterMap_some

/-! ### Scenarios

A snapshot is a copy that is kept in the session under a name, so what later events do to the client
cannot reach it. What can is a later snapshot of the same name, which an observer may take as well. The
report shows each of them when it is taken, and so the current one can be found in the report. -/

namespace Scenario

/-- The topology that an entry of a report shows to have been kept under a name. -/
def Entry.snapshot? (name : String) : Entry → Option Topology
  | .snapshot n t => if n = name then some t else none
  | _ => none

/-- A snapshot stays until another of its name is taken, which is reported. -/
def Retains (s s' : Session) : Prop :=
  ∃ new, s'.entries = new ++ s.entries ∧ ∀ name, Dictionary.find? name s'.snapshots =
    (new.findSome? (Entry.snapshot? name)).or (Dictionary.find? name s.snapshots)

variable {s s' s'' : Session} {react : List Step → Session → Session}

theorem Retains.refl (s : Session) : Retains s s := ⟨[], rfl, fun _ => rfl⟩

theorem Retains.trans (h : Retains s s') (h' : Retains s' s'') : Retains s s'' := by
  obtain ⟨new, hentries, hfind⟩ := h
  obtain ⟨new', hentries', hfind'⟩ := h'
  refine ⟨new' ++ new, by rw [hentries', hentries, List.append_assoc], ?_⟩
  intro name
  rw [hfind', hfind, List.findSome?_append, Option.or_assoc]

/-- What is reported otherwise takes no snapshot. -/
theorem Retains.of_report (new : List Entry) (hentries : s'.entries = new ++ s.entries)
    (hnew : ∀ e ∈ new, ∀ name, e.snapshot? name = none) (hsame : s'.snapshots = s.snapshots) :
    Retains s s' := by
  refine ⟨new, hentries, ?_⟩
  intro name
  have hnone : new.findSome? (Entry.snapshot? name) = none :=
    List.findSome?_eq_none_iff.mpr fun e he => hnew e he name
  rw [hnone, hsame]
  rfl

theorem Retains.one {e : Entry} (hentries : s'.entries = e :: s.entries)
    (he : ∀ name, e.snapshot? name = none) (hsame : s'.snapshots = s.snapshots) : Retains s s' := by
  refine .of_report [e] hentries ?_ hsame
  intro e' he'
  obtain rfl := List.mem_singleton.mp he'
  exact he

theorem retains_report (s : Session) {e : Entry} (he : ∀ name, e.snapshot? name = none) :
    Retains s (s.report e) := .one rfl he rfl

theorem retains_advance (s : Session) (c : Client) : Retains s (s.advance c) := by
  refine .of_report _ rfl ?_ rfl
  intro e he name
  obtain ⟨effect, -, rfl⟩ := List.mem_map.mp he
  rfl

theorem retains_asked (s : Session) (kind name : String) (made : PromiseId × Client) :
    Retains s (s.asked kind name made) :=
  (retains_advance s made.2).trans
    (.one (e := .asked kind name (made.2.machine.state made.1)) rfl (fun _ => rfl) rfl)

theorem retains_jobs (n : Nat) (s : Session) : Retains s (s.jobs n) := by
  induction n generalizing s with
  | zero => exact .refl s
  | succ n ih =>
    unfold Session.jobs
    split
    · exact .refl s
    · rename_i answer c hjob
      refine (retains_advance s c).trans ?_
      dsimp only
      split
      · exact ih _
      · split
        · exact (retains_report _ fun _ => rfl).trans (ih _)
        · exact ih _

/-- Observers take snapshots, too, if their steps say so. -/
theorem retains_publish (hreact : ∀ body s, Retains s (react body s)) (s : Session)
    (name payload : String) : Retains s (s.publish react name payload) := by
  have htell : ∀ (os : List Observer) (s : Session),
      Retains s (os.foldl (Session.tell react payload) s) := by
    intro os
    induction os with
    | nil => exact fun s => .refl s
    | cons o os ih =>
      intro s
      refine Retains.trans ?_ (ih _)
      have hreport : Retains s (s.report (.observed o.tag payload)) :=
        retains_report s fun _ => rfl
      unfold Session.tell
      dsimp only
      split
      · exact hreport
      · exact hreport.trans (hreact _ _)
  -- The observers are put aside while they are told, which is no matter of the snapshots.
  unfold Session.publish
  dsimp only
  split
  · obtain ⟨new, hentries, hfind⟩ := htell s.observers
      { s with client := s.client.announce name payload, observers := [] }
    exact ⟨new, hentries, hfind⟩
  · exact .of_report [] rfl (by simp) rfl

theorem retains_step (hreact : ∀ body s, Retains s (react body s)) (s : Session) (st : Step) :
    Retains s (s.step react st) := by
  -- Only a snapshot touches the snapshots, and a push event through those whom it tells.
  cases st with
  | publish name payload =>
    exact (retains_publish hreact s name payload).trans (.one rfl (fun _ => rfl) rfl)
  | request name service path method headers body =>
    unfold Session.step
    dsimp only
    split
    · exact retains_asked ..
    · split
      · exact retains_asked ..
      · exact .one rfl (fun _ => rfl) rfl
  | get name service path => exact retains_asked ..
  | post kind name service path body => exact retains_asked ..
  | snapshot name =>
    refine ⟨[.snapshot name s.client.topology], rfl, ?_⟩
    intro k
    show Dictionary.find? k (s.snapshots.insert name s.client.topology) = _
    rw [Dictionary.find?_insert]
    by_cases hk : name = k <;> simp [Entry.snapshot?, hk]
  | complete id reply =>
    unfold Session.step
    dsimp only
    split
    · exact (retains_report s fun _ => rfl).trans (retains_advance _ _)
    · exact .one rfl (fun _ => rfl) rfl
  | refreshed id reply =>
    unfold Session.step
    dsimp only
    split
    · exact (retains_report s fun _ => rfl).trans (retains_advance _ _)
    · exact .one rfl (fun _ => rfl) rfl
  | run => exact (retains_jobs _ s).trans (.one rfl (fun _ => rfl) rfl)
  | pushFailure | observe tag body once | servers service snapshot | authenticate value
  | setToken token | describe => exact .one rfl (fun _ => rfl) rfl

theorem retains_foldl (hreact : ∀ body s, Retains s (react body s)) (script : List Step)
    (s : Session) : Retains s (script.foldl (Session.step react) s) := by
  induction script generalizing s with
  | nil => exact .refl s
  | cons st script ih => exact (retains_step hreact s st).trans (ih _)

theorem retains_steps (n : Nat) (script : List Step) (s : Session) :
    Retains s (Session.steps n script s) := by
  induction n generalizing script s with
  | zero => exact retains_foldl (fun _ _ => .refl _) script s
  | succ n ih => exact retains_foldl ih script s

/-- The topology of a scenario is the one that its push events leave. -/
theorem topology_of_leads {c c' : Client} {es : List (String × String)} (h : Leads c es c') :
    c'.topology = c.topology.after es ∧ c'.defaults = c.defaults := by
  obtain ⟨ms, rfl, rfl⟩ := h
  exact topology_moves c ms

/-- An event of another name is met by nobody. -/
theorem publish_foreign (react : List Step → Session → Session) (s : Session)
    {name : String} (payload : String) (hname : name ≠ topologyEvent) :
    s.publish react name payload = s := by
  unfold Session.publish announce
  simp only [if_neg hname]

/-- A snapshot that is taken holds the topology of that time. -/
theorem steps_snapshot (n : Nat) (s : Session) (name : String) :
    (Session.steps n [.snapshot name] s).entries = .snapshot name s.client.topology :: s.entries ∧
      Dictionary.find? name (Session.steps n [.snapshot name] s).snapshots =
        some s.client.topology := by
  have hfind := Dictionary.find?_insert name name s.client.topology s.snapshots
  rw [if_pos rfl] at hfind
  cases n <;> exact ⟨rfl, hfind⟩

end Scenario

/-- An announcement that cannot be read changes nothing. -/
theorem announce_unreadable (c : Client) (name : String) {payload : String}
    {problem : Topology.Problem} (hread : Topology.read payload = .error problem) :
    c.announce name payload = c := by
  unfold announce
  rw [hread]
  split <;> rfl

/-- A call is about the first server that the topology has for the service. -/
theorem request_of_topology (c : Client) (service path : String) (settings : RequestSettings) :
    (c.topology.firstServer? service = none →
      c.request service path settings = c.fail (.noServers service)) ∧
    ∀ server, c.topology.firstServer? service = some server →
      let e := prepare c.defaults server path settings
      (c.provider = none → c.request service path settings = c.startExchange e) ∧
      ∀ provider, c.provider = some provider →
        (provider.authenticated = false →
          c.request service path settings = c.fail .notAuthenticated) ∧
        (provider.authenticated = true →
          let waiting := (c.startRefresh provider).2
          c.request service path settings = (waiting.machine.slots.size, { waiting with
            machine := (waiting.machine.register c.machine.slots.size (.dispatch e)).2 })) := by
  constructor
  · intro hnone
    simp only [request, hnone]
  · intro server hserver e
    constructor
    · intro hprovider
      simp only [request, hserver, hprovider, e]
    · intro provider hprovider
      constructor
      · intro hauth
        simp only [request, hserver, hprovider, hauth]
        rfl
      · intro hauth waiting
        simp only [request, hserver, hprovider, hauth, if_true]
        cases provider <;> rfl

namespace Scenario

/-- **The topology is the latest that was announced.** After any moves, on a push channel and in any
scenario, however its observers nest, the topology is what the latest event announced that has the right
name and can be read, whole and alone, or has no servers if there was none. Events of other names change
nothing in a session, so that no observer meets them; an announcement that cannot be read changes
nothing, and one address that breaks the rules is enough for that. A snapshot holds the topology of its
time until another of its name is taken. A call goes to the first server of that topology, which is the
one that is listed first for the service. -/
theorem latest_topology (d : Defaults) (provider : Option Provider) (transport : List Reply) :
    let start := init d provider transport
    (∀ reports, (start.follow reports).topology =
      Topology.empty.after (reports.filterMap reported?)) ∧
    (∀ n script,
      let s := Session.steps n script (.init start)
      let es := (Session.init start).events n script
      (∃ ms, start.moves ms = s.client ∧ ms.filterMap Move.event? = es) ∧
      s.client.topology = Topology.empty.after es ∧
      s.drain.client.topology = Topology.empty.after es ∧
      ∀ k name later,
        let s' := Session.steps k later (Session.steps k [.snapshot name] s)
        ∃ new, s'.entries = new ++ .snapshot name (Topology.empty.after es) :: s.entries ∧
          Dictionary.find? name s'.snapshots =
            (new.findSome? (Entry.snapshot? name)).or (some (Topology.empty.after es))) ∧
    (∀ react (s : Session) name payload, name ≠ topologyEvent →
      s.publish react name payload = s) ∧
    (∀ (c : Client) name payload problem, Topology.read payload = .error problem →
      c.announce name payload = c) ∧
    (∀ payload ts text rest a e, Json.scan payload.toList = ts ++ .text text :: rest →
      ts.foldlM Topology.Announcement.step .start = .ok a → a.WantsServer →
      Address.ofText text = .error e → Topology.read payload = .error (.address e)) ∧
    ∀ ms,
      let c := start.moves ms
      let t := Topology.empty.after (ms.filterMap Move.event?)
      c.topology = t ∧
      (∀ service server, t.firstServer? service = some server ↔
        ∃ others, (service, server :: others) ∈ t.services) ∧
      ∀ service path settings,
        (t.firstServer? service = none →
          c.request service path settings = c.fail (.noServers service)) ∧
        ∀ server, t.firstServer? service = some server →
          let e := prepare d server path settings
          (c.provider = none → c.request service path settings = c.startExchange e) ∧
          ∀ provider, c.provider = some provider →
            (provider.authenticated = false →
              c.request service path settings = c.fail .notAuthenticated) ∧
            (provider.authenticated = true →
              let waiting := (c.startRefresh provider).2
              c.request service path settings = (waiting.machine.slots.size, { waiting with
                machine := (waiting.machine.register c.machine.slots.size (.dispatch e)).2 })) := by
  intro start
  refine ⟨start.topology_follow, ?_, fun react s _ payload => publish_foreign react s payload,
    fun c name _ _ => c.announce_unreadable name, fun _ _ _ _ _ _ => Topology.read_of_illegal, ?_⟩
  · intro n script s es
    -- The client of a scenario was led there by moves, which are all that the topology depends on.
    have hleads : Leads start es s.client := leads_steps n script (.init start)
    have htopology := (topology_of_leads hleads).1
    refine ⟨hleads, htopology, ?_, ?_⟩
    · have hdrain := (topology_of_leads (leads_jobs s.client.load s)).1
      exact hdrain.trans htopology
    · intro k name later s'
      -- What was taken is reported, and whatever comes later retains it.
      obtain ⟨hentries, hfind⟩ := steps_snapshot k s name
      obtain ⟨new, hentries', hfind'⟩ := retains_steps k later (Session.steps k [.snapshot name] s)
      rw [hentries, htopology] at hentries'
      refine ⟨new, hentries', ?_⟩
      rw [hfind', hfind, htopology]
      rfl
  · intro ms c t
    obtain ⟨htopology, hdefaults⟩ := topology_moves start ms
    refine ⟨htopology, fun _ _ => Topology.firstServer?_eq_some_iff, ?_⟩
    intro service path settings
    have hrequest := c.request_of_topology service path settings
    rw [htopology, hdefaults] at hrequest
    exact hrequest

/-- The last address of the second announcement has a path, and an observer publishes once. The call
goes to the first of two servers. -/
theorem latest_topology_spoilt :
    let start := init {} none []
    let spoilt := "\x7b\"db\":[\"b:2\",\"c:3/x\"]\x7d"
    let script : List Step := [
      .observe (.str "o") [.publish topologyEvent "\x7b\"db\":[\"a:1\",\"e:5\"]\x7d"] true,
      .publish topologyEvent "\x7b\"db\":[\"d:4\"],\"log\":[]\x7d", .snapshot "kept",
      .publish topologyEvent spoilt, .publish "topology" "\x7b\x7d"]
    let s := Session.steps 1 script (.init start)
    (Session.init start).events 1 script = [
      (topologyEvent, "\x7b\"db\":[\"d:4\"],\"log\":[]\x7d"),
      (topologyEvent, "\x7b\"db\":[\"a:1\",\"e:5\"]\x7d"), (topologyEvent, spoilt),
      ("topology", "\x7b\x7d")] ∧
      s.client.topology.text = "\x7b\"db\":[\"a:1\",\"e:5\"]\x7d" ∧
      (s.client.request "db" "x" {}).2.calls.map (·.url) = ["http://a:1/x"] := by
  intro start spoilt script s
  have hevents : (Session.init start).events 1 script = [
      (topologyEvent, "\x7b\"db\":[\"d:4\"],\"log\":[]\x7d"),
      (topologyEvent, "\x7b\"db\":[\"a:1\",\"e:5\"]\x7d"), (topologyEvent, spoilt),
      ("topology", "\x7b\x7d")] := by decide +kernel
  obtain ⟨-, hscenario, -⟩ := latest_topology {} none []
  obtain ⟨-, htopology, -⟩ := hscenario 1 script
  refine ⟨hevents, ?_, by decide +kernel⟩
  show s.client.topology.text = _
  rw [htopology, hevents]
  decide +kernel

end Scenario

end Client

end Switchboard
