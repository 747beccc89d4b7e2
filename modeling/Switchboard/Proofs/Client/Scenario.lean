import Switchboard.Client.Scenario
import Switchboard.Proofs.Client.Moves
import Switchboard.Proofs.Promise.Machine

/-!
# A scenario is a sequence of moves

Whatever the steps of a scenario are, and however its observers nest, nothing happens to the client but
moves. So what holds of every client that moves lead to holds of the clients of scenarios.

- `Session.events`: the push events that reach the client in a scenario, those that observers publish
  among them.
- `Leads`: moves lead from one client to another, and deliver these events.
- `leads_step`: a step of a scenario makes moves, if what it tells its observers makes moves.
- `run_leads`: so does a whole scenario.

Observers run steps, and steps tell observers, so scenarios are run to a depth. The steps of an observer
are run one level below those of the event that it is told of, and a scenario is run to a depth that its
nesting cannot exhaust. The proof follows this. The lemmas about a step take a way to react as a
parameter, with the hypothesis that it makes moves; and by induction on the depth every way to react
that occurs does.

`Leads` hides which moves were made, and keeps their push events. Theorems about the topology need no
more. The events are computed by a second pass over the scenario, `Session.events`, which goes through
it as the scenario itself does: an event comes before those that it provokes.
-/

namespace Switchboard.Client.Scenario

open Promise (PromiseId)

/-! ### Push events

The events of a list of observers depend on the session that each of them finds, so these functions run
the scenario as they go. -/

namespace Session

variable (react : List Step → Session → Session)
  (within : List Step → Session → List (String × String))

/-- The push events while observers are told, when `within` are those of the steps of one. -/
def toldEvents (payload : String) : List Observer → Session → List (String × String)
  | [], _ => []
  | o :: os, s =>
    (if o.once && o.ran then [] else within o.body (s.report (.observed o.tag payload))) ++
      toldEvents payload os (s.tell react payload o)

/-- The push events of one step, in the order in which the topology meets them. -/
def stepEvents (s : Session) : Step → List (String × String)
  | .publish name payload => (name, payload) ::
    if name = topologyEvent then
      toldEvents react within payload s.observers
        { s with client := s.client.announce name payload, observers := [] }
    else []
  | _ => []

def scriptEvents : List Step → Session → List (String × String)
  | [], _ => []
  | st :: script, s => s.stepEvents react within st ++ scriptEvents script (s.step react st)

/-- The push events of a scenario, to the depth to which `steps` runs it. -/
def events : Nat → List Step → Session → List (String × String)
  | 0 => scriptEvents (fun _ s => s) fun _ _ => []
  | n + 1 => scriptEvents (steps n) (events n)

end Session

/-- Moves lead from `c` to `c'`, and `es` are the push events among them. -/
def Leads (c : Client) (es : List (String × String)) (c' : Client) : Prop :=
  ∃ ms, c.moves ms = c' ∧ ms.filterMap Move.event? = es

variable {c c' c'' : Client} {es es' : List (String × String)}

theorem Leads.refl (c : Client) : Leads c [] c := ⟨[], rfl, rfl⟩

theorem Leads.trans (h : Leads c es c') (h' : Leads c' es' c'') : Leads c (es ++ es') c'' := by
  obtain ⟨ms, rfl, rfl⟩ := h
  obtain ⟨ms', rfl, rfl⟩ := h'
  exact ⟨ms ++ ms', c.moves_append ms ms', List.filterMap_append⟩

theorem Leads.move (mv : Move) (h : c.step mv = c') : Leads c mv.event?.toList c' := by
  refine ⟨[mv], h, ?_⟩
  cases hevent : mv.event? <;> simp [hevent]

/-! ### Requests

Whoever makes a request in a scenario awaits it. So a request is two moves, and the second one needs the
promise to exist. -/

theorem fail_lt (c : Client) (cause : ClientError) :
    (c.fail cause).1 < (c.fail cause).2.machine.slots.size := by
  show c.machine.slots.size < (c.machine.create.2.settle _ _).slots.size
  rw [Promise.Machine.size_settle, Promise.Machine.size_create]
  exact Nat.lt_succ_self _

/-- A registration makes the dependent that it returns. -/
theorem register_lt (m : Machine) (p : PromiseId) (code : Handler) :
    m.slots.size < (m.register p code).2.slots.size := by
  show m.slots.size < (m.create.2.react _ _).slots.size
  rw [Promise.Machine.size_react, Promise.Machine.size_create]
  exact Nat.lt_succ_self _

/-- A call returns a promise that exists. -/
theorem request_lt (c : Client) (service path : String) (settings : RequestSettings) :
    (c.request service path settings).1 <
      (c.request service path settings).2.machine.slots.size := by
  rcases c.request_cases service path settings with ⟨cause, -, hrequest, -⟩ |
    ⟨e, -, hrequest, -⟩ | ⟨e, provider, c₁, -, -, -, hrequest, -⟩
  · rw [hrequest]
    exact fail_lt c cause
  · rw [hrequest, startExchange_eq]
    exact register_lt _ _ _
  · rw [hrequest]
    exact register_lt _ _ _

/-- Who made a request waits for it. -/
theorem leads_asked (s : Session) (kind name : String) {made : PromiseId × Client}
    (h : Leads s.client [] made.2) (hlt : made.1 < made.2.machine.slots.size) :
    Leads s.client [] (s.asked kind name made).client :=
  h.trans (.move (.await made.1) (if_pos hlt))

theorem leads_request (s : Session) (kind name service path : String) (settings : RequestSettings) :
    Leads s.client [] (s.asked kind name (s.client.request service path settings)).client :=
  leads_asked s kind name (.move (.request service path settings) rfl) (request_lt _ _ _ _)

theorem leads_post (s : Session) (kind name service path : String) (body : Except String Json) :
    Leads s.client [] (s.asked kind name (s.client.post service path body)).client := by
  refine leads_asked s kind name (.move (.post service path body) rfl) ?_
  cases body with
  | ok j => exact request_lt _ _ _ _
  | error cause => exact fail_lt _ _

/-! ### Steps

Each step is no move, one move, or as many jobs as it asks for. A push event is the only one that runs
steps of others. -/

/-- Jobs are moves, also those for which nothing is left. -/
theorem client_jobs (n : Nat) (s : Session) :
    (s.jobs n).client = s.client.moves (List.replicate n .job) := by
  induction n generalizing s with
  | zero => rfl
  | succ n ih =>
    unfold Session.jobs
    split
    · next hjob => exact (moves_jobs_of_none hjob (n + 1)).symm
    · next answer c hjob =>
      have hmove : s.client.moves (List.replicate (n + 1) .job) =
          c.moves (List.replicate n .job) := by
        show (s.client.step .job).moves _ = _
        rw [step_job_of_some hjob]
      rw [hmove]
      -- The report of an answer leaves the client alone.
      dsimp only
      split
      · exact ih (s.advance c)
      · split
        · exact ih ((s.advance c).report _)
        · exact ih (s.advance c)

theorem leads_jobs (n : Nat) (s : Session) : Leads s.client [] (s.jobs n).client :=
  ⟨List.replicate n .job, (client_jobs n s).symm, List.filterMap_eq_nil_iff.mpr fun mv hmv => by
    rw [List.eq_of_mem_replicate hmv]
    rfl⟩

variable {react : List Step → Session → Session}
  {within : List Step → Session → List (String × String)}

/-- Observers make moves only, so a push event does. -/
theorem leads_publish (hreact : ∀ body s, Leads s.client (within body s) (react body s).client)
    (s : Session) (name payload : String) :
    Leads s.client (s.stepEvents react within (.publish name payload))
      (s.publish react name payload).client := by
  have htell : ∀ (os : List Observer) (s : Session),
      Leads s.client (Session.toldEvents react within payload os s)
        (os.foldl (Session.tell react payload) s).client := by
    intro os
    induction os with
    | nil => exact fun s => .refl _
    | cons o os ih =>
      intro s
      refine Leads.trans ?_ (ih _)
      unfold Session.tell
      dsimp only
      split
      · exact .refl _
      · exact hreact o.body (s.report (.observed o.tag payload))
  -- First the topology is updated, then those who observed before the event are told.
  have hmove : Leads s.client [(name, payload)] (s.client.announce name payload) :=
    .move (.announce name payload) rfl
  unfold Session.stepEvents Session.publish
  dsimp only
  split
  · exact hmove.trans (htell s.observers
      { s with client := s.client.announce name payload, observers := [] })
  · exact hmove

theorem leads_step (hreact : ∀ body s, Leads s.client (within body s) (react body s).client)
    (s : Session) (st : Step) :
    Leads s.client (s.stepEvents react within st) (s.step react st).client := by
  -- Steps that only report or register leave the client where it is.
  cases st with
  | publish name payload => exact leads_publish hreact s name payload
  | request name service path method headers body =>
    unfold Session.step
    dsimp only
    split
    · exact leads_request ..
    · split
      · exact leads_request ..
      · exact .refl _
  | get name service path => exact leads_request ..
  | post kind name service path body => exact leads_post ..
  | complete id reply =>
    refine Leads.move (.complete id reply) ?_
    unfold Session.step Client.step
    dsimp only
    rcases s.client.takeExchange? id with _ | ⟨r, c⟩ <;> rfl
  | refreshed id reply =>
    refine Leads.move (.refreshed id reply) ?_
    unfold Session.step Client.step
    dsimp only
    rcases s.client.takeRefresh? id with _ | ⟨r, c⟩ <;> rfl
  | authenticate value => exact .move (.provider (·.setAuthenticated value)) rfl
  | setToken token => exact .move (.provider (·.setToken token)) rfl
  | run => exact leads_jobs _ s
  | pushFailure | observe tag body once | snapshot name | servers service snapshot | describe =>
    exact .refl _

theorem leads_foldl (hreact : ∀ body s, Leads s.client (within body s) (react body s).client)
    (script : List Step) (s : Session) :
    Leads s.client (Session.scriptEvents react within script s)
      (script.foldl (Session.step react) s).client := by
  induction script generalizing s with
  | nil => exact .refl _
  | cons st script ih => exact (leads_step hreact s st).trans (ih _)

theorem leads_steps (n : Nat) (script : List Step) (s : Session) :
    Leads s.client (s.events n script) (Session.steps n script s).client := by
  induction n generalizing script s with
  | zero => exact leads_foldl (fun _ _ => .refl _) script s
  | succ n ih => exact leads_foldl ih script s

/-- A scenario makes moves. -/
theorem run_leads (c : Client) (script : List Step) :
    Leads c ((Session.init c).events (depths script) script) (run c script).client := by
  have hsteps := leads_steps (depths script) script (.init c)
  have hdrain := leads_jobs (Session.steps (depths script) script (.init c)).client.load
    (Session.steps (depths script) script (.init c))
  have hrun := hsteps.trans hdrain
  rw [List.append_nil] at hrun
  exact hrun

end Switchboard.Client.Scenario
