import Mathlib.Logic.Relation
import Switchboard.Proofs.Promise.Machine

/-!
# Sessions

Everything that a program can do with promises, whatever the program is. Its code is not
represented: at any time it may make any call of the interface, through any resolver that was ever
handed out, and code that was called ends with whatever it likes. Only the promises themselves are
bound to their rules, which are those of the machine.

- `Session`: a machine, the calls into the program that have not returned, and a log.
- `Session.conclude`: the resolution procedure. Reading the `then` member of a foreign object and
  running what was found there are calls into the program, which may do anything in between.
- `Session.start`: the host starts a job.
- `Step`: one call of the interface, the end of a call into the program, or a job. The host starts
  a job when nothing is running.
- `Run`, `Reachable`: any number of steps, from any session or from the empty one.

The log remembers what the machine forgets: which reactions were registered, which outcomes were
put to which promise (whether or not it took them), which promise adopted which, and which jobs
ran. Nothing ever reads it.

The calls are a stack, and only the latest can return. Between a call and its return any steps may
lie, with calls of their own; this is how a `then` member settles the promise that it is read for, or
reads another one, before it returns. A resolution that came through an adoption or an object is
spread over several steps for the same reason.

A theorem about all reachable sessions is one about every program. What a certain program does, such as
a client, is shown to be a run of these steps first.
-/

namespace Switchboard.Promise

/-- The handlers of a program. A registration passes an outcome on if it has no handler for it. -/
class Registration (κ : Type) where
  handles : κ → State → Bool

/-- The handlers of a registration: both, or one of the two. -/
structure Handlers (α ε ρ : Type) where
  onFulfilled : Option (α → ρ)
  onRejected : Option (ε → ρ)

instance {α ε ρ : Type} : Registration (Handlers α ε ρ) where
  handles h
    | .pending => false
    | .fulfilled => h.onFulfilled.isSome
    | .rejected => h.onRejected.isSome

/-- What resolves or rejects a promise. A foreign object has no description: what it does is told
by the steps that follow. -/
abbrev Outcome (α ε : Type) := Except ε (Resolution α Unit)

/-- An outcome refers to promises that exist. -/
def Outcome.Known {α ε κ τ : Type} (m : Machine α ε κ τ) : Outcome α ε → Prop
  | .ok (.promise q) => q < m.slots.size
  | _ => True

instance {α ε κ τ : Type} (m : Machine α ε κ τ) : (o : Outcome α ε) → Decidable (o.Known m)
  | .ok (.promise q) => inferInstanceAs (Decidable (q < m.slots.size))
  | .ok (.value _) => .isTrue trivial
  | .ok (.thenable _) => .isTrue trivial
  | .error _ => .isTrue trivial

theorem Outcome.Known.mono {α ε κ τ κ' τ' : Type} {m : Machine α ε κ τ} {m' : Machine α ε κ' τ'}
    {o : Outcome α ε} (hsize : m.slots.size ≤ m'.slots.size) (h : o.Known m) : o.Known m' := by
  rcases o with c | (v | q | _)
  · trivial
  · trivial
  · exact Nat.lt_of_lt_of_le h hsize
  · trivial

/-- Code of the program that was called and has not returned. -/
inductive Call
  /-- A job of the program's own. -/
  | task
  | initializer (p : PromiseId)
  /-- A handler, whose outcome settles the dependent. -/
  | handler (dependent : PromiseId)
  /-- Reading the `then` member of an object for a promise. -/
  | read (target : PromiseId)
  /-- What was found there, with the resolver that it got. -/
  | body (r : ResolverId)
  deriving DecidableEq

/-- The promises that the end of a call settles. -/
def Call.targets : Call → List PromiseId
  | .handler d => [d]
  | .read p => [p]
  | _ => []

inductive Event (α ε κ τ : Type)
  | registered (p : PromiseId) (r : Reaction κ)
  /-- An outcome was put to a promise. -/
  | settled (p : PromiseId) (x : Settlement α ε)
  /-- The resolution procedure of `p` met the promise `q`. -/
  | adopted (p q : PromiseId)
  | started (j : Job α ε κ τ)

namespace Event

variable {α ε κ τ : Type}

def registration? : Event α ε κ τ → Option (PromiseId × Reaction κ)
  | .registered p r => some (p, r)
  | _ => none

def settlement? : Event α ε κ τ → Option (PromiseId × Settlement α ε)
  | .settled p x => some (p, x)
  | _ => none

def adoption? : Event α ε κ τ → Option (PromiseId × PromiseId)
  | .adopted p q => some (p, q)
  | _ => none

@[simp] theorem adoption?_adopted (p q : PromiseId) :
    (.adopted p q : Event α ε κ τ).adoption? = some (p, q) := rfl

@[simp] theorem adoption?_started (j : Job α ε κ τ) :
    (.started j : Event α ε κ τ).adoption? = none := rfl

def delivery? : Event α ε κ τ → Option (Reaction κ × Settlement α ε)
  | .started j => j.delivery?
  | _ => none

/-- The job that starts. -/
def job? : Event α ε κ τ → Option (Job α ε κ τ)
  | .started j => some j
  | _ => none

@[simp] theorem job?_started (j : Job α ε κ τ) :
    (.started j : Event α ε κ τ).job? = some j := rfl

end Event

structure Session (α ε κ τ : Type) where
  machine : Machine α ε κ τ
  /-- The calls into the program, the latest first. -/
  calls : List Call
  /-- What has happened, the earliest first. -/
  log : List (Event α ε κ τ)

namespace Session

variable {α ε κ τ : Type}

def empty : Session α ε κ τ := ⟨.empty, [], []⟩

/-! ### The log -/

/-- All registrations, in order. -/
def registrations (s : Session α ε κ τ) : List (PromiseId × Reaction κ) :=
  s.log.filterMap Event.registration?

/-- The reactions registered on a promise, in order. -/
def registered (s : Session α ε κ τ) (p : PromiseId) : List (Reaction κ) :=
  (s.registrations.filter (·.1 == p)).map (·.2)

/-- The outcomes put to promises, in order. -/
def settlements (s : Session α ε κ τ) : List (PromiseId × Settlement α ε) :=
  s.log.filterMap Event.settlement?

/-- The outcomes ever put to a promise. -/
def outcomes (s : Session α ε κ τ) (p : PromiseId) : List (Settlement α ε) :=
  (s.settlements.filter (·.1 == p)).map (·.2)

/-- The reactions that ran, in order, with what they were told. -/
def deliveries (s : Session α ε κ τ) : List (Reaction κ × Settlement α ε) :=
  s.log.filterMap Event.delivery?

/-- The jobs that the host started, in order. -/
def started (s : Session α ε κ τ) : List (Job α ε κ τ) := s.log.filterMap Event.job?

/-- The promises whose effective resolution was a promise, with that promise, in order. -/
def adoptions (s : Session α ε κ τ) : List (PromiseId × PromiseId) :=
  s.log.filterMap Event.adoption?

/-- The effective resolution of `p` was the promise `q`. -/
def Adopted (s : Session α ε κ τ) (p q : PromiseId) : Prop := (p, q) ∈ s.adoptions

instance (s : Session α ε κ τ) (p q : PromiseId) : Decidable (s.Adopted p q) :=
  inferInstanceAs (Decidable (_ ∈ _))

def record (s : Session α ε κ τ) (e : Event α ε κ τ) : Session α ε κ τ :=
  { s with log := s.log ++ [e] }

/-! ### The resolution procedure

As in the machine, but with the log. It is one definition for all who resolve: a resolver, a handler
that returned, and a `then` member that answered with another promise. -/

/-- Calls code of the program. -/
def call (s : Session α ε κ τ) (c : Call) : Session α ε κ τ := { s with calls := c :: s.calls }

def settle (s : Session α ε κ τ) (p : PromiseId) (x : Settlement α ε) : Session α ε κ τ :=
  { s with machine := s.machine.settle p x }.record (.settled p x)

def react (s : Session α ε κ τ) (p : PromiseId) (r : Reaction κ) : Session α ε κ τ :=
  { s with machine := s.machine.react p r }.record (.registered p r)

/-- `p` takes over the outcome of `q`. -/
def adopt [Cause ε] (s : Session α ε κ τ) (p q : PromiseId) : Session α ε κ τ :=
  let s := s.record (.adopted p q)
  if p = q then s.settle p (.rejected (Cause.ofFault .selfResolution))
  else match s.machine.settlement? q with
    | some x => s.settle p x
    | none => s.react q (.adoption p)

/-- Resolves or rejects a promise. -/
def conclude [Cause ε] (s : Session α ε κ τ) (p : PromiseId) : Outcome α ε → Session α ε κ τ
  | .ok (.value v) => s.settle p (.fulfilled v)
  | .ok (.promise q) => s.adopt p q
  | .ok (.thenable _) => s.call (.read p)
  | .error c => s.settle p (.rejected c)

/-- Resolves or rejects through a resolver, if it was not used before. -/
def via [Cause ε] (s : Session α ε κ τ) (r : ResolverId) (o : Outcome α ε) : Session α ε κ τ :=
  match s.machine.use? r with
  | some (p, m) => { s with machine := m }.conclude p o
  | none => s

/-! ### The interface -/

def create (s : Session α ε κ τ) : Session α ε κ τ := { s with machine := s.machine.create.2 }

def openResolver (s : Session α ε κ τ) (p : PromiseId) : Session α ε κ τ :=
  { s with machine := (s.machine.openResolver p).2 }

/-- A promise that is settled from the start, or one that nothing can settle. -/
def make (s : Session α ε κ τ) : Option (Settlement α ε) → Session α ε κ τ
  | some x => s.create.settle s.machine.slots.size x
  | none => s.create

/-- A pending promise with a resolver. -/
def defer (s : Session α ε κ τ) : Session α ε κ τ := s.create.openResolver s.machine.slots.size

/-- A pending promise whose resolver is given to an initializer. -/
def init (s : Session α ε κ τ) : Session α ε κ τ :=
  s.defer.call (.initializer s.machine.slots.size)

def register (s : Session α ε κ τ) (p : PromiseId) (code : κ) : Session α ε κ τ :=
  s.create.react p (.handler code s.machine.slots.size)

/-- Someone starts to wait for `p`. -/
def await (s : Session α ε κ τ) (p : PromiseId) : Session α ε κ τ :=
  { s with machine := (s.machine.await p).2 }.record
    (.registered p (.wake s.machine.awaits.size))

/-- Someone looks for the outcome of an await, in whatever job is running. -/
def look (s : Session α ε κ τ) (a : AwaitId) : Session α ε κ τ :=
  { s with machine := (s.machine.poll a).2 }

/-- Someone will look for it in a job. -/
def lookLater (s : Session α ε κ τ) (a : AwaitId) : Session α ε κ τ :=
  { s with machine := s.machine.lookLater a }

/-- Someone starts to wait for `p` in a job of its own. -/
def awaitApart (s : Session α ε κ τ) (p : PromiseId) : Session α ε κ τ :=
  (s.await p).lookLater s.machine.awaits.size

/-- A job of the program's own. -/
def spawn (s : Session α ε κ τ) (t : τ) : Session α ε κ τ :=
  { s with machine := s.machine.enqueue (.task t) }

/-- The program lets go of the last thing that could settle `p`. -/
def abandon [Cause ε] (s : Session α ε κ τ) (p : PromiseId) : Session α ε κ τ :=
  { s with machine := s.machine.abandon p }

/-! ### Ends of calls and starts of jobs -/

/-- The `then` member cannot be read, is a plain value, or can be called with a resolver. -/
def finishRead (s : Session α ε κ τ) (p : PromiseId) : Except ε (Option α) → Session α ε κ τ
  | .error c => s.settle p (.rejected c)
  | .ok (some v) => s.settle p (.fulfilled v)
  | .ok none => (s.openResolver p).call (.body s.machine.resolvers.size)

/-- A failure of what was called rejects, if the resolver was not used before. -/
def finishBody [Cause ε] (s : Session α ε κ τ) (r : ResolverId) : Option ε → Session α ε κ τ
  | some c => s.via r (.error c)
  | none => s

/-- The host has taken a job from the queue. -/
abbrev taken (s : Session α ε κ τ) (j : Job α ε κ τ) (m : Machine α ε κ τ) : Session α ε κ τ :=
  { s with machine := m }.record (.started j)

/-- The job starts. -/
def start [Registration κ] (s : Session α ε κ τ) (j : Job α ε κ τ) : Session α ε κ τ :=
  let s := s.record (.started j)
  match j with
  | .deliver (.handler code d) x =>
    if Registration.handles code x.state then s.call (.handler d) else s.settle d x
  | .deliver (.adoption p) x => s.settle p x
  | .deliver (.wake a) x => { s with machine := s.machine.wake a x }
  | .poll a => { s with machine := (s.machine.poll a).2 }
  | .task _ => s.call .task

/-- The host takes and starts the next job, if there is one. -/
def turn [Registration κ] (s : Session α ε κ τ) : Session α ε κ τ :=
  match s.machine.next? with
  | some (j, m) => { s with machine := m }.start j
  | none => s

/-! ### What each operation adds to the log

Each view of the log is a filter of it, so an operation is described by the events that it records. -/

variable (s : Session α ε κ τ) (p q : PromiseId)

@[simp] theorem registrations_record (e : Event α ε κ τ) :
    (s.record e).registrations = s.registrations ++ e.registration?.toList := by
  cases he : e.registration? <;> simp [registrations, record, he]

@[simp] theorem settlements_record (e : Event α ε κ τ) :
    (s.record e).settlements = s.settlements ++ e.settlement?.toList := by
  cases he : e.settlement? <;> simp [settlements, record, he]

@[simp] theorem deliveries_record (e : Event α ε κ τ) :
    (s.record e).deliveries = s.deliveries ++ e.delivery?.toList := by
  cases he : e.delivery? <;> simp [deliveries, record, he]

@[simp] theorem started_record (e : Event α ε κ τ) :
    (s.record e).started = s.started ++ e.job?.toList := by
  cases he : e.job? <;> simp [started, record, he]

variable {s} in
theorem registrations_record_of_none {e : Event α ε κ τ} (he : e.registration? = none) :
    (s.record e).registrations = s.registrations := by
  rw [registrations_record, he, Option.toList_none, List.append_nil]

variable {s} in
theorem settlements_record_of_none {e : Event α ε κ τ} (he : e.settlement? = none) :
    (s.record e).settlements = s.settlements := by
  rw [settlements_record, he, Option.toList_none, List.append_nil]

variable {s} in
theorem deliveries_record_of_none {e : Event α ε κ τ} (he : e.delivery? = none) :
    (s.record e).deliveries = s.deliveries := by
  rw [deliveries_record, he, Option.toList_none, List.append_nil]

@[simp] theorem adopted_record (e : Event α ε κ τ) :
    (s.record e).Adopted p q ↔ s.Adopted p q ∨ e.adoption? = some (p, q) := by
  cases he : e.adoption? <;> simp [Adopted, adoptions, record, he, eq_comm]

@[simp] theorem registrations_settle (x : Settlement α ε) :
    (s.settle p x).registrations = s.registrations := registrations_record_of_none rfl

@[simp] theorem deliveries_settle (x : Settlement α ε) :
    (s.settle p x).deliveries = s.deliveries := deliveries_record_of_none rfl

@[simp] theorem settlements_settle (x : Settlement α ε) :
    (s.settle p x).settlements = s.settlements ++ [(p, x)] := settlements_record _ _

@[simp] theorem adopted_settle (r : PromiseId) (x : Settlement α ε) :
    (s.settle r x).Adopted p q ↔ s.Adopted p q :=
  (adopted_record _ _ _ _).trans (by simp [Adopted, adoptions, Event.adoption?])

@[simp] theorem registrations_react (r : Reaction κ) :
    (s.react p r).registrations = s.registrations ++ [(p, r)] := registrations_record _ _

@[simp] theorem deliveries_react (r : Reaction κ) :
    (s.react p r).deliveries = s.deliveries := deliveries_record_of_none rfl

@[simp] theorem settlements_react (r : Reaction κ) :
    (s.react p r).settlements = s.settlements := settlements_record_of_none rfl

@[simp] theorem adopted_react (a : PromiseId) (r : Reaction κ) :
    (s.react a r).Adopted p q ↔ s.Adopted p q :=
  (adopted_record _ _ _ _).trans (by simp [Adopted, adoptions, Event.adoption?])

/-- A settlement adds to the outcomes of its promise and of no other. -/
theorem outcomes_settle (x : Settlement α ε) :
    (s.settle p x).outcomes q = s.outcomes q ++ if q = p then [x] else [] := by
  unfold outcomes
  rw [settlements_settle]
  rcases eq_or_ne q p with rfl | h
  · simp
  · simp [h, h.symm]

theorem registered_react (r : Reaction κ) :
    (s.react p r).registered q = s.registered q ++ if q = p then [r] else [] := by
  unfold registered
  rw [registrations_react]
  rcases eq_or_ne q p with rfl | h
  · simp
  · simp [h, h.symm]

/-- Only the host starts jobs: what is done to promises starts none. -/
@[simp] theorem started_settle (x : Settlement α ε) : (s.settle p x).started = s.started :=
  (started_record _ _).trans (List.append_nil _)

@[simp] theorem started_react (r : Reaction κ) : (s.react p r).started = s.started :=
  (started_record _ _).trans (List.append_nil _)

/-- The machine and the calls leave no trace in the log. -/
@[simp] theorem started_mk (m : Machine α ε κ τ) (cs : List Call) :
    (⟨m, cs, s.log⟩ : Session α ε κ τ).started = s.started := rfl

@[simp] theorem started_call (c : Call) : (s.call c).started = s.started := rfl

@[simp] theorem started_create : s.create.started = s.started := rfl

@[simp] theorem started_openResolver : (s.openResolver p).started = s.started := rfl

@[simp] theorem started_make (x : Option (Settlement α ε)) : (s.make x).started = s.started := by
  cases x with
  | none => rfl
  | some x => exact started_settle ..

@[simp] theorem started_defer : s.defer.started = s.started := rfl

@[simp] theorem started_init : s.init.started = s.started := rfl

@[simp] theorem started_register (code : κ) : (s.register p code).started = s.started :=
  started_react ..

@[simp] theorem started_await : (s.await p).started = s.started :=
  (started_record _ _).trans (List.append_nil _)

@[simp] theorem started_look (a : AwaitId) : (s.look a).started = s.started := rfl

@[simp] theorem started_lookLater (a : AwaitId) : (s.lookLater a).started = s.started := rfl

@[simp] theorem started_awaitApart : (s.awaitApart p).started = s.started := started_await ..

@[simp] theorem started_spawn (t : τ) : (s.spawn t).started = s.started := rfl

@[simp] theorem started_abandon [Cause ε] : (s.abandon p).started = s.started := rfl

variable {s p q}

/-- The three ways of adoption: a promise is refused itself, an outcome that is there is copied at
once, and one that is not is waited for. -/
theorem adopt_cases [Cause ε] {P : Session α ε κ τ → Prop}
    (self : p = q → P ((s.record (.adopted p q)).settle p
      (.rejected (Cause.ofFault .selfResolution))))
    (copy : ∀ x, p ≠ q → s.machine.settlement? q = some x →
      P ((s.record (.adopted p q)).settle p x))
    (wait : p ≠ q → s.machine.settlement? q = none →
      P ((s.record (.adopted p q)).react q (.adoption p))) : P (s.adopt p q) := by
  have hm : (s.record (.adopted p q)).machine = s.machine := rfl
  dsimp only [adopt]
  split_ifs with hpq
  · exact self hpq
  · rw [hm]
    rcases hx : s.machine.settlement? q with _ | x
    · exact wait hpq hx
    · exact copy x hpq hx

/-- Adoption in a session is that of its machine. -/
theorem machine_adopt [Cause ε] (s : Session α ε κ τ) (p q : PromiseId) :
    (s.adopt p q).machine = s.machine.adopt p q := by
  unfold Machine.adopt
  refine adopt_cases (P := fun t => t.machine = _) (fun hpq => ?_) (fun x hpq hx => ?_)
    fun hpq hx => ?_
  · rw [if_pos hpq]
    rfl
  · rw [if_neg hpq, hx]
    rfl
  · rw [if_neg hpq, hx]
    rfl

@[simp] theorem started_adopt [Cause ε] (s : Session α ε κ τ) (p q : PromiseId) :
    (s.adopt p q).started = s.started := by
  have hrec : (s.record (.adopted p q)).started = s.started :=
    (started_record _ _).trans (List.append_nil _)
  exact adopt_cases (P := fun t => t.started = s.started) (fun _ => (started_settle ..).trans hrec)
    (fun _ _ _ => (started_settle ..).trans hrec) fun _ _ => (started_react ..).trans hrec

@[simp] theorem calls_adopt [Cause ε] (s : Session α ε κ τ) (p q : PromiseId) :
    (s.adopt p q).calls = s.calls :=
  adopt_cases (P := fun t => t.calls = s.calls) (fun _ => rfl) (fun _ _ _ => rfl) fun _ _ => rfl

@[simp] theorem started_conclude [Cause ε] (s : Session α ε κ τ) (p : PromiseId)
    (o : Outcome α ε) : (s.conclude p o).started = s.started := by
  rcases o with c | (v | q | _)
  · exact started_settle ..
  · exact started_settle ..
  · exact started_adopt ..
  · rfl

@[simp] theorem started_via [Cause ε] (s : Session α ε κ τ) (r : ResolverId) (o : Outcome α ε) :
    (s.via r o).started = s.started := by
  unfold via
  split
  · exact started_conclude ..
  · rfl

@[simp] theorem started_finishRead (s : Session α ε κ τ) (p : PromiseId)
    (found : Except ε (Option α)) : (s.finishRead p found).started = s.started := by
  rcases found with c | (_ | v)
  · exact started_settle ..
  · rfl
  · exact started_settle ..

@[simp] theorem started_finishBody [Cause ε] (s : Session α ε κ τ) (r : ResolverId)
    (thrown : Option ε) : (s.finishBody r thrown).started = s.started := by
  cases thrown with
  | none => rfl
  | some c => exact started_via ..

/-- A job starts no other. -/
@[simp] theorem started_start [Registration κ] (s : Session α ε κ τ) (j : Job α ε κ τ) :
    (s.start j).started = s.started ++ [j] := by
  have htaken : (s.record (.started j)).started = s.started ++ [j] := started_record ..
  match j with
  | .deliver (.handler code d) x =>
    unfold start
    dsimp only
    split
    · exact htaken
    · exact (started_settle ..).trans htaken
  | .deliver (.adoption p) x => exact (started_settle ..).trans htaken
  | .deliver (.wake a) x => exact htaken
  | .poll a => exact htaken
  | .task t => exact htaken

theorem mem_registered {r : Reaction κ} : r ∈ s.registered p ↔ (p, r) ∈ s.registrations := by
  simp [registered]

end Session

variable {α ε κ τ : Type} [Cause ε] [Registration κ]

/-- What can happen next. -/
inductive Step : Session α ε κ τ → Session α ε κ τ → Prop
  | make {s} (x : Option (Settlement α ε)) : Step s (s.make x)
  | defer {s} : Step s s.defer
  | init {s} : Step s s.init
  | register {s p} (hp : p < s.machine.slots.size) (code : κ) : Step s (s.register p code)
  | await {s p} (hp : p < s.machine.slots.size) : Step s (s.await p)
  | look {s a} (ha : a < s.machine.awaits.size) : Step s (s.look a)
  | lookLater {s a} (ha : a < s.machine.awaits.size) : Step s (s.lookLater a)
  | via {s} (r : ResolverId) {o : Outcome α ε} (ho : o.Known s.machine) : Step s (s.via r o)
  | spawn {s} (t : τ) : Step s (s.spawn t)
  | abandon {s} (p : PromiseId) : Step s (s.abandon p)
  | endTask {s cs} (h : s.calls = .task :: cs) : Step s { s with calls := cs }
  | endInitializer {s p cs} (h : s.calls = .initializer p :: cs) : Step s { s with calls := cs }
  | endHandler {s d cs} (h : s.calls = .handler d :: cs) {o : Outcome α ε}
      (ho : o.Known s.machine) : Step s ({ s with calls := cs }.conclude d o)
  | endRead {s p cs} (h : s.calls = .read p :: cs) (found : Except ε (Option α)) :
      Step s ({ s with calls := cs }.finishRead p found)
  | endBody {s r cs} (h : s.calls = .body r :: cs) (thrown : Option ε) :
      Step s ({ s with calls := cs }.finishBody r thrown)
  | job {s j m} (hs : s.calls = []) (hj : s.machine.next? = some (j, m)) :
      Step s ({ s with machine := m }.start j)

abbrev Run : Session α ε κ τ → Session α ε κ τ → Prop := Relation.ReflTransGen Step

abbrev Reachable (s : Session α ε κ τ) : Prop := Run .empty s

/-- A new await is known, so that someone can come for it. -/
theorem run_awaitApart {s : Session α ε κ τ} {p : PromiseId} (hp : p < s.machine.slots.size) :
    Run s (s.awaitApart p) := by
  have hknown : s.machine.awaits.size < (s.await p).machine.awaits.size := by
    show _ < (s.machine.await p).2.awaits.size
    rw [Machine.awaits_await, Array.size_push]
    exact Nat.lt_succ_self _
  exact (Relation.ReflTransGen.single (.await hp)).tail (.lookLater hknown)

theorem run_turn {s : Session α ε κ τ} (hs : s.calls = []) : Run s s.turn := by
  unfold Session.turn
  split
  · rename_i j m hj
    exact .single (.job hs hj)
  · exact .refl

end Switchboard.Promise
