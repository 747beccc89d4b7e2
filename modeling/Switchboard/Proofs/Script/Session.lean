import Switchboard.Proofs.Promise.Adoption
import Switchboard.Script.Run

/-!
# Scripts are sessions

What the host of a script does is what a session can do: `Host.moves_reachable`. So all that holds
of every session holds of every script, after any number of moves.

`Host.Mirrors h s` relates them: both have the same machine, the lists of steps on the stack are the
calls into the program that have not returned, and names mean promises that exist. A move of the
host is a run of the session, mostly of one step; an object with a `then` member takes two, as
reading the member is a call of its own. `Host.jobs` are the jobs that the moves of a host start, and
the session starts the same.

- `Mirrors.resolve`, `Mirrors.leave`, `Mirrors.handle`: what the host does in one go, as steps of the
  session.
- `Mirrors.step`: one step of a script, by its kind.
- `Mirrors.tick`, `Mirrors.moves`: one move, and any number of them.
- `authority_le_room`, `settlement?_of_moves`: laws of sessions, said of scripts.

`Leads s js h` has the form of the goal in all of these: the session goes on to one that the host
mirrors, and starts the jobs `js` on the way. The jobs are counted so that a law about which jobs were
started, in the log of the session, can be read as one about the moves of the host, which keeps no log.

Names are the reason that `Mirrors` says more than that the machines agree. A script may use a name that
it never gave, and the host then reports it and goes on; the session has only promises that exist, and
the invariant is what shows that a name that was given leads to one.
-/

namespace Switchboard

namespace Script

open Promise (PromiseId ResolverId Settlement Run Reachable)

instance : Promise.Registration Code where
  handles
    | .scripted _ (.run ..) _, .fulfilled => true
    | .scripted _ _ (.run ..), .rejected => true
    | .add .., .fulfilled => true
    | .encode, .fulfilled => true
    | .size, .fulfilled => true
    | _, _ => false

abbrev Session := Promise.Session Json String Code (List Step)

abbrev Job := Promise.Job Json String Code (List Step)

/-- The call that a list of steps makes up. -/
def Frame.call : Frame → Promise.Call
  | .task => .task
  | .initializer _ p => .initializer p
  | .handler _ _ d => .handler d
  | .body r _ => .body r

/-- The promise that a frame gives a name to exists. -/
def Frame.Within (size : Nat) : Frame → Prop
  | .initializer _ p => p < size
  | _ => True

theorem Frame.Within.mono {f : Frame} {m n : Nat} (hmn : m ≤ n) (h : f.Within m) : f.Within n := by
  cases f with
  | initializer name p => exact Nat.lt_of_lt_of_le h hmn
  | task => trivial
  | handler input outcome d => trivial
  | body r thrown => trivial

/-- What a session knows of a resolution. -/
def outline : Promise.Resolution Json Thenable → Promise.Resolution Json Unit
  | .value v => .value v
  | .promise p => .promise p
  | .thenable _ => .thenable ()

namespace Host

structure Mirrors (h : Host) (s : Session) : Prop where
  machine : s.machine = h.machine
  calls : s.calls = h.stack.map (·.1.call)
  named : ∀ e ∈ h.values, e.2 < h.machine.slots.size
  frames : ∀ e ∈ h.stack, e.1.Within h.machine.slots.size

/-- The session can go on to where the host is, and it starts these jobs on the way. -/
def Leads (s : Session) (js : List Job) (h : Host) : Prop :=
  ∃ t, Run s t ∧ t.started = s.started ++ js ∧ h.Mirrors t

variable {h : Host} {s t : Session} {p : PromiseId} {cs : List Promise.Call}

/-! ### Names and reports -/

theorem Mirrors.leads (hm : h.Mirrors s) : Leads s [] h :=
  ⟨s, .refl, (List.append_nil _).symm, hm⟩

/-- What a run starts comes before what is started after it. -/
theorem Leads.of_run {js : List Job} (hrun : Run s t) (hl : Leads t [] h)
    (hjs : t.started = s.started ++ js) : Leads s js h := by
  obtain ⟨u, hu, hquiet, hm⟩ := hl
  exact ⟨u, hrun.trans hu, hquiet.trans ((List.append_nil _).trans hjs), hm⟩

theorem Mirrors.report (hm : h.Mirrors s) (e : Entry) : (h.report e).Mirrors s :=
  ⟨hm.machine, hm.calls, hm.named, hm.frames⟩

theorem Mirrors.bindResolver (hm : h.Mirrors s) (name : String) (r : ResolverId) :
    (h.bindResolver name r).Mirrors s := ⟨hm.machine, hm.calls, hm.named, hm.frames⟩

theorem Mirrors.bindValue (hm : h.Mirrors s) (name : String) (hp : p < h.machine.slots.size) :
    (h.bindValue name p).Mirrors s := by
  refine ⟨hm.machine, hm.calls, fun e he => ?_, hm.frames⟩
  rcases Dictionary.mem_insert he with rfl | he
  · exact hp
  · exact hm.named e he

theorem Mirrors.made (hm : h.Mirrors s) (kind name : String) (hp : p < h.machine.slots.size) :
    (h.made kind name p).Mirrors s := (hm.bindValue name hp).report _

theorem Mirrors.lt_of_value? (hm : h.Mirrors s) {name : String} (hp : h.value? name = some p) :
    p < h.machine.slots.size := by
  obtain ⟨e, he, rfl⟩ := Dictionary.exists_mem_of_find? hp
  exact hm.named e he

/-- The session went on and so did the machine of the host. -/
theorem Mirrors.update (hm : h.Mirrors s) {m : Machine} (hmachine : t.machine = m)
    (hcalls : t.calls = s.calls) (hsize : s.machine.slots.size ≤ t.machine.slots.size) :
    { h with machine := m }.Mirrors t := by
  rw [hm.machine, hmachine] at hsize
  exact ⟨hmachine, hcalls.trans hm.calls,
    fun e he => Nat.lt_of_lt_of_le (hm.named e he) hsize, fun e he => (hm.frames e he).mono hsize⟩

/-- As above, by a run. -/
theorem Mirrors.run (hm : h.Mirrors s) (hrun : Run s t) {m : Machine} (hmachine : t.machine = m)
    (hcalls : t.calls = s.calls) : { h with machine := m }.Mirrors t :=
  hm.update hmachine hcalls (Promise.Run.transfers hrun).size_le

theorem Mirrors.settle (hm : h.Mirrors s) (p : PromiseId) (x : Settlement Json String) :
    { h with machine := h.machine.settle p x }.Mirrors (s.settle p x) := by
  refine hm.update (congrArg (·.settle p x) hm.machine) rfl ?_
  exact Nat.le_of_eq (Promise.Machine.size_settle _ _ _).symm

theorem Mirrors.push (hm : h.Mirrors s) {f : Frame} (hf : f.Within h.machine.slots.size)
    (steps : List Step) : (h.push f steps).Mirrors (s.call f.call) := by
  refine ⟨hm.machine, congrArg _ hm.calls, hm.named, fun e he => ?_⟩
  rcases List.mem_cons.mp he with rfl | he
  · exact hf
  · exact hm.frames e he

/-! ### Resolution

The host reads a `then` member and calls what is there at once. In the session these are a step that
makes the call for the read and a step that ends it. -/

/-- The `then` member is read, and what can be called is called. -/
theorem Mirrors.assimilate (hm : h.Mirrors s) (p : PromiseId) (o : Thenable) :
    Leads (s.call (.read p)) [] (h.assimilate p o) := by
  cases o with
  | unreadable label cause =>
    have hread := (hm.report (.read label)).settle p (.rejected cause)
    exact hread.leads.of_run (.single (.endRead rfl (.error cause))) (by simp)
  | plain label v =>
    have hread := (hm.report (.read label)).settle p (.fulfilled v)
    exact hread.leads.of_run (.single (.endRead rfl (.ok (some v)))) (by simp)
  | callable label resolver body thrown =>
    -- The body of the object is a call of its own, with a new resolver of `p`.
    have hcalled := (hm.report (.read label)).report (.called label)
    have hopen := hcalled.update (t := s.openResolver p)
      (congrArg (fun m => (m.openResolver p).2) hm.machine) rfl (Nat.le_refl _)
    have hread : Run (s.call (.read p))
        ((s.openResolver p).call (.body s.machine.resolvers.size)) :=
      .single (.endRead rfl (.ok none))
    rw [hm.machine] at hread
    cases resolver with
    | none =>
      have hpush := hopen.push (f := .body h.machine.resolvers.size thrown) trivial body
      exact hpush.leads.of_run hread (by simp)
    | some name =>
      have hbound := hopen.bindResolver name h.machine.resolvers.size
      have hpush := hbound.push (f := .body h.machine.resolvers.size thrown) trivial body
      exact hpush.leads.of_run hread (by simp)

theorem Mirrors.resolve (hm : h.Mirrors s) (p : PromiseId) {x : Promise.Resolution Json Thenable}
    (hx : Promise.Outcome.Known s.machine (.ok (outline x))) :
    Leads (s.conclude p (.ok (outline x))) [] (h.resolve p x) := by
  have hconclude : Promise.Transfers [p] s [] (s.conclude p (.ok (outline x))) :=
    Promise.transfers_conclude hx
  cases x with
  | value v => exact (hm.settle p (.fulfilled v)).leads
  | promise q =>
    have hadopt : (s.adopt p q).machine = h.machine.adopt p q := by
      rw [s.machine_adopt, hm.machine]
    exact (hm.update hadopt (s.calls_adopt p q) hconclude.size_le).leads
  | thenable o => exact hm.assimilate p o

/-- An input refers to a promise that exists. -/
theorem Mirrors.known (hm : h.Mirrors s) {v : Json} {i : Input}
    {x : Promise.Resolution Json Thenable} (hx : h.evaluate v i = .ok x) :
    Promise.Outcome.Known s.machine (.ok (outline x)) := by
  cases i with
  | ref name =>
    simp only [evaluate] at hx
    split at hx
    · rename_i p hp
      obtain rfl : .promise p = x := by simpa using hx
      show p < s.machine.slots.size
      rw [hm.machine]
      exact hm.lt_of_value? hp
    · cases hx
  | value v => cases hx; trivial
  | wrap tag => cases hx; trivial
  | add n => cases hx; trivial
  | thenable o => cases hx; trivial
  | same => cases hx; trivial

theorem Mirrors.use (hm : h.Mirrors s) {r : ResolverId} {m : Machine}
    (hr : h.machine.use? r = some (p, m)) :
    { h with machine := m }.Mirrors { s with machine := m } := by
  refine hm.update rfl rfl (Nat.le_of_eq ?_)
  obtain ⟨-, rfl⟩ := Promise.Machine.use?_eq_some hr
  rw [hm.machine]

theorem Mirrors.resolveVia (hm : h.Mirrors s) (r : ResolverId)
    {x : Promise.Resolution Json Thenable}
    (hx : Promise.Outcome.Known s.machine (.ok (outline x))) : Leads s [] (h.resolveVia r x) := by
  have hrun : Run s (s.via r (.ok (outline x))) := .single (.via r hx)
  refine Leads.of_run hrun ?_ (by simp)
  unfold Host.resolveVia Promise.Session.via
  rw [hm.machine]
  rcases hr : h.machine.use? r with _ | ⟨p, m⟩
  · -- The resolver was used before, and nothing happens.
    exact hm.leads
  · have huse := hm.use hr
    have hslots : m.slots = s.machine.slots := by
      rw [(Promise.Machine.use?_eq_some hr).2, hm.machine]
    exact huse.resolve p (hx.mono (Nat.le_of_eq (congrArg _ hslots.symm)))

theorem Mirrors.rejectVia (hm : h.Mirrors s) (r : ResolverId) (cause : String) :
    (h.rejectVia r cause).Mirrors (s.via r (.error cause)) := by
  unfold Host.rejectVia Promise.Session.via
  rw [hm.machine]
  rcases hr : h.machine.use? r with _ | ⟨p, m⟩
  · exact hm
  · exact (hm.use hr).settle p (.rejected cause)

/-! ### Ends of lists

The host knows what the list was for from its frame, and the session from the call. -/

/-- A call into the program has returned. -/
theorem Mirrors.leave (hm : h.Mirrors { s with calls := cs }) {f : Frame}
    (hcalls : s.calls = f.call :: cs) (hf : f.Within h.machine.slots.size) :
    Leads s [] (h.leave f) := by
  -- What a frame returns to the host is what the session is told at the end of the call.
  cases f with
  | task => exact hm.leads.of_run (.single (.endTask hcalls)) (by simp)
  | initializer name p =>
    exact (hm.made "new" name hf).leads.of_run (.single (.endInitializer hcalls)) (by simp)
  | handler input outcome d =>
    cases outcome with
    | throw cause =>
      have hend : Run s ({ s with calls := cs }.conclude d (.error cause)) :=
        .single (.endHandler hcalls trivial)
      exact (hm.settle d (.rejected cause)).leads.of_run hend (by simp)
    | throwInput =>
      exact (hm.settle d (.rejected _)).leads.of_run
        (.single (.endHandler (o := .error _) hcalls trivial)) (by simp)
    | answer i =>
      rcases hx : h.evaluate input i with message | x
      · simp only [Host.leave, hx]
        exact (hm.settle d (.rejected message)).leads.of_run
          (.single (.endHandler (o := .error message) hcalls trivial)) (by simp)
      · simp only [Host.leave, hx]
        have hknown := hm.known hx
        exact (hm.resolve d hknown).of_run (.single (.endHandler hcalls hknown)) (by simp)
  | body r thrown =>
    cases thrown with
    | none => exact hm.leads.of_run (.single (.endBody hcalls none)) (by simp)
    | some cause =>
      exact (hm.rejectVia r cause).leads.of_run (.single (.endBody hcalls (some cause))) (by simp)

/-! ### Jobs

The host decides by the code of a registration what to do with an outcome, and the session asks whether
there is a handler. `pass` and `answer` are the two ways in which the host never has a list to run. -/

section Jobs

variable {j : Promise.Job Json String Code (List Step)} {m : Machine} {code : Code}
  {x : Settlement Json String} {e : Entry}

/-- The session once the host has taken a job. -/
theorem Mirrors.take (hm : h.Mirrors s) (hj : h.machine.next? = some (j, m)) :
    { h with machine := m }.Mirrors (s.taken j m) := by
  obtain ⟨-, hslots, -, -⟩ := Promise.Machine.next?_eq_some hj
  have hsize : s.machine.slots.size = m.slots.size := by rw [hslots, hm.machine]
  exact hm.update rfl rfl (Nat.le_of_eq hsize)

/-- An outcome for which there is no handler is passed on. -/
theorem Mirrors.pass (hm : h.Mirrors (s.taken (.deliver (.handler code p) x) m))
    (hidle : s.calls = []) (hj : s.machine.next? = some (.deliver (.handler code p) x, m))
    (hcode : ¬ Promise.Registration.handles code x.state) :
    Leads s [.deliver (.handler code p) x] (h.passOn p x) := by
  have hstart : Run s ((s.taken (.deliver (.handler code p) x) m).settle p x) := by
    have hjob := Promise.Step.job hidle hj
    dsimp only [Promise.Session.start] at hjob
    rw [if_neg hcode] at hjob
    exact .single hjob
  exact (hm.settle p x).leads.of_run hstart (by simp)

theorem run_call (hidle : s.calls = [])
    (hj : s.machine.next? = some (.deliver (.handler code p) x, m))
    (hcode : Promise.Registration.handles code x.state) :
    Run s ((s.taken (.deliver (.handler code p) x) m).call (.handler p)) := by
  have hjob := Promise.Step.job hidle hj
  dsimp only [Promise.Session.start] at hjob
  rw [if_pos hcode] at hjob
  exact .single hjob

/-- A handler that answers with a value at once. -/
theorem Mirrors.answer (hm : h.Mirrors (s.taken (.deliver (.handler code p) x) m))
    (hidle : s.calls = []) (hj : s.machine.next? = some (.deliver (.handler code p) x, m))
    (hcode : Promise.Registration.handles code x.state) (v : Json) :
    Leads s [.deliver (.handler code p) x] (h.passOn p (.fulfilled v)) := by
  have hend : Run s ((s.taken (.deliver (.handler code p) x) m).settle p (.fulfilled v)) :=
    (run_call hidle hj hcode).tail (.endHandler (o := .ok (.value v)) rfl trivial)
  exact (hm.settle p (.fulfilled v)).leads.of_run hend (by simp)

theorem Mirrors.handle (hm : h.Mirrors s) (hidle : s.calls = [])
    (hj : h.machine.next? = some (.deliver (.handler code p) x, m)) :
    Leads s [.deliver (.handler code p) x] ({ h with machine := m }.handle p x code) := by
  have htaken := hm.take hj
  rw [← hm.machine] at hj
  cases code with
  | scripted name ok err =>
    cases x with
    | fulfilled v =>
      cases ok with
      | pass => cases err <;> exact htaken.pass hidle hj Bool.false_ne_true
      | run body outcome =>
        have hcall := (htaken.report (.okRan name v)).push (f := .handler v outcome p) trivial body
        exact hcall.leads.of_run (run_call hidle hj rfl) (by simp)
    | rejected c =>
      cases err with
      | pass => cases ok <;> exact htaken.pass hidle hj Bool.false_ne_true
      | run body outcome =>
        have hcall := (htaken.report (.errRan name c)).push (f := .handler (.str c) outcome p)
          trivial body
        cases ok <;> exact hcall.leads.of_run (run_call hidle hj rfl) (by simp)
  | add name n =>
    cases x with
    | fulfilled v =>
      cases name with
      | none => exact htaken.answer hidle hj rfl (addTo n v)
      | some name => exact (htaken.report (.mapRan name v)).answer hidle hj rfl (addTo n v)
    | rejected c => exact htaken.pass hidle hj Bool.false_ne_true
  | encode =>
    cases x with
    | fulfilled v => exact htaken.answer hidle hj rfl (.str v.text)
    | rejected c => exact htaken.pass hidle hj Bool.false_ne_true
  | size =>
    cases x with
    | fulfilled v =>
      -- What is not a text is the answer itself.
      cases v <;> exact htaken.answer hidle hj rfl _
    | rejected c => exact htaken.pass hidle hj Bool.false_ne_true
  | fan name i =>
    cases x with
    | fulfilled v =>
      exact (htaken.report (.fanRan name i)).pass hidle hj Bool.false_ne_true
    | rejected c => exact htaken.pass hidle hj Bool.false_ne_true
  | relay => exact htaken.pass hidle hj Bool.false_ne_true

theorem Mirrors.start (hm : h.Mirrors s) (hidle : s.calls = [])
    (hj : h.machine.next? = some (j, m)) : Leads s [j] ({ h with machine := m }.start j) := by
  have htaken := hm.take hj
  have hjob : Run s ({ s with machine := m }.start j) :=
    .single (.job hidle (hm.machine ▸ hj))
  match j, hj with
  | .deliver (.handler code d) x, hj => exact hm.handle hidle hj
  | .deliver (.adoption p) x, hj => exact (htaken.settle p x).leads.of_run hjob (by simp)
  | .deliver (.wake a) x, hj =>
    have hslots := (Promise.Machine.alike_wake m a x).slots
    have hwake := htaken.update (t := { s.taken (.deliver (.wake a) x) m with
      machine := m.wake a x }) rfl rfl (Nat.le_of_eq (congrArg _ hslots.symm))
    exact hwake.leads.of_run hjob (by simp)
  | .poll a, hj =>
    have hslots := (Promise.Machine.alike_poll m a).slots
    have hpoll := htaken.update (t := { s.taken (.poll a) m with machine := (m.poll a).2 }) rfl rfl
      (Nat.le_of_eq (congrArg _ hslots.symm))
    refine Leads.of_run hjob ?_ (by simp)
    unfold Host.start
    dsimp only
    split
    · exact (hpoll.report _).leads
    · exact hpoll.leads
  | .task steps, hj =>
    exact (htaken.push (f := .task) trivial steps).leads.of_run hjob (by simp)

end Jobs

/-! ### Steps -/

theorem Mirrors.withValue (hm : h.Mirrors s) (on : String) {f : PromiseId → Host}
    (hf : ∀ p, p < h.machine.slots.size → Leads s [] (f p)) : Leads s [] (h.withValue on f) := by
  unfold Host.withValue
  split
  · rename_i p hp
    exact hf p (hm.lt_of_value? hp)
  · exact (hm.report _).leads

/-- One registration after the other, each on the promise before. -/
theorem run_registerChain (codes : List Code) {s : Session} {p : PromiseId}
    (hp : p < s.machine.slots.size) :
    ∃ t, Run s t ∧ t.started = s.started ∧ t.machine = (registerChain s.machine p codes).2 ∧
      t.calls = s.calls ∧ (registerChain s.machine p codes).1 < t.machine.slots.size := by
  induction codes generalizing s p with
  | nil => exact ⟨s, .refl, rfl, rfl, rfl, hp⟩
  | cons c codes ih =>
    -- The next registration is on the dependent of this one.
    have hrun : Run s (s.register p c) := .single (.register hp c)
    have hsize : (s.register p c).machine.slots.size = s.machine.slots.size + 1 :=
      (Promise.Machine.size_react _ _ _).trans (Promise.Machine.size_create _)
    have hnew : s.machine.slots.size < (s.register p c).machine.slots.size := by
      rw [hsize]
      exact Nat.lt_succ_self _
    obtain ⟨t, ht, hquiet, hmachine, hcalls, hlast⟩ := ih hnew
    exact ⟨t, hrun.trans ht, hquiet.trans (by simp), hmachine, hcalls, hlast⟩

/-- Several registrations on one promise. -/
theorem run_fan (name : String) (is : List Nat) {s : Session} {p : PromiseId}
    (hp : p < s.machine.slots.size) :
    ∃ t, Run s t ∧ t.started = s.started ∧ t.calls = s.calls ∧
      t.machine = is.foldl (fun m i => (m.register p (.fan name i)).2) s.machine := by
  induction is generalizing s with
  | nil => exact ⟨s, .refl, rfl, rfl, rfl⟩
  | cons i is ih =>
    have hrun : Run s (s.register p (.fan name i)) := .single (.register hp _)
    have hle := (Promise.Run.transfers hrun).size_le
    obtain ⟨t, ht, hquiet, hcalls, hmachine⟩ := ih (Nat.lt_of_lt_of_le hp hle)
    exact ⟨t, hrun.trans ht, hquiet.trans (by simp), hcalls, hmachine⟩

theorem Mirrors.registered (hm : h.Mirrors s) (kind on name : String) (codes : List Code) :
    Leads s [] (h.registered kind on name codes) := by
  refine hm.withValue on fun p hp => ?_
  rw [← hm.machine] at hp ⊢
  obtain ⟨t, ht, hquiet, hmachine, hcalls, hlast⟩ := run_registerChain codes hp
  have hchain := hm.run ht hmachine hcalls
  rw [hmachine] at hlast
  exact (hchain.made kind name hlast).leads.of_run ht (by simp [hquiet])

/-- A new promise, with an outcome or without. -/
theorem Mirrors.make (hm : h.Mirrors s) (kind name : String) (x : Option (Settlement Json String)) :
    Leads s [] (h.make kind name x) := by
  have hrun : Run s (s.make x) := .single (.make x)
  have hsize : h.machine.slots.size < h.machine.create.2.slots.size := by simp
  cases x with
  | none =>
    have hmade := hm.run hrun (m := h.machine.create.2)
      (congrArg (fun m => m.create.2) hm.machine) rfl
    exact (hmade.made kind name hsize).leads.of_run hrun (by simp)
  | some x =>
    have hmachine : (s.make (some x)).machine
        = h.machine.create.2.settle h.machine.slots.size x :=
      congrArg (fun m : Machine => m.create.2.settle m.slots.size x) hm.machine
    have hmade := hm.run hrun hmachine rfl
    refine (hmade.made kind name ?_).leads.of_run hrun (by simp)
    rwa [Promise.Machine.size_settle]

theorem Mirrors.startAwait (hm : h.Mirrors s) (name : String) (hp : p < s.machine.slots.size) :
    Run s (s.awaitApart p) ∧ (h.startAwait name p).Mirrors (s.awaitApart p) := by
  have hrun : Run s (s.awaitApart p) := Promise.run_awaitApart hp
  have hawait := hm.run hrun (congrArg (fun m => (m.awaitApart p).2) hm.machine) rfl
  exact ⟨hrun, ⟨hawait.machine, hawait.calls, hawait.named, hawait.frames⟩⟩

/-- What is left of the list on top makes no difference to the session. -/
theorem Mirrors.goOn (hm : h.Mirrors s) {f : Frame} {rest : List Step}
    {below : List (Frame × List Step)} (hstack : h.stack = (f, rest) :: below)
    (rest' : List Step) : { h with stack := (f, rest') :: below }.Mirrors s := by
  have hcalls := hm.calls
  have hframes := hm.frames
  rw [hstack] at hcalls hframes
  refine ⟨hm.machine, hcalls, hm.named, fun e he => ?_⟩
  rcases List.mem_cons.mp he with rfl | he
  · exact hframes (f, rest) List.mem_cons_self
  · exact hframes e (List.mem_cons_of_mem _ he)

theorem Mirrors.step (hm : h.Mirrors s) {f : Frame} {rest : List Step}
    {below : List (Frame × List Step)} (hstack : h.stack = (f, rest) :: below) (st : Step) :
    Leads s [] (h.step f rest below st) := by
  cases st with
  | log tag => exact (hm.report _).leads
  | deferred name =>
    have hrun : Run s s.defer := .single .defer
    have hdefer := hm.run hrun (congrArg (fun m : Machine => m.defer.2.2) hm.machine) rfl
    have hnamed : ({ h with
        machine := h.machine.defer.2.2
        deferreds := h.deferreds.insert name (h.machine.slots.size, h.machine.resolvers.size) } :
        Host).Mirrors s.defer := ⟨hdefer.machine, hdefer.calls, hdefer.named, hdefer.frames⟩
    refine (hnamed.made "deferred" name ?_).leads.of_run hrun (by simp)
    show h.machine.slots.size < h.machine.create.2.slots.size
    simp
  | resolver on name =>
    unfold Host.step
    dsimp only
    split
    · exact ((hm.bindResolver _ _).report _).leads
    · exact (hm.report _).leads
  | create name resolver body =>
    have hdefer := hm.update (t := s.defer)
      (congrArg (fun m : Machine => m.defer.2.2) hm.machine) rfl
      (Nat.le_of_lt (by simp [Promise.Session.defer, Promise.Session.create,
        Promise.Session.openResolver, Promise.Machine.openResolver]))
    have hrun : Run s (s.defer.call (.initializer h.machine.slots.size)) :=
      hm.machine ▸ .single .init
    have hframe : (Frame.initializer name h.machine.slots.size).Within
        h.machine.defer.2.2.slots.size := by
      show h.machine.slots.size < h.machine.create.2.slots.size
      simp
    cases resolver with
    | none => exact (hdefer.push hframe body).leads.of_run hrun (by simp)
    | some x =>
      have hbound := hdefer.bindResolver x h.machine.resolvers.size
      exact (hbound.push hframe body).leads.of_run hrun (by simp)
  | pending name => exact hm.make "pending" name none
  | fulfilled name v => exact hm.make "fulfilled" name (some (.fulfilled v))
  | rejected name c => exact hm.make "rejected" name (some (.rejected c))
  | resolve on input =>
    unfold Host.step
    dsimp only
    split
    · exact (hm.report _).leads
    · rename_i x hx
      split
      · rename_i r hr
        exact (hm.goOn hstack _).resolveVia r (hm.known hx)
      · exact (hm.report _).leads
  | reject on cause =>
    unfold Host.step
    dsimp only
    split
    · rename_i r hr
      have hvia := (hm.goOn hstack (.report "reject" on :: rest)).rejectVia r cause
      exact hvia.leads.of_run (.single (.via r (o := .error cause) trivial)) (by simp)
    · exact (hm.report _).leads
  | register kind on name ok err => exact hm.registered kind.label on name [.scripted name ok err]
  | map on name n => exact hm.registered "map" on name [.add (some name) n]
  | measure on name => exact hm.registered "measure" on name [.encode, .size]
  | chain on name count n =>
    exact hm.registered "chain" on name (List.replicate count (.add none n))
  | fan on name count =>
    refine hm.withValue on fun p hp => ?_
    rw [← hm.machine] at hp
    obtain ⟨t, ht, hquiet, hcalls, hmachine⟩ := run_fan name (List.range count) hp
    rw [hm.machine] at hmachine
    exact ((hm.run ht hmachine hcalls).report _).leads.of_run ht (by simp [hquiet])
  | state on => exact hm.withValue on fun p _ => (hm.report _).leads
  | settlement on => exact hm.withValue on fun p _ => (hm.report _).leads
  | await on name =>
    refine hm.withValue on fun p hp => ?_
    obtain ⟨hrun, hawait⟩ := hm.startAwait name (hm.machine ▸ hp)
    exact (hawait.report _).leads.of_run hrun (by simp)
  | awaitOrphan name depth =>
    -- The promise, the chain on it, the await, and the loss of what could settle the promise.
    have hcreate : Run s s.create := .single (.make none)
    have hfirst : s.machine.slots.size < s.create.machine.slots.size := by
      simp [Promise.Session.create]
    obtain ⟨t, ht, hquiet, hmachine, hcalls, hlast⟩ :=
      run_registerChain (List.replicate depth .relay) hfirst
    have hstart : s.create.machine = h.machine.create.2 :=
      congrArg (fun m : Machine => m.create.2) hm.machine
    rw [hstart, hm.machine] at hmachine hlast
    have hchain := hm.run (hcreate.trans ht) hmachine hcalls
    obtain ⟨hawait, hwaiting⟩ := hchain.startAwait name hlast
    have hleft := hwaiting.run (.single (.abandon h.machine.slots.size))
      (congrArg (fun m : Machine => m.abandon h.machine.slots.size) hwaiting.machine) rfl
    have hrun := ((hcreate.trans ht).trans hawait).tail (.abandon h.machine.slots.size)
    exact (hleft.report _).leads.of_run hrun (by simp [hquiet])
  | isSame on other => exact (hm.report _).leads
  | debug on => exact (hm.report _).leads
  | debugInput on input => exact (hm.report _).leads
  | spawn body =>
    have hrun : Run s (s.spawn body) := .single (.spawn body)
    have hspawn := hm.run hrun (congrArg (fun m : Machine => m.enqueue (.task body)) hm.machine) rfl
    exact (hspawn.report _).leads.of_run hrun (by simp)
  | turn =>
    -- The rest of the list goes on as a job of its own, and nothing is left of the list on top.
    have hrun : Run s (s.spawn (.resumed :: rest)) := .single (.spawn _)
    have hspawn := (hm.goOn hstack []).run hrun
      (congrArg (fun m : Machine => m.enqueue (.task (.resumed :: rest))) hm.machine) rfl
    exact hspawn.leads.of_run hrun (by simp)
  | resumed => exact (hm.report _).leads
  | report kind on => exact (hm.report _).leads

/-! ### Moves

One move is a step of the list on top, its end, or a job, in this order. -/

/-- The job that the next move starts. -/
def job? (h : Host) : Option Job :=
  match h.stack with
  | [] => h.machine.next?.map (·.1)
  | _ :: _ => none

/-- The jobs that start in the next `n` moves. -/
def jobs : Nat → Host → List Job
  | 0, _ => []
  | n + 1, h =>
    match h.tick with
    | some h' => h.job?.toList ++ jobs n h'
    | none => []

theorem Mirrors.tick (hm : h.Mirrors s) {h' : Host} (ht : h.tick = some h') :
    Leads s h.job?.toList h' := by
  unfold Host.tick at ht
  split at ht
  · -- The list on top has another step.
    rename_i f st rest below hstack
    obtain rfl := Option.some.inj ht
    rw [job?, hstack]
    exact (hm.goOn hstack rest).step rfl st
  · -- The list on top is done, so its call returns.
    rename_i f below hstack
    obtain rfl := Option.some.inj ht
    have hcalls := hm.calls
    have hframes := hm.frames
    rw [hstack] at hcalls hframes
    have hbelow : { h with stack := below }.Mirrors
        { s with calls := below.map fun e : Frame × List Step => e.1.call } :=
      ⟨hm.machine, rfl, hm.named, fun e he => hframes e (List.mem_cons_of_mem _ he)⟩
    rw [job?, hstack]
    exact hbelow.leave hcalls (hframes _ List.mem_cons_self)
  · -- Nothing is running, so the host takes a job.
    rename_i hstack
    have hidle : s.calls = [] := by rw [hm.calls, hstack, List.map_nil]
    split at ht
    · rename_i j m hj
      obtain rfl := Option.some.inj ht
      have hjob : h.job? = some j := by simp [job?, hstack, hj]
      rw [hjob]
      exact hm.start hidle hj
    · cases ht

theorem Mirrors.moves (hm : h.Mirrors s) (n : Nat) : Leads s (h.jobs n) (h.moves n) := by
  induction n generalizing h s with
  | zero => exact hm.leads
  | succ n ih =>
    unfold Host.moves Host.jobs
    rcases ht : h.tick with _ | h'
    · exact hm.leads
    · obtain ⟨t, hrun, hjob, hm'⟩ := hm.tick ht
      obtain ⟨u, hrun', hjobs, hm''⟩ := ih hm'
      exact ⟨u, hrun.trans hrun', by simp [hjobs, hjob], hm''⟩

/-- A script starts as a job of its own. -/
theorem init_leads (script : List Step) : Leads .empty [.task script] (Host.init script) := by
  have hspawn : Run (.empty : Session) (Promise.Session.empty.spawn script) :=
    .single (.spawn script)
  have hstart : Run (.empty : Session) (Promise.Session.empty.spawn script).turn :=
    hspawn.trans (Promise.run_turn rfl)
  refine ⟨_, hstart, rfl, rfl, rfl, fun e he => ?_, fun e he => ?_⟩
  · cases he
  · obtain rfl := List.mem_singleton.mp he
    trivial

/-- Wherever the host of a script gets, a session gets, and it starts the same jobs. -/
theorem moves_reachable (script : List Step) (n : Nat) :
    ∃ s : Session, Reachable s ∧ s.started = .task script :: (Host.init script).jobs n ∧
      ((Host.init script).moves n).Mirrors s := by
  obtain ⟨s, hs, hjob, hm⟩ := init_leads script
  obtain ⟨t, ht, hjobs, hm'⟩ := hm.moves n
  exact ⟨t, hs.trans ht, by rw [hjobs, hjob]; rfl, hm'⟩

/-! ### What holds of every script -/

theorem moves_of_tick_eq_none (ht : h.tick = none) (n : Nat) : h.moves n = h := by
  cases n with
  | zero => rfl
  | succ n => rw [Host.moves, ht]

theorem moves_add (h : Host) (n k : Nat) : h.moves (n + k) = (h.moves n).moves k := by
  induction n generalizing h with
  | zero => rw [Nat.zero_add, Host.moves]
  | succ n ih =>
    rw [Nat.add_right_comm, Host.moves, Host.moves]
    rcases ht : h.tick with _ | h'
    · exact (moves_of_tick_eq_none ht k).symm
    · exact ih h'

/-- There is never more than one way to settle a promise, and none for a settled one. -/
theorem authority_le_room (script : List Step) (n : Nat) (p : PromiseId) :
    ((Host.init script).moves n).machine.authority p
      ≤ ((Host.init script).moves n).machine.room p := by
  obtain ⟨s, hs, -, hm⟩ := moves_reachable script n
  have hsingle := (Promise.Reachable.sound hs).single p
  rw [← hm.machine]
  unfold Promise.Session.rights at hsingle
  omega

/-- An outcome stays, whatever the script does after that. -/
theorem settlement?_of_moves (script : List Step) (n k : Nat) {x : Settlement Json String}
    (hx : ((Host.init script).moves n).machine.settlement? p = some x) :
    ((Host.init script).moves (n + k)).machine.settlement? p = some x := by
  obtain ⟨s, hs, -, hm⟩ := moves_reachable script n
  obtain ⟨t, ht, -, hm'⟩ := hm.moves k
  rw [← hm.machine] at hx
  rw [moves_add, ← hm'.machine]
  exact (Promise.Run.transfers ht).settlement?_of_some (Promise.Reachable.sound hs) hx

end Host

end Script

end Switchboard
