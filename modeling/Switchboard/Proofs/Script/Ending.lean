import Switchboard.Proofs.Promise.Timing
import Switchboard.Proofs.Promise.Work
import Switchboard.Proofs.Script.Session

/-!
# Scripts end

A move of the host can queue jobs, call lists of steps and register handlers that hold more of them.
But all that it adds is part of the step, the frame or the job that it uses up, and weighs less.

- `Code.weight`, `Frame.weight`: what a handler and the end of a list can still cause.
- `backlog`: what the machine has left to do. Each operation has a lemma on it.
- `Host.remaining`: what the host has left to do, with the lists on the stack.
- `tick_lt`: every move leaves less.
- `tick_stack`: a move works on the list on top, and leaves those below alone.
- `scripts_end`: the host comes to rest, every call returns, and no more reactions run than were
  registered.

## The measure

A script is a tree, and weighs as much as has to be done for all of it: each step once, with one more
for each job or frame that it makes, and with the lists inside it. It is not enough that what is called
is smaller than the step, since a handler is not called but registered, and comes up again later, at any
distance. So the weight follows what it stands for: from the step to the reaction in a promise, from
there to the job in the queue, and from there to the frame on the stack. `Machine.work` counts the part
that is in the machine, with `Code.weight` for a handler, and `stackWeight` the part on the stack. Of a
handler only one side will run, but both are counted until it is known which.

`step_lt` is then one case for each kind of step, and what it adds up is the weights in the definition
of `Step.weight`. Nothing here looks at promises: whether one is settled, or ever will be, changes the
order in which weight is used up and not the amount. A reaction that never runs keeps its weight for
good.

That every call returns is a second fact. A host that has come to rest has an empty stack, and
`tick_stack` says that a list below is not touched before those on top are done.
-/

namespace Switchboard.Script

open Promise (PromiseId ResolverId AwaitId Settlement Reachable)

/-! ### Weights -/

attribute [simp] Step.weight weights Handler.weight

/-- What a handler is worth: its delivery, and what either side of it can cause. -/
def Code.weight : Code → Nat
  | .scripted _ ok err => 1 + ok.weight + err.weight
  | _ => 1

/-- What a reaction is worth. -/
def effort : Promise.Reaction Code → Nat
  | .handler code _ => code.weight
  | .adoption _ | .wake _ => 1

/-- What the end of a list can cause, with that move. -/
def Frame.weight : Frame → Nat
  | .handler _ outcome _ => 1 + outcome.weight
  | _ => 1

def stackWeight (stack : List (Frame × List Step)) : Nat :=
  stack.foldr (fun e n => e.1.weight + weights e.2 + n) 0

/-- What tasks cause once they have started. -/
def taskWeight (tasks : List (List Step)) : Nat := tasks.foldr (fun t n => 1 + weights t + n) 0

def codesWeight (codes : List Code) : Nat := codes.foldr (fun c n => c.weight + n) 0

/-- What a resolution can cause. -/
def resolutionWeight : Promise.Resolution Json Thenable → Nat
  | .value _ => 0
  | .promise _ => 1
  | .thenable t => t.weight

/-- What the machine has left to do. -/
def backlog (m : Machine) : Nat := m.work effort + taskWeight m.tasks

/-- What the host has left to do. -/
def Host.remaining (h : Host) : Nat := stackWeight h.stack + backlog h.machine

@[simp] theorem stackWeight_cons (f : Frame) (steps : List Step) (below : List (Frame × List Step)) :
    stackWeight ((f, steps) :: below) = f.weight + weights steps + stackWeight below := rfl

theorem weights_nil : weights [] = 0 := by simp

theorem weights_cons (st : Step) (rest : List Step) :
    weights (st :: rest) = st.weight + weights rest := by simp

theorem taskWeight_append (ts ts' : List (List Step)) :
    taskWeight (ts ++ ts') = taskWeight ts + taskWeight ts' := by
  induction ts with
  | nil => simp [taskWeight]
  | cons t ts ih =>
    show 1 + weights t + taskWeight (ts ++ ts') = 1 + weights t + taskWeight ts + taskWeight ts'
    omega

theorem codesWeight_replicate {c : Code} (hc : c.weight = 1) (n : Nat) :
    codesWeight (List.replicate n c) = n := by
  induction n with
  | zero => rfl
  | succ n ih =>
    show c.weight + codesWeight (List.replicate n c) = n + 1
    rw [hc, ih, Nat.add_comm]

theorem Frame.weight_pos (f : Frame) : 0 < f.weight := by
  cases f with
  | handler input outcome d => exact Nat.add_pos_left Nat.one_pos _
  | task => exact Nat.one_pos
  | initializer name p => exact Nat.one_pos
  | body r thrown => exact Nat.one_pos

/-! ### The machine

What each operation adds to the backlog. Settling adds nothing, however many reactions become due. -/

variable {m m' : Machine} {p q : PromiseId} {x : Settlement Json String}

@[simp] theorem backlog_create (m : Machine) : backlog m.create.2 = backlog m := by
  unfold backlog
  rw [Promise.Machine.work_create]
  rfl

@[simp] theorem backlog_defer (m : Machine) : backlog m.defer.2.2 = backlog m := by
  unfold backlog
  rw [Promise.Machine.work_defer]
  rfl

@[simp] theorem backlog_settle (m : Machine) (p : PromiseId) (x : Settlement Json String) :
    backlog (m.settle p x) = backlog m := by
  unfold backlog
  rw [Promise.Machine.work_settle, Promise.Machine.tasks_settle]

theorem backlog_use {r : ResolverId} (h : m.use? r = some (p, m')) : backlog m' = backlog m := by
  unfold backlog
  rw [Promise.Machine.work_use effort h, Promise.Machine.tasks_use h]

theorem backlog_adopt_le (m : Machine) (p q : PromiseId) :
    backlog (m.adopt p q) ≤ backlog m + 1 := by
  have hwork := Promise.Machine.work_adopt_le effort m p q
  unfold backlog
  rw [Promise.Machine.tasks_adopt]
  simp only [effort] at hwork
  omega

theorem backlog_register_le (m : Machine) (p : PromiseId) (code : Code) :
    backlog (m.register p code).2 ≤ backlog m + code.weight := by
  have hwork := Promise.Machine.work_register_le effort m p code
  unfold backlog
  rw [Promise.Machine.tasks_register]
  simp only [effort] at hwork
  omega

theorem backlog_awaitApart_le (m : Machine) (p : PromiseId) :
    backlog (m.awaitApart p).2 ≤ backlog m + 3 := by
  have hwork := Promise.Machine.work_awaitApart_le effort m p
  unfold backlog
  rw [Promise.Machine.tasks_awaitApart]
  simp only [effort] at hwork
  omega

theorem backlog_abandon_le (m : Machine) (p : PromiseId) :
    backlog (m.abandon p) ≤ backlog m := by
  unfold backlog
  rw [Promise.Machine.tasks_abandon]
  exact Nat.add_le_add_right (Promise.Machine.work_abandon_le effort m p) _

theorem backlog_wake_le (m : Machine) (a : AwaitId) (x : Settlement Json String) :
    backlog (m.wake a x) ≤ backlog m := by
  unfold backlog
  rw [Promise.Machine.tasks_wake]
  exact Nat.add_le_add_right (Promise.Machine.work_wake_le effort m a x) _

@[simp] theorem backlog_poll (m : Machine) (a : AwaitId) :
    backlog (m.poll a).2 = backlog m := by
  unfold backlog
  rw [Promise.Machine.tasks_poll, Promise.Machine.work_poll]

/-- A task is a job, a list and its steps. -/
@[simp] theorem backlog_enqueue_task (m : Machine) (steps : List Step) :
    backlog (m.enqueue (.task steps)) = backlog m + 2 + weights steps := by
  have hwork := Promise.Machine.work_enqueue effort m (j := .task steps) rfl
  have htasks : taskWeight [steps] = 1 + weights steps := rfl
  unfold backlog
  rw [Promise.Machine.tasks_enqueue, taskWeight_append, Promise.Job.task?, Option.toList_some]
  omega

theorem backlog_next? {j : Job} (h : m.next? = some (j, m')) :
    backlog m = backlog m' + match j with
      | .deliver r _ => effort r
      | .poll _ => 1
      | .task steps => 2 + weights steps := by
  have htasks := Promise.Machine.tasks_next? h
  unfold backlog
  rw [htasks, taskWeight_append]
  match j, h with
  | .deliver r x, h =>
    have hwork := Promise.Machine.work_next?_deliver effort h
    show _ + (taskWeight [] + _) = _ + effort r
    simp only [taskWeight, List.foldr_nil]
    omega
  | .poll a, h =>
    have hwork := Promise.Machine.work_next?_idle effort rfl h
    show _ + (taskWeight [] + _) = _ + 1
    simp only [taskWeight, List.foldr_nil]
    omega
  | .task steps, h =>
    have hwork := Promise.Machine.work_next?_idle effort rfl h
    show _ + (taskWeight [steps] + _) = _ + (2 + weights steps)
    simp only [taskWeight, List.foldr_cons, List.foldr_nil]
    omega

theorem backlog_registerChain_le (codes : List Code) (m : Machine) (p : PromiseId) :
    backlog (Host.registerChain m p codes).2 ≤ backlog m + codesWeight codes := by
  induction codes generalizing m p with
  | nil => exact Nat.le_refl _
  | cons c codes ih =>
    have hfirst := backlog_register_le m p c
    have hrest := ih (m.register p c).2 (m.register p c).1
    refine Nat.le_trans hrest ?_
    show _ ≤ backlog m + (c.weight + codesWeight codes)
    omega

theorem backlog_fan_le (name : String) (p : PromiseId) (is : List Nat) (m : Machine) :
    backlog (is.foldl (fun m i => (m.register p (.fan name i)).2) m) ≤ backlog m + is.length := by
  induction is generalizing m with
  | nil => exact Nat.le_refl _
  | cons i is ih =>
    have hfirst := backlog_register_le m p (.fan name i)
    have hrest := ih (m.register p (.fan name i)).2
    simp only [Code.weight] at hfirst
    simp only [List.foldl_cons, List.length_cons]
    omega

/-! ### The host -/

namespace Host

variable {h h' : Host} {f : Frame} {rest : List Step} {below : List (Frame × List Step)} {j : Job}

@[simp] theorem remaining_report (h : Host) (e : Entry) :
    (h.report e).remaining = h.remaining := rfl

@[simp] theorem remaining_push (h : Host) (f : Frame) (steps : List Step) :
    (h.push f steps).remaining = f.weight + weights steps + h.remaining :=
  Nat.add_assoc ..

/-- With the same stack, the machine is all that counts. -/
theorem remaining_le {n : Nat} (hstack : h'.stack = h.stack)
    (hm : backlog h'.machine ≤ backlog h.machine + n) : h'.remaining ≤ h.remaining + n := by
  unfold remaining
  rw [hstack]
  omega

/-! ### Resolution

A foreign object is worth the steps of what its `then` member calls, and these go on the stack at once.
-/

/-- The body of a thenable is part of its weight. -/
theorem remaining_assimilate_le (h : Host) (p : PromiseId) (o : Thenable) :
    (h.assimilate p o).remaining ≤ h.remaining + o.weight := by
  cases o with
  | unreadable label cause => exact remaining_le rfl (Nat.le_of_eq (backlog_settle ..))
  | plain label v => exact remaining_le rfl (Nat.le_of_eq (backlog_settle ..))
  | callable label resolver body thrown =>
    have hpush : (h.assimilate p (.callable label resolver body thrown)).remaining =
        1 + weights body + h.remaining := by
      cases resolver <;> exact Nat.add_assoc ..
    rw [hpush, Thenable.weight]
    omega

theorem remaining_resolve_le (h : Host) (p : PromiseId) (x : Promise.Resolution Json Thenable) :
    (h.resolve p x).remaining ≤ h.remaining + resolutionWeight x := by
  cases x with
  | value v => exact remaining_le rfl (Nat.le_of_eq (backlog_settle ..))
  | promise q => exact remaining_le rfl (backlog_adopt_le ..)
  | thenable o => exact remaining_assimilate_le h p o

theorem remaining_resolveVia_le (h : Host) (r : ResolverId)
    (x : Promise.Resolution Json Thenable) :
    (h.resolveVia r x).remaining ≤ h.remaining + resolutionWeight x := by
  unfold resolveVia
  rcases hr : h.machine.use? r with _ | ⟨p, m⟩
  · exact Nat.le_add_right _ _
  · have huse := remaining_resolve_le { h with machine := m } p x
    have hsame : { h with machine := m }.remaining = h.remaining :=
      congrArg (stackWeight h.stack + ·) (backlog_use hr)
    rwa [hsame] at huse

theorem remaining_rejectVia (h : Host) (r : ResolverId) (cause : String) :
    (h.rejectVia r cause).remaining = h.remaining := by
  unfold rejectVia
  rcases hr : h.machine.use? r with _ | ⟨p, m⟩
  · rfl
  · exact congrArg (stackWeight h.stack + ·) ((backlog_settle ..).trans (backlog_use hr))

theorem resolutionWeight_le {v : Json} {i : Input} {x : Promise.Resolution Json Thenable}
    (hx : h.evaluate v i = .ok x) : resolutionWeight x ≤ i.weight := by
  cases i with
  | ref name =>
    simp only [evaluate] at hx
    split at hx
    · cases hx
      exact Nat.le_succ 1
    · cases hx
  | value v => cases hx; exact Nat.zero_le _
  | wrap tag => cases hx; exact Nat.zero_le _
  | add n => cases hx; exact Nat.zero_le _
  | thenable o => cases hx; exact Nat.le_refl _
  | same => cases hx; exact Nat.zero_le _

/-! ### Moves

Each step, each end of a list and each job against its own weight. Between a step and its parts there is
always one to spare, for the move itself. -/

theorem remaining_withValue_le {n : Nat} (on : String) {g : PromiseId → Host}
    (hg : ∀ p, (g p).remaining ≤ h.remaining + n) :
    (h.withValue on g).remaining ≤ h.remaining + n := by
  unfold withValue
  split
  · exact hg _
  · exact Nat.le_add_right _ _

theorem remaining_registered_le (h : Host) (kind on name : String) (codes : List Code) :
    (h.registered kind on name codes).remaining ≤ h.remaining + codesWeight codes :=
  remaining_withValue_le on fun p => remaining_le rfl (backlog_registerChain_le codes h.machine p)

theorem remaining_make_le (h : Host) (kind name : String) (x : Option (Settlement Json String)) :
    (h.make kind name x).remaining ≤ h.remaining := by
  cases x with
  | none => exact remaining_le (n := 0) rfl (Nat.le_of_eq (backlog_create _))
  | some x =>
    have hmade := (backlog_settle h.machine.create.2 h.machine.slots.size x).trans (backlog_create _)
    exact remaining_le (n := 0) rfl (Nat.le_of_eq hmade)

theorem remaining_fan_le (h : Host) (f : Frame) (rest : List Step)
    (below : List (Frame × List Step)) (on name : String) (count : Nat) :
    (h.step f rest below (.fan on name count)).remaining ≤ h.remaining + count := by
  refine remaining_withValue_le on fun p => remaining_le rfl ?_
  have hle := backlog_fan_le name p (List.range count) h.machine
  rwa [List.length_range] at hle

/-- The registrations, and the await at the end of them. -/
theorem remaining_awaitOrphan_le (h : Host) (f : Frame) (rest : List Step)
    (below : List (Frame × List Step)) (name : String) (depth : Nat) :
    (h.step f rest below (.awaitOrphan name depth)).remaining ≤ h.remaining + (depth + 3) := by
  let chain := registerChain h.machine.create.2 h.machine.slots.size (List.replicate depth .relay)
  have hchain : backlog chain.2 ≤ backlog h.machine + depth := by
    have hle := backlog_registerChain_le (List.replicate depth .relay) h.machine.create.2
      h.machine.slots.size
    rwa [codesWeight_replicate rfl, backlog_create] at hle
  have hawait := backlog_awaitApart_le chain.2 chain.1
  have hlost := backlog_abandon_le (chain.2.awaitApart chain.1).2 h.machine.slots.size
  refine remaining_le rfl ?_
  show backlog ((chain.2.awaitApart chain.1).2.abandon h.machine.slots.size) ≤ _
  omega

/-- A settle step leaves a report behind, as the next step of its list. -/
theorem remaining_goOn (hstack : h.stack = (f, rest) :: below) (kind on : String) :
    { h with stack := (f, .report kind on :: rest) :: below }.remaining = h.remaining + 1 := by
  have hreport : weights (.report kind on :: rest) = 1 + weights rest := by simp
  show stackWeight ((f, .report kind on :: rest) :: below) + backlog h.machine =
    stackWeight h.stack + backlog h.machine + 1
  rw [hstack, stackWeight_cons, stackWeight_cons, hreport]
  omega

theorem step_create_lt (h : Host) (f : Frame) (rest : List Step) (below : List (Frame × List Step))
    (name : String) (resolver : Option String) (body : List Step) :
    (h.step f rest below (.create name resolver body)).remaining <
      h.remaining + (Step.create name resolver body).weight := by
  have hpush : (h.step f rest below (.create name resolver body)).remaining =
      1 + weights body + h.remaining := by
    have hdefer : stackWeight h.stack + backlog h.machine.defer.2.2 = h.remaining :=
      congrArg (stackWeight h.stack + ·) (backlog_defer _)
    rw [← hdefer]
    cases resolver <;> exact Nat.add_assoc ..
  rw [hpush, Step.weight]
  omega

/-- Besides what the resolution can cause there is the report, which is a move of its own. -/
theorem step_resolve_lt (hstack : h.stack = (f, rest) :: below) (on : String) (input : Input) :
    (h.step f rest below (.resolve on input)).remaining <
      h.remaining + (Step.resolve on input).weight := by
  unfold Host.step
  dsimp only
  rw [Step.weight]
  split
  · rw [remaining_report]
    omega
  · rename_i x hx
    have hweight := resolutionWeight_le hx
    split
    · rename_i r hr
      have hvia := remaining_resolveVia_le
        { h with stack := (f, .report "resolve" on :: rest) :: below } r x
      rw [remaining_goOn hstack] at hvia
      omega
    · rw [remaining_report]
      omega

theorem step_reject_lt (hstack : h.stack = (f, rest) :: below) (on cause : String) :
    (h.step f rest below (.reject on cause)).remaining <
      h.remaining + (Step.reject on cause).weight := by
  unfold Host.step
  dsimp only
  rw [Step.weight]
  split
  · rw [remaining_rejectVia, remaining_goOn hstack]
    omega
  · rw [remaining_report]
    omega

/-- The handlers of a registration are lighter than the step that makes it. -/
theorem registered_lt (h : Host) (kind on name : String) (codes : List Code) {n : Nat}
    (hn : codesWeight codes < n) : (h.registered kind on name codes).remaining < h.remaining + n := by
  have hle := remaining_registered_le h kind on name codes
  omega

theorem step_spawn_lt (h : Host) (f : Frame) (rest : List Step) (below : List (Frame × List Step))
    (body : List Step) :
    (h.step f rest below (.spawn body)).remaining < h.remaining + (Step.spawn body).weight := by
  have hspawn : (h.step f rest below (.spawn body)).remaining =
      stackWeight h.stack + (backlog h.machine + 2 + weights body) :=
    congrArg (stackWeight h.stack + ·) (backlog_enqueue_task ..)
  rw [hspawn, Step.weight, remaining]
  omega

/-- The rest of the list goes from the stack into a task, and so it counts once before and after. -/
theorem step_turn_lt (hstack : h.stack = (f, rest) :: below) :
    (h.step f rest below .turn).remaining < h.remaining + Step.turn.weight := by
  have hresumed : weights (.resumed :: rest) = 1 + weights rest := by simp
  have hturn : (h.step f rest below .turn).remaining =
      stackWeight ((f, []) :: below) + (backlog h.machine + 2 + weights (.resumed :: rest)) :=
    congrArg (stackWeight ((f, []) :: below) + ·) (backlog_enqueue_task ..)
  rw [hturn, Step.weight, remaining, hstack, stackWeight_cons, stackWeight_cons, weights_nil,
    hresumed]
  omega

/-- What a step adds is less than what it was. -/
theorem step_lt (hstack : h.stack = (f, rest) :: below) (st : Step) :
    (h.step f rest below st).remaining < h.remaining + st.weight := by
  have hquiet : h.remaining < h.remaining + 1 := Nat.lt_succ_self _
  cases st with
  -- Steps that make a promise: a new one weighs nothing, but the initializer is a list to run.
  | deferred name =>
    have hdefer : (h.step f rest below (.deferred name)).remaining = h.remaining :=
      congrArg (stackWeight h.stack + ·) (backlog_defer _)
    rw [hdefer]
    exact hquiet
  | create name resolver body => exact step_create_lt h f rest below name resolver body
  | pending name => exact Nat.lt_of_le_of_lt (remaining_make_le h "pending" name none) hquiet
  | fulfilled name v =>
    exact Nat.lt_of_le_of_lt (remaining_make_le h "fulfilled" name (some (.fulfilled v))) hquiet
  | rejected name c =>
    exact Nat.lt_of_le_of_lt (remaining_make_le h "rejected" name (some (.rejected c))) hquiet
  -- Steps that settle one: reactions become due, which is no more work than they were.
  | resolve on input => exact step_resolve_lt hstack on input
  | reject on cause => exact step_reject_lt hstack on cause
  -- Steps that register handlers or an await. This is where reactions come from.
  | register kind on name ok err =>
    refine registered_lt h _ on name [.scripted name ok err] ?_
    simp only [codesWeight, List.foldr_cons, List.foldr_nil, Code.weight, Step.weight]
    omega
  | map on name n =>
    refine registered_lt h _ on name [.add (some name) n] ?_
    simp [codesWeight, Code.weight]
  | measure on name =>
    refine registered_lt h _ on name [.encode, .size] ?_
    simp [codesWeight, Code.weight]
  | chain on name count n =>
    refine registered_lt h _ on name (List.replicate count (.add none n)) ?_
    rw [codesWeight_replicate rfl, Step.weight]
    omega
  | fan on name count =>
    have hle := remaining_fan_le h f rest below on name count
    rw [Step.weight]
    omega
  | await on name =>
    have hle := remaining_withValue_le (h := h) on
      (g := fun p => (h.startAwait name p).report (.awaiting name))
      fun p => remaining_le rfl (backlog_awaitApart_le h.machine p)
    show (h.withValue on _).remaining < _
    rw [Step.weight]
    omega
  | awaitOrphan name depth =>
    have hle := remaining_awaitOrphan_le h f rest below name depth
    rw [Step.weight]
    omega
  -- Steps that queue a list as a task.
  | spawn body => exact step_spawn_lt h f rest below body
  | turn => exact step_turn_lt hstack
  -- Steps that only look and report.
  | resolver on name =>
    unfold Host.step
    dsimp only
    split <;> exact hquiet
  | state on =>
    exact Nat.lt_succ_of_le (remaining_withValue_le (n := 0) on fun _ => Nat.le_refl _)
  | settlement on =>
    exact Nat.lt_succ_of_le (remaining_withValue_le (n := 0) on fun _ => Nat.le_refl _)
  | debugInput on input => exact Nat.lt_of_lt_of_eq hquiet (by rw [Step.weight])
  | log tag => exact hquiet
  | isSame on other => exact hquiet
  | debug on => exact hquiet
  | resumed => exact hquiet
  | report kind on => exact hquiet

/-- The end of a handler puts its outcome to the dependent. -/
theorem leave_lt (h : Host) (f : Frame) : (h.leave f).remaining < h.remaining + f.weight := by
  have hquiet : h.remaining < h.remaining + 1 := Nat.lt_succ_self _
  cases f with
  | task => exact hquiet
  | initializer name p => exact hquiet
  | handler input outcome d =>
    have hreject : ∀ c, ({ h with machine := h.machine.reject d c } : Host).remaining
        ≤ h.remaining := fun c => remaining_le (n := 0) rfl (Nat.le_of_eq (backlog_settle ..))
    cases outcome with
    | throw cause => exact Nat.lt_succ_of_le (hreject cause)
    | throwInput => exact Nat.lt_succ_of_le (hreject _)
    | answer i =>
      rw [Frame.weight, Outcome.weight]
      rcases hx : h.evaluate input i with message | x
      · simp only [leave, hx]
        have hle := hreject message
        omega
      · simp only [leave, hx]
        have hresolve := remaining_resolve_le h d x
        have hweight := resolutionWeight_le hx
        omega
  | body r thrown =>
    cases thrown with
    | none => exact hquiet
    | some cause => exact Nat.lt_succ_of_le (Nat.le_of_eq (remaining_rejectVia h r cause))

theorem remaining_passOn_lt (h : Host) (d : PromiseId) (x : Settlement Json String) {n : Nat}
    (hn : 0 < n) : (h.passOn d x).remaining < h.remaining + n := by
  have hle : (h.passOn d x).remaining ≤ h.remaining + 0 :=
    remaining_le rfl (Nat.le_of_eq (backlog_settle ..))
  omega

theorem Code.weight_pos (code : Code) : 0 < code.weight := by
  cases code with
  | scripted name ok err =>
    rw [Code.weight]
    omega
  | _ => exact Nat.one_pos

/-- A handler runs one of its two sides. -/
theorem handle_lt (h : Host) (d : PromiseId) (x : Settlement Json String) (code : Code) :
    (h.handle d x code).remaining < h.remaining + code.weight := by
  -- Code that runs no steps settles its promise within the job, which adds nothing to what is left.
  have hcode := Code.weight_pos code
  cases code with
  | scripted name ok err =>
    cases x with
    | fulfilled v =>
      cases ok with
      | pass => cases err <;> exact remaining_passOn_lt h d _ hcode
      | run body outcome =>
        show ((h.report (.okRan name v)).push (.handler v outcome d) body).remaining < _
        rw [remaining_push, remaining_report, Frame.weight, Code.weight, Handler.weight]
        omega
    | rejected c =>
      cases err with
      | pass => cases ok <;> exact remaining_passOn_lt h d _ hcode
      | run body outcome =>
        have hpush : (h.handle d (.rejected c) (.scripted name ok (.run body outcome))).remaining =
            1 + outcome.weight + weights body + h.remaining := by
          cases ok <;> exact remaining_push (h.report (.errRan name c)) _ _
        rw [hpush, Code.weight, Handler.weight]
        omega
  | add name n =>
    cases x with
    | fulfilled v => cases name <;> exact remaining_passOn_lt _ d _ hcode
    | rejected c => exact remaining_passOn_lt h d _ hcode
  | encode => cases x <;> exact remaining_passOn_lt h d _ hcode
  | size =>
    cases x with
    | fulfilled v => cases v <;> exact remaining_passOn_lt h d _ hcode
    | rejected c => exact remaining_passOn_lt h d _ hcode
  | fan name i =>
    cases x with
    | fulfilled v => exact remaining_passOn_lt (h.report (.fanRan name i)) d _ hcode
    | rejected c => exact remaining_passOn_lt h d _ hcode
  | relay => exact remaining_passOn_lt h d _ hcode

theorem start_lt (hj : h.machine.next? = some (j, m)) :
    ({ h with machine := m }.start j).remaining < h.remaining := by
  have htaken : h.remaining = { h with machine := m }.remaining + _ :=
    (congrArg (stackWeight h.stack + ·) (backlog_next? hj)).trans (Nat.add_assoc ..).symm
  rw [htaken]
  match j with
  | .deliver (.handler code d) x => exact handle_lt _ d x code
  | .deliver (.adoption p) x => exact remaining_passOn_lt _ p x Nat.one_pos
  | .deliver (.wake a) x =>
    have hwake : ({ h with machine := m.wake a x } : Host).remaining ≤
        { h with machine := m }.remaining + 0 := remaining_le rfl (backlog_wake_le m a x)
    exact Nat.lt_succ_of_le hwake
  | .poll a =>
    have hpoll : ({ h with machine := m }.start (.poll a)).remaining =
        { h with machine := (m.poll a).2 }.remaining := by
      unfold Host.start
      dsimp only
      split <;> rfl
    have hle : ({ h with machine := (m.poll a).2 } : Host).remaining ≤
        { h with machine := m }.remaining + 0 :=
      remaining_le rfl (Nat.le_of_eq (backlog_poll m a))
    rw [hpoll]
    exact Nat.lt_succ_of_le hle
  | .task steps =>
    show ({ h with machine := m }.push .task steps).remaining < _ + (2 + weights steps)
    rw [remaining_push]
    show 1 + weights steps + _ < _
    omega

/-- **Every move leaves less to do.** -/
theorem tick_lt (ht : h.tick = some h') : h'.remaining < h.remaining := by
  unfold Host.tick at ht
  split at ht
  · rename_i f st rest below hstack
    obtain rfl := Option.some.inj ht
    -- The step is off its list before it is done.
    have hstep := step_lt (h := { h with stack := (f, rest) :: below }) rfl st
    have hall : h.remaining = { h with stack := (f, rest) :: below }.remaining + st.weight := by
      show stackWeight h.stack + backlog h.machine =
        stackWeight ((f, rest) :: below) + backlog h.machine + st.weight
      rw [hstack, stackWeight_cons, stackWeight_cons, weights_cons]
      omega
    omega
  · rename_i f below hstack
    obtain rfl := Option.some.inj ht
    have hleave := leave_lt { h with stack := below } f
    have hall : h.remaining = { h with stack := below }.remaining + f.weight := by
      show stackWeight h.stack + backlog h.machine =
        stackWeight below + backlog h.machine + f.weight
      rw [hstack, stackWeight_cons, weights_nil]
      omega
    omega
  · split at ht
    · rename_i j m hj
      obtain rfl := Option.some.inj ht
      exact start_lt hj
    · cases ht

/-! ### The stack

Whatever a move does to the list on top, the lists below stay as they are. -/

theorem stack_resolve (h : Host) (p : PromiseId) (x : Promise.Resolution Json Thenable) :
    h.stack <:+ (h.resolve p x).stack := by
  rcases x with v | q | (⟨label, cause⟩ | ⟨label, v⟩ | ⟨label, resolver, body, thrown⟩)
  · exact List.suffix_rfl
  · exact List.suffix_rfl
  · exact List.suffix_rfl
  · exact List.suffix_rfl
  · cases resolver <;> exact List.suffix_cons _ _

theorem stack_resolveVia (h : Host) (r : ResolverId) (x : Promise.Resolution Json Thenable) :
    h.stack <:+ (h.resolveVia r x).stack := by
  unfold resolveVia
  rcases h.machine.use? r with _ | ⟨p, m⟩
  · exact List.suffix_rfl
  · exact stack_resolve { h with machine := m } p x

theorem stack_rejectVia (h : Host) (r : ResolverId) (cause : String) :
    (h.rejectVia r cause).stack = h.stack := by
  unfold rejectVia
  split <;> rfl

theorem stack_withValue (on : String) {g : PromiseId → Host} (hg : ∀ p, (g p).stack = h.stack) :
    h.stack <:+ (h.withValue on g).stack := by
  unfold withValue
  split
  · exact (hg _).symm ▸ List.suffix_rfl
  · exact List.suffix_rfl

theorem stack_leave (h : Host) (f : Frame) : h.stack <:+ (h.leave f).stack := by
  cases f with
  | task => exact List.suffix_rfl
  | initializer name p => exact List.suffix_rfl
  | handler input outcome d =>
    cases outcome with
    | throw cause => exact List.suffix_rfl
    | throwInput => exact List.suffix_rfl
    | answer i =>
      rcases hx : h.evaluate input i with message | x
      · simp only [leave, hx]
        exact List.suffix_rfl
      · simp only [leave, hx]
        exact stack_resolve h d x
  | body r thrown =>
    cases thrown with
    | none => exact List.suffix_rfl
    | some cause => exact (stack_rejectVia h r cause).symm ▸ List.suffix_rfl

/-- A step works on its own list, and on what it calls. -/
theorem stack_step (hstack : h.stack = (f, rest) :: below) (st : Step) :
    below <:+ (h.step f rest below st).stack := by
  have hbelow : below <:+ h.stack := hstack ▸ List.suffix_cons _ _
  -- Frames are pushed in front, and the only frame that changes is the one that takes the step.
  cases st with
  | resolver on name =>
    unfold Host.step
    dsimp only
    split <;> exact hbelow
  | create name resolver body => cases resolver <;> exact hbelow.trans (List.suffix_cons _ _)
  | resolve on input =>
    unfold Host.step
    dsimp only
    split
    · exact hbelow
    · split
      · exact (List.suffix_cons _ _).trans (stack_resolveVia
          { h with stack := (f, .report "resolve" on :: rest) :: below } _ _)
      · exact hbelow
  | reject on cause =>
    unfold Host.step
    dsimp only
    split
    · rw [stack_rejectVia]
      exact List.suffix_cons _ _
    · exact hbelow
  | register kind on name ok err => exact hbelow.trans (stack_withValue on fun _ => rfl)
  | map on name n => exact hbelow.trans (stack_withValue on fun _ => rfl)
  | measure on name => exact hbelow.trans (stack_withValue on fun _ => rfl)
  | chain on name count n => exact hbelow.trans (stack_withValue on fun _ => rfl)
  | fan on name count => exact hbelow.trans (stack_withValue on fun _ => rfl)
  | state on => exact hbelow.trans (stack_withValue on fun _ => rfl)
  | settlement on => exact hbelow.trans (stack_withValue on fun _ => rfl)
  | await on name => exact hbelow.trans (stack_withValue on fun _ => rfl)
  | turn => exact List.suffix_cons _ _
  | _ => exact hbelow

theorem tick_stack {e : Frame × List Step} (hstack : h.stack = e :: below)
    (ht : h.tick = some h') : below <:+ h'.stack := by
  unfold Host.tick at ht
  split at ht
  · rename_i f st rest below' hstack'
    obtain rfl := Option.some.inj ht
    obtain ⟨-, rfl⟩ := List.cons.inj (hstack.symm.trans hstack')
    exact stack_step (h := { h with stack := (f, rest) :: below }) rfl st
  · rename_i f below' hstack'
    obtain rfl := Option.some.inj ht
    obtain ⟨-, rfl⟩ := List.cons.inj (hstack.symm.trans hstack')
    exact stack_leave { h with stack := below } f
  · rename_i hnil
    rw [hstack] at hnil
    cases hnil

/-! ### Runs

The moves come to an end by `tick_lt`; that what is on top returns is an induction over the same
measure. -/

theorem tick_eq_none_iff : h.tick = none ↔ h.stack = [] ∧ h.machine.queue = [] := by
  constructor
  · intro ht
    unfold Host.tick at ht
    split at ht
    · cases ht
    · cases ht
    · rename_i hstack
      refine ⟨hstack, ?_⟩
      unfold Promise.Machine.next? at ht
      rcases hq : h.machine.queue with _ | ⟨j, queue⟩
      · rfl
      · rw [hq] at ht
        cases ht
  · rintro ⟨hstack, hq⟩
    simp [Host.tick, hstack, Promise.Machine.next?, hq]

/-- The moves come to an end before they have used up what there was to do. -/
theorem tick_moves_eq_none {n : Nat} (hn : h.remaining ≤ n) : (h.moves n).tick = none := by
  induction n generalizing h with
  | zero =>
    rcases ht : h.tick with _ | h'
    · exact ht
    · have hlt := tick_lt ht
      omega
  | succ n ih =>
    unfold Host.moves
    rcases ht : h.tick with _ | h'
    · exact ht
    · have hlt := tick_lt ht
      exact ih (by omega)

/-- There are no more jobs than moves. -/
theorem jobs_length_le (h : Host) (n : Nat) : (h.jobs n).length ≤ h.remaining := by
  induction n generalizing h with
  | zero => exact Nat.zero_le _
  | succ n ih =>
    unfold Host.jobs
    rcases ht : h.tick with _ | h'
    · exact Nat.zero_le _
    · have hlt := tick_lt ht
      have hone : h.job?.toList.length ≤ 1 := by cases h.job? <;> simp
      have hrest := ih h'
      simp only [List.length_append]
      omega

/-- What is on top of the stack returns, with no job in between. -/
theorem exists_moves_stack (h : Host) {top below : List (Frame × List Step)}
    (hstack : h.stack = top ++ below) : ∃ k, (h.moves k).stack = below ∧ h.jobs k = [] ∧
      ∀ i < k, ∃ e more, (h.moves i).stack = e :: more ++ below := by
  -- Each move leaves less to do, so the induction is on that.
  induction hn : h.remaining using Nat.strongRecOn generalizing h top with
  | _ n ih =>
    rcases top with _ | ⟨e, more⟩
    · exact ⟨0, hstack, rfl, by simp⟩
    · rcases ht : h.tick with _ | h'
      · rw [(tick_eq_none_iff.mp ht).1] at hstack
        cases hstack
      · have hbelow : more ++ below <:+ h'.stack := tick_stack hstack ht
        obtain ⟨new, hnew⟩ := hbelow
        rw [← List.append_assoc] at hnew
        obtain ⟨k, hk, hjobs, hbefore⟩ := ih _ (hn ▸ tick_lt ht) h' hnew.symm rfl
        have hnone : h.job? = none := by
          rw [job?, hstack]
          rfl
        refine ⟨k + 1, ?_, ?_, ?_⟩
        · rw [Host.moves, ht]
          exact hk
        · rw [Host.jobs, ht, hnone]
          exact hjobs
        · intro i hi
          cases i with
          | zero => exact ⟨e, more, hstack⟩
          | succ i =>
            rw [Host.moves, ht]
            exact hbefore i (Nat.lt_of_succ_lt_succ hi)

theorem remaining_init (script : List Step) :
    (Host.init script).remaining = 1 + weights script := rfl

/-- **Scripts end.** As many moves as the weight of a script says are enough to bring its host to rest,
with no job left, and no more jobs start than that. Whatever is on top of the stack at some time
returns to what is below, which nothing has touched, and with no job in between; so every resolution
returns, however deep thenables nest in it. And no more reactions run than were registered. -/
theorem scripts_end (script : List Step) :
    let h := Host.init script
    ((h.moves (1 + weights script)).stack = [] ∧
      (h.moves (1 + weights script)).machine.queue = []) ∧
    (∀ n, (h.jobs n).length ≤ 1 + weights script) ∧
    (∀ n top below, (h.moves n).stack = top ++ below →
      ∃ k, ((h.moves n).moves k).stack = below ∧ (h.moves n).jobs k = [] ∧
        ∀ i < k, ∃ e more, ((h.moves n).moves i).stack = e :: more ++ below) ∧
    (∀ n, ∃ s : Session, Reachable s ∧ s.started = .task script :: h.jobs n ∧
      (h.moves n).Mirrors s ∧
      ((h.jobs n).filterMap Promise.Job.delivery?).length ≤ s.registrations.length) := by
  intro h
  refine ⟨?_, ?_, ?_, ?_⟩
  · exact tick_eq_none_iff.mp (tick_moves_eq_none (Nat.le_of_eq (remaining_init script)))
  · intro n
    exact jobs_length_le h n
  · intro n top below hstack
    exact exists_moves_stack (h.moves n) hstack
  · intro n
    obtain ⟨s, hs, hjobs, hm⟩ := moves_reachable script n
    have hdeliveries : s.deliveries = (h.jobs n).filterMap Promise.Job.delivery? := by
      rw [s.deliveries_eq, hjobs]
      rfl
    exact ⟨s, hs, hjobs, hm, hdeliveries ▸ hs.deliveries_length_le⟩

/-- A promise is resolved with itself, by the inner of two thenables. The outer one has a step left when
the inner one returns, and the handler of the refusal runs in the only job after the script itself. -/
theorem scripts_end_self_adoption :
    let inner : Thenable := .callable "inner" (some "g") [.resolve "g" (.ref "d")] none
    let outer : Thenable := .callable "outer" (some "f")
      [.resolve "f" (.thenable inner), .log .null] none
    let script : List Step := [.deferred "d",
      .register .onRejected "d" "e" .pass (.run [.log .null] .throwInput),
      .resolve "d" (.thenable outer)]
    let start := Host.init script
    ((start.moves 23).stack = [] ∧ (start.moves 23).machine.queue = []) ∧
      (start.jobs 23).length = 1 ∧ (start.moves 4).stack.length = 3 ∧
      ∃ k, ((start.moves 4).moves k).stack = (start.moves 4).stack.drop 1 ∧
        (start.moves 4).jobs k = [] := by
  intro inner outer script
  have hweight : 1 + weights script = 23 := by decide +kernel
  have hjobs : ((Host.init script).jobs 23).length = 1 := by decide +kernel
  have hdeep : ((Host.init script).moves 4).stack.length = 3 := by decide +kernel
  obtain ⟨hrest, -, hreturns, -⟩ := scripts_end script
  rw [hweight] at hrest
  obtain ⟨k, hk, hquiet, -⟩ :=
    hreturns 4 _ _ (List.take_append_drop 1 ((Host.init script).moves 4).stack).symm
  exact ⟨hrest, hjobs, hdeep, k, hk, hquiet⟩

end Host

end Switchboard.Script
