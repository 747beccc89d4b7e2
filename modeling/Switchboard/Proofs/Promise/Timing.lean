import Switchboard.Proofs.Promise.Delivery

/-!
# When reactions run

The events of a log are numbered, and a number is a time. A reaction becomes due with the later of two
events, its registration and the settlement of its promise; one settlement may make many due.

- `Operation`, `During`: a call of the interface, and what happens until it has returned.
- `Call.synchronous`: what the program may be asked to run in the meantime.
- `Step.calls_cases`, `Step.writes`: what a step can do to the calls, and what it writes down.
- `Reachable.at_start`: the session from which a job of the log was started.
- `Session.schedule`: the reactions that ran and those in the queue. It only grows, at its end.
- `Session.BecameDue`: when a reaction became due. `Reachable.mem_schedule_iff`: the schedule has what
  became due.
- `Reachable.schedule_nodup`: no reaction runs twice, so no more run than were registered.
- `asynchronous_delivery`: no operation runs a handler, and reactions run in the order in which they
  became due, each in a job that starts from rest.

## Proof structure

The two halves have little in common. That an operation runs no handler is about the stack of calls:
until the operation returns, something of its own is on top of what was there before, so there is no
rest, and the host starts no job. Only what was called may be looked at here. What was called by jobs is
another matter, and `Reachable.calls` puts it at the bottom of the stack.

The order in which reactions run is that of the schedule, which is a list that only grows. Of two
reactions that became due with different events there was a session in between, with the one in its
schedule and not the other (`Reachable.cut`); whatever grows from there has the first one before the
second. Two that became due with the same event are reactions of one promise that was settled by it, and
these run in the order of their registration by `delivery_order`. A step may write down several events,
and it is essential that at most one of them releases reactions, or a session in between need not exist.
-/

namespace Switchboard.Promise

variable {α ε κ τ : Type}

/-- The calls that operations make: initializers, and the two for the `then` member of an object. -/
def Call.synchronous : Call → Bool
  | .initializer _ | .read _ | .body _ => true
  | .task | .handler _ => false

/-- The code of the program that a job is there to run. -/
def Job.call? : Job α ε κ τ → Option Call
  | .deliver (.handler _ d) _ => some (.handler d)
  | .task _ => some .task
  | _ => none

/-- With such an event reactions may become due. -/
def Event.releases : Event α ε κ τ → Bool
  | .registered .. | .settled .. => true
  | .adopted .. | .started _ => false

theorem Event.registration?_eq_some {e : Event α ε κ τ} {p : PromiseId} {r : Reaction κ} :
    e.registration? = some (p, r) ↔ e = .registered p r := by
  cases e <;> simp [Event.registration?]

theorem Event.settlement?_eq_some {e : Event α ε κ τ} {p : PromiseId} {x : Settlement α ε} :
    e.settlement? = some (p, x) ↔ e = .settled p x := by
  cases e <;> simp [Event.settlement?]

theorem Event.delivery?_eq_some {e : Event α ε κ τ} {r : Reaction κ} {x : Settlement α ε} :
    e.delivery? = some (r, x) ↔ e = .started (.deliver r x) := by
  rcases e with _ | _ | _ | j
  · simp [Event.delivery?]
  · simp [Event.delivery?]
  · simp [Event.delivery?]
  · cases j <;> simp [Event.delivery?, Job.delivery?]

/-- A call of the interface. -/
inductive Operation [Cause ε] : Session α ε κ τ → Session α ε κ τ → Prop
  | make {s} (x : Option (Settlement α ε)) : Operation s (s.make x)
  | defer {s} : Operation s s.defer
  | init {s} : Operation s s.init
  | register {s p} (hp : p < s.machine.slots.size) (code : κ) : Operation s (s.register p code)
  | await {s p} (hp : p < s.machine.slots.size) : Operation s (s.await p)
  | look {s a} (ha : a < s.machine.awaits.size) : Operation s (s.look a)
  | lookLater {s a} (ha : a < s.machine.awaits.size) : Operation s (s.lookLater a)
  | via {s} (r : ResolverId) {o : Outcome α ε} (ho : o.Known s.machine) : Operation s (s.via r o)
  | spawn {s} (t : τ) : Operation s (s.spawn t)
  | abandon {s} (p : PromiseId) : Operation s (s.abandon p)

section

variable [Cause ε] [Registration κ]

theorem Operation.step {s t : Session α ε κ τ} (h : Operation s t) : Step s t := by
  cases h with
  | make x => exact .make x
  | defer => exact .defer
  | init => exact .init
  | register hp code => exact .register hp code
  | await hp => exact .await hp
  | look ha => exact .look ha
  | lookLater ha => exact .lookLater ha
  | via r ho => exact .via r ho
  | spawn u => exact .spawn u
  | abandon p => exact .abandon p

/-- What happens while an operation that began on top of the calls `base` has not returned. -/
abbrev During (base : List Call) : Session α ε κ τ → Session α ε κ τ → Prop :=
  Relation.ReflTransGen fun s t => s.calls ≠ base ∧ Step s t

end

namespace Session

/-- The reactions that ran and those that are due, in order. -/
def schedule (s : Session α ε κ τ) : List (Reaction κ × Settlement α ε) :=
  s.deliveries ++ s.machine.due

/-- Deliveries are jobs. -/
theorem deliveries_eq (s : Session α ε κ τ) :
    s.deliveries = s.started.filterMap Job.delivery? := by
  unfold deliveries started
  rw [List.filterMap_filterMap]
  congr 1
  funext e
  cases e <;> rfl

/-- A reaction that was registered with event number `i` became due with event number `n`. -/
def BecameDue (s : Session α ε κ τ) (r : Reaction κ) (x : Settlement α ε) (n i : Nat) : Prop :=
  ∃ p j, s.log[i]? = some (.registered p r) ∧ s.log[j]? = some (.settled p x) ∧ n = max i j

end Session

variable {s s' t u v : Session α ε κ τ} {m : Machine α ε κ τ} {p q : PromiseId} {r r' : Reaction κ}
  {x x' : Settlement α ε} {n n' i i' j k k' : Nat}

/-! ### Calls

What is on the stack, and how a step changes it: it puts calls on top, of which each is one that an
operation may make, or the call on top returns, or nothing was there and a job starts. -/

section Calls

variable [Cause ε]

/-- The resolution procedure calls the program only to read a `then` member. -/
theorem calls_conclude (s : Session α ε κ τ) (p : PromiseId) (o : Outcome α ε) :
    (s.conclude p o).calls = s.calls ∨ (s.conclude p o).calls = .read p :: s.calls := by
  rcases o with c | (v | q | _)
  · exact .inl rfl
  · exact .inl rfl
  · exact .inl (s.calls_adopt p q)
  · exact .inr rfl

theorem calls_via (s : Session α ε κ τ) (r : ResolverId) (o : Outcome α ε) :
    (s.via r o).calls = s.calls ∨ ∃ p, (s.via r o).calls = .read p :: s.calls := by
  unfold Session.via
  split
  · exact (calls_conclude _ _ o).imp_right fun h => ⟨_, h⟩
  · exact .inl rfl

theorem synchronous_conclude (s : Session α ε κ τ) (p : PromiseId) (o : Outcome α ε) :
    ∃ new, (s.conclude p o).calls = new ++ s.calls ∧ ∀ c ∈ new, c.synchronous = true := by
  rcases calls_conclude s p o with h | h
  · exact ⟨[], h, by simp⟩
  · exact ⟨[.read p], h, by simp [Call.synchronous]⟩

theorem synchronous_via (s : Session α ε κ τ) (r : ResolverId) (o : Outcome α ε) :
    ∃ new, (s.via r o).calls = new ++ s.calls ∧ ∀ c ∈ new, c.synchronous = true := by
  rcases calls_via s r o with h | ⟨p, h⟩
  · exact ⟨[], h, by simp⟩
  · exact ⟨[.read p], h, by simp [Call.synchronous]⟩

/-- An operation starts no job, and calls only what it may call. -/
theorem Operation.calls (h : Operation s t) :
    t.started = s.started ∧ ∃ new, t.calls = new ++ s.calls ∧ ∀ c ∈ new, c.synchronous = true := by
  cases h with
  | make x => cases x <;> exact ⟨Session.started_make _ _, [], rfl, by simp⟩
  | defer => exact ⟨rfl, [], rfl, by simp⟩
  | init => exact ⟨rfl, [.initializer _], rfl, by simp [Call.synchronous]⟩
  | register hp code => exact ⟨Session.started_register _ _ _, [], rfl, by simp⟩
  | await hp => exact ⟨Session.started_await _ _, [], rfl, by simp⟩
  | look ha => exact ⟨rfl, [], rfl, by simp⟩
  | lookLater ha => exact ⟨rfl, [], rfl, by simp⟩
  | via r ho => exact ⟨s.started_via r _, synchronous_via s r _⟩
  | spawn u => exact ⟨rfl, [], rfl, by simp⟩
  | abandon p => exact ⟨rfl, [], rfl, by simp⟩

variable [Registration κ]

omit [Cause ε] in
/-- A job runs no code of the program but its own. -/
theorem calls_start (s : Session α ε κ τ) (j : Job α ε κ τ) :
    (s.start j).calls = s.calls ∨ ∃ c, j.call? = some c ∧ (s.start j).calls = c :: s.calls := by
  match j with
  | .deliver (.handler code d) x =>
    unfold Session.start
    dsimp only
    split
    · exact .inr ⟨_, rfl, rfl⟩
    · exact .inl rfl
  | .deliver (.adoption p) x => exact .inl rfl
  | .deliver (.wake a) x => exact .inl rfl
  | .poll a => exact .inl rfl
  | .task u => exact .inr ⟨_, rfl, rfl⟩

/-- A step goes on from where the program is, or from where a call returns to; or it starts a job,
which it does at rest only. -/
theorem Step.calls_cases (h : Step s t) :
    (t.started = s.started ∧ ∃ new, (∀ c ∈ new, c.synchronous = true) ∧
      (t.calls = new ++ s.calls ∨ ∃ c cs, s.calls = c :: cs ∧ t.calls = new ++ cs)) ∨
    ∃ j m, s.calls = [] ∧ s.machine.next? = some (j, m) ∧ t = { s with machine := m }.start j := by
  have hoperation : Operation s t → t.started = s.started ∧ ∃ new,
      (∀ c ∈ new, c.synchronous = true) ∧
        (t.calls = new ++ s.calls ∨ ∃ c cs, s.calls = c :: cs ∧ t.calls = new ++ cs) := by
    intro hop
    obtain ⟨hstarted, new, hcalls, hnew⟩ := hop.calls
    exact ⟨hstarted, new, hnew, .inl hcalls⟩
  cases h with
  | make x => exact .inl (hoperation (.make x))
  | defer => exact .inl (hoperation .defer)
  | init => exact .inl (hoperation .init)
  | register hp code => exact .inl (hoperation (.register hp code))
  | await hp => exact .inl (hoperation (.await hp))
  | look ha => exact .inl (hoperation (.look ha))
  | lookLater ha => exact .inl (hoperation (.lookLater ha))
  | via r ho => exact .inl (hoperation (.via r ho))
  | spawn u => exact .inl (hoperation (.spawn u))
  | abandon p => exact .inl (hoperation (.abandon p))
  | endTask hc => exact .inl ⟨rfl, [], by simp, .inr ⟨_, _, hc, rfl⟩⟩
  | endInitializer hc => exact .inl ⟨rfl, [], by simp, .inr ⟨_, _, hc, rfl⟩⟩
  | @endHandler d cs hc o ho =>
    obtain ⟨new, hcalls, hnew⟩ := synchronous_conclude { s with calls := cs } d o
    exact .inl ⟨Session.started_conclude _ d o, new, hnew, .inr ⟨_, _, hc, hcalls⟩⟩
  | @endRead p cs hc found =>
    -- What can be called is called next.
    rcases found with c | (_ | v)
    · exact .inl ⟨Session.started_settle _ _ _, [], by simp, .inr ⟨_, _, hc, rfl⟩⟩
    · exact .inl ⟨rfl, [.body _], by simp [Call.synchronous], .inr ⟨_, _, hc, rfl⟩⟩
    · exact .inl ⟨Session.started_settle _ _ _, [], by simp, .inr ⟨_, _, hc, rfl⟩⟩
  | @endBody r cs hc thrown =>
    cases thrown with
    | none => exact .inl ⟨rfl, [], by simp, .inr ⟨_, _, hc, rfl⟩⟩
    | some c =>
      obtain ⟨new, hcalls, hnew⟩ := synchronous_via { s with calls := cs } r (.error c)
      exact .inl ⟨Session.started_via _ r _, new, hnew, .inr ⟨_, _, hc, hcalls⟩⟩
  | job hidle hj => exact .inr ⟨_, _, hidle, hj, rfl⟩

/-- Until an operation has returned, no job is started, and what it has called by then is only what it
may call. The induction is on what happens in the meantime: as long as something is on top of the calls
that were there before, there is no rest at which a job could start. -/
theorem During.started (h : Operation s u) (hv : During s.calls u v) :
    v.started = s.started ∧ ∃ new, v.calls = new ++ s.calls ∧ ∀ c ∈ new, c.synchronous = true := by
  induction hv with
  | refl => exact h.calls
  | @tail v w _ hw ih =>
    obtain ⟨hne, hstep⟩ := hw
    obtain ⟨hstarted, new, hcalls, hnew⟩ := ih
    -- With nothing of its own left the operation would have returned.
    obtain _ | ⟨c, new⟩ := new
    · exact absurd hcalls hne
    rcases hstep.calls_cases with ⟨hquiet, more, hmore, hgo | ⟨c', cs, hc, hgo⟩⟩ |
      ⟨j, m, hidle, -, -⟩
    · refine ⟨hquiet.trans hstarted, more ++ c :: new, ?_, ?_⟩
      · rw [hgo, hcalls, List.append_assoc]
      · intro d hd
        exact (List.mem_append.mp hd).elim (hmore d) (hnew d)
    · -- The call on top returns.
      rw [hcalls] at hc
      obtain ⟨rfl, rfl⟩ : c = c' ∧ new ++ s.calls = cs := by simpa using hc
      refine ⟨hquiet.trans hstarted, more ++ new, ?_, ?_⟩
      · rw [hgo, List.append_assoc]
      · intro d hd
        exact (List.mem_append.mp hd).elim (hmore d) fun hd => hnew d (List.mem_cons_of_mem _ hd)
    · rw [hcalls] at hidle
      cases hidle

/-- Below the calls of operations there is at most one other: what the latest job is there to run. -/
theorem Reachable.calls (hs : Reachable s) :
    ∃ new base, s.calls = new ++ base ∧ (∀ c ∈ new, c.synchronous = true) ∧
      ∀ c ∈ base, base = [c] ∧ ∃ j, s.started.getLast? = some j ∧ j.call? = some c := by
  induction hs with
  | refl => exact ⟨[], [], rfl, by simp, by simp⟩
  | @tail s t _ hstep ih =>
    obtain ⟨new, base, hcalls, hnew, hbase⟩ := ih
    rcases hstep.calls_cases with ⟨hquiet, more, hmore, hgo | ⟨c, cs, hc, hgo⟩⟩ |
      ⟨j, m, hidle, -, rfl⟩
    · rw [hquiet]
      refine ⟨more ++ new, base, ?_, ?_, hbase⟩
      · rw [hgo, hcalls, List.append_assoc]
      · intro c hc
        exact (List.mem_append.mp hc).elim (hmore c) (hnew c)
    · rw [hquiet]
      obtain _ | ⟨d, new⟩ := new
      · -- The code of the job itself returns.
        refine ⟨more, [], ?_, hmore, by simp⟩
        rw [hcalls, List.nil_append] at hc
        obtain ⟨rfl, -⟩ := hbase c (hc ▸ List.mem_cons_self)
        rw [hgo, (List.cons.inj hc).2]
      · rw [hcalls] at hc
        obtain ⟨rfl, rfl⟩ : d = c ∧ new ++ base = cs := by simpa using hc
        refine ⟨more ++ new, base, ?_, ?_, hbase⟩
        · rw [hgo, List.append_assoc]
        · intro c hc
          exact (List.mem_append.mp hc).elim (hmore c) fun hc => hnew c (List.mem_cons_of_mem _ hc)
    · have hlast : (Session.start { s with machine := m } j).started.getLast? = some j := by
        rw [Session.started_start]
        exact List.getLast?_concat
      rcases calls_start { s with machine := m } j with hgo | ⟨c, hc, hgo⟩
      · exact ⟨[], [], hgo.trans hidle, by simp, by simp⟩
      · refine ⟨[], [c], ?_, by simp, ?_⟩
        · rw [hgo, hidle]
          rfl
        · intro d hd
          obtain rfl := List.mem_singleton.mp hd
          exact ⟨rfl, j, hlast, hc⟩

end Calls

/-! ### What a step writes down

A step of the program and the start of a job leave traces of different kinds. Each writes down at most
one event that makes reactions due, and that event comes last. -/

/-- What is written down makes reactions due with its last event at most. -/
def Session.Writes (s t : Session α ε κ τ) : Prop :=
  ∃ (l : List (Event α ε κ τ)) (e : Option (Event α ε κ τ)),
    t.log = s.log ++ l ++ e.toList ∧ ∀ f ∈ l, f.releases = false

theorem Session.Writes.refl (s : Session α ε κ τ) : s.Writes s := ⟨[], none, by simp, by simp⟩

theorem Session.Writes.one {e : Event α ε κ τ} (h : t.log = s.log ++ [e]) : s.Writes t :=
  ⟨[], some e, by simp [h], by simp⟩

theorem Session.Writes.after {f : Event α ε κ τ} (hf : f.releases = false)
    (h : (s.record f).Writes t) : s.Writes t := by
  obtain ⟨l, e, hlog, hl⟩ := h
  refine ⟨f :: l, e, ?_, ?_⟩
  · rw [hlog, Session.record, List.append_assoc s.log, List.singleton_append]
  · intro g hg
    rcases List.mem_cons.mp hg with rfl | hg
    · exact hf
    · exact hl g hg

section Writes

variable [Cause ε]

theorem writes_conclude (s : Session α ε κ τ) (p : PromiseId) (o : Outcome α ε) :
    s.Writes (s.conclude p o) := by
  rcases o with c | (v | q | _)
  · exact .one rfl
  · exact .one rfl
  · refine .after (f := .adopted p q) rfl ?_
    exact Session.adopt_cases (P := fun t => (s.record (.adopted p q)).Writes t)
      (fun _ => .one rfl) (fun _ _ _ => .one rfl) fun _ _ => .one rfl
  · exact .refl _

theorem writes_via (s : Session α ε κ τ) (r : ResolverId) (o : Outcome α ε) :
    s.Writes (s.via r o) := by
  unfold Session.via
  split
  · exact writes_conclude { s with machine := _ } _ o
  · exact .refl _

variable [Registration κ]

omit [Cause ε] in
theorem writes_start (s : Session α ε κ τ) (j : Job α ε κ τ) :
    (s.record (.started j)).Writes (s.start j) := by
  match j with
  | .deliver (.handler code d) x =>
    unfold Session.start
    dsimp only
    split
    · exact .refl _
    · exact .one rfl
  | .deliver (.adoption p) x => exact .one rfl
  | .deliver (.wake a) x => exact .refl _
  | .poll a => exact .refl _
  | .task u => exact .refl _

theorem Step.writes (h : Step s t) : s.Writes t := by
  cases h with
  | make x =>
    cases x with
    | none => exact .refl _
    | some x => exact .one rfl
  | defer => exact .refl _
  | init => exact .refl _
  | register hp code => exact .one rfl
  | await hp => exact .one rfl
  | look ha => exact .refl _
  | lookLater ha => exact .refl _
  | via r ho => exact writes_via s r _
  | spawn u => exact .refl _
  | abandon p => exact .refl _
  | endTask hc => exact .refl _
  | endInitializer hc => exact .refl _
  | endHandler hc ho => exact writes_conclude { s with calls := _ } _ _
  | endRead hc found =>
    rcases found with c | (_ | v)
    · exact .one rfl
    · exact .refl _
    · exact .one rfl
  | endBody hc thrown =>
    cases thrown with
    | none => exact .refl _
    | some c => exact writes_via { s with calls := _ } _ _
  | @job b m _ hj => exact .after (f := .started b) rfl (writes_start { s with machine := m } b)

/-- Two events that make reactions due are written down by two steps. -/
theorem Step.eq_of_releases (h : Step s t) {e e' : Event α ε κ τ} (hn : s.log.length ≤ n)
    (hn' : s.log.length ≤ n') (he : t.log[n]? = some e) (he' : t.log[n']? = some e')
    (hr : e.releases = true) (hr' : e'.releases = true) : n = n' := by
  obtain ⟨l, f, hlog, hl⟩ := h.writes
  -- Either event is the last of the log.
  have hlast : ∀ {n e}, s.log.length ≤ n → t.log[n]? = some e → e.releases = true →
      n = (s.log ++ l).length := by
    intro n e hn he hr
    rw [hlog] at he
    by_cases hlt : n < (s.log ++ l).length
    · rw [List.getElem?_append_left hlt, List.getElem?_append_right hn] at he
      have hquiet := hl e (List.mem_of_getElem? he)
      rw [hr] at hquiet
      cases hquiet
    · rw [List.getElem?_append_right (Nat.le_of_not_lt hlt)] at he
      obtain ⟨hlen, -⟩ := List.getElem?_eq_some_iff.mp he
      have hone : f.toList.length ≤ 1 := by cases f <;> simp
      omega
  rw [hlast hn he hr, hlast hn' he' hr']

/-- Between two events that make reactions due, the first of them is written down already and the
second is not. -/
theorem Reachable.cut (hs : Reachable s) {e e' : Event α ε κ τ} (hlt : n < n')
    (he : s.log[n]? = some e) (he' : s.log[n']? = some e') (hr : e.releases = true)
    (hr' : e'.releases = true) :
    ∃ t, Reachable t ∧ Run t s ∧ n < t.log.length ∧ t.log.length ≤ n' := by
  induction hs with
  | refl => simp [Session.empty] at he
  | @tail s t hs hstep ih =>
    obtain ⟨l, hl⟩ := (Run.transfers (.single hstep)).log_grows
    by_cases hn' : n' < s.log.length
    · rw [← hl, List.getElem?_append_left (Nat.lt_trans hlt hn')] at he
      rw [← hl, List.getElem?_append_left hn'] at he'
      obtain ⟨u, hu, hrun, hbefore, hafter⟩ := ih he he'
      exact ⟨u, hu, hrun.tail hstep, hbefore, hafter⟩
    · by_cases hn : n < s.log.length
      · exact ⟨s, hs, .single hstep, hn, Nat.le_of_not_lt hn'⟩
      · have heq := hstep.eq_of_releases (Nat.le_of_not_lt hn) (Nat.le_of_not_lt hn') he he' hr hr'
        omega

/-- A job of the log was started at rest, when the log had what stands before it. -/
theorem Reachable.at_start (hs : Reachable s) {b : Job α ε κ τ}
    (hk : s.log[k]? = some (.started b)) :
    ∃ t m, Reachable t ∧ t.calls = [] ∧ t.machine.next? = some (b, m) ∧ t.log = s.log.take k ∧
      Run ({ t with machine := m }.start b) s := by
  induction hs with
  | refl => simp [Session.empty] at hk
  | @tail s t hs hstep ih =>
    obtain ⟨l, hl⟩ := (Run.transfers (.single hstep)).log_grows
    by_cases hlt : k < s.log.length
    · rw [← hl, List.getElem?_append_left hlt] at hk
      obtain ⟨u, m, hu, hidle, hj, hlog, hrun⟩ := ih hk
      refine ⟨u, m, hu, hidle, hj, ?_, hrun.tail hstep⟩
      rw [← hl, hlog, List.take_append_of_le_length (Nat.le_of_lt hlt)]
    · -- The step itself starts the job, and that is the first that it writes down.
      have hjobs : t.started = s.started ++ l.filterMap Event.job? := by
        rw [Session.started, ← hl, List.filterMap_append]
        rfl
      rw [← hl, List.getElem?_append_right (Nat.le_of_not_lt hlt)] at hk
      have hmem : Event.started b ∈ l := List.mem_of_getElem? hk
      rcases hstep.calls_cases with ⟨hquiet, -⟩ | ⟨b', m, hidle, hj, rfl⟩
      · rw [hquiet] at hjobs
        have hnil : l.filterMap Event.job? = [] := by simpa using hjobs
        cases List.filterMap_eq_nil_iff.mp hnil _ hmem
      · obtain ⟨more, e, hlog, -⟩ := writes_start { s with machine := m } b'
        rw [Session.started_start] at hjobs
        obtain rfl : l = .started b' :: (more ++ e.toList) := by
          have hboth : s.log ++ l = s.log ++ .started b' :: (more ++ e.toList) := by
            rw [hl, hlog]
            simp [Session.record]
          exact List.append_cancel_left hboth
        have hnil : (more ++ e.toList).filterMap Event.job? = [] := by
          simpa [Session.started, List.filterMap_cons, Event.job?] using hjobs
        rcases hi : k - s.log.length with _ | i
        · rw [hi] at hk
          obtain rfl : b' = b := by simpa using hk
          have hk : k = s.log.length := by omega
          refine ⟨s, m, hs, hidle, hj, ?_, .refl⟩
          rw [← hl, hk, List.take_left]
        · rw [hi, List.getElem?_cons_succ] at hk
          cases List.filterMap_eq_nil_iff.mp hnil _ (List.mem_of_getElem? hk)

end Writes

/-! ### The schedule

What is due is behind what ran, and a job takes the first of it. So running jobs does not change the
schedule at all, and everything else adds to its end. -/

theorem schedule_settle (s : Session α ε κ τ) (p : PromiseId) (x : Settlement α ε) :
    s.schedule <+: (s.settle p x).schedule := by
  unfold Session.schedule
  rw [Session.deliveries_settle]
  show _ <+: _ ++ (s.machine.settle p x).due
  rcases Nat.eq_zero_or_pos (s.machine.room p) with hroom | hroom
  · exact (Machine.settle_of_room hroom x).symm ▸ List.prefix_rfl
  · obtain ⟨rs, hrs⟩ := Machine.room_pos.mp hroom
    rw [Machine.due_settle hrs, ← List.append_assoc]
    exact List.prefix_append _ _

theorem schedule_react (s : Session α ε κ τ) (hq : q < s.machine.slots.size) (r : Reaction κ) :
    s.schedule <+: (s.react q r).schedule := by
  unfold Session.schedule
  rw [Session.deliveries_react]
  show _ <+: _ ++ (s.machine.react q r).due
  rcases hx : s.machine.settlement? q with _ | x
  · exact (Machine.due_react_pending (Machine.pending_of_lt hq hx) r).symm ▸ List.prefix_rfl
  · rw [Machine.react_settled hx, Machine.due_enqueue_deliver, ← List.append_assoc]
    exact List.prefix_append _ _

/-- A job that is taken ran next anyway. -/
theorem schedule_taken {b : Job α ε κ τ} (hj : s.machine.next? = some (b, m)) :
    (s.taken b m).schedule = s.schedule := by
  unfold Session.schedule
  rw [Session.deliveries_record, Machine.due_next? hj, ← List.append_assoc]
  rfl

section Runs

variable [Cause ε]

theorem Transfer.schedule_grows {hand hand' : List PromiseId} (h : Transfer hand s hand' s') :
    s.schedule <+: s'.schedule := by
  cases h with
  | create => exact List.prefix_rfl
  | lose => exact List.prefix_rfl
  | latch => exact List.prefix_rfl
  | use hr =>
    obtain ⟨-, rfl⟩ := Machine.use?_eq_some hr
    exact List.prefix_rfl
  | settle x => exact schedule_settle s _ x
  | @adopt _ _ p q hq =>
    have hrec : s.schedule = (s.record (.adopted p q)).schedule := by
      unfold Session.schedule
      rw [Session.deliveries_record_of_none rfl]
      rfl
    rw [hrec]
    exact Session.adopt_cases (P := fun t => (s.record (.adopted p q)).schedule <+: t.schedule)
      (fun _ => schedule_settle _ _ _) (fun _ _ _ => schedule_settle _ _ _)
      fun _ _ => schedule_react (s.record (.adopted p q)) hq _
  | register hp code =>
    exact schedule_react s.create (by simpa [Session.create] using Nat.lt_succ_of_lt hp) _
  | @await _ _ p hp =>
    let pushed := { s with machine := { s.machine with
      awaits := s.machine.awaits.push ⟨none, false, false⟩ } }
    exact schedule_react pushed hp (.wake s.machine.awaits.size)
  | call c => exact List.prefix_rfl
  | finish hc => exact List.prefix_rfl
  | take hj _ => exact (schedule_taken hj).symm ▸ List.prefix_rfl
  | follow hj => exact (schedule_taken hj) ▸ schedule_settle _ _ _
  | host hm =>
    have hdue := hm.due
    simp only [Session.schedule, Session.deliveries, hdue]
    exact List.prefix_rfl

theorem Transfers.schedule_grows {hand hand' : List PromiseId} (h : Transfers hand s hand' s') :
    s.schedule <+: s'.schedule := by
  induction h with
  | refl => exact List.prefix_rfl
  | tail _ ht ih => exact ih.trans ht.schedule_grows

end Runs

/-! ### When reactions become due

Lemmas about lists first, of which two say what a sublist of two elements means for their order. Then
the schedule is compared with what the log says. -/

/-- Two events in the order of their numbers. -/
theorem pair_sublist {β : Type} {l : List β} {a b : β} (hij : i < j) (ha : l[i]? = some a)
    (hb : l[j]? = some b) : [a, b].Sublist l := by
  have hfirst : [a].Sublist (l.take j) := by
    refine List.singleton_sublist.mpr (List.mem_of_getElem? (i := i) ?_)
    rwa [List.getElem?_take_of_lt hij]
  have hsecond : [b].Sublist (l.drop j) := by
    refine List.singleton_sublist.mpr (List.mem_of_getElem? (i := 0) ?_)
    rwa [List.getElem?_drop, Nat.add_zero]
  exact List.take_append_drop j l ▸ hfirst.append hsecond

/-- Of what occurs once among the images, there is one number. -/
theorem index_unique {β γ : Type} {l : List β} {a b : β} {c : γ} (f : β → Option γ)
    (hnodup : (l.filterMap f).Nodup) (ha : l[i]? = some a) (hb : l[j]? = some b)
    (hfa : f a = some c) (hfb : f b = some c) : i = j := by
  -- Two numbers would leave `c` among the images twice.
  have htwice : ¬ [c, c].Sublist (l.filterMap f) := List.nodup_iff_sublist.mp hnodup c
  by_contra hne
  rcases Nat.lt_or_gt_of_ne hne with hlt | hlt
  · have hpair := (pair_sublist hlt ha hb).filterMap f
    rw [List.filterMap_cons_some hfa, List.filterMap_cons_some hfb] at hpair
    exact htwice hpair
  · have hpair := (pair_sublist hlt hb ha).filterMap f
    rw [List.filterMap_cons_some hfb, List.filterMap_cons_some hfa] at hpair
    exact htwice hpair

/-- What comes before an element that occurs once. -/
theorem mem_of_pair_sublist {β : Type} {l l' : List β} {a b : β} (h : [a, b].Sublist (l ++ b :: l'))
    (hnodup : (l ++ b :: l').Nodup) : a ∈ l := by
  obtain ⟨hl, hb, hdisjoint⟩ := List.nodup_append.mp hnodup
  obtain ⟨l₁, l₂, hboth, h₁, h₂⟩ := List.sublist_append_iff.mp h
  match l₁ with
  | [] =>
    obtain rfl : [a, b] = l₂ := hboth
    -- Then `b` comes after `a` in `b :: l'`, and so occurs twice.
    have hmem : b ∈ l' := by
      have hsub := h₂.tail
      exact hsub.mem List.mem_cons_self
    exact absurd hmem (List.nodup_cons.mp hb).1
  | [c] =>
    obtain rfl : a = c := (List.cons.inj hboth).1
    exact h₁.mem List.mem_cons_self
  | c :: d :: more =>
    obtain rfl : a = c := (List.cons.inj hboth).1
    exact h₁.mem List.mem_cons_self

/-- What a beginning has that ends before `b`. -/
theorem mem_of_prefixes {β : Type} {w l l₁ l₂ : List β} {a b : β} (h : l <+: w)
    (h' : l₁ ++ b :: l₂ <+: w) (ha : a ∈ l) (hb : b ∉ l) : a ∈ l₁ := by
  by_cases hlen : l.length ≤ l₁.length
  · exact (List.prefix_of_prefix_length_le h ((List.prefix_append _ _).trans h') hlen).mem ha
  · have hone : l₁ ++ [b] <+: w :=
      ((List.prefix_append_right_inj l₁).mpr (List.prefix_append [b] l₂)).trans h'
    have hlong : (l₁ ++ [b]).length ≤ l.length := by
      rw [List.length_append, List.length_singleton]
      omega
    have hin := List.prefix_of_prefix_length_le hone h hlong
    exact absurd (hin.mem (List.mem_append_right _ (List.mem_singleton_self b))) hb

namespace Session

theorem BecameDue.mono (h : s.BecameDue r x n i) (hl : s.log <+: t.log) : t.BecameDue r x n i := by
  obtain ⟨l, hl⟩ := hl
  obtain ⟨p, j, hi, hj, hn⟩ := h
  refine ⟨p, j, ?_, ?_, hn⟩
  · obtain ⟨hlt, -⟩ := List.getElem?_eq_some_iff.mp hi
    rwa [← hl, List.getElem?_append_left hlt]
  · obtain ⟨hlt, -⟩ := List.getElem?_eq_some_iff.mp hj
    rwa [← hl, List.getElem?_append_left hlt]

theorem BecameDue.of_prefix (h : t.BecameDue r x n i) (hl : s.log <+: t.log)
    (hlt : n < s.log.length) : s.BecameDue r x n i := by
  obtain ⟨l, hl⟩ := hl
  obtain ⟨p, j, hi, hj, rfl⟩ := h
  obtain ⟨hilt, hjlt⟩ := Nat.max_lt.mp hlt
  rw [← hl, List.getElem?_append_left hilt] at hi
  rw [← hl, List.getElem?_append_left hjlt] at hj
  exact ⟨p, j, hi, hj, rfl⟩

/-- A reaction becomes due with one of the events that can make it so. -/
theorem BecameDue.releases (h : s.BecameDue r x n i) :
    ∃ e, s.log[n]? = some e ∧ e.releases = true := by
  obtain ⟨p, j, hi, hj, rfl⟩ := h
  rcases Nat.le_total i j with hij | hij
  · exact ⟨_, by rwa [Nat.max_eq_right hij], rfl⟩
  · exact ⟨_, by rwa [Nat.max_eq_left hij], rfl⟩

theorem BecameDue.lt (h : s.BecameDue r x n i) : n < s.log.length := by
  obtain ⟨e, he, -⟩ := h.releases
  exact (List.getElem?_eq_some_iff.mp he).1

theorem mem_registered_of_getElem? (h : s.log[i]? = some (.registered p r)) :
    r ∈ s.registered p :=
  mem_registered.mpr (List.mem_filterMap.mpr ⟨_, List.mem_of_getElem? h, rfl⟩)

theorem mem_outcomes_of_getElem? (h : s.log[i]? = some (.settled p x)) : x ∈ s.outcomes p := by
  have hmem : (p, x) ∈ s.settlements := List.mem_filterMap.mpr ⟨_, List.mem_of_getElem? h, rfl⟩
  exact List.mem_map.mpr ⟨(p, x), List.mem_filter.mpr ⟨hmem, beq_self_eq_true p⟩, rfl⟩

/-- Every registration has a number, and so has every settlement. -/
theorem exists_registered_of_mem (h : r ∈ s.registered p) :
    ∃ i : Nat, s.log[i]? = some (.registered p r) := by
  obtain ⟨e, he, hr⟩ := List.mem_filterMap.mp (mem_registered.mp h)
  obtain rfl := Event.registration?_eq_some.mp hr
  exact List.getElem?_of_mem he

theorem exists_settled_of_mem (h : x ∈ s.outcomes p) :
    ∃ j : Nat, s.log[j]? = some (.settled p x) := by
  obtain ⟨⟨p', x'⟩, hfilter, rfl⟩ := List.mem_map.mp h
  obtain ⟨hmem, hp⟩ := List.mem_filter.mp hfilter
  obtain rfl : p' = p := beq_iff_eq.mp hp
  obtain ⟨e, he, hx⟩ := List.mem_filterMap.mp hmem
  obtain rfl := Event.settlement?_eq_some.mp hx
  exact List.getElem?_of_mem he

end Session

section Runs

variable [Cause ε] [Registration κ]

theorem Reachable.registered_nodup (hs : Reachable s) (p : PromiseId) :
    ((s.registered p).map Reaction.purpose).Nodup := by
  have hsub : ((s.registered p).map Reaction.purpose).Sublist s.purposes := by
    have hfilter : (s.registrations.filter (·.1 == p)).Sublist s.registrations :=
      List.filter_sublist
    have hmap := hfilter.map (·.2.purpose)
    simpa [Session.registered, Session.purposes, Function.comp_def] using hmap
  exact hs.fresh.nodup.sublist hsub

/-- The number of a registration. -/
theorem Reachable.registered_unique (hs : Reachable s) (hi : s.log[i]? = some (.registered p r))
    (hi' : s.log[i']? = some (.registered q r')) (h : r.purpose = r'.purpose) : i = i' := by
  have hnodup : (s.log.filterMap fun e => e.registration?.map (·.2.purpose)).Nodup := by
    have hpurposes := hs.fresh.nodup
    unfold Session.purposes Session.registrations at hpurposes
    rwa [List.map_filterMap] at hpurposes
  exact index_unique _ hnodup hi hi' rfl (congrArg some h.symm)

/-- The number of a settlement. -/
theorem Reachable.settled_unique (hs : Reachable s) (hj : s.log[j]? = some (.settled p x))
    {j' : Nat} (hj' : s.log[j']? = some (.settled p x')) : j = j' := by
  have hnodup : (s.log.filterMap fun e => e.settlement?.filter (·.1 == p)).Nodup := by
    have hone : (s.outcomes p).Nodup := by
      rw [hs.sound.outcomes p]
      cases s.machine.settlement? p <;> simp
    have hsettlements := List.Nodup.of_map _ hone
    unfold Session.settlements at hsettlements
    rwa [List.filter_filterMap] at hsettlements
  have hx := Session.mem_outcomes_of_getElem? hj
  have hx' := Session.mem_outcomes_of_getElem? hj'
  rw [hs.sound.outcomes p, Option.mem_toList] at hx hx'
  obtain rfl : x = x' := Option.some.inj (hx.symm.trans hx')
  have hsettled : (Event.settled p x : Event α ε κ τ).settlement?.filter (·.1 == p) =
      some (p, x) := by simp [Event.settlement?]
  exact index_unique _ hnodup hj hj' hsettled hsettled

/-- A reaction becomes due once. -/
theorem Reachable.becameDue_unique (hs : Reachable s) (h : s.BecameDue r x n i)
    (h' : s.BecameDue r x' n' i') : n = n' ∧ i = i' := by
  obtain ⟨p, j, hi, hj, rfl⟩ := h
  obtain ⟨p', j', hi', hj', rfl⟩ := h'
  obtain rfl : i = i' := hs.registered_unique hi hi' rfl
  obtain ⟨rfl, -⟩ : p = p' ∧ r = r := by simpa [hi] using hi'
  obtain rfl : j = j' := hs.settled_unique hj hj'
  exact ⟨rfl, rfl⟩

/-- The reactions that ran and those in the queue are the ones that became due. -/
theorem Reachable.mem_schedule_iff (hs : Reachable s) :
    (r, x) ∈ s.schedule ↔ ∃ n i, s.BecameDue r x n i := by
  constructor
  · intro hmem
    obtain ⟨p, hreg, hset⟩ := hs.source hmem
    have hout : x ∈ s.outcomes p := by
      rw [hs.sound.outcomes p, hset]
      exact List.mem_singleton_self x
    obtain ⟨i, hi⟩ := Session.exists_registered_of_mem hreg
    obtain ⟨j, hj⟩ := Session.exists_settled_of_mem hout
    exact ⟨max i j, i, p, j, hi, hj, rfl⟩
  · rintro ⟨n, i, p, j, hi, hj, -⟩
    have hout := Session.mem_outcomes_of_getElem? hj
    rw [hs.sound.outcomes p, Option.mem_toList] at hout
    rcases hs.reaction_cases (Session.mem_registered_of_getElem? hi) with ⟨hnone, -⟩ | ⟨y, hy, hran⟩
    · rw [hnone] at hout
      cases hout
    · obtain rfl : y = x := Option.some.inj (hy.symm.trans hout)
      exact List.mem_append.mpr hran

/-- No reaction is in the schedule twice. -/
theorem Reachable.schedule_nodup (hs : Reachable s) : (s.schedule.map (·.1.purpose)).Nodup := by
  obtain ⟨l, hl⟩ := hs.sourced
  have hreg : ∀ e ∈ l, e.2.1 ∈ s.registered e.1 := by
    intro e he
    rw [← hl.each e.1]
    refine List.mem_append_left _ (List.mem_map.mpr ⟨e, ?_, rfl⟩)
    exact List.mem_filter.mpr ⟨he, beq_self_eq_true _⟩
  have hpairs : l.Pairwise fun e e' => e.2.1.purpose ≠ e'.2.1.purpose := by
    refine List.pairwise_iff_forall_sublist.mpr ?_
    intro e e' hpair heq
    -- One purpose belongs to one promise, on which it would be registered twice.
    obtain ⟨hp, -⟩ := hs.eq_of_purpose (hreg e (hpair.mem (by simp))) (hreg e' (hpair.mem (by simp)))
      heq
    have htwice := (hpair.filter (·.1 == e.1)).map (·.2.1.purpose)
    have hone : ((l.filter (·.1 == e.1)).map (·.2.1.purpose)).Nodup := by
      have hsub := (List.sublist_append_left ((l.filter (·.1 == e.1)).map (·.2.1))
        (s.machine.reactions e.1)).map Reaction.purpose
      rw [hl.each, List.map_map] at hsub
      exact (hs.registered_nodup e.1).sublist hsub
    have hnodup := hone.sublist htwice
    simp [hp, heq] at hnodup
  unfold Session.schedule
  rw [← hl.all, List.map_map]
  exact List.pairwise_map.mpr hpairs

theorem Reachable.deliveries_nodup (hs : Reachable s) : (s.deliveries.map (·.1.purpose)).Nodup := by
  have hsub := (List.sublist_append_left s.deliveries s.machine.due).map (·.1.purpose)
  exact hs.schedule_nodup.sublist hsub

/-- No more reactions run than were registered. -/
theorem Reachable.deliveries_length_le (hs : Reachable s) :
    s.deliveries.length ≤ s.registrations.length := by
  have hsubset : s.deliveries.map (·.1.purpose) ⊆ s.purposes := by
    intro a ha
    obtain ⟨d, hd, rfl⟩ := List.mem_map.mp ha
    obtain ⟨p, hreg, -⟩ := hs.source (List.mem_append_left _ hd)
    exact List.mem_map.mpr ⟨(p, d.1), Session.mem_registered.mp hreg, rfl⟩
  have hlen := (List.subperm_of_subset hs.deliveries_nodup hsubset).length_le
  simpa [Session.purposes] using hlen

/-- A delivery of the log was due when the host was at rest before it. -/
theorem Reachable.at_delivery (hs : Reachable s) (hk : s.log[k]? = some (.started (.deliver r x))) :
    ∃ t l, Reachable t ∧ t.calls = [] ∧ t.log = s.log.take k ∧ Run t s ∧
      t.schedule = t.deliveries ++ (r, x) :: l := by
  obtain ⟨t, m, ht, hidle, hj, hlog, hrun⟩ := hs.at_start hk
  refine ⟨t, m.due, ht, hidle, hlog, hrun.head (.job hidle hj), ?_⟩
  rw [Session.schedule, Machine.due_next? hj]
  rfl

/-- Reactions of one promise run in the order of their registration. -/
theorem Reachable.ran_of_registered_before (hs : Reachable s) {l : List (Reaction κ × Settlement α ε)}
    (hl : s.schedule = s.deliveries ++ (r', x') :: l) (hlt : i < i')
    (hi : s.log[i]? = some (.registered p r)) (hi' : s.log[i']? = some (.registered p r'))
    (hx : s.machine.settlement? p = some x') : (r, x') ∈ s.deliveries := by
  have hreg := Session.mem_registered_of_getElem? hi
  have hreg' := Session.mem_registered_of_getElem? hi'
  have hdue : s.machine.due = (r', x') :: l := List.append_cancel_left hl
  -- The next delivery is to a reaction of `p`.
  have hqueued : s.queued p = (r', x') :: l.filter (s.isOf p) := by
    have hof : s.isOf p (r', x') = true := List.any_eq_true.mpr ⟨r', hreg', beq_self_eq_true _⟩
    rw [Session.queued, hdue, List.filter_cons_of_pos hof]
  have hall : (s.delivered p).map (·.1) ++ r' :: (l.filter (s.isOf p)).map (·.1) =
      s.registered p := by
    rw [← hs.delivered_queued_held p, hqueued, Machine.reactions_of_settled hx]
    simp
  -- In the log, so among the registered, `r` stands before `r'`.
  have hpair : [r, r'].Sublist (s.registered p) := by
    have hlog := (pair_sublist hlt hi hi').filterMap Event.registration?
    have hboth := (hlog.filter (·.1 == p)).map (·.2)
    simpa [Event.registration?, Session.registered, Session.registrations] using hboth
  have hnodup := hs.registered_nodup p
  have hran : r.purpose ∈ (s.delivered p).map (·.1.purpose) := by
    have hpurposes := hpair.map Reaction.purpose
    rw [← hall] at hpurposes hnodup
    simp only [List.map_append, List.map_cons, List.map_map, List.map_nil] at hpurposes hnodup
    exact mem_of_pair_sublist hpurposes hnodup
  obtain ⟨⟨r₀, y⟩, hmem, hpurpose⟩ := List.mem_map.mp hran
  have hset := hs.settlement?_of_mem (List.mem_append_left _ hmem)
  obtain rfl : x' = y := Option.some.inj (hx.symm.trans hset)
  have hreg₀ : r₀ ∈ s.registered p := by
    rw [← hall]
    exact List.mem_append_left _ (List.mem_map.mpr ⟨_, hmem, rfl⟩)
  obtain ⟨-, rfl⟩ := hs.eq_of_purpose hreg₀ hreg hpurpose
  exact List.mem_of_mem_filter hmem

/-- What became due first has run first. -/
theorem Reachable.ran_of_becameDue_before (hs : Reachable s) (h : s.BecameDue r x n i)
    (h' : s.BecameDue r' x' n' i') (hlt : n < n' ∨ n = n' ∧ i < i')
    (hk' : s.log[k']? = some (.started (.deliver r' x'))) :
    ∃ k, k < k' ∧ s.log[k]? = some (.started (.deliver r x)) := by
  obtain ⟨t, l, ht, -, hlog, hrun, hl⟩ := hs.at_delivery hk'
  have hprefix : t.log <+: s.log := hlog ▸ List.take_prefix _ _
  -- By then the second has become due.
  obtain ⟨n₂, i₂, hdue'⟩ := ht.mem_schedule_iff.mp (hl ▸ List.mem_append_right _ List.mem_cons_self)
  obtain ⟨rfl, rfl⟩ := hs.becameDue_unique h' (hdue'.mono hprefix)
  have hran : (r, x) ∈ t.deliveries := by
    rcases hlt with hlt | ⟨rfl, hlt⟩
    · -- At some time the first has become due and the second has not.
      obtain ⟨e, he, hr⟩ := h.releases
      obtain ⟨e', he', hr'⟩ := h'.releases
      obtain ⟨u, hu, hus, hbefore, hafter⟩ := hs.cut hlt he he' hr hr'
      have hup : u.log <+: s.log := (Run.transfers hus).log_grows
      have hmem : (r, x) ∈ u.schedule :=
        hu.mem_schedule_iff.mpr ⟨n, i, h.of_prefix hup hbefore⟩
      have hnot : (r', x') ∉ u.schedule := by
        intro hmem'
        obtain ⟨n₃, i₃, hdue⟩ := hu.mem_schedule_iff.mp hmem'
        obtain ⟨rfl, -⟩ := hs.becameDue_unique h' (hdue.mono hup)
        exact absurd hdue.lt (Nat.not_lt_of_le hafter)
      -- So the schedule of that time ends before the second, which is the next to run.
      exact mem_of_prefixes (Run.transfers hus).schedule_grows
        (hl ▸ (Run.transfers hrun).schedule_grows) hmem hnot
    · -- One settlement has made both due, so they are reactions of one promise.
      have hdue : t.BecameDue r x n i := h.of_prefix hprefix hdue'.lt
      obtain ⟨p, j, hi, hj, hn⟩ := hdue
      obtain ⟨p', j', hi', hj', hn'⟩ := hdue'
      have hsame : j = j' := by
        have hne : j ≠ i' := by
          rintro rfl
          rw [hi'] at hj
          cases hj
        omega
      obtain ⟨rfl, rfl⟩ : p = p' ∧ x = x' := by
        rw [hsame, hj'] at hj
        simpa [eq_comm] using hj
      have hx := Session.mem_outcomes_of_getElem? hj
      rw [ht.sound.outcomes p, Option.mem_toList] at hx
      exact ht.ran_of_registered_before hl hlt hi hi' hx
  -- What ran stands in the log.
  obtain ⟨e, he, hx⟩ := List.mem_filterMap.mp hran
  obtain rfl := Event.delivery?_eq_some.mp hx
  obtain ⟨k, hk⟩ := List.getElem?_of_mem he
  obtain ⟨hlt, -⟩ := List.getElem?_eq_some_iff.mp hk
  rw [hlog, List.length_take] at hlt
  refine ⟨k, by omega, ?_⟩
  rwa [hlog, List.getElem?_take_of_lt (by omega)] at hk

/-- The number of a delivery. -/
theorem Reachable.delivery_unique (hs : Reachable s)
    (hk : s.log[k]? = some (.started (.deliver r x)))
    (hk' : s.log[k']? = some (.started (.deliver r x'))) : k = k' := by
  have hnodup := hs.deliveries_nodup
  unfold Session.deliveries at hnodup
  rw [List.map_filterMap] at hnodup
  exact index_unique _ hnodup hk hk' rfl rfl

/-- **Reactions run later, in the order in which they became due.** Before an operation returns no job
is started, and all that it runs are initializers, reads of a `then` member and calls of it, however
deep they nest. Any other code runs at the bottom of the calls, in the job that was started for it. A
reaction runs in a job that was started at rest, and it had become due by then. What became due first
has run first; and of what became due together, what was registered first. -/
theorem asynchronous_delivery (hs : Reachable s) :
    (∀ u v, Operation s u → During s.calls u v → v.started = s.started ∧
      ∃ new, v.calls = new ++ s.calls ∧ ∀ c ∈ new, c.synchronous = true) ∧
    (∀ c ∈ s.calls, c.synchronous = false → ∃ new j, s.calls = new ++ [c] ∧
      (∀ d ∈ new, d.synchronous = true) ∧ s.started.getLast? = some j ∧ j.call? = some c) ∧
    (∀ (k : Nat) r x, s.log[k]? = some (.started (.deliver r x)) → ∃ t n i, Reachable t ∧
      t.calls = [] ∧ t.log = s.log.take k ∧ Run t s ∧ t.BecameDue r x n i) ∧
    (∀ r x n i r' x' n' i' (k' : Nat), s.BecameDue r x n i → s.BecameDue r' x' n' i' →
      (n < n' ∨ n = n' ∧ i < i') → s.log[k']? = some (.started (.deliver r' x')) →
      (∃ k : Nat, s.log[k]? = some (.started (.deliver r x))) ∧
        ∀ (k : Nat) y, s.log[k]? = some (.started (.deliver r y)) → k < k') := by
  refine ⟨fun u v hop hv => hv.started hop, ?_, ?_, ?_⟩
  · intro c hc hasync
    obtain ⟨new, base, hcalls, hnew, hbase⟩ := hs.calls
    have hin : c ∈ base := by
      rw [hcalls] at hc
      refine (List.mem_append.mp hc).resolve_left fun hc => ?_
      rw [hnew c hc] at hasync
      cases hasync
    obtain ⟨rfl, j, hlast, hj⟩ := hbase c hin
    exact ⟨new, j, hcalls, hnew, hlast, hj⟩
  · intro k r x hk
    obtain ⟨t, l, ht, hidle, hlog, hrun, hl⟩ := hs.at_delivery hk
    have hmem : (r, x) ∈ t.schedule := hl ▸ List.mem_append_right _ List.mem_cons_self
    obtain ⟨n, i, hdue⟩ := ht.mem_schedule_iff.mp hmem
    exact ⟨t, n, i, ht, hidle, hlog, hrun, hdue⟩
  · intro r x n i r' x' n' i' k' h h' hlt hk'
    obtain ⟨k, hbefore, hk⟩ := hs.ran_of_becameDue_before h h' hlt hk'
    refine ⟨⟨k, hk⟩, ?_⟩
    intro k₂ y hk₂
    rw [hs.delivery_unique hk₂ hk]
    exact hbefore

/-- The second of two promises is settled first, and an initializer runs inside a handler. -/
theorem asynchronous_delivery_two_promises :
    let code : Handlers Nat String Unit := ⟨some fun _ => (), none⟩
    let r : Session Nat String (Handlers Nat String Unit) Unit :=
      (Session.empty.defer.defer.register 0 code).register 1 code
    let s := (r.via 1 (.ok (.value 7))).via 0 (.ok (.value 3))
    let t := ({ s.turn with calls := [] }.conclude 3 (.ok (.value 8))).turn
    Reachable t ∧ t.BecameDue (.handler code 3) (.fulfilled 7) 2 1 ∧
      t.BecameDue (.handler code 2) (.fulfilled 3) 3 0 ∧
      t.log[6]? = some (.started (.deliver (.handler code 2) (.fulfilled 3))) ∧
      (∃ k < 6, t.log[k]? = some (.started (.deliver (.handler code 3) (.fulfilled 7)))) ∧
      t.calls = [.handler 2] ∧ Operation t t.init ∧ t.init.calls = [.initializer 4, .handler 2] ∧
      t.init.started = t.started := by
  intro code r s t
  have hr : Reachable r :=
    .tail (.tail (.tail (.single .defer) .defer) (.register (by decide) code))
      (.register (by decide) code)
  have hs : Reachable s :=
    .tail (hr.tail (.via 1 (o := .ok (.value 7)) trivial)) (.via 0 (o := .ok (.value 3)) trivial)
  have hturn : Reachable s.turn := hs.trans (run_turn (by decide +kernel))
  have hended : Reachable ({ s.turn with calls := [] }.conclude 3 (.ok (.value 8))) :=
    hturn.tail (.endHandler (by decide +kernel) (o := .ok (.value 8)) trivial)
  have ht : Reachable t := hended.trans (run_turn (by decide +kernel))
  have hlog : t.log = [.registered 0 (.handler code 2), .registered 1 (.handler code 3),
      .settled 1 (.fulfilled 7), .settled 0 (.fulfilled 3),
      .started (.deliver (.handler code 3) (.fulfilled 7)), .settled 3 (.fulfilled 8),
      .started (.deliver (.handler code 2) (.fulfilled 3))] := by
    unfold t s r code
    rfl
  have hcalls : t.calls = [.handler 2] := by decide +kernel
  have hinit : t.init.calls = [.initializer 4, .handler 2] := by decide +kernel
  clear_value t
  have hfirst : t.BecameDue (.handler code 3) (.fulfilled 7) 2 1 :=
    ⟨1, 2, by rw [hlog]; rfl, by rw [hlog]; rfl, rfl⟩
  have hsecond : t.BecameDue (.handler code 2) (.fulfilled 3) 3 0 :=
    ⟨0, 3, by rw [hlog]; rfl, by rw [hlog]; rfl, rfl⟩
  have hran : t.log[6]? = some (.started (.deliver (.handler code 2) (.fulfilled 3))) := by
    rw [hlog]
    rfl
  obtain ⟨hoperation, -, -, horder⟩ := asynchronous_delivery ht
  obtain ⟨⟨k, hk⟩, hbefore⟩ := horder _ _ _ _ _ _ _ _ _ hfirst hsecond (.inl (by decide)) hran
  exact ⟨ht, hfirst, hsecond, hran, ⟨k, hbefore k _ hk, hk⟩, hcalls, .init, hinit,
    (hoperation _ _ .init .refl).1⟩

end Runs

end Switchboard.Promise
