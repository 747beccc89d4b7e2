import Switchboard.Proofs.Client.Topology

/-!
# Observers of the topology

Those who observe the topology are told of every announcement in the order in which they registered,
after the topology was updated. What an observer does when it is told is its own affair, as long as it
only registers others: they stand behind all that were there, and are told from the next announcement
on. The report of a session shows who registered and who was told.

- `Session.registered`, `Session.told`: what the report shows of observers.
- `Grows`: new observers are behind the old ones, and nobody is forgotten.
- `Registers`: ways to react that make a session grow.
- `Modest`: steps that announce no topology. `registers_steps`: they only register.
- `grows_tellings`, `publish_told`: what one announcement does.
- `Complete`: the observers are all who registered. `complete_foldl`: they are in every scenario.
- `observers_told`: every announcement of a scenario, whatever its observers register.

## Proof structure

An event takes the list of observers out of the session, tells them one after the other, and puts the
list back in front of whatever was registered meanwhile. While they are told, the list in the session
holds the newcomers only. So `Grows` is stated for any list: it says what was added, and nothing of what
was there. For the event as a whole, the list that was taken out is put in front of that.

How an observer reacts is a parameter. It is constrained by `Registers P`, which asks for a property `P`
of the steps that it is given and for sessions that only grow. Observers that an observer registers
satisfy `P` again, so that the next event finds the same situation; for scenarios `P` is `Modest`, whose
recursion is the nesting of registrations. The depth to which a scenario is run stands nowhere in the
theorem: it is proved for each depth, by induction, that the reaction of that depth registers.

The hypothesis cannot be dropped. An observer that announces a topology begins a second event before the
first one is over. The list is out of the session then, so that the second event reaches newcomers only,
and the others are never told of it. `latest_topology` covers these sessions, as far as the topology is
concerned.
-/

namespace Switchboard.Client.Scenario

open Promise (PromiseId)

def Entry.observing? : Entry → Option Json
  | .observing tag => some tag
  | _ => none

def Entry.observed? : Entry → Option (Json × String)
  | .observed tag payload => some (tag, payload)
  | _ => none

/-- All who ever registered, the first one first. -/
def Session.registered (s : Session) : List Json := s.entries.reverse.filterMap Entry.observing?

/-- All who were ever told, and what they were told. -/
def Session.told (s : Session) : List (Json × String) :=
  s.entries.reverse.filterMap Entry.observed?

/-- It ran before. -/
def Observer.spent (o : Observer) : Observer := { o with ran := true }

/-- Nothing happened to the observers. -/
structure Still (s s' : Session) : Prop where
  observers : s'.observers = s.observers
  registered : s'.registered = s.registered
  told : s'.told = s.told

/-- Observers with steps that `P` allows registered behind the old ones, and `calls` were told. -/
structure Grows (P : List Step → Prop) (s s' : Session) (calls : List (Json × String)) : Prop where
  observers : ∃ new, s'.observers = s.observers ++ new ∧ (∀ o ∈ new, P o.body) ∧
    s'.registered = s.registered ++ new.map (·.tag)
  told : s'.told = s.told ++ calls
  topology : s'.client.topology = s.client.topology

/-- Whoever does what `P` allows makes the session grow, and tells nobody. -/
def Registers (P : List Step → Prop) (react : List Step → Session → Session) : Prop :=
  ∀ body s, P body → Grows P s (react body s) []

mutual

/-- A step that announces no topology, and registers only observers that do not. -/
def Step.Modest : Step → Prop
  | .publish name _ => name ≠ topologyEvent
  | .observe _ body _ => Modest body
  | _ => True

def Modest : List Step → Prop
  | [] => True
  | st :: script => st.Modest ∧ Modest script

end

/-- A step that registers, if any, an observer with steps that `P` allows. -/
def Step.Allows (P : List Step → Prop) : Step → Prop
  | .observe _ body _ => P body
  | _ => True

variable {s s' s'' : Session} {react react' : List Step → Session → Session} {e : Entry}
  {P : List Step → Prop} {calls calls' : List (Json × String)} {st : Step} {payload : String}

/-! ### What is reported

Entries are put in front of the report, which is why it is read backwards. Most of what happens is
reported without a word about observers. -/

theorem registered_append {new : List Entry} (h : s'.entries = new ++ s.entries) :
    s'.registered = s.registered ++ new.reverse.filterMap Entry.observing? := by
  unfold Session.registered
  rw [h, List.reverse_append, List.filterMap_append]

theorem told_append {new : List Entry} (h : s'.entries = new ++ s.entries) :
    s'.told = s.told ++ new.reverse.filterMap Entry.observed? := by
  unfold Session.told
  rw [h, List.reverse_append, List.filterMap_append]

theorem Still.refl (s : Session) : Still s s := ⟨rfl, rfl, rfl⟩

theorem Still.trans (h : Still s s') (h' : Still s' s'') : Still s s'' :=
  ⟨h'.observers.trans h.observers, h'.registered.trans h.registered, h'.told.trans h.told⟩

/-- What is reported is about something else. -/
theorem Still.of_entries (new : List Entry) (hentries : s'.entries = new ++ s.entries)
    (hnew : ∀ e ∈ new, e.observing? = none ∧ e.observed? = none)
    (hobservers : s'.observers = s.observers) : Still s s' := by
  refine ⟨hobservers, ?_, ?_⟩
  · rw [registered_append hentries, List.filterMap_eq_nil_iff.mpr, List.append_nil]
    exact fun e he => (hnew e (List.mem_reverse.mp he)).1
  · rw [told_append hentries, List.filterMap_eq_nil_iff.mpr, List.append_nil]
    exact fun e he => (hnew e (List.mem_reverse.mp he)).2

theorem Still.one (hentries : s'.entries = e :: s.entries) (hobserving : e.observing? = none)
    (hobserved : e.observed? = none) (hobservers : s'.observers = s.observers) : Still s s' := by
  refine .of_entries [e] hentries ?_ hobservers
  intro e' he'
  obtain rfl := List.mem_singleton.mp he'
  exact ⟨hobserving, hobserved⟩

theorem still_report (s : Session) (hobserving : e.observing? = none)
    (hobserved : e.observed? = none) : Still s (s.report e) := .one rfl hobserving hobserved rfl

theorem still_advance (s : Session) (c : Client) : Still s (s.advance c) := by
  refine .of_entries _ rfl ?_ rfl
  intro e he
  obtain ⟨effect, -, rfl⟩ := List.mem_map.mp he
  exact ⟨rfl, rfl⟩

theorem still_asked (s : Session) (kind name : String) (made : PromiseId × Client) :
    Still s (s.asked kind name made) :=
  (still_advance s made.2).trans
    (.one (e := .asked kind name (made.2.machine.state made.1)) rfl rfl rfl rfl)

theorem still_jobs (n : Nat) (s : Session) : Still s (s.jobs n) := by
  induction n generalizing s with
  | zero => exact .refl s
  | succ n ih =>
    unfold Session.jobs
    split
    · exact .refl s
    · rename_i answer c hjob
      refine (still_advance s c).trans ?_
      dsimp only
      split
      · exact ih _
      · split
        · exact (still_report _ rfl rfl).trans (ih _)
        · exact ih _

/-! ### Steps of observers

Three kinds of steps matter: those that publish an announcement, those that register an observer and all
others. Of these the last leave the observers and what they were told as they are. -/

theorem Grows.refl (s : Session) : Grows P s s [] :=
  ⟨⟨[], by simp⟩, (List.append_nil _).symm, rfl⟩

theorem Grows.trans (h : Grows P s s' calls) (h' : Grows P s' s'' calls') :
    Grows P s s'' (calls ++ calls') := by
  obtain ⟨new, hobservers, hnew, hregistered⟩ := h.observers
  obtain ⟨new', hobservers', hnew', hregistered'⟩ := h'.observers
  refine ⟨⟨new ++ new', ?_, ?_, ?_⟩, ?_, h'.topology.trans h.topology⟩
  · rw [hobservers', hobservers, List.append_assoc]
  · intro o ho
    exact (List.mem_append.mp ho).elim (hnew o) (hnew' o)
  · rw [hregistered', hregistered, List.map_append, List.append_assoc]
  · rw [h'.told, h.told, List.append_assoc]

theorem Still.grows (h : Still s s') (htopology : s'.client.topology = s.client.topology) :
    Grows P s s' [] :=
  ⟨⟨[], by rw [h.observers, h.registered]; simp⟩, h.told.trans (List.append_nil _).symm, htopology⟩

/-- Steps other than push events have no part in the observers, but registrations. -/
theorem still_step (react : List Step → Session → Session) (s : Session)
    (hst : ∀ payload, st ≠ .publish topologyEvent payload)
    (hobserve : ∀ tag body once, st ≠ .observe tag body once) : Still s (s.step react st) := by
  cases st with
  | publish name payload =>
    have hname : name ≠ topologyEvent := by
      rintro rfl
      exact hst payload rfl
    show Still s ((s.publish react name payload).report _)
    rw [publish_foreign react s payload hname]
    exact .one rfl rfl rfl rfl
  | observe tag body once => exact absurd rfl (hobserve tag body once)
  | request name service path method headers body =>
    unfold Session.step
    dsimp only
    split
    · exact still_asked ..
    · split
      · exact still_asked ..
      · exact .one rfl rfl rfl rfl
  | get name service path => exact still_asked ..
  | post kind name service path body => exact still_asked ..
  -- What a name does not stand for is reported as missing.
  | complete id reply =>
    unfold Session.step
    dsimp only
    split
    · exact (still_report s rfl rfl).trans (still_advance _ _)
    · exact .one rfl rfl rfl rfl
  | refreshed id reply =>
    unfold Session.step
    dsimp only
    split
    · exact (still_report s rfl rfl).trans (still_advance _ _)
    · exact .one rfl rfl rfl rfl
  | run => exact (still_jobs _ s).trans (.one rfl rfl rfl rfl)
  | pushFailure | snapshot name | servers service snapshot | authenticate value | setToken token
  | describe => exact .one rfl rfl rfl rfl

/-- Only push events change the topology. -/
theorem topology_step (react : List Step → Session → Session) (s : Session)
    (hst : ∀ payload, st ≠ .publish topologyEvent payload) :
    (s.step react st).client.topology = s.client.topology := by
  by_cases hpublish : ∃ name payload, st = .publish name payload
  · obtain ⟨name, payload, rfl⟩ := hpublish
    have hname : name ≠ topologyEvent := by
      rintro rfl
      exact hst payload rfl
    show (s.publish react name payload).client.topology = _
    rw [publish_foreign react s payload hname]
  · -- Other steps have nothing to tell, so any way to react makes the same of them.
    have hleads : Leads s.client (s.stepEvents (fun _ s => s) (fun _ _ => []) st)
        (s.step (fun _ s => s) st).client := leads_step (fun _ _ => .refl _) s st
    have hstep : s.step react st = s.step (fun _ s => s) st := by
      cases st with
      | publish name payload => exact absurd ⟨name, payload, rfl⟩ hpublish
      | _ => rfl
    have hevents : s.stepEvents (fun _ s => s) (fun _ _ => []) st = [] := by
      cases st with
      | publish name payload => exact absurd ⟨name, payload, rfl⟩ hpublish
      | _ => rfl
    rw [hstep, (topology_of_leads hleads).1, hevents]
    rfl

/-- A step that announces nothing registers at most one observer, behind all others. -/
theorem grows_step (react : List Step → Session → Session) (s : Session)
    (hst : ∀ payload, st ≠ .publish topologyEvent payload) (hallows : st.Allows P) :
    Grows P s (s.step react st) [] := by
  by_cases hobserve : ∃ tag body once, st = .observe tag body once
  · obtain ⟨tag, body, once, rfl⟩ := hobserve
    have hentries : (s.step react (.observe tag body once)).entries =
        [.observing tag] ++ s.entries := rfl
    refine ⟨⟨[⟨tag, body, once, false⟩], rfl, ?_, registered_append hentries⟩,
      told_append hentries, rfl⟩
    intro o ho
    obtain rfl := List.mem_singleton.mp ho
    exact hallows
  · have hother : ∀ tag body once, st ≠ .observe tag body once := by
      rintro tag body once rfl
      exact hobserve ⟨tag, body, once, rfl⟩
    exact (still_step react s hst hother).grows (topology_step react s hst)

theorem Step.Modest.allows (h : st.Modest) : st.Allows Scenario.Modest := by
  cases st with
  | observe tag body once => exact h
  | _ => trivial

theorem Step.Modest.ne_publish (h : st.Modest) (payload : String) :
    st ≠ .publish topologyEvent payload := by
  rintro rfl
  exact h rfl

theorem grows_foldl (react : List Step → Session → Session) {script : List Step}
    (h : Modest script) (s : Session) :
    Grows Modest s (script.foldl (Session.step react) s) [] := by
  induction script generalizing s with
  | nil => exact .refl s
  | cons st script ih => exact (grows_step react s h.1.ne_publish h.1.allows).trans (ih h.2 _)

/-- Modest steps only register, however deep the observers of the session nest. -/
theorem registers_steps (n : Nat) : Registers Modest (Session.steps n) := by
  intro script s h
  cases n <;> exact grows_foldl _ h s

/-! ### One announcement

By induction on the list of those who are told. Each of them gets the session that the one before it
left, with the same topology. -/

theorem grows_tell (hreact : Registers P react) (payload : String)
    (s : Session) {o : Observer} (ho : P o.body) :
    Grows P s (s.tell react payload o) [(o.tag, payload)] := by
  have hentries : (s.report (.observed o.tag payload)).entries =
      [.observed o.tag payload] ++ s.entries := rfl
  have hreport : Grows P s (s.report (.observed o.tag payload)) [(o.tag, payload)] :=
    ⟨⟨[], (List.append_nil _).symm, by simp, registered_append hentries⟩,
      told_append hentries, rfl⟩
  unfold Session.tell
  dsimp only
  split
  · exact hreport
  · exact hreport.trans (hreact o.body _ ho)

/-- Observers are told one after the other, each with what the one before it left. -/
theorem grows_tellings (hreact : Registers P react) (payload : String)
    {os : List Observer} (hos : ∀ o ∈ os, P o.body) (s : Session) :
    Grows P s (os.foldl (Session.tell react payload) s) (os.map fun o => (o.tag, payload)) := by
  induction os generalizing s with
  | nil => exact .refl s
  | cons o os ih =>
    obtain ⟨ho, hos⟩ := List.forall_mem_cons.mp hos
    exact (grows_tell hreact payload s ho).trans (ih hos _)

/-- What observers do is of interest only after the topology was updated. -/
theorem tellings_congr (hreact : Registers P react)
    {os : List Observer} (hos : ∀ o ∈ os, P o.body) {s : Session}
    (hsame : ∀ body t, t.client.topology = s.client.topology → react' body t = react body t) :
    os.foldl (Session.tell react' payload) s = os.foldl (Session.tell react payload) s := by
  induction os generalizing s with
  | nil => rfl
  | cons o os ih =>
    obtain ⟨ho, hos⟩ := List.forall_mem_cons.mp hos
    -- The first one reacts alike, and leaves the topology on which the others' reactions depend.
    have htell : s.tell react' payload o = s.tell react payload o := by
      unfold Session.tell
      dsimp only
      rw [hsame o.body (s.report (.observed o.tag payload)) rfl]
    have htopology := (grows_tell hreact payload s ho).topology
    rw [List.foldl_cons, List.foldl_cons, htell]
    exact ih hos fun body t ht => hsame body t (ht.trans htopology)

/-- An announcement is told to those who observe when it begins, and to nobody else. -/
theorem publish_told (hreact : Registers P react)
    (hs : ∀ o ∈ s.observers, P o.body) (payload : String) :
    let s' := s.publish react topologyEvent payload
    (∃ new, s'.observers = s.observers.map Observer.spent ++ new ∧ (∀ o ∈ new, P o.body) ∧
      s'.registered = s.registered ++ new.map (·.tag)) ∧
      s'.told = s.told ++ s.observers.map (fun o => (o.tag, payload)) ∧
      s'.client.topology = s.client.topology.after [(topologyEvent, payload)] ∧
      ∀ react', (∀ body t, t.client.topology = s'.client.topology → react' body t = react body t) →
        s.publish react' topologyEvent payload = s' := by
  intro s'
  let updated : Session :=
    { s with client := s.client.announce topologyEvent payload, observers := [] }
  -- The event unfolded, for any way to react: update, tell everybody, and put the list back.
  have hpublish (r : List Step → Session → Session) : s.publish r topologyEvent payload =
      { s.observers.foldl (Session.tell r payload) updated with
        observers := s.observers.map Observer.spent ++
          (s.observers.foldl (Session.tell r payload) updated).observers } := by
    unfold Session.publish
    rw [if_pos rfl]
    rfl
  have hgrows := grows_tellings hreact payload hs updated
  obtain ⟨new, hobservers, hnew, hregistered⟩ := hgrows.observers
  have hs' : s' = _ := hpublish react
  have htopology : s'.client.topology = updated.client.topology := by
    rw [hs']
    exact hgrows.topology
  refine ⟨⟨new, ?_, hnew, ?_⟩, ?_, ?_, ?_⟩
  · rw [hs', hobservers]
    rfl
  · rw [hs']
    exact hregistered
  · rw [hs']
    exact hgrows.told
  · rw [htopology]
    exact (topology_announce s.client topologyEvent payload).1
  · intro react' hsame
    rw [hs', hpublish react', tellings_congr hreact hs (htopology ▸ hsame)]

/-! ### Scenarios

`Complete` is what a step preserves. It speaks of the tags only, since an observer that ran differs from
the one that registered. -/

/-- The observers are those who ever registered, in that order, and keep to what `P` allows. -/
structure Complete (P : List Step → Prop) (s : Session) : Prop where
  observers : s.observers.map (·.tag) = s.registered
  allowed : ∀ o ∈ s.observers, P o.body

theorem Grows.complete (h : Grows P s s' calls) (hs : Complete P s) : Complete P s' := by
  obtain ⟨new, hobservers, hnew, hregistered⟩ := h.observers
  constructor
  · rw [hobservers, hregistered, List.map_append, hs.observers]
  · intro o ho
    rw [hobservers] at ho
    exact (List.mem_append.mp ho).elim (hs.allowed o) (hnew o)

theorem complete_publish (hreact : Registers P react)
    (hs : Complete P s) (name payload : String) : Complete P (s.publish react name payload) := by
  by_cases hname : name = topologyEvent
  · subst hname
    obtain ⟨⟨new, hobservers, hnew, hregistered⟩, -⟩ := publish_told hreact hs.allowed payload
    have htags : (s.observers.map Observer.spent).map (·.tag) = s.registered := by
      rw [List.map_map, ← hs.observers]
      rfl
    constructor
    · rw [hobservers, hregistered, List.map_append, htags]
    · intro o ho
      rw [hobservers] at ho
      rcases List.mem_append.mp ho with ho | ho
      · obtain ⟨o', ho', rfl⟩ := List.mem_map.mp ho
        exact hs.allowed o' ho'
      · exact hnew o ho
  · rwa [publish_foreign react s payload hname]

theorem complete_step (hreact : Registers P react) (hs : Complete P s) (hst : st.Allows P) :
    Complete P (s.step react st) := by
  by_cases hpublish : ∃ name payload, st = .publish name payload
  · obtain ⟨name, payload, rfl⟩ := hpublish
    have hcomplete := complete_publish hreact hs name payload
    have hreport : Still (s.publish react name payload)
        (s.step react (.publish name payload)) := .one rfl rfl rfl rfl
    exact (hreport.grows rfl).complete hcomplete
  · have hother : ∀ payload, st ≠ .publish topologyEvent payload := by
      rintro payload rfl
      exact hpublish ⟨_, payload, rfl⟩
    exact (grows_step react s hother hst).complete hs

theorem complete_foldl (hreact : Registers P react) {script : List Step}
    (hscript : ∀ st ∈ script, st.Allows P) (hs : Complete P s) :
    Complete P (script.foldl (Session.step react) s) := by
  induction script generalizing s with
  | nil => exact hs
  | cons st script ih =>
    obtain ⟨hst, hscript⟩ := List.forall_mem_cons.mp hscript
    exact ih hscript (complete_step hreact hs hst)

/-- **Observers are neither lost nor repeated nor reordered.** Let an observer do what it likes when it
is told, as long as the session only grows by it. After any steps, the observers are those who ever
registered. An announcement, readable or not, is told to each of them once, in that order and as it
came, and to nobody who registers meanwhile; then the observers are again those who ever registered, the
new ones behind the old ones. The topology is updated before anyone is told: whoever reacts alike to the
updated topology is led to the same session. The steps that a scenario gives to its observers are of
this kind if they announce nothing, however deep their registrations nest. -/
theorem observers_told :
    (∀ (c : Client) (P : List Step → Prop) (react : List Step → Session → Session)
      (script : List Step) (payload : String),
      Registers P react → (∀ st ∈ script, st.Allows P) →
      let s := script.foldl (Session.step react) (.init c)
      let s' := s.publish react topologyEvent payload
      s.observers.map (·.tag) = s.registered ∧
        s'.told = s.told ++ s.registered.map (·, payload) ∧
        (∃ new, s'.observers = s.observers.map Observer.spent ++ new) ∧
        s'.observers.map (·.tag) = s'.registered ∧
        s'.client.topology = s.client.topology.after [(topologyEvent, payload)] ∧
        ∀ react', (∀ body t, t.client.topology = s'.client.topology →
          react' body t = react body t) → s.publish react' topologyEvent payload = s') ∧
    ∀ n, Registers Modest (Session.steps n) := by
  refine ⟨?_, registers_steps⟩
  intro c P react script payload hreact hscript s s'
  -- Nobody registered before the first step, so the invariant holds before it.
  have hinit : Complete P (.init c) := ⟨rfl, by simp [Session.init]⟩
  have hs : Complete P s := complete_foldl hreact hscript hinit
  have hs' : Complete P s' := complete_publish hreact hs topologyEvent payload
  obtain ⟨⟨new, hobservers, -⟩, htold, htopology, hcongr⟩ := publish_told hreact hs.allowed payload
  refine ⟨hs.observers, ?_, ⟨new, hobservers⟩, hs'.observers, htopology, hcongr⟩
  rw [← hs.observers, List.map_map]
  exact htold

/-- The first observer registers another each time, which registers a third; the second announcement
cannot be read. -/
theorem observers_told_nested :
    let nested : List Step := [.observe (.str "b") [.observe (.str "c") [] false] false]
    let script : List Step :=
      [.observe (.str "a") nested false, .publish topologyEvent "\x7b\x7d"]
    let s := script.foldl (Session.step (Session.steps 2)) (.init (Client.init {} none []))
    let s' := s.publish (Session.steps 2) topologyEvent "?"
    s'.told.map (fun e => (e.1.text, e.2)) =
        [("\"a\"", "\x7b\x7d"), ("\"a\"", "?"), ("\"b\"", "?")] ∧
      s'.observers.map (fun o => o.tag.text) = ["\"a\"", "\"b\"", "\"b\"", "\"c\""] := by
  intro nested script s s'
  have hallows : ∀ st ∈ script, st.Allows Modest := by
    simp [script, nested, Step.Allows, Modest, Step.Modest]
  obtain ⟨htold, -⟩ := observers_told
  obtain ⟨-, hcalls, -⟩ := htold (Client.init {} none []) Modest (Session.steps 2) script "?"
    (registers_steps 2) hallows
  refine ⟨?_, by decide +kernel⟩
  show s'.told.map _ = _
  rw [hcalls]
  decide +kernel

end Switchboard.Client.Scenario
