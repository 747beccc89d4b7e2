import Switchboard.Proofs.Promise.Adoption
import Switchboard.Proofs.Promise.Timing

/-!
# What a program did

A run that remembers, for each step, what the program did with it. What matters are the resolvers that
it called and the calls into it that returned; the rest has one name.

- `Act`: what the program did. `Act.says?`: the outcome that it put to a resolver, which is what it
  called it with, or the failure of a function that the resolver was given to. `Act.call?`: the call
  into the program that is over.
- `Does`, `Acts`: steps and runs with what was done. Every run is one (`Run.exists_acts`).
- `Does.calls`: a call into the program stays until it is over.
- `Does.resolver`: a resolver is used exactly if something was said through it.
- `Does.repeated`: what is said through a used resolver changes nothing.

A law about the first call of a resolver, or about what a handler answered, cannot be stated over the
steps of a session: these say where a step leads and not which one it was. Acts are the labels for that.
They add nothing to what can happen, so that a law over acts is one over all runs; `Act.other` covers
the steps of which no law needs to know more.

An act is named by numbers, of resolvers and of promises, and these are the ones of the session it is
done in. A resolver that does not exist yet is not counted as said through, even if its number is handed
out later (`Does.madeUp`).
-/

namespace Switchboard.Promise

inductive Act (α ε : Type)
  /-- A resolver was called. -/
  | said (r : ResolverId) (o : Outcome α ε)
  /-- The `then` member of an object was read for `p`; if it can be called, it gets `r`. -/
  | read (p : PromiseId) (found : Except ε (Option α)) (r : ResolverId)
  /-- A `then` member returned. -/
  | returned (r : ResolverId) (thrown : Option ε)
  /-- A handler returned. -/
  | answered (dependent : PromiseId) (o : Outcome α ε)
  /-- A task or an initializer returned. -/
  | finished (c : Call)
  | other

namespace Act

variable {α ε : Type}

def says? (r : ResolverId) : Act α ε → Option (Outcome α ε)
  | .said r' o => if r' = r then some o else none
  | .returned r' (some c) => if r' = r then some (.error c) else none
  | _ => none

def call? : Act α ε → Option Call
  | .read p _ _ => some (.read p)
  | .returned r _ => some (.body r)
  | .answered d _ => some (.handler d)
  | .finished c => some c
  | _ => none

theorem says?_eq_some {a : Act α ε} {r : ResolverId} {o : Outcome α ε} :
    a.says? r = some o ↔ a = .said r o ∨ ∃ c, a = .returned r (some c) ∧ o = .error c := by
  rcases a with ⟨r', o'⟩ | _ | ⟨r', _ | c⟩ | _ | _ | _
  · by_cases h : r' = r <;> simp [says?, h]
  · simp [says?]
  · simp [says?]
  · by_cases h : r' = r
    · simp [says?, h, eq_comm]
    · simp [says?, h]
  · simp [says?]
  · simp [says?]
  · simp [says?]

end Act

section

variable {α ε κ τ : Type} [Cause ε] [Registration κ]

/-- A step, and what the program did with it. Who makes up a resolver has done nothing. -/
inductive Does : Session α ε κ τ → Act α ε → Session α ε κ τ → Prop
  | said {s r} {o : Outcome α ε} (hr : r < s.machine.resolvers.size) (ho : o.Known s.machine) :
      Does s (.said r o) (s.via r o)
  | madeUp {s r} {o : Outcome α ε} (hr : s.machine.resolvers.size ≤ r) (ho : o.Known s.machine) :
      Does s .other (s.via r o)
  | read {s p cs} (hc : s.calls = .read p :: cs) (found : Except ε (Option α)) :
      Does s (.read p found s.machine.resolvers.size) ({ s with calls := cs }.finishRead p found)
  | returned {s r cs} (hc : s.calls = .body r :: cs) (thrown : Option ε) :
      Does s (.returned r thrown) ({ s with calls := cs }.finishBody r thrown)
  | answered {s d cs} (hc : s.calls = .handler d :: cs) {o : Outcome α ε} (ho : o.Known s.machine) :
      Does s (.answered d o) ({ s with calls := cs }.conclude d o)
  | task {s cs} (hc : s.calls = .task :: cs) : Does s (.finished .task) { s with calls := cs }
  | initializer {s p cs} (hc : s.calls = .initializer p :: cs) :
      Does s (.finished (.initializer p)) { s with calls := cs }
  | make {s} (x : Option (Settlement α ε)) : Does s .other (s.make x)
  | defer {s} : Does s .other s.defer
  | init {s} : Does s .other s.init
  | register {s p} (hp : p < s.machine.slots.size) (code : κ) : Does s .other (s.register p code)
  | await {s p} (hp : p < s.machine.slots.size) : Does s .other (s.await p)
  | look {s a} (ha : a < s.machine.awaits.size) : Does s .other (s.look a)
  | lookLater {s a} (ha : a < s.machine.awaits.size) : Does s .other (s.lookLater a)
  | spawn {s} (u : τ) : Does s .other (s.spawn u)
  | abandon {s} (p : PromiseId) : Does s .other (s.abandon p)
  | job {s j m} (hidle : s.calls = []) (hj : s.machine.next? = some (j, m)) :
      Does s .other ({ s with machine := m }.start j)

/-- Any number of steps, with what was done in order. -/
inductive Acts : Session α ε κ τ → List (Act α ε) → Session α ε κ τ → Prop
  | refl {s} : Acts s [] s
  | tail {s acts t a u} (h : Acts s acts t) (ha : Does t a u) : Acts s (acts ++ [a]) u

end

variable {α ε κ τ : Type} [Cause ε] [Registration κ] {s t u : Session α ε κ τ} {a : Act α ε}
  {acts : List (Act α ε)} {m : Machine α ε κ τ} {p q : PromiseId} {r r' : ResolverId} {c : Call}

theorem Does.step (h : Does s a t) : Step s t := by
  cases h with
  | said hr ho => exact .via _ ho
  | madeUp hr ho => exact .via _ ho
  | read hc found => exact .endRead hc found
  | returned hc thrown => exact .endBody hc thrown
  | answered hc ho => exact .endHandler hc ho
  | task hc => exact .endTask hc
  | initializer hc => exact .endInitializer hc
  | make x => exact .make x
  | defer => exact .defer
  | init => exact .init
  | register hp code => exact .register hp code
  | await hp => exact .await hp
  | look ha => exact .look ha
  | lookLater ha => exact .lookLater ha
  | spawn v => exact .spawn v
  | abandon p => exact .abandon p
  | job hidle hj => exact .job hidle hj

theorem Step.does (h : Step s t) : ∃ a, Does s a t := by
  cases h with
  | make x => exact ⟨_, .make x⟩
  | defer => exact ⟨_, .defer⟩
  | init => exact ⟨_, .init⟩
  | register hp code => exact ⟨_, .register hp code⟩
  | await hp => exact ⟨_, .await hp⟩
  | look ha => exact ⟨_, .look ha⟩
  | lookLater ha => exact ⟨_, .lookLater ha⟩
  | via r ho =>
    rcases Nat.lt_or_ge r s.machine.resolvers.size with hr | hr
    · exact ⟨_, .said hr ho⟩
    · exact ⟨_, .madeUp hr ho⟩
  | spawn v => exact ⟨_, .spawn v⟩
  | abandon p => exact ⟨_, .abandon p⟩
  | endTask hc => exact ⟨_, .task hc⟩
  | endInitializer hc => exact ⟨_, .initializer hc⟩
  | endHandler hc ho => exact ⟨_, .answered hc ho⟩
  | endRead hc found => exact ⟨_, .read hc found⟩
  | endBody hc thrown => exact ⟨_, .returned hc thrown⟩
  | job hidle hj => exact ⟨_, .job hidle hj⟩

theorem Acts.run (h : Acts s acts t) : Run s t := by
  induction h with
  | refl => exact .refl
  | tail _ ha ih => exact ih.tail ha.step

/-- In every run the program did something. -/
theorem Run.exists_acts (h : Run s t) : ∃ acts : List (Act α ε), Acts s acts t := by
  induction h with
  | refl => exact ⟨[], .refl⟩
  | tail _ hstep ih =>
    obtain ⟨acts, hacts⟩ := ih
    obtain ⟨a, ha⟩ := hstep.does
    exact ⟨acts ++ [a], hacts.tail ha⟩

/-- What was done first and what was done later. -/
theorem Acts.append {later : List (Act α ε)} (h : Acts s acts t) (h' : Acts t later u) :
    Acts s (acts ++ later) u := by
  induction h' with
  | refl => rwa [List.append_nil]
  | tail _ ha ih =>
    rw [← List.append_assoc]
    exact ih.tail ha

/-- The host takes the next job. -/
theorem Acts.turn (h : Acts s acts t) (ht : t.calls = []) (hq : t.machine.next?.isSome) :
    Acts s (acts ++ [.other]) t.turn := by
  obtain ⟨⟨j, m⟩, hj⟩ := Option.isSome_iff_exists.mp hq
  have hturn : t.turn = ({ t with machine := m } : Session α ε κ τ).start j := by
    rw [Session.turn, hj]
  rw [hturn]
  exact h.tail (.job ht hj)

theorem Acts.split (earlier later : List (Act α ε)) (h : Acts s (earlier ++ later) t) :
    ∃ u, Acts s earlier u ∧ Acts u later t := by
  -- Acts grow at their end, so the induction peels off what was done last.
  generalize hall : earlier ++ later = all at h
  induction h generalizing later with
  | refl =>
    obtain ⟨rfl, rfl⟩ := List.append_eq_nil_iff.mp hall
    exact ⟨s, .refl, .refl⟩
  | @tail all t a v h ha ih =>
    rcases List.eq_nil_or_concat later with rfl | ⟨init, b, rfl⟩
    · rw [List.append_nil] at hall
      exact ⟨v, hall ▸ h.tail ha, .refl⟩
    · rw [List.concat_eq_append, ← List.append_assoc] at hall
      rw [List.concat_eq_append]
      obtain ⟨hinit, hlast⟩ := List.append_inj' hall rfl
      obtain rfl := List.singleton_inj.mp hlast
      obtain ⟨u, hu, hlater⟩ := ih init hinit
      exact ⟨u, hu, hlater.tail ha⟩

theorem Acts.eq_of_nil (h : Acts s [] t) : s = t := by
  generalize hall : ([] : List (Act α ε)) = all at h
  cases h with
  | refl => rfl
  | tail _ _ => simp at hall

/-- What was done next. -/
theorem Acts.head (h : Acts s (a :: acts) t) : ∃ u, Does s a u := by
  obtain ⟨v, hv, -⟩ := Acts.split [a] acts h
  generalize hall : [a] = all at hv
  cases hv with
  | refl => cases hall
  | @tail init u b _ hinit hb =>
    have hall : [] ++ [a] = init ++ [b] := hall
    obtain ⟨rfl, hlast⟩ := List.append_inj' hall rfl
    obtain rfl := List.singleton_inj.mp hlast
    obtain rfl := hinit.eq_of_nil
    exact ⟨v, hb⟩

/-! ### Calls that are over -/

/-- What was found in an object has a resolver that exists. -/
def Call.Within (size : Nat) : Call → Prop
  | .body r => r < size
  | _ => True

theorem Call.Within.mono {c : Call} {n n' : Nat} (h : c.Within n) (hn : n ≤ n') : c.Within n' := by
  cases c with
  | body r => exact Nat.lt_of_lt_of_le h hn
  | task => trivial
  | initializer p => trivial
  | handler d => trivial
  | read p => trivial

omit [Cause ε] [Registration κ] in
theorem Job.within_of_call? {j : Job α ε κ τ} (h : j.call? = some c) (n : Nat) : c.Within n := by
  rcases j with ⟨_ | _ | _, x⟩ | _ | _ <;> cases h <;> trivial

/-- A call that is not over stays. -/
theorem Does.calls (h : Does s a t) :
    ∃ new, (∀ c ∈ new, c.Within t.machine.resolvers.size) ∧
      (a.call? = none ∧ t.calls = new ++ s.calls ∨
        ∃ c cs, a.call? = some c ∧ s.calls = c :: cs ∧ t.calls = new ++ cs) := by
  have hread (n : Nat) (p : PromiseId) : ∀ c ∈ [Call.read p], c.Within n := by
    simp [Call.Within]
  have hvia (r : ResolverId) (o : Outcome α ε) (s : Session α ε κ τ) (n : Nat) :
      ∃ new, (∀ c ∈ new, Call.Within n c) ∧ (s.via r o).calls = new ++ s.calls := by
    rcases calls_via s r o with hgo | ⟨p, hgo⟩
    · exact ⟨[], by simp, hgo⟩
    · exact ⟨[.read p], hread n p, hgo⟩
  -- At most one call is over with a step, and at most one is made.
  cases h with
  | @said r o _ _ =>
    obtain ⟨new, hnew, hgo⟩ := hvia r o s _
    exact ⟨new, hnew, .inl ⟨rfl, hgo⟩⟩
  | @madeUp r o _ _ =>
    obtain ⟨new, hnew, hgo⟩ := hvia r o s _
    exact ⟨new, hnew, .inl ⟨rfl, hgo⟩⟩
  | @read p cs hc found =>
    rcases found with c | (_ | v)
    · exact ⟨[], by simp, .inr ⟨_, _, rfl, hc, rfl⟩⟩
    · refine ⟨[.body s.machine.resolvers.size], ?_, .inr ⟨_, _, rfl, hc, rfl⟩⟩
      simp [Call.Within, Session.finishRead, Session.openResolver, Session.call,
        Machine.openResolver]
    · exact ⟨[], by simp, .inr ⟨_, _, rfl, hc, rfl⟩⟩
  | @returned r cs hc thrown =>
    rcases thrown with _ | c
    · exact ⟨[], by simp, .inr ⟨_, _, rfl, hc, rfl⟩⟩
    · obtain ⟨new, hnew, hgo⟩ := hvia r (.error c) { s with calls := cs } _
      exact ⟨new, hnew, .inr ⟨_, _, rfl, hc, hgo⟩⟩
  | @answered d cs hc o ho =>
    rcases calls_conclude { s with calls := cs } d o with hgo | hgo
    · exact ⟨[], by simp, .inr ⟨_, _, rfl, hc, hgo⟩⟩
    · exact ⟨[.read d], hread _ d, .inr ⟨_, _, rfl, hc, hgo⟩⟩
  | task hc => exact ⟨[], by simp, .inr ⟨_, _, rfl, hc, rfl⟩⟩
  | initializer hc => exact ⟨[], by simp, .inr ⟨_, _, rfl, hc, rfl⟩⟩
  | make x => cases x <;> exact ⟨[], by simp, .inl ⟨rfl, rfl⟩⟩
  | defer => exact ⟨[], by simp, .inl ⟨rfl, rfl⟩⟩
  | init => exact ⟨[.initializer _], by simp [Call.Within], .inl ⟨rfl, rfl⟩⟩
  | register hp code => exact ⟨[], by simp, .inl ⟨rfl, rfl⟩⟩
  | await hp => exact ⟨[], by simp, .inl ⟨rfl, rfl⟩⟩
  | look ha => exact ⟨[], by simp, .inl ⟨rfl, rfl⟩⟩
  | lookLater ha => exact ⟨[], by simp, .inl ⟨rfl, rfl⟩⟩
  | spawn v => exact ⟨[], by simp, .inl ⟨rfl, rfl⟩⟩
  | abandon p => exact ⟨[], by simp, .inl ⟨rfl, rfl⟩⟩
  | @job j m hidle hj =>
    rcases calls_start { s with machine := m } j with hgo | ⟨c, hcall, hgo⟩
    · exact ⟨[], by simp, .inl ⟨rfl, hgo⟩⟩
    · refine ⟨[c], ?_, .inl ⟨rfl, hgo⟩⟩
      intro d hd
      obtain rfl := List.mem_singleton.mp hd
      exact Job.within_of_call? hcall _

theorem Does.mem_calls (h : Does s a t) (hc : c ∈ s.calls) (ha : a.call? ≠ some c) :
    c ∈ t.calls := by
  obtain ⟨new, -, ⟨-, hgo⟩ | ⟨c', cs, hover, hcs, hgo⟩⟩ := h.calls
  · rw [hgo]
    exact List.mem_append_right _ hc
  · rw [hcs] at hc
    rcases List.mem_cons.mp hc with rfl | hc
    · exact absurd hover ha
    · rw [hgo]
      exact List.mem_append_right _ hc

/-- What is read is among the calls. -/
theorem Does.mem_of_read {found : Except ε (Option α)} (h : Does s (.read p found r) t) :
    .read p ∈ s.calls := by
  cases h with
  | read hc _ => exact hc ▸ List.mem_cons_self

/-! ### Resolvers -/

namespace Session

omit [Registration κ]

/-- The resolution procedure uses no resolver. -/
theorem resolvers_conclude (s : Session α ε κ τ) (p : PromiseId) (o : Outcome α ε) :
    (s.conclude p o).machine.resolvers = s.machine.resolvers := by
  rcases o with c | (v | q | _)
  · exact Machine.resolvers_settle ..
  · exact Machine.resolvers_settle ..
  · exact (s.still_adopt p q).resolvers
  · rfl

/-- A resolver that is called is used from then on. -/
theorem resolver_via {x : Resolver} (hx : s.machine.resolvers[r]? = some x) (r' : ResolverId)
    (o : Outcome α ε) :
    (s.via r' o).machine.resolvers[r]? = some { x with used := x.used || decide (r' = r) } := by
  obtain ⟨p, used⟩ := x
  unfold via
  rcases hm : s.machine.use? r' with _ | ⟨q, m⟩
  · -- It was used before.
    have hused : r' = r → used = true := by
      rintro rfl
      cases used with
      | true => rfl
      | false =>
        obtain ⟨m, hm'⟩ := Machine.use?_of_getElem? hx
        rw [hm'] at hm
        cases hm
    by_cases hr : r' = r
    · simp [hx, hused hr]
    · simp [hx, hr]
  · obtain ⟨hr', rfl⟩ := Machine.use?_eq_some hm
    show (conclude _ q o).machine.resolvers[r]? = _
    rw [resolvers_conclude]
    simp only [Array.getElem?_setIfInBounds]
    by_cases hr : r' = r
    · subst hr
      obtain ⟨hlt, -⟩ := Array.getElem?_eq_some_iff.mp hx
      obtain ⟨rfl, rfl⟩ : p = q ∧ used = false := by simpa [hx] using hr'
      simp [hlt]
    · simp [hx, hr]

omit [Cause ε] in
theorem resolver_openResolver {x : Resolver} (hx : s.machine.resolvers[r]? = some x)
    (p : PromiseId) : (s.openResolver p).machine.resolvers[r]? = some x := by
  obtain ⟨hlt, -⟩ := Array.getElem?_eq_some_iff.mp hx
  show (s.machine.resolvers.push ⟨p, false⟩)[r]? = some x
  rw [Array.getElem?_push_lt hlt, ← hx, Array.getElem?_eq_getElem hlt]

omit [Cause ε] in
theorem resolvers_start [Registration κ] (s : Session α ε κ τ) (j : Job α ε κ τ) :
    (s.start j).machine.resolvers = s.machine.resolvers := by
  match j with
  | .deliver (.handler code d) x =>
    unfold start
    dsimp only
    split
    · rfl
    · exact Machine.resolvers_settle ..
  | .deliver (.adoption p) x => exact Machine.resolvers_settle ..
  | .deliver (.wake a) x => exact (Machine.alike_wake _ a x).resolvers
  | .poll a => exact (Machine.alike_poll _ a).resolvers
  | .task u => rfl

end Session

/-- What a step does to a resolver: it is used exactly if something was said through it. -/
theorem Does.resolver (h : Does s a t) {x : Resolver} (hx : s.machine.resolvers[r]? = some x) :
    t.machine.resolvers[r]? = some { x with used := x.used || (a.says? r).isSome } := by
  have hkeep {rs : Array Resolver} (hrs : rs = s.machine.resolvers) :
      rs[r]? = some { x with used := x.used || false } := by
    rw [hrs, hx, Bool.or_false]
  have hopen (s' : Session α ε κ τ) (hs' : s'.machine.resolvers = s.machine.resolvers)
      (p : PromiseId) :
      (s'.openResolver p).machine.resolvers[r]? = some { x with used := x.used || false } := by
    rw [Session.resolver_openResolver (s := s') (hs' ▸ hx) p, Bool.or_false]
  -- A resolver is used by a call of it, and by code that reads a `then` member and throws. All other
  -- acts keep the resolvers, or open one more behind them.
  cases h with
  | @said r' o _ _ =>
    rw [Session.resolver_via hx]
    by_cases hr : r' = r <;> simp [Act.says?, hr]
  | @madeUp r' o hr' _ =>
    have hne : ¬ r' = r := by
      rintro rfl
      obtain ⟨hlt, -⟩ := Array.getElem?_eq_some_iff.mp hx
      exact Nat.not_lt_of_le hr' hlt
    rw [Session.resolver_via hx]
    simp [Act.says?, hne]
  | @read q cs hc found =>
    rcases found with c | (_ | v)
    · exact hkeep (Machine.resolvers_settle ..)
    · exact hopen { s with calls := cs } rfl q
    · exact hkeep (Machine.resolvers_settle ..)
  | @returned r' cs hc thrown =>
    rcases thrown with _ | c
    · exact hkeep rfl
    · refine (Session.resolver_via (s := { s with calls := cs }) hx r' (.error c)).trans ?_
      by_cases hr : r' = r <;> simp [Act.says?, hr]
  | answered hc ho => exact hkeep (Session.resolvers_conclude _ _ _)
  | task hc => exact hkeep rfl
  | initializer hc => exact hkeep rfl
  | make x =>
    cases x with
    | none => exact hkeep rfl
    | some x => exact hkeep (Machine.resolvers_settle ..)
  | defer => exact hopen s.create rfl _
  | init => exact hopen s.create rfl _
  | register hp code => exact hkeep (Machine.resolvers_react ..)
  | await hp => exact hkeep (Machine.resolvers_react ..)
  | look ha => exact hkeep (Machine.alike_poll _ _).resolvers
  | lookLater ha => exact hkeep rfl
  | spawn v => exact hkeep rfl
  | abandon q => exact hkeep (Machine.alike_abandon _ q).resolvers
  | @job j m hidle hj =>
    obtain ⟨-, -, hresolvers, -⟩ := Machine.next?_eq_some hj
    exact hkeep ((Session.resolvers_start { s with machine := m } j).trans hresolvers)

theorem Does.resolvers_le (h : Does s a t) :
    s.machine.resolvers.size ≤ t.machine.resolvers.size := by
  refine Nat.le_of_not_lt fun hlt => ?_
  -- A resolver that is gone would still have to be there.
  have hthere := h.resolver (Array.getElem?_eq_getElem hlt)
  rw [Array.getElem?_eq_none (Nat.le_refl _)] at hthere
  cases hthere

/-- The resolver that a `then` member got exists. -/
theorem Reachable.within (hs : Reachable s) (hc : c ∈ s.calls) :
    c.Within s.machine.resolvers.size := by
  induction hs generalizing c with
  | refl => cases hc
  | @tail s t _ hstep ih =>
    obtain ⟨a, ha⟩ := hstep.does
    obtain ⟨new, hnew, hcalls⟩ := ha.calls
    have hmem : c ∈ new ∨ c ∈ s.calls := by
      rcases hcalls with ⟨-, hgo⟩ | ⟨c', cs, -, hcs, hgo⟩
      · rwa [hgo, List.mem_append] at hc
      · rw [hgo, List.mem_append] at hc
        exact hc.imp_right fun hc => hcs ▸ List.mem_cons_of_mem _ hc
    rcases hmem with hc | hc
    · exact hnew c hc
    · exact (ih hc).mono ha.resolvers_le

/-- Who says something through a resolver has one. -/
theorem Does.lt_of_says (h : Does s a t) (hs : Reachable s) (ha : (a.says? r).isSome) :
    r < s.machine.resolvers.size := by
  obtain ⟨o, ho⟩ := Option.isSome_iff_exists.mp ha
  rcases Act.says?_eq_some.mp ho with rfl | ⟨c, rfl, -⟩
  · cases h
    assumption
  · cases h with
    | returned hc _ => exact hs.within (hc ▸ List.mem_cons_self)

/-- A resolver that something was said through is used. -/
theorem Acts.used (h : Acts s acts t) (hs : Reachable s) (hr : ∃ a ∈ acts, (a.says? r).isSome) :
    ∃ p, t.machine.resolvers[r]? = some ⟨p, true⟩ := by
  induction h with
  | refl => simp at hr
  | @tail acts t a u hacts hstep ih =>
    obtain ⟨b, hb, hput⟩ := hr
    rcases List.mem_append.mp hb with hb | hb
    · obtain ⟨p, hp⟩ := ih ⟨b, hb, hput⟩
      exact ⟨p, hstep.resolver hp⟩
    · obtain rfl := List.mem_singleton.mp hb
      have hlt := hstep.lt_of_says (hs.trans hacts.run) hput
      have hused := hstep.resolver (Array.getElem?_eq_getElem hlt)
      rw [hput, Bool.or_true] at hused
      exact ⟨_, hused⟩

/-- What is said through a used resolver changes nothing. -/
theorem Does.repeated (h : Does s a t) (hr : s.machine.resolvers[r]? = some ⟨p, true⟩)
    (ha : (a.says? r).isSome) :
    t.machine = s.machine ∧ t.log = s.log ∧ (t.calls = s.calls ∨ s.calls = .body r :: t.calls) := by
  have hvia (s' : Session α ε κ τ) (hs' : s'.machine = s.machine) (o : Outcome α ε) :
      s'.via r o = s' := by
    unfold Session.via Machine.use?
    rw [hs', hr]
  obtain ⟨o, ho⟩ := Option.isSome_iff_exists.mp ha
  rcases Act.says?_eq_some.mp ho with rfl | ⟨c, rfl, rfl⟩
  · cases h
    rw [hvia s rfl]
    exact ⟨rfl, rfl, .inl rfl⟩
  · cases h with
    | @returned _ cs hc _ =>
      have hsame : ({ s with calls := cs } : Session α ε κ τ).finishBody r (some c) =
          { s with calls := cs } := hvia { s with calls := cs } rfl (.error c)
      rw [hsame, hc]
      exact ⟨rfl, rfl, .inr rfl⟩

end Switchboard.Promise
