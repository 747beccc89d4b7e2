import Mathlib.Data.List.Induction
import Switchboard.Proofs.Promise.Adoption
import Switchboard.Proofs.Promise.Network

/-!
# Confluence

A network comes to the same end in whatever order it is run. The end is the least solution:

- `Justified`: what a network did is derivable (`Resolves`). Every reaction is there for a reason
  that some action gives, and every outcome follows from the actions.
- `Performed`: an action that was performed leaves its trace, and so does a handler that ran.
- `settlement?_eq_some_iff`: so when the queue is empty, the outcomes are exactly the derivable
  ones.

What is derivable depends on the set of actions only, hence `confluence`.

## Proof structure

Two schedules are never compared step by step. That would ask for a diamond of moves, and there is none:
the promises are numbered in the order of their creation, and a job that two schedules have in common
stands in queues of different lengths. Each schedule is compared with `Resolves` instead, which has
neither an order nor numbers, and the two directions have different reasons.

What happened is derivable at any time, whatever is still in the queue. This is an invariant of all
moves. What is derivable happened only when the queue is empty: `Performed.concluded` is an induction
over the derivation, and each of its rules needs a job that must have run by then. It is also where
cycles come out right. Promises that wait for each other have no derivation, as `Resolves` is the least
relation, and the first direction says that they have no outcome either.

`Wired` ties the names to the numbers. It has no content of its own, but without it an action could not
be told to be about the promise that its name is meant for.
-/

namespace Switchboard.Promise

variable {ν α ε κ τ : Type}

/-! ### The resolution procedure without foreign objects -/

/-- An answer settles the promise, or names another for it to adopt. -/
theorem Answer.conclude_cases [Cause ε] {names : ν → Option PromiseId} {b : Answer ν α ε}
    {o : Outcome α ε} {s : Session α ε κ τ} {p : PromiseId} {P : Session α ε κ τ → Prop}
    (ho : b.outcome? names = some o) (hsettle : ∀ x, b = .ofSettlement x → P (s.settle p x))
    (hadopt : ∀ n q, b = .promise n → names n = some q → P (s.adopt p q)) :
    P (s.conclude p o) := by
  cases b with
  | error c =>
    obtain rfl : .error c = o := Option.some.inj ho
    exact hsettle (.rejected c) rfl
  | value v =>
    obtain rfl : .ok (.value v) = o := Option.some.inj ho
    exact hsettle (.fulfilled v) rfl
  | promise n =>
    obtain ⟨q, hq, rfl⟩ := Option.map_eq_some_iff.mp ho
    exact hadopt n q rfl hq

theorem Session.still_conclude [Cause ε] {names : ν → Option PromiseId} {b : Answer ν α ε}
    {o : Outcome α ε} (ho : b.outcome? names = some o) (s : Session α ε κ τ) (p : PromiseId) :
    s.Still (s.conclude p o) :=
  Answer.conclude_cases ho (fun x _ => s.still_settle p x) fun _ q _ _ => s.still_adopt p q

/-! ### What a network did is derivable

One lemma for each operation of sessions that a move is made of. An adoption is justified by the promise
that it names, and the outcome that it brings by the rule `Resolves.follow`. -/

section Justified

variable [Cause ε] {as bs : List (Action ν α ε)} {names names' : ν → Option PromiseId}
  {s t : Session α ε (Handlers α ε (Answer ν α ε)) Empty} {n m : ν} {p q : PromiseId}

/-- Why a reaction is registered on `p`. -/
def Reason (as : List (Action ν α ε)) (names : ν → Option PromiseId) (p : PromiseId) :
    Reaction (Handlers α ε (Answer ν α ε)) → Prop
  | .handler code d =>
    ∃ n on, names n = some d ∧ names on = some p ∧ .register n on code ∈ as
  | .adoption q =>
    ∃ n m, n ≠ m ∧ names n = some q ∧ names m = some p ∧ Resolves as n (.promise m)
  | .wake _ => True

structure Justified (as : List (Action ν α ε)) (names : ν → Option PromiseId)
    (s : Session α ε (Handlers α ε (Answer ν α ε)) Empty) : Prop where
  reaction : ∀ p r, r ∈ s.registered p → Reason as names p r
  outcome : ∀ p x, s.machine.settlement? p = some x →
    ∃ n, names n = some p ∧ Resolves as n (.ofSettlement x)

theorem Reason.mono (hsub : as ⊆ bs) (hnames : ∀ n p, names n = some p → names' n = some p)
    {r : Reaction (Handlers α ε (Answer ν α ε))} (h : Reason as names p r) :
    Reason bs names' p r := by
  cases r with
  | handler code d =>
    obtain ⟨n, on, hn, hon, hmem⟩ := h
    exact ⟨n, on, hnames n d hn, hnames on p hon, hsub hmem⟩
  | adoption q =>
    obtain ⟨n, m, hne, hn, hm, hres⟩ := h
    exact ⟨n, m, hne, hnames n q hn, hnames m p hm, hres.mono hsub⟩
  | wake a => trivial

theorem justified_empty : Justified ([] : List (Action ν α ε)) names .empty where
  reaction p r hr := by cases hr
  outcome p x hx := by cases hx

/-- More actions and more names justify the same and what is new. -/
theorem Justified.grow (h : Justified as names s) (hsub : as ⊆ bs)
    (hnames : ∀ n p, names n = some p → names' n = some p)
    (hreaction : ∀ p r, r ∈ t.registered p → r ∈ s.registered p ∨ Reason bs names' p r)
    (houtcome : ∀ p x, t.machine.settlement? p = some x → s.machine.settlement? p = some x ∨
      ∃ n, names' n = some p ∧ Resolves bs n (.ofSettlement x)) : Justified bs names' t := by
  constructor
  · intro p r hr
    rcases hreaction p r hr with hr | hr
    · exact (h.reaction p r hr).mono hsub hnames
    · exact hr
  · intro p x hx
    rcases houtcome p x hx with hx | hx
    · obtain ⟨n, hn, hres⟩ := h.outcome p x hx
      exact ⟨n, hnames n p hn, hres.mono hsub⟩
    · exact hx

/-- What neither registers nor settles needs no reason. -/
theorem Justified.same (h : Justified as names s) (hreg : ∀ p, t.registered p = s.registered p)
    (hset : ∀ p, t.machine.settlement? p = s.machine.settlement? p) : Justified as names t :=
  h.grow (List.Subset.refl _) (fun _ _ => id) (fun p _ hr => .inl (hreg p ▸ hr))
    fun p _ hx => .inl (hset p ▸ hx)

/-- A new promise needs no reason. -/
theorem Justified.create (h : Justified as names s) (hsub : as ⊆ bs)
    (hnames : ∀ n p, names n = some p → names' n = some p) : Justified bs names' s.create := by
  refine h.grow hsub hnames (fun _ _ => .inl) fun p x hx => .inl ?_
  rwa [← Machine.settlement?_create]

theorem Justified.record (h : Justified as names s)
    {e : Event α ε (Handlers α ε (Answer ν α ε)) Empty} (he : e.registration? = none) :
    Justified as names (s.record e) := by
  refine h.same (fun p => ?_) fun p => rfl
  rw [Session.registered, Session.registrations_record_of_none he, Session.registered]

theorem Justified.settle (h : Justified as names s) (hn : names n = some p)
    {x : Settlement α ε} (hx : Resolves as n (.ofSettlement x)) :
    Justified as names (s.settle p x) := by
  refine h.grow (List.Subset.refl _) (fun _ _ => id) (fun a r hr => .inl ?_) fun a y hy => ?_
  · rwa [Session.registered, Session.registrations_settle] at hr
  · rcases Machine.settlement?_of_settle hy with hy | ⟨rfl, rfl⟩
    · exact .inl hy
    · exact .inr ⟨n, hn, hx⟩

theorem Justified.react (h : Justified as names s)
    {r : Reaction (Handlers α ε (Answer ν α ε))} (hr : Reason as names q r) :
    Justified as names (s.react q r) := by
  refine h.grow (List.Subset.refl _) (fun _ _ => id) (fun a r' hr' => ?_) fun a y hy => .inl ?_
  · rw [Session.registered_react] at hr'
    rcases List.mem_append.mp hr' with hr' | hr'
    · exact .inl hr'
    · split_ifs at hr' with ha
      · obtain rfl := List.mem_singleton.mp hr'
        exact .inr (ha ▸ hr)
      · cases hr'
  · rwa [← Machine.settlement?_react _ q _ r]

/-- A promise takes over an outcome or waits for it, and each has its reason. -/
theorem Justified.adopt (h : Justified as names s)
    (hinj : ∀ n m p, names n = some p → names m = some p → n = m)
    (hn : names n = some p) (hm : names m = some q) (hres : Resolves as n (.promise m)) :
    Justified as names (s.adopt p q) := by
  have hrec : Justified as names (s.record (.adopted p q)) := h.record rfl
  have hne (hpq : p ≠ q) : n ≠ m := by
    rintro rfl
    exact hpq (Option.some.inj (hn.symm.trans hm))
  refine Session.adopt_cases (P := Justified as names) (fun hpq => ?_) (fun x hpq hx => ?_)
    fun hpq _ => ?_
  · obtain rfl := hinj n m q (hpq ▸ hn) hm
    exact hrec.settle hn hres.self
  · -- The outcome that is copied was derivable for `q`.
    obtain ⟨m', hm', hresolved⟩ := h.outcome q x hx
    obtain rfl := hinj m' m q hm' hm
    exact hrec.settle hn (hres.follow (hne hpq) hresolved)
  · exact hrec.react ⟨n, m, hne hpq, hn, hm, hres⟩

theorem Justified.conclude (h : Justified as names s)
    (hinj : ∀ n m p, names n = some p → names m = some p → n = m) (hn : names n = some p)
    {b : Answer ν α ε} (hres : Resolves as n b) {o : Outcome α ε}
    (ho : b.outcome? names = some o) : Justified as names (s.conclude p o) := by
  refine Answer.conclude_cases ho (fun x hb => ?_) fun m q hb hm => ?_
  · subst hb
    exact h.settle hn hres
  · subst hb
    exact h.adopt hinj hn hm hres

end Justified

/-! ### What was performed leaves its trace

Here nothing is lost again: what was concluded at one time is so at any later one (`Concluded.keep`), as
outcomes stay and adoptions are logged. -/

section Performed

variable {as bs : List (Action ν α ε)} {names names' : ν → Option PromiseId}
  {s t : Session α ε (Handlers α ε (Answer ν α ε)) Empty} {n : ν} {p : PromiseId}

/-- `p` was resolved with the answer. -/
def Concluded (names : ν → Option PromiseId)
    (s : Session α ε (Handlers α ε (Answer ν α ε)) Empty) (p : PromiseId) : Answer ν α ε → Prop
  | .error c => s.machine.settlement? p = some (.rejected c)
  | .value v => s.machine.settlement? p = some (.fulfilled v)
  | .promise m => ∃ q, names m = some q ∧ s.Adopted p q

theorem concluded_ofSettlement {x : Settlement α ε} :
    Concluded names s p (.ofSettlement x) ↔ s.machine.settlement? p = some x := by
  cases x <;> rfl

/-- The action was performed. -/
def Carried (names : ν → Option PromiseId)
    (s : Session α ε (Handlers α ε (Answer ν α ε)) Empty) : Action ν α ε → Prop
  | .deferred n => ∃ p, names n = some p
  | .register n on code =>
    ∃ p d, names on = some p ∧ names n = some d ∧ .handler code d ∈ s.registered p
  | .settle n b => ∃ p, names n = some p ∧ Concluded names s p b

structure Performed (as : List (Action ν α ε)) (names : ν → Option PromiseId)
    (s : Session α ε (Handlers α ε (Answer ν α ε)) Empty) : Prop where
  action : ∀ a ∈ as, Carried names s a
  /-- A handler that ran gave its answer. -/
  ran : ∀ code d x, (.handler code d, x) ∈ s.deliveries → Concluded names s d (code.reply x)

theorem Concluded.keep (hk : s.Keeps t) (hnames : ∀ n p, names n = some p → names' n = some p)
    {b : Answer ν α ε} (h : Concluded names s p b) : Concluded names' t p b := by
  cases b with
  | error c => exact hk.settlement? p _ h
  | value v => exact hk.settlement? p _ h
  | promise m =>
    obtain ⟨q, hm, hpq⟩ := h
    exact ⟨q, hnames m q hm, hk.adopted p q hpq⟩

theorem Carried.keep (hk : s.Keeps t) (hnames : ∀ n p, names n = some p → names' n = some p)
    {a : Action ν α ε} (h : Carried names s a) : Carried names' t a := by
  cases a with
  | deferred n =>
    obtain ⟨p, hn⟩ := h
    exact ⟨p, hnames n p hn⟩
  | register n on code =>
    obtain ⟨p, d, hon, hn, hreg⟩ := h
    exact ⟨p, d, hnames on p hon, hnames n d hn, hk.registered p _ hreg⟩
  | settle n b =>
    obtain ⟨p, hn, hb⟩ := h
    exact ⟨p, hnames n p hn, hb.keep hk hnames⟩

/-- Whoever has the right to settle a promise and gives an answer has resolved it. -/
theorem concluded_conclude [Cause ε] {hand : List PromiseId} (hs : Sound (p :: hand) s)
    {b : Answer ν α ε} {o : Outcome α ε} (ho : b.outcome? names = some o) :
    Concluded names (s.conclude p o) p b := by
  refine Answer.conclude_cases (P := fun t => Concluded names t p b) ho (fun x hb => ?_)
    fun m q hb hm => ?_
  · rw [hb, concluded_ofSettlement, hs.settlement?_settle, if_pos rfl]
  · rw [hb]
    exact ⟨q, hm, (s.adopted_conclude p (.ok (.promise q)) p q).mpr (.inr ⟨rfl, rfl⟩)⟩

theorem performed_empty : Performed ([] : List (Action ν α ε)) names .empty where
  action a ha := by cases ha
  ran code d x hx := by cases hx

theorem Performed.grow (h : Performed as names s) (hk : s.Keeps t)
    (hnames : ∀ n p, names n = some p → names' n = some p)
    (haction : ∀ a ∈ bs, a ∈ as ∨ Carried names' t a)
    (hran : ∀ code d x, (.handler code d, x) ∈ t.deliveries →
      (.handler code d, x) ∈ s.deliveries ∨ Concluded names' t d (code.reply x)) :
    Performed bs names' t := by
  constructor
  · intro a ha
    rcases haction a ha with ha | ha
    · exact (h.action a ha).keep hk hnames
    · exact ha
  · intro code d x hx
    rcases hran code d x hx with hx | hx
    · exact (h.ran code d x hx).keep hk hnames
    · exact hx

/-- One more action was performed, and no handler ran. -/
theorem Performed.concat (h : Performed as names s) (hk : s.Keeps t)
    (hnames : ∀ n p, names n = some p → names' n = some p) {a : Action ν α ε}
    (ha : Carried names' t a) (hdel : t.deliveries = s.deliveries) :
    Performed (as ++ [a]) names' t := by
  refine h.grow hk hnames (fun b hb => ?_) fun code d x hx => .inl (hdel ▸ hx)
  rcases List.mem_append.mp hb with hb | hb
  · exact .inl hb
  · exact .inr (List.mem_singleton.mp hb ▸ ha)

/-- A job was run, and if it was a handler then it gave its answer. -/
theorem Performed.job (h : Performed as names s) (hk : s.Keeps t)
    {j : Job α ε (Handlers α ε (Answer ν α ε)) Empty}
    {m : Machine α ε (Handlers α ε (Answer ν α ε)) Empty}
    (hdel : t.deliveries = (s.taken j m).deliveries)
    (hran : ∀ code d x, j.delivery? = some (.handler code d, x) →
      Concluded names t d (code.reply x)) : Performed as names t := by
  refine h.grow hk (fun _ _ => id) (fun _ => .inl) fun code d x hx => ?_
  rw [hdel, Session.deliveries_record] at hx
  rcases List.mem_append.mp hx with hx | hx
  · exact .inl hx
  · exact .inr (hran code d x (Option.mem_toList.mp hx))

/-- When the queue is empty, every promise has got what it is resolved with. -/
theorem Performed.concluded [Cause ε] (h : Performed as names s) (hs : Reachable s)
    (hinj : ∀ n m p, names n = some p → names m = some p → n = m) (hq : s.machine.queue = [])
    {b : Answer ν α ε} (hres : Resolves as n b) :
    ∃ p, names n = some p ∧ Concluded names s p b := by
  -- Over the derivation; each rule but the first needs a job that has run by now.
  induction hres with
  | settle hmem => exact h.action _ hmem
  | @reply n on code x hmem _ ih =>
    obtain ⟨p, hon, hx⟩ := ih
    obtain ⟨p', d, hon', hn, hreg⟩ := h.action _ hmem
    obtain rfl : p = p' := Option.some.inj (hon.symm.trans hon')
    -- `p` is settled and nothing is queued, so each of its handlers ran.
    have hran : (.handler code d, x) ∈ s.delivered p := by
      rw [hs.delivered_of_settled hq (concluded_ofSettlement.mp hx)]
      exact List.mem_map_of_mem hreg
    exact ⟨d, hn, h.ran code d x (List.mem_of_mem_filter hran)⟩
  | self _ ih =>
    obtain ⟨p, hn, q, hn', hpq⟩ := ih
    obtain rfl : p = q := Option.some.inj (hn.symm.trans hn')
    exact ⟨p, hn, hs.adoptions.self p hpq⟩
  | @follow n m x _ hne _ ih ihm =>
    -- The promise that was adopted is the one with the outcome.
    obtain ⟨p, hn, q, hm, hpq⟩ := ih
    obtain ⟨q', hm', hx⟩ := ihm
    obtain rfl : q = q' := Option.some.inj (hm.symm.trans hm')
    have hfollows : s.Follows p q := by
      refine ⟨hpq, ?_⟩
      rintro rfl
      exact hne (hinj n m p hn hm)
    refine ⟨p, hn, concluded_ofSettlement.mpr ?_⟩
    rw [hs.settlement?_of_follows hq hfollows, concluded_ofSettlement.mp hx]

end Performed

/-! ### Moves

Three kinds of actions, each with the three parts of `Lawful`. The part that needs work is `Wired`,
which must find a new name for a new promise, or know that none was given. -/

section Moves

variable [Cause ε] {as bs : List (Action ν α ε)} {s : Network ν α ε}
  {t : Session α ε (Handlers α ε (Answer ν α ε)) Empty} {n : ν} {p : PromiseId}

/-- Names and resolvers are those of the promises that were created. -/
structure Wired (as : List (Action ν α ε)) (s : Network ν α ε) : Prop where
  reachable : Reachable s.session
  idle : s.session.calls = []
  named : ∀ n, n ∈ created as ↔ ∃ p, s.names n = some p
  known : ∀ n p, s.names n = some p → p < s.session.machine.slots.size
  inj : ∀ n m p, s.names n = some p → s.names m = some p → n = m
  unused : ∀ n, .deferred n ∈ as → (∀ b, .settle n b ∉ as) → ∃ r p, s.resolvers n = some r ∧
    s.names n = some p ∧ s.session.machine.resolvers[r]? = some ⟨p, false⟩

structure Lawful (as : List (Action ν α ε)) (s : Network ν α ε) : Prop where
  wired : Wired as s
  justified : Justified as s.names s.session
  performed : Performed as s.names s.session

theorem lawful_empty : Lawful [] (.empty : Network ν α ε) := by
  refine ⟨⟨.refl, rfl, fun n => ?_, fun n p hn => ?_, fun n m p hn => ?_, fun n hn => ?_⟩,
    justified_empty, performed_empty⟩
  · exact iff_of_false (fun hn => by cases hn) fun ⟨p, hp⟩ => by cases hp
  · cases hn
  · cases hn
  · cases hn

/-- A name that was not given is free. -/
theorem Wired.names_eq_none (h : Wired as s) (hn : n ∉ created as) : s.names n = none := by
  rw [h.named, not_exists] at hn
  exact Option.eq_none_iff_forall_ne_some.mpr hn

/-- An answer that mentions known names has a meaning. -/
theorem Wired.exists_outcome? (h : Wired as s) {b : Answer ν α ε}
    (hb : ∀ m, b.Mentions m → m ∈ created as) :
    ∃ o, b.outcome? s.names = some o ∧ o.Known s.session.machine := by
  cases b with
  | error c => exact ⟨_, rfl, trivial⟩
  | value v => exact ⟨_, rfl, trivial⟩
  | promise m =>
    obtain ⟨q, hq⟩ := (h.named m).mp (hb m rfl)
    exact ⟨.ok (.promise q), by simp [Answer.outcome?, hq], h.known m q hq⟩

/-- The first use of a deferred leaves the resolvers of the others unused. -/
theorem Wired.unused_of_use (h : Wired as s) {r : ResolverId} (hp : s.names n = some p)
    (hr : s.session.machine.resolvers[r]? = some ⟨p, false⟩) (k : ν) (hk : .deferred k ∈ as)
    (hfirst : ∀ b, .settle k b ∉ as) (hne : k ≠ n) :
    ∃ r' p', s.resolvers k = some r' ∧ s.names k = some p' ∧
      (s.session.machine.resolvers.setIfInBounds r ⟨p, true⟩)[r']? = some ⟨p', false⟩ := by
  obtain ⟨r', p', hr', hp', hunused⟩ := h.unused k hk hfirst
  refine ⟨r', p', hr', hp', ?_⟩
  -- Another deferred has another promise, hence another resolver.
  have hother : r ≠ r' := by
    rintro rfl
    have hsame : p = p' := by simpa using hr.symm.trans hunused
    exact hne (h.inj k n p (hsame ▸ hp') hp)
  rw [Array.getElem?_setIfInBounds_ne hother, hunused]

/-- No name is given in the move. -/
theorem Wired.stay (h : Wired as s) (hrun : Run s.session t) (hidle : t.calls = [])
    (hsize : s.session.machine.slots.size ≤ t.machine.slots.size)
    (hcreated : created bs = created as)
    (hunused : ∀ n, .deferred n ∈ bs → (∀ b, .settle n b ∉ bs) → ∃ r p, s.resolvers n = some r ∧
      s.names n = some p ∧ t.machine.resolvers[r]? = some ⟨p, false⟩) :
    Wired bs { s with session := t } where
  reachable := h.reachable.trans hrun
  idle := hidle
  named n := by rw [hcreated, h.named]
  known n p hn := Nat.lt_of_lt_of_le (h.known n p hn) hsize
  inj := h.inj
  unused := hunused

variable [DecidableEq ν]

theorem Wired.names_update (h : Wired as s) (hn : n ∉ created as) (q : PromiseId) (m : ν)
    (p : PromiseId) (hm : s.names m = some p) : Function.update s.names n (some q) m = some p := by
  rw [Function.update_of_ne, hm]
  rintro rfl
  rw [h.names_eq_none hn] at hm
  cases hm

/-- The next promise gets a name. -/
theorem Wired.name (h : Wired as s) (hrun : Run s.session t)
    (hidle : t.calls = []) (hsize : t.machine.slots.size = s.session.machine.slots.size + 1)
    (hcreated : created bs = created as ++ [n]) {resolvers : ν → Option ResolverId}
    (hunused : ∀ m, .deferred m ∈ bs → (∀ b, .settle m b ∉ bs) → ∃ r p, resolvers m = some r ∧
      Function.update s.names n (some s.session.machine.slots.size) m = some p ∧
      t.machine.resolvers[r]? = some ⟨p, false⟩) :
    Wired bs ⟨t, Function.update s.names n (some s.session.machine.slots.size), resolvers⟩ := by
  refine ⟨h.reachable.trans hrun, hidle, fun m => ?_, fun m p hm => ?_, fun m m' p hm hm' => ?_,
    hunused⟩
  · rw [hcreated, List.mem_append, List.mem_singleton, h.named]
    by_cases hmn : m = n
    · simp [hmn]
    · simp [hmn]
  · show p < t.machine.slots.size
    rw [hsize]
    by_cases hmn : m = n
    · obtain rfl : s.session.machine.slots.size = p := by simpa [hmn] using hm
      exact Nat.lt_succ_self _
    · have hold : s.names m = some p := by simpa [hmn] using hm
      exact Nat.lt_succ_of_lt (h.known m p hold)
  · -- The new promise is none of those that have a name.
    have hfresh (k : ν) : s.names k ≠ some s.session.machine.slots.size := fun hk =>
      Nat.lt_irrefl _ (h.known k _ hk)
    by_cases hmn : m = n <;> by_cases hmn' : m' = n
    · rw [hmn, hmn']
    · have hsize' : s.session.machine.slots.size = p := by simpa [hmn] using hm
      exact absurd (by simpa [hmn', hsize'] using hm') (hfresh m')
    · have hsize' : s.session.machine.slots.size = p := by simpa [hmn'] using hm'
      exact absurd (by simpa [hmn, hsize'] using hm) (hfresh m)
    · exact h.inj m m' p (by simpa [hmn] using hm) (by simpa [hmn'] using hm')

theorem Lawful.deferred (h : Lawful as s) (hn : n ∉ created as) :
    Lawful (as ++ [.deferred n]) (s.perform (.deferred n)) := by
  have hrun : Run s.session s.session.defer := .single .defer
  have hnames := h.wired.names_update hn s.session.machine.slots.size
  have hresolvers : s.session.defer.machine.resolvers
      = s.session.machine.resolvers.push ⟨s.session.machine.slots.size, false⟩ := rfl
  have hsize : s.session.defer.machine.slots.size = s.session.machine.slots.size + 1 :=
    Machine.size_create _
  refine ⟨h.wired.name hrun h.wired.idle hsize (created_concat _ _) fun m hm hfirst => ?_, ?_, ?_⟩
  · rw [hresolvers]
    by_cases hmn : m = n
    · subst hmn
      exact ⟨_, _, Function.update_self .., Function.update_self .., Array.getElem?_push_size⟩
    · obtain ⟨r, p, hr, hp, hunused⟩ := h.wired.unused m (by simpa [hmn] using hm)
        fun b hb => hfirst b (List.mem_append_left _ hb)
      obtain ⟨hlt, -⟩ := Array.getElem?_eq_some_iff.mp hunused
      refine ⟨r, p, by rw [Function.update_of_ne hmn, hr], hnames m p hp, ?_⟩
      rw [Array.getElem?_push, if_neg (Nat.ne_of_lt hlt), hunused]
  · have hcreate := h.justified.create (List.subset_append_left as [.deferred n]) hnames
    exact hcreate.same (fun _ => rfl) fun _ => rfl
  · exact h.performed.concat (hrun.keeps h.wired.reachable) hnames ⟨_, Function.update_self ..⟩ rfl

theorem Lawful.register (h : Lawful as s) {on : ν} {code : Handlers α ε (Answer ν α ε)}
    (hn : n ∉ created as) (hon : on ∈ created as) :
    Lawful (as ++ [.register n on code]) (s.perform (.register n on code)) := by
  obtain ⟨p, hp⟩ := (h.wired.named on).mp hon
  have hrun : Run s.session (s.session.register p code) :=
    .single (.register (h.wired.known on p hp) code)
  have hnames := h.wired.names_update hn s.session.machine.slots.size
  have hresolvers : (s.session.register p code).machine.resolvers
      = s.session.machine.resolvers := Machine.resolvers_react _ _ _
  have hsize : (s.session.register p code).machine.slots.size = s.session.machine.slots.size + 1 :=
    (Machine.size_react _ _ _).trans (Machine.size_create _)
  have hregistered : .handler code s.session.machine.slots.size ∈
      (s.session.register p code).registered p := by
    rw [Session.register, Session.registered_react, if_pos rfl]
    exact List.mem_append_right _ (List.mem_singleton_self _)
  have hperform : s.perform (.register n on code) = ⟨s.session.register p code,
      Function.update s.names n (some s.session.machine.slots.size), s.resolvers⟩ := by
    simp [Network.perform, hp]
  rw [hperform]
  -- The new name is that of the dependent, and all older ones stand for what they stood for.
  refine ⟨h.wired.name hrun h.wired.idle hsize (created_concat _ _) fun m hm hfirst => ?_, ?_, ?_⟩
  · rw [hresolvers]
    obtain ⟨r, q, hr, hq, hunused⟩ := h.wired.unused m (by simpa using hm)
      fun b hb => hfirst b (List.mem_append_left _ hb)
    exact ⟨r, q, hr, hnames m q hq, hunused⟩
  · have hcreate := h.justified.create (List.subset_append_left as [.register n on code]) hnames
    exact hcreate.react ⟨n, on, Function.update_self .., hnames on p hp,
      List.mem_append_right _ (List.mem_singleton_self _)⟩
  · exact h.performed.concat (hrun.keeps h.wired.reachable) hnames
      ⟨p, _, hnames on p hp, Function.update_self .., hregistered⟩ (Session.deliveries_react _ _ _)

theorem Lawful.settle (h : Lawful as s) {b : Answer ν α ε} (hn : .deferred n ∈ as)
    (hfirst : ∀ b', .settle n b' ∉ as) (hb : ∀ m, b.Mentions m → m ∈ created as) :
    Lawful (as ++ [.settle n b]) (s.perform (.settle n b)) := by
  obtain ⟨r, p, hr, hp, hunused⟩ := h.wired.unused n hn hfirst
  obtain ⟨o, ho, hknown⟩ := h.wired.exists_outcome? hb
  have huse : s.session.machine.use? r = some (p, { s.session.machine with
      resolvers := s.session.machine.resolvers.setIfInBounds r ⟨p, true⟩ }) := by
    simp [Machine.use?, hunused]
  generalize hm : ({ s.session.machine with
    resolvers := s.session.machine.resolvers.setIfInBounds r ⟨p, true⟩ } : Machine ..) = m at huse
  have hperform : s.perform (.settle n b)
      = { s with session := { s.session with machine := m }.conclude p o } := by
    simp [Network.perform, hr, ho, Session.via, huse]
  have hrun : Run s.session ({ s.session with machine := m }.conclude p o) := by
    have hvia : s.session.via r o = { s.session with machine := m }.conclude p o := by
      simp [Session.via, huse]
    exact hvia ▸ .single (.via r hknown)
  -- The deferred was not used before, so the resolver acts and the answer is put to its promise.
  have hstill := Session.still_conclude ho { s.session with machine := m } p
  have hright : Sound [p] { s.session with machine := m } := h.wired.reachable.sound.use huse
  have hmem : .settle n b ∈ as ++ [.settle n b] :=
    List.mem_append_right _ (List.mem_singleton_self _)
  rw [hperform]
  refine ⟨h.wired.stay hrun (hstill.calls.trans h.wired.idle) ?_ ?_ fun k hk hkfirst => ?_, ?_, ?_⟩
  · exact Nat.le_of_eq (by rw [hstill.size, ← hm])
  · rw [created_concat]
    exact List.append_nil _
  · rw [hstill.resolvers, ← hm]
    refine h.wired.unused_of_use hp hunused k (by simpa using hk)
      (fun b' hb' => hkfirst b' (List.mem_append_left _ hb')) ?_
    rintro rfl
    exact hkfirst b hmem
  · have hbefore : Justified (as ++ [.settle n b]) s.names { s.session with machine := m } := by
      refine h.justified.grow (List.subset_append_left _ _) (fun _ _ => id) (fun _ _ => .inl)
        fun a x hx => .inl ?_
      rw [← hm] at hx
      exact hx
    exact hbefore.conclude h.wired.inj hp (.settle hmem) ho
  · exact h.performed.concat (hrun.keeps h.wired.reachable) (fun _ _ => id)
      ⟨p, hp, concluded_conclude hright ho⟩ hstill.deliveries

end Moves

/-! ### Jobs

Handlers run at once here, since a network's handler does nothing but answer. So a job of a handler is
two steps of the session, and no move ever finds a call that has not returned. -/

section Jobs

/-- A registration without a handler answers with the outcome itself. -/
theorem reply_of_not_handles {code : Handlers α ε (Answer ν α ε)} {x : Settlement α ε}
    (h : ¬ Registration.handles code x.state) : code.reply x = .ofSettlement x := by
  obtain ⟨onFulfilled, onRejected⟩ := code
  cases x with
  | fulfilled v =>
    cases onFulfilled with
    | none => rfl
    | some f => exact absurd rfl h
  | rejected c =>
    cases onRejected with
    | none => rfl
    | some f => exact absurd rfl h

theorem conclude_ofSettlement [Cause ε] {names : ν → Option PromiseId} {x : Settlement α ε}
    {o : Outcome α ε} (ho : (Answer.ofSettlement x : Answer ν α ε).outcome? names = some o)
    (t : Session α ε κ τ) (p : PromiseId) : t.conclude p o = t.settle p x := by
  refine Answer.conclude_cases (P := fun t' => t' = t.settle p x) ho (fun y hy => ?_)
    fun m q hm _ => ?_
  · rw [Answer.ofSettlement_injective hy]
  · cases x <;> cases hm

variable [Cause ε] {as : List (Action ν α ε)} {s : Network ν α ε}
  {m : Machine α ε (Handlers α ε (Answer ν α ε)) Empty} {x : Settlement α ε}

/-- A job that calls nothing. -/
theorem Network.turn_of_calls (h : s.session.turn.calls = []) :
    s.turn = { s with session := s.session.turn } := by
  dsimp only [Network.turn]
  split
  · rename_i hcalls
    rw [h] at hcalls
    cases hcalls
  · rfl

/-- The answer of a handler is put to the dependent, and so is an outcome that is passed on. -/
theorem Network.turn_of_handler {code : Handlers α ε (Answer ν α ε)} {d : PromiseId}
    {o : Outcome α ε} (hidle : s.session.calls = [])
    (hnext : s.session.machine.next? = some (.deliver (.handler code d) x, m))
    (ho : (code.reply x).outcome? s.names = some o) (hknown : o.Known s.session.machine) :
    s.turn = { s with
      session := (s.session.taken (.deliver (.handler code d) x) m).conclude d o } ∧
    Run s.session ((s.session.taken (.deliver (.handler code d) x) m).conclude d o) := by
  have hrun := run_turn hidle
  have hstart : s.session.turn = { s.session with machine := m }.start
      (.deliver (.handler code d) x) := by
    simp [Session.turn, hnext]
  by_cases hhandles : Registration.handles code x.state
  · -- The handler is called, and its end follows at once.
    have hcall : s.session.turn
        = (s.session.taken (.deliver (.handler code d) x) m).call (.handler d) := by
      rw [hstart]
      dsimp only [Session.start]
      rw [if_pos hhandles]
    have hknown' : o.Known m := by
      obtain ⟨-, hslots, -, -⟩ := Machine.next?_eq_some hnext
      exact hknown.mono (Nat.le_of_eq (congrArg _ hslots.symm))
    rw [hcall] at hrun
    exact ⟨by simp [Network.turn, hnext, hcall, Session.call, ho],
      hrun.tail (.endHandler rfl hknown')⟩
  · -- The outcome is passed on within the job.
    have hpass : s.session.turn
        = (s.session.taken (.deliver (.handler code d) x) m).conclude d o := by
      rw [reply_of_not_handles hhandles] at ho
      rw [hstart]
      dsimp only [Session.start]
      rw [if_neg hhandles, conclude_ofSettlement ho]
    have hcalls : s.session.turn.calls = [] := by
      rw [hpass, (Session.still_conclude ho _ d).calls]
      exact hidle
    rw [Network.turn_of_calls hcalls, hpass]
    exact ⟨rfl, hpass ▸ hrun⟩

theorem Wired.same (h : Wired as s) {t : Session α ε (Handlers α ε (Answer ν α ε)) Empty}
    (hrun : Run s.session t) (hidle : t.calls = [])
    (hsize : t.machine.slots.size = s.session.machine.slots.size)
    (hresolvers : t.machine.resolvers = s.session.machine.resolvers) :
    Wired as { s with session := t } := by
  refine h.stay hrun hidle (Nat.le_of_eq hsize.symm) rfl fun n hn hfirst => ?_
  rw [hresolvers]
  exact h.unused n hn hfirst

theorem Justified.taken {names : ν → Option PromiseId}
    {t : Session α ε (Handlers α ε (Answer ν α ε)) Empty}
    {j : Job α ε (Handlers α ε (Answer ν α ε)) Empty} (h : Justified as names t)
    (hj : t.machine.next? = some (j, m)) : Justified as names (t.taken j m) := by
  obtain ⟨-, hslots, -, -⟩ := Machine.next?_eq_some hj
  have hnext : Justified as names { t with machine := m } := by
    exact h.same (fun _ => rfl) (Machine.settlement?_congr hslots)
  exact hnext.record rfl

/-- The reply of a handler that was registered is derivable from the outcome that it got. -/
theorem Lawful.turn_handler (h : Lawful as s) (ha : Orderly as)
    {code : Handlers α ε (Answer ν α ε)} {d : PromiseId}
    (hnext : s.session.machine.next? = some (.deliver (.handler code d) x, m)) :
    Lawful as s.turn := by
  -- The delivery comes from a promise whose outcome is derivable, and so is the reply.
  obtain ⟨p, hreg, hx⟩ :=
    h.wired.reachable.source (List.mem_append_right _ (Machine.mem_due_of_next? hnext))
  obtain ⟨n, on, hn, hon, hmem⟩ := h.justified.reaction p _ hreg
  obtain ⟨on', hon', hres⟩ := h.justified.outcome p x hx
  obtain rfl := h.wired.inj on' on p hon' hon
  obtain ⟨o, ho, hknown⟩ := h.wired.exists_outcome? fun k hk => ha.created_of_mentions hmem hk
  obtain ⟨hturn, hrun⟩ := Network.turn_of_handler h.wired.idle hnext ho hknown
  have hstill := Session.still_conclude ho (s.session.taken (.deliver (.handler code d) x) m) d
  have hright : Sound [d] (s.session.taken (.deliver (.handler code d) x) m) :=
    h.wired.reachable.sound.take hnext
  obtain ⟨-, hslots, hresolvers, -⟩ := Machine.next?_eq_some hnext
  rw [hturn]
  refine ⟨h.wired.same hrun (hstill.calls.trans h.wired.idle) ?_ ?_, ?_, ?_⟩
  · rw [hstill.size]
    exact congrArg _ hslots
  · rw [hstill.resolvers]
    exact hresolvers
  · exact (h.justified.taken hnext).conclude h.wired.inj hn (.reply hmem hres) ho
  · refine h.performed.job (hrun.keeps h.wired.reachable) hstill.deliveries
      fun code' d' y hy => ?_
    obtain ⟨⟨rfl, rfl⟩, rfl⟩ : (code = code' ∧ d = d') ∧ x = y := by simpa [Job.delivery?] using hy
    exact concluded_conclude hright ho

/-- An outcome that arrives at a promise is that of the promise that it follows. -/
theorem Lawful.turn_adoption (h : Lawful as s) {p : PromiseId}
    (hnext : s.session.machine.next? = some (.deliver (.adoption p) x, m)) : Lawful as s.turn := by
  have hstart : s.session.turn = (s.session.taken (.deliver (.adoption p) x) m).settle p x := by
    simp [Session.turn, hnext, Session.start]
  have hrun := run_turn h.wired.idle
  have hidle : s.session.turn.calls = [] := by
    rw [hstart]
    exact h.wired.idle
  -- `p` is resolved with the promise that the delivery comes from, whose outcome is derivable.
  obtain ⟨q, hreg, hx⟩ :=
    h.wired.reachable.source (List.mem_append_right _ (Machine.mem_due_of_next? hnext))
  obtain ⟨n, k, hne, hn, hk, hres⟩ := h.justified.reaction q _ hreg
  obtain ⟨k', hk', hresolved⟩ := h.justified.outcome q x hx
  obtain rfl := h.wired.inj k' k q hk' hk
  obtain ⟨-, hslots, hresolvers, -⟩ := Machine.next?_eq_some hnext
  have hstill := (s.session.taken (.deliver (.adoption p) x) m).still_settle p x
  rw [Network.turn_of_calls hidle]
  rw [hstart] at hrun hidle ⊢
  refine ⟨h.wired.same hrun hidle ?_ ?_, ?_, ?_⟩
  · rw [hstill.size]
    exact congrArg _ hslots
  · rw [hstill.resolvers]
    exact hresolvers
  · exact (h.justified.taken hnext).settle hn (hres.follow hne hresolved)
  · refine h.performed.job (hrun.keeps h.wired.reachable) hstill.deliveries fun code d y hy => ?_
    simp [Job.delivery?] at hy

/-- A job that only concerns awaits. -/
theorem Lawful.turn_host (h : Lawful as s) {j : Job α ε (Handlers α ε (Answer ν α ε)) Empty}
    {m' : Machine α ε (Handlers α ε (Answer ν α ε)) Empty}
    (hnext : s.session.machine.next? = some (j, m))
    (hj : ∀ code d x, j.delivery? ≠ some (.handler code d, x))
    (hm : m.Alike m') (hstart : s.session.turn = { s.session.taken j m with machine := m' }) :
    Lawful as s.turn := by
  have hrun := run_turn h.wired.idle
  have hidle : s.session.turn.calls = [] := by
    rw [hstart]
    exact h.wired.idle
  obtain ⟨-, hslots, hresolvers, -⟩ := Machine.next?_eq_some hnext
  rw [Network.turn_of_calls hidle]
  rw [hstart] at hrun hidle ⊢
  refine ⟨h.wired.same hrun hidle ?_ (hm.resolvers.trans hresolvers), ?_, ?_⟩
  · exact (congrArg _ hm.slots).trans (congrArg _ hslots)
  · exact (h.justified.taken hnext).same (fun _ => rfl) (Machine.settlement?_congr hm.slots)
  · exact h.performed.job (j := j) (m := m) (hrun.keeps h.wired.reachable) rfl
      fun code d y hy => absurd hy (hj code d y)

theorem Lawful.turn (h : Lawful as s) (ha : Orderly as) : Lawful as s.turn := by
  rcases hnext : s.session.machine.next? with _ | ⟨j, m⟩
  · -- Nothing is queued, so nothing happens.
    have hturn : s.turn = s := by simp [Network.turn, Session.turn, hnext]
    rw [hturn]
    exact h
  · match j, hnext with
    | .deliver (.handler code d) x, hnext => exact h.turn_handler ha hnext
    | .deliver (.adoption p) x, hnext => exact h.turn_adoption hnext
    | .deliver (.wake a) x, hnext =>
      exact h.turn_host hnext (by simp [Job.delivery?]) (Machine.alike_wake m a x)
        (by simp [Session.turn, hnext, Session.start, Session.record])
    | .poll a, hnext =>
      exact h.turn_host hnext (by simp [Job.delivery?]) (Machine.alike_poll m a)
        (by simp [Session.turn, hnext, Session.start, Session.record])

end Jobs

/-! ### Schedules -/

section Schedules

variable [Cause ε] {as : List (Action ν α ε)} {s : Network ν α ε} {n : ν}

/-- In the end the outcomes are those that the actions make derivable. -/
theorem Lawful.settlement?_eq_some_iff (h : Lawful as s) (hq : s.session.machine.queue = [])
    {x : Settlement α ε} : s.settlement? n = some x ↔ Resolves as n (.ofSettlement x) := by
  constructor
  · intro hx
    obtain ⟨p, hp, hx⟩ := Option.bind_eq_some_iff.mp hx
    obtain ⟨n', hp', hres⟩ := h.justified.outcome p x hx
    obtain rfl := h.wired.inj n' n p hp' hp
    exact hres
  · intro hres
    obtain ⟨p, hp, hx⟩ := h.performed.concluded h.wired.reachable h.wired.inj hq hres
    exact Option.bind_eq_some_iff.mpr ⟨p, hp, concluded_ofSettlement.mp hx⟩

variable [DecidableEq ν]

/-- A promise that was created has a state, which its outcome tells. -/
theorem Lawful.state?_eq (h : Lawful as s) (n : ν) : s.state? n =
    if n ∈ created as then some (((s.settlement? n).map Settlement.state).getD .pending)
    else none := by
  split_ifs with hn
  · obtain ⟨p, hp⟩ := (h.wired.named n).mp hn
    simp only [Network.state?, Network.settlement?, hp, Option.map_some, Option.bind_some,
      Machine.state_eq]
  · simp only [Network.state?, h.wired.names_eq_none hn, Option.map_none]

theorem Lawful.perform (h : Lawful as s) {a : Action ν α ε} (ha : a.AllowedAfter as) :
    Lawful (as ++ [a]) (s.perform a) := by
  cases a with
  | deferred n => exact h.deferred ha
  | register n on code => exact h.register ha.1 ha.2.1
  | settle n b => exact h.settle ha.1 ha.2.1 ha.2.2

theorem lawful_run (ms : List (Move ν α ε)) (hms : Orderly (actions ms)) :
    Lawful (actions ms) (Network.run ms) := by
  -- From the right, as the last move is made after a whole run.
  induction ms using List.reverseRecOn with
  | nil => exact lawful_empty
  | append_singleton ms mv ih =>
    have hrun : Network.run (ms ++ [mv]) = (Network.run ms).move mv := by
      simp [Network.run]
    rw [hrun]
    cases mv with
    | act a =>
      have hactions : actions (ms ++ [.act a]) = actions ms ++ [a] := by
        simp [actions, Move.action?]
      rw [hactions] at hms ⊢
      obtain ⟨hms, ha⟩ := (orderly_concat _ _).mp hms
      exact (ih hms).perform ha
    | turn =>
      have hactions : actions (ms ++ [.turn]) = actions ms := by
        simp [actions, Move.action?]
      rw [hactions] at hms ⊢
      exact (ih hms).turn hms

/-- **Confluence.** Two orders of the same actions, with any number of jobs in between, end in the
same state and the same outcome of every promise once the queue is empty; every promise that was
created is there in the end. -/
theorem confluence {ms ms' : List (Move ν α ε)} (hms : Orderly (actions ms))
    (hms' : Orderly (actions ms')) (hperm : (actions ms).Perm (actions ms'))
    (hq : (Network.run ms).session.machine.queue = [])
    (hq' : (Network.run ms').session.machine.queue = []) :
    (∀ n ∈ created (actions ms), ∃ x, (Network.run ms).state? n = some x) ∧
    ∀ n, (Network.run ms).state? n = (Network.run ms').state? n ∧
      (Network.run ms).settlement? n = (Network.run ms').settlement? n := by
  have h := lawful_run ms hms
  have h' := lawful_run ms' hms'
  -- Both ends are told by what is derivable, and that does not depend on the order.
  have hsettlement (n : ν) : (Network.run ms).settlement? n = (Network.run ms').settlement? n := by
    refine Option.ext fun x => ?_
    rw [h.settlement?_eq_some_iff hq, h'.settlement?_eq_some_iff hq']
    exact ⟨fun hx => hx.mono hperm.subset, fun hx => hx.mono hperm.symm.subset⟩
  have hcreated (n : ν) : n ∈ created (actions ms) ↔ n ∈ created (actions ms') := by
    simp only [mem_created, hperm.mem_iff]
  refine ⟨fun n hn => ?_, fun n => ⟨?_, hsettlement n⟩⟩
  · rw [h.state?_eq, if_pos hn]
    exact ⟨_, rfl⟩
  · simp only [h.state?_eq, h'.state?_eq, hsettlement, hcreated]

/-- A handler that is registered before or after the promise that it reads has settled. -/
theorem confluence_late_registration :
    let code : Handlers Nat String (Answer Nat Nat String) := ⟨some fun v => .value (v + 1), none⟩
    let ms : List (Move Nat Nat String) :=
      [.act (.deferred 0), .act (.register 1 0 code), .act (.deferred 2),
        .act (.settle 0 (.promise 2)), .act (.settle 2 (.value 7)), .turn, .turn]
    let ms' : List (Move Nat Nat String) :=
      [.act (.deferred 0), .act (.deferred 2), .act (.settle 0 (.promise 2)),
        .act (.settle 2 (.value 7)), .turn, .act (.register 1 0 code), .turn]
    (Network.run ms).session.machine.queue = [] ∧ (Network.run ms').session.machine.queue = [] ∧
      (Network.run ms).settlement? 1 = some (.fulfilled 8) ∧
      (Network.run ms').settlement? 1 = some (.fulfilled 8) := by
  intro code ms ms'
  have hcode : ∀ x m, ¬ (code.reply x).Mentions m := by
    rintro (v | c) m hm <;> cases hm
  have hms : Orderly (actions ms) := by
    refine (orderly_concat [_, _, _, _] _).mpr ⟨(orderly_concat [_, _, _] _).mpr
      ⟨(orderly_concat [_, _] _).mpr ⟨(orderly_concat [_] _).mpr ⟨(orderly_concat [] _).mpr
      ⟨orderly_nil, ?_⟩, ?_⟩, ?_⟩, ?_⟩, ?_⟩
    all_goals simp [Action.AllowedAfter, created, Action.name?, hcode]
  have hms' : Orderly (actions ms') := by
    refine (orderly_concat [_, _, _, _] _).mpr ⟨(orderly_concat [_, _, _] _).mpr
      ⟨(orderly_concat [_, _] _).mpr ⟨(orderly_concat [_] _).mpr ⟨(orderly_concat [] _).mpr
      ⟨orderly_nil, ?_⟩, ?_⟩, ?_⟩, ?_⟩, ?_⟩
    all_goals simp [Action.AllowedAfter, created, Action.name?, hcode]
  have hperm : (actions ms).Perm (actions ms') := by
    have hswap : ([.register 1 0 code] ++ [.deferred 2, .settle 0 (.promise 2),
        .settle 2 (.value 7)] : List (Action Nat Nat String)).Perm
        ([.deferred 2, .settle 0 (.promise 2), .settle 2 (.value 7)] ++ [.register 1 0 code]) :=
      List.perm_append_comm
    exact hswap.cons (.deferred 0)
  have hq : (Network.run ms).session.machine.queue = [] := List.isEmpty_iff.mp (by decide +kernel)
  have hq' : (Network.run ms').session.machine.queue = [] := List.isEmpty_iff.mp (by decide +kernel)
  have hearly : (Network.run ms).settlement? 1 = some (.fulfilled 8) := by decide +kernel
  obtain ⟨-, hsame⟩ := confluence hms hms' hperm hq hq'
  exact ⟨hq, hq', hearly, (hsame 1).2.symm.trans hearly⟩

end Schedules

end Switchboard.Promise
