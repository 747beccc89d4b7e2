import Switchboard.Proofs.Promise.History
import Switchboard.Proofs.Promise.Network

/-!
# The first callback decides

A promise that is resolved with a foreign object goes through stages. The `then` member of the object is
read; what was found there gets a resolver, and the first thing that is said through it decides, be it
called from the member itself, from the member of a further object, from a later job, or be it the
failure of the member. A further object takes the promise back to the first stage.

- `Stage`, `Stage.next`: the stages, and how what the program does leads from one to the next.
- `Session.At s p st`: what holds of `p` at a stage.
- `Does.stage`, `Acts.stage`: the stages are told by what the program did.
- `first_callback`: so the first callback decides, and all others change nothing.

`Stage.next` looks at acts and never at the session, so the stage after a run is a function of what the
program did; `Acts.stage` says that the session agrees. Which act counts depends on the stage: while the
member is read, that the read is over; while something is awaited of the resolver, the first act that
says something through this one. All other acts pass by, however many there are and whatever other
objects they are about, and so no law here has a hypothesis about what happens in between.

That each object is read once is a count. The reads under way and the ways to settle the promise share
the room of the promise (`Sound.reads_le`), so there is one read at most, and at no other stage any; the
acts that end a read are then as many as the times the promise came to that stage.
-/

namespace Switchboard.Promise

inductive Stage (α ε : Type)
  /-- The `then` member of an object is read. -/
  | reading
  /-- What was found there got `r`, and has said nothing yet. -/
  | waiting (r : ResolverId)
  | decided (x : Answer PromiseId α ε)

namespace Stage

variable {α ε : Type}

/-- The stage after a resolution or a rejection. -/
def of : Outcome α ε → Stage α ε
  | .error c => .decided (.error c)
  | .ok (.value v) => .decided (.value v)
  | .ok (.promise q) => .decided (.promise q)
  | .ok (.thenable _) => .reading

/-- The stage after reading a `then` member: it could not be read, is a plain value, or gets `r`. -/
def ofFound (r : ResolverId) : Except ε (Option α) → Stage α ε
  | .error c => .decided (.error c)
  | .ok (some v) => .decided (.value v)
  | .ok none => .waiting r

def isReading : Stage α ε → Bool
  | .reading => true
  | _ => false

end Stage

variable {α ε : Type}

/-- Where reading the object of `p` leads. -/
def Act.found? (p : PromiseId) : Act α ε → Option (Stage α ε)
  | .read p' found r => if p' = p then some (.ofFound r found) else none
  | _ => none

namespace Stage

def next (p : PromiseId) (a : Act α ε) : Stage α ε → Stage α ε
  | .reading => (a.found? p).getD .reading
  | .waiting r => ((a.says? r).map Stage.of).getD (.waiting r)
  | .decided x => .decided x

/-- The stage after some acts. -/
def after (p : PromiseId) (st : Stage α ε) (acts : List (Act α ε)) : Stage α ε :=
  acts.foldl (fun st a => st.next p a) st

/-- How often the promise was resolved with a further object. -/
def renewals (p : PromiseId) : Stage α ε → List (Act α ε) → Nat
  | _, [] => 0
  | st, a :: acts =>
    (if !st.isReading && (st.next p a).isReading then 1 else 0) + renewals p (st.next p a) acts

theorem after_concat (p : PromiseId) (st : Stage α ε) (acts : List (Act α ε)) (a : Act α ε) :
    st.after p (acts ++ [a]) = (st.after p acts).next p a := by
  rw [after, List.foldl_append]
  rfl

/-- The first thing that is said decides, or leads to a further object. -/
theorem after_waiting (p : PromiseId) {r : ResolverId} {before : List (Act α ε)} {a : Act α ε}
    {o : Outcome α ε} (later : List (Act α ε)) (hbefore : ∀ b ∈ before, b.says? r = none) (ha : a.says? r = some o) :
    (waiting r).after p (before ++ a :: later) = (of o).after p later := by
  induction before with
  | nil => simp [after, next, ha]
  | cons b before ih =>
    have hb : (waiting r).next p b = .waiting r := by simp [next, hbefore b List.mem_cons_self]
    show ((waiting r).next p b).after p (before ++ a :: later) = _
    rw [hb, ih fun b hb => hbefore b (List.mem_cons_of_mem _ hb)]

/-- One read ends the stage of reading. -/
theorem isReading_next {p : PromiseId} {st : Stage α ε} (h : st.isReading = true) (a : Act α ε) :
    (st.next p a).isReading = (a.found? p).isNone := by
  cases st with
  | reading =>
    rcases a with _ | ⟨p', found, r⟩ | _ | _ | _ | _
    · rfl
    · by_cases hp : p' = p
      · rcases found with c | (_ | v) <;> simp [next, Act.found?, hp, ofFound, isReading]
      · simp [next, Act.found?, hp, isReading]
    · rfl
    · rfl
    · rfl
    · rfl
  | waiting r => cases h
  | decided x => cases h

theorem renewals_concat (p : PromiseId) (st : Stage α ε) (acts : List (Act α ε)) (a : Act α ε) :
    st.renewals p (acts ++ [a]) = st.renewals p acts +
      if !(st.after p acts).isReading && ((st.after p acts).next p a).isReading then 1 else 0 := by
  induction acts generalizing st with
  | nil => simp [renewals, after]
  | cons b acts ih =>
    rw [List.cons_append, renewals, ih, renewals, Nat.add_assoc]
    rfl

end Stage

variable {κ τ : Type} {hand : List PromiseId} {s t : Session α ε κ τ} {m : Machine α ε κ τ}
  {p q : PromiseId} {r : ResolverId} {a : Act α ε} {acts : List (Act α ε)} {st : Stage α ε}

/-! ### Stages of sessions -/

/-- What holds of `p` at a stage of its resolution. -/
def Session.At (s : Session α ε κ τ) (p : PromiseId) : Stage α ε → Prop
  | .reading => .read p ∈ s.calls
  | .waiting r => s.machine.resolvers[r]? = some ⟨p, false⟩
  | .decided (.error c) => s.machine.settlement? p = some (.rejected c)
  | .decided (.value v) => s.machine.settlement? p = some (.fulfilled v)
  | .decided (.promise q) => s.Adopted p q

theorem Sound.at_finishRead (h : Sound (p :: hand) s) (found : Except ε (Option α)) :
    (s.finishRead p found).At p (.ofFound s.machine.resolvers.size found) := by
  rcases found with c | (_ | v)
  · exact (h.settlement?_settle _ p).trans (if_pos rfl)
  · show (s.machine.resolvers.push ⟨p, false⟩)[s.machine.resolvers.size]? = some ⟨p, false⟩
    exact Array.getElem?_push_size
  · exact (h.settlement?_settle _ p).trans (if_pos rfl)

/-- What was decided stays so. -/
theorem Session.At.keeps {x : Answer PromiseId α ε} (h : s.At p (.decided x)) (hk : s.Keeps t) :
    t.At p (.decided x) := by
  rcases x with c | v | q
  · exact hk.settlement? p _ h
  · exact hk.settlement? p _ h
  · exact hk.adopted p q h

variable [Cause ε]

/-- Who has the right to settle a promise resolves it. -/
theorem Sound.at_conclude (h : Sound (p :: hand) s) (o : Outcome α ε) :
    (s.conclude p o).At p (.of o) := by
  rcases o with c | (v | q | _)
  · exact (h.settlement?_settle _ p).trans (if_pos rfl)
  · exact (h.settlement?_settle _ p).trans (if_pos rfl)
  · exact (s.adopted_conclude p (.ok (.promise q)) p q).mpr (.inr ⟨rfl, rfl⟩)
  · exact List.mem_cons_self

/-- An unused resolver resolves its promise. -/
theorem Sound.at_via (h : Sound hand s) (hr : s.machine.resolvers[r]? = some ⟨p, false⟩)
    (o : Outcome α ε) : (s.via r o).At p (.of o) := by
  obtain ⟨m, hm⟩ := Machine.use?_of_getElem? hr
  unfold Session.via
  rw [hm]
  exact (h.use hm).at_conclude o

variable [Registration κ]

/-- What the program does leads from stage to stage. -/
theorem Does.stage (h : Does s a t) (hs : Reachable s) (hst : s.At p st) : t.At p (st.next p a) := by
  cases st with
  | reading =>
    -- As long as the read is not over, it stays among the calls.
    by_cases ha : a.call? = some (.read p)
    · cases h with
      | @read p' cs hc found =>
        obtain rfl : p' = p := by simpa [Act.call?] using ha
        have hfinish := hs.sound.finish hc
        simpa [Stage.next, Act.found?] using hfinish.at_finishRead found
      | _ => simp [Act.call?] at ha
    · have hnone : a.found? p = none := by
        cases a <;> simp_all [Act.call?, Act.found?]
      show t.At p ((a.found? p).getD .reading)
      rw [hnone]
      exact h.mem_calls hst ha
  | waiting r =>
    rcases hput : a.says? r with _ | o
    · have hr := h.resolver hst
      simpa [Stage.next, Session.At, hput] using hr
    · simp only [Stage.next, hput, Option.map_some, Option.getD_some]
      rcases Act.says?_eq_some.mp hput with rfl | ⟨c, rfl, rfl⟩
      · cases h
        exact hs.sound.at_via hst o
      · cases h with
        | @returned _ cs hc _ =>
          have hfinish := hs.sound.finish hc
          exact hfinish.at_via hst (.error c)
  | decided x => exact hst.keeps (Run.keeps (.single h.step) hs)

theorem Acts.stage (h : Acts s acts t) (hs : Reachable s) (hst : s.At p st) :
    t.At p (st.after p acts) := by
  induction h with
  | refl => exact hst
  | tail hacts ha ih =>
    rw [Stage.after_concat]
    exact ha.stage (hs.trans hacts.run) ih

/-! ### Reads -/

omit [Cause ε] [Registration κ] in
/-- A read has the right to settle its promise. -/
theorem Sound.reads_le (h : Sound hand s) (p : PromiseId) :
    s.calls.count (.read p) + s.machine.authority p + hand.count p ≤ s.machine.room p := by
  have htargets (cs : List Call) : cs.count (.read p) ≤ (cs.flatMap Call.targets).count p := by
    induction cs with
    | nil => exact Nat.le_refl _
    | cons c cs ih =>
      rw [List.flatMap_cons, List.count_append, List.count_cons]
      by_cases hc : c = .read p
      · subst hc
        simp [Call.targets]
        omega
      · simp [hc]
        omega
  have hcalls := htargets s.calls
  have hsingle := h.single p
  unfold Session.rights at hsingle
  omega

/-- While the `then` member is read, and at no other time, there is one read. -/
theorem Reachable.reads (hs : Reachable s) (hst : s.At p st) :
    s.calls.count (.read p) = if st.isReading then 1 else 0 := by
  have hone := s.machine.room_le_one p
  have hreads := hs.sound.reads_le p
  have hsettled (x : Settlement α ε) (hx : s.machine.settlement? p = some x) :
      s.calls.count (.read p) = 0 := by
    have hroom := Machine.room_of_settled hx
    omega
  cases st with
  | reading =>
    have hpos : 0 < s.calls.count (.read p) := List.count_pos_iff.mpr hst
    show _ = 1
    omega
  | waiting r =>
    obtain ⟨m, hm⟩ := Machine.use?_of_getElem? hst
    -- The right is the resolver's.
    have huse : s.calls.count (.read p) + m.authority p + [p].count p ≤ m.room p :=
      (hs.sound.use hm).reads_le p
    have hroom := m.room_le_one p
    rw [List.count_cons_self] at huse
    show s.calls.count (.read p) = 0
    omega
  | decided x =>
    rcases x with c | v | q
    · exact hsettled _ hst
    · exact hsettled _ hst
    · by_cases hpq : p = q
      · subst hpq
        exact hsettled _ (hs.adoptions.self p hst)
      · rcases hs.follows_cases ⟨hst, hpq⟩ with ⟨x, hx, -⟩ | ⟨-, hout, -⟩
        · exact hsettled x hx
        · have hpos := Machine.authority_pos hout rfl
          show _ = 0
          omega

/-- Until it is decided, the promise is pending. -/
theorem Reachable.undecided (hs : Reachable s) (hst : s.At p st) (h : ∀ x, st ≠ .decided x) :
    s.machine.settlement? p = none := by
  cases st with
  | reading =>
    have hreads := hs.sound.reads_le p
    rw [hs.reads hst] at hreads
    have hpos : 0 < s.machine.room p := by
      simp only [Stage.isReading, if_true] at hreads
      omega
    obtain ⟨rs, hrs⟩ := Machine.room_pos.mp hpos
    exact Machine.settlement?_of_pending hrs
  | waiting r =>
    refine hs.settlement?_of_unused (r := r) ?_ ?_
    · exact congrArg (Option.map Resolver.target) hst
    · simp [Machine.used, show s.machine.resolvers[r]? = some ⟨p, false⟩ from hst]
  | decided x => exact absurd rfl (h x)

/-- The object of a promise is read at that stage only. -/
theorem Reachable.isReading_of_mem (hs : Reachable s) (hst : s.At p st) (hmem : .read p ∈ s.calls) :
    st.isReading = true := by
  have hpos := List.count_pos_iff.mpr hmem
  rw [hs.reads hst] at hpos
  by_contra hno
  simp [hno] at hpos

/-- Every object is read once. -/
theorem Acts.reads (h : Acts s acts t) (hs : Reachable s) (hst : s.At p st) :
    acts.countP (fun a => (a.found? p).isSome) + t.calls.count (.read p) =
      s.calls.count (.read p) + st.renewals p acts := by
  induction h with
  | refl => simp [Stage.renewals]
  | @tail acts t a u hacts ha ih =>
    have ht : Reachable t := hs.trans hacts.run
    have hu : Reachable u := ht.tail ha.step
    have hat := hacts.stage hs hst
    have hbefore := ht.reads hat
    have hafter := hu.reads (ha.stage ht hat)
    have hread : (a.found? p).isSome → (st.after p acts).isReading = true := by
      intro hfound
      cases ha with
      | @read p' cs hc found =>
        obtain rfl : p' = p := by simpa [Act.found?] using hfound
        exact ht.isReading_of_mem hat (hc ▸ List.mem_cons_self)
      | _ => simp [Act.found?] at hfound
    rw [List.countP_append, Stage.renewals_concat, hafter]
    rw [hbefore] at ih
    rw [List.countP_singleton]
    -- The act ends the read that is under way, or there is none to end and it may start one.
    cases hst' : (st.after p acts).isReading with
    | true =>
      rw [hst'] at ih
      rw [Stage.isReading_next hst' a]
      cases a.found? p <;> simp at ih ⊢ <;> omega
    | false =>
      have hnone : (a.found? p).isSome = false := by
        refine Bool.eq_false_iff.mpr fun hsome => ?_
        rw [hread hsome] at hst'
        cases hst'
      rw [hst'] at ih
      simp only [hnone, Bool.not_false, Bool.true_and] at ih ⊢
      simp at ih ⊢
      omega

/-- Where the reading of an object leads. -/
theorem Acts.after_read {before later : List (Act α ε)} {found : Except ε (Option α)}
    (h : Acts s (before ++ .read p found r :: later) t) (hs : Reachable s) (hst : s.At p st) :
    st.after p (before ++ .read p found r :: later) = (Stage.ofFound r found).after p later := by
  obtain ⟨u, hu, hrest⟩ := Acts.split before _ h
  obtain ⟨v, hread⟩ := hrest.head
  have hreading : (st.after p before).isReading = true :=
    Reachable.isReading_of_mem (hs.trans hu.run) (hu.stage hs hst) hread.mem_of_read
  have hnext : (st.after p before).next p (.read p found r) = .ofFound r found := by
    cases hat : st.after p before with
    | reading => simp [Stage.next, Act.found?]
    | waiting r => simp [hat, Stage.isReading] at hreading
    | decided x => simp [hat, Stage.isReading] at hreading
  rw [Stage.after, List.foldl_append, List.foldl_cons]
  exact congrArg (Stage.after p · later) hnext

/-- **The first callback decides.** From the resolution of a promise with a foreign object on, what the
program does tells the stage of the promise. Each object is read once: if that fails, the promise is
rejected with the cause, and a plain value fulfils it. What can be called gets a resolver, and the first
thing said through it resolves or rejects the promise, a failure of the member counting as one; until
then the promise is pending. Whatever is said through a resolver after the first changes nothing but
that a member has returned, also if the first was to wait for another promise. -/
theorem first_callback (hs : Reachable s) (hread : .read p ∈ s.calls) (h : Acts s acts t) :
    t.At p (Stage.reading.after p acts) ∧
    (∀ before found r later, acts = before ++ .read p found r :: later →
      t.At p ((Stage.ofFound r found).after p later)) ∧
    (∀ before r mid a o later, acts = before ++ .read p (.ok none) r :: (mid ++ a :: later) →
      (∀ b ∈ mid, b.says? r = none) → a.says? r = some o → t.At p ((Stage.of o).after p later)) ∧
    ((∀ x, Stage.reading.after p acts ≠ .decided x) → t.machine.settlement? p = none) ∧
    (∀ q, Stage.reading.after p acts = .decided (.promise q) →
      (p = q → t.machine.settlement? p = some (.rejected (Cause.ofFault .selfResolution))) ∧
      (p ≠ q → t.machine.settlement? p = t.machine.settlement? q ∨
        ∃ x, t.machine.settlement? q = some x ∧ (.adoption p, x) ∈ t.machine.due)) ∧
    (acts.countP (fun a => (a.found? p).isSome) + t.calls.count (.read p) =
      1 + Stage.reading.renewals p acts ∧ t.calls.count (.read p) ≤ 1) ∧
    (∀ r a v, (∃ b ∈ acts, (b.says? r).isSome) → (a.says? r).isSome → Does t a v →
      v.machine = t.machine ∧ v.log = t.log ∧
        (v.calls = t.calls ∨ t.calls = .body r :: v.calls)) := by
  have ht : Reachable t := hs.trans h.run
  have hstart : s.At p .reading := hread
  have hst := h.stage hs hstart
  refine ⟨hst, ?_, ?_, ht.undecided hst, fun q hq => ⟨fun hpq => ?_, fun hpq => ?_⟩, ⟨?_, ?_⟩, ?_⟩
  · rintro before found r later rfl
    rwa [h.after_read hs hstart] at hst
  · rintro before r mid a o later rfl hmid ha
    rw [h.after_read hs hstart] at hst
    -- What was found waits until something is said.
    have hfirst := Stage.after_waiting p later hmid ha
    rwa [Stage.ofFound, hfirst] at hst
  · rw [hq] at hst
    subst hpq
    exact ht.adoptions.self p hst
  · rw [hq] at hst
    rcases ht.follows_cases ⟨hst, hpq⟩ with ⟨x, hp, hx⟩ | ⟨hp, -, hx | hx⟩
    · exact .inl (hp.trans hx.symm)
    · exact .inl (hp.trans hx.symm)
    · exact .inr hx
  · rw [h.reads hs hstart, hs.reads hstart]
    rfl
  · rw [ht.reads hst]
    split <;> omega
  · intro r a v hsaid ha hv
    obtain ⟨q, hq⟩ := h.used hs hsaid
    exact hv.repeated hq ha

/-- What was found calls its resolver with a pending promise, then rejects, and then fails. -/
theorem first_callback_pending :
    let s : Session Nat String (Handlers Nat String Unit) Unit :=
      Session.empty.defer.defer.via 0 (.ok (.thenable ()))
    let u := { s with calls := [] }.finishRead 0 (.ok none)
    let v := (u.via 2 (.ok (.promise 1))).via 2 (.error "second")
    let t := { v with calls := [] }.finishBody 2 (some "failed")
    let acts : List (Act Nat String) :=
      [.read 0 (.ok none) 2, .said 2 (.ok (.promise 1)), .said 2 (.error "second"),
        .returned 2 (some "failed")]
    Reachable s ∧ .read 0 ∈ s.calls ∧ Acts s acts t ∧ t.Adopted 0 1 ∧
      t.machine.settlement? 0 = t.machine.settlement? 1 ∧
      t.calls.count (.read 0) = 0 ∧
      (t.via 2 (.ok (.value 7))).machine = t.machine ∧
      (t.via 1 (.ok (.value 7))).turn.machine.settlement? 0 = some (.fulfilled 7) := by
  intro s u v t acts
  have hs : Reachable s :=
    .tail (.tail (.single .defer) .defer) (.via 0 (o := .ok (.thenable ())) trivial)
  have hread : .read 0 ∈ s.calls := by decide +kernel
  have hcalled : Acts s [.read 0 (.ok none) 2, .said 2 (.ok (.promise 1))]
      (u.via 2 (.ok (.promise 1))) :=
    .tail (.tail .refl (.read (show s.calls = [.read 0] by decide +kernel) (.ok none)))
      (.said (by decide +kernel) (by decide +kernel))
  have hagain : Acts s [.read 0 (.ok none) 2, .said 2 (.ok (.promise 1)), .said 2 (.error "second")]
      v := hcalled.tail (.said (by decide +kernel) trivial)
  have hacts : Acts s acts t :=
    hagain.tail (.returned (show v.calls = [.body 2] by decide +kernel) (some "failed"))
  obtain ⟨-, -, hfirst, -, hadopt, ⟨hcount, -⟩, hlater⟩ := first_callback hs hread hacts
  have hst := hfirst [] 2 [] (.said 2 (.ok (.promise 1))) (.ok (.promise 1)) _ rfl (by simp) rfl
  obtain ⟨-, hwaits⟩ := hadopt 1 rfl
  have hdue : t.machine.due = [] := List.isEmpty_iff.mp (by decide +kernel)
  have hsame : t.machine.settlement? 0 = t.machine.settlement? 1 := by
    refine (hwaits (by decide)).resolve_right ?_
    rintro ⟨x, -, hx⟩
    rw [hdue] at hx
    cases hx
  have hvia := hlater 2 (.said 2 (.ok (.value 7))) _
    ⟨.said 2 (.error "second"), by simp [acts], rfl⟩ rfl
    (.said (by decide +kernel) trivial)
  have hnone : t.calls.count (.read 0) = 0 := by
    have hone : 1 + t.calls.count (.read 0) = 1 + 0 := hcount
    exact Nat.add_left_cancel hone
  exact ⟨hs, hread, hacts, hst, hsame, hnone, hvia.1, by decide +kernel⟩

end Switchboard.Promise
