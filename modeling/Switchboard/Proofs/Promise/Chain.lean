import Switchboard.Proofs.Promise.Callbacks

/-!
# Chains of handlers

An outcome travels down a chain of registrations. Where there is no handler for it, the next promise of
the chain takes it over as it is; the first handler for it ends its way, and what that handler answers
is the outcome, or the resolution, of the next promise.

So there are two ways to say where an outcome gets to. Without any word about the handlers, it gets down
to the first handler for it (`Reachable.passed`, `Session.Chain.passes`). With a word about each of
them, which is what it replies, it gets down the whole chain (`Session.Chain.travels`): a missing
handler then is one that replies with what it is told.

- `Form`: the ways to register handlers. Each fills in what it was not given by passing on (`Form.reply`).
- `Session.Chain s q links`: the promises of `links` hang on `q`, each on the one before it.
- `Session.Told`: what a registration was told. When the queue is empty, the registrations on a settled
  promise were told its outcome (`Reachable.told`), and those on a pending one nothing
  (`Reachable.untold`).
- `Reachable.passed`, `Acts.handled`: what becomes of the next promise without and with a handler.
- `Session.Leads`: where a reply leads the promise that it settles. `Session.Travels`: an outcome goes on
  from reply to reply.
- `chain_outcome`: what became of the promises of a chain.

A handler may answer with a promise that settles later, or with an object that has a `then` member. The
first is where `Leads` looks at that promise, and the second is why `Travels` may stop: what a foreign
object says is told by the acts of the program, through the stages of `first_callback`, and no function
of the outcome. `Session.Answered` is the statement that covers all cases, and it needs the acts of the
run for it. The links before the first handler need none of this.

That a registration was told an outcome "once, and no other" is an equation between lists in `Told`. It
says more than membership, and it is where the account of `Delivery` comes in.
-/

namespace Switchboard.Promise

/-- How handlers are registered: with any of the two, with one of them, or with a function of the
value. -/
inductive Form (α ε : Type)
  | both (onFulfilled : Option (α → Outcome α ε)) (onRejected : Option (ε → Outcome α ε))
  | andThen (onFulfilled : α → Outcome α ε)
  | orElse (onRejected : ε → Outcome α ε)
  | map (f : α → α)

namespace Form

variable {α ε : Type}

def handlers : Form α ε → Handlers α ε (Outcome α ε)
  | .both f g => ⟨f, g⟩
  | .andThen f => ⟨some f, none⟩
  | .orElse g => ⟨none, some g⟩
  | .map f => ⟨some fun v => .ok (.value (f v)), none⟩

instance : Registration (Form α ε) where
  handles form := Registration.handles form.handlers

/-- The answer to an outcome, which is passed on if there is no handler for it. -/
def reply (form : Form α ε) : Settlement α ε → Outcome α ε
  | .fulfilled v => (form.handlers.onFulfilled.map (· v)).getD (.ok (.value v))
  | .rejected c => (form.handlers.onRejected.map (· c)).getD (.error c)

end Form

variable {α ε κ τ : Type}

/-- The answer of those who hand on what they get. -/
def Settlement.outcome : Settlement α ε → Outcome α ε
  | .fulfilled v => .ok (.value v)
  | .rejected c => .error c

/-- A form without a handler for an outcome replies with it. -/
theorem Form.reply_of_not_handles {form : Form α ε} {x : Settlement α ε}
    (h : Registration.handles form x.state = false) : form.reply x = x.outcome := by
  cases x with
  | fulfilled v =>
    have hnone : form.handlers.onFulfilled = none :=
      Option.not_isSome_iff_eq_none.mp (Bool.eq_false_iff.mp h)
    rw [Form.reply, hnone]
    rfl
  | rejected c =>
    have hnone : form.handlers.onRejected = none :=
      Option.not_isSome_iff_eq_none.mp (Bool.eq_false_iff.mp h)
    rw [Form.reply, hnone]
    rfl

namespace Session

/-- Each promise of `links` is the dependent of a registration on the one before it. -/
def Chain (s : Session α ε κ τ) : PromiseId → List (κ × PromiseId) → Prop
  | _, [] => True
  | q, l :: links => .handler l.1 l.2 ∈ s.registered q ∧ s.Chain l.2 links

/-- The registration was told the outcome, once, and no other. -/
def Told (s : Session α ε κ τ) (l : κ × PromiseId) (x : Settlement α ε) : Prop :=
  s.deliveries.filter (·.1.purpose == .handler l.2) = [(.handler l.1 l.2, x)]

theorem Told.ran {s : Session α ε κ τ} {l : κ × PromiseId} {x : Settlement α ε} (h : s.Told l x) :
    (.handler l.1 l.2, x) ∈ s.deliveries :=
  List.mem_of_mem_filter (show (.handler l.1 l.2, x) ∈ s.deliveries.filter _ from
    h ▸ List.mem_singleton_self _)

/-- The handler for `d` answered, and since then its answer has led `d` to where it is. -/
def Answered (s : Session α ε κ τ) (acts : List (Act α ε)) (d : PromiseId) : Prop :=
  ∃ earlier o later, acts = earlier ++ .answered d o :: later ∧ s.At d ((Stage.of o).after d later)

/-- Where an answer leads its promise `d`: to the outcome `y`, or to none. -/
def Leads (s : Session α ε κ τ) (d : PromiseId) : Outcome α ε → Option (Settlement α ε) → Prop
  | .ok (.value v), y => y = some (.fulfilled v)
  | .ok (.promise q), y => q ≠ d ∧ s.machine.settlement? q = y
  | .ok (.thenable _), _ => False
  | .error c, y => y = some (.rejected c)

theorem leads_outcome {s : Session α ε κ τ} {d : PromiseId} {x : Settlement α ε}
    {y : Option (Settlement α ε)} : s.Leads d x.outcome y ↔ y = some x := by
  cases x <;> rfl

/-- The handlers of `links` are those of the forms. None of them is running, and any that answered has
answered as its form replies. -/
structure Replies [Registration κ] (s : Session α ε κ τ) (acts : List (Act α ε))
    (form : κ → Form α ε) (links : List (κ × PromiseId)) : Prop where
  handles : ∀ l ∈ links, ∀ x : Settlement α ε,
    Registration.handles l.1 x.state = Registration.handles (form l.1) x.state
  finished : ∀ l ∈ links, .handler l.2 ∉ s.calls
  answers : ∀ l ∈ links, ∀ o x, .answered l.2 o ∈ acts → s.Told l x → o = (form l.1).reply x

/-- The outcome `x` travels along `links`: the first registration was told it, its dependent is where
the reply leads, and what became of that travels along the rest. -/
def Travels (s : Session α ε κ τ) (form : κ → Form α ε) :
    Settlement α ε → List (κ × PromiseId) → Prop
  | _, [] => True
  | x, l :: links => s.Told l x ∧ ∀ y, s.Leads l.2 ((form l.1).reply x) y →
      s.machine.settlement? l.2 = y ∧ ∀ z, y = some z → s.Travels form z links

end Session

variable [Cause ε] [Registration κ] {s t : Session α ε κ τ} {acts : List (Act α ε)} {code : κ}
  {p q d : PromiseId} {r : Reaction κ} {x : Settlement α ε}

/-! ### Reactions that ran

From the log back to the step in which a reaction ran, and from there to what became of its dependent.
-/

omit [Cause ε] [Registration κ] in
theorem Job.delivery?_eq_some {j : Job α ε κ τ} : j.delivery? = some (r, x) ↔ j = .deliver r x := by
  cases j <;> simp [Job.delivery?]

/-- A reaction runs with the step that starts its job. -/
theorem Step.delivers (h : Step s t) (hd : (r, x) ∈ t.deliveries) :
    (r, x) ∈ s.deliveries ∨ ∃ m, s.machine.next? = some (.deliver r x, m) ∧
      t = { s with machine := m }.start (.deliver r x) := by
  rw [Session.deliveries_eq] at hd ⊢
  rcases h.calls_cases with ⟨hquiet, -⟩ | ⟨j, m, -, hj, rfl⟩
  · rw [hquiet] at hd
    exact .inl hd
  · rw [Session.started_start, List.filterMap_append] at hd
    refine (List.mem_append.mp hd).imp_right fun hd => ?_
    obtain ⟨j', hmem, hdelivery⟩ := List.mem_filterMap.mp hd
    obtain rfl := List.mem_singleton.mp hmem
    obtain rfl := Job.delivery?_eq_some.mp hdelivery
    exact ⟨m, hj, rfl⟩

/-- Without a handler for it, an outcome is passed on. -/
theorem Reachable.passed (hs : Reachable s) (hd : (.handler code d, x) ∈ s.deliveries)
    (hno : Registration.handles code x.state = false) : s.machine.settlement? d = some x := by
  induction hs with
  | refl => simp [Session.deliveries, Session.empty] at hd
  | @tail s t hs hstep ih =>
    rcases hstep.delivers hd with hd | ⟨m, hj, rfl⟩
    · exact (Run.keeps (.single hstep) hs).settlement? d x (ih hd)
    · have htaken : Sound [d] (s.taken (.deliver (.handler code d) x) m) :=
        (Reachable.sound hs).take hj
      have hstart : ({ s with machine := m } : Session α ε κ τ).start (.deliver (.handler code d) x) =
          (s.taken (.deliver (.handler code d) x) m).settle d x := by
        simp [Session.start, hno]
      rw [hstart, htaken.settlement?_settle, if_pos rfl]

/-- A handler that ran is not over yet, or its answer has resolved the dependent. The induction is on
what the program did: the call of the handler stays until it is over, and from then on the stages of
the dependent are told. -/
theorem Acts.handled (h : Acts .empty acts s) (hd : (.handler code d, x) ∈ s.deliveries)
    (hyes : Registration.handles code x.state = true) :
    .handler d ∈ s.calls ∨ s.Answered acts d := by
  induction h with
  | refl => simp [Session.deliveries, Session.empty] at hd
  | @tail acts t a u hacts ha ih =>
    have ht : Reachable t := hacts.run
    rcases ha.step.delivers hd with hd | ⟨m, hj, rfl⟩
    · rcases ih hd with hc | ⟨earlier, o, later, rfl, hat⟩
      · -- A handler that was running has answered in this act, or is still running after it.
        by_cases hover : a.call? = some (.handler d)
        · cases ha with
          | @answered d' cs hcs o ho =>
            obtain rfl : d' = d := by simpa [Act.call?] using hover
            have hfinish := ht.sound.finish hcs
            exact .inr ⟨acts, o, [], rfl, hfinish.at_conclude o⟩
          | _ => simp [Act.call?] at hover
        · exact .inl (ha.mem_calls hc hover)
      · refine .inr ⟨earlier, o, later ++ [a], by simp, ?_⟩
        rw [Stage.after_concat]
        exact ha.stage ht hat
    · refine .inl ?_
      have hstart : ({ t with machine := m } : Session α ε κ τ).start (.deliver (.handler code d) x) =
          (t.taken (.deliver (.handler code d) x) m).call (.handler d) := by
        simp [Session.start, hyes]
      rw [hstart]
      exact List.mem_cons_self

omit [Cause ε] [Registration κ] in
/-- What was decided stays so. -/
theorem Stage.after_decided (p : PromiseId) (x : Answer PromiseId α ε) (acts : List (Act α ε)) :
    (Stage.decided x).after p acts = .decided x := by
  induction acts with
  | nil => rfl
  | cons a acts ih => exact ih

/-- When the queue is empty, an answer has led its promise where it leads. -/
theorem Session.Leads.settlement?_eq {o : Outcome α ε} {y : Option (Settlement α ε)} (hl : s.Leads d o y) (hs : Reachable s)
    (hq : s.machine.queue = []) {later : List (Act α ε)}
    (hat : s.At d ((Stage.of o).after d later)) : s.machine.settlement? d = y := by
  rcases o with c | (v | q | _)
  · obtain rfl : y = _ := hl
    rwa [Stage.of, Stage.after_decided] at hat
  · obtain rfl : y = _ := hl
    rwa [Stage.of, Stage.after_decided] at hat
  · obtain ⟨hne, rfl⟩ := hl
    rw [Stage.of, Stage.after_decided] at hat
    exact hs.settlement?_of_follows hq ⟨hat, hne.symm⟩
  · exact hl.elim

/-- Of what maps to an image there is one. -/
theorem filter_of_nodup_map {β γ : Type} [DecidableEq γ] {f : β → γ} {l : List β} {b : β}
    (h : (l.map f).Nodup) (hb : b ∈ l) : l.filter (f · == f b) = [b] := by
  induction l with
  | nil => cases hb
  | cons c l ih =>
    rw [List.map_cons, List.nodup_cons] at h
    obtain ⟨hc, hl⟩ := h
    rcases List.mem_cons.mp hb with rfl | hb
    · have hnone : l.filter (f · == f b) = [] := by
        refine List.filter_eq_nil_iff.mpr fun e he heq => ?_
        exact hc (beq_iff_eq.mp heq ▸ List.mem_map_of_mem he)
      simp [hnone]
    · have hne : f c ≠ f b := by
        intro heq
        exact hc (heq ▸ List.mem_map_of_mem hb)
      simp [hne, ih hl hb]

/-- When the queue is empty, a registration on a settled promise was told its outcome. -/
theorem Reachable.told (hs : Reachable s) (hq : s.machine.queue = [])
    (hr : .handler code d ∈ s.registered p) (hx : s.machine.settlement? p = some x) :
    s.Told (code, d) x := by
  have hran : (.handler code d, x) ∈ s.deliveries := by
    rcases hs.reaction_cases hr with ⟨hnone, -⟩ | ⟨y, hy, hran | hdue⟩
    · rw [hx] at hnone
      cases hnone
    · obtain rfl : x = y := Option.some.inj (hx.symm.trans hy)
      exact hran
    · simp [Machine.due, hq] at hdue
  exact filter_of_nodup_map (f := (·.1.purpose)) hs.deliveries_nodup hran

/-- A reaction of a pending promise has not run, and what it would settle is pending. -/
theorem Reachable.untold (hs : Reachable s) (hr : .handler code d ∈ s.registered p)
    (hp : s.machine.settlement? p = none) :
    s.machine.settlement? d = none ∧ ∀ y, (.handler code d, y) ∉ s.deliveries := by
  rcases hs.reaction_cases hr with ⟨-, hout⟩ | ⟨y, hy, -⟩
  · refine ⟨hs.settlement?_of_outstanding hout rfl, fun y hy => ?_⟩
    obtain ⟨p', hr', hy'⟩ := hs.source (List.mem_append_left _ hy)
    obtain ⟨rfl, -⟩ := hs.eq_of_purpose hr hr' rfl
    rw [hp] at hy'
    cases hy'
  · rw [hp] at hy
    cases hy

/-! ### Down the chain -/

/-- An outcome goes on as long as there is no handler for it. -/
theorem Session.Chain.passes (hs : Reachable s) (hq : s.machine.queue = [])
    {before rest : List (κ × PromiseId)} (hchain : s.Chain q (before ++ rest))
    (hx : s.machine.settlement? q = some x)
    (hno : ∀ l ∈ before, Registration.handles l.1 x.state = false) :
    (∀ l ∈ before, s.machine.settlement? l.2 = some x ∧ s.Told l x) ∧
    ∃ p, s.machine.settlement? p = some x ∧ s.Chain p rest := by
  induction before generalizing q with
  | nil => exact ⟨by simp, q, hx, hchain⟩
  | cons l before ih =>
    obtain ⟨hr, hchain⟩ := hchain
    have htold : s.Told l x := hs.told hq hr hx
    have hl := hs.passed htold.ran (hno l List.mem_cons_self)
    obtain ⟨hall, hrest⟩ := ih hchain hl fun l hl => hno l (List.mem_cons_of_mem _ hl)
    refine ⟨fun l' hl' => ?_, hrest⟩
    rcases List.mem_cons.mp hl' with rfl | hl'
    · exact ⟨hl, htold⟩
    · exact hall l' hl'

/-- Nothing goes down the chain of a pending promise. -/
theorem Session.Chain.waits (hs : Reachable s) {links : List (κ × PromiseId)}
    (hchain : s.Chain q links) (hq : s.machine.settlement? q = none) :
    ∀ l ∈ links, s.machine.settlement? l.2 = none ∧ ∀ y, (.handler l.1 l.2, y) ∉ s.deliveries := by
  induction links generalizing q with
  | nil => simp
  | cons l links ih =>
    obtain ⟨hr, hchain⟩ := hchain
    have hl := hs.untold hr hq
    intro l' hl'
    rcases List.mem_cons.mp hl' with rfl | hl'
    · exact hl
    · exact ih hchain hl.1 l' hl'

/-- Where the handlers of a chain reply as forms do, the replies alone say what becomes of its promises.
The induction is on the chain; with a handler or without, the reply leads to the outcome that the rest
of the chain starts from. -/
theorem Session.Chain.travels (h : Acts .empty acts s) (hq : s.machine.queue = [])
    {form : κ → Form α ε} {links : List (κ × PromiseId)} (hchain : s.Chain q links)
    (hreplies : s.Replies acts form links) (hx : s.machine.settlement? q = some x) :
    s.Travels form x links := by
  have hs : Reachable s := h.run
  induction links generalizing q x with
  | nil => trivial
  | cons l links ih =>
    obtain ⟨hr, hchain⟩ := hchain
    have hfirst : l ∈ l :: links := List.mem_cons_self
    have htold : s.Told l x := hs.told hq hr hx
    have hlater : s.Replies acts form links :=
      ⟨fun l' hl' => hreplies.handles l' (List.mem_cons_of_mem _ hl'),
        fun l' hl' => hreplies.finished l' (List.mem_cons_of_mem _ hl'),
        fun l' hl' => hreplies.answers l' (List.mem_cons_of_mem _ hl')⟩
    refine ⟨htold, fun y hy => ?_⟩
    -- Without a handler the outcome is passed on within the job; with one it is the answer that
    -- leads there.
    have hsettled : s.machine.settlement? l.2 = y := by
      have hhandles := hreplies.handles l hfirst x
      rcases hcode : Registration.handles l.1 x.state
      · rw [Form.reply_of_not_handles (hhandles.symm.trans hcode), leads_outcome] at hy
        rw [hy]
        exact hs.passed htold.ran hcode
      · rcases h.handled htold.ran hcode with hrunning | ⟨earlier, o, later, rfl, hat⟩
        · exact absurd hrunning (hreplies.finished l hfirst)
        · obtain rfl := hreplies.answers l hfirst o x
            (List.mem_append_right _ List.mem_cons_self) htold
          exact hy.settlement?_eq hs hq hat
    exact ⟨hsettled, fun z hz => ih hchain hlater (hsettled.trans hz)⟩

/-- **Outcomes travel down a chain.** When the queue is empty and the first promise of a chain of
registrations is settled, all promises before the first handler for its outcome have that outcome too.
Their registrations were told it once and nothing else, and so was the one with the handler: that is
still running, or it has answered, and the next promise was resolved or rejected with what it answered.
As long as the first promise is pending, all are, and no registration of the chain was told anything.

If the handlers reply as their forms do, the outcome travels on behind the handlers too: each reply leads
to what becomes of the next promise, down to the end of the chain or to the first promise that is pending
or waits for a foreign object. -/
theorem chain_outcome (h : Acts .empty acts s) (hq : s.machine.queue = [])
    {links : List (κ × PromiseId)} (hchain : s.Chain q links) :
    (∀ x, s.machine.settlement? q = some x → ∀ before rest, links = before ++ rest →
      (∀ l ∈ before, Registration.handles l.1 x.state = false) →
        (∀ l ∈ before, s.machine.settlement? l.2 = some x ∧ s.Told l x) ∧
        ∀ l ∈ rest.head?, s.Told l x ∧
          (Registration.handles l.1 x.state = true →
            .handler l.2 ∈ s.calls ∨ s.Answered acts l.2)) ∧
    (s.machine.settlement? q = none → ∀ l ∈ links,
      s.machine.settlement? l.2 = none ∧ ∀ y, (.handler l.1 l.2, y) ∉ s.deliveries) ∧
    (∀ form, s.Replies acts form links → ∀ x, s.machine.settlement? q = some x →
      s.Travels form x links) := by
  have hs : Reachable s := h.run
  refine ⟨fun x hx before rest hlinks hno => ?_, hchain.waits hs,
    fun form hreplies x hx => hchain.travels h hq hreplies hx⟩
  subst hlinks
  obtain ⟨hall, p, hp, hrest⟩ := hchain.passes hs hq hx hno
  refine ⟨hall, fun l hl => ?_⟩
  cases rest with
  | nil => cases hl
  | cons l' rest =>
    obtain rfl : l' = l := by simpa using hl
    have htold : s.Told l' x := hs.told hq hrest.1 hp
    exact ⟨htold, h.handled htold.ran⟩

/-- A cause passes two promises, the handler for it answers with a value, and that passes the last one.
-/
theorem chain_outcome_mixed :
    let f : Form Nat String := .map (· + 1)
    let g : Form Nat String := .andThen fun v => .ok (.value v)
    let h : Form Nat String := .orElse fun _ => .ok (.value 7)
    let k : Form Nat String := .both none (some .error)
    let r : Session Nat String (Form Nat String) Unit :=
      (((Session.empty.defer.register 0 f).register 1 g).register 2 h).register 3 k
    let s := (r.via 0 (.error "lost")).turn.turn.turn
    let t := ({ s with calls := [] }.conclude 3 (.ok (.value 7))).turn
    let links := [(f, 1), (g, 2), (h, 3), (k, 4)]
    Reachable t ∧ t.machine.queue = [] ∧ t.Chain 0 links ∧
      t.machine.settlement? 1 = some (.rejected "lost") ∧
      t.machine.settlement? 2 = some (.rejected "lost") ∧
      t.Told (h, 3) (.rejected "lost") ∧
      t.Travels id (.rejected "lost") links ∧
      t.machine.settlement? 3 = some (.fulfilled 7) ∧
      t.machine.settlement? 4 = some (.fulfilled 7) := by
  intro f g h k r s t links
  let acts : List (Act Nat String) := [.other, .other, .other, .other, .other,
    .said 0 (.error "lost"), .other, .other, .other, .answered 3 (.ok (.value 7)), .other]
  have hr : Acts .empty [.other, .other, .other, .other, .other] r :=
    .tail (.tail (.tail (.tail (.tail .refl .defer) (.register (by decide) f))
      (.register (by decide) g)) (.register (by decide) h)) (.register (by decide) k)
  have hs : Acts r [.said 0 (.error "lost"), .other, .other, .other] s :=
    (((Acts.refl.tail (.said (o := .error "lost") (by decide +kernel) trivial)).turn
      (by decide +kernel) (by decide +kernel)).turn (by decide +kernel) (by decide +kernel)).turn
        (by decide +kernel) (by decide +kernel)
  have hlast : Acts s [.answered 3 (.ok (.value 7)), .other] t :=
    (Acts.refl.tail (.answered (show s.calls = [.handler 3] by decide +kernel)
      (o := .ok (.value 7)) trivial)).turn (by decide +kernel) (by decide +kernel)
  have hacts : Acts .empty acts t := (hr.append hs).append hlast
  have hrun : Run r t := hs.run.trans hlast.run
  have hlinks : r.registrations = [(0, .handler f 1), (1, .handler g 2), (2, .handler h 3),
      (3, .handler k 4)] := rfl
  have hq : t.machine.queue = [] := List.isEmpty_iff.mp (by decide +kernel)
  have hcalls : t.calls = [] := List.isEmpty_iff.mp (by decide +kernel)
  have hzero : t.machine.settlement? 0 = some (.rejected "lost") := by decide +kernel
  clear_value t
  have hkeeps (p : PromiseId) (x : Reaction (Form Nat String)) (hx : (p, x) ∈ r.registrations) :
      x ∈ t.registered p := (hrun.keeps hr.run).registered p x (Session.mem_registered.mpr hx)
  rw [hlinks] at hkeeps
  have hchain : t.Chain 0 links :=
    ⟨hkeeps 0 _ (by simp), hkeeps 1 _ (by simp), hkeeps 2 _ (by simp), hkeeps 3 _ (by simp), trivial⟩
  have hno : ∀ l ∈ [(f, 1), (g, 2)], Registration.handles l.1 .rejected = false := by
    intro l hl
    rcases List.mem_pair.mp hl with rfl | rfl
    · rfl
    · rfl
  obtain ⟨hsettled, -, htravels⟩ := chain_outcome hacts hq hchain
  obtain ⟨hall, hnext⟩ := hsettled _ hzero [(f, 1), (g, 2)] [(h, 3), (k, 4)] rfl hno
  have htold : t.Told (h, 3) (.rejected "lost") := (hnext (h, 3) (by simp)).1
  have hreplies : t.Replies acts id links := by
    refine ⟨fun l _ x => rfl, fun l _ => by simp [hcalls], fun l hl o x ho hx => ?_⟩
    obtain ⟨hthree, rfl⟩ : l.2 = 3 ∧ o = .ok (.value 7) := by simpa [acts] using ho
    have hlinks : l = (f, 1) ∨ l = (g, 2) ∨ l = (h, 3) ∨ l = (k, 4) := by simpa [links] using hl
    obtain rfl : l = (h, 3) := by
      rcases hlinks with rfl | rfl | rfl | rfl
      · cases hthree
      · cases hthree
      · rfl
      · cases hthree
    obtain ⟨-, rfl⟩ := Prod.mk.inj (List.singleton_inj.mp (htold.symm.trans hx))
    rfl
  have hway := htravels id hreplies _ hzero
  -- Each reply leads to the next outcome: the cause twice, then the value twice.
  obtain ⟨-, hway⟩ := hway
  obtain ⟨hone, hway⟩ := hway _ rfl
  obtain ⟨-, hway⟩ := hway _ rfl
  obtain ⟨htwo, hway⟩ := hway _ rfl
  obtain ⟨-, hway⟩ := hway _ rfl
  obtain ⟨hthree, hway⟩ := hway _ rfl
  obtain ⟨-, hway⟩ := hway _ rfl
  exact ⟨(hr.run.trans hrun), hq, hchain, (hall (f, 1) (by simp)).1, (hall (g, 2) (by simp)).1, htold,
    htravels id hreplies _ hzero, hthree, (hway _ rfl).1⟩

end Switchboard.Promise
