import Switchboard.Proofs.Promise.Chain

/-!
# The laws of chaining

When the queue is empty, what became of the result of a registration is a function of what became of
the promise that it was made on, whatever way the outcome took and however many jobs that was. So
registrations compose as functions do.

- `Rule`: how the handlers of a registration answer. `Rule.ofForm`: they reply as those of a form.
- `Session.Hangs`: a promise is the result of a registration whose handlers answer by a rule.
- `Session.Hangs.led`: what became of it. `settlement?_eq`, `reply`: the same as a function of what became
  of the promise, and of what the form replied to that.
- `follow`: the same for a handler of values, as an operation on outcomes that may be missing.
- `chaining_laws`: handlers that only pass on change nothing, and a chain of handlers is one handler.

The laws hold at an empty queue and not before, as the two sides of each take different numbers of jobs.
A pending promise is a side as any other: its outcome is missing, and `follow` keeps that, so no law has
a hypothesis about settling.

A rule is a relation and not a function, because the third law has a handler that makes a registration
of its own and answers with its result. Which promise that is depends on when the handler ran. All that
the law needs of it is that it hangs on the right promise by the right rule, and this is what the rule
of that handler says. A promise that would be answered with itself is left out by the hypotheses of this
form, since such a handler rejects its own promise, and the laws are false of it.
-/

namespace Switchboard.Promise

/-- How the handlers of a registration answer: to each value or cause with certain outcomes. -/
abbrev Rule (α ε : Type) := Handlers α ε (Outcome α ε → Prop)

namespace Rule

variable {α ε : Type}

def andThen (answer : α → Outcome α ε → Prop) : Rule α ε := ⟨some answer, none⟩

def orElse (answer : ε → Outcome α ε → Prop) : Rule α ε := ⟨none, some answer⟩

/-- There is no handler. -/
def pass : Rule α ε := ⟨none, none⟩

/-- Values are answered with promises. -/
def promise (f : α → PromiseId) : Rule α ε := andThen fun v o => o = .ok (.promise (f v))

/-- Values are answered with values. -/
def map (a : α → α) : Rule α ε := andThen fun v o => o = .ok (.value (a v))

/-- Outcomes are answered with what the form replies. -/
def ofForm (form : Form α ε) : Rule α ε :=
  ⟨form.handlers.onFulfilled.map fun f v o => o = f v,
    form.handlers.onRejected.map fun g c o => o = g c⟩

/-- `o` is an answer to `x`. -/
def allows (rule : Rule α ε) : Settlement α ε → Outcome α ε → Prop
  | .fulfilled v, o => ∀ answer, rule.onFulfilled = some answer → answer v o
  | .rejected c, o => ∀ answer, rule.onRejected = some answer → answer c o

@[simp] theorem handles_ofForm (form : Form α ε) (st : State) :
    Registration.handles (ofForm form) st = Registration.handles form st := by
  cases st <;> simp [Registration.handles, ofForm]

theorem eq_reply_of_allows {form : Form α ε} {x : Settlement α ε} {o : Outcome α ε}
    (hyes : Registration.handles form x.state = true) (h : (ofForm form).allows x o) :
    o = form.reply x := by
  cases x with
  | fulfilled v =>
    obtain ⟨f, hf⟩ : ∃ f, form.handlers.onFulfilled = some f := Option.isSome_iff_exists.mp hyes
    have ho : o = f v := h (fun v o => o = f v) (by rw [ofForm, hf]; rfl)
    rw [ho, Form.reply, hf]
    rfl
  | rejected c =>
    obtain ⟨g, hg⟩ : ∃ g, form.handlers.onRejected = some g := Option.isSome_iff_exists.mp hyes
    have ho : o = g c := h (fun c o => o = g c) (by rw [ofForm, hg]; rfl)
    rw [ho, Form.reply, hg]
    rfl

end Rule

variable {α ε κ τ : Type}

/-! ### Outcomes that may be missing -/

/-- What becomes of an outcome at a handler of values. -/
def follow (x : Option (Settlement α ε)) (f : α → Option (Settlement α ε)) :
    Option (Settlement α ε) :=
  x.bind fun
    | .fulfilled v => f v
    | .rejected c => some (.rejected c)

@[simp] theorem follow_fulfilled (v : α) (f : α → Option (Settlement α ε)) :
    follow (some (.fulfilled v)) f = f v := rfl

/-- One handler after the other is one handler. -/
theorem follow_assoc (x : Option (Settlement α ε)) (f g : α → Option (Settlement α ε)) :
    follow (follow x f) g = follow x fun v => follow (f v) g := by
  rcases x with _ | (v | c) <;> rfl

/-- What only returns values changes nothing. -/
theorem follow_pure (x : Option (Settlement α ε)) :
    follow x (fun v => some (.fulfilled v)) = x := by
  rcases x with _ | (v | c) <;> rfl

namespace Session

/-- `d` is the result of a registration on `p`. Its handlers are none but those of the rule, none of
them is running, and any that answered has answered by the rule. -/
structure Hangs [Registration κ] (s : Session α ε κ τ) (acts : List (Act α ε)) (p : PromiseId)
    (rule : Rule α ε) (d : PromiseId) : Prop where
  registered : ∃ code, .handler code d ∈ s.registered p ∧
    ∀ x : Settlement α ε, Registration.handles code x.state = Registration.handles rule x.state
  finished : .handler d ∉ s.calls
  answers : ∀ o x, .answered d o ∈ acts → s.machine.settlement? p = some x → rule.allows x o

/-- A chain of functions: each is mapped over the result of the one before. -/
def Maps [Registration κ] (s : Session α ε κ τ) (acts : List (Act α ε)) :
    PromiseId → List (α → α) → PromiseId → Prop
  | p, [], d => d = p
  | p, a :: fs, d => ∃ q, s.Hangs acts p (.map a) q ∧ s.Maps acts q fs d

/-- Two promises have come to the same. -/
def EndsAs (s : Session α ε κ τ) (p q : PromiseId) : Prop :=
  s.machine.state p = s.machine.state q ∧ s.machine.settlement? p = s.machine.settlement? q

theorem endsAs_of_settlement? {s : Session α ε κ τ} {p q : PromiseId}
    (h : s.machine.settlement? p = s.machine.settlement? q) : s.EndsAs p q :=
  ⟨by rw [Machine.state_eq, Machine.state_eq, h], h⟩

end Session

/-- The functions one after the other. -/
def composed (fs : List (α → α)) (v : α) : α := fs.foldl (fun v a => a v) v

/-! ### What became of the result of a registration

All of it comes from `Hangs.led`, which is `Reachable.told`, `Reachable.passed` and `Acts.handled` put
together for one registration. -/

section

variable [Cause ε] [Registration κ] {s : Session α ε κ τ} {acts : List (Act α ε)}
  {p q d : PromiseId} {rule : Rule α ε} {o : Outcome α ε} {y : Option (Settlement α ε)}

/-- When the queue is empty, the result of a registration on a settled promise has its outcome if there
is no handler for that, and is else where the answer has led it. -/
theorem Session.Hangs.led (hh : s.Hangs acts p rule d) (h : Acts .empty acts s)
    (hq : s.machine.queue = []) {x : Settlement α ε} (hx : s.machine.settlement? p = some x) :
    (Registration.handles rule x.state = false ∧ s.machine.settlement? d = some x) ∨
    (Registration.handles rule x.state = true ∧ ∃ o, rule.allows x o ∧
      ∀ y, s.Leads d o y → s.machine.settlement? d = y) := by
  have hs : Reachable s := h.run
  obtain ⟨code, hreg, hhandles⟩ := hh.registered
  have hran := (hs.told hq hreg hx).ran
  rcases hcode : Registration.handles rule x.state
  · exact .inl ⟨rfl, hs.passed hran ((hhandles x).trans hcode)⟩
  · rcases h.handled hran ((hhandles x).trans hcode) with hrunning | ⟨earlier, o, later, rfl, hat⟩
    · exact absurd hrunning hh.finished
    · have hallowed := hh.answers o x (List.mem_append_right _ List.mem_cons_self) hx
      exact .inr ⟨rfl, o, hallowed, fun y hy => hy.settlement?_eq hs hq hat⟩

/-- It is pending as long as the promise is. -/
theorem Session.Hangs.waits (hh : s.Hangs acts p rule d) (hs : Reachable s)
    (hp : s.machine.settlement? p = none) : s.machine.settlement? d = none := by
  obtain ⟨code, hreg, -⟩ := hh.registered
  exact (hs.untold hreg hp).1

theorem Session.Hangs.settlement?_eq (hh : s.Hangs acts p rule d) (h : Acts .empty acts s)
    (hq : s.machine.queue = []) {F : Settlement α ε → Option (Settlement α ε)}
    (hpass : ∀ x : Settlement α ε, Registration.handles rule x.state = false → F x = some x)
    (hanswer : ∀ (x : Settlement α ε) (o : Outcome α ε), Registration.handles rule x.state = true →
      rule.allows x o → s.Leads d o (F x)) :
    s.machine.settlement? d = (s.machine.settlement? p).bind F := by
  rcases hx : s.machine.settlement? p with _ | x
  · exact hh.waits h.run hx
  · rw [Option.bind_some]
    rcases hh.led h hq hx with ⟨hno, hsettled⟩ | ⟨hyes, o, hallowed, hled⟩
    · rw [hpass x hno]
      exact hsettled
    · exact hled _ (hanswer x o hyes hallowed)

/-- The result of a form is where its reply leads. -/
theorem Session.Hangs.reply {form : Form α ε} (hh : s.Hangs acts p (.ofForm form) d)
    (h : Acts .empty acts s) (hq : s.machine.queue = []) {x : Settlement α ε}
    (hx : s.machine.settlement? p = some x) (hy : s.Leads d (form.reply x) y) :
    s.machine.settlement? d = y := by
  rcases hh.led h hq hx with ⟨hno, hsettled⟩ | ⟨hyes, o, hallowed, hled⟩
  · rw [Rule.handles_ofForm] at hno
    rw [Form.reply_of_not_handles hno, Session.leads_outcome] at hy
    rw [hsettled, hy]
  · rw [Rule.handles_ofForm] at hyes
    obtain rfl := Rule.eq_reply_of_allows hyes hallowed
    exact hled y hy

/-- A form that replies with outcomes is a function of outcomes. -/
theorem Session.Hangs.outcome {form : Form α ε} {a : Settlement α ε → Settlement α ε}
    (hh : s.Hangs acts p (.ofForm form) d) (h : Acts .empty acts s) (hq : s.machine.queue = [])
    (ha : ∀ x, form.reply x = (a x).outcome) :
    s.machine.settlement? d = (s.machine.settlement? p).map a := by
  rcases hx : s.machine.settlement? p with _ | x
  · exact hh.waits h.run hx
  · refine hh.reply h hq hx ?_
    rw [ha, Session.leads_outcome]
    rfl

omit [Cause ε] in
/-- The handler of a registration for values only has to answer values by the rule. -/
theorem Session.hangs_andThen {code : κ} {answer : α → Outcome α ε → Prop}
    (hreg : .handler code d ∈ s.registered p)
    (hcode : ∀ x : Settlement α ε, Registration.handles code x.state =
      Registration.handles (Rule.andThen answer) x.state)
    (hover : .handler d ∉ s.calls)
    (hanswer : ∀ o v, .answered d o ∈ acts → answer v o) : s.Hangs acts p (.andThen answer) d := by
  refine ⟨⟨code, hreg, hcode⟩, hover, ?_⟩
  intro o x ho _
  cases x with
  | fulfilled v =>
    rintro _ ⟨⟩
    exact hanswer o v ho
  | rejected c =>
    rintro _ ⟨⟩

/-- A handler of values. -/
theorem Session.Hangs.follow {answer : α → Outcome α ε → Prop}
    (hh : s.Hangs acts p (.andThen answer) d) (h : Acts .empty acts s) (hq : s.machine.queue = [])
    {f : α → Option (Settlement α ε)} (hf : ∀ v o, answer v o → s.Leads d o (f v)) :
    s.machine.settlement? d = follow (s.machine.settlement? p) f := by
  refine hh.settlement?_eq h hq ?_ ?_
  · intro x hno
    cases x with
    | fulfilled v => cases hno
    | rejected c => rfl
  · intro x o hyes hallowed
    cases x with
    | fulfilled v => exact hf v o (hallowed answer rfl)
    | rejected c => cases hyes

/-- A handler that answers with promises other than its own. -/
theorem Session.Hangs.promise {f : α → PromiseId} (hh : s.Hangs acts p (.promise f) d)
    (h : Acts .empty acts s) (hq : s.machine.queue = []) (hf : ∀ v, f v ≠ d) :
    s.machine.settlement? d =
      Promise.follow (s.machine.settlement? p) fun v => s.machine.settlement? (f v) :=
  Session.Hangs.follow hh h hq fun v _ ho => ho ▸ ⟨hf v, rfl⟩

/-- A handler that answers with values. -/
theorem Session.Hangs.map {a : α → α} (hh : s.Hangs acts p (.map a) d)
    (h : Acts .empty acts s) (hq : s.machine.queue = []) :
    s.machine.settlement? d =
      Promise.follow (s.machine.settlement? p) fun v => some (.fulfilled (a v)) :=
  Session.Hangs.follow hh h hq fun _ _ ho => ho ▸ rfl

/-- A chain of functions is their composition. The induction is on the functions, from the first. -/
theorem Session.Maps.settlement?_eq {fs : List (α → α)} (hm : s.Maps acts p fs d)
    (h : Acts .empty acts s) (hq : s.machine.queue = []) :
    s.machine.settlement? d =
      Promise.follow (s.machine.settlement? p) fun v => some (.fulfilled (composed fs v)) := by
  induction fs generalizing p with
  | nil =>
    obtain rfl : d = p := hm
    exact (follow_pure _).symm
  | cons a fs ih =>
    obtain ⟨q, hh, hrest⟩ := hm
    rw [ih hrest, hh.map h hq, follow_assoc]
    rfl

/-- **Chaining laws.** When the queue is empty, whatever became of `m` and of the promises that
handlers answered with:

- Handlers that return the value or the cause that they get, or none at all, lead to where `m` is.
- On a promise that was fulfilled with `v`, a handler leads to where its answer to `v` is.
- Two handlers one after the other lead to where one handler leads that registers the second on the
  answer of the first.
- Any number of functions mapped one after the other lead to where their composition leads.

For registrations of any form, with a value handler, a handler of causes or both:

- A form that replies with what it gets leads to where `m` is.
- On a settled promise, a form leads to where its reply does.
- Two forms that reply with outcomes, one after the other, lead to where a form leads that replies with
  the outcome of the second for the outcome of the first.

Handlers answer with promises other than the result of their own registration, as all are that were
there before. -/
theorem chaining_laws (h : Acts .empty acts s) (hq : s.machine.queue = []) (m : PromiseId) :
    (∀ d, s.Hangs acts m (.andThen fun v o => o = .ok (.value v)) d → s.EndsAs d m) ∧
    (∀ d, s.Hangs acts m (.orElse fun c o => o = .error c) d → s.EndsAs d m) ∧
    (∀ d, s.Hangs acts m .pass d → s.EndsAs d m) ∧
    (∀ v f d, s.machine.settlement? m = some (.fulfilled v) → (∀ v, f v ≠ d) →
      s.Hangs acts m (.promise f) d → s.EndsAs d (f v)) ∧
    (∀ f g first second d, (∀ v, f v ≠ first) → (∀ v, g v ≠ second) →
      s.Hangs acts m (.promise f) first → s.Hangs acts first (.promise g) second →
      s.Hangs acts m (.andThen fun v o => ∃ e, o = .ok (.promise e) ∧ e ≠ d ∧ (∀ w, g w ≠ e) ∧
        s.Hangs acts (f v) (.promise g) e) d →
      s.EndsAs second d) ∧
    (∀ fs last d, s.Maps acts m fs last → s.Hangs acts m (.map (composed fs)) d →
      s.EndsAs last d) ∧
    (∀ form d, (∀ x, form.reply x = x.outcome) → s.Hangs acts m (.ofForm form) d → s.EndsAs d m) ∧
    (∀ form x d y, s.machine.settlement? m = some x → s.Leads d (form.reply x) y →
      s.Hangs acts m (.ofForm form) d → s.machine.settlement? d = y) ∧
    (∀ f g k (a b : Settlement α ε → Settlement α ε) first second d,
      (∀ x, f.reply x = (a x).outcome) → (∀ x, g.reply x = (b x).outcome) →
      (∀ x, k.reply x = (b (a x)).outcome) →
      s.Hangs acts m (.ofForm f) first → s.Hangs acts first (.ofForm g) second →
      s.Hangs acts m (.ofForm k) d → s.EndsAs second d) := by
  have hsame {d : PromiseId} {rule : Rule α ε} (hh : s.Hangs acts m rule d)
      (hrule : ∀ (x : Settlement α ε) o, Registration.handles rule x.state = true →
        rule.allows x o → s.Leads d o (some x)) : s.EndsAs d m := by
    refine Session.endsAs_of_settlement? ?_
    rw [hh.settlement?_eq h hq (fun _ _ => rfl) hrule]
    rcases s.machine.settlement? m with _ | x <;> rfl
  -- The laws with the same promise on both sides come from `hsame`; the others compare two promises by
  -- what became of the one they hang on.
  refine ⟨fun d hh => hsame hh ?_, fun d hh => hsame hh ?_, fun d hh => hsame hh ?_, ?_, ?_, ?_, ?_,
    ?_, ?_⟩
  · intro x o hyes hallowed
    cases x with
    | fulfilled v => exact hallowed _ rfl ▸ rfl
    | rejected c => cases hyes
  · intro x o hyes hallowed
    cases x with
    | fulfilled v => cases hyes
    | rejected c => exact hallowed _ rfl ▸ rfl
  · intro x o hyes _
    cases x <;> cases hyes
  · intro v f d hv hf hh
    refine Session.endsAs_of_settlement? ?_
    rw [hh.promise h hq hf, hv, follow_fulfilled]
  · intro f g first second d hf hg hfirst hsecond hnested
    -- The nested registration is made only if there is a value, so it is looked at under `follow`.
    refine Session.endsAs_of_settlement? ?_
    have hinner : s.machine.settlement? d = follow (s.machine.settlement? m) fun v =>
        follow (s.machine.settlement? (f v)) fun w => s.machine.settlement? (g w) := by
      refine Session.Hangs.follow hnested h hq ?_
      rintro v o ⟨e, rfl, hne, hge, he⟩
      exact ⟨hne, he.promise h hq hge⟩
    rw [hsecond.promise h hq hg, hfirst.promise h hq hf, follow_assoc, hinner]
  · intro fs last d hmaps hh
    refine Session.endsAs_of_settlement? ?_
    rw [hmaps.settlement?_eq h hq, hh.map h hq]
  · intro form d hform hh
    refine Session.endsAs_of_settlement? ?_
    have houtcome := hh.outcome (a := id) h hq hform
    rwa [Option.map_id] at houtcome
  · intro form x d y hx hy hh
    exact hh.reply h hq hx hy
  · intro f g k a b first second d hf hg hk hfirst hsecond hh
    refine Session.endsAs_of_settlement? ?_
    rw [hsecond.outcome h hq hg, hfirst.outcome h hq hf, Option.map_map, hh.outcome h hq hk]
    rfl

end

/-- Two handlers one after the other, and one inside the other, which waits for the promise that it
makes. -/
theorem chaining_laws_nested :
    let code : Handlers Nat String Unit := ⟨some fun _ => (), none⟩
    let r : Session Nat String (Handlers Nat String Unit) Unit :=
      (((Session.empty.defer.make (some (.fulfilled 5))).make (some (.fulfilled 9))).register 0
        code |>.register 3 code).register 0 code
    let s₁ := (r.via 0 (.ok (.value 7))).turn
    let s₂ := ({ s₁ with calls := [] }.conclude 3 (.ok (.promise 1))).turn
    let u := s₂.register 1 code
    let s₃ := ({ u with calls := [] }.conclude 5 (.ok (.promise 6))).turn
    let s₄ := ({ s₃ with calls := [] }.conclude 4 (.ok (.promise 2))).turn
    let t := ({ s₄ with calls := [] }.conclude 6 (.ok (.promise 2))).turn
    Reachable t ∧ t.machine.queue = [] ∧ t.machine.settlement? 4 = some (.fulfilled 9) ∧
      t.EndsAs 4 5 := by
  intro code r s₁ s₂ u s₃ s₄ t
  let acts₀ : List (Act Nat String) := [.other, .other, .other, .other, .other, .other]
  let acts₁ : List (Act Nat String) :=
    [.said 0 (.ok (.value 7)), .other, .answered 3 (.ok (.promise 1)), .other, .other]
  let acts₂ : List (Act Nat String) :=
    [.answered 5 (.ok (.promise 6)), .other, .answered 4 (.ok (.promise 2)), .other,
      .answered 6 (.ok (.promise 2)), .other]
  have hr : Acts .empty acts₀ r :=
    .tail (.tail (.tail (.tail (.tail (.tail .refl .defer) (.make _)) (.make _))
      (.register (by decide) code)) (.register (by decide) code)) (.register (by decide) code)
  have h₁ : Acts r [.said 0 (.ok (.value 7)), .other] s₁ :=
    (Acts.refl.tail (.said (o := .ok (.value 7)) (by decide +kernel) trivial)).turn
      (by decide +kernel) (by decide +kernel)
  have h₂ : Acts r acts₁ u :=
    ((h₁.tail (.answered (show s₁.calls = [.handler 3] by decide +kernel)
      (by decide +kernel))).turn (by decide +kernel) (by decide +kernel)).tail
        (.register (by decide +kernel) code)
  have h₃ : Acts u [.answered 5 (.ok (.promise 6)), .other] s₃ :=
    (Acts.refl.tail (.answered (show u.calls = [.handler 5] by decide +kernel)
      (by decide +kernel))).turn (by decide +kernel) (by decide +kernel)
  have h₄ : Acts u [.answered 5 (.ok (.promise 6)), .other, .answered 4 (.ok (.promise 2)), .other]
      s₄ :=
    (h₃.tail (.answered (show s₃.calls = [.handler 4] by decide +kernel) (by decide +kernel))).turn
      (by decide +kernel) (by decide +kernel)
  have h₅ : Acts u acts₂ t :=
    (h₄.tail (.answered (show s₄.calls = [.handler 6] by decide +kernel) (by decide +kernel))).turn
      (by decide +kernel) (by decide +kernel)
  have ht : Acts .empty (acts₀ ++ acts₁ ++ acts₂) t := (hr.append h₂).append h₅
  -- What is registered stays so.
  have hlinks : r.registrations = [(0, .handler code 3), (3, .handler code 4),
      (0, .handler code 5)] := rfl
  have houter (p d : PromiseId) (hd : (p, .handler code d) ∈ r.registrations) :
      .handler code d ∈ t.registered p :=
    (Run.keeps (h₂.run.trans h₅.run) hr.run).registered p _ (Session.mem_registered.mpr hd)
  have hinner : .handler code 6 ∈ t.registered 1 := by
    have hsize : s₂.machine.slots.size = 6 := by decide +kernel
    refine (Run.keeps h₅.run (hr.append h₂).run).registered 1 _ ?_
    show _ ∈ (s₂.create.react 1 (.handler code s₂.machine.slots.size)).registered 1
    rw [Session.registered_react, hsize]
    exact List.mem_append_right _ (by simp)
  have hq : t.machine.queue = [] := List.isEmpty_iff.mp (by decide +kernel)
  have hcalls : t.calls = [] := List.isEmpty_iff.mp (by decide +kernel)
  have hnine : t.machine.settlement? 4 = some (.fulfilled 9) := by decide +kernel
  clear_value t
  have hhangs {p d : PromiseId} {answer : Nat → Outcome Nat String → Prop}
      (hd : .handler code d ∈ t.registered p)
      (hanswer : ∀ o v, .answered d o ∈ acts₀ ++ acts₁ ++ acts₂ → answer v o) :
      t.Hangs (acts₀ ++ acts₁ ++ acts₂) p (.andThen answer) d := by
    refine Session.hangs_andThen hd ?_ (by simp [hcalls]) hanswer
    intro x
    cases x <;> rfl
  have hfirst : t.Hangs (acts₀ ++ acts₁ ++ acts₂) 0 (.promise fun _ => 1) 3 :=
    hhangs (houter 0 3 (by simp [hlinks])) fun o _ ho => by simpa [acts₀, acts₁, acts₂] using ho
  have hsecond : t.Hangs (acts₀ ++ acts₁ ++ acts₂) 3 (.promise fun _ => 2) 4 :=
    hhangs (houter 3 4 (by simp [hlinks])) fun o _ ho => by simpa [acts₀, acts₁, acts₂] using ho
  have hmade : t.Hangs (acts₀ ++ acts₁ ++ acts₂) 1 (.promise fun _ => 2) 6 :=
    hhangs hinner fun o _ ho => by simpa [acts₀, acts₁, acts₂] using ho
  obtain ⟨-, -, -, -, hassoc, -⟩ := chaining_laws ht hq 0
  refine ⟨ht.run, hq, hnine, ?_⟩
  refine hassoc (fun _ => 1) (fun _ => 2) 3 4 5 (fun _ => by decide) (fun _ => by decide) hfirst
    hsecond ?_
  refine hhangs (houter 0 5 (by simp [hlinks])) fun o _ ho => ?_
  exact ⟨6, by simpa [acts₀, acts₁, acts₂] using ho, by decide, fun _ => by decide, hmade⟩

end Switchboard.Promise
