import Switchboard.Proofs.Promise.Adoption
import Switchboard.Proofs.Promise.Looks
import Switchboard.Proofs.Promise.Timing

/-!
# Awaits are answered

Whoever waits for a promise registers with it and then comes to look for the outcome: at once, in the
job in which it registered, or in a job that was queued for it, or in any other job, and as often as it
likes. A look that finds the outcome is the answer. So an await could be answered too early, twice, with
something else than what became of its promise, or never, if the outcome and the look miss each other.

None of this happens. That an await is not answered in the job in which it began has its reason in the
promise and not in the await: the outcome of a settled promise, too, comes by a delivery, which is a job
of its own. A look in the first job therefore finds nothing, and leaves word that it was there.

- `Note`: what is seen of awaits. `Tells`, `Notes`: steps and runs with what is seen of them; every run
  is one (`Run.exists_notes`).
- `Notes.began`: whoever began to wait is registered for that.
- `Answering`: what the notes of a run say of its awaits. There is one lemma for each kind of step; the
  two kinds of looks share `Answering.see`, and whatever tells awaits something shares `Answering.hear`.
- `await_answered`: an await is answered once, later, with the outcome of its promise, and it is
  answered if there is one.

## Proof structure

The four things that could go wrong have four reasons, and `Answering` has its fields by them.

- Once: an await that was answered is not answered again by any look, so what it was given (`given`) has
  one element at most.
- With the right outcome: what an await knows was delivered to it (`told`), and whatever is delivered was
  registered on a promise with that outcome, by the account of `Delivery`.
- Later: an await knows an outcome only if a job has started since it began (`ripe`), as the delivery is
  such a job. A look in any job after that is late enough, and one in the job it began in finds nothing.
  So `later` needs no condition on when the waiter looks.
- If there is one: when the queue is empty the reaction has run, so the outcome is there (`heard`), and no
  look is left, so the await rests by `Attentive`. An await that rests with an outcome was answered.

The exception is a loss. Whoever waits for a promise that nothing can settle any more is told so at
once, in whatever job that happens, and this is no outcome of the promise. The notes say who was told,
and all statements about a certain await ask that it is not among these.
-/

namespace Switchboard.Promise

/-- What is seen of awaits. Jobs have the numbers in which they were started, from 1; code that runs
before the first job has the number 0. -/
inductive Note (α ε : Type)
  /-- Someone started to wait for `p`. -/
  | began (a : AwaitId) (p : PromiseId) (job : Nat)
  /-- Someone comes to look for the outcome, now or in a job that is queued for it. -/
  | sought (a : AwaitId)
  | answered (a : AwaitId) (result : Except ε α) (job : Nat)
  /-- The last thing that could have settled what these wait for is gone. -/
  | lost (as : List AwaitId)
  deriving DecidableEq

namespace Note

variable {α ε : Type}

/-- The answer to an await, with its job. -/
def answer? (a : AwaitId) : Note α ε → Option (Except ε α × Nat)
  | .answered a' r n => if a' = a then some (r, n) else none
  | _ => none

def losses : Note α ε → List AwaitId
  | .lost as => as
  | _ => []

end Note

variable {α ε κ τ : Type}

/-- The answers to an await, in order. -/
def answers (a : AwaitId) (notes : List (Note α ε)) : List (Except ε α × Nat) :=
  notes.filterMap (Note.answer? a)

/-- What a look in the job with number `n` shows: it is an answer if it finds an outcome. -/
def Machine.sight (m : Machine α ε κ τ) (a : AwaitId) (n : Nat) : List (Note α ε) :=
  ((m.poll a).1.map fun x => Note.answered a x.result n).toList

/-- What the job `j` with number `n` shows by itself. -/
def Machine.notes (m : Machine α ε κ τ) (j : Job α ε κ τ) (n : Nat) : List (Note α ε) :=
  match j with
  | .poll a => m.sight a n
  | _ => []

section

variable [Cause ε] [Registration κ]

/-- Steps of the program in which nobody starts to wait or looks, and nothing is lost. -/
inductive Quiet : Session α ε κ τ → Session α ε κ τ → Prop
  | make {s} (x : Option (Settlement α ε)) : Quiet s (s.make x)
  | defer {s} : Quiet s s.defer
  | init {s} : Quiet s s.init
  | register {s p} (hp : p < s.machine.slots.size) (code : κ) : Quiet s (s.register p code)
  | via {s} (r : ResolverId) {o : Outcome α ε} (ho : o.Known s.machine) : Quiet s (s.via r o)
  | spawn {s} (t : τ) : Quiet s (s.spawn t)
  | endTask {s cs} (h : s.calls = .task :: cs) : Quiet s { s with calls := cs }
  | endInitializer {s p cs} (h : s.calls = .initializer p :: cs) : Quiet s { s with calls := cs }
  | endHandler {s d cs} (h : s.calls = .handler d :: cs) {o : Outcome α ε}
      (ho : o.Known s.machine) : Quiet s ({ s with calls := cs }.conclude d o)
  | endRead {s p cs} (h : s.calls = .read p :: cs) (found : Except ε (Option α)) :
      Quiet s ({ s with calls := cs }.finishRead p found)
  | endBody {s r cs} (h : s.calls = .body r :: cs) (thrown : Option ε) :
      Quiet s ({ s with calls := cs }.finishBody r thrown)

/-- A step, and what is seen of it. -/
inductive Tells : Session α ε κ τ → List (Note α ε) → Session α ε κ τ → Prop
  | quiet {s t} (h : Quiet s t) : Tells s [] t
  | await {s p} (hp : p < s.machine.slots.size) :
      Tells s [.began s.machine.awaits.size p s.started.length] (s.await p)
  | look {s a} (ha : a < s.machine.awaits.size) :
      Tells s (.sought a :: s.machine.sight a s.started.length) (s.look a)
  | lookLater {s a} (ha : a < s.machine.awaits.size) : Tells s [.sought a] (s.lookLater a)
  | abandon {s} (p : PromiseId) :
      Tells s [.lost (s.machine.waitersOf s.machine.slots.size p)] (s.abandon p)
  | job {s j m} (hs : s.calls = []) (hj : s.machine.next? = some (j, m)) :
      Tells s (m.notes j (s.started.length + 1)) ({ s with machine := m }.start j)

/-- A run, and what is seen of it. -/
inductive Notes : Session α ε κ τ → List (Note α ε) → Session α ε κ τ → Prop
  | refl {s} : Notes s [] s
  | tail {s notes t more u} (h : Notes s notes t) (ht : Tells t more u) :
      Notes s (notes ++ more) u

end

section

variable [Cause ε] [Registration κ] {s t u : Session α ε κ τ} {notes more : List (Note α ε)}

theorem Quiet.step (h : Quiet s t) : Step s t := by
  cases h with
  | make x => exact .make x
  | defer => exact .defer
  | init => exact .init
  | register hp code => exact .register hp code
  | via r ho => exact .via r ho
  | spawn u => exact .spawn u
  | endTask hc => exact .endTask hc
  | endInitializer hc => exact .endInitializer hc
  | endHandler hc ho => exact .endHandler hc ho
  | endRead hc found => exact .endRead hc found
  | endBody hc thrown => exact .endBody hc thrown

theorem Tells.step (h : Tells s notes t) : Step s t := by
  cases h with
  | quiet h => exact h.step
  | await hp => exact .await hp
  | look ha => exact .look ha
  | lookLater ha => exact .lookLater ha
  | abandon p => exact .abandon p
  | job hs hj => exact .job hs hj

theorem Step.tells (h : Step s t) : ∃ notes, Tells s notes t := by
  cases h with
  | make x => exact ⟨_, .quiet (.make x)⟩
  | defer => exact ⟨_, .quiet .defer⟩
  | init => exact ⟨_, .quiet .init⟩
  | register hp code => exact ⟨_, .quiet (.register hp code)⟩
  | await hp => exact ⟨_, .await hp⟩
  | look ha => exact ⟨_, .look ha⟩
  | lookLater ha => exact ⟨_, .lookLater ha⟩
  | via r ho => exact ⟨_, .quiet (.via r ho)⟩
  | spawn u => exact ⟨_, .quiet (.spawn u)⟩
  | abandon p => exact ⟨_, .abandon p⟩
  | endTask hc => exact ⟨_, .quiet (.endTask hc)⟩
  | endInitializer hc => exact ⟨_, .quiet (.endInitializer hc)⟩
  | endHandler hc ho => exact ⟨_, .quiet (.endHandler hc ho)⟩
  | endRead hc found => exact ⟨_, .quiet (.endRead hc found)⟩
  | endBody hc thrown => exact ⟨_, .quiet (.endBody hc thrown)⟩
  | job hs hj => exact ⟨_, .job hs hj⟩

theorem Notes.run (h : Notes s notes t) : Run s t := by
  induction h with
  | refl => exact .refl
  | tail _ ht ih => exact ih.tail ht.step

/-- Of every run something is seen. -/
theorem Run.exists_notes (h : Run s t) : ∃ notes, Notes s notes t := by
  induction h with
  | refl => exact ⟨[], .refl⟩
  | tail _ hstep ih =>
    obtain ⟨notes, hnotes⟩ := ih
    obtain ⟨more, hmore⟩ := hstep.tells
    exact ⟨notes ++ more, hnotes.tail hmore⟩

end

/-! ### What a step leaves as it is

Most steps concern no await at all. The four that do have constructors of their own in `Tells`. -/

section

variable [Cause ε] {s t : Session α ε κ τ} {p q : PromiseId}

open Machine (Spares)

theorem spares_adopt (s : Session α ε κ τ) (p q : PromiseId) :
    s.machine.Spares (s.adopt p q).machine :=
  Session.adopt_cases (P := fun t => s.machine.Spares t.machine)
    (fun _ => Machine.spares_settle ..) (fun _ _ _ => Machine.spares_settle ..)
    fun _ _ => Machine.spares_react ..

theorem spares_conclude (s : Session α ε κ τ) (p : PromiseId) (o : Outcome α ε) :
    s.machine.Spares (s.conclude p o).machine := by
  rcases o with c | (v | q | _)
  · exact Machine.spares_settle ..
  · exact Machine.spares_settle ..
  · exact spares_adopt s p q
  · exact .refl _

theorem spares_via (s : Session α ε κ τ) (r : ResolverId) (o : Outcome α ε) :
    s.machine.Spares (s.via r o).machine := by
  unfold Session.via
  split
  · next p m hm => exact (Machine.spares_use hm).trans (spares_conclude { s with machine := m } p o)
  · exact .refl _

omit [Cause ε] in
theorem spares_finishRead (s : Session α ε κ τ) (p : PromiseId) (found : Except ε (Option α)) :
    s.machine.Spares (s.finishRead p found).machine := by
  rcases found with c | (_ | v)
  · exact Machine.spares_settle ..
  · exact ⟨rfl, rfl⟩
  · exact Machine.spares_settle ..

/-- A quiet step concerns no await and starts no job. -/
theorem Quiet.spares (h : Quiet s t) : s.machine.Spares t.machine ∧ t.started = s.started := by
  cases h with
  | make x =>
    cases x with
    | none => exact ⟨⟨rfl, rfl⟩, rfl⟩
    | some x =>
      exact ⟨(Machine.spares_create _).trans (Machine.spares_settle ..), s.started_make _⟩
  | defer => exact ⟨⟨rfl, rfl⟩, rfl⟩
  | init => exact ⟨⟨rfl, rfl⟩, rfl⟩
  | register hp code =>
    exact ⟨(Machine.spares_create _).trans (Machine.spares_react ..), Session.started_register ..⟩
  | via r ho => exact ⟨spares_via s r _, s.started_via r _⟩
  | spawn u => exact ⟨Machine.spares_enqueue s.machine rfl, rfl⟩
  | endTask hc => exact ⟨.refl _, rfl⟩
  | endInitializer hc => exact ⟨.refl _, rfl⟩
  | @endHandler d cs hc o ho =>
    exact ⟨spares_conclude { s with calls := cs } d o, Session.started_conclude ..⟩
  | @endRead p cs hc found =>
    exact ⟨spares_finishRead { s with calls := cs } p found, Session.started_finishRead ..⟩
  | @endBody r cs hc thrown =>
    cases thrown with
    | none => exact ⟨.refl _, rfl⟩
    | some c => exact ⟨spares_via { s with calls := cs } r _, Session.started_finishBody ..⟩

omit [Cause ε] in
/-- So does a job that is for no await. -/
theorem spares_start [Registration κ] (s : Session α ε κ τ) {j : Job α ε κ τ} (hpoll : j.poll? = none)
    (hwake : ∀ a x, j ≠ .deliver (.wake a) x) : s.machine.Spares (s.start j).machine := by
  match j with
  | .deliver (.handler code d) x =>
    unfold Session.start
    dsimp only
    split
    · exact .refl _
    · exact Machine.spares_settle ..
  | .deliver (.adoption p) x => exact Machine.spares_settle ..
  | .deliver (.wake a) x => exact absurd rfl (hwake a x)
  | .poll a => cases hpoll
  | .task u => exact .refl _

end

/-! ### Nobody is forgotten

`Attentive` along a run, with the notes to say who has come. A look that was queued counts as sought
from the time it was queued. -/

namespace Machine

variable {m : Machine α ε κ τ} {p : PromiseId} {n : Nat}

theorem notes_of_poll?_eq_none {j : Job α ε κ τ} (hj : j.poll? = none) {n : Nat} :
    m.notes j n = [] := by
  cases j with
  | poll a => cases hj
  | deliver r x => rfl
  | task u => rfl

/-- What a look shows is an answer to its own await, if anything. -/
theorem mem_sight {m : Machine α ε κ τ} {a : AwaitId} {k : Nat} {note : Note α ε}
    (h : note ∈ m.sight a k) : ∃ r, note = .answered a r k := by
  obtain ⟨x, -, rfl⟩ := Option.map_eq_some_iff.mp (Option.mem_toList.mp h)
  exact ⟨x.result, rfl⟩

/-- A job by itself shows nothing else. -/
theorem mem_notes {m : Machine α ε κ τ} {j : Job α ε κ τ} {k : Nat} {note : Note α ε}
    (h : note ∈ m.notes j k) : ∃ a r, note = .answered a r k := by
  cases j with
  | poll a => exact ⟨a, mem_sight h⟩
  | deliver r x => cases h
  | task u => cases h

end Machine

section

variable [Cause ε] [Registration κ] {s t : Session α ε κ τ} {notes more : List (Note α ε)}

/-- Each step leaves the looks of all awaits in order. -/
theorem Tells.attentive (ht : Tells s more t)
    (h : s.machine.Attentive fun a => .sought a ∈ notes) :
    t.machine.Attentive fun a => .sought a ∈ notes ++ more := by
  have hsame {more : List (Note α ε)} {m : Machine α ε κ τ} (hmore : ∀ a, .sought a ∉ more)
      (hm : m.Attentive fun a => .sought a ∈ notes) :
      m.Attentive fun a => .sought a ∈ notes ++ more :=
    hm.congr fun a => by simp [hmore a]
  have hcome {a : AwaitId} {k : Nat} {m m' : Machine α ε κ τ}
      (hm : m.Attentive fun b => .sought b ∈ notes ∨ b = a) :
      m.Attentive fun b => .sought b ∈ notes ++ (.sought a :: m'.sight a k) := by
    refine hm.congr fun b => ?_
    have hsight : .sought b ∉ m'.sight a k := fun hb => by
      obtain ⟨r, hr⟩ := Machine.mem_sight hb
      cases hr
    simp [hsight]
  -- Whoever sought is in the notes. A step adds at most the await that looks in it.
  cases ht with
  | quiet hq => exact hsame (by simp) (hq.spares.1.attentive h)
  | await hp => exact hsame (by simp) (h.await _)
  | look ha => exact hcome (h.look ha)
  | lookLater ha => exact (h.lookLater ha).congr fun b => by simp
  | abandon p => exact hsame (by simp) (h.wakes _ _)
  | @job j m hidle hj =>
    refine hsame (fun a ha => ?_) ?_
    · obtain ⟨b, r, hr⟩ := Machine.mem_notes ha
      cases hr
    · match j with
      | .poll a => exact h.poll hj
      | .deliver (.wake a) x => exact ((Machine.spares_next? hj rfl).attentive h).wake a x
      | .deliver (.handler code d) x =>
        exact ((Machine.spares_next? hj rfl).trans
          (spares_start { s with machine := m } rfl (by simp))).attentive h
      | .deliver (.adoption q) x =>
        exact ((Machine.spares_next? hj rfl).trans
          (spares_start { s with machine := m } rfl (by simp))).attentive h
      | .task u =>
        exact ((Machine.spares_next? hj rfl).trans
          (spares_start { s with machine := m } rfl (by simp))).attentive h

theorem Notes.attentive (h : Notes .empty notes s) :
    s.machine.Attentive fun a => .sought a ∈ notes := by
  induction h with
  | refl => exact Machine.attentive_empty.congr fun a => by simp
  | tail _ ht ih => exact ht.attentive ih

end

/-! ### What the notes say

The fields depend on each other through time, so they are one invariant: that an answer is late follows
from the outcome being late, and that from the number of the job in which the await began. -/

/-- What the notes of a run say of the awaits after it. -/
structure Answering (s : Session α ε κ τ) (notes : List (Note α ε)) : Prop where
  given : ∀ a : AwaitId,
    (answers a notes).map Prod.fst = s.machine.awaits[a]?.elim [] Await.given
  /-- An outcome comes from a delivery or from a loss. -/
  told : ∀ (a : AwaitId) w x, s.machine.awaits[a]? = some w → w.outcome = some x →
    (.wake a, x) ∈ s.deliveries ∨ a ∈ notes.flatMap Note.losses
  heard : ∀ a x, (.wake a, x) ∈ s.deliveries →
    ∃ w, s.machine.awaits[a]? = some w ∧ w.outcome.isSome
  begun : ∀ a p n, .began a p n ∈ notes → n ≤ s.started.length
  /-- An outcome that comes by a delivery comes in a later job than the one the await began in. -/
  ripe : ∀ a p n, .began a p n ∈ notes → ∀ w, s.machine.awaits[a]? = some w →
    w.outcome.isSome → a ∈ notes.flatMap Note.losses ∨ n < s.started.length
  later : ∀ a p n, .began a p n ∈ notes → ∀ r ∈ answers a notes,
    a ∈ notes.flatMap Note.losses ∨ n < r.2

section

variable {s t : Session α ε κ τ} {m : Machine α ε κ τ}
  {notes more : List (Note α ε)} {a b : AwaitId} {p : PromiseId} {n : Nat} {x : Settlement α ε}

theorem answers_append (a : AwaitId) (notes more : List (Note α ε)) :
    answers a (notes ++ more) = answers a notes ++ answers a more := List.filterMap_append ..

theorem mem_losses_append_left (h : a ∈ notes.flatMap Note.losses) (more : List (Note α ε)) :
    a ∈ (notes ++ more).flatMap Note.losses := by
  rw [List.flatMap_append]
  exact List.mem_append_left _ h

/-- A look is the answer to its await if it finds an outcome. -/
theorem answers_sight (m : Machine α ε κ τ) (a b : AwaitId) (k : Nat) :
    answers b (m.sight a k) =
      if b = a then ((m.poll a).1.map fun x => (x.result, k)).toList else [] := by
  unfold Machine.sight
  rcases (m.poll a).1 with _ | x
  · simp [answers]
  · by_cases hb : b = a <;> simp [answers, Note.answer?, hb, Ne.symm]

theorem answering_empty : Answering (.empty : Session α ε κ τ) [] where
  given a := by simp [answers, Session.empty, Machine.empty]
  told a w x hw := by simp [Session.empty, Machine.empty] at hw
  heard a x hx := by cases hx
  begun a p n hb := by cases hb
  ripe a p n hb := by cases hb
  later a p n hb := by cases hb

/-- What is told to awaits, whether by deliveries or as a loss, answers none of them yet. -/
theorem Answering.hear {out : AwaitId → Settlement α ε → Prop} (h : Answering s notes)
    (hanswered : ∀ (a : AwaitId) w, s.machine.awaits[a]? = some w → w.answered = true →
      w.outcome.isSome)
    (htold : Machine.Told out s.machine t.machine)
    (hout : ∀ a x, out a x → a ∈ notes.flatMap Note.losses ∨
      (.wake a, x) ∈ t.deliveries ∧ s.started.length < t.started.length)
    (hheard : ∀ a x, (.wake a, x) ∈ t.deliveries → (.wake a, x) ∈ s.deliveries ∨
      ∃ w, t.machine.awaits[a]? = some w ∧ w.outcome.isSome)
    (hdeliveries : s.deliveries ⊆ t.deliveries)
    (hstarted : s.started.length ≤ t.started.length) : Answering t notes where
  given a := by
    rw [h.given a]
    rcases htold a with hsame | ⟨x, -, hx⟩
    · rw [hsame]
    · rw [hx]
      rcases hw : s.machine.awaits[a]? with _ | w
      · rfl
      · exact (Await.given_told (hanswered a w hw) x).symm
  told a w x hw hx := by
    have hold {w : Await α ε} (hw : s.machine.awaits[a]? = some w) (hx : w.outcome = some x) :
        (.wake a, x) ∈ t.deliveries ∨ a ∈ notes.flatMap Note.losses :=
      (h.told a w x hw hx).imp_left fun hd => hdeliveries hd
    rcases htold a with hsame | ⟨y, hy, hmap⟩
    · exact hold (hsame ▸ hw) hx
    · rw [hmap] at hw
      obtain ⟨v, hv, rfl⟩ := Option.map_eq_some_iff.mp hw
      rcases Option.or_eq_some_iff.mp hx with houtcome | ⟨-, hnew⟩
      · exact hold hv houtcome
      · exact (hout a y hy).symm.imp_left fun hd => Option.some.inj hnew ▸ hd.1
  heard a x hx := by
    rcases hheard a x hx with hx | hnew
    · obtain ⟨w, hw, houtcome⟩ := h.heard a x hx
      rcases htold a with hsame | ⟨y, -, hmap⟩
      · exact ⟨w, hsame ▸ hw, houtcome⟩
      · exact ⟨w.told y, by rw [hmap, hw]; rfl, by simp⟩
    · exact hnew
  begun a p n hb := Nat.le_trans (h.begun a p n hb) hstarted
  ripe a p n hb w hw hx := by
    rcases htold a with hsame | ⟨y, hy, -⟩
    · exact (h.ripe a p n hb w (hsame ▸ hw) hx).imp_right fun hn => Nat.lt_of_lt_of_le hn hstarted
    · -- Whoever is told now is told in a job that has just started.
      exact (hout a y hy).imp_right fun hd => Nat.lt_of_le_of_lt (h.begun a p n hb) hd.2
  later := h.later

/-- Notes in which nothing begins and nothing is answered say no more than what is lost. -/
theorem Answering.append (h : Answering s notes) (hbegan : ∀ a p n, .began a p n ∉ more)
    (hanswers : ∀ a, answers a more = []) : Answering s (notes ++ more) where
  given a := by
    rw [answers_append, hanswers, List.append_nil]
    exact h.given a
  told a w x hw hx := (h.told a w x hw hx).imp_right (mem_losses_append_left · more)
  heard := h.heard
  begun a p n hb := h.begun a p n ((List.mem_append.mp hb).resolve_right (hbegan a p n))
  ripe a p n hb w hw hx :=
    (h.ripe a p n ((List.mem_append.mp hb).resolve_right (hbegan a p n)) w hw hx).imp_left
      (mem_losses_append_left · more)
  later a p n hb r hr := by
    rw [answers_append, hanswers, List.append_nil] at hr
    exact (h.later a p n ((List.mem_append.mp hb).resolve_right (hbegan a p n)) r hr).imp_left
      (mem_losses_append_left · more)

/-- A loss by itself tells nobody anything. -/
theorem Answering.lose (h : Answering s notes) (as : List AwaitId) :
    Answering s (notes ++ [.lost as]) := h.append (by simp) fun _ => rfl

/-- Nor does it answer anything that someone comes to look. -/
theorem Answering.seek (h : Answering s notes) (a : AwaitId) :
    Answering s (notes ++ [.sought a]) := h.append (by simp) fun _ => rfl

/-- Someone looks for the outcome of the await `a`, in the job that is running after it. This is the one
place where an await is answered. It is not too early: the outcome has come, so the job in which it came
has started, which is a later one than that in which the await began. -/
theorem Answering.see (h : Answering s notes)
    (hanswered : ∀ (a : AwaitId) w, s.machine.awaits[a]? = some w → w.answered = true →
      w.outcome.isSome)
    (hm : m.awaits = s.machine.awaits) (ht : t.machine.awaits = (m.poll a).2.awaits)
    (hdeliveries : t.deliveries = s.deliveries) (hstarted : s.started.length ≤ t.started.length) :
    Answering t (notes ++ m.sight a t.started.length) := by
  have hlook : (m.poll a).1 = s.machine.awaits[a]?.bind Await.found := by
    rw [Machine.fst_poll, hm]
  have hnew (b : AwaitId) : t.machine.awaits[b]? =
      if b = a then s.machine.awaits[a]?.map Await.looked else s.machine.awaits[b]? := by
    rw [ht, Machine.getElem?_poll, hm]
  have hold {b : AwaitId} {w : Await α ε} (hw : t.machine.awaits[b]? = some w) :
      ∃ v, s.machine.awaits[b]? = some v ∧ v.outcome = w.outcome := by
    rw [hnew] at hw
    split_ifs at hw with hb
    · obtain ⟨v, hv, rfl⟩ := Option.map_eq_some_iff.mp hw
      exact ⟨v, hb ▸ hv, (Await.outcome_looked v).symm⟩
    · exact ⟨w, hw, rfl⟩
  have hbegan {b : AwaitId} {p : PromiseId} {n : Nat}
      (hb : .began b p n ∈ notes ++ m.sight a t.started.length) : .began b p n ∈ notes := by
    refine (List.mem_append.mp hb).resolve_right fun hb => ?_
    obtain ⟨r, hr⟩ := Machine.mem_sight hb
    cases hr
  -- Only the await `a` has changed, and its outcome is the same as before the look.
  refine ⟨fun b => ?_, fun b w x hw hx => ?_, fun b x hx => ?_, fun b p n hb => ?_,
    fun b p n hb w hw hx => ?_, fun b p n hb r hr => ?_⟩
  · rw [answers_append, List.map_append, h.given b, hnew, answers_sight, hlook]
    split_ifs with hb
    · subst hb
      rcases hw : s.machine.awaits[b]? with _ | w
      · rfl
      · rw [Option.map_some, Option.elim_some, Option.elim_some, Option.bind_some,
          Await.given_looked (hanswered b w hw)]
        rcases w.found with _ | x <;> rfl
    · exact List.append_nil _
  · obtain ⟨v, hv, houtcome⟩ := hold hw
    rw [hdeliveries]
    exact (h.told b v x hv (houtcome.trans hx)).imp_right (mem_losses_append_left · _)
  · obtain ⟨w, hw, houtcome⟩ := h.heard b x (hdeliveries ▸ hx)
    by_cases hb : b = a
    · subst hb
      exact ⟨w.looked, by rw [hnew, if_pos rfl, hw]; rfl, by rwa [Await.outcome_looked]⟩
    · exact ⟨w, by rw [hnew, if_neg hb, hw], houtcome⟩
  · exact Nat.le_trans (h.begun b p n (hbegan hb)) hstarted
  · obtain ⟨v, hv, houtcome⟩ := hold hw
    rw [← houtcome] at hx
    exact (h.ripe b p n (hbegan hb) v hv hx).imp (mem_losses_append_left · _)
      fun hn => Nat.lt_of_lt_of_le hn hstarted
  · rw [answers_append, List.mem_append, answers_sight, hlook] at hr
    rcases hr with hr | hr
    · exact (h.later b p n (hbegan hb) r hr).imp_left (mem_losses_append_left · _)
    · split_ifs at hr with hsame
      · subst hsame
        obtain ⟨x, hx, rfl⟩ := Option.map_eq_some_iff.mp (Option.mem_toList.mp hr)
        obtain ⟨w, hw, hfound⟩ := Option.bind_eq_some_iff.mp hx
        have houtcome : w.outcome.isSome := by
          unfold Await.found at hfound
          split at hfound
          · cases hfound
          · rw [hfound]
            rfl
        exact (h.ripe b p n (hbegan hb) w hw houtcome).imp (mem_losses_append_left · _)
          fun hn => Nat.lt_of_lt_of_le hn hstarted
      · cases hr

variable [Cause ε] [Registration κ]

omit [Cause ε] in
theorem Session.deliveries_start (s : Session α ε κ τ) (j : Job α ε κ τ) :
    (s.start j).deliveries = s.deliveries ++ j.delivery?.toList := by
  rw [Session.deliveries_eq, Session.started_start, List.filterMap_append, ← Session.deliveries_eq,
    List.filterMap_cons]
  rcases j.delivery? with _ | d <;> rfl

/-- Whoever began to wait is registered for that. -/
theorem Notes.began (h : Notes .empty notes s) (hb : .began a p n ∈ notes) :
    .wake a ∈ s.registered p := by
  induction h with
  | refl => cases hb
  | tail hnotes ht ih =>
    rcases List.mem_append.mp hb with hb | hb
    · have hstep : Run _ _ := .single ht.step
      exact (hstep.keeps hnotes.run).registered p _ (ih hb)
    · cases ht with
      | quiet hq => cases hb
      | await hq =>
        obtain ⟨rfl, rfl, rfl⟩ : a = _ ∧ p = _ ∧ n = _ := by simpa using hb
        refine Session.mem_registered.mpr ?_
        exact List.mem_filterMap.mpr
          ⟨.registered p (.wake _), List.mem_append_right _ (List.mem_singleton_self _), rfl⟩
      | look ha =>
        obtain ⟨r, hr⟩ := Machine.mem_sight (List.mem_of_ne_of_mem (by simp) hb)
        cases hr
      | lookLater ha => simp at hb
      | abandon q => simp at hb
      | job hidle hj =>
        obtain ⟨b, r, hr⟩ := Machine.mem_notes hb
        cases hr

omit [Registration κ] in
theorem Answering.quiet (h : Answering s notes)
    (hanswered : ∀ (a : AwaitId) w, s.machine.awaits[a]? = some w → w.answered = true →
      w.outcome.isSome) (hq : Quiet s t) : Answering t notes := by
  obtain ⟨hspares, hstarted⟩ := hq.spares
  have hdeliveries : t.deliveries = s.deliveries := by
    rw [Session.deliveries_eq, hstarted, ← Session.deliveries_eq]
  exact h.hear hanswered hspares.told (fun a x hout => hout.elim)
    (fun a x hx => .inl (hdeliveries ▸ hx)) (fun d hd => hdeliveries ▸ hd)
    (Nat.le_of_eq (congrArg _ hstarted.symm))

omit [Cause ε] [Registration κ] in
theorem Answering.await (h : Answering s notes) (p : PromiseId) :
    Answering (s.await p) (notes ++ [.began s.machine.awaits.size p s.started.length]) := by
  have hnew (a : AwaitId) : (s.await p).machine.awaits[a]? =
      if a = s.machine.awaits.size then some ⟨none, false, false⟩ else s.machine.awaits[a]? :=
    Machine.getElem?_await s.machine p a
  have hunknown : s.machine.awaits[s.machine.awaits.size]? = none :=
    Array.getElem?_eq_none (Nat.le_refl _)
  have hold {a : AwaitId} {w : Await α ε} (hw : (s.await p).machine.awaits[a]? = some w)
      (hx : w.outcome.isSome) : a ≠ s.machine.awaits.size ∧ s.machine.awaits[a]? = some w := by
    rw [hnew] at hw
    split_ifs at hw with ha
    · obtain rfl := Option.some.inj hw
      cases hx
    · exact ⟨ha, hw⟩
  have hdeliveries : (s.await p).deliveries = s.deliveries := by
    rw [Session.deliveries_eq, Session.started_await, ← Session.deliveries_eq]
  have hstarted : (s.await p).started.length = s.started.length :=
    congrArg _ (Session.started_await s p)
  have hanswers (a : AwaitId) :
      answers a (notes ++ [.began s.machine.awaits.size p s.started.length]) = answers a notes := by
    rw [answers_append]
    exact List.append_nil _
  have hnone : answers s.machine.awaits.size notes = [] := by
    have hgiven := h.given s.machine.awaits.size
    rw [hunknown] at hgiven
    exact List.map_eq_nil_iff.mp hgiven
  -- The new await knows nothing and was not answered; of the others nothing has changed.
  refine ⟨fun a => ?_, fun a w x hw hx => ?_, fun a x hx => ?_, fun a q n hb => ?_,
    fun a q n hb w hw hx => ?_, fun a q n hb r hr => ?_⟩
  · rw [hanswers, hnew]
    split_ifs with ha
    · rw [ha, hnone]
      rfl
    · exact h.given a
  · obtain ⟨-, hw⟩ := hold hw (Option.isSome_of_eq_some hx)
    rw [hdeliveries]
    exact (h.told a w x hw hx).imp_right (mem_losses_append_left · _)
  · obtain ⟨w, hw, houtcome⟩ := h.heard a x (hdeliveries ▸ hx)
    refine ⟨w, ?_, houtcome⟩
    rw [hnew, if_neg, hw]
    rintro rfl
    rw [hunknown] at hw
    cases hw
  · rw [hstarted]
    rcases List.mem_append.mp hb with hb | hb
    · exact h.begun a q n hb
    · obtain ⟨-, -, rfl⟩ : a = _ ∧ q = _ ∧ n = _ := by simpa using hb
      exact Nat.le_refl _
  · obtain ⟨hne, hw⟩ := hold hw hx
    rw [hstarted]
    rcases List.mem_append.mp hb with hb | hb
    · exact (h.ripe a q n hb w hw hx).imp_left (mem_losses_append_left · _)
    · obtain ⟨rfl, -⟩ : a = _ ∧ _ := by simpa using hb
      exact absurd rfl hne
  · rw [hanswers] at hr
    rcases List.mem_append.mp hb with hb | hb
    · exact (h.later a q n hb r hr).imp_left (mem_losses_append_left · _)
    · obtain ⟨rfl, -⟩ : a = _ ∧ _ := by simpa using hb
      rw [hnone] at hr
      cases hr

omit [Registration κ] in
/-- Whoever waits for what is lost is told so, and at once. -/
theorem Answering.abandon (h : Answering s notes)
    (hanswered : ∀ (a : AwaitId) w, s.machine.awaits[a]? = some w → w.answered = true →
      w.outcome.isSome) (p : PromiseId) :
    Answering (s.abandon p) (notes ++ [.lost (s.machine.waitersOf s.machine.slots.size p)]) := by
  have htold := (Machine.Told.refl (fun a _ => a ∈ s.machine.waitersOf s.machine.slots.size p)
    s.machine).wakes (x := .rejected (Cause.ofFault .abandoned)) fun _ ha => ha
  refine (h.lose _).hear hanswered htold (fun a x ha => .inl ?_) (fun a x hx => .inl hx)
    (List.Subset.refl _) (Nat.le_refl _)
  rw [List.flatMap_append]
  exact List.mem_append_right _ (by simpa [Note.losses] using ha)

/-- The host tells an await the outcome of its promise. -/
theorem Answering.wake (h : Answering s notes)
    (hanswered : ∀ (a : AwaitId) w, s.machine.awaits[a]? = some w → w.answered = true →
      w.outcome.isSome) (hs : Reachable s)
    (hj : s.machine.next? = some (.deliver (.wake a) x, m)) :
    Answering ({ s with machine := m }.start (.deliver (.wake a) x)) notes := by
  have hspares : s.machine.Spares m := Machine.spares_next? hj rfl
  have hdeliveries : ({ s with machine := m }.start (.deliver (.wake a) x)).deliveries =
      s.deliveries ++ [(.wake a, x)] := Session.deliveries_start _ _
  have hstarted : s.started.length <
      ({ s with machine := m }.start (.deliver (.wake a) x)).started.length := by
    rw [Session.started_start, List.length_append]
    exact Nat.lt_succ_self _
  obtain ⟨w, hw⟩ : ∃ w, m.awaits[a]? = some w := by
    obtain ⟨q, hq, -⟩ := hs.source (List.mem_append_right _ (Machine.mem_due_of_next? hj))
    have hknown : a < s.machine.awaits.size :=
      hs.fresh.wake a (List.mem_map.mpr ⟨(q, _), Session.mem_registered.mp hq, rfl⟩)
    exact ⟨_, Array.getElem?_eq_getElem (hspares.awaits ▸ hknown)⟩
  -- The outcome is told to this await only, in a job that has just started.
  have htold : Machine.Told (fun b y => b = a ∧ y = x) s.machine (m.wake a x) :=
    Machine.Told.wake (fun b => .inl (by rw [hspares.awaits])) ⟨rfl, rfl⟩
  refine h.hear hanswered htold ?_ ?_ ?_ (Nat.le_of_lt hstarted)
  · rintro b y ⟨rfl, rfl⟩
    rw [hdeliveries]
    exact .inr ⟨List.mem_append_right _ (List.mem_singleton_self _), hstarted⟩
  · intro b y hb
    rw [hdeliveries] at hb
    rcases List.mem_append.mp hb with hb | hb
    · exact .inl hb
    · obtain ⟨rfl, rfl⟩ : b = a ∧ y = x := by simpa using hb
      refine .inr ⟨w.told y, ?_, by simp⟩
      exact (Machine.getElem?_wake m b b y).trans (by rw [if_pos rfl, hw]; rfl)
  · rw [hdeliveries]
    exact List.subset_append_left _ _

omit [Cause ε] in
/-- Any job that is neither a look nor a wake concerns no await. -/
theorem Answering.other (h : Answering s notes)
    (hanswered : ∀ (a : AwaitId) w, s.machine.awaits[a]? = some w → w.answered = true →
      w.outcome.isSome) {j : Job α ε κ τ}
    (hj : s.machine.next? = some (j, m)) (hpoll : j.poll? = none)
    (hwake : ∀ a x, j ≠ .deliver (.wake a) x) :
    Answering ({ s with machine := m }.start j) notes := by
  have hspares : s.machine.Spares ({ s with machine := m }.start j).machine :=
    (Machine.spares_next? hj hpoll).trans (spares_start { s with machine := m } hpoll hwake)
  have hdeliveries : ({ s with machine := m }.start j).deliveries =
      s.deliveries ++ j.delivery?.toList := Session.deliveries_start _ _
  refine h.hear hanswered hspares.told (fun a x hout => hout.elim) (fun a x hx => .inl ?_) ?_ ?_
  · rw [hdeliveries] at hx
    refine (List.mem_append.mp hx).resolve_right fun hx => ?_
    match j with
    | .deliver r y =>
      obtain ⟨rfl, rfl⟩ : .wake a = r ∧ x = y := by simpa [Job.delivery?] using hx
      exact hwake a x rfl
    | .poll b => cases hx
    | .task u => cases hx
  · rw [hdeliveries]
    exact List.subset_append_left _ _
  · rw [Session.started_start, List.length_append]
    exact Nat.le_add_right _ _

/-- One lemma for each kind of step. -/
theorem Tells.answering (ht : Tells s more t) (hnotes : Notes .empty notes s)
    (h : Answering s notes) : Answering t (notes ++ more) := by
  have hanswered := hnotes.attentive.outcome
  cases ht with
  | quiet hq =>
    rw [List.append_nil]
    exact h.quiet hanswered hq
  | await hp => exact h.await _
  | @look a ha =>
    -- The job that is running may be the one in which the await began.
    have hsee := (h.seek a).see (t := s.look a) hanswered rfl rfl rfl (Nat.le_refl _)
    rwa [List.append_assoc] at hsee
  | lookLater ha =>
    exact (h.seek _).hear hanswered (Machine.Told.refl (fun _ _ => False) _)
      (fun a x hout => hout.elim) (fun a x hx => .inl hx) (List.Subset.refl _) (Nat.le_refl _)
  | abandon p => exact h.abandon hanswered p
  | @job j m hidle hj =>
    match j with
    | .poll a =>
      obtain ⟨-, -, -, hawaits⟩ := Machine.next?_eq_some hj
      have hstarted : ({ s with machine := m }.start (.poll a)).started.length =
          s.started.length + 1 := by
        rw [Session.started_start, List.length_append]
        rfl
      have hdeliveries : ({ s with machine := m }.start (.poll a)).deliveries = s.deliveries :=
        (Session.deliveries_start _ _).trans (List.append_nil _)
      rw [← hstarted]
      exact h.see hanswered hawaits rfl hdeliveries (hstarted ▸ Nat.le_succ _)
    | .deliver (.wake a) x =>
      rw [Machine.notes_of_poll?_eq_none rfl, List.append_nil]
      exact h.wake hanswered hnotes.run hj
    | .deliver (.handler code d) x =>
      rw [Machine.notes_of_poll?_eq_none rfl, List.append_nil]
      exact h.other hanswered hj rfl (by simp)
    | .deliver (.adoption q) x =>
      rw [Machine.notes_of_poll?_eq_none rfl, List.append_nil]
      exact h.other hanswered hj rfl (by simp)
    | .task u =>
      rw [Machine.notes_of_poll?_eq_none rfl, List.append_nil]
      exact h.other hanswered hj rfl (by simp)

theorem Notes.answering (h : Notes .empty notes s) : Answering s notes := by
  induction h with
  | refl => exact answering_empty
  | tail hnotes ht ih => exact ht.answering hnotes ih

/-- **No await misses its outcome.** An await of `p` is answered at most once. As long as nothing that
it waits for is lost, it is answered with the outcome of `p` only, and in a later job than the one in
which it began, also if `p` was settled by then and the waiter looked at once. When the queue is empty,
it has been answered exactly if `p` has an outcome and someone came to look for it. This holds whether
`p` had its outcome when the await began or not, and however many awaits it has. -/
theorem await_answered (h : Notes .empty notes s) (hb : .began a p n ∈ notes) :
    (answers a notes).length ≤ 1 ∧
    (a ∉ notes.flatMap Note.losses →
      (∀ r ∈ answers a notes,
        n < r.2 ∧ ∃ x, s.machine.settlement? p = some x ∧ r.1 = x.result) ∧
      (s.machine.queue = [] →
        (answers a notes ≠ [] ↔
          .sought a ∈ notes ∧ ∃ x, s.machine.settlement? p = some x))) := by
  have hall := h.answering
  have hlooks := h.attentive
  have hs : Reachable s := h.run
  have hp := h.began hb
  have ha : a < s.machine.awaits.size :=
    hs.fresh.wake a (List.mem_map.mpr ⟨(p, _), Session.mem_registered.mp hp, rfl⟩)
  obtain ⟨w, hw⟩ : ∃ w, s.machine.awaits[a]? = some w := ⟨_, Array.getElem?_eq_getElem ha⟩
  have hgiven : (answers a notes).map Prod.fst = w.given := by rw [hall.given a, hw]; rfl
  refine ⟨?_, fun hkept => ?_⟩
  · have hlength := w.length_given_le
    rwa [← hgiven, List.length_map] at hlength
  have hanswers : ∀ r ∈ answers a notes, ∃ x, s.machine.settlement? p = some x ∧ r.1 = x.result := by
    intro r hr
    obtain ⟨x, hx, hresult⟩ := Await.mem_given (hgiven ▸ List.mem_map_of_mem hr)
    have hdelivered := (hall.told a w x hw hx).resolve_right hkept
    obtain ⟨q, hq, hsettled⟩ := hs.source (List.mem_append_left _ hdelivered)
    obtain ⟨rfl, -⟩ := hs.eq_of_purpose hp hq rfl
    exact ⟨x, hsettled, hresult⟩
  refine ⟨fun r hr => ⟨(hall.later a p n hb r hr).resolve_left hkept, hanswers r hr⟩,
    fun hqueue => ⟨fun hne => ?_, ?_⟩⟩
  · obtain ⟨r, hr⟩ := List.exists_mem_of_ne_nil _ hne
    obtain ⟨x, hx, -⟩ := hanswers r hr
    have hanswered : w.answered = true := by
      have hmem : r.1 ∈ w.given := hgiven ▸ List.mem_map_of_mem hr
      unfold Await.given at hmem
      split at hmem
      · assumption
      · cases hmem
    exact ⟨hlooks.seen a w hw (.inr hanswered), x, hx⟩
  · rintro ⟨hsought, x, hx⟩ hnil
    have hran : (.wake a, x) ∈ s.delivered p := by
      rw [hs.delivered_of_settled hqueue hx]
      exact List.mem_map_of_mem hp
    obtain ⟨v, hv, houtcome⟩ := hall.heard a x (List.mem_of_mem_filter hran)
    obtain rfl := Option.some.inj (hw.symm.trans hv)
    -- The queue is empty, so no look is ahead of it: it rests. It does not wait to be told, so it has
    -- been answered.
    have hrests : w.rests = true := by
      by_contra hrests
      have hmem := hlooks.looks a w hsought hw (Bool.eq_false_iff.mpr hrests)
      rw [Machine.polls, hqueue] at hmem
      cases hmem
    have hempty : w.given = [] := hgiven ▸ congrArg _ hnil
    rcases w with ⟨_ | y, polled, _ | _⟩
    · cases houtcome
    · cases houtcome
    · simp [Await.rests, Await.waits] at hrests
    · simp [Await.given] at hempty

/-- What is seen of the next job. -/
def Session.sights (s : Session α ε κ τ) : List (Note α ε) :=
  match s.machine.next? with
  | some (j, m) => m.notes j (s.started.length + 1)
  | none => []

theorem Notes.turn (h : Notes s notes t) (ht : t.calls = []) :
    Notes s (notes ++ t.sights) t.turn := by
  unfold Session.sights Session.turn
  rcases hj : t.machine.next? with _ | ⟨j, m⟩
  · rw [List.append_nil]
    exact h
  · exact h.tail (.job ht hj)

end

/-- All in the first job, one await begins and looks before the promise is settled, one begins and looks
afterwards, and one leaves its look to a job. The last one is answered first. -/
theorem await_answered_early_and_late :
    ∃ (notes : List (Note Nat String)) (s : Session Nat String (Handlers Nat String Unit) Unit),
      Notes .empty notes s ∧ s.machine.queue = [] ∧
      [.began 0 0 0, .sought 0, .began 1 0 0, .sought 1, .began 2 0 0, .sought 2] ⊆ notes ∧
      answers 0 notes = [(.ok 7, 5)] ∧ answers 1 notes = [(.ok 7, 6)] ∧
      answers 2 notes = [(.ok 7, 4)] ∧
      (answers 0 notes).length ≤ 1 ∧ 1 ∉ notes.flatMap Note.losses ∧
      (∀ r ∈ answers 1 notes,
        0 < r.2 ∧ ∃ x, s.machine.settlement? 0 = some x ∧ r.1 = x.result) ∧
      (answers 1 notes ≠ [] ↔ .sought 1 ∈ notes ∧ ∃ x, s.machine.settlement? 0 = some x) := by
  let s₀ : Session Nat String (Handlers Nat String Unit) Unit := (Session.empty.defer.await 0).look 0
  let s₁ := ((s₀.via 0 (.ok (.value 7))).await 0).look 1
  let s₂ := (s₁.await 0).lookLater 2
  let t := s₂.turn.turn.turn.turn.turn.turn
  have h₀ : Notes .empty _ s₀ :=
    (Notes.refl.tail (.quiet .defer)).tail (.await (p := 0) (by decide)) |>.tail
      (.look (a := 0) (by decide))
  have h₁ : Notes .empty _ s₁ :=
    ((h₀.tail (.quiet (.via 0 (o := .ok (.value 7)) trivial))).tail
      (.await (p := 0) (by decide +kernel))).tail (.look (a := 1) (by decide +kernel))
  have h₂ : Notes .empty _ s₂ :=
    (h₁.tail (.await (p := 0) (by decide +kernel))).tail (.lookLater (a := 2) (by decide +kernel))
  have ht : Notes .empty _ t :=
    (((((h₂.turn rfl).turn (by decide +kernel)).turn (by decide +kernel)).turn
      (by decide +kernel)).turn (by decide +kernel)).turn (by decide +kernel)
  have hqueue : t.machine.queue = [] := List.isEmpty_iff.mp (by decide +kernel)
  have hearly := await_answered ht (a := 0) (p := 0) (n := 0) (by decide +kernel)
  obtain ⟨-, hlate⟩ := await_answered ht (a := 1) (p := 0) (n := 0) (by decide +kernel)
  obtain ⟨hlater, hdone⟩ := hlate (by decide +kernel)
  exact ⟨_, t, ht, hqueue, by decide +kernel, by decide +kernel, by decide +kernel,
    by decide +kernel, hearly.1, by decide +kernel, hlater, hdone hqueue⟩

end Switchboard.Promise
