import Switchboard.Proofs.Promise.Delivery

/-!
# Adoption is faithful

A promise that adopts a settled one copies its outcome; one that adopts a pending one leaves its
right there, as a reaction, and nothing else can settle it from then on. `Adoptions s` says what
follows for any two promises of which one adopted the other, at any time:

- once the first is settled, both have the same outcome (`copied`);
- until then the first waits on the second (`waiting`);
- the second was settled before the first (`later`), so no promise of a cycle can be the first to
  settle.

`adoption_faithful` adds that no reaction waits on a settled promise when the queue is empty.

## Why the order of settlements is part of it

That the promises of a cycle stay pending cannot be seen at one adoption. Each of them waits on the
next, and `copied` and `waiting` would both allow them to be settled alike. What excludes it is time: of
two promises in a row the adopted one has its outcome first, and around a cycle nobody is first. `later`
counts by the places in the log where outcomes were put, which is the only clock there is.

A promise adopts itself in one step and is rejected at once, so it is no cycle in this sense: `Follows`
leaves the case out, and `self` is about it alone.

Between the settlement of the second promise and that of the first a job lies. There `copied` and
`waiting` say nothing about their outcomes being equal, and `follows_cases` names this third state; an
empty queue is what rules it out.
-/

namespace Switchboard.Promise

variable {α ε κ τ : Type}

namespace Session

/-- `p` adopted another promise, `q`. -/
def Follows (s : Session α ε κ τ) (p q : PromiseId) : Prop := s.Adopted p q ∧ p ≠ q

/-- The promises that outcomes were put to, in order. -/
def settlers (s : Session α ε κ τ) : List PromiseId := s.settlements.map (·.1)

theorem settlers_settle (s : Session α ε κ τ) (p : PromiseId) (x : Settlement α ε) :
    (s.settle p x).settlers = s.settlers ++ [p] := by
  rw [settlers, settlements_settle, List.map_append]
  rfl

@[simp] theorem settlers_react (s : Session α ε κ τ) (p : PromiseId) (r : Reaction κ) :
    (s.react p r).settlers = s.settlers := by
  rw [settlers, settlements_react, settlers]

/-- What the resolution procedure writes down about adoption: that its input was a promise. -/
theorem adopted_conclude [Cause ε] (s : Session α ε κ τ) (p : PromiseId) (o : Outcome α ε)
    (a b : PromiseId) :
    (s.conclude p o).Adopted a b ↔ s.Adopted a b ∨ a = p ∧ o = .ok (.promise b) := by
  rcases o with c | (v | q | _)
  · simp [conclude]
  · simp [conclude]
  · have hrec : (s.record (.adopted p q)).Adopted a b ↔ s.Adopted a b ∨ p = a ∧ q = b := by
      simp
    have hgoal : (s.adopt p q).Adopted a b ↔ s.Adopted a b ∨ p = a ∧ q = b :=
      adopt_cases (P := fun t => t.Adopted a b ↔ _) (fun _ => (adopted_settle ..).trans hrec)
        (fun _ _ _ => (adopted_settle ..).trans hrec) fun _ _ => (adopted_react ..).trans hrec
    simpa [conclude, eq_comm] using hgoal
  · simp [conclude, call, Adopted, adoptions]

end Session

variable {hand hand' : List PromiseId} {s s' t : Session α ε κ τ} {m : Machine α ε κ τ}
  {p q : PromiseId} {x : Settlement α ε}

/-- The promises that outcomes were put to are the settled ones. -/
theorem Sound.mem_settlers (h : Sound hand s) :
    p ∈ s.settlers ↔ ∃ x, s.machine.settlement? p = some x := by
  have hout := h.outcomes p
  have hmem : p ∈ s.settlers ↔ ∃ x, x ∈ s.outcomes p := by
    simp [Session.settlers, Session.outcomes]
  rw [hmem, hout]
  cases s.machine.settlement? p <;> simp

structure Adoptions [Cause ε] (s : Session α ε κ τ) : Prop where
  self : ∀ p, s.Adopted p p →
    s.machine.settlement? p = some (.rejected (Cause.ofFault .selfResolution))
  copied : ∀ p q x, s.Follows p q → s.machine.settlement? p = some x →
    s.machine.settlement? q = some x
  waiting : ∀ p q, s.Follows p q → s.machine.settlement? p = none →
    .adoption p ∈ s.registered q
  /-- An outcome that was delivered to an adoption was taken over. -/
  followed : ∀ p x, (.adoption p, x) ∈ s.deliveries → s.machine.settlement? p = some x
  later : ∀ p q, s.Follows p q → p ∈ s.settlers → s.settlers.idxOf q < s.settlers.idxOf p

/-! ### What keeps adoptions faithful

Two transfers make a promise adopt or settle, and the others leave all five facts alone
(`Adoptions.same`). All outcomes go through `Adoptions.settle`, whose hypotheses say what may have
happened just before: the promise adopted, or the outcome of its adopted promise was delivered. -/

section Steps

variable [Cause ε]

theorem adoptions_empty : Adoptions (.empty : Session α ε κ τ) where
  self p hp := by cases hp
  copied p q x hpq := by cases hpq.1
  waiting p q hpq := by cases hpq.1
  followed p x hx := by cases hx
  later p q hpq := by cases hpq.1

/-- What neither settles nor adopts nor delivers to an adoption changes nothing. -/
theorem Adoptions.same (h : Adoptions s) (hadopted : ∀ p q, s'.Adopted p q → s.Adopted p q)
    (hset : ∀ p, s'.machine.settlement? p = s.machine.settlement? p)
    (hreg : ∀ p r, r ∈ s.registered p → r ∈ s'.registered p)
    (hdel : ∀ p x, (.adoption p, x) ∈ s'.deliveries → (.adoption p, x) ∈ s.deliveries)
    (hsettlers : s'.settlers = s.settlers) : Adoptions s' := by
  have hfollows : ∀ p q, s'.Follows p q → s.Follows p q := fun p q hpq =>
    ⟨hadopted p q hpq.1, hpq.2⟩
  constructor
  · intro p hp
    rw [hset, h.self p (hadopted p p hp)]
  · intro p q x hpq hx
    rw [hset] at hx ⊢
    exact h.copied p q x (hfollows p q hpq) hx
  · intro p q hpq hp
    rw [hset] at hp
    exact hreg q _ (h.waiting p q (hfollows p q hpq) hp)
  · intro p x hx
    rw [hset]
    exact h.followed p x (hdel p x hx)
  · intro p q hpq hp
    rw [hsettlers] at hp ⊢
    exact h.later p q (hfollows p q hpq) hp

/-- A promise whose right is in hand has adopted none. -/
theorem Adoptions.not_adopted (h : Adoptions s) (hs : Sound (p :: hand) s) (hf : Fresh s) :
    ¬ s.Adopted p q := by
  intro hpq
  have hnone := hs.settlement?_eq_none
  rcases eq_or_ne p q with rfl | hne
  · have hself := h.self p hpq
    rw [hnone] at hself
    cases hself
  · -- Its right would be in the reaction that waits on `q`, and not in hand.
    have hwaits := h.waiting p q ⟨hpq, hne⟩ hnone
    refine hf.adoption_notMem hs (List.mem_map.mpr ⟨(q, .adoption p), ?_, rfl⟩)
    exact Session.mem_registered.mp hwaits

/-- What is put last comes after all that was there, and the others keep their places. -/
theorem idxOf_lt_concat {β : Type} [DecidableEq β] {l : List β} {a b c : β} (hc : c ∉ l)
    (hlast : a = c → b ∈ l) (hbefore : a ≠ c → a ∈ l → l.idxOf b < l.idxOf a)
    (ha : a ∈ l ++ [c]) : (l ++ [c]).idxOf b < (l ++ [c]).idxOf a := by
  by_cases hac : a = c
  · subst hac
    have hb : b ∈ l := hlast rfl
    rw [List.idxOf_append_of_mem hb, List.idxOf_append_of_notMem hc]
    exact Nat.lt_of_lt_of_le (List.idxOf_lt_length_of_mem hb) (Nat.le_add_right _ _)
  · have ha : a ∈ l := by simpa [hac] using ha
    have hlt := hbefore hac ha
    have hb : b ∈ l :=
      List.idxOf_lt_length_iff.mp (Nat.lt_trans hlt (List.idxOf_lt_length_of_mem ha))
    rwa [List.idxOf_append_of_mem hb, List.idxOf_append_of_mem ha]

/-- An outcome is put to `p`, which may have adopted the promise that the outcome comes from. -/
theorem Adoptions.settle (h : Adoptions s) (ht : Sound (p :: hand) t)
    (hadopted : ∀ a b, t.Adopted a b → s.Adopted a b ∨ a = p)
    (hself : t.Adopted p p → x = .rejected (Cause.ofFault .selfResolution))
    (hfollows : ∀ q, t.Follows p q → s.machine.settlement? q = some x)
    (hset : ∀ a, t.machine.settlement? a = s.machine.settlement? a)
    (hreg : t.registrations = s.registrations)
    (hdel : ∀ a y, (.adoption a, y) ∈ t.deliveries →
      (.adoption a, y) ∈ s.deliveries ∨ a = p ∧ y = x)
    (hsettlers : t.settlers = s.settlers) : Adoptions (t.settle p x) := by
  -- A right to settle `p` is in hand, so `p` was pending, and all others keep what they had.
  have hp : s.machine.settlement? p = none := by
    rw [← hset, ht.settlement?_eq_none]
  have hmem (a : PromiseId) : a ∈ s.settlers ↔ ∃ y, s.machine.settlement? a = some y := by
    rw [← hsettlers, ht.mem_settlers, hset]
  have hnew (a : PromiseId) : (t.settle p x).machine.settlement? a
      = if a = p then some x else s.machine.settlement? a := by
    rw [ht.settlement?_settle, hset]
  have hkeep (a : PromiseId) (y : Settlement α ε) (ha : s.machine.settlement? a = some y) :
      (t.settle p x).machine.settlement? a = some y := by
    rw [hnew, if_neg, ha]
    rintro rfl
    rw [hp] at ha
    cases ha
  -- Only `p` can have adopted just now.
  have hold (a b : PromiseId) (hne : a ≠ p) (hab : (t.settle p x).Follows a b) : s.Follows a b :=
    ⟨(hadopted a b ((t.adopted_settle a b p x).mp hab.1)).resolve_right hne, hab.2⟩
  constructor
  · intro a ha
    have ha : t.Adopted a a := (t.adopted_settle a a p x).mp ha
    by_cases hap : a = p
    · rw [hnew, if_pos hap, hself (hap ▸ ha)]
    · exact hkeep a _ (h.self a ((hadopted a a ha).resolve_right hap))
  · intro a b y hab ha
    rw [hnew] at ha
    by_cases hap : a = p
    · subst hap
      rw [if_pos rfl] at ha
      rw [← ha]
      exact hkeep b x (hfollows b ⟨(t.adopted_settle a b a x).mp hab.1, hab.2⟩)
    · rw [if_neg hap] at ha
      exact hkeep b y (h.copied a b y (hold a b hap hab) ha)
  · intro a b hab ha
    rw [hnew] at ha
    by_cases hap : a = p
    · rw [if_pos hap] at ha
      cases ha
    · rw [if_neg hap] at ha
      have hwaits := h.waiting a b (hold a b hap hab) ha
      rw [Session.mem_registered] at hwaits ⊢
      rwa [Session.registrations_settle, hreg]
  · intro a y ha
    rw [Session.deliveries_settle] at ha
    rcases hdel a y ha with ha | ⟨rfl, rfl⟩
    · exact hkeep a y (h.followed a y ha)
    · rw [hnew, if_pos rfl]
  · intro a b hab ha
    have hpnew : p ∉ s.settlers := by
      rw [hmem, hp]
      rintro ⟨y, hy⟩
      cases hy
    rw [Session.settlers_settle, hsettlers] at ha ⊢
    refine idxOf_lt_concat hpnew (fun hap => ?_) (fun hap => h.later a b (hold a b hap hab)) ha
    subst hap
    exact (hmem b).mpr ⟨x, hfollows b ⟨(t.adopted_settle a b a x).mp hab.1, hab.2⟩⟩

/-- `p` follows the pending promise `q`. -/
theorem Adoptions.wait (h : Adoptions s) (hs : Sound (p :: hand) s) (hne : p ≠ q) :
    Adoptions ((s.record (.adopted p q)).react q (.adoption p)) := by
  -- Nothing settles here; for `p` itself the facts about settled promises say nothing.
  have hp := hs.settlement?_eq_none
  have hadopted (a b : PromiseId) :
      ((s.record (.adopted p q)).react q (.adoption p)).Adopted a b →
        s.Adopted a b ∨ p = a ∧ q = b := by
    simp
  have hset (a : PromiseId) :
      ((s.record (.adopted p q)).react q (.adoption p)).machine.settlement? a
        = s.machine.settlement? a := Machine.settlement?_react _ _ _ _
  have hsettlers : ((s.record (.adopted p q)).react q (.adoption p)).settlers = s.settlers := by
    simp [Session.settlers, Event.settlement?]
  constructor
  · intro a ha
    rcases hadopted a a ha with ha | ⟨rfl, rfl⟩
    · rw [hset, h.self a ha]
    · exact absurd rfl hne
  · intro a b x hab ha
    rw [hset] at ha ⊢
    rcases hadopted a b hab.1 with hold | ⟨rfl, rfl⟩
    · exact h.copied a b x ⟨hold, hab.2⟩ ha
    · rw [hp] at ha
      cases ha
  · intro a b hab ha
    rw [hset] at ha
    rw [Session.mem_registered, Session.registrations_react, Session.registrations_record]
    rcases hadopted a b hab.1 with hold | ⟨rfl, rfl⟩
    · have hwaits := Session.mem_registered.mp (h.waiting a b ⟨hold, hab.2⟩ ha)
      exact List.mem_append_left _ (List.mem_append_left _ hwaits)
    · exact List.mem_append_right _ (List.mem_singleton_self _)
  · intro a x ha
    rw [hset]
    refine h.followed a x ?_
    simpa [Event.delivery?] using ha
  · intro a b hab ha
    rw [hsettlers] at ha ⊢
    rcases hadopted a b hab.1 with hold | ⟨rfl, rfl⟩
    · exact h.later a b ⟨hold, hab.2⟩ ha
    · obtain ⟨x, hx⟩ := hs.mem_settlers.mp ha
      rw [hp] at hx
      cases hx

theorem Adoptions.create (h : Adoptions s) : Adoptions s.create :=
  h.same (fun _ _ => id) (fun p => Machine.settlement?_create _ p) (fun _ _ => id)
    (fun _ _ => id) rfl

theorem Adoptions.host (h : Adoptions s) (hm : m.slots = s.machine.slots) :
    Adoptions { s with machine := m } :=
  h.same (fun _ _ => id) (Machine.settlement?_congr hm) (fun _ _ => id) (fun _ _ => id) rfl

/-- A reaction that is no adoption is registered. -/
theorem Adoptions.react (h : Adoptions s) (q : PromiseId) (r : Reaction κ) :
    Adoptions (s.react q r) := by
  refine h.same (fun a b => (s.adopted_react a b q r).mp)
    (fun a => Machine.settlement?_react _ _ _ _) (fun a r' hr => ?_) (fun a x ha => ?_)
    (s.settlers_react q r)
  · rw [Session.registered_react]
    exact List.mem_append_left _ hr
  · rwa [Session.deliveries_react] at ha

theorem Adoptions.adopt (h : Adoptions s) (hs : Sound (p :: hand) s) (hf : Fresh s) :
    Adoptions (s.adopt p q) := by
  have hrec : Sound (p :: hand) (s.record (.adopted p q)) := hs.record rfl
  have hadopted (a b : PromiseId) (hab : (s.record (.adopted p q)).Adopted a b) :
      s.Adopted a b ∨ p = a ∧ q = b := by
    simpa using hab
  -- `p` adopted none before, so `q` is the only one.
  have hown (b : PromiseId) (hb : (s.record (.adopted p q)).Adopted p b) : q = b :=
    ((hadopted p b hb).resolve_left (h.not_adopted hs hf)).2
  have hother (a b : PromiseId) (hab : (s.record (.adopted p q)).Adopted a b) :
      s.Adopted a b ∨ a = p :=
    (hadopted a b hab).imp_right fun hab => hab.1.symm
  have hreg : (s.record (.adopted p q)).registrations = s.registrations :=
    Session.registrations_record_of_none rfl
  have hdel : (s.record (.adopted p q)).deliveries = s.deliveries :=
    Session.deliveries_record_of_none rfl
  have hsettlers : (s.record (.adopted p q)).settlers = s.settlers := by
    simp [Session.settlers, Event.settlement?]
  refine Session.adopt_cases (P := Adoptions) (fun hself => ?_) (fun x hne hx => ?_)
    fun hne _ => h.wait hs hne
  · refine h.settle hrec hother (fun _ => rfl) (fun b hb => ?_) (fun _ => rfl) hreg
      (fun a y ha => .inl (hdel ▸ ha)) hsettlers
    exact absurd (hself.trans (hown b hb.1)) hb.2
  · refine h.settle hrec hother (fun hself => ?_) (fun b hb => ?_) (fun _ => rfl) hreg
      (fun a y ha => .inl (hdel ▸ ha)) hsettlers
    · exact absurd (hown p hself).symm hne
    · rw [← hown b hb.1]
      exact hx

/-- Taking a job that delivers to no adoption. -/
theorem Adoptions.take (h : Adoptions s) {j : Job α ε κ τ} (hj : s.machine.next? = some (j, m))
    (hno : ∀ p x, j ≠ .deliver (.adoption p) x) :
    Adoptions (s.taken j m) := by
  obtain ⟨-, hslots, -, -⟩ := Machine.next?_eq_some hj
  refine (h.host hslots).same (fun p q hpq => ?_) (fun _ => rfl) (fun p r hr => ?_)
    (fun p x hx => ?_) ?_
  · simpa using hpq
  · rw [Session.mem_registered] at hr ⊢
    rwa [Session.registrations_record_of_none rfl]
  · rw [Session.deliveries_record] at hx
    refine (List.mem_append.mp hx).resolve_right fun hx => ?_
    cases j with
    | deliver r y =>
      obtain ⟨rfl, rfl⟩ : .adoption p = r ∧ x = y := by
        simpa [Event.delivery?, Job.delivery?] using hx
      exact hno p x rfl
    | poll a => simp [Event.delivery?, Job.delivery?] at hx
    | task u => simp [Event.delivery?, Job.delivery?] at hx
  · simp [Session.settlers, Event.settlement?]

/-- The outcome of the adopted promise arrives. It comes from the promise that was adopted, as the
adoption is registered nowhere else. -/
theorem Adoptions.follow (h : Adoptions s) (hs : Sound hand s) (hf : Fresh s)
    {l : List (PromiseId × Reaction κ × Settlement α ε)} (hl : Sourced s l)
    (hj : s.machine.next? = some (.deliver (.adoption p) x, m)) :
    Adoptions ((s.taken (.deliver (.adoption p) x) m).settle p x) := by
  obtain ⟨-, hslots, -, -⟩ := Machine.next?_eq_some hj
  have htaken : Sound (p :: hand) _ := hs.take hj
  have hp : m.settlement? p = none := htaken.settlement?_eq_none
  have h' : Adoptions { s with machine := m } := h.host hslots
  -- The delivery comes from a promise with this outcome, on which the adoption is registered.
  obtain ⟨e, he, hpx⟩ : ∃ e ∈ l, e.2 = (.adoption p, x) := by
    rw [← List.mem_map, hl.all]
    exact List.mem_append_right _ (Machine.mem_due_of_next? hj)
  have hsource : (e.1, .adoption p) ∈ s.registrations := by
    have hreg := hl.mem_registered he
    rw [hpx] at hreg
    exact Session.mem_registered.mp hreg
  have hx : m.settlement? e.1 = some x := by
    rw [Machine.settlement?_congr hslots, hl.outcome e he, hpx]
  refine h'.settle htaken (fun a b hab => .inl ?_) (fun hself => ?_) (fun q hq => ?_)
    (fun _ => rfl) ?_ (fun a y ha => ?_) ?_
  · simpa using hab
  · have hself := h'.self p (by simpa using hself)
    rw [hp] at hself
    cases hself
  · -- So it is on any promise that `p` follows, and an adoption is registered once.
    have hwaits := h'.waiting p q ⟨by simpa using hq.1, hq.2⟩ hp
    have hsame : (e.1, Reaction.adoption p) = (q, .adoption p) :=
      List.inj_on_of_nodup_map hf.nodup hsource (Session.mem_registered.mp hwaits) rfl
    have hq : e.1 = q := congrArg Prod.fst hsame
    rw [← hq]
    exact hx
  · exact Session.registrations_record_of_none rfl
  · simpa [Event.delivery?, Job.delivery?] using ha
  · simp [Session.settlers, Event.settlement?]

theorem Transfer.adoptions (ht : Transfer hand s hand' s') (hs : Sound hand s) (hf : Fresh s)
    {l : List (PromiseId × Reaction κ × Settlement α ε)} (hl : Sourced s l) (h : Adoptions s) :
    Adoptions s' := by
  cases ht with
  | create => exact h.create
  | lose => exact h
  | latch => exact h.host rfl
  | use hr =>
    obtain ⟨-, rfl⟩ := Machine.use?_eq_some hr
    exact h.host rfl
  | @settle _ _ p x =>
    refine h.settle hs (fun _ _ => .inl) (fun hself => ?_) (fun q hq => ?_) (fun _ => rfl) rfl
      (fun _ _ => .inl) rfl
    · exact absurd hself (h.not_adopted hs hf)
    · exact absurd hq.1 (h.not_adopted hs hf)
  | adopt hq => exact h.adopt hs hf
  | register hp code => exact h.create.react _ _
  | await hp =>
    have hpush := h.host (m := { s.machine with
      awaits := s.machine.awaits.push ⟨none, false, false⟩ }) rfl
    exact hpush.react _ _
  | call c => exact h.same (fun _ _ => id) (fun _ => rfl) (fun _ _ => id) (fun _ _ => id) rfl
  | finish hc => exact h.same (fun _ _ => id) (fun _ => rfl) (fun _ _ => id) (fun _ _ => id) rfl
  | take hj hno => exact h.take hj hno
  | follow hj => exact h.follow hs hf hl hj
  | host hm => exact h.host hm.slots

theorem Transfers.adoptions (ht : Transfers hand s hand' s') (hs : Sound hand s) (hf : Fresh s)
    {l : List (PromiseId × Reaction κ × Settlement α ε)} (hl : Sourced s l) (h : Adoptions s) :
    Adoptions s' := by
  induction ht with
  | refl => exact h
  | tail hts ht ih =>
    obtain ⟨l', hl'⟩ := hts.sourced hl
    exact ht.adoptions (hts.sound hs) (hts.fresh hs hf) hl' (ih hs hf hl h)

end Steps

/-! ### What stays -/

/-- What stays as it is when a promise is resolved. -/
structure Session.Still (s t : Session α ε κ τ) : Prop where
  size : t.machine.slots.size = s.machine.slots.size
  resolvers : t.machine.resolvers = s.machine.resolvers
  calls : t.calls = s.calls
  deliveries : t.deliveries = s.deliveries

theorem Session.still_settle (s : Session α ε κ τ) (p : PromiseId) (x : Settlement α ε) :
    s.Still (s.settle p x) :=
  ⟨Machine.size_settle _ _ _, Machine.resolvers_settle _ _ _, rfl, s.deliveries_settle p x⟩

theorem Session.still_adopt [Cause ε] (s : Session α ε κ τ) (p q : PromiseId) :
    s.Still (s.adopt p q) := by
  have hdel : (s.record (.adopted p q)).deliveries = s.deliveries :=
    Session.deliveries_record_of_none rfl
  have hsettle (x : Settlement α ε) : s.Still ((s.record (.adopted p q)).settle p x) := by
    obtain ⟨hsize, hresolvers, hcalls, hdel'⟩ := (s.record (.adopted p q)).still_settle p x
    exact ⟨hsize, hresolvers, hcalls, hdel'.trans hdel⟩
  refine Session.adopt_cases (P := s.Still) (fun _ => hsettle _) (fun x _ _ => hsettle x)
    fun _ _ => ?_
  exact ⟨Machine.size_react _ _ _, Machine.resolvers_react _ _ _, rfl,
    (Session.deliveries_react _ _ _).trans hdel⟩

/-- What stays true of a session. -/
structure Session.Keeps (s t : Session α ε κ τ) : Prop where
  settlement? : ∀ p x, s.machine.settlement? p = some x → t.machine.settlement? p = some x
  registered : ∀ p r, r ∈ s.registered p → r ∈ t.registered p
  adopted : ∀ p q, s.Adopted p q → t.Adopted p q

theorem Run.keeps [Cause ε] [Registration κ] {s t : Session α ε κ τ} (h : Run s t)
    (hs : Reachable s) : s.Keeps t := by
  -- What is read off the log stays, as the log only grows.
  obtain ⟨l, hl⟩ := (Run.transfers h).log_grows
  refine ⟨fun p x hx => (Run.transfers h).settlement?_of_some hs.sound hx, fun p r hr => ?_,
    fun p q hpq => ?_⟩
  · rw [Session.mem_registered, Session.registrations] at hr ⊢
    rw [← hl, List.filterMap_append]
    exact List.mem_append_left _ hr
  · unfold Session.Adopted Session.adoptions at hpq ⊢
    rw [← hl, List.filterMap_append]
    exact List.mem_append_left _ hpq

/-! ### Chains and cycles -/

/-- A settled promise was settled after all that it follows. -/
theorem Adoptions.later_of_transGen [Cause ε] (h : Adoptions s) (hs : Sound hand s)
    (hpq : Relation.TransGen s.Follows p q) (hp : p ∈ s.settlers) :
    q ∈ s.settlers ∧ s.settlers.idxOf q < s.settlers.idxOf p := by
  -- Along one edge the settlement of the first shows an earlier one of the second.
  have hstep : ∀ a b, s.Follows a b → a ∈ s.settlers →
      b ∈ s.settlers ∧ s.settlers.idxOf b < s.settlers.idxOf a := by
    intro a b hab ha
    obtain ⟨x, hx⟩ := hs.mem_settlers.mp ha
    exact ⟨hs.mem_settlers.mpr ⟨x, h.copied a b x hab hx⟩, h.later a b hab ha⟩
  induction hpq with
  | single hab => exact hstep _ _ hab hp
  | tail _ hbc ih =>
    obtain ⟨hc, hlt⟩ := hstep _ _ hbc ih.1
    exact ⟨hc, Nat.lt_trans hlt ih.2⟩

section Runs

variable [Cause ε] [Registration κ]

theorem Reachable.adoptions (hs : Reachable s) : Adoptions s :=
  (Run.transfers hs).adoptions sound_empty fresh_empty sourced_empty adoptions_empty

/-- While a handler for a promise has still to run, the promise has adopted none. -/
theorem Reachable.not_adopted_of_next? (hs : Reachable s) {code : κ} {x : Settlement α ε}
    (hj : s.machine.next? = some (.deliver (.handler code p) x, m)) : ¬ s.Adopted p q := by
  have hno : ∀ p' x', Job.deliver (.handler code p) x ≠ (.deliver (.adoption p') x' : Job α ε κ τ) := by
    intro p' x' h
    cases h
  have htaken : Sound [p] (s.taken (.deliver (.handler code p) x) m) := hs.sound.take hj
  have hnot := (hs.adoptions.take hj hno).not_adopted (q := q) htaken (hs.fresh.take hj hno)
  intro hpq
  exact hnot ((Session.adopted_record _ _ _ _).mpr (.inl hpq))

/-- A promise that adopted another has its outcome, waits for it with it, or is next to get it. -/
theorem Reachable.follows_cases (hs : Reachable s) (h : s.Follows p q) :
    (∃ x, s.machine.settlement? p = some x ∧ s.machine.settlement? q = some x) ∨
      s.machine.settlement? p = none ∧ .adoption p ∈ s.machine.outstanding ∧
        (s.machine.settlement? q = none ∨
          ∃ x, s.machine.settlement? q = some x ∧ (.adoption p, x) ∈ s.machine.due) := by
  rcases hp : s.machine.settlement? p with _ | x
  · refine .inr ⟨rfl, ?_⟩
    rcases hs.reaction_cases (hs.adoptions.waiting p q h hp) with ⟨hq, hout⟩ | ⟨x, hq, hran | hdue⟩
    · exact ⟨hout, .inl hq⟩
    · -- It would have settled `p`.
      rw [hs.adoptions.followed p x hran] at hp
      cases hp
    · exact ⟨List.mem_append_right _ (List.mem_map.mpr ⟨_, hdue, rfl⟩), .inr ⟨x, hq, hdue⟩⟩
  · exact .inl ⟨x, rfl, hs.adoptions.copied p q x h hp⟩

/-- When the queue is empty, a promise has the outcome of the one that it adopted, if any. -/
theorem Reachable.settlement?_of_follows (hs : Reachable s) (hq : s.machine.queue = [])
    (h : s.Follows p q) : s.machine.settlement? p = s.machine.settlement? q := by
  rcases hs.follows_cases h with ⟨x, hp, hx⟩ | ⟨hp, -, hx | ⟨x, -, hdue⟩⟩
  · exact hp.trans hx.symm
  · exact hp.trans hx.symm
  · simp [Machine.due, hq] at hdue

/-- **Adoption is faithful.** When the queue is empty, a promise whose effective resolution was
another one has the state and the outcome of that promise, and so along a chain of adoptions; a
promise that was resolved with itself is rejected; and the promises of a cycle of adoptions are
pending. -/
theorem adoption_faithful (hs : Reachable s) (hq : s.machine.queue = []) (p q : PromiseId) :
    (Relation.TransGen s.Follows p q →
      s.machine.state p = s.machine.state q ∧
      s.machine.settlement? p = s.machine.settlement? q) ∧
    (s.Adopted p p →
      s.machine.settlement? p = some (.rejected (Cause.ofFault .selfResolution))) ∧
    (Relation.TransGen s.Follows p p → s.machine.state p = .pending) := by
  refine ⟨fun hpq => ?_, hs.adoptions.self p, fun hcycle => ?_⟩
  · have hsame : s.machine.settlement? p = s.machine.settlement? q := by
      induction hpq with
      | single hab => exact hs.settlement?_of_follows hq hab
      | tail _ hbc ih => exact ih.trans (hs.settlement?_of_follows hq hbc)
    exact ⟨by rw [Machine.state_eq, Machine.state_eq, hsame], hsame⟩
  · rcases hx : s.machine.settlement? p with _ | x
    · rw [Machine.state_eq, hx]
      rfl
    · -- A settled promise of a cycle would have settled before itself.
      have hp : p ∈ s.settlers := hs.sound.mem_settlers.mpr ⟨x, hx⟩
      obtain ⟨-, hlt⟩ := hs.adoptions.later_of_transGen hs.sound hcycle hp
      exact absurd hlt (Nat.lt_irrefl _)

/-- A promise follows one that settles later, one is resolved with itself, and two adopt one
another. -/
theorem adoption_faithful_three_ways :
    let r : Session Nat String (Handlers Nat String Unit) Unit :=
      Session.empty.defer.defer.defer.defer.defer
    let s := (((r.via 0 (.ok (.promise 1))).via 2 (.ok (.promise 2))).via 3
      (.ok (.promise 4))).via 4 (.ok (.promise 3))
    let t := (s.via 1 (.ok (.value 7))).turn
    Reachable t ∧ t.machine.queue = [] ∧
      t.machine.settlement? 0 = some (.fulfilled 7) ∧
      t.machine.settlement? 2 = some (.rejected Fault.selfResolution.message) ∧
      t.machine.state 3 = .pending := by
  intro r s t
  have hr : Reachable r :=
    .tail (.tail (.tail (.tail (.single .defer) .defer) .defer) .defer) .defer
  have hs : Reachable s :=
    .tail (.tail (.tail (hr.tail (.via 0 (o := .ok (.promise 1)) (by decide +kernel)))
      (.via 2 (o := .ok (.promise 2)) (by decide +kernel)))
      (.via 3 (o := .ok (.promise 4)) (by decide +kernel)))
      (.via 4 (o := .ok (.promise 3)) (by decide +kernel))
  have ht : Reachable t :=
    (hs.tail (.via 1 (o := .ok (.value 7)) trivial)).trans (run_turn (by decide +kernel))
  have hq : t.machine.queue = [] := List.isEmpty_iff.mp (by decide +kernel)
  have hfirst : t.Follows 0 1 := ⟨by decide +kernel, by decide⟩
  have hcycle : Relation.TransGen t.Follows 3 3 :=
    .tail (.single (b := 4) ⟨by decide +kernel, by decide⟩) ⟨by decide +kernel, by decide⟩
  have hseven : t.machine.settlement? 1 = some (.fulfilled 7) := by decide +kernel
  obtain ⟨hsame, -, -⟩ := adoption_faithful ht hq 0 1
  obtain ⟨-, hself, -⟩ := adoption_faithful ht hq 2 2
  obtain ⟨-, -, hpending⟩ := adoption_faithful ht hq 3 3
  exact ⟨ht, hq, (hsame (.single hfirst)).2.trans hseven, hself (by decide +kernel),
    hpending hcycle⟩

end Runs

end Switchboard.Promise
