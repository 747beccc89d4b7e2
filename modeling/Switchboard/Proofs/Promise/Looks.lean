import Mathlib.Tactic.SplitIfs
import Switchboard.Proofs.Promise.Machine

/-!
# Looking for an outcome

Two parties meet at an await: the reaction that brings the outcome, and the waiter who looks for it.
Each may come first. A waiter who comes too early leaves word that it looked in vain, and whoever brings
the outcome then queues another look; a waiter who comes late finds the outcome and needs nobody.

What must not happen is that a waiter has been here, the outcome is here, and no look is left: the
wake-up would be lost. An await is said to rest if it needs no look, because it has been answered or
because there is nothing to be found yet. The invariant is that the looks of an await that does not rest
are in the queue.

- `Await.waits`, `rests`, `given`: what can be read off an await.
- `Machine.polls`: the looks in the queue.
- `Machine.Spares`: an operation that concerns no await.
- `Machine.Attentive`: whoever has come for an outcome rests, or has a look ahead. `Attentive.wake`,
  `Attentive.look`, `Attentive.poll`: this holds whichever party moves next.
- `Machine.Told`: what some awaits were told. The first outcome that reaches an await stays.

An await may be looked at in a job of any kind, and several looks may be in the queue at once. So the
invariant speaks of membership and not of counts: an await that does not rest has a look ahead, whether
or not it has more. Nor does an await that rests have none ahead. A look that finds it answered finds
nothing, which is harmless.

Whether anybody has come is not recorded by the machine; `sought` stands for it, and the notes of a run
will say it.
-/

namespace Switchboard.Promise

variable {α ε κ τ : Type}

/-- What a waiter gets. -/
def Settlement.result : Settlement α ε → Except ε α
  | .fulfilled v => .ok v
  | .rejected c => .error c

/-! ### Awaits -/

/-- An await that looked in vain. -/
def Await.waits (w : Await α ε) : Bool := w.polled && w.outcome.isNone

/-- An await that will not look by itself: it has been answered, or it looked in vain. -/
def Await.rests (w : Await α ε) : Bool := w.answered || w.waits

/-- What an await was answered with. -/
def Await.given (w : Await α ε) : List (Except ε α) :=
  if w.answered then (w.outcome.map Settlement.result).toList else []

/-- The first outcome that reaches an await stays. -/
def Await.told (w : Await α ε) (x : Settlement α ε) : Await α ε :=
  { w with outcome := w.outcome.or (some x) }

/-- What a look finds. An await is answered once. -/
def Await.found (w : Await α ε) : Option (Settlement α ε) :=
  if w.answered then none else w.outcome

/-- After a look an await is answered, or it has looked in vain. -/
def Await.looked (w : Await α ε) : Await α ε :=
  if w.outcome.isSome then { w with answered := true } else { w with polled := true }

@[simp] theorem Await.outcome_told (w : Await α ε) (x : Settlement α ε) :
    (w.told x).outcome = w.outcome.or (some x) := rfl

@[simp] theorem Await.outcome_looked (w : Await α ε) : w.looked.outcome = w.outcome := by
  unfold looked
  split <;> rfl

/-- Being told is no answer yet. -/
theorem Await.given_told {w : Await α ε} (hw : w.answered = true → w.outcome.isSome)
    (x : Settlement α ε) : (w.told x).given = w.given := by
  rcases w with ⟨_ | y, polled, _ | _⟩
  · rfl
  · cases hw rfl
  · rfl
  · rfl

/-- What a look finds is. -/
theorem Await.given_looked {w : Await α ε} (hw : w.answered = true → w.outcome.isSome) :
    w.looked.given = w.given ++ (w.found.map Settlement.result).toList := by
  rcases w with ⟨_ | y, polled, _ | _⟩
  · rfl
  · cases hw rfl
  · rfl
  · rfl

/-- Whoever has looked rests: it has been answered, or it has left word. -/
@[simp] theorem Await.rests_looked (w : Await α ε) : w.looked.rests = true := by
  rcases w with ⟨_ | y, polled, answered⟩ <;> simp [looked, rests, waits]

theorem Await.length_given_le (w : Await α ε) : w.given.length ≤ 1 := by
  rcases w with ⟨_ | y, polled, _ | _⟩ <;> simp [given]

theorem Await.mem_given {w : Await α ε} {r : Except ε α} (hr : r ∈ w.given) :
    ∃ x, w.outcome = some x ∧ r = x.result := by
  rcases w with ⟨_ | y, polled, _ | _⟩
  · cases hr
  · cases hr
  · cases hr
  · exact ⟨y, rfl, List.mem_singleton.mp hr⟩

/-! ### Looks in the queue

What each operation does to awaits and to looks. All but four of them do nothing, and are dealt with by
`Spares`. -/

/-- The await that a job looks for. -/
def Job.poll? : Job α ε κ τ → Option AwaitId
  | .poll a => some a
  | _ => none

namespace Machine

/-- The awaits whose looks are in the queue, the next one first. -/
def polls (m : Machine α ε κ τ) : List AwaitId := m.queue.filterMap Job.poll?

/-- What concerns awaits is the same. -/
structure Spares (m m' : Machine α ε κ τ) : Prop where
  awaits : m'.awaits = m.awaits
  polls : m'.polls = m.polls

variable {m m' m'' : Machine α ε κ τ} {a b : AwaitId} {x : Settlement α ε} {p : PromiseId}

theorem Spares.refl (m : Machine α ε κ τ) : m.Spares m := ⟨rfl, rfl⟩

theorem Spares.trans (h : m.Spares m') (h' : m'.Spares m'') : m.Spares m'' :=
  ⟨h'.awaits.trans h.awaits, h'.polls.trans h.polls⟩

theorem polls_enqueue (m : Machine α ε κ τ) (j : Job α ε κ τ) :
    (m.enqueue j).polls = m.polls ++ j.poll?.toList := by
  cases j <;> simp [polls, enqueue, Job.poll?]

theorem spares_enqueue (m : Machine α ε κ τ) {j : Job α ε κ τ} (hj : j.poll? = none) :
    m.Spares (m.enqueue j) := ⟨rfl, by simp [polls_enqueue, hj]⟩

theorem spares_create (m : Machine α ε κ τ) : m.Spares m.create.2 := ⟨rfl, rfl⟩

theorem spares_settle (m : Machine α ε κ τ) (p : PromiseId) (x : Settlement α ε) :
    m.Spares (m.settle p x) := by
  refine ⟨awaits_settle m p x, ?_⟩
  unfold settle
  split
  · simp [polls, Job.poll?, List.filterMap_append]
  · rfl

theorem spares_react (m : Machine α ε κ τ) (p : PromiseId) (r : Reaction κ) :
    m.Spares (m.react p r) := by
  unfold react
  split
  · exact ⟨rfl, rfl⟩
  · exact spares_enqueue m rfl
  · exact .refl m

theorem spares_use {i : ResolverId} (h : m.use? i = some (p, m')) : m.Spares m' := by
  obtain ⟨-, rfl⟩ := use?_eq_some h
  exact ⟨rfl, rfl⟩

theorem polls_next? {j : Job α ε κ τ} (h : m.next? = some (j, m')) :
    m.polls = j.poll?.toList ++ m'.polls := by
  obtain ⟨hq, -⟩ := next?_eq_some h
  unfold polls
  rw [hq]
  cases j <;> rfl

theorem spares_next? {j : Job α ε κ τ} (h : m.next? = some (j, m')) (hj : j.poll? = none) :
    m.Spares m' := by
  obtain ⟨-, -, -, hawaits⟩ := next?_eq_some h
  refine ⟨hawaits, ?_⟩
  rw [polls_next? h, hj]
  rfl

theorem getElem?_wake (m : Machine α ε κ τ) (a b : AwaitId) (x : Settlement α ε) :
    (m.wake a x).awaits[b]? =
      if b = a then m.awaits[a]?.map (·.told x) else m.awaits[b]? := by
  unfold wake
  split
  · next polled answered ha =>
    obtain ⟨hlt, -⟩ := Array.getElem?_eq_some_iff.mp ha
    have hset : (m.awaits.setIfInBounds a ⟨some x, polled, answered⟩)[b]? =
        if b = a then m.awaits[a]?.map (·.told x) else m.awaits[b]? := by
      rw [Array.getElem?_setIfInBounds, ha]
      simp only [hlt, if_true, eq_comm (a := a)]
      rfl
    dsimp only
    split
    · exact hset
    · exact hset
  · next hother =>
    -- An await that is unknown or has its outcome already stays as it is.
    split_ifs with hb
    · subst hb
      rcases hw : m.awaits[b]? with _ | ⟨_ | y, polled, answered⟩
      · rfl
      · exact absurd hw (hother polled answered)
      · rfl
    · rfl

/-- Whoever looked in vain looks again. -/
theorem polls_wake (m : Machine α ε κ τ) (a : AwaitId) (x : Settlement α ε) :
    (m.wake a x).polls = m.polls ++ if m.awaits[a]?.any Await.waits then [a] else [] := by
  unfold wake
  split
  · next polled answered ha =>
    have hwaits : m.awaits[a]?.any Await.waits = polled := by simp [ha, Await.waits]
    rw [hwaits]
    dsimp only
    split
    · exact polls_enqueue _ _
    · exact (List.append_nil _).symm
  · next hother =>
    have hwaits : m.awaits[a]?.any Await.waits = false := by
      rcases hw : m.awaits[a]? with _ | ⟨_ | y, polled, answered⟩
      · rfl
      · exact absurd hw (hother _ _)
      · simp [Await.waits]
    rw [hwaits]
    exact (List.append_nil _).symm

theorem getElem?_poll (m : Machine α ε κ τ) (a b : AwaitId) :
    (m.poll a).2.awaits[b]? = if b = a then m.awaits[a]?.map Await.looked else m.awaits[b]? := by
  have hset {w w' : Await α ε} (ha : m.awaits[a]? = some w) (hw : w.looked = w') :
      (m.awaits.setIfInBounds a w')[b]? =
        if b = a then m.awaits[a]?.map Await.looked else m.awaits[b]? := by
    obtain ⟨hlt, -⟩ := Array.getElem?_eq_some_iff.mp ha
    rw [Array.getElem?_setIfInBounds, ha]
    simp only [hlt, if_true, eq_comm (a := a), ← hw]
    rfl
  unfold poll
  split
  · next ha => exact hset ha rfl
  · next ha => exact hset ha rfl
  · next hsome hnone =>
    split_ifs with hb
    · subst hb
      rcases hw : m.awaits[b]? with _ | ⟨_ | y, polled, _ | _⟩
      · rfl
      · exact absurd hw (hnone _ _)
      · exact absurd hw (hnone _ _)
      · exact absurd hw (hsome _ _)
      · rfl
    · rfl

theorem polls_poll (m : Machine α ε κ τ) (a : AwaitId) : (m.poll a).2.polls = m.polls := by
  unfold poll
  split <;> rfl

/-- A look finds the outcome of an await that was not answered before. -/
theorem fst_poll (m : Machine α ε κ τ) (a : AwaitId) :
    (m.poll a).1 = m.awaits[a]?.bind Await.found := by
  unfold poll
  split
  · next ha => rw [ha]; rfl
  · next answered ha => rw [ha]; cases answered <;> rfl
  · next hsome hnone =>
    rcases hw : m.awaits[a]? with _ | ⟨_ | y, polled, _ | _⟩
    · rfl
    · rfl
    · rfl
    · exact absurd hw (hsome _ _)
    · rfl

/-! ### No wake-up is lost -/

/-- An await that someone has come for, which is what `sought` says, has been answered, or waits to be
told, or has a look ahead of it. Nobody else looks. -/
structure Attentive (m : Machine α ε κ τ) (sought : AwaitId → Prop) : Prop where
  known : ∀ a : AwaitId, sought a → a < m.awaits.size
  outcome : ∀ (a : AwaitId) w, m.awaits[a]? = some w → w.answered = true → w.outcome.isSome
  looks : ∀ (a : AwaitId) w, sought a → m.awaits[a]? = some w → w.rests = false → a ∈ m.polls
  queued : ∀ a ∈ m.polls, sought a
  seen : ∀ (a : AwaitId) w, m.awaits[a]? = some w → w.polled = true ∨ w.answered = true → sought a

variable {sought sought' : AwaitId → Prop}

theorem attentive_empty : (empty : Machine α ε κ τ).Attentive fun _ => False where
  known a ha := ha.elim
  outcome a w hw := by simp [empty] at hw
  looks a w ha := ha.elim
  queued a ha := by simp [polls, empty] at ha
  seen a w hw := by simp [empty] at hw

theorem Attentive.congr (hm : m.Attentive sought) (h : ∀ a, sought' a ↔ sought a) :
    m.Attentive sought' where
  known a ha := hm.known a ((h a).mp ha)
  outcome := hm.outcome
  looks a w ha := hm.looks a w ((h a).mp ha)
  queued a ha := (h a).mpr (hm.queued a ha)
  seen a w hw hseen := (h a).mpr (hm.seen a w hw hseen)

theorem Spares.attentive (h : m.Spares m') (hm : m.Attentive sought) : m'.Attentive sought where
  known a ha := h.awaits ▸ hm.known a ha
  outcome a w hw := hm.outcome a w (h.awaits ▸ hw)
  looks a w ha hw hrests := h.polls ▸ hm.looks a w ha (h.awaits ▸ hw) hrests
  queued a ha := hm.queued a (h.polls ▸ ha)
  seen a w hw := hm.seen a w (h.awaits ▸ hw)

/-- The outcome comes. Whoever looked for it in vain is given another look; whoever did not has one
ahead or has not come yet. -/
theorem Attentive.wake (hm : m.Attentive sought) (a : AwaitId) (x : Settlement α ε) :
    (m.wake a x).Attentive sought := by
  have hold {b : AwaitId} {w : Await α ε} (hw : (m.wake a x).awaits[b]? = some w) :
      b ≠ a ∧ m.awaits[b]? = some w ∨ b = a ∧ ∃ v, m.awaits[b]? = some v ∧ v.told x = w := by
    rw [getElem?_wake] at hw
    split_ifs at hw with hb
    · subst hb
      exact .inr ⟨rfl, Option.map_eq_some_iff.mp hw⟩
    · exact .inl ⟨hb, hw⟩
  refine ⟨fun b hb => ?_, fun b w hw hanswered => ?_, fun b w hb hw hrests => ?_, fun b hb => ?_,
    fun b w hw hseen => ?_⟩
  · exact Nat.lt_of_lt_of_le (hm.known b hb) (alike_wake m a x).awaits
  · rcases hold hw with ⟨-, hw⟩ | ⟨-, v, -, rfl⟩
    · exact hm.outcome b w hw hanswered
    · simp
  · rw [polls_wake, List.mem_append]
    rcases hold hw with ⟨-, hw⟩ | ⟨rfl, v, hv, rfl⟩
    · exact .inl (hm.looks b w hb hw hrests)
    · -- It looked in vain and is given a look, or it did not and has kept the one it had.
      by_cases hwaits : v.waits = true
      · exact .inr (by simp [hv, hwaits])
      · refine .inl (hm.looks b v hb hv ?_)
        have hunanswered : v.answered = false := (Bool.or_eq_false_iff.mp hrests).1
        simp [Await.rests, hunanswered, hwaits]
  · rw [polls_wake, List.mem_append] at hb
    rcases hb with hb | hb
    · exact hm.queued b hb
    · split_ifs at hb with hwaits
      · obtain rfl := List.mem_singleton.mp hb
        obtain ⟨v, hv, hvwaits⟩ := (Option.any_eq_true _ _).mp hwaits
        exact hm.seen b v hv (.inl (Bool.and_eq_true_iff.mp hvwaits).1)
      · cases hb
  · rcases hold hw with ⟨-, hw⟩ | ⟨-, v, hv, rfl⟩
    · exact hm.seen b w hw hseen
    · exact hm.seen b v hv hseen

theorem getElem?_poll_cases {w : Await α ε} (hw : (m.poll a).2.awaits[b]? = some w) :
    b ≠ a ∧ m.awaits[b]? = some w ∨ b = a ∧ ∃ v, m.awaits[b]? = some v ∧ v.looked = w := by
  rw [getElem?_poll] at hw
  split_ifs at hw with hb
  · subst hb
    exact .inr ⟨rfl, Option.map_eq_some_iff.mp hw⟩
  · exact .inl ⟨hb, hw⟩

/-- Someone comes and looks, whatever job is running. -/
theorem Attentive.look (hm : m.Attentive sought) (ha : a < m.awaits.size) :
    (m.poll a).2.Attentive fun b => sought b ∨ b = a := by
  refine ⟨fun b hb => ?_, fun b w hw hanswered => ?_, fun b w hb hw hrests => ?_, fun b hb => ?_,
    fun b w hw hseen => ?_⟩
  · refine Nat.lt_of_lt_of_le ?_ (alike_poll m a).awaits
    rcases hb with hb | rfl
    · exact hm.known b hb
    · exact ha
  · rcases getElem?_poll_cases hw with ⟨-, hw⟩ | ⟨-, v, hv, rfl⟩
    · exact hm.outcome b w hw hanswered
    · rw [Await.outcome_looked]
      have houtcome := hm.outcome b v hv
      rcases v with ⟨_ | y, polled, answered⟩
      · exact houtcome hanswered
      · rfl
  · rcases getElem?_poll_cases hw with ⟨hne, hw⟩ | ⟨-, v, -, rfl⟩
    · rw [polls_poll]
      exact hm.looks b w (hb.resolve_right hne) hw hrests
    · rw [Await.rests_looked] at hrests
      cases hrests
  · rw [polls_poll] at hb
    exact .inl (hm.queued b hb)
  · rcases getElem?_poll_cases hw with ⟨-, hw⟩ | ⟨hb, -⟩
    · exact .inl (hm.seen b w hw hseen)
    · exact .inr hb

/-- A look that was queued is taken. The await has no other look ahead of it then, and needs none. -/
theorem Attentive.poll (hm : m.Attentive sought) (hj : m.next? = some (.poll a, m')) :
    (m'.poll a).2.Attentive sought := by
  obtain ⟨-, -, -, hawaits⟩ := next?_eq_some hj
  have hpolls : m.polls = a :: (m'.poll a).2.polls := by
    rw [polls_next? hj, polls_poll]
    rfl
  have hget (b : AwaitId) : (m'.poll a).2.awaits[b]? = (m.poll a).2.awaits[b]? := by
    rw [getElem?_poll, getElem?_poll, hawaits]
  have ha : sought a := hm.queued a (hpolls ▸ List.mem_cons_self)
  have hlook := hm.look (hm.known a ha)
  refine ⟨fun b hb => ?_, fun b w hw => hlook.outcome b w (hget b ▸ hw),
    fun b w hb hw hrests => ?_, fun b hb => ?_, fun b w hw hseen => ?_⟩
  · exact Nat.lt_of_lt_of_le (hawaits ▸ hm.known b hb) (alike_poll m' a).awaits
  · have hmem := hlook.looks b w (.inl hb) (hget b ▸ hw) hrests
    rw [polls_poll, hpolls] at hmem
    rcases List.mem_cons.mp hmem with rfl | hmem
    · rcases getElem?_poll_cases hw with ⟨hne, -⟩ | ⟨-, v, -, rfl⟩
      · exact absurd rfl hne
      · rw [Await.rests_looked] at hrests
        cases hrests
    · exact hmem
  · exact hm.queued b (hpolls ▸ List.mem_cons_of_mem a hb)
  · exact (hlook.seen b w (hget b ▸ hw) hseen).elim id (· ▸ ha)

/-- Someone will come. -/
theorem Attentive.lookLater (hm : m.Attentive sought) (ha : a < m.awaits.size) :
    (m.lookLater a).Attentive fun b => sought b ∨ b = a := by
  have hpolls : (m.lookLater a).polls = m.polls ++ [a] := polls_enqueue m (.poll a)
  refine ⟨fun b hb => hb.elim (hm.known b) (· ▸ ha), hm.outcome, fun b w hb hw hrests => ?_, fun b hb => ?_,
    fun b w hw hseen => .inl (hm.seen b w hw hseen)⟩
  · rw [hpolls, List.mem_append, List.mem_singleton]
    exact hb.imp_left fun hb => hm.looks b w hb hw hrests
  · rw [hpolls, List.mem_append, List.mem_singleton] at hb
    exact hb.imp_left fun hb => hm.queued b hb

theorem getElem?_await (m : Machine α ε κ τ) (p : PromiseId) (a : AwaitId) :
    (m.await p).2.awaits[a]? =
      if a = m.awaits.size then some ⟨none, false, false⟩ else m.awaits[a]? := by
  rw [awaits_await, Array.getElem?_push]

theorem polls_await (m : Machine α ε κ τ) (p : PromiseId) : (m.await p).2.polls = m.polls :=
  (spares_react { m with awaits := m.awaits.push ⟨none, false, false⟩ } p
    (.wake m.awaits.size)).polls

/-- Nobody has come for a new await. -/
theorem Attentive.await (hm : m.Attentive sought) (p : PromiseId) :
    (m.await p).2.Attentive sought := by
  have hold {a : AwaitId} {w : Await α ε} (hw : (m.await p).2.awaits[a]? = some w) :
      a ≠ m.awaits.size ∧ m.awaits[a]? = some w ∨ a = m.awaits.size ∧ ⟨none, false, false⟩ = w := by
    rw [getElem?_await] at hw
    split_ifs at hw with ha
    · exact .inr ⟨ha, Option.some.inj hw⟩
    · exact .inl ⟨ha, hw⟩
  refine ⟨fun a ha => ?_, fun a w hw hanswered => ?_, fun a w ha hw hrests => ?_, fun a ha => ?_,
    fun a w hw hseen => ?_⟩
  · have hsize : (m.await p).2.awaits.size = m.awaits.size + 1 := by
      rw [awaits_await, Array.size_push]
    exact hsize ▸ Nat.lt_succ_of_lt (hm.known a ha)
  · rcases hold hw with ⟨-, hw⟩ | ⟨-, rfl⟩
    · exact hm.outcome a w hw hanswered
    · cases hanswered
  · rw [polls_await]
    rcases hold hw with ⟨-, hw⟩ | ⟨rfl, -⟩
    · exact hm.looks a w ha hw hrests
    · exact absurd (hm.known _ ha) (Nat.lt_irrefl _)
  · exact hm.queued a (polls_await m p ▸ ha)
  · rcases hold hw with ⟨-, hw⟩ | ⟨-, rfl⟩
    · exact hm.seen a w hw hseen
    · rcases hseen with h | h <;> cases h

/-! ### What awaits are told -/

/-- Some awaits were told outcomes, each one that `out` allows. -/
def Told (out : AwaitId → Settlement α ε → Prop) (m m' : Machine α ε κ τ) : Prop :=
  ∀ a, m'.awaits[a]? = m.awaits[a]? ∨
    ∃ x, out a x ∧ m'.awaits[a]? = m.awaits[a]?.map (·.told x)

theorem Told.refl (out : AwaitId → Settlement α ε → Prop) (m : Machine α ε κ τ) : Told out m m :=
  fun _ => .inl rfl

theorem Spares.told (h : m.Spares m') : Told (fun _ _ => False) m m' := by
  intro a
  rw [h.awaits]
  exact .inl rfl

theorem Told.wake {out : AwaitId → Settlement α ε → Prop} (h : Told out m m') (ha : out a x) :
    Told out m (m'.wake a x) := by
  intro b
  rw [getElem?_wake]
  split_ifs with hb
  · subst hb
    refine .inr ?_
    rcases h b with hsame | ⟨y, hy, hb⟩
    · exact ⟨x, ha, by rw [hsame]⟩
    · -- The first outcome stays.
      refine ⟨y, hy, ?_⟩
      rw [hb, Option.map_map]
      congr 1
      funext w
      rcases w with ⟨_ | z, polled, answered⟩ <;> rfl
  · exact h b

/-- Some are told the same, one after the other. -/
theorem Attentive.wakes (hm : m.Attentive sought) (as : List AwaitId) (x : Settlement α ε) :
    (as.foldl (fun m a => m.wake a x) m).Attentive sought := by
  induction as generalizing m with
  | nil => exact hm
  | cons a as ih => exact ih (hm.wake a x)

theorem Told.wakes {out : AwaitId → Settlement α ε → Prop} {as : List AwaitId} (h : Told out m m')
    (has : ∀ a ∈ as, out a x) : Told out m (as.foldl (fun m a => m.wake a x) m') := by
  induction as generalizing m' with
  | nil => exact h
  | cons a as ih =>
    obtain ⟨ha, has⟩ := List.forall_mem_cons.mp has
    exact ih (h.wake ha) has

end Machine

end Switchboard.Promise
