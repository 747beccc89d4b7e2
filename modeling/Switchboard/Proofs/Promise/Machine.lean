import Mathlib.Data.List.Perm.Basic
import Switchboard.Promise.Work

/-!
# What the operations of the promise machine do

One lemma for each operation and each view of a machine, so that later proofs never open an
operation:

- `Machine.room`: a pending promise has room for one outcome, any other number for none.
- `Machine.due`: the deliveries in the queue, the next one first.
- `Machine.outstanding`: the reactions that wait in a promise or in the queue. Settling a promise
  only moves them (`outstanding_settle`).
- `Machine.latches`: the unused resolvers of a promise.
- `Machine.authority`: the number of ways in which a promise can still be settled.
- `Machine.Alike`: machines that agree in all of these.

A number that belongs to no promise is a settled promise in all that matters: it has no room, holds
nothing and ignores outcomes. So the lemmas about settling need no bound on the number. Registering is
different, as a reaction on an unknown promise would be lost, and `outstanding_react` asks for the
bound.

Order matters for `due`, which is a list in the order of delivery. It does not matter for
`outstanding`, where a reaction leaves a promise in the middle of the machine and comes up at the end of
the queue; what is said about that is up to permutation.
-/

namespace Switchboard.Promise

variable {α ε κ τ : Type}

/-- The promise that a reaction settles. -/
def Reaction.target? : Reaction κ → Option PromiseId
  | .handler _ d => some d
  | .adoption t => some t
  | .wake _ => none

def Slot.settlement? : Slot α ε κ → Option (Settlement α ε)
  | .pending _ => none
  | .settled x => some x

namespace Machine

/-- 1 for a pending promise, 0 for a settled or unknown one. -/
def room (m : Machine α ε κ τ) (p : PromiseId) : Nat :=
  match m.slots[p]? with
  | some (.pending _) => 1
  | _ => 0

/-- The unused resolvers of a promise. -/
def latches (m : Machine α ε κ τ) (p : PromiseId) : Nat :=
  m.resolvers.countP fun r => r.target == p && !r.used

/-- The ways in which a promise can still be settled: by an unused resolver, by a handler whose
dependent it is, or by the promise that it adopted. -/
def authority (m : Machine α ε κ τ) (p : PromiseId) : Nat :=
  m.latches p + m.outstanding.countP (·.target? == some p)

/-- Machines that differ in their awaits and in jobs other than deliveries at most. No await is
forgotten. -/
structure Alike (m m' : Machine α ε κ τ) : Prop where
  slots : m'.slots = m.slots
  resolvers : m'.resolvers = m.resolvers
  awaits : m.awaits.size ≤ m'.awaits.size
  due : m'.due = m.due

variable {m m' : Machine α ε κ τ} {p q : PromiseId} {rs : List (Reaction κ)}

theorem Alike.refl (m : Machine α ε κ τ) : m.Alike m := ⟨rfl, rfl, Nat.le_refl _, rfl⟩

theorem Alike.trans {m₁ m₂ m₃ : Machine α ε κ τ} (h : m₁.Alike m₂) (h' : m₂.Alike m₃) :
    m₁.Alike m₃ :=
  ⟨h'.slots.trans h.slots, h'.resolvers.trans h.resolvers, Nat.le_trans h.awaits h'.awaits,
    h'.due.trans h.due⟩

/-! ### Pending and settled promises -/

theorem settlement?_eq (m : Machine α ε κ τ) (p : PromiseId) :
    m.settlement? p = m.slots[p]?.bind Slot.settlement? := by
  unfold settlement?
  rcases m.slots[p]? with _ | _ | _ <;> rfl

theorem reactions_eq (m : Machine α ε κ τ) (p : PromiseId) :
    m.reactions p = (m.slots[p]?.map Slot.held).getD [] := by
  unfold reactions
  rcases m.slots[p]? with _ | _ | _ <;> rfl

theorem state_eq (m : Machine α ε κ τ) (p : PromiseId) :
    m.state p = ((m.settlement? p).map Settlement.state).getD .pending := by
  unfold state
  rcases m.settlement? p with _ | _ <;> rfl

/-- The promises tell the outcomes. -/
theorem settlement?_congr (h : m'.slots = m.slots) (p : PromiseId) :
    m'.settlement? p = m.settlement? p := by
  rw [settlement?_eq, settlement?_eq, h]

theorem reactions_congr (h : m'.slots = m.slots) (p : PromiseId) :
    m'.reactions p = m.reactions p := by
  rw [reactions_eq, reactions_eq, h]

theorem room_le_one (m : Machine α ε κ τ) (p : PromiseId) : m.room p ≤ 1 := by
  unfold room
  split <;> omega

/-- There is room exactly in a pending promise. -/
theorem room_pos : 0 < m.room p ↔ ∃ rs, m.slots[p]? = some (.pending rs) := by
  unfold room
  rcases m.slots[p]? with _ | rs | x
  · simp
  · exact iff_of_true Nat.one_pos ⟨rs, rfl⟩
  · simp

theorem room_of_settled {x : Settlement α ε} (h : m.settlement? p = some x) : m.room p = 0 := by
  rw [settlement?_eq] at h
  unfold room
  rcases hs : m.slots[p]? with _ | _ | _ <;> simp_all [Slot.settlement?]

theorem settlement?_of_pending (h : m.slots[p]? = some (.pending rs)) :
    m.settlement? p = none := by
  simp [settlement?_eq, h, Slot.settlement?]

/-- Only promises that exist have outcomes. -/
theorem lt_of_settlement? {x : Settlement α ε} (h : m.settlement? p = some x) :
    p < m.slots.size := by
  rw [settlement?_eq] at h
  by_contra hp
  rw [Array.getElem?_eq_none (Nat.le_of_not_lt hp)] at h
  cases h

/-- A known promise without an outcome is pending. -/
theorem pending_of_lt (hp : p < m.slots.size) (h : m.settlement? p = none) :
    m.slots[p]? = some (.pending (m.reactions p)) := by
  rw [settlement?_eq] at h
  rw [reactions_eq]
  obtain ⟨s, hs⟩ : ∃ s, m.slots[p]? = some s := ⟨_, Array.getElem?_eq_getElem hp⟩
  rw [hs] at h ⊢
  cases s with
  | pending rs => rfl
  | settled x => simp [Slot.settlement?] at h

/-- A settled promise holds no reactions. -/
theorem reactions_of_settled {x : Settlement α ε} (h : m.settlement? p = some x) :
    m.reactions p = [] := by
  rw [settlement?_eq] at h
  rw [reactions_eq]
  rcases hs : m.slots[p]? with _ | _ | _ <;> simp_all [Slot.settlement?, Slot.held]

/-- An outstanding reaction is a way to settle its target. -/
theorem authority_pos {r : Reaction κ} (h : r ∈ m.outstanding) (hr : r.target? = some p) :
    0 < m.authority p := by
  have : 0 < m.outstanding.countP (·.target? == some p) :=
    List.countP_pos_iff.mpr ⟨r, h, by simp [hr]⟩
  unfold authority
  omega

/-! ### Creation -/

theorem getElem?_create (m : Machine α ε κ τ) (p : PromiseId) :
    m.create.2.slots[p]? = if p = m.slots.size then some (.pending []) else m.slots[p]? := by
  simp [create, Array.getElem?_push]

@[simp] theorem size_create (m : Machine α ε κ τ) :
    m.create.2.slots.size = m.slots.size + 1 := by
  simp [create]

@[simp] theorem latches_create (m : Machine α ε κ τ) (p : PromiseId) :
    m.create.2.latches p = m.latches p := rfl

@[simp] theorem outstanding_create (m : Machine α ε κ τ) :
    m.create.2.outstanding = m.outstanding := by
  simp [outstanding, create, due, Slot.held]

@[simp] theorem settlement?_create (m : Machine α ε κ τ) (p : PromiseId) :
    m.create.2.settlement? p = m.settlement? p := by
  rw [settlement?_eq, settlement?_eq, getElem?_create]
  split_ifs with h
  · rw [h, Array.getElem?_eq_none (Nat.le_refl _)]
    rfl
  · rfl

@[simp] theorem reactions_create (m : Machine α ε κ τ) (p : PromiseId) :
    m.create.2.reactions p = m.reactions p := by
  rw [reactions_eq, reactions_eq, getElem?_create]
  split_ifs with h
  · rw [h, Array.getElem?_eq_none (Nat.le_refl _)]
    rfl
  · rfl

theorem room_create (m : Machine α ε κ τ) (p : PromiseId) :
    m.create.2.room p = m.room p + if p = m.slots.size then 1 else 0 := by
  unfold room
  rw [getElem?_create]
  split_ifs with h
  · rw [h, Array.getElem?_eq_none (Nat.le_refl _)]
  · rfl

/-! ### Settling

Every view is given twice where the two differ: for a pending promise, with the reactions that it holds
as a hypothesis, and for one without room, which stays as it is. -/

theorem settle_of_pending (h : m.slots[p]? = some (.pending rs)) (x : Settlement α ε) :
    m.settle p x =
      { m with
        slots := m.slots.setIfInBounds p (.settled x)
        queue := m.queue ++ rs.map (Job.deliver · x) } := by
  simp [settle, h]

/-- A promise that is settled or unknown ignores an outcome. -/
theorem settle_of_room (h : m.room p = 0) (x : Settlement α ε) : m.settle p x = m := by
  unfold room at h
  unfold settle
  rcases hs : m.slots[p]? with _ | _ | _ <;> simp_all

@[simp] theorem latches_settle (m : Machine α ε κ τ) (p q : PromiseId) (x : Settlement α ε) :
    (m.settle p x).latches q = m.latches q := by
  unfold settle
  split <;> rfl

@[simp] theorem awaits_settle (m : Machine α ε κ τ) (p : PromiseId) (x : Settlement α ε) :
    (m.settle p x).awaits = m.awaits := by
  unfold settle
  split <;> rfl

@[simp] theorem size_settle (m : Machine α ε κ τ) (p : PromiseId) (x : Settlement α ε) :
    (m.settle p x).slots.size = m.slots.size := by
  unfold settle
  split <;> simp

@[simp] theorem resolvers_settle (m : Machine α ε κ τ) (p : PromiseId) (x : Settlement α ε) :
    (m.settle p x).resolvers = m.resolvers := by
  unfold settle
  split <;> rfl

theorem getElem?_settle (h : m.slots[p]? = some (.pending rs)) (x : Settlement α ε)
    (q : PromiseId) :
    (m.settle p x).slots[q]? = if q = p then some (.settled x) else m.slots[q]? := by
  obtain ⟨hp, -⟩ := Array.getElem?_eq_some_iff.mp h
  rw [settle_of_pending h]
  simp only [Array.getElem?_setIfInBounds, hp, if_true, eq_comm (a := p)]

theorem settlement?_settle (h : m.slots[p]? = some (.pending rs)) (x : Settlement α ε)
    (q : PromiseId) :
    (m.settle p x).settlement? q = if q = p then some x else m.settlement? q := by
  rw [settlement?_eq, settlement?_eq, getElem?_settle h]
  split_ifs <;> rfl

theorem reactions_settle (h : m.slots[p]? = some (.pending rs)) (x : Settlement α ε)
    (q : PromiseId) :
    (m.settle p x).reactions q = if q = p then [] else m.reactions q := by
  rw [reactions_eq, reactions_eq, getElem?_settle h]
  split_ifs <;> rfl

theorem room_settle (h : m.slots[p]? = some (.pending rs)) (x : Settlement α ε)
    (q : PromiseId) : (m.settle p x).room q + (if q = p then 1 else 0) = m.room q := by
  unfold room
  rw [getElem?_settle h]
  split_ifs with hq
  · rw [hq, h]
  · rfl

/-- The reactions that a promise held become due in the order of their registration. -/
theorem due_settle (h : m.slots[p]? = some (.pending rs)) (x : Settlement α ε) :
    (m.settle p x).due = m.due ++ rs.map (·, x) := by
  rw [settle_of_pending h]
  simp only [due, List.filterMap_append, List.filterMap_map]
  exact congrArg _ (congrFun (List.filterMap_eq_map (f := (·, x))) rs)

/-- An outcome stays. -/
theorem settlement?_settle_of_some {x : Settlement α ε} (h : m.settlement? q = some x)
    (p : PromiseId) (y : Settlement α ε) : (m.settle p y).settlement? q = some x := by
  rcases Nat.eq_zero_or_pos (m.room p) with hp | hp
  · rw [settle_of_room hp, h]
  · obtain ⟨rs, hrs⟩ := room_pos.mp hp
    rw [settlement?_settle hrs, if_neg, h]
    -- `p` is pending here, so it is not the promise with the outcome.
    rintro rfl
    rw [settlement?_of_pending hrs] at h
    cases h

/-- Settling gives no promise another outcome. -/
theorem settlement?_of_settle {x y : Settlement α ε} (h : (m.settle p x).settlement? q = some y) :
    m.settlement? q = some y ∨ q = p ∧ y = x := by
  rcases Nat.eq_zero_or_pos (m.room p) with hroom | hroom
  · rw [settle_of_room hroom] at h
    exact .inl h
  · obtain ⟨rs, hrs⟩ := room_pos.mp hroom
    rw [settlement?_settle hrs] at h
    split_ifs at h with hq
    · exact .inr ⟨hq, (Option.some.inj h).symm⟩
    · exact .inl h

/-- Replacing one element replaces its share of a `flatMap`. -/
theorem flatMap_set_perm {β γ : Type} (f : β → List γ) {l : List β} {i : Nat} {a : β}
    (h : l[i]? = some a) (b : β) :
    (f a ++ (l.set i b).flatMap f).Perm (f b ++ l.flatMap f) := by
  induction l generalizing i with
  | nil => simp at h
  | cons c l ih =>
    cases i with
    | zero =>
      obtain rfl : c = a := by simpa using h
      simp only [List.set_cons_zero, List.flatMap_cons, ← List.append_assoc]
      exact List.perm_append_comm.append_right _
    | succ i =>
      have hi := ih (i := i) (by simpa using h)
      simp only [List.set_cons_succ, List.flatMap_cons]
      refine (List.perm_append_comm_assoc _ _ _).trans ?_
      exact (hi.append_left _).trans (List.perm_append_comm_assoc _ _ _)

/-- Settling moves reactions and neither makes nor loses one. -/
theorem outstanding_settle (m : Machine α ε κ τ) (p : PromiseId) (x : Settlement α ε) :
    (m.settle p x).outstanding.Perm m.outstanding := by
  rcases Nat.eq_zero_or_pos (m.room p) with hp | hp
  · rw [settle_of_room hp]
  · obtain ⟨rs, hrs⟩ := room_pos.mp hp
    -- What the slot gives up is what the queue gets.
    have hset := flatMap_set_perm Slot.held (l := m.slots.toList)
      (by simpa using hrs) (.settled x : Slot α ε κ)
    unfold outstanding
    rw [due_settle hrs, settle_of_pending hrs]
    simp only [Array.toList_setIfInBounds, List.map_append, List.map_map]
    simp only [Slot.held, List.nil_append] at hset
    have hmap : rs.map ((fun d : Reaction κ × Settlement α ε => d.1) ∘ (·, x)) = rs :=
      List.map_id rs
    rw [hmap, ← List.append_assoc]
    refine List.perm_append_comm.trans ?_
    rw [← List.append_assoc]
    exact hset.append_right _

/-! ### Registration

A reaction waits at a pending promise and is due at once at a settled one, so each view of `react` has
these two cases, and a view that they leave alone is a rule of `simp`. -/

/-- A known promise keeps a reaction or makes it due at once. -/
theorem outstanding_react (hp : p < m.slots.size) (r : Reaction κ) :
    (m.react p r).outstanding.Perm (r :: m.outstanding) := by
  obtain ⟨s, hs⟩ : ∃ s, m.slots[p]? = some s := ⟨_, Array.getElem?_eq_getElem hp⟩
  unfold react outstanding
  rw [hs]
  cases s with
  | pending rs =>
    have hset := flatMap_set_perm Slot.held (l := m.slots.toList)
      (by simpa using hs) (.pending (rs ++ [r]) : Slot α ε κ)
    simp only [Slot.held, List.append_assoc, List.singleton_append] at hset
    have hslots := (List.perm_append_left_iff rs).mp hset
    simpa [due] using hslots.append_right (m.due.map (·.1))
  | settled x =>
    simp only [due, enqueue, List.filterMap_append, List.map_append]
    rw [← List.append_assoc]
    exact List.perm_append_singleton r _

/-- A registration makes no reaction but its own. -/
theorem mem_outstanding_react {r r' : Reaction κ} (h : r' ∈ (m.react p r).outstanding) :
    r' = r ∨ r' ∈ m.outstanding := by
  by_cases hp : p < m.slots.size
  · exact List.mem_cons.mp ((outstanding_react hp r).mem_iff.mp h)
  · unfold react at h
    rw [Array.getElem?_eq_none (Nat.le_of_not_lt hp)] at h
    exact .inr h

theorem getElem?_react_pending (h : m.slots[p]? = some (.pending rs)) (r : Reaction κ)
    (q : PromiseId) :
    (m.react p r).slots[q]? = if q = p then some (.pending (rs ++ [r])) else m.slots[q]? := by
  obtain ⟨hp, -⟩ := Array.getElem?_eq_some_iff.mp h
  simp only [react, h, Array.getElem?_setIfInBounds, hp, if_true, eq_comm (a := p)]

@[simp] theorem latches_react (m : Machine α ε κ τ) (p q : PromiseId) (r : Reaction κ) :
    (m.react p r).latches q = m.latches q := by
  unfold react
  split <;> rfl

@[simp] theorem awaits_react (m : Machine α ε κ τ) (p : PromiseId) (r : Reaction κ) :
    (m.react p r).awaits = m.awaits := by
  unfold react
  split <;> rfl

theorem awaits_await (m : Machine α ε κ τ) (p : PromiseId) :
    (m.await p).2.awaits = m.awaits.push ⟨none, false, false⟩ := awaits_react ..

@[simp] theorem size_react (m : Machine α ε κ τ) (p : PromiseId) (r : Reaction κ) :
    (m.react p r).slots.size = m.slots.size := by
  unfold react
  split <;> simp [enqueue]

@[simp] theorem resolvers_react (m : Machine α ε κ τ) (p : PromiseId) (r : Reaction κ) :
    (m.react p r).resolvers = m.resolvers := by
  unfold react
  split <;> rfl

@[simp] theorem settlement?_react (m : Machine α ε κ τ) (p q : PromiseId) (r : Reaction κ) :
    (m.react p r).settlement? q = m.settlement? q := by
  rcases hs : m.slots[p]? with _ | rs | x
  · simp [react, hs]
  · rw [settlement?_eq, settlement?_eq, getElem?_react_pending hs]
    split_ifs with hq
    · rw [hq, hs]
      rfl
    · rfl
  · simp [react, hs, enqueue, settlement?]

@[simp] theorem room_react (m : Machine α ε κ τ) (p q : PromiseId) (r : Reaction κ) :
    (m.react p r).room q = m.room q := by
  rcases hs : m.slots[p]? with _ | rs | x
  · simp [react, hs]
  · unfold room
    rw [getElem?_react_pending hs]
    split_ifs with hq
    · rw [hq, hs]
    · rfl
  · simp [react, hs, enqueue, room]

/-- A pending promise puts a reaction behind those that it holds. -/
theorem reactions_react_pending (h : m.slots[p]? = some (.pending rs)) (r : Reaction κ)
    (q : PromiseId) :
    (m.react p r).reactions q = m.reactions q ++ if q = p then [r] else [] := by
  rw [reactions_eq, reactions_eq, getElem?_react_pending h]
  split_ifs with hq
  · rw [hq, h]
    rfl
  · simp

theorem due_react_pending (h : m.slots[p]? = some (.pending rs)) (r : Reaction κ) :
    (m.react p r).due = m.due := by
  simp [react, h, due]

/-- At a settled promise a reaction is due at once, behind all that is due already. -/
theorem react_settled {x : Settlement α ε} (h : m.settlement? p = some x) (r : Reaction κ) :
    m.react p r = m.enqueue (.deliver r x) := by
  rw [settlement?_eq] at h
  rcases hs : m.slots[p]? with _ | rs | y
  · simp [hs] at h
  · simp [hs, Slot.settlement?] at h
  · obtain rfl : y = x := by simpa [hs, Slot.settlement?] using h
    simp [react, hs]

theorem due_enqueue_deliver (m : Machine α ε κ τ) (r : Reaction κ) (x : Settlement α ε) :
    (m.enqueue (.deliver r x)).due = m.due ++ [(r, x)] := by
  simp [enqueue, due, Job.delivery?]

/-! ### Resolvers -/

theorem latches_openResolver (m : Machine α ε κ τ) (p q : PromiseId) :
    (m.openResolver p).2.latches q = m.latches q + if q = p then 1 else 0 := by
  simp only [openResolver, latches, Array.countP_push, Bool.not_false, Bool.and_true,
    beq_iff_eq, eq_comm (a := p)]

@[simp] theorem outstanding_openResolver (m : Machine α ε κ τ) (p : PromiseId) :
    (m.openResolver p).2.outstanding = m.outstanding := rfl

/-- A resolver acts if it was not used before, and is used then. -/
theorem use?_eq_some {r : ResolverId} (h : m.use? r = some (p, m')) :
    m.resolvers[r]? = some ⟨p, false⟩ ∧
      m' = { m with resolvers := m.resolvers.setIfInBounds r ⟨p, true⟩ } := by
  unfold use? at h
  split at h
  · obtain ⟨rfl, rfl⟩ : _ = p ∧ _ = m' := by simpa using h
    exact ⟨by assumption, rfl⟩
  · cases h

/-- Using a resolver takes one way to settle its target and no other. -/
theorem latches_use {r : ResolverId} (h : m.use? r = some (p, m')) (q : PromiseId) :
    m'.latches q + (if q = p then 1 else 0) = m.latches q := by
  obtain ⟨hr, rfl⟩ := use?_eq_some h
  obtain ⟨hlt, hget⟩ := Array.getElem?_eq_some_iff.mp hr
  -- The count goes down by one for `p`, so it was not zero.
  have hpos : q = p → 0 < m.resolvers.countP fun r => r.target == q && !r.used := by
    rintro rfl
    exact Array.countP_pos_iff.mpr ⟨_, Array.mem_of_getElem? hr, by simp⟩
  simp only [latches, Array.setIfInBounds, hlt, dite_true]
  rw [Array.countP_set, hget]
  split_ifs with h₁ h₂ h₃ <;> simp_all

/-- A resolver that was not used acts. -/
theorem use?_of_getElem? {r : ResolverId} (h : m.resolvers[r]? = some ⟨p, false⟩) :
    ∃ m', m.use? r = some (p, m') :=
  ⟨_, by rw [use?, h]⟩

theorem use?_of_unused {r : ResolverId} (hp : m.target? r = some p) (hr : m.used r = false) :
    ∃ m', m.use? r = some (p, m') := by
  unfold target? at hp
  unfold used at hr
  rcases hres : m.resolvers[r]? with _ | ⟨p', used⟩
  · simp [hres] at hp
  · obtain rfl : p' = p := by simpa [hres] using hp
    obtain rfl : used = false := by simpa [hres] using hr
    exact use?_of_getElem? hres

theorem use?_of_used {r : ResolverId} (hr : m.used r = true) : m.use? r = none := by
  unfold used at hr
  unfold use?
  split
  · rename_i hres
    simp [hres] at hr
  · rfl

/-- Using a resolver does not turn it to another promise. -/
theorem target?_use {r : ResolverId} (h : m.use? r = some (p, m')) (r' : ResolverId) :
    m'.target? r' = m.target? r' := by
  obtain ⟨hres, rfl⟩ := use?_eq_some h
  unfold target?
  rw [Array.getElem?_setIfInBounds]
  split_ifs with hr hlt
  · rw [← hr, hres]
    rfl
  · rw [← hr, Array.getElem?_eq_none (by omega)]
  · rfl

theorem used_use {r : ResolverId} (h : m.use? r = some (p, m')) (r' : ResolverId) :
    m'.used r' = if r = r' then true else m.used r' := by
  obtain ⟨hres, rfl⟩ := use?_eq_some h
  unfold used
  rw [Array.getElem?_setIfInBounds]
  split_ifs <;> rfl

theorem lt_of_target? {r : ResolverId} (h : m.target? r = some p) : r < m.resolvers.size := by
  unfold target? at h
  by_contra hr
  rw [Array.getElem?_eq_none (Nat.le_of_not_lt hr)] at h
  cases h

theorem target?_openResolver (m : Machine α ε κ τ) (p : PromiseId) (r : ResolverId) :
    (m.openResolver p).2.target? r = if r = m.resolvers.size then some p else m.target? r := by
  show ((m.resolvers.push ⟨p, false⟩)[r]?).map (·.target) = _
  rw [Array.getElem?_push]
  split_ifs <;> rfl

theorem used_openResolver (m : Machine α ε κ τ) (p : PromiseId) (r : ResolverId) :
    (m.openResolver p).2.used r = if r = m.resolvers.size then false else m.used r := by
  show (((m.resolvers.push ⟨p, false⟩)[r]?).map (·.used)).getD true = _
  rw [Array.getElem?_push]
  split_ifs <;> rfl

/-- A new promise with a resolver. -/
theorem target?_defer (m : Machine α ε κ τ) (r : ResolverId) :
    m.defer.2.2.target? r = if r = m.resolvers.size then some m.slots.size else m.target? r :=
  target?_openResolver m.create.2 m.slots.size r

theorem used_defer (m : Machine α ε κ τ) (r : ResolverId) :
    m.defer.2.2.used r = if r = m.resolvers.size then false else m.used r :=
  used_openResolver m.create.2 m.slots.size r

theorem settlement?_defer (m : Machine α ε κ τ) (p : PromiseId) :
    m.defer.2.2.settlement? p = m.settlement? p := settlement?_create m p

theorem size_defer (m : Machine α ε κ τ) : m.defer.2.2.slots.size = m.slots.size + 1 :=
  size_create m

theorem target?_congr (h : m'.resolvers = m.resolvers) (r : ResolverId) :
    m'.target? r = m.target? r := by
  rw [target?, h, target?]

theorem used_congr (h : m'.resolvers = m.resolvers) (r : ResolverId) : m'.used r = m.used r := by
  rw [used, h, used]

/-! ### Jobs

All that concerns awaits comes under `Alike`, which is why a step of theirs is no case in the laws about
reactions. -/

/-- Taking a job changes the queue only. -/
theorem next?_eq_some {j : Job α ε κ τ} (h : m.next? = some (j, m')) :
    m.queue = j :: m'.queue ∧ m'.slots = m.slots ∧ m'.resolvers = m.resolvers ∧
      m'.awaits = m.awaits := by
  unfold next? at h
  split at h
  · cases h
  · rename_i hq
    obtain ⟨rfl, rfl⟩ : _ = j ∧ _ = m' := by simpa using h
    exact ⟨hq, rfl, rfl, rfl⟩

/-- The host takes what was due first. -/
theorem due_next? {j : Job α ε κ τ} (h : m.next? = some (j, m')) :
    m.due = j.delivery?.toList ++ m'.due := by
  obtain ⟨hq, -⟩ := next?_eq_some h
  unfold due
  rw [hq, List.filterMap_cons]
  rcases j.delivery? with _ | d <;> rfl

/-- A delivery that is the next job is due. -/
theorem mem_due_of_next? {r : Reaction κ} {x : Settlement α ε}
    (h : m.next? = some (.deliver r x, m')) : (r, x) ∈ m.due := by
  rw [due_next? h]
  exact List.mem_append_left _ (List.mem_singleton_self _)

/-- What only concerns awaits changes nothing else. -/
theorem alike_enqueue (m : Machine α ε κ τ) {j : Job α ε κ τ} (hj : j.delivery? = none) :
    m.Alike (m.enqueue j) := by
  refine ⟨rfl, rfl, Nat.le_refl _, ?_⟩
  simp [due, enqueue, hj]

theorem alike_awaits (m : Machine α ε κ τ) {as : Array (Await α ε)}
    (h : m.awaits.size ≤ as.size) : m.Alike { m with awaits := as } := ⟨rfl, rfl, h, rfl⟩

theorem alike_push (m : Machine α ε κ τ) (a : Await α ε) :
    m.Alike { m with awaits := m.awaits.push a } := alike_awaits m (by simp)

theorem alike_wake (m : Machine α ε κ τ) (a : AwaitId) (x : Settlement α ε) :
    m.Alike (m.wake a x) := by
  unfold wake
  split
  · dsimp only
    split
    · exact (alike_awaits m (by simp)).trans (alike_enqueue _ rfl)
    · exact alike_awaits m (by simp)
  · exact Alike.refl m

theorem alike_poll (m : Machine α ε κ τ) (a : AwaitId) : m.Alike (m.poll a).2 := by
  unfold poll
  split
  · exact alike_awaits m (by simp)
  · exact alike_awaits m (by simp)
  · exact Alike.refl m

theorem alike_abandon [Cause ε] (m : Machine α ε κ τ) (p : PromiseId) :
    m.Alike (m.abandon p) := by
  unfold abandon
  generalize m.waitersOf m.slots.size p = as
  induction as generalizing m with
  | nil => exact Alike.refl m
  | cons a as ih => exact (alike_wake m a _).trans (ih _)

end Machine

end Switchboard.Promise
