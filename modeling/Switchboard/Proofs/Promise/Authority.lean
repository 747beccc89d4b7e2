import Switchboard.Proofs.Promise.Transfer

/-!
# One right for each pending promise

`Sound hand s` is what holds between any two transfers: every right to settle a promise that is
anywhere (in an unused resolver, in a reaction, in a call or in hand) needs room in the promise,
which has room for one outcome while it is pending and for none after that; and the outcomes ever
put to a promise are those that it has. So an outcome is never put to a promise that has one.

- `Transfers.sound`: no chain of transfers leaves `Sound`.
- `settlement_authority`: between two jobs, at most one way to settle each pending promise, none for
  a settled one, and what follows from that for whole runs.

The invariant is an inequality and not an equation, since a right may be lost: a promise can be made
that nothing will settle. Its two parts need each other. That the first outcome is the only one holds
because who settles has a right in hand, which by the first part means that the promise is pending; and
settling keeps the first part since it takes the room and the right together.

The bound is stated between two jobs, when no call is open. While code of the program runs, the right
may be in a call, and a bound on resolvers and reactions alone would say less than is true.
-/

namespace Switchboard.Promise

variable {α ε κ τ : Type}

/-- The rights to settle a promise that are not in hand. -/
def Session.rights (s : Session α ε κ τ) (p : PromiseId) : Nat :=
  s.machine.authority p + (s.calls.flatMap Call.targets).count p

structure Sound (hand : List PromiseId) (s : Session α ε κ τ) : Prop where
  single : ∀ p, s.rights p + hand.count p ≤ s.machine.room p
  outcomes : ∀ p, s.outcomes p = (s.machine.settlement? p).toList

variable {hand hand' : List PromiseId} {s s' t : Session α ε κ τ} {m : Machine α ε κ τ}
  {p q : PromiseId}

/-- A right in hand is a right to settle a pending promise. -/
theorem Sound.pending (h : Sound (p :: hand) s) :
    ∃ rs, s.machine.slots[p]? = some (.pending rs) := by
  have hp := h.single p
  rw [List.count_cons_self] at hp
  exact Machine.room_pos.mp (by omega)

theorem Sound.settlement?_eq_none (h : Sound (p :: hand) s) :
    s.machine.settlement? p = none := by
  obtain ⟨rs, hrs⟩ := h.pending
  exact Machine.settlement?_of_pending hrs

/-- Who has the right to settle a promise settles it. -/
theorem Sound.settlement?_settle (h : Sound (p :: hand) s) (x : Settlement α ε) (q : PromiseId) :
    (s.settle p x).machine.settlement? q = if q = p then some x else s.machine.settlement? q := by
  obtain ⟨rs, hrs⟩ := h.pending
  exact Machine.settlement?_settle hrs x q

/-- A right in hand is nowhere else. -/
theorem Sound.authority_eq_zero (h : Sound (p :: hand) s) : s.machine.authority p = 0 := by
  have hp := h.single p
  have hroom := s.machine.room_le_one p
  rw [List.count_cons_self] at hp
  unfold Session.rights at hp
  omega

/-! ### What each operation does to the rights -/

section Rights

variable (s : Session α ε κ τ) (p q : PromiseId)

theorem rights_create : s.create.rights p = s.rights p := by
  show s.machine.create.2.authority p + (s.calls.flatMap Call.targets).count p = _
  rw [Machine.authority, Machine.latches_create, Machine.outstanding_create]
  rfl

theorem rights_openResolver :
    (s.openResolver p).rights q = s.rights q + if q = p then 1 else 0 := by
  show (s.machine.openResolver p).2.authority q + (s.calls.flatMap Call.targets).count q = _
  rw [Machine.authority, Machine.latches_openResolver, Machine.outstanding_openResolver,
    Session.rights, Machine.authority]
  omega

variable {s p} in
theorem rights_use {r : ResolverId} (h : s.machine.use? r = some (p, m)) :
    Session.rights { s with machine := m } q + (if q = p then 1 else 0) = s.rights q := by
  have hlatches := Machine.latches_use h q
  have hout : m.outstanding = s.machine.outstanding := by
    obtain ⟨-, rfl⟩ := Machine.use?_eq_some h
    rfl
  simp only [Session.rights, Machine.authority, hout]
  omega

theorem rights_settle (x : Settlement α ε) : (s.settle p x).rights q = s.rights q := by
  show (s.machine.settle p x).authority q + (s.calls.flatMap Call.targets).count q = _
  rw [Machine.authority, Machine.latches_settle,
    (Machine.outstanding_settle s.machine p x).countP_eq]
  rfl

variable {q} in
theorem rights_react (hq : q < s.machine.slots.size) (r : Reaction κ) :
    (s.react q r).rights p = s.rights p + r.target?.toList.count p := by
  have hr : r.target?.toList.count p = if r.target? == some p then 1 else 0 := by
    cases r.target? <;> simp [List.count_cons]
  show (s.machine.react q r).authority p + (s.calls.flatMap Call.targets).count p = _
  rw [Machine.authority, Machine.latches_react, (Machine.outstanding_react hq r).countP_eq,
    List.countP_cons, hr, Session.rights, Machine.authority]
  omega

theorem rights_call (c : Call) : (s.call c).rights p = s.rights p + c.targets.count p := by
  show s.machine.authority p + ((c :: s.calls).flatMap Call.targets).count p = _
  rw [List.flatMap_cons, List.count_append, Session.rights]
  omega

variable {s} in
theorem rights_finish {c : Call} {cs : List Call} (h : s.calls = c :: cs) :
    Session.rights { s with calls := cs } p + c.targets.count p = s.rights p := by
  simp only [Session.rights, h, List.flatMap_cons, List.count_append]
  omega

variable {s} in
theorem rights_host (h : s.machine.Alike m) :
    Session.rights { s with machine := m } p = s.rights p := by
  simp only [Session.rights, Machine.authority, Machine.latches, Machine.outstanding, h.slots,
    h.resolvers, h.due]

variable {s} in
/-- The host takes a right out of the queue. -/
theorem rights_take {j : Job α ε κ τ} (h : s.machine.next? = some (j, m)) :
    Session.rights { s with machine := m } p + j.targets.count p = s.rights p := by
  have htargets : j.targets.count p
      = (j.delivery?.toList.map (·.1)).countP (·.target? == some p) := by
    unfold Job.targets
    rcases j.delivery? with _ | ⟨r, x⟩
    · rfl
    · show r.target?.toList.count p = List.countP _ [r]
      cases hr : r.target? <;> simp [hr, List.count_cons]
  have hdue := Machine.due_next? h
  obtain ⟨-, hslots, hresolvers, -⟩ := Machine.next?_eq_some h
  simp only [Session.rights, Machine.authority, Machine.latches, Machine.outstanding, hdue,
    hslots, hresolvers, List.map_append, List.countP_append, htargets]
  omega

end Rights

/-! ### What keeps a session sound -/

theorem sound_empty : Sound [] (.empty : Session α ε κ τ) := by
  refine ⟨fun p => Nat.le_of_eq ?_, fun p => ?_⟩
  · simp [Session.rights, Machine.authority, Machine.latches, Machine.outstanding, Machine.due,
      Session.empty, Machine.empty, Machine.room]
  · simp [Session.outcomes, Session.settlements, Session.empty, Machine.empty,
      Machine.settlement?]

theorem Sound.create (h : Sound hand s) : Sound (s.machine.slots.size :: hand) s.create := by
  refine ⟨fun p => ?_, fun p => ?_⟩
  · have hp := h.single p
    show s.create.rights p + _ ≤ s.machine.create.2.room p
    -- The new promise has room for the one right that comes with it.
    rw [rights_create, Machine.room_create, List.count_cons, beq_eq_decide]
    simp only [decide_eq_true_eq, eq_comm (a := s.machine.slots.size)]
    omega
  · show s.outcomes p = (s.machine.create.2.settlement? p).toList
    rw [Machine.settlement?_create, h.outcomes]

theorem Sound.lose (h : Sound (p :: hand) s) : Sound hand s := by
  refine ⟨fun q => ?_, h.outcomes⟩
  have hq := h.single q
  rw [List.count_cons] at hq
  omega

theorem Sound.latch (h : Sound (p :: hand) s) : Sound hand (s.openResolver p) := by
  refine ⟨fun q => ?_, h.outcomes⟩
  have hq := h.single q
  show _ ≤ s.machine.room q
  rw [rights_openResolver]
  simp only [List.count_cons, beq_iff_eq, eq_comm (a := p)] at hq
  omega

theorem Sound.use (h : Sound hand s) {r : ResolverId} (hr : s.machine.use? r = some (p, m)) :
    Sound (p :: hand) { s with machine := m } := by
  have hslots : m.slots = s.machine.slots := by rw [(Machine.use?_eq_some hr).2]
  refine ⟨fun q => ?_, fun q => ?_⟩
  · have hq := h.single q
    have huse := rights_use q hr
    simp only [List.count_cons, beq_iff_eq, eq_comm (a := p), Machine.room, hslots] at hq ⊢
    omega
  · show s.outcomes q = (m.settlement? q).toList
    rw [h.outcomes, Machine.settlement?_congr hslots]

/-- A right in hand is spent on an outcome. -/
theorem Sound.settle (h : Sound (p :: hand) s) (x : Settlement α ε) :
    Sound hand (s.settle p x) := by
  obtain ⟨rs, hrs⟩ := h.pending
  refine ⟨fun q => ?_, fun q => ?_⟩
  · -- The room of the promise goes, and with it the right in hand.
    have hq := h.single q
    have hroom := Machine.room_settle hrs x q
    show _ ≤ (s.machine.settle p x).room q
    rw [rights_settle]
    simp only [List.count_cons, beq_iff_eq, eq_comm (a := p)] at hq
    omega
  · rw [Session.outcomes_settle, h.outcomes, h.settlement?_settle]
    split_ifs with hq
    · -- The promise was pending, so this is the first outcome put to it.
      rw [hq, h.settlement?_eq_none]
      rfl
    · rw [List.append_nil]

/-- A right in hand is put into a reaction. -/
theorem Sound.react {r : Reaction κ} (h : Sound (r.target?.toList ++ hand) s)
    (hq : q < s.machine.slots.size) : Sound hand (s.react q r) := by
  refine ⟨fun p => ?_, fun p => ?_⟩
  · have hp := h.single p
    show _ ≤ (s.machine.react q r).room p
    rw [rights_react s p hq, Machine.room_react]
    rw [List.count_append] at hp
    omega
  · show _ = ((s.machine.react q r).settlement? p).toList
    rw [Machine.settlement?_react, ← h.outcomes, Session.outcomes, Session.settlements_react]
    rfl

/-- What is written to the log besides outcomes changes nothing. -/
theorem Sound.record (h : Sound hand s) {e : Event α ε κ τ} (he : e.settlement? = none) :
    Sound hand (s.record e) := by
  refine ⟨h.single, fun p => ?_⟩
  rw [Session.outcomes, Session.settlements_record_of_none he]
  exact h.outcomes p

theorem Sound.adopt [Cause ε] (h : Sound (p :: hand) s) (hq : q < s.machine.slots.size) :
    Sound hand (s.adopt p q) := by
  have hrec : Sound (p :: hand) (s.record (.adopted p q)) := h.record rfl
  exact Session.adopt_cases (fun _ => hrec.settle _) (fun x _ _ => hrec.settle x)
    fun _ _ => Sound.react (r := .adoption p) hrec hq

theorem Sound.call (c : Call) (h : Sound (c.targets ++ hand) s) : Sound hand (s.call c) := by
  refine ⟨fun p => ?_, h.outcomes⟩
  have hp := h.single p
  show _ ≤ s.machine.room p
  rw [rights_call]
  rw [List.count_append] at hp
  omega

theorem Sound.finish (h : Sound hand s) {c : Call} {cs : List Call} (hc : s.calls = c :: cs) :
    Sound (c.targets ++ hand) { s with calls := cs } := by
  refine ⟨fun p => ?_, h.outcomes⟩
  have hp := h.single p
  rw [← rights_finish p hc] at hp
  rw [List.count_append]
  show _ ≤ s.machine.room p
  omega

theorem Sound.host (h : Sound hand s) (hm : s.machine.Alike m) :
    Sound hand { s with machine := m } := by
  refine ⟨fun p => ?_, fun p => ?_⟩
  · have hp := h.single p
    rw [rights_host p hm]
    simpa only [Machine.room, hm.slots] using hp
  · show s.outcomes p = (m.settlement? p).toList
    rw [h.outcomes, Machine.settlement?_congr hm.slots]

theorem Sound.take (h : Sound hand s) {j : Job α ε κ τ} (hj : s.machine.next? = some (j, m)) :
    Sound (j.targets ++ hand) (s.taken j m) := by
  obtain ⟨-, hslots, -, -⟩ := Machine.next?_eq_some hj
  refine Sound.record (Sound.mk (fun p => ?_) fun p => ?_) rfl
  · have hp := h.single p
    rw [← rights_take p hj] at hp
    rw [List.count_append]
    simp only [Machine.room, hslots] at hp ⊢
    omega
  · show s.outcomes p = (m.settlement? p).toList
    rw [h.outcomes, Machine.settlement?_congr hslots]

/-! ### Transfers and runs -/

theorem Transfer.sound [Cause ε] (ht : Transfer hand s hand' s') (h : Sound hand s) :
    Sound hand' s' := by
  cases ht with
  | create => exact h.create
  | lose => exact h.lose
  | latch => exact h.latch
  | use hr => exact h.use hr
  | settle x => exact h.settle x
  | adopt hq => exact h.adopt hq
  | register hp code =>
    refine Sound.react (r := .handler code _) h.create ?_
    simpa [Session.create] using Nat.lt_succ_of_lt hp
  | await hp =>
    -- A wake settles nothing, so no right is needed for it.
    have hpush := h.host (Machine.alike_push s.machine ⟨none, false, false⟩)
    exact Sound.react (r := .wake _) hpush hp
  | call c => exact h.call c
  | finish hc => exact h.finish hc
  | take hj _ => exact h.take hj
  | follow hj => exact Sound.settle (h.take hj) _
  | host hm => exact h.host hm

theorem Transfers.sound [Cause ε] (ht : Transfers hand s hand' s') (h : Sound hand s) :
    Sound hand' s' := by
  induction ht with
  | refl => exact h
  | tail _ ht ih => exact ht.sound (ih h)

/-- An outcome stays. -/
theorem Transfers.settlement?_of_some [Cause ε] (ht : Transfers hand s hand' s') (h : Sound hand s)
    {x : Settlement α ε} (hx : s.machine.settlement? p = some x) :
    s'.machine.settlement? p = some x := by
  -- The log only grows, and before and after it has one outcome of `p` at most.
  obtain ⟨l, hl⟩ := ht.log_grows
  have hout : s'.outcomes p = s.outcomes p ++ Session.outcomes { s with log := l } p := by
    simp only [Session.outcomes, Session.settlements, ← hl, List.filterMap_append,
      List.filter_append, List.map_append]
  rw [(ht.sound h).outcomes, h.outcomes, hx] at hout
  rcases hx' : s'.machine.settlement? p with _ | y
  · rw [hx'] at hout
    simp at hout
  · rw [hx'] at hout
    obtain ⟨rfl, -⟩ : y = x ∧ _ := by simpa using hout
    rfl

section Runs

variable [Cause ε] [Registration κ]

theorem Reachable.sound (hs : Reachable s) : Sound [] s := (Run.transfers hs).sound sound_empty

/-- The promise of an unused resolver is pending. -/
theorem Reachable.settlement?_of_unused (hs : Reachable s) {r : ResolverId}
    (hp : s.machine.target? r = some p) (hr : s.machine.used r = false) :
    s.machine.settlement? p = none := by
  obtain ⟨m, hm⟩ := Machine.use?_of_unused hp hr
  have hslots : m.slots = s.machine.slots := by rw [(Machine.use?_eq_some hm).2]
  rw [← Machine.settlement?_congr hslots]
  exact (hs.sound.use hm).settlement?_eq_none

/-- **Single settlement authority.** Between two jobs there is at most one way in which a pending
promise can still be settled, and none for a settled one. In every run the outcomes ever put to a
promise are none while it is pending and exactly the one that it has after that, so none is ever
ignored, and a promise that has an outcome keeps it. -/
theorem settlement_authority (hs : Reachable s) (ht : Run s t) (p : PromiseId) :
    (s.calls = [] →
      (s.machine.settlement? p = none → s.machine.authority p ≤ 1) ∧
      (∀ x, s.machine.settlement? p = some x → s.machine.authority p = 0)) ∧
    s.outcomes p = (s.machine.settlement? p).toList ∧
    (∀ x, s.machine.settlement? p = some x → t.machine.settlement? p = some x) := by
  have hsound := hs.sound
  have hsingle := hsound.single p
  refine ⟨fun hcalls => ⟨fun _ => ?_, fun x hx => ?_⟩, hsound.outcomes p, fun x hx => ?_⟩
  · have hroom := s.machine.room_le_one p
    unfold Session.rights at hsingle
    omega
  · rw [Machine.room_of_settled hx] at hsingle
    unfold Session.rights at hsingle
    omega
  · exact (Run.transfers ht).settlement?_of_some hsound hx

/-- A promise that adopted a pending one: the right to settle it waits in the other. -/
theorem settlement_authority_adoption :
    let s : Session Nat String (Handlers Nat String Unit) Unit :=
      (Session.empty.defer.defer).via 0 (.ok (.promise 1))
    let t := s.via 1 (.ok (.value 7))
    Reachable s ∧ Run s t ∧ s.calls = [] ∧ s.machine.latches 0 = 0 ∧ s.machine.authority 0 = 1 ∧
      s.outcomes 0 = [] ∧ s.machine.authority 1 ≤ 1 ∧ t.outcomes 1 = [.fulfilled 7] := by
  intro s t
  have hs : Reachable s := .tail (.tail (.single .defer) .defer) (.via 0 Nat.one_lt_two)
  have ht : Run s t := .single (.via 1 trivial)
  obtain ⟨hone, -, -⟩ := settlement_authority hs ht 1
  obtain ⟨-, houtcomes, -⟩ := settlement_authority hs ht 0
  obtain ⟨-, htaken, -⟩ := settlement_authority (hs.trans ht) .refl 1
  exact ⟨hs, ht, rfl, by decide, by decide, houtcomes, (hone rfl).1 (by decide), htaken⟩

end Runs

end Switchboard.Promise
