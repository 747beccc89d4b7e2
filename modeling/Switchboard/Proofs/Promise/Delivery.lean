import Mathlib.Data.List.Nodup
import Switchboard.Proofs.Promise.Authority

/-!
# Deliveries in the order of registration

A reaction moves from its promise to the queue and from there into a job, and a late one goes to
the queue at once. Two facts make that an exact account:

- `Sourced s l`: `l` lists the deliveries made and due, in order, each with the promise that it
  comes from. Of each promise it has the reactions registered there, in order, up to those that the
  promise still holds.
- `Fresh s`: no two reactions of a session serve the same purpose, so a delivery tells by itself
  which registration it belongs to. A promise adopts once because it has one right only.

`delivery_order` puts the two together: made, then due, then held are the registered reactions.

## Why there is an account

A job in the queue does not say which promise it comes from, and neither does the log. The obvious
statement, that the deliveries to reactions of `p` are a prefix of those registered on `p`, is therefore
no invariant: when a job is added to the queue, nothing tells it from a job for another promise with an
equal reaction. `Sourced` gives each delivery its promise back, and says for all promises together that
they are served in order; an operation only adds at the end of the list. Once this is known of the whole
session, `Fresh` gets rid of the list again, as the purpose of a reaction tells its promise
(`Sourced.isOf_iff`).

`Fresh` depends on `Authority` in one place. Handlers and awaits are numbered anew at each registration,
but an adoption is known by its target, and a promise that could adopt twice would be served twice.
-/

namespace Switchboard.Promise

variable {α ε κ τ : Type}

/-- What a reaction is for, which no other reaction is for. -/
inductive Purpose
  | handler (dependent : PromiseId)
  | adoption (target : PromiseId)
  | wake (await : AwaitId)
  deriving DecidableEq

def Reaction.purpose : Reaction κ → Purpose
  | .handler _ d => .handler d
  | .adoption t => .adoption t
  | .wake a => .wake a

namespace Session

/-- The purposes of all registrations, in order. -/
def purposes (s : Session α ε κ τ) : List Purpose := s.registrations.map (·.2.purpose)

/-- The delivery is to a reaction registered on `p`. -/
def isOf (s : Session α ε κ τ) (p : PromiseId) (d : Reaction κ × Settlement α ε) : Bool :=
  (s.registered p).any (·.purpose == d.1.purpose)

/-- The deliveries made to reactions of `p`, in order. -/
def delivered (s : Session α ε κ τ) (p : PromiseId) : List (Reaction κ × Settlement α ε) :=
  s.deliveries.filter (s.isOf p)

/-- The deliveries in the queue to reactions of `p`, in order. -/
def queued (s : Session α ε κ τ) (p : PromiseId) : List (Reaction κ × Settlement α ε) :=
  s.machine.due.filter (s.isOf p)

@[simp] theorem purposes_settle (s : Session α ε κ τ) (p : PromiseId) (x : Settlement α ε) :
    (s.settle p x).purposes = s.purposes := by
  rw [purposes, registrations_settle, purposes]

theorem purposes_react (s : Session α ε κ τ) (p : PromiseId) (r : Reaction κ) :
    (s.react p r).purposes = s.purposes ++ [r.purpose] := by
  rw [purposes, registrations_react, List.map_append]
  rfl

theorem purposes_record (s : Session α ε κ τ) {e : Event α ε κ τ} (he : e.registration? = none) :
    (s.record e).purposes = s.purposes := by
  rw [purposes, registrations_record_of_none he, purposes]

end Session

variable {hand hand' : List PromiseId} {s s' : Session α ε κ τ} {m : Machine α ε κ τ}
  {p q : PromiseId} {l : List (PromiseId × Reaction κ × Settlement α ε)}

/-! ### Where deliveries come from

The account grows when a promise settles, by all that it held, and when a reaction comes late, by that
one. Running a job moves the border between made and due and leaves the account as it is. -/

structure Sourced (s : Session α ε κ τ)
    (l : List (PromiseId × Reaction κ × Settlement α ε)) : Prop where
  all : l.map (·.2) = s.deliveries ++ s.machine.due
  each : ∀ p, (l.filter (·.1 == p)).map (·.2.1) ++ s.machine.reactions p = s.registered p
  outcome : ∀ e ∈ l, s.machine.settlement? e.1 = some e.2.2

theorem sourced_empty : Sourced (.empty : Session α ε κ τ) [] where
  all := rfl
  each p := by simp [Session.empty, Machine.reactions, Machine.empty, Session.registered,
    Session.registrations]
  outcome e he := by cases he

/-- What neither settles, registers nor delivers changes nothing. -/
theorem Sourced.same (h : Sourced s l) (hreg : s'.registrations = s.registrations)
    (hdel : s'.deliveries = s.deliveries) (hdue : s'.machine.due = s.machine.due)
    (hreact : ∀ p, s'.machine.reactions p = s.machine.reactions p)
    (hset : ∀ p, s'.machine.settlement? p = s.machine.settlement? p) : Sourced s' l := by
  refine ⟨by rw [hdel, hdue, h.all], fun p => ?_, fun e he => ?_⟩
  · rw [hreact, h.each, Session.registered, Session.registered, hreg]
  · rw [hset, h.outcome e he]

theorem Sourced.record (h : Sourced s l) {e : Event α ε κ τ} (hr : e.registration? = none)
    (hd : e.delivery? = none) : Sourced (s.record e) l :=
  h.same (Session.registrations_record_of_none hr) (Session.deliveries_record_of_none hd) rfl
    (fun _ => rfl) fun _ => rfl

theorem Sourced.create (h : Sourced s l) : Sourced s.create l :=
  h.same rfl rfl rfl (fun p => Machine.reactions_create _ p) fun p => Machine.settlement?_create _ p

theorem Sourced.host (h : Sourced s l) (hm : s.machine.Alike m) :
    Sourced { s with machine := m } l :=
  h.same rfl rfl hm.due (fun p => Machine.reactions_congr hm.slots p)
    fun p => Machine.settlement?_congr hm.slots p

/-- The reactions of a promise become due when it settles. -/
theorem Sourced.settle (h : Sourced s l) (p : PromiseId) (x : Settlement α ε) :
    ∃ l', Sourced (s.settle p x) l' := by
  rcases Nat.eq_zero_or_pos (s.machine.room p) with hroom | hroom
  · refine ⟨l, h.same (s.registrations_settle p x) (s.deliveries_settle p x) ?_ ?_ ?_⟩ <;>
      simp [Session.settle, Session.record, Machine.settle_of_room hroom]
  · -- All that `p` held goes to the end of the account.
    obtain ⟨rs, hrs⟩ := Machine.room_pos.mp hroom
    refine ⟨l ++ rs.map (p, ·, x), ?_, fun q => ?_, fun e he => ?_⟩
    · show _ = _ ++ (s.machine.settle p x).due
      rw [List.map_append, h.all, Session.deliveries_settle, Machine.due_settle hrs,
        List.append_assoc, List.map_map]
      rfl
    · have hreg : (s.settle p x).registered q = s.registered q := by
        rw [Session.registered, Session.registrations_settle, Session.registered]
      have hq := h.each q
      show _ ++ (s.machine.settle p x).reactions q = _
      rw [hreg, ← hq, Machine.reactions_settle hrs, List.filter_append, List.map_append]
      rcases eq_or_ne q p with rfl | hne
      · have hheld : s.machine.reactions q = rs := by simp [Machine.reactions_eq, hrs, Slot.held]
        have hall : (rs.map (q, ·, x)).filter (·.1 == q) = rs.map (q, ·, x) :=
          List.filter_eq_self.mpr fun e he => by
            obtain ⟨r, -, rfl⟩ := List.mem_map.mp he
            exact beq_self_eq_true q
        rw [hall, if_pos rfl, hheld, List.append_nil, List.map_map]
        exact congrArg _ (List.map_id rs)
      · have hnone : (rs.map (p, ·, x)).filter (·.1 == q) = [] :=
          List.filter_eq_nil_iff.mpr fun e he => by
            obtain ⟨r, -, rfl⟩ := List.mem_map.mp he
            simpa using hne.symm
        rw [hnone, if_neg hne, List.map_nil, List.append_nil]
    · show (s.machine.settle p x).settlement? e.1 = _
      rcases List.mem_append.mp he with he | he
      · exact Machine.settlement?_settle_of_some (h.outcome e he) p x
      · obtain ⟨r, -, rfl⟩ := List.mem_map.mp he
        rw [Machine.settlement?_settle hrs, if_pos rfl]

/-- A reaction waits behind the others of its promise, or is due at once. -/
theorem Sourced.react (h : Sourced s l) (hq : q < s.machine.slots.size) (r : Reaction κ) :
    ∃ l', Sourced (s.react q r) l' := by
  rcases hx : s.machine.settlement? q with _ | x
  · -- The account stays, and the promise holds one more.
    have hpend := Machine.pending_of_lt hq hx
    refine ⟨l, ?_, fun p => ?_, fun e he => ?_⟩
    · show _ = _ ++ (s.machine.react q r).due
      rw [Session.deliveries_react, Machine.due_react_pending hpend, h.all]
    · show _ ++ (s.machine.react q r).reactions p = _
      rw [Machine.reactions_react_pending hpend, Session.registered_react, ← h.each,
        List.append_assoc]
    · exact (Machine.settlement?_react _ _ _ _).trans (h.outcome e he)
  · -- The promise holds none, so whatever was registered on it before is in the account already.
    have hreact := Machine.react_settled hx r
    refine ⟨l ++ [(q, r, x)], ?_, fun p => ?_, fun e he => ?_⟩
    · show _ = _ ++ (s.machine.react q r).due
      rw [hreact, Session.deliveries_react, Machine.due_enqueue_deliver, List.map_append, h.all,
        List.append_assoc]
      rfl
    · have hp := h.each p
      show _ ++ (s.machine.react q r).reactions p = _
      rw [hreact, Session.registered_react, ← hp, List.filter_append, List.map_append]
      rcases eq_or_ne p q with rfl | hne
      · have hnil : (s.machine.enqueue (.deliver r x)).reactions p = [] :=
          Machine.reactions_of_settled hx
        rw [hnil, Machine.reactions_of_settled hx]
        simp
      · simp only [hne, hne.symm, if_false, List.append_nil, List.filter_cons, beq_iff_eq,
          List.filter_nil, List.map_nil]
        rfl
    · refine (Machine.settlement?_react _ _ _ _).trans ?_
      rcases List.mem_append.mp he with he | he
      · exact h.outcome e he
      · obtain rfl := List.mem_singleton.mp he
        exact hx

theorem Sourced.take (h : Sourced s l) {j : Job α ε κ τ} (hj : s.machine.next? = some (j, m)) :
    Sourced (s.taken j m) l := by
  obtain ⟨-, hslots, -, -⟩ := Machine.next?_eq_some hj
  refine ⟨?_, fun p => ?_, fun e he => ?_⟩
  · rw [h.all, Machine.due_next? hj, Session.deliveries_record, ← List.append_assoc]
    rfl
  · refine Eq.trans ?_ ((h.each p).trans ?_)
    · show _ ++ m.reactions p = _
      rw [Machine.reactions_congr hslots]
    · rw [Session.registered, Session.registered, Session.registrations_record_of_none rfl]
      rfl
  · show m.settlement? e.1 = _
    rw [Machine.settlement?_congr hslots, h.outcome e he]

theorem Transfer.sourced [Cause ε] (ht : Transfer hand s hand' s') (h : Sourced s l) :
    ∃ l', Sourced s' l' := by
  cases ht with
  | create => exact ⟨l, h.create⟩
  | lose => exact ⟨l, h⟩
  | latch => exact ⟨l, h.same rfl rfl rfl (fun _ => rfl) fun _ => rfl⟩
  | use hr =>
    obtain ⟨-, rfl⟩ := Machine.use?_eq_some hr
    exact ⟨l, h.same rfl rfl rfl (fun _ => rfl) fun _ => rfl⟩
  | settle x => exact h.settle _ x
  | @adopt _ _ p q hq =>
    have hrec : Sourced (s.record (.adopted p q)) l := h.record rfl rfl
    exact Session.adopt_cases (P := fun t => ∃ l', Sourced t l') (fun _ => hrec.settle p _)
      (fun x _ _ => hrec.settle p x) fun _ _ => hrec.react hq _
  | register hp code =>
    exact h.create.react (by simpa [Session.create] using Nat.lt_succ_of_lt hp) _
  | await hp =>
    have hpush := h.host (Machine.alike_push s.machine ⟨none, false, false⟩)
    exact hpush.react hp (.wake s.machine.awaits.size)
  | call c => exact ⟨l, h.same rfl rfl rfl (fun _ => rfl) fun _ => rfl⟩
  | finish hc => exact ⟨l, h.same rfl rfl rfl (fun _ => rfl) fun _ => rfl⟩
  | take hj _ => exact ⟨l, h.take hj⟩
  | follow hj => exact (h.take hj).settle _ _
  | host hm => exact ⟨l, h.host hm⟩

theorem Transfers.sourced [Cause ε] (ht : Transfers hand s hand' s') (h : Sourced s l) :
    ∃ l', Sourced s' l' := by
  induction ht with
  | refl => exact ⟨l, h⟩
  | tail _ ht ih =>
    obtain ⟨l', hl'⟩ := ih h
    exact ht.sourced hl'

/-! ### No purpose is served twice -/

structure Fresh (s : Session α ε κ τ) : Prop where
  nodup : s.purposes.Nodup
  handler : ∀ d, .handler d ∈ s.purposes → d < s.machine.slots.size
  wake : ∀ a, .wake a ∈ s.purposes → a < s.machine.awaits.size
  /-- The one adoption of a promise waits until it has settled the promise. -/
  adoption : ∀ p, .adoption p ∈ s.purposes →
    (∃ x, s.machine.settlement? p = some x) ∨ .adoption p ∈ s.machine.outstanding

theorem fresh_empty : Fresh (.empty : Session α ε κ τ) := by
  refine ⟨List.nodup_nil, fun d hd => ?_, fun a ha => ?_, fun p hp => ?_⟩
  · cases hd
  · cases ha
  · cases hp

/-- What registers nothing and loses no adoption changes nothing. -/
theorem Fresh.same (h : Fresh s) (hpurposes : s'.purposes = s.purposes)
    (hslots : s.machine.slots.size ≤ s'.machine.slots.size)
    (hawaits : s.machine.awaits.size ≤ s'.machine.awaits.size)
    (hset : ∀ p x, s.machine.settlement? p = some x →
      ∃ y, s'.machine.settlement? p = some y)
    (hout : ∀ p, .adoption p ∈ s.machine.outstanding →
      (∃ x, s'.machine.settlement? p = some x) ∨ .adoption p ∈ s'.machine.outstanding) :
    Fresh s' := by
  refine ⟨hpurposes ▸ h.nodup, fun d hd => ?_, fun a ha => ?_, fun p hp => ?_⟩
  · exact Nat.lt_of_lt_of_le (h.handler d (hpurposes ▸ hd)) hslots
  · exact Nat.lt_of_lt_of_le (h.wake a (hpurposes ▸ ha)) hawaits
  · rcases h.adoption p (hpurposes ▸ hp) with ⟨x, hx⟩ | hp
    · exact .inl (hset p x hx)
    · exact hout p hp

theorem Fresh.settle (h : Fresh s) (p : PromiseId) (x : Settlement α ε) :
    Fresh (s.settle p x) := by
  refine h.same (s.purposes_settle p x) ?_ ?_ (fun q y hy => ⟨y, ?_⟩) fun q hq => .inr ?_
  · exact Nat.le_of_eq (Machine.size_settle _ _ _).symm
  · exact Nat.le_of_eq (congrArg _ (Machine.awaits_settle _ _ _).symm)
  · exact Machine.settlement?_settle_of_some hy p x
  · exact (Machine.outstanding_settle _ _ _).mem_iff.mpr hq

/-- What leaves promises and deliveries alone and forgets no await changes nothing. -/
theorem Fresh.still (h : Fresh s) (hpurposes : s'.purposes = s.purposes)
    (hslots : s'.machine.slots = s.machine.slots)
    (hawaits : s.machine.awaits.size ≤ s'.machine.awaits.size)
    (hdue : s'.machine.due = s.machine.due) : Fresh s' := by
  refine h.same hpurposes (Nat.le_of_eq (congrArg _ hslots.symm)) hawaits
    (fun p x hx => ⟨x, ?_⟩) fun p hp => .inr ?_
  · exact (Machine.settlement?_congr hslots p).trans hx
  · simpa only [Machine.outstanding, hslots, hdue] using hp

theorem Fresh.host (h : Fresh s) (hm : s.machine.Alike m) : Fresh { s with machine := m } :=
  h.still rfl hm.slots hm.awaits hm.due

theorem Fresh.record (h : Fresh s) {e : Event α ε κ τ} (he : e.registration? = none) :
    Fresh (s.record e) := h.still (s.purposes_record he) rfl (Nat.le_refl _) rfl

/-- A reaction with a new purpose is registered. -/
theorem Fresh.react (h : Fresh s) (hq : q < s.machine.slots.size) {r : Reaction κ}
    (hnew : r.purpose ∉ s.purposes)
    (hhandler : ∀ d, r.purpose = .handler d → d < s.machine.slots.size)
    (hwake : ∀ a, r.purpose = .wake a → a < s.machine.awaits.size) : Fresh (s.react q r) := by
  have hmem : ∀ u, u ∈ (s.react q r).purposes ↔ u ∈ s.purposes ∨ r.purpose = u := by
    intro u
    rw [Session.purposes_react, List.mem_append, List.mem_singleton, eq_comm (a := u)]
  have hout (r' : Reaction κ) := (Machine.outstanding_react hq r).mem_iff (a := r')
  refine ⟨?_, fun d hd => ?_, fun a ha => ?_, fun p hp => ?_⟩
  · rw [Session.purposes_react, List.nodup_append]
    refine ⟨h.nodup, List.nodup_singleton _, fun u hu v hv huv => hnew ?_⟩
    rw [← List.mem_singleton.mp hv, ← huv]
    exact hu
  · show d < (s.machine.react q r).slots.size
    rw [Machine.size_react]
    exact ((hmem _).mp hd).elim (h.handler d) (hhandler d)
  · show a < (s.machine.react q r).awaits.size
    rw [Machine.awaits_react]
    exact ((hmem _).mp ha).elim (h.wake a) (hwake a)
  · show (∃ x, (s.machine.react q r).settlement? p = some x) ∨
      .adoption p ∈ (s.machine.react q r).outstanding
    rw [Machine.settlement?_react, hout]
    rcases (hmem _).mp hp with hp | hp
    · exact (h.adoption p hp).imp_right (List.mem_cons_of_mem _)
    · refine .inr (List.mem_cons.mpr (.inl ?_))
      cases r <;> simp_all [Reaction.purpose]

/-- A promise whose right is in hand has not adopted another. -/
theorem Fresh.adoption_notMem (h : Fresh s) (hs : Sound (p :: hand) s) :
    .adoption p ∉ s.purposes := by
  intro hp
  rcases h.adoption p hp with ⟨x, hx⟩ | hp
  · rw [hs.settlement?_eq_none] at hx
    cases hx
  · have hpos := Machine.authority_pos hp rfl
    rw [hs.authority_eq_zero] at hpos
    exact Nat.lt_irrefl 0 hpos

theorem Fresh.create (h : Fresh s) : Fresh s.create := by
  refine h.same rfl ?_ (Nat.le_refl _) (fun p x hx => ⟨x, ?_⟩) fun p hp => .inr ?_
  · exact Nat.le_of_lt (by simp [Session.create])
  · exact (Machine.settlement?_create _ _).trans hx
  · exact (Machine.outstanding_create s.machine).symm ▸ hp

/-- Taking a job takes no reaction but its own. -/
theorem mem_outstanding_of_next? {m' : Machine α ε κ τ} {j : Job α ε κ τ} {r : Reaction κ}
    (hj : m.next? = some (j, m')) (hr : r ∈ m.outstanding) :
    (∃ x, j = .deliver r x) ∨ r ∈ m'.outstanding := by
  obtain ⟨-, hslots, -, -⟩ := Machine.next?_eq_some hj
  unfold Machine.outstanding at hr ⊢
  rw [hslots]
  rw [Machine.due_next? hj, List.map_append] at hr
  simp only [List.mem_append] at hr ⊢
  rcases hr with hr | hr | hr
  · exact .inr (.inl hr)
  · refine .inl ?_
    cases j with
    | deliver r' x =>
      obtain rfl : r = r' := by simpa [Job.delivery?] using hr
      exact ⟨x, rfl⟩
    | poll a => simp [Job.delivery?] at hr
    | task u => simp [Job.delivery?] at hr
  · exact .inr (.inr hr)

theorem Fresh.take (h : Fresh s) {j : Job α ε κ τ} (hj : s.machine.next? = some (j, m))
    (hno : ∀ p x, j ≠ .deliver (.adoption p) x) : Fresh (s.taken j m) := by
  obtain ⟨-, hslots, -, hawaits⟩ := Machine.next?_eq_some hj
  refine h.same (s.purposes_record rfl) (Nat.le_of_eq (congrArg _ hslots.symm))
    (Nat.le_of_eq (congrArg _ hawaits.symm)) (fun p x hx => ⟨x, ?_⟩) fun p hp => .inr ?_
  · exact (Machine.settlement?_congr hslots p).trans hx
  · rcases mem_outstanding_of_next? hj hp with ⟨x, hx⟩ | hp
    · exact absurd hx (hno p x)
    · exact hp

/-- An adoption that is taken out of the queue settles its promise at once. -/
theorem Fresh.follow (h : Fresh s) (hs : Sound hand s) {x : Settlement α ε}
    (hj : s.machine.next? = some (.deliver (.adoption p) x, m)) :
    Fresh ((s.taken (.deliver (.adoption p) x) m).settle p x) := by
  obtain ⟨-, hslots, -, hawaits⟩ := Machine.next?_eq_some hj
  have htaken : Sound (p :: hand) (s.taken (.deliver (.adoption p) x) m) := hs.take hj
  refine h.same ?_ ?_ ?_ (fun q y hy => ⟨y, ?_⟩) fun q hq => ?_
  · exact (Session.purposes_settle _ _ _).trans (Session.purposes_record _ rfl)
  · show _ ≤ (m.settle p x).slots.size
    exact Nat.le_of_eq (by rw [Machine.size_settle, hslots])
  · show _ ≤ (m.settle p x).awaits.size
    exact Nat.le_of_eq (by rw [Machine.awaits_settle, hawaits])
  · refine Machine.settlement?_settle_of_some ?_ p x
    exact (Machine.settlement?_congr hslots q).trans hy
  · rcases mem_outstanding_of_next? hj hq with ⟨y, hy⟩ | hq
    · cases hy
      exact .inl ⟨x, (htaken.settlement?_settle x p).trans (if_pos rfl)⟩
    · exact .inr ((Machine.outstanding_settle m p x).mem_iff.mpr hq)

theorem Transfer.fresh [Cause ε] (ht : Transfer hand s hand' s') (hs : Sound hand s)
    (h : Fresh s) : Fresh s' := by
  cases ht with
  | create => exact h.create
  | lose => exact h
  | latch => exact h.still rfl rfl (Nat.le_refl _) rfl
  | use hr =>
    obtain ⟨-, rfl⟩ := Machine.use?_eq_some hr
    exact h.still rfl rfl (Nat.le_refl _) rfl
  | settle x => exact h.settle _ x
  | @adopt _ _ p q hq =>
    have hrec : Fresh (s.record (.adopted p q)) := h.record rfl
    have hnew : .adoption p ∉ (s.record (.adopted p q)).purposes := by
      rw [s.purposes_record rfl]
      exact h.adoption_notMem hs
    refine Session.adopt_cases (P := Fresh) (fun _ => hrec.settle p _)
      (fun x _ _ => hrec.settle p x) fun _ _ => ?_
    exact hrec.react hq hnew (fun d hd => by cases hd) fun a ha => by cases ha
  | register hp code =>
    -- The dependent is a new promise, which no purpose names.
    refine h.create.react ?_ (fun hmem => ?_) (fun d hd => ?_) fun a ha => by cases ha
    · simpa [Session.create] using Nat.lt_succ_of_lt hp
    · exact Nat.lt_irrefl _ (h.handler _ hmem)
    · cases hd
      simp [Session.create]
  | await hp =>
    have hpush := h.host (Machine.alike_push s.machine ⟨none, false, false⟩)
    refine hpush.react hp (r := .wake s.machine.awaits.size)
      (fun hmem => Nat.lt_irrefl _ (h.wake _ hmem)) (fun d hd => by cases hd) fun a ha => ?_
    cases ha
    simp
  | call c => exact h.still rfl rfl (Nat.le_refl _) rfl
  | finish hc => exact h.still rfl rfl (Nat.le_refl _) rfl
  | take hj hno => exact h.take hj hno
  | follow hj => exact h.follow hs hj
  | host hm => exact h.host hm

theorem Transfers.fresh [Cause ε] (ht : Transfers hand s hand' s') (hs : Sound hand s)
    (h : Fresh s) : Fresh s' := by
  induction ht with
  | refl => exact h
  | tail hts ht ih => exact ht.fresh (hts.sound hs) (ih hs h)

/-! ### Made, due, held

The two facts together, for a reachable session, and what they say of a single reaction: it waits, is
due, or has run. -/

theorem Sourced.mem_registered (h : Sourced s l)
    {e : PromiseId × Reaction κ × Settlement α ε} (he : e ∈ l) : e.2.1 ∈ s.registered e.1 := by
  rw [← h.each e.1]
  refine List.mem_append_left _ (List.mem_map.mpr ⟨e, ?_, rfl⟩)
  exact List.mem_filter.mpr ⟨he, beq_self_eq_true _⟩

/-- A purpose tells where a delivery comes from. -/
theorem Sourced.isOf_iff (h : Sourced s l) (hnodup : s.purposes.Nodup)
    {e : PromiseId × Reaction κ × Settlement α ε} (he : e ∈ l) : s.isOf p e.2 ↔ e.1 = p := by
  have hreg := h.mem_registered he
  unfold Session.isOf
  rw [List.any_eq_true]
  constructor
  · rintro ⟨r, hr, heq⟩
    -- Registrations with the same purpose are the same.
    have hsame : (p, r) = (e.1, e.2.1) :=
      List.inj_on_of_nodup_map hnodup (Session.mem_registered.mp hr)
        (Session.mem_registered.mp hreg) (beq_iff_eq.mp heq)
    exact (congrArg Prod.fst hsame).symm
  · rintro rfl
    exact ⟨e.2.1, hreg, beq_self_eq_true _⟩

/-- The deliveries made and due to the reactions of a promise. -/
theorem Sourced.delivered_append_queued (h : Sourced s l) (hnodup : s.purposes.Nodup)
    (p : PromiseId) : s.delivered p ++ s.queued p = (l.filter (·.1 == p)).map (·.2) := by
  have hfilter : l.filter (fun e => s.isOf p e.2) = l.filter (·.1 == p) := by
    refine List.filter_congr fun e he => ?_
    rw [Bool.eq_iff_iff, h.isOf_iff hnodup he, beq_iff_eq]
  unfold Session.delivered Session.queued
  rw [← List.filter_append, ← h.all, List.filter_map, ← hfilter]
  rfl

section Runs

variable [Cause ε] [Registration κ]

theorem Reachable.fresh (hs : Reachable s) : Fresh s :=
  (Run.transfers hs).fresh sound_empty fresh_empty

theorem Reachable.sourced (hs : Reachable s) : ∃ l, Sourced s l :=
  (Run.transfers hs).sourced sourced_empty

/-- The reactions of a promise that ran, those that are due and those that it holds are the
registered ones, in order. -/
theorem Reachable.delivered_queued_held (hs : Reachable s) (p : PromiseId) :
    (s.delivered p ++ s.queued p).map (·.1) ++ s.machine.reactions p = s.registered p := by
  obtain ⟨l, hl⟩ := hs.sourced
  rw [hl.delivered_append_queued hs.fresh.nodup, List.map_map]
  exact hl.each p

/-- Deliveries carry the outcome of the promise. -/
theorem Reachable.settlement?_of_mem (hs : Reachable s) {d : Reaction κ × Settlement α ε}
    (hd : d ∈ s.delivered p ++ s.queued p) : s.machine.settlement? p = some d.2 := by
  obtain ⟨l, hl⟩ := hs.sourced
  rw [hl.delivered_append_queued hs.fresh.nodup] at hd
  obtain ⟨e, he, rfl⟩ := List.mem_map.mp hd
  obtain ⟨he, hp⟩ := List.mem_filter.mp he
  rw [← beq_iff_eq.mp hp]
  exact hl.outcome e he

/-- Whatever ran or is due was registered on a promise with that outcome. -/
theorem Reachable.source (hs : Reachable s) {d : Reaction κ × Settlement α ε}
    (hd : d ∈ s.deliveries ++ s.machine.due) :
    ∃ p, d.1 ∈ s.registered p ∧ s.machine.settlement? p = some d.2 := by
  obtain ⟨l, hl⟩ := hs.sourced
  rw [← hl.all] at hd
  obtain ⟨e, he, rfl⟩ := List.mem_map.mp hd
  exact ⟨e.1, hl.mem_registered he, hl.outcome e he⟩

/-- What ran stays in the log. -/
theorem Run.deliveries_subset {t : Session α ε κ τ} (h : Run s t) : s.deliveries ⊆ t.deliveries := by
  obtain ⟨l, hl⟩ := (Run.transfers h).log_grows
  unfold Session.deliveries
  rw [← hl, List.filterMap_append]
  exact List.subset_append_left _ _

/-- A handler that ran or is due has a dependent that exists. -/
theorem Reachable.dependent_lt (hs : Reachable s) {code : κ} {x : Settlement α ε}
    (hd : (.handler code p, x) ∈ s.deliveries ++ s.machine.due) : p < s.machine.slots.size := by
  obtain ⟨q, hq, -⟩ := hs.source hd
  refine hs.fresh.handler p (List.mem_map.mpr ⟨(q, .handler code p), ?_, rfl⟩)
  exact Session.mem_registered.mp hq

/-- A purpose tells the registration. -/
theorem Reachable.eq_of_purpose (hs : Reachable s) {r r' : Reaction κ} (hr : r ∈ s.registered p)
    (hr' : r' ∈ s.registered q) (h : r.purpose = r'.purpose) : p = q ∧ r = r' := by
  have hsame : (p, r) = (q, r') := List.inj_on_of_nodup_map hs.fresh.nodup
    (Session.mem_registered.mp hr) (Session.mem_registered.mp hr') h
  exact Prod.mk.inj hsame

/-- What an outstanding reaction settles is pending. -/
theorem Reachable.settlement?_of_outstanding (hs : Reachable s) {r : Reaction κ}
    (hr : r ∈ s.machine.outstanding) (hp : r.target? = some p) : s.machine.settlement? p = none := by
  have hpos := Machine.authority_pos hr hp
  have hsingle := hs.sound.single p
  unfold Session.rights at hsingle
  obtain ⟨rs, hrs⟩ := Machine.room_pos.mp (show 0 < s.machine.room p by omega)
  exact Machine.settlement?_of_pending hrs

/-- A registered reaction waits for the promise, or its delivery is made or due. -/
theorem Reachable.reaction_cases (hs : Reachable s) {r : Reaction κ} (hr : r ∈ s.registered p) :
    (s.machine.settlement? p = none ∧ r ∈ s.machine.outstanding) ∨
      ∃ x, s.machine.settlement? p = some x ∧ ((r, x) ∈ s.deliveries ∨ (r, x) ∈ s.machine.due) := by
  rw [← hs.delivered_queued_held p] at hr
  rcases List.mem_append.mp hr with hr | hr
  · obtain ⟨d, hd, rfl⟩ := List.mem_map.mp hr
    refine .inr ⟨d.2, hs.settlement?_of_mem hd, ?_⟩
    exact (List.mem_append.mp hd).imp List.mem_of_mem_filter List.mem_of_mem_filter
  · refine .inl ?_
    unfold Machine.reactions at hr
    split at hr
    · rename_i rs hrs
      refine ⟨Machine.settlement?_of_pending hrs, List.mem_append_left _ ?_⟩
      have hslot : .pending rs ∈ s.machine.slots.toList := (Array.mem_of_getElem? hrs).val
      exact List.mem_flatMap.mpr ⟨_, hslot, hr⟩
    · cases hr

/-- No reaction of a pending promise has run. -/
theorem Reachable.delivered_of_pending (hs : Reachable s) (hp : s.machine.settlement? p = none) :
    s.delivered p = [] := by
  rw [List.eq_nil_iff_forall_not_mem]
  intro d hd
  have hsettled := hs.settlement?_of_mem (List.mem_append_left _ hd)
  rw [hp] at hsettled
  cases hsettled

/-- When the queue is empty, the reactions of a settled promise have run. -/
theorem Reachable.delivered_of_settled (hs : Reachable s) (hq : s.machine.queue = [])
    {x : Settlement α ε} (hx : s.machine.settlement? p = some x) :
    s.delivered p = (s.registered p).map (·, x) := by
  have hqueued : s.queued p = [] := by simp [Session.queued, Machine.due, hq]
  have hall := hs.delivered_queued_held p
  rw [Machine.reactions_of_settled hx, hqueued, List.append_nil, List.append_nil] at hall
  -- Every delivery carries `x`, so the reactions alone tell the deliveries.
  have hid : (s.delivered p).map (fun d => (d.1, x)) = (s.delivered p).map id := by
    refine List.map_congr_left fun d hd => ?_
    have hsettled := hs.settlement?_of_mem (List.mem_append_left _ hd)
    rw [hx] at hsettled
    exact Prod.ext rfl (Option.some.inj hsettled)
  rw [← hall, List.map_map]
  exact (hid.trans (List.map_id _)).symm

/-- **Deliveries in the order of registration.** The reactions of a promise that ran, those in the
queue and those that it holds are, in this order, the ones that were registered on it; no two
reactions have the same purpose; whatever ran or is in the queue was registered; and all are told
the one outcome of the promise. So once the queue is empty, every reaction of a settled promise has
run, and none of a pending one. -/
theorem delivery_order (hs : Reachable s) (p : PromiseId) :
    (s.delivered p ++ s.queued p).map (·.1) ++ s.machine.reactions p = s.registered p ∧
    s.purposes.Nodup ∧
    (∀ d ∈ s.deliveries ++ s.machine.due, ∃ q, d.1 ∈ s.registered q) ∧
    (∀ d ∈ s.delivered p ++ s.queued p, s.machine.settlement? p = some d.2) ∧
    (s.machine.queue = [] →
      (∀ x, s.machine.settlement? p = some x → s.delivered p = (s.registered p).map (·, x)) ∧
      (s.machine.settlement? p = none → s.delivered p = [])) := by
  refine ⟨hs.delivered_queued_held p, hs.fresh.nodup, fun d hd => ?_,
    fun d hd => hs.settlement?_of_mem hd, fun hq => ⟨fun x hx => ?_, fun hp => ?_⟩⟩
  · obtain ⟨q, hq, -⟩ := hs.source hd
    exact ⟨q, hq⟩
  · exact hs.delivered_of_settled hq hx
  · exact hs.delivered_of_pending hp

/-- Handlers registered before and after the settlement. -/
theorem delivery_order_late :
    let code : Handlers Nat String Unit := ⟨none, none⟩
    let r : Session Nat String (Handlers Nat String Unit) Unit :=
      Session.empty.defer.register 0 code
    let s := (r.via 0 (.ok (.value 7))).register 0 code
    let t := s.turn.turn
    Reachable s ∧ s.machine.due.length = 2 ∧ Reachable t ∧ t.machine.queue = [] ∧
      t.delivered 0 = (t.registered 0).map (·, .fulfilled 7) ∧
      (t.registered 0).map Reaction.purpose = [.handler 1, .handler 2] := by
  intro code r s t
  have hr : Reachable r := .tail (.single .defer) (.register Nat.one_pos code)
  have hs : Reachable s :=
    .tail (hr.tail (.via 0 (o := .ok (.value 7)) trivial)) (.register (by decide) code)
  have ht : Reachable t :=
    (hs.trans (run_turn (by decide +kernel))).trans (run_turn (by decide +kernel))
  have hq : t.machine.queue = [] := List.isEmpty_iff.mp (by decide +kernel)
  have hx : t.machine.settlement? 0 = some (.fulfilled 7) := by decide +kernel
  obtain ⟨-, -, -, -, hran⟩ := delivery_order ht 0
  exact ⟨hs, by decide +kernel, ht, hq, (hran hq).1 _ hx, by decide +kernel⟩

end Runs

end Switchboard.Promise
