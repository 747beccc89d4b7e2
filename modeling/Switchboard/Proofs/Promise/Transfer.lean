import Switchboard.Proofs.Promise.Session

/-!
# Transfers of the right to settle

A right to settle a promise is made with the promise. From then on it is in one place at a time: in
an unused resolver, in a reaction, in a call into the program, or in hand while a step is under
way. `Transfer hand s hand' s'` moves one such right, or does something that moves none, where
`hand` and `hand'` list the rights in hand before and after.

Every step is a chain of transfers that begins and ends with empty hands (`Step.transfers`), so a
law of all runs is proved for the few transfers and not for each call of the interface.

The hand is what makes the pieces of a step meaningful by themselves. In the middle of one, a promise
may be pending with no way to settle it anywhere in the session, and no law about reachable sessions
holds there; with the right in hand counted, it does. Two transfers take more than one piece at once. An
adoption decides between three ways to spend the right, all of them within `adopt`. And `follow` takes a
delivery to an adoption and settles in one, since between the two the promise would neither wait nor
have its outcome.
-/

namespace Switchboard.Promise

variable {α ε κ τ : Type}

/-- The promises that a job settles by itself or through what it calls. -/
def Job.targets (j : Job α ε κ τ) : List PromiseId :=
  (j.delivery?.bind fun d => d.1.target?).toList

variable [Cause ε]

inductive Transfer : List PromiseId → Session α ε κ τ → List PromiseId → Session α ε κ τ → Prop
  | create {hand s} : Transfer hand s (s.machine.slots.size :: hand) s.create
  /-- Nothing will settle the promise. -/
  | lose {hand s p} : Transfer (p :: hand) s hand s
  | latch {hand s p} : Transfer (p :: hand) s hand (s.openResolver p)
  | use {hand s r p m} (h : s.machine.use? r = some (p, m)) :
      Transfer hand s (p :: hand) { s with machine := m }
  | settle {hand s p} (x : Settlement α ε) : Transfer (p :: hand) s hand (s.settle p x)
  | adopt {hand s p q} (hq : q < s.machine.slots.size) :
      Transfer (p :: hand) s hand (s.adopt p q)
  | register {hand s p} (hp : p < s.machine.slots.size) (code : κ) :
      Transfer hand s hand (s.register p code)
  | await {hand s p} (hp : p < s.machine.slots.size) : Transfer hand s hand (s.await p)
  | call {hand s} (c : Call) : Transfer (c.targets ++ hand) s hand (s.call c)
  | finish {hand s c cs} (h : s.calls = c :: cs) :
      Transfer hand s (c.targets ++ hand) { s with calls := cs }
  | take {hand s j m} (h : s.machine.next? = some (j, m))
      (hj : ∀ p x, j ≠ .deliver (.adoption p) x) :
      Transfer hand s (j.targets ++ hand) (s.taken j m)
  /-- The outcome of the adopted promise arrives. -/
  | follow {hand s p x m} (h : s.machine.next? = some (.deliver (.adoption p) x, m)) :
      Transfer hand s hand
        ((s.taken (.deliver (.adoption p) x) m).settle p x)
  | host {hand s m} (h : s.machine.Alike m) : Transfer hand s hand { s with machine := m }

/-- A chain of transfers. -/
inductive Transfers : List PromiseId → Session α ε κ τ → List PromiseId → Session α ε κ τ → Prop
  | refl {hand s} : Transfers hand s hand s
  | tail {hand₁ hand₂ hand₃ s₁ s₂ s₃} (h : Transfers hand₁ s₁ hand₂ s₂)
      (ht : Transfer hand₂ s₂ hand₃ s₃) : Transfers hand₁ s₁ hand₃ s₃

variable {hand hand₁ hand₂ hand₃ : List PromiseId} {s s₁ s₂ s₃ t : Session α ε κ τ}

theorem Transfer.single (h : Transfer hand₁ s₁ hand₂ s₂) : Transfers hand₁ s₁ hand₂ s₂ :=
  .tail .refl h

theorem Transfers.trans (h : Transfers hand₁ s₁ hand₂ s₂) (h' : Transfers hand₂ s₂ hand₃ s₃) :
    Transfers hand₁ s₁ hand₃ s₃ := by
  induction h' with
  | refl => exact h
  | tail _ ht ih => exact (ih h).tail ht

/-! ### Steps as chains of transfers -/

theorem transfers_conclude {p : PromiseId} {o : Outcome α ε} (ho : o.Known s.machine) :
    Transfers (p :: hand) s hand (s.conclude p o) := by
  rcases o with c | (v | q | _)
  · exact (Transfer.settle _).single
  · exact (Transfer.settle _).single
  · exact (Transfer.adopt ho).single
  · exact (Transfer.call (.read p)).single

theorem transfers_via (r : ResolverId) {o : Outcome α ε} (ho : o.Known s.machine) :
    Transfers hand s hand (s.via r o) := by
  unfold Session.via
  split
  · rename_i p m hm
    obtain ⟨-, rfl⟩ := Machine.use?_eq_some hm
    exact (Transfer.use hm).single.trans (transfers_conclude ho)
  · exact .refl

theorem transfers_finishRead {p : PromiseId} (found : Except ε (Option α)) :
    Transfers (p :: hand) s hand (s.finishRead p found) := by
  rcases found with c | (_ | v)
  · exact (Transfer.settle _).single
  · exact Transfer.latch.single.tail (.call (.body _))
  · exact (Transfer.settle _).single

theorem transfers_finishBody (r : ResolverId) (thrown : Option ε) :
    Transfers hand s hand (s.finishBody r thrown) := by
  cases thrown with
  | none => exact .refl
  | some c => exact transfers_via r trivial

theorem transfers_start [Registration κ] {j : Job α ε κ τ} {m : Machine α ε κ τ}
    (h : s.machine.next? = some (j, m)) :
    Transfers hand s hand ({ s with machine := m }.start j) := by
  match j with
  | .deliver (.handler code d) x =>
    have htake : Transfers hand s (d :: hand) _ := (Transfer.take h (by simp)).single
    dsimp only [Session.start]
    -- The right goes to the handler, or is spent on the outcome that is passed on.
    split
    · exact htake.tail (.call (.handler d))
    · exact htake.tail (.settle x)
  | .deliver (.adoption p) x => exact (Transfer.follow h).single
  | .deliver (.wake a) x =>
    exact (Transfer.take h (by simp)).single.tail (.host (Machine.alike_wake _ a x))
  | .poll a =>
    exact (Transfer.take h (by simp)).single.tail (.host (Machine.alike_poll _ a))
  | .task u => exact (Transfer.take h (by simp)).single.tail (.call .task)

/-- A step begins and ends with empty hands. -/
theorem Step.transfers [Registration κ] (h : Step s t) : Transfers [] s [] t := by
  cases h with
  | make x =>
    cases x with
    | none => exact Transfer.create.single.tail .lose
    | some x => exact Transfer.create.single.tail (.settle x)
  | defer => exact Transfer.create.single.tail .latch
  | init => exact (Transfer.create.single.tail .latch).tail (.call (.initializer _))
  | register hp code => exact (Transfer.register hp code).single
  | await hp => exact (Transfer.await hp).single
  | look ha => exact (Transfer.host (Machine.alike_poll _ _)).single
  | lookLater ha => exact (Transfer.host (Machine.alike_enqueue _ rfl)).single
  | via r ho => exact transfers_via r ho
  | spawn u => exact (Transfer.host (Machine.alike_enqueue _ rfl)).single
  | abandon p => exact (Transfer.host (Machine.alike_abandon _ p)).single
  | endTask h => exact (Transfer.finish h).single
  | endInitializer h => exact (Transfer.finish h).single
  | endHandler h ho => exact (Transfer.finish h).single.trans (transfers_conclude ho)
  | endRead h found => exact (Transfer.finish h).single.trans (transfers_finishRead found)
  | endBody h thrown => exact (Transfer.finish h).single.trans (transfers_finishBody _ thrown)
  | job _ hj => exact transfers_start hj

theorem Run.transfers [Registration κ] (h : Run s t) : Transfers [] s [] t := by
  induction h with
  | refl => exact .refl
  | tail _ hstep ih => exact ih.trans hstep.transfers

/-! ### What only grows -/

theorem Transfer.log_grows (h : Transfer hand₁ s₁ hand₂ s₂) : s₁.log <+: s₂.log := by
  cases h with
  | @adopt _ _ p q _ =>
    have hrec : s₁.log <+: (s₁.record (.adopted p q)).log := List.prefix_append _ _
    exact Session.adopt_cases (P := fun s₂ => s₁.log <+: s₂.log)
      (fun _ => hrec.trans (List.prefix_append _ _))
      (fun _ _ _ => hrec.trans (List.prefix_append _ _))
      fun _ _ => hrec.trans (List.prefix_append _ _)
  | @follow _ _ p x m _ =>
    have hrec : s₁.log <+: (s₁.record (.started (.deliver (.adoption p) x))).log :=
      List.prefix_append _ _
    exact hrec.trans (List.prefix_append _ _)
  | settle _ => exact List.prefix_append _ _
  | register _ _ => exact List.prefix_append _ _
  | await _ => exact List.prefix_append _ _
  | take _ _ => exact List.prefix_append _ _
  | create => exact List.prefix_rfl
  | lose => exact List.prefix_rfl
  | latch => exact List.prefix_rfl
  | use _ => exact List.prefix_rfl
  | call _ => exact List.prefix_rfl
  | finish _ => exact List.prefix_rfl
  | host _ => exact List.prefix_rfl

/-- No promise is forgotten. -/
theorem Transfer.size_le (h : Transfer hand₁ s₁ hand₂ s₂) :
    s₁.machine.slots.size ≤ s₂.machine.slots.size := by
  cases h with
  | create => exact Nat.le_of_lt (by simp [Session.create])
  | @use _ _ r p m hr =>
    obtain ⟨-, rfl⟩ := Machine.use?_eq_some hr
    exact Nat.le_refl _
  | settle x => exact Nat.le_of_eq (Machine.size_settle _ _ _).symm
  | adopt _ =>
    exact Session.adopt_cases (P := fun s₂ => s₁.machine.slots.size ≤ s₂.machine.slots.size)
      (fun _ => Nat.le_of_eq (Machine.size_settle _ _ _).symm)
      (fun _ _ _ => Nat.le_of_eq (Machine.size_settle _ _ _).symm)
      fun _ _ => Nat.le_of_eq (Machine.size_react _ _ _).symm
  | register _ _ =>
    refine Nat.le_of_lt (Nat.lt_of_lt_of_eq ?_ (Machine.size_react _ _ _).symm)
    simp [Session.create]
  | @await _ _ p _ =>
    have hsize : (s₁.await p).machine.slots.size = s₁.machine.slots.size :=
      Machine.size_react { s₁.machine with awaits := s₁.machine.awaits.push ⟨none, false, false⟩ }
        p (.wake s₁.machine.awaits.size)
    exact Nat.le_of_eq hsize.symm
  | take hj _ =>
    obtain ⟨-, hslots, -, -⟩ := Machine.next?_eq_some hj
    exact Nat.le_of_eq (congrArg _ hslots.symm)
  | follow hj =>
    obtain ⟨-, hslots, -, -⟩ := Machine.next?_eq_some hj
    exact Nat.le_of_eq ((congrArg _ hslots.symm).trans (Machine.size_settle _ _ _).symm)
  | host hm => exact Nat.le_of_eq (congrArg _ hm.slots.symm)
  | lose => exact Nat.le_refl _
  | latch => exact Nat.le_refl _
  | call _ => exact Nat.le_refl _
  | finish _ => exact Nat.le_refl _

theorem Transfers.size_le (h : Transfers hand₁ s₁ hand₂ s₂) :
    s₁.machine.slots.size ≤ s₂.machine.slots.size := by
  induction h with
  | refl => exact Nat.le_refl _
  | tail _ ht ih => exact Nat.le_trans ih ht.size_le

/-- A resolver stays with its promise. -/
theorem Transfer.target?_of_some (h : Transfer hand₁ s₁ hand₂ s₂) {r : ResolverId} {p : PromiseId}
    (hp : s₁.machine.target? r = some p) : s₂.machine.target? r = some p := by
  have hsame (hres : s₂.machine.resolvers = s₁.machine.resolvers) : s₂.machine.target? r = some p :=
    (Machine.target?_congr hres r).trans hp
  cases h with
  | latch =>
    have hne : r ≠ s₁.machine.resolvers.size := Nat.ne_of_lt (Machine.lt_of_target? hp)
    exact (Machine.target?_openResolver _ _ r).trans ((if_neg hne).trans hp)
  | use hr => exact (Machine.target?_use hr r).trans hp
  | settle x => exact hsame (Machine.resolvers_settle _ _ _)
  | adopt _ =>
    refine hsame (Session.adopt_cases
      (P := fun s₂ => s₂.machine.resolvers = s₁.machine.resolvers) (fun _ => ?_) (fun _ _ _ => ?_)
      fun _ _ => ?_)
    · exact Machine.resolvers_settle _ _ _
    · exact Machine.resolvers_settle _ _ _
    · exact Machine.resolvers_react _ _ _
  | register _ _ => exact hsame (Machine.resolvers_react _ _ _)
  | @await _ _ p _ =>
    exact hsame (Machine.resolvers_react { s₁.machine with
      awaits := s₁.machine.awaits.push ⟨none, false, false⟩ } p (.wake s₁.machine.awaits.size))
  | take hj _ =>
    obtain ⟨-, -, hresolvers, -⟩ := Machine.next?_eq_some hj
    exact hsame hresolvers
  | follow hj =>
    obtain ⟨-, -, hresolvers, -⟩ := Machine.next?_eq_some hj
    exact hsame ((Machine.resolvers_settle _ _ _).trans hresolvers)
  | host hm => exact hsame hm.resolvers
  | create => exact hsame rfl
  | lose => exact hp
  | call _ => exact hsame rfl
  | finish _ => exact hsame rfl

theorem Transfers.target?_of_some (h : Transfers hand₁ s₁ hand₂ s₂) {r : ResolverId} {p : PromiseId}
    (hp : s₁.machine.target? r = some p) : s₂.machine.target? r = some p := by
  induction h with
  | refl => exact hp
  | tail _ ht ih => exact ht.target?_of_some (ih hp)

theorem Transfers.log_grows (h : Transfers hand₁ s₁ hand₂ s₂) : s₁.log <+: s₂.log := by
  induction h with
  | refl => exact List.prefix_rfl
  | tail _ ht ih => exact ih.trans ht.log_grows

end Switchboard.Promise
