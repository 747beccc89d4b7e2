import Switchboard.Proofs.Promise.Machine

/-!
# Every job uses up work

How the work that a machine has left changes with each operation, whatever a reaction is worth. The jobs
of a host come to an end if its handlers make less work than they are worth, and this is all that has to
be shown of them.

- `work_settle`, `work_react_le`: settling makes no work, and registering only that of its reaction.
- `work_wake_le`, `work_poll`: awaits make none.
- `work_next?_deliver`, `work_next?_idle`: what a job was worth, when it is taken.
- `Machine.tasks`: the tasks in the queue, whose worth is for others to say.

The measure counts a reaction once, from its registration until it runs. That settling a promise makes
all its reactions due is therefore no new work, however many they are. An await that looked in vain will
look again when it is told, so one without an outcome is worth a look from the beginning on; otherwise
telling it would make work.
-/

namespace Switchboard.Promise

variable {α ε κ τ : Type}

/-- The task of the program's own that a job is. -/
def Job.task? : Job α ε κ τ → Option τ
  | .task t => some t
  | _ => none

namespace Machine

variable {m m' : Machine α ε κ τ} {p q : PromiseId} {r : Reaction κ} (effort : Reaction κ → Nat)

theorem worth_perm {rs rs' : List (Reaction κ)} (h : rs.Perm rs') :
    worth effort rs = worth effort rs' := by
  have hcomm : LeftCommutative fun (r : Reaction κ) n => effort r + n :=
    ⟨fun _ _ _ => Nat.add_left_comm _ _ _⟩
  exact h.foldr_eq 0

theorem work_create (m : Machine α ε κ τ) : m.create.2.work effort = m.work effort := by
  unfold work
  rw [outstanding_create]
  rfl

/-- Settling only moves reactions. -/
theorem work_settle (m : Machine α ε κ τ) (p : PromiseId) (x : Settlement α ε) :
    (m.settle p x).work effort = m.work effort := by
  have hout := worth_perm effort (outstanding_settle m p x)
  have hidle : (m.settle p x).idleJobs = m.idleJobs := by
    unfold settle
    split
    · rename_i rs _
      simp [idleJobs, List.countP_append, List.countP_map, Function.comp_def, Job.delivery?]
    · rfl
  unfold work openAwaits
  rw [hout, hidle, awaits_settle]

/-- A reaction is all the work that its registration makes. -/
theorem work_react_le (m : Machine α ε κ τ) (p : PromiseId) (r : Reaction κ) :
    (m.react p r).work effort ≤ m.work effort + effort r := by
  by_cases hp : p < m.slots.size
  · have hout : worth effort (m.react p r).outstanding = effort r + worth effort m.outstanding :=
      worth_perm effort (outstanding_react hp r)
    have hidle : (m.react p r).idleJobs = m.idleJobs := by
      unfold react
      split
      · rfl
      · simp [idleJobs, enqueue, List.countP_append, Job.delivery?]
      · rfl
    unfold work openAwaits
    rw [hout, hidle, awaits_react]
    omega
  · have hsame : m.react p r = m := by
      unfold react
      rw [Array.getElem?_eq_none (Nat.le_of_not_lt hp)]
    rw [hsame]
    exact Nat.le_add_right _ _

theorem work_register_le (m : Machine α ε κ τ) (p : PromiseId) (code : κ) :
    (m.register p code).2.work effort ≤ m.work effort + effort (.handler code m.slots.size) := by
  have hreact := work_react_le effort m.create.2 p (.handler code m.slots.size)
  rw [work_create] at hreact
  exact hreact

/-- To adopt is to settle, or to wait in the other promise. -/
theorem work_adopt_le [Cause ε] (m : Machine α ε κ τ) (p q : PromiseId) :
    (m.adopt p q).work effort ≤ m.work effort + effort (.adoption p) := by
  unfold adopt
  split
  · exact Nat.le_trans (Nat.le_of_eq (work_settle effort m p _)) (Nat.le_add_right _ _)
  · split
    · exact Nat.le_trans (Nat.le_of_eq (work_settle effort m p _)) (Nat.le_add_right _ _)
    · exact work_react_le effort m q (.adoption p)

theorem work_defer (m : Machine α ε κ τ) : m.defer.2.2.work effort = m.work effort :=
  work_create effort m

theorem work_use {i : ResolverId} (h : m.use? i = some (p, m')) : m'.work effort = m.work effort := by
  obtain ⟨-, rfl⟩ := use?_eq_some h
  rfl

/-! ### Awaits -/

/-- Replacing an element of an array replaces its share of a count. -/
theorem countP_setIfInBounds {β : Type} {xs : Array β} {i : Nat} {b : β} (h : xs[i]? = some b)
    (b' : β) (f : β → Bool) :
    (xs.setIfInBounds i b').countP f + (if f b then 1 else 0) =
      xs.countP f + if f b' then 1 else 0 := by
  obtain ⟨hlt, hget⟩ := Array.getElem?_eq_some_iff.mp h
  have hpos : f b = true → 0 < xs.countP f := fun hb =>
    Array.countP_pos_iff.mpr ⟨b, Array.mem_of_getElem? h, hb⟩
  simp only [Array.setIfInBounds, hlt, dite_true]
  rw [Array.countP_set, hget]
  split_ifs <;> simp_all

theorem work_awaits {a : AwaitId} {b : Await α ε} (h : m.awaits[a]? = some b) (b' : Await α ε) :
    ({ m with awaits := m.awaits.setIfInBounds a b' } : Machine α ε κ τ).work effort +
        (if b.outcome.isNone then 1 else 0) =
      m.work effort + if b'.outcome.isNone then 1 else 0 := by
  have hcount := countP_setIfInBounds h b' (·.outcome.isNone)
  show worth effort m.outstanding + m.idleJobs + (m.awaits.setIfInBounds a b').countP _ + _ =
    worth effort m.outstanding + m.idleJobs + m.awaits.countP _ + _
  omega

/-- A job that delivers nothing is work of its own. -/
theorem work_enqueue (m : Machine α ε κ τ) {j : Job α ε κ τ} (hj : j.delivery? = none) :
    (m.enqueue j).work effort = m.work effort + 1 := by
  have hout : (m.enqueue j).outstanding = m.outstanding := by
    unfold outstanding
    rw [(alike_enqueue m hj).due]
    rfl
  have hidle : (m.enqueue j).idleJobs = m.idleJobs + 1 := by
    simp [idleJobs, enqueue, List.countP_append, hj]
  unfold work
  rw [hout, hidle]
  show _ + (_ + 1) + m.openAwaits = _
  omega

/-- An await that gets its outcome looks at most once more. -/
theorem work_wake_le (m : Machine α ε κ τ) (a : AwaitId) (x : Settlement α ε) :
    (m.wake a x).work effort ≤ m.work effort := by
  unfold wake
  split
  · rename_i polled answered ha
    have hset := work_awaits effort ha ⟨some x, polled, answered⟩
    simp only [Option.isNone_none, Option.isNone_some, if_true, Bool.false_eq_true, if_false] at hset
    dsimp only
    split
    · rw [work_enqueue effort _ rfl]
      omega
    · omega
  · exact Nat.le_refl _

/-- Who starts to wait is told, and may have to look again. -/
theorem work_await_le (m : Machine α ε κ τ) (p : PromiseId) :
    (m.await p).2.work effort ≤ m.work effort + effort (.wake m.awaits.size) + 1 := by
  let pushed : Machine α ε κ τ := { m with awaits := m.awaits.push ⟨none, false, false⟩ }
  have hpush : pushed.work effort = m.work effort + 1 := by
    have hopen : pushed.openAwaits = m.openAwaits + 1 := Array.countP_push ..
    show worth effort m.outstanding + m.idleJobs + pushed.openAwaits = _
    rw [hopen]
    rfl
  have hreact := work_react_le effort pushed p (.wake m.awaits.size)
  show (pushed.react p (.wake m.awaits.size)).work effort ≤ _
  omega

/-- The first look in a job is work as well. -/
theorem work_awaitApart_le (m : Machine α ε κ τ) (p : PromiseId) :
    (m.awaitApart p).2.work effort ≤ m.work effort + effort (.wake m.awaits.size) + 2 := by
  have hawait := work_await_le effort m p
  have hpoll := work_enqueue effort (m.await p).2 (j := .poll m.awaits.size) rfl
  show ((m.await p).2.enqueue (.poll m.awaits.size)).work effort ≤ _
  omega

theorem work_poll (m : Machine α ε κ τ) (a : AwaitId) :
    (m.poll a).2.work effort = m.work effort := by
  unfold poll
  split
  · rename_i x polled ha
    exact Nat.add_right_cancel (work_awaits effort ha ⟨some x, polled, true⟩)
  · rename_i polled answered ha
    exact Nat.add_right_cancel (work_awaits effort ha ⟨none, true, answered⟩)
  · rfl

theorem work_abandon_le [Cause ε] (m : Machine α ε κ τ) (p : PromiseId) :
    (m.abandon p).work effort ≤ m.work effort := by
  unfold abandon
  generalize m.waitersOf m.slots.size p = as
  induction as generalizing m with
  | nil => exact Nat.le_refl _
  | cons a as ih => exact Nat.le_trans (ih _) (work_wake_le effort m a _)

/-! ### Jobs -/

/-- A reaction whose turn has come is work no more. -/
theorem work_next?_deliver {x : Settlement α ε} (h : m.next? = some (.deliver r x, m')) :
    m.work effort = m'.work effort + effort r := by
  obtain ⟨hq, hslots, -, hawaits⟩ := next?_eq_some h
  have hout : m.outstanding.Perm (r :: m'.outstanding) := by
    unfold outstanding
    rw [due_next? h, hslots]
    exact List.perm_middle
  have hworth : worth effort m.outstanding = effort r + worth effort m'.outstanding :=
    worth_perm effort hout
  have hidle : m.idleJobs = m'.idleJobs := by
    rw [idleJobs, hq]
    rfl
  unfold work openAwaits
  rw [hworth, hidle, hawaits]
  omega

/-- So is any other job. -/
theorem work_next?_idle {j : Job α ε κ τ} (hj : j.delivery? = none) (h : m.next? = some (j, m')) :
    m.work effort = m'.work effort + 1 := by
  obtain ⟨hq, hslots, -, hawaits⟩ := next?_eq_some h
  have hout : m.outstanding = m'.outstanding := by
    unfold outstanding
    rw [due_next? h, hslots, hj]
    rfl
  have hidle : m.idleJobs = m'.idleJobs + 1 := by
    rw [idleJobs, hq, List.countP_cons_of_pos (by rw [hj]; rfl)]
    rfl
  unfold work openAwaits
  rw [hout, hidle, hawaits]
  omega

/-! ### Tasks -/

/-- The tasks in the queue, the next one first. -/
def tasks (m : Machine α ε κ τ) : List τ := m.queue.filterMap Job.task?

@[simp] theorem tasks_enqueue (m : Machine α ε κ τ) (j : Job α ε κ τ) :
    (m.enqueue j).tasks = m.tasks ++ j.task?.toList := by
  cases j <;> simp [tasks, enqueue, Job.task?]

@[simp] theorem tasks_settle (m : Machine α ε κ τ) (p : PromiseId) (x : Settlement α ε) :
    (m.settle p x).tasks = m.tasks := by
  unfold settle
  split
  · simp [tasks, Job.task?, List.filterMap_append]
  · rfl

@[simp] theorem tasks_react (m : Machine α ε κ τ) (p : PromiseId) (r : Reaction κ) :
    (m.react p r).tasks = m.tasks := by
  unfold react
  split
  · rfl
  · simp [Job.task?]
  · rfl

@[simp] theorem tasks_register (m : Machine α ε κ τ) (p : PromiseId) (code : κ) :
    (m.register p code).2.tasks = m.tasks := tasks_react ..

@[simp] theorem tasks_adopt [Cause ε] (m : Machine α ε κ τ) (p q : PromiseId) :
    (m.adopt p q).tasks = m.tasks := by
  unfold adopt
  split
  · exact tasks_settle ..
  · split
    · exact tasks_settle ..
    · exact tasks_react ..

theorem tasks_use {i : ResolverId} (h : m.use? i = some (p, m')) : m'.tasks = m.tasks := by
  obtain ⟨-, rfl⟩ := use?_eq_some h
  rfl

@[simp] theorem tasks_await (m : Machine α ε κ τ) (p : PromiseId) :
    (m.await p).2.tasks = m.tasks := tasks_react ..

@[simp] theorem tasks_awaitApart (m : Machine α ε κ τ) (p : PromiseId) :
    (m.awaitApart p).2.tasks = m.tasks :=
  ((tasks_enqueue _ (.poll _)).trans (List.append_nil _)).trans (tasks_await m p)

@[simp] theorem tasks_wake (m : Machine α ε κ τ) (a : AwaitId) (x : Settlement α ε) :
    (m.wake a x).tasks = m.tasks := by
  unfold wake
  split
  · dsimp only
    split
    · exact (tasks_enqueue _ (.poll a)).trans (List.append_nil _)
    · rfl
  · rfl

@[simp] theorem tasks_poll (m : Machine α ε κ τ) (a : AwaitId) :
    (m.poll a).2.tasks = m.tasks := by
  unfold poll
  split <;> rfl

@[simp] theorem tasks_abandon [Cause ε] (m : Machine α ε κ τ) (p : PromiseId) :
    (m.abandon p).tasks = m.tasks := by
  unfold abandon
  generalize m.waitersOf m.slots.size p = as
  induction as generalizing m with
  | nil => rfl
  | cons a as ih => exact (ih _).trans (tasks_wake m a _)

theorem tasks_next? {j : Job α ε κ τ} (h : m.next? = some (j, m')) :
    m.tasks = j.task?.toList ++ m'.tasks := by
  obtain ⟨hq, -⟩ := next?_eq_some h
  unfold tasks
  rw [hq]
  cases j <;> rfl

end Machine

end Switchboard.Promise
