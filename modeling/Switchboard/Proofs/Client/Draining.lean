import Switchboard.Client.Network
import Switchboard.Proofs.Client.Scenario
import Switchboard.Proofs.Promise.Work

/-!
# The host of a client comes to rest

A job of a client can make work: a token starts an exchange, whose promise gets a decoder and an
adoption. It makes less than it used up, so after some jobs none is left, if nothing else happens.

- `load_handle_lt`: a handler makes less work than it was.
- `load_step_job`: a job leaves less work.
- `queue_drained`: the jobs come to an end.

The length of the queue is no measure, as a job may make it longer. The work of a machine counts what is
queued together with what is registered and not yet due, so that it does not matter when a reaction
falls due. A settlement moves reactions from one to the other and changes nothing; a handler of a token
is worth more than what it can leave behind. The host runs as many jobs as there is work, which is a
number that it knows beforehand, and jobs for which there is nothing left do nothing.
-/

namespace Switchboard.Client

open Promise (PromiseId ResolverId Settlement)
open Http (Exchange)

variable {c : Client} {m : Machine} {d : PromiseId} {r : ResolverId}

theorem effort_pos (a : Promise.Reaction Handler) : 0 < effort a := by
  rcases a with (_ | _) | _ | _ <;> exact Nat.succ_pos _

/-! ### What makes no work

Callbacks and the store in which they are kept touch the promises only by settling them. To settle a
promise makes reactions due that were counted before. -/

theorem load_settleVia (c : Client) (r : ResolverId) (x : Settlement Payload ClientError) :
    (c.settleVia r x).load = c.load := by
  unfold settleVia
  rcases hm : c.machine.use? r with _ | ⟨p, m⟩
  · rfl
  · exact (Promise.Machine.work_settle effort m p x).trans (Promise.Machine.work_use effort hm)

theorem load_lose (c : Client) (r : ResolverId) : (c.lose r).load = c.load := by
  unfold lose
  split <;> rfl

theorem load_completeExchange (c : Client) (r : ResolverId) (reply : Reply) :
    (c.completeExchange r reply).load = c.load := by
  rcases reply with (cause | response) | id | _
  · exact load_settleVia _ _ _
  · exact load_settleVia _ _ _
  · rw [completeExchange_hold]
    rcases Dictionary.find? id c.heldExchanges with _ | old
    · rfl
    · exact load_lose c old
  · exact load_lose _ _

theorem load_called (c : Client) (e : Exchange) : (c.called e).load = c.load :=
  (load_completeExchange _ _ _).trans (Promise.Machine.work_defer effort c.machine)

/-- An exchange makes the work of its decoder. -/
theorem load_startExchange_le (c : Client) (e : Exchange) :
    (c.startExchange e).2.load ≤ c.load + 1 := by
  have hregister := Promise.Machine.work_register_le effort (c.called e).machine
    c.machine.slots.size .decode
  have hcalled := c.load_called e
  unfold load at hcalled
  rw [hcalled] at hregister
  exact hregister

/-- Awaits that are told of a loss make no work. -/
theorem load_tellLost_le (c : Client) : c.tellLost.load ≤ c.load :=
  c.tellLost_keeps (P := fun m => m.work effort ≤ c.load) (Nat.le_refl _) fun m p hm =>
    Nat.le_trans (Promise.Machine.work_abandon_le effort m p) hm

/-! ### Jobs

One case for each job. A handler is the only one that registers anything. -/

/-- A handler makes less work than it was. -/
theorem load_handle_lt (c : Client) (d : PromiseId) (x : Settlement Payload ClientError)
    (code : Handler) : (c.handle d x code).load < c.load + effort (.handler code d) := by
  have hsettle : ∀ y, (c.machine.settle d y).work effort < c.load + effort (.handler code d) := by
    intro y
    rw [Promise.Machine.work_settle]
    exact Nat.lt_add_of_pos_right (effort_pos _)
  match code, x with
  | .decode, .fulfilled (.response response) =>
    unfold handle
    dsimp only
    split <;> exact hsettle _
  | .decode, .fulfilled (.json j) | .decode, .fulfilled (.token t) | .decode, .rejected cause =>
    exact hsettle _
  | .dispatch e, .fulfilled (.token t) =>
    -- A dispatch is worth three, and makes a decoder and an adoption.
    have hexchange := c.load_startExchange_le (authorize e t)
    have hadopt := Promise.Machine.work_adopt_le effort
      (c.startExchange (authorize e t)).2.machine d (c.startExchange (authorize e t)).1
    show Promise.Machine.work effort _ < c.load + 3
    exact Nat.lt_of_le_of_lt hadopt (by
      show (c.startExchange (authorize e t)).2.load + 1 < _
      omega)
  | .dispatch e, .fulfilled (.json j) | .dispatch e, .fulfilled (.response r)
  | .dispatch e, .rejected cause => exact hsettle _

/-- A job leaves less work. -/
theorem load_start_lt {j : Promise.Job Payload ClientError Handler Empty}
    (hj : c.machine.next? = some (j, m)) :
    (Client.start { c with machine := m } j).2.load < c.load := by
  match j with
  | .deliver (.handler code d) x =>
    have htaken := Promise.Machine.work_next?_deliver effort hj
    exact Nat.lt_of_lt_of_eq (load_handle_lt _ d x code) htaken.symm
  | .deliver (.adoption p) x =>
    have htaken := Promise.Machine.work_next?_deliver effort hj
    show (m.settle p x).work effort < c.machine.work effort
    rw [Promise.Machine.work_settle, htaken]
    exact Nat.lt_succ_self _
  | .deliver (.wake a) x =>
    have htaken := Promise.Machine.work_next?_deliver effort hj
    show (m.wake a x).work effort < c.machine.work effort
    rw [htaken]
    exact Nat.lt_succ_of_le (Promise.Machine.work_wake_le effort m a x)
  | .poll a =>
    have htaken := Promise.Machine.work_next?_idle effort rfl hj
    show (m.poll a).2.work effort < c.machine.work effort
    rw [Promise.Machine.work_poll, htaken]
    exact Nat.lt_succ_self _

theorem load_step_job (hqueue : c.machine.queue ≠ []) : (c.step .job).load < c.load := by
  rcases hj : c.machine.next? with _ | ⟨j, m⟩
  · refine absurd (job_eq_none_iff.mp ?_) hqueue
    rw [job, hj]
    rfl
  · dsimp only [Client.step, job]
    rw [hj]
    exact Nat.lt_of_le_of_lt (load_tellLost_le _) (load_start_lt hj)

/-- As many jobs as there is work left empty the queue. -/
theorem queue_moves_jobs (c : Client) {n : Nat} (hn : c.load ≤ n) :
    (c.moves (List.replicate n .job)).machine.queue = [] := by
  -- Each job lowers the work that is left, and there are at least as many jobs to come as work.
  induction n generalizing c with
  | zero =>
    by_contra hqueue
    exact Nat.not_lt_zero _ (Nat.lt_of_lt_of_le (load_step_job hqueue) hn)
  | succ n ih =>
    by_cases hqueue : c.machine.queue = []
    · rw [moves_jobs_of_none (job_eq_none_iff.mpr hqueue)]
      exact hqueue
    · exact ih (c.step .job) (Nat.le_of_lt_succ (Nat.lt_of_lt_of_le (load_step_job hqueue) hn))

/-- The jobs of a client come to an end. -/
theorem queue_drained (c : Client) :
    ∃ n, (c.moves (List.replicate n .job)).machine.queue = [] :=
  ⟨c.load, c.queue_moves_jobs (Nat.le_refl _)⟩

/-- Jobs are moves, also if someone listens to their answers. -/
theorem client_answersIn (n : Nat) (c : Client) :
    (answersIn n c).2 = c.moves (List.replicate n .job) := by
  induction n generalizing c with
  | zero => rfl
  | succ n ih =>
    unfold answersIn
    split
    · next hjob => exact (moves_jobs_of_none hjob (n + 1)).symm
    · next answer c' hjob =>
      show (answersIn n c').2 = (c.step .job).moves _
      rw [step_job_of_some hjob]
      exact ih c'

/-- A client that is given time has nothing left to do. -/
theorem queue_settle (c : Client) : c.settle.2.machine.queue = [] := by
  unfold settle
  rw [client_answersIn]
  exact c.queue_moves_jobs (Nat.le_refl _)

/-- So it is after a scenario. -/
theorem Scenario.queue_run (c : Client) (script : List Scenario.Step) :
    (Scenario.run c script).client.machine.queue = [] := by
  unfold Scenario.run Scenario.Session.drain
  rw [Scenario.client_jobs]
  exact queue_moves_jobs _ (Nat.le_refl _)

end Switchboard.Client
