import Trainfer.ComputeQueue
import Trainfer.Lib.Runs

/-! `graceful_drain`: close the queue, let the worker finish, and resolve what is left.

The drain is one more coroutine beside the submitters, the waiters and the worker; it can be
called again once it has returned. Its last part, `_reap_pending`, runs without a suspension. -/

namespace Trainfer.GracefulDrain

open ComputeQueue (QueueTask Outcome TaskState Action)

universe u v
variable {π : Type u} {ρ : Type v}

def shutdownDroppedError (task : QueueTask π) : PyError :=
  ⟨.trainfer .shutdownDropped, s!"queue task {task.token} ({task.kind}) dropped on shutdown"⟩

/-! ## Reaping -/

def dropTask (s : ComputeQueue.State π ρ) (task : QueueTask π) : ComputeQueue.State π ρ :=
  { s with
    completedToken := max s.completedToken task.token
    tasks := Function.update s.tasks task.token
      { s.tasks task.token with error := some (shutdownDroppedError task), done := true } }

/-- The loop of `_reap_pending` over the tasks, which counts those it drops. -/
def reapLoop (s : ComputeQueue.State π ρ) (dropped : Nat) :
    List (QueueTask π) → Nat × ComputeQueue.State π ρ
  | [] => (dropped, s)
  | task :: rest =>
    if (s.tasks task.token).done then reapLoop s dropped rest
    else reapLoop (dropTask s task) (dropped + 1) rest

def reapPending (s : ComputeQueue.State π ρ) : Nat × ComputeQueue.State π ρ :=
  let (dropped, s) := reapLoop s 0 s.pending
  (dropped, { s with pending := s.pending.filter fun t => decide (s.completedToken < t.token) })

/-! ## The drain -/

/-- What `graceful_drain` returns. -/
structure Report where
  dropped : Nat
  timedOut : Bool

inductive Phase where
  /-- No call is going on. -/
  | idle
  /-- Waiting for the worker, with or without a deadline. -/
  | draining (deadline : Bool)
  /-- Waiting for the task in flight after the deadline. -/
  | grace

/-- The queue, the drain and, as ghost fields, how each handler call ended and what each
call of the drain has returned. -/
structure State (π : Type u) (ρ : Type v) where
  queue : ComputeQueue.State π ρ
  phase : Phase
  /-- The drain has set `_worker_task` to `None`. -/
  detached : Bool
  outcomes : List (QueueTask π × Outcome ρ)
  reports : List Report

def init (maxDepth : Int) : State π ρ where
  queue := ComputeQueue.init maxDepth
  phase := .idle
  detached := false
  outcomes := []
  reports := []

inductive Label (π : Type u) (ρ : Type v) where
  | queue (a : Action π ρ)
  | begin (deadline : Bool)
  /-- The drain sees that the worker has ended. -/
  | workerDone
  | deadline
  /-- The task in flight does not end within the grace period. -/
  | graceExpires

/-- `_worker_task is None or _worker_task.done()`. -/
def workerGone (s : State π ρ) : Bool :=
  s.detached || match s.queue.worker with
    | .notStarted | .exited => true
    | _ => false

def exited (s : ComputeQueue.State π ρ) : Bool :=
  match s.worker with
  | .exited => true
  | _ => false

def isBaseRaised : Outcome ρ → Bool
  | .baseRaised _ => true
  | _ => false

/-- The handler call that ends in this action. -/
def handled (s : ComputeQueue.State π ρ) (a : Action π ρ) : List (QueueTask π × Outcome ρ) :=
  match a, s.worker with
  | .workerFinish o, .running task => [(task, o)]
  | _, _ => []

/-- `return await self._reap_pending(timed_out=timed_out)`. -/
def reap (s : State π ρ) (timedOut : Bool) : State π ρ :=
  let (dropped, queue) := reapPending s.queue
  { s with queue := queue, phase := .idle, reports := s.reports ++ [⟨dropped, timedOut⟩] }

/-- The wait for the worker ends, and raises what the worker has raised. -/
def afterWorker (s : State π ρ) (timedOut : Bool) : Option (State π ρ) :=
  if exited s.queue then
    if s.outcomes.any fun e => isBaseRaised e.2 then some { s with phase := .idle }
    else some (reap { s with detached := true } timedOut)
  else none

def step (s : State π ρ) : Label π ρ → Option (State π ρ)
  | .queue a =>
    (ComputeQueue.step s.queue a).map fun queue =>
      { s with queue := queue, outcomes := s.outcomes ++ handled s.queue a }
  | .begin deadline =>
    match s.phase with
    | .idle =>
      let closed := { s with queue := { s.queue with accepting := false, stop := true } }
      if workerGone s then some (reap closed false)
      else some { closed with phase := .draining deadline }
    | _ => none
  | .workerDone =>
    match s.phase with
    | .draining _ => afterWorker s false
    | .grace => afterWorker s true
    | .idle => none
  | .deadline =>
    match s.phase with
    | .draining true =>
      some { s with queue := { s.queue with hardStop := true }, phase := .grace }
    | _ => none
  | .graceExpires =>
    match s.phase with
    | .grace => some (reap { s with detached := true } true)
    | _ => none

/-! ## What a drain promises -/

/-- The task object has the result or the exception of its handler. -/
def Recorded (ts : TaskState ρ) : Outcome ρ → Prop
  | .returned r => ts.error = none ∧ ts.result = some r
  | .raised e => ts.error = some e ∧ ts.result = none
  | .baseRaised _ => False

/-- The handler was never called on the task, and its error says that it was dropped. -/
def Dropped (s : ComputeQueue.State π ρ) (x : QueueTask π) : Prop :=
  (∀ y ∈ s.started, y.token ≠ x.token) ∧ (s.tasks x.token).error = some (shutdownDroppedError x)

instance (s : ComputeQueue.State π ρ) : DecidablePred (Dropped s) := fun _ =>
  inferInstanceAs (Decidable (_ ∧ _))

/-- Every issued task has ended, by its handler or by being dropped, and the report counts
those that were dropped. -/
structure Resolved (s : State π ρ) (report : Report) : Prop where
  done : ∀ t, s.queue.Issued t → (s.queue.tasks t).done = true
  outcome : ∀ t, s.queue.Issued t → ∃ x ∈ s.queue.tasksMade, x.token = t ∧
    ((∃ o, (x, o) ∈ s.outcomes ∧ Recorded (s.queue.tasks t) o) ∨ Dropped s.queue x)
  dropped : report.dropped = (s.queue.tasksMade.filter fun x => decide (Dropped s.queue x)).length

/-- From now on every submit raises, and every later drain drops nothing. -/
def Closed (s : State π ρ) : Prop :=
  ∀ labels t, Runs.exec step s labels = some t →
    (∀ kind payload batchId now,
      ComputeQueue.submit t.queue kind payload batchId now =
        .error ComputeQueue.shuttingDownError) ∧
      ∃ later, t.reports = s.reports ++ later ∧ ∀ report ∈ later, report.dropped = 0

/-- No task that waits in the queue or in `put` is at or below the cursor, and no handler
call has ended in an exception that `except Exception` lets through. -/
def NothingLost (s : State π ρ) : Prop :=
  (∀ x ∈ s.queue.q.held, s.queue.committed < x.token) ∧
    ∀ e ∈ s.outcomes, isBaseRaised e.2 = false

instance (s : State π ρ) : Decidable (NothingLost s) :=
  inferInstanceAs (Decidable (_ ∧ _))

end Trainfer.GracefulDrain
