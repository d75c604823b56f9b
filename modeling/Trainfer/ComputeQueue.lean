import Trainfer.Errors
import Trainfer.Lib.AsyncQueue
import Mathlib.Logic.Function.Basic

/-! The compute queue at the granularity of its await points. Every caller of
`submit`, `try_submit` and `wait_for` and the single worker is a coroutine on one
event loop, so a run is a list of actions, each of which is what one coroutine does
between two suspensions. Any number of callers may be suspended inside `put`. -/

namespace Trainfer.ComputeQueue

universe u v

/-- The fields that `submit` fixes. The mutable attributes are in `TaskState`. -/
structure QueueTask (π : Type u) where
  token : Int
  kind : String
  payload : π
  batchId : String
  deriving DecidableEq, Repr

/-- How a handler call ends. `except Exception` does not catch a `BaseException`. -/
inductive Outcome (ρ : Type v) where
  | returned (result : ρ)
  | raised (e : PyError)
  | baseRaised (e : PyError)

/-- The attributes of a task object that the worker writes. -/
structure TaskState (ρ : Type v) where
  done : Bool := false
  error : Option PyError := none
  result : Option ρ := none

/-- Where the worker coroutine is: at the head of its loop, inside
`wait_for(get(), 0.1)`, inside the handler, or in the `finally` block. -/
inductive Worker (π : Type u) (ρ : Type v) where
  | notStarted
  | loop
  | getting
  | running (task : QueueTask π)
  | finishing (task : QueueTask π) (outcome : Outcome ρ)
  | exited

/-- What `wait_for` hands back. -/
structure WaitResult (ρ : Type v) where
  token : Int
  kind : String
  error : Option PyError
  result : Option ρ

inductive WaitStatus (ρ : Type v) where
  | blocked (kind : String)
  | returned (r : WaitResult ρ)
  | failed (e : PyError)

/-- One call of `wait_for`. -/
structure WaitCall (ρ : Type v) where
  token : Int
  status : WaitStatus ρ

/-- The queue and, as ghost fields, the tasks the handler was called on and those
it has finished on, in order, and every `wait_for` call made so far. -/
structure State (π : Type u) (ρ : Type v) where
  q : AsyncQueue (QueueTask π)
  nextToken : Int
  completedToken : Int
  pending : List (QueueTask π)
  tasks : Int → TaskState ρ
  accepting : Bool
  stop : Bool
  hardStop : Bool
  lastEnqueueTs : Nat
  worker : Worker π ρ
  started : List (QueueTask π)
  finished : List (QueueTask π)
  waits : List (WaitCall ρ)

variable {π : Type u} {ρ : Type v}

def init (maxDepth : Int) : State π ρ where
  q := AsyncQueue.init maxDepth
  nextToken := 0
  completedToken := -1
  pending := []
  tasks := fun _ => {}
  accepting := true
  stop := false
  hardStop := false
  lastEnqueueTs := 0
  worker := .notStarted
  started := []
  finished := []
  waits := []

def State.qsize (s : State π ρ) : Nat := s.q.qsize

def State.maxsize (s : State π ρ) : Int := s.q.maxsize

/-- The `committed` property: the commit cursor. -/
def State.committed (s : State π ρ) : Int := s.completedToken

/-- Tokens that `submit` has handed out. -/
def State.Issued (s : State π ρ) (t : Int) : Prop := 0 ≤ t ∧ t < s.nextToken

instance (s : State π ρ) (t : Int) : Decidable (s.Issued t) :=
  inferInstanceAs (Decidable (0 ≤ t ∧ t < s.nextToken))

/-! ## Enqueue -/

def shuttingDownError : PyError :=
  ⟨.trainfer .shuttingDown, "queue is draining; new submits rejected until restart"⟩

def queueFullError (s : State π ρ) : PyError :=
  ⟨.trainfer .queueFull, s!"compute queue depth {s.qsize}/{s.maxsize}; retry after backoff"⟩

/-- `submit` up to its first suspension: the token is allocated and the task is
pending before `put`, which may suspend the caller. -/
def submit (s : State π ρ) (kind : String) (payload : π) (batchId : String) (now : Nat) :
    Except PyError (QueueTask π × AsyncQueue.PutStatus × State π ρ) :=
  if s.accepting then
    let task : QueueTask π := ⟨s.nextToken, kind, payload, batchId⟩
    let put := s.q.put task
    .ok (task, put.2,
      { s with
        nextToken := s.nextToken + 1
        pending := s.pending ++ [task]
        lastEnqueueTs := now
        q := put.1 })
  else .error shuttingDownError

def trySubmit (s : State π ρ) (kind : String) (payload : π) (batchId : String) (now : Nat) :
    Except PyError (QueueTask π × AsyncQueue.PutStatus × State π ρ) :=
  if s.q.full then .error (queueFullError s) else submit s kind payload batchId now

/-- A suspended submitter resumes inside `put`. -/
def resumePut (s : State π ρ) (i : Nat) : Option (State π ρ) :=
  (s.q.resumePut i).map fun q => { s with q := q }

/-! ## Read side -/

def isIdleFor (s : State π ρ) (now seconds : Nat) : Bool :=
  if s.pending.isEmpty then decide (seconds ≤ now - s.lastEnqueueTs) else false

def pendingGet (s : State π ρ) (token : Int) : Option (QueueTask π) :=
  s.pending.find? fun t => t.token == token

/-- What `wait_for` does with an integer token before it can suspend. -/
def waitStart (s : State π ρ) (token : Int) : WaitStatus ρ :=
  match pendingGet s token with
  | some task => .blocked task.kind
  | none =>
    -- completed and garbage-collected, or never issued
    if token ≤ s.completedToken then .returned ⟨token, "n/a", none, none⟩
    else .failed ⟨.keyError, s!"unknown token {token}"⟩

def waitFor (s : State π ρ) (token : Int) : State π ρ :=
  { s with waits := s.waits ++ [⟨token, waitStart s token⟩] }

/-- The task objects that exist, in the hands of the worker or of a caller of `put`. -/
def State.tasksMade (s : State π ρ) : List (QueueTask π) := s.started ++ s.q.held

/-- `wait_for` called with the `i`-th task object, which blocks on its event in any
case. -/
def waitForTask (s : State π ρ) (i : Nat) : Option (State π ρ) :=
  s.tasksMade[i]?.map fun task =>
    { s with waits := s.waits ++ [⟨task.token, .blocked task.kind⟩] }

def waitResult (s : State π ρ) (token : Int) (kind : String) : WaitResult ρ :=
  ⟨token, kind, (s.tasks token).error, (s.tasks token).result⟩

/-- The `i`-th call of `wait_for` sees its event set. -/
def waitResume (s : State π ρ) (i : Nat) : Option (State π ρ) :=
  match s.waits[i]? with
  | some ⟨token, .blocked kind⟩ =>
    if (s.tasks token).done then
      some { s with waits := s.waits.set i ⟨token, .returned (waitResult s token kind)⟩ }
    else none
  | _ => none

def waitTimeout (s : State π ρ) (i : Nat) : Option (State π ρ) :=
  match s.waits[i]? with
  | some ⟨token, .blocked _⟩ =>
    some { s with waits := s.waits.set i ⟨token, .failed ⟨.asyncioTimeout, ""⟩⟩ }
  | _ => none

/-! ## Worker -/

def start (s : State π ρ) : Option (State π ρ) :=
  match s.worker with
  | .notStarted => some { s with worker := .loop }
  | _ => none

/-- The two stop checks at the head of the loop. -/
def workerLoop (s : State π ρ) : Option (State π ρ) :=
  match s.worker with
  | .loop =>
    if s.hardStop then some { s with worker := .exited }
    else if s.stop && s.q.empty then some { s with worker := .exited }
    else some { s with worker := .getting }
  | _ => none

/-- `get` returns and the handler is called on the task. -/
def workerGet (s : State π ρ) : Option (State π ρ) :=
  match s.worker, s.q.getNowait with
  | .getting, some (task, q) =>
    some { s with q := q, worker := .running task, started := s.started ++ [task] }
  | _, _ => none

/-- The 0.1 s timeout of `wait_for(get())`; the loop goes around. -/
def workerGetTimeout (s : State π ρ) : Option (State π ρ) :=
  match s.worker with
  | .getting => some { s with worker := .loop }
  | _ => none

def recordOutcome (ts : TaskState ρ) : Outcome ρ → TaskState ρ
  | .returned r => { ts with result := some r }
  | .raised e => { ts with error := some e }
  | .baseRaised _ => ts

/-- The handler ends, in any way. -/
def workerFinish (s : State π ρ) (outcome : Outcome ρ) : Option (State π ρ) :=
  match s.worker with
  | .running task =>
    some
      { s with
        worker := .finishing task outcome
        finished := s.finished ++ [task]
        tasks := Function.update s.tasks task.token
          (recordOutcome (s.tasks task.token) outcome) }
  | _ => none

/-- The `finally` block, under the condition's lock: advance, set, collect. -/
def workerCommit (s : State π ρ) : Option (State π ρ) :=
  match s.worker with
  | .finishing task outcome =>
    let cursor := max s.completedToken task.token
    some
      { s with
        completedToken := cursor
        tasks := Function.update s.tasks task.token { s.tasks task.token with done := true }
        pending := s.pending.filter fun t => decide (cursor < t.token)
        worker := match outcome with
          | .baseRaised _ => .exited
          | _ => .loop }
  | _ => none

/-! ## Runs -/

inductive Action (π : Type u) (ρ : Type v) where
  | submit (kind : String) (payload : π) (batchId : String) (now : Nat)
  | trySubmit (kind : String) (payload : π) (batchId : String) (now : Nat)
  | resumePut (i : Nat)
  | waitFor (token : Int)
  | waitForTask (i : Nat)
  | waitResume (i : Nat)
  | waitTimeout (i : Nat)
  | start
  | workerLoop
  | workerGet
  | workerGetTimeout
  | workerFinish (outcome : Outcome ρ)
  | workerCommit

/-- The state after a call that either raises and changes nothing or goes through. -/
def afterSubmit (s : State π ρ) :
    Except PyError (QueueTask π × AsyncQueue.PutStatus × State π ρ) → State π ρ
  | .error _ => s
  | .ok (_, _, s') => s'

/-- One action; `none` if no coroutine can take it now. -/
def step (s : State π ρ) : Action π ρ → Option (State π ρ)
  | .submit kind payload batchId now => some (afterSubmit s (submit s kind payload batchId now))
  | .trySubmit kind payload batchId now =>
    some (afterSubmit s (trySubmit s kind payload batchId now))
  | .resumePut i => resumePut s i
  | .waitFor token => some (waitFor s token)
  | .waitForTask i => waitForTask s i
  | .waitResume i => waitResume s i
  | .waitTimeout i => waitTimeout s i
  | .start => start s
  | .workerLoop => workerLoop s
  | .workerGet => workerGet s
  | .workerGetTimeout => workerGetTimeout s
  | .workerFinish outcome => workerFinish s outcome
  | .workerCommit => workerCommit s

end Trainfer.ComputeQueue
