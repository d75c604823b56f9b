import Trainfer.ControlPlane

/-! The end of a server's life: the autosave, and then the graceful shutdown.

The autosave is an ordinary task of the queue, which stays open until `graceful_shutdown` sets
its flag. Until then HTTP handlers, the idle replay scheduler and the TTRL scheduler go on
submitting train tasks; the last may be in the middle of its sampling, which runs in an
executor. -/

namespace Trainfer.Lifespan

open ComputeQueue (QueueTask Outcome Action)
open ControlPlane (Caller Request)

/-- What the lifespan and the controller read of `ServeConfig`. -/
structure Config where
  maxSamplesPerTrainCall : Int
  queueDepth : Int
  autosaveOnExit : Bool
  autosaveSnapshotName : String
  idleReplay : Bool
  idleReplayThreshold : Nat
  ttrlPseudoReward : Bool
  ttrlIdleThreshold : Nat

inductive Phase where
  /-- Requests are served. -/
  | serving
  /-- The `i`-th call of the control plane, the autosave, is awaited. -/
  | saving (i : Nat)
  /-- The autosave is over, or there was none. -/
  | saved
  /-- In `graceful_shutdown`, which has set its flag. -/
  | stopping
  deriving DecidableEq

/-- The task of a scheduler. -/
inductive Scheduler where
  | off
  | polling
  | sampling
  deriving DecidableEq

structure State where
  server : ControlPlane.State
  phase : Phase
  /-- The task of the autosave, once it is submitted; a ghost. -/
  autosave : Option (QueueTask Payload)
  replay : Scheduler
  ttrl : Scheduler

def init (cfg : Config) : State where
  server := ControlPlane.init cfg.maxSamplesPerTrainCall cfg.queueDepth
  phase := .serving
  autosave := none
  replay := if cfg.idleReplay then .polling else .off
  ttrl := if cfg.ttrlPseudoReward then .polling else .off

inductive Label where
  /-- A control-plane endpoint is called. -/
  | endpoint (r : Request) (now : Nat)
  /-- A train, feedback or memorize endpoint gets to `submit_train`. -/
  | submitTrain (spec : TrainSpec) (batchId : String) (now : Nat → Nat)
  | reply (i : Nat)
  | timeout (i : Nat)
  /-- The worker, a `wait_for` or a suspended `put` goes on. -/
  | queue (a : Action Payload JsonObject)
  /-- A poll of the idle replay scheduler at that time, with the record it has picked. -/
  | replayPoll (now : Nat) (picked : Option (TrainSpec × String))
  /-- A poll of the TTRL scheduler, which begins to sample. -/
  | ttrlPoll (now : Nat)
  /-- The sampling is over, with a winner or without. -/
  | ttrlVote (now : Nat) (winner : Option (TrainSpec × String))
  /-- The server is told to exit: the lifespan resumes after its `yield`. -/
  | exit (now : Nat)
  | gracefulShutdown
  | ttrlStopped
  | replayStopped
  | drain (a : GracefulDrain.Label Payload JsonObject)

/-- `submit_train`, whose exceptions go to the caller or to a log. -/
def train (s : ControlPlane.State) (spec : TrainSpec) (batchId : String) (now : Nat → Nat) :
    ControlPlane.State :=
  { s with drain :=
      { s.drain with queue := (s.controller.submitTrain spec batchId now).2.queue } }

def trainIf (s : ControlPlane.State) (picked : Option (TrainSpec × String)) (now : Nat) :
    ControlPlane.State :=
  match picked with
  | some (spec, batchId) => train s spec batchId fun _ => now
  | none => s

/-- The endpoints submit by name, not through the queue. -/
def submits : Action Payload JsonObject → Bool
  | .submit .. | .trySubmit .. => true
  | _ => false

/-- The autosave at the exit, up to its first suspension. -/
def exit (cfg : Config) (s : State) (now : Nat) : State :=
  if cfg.autosaveOnExit then
    let server := ControlPlane.call s.server (.autosaveOnExit cfg.autosaveSnapshotName) now
    match server.calls.getLast? with
    | some ⟨_, some task, none⟩ =>
      { s with server, phase := .saving s.server.calls.length, autosave := some task }
    | _ => { s with server, phase := .saved }
  else { s with phase := .saved }

/-- The call is over, and if it was the autosave, so is that. -/
def ended (s : State) (i : Nat) (server : ControlPlane.State) : State :=
  { s with server, phase := if s.phase = .saving i then .saved else s.phase }

def step (cfg : Config) (s : State) : Label → Option State
  | .endpoint r now => some { s with server := ControlPlane.call s.server (.endpoint r) now }
  | .submitTrain spec batchId now => some { s with server := train s.server spec batchId now }
  | .reply i => (ControlPlane.step s.server (.reply i)).map (ended s i)
  | .timeout i => (ControlPlane.step s.server (.timeout i)).map (ended s i)
  | .queue a =>
    if submits a then none
    else (ControlPlane.step s.server (.queue (.queue a))).map fun server => { s with server }
  | .replayPoll now picked =>
    match s.replay with
    | .polling =>
      if ComputeQueue.isIdleFor s.server.drain.queue now cfg.idleReplayThreshold then
        some { s with server := trainIf s.server picked now }
      else some s
    | _ => none
  | .ttrlPoll now =>
    match s.ttrl with
    | .polling =>
      if ComputeQueue.isIdleFor s.server.drain.queue now cfg.ttrlIdleThreshold then
        some { s with ttrl := .sampling }
      else some s
    | _ => none
  | .ttrlVote now winner =>
    match s.ttrl with
    | .sampling => some { s with server := trainIf s.server winner now, ttrl := .polling }
    | _ => none
  | .exit now =>
    match s.phase with
    | .serving => some (exit cfg s now)
    | _ => none
  | .gracefulShutdown =>
    match s.phase with
    | .saved => some { s with
        server := { s.server with shuttingDown := true }
        phase := .stopping }
    | _ => none
  | .ttrlStopped =>
    match s.phase with
    | .stopping => some { s with ttrl := .off }
    | _ => none
  | .replayStopped =>
    match s.phase, s.ttrl with
    | .stopping, .off => some { s with replay := .off }
    | _, _ => none
  | .drain (.queue _) => none
  | .drain a =>
    match s.phase, s.ttrl, s.replay with
    | .stopping, .off, .off =>
      (ControlPlane.step s.server (.queue a)).map fun server => { s with server }
    | _, _, _ => none

/-! ## What the autosave holds -/

/-- A train step that was applied, logged and committed. -/
def Trained (e : QueueTask Payload × Outcome JsonObject) : Prop :=
  e.1.kind = "train" ∧ ∃ r, e.2 = .returned r

/-- If the autosave has succeeded, every train step came before it. -/
def NoneLost (s : State) : Prop :=
  ∀ x, s.autosave = some x → ∀ before r after,
    s.server.drain.outcomes = before ++ (x, .returned r) :: after →
    ∀ e ∈ s.server.drain.outcomes, Trained e → e ∈ before

/-- The tasks in the order of the worker: those it has taken and those that it will. -/
def line (q : ComputeQueue.State Payload JsonObject) : List (QueueTask Payload) :=
  q.started ++ q.q.items

/-- The autosave is in the queue, or behind it. -/
def Queued (s : State) : Prop := ∃ x, s.autosave = some x ∧ x ∈ line s.server.drain.queue

/-- The submission adds no task. -/
def Refused (s : ControlPlane.State) (spec : TrainSpec) (batchId : String) (now : Nat → Nat) :
    Prop :=
  (train s spec batchId now).drain.queue.nextToken = s.drain.queue.nextToken

/-- No train step is enqueued behind the autosave. -/
def Ahead (s : State) : Label → Prop
  | .submitTrain spec batchId now => Queued s → Refused s.server spec batchId now
  | .replayPoll now (some (spec, batchId)) | .ttrlVote now (some (spec, batchId)) =>
    Queued s → Refused s.server spec batchId fun _ => now
  | _ => True

/-! ## The line -/

/-- There is no train step behind the task. -/
def NoneBehind (x : QueueTask Payload) (l : List (QueueTask Payload)) : Prop :=
  ∀ pre post, l = pre ++ x :: post → ∀ y ∈ post, y.kind ≠ "train"

theorem noneBehind_of_not_mem {x : QueueTask Payload} {l : List (QueueTask Payload)}
    (h : x ∉ l) : NoneBehind x l := by
  rintro pre post rfl
  simp at h

theorem NoneBehind.append {x : QueueTask Payload} {l added : List (QueueTask Payload)}
    (h : NoneBehind x l) (hadded : ∀ y ∈ added, y.kind ≠ "train") :
    NoneBehind x (l ++ added) := by
  intro pre post heq y hy
  rcases List.append_eq_append_iff.mp heq with ⟨as, -, hrest⟩ | ⟨bs, hl, hrest⟩
  · exact hadded y (by simp [hrest, hy])
  · cases bs with
    | nil =>
      have hadd : x :: post = added := by simpa using hrest
      exact hadded y (hadd ▸ List.mem_cons_of_mem x hy)
    | cons b bs =>
      obtain ⟨rfl, rfl⟩ := List.cons.inj hrest
      rcases List.mem_append.mp hy with hy | hy
      · exact h pre bs hl y hy
      · exact hadded y hy

/-- The line has grown, by tasks that are no train steps, and only such tasks are suspended. -/
structure Grown (q q' : ComputeQueue.State Payload JsonObject) : Prop where
  added : ∃ added, line q' = line q ++ added ∧ ∀ y ∈ added, y.kind ≠ "train"
  suspended : ∀ y ∈ q'.q.suspended, y.kind ≠ "train"

section Grown

variable {q q' : ComputeQueue.State Payload JsonObject}

theorem grown_of_eq (h : ∀ y ∈ q.q.suspended, y.kind ≠ "train") (hline : line q' = line q)
    (hsuspended : ∀ y ∈ q'.q.suspended, y ∈ q.q.suspended) : Grown q q' :=
  ⟨⟨[], by simp [hline], by simp⟩, fun y hy => h y (hsuspended y hy)⟩

theorem grown_put (h : ∀ y ∈ q.q.suspended, y.kind ≠ "train") {x : QueueTask Payload}
    (hx : x.kind ≠ "train") (hstarted : q'.started = q.started)
    {b : AsyncQueue (QueueTask Payload)} (hitems : b.items = q.q.items)
    (hsuspended : ∀ y ∈ b.suspended, y ∈ q.q.suspended) (hq : q'.q = (b.put x).1) :
    Grown q q' := by
  cases hfull : b.full with
  | true =>
    rw [AsyncQueue.put_full b x hfull] at hq
    refine ⟨⟨[], by simp [line, hstarted, hq, hitems], by simp⟩, fun y hy => ?_⟩
    rw [hq] at hy
    simp only [AsyncQueue.suspended, List.mem_append, List.mem_singleton] at hy hsuspended
    rcases hy with (hy | rfl) | hy
    · exact h y (List.mem_append.mpr (hsuspended y (.inl hy)))
    · exact hx
    · exact h y (List.mem_append.mpr (hsuspended y (.inr hy)))
  | false =>
    rw [AsyncQueue.put_not_full b x hfull] at hq
    refine ⟨⟨[x], by simp [line, hstarted, hq, hitems], by simpa using hx⟩, fun y hy => ?_⟩
    rw [hq] at hy
    exact h y (hsuspended y hy)

theorem grown_submit (h : ∀ y ∈ q.q.suspended, y.kind ≠ "train") {kind batchId : String}
    {payload : Payload} {now : Nat} {task : QueueTask Payload} {st : AsyncQueue.PutStatus}
    (hsub : ComputeQueue.submit q kind payload batchId now = .ok (task, st, q'))
    (hkind : kind ≠ "train") : Grown q q' := by
  obtain ⟨-, rfl, -, rfl⟩ := ComputeQueue.submit_ok hsub
  exact grown_put h hkind rfl rfl (fun _ hy => hy) rfl

theorem grown_action (h : ∀ y ∈ q.q.suspended, y.kind ≠ "train")
    {a : Action Payload JsonObject} (ha : submits a = false)
    (hstep : ComputeQueue.step q a = some q') : Grown q q' := by
  cases ComputeQueue.stepped hstep with
  | submitted hsubmit _ =>
    rcases hsubmit with rfl | ⟨rfl, -⟩ <;> simp [submits] at ha
  | @resumed i _ hq =>
    unfold AsyncQueue.resumePut at hq
    cases hw : q.q.woken[i]? with
    | none => simp [hw] at hq
    | some x =>
      rw [hw] at hq
      have hx : x ∈ q.q.suspended := List.mem_append_right _ (List.mem_of_getElem? hw)
      refine grown_put h (h x hx) rfl (b := { q.q with woken := q.q.woken.eraseIdx i }) rfl
        (fun y hy => ?_) (Option.some.inj hq).symm
      simp only [AsyncQueue.suspended, List.mem_append] at hy ⊢
      exact hy.imp_right List.mem_of_mem_eraseIdx
  | got _ hq =>
    obtain ⟨hitems, hsuspended⟩ := AsyncQueue.getNowait_some hq
    refine grown_of_eq h ?_ fun y hy => (hsuspended y).mp hy
    simp [line, hitems]
  | refused | waitAdded | waitEnded | moved | finished | committed =>
    exact grown_of_eq h rfl fun _ hy => hy

theorem grown_drain {d d' : GracefulDrain.State Payload JsonObject}
    {a : GracefulDrain.Label Payload JsonObject}
    (h : ∀ y ∈ d.queue.q.suspended, y.kind ≠ "train") (ha : ∀ b, a ≠ .queue b)
    (hstep : GracefulDrain.step d a = some d') : Grown d.queue d'.queue := by
  cases GracefulDrain.moved hstep with
  | queue => exact absurd rfl (ha _)
  | flags => exact grown_of_eq h rfl fun _ hy => hy
  | @reaped _ accepting stop =>
    have hframe :=
      (GracefulDrain.reapLoop_tasks { d.queue with accepting, stop } 0 d.queue.pending).1
    have hsame : ∀ {α : Type} (f : ComputeQueue.State Payload JsonObject → α),
        (∀ c ts, f { d.queue with accepting, stop, completedToken := c, tasks := ts } =
          f d.queue) →
        f (GracefulDrain.reapLoop { d.queue with accepting, stop } 0 d.queue.pending).2 =
          f d.queue := fun f hf => by
      rw [hframe]
      exact hf _ _
    refine grown_of_eq h (hsame line fun _ _ => rfl) fun y hy => ?_
    exact hsame (fun q => q.q.suspended) (fun _ _ => rfl) ▸ hy

/-! ## Train submissions -/

/-- Nothing was submitted, or train tasks were. -/
def Fed (q q' : ComputeQueue.State Payload JsonObject) : Prop :=
  q' = q ∨ q.nextToken < q'.nextToken ∧
    (∃ added, line q' = line q ++ added ∧ ∀ y ∈ added, y.kind = "train") ∧
    q'.q.suspended = q.q.suspended

theorem fed_trySubmit {q₀ : ComputeQueue.State Payload JsonObject} (h : Fed q₀ q)
    {batchId : String} {payload : Payload} {now : Nat} {task : QueueTask Payload}
    {st : AsyncQueue.PutStatus}
    (hsub : ComputeQueue.trySubmit q "train" payload batchId now = .ok (task, st, q')) :
    Fed q₀ q' := by
  obtain ⟨-, -, -, htask, rfl⟩ := ComputeQueue.trySubmit_enqueues hsub
  have htrain : task.kind = "train" := by rw [htask]
  rcases h with rfl | ⟨hlt, ⟨added, hline, hkind⟩, hsuspended⟩
  · exact .inr ⟨Int.lt_succ _, ⟨[task], (List.append_assoc _ _ _).symm, by simpa using htrain⟩,
      rfl⟩
  · refine .inr ⟨lt_trans hlt (Int.lt_succ _), ⟨added ++ [task], ?_, fun y hy => ?_⟩, hsuspended⟩
    · rw [← List.append_assoc, ← hline]
      exact (List.append_assoc _ _ _).symm
    · rcases List.mem_append.mp hy with hy | hy
      · exact hkind y hy
      · rw [List.mem_singleton.mp hy, htrain]

theorem fed_train (s : ControlPlane.State) (spec : TrainSpec) (batchId : String)
    (now : Nat → Nat) : Fed s.drain.queue (train s spec batchId now).drain.queue :=
  Controller.submitTrain_preserves (I := Fed s.drain.queue)
    (fun _ _ _ _ _ _ hq hsub => fed_trySubmit hq hsub) (.inl rfl)

theorem traced_train (s : ControlPlane.State) (spec : TrainSpec) (batchId : String)
    (now : Nat → Nat) (h : GracefulDrain.Traced s.drain) :
    GracefulDrain.Traced (train s spec batchId now).drain := by
  refine Controller.submitTrain_preserves
    (I := fun queue => GracefulDrain.Traced { s.drain with queue := queue }) ?_ h
  intro q task st q' payload i hq hsub
  exact GracefulDrain.traced_submitted (s := { s.drain with queue := q }) hq
    (ComputeQueue.trySubmit_ok hsub).2

end Grown

/-! ## Steps -/

/-- What every run keeps in which no train step is enqueued behind the autosave. -/
structure Orderly (s : State) : Prop where
  traced : GracefulDrain.Traced s.server.drain
  suspended : ∀ y ∈ s.server.drain.queue.q.suspended, y.kind ≠ "train"
  kind : ∀ x, s.autosave = some x → x.kind = "snapshot_save"
  ahead : ∀ x, s.autosave = some x → NoneBehind x (line s.server.drain.queue)

theorem orderly_init (cfg : Config) : Orderly (init cfg) where
  traced := GracefulDrain.traced_init cfg.queueDepth
  suspended := by simp [init, ControlPlane.init, GracefulDrain.init, ComputeQueue.init]
  kind := fun x hx => by cases hx
  ahead := fun x hx => by cases hx

theorem Orderly.grown {s t : State} (h : Orderly s)
    (htraced : GracefulDrain.Traced t.server.drain)
    (hg : Grown s.server.drain.queue t.server.drain.queue) (ha : t.autosave = s.autosave) :
    Orderly t := by
  refine ⟨htraced, hg.suspended, fun x hx => h.kind x (ha ▸ hx), fun x hx => ?_⟩
  obtain ⟨added, hline, hkind⟩ := hg.added
  rw [hline]
  exact (h.ahead x (ha ▸ hx)).append hkind

theorem Orderly.train {s : State} (h : Orderly s) {spec : TrainSpec} {batchId : String}
    {now : Nat → Nat} (hg : Queued s → Refused s.server spec batchId now) (ttrl : Scheduler) :
    Orderly { s with server := Lifespan.train s.server spec batchId now, ttrl := ttrl } := by
  have htraced := traced_train s.server spec batchId now h.traced
  have hfed := fed_train s.server spec batchId now
  generalize hserver : Lifespan.train s.server spec batchId now = server at htraced hfed
  rcases hfed with hsame | ⟨hlt, ⟨added, hline, hkind⟩, hsuspended⟩
  · exact h.grown htraced (grown_of_eq h.suspended (by rw [hsame]) fun y hy => hsame ▸ hy) rfl
  · refine ⟨htraced, fun y hy => h.suspended y (hsuspended ▸ hy), h.kind, fun x hx => ?_⟩
    show NoneBehind x (line server.drain.queue)
    rw [hline]
    refine noneBehind_of_not_mem fun hmem => ?_
    rcases List.mem_append.mp hmem with hmem | hmem
    · -- the autosave is queued, so the submission was refused
      have hrefused := hg ⟨x, hx, hmem⟩
      rw [Refused, hserver] at hrefused
      omega
    · have htrain := hkind x hmem
      rw [h.kind x hx] at htrain
      exact absurd htrain (by decide)

theorem Orderly.trainIf {s : State} (h : Orderly s) {picked : Option (TrainSpec × String)}
    {now : Nat}
    (hg : ∀ spec batchId, picked = some (spec, batchId) → Queued s →
      Refused s.server spec batchId fun _ => now) (ttrl : Scheduler) :
    Orderly { s with server := Lifespan.trainIf s.server picked now, ttrl := ttrl } := by
  cases picked with
  | none => exact h.grown h.traced (grown_of_eq h.suspended rfl fun _ hy => hy) rfl
  | some p => exact h.train (hg p.1 p.2 rfl) ttrl

theorem kind_ne_train (r : Request) : r.kind ≠ "train" := by
  cases r <;> simp [Request.kind]

/-- A call of the control plane grows the line. -/
theorem grown_call {s : State} (h : Orderly s) (c : Caller) (now : Nat) :
    GracefulDrain.Traced (ControlPlane.call s.server c now).drain ∧
      Grown s.server.drain.queue (ControlPlane.call s.server c now).drain.queue := by
  rcases ControlPlane.call_cases s.server c now with ⟨e, hcall⟩ | ⟨task, st, queue, hsub, hcall⟩
  · rw [hcall]
    exact ⟨h.traced, grown_of_eq h.suspended rfl fun _ hy => hy⟩
  · rw [hcall]
    exact ⟨GracefulDrain.traced_submitted h.traced hsub,
      grown_submit h.suspended hsub (kind_ne_train c.request)⟩

/-- The autosave is refused, or its task is new. -/
theorem exit_cases (cfg : Config) (s : State) (now : Nat) :
    (exit cfg s now).server = s.server ∧ (exit cfg s now).autosave = s.autosave ∨
    (exit cfg s now).server =
        ControlPlane.call s.server (.autosaveOnExit cfg.autosaveSnapshotName) now ∧
      ((exit cfg s now).autosave = s.autosave ∨ ∃ x, (exit cfg s now).autosave = some x ∧
        x.kind = "snapshot_save" ∧ x.token = s.server.drain.queue.nextToken) := by
  unfold exit
  split
  · refine .inr ?_
    rcases ControlPlane.call_cases s.server (.autosaveOnExit cfg.autosaveSnapshotName) now with
      ⟨e, hcall⟩ | ⟨task, st, queue, hsub, hcall⟩
    · simp [hcall]
    · obtain ⟨-, htask, -, -⟩ := ComputeQueue.submit_ok hsub
      simp [hcall, htask, Caller.request, Request.kind]
  · exact .inl ⟨rfl, rfl⟩

theorem orderly_exit {s : State} (h : Orderly s) (cfg : Config) (now : Nat) :
    Orderly (exit cfg s now) := by
  rcases exit_cases cfg s now with ⟨hserver, hautosave⟩ | ⟨hserver, hautosave⟩
  · exact h.grown (by rw [hserver]; exact h.traced)
      (by rw [hserver]; exact grown_of_eq h.suspended rfl fun _ hy => hy) hautosave
  · obtain ⟨htraced, hg⟩ := grown_call h (.autosaveOnExit cfg.autosaveSnapshotName) now
    rw [← hserver] at htraced hg
    rcases hautosave with hsame | ⟨x, hx, hkind, htoken⟩
    · exact h.grown htraced hg hsame
    · -- a new token is not in the line, and what follows it there is no train step
      have hnew : x ∉ line s.server.drain.queue := fun hmem => by
        have hmade : x ∈ s.server.drain.queue.tasksMade := by
          rcases List.mem_append.mp hmem with hmem | hmem
          · exact List.mem_append_left _ hmem
          · exact List.mem_append_right _ (List.mem_append_left _ hmem)
        have := h.traced.below x hmade
        omega
      obtain ⟨added, hline, hadded⟩ := hg.added
      refine ⟨htraced, hg.suspended, fun y hy => ?_, fun y hy => ?_⟩
      · obtain rfl := Option.some.inj (hx.symm.trans hy)
        exact hkind
      · obtain rfl := Option.some.inj (hx.symm.trans hy)
        rw [hline]
        exact (noneBehind_of_not_mem hnew).append hadded

theorem Orderly.answered {s : State} (h : Orderly s) {a : ControlPlane.Label} {i : Nat}
    {server : ControlPlane.State} (ha : a = .reply i ∨ a = .timeout i)
    (hstep : ControlPlane.step s.server a = some server) : Orderly (ended s i server) := by
  have hdrain : server.drain = s.server.drain := by
    rcases ha with rfl | rfl
    · obtain ⟨_, _, _, _, _, rfl⟩ := ControlPlane.answer_some hstep
      rfl
    · obtain ⟨_, _, _, _, _, rfl⟩ := ControlPlane.answer_some hstep
      rfl
  refine h.grown (t := ended s i server) ?_ ?_ rfl
  · show GracefulDrain.Traced server.drain
    rw [hdrain]
    exact h.traced
  · show Grown s.server.drain.queue server.drain.queue
    rw [hdrain]
    exact grown_of_eq h.suspended rfl fun _ hy => hy

theorem orderly_step {cfg : Config} (s : State) (a : Label) (t : State) (h : Orderly s)
    (hg : Ahead s a) (hstep : step cfg s a = some t) : Orderly t := by
  have hsame : ∀ u : State, u.server.drain = s.server.drain → u.autosave = s.autosave →
      Orderly u := fun u hdrain hautosave =>
    h.grown (by rw [hdrain]; exact h.traced)
      (by rw [hdrain]; exact grown_of_eq h.suspended rfl fun _ hy => hy) hautosave
  cases a with
  | endpoint r now =>
    obtain rfl := Option.some.inj hstep
    obtain ⟨htraced, hgrown⟩ := grown_call h (.endpoint r) now
    exact h.grown htraced hgrown rfl
  | submitTrain spec batchId now =>
    obtain rfl := Option.some.inj hstep
    exact h.train hg s.ttrl
  | reply i =>
    obtain ⟨server, hserver, rfl⟩ := Option.map_eq_some_iff.mp hstep
    exact h.answered (.inl rfl) hserver
  | timeout i =>
    obtain ⟨server, hserver, rfl⟩ := Option.map_eq_some_iff.mp hstep
    exact h.answered (.inr rfl) hserver
  | queue a =>
    simp only [step] at hstep
    split at hstep
    · cases hstep
    · rename_i ha
      obtain ⟨server, hserver, rfl⟩ := Option.map_eq_some_iff.mp hstep
      obtain ⟨drain, hdrain, rfl⟩ := Option.map_eq_some_iff.mp hserver
      obtain ⟨queue, hqueue, rfl⟩ := Option.map_eq_some_iff.mp hdrain
      exact h.grown (GracefulDrain.traced_step _ _ _ h.traced hdrain)
        (grown_action h.suspended (by simpa using ha) hqueue) rfl
  | replayPoll now picked =>
    simp only [step] at hstep
    split at hstep
    · split at hstep
      · obtain rfl := Option.some.inj hstep
        refine h.trainIf (fun spec batchId hp => ?_) s.ttrl
        subst hp
        exact hg
      · obtain rfl := Option.some.inj hstep
        exact h
    · cases hstep
  | ttrlPoll now =>
    simp only [step] at hstep
    split at hstep
    · split at hstep
      · obtain rfl := Option.some.inj hstep
        exact hsame _ rfl rfl
      · obtain rfl := Option.some.inj hstep
        exact h
    · cases hstep
  | ttrlVote now winner =>
    simp only [step] at hstep
    split at hstep
    · obtain rfl := Option.some.inj hstep
      refine h.trainIf (fun spec batchId hp => ?_) .polling
      subst hp
      exact hg
    · cases hstep
  | exit now =>
    simp only [step] at hstep
    split at hstep
    · obtain rfl := Option.some.inj hstep
      exact orderly_exit h cfg now
    · cases hstep
  | gracefulShutdown | ttrlStopped | replayStopped =>
    simp only [step] at hstep
    split at hstep
    · obtain rfl := Option.some.inj hstep
      exact hsame _ rfl rfl
    · cases hstep
  | drain a =>
    cases a with
    | queue b => cases hstep
    | «begin» | workerDone | deadline | graceExpires =>
      simp only [step] at hstep
      split at hstep
      · obtain ⟨server, hserver, rfl⟩ := Option.map_eq_some_iff.mp hstep
        obtain ⟨drain, hdrain, rfl⟩ := Option.map_eq_some_iff.mp hserver
        exact h.grown (GracefulDrain.traced_step _ _ _ h.traced hdrain)
          (grown_drain h.suspended (by simp) hdrain) rfl
      · cases hstep

/-- The handler is called in the order of the line. -/
theorem finished_prefix_line {d : GracefulDrain.State Payload JsonObject}
    (h : GracefulDrain.Traced d) : d.queue.finished <+: line d.queue :=
  h.phase.finished_prefix.trans (List.prefix_append _ _)

theorem noneLost_of_orderly {s : State} (h : Orderly s) : NoneLost s := by
  intro x hx before r after hout e he ⟨hkind, hreturned⟩
  rw [hout] at he
  rcases List.mem_append.mp he with he | he
  · exact he
  · exfalso
    rcases List.mem_cons.mp he with rfl | he
    · rw [h.kind x hx] at hkind
      exact absurd hkind (by decide)
    · obtain ⟨rest, hrest⟩ := finished_prefix_line h.traced
      rw [← h.traced.handled, hout] at hrest
      refine h.ahead x hx (before.map Prod.fst) (after.map Prod.fst ++ rest) ?_ e.1 ?_ hkind
      · rw [← hrest]
        simp
      · exact List.mem_append_left _ (List.mem_map_of_mem he)

/-- **Clean restart.** As long as no train step is enqueued behind the autosave, no train step
that succeeds is left out of it. -/
theorem noneLost_of_ahead {cfg : Config} {labels : List Label}
    (hg : Runs.Meets (step cfg) Ahead (init cfg) labels) :
    Runs.Always (step cfg) NoneLost (init cfg) labels :=
  Runs.always_of_meets orderly_step (fun _ => noneLost_of_orderly) (orderly_init cfg) hg

def quietConfig : Config where
  maxSamplesPerTrainCall := 64
  queueDepth := 4
  autosaveOnExit := true
  autosaveSnapshotName := "_autosave"
  idleReplay := false
  idleReplayThreshold := 30
  ttrlPseudoReward := false
  ttrlIdleThreshold := 30

def oneSample : TrainSpec where
  objective := .val "sft"
  samples := .val [[("prompt", .str "2+2?"), ("response", .str "4")]]

/-- The worker takes the next task, and its handler returns. -/
def runsTask : List Label :=
  [.queue .workerLoop, .queue .workerGet, .queue (.workerFinish (.returned [])),
    .queue .workerCommit]

/-- A train step, the exit, and a train request that comes too late. -/
def quietExit : List Label :=
  [.queue .start, .submitTrain oneSample "b" fun _ => 0] ++ runsTask ++ [.exit 1] ++ runsTask ++
    [.reply 0, .gracefulShutdown, .submitTrain oneSample "c" fun _ => 2, .ttrlStopped,
      .replayStopped, .drain (.begin true), .queue .workerLoop, .drain .workerDone]

theorem quietExit_noneLost :
    ∃ s, Runs.exec (step quietConfig) (init quietConfig) quietExit = some s ∧
      Runs.Always (step quietConfig) NoneLost (init quietConfig) quietExit := by
  refine ⟨_, rfl, noneLost_of_ahead ?_⟩
  have hserving : ¬ Queued (init quietConfig) := fun ⟨x, hx, _⟩ => by cases hx
  refine .cons trivial rfl (.cons (fun hq => absurd hq hserving) rfl ?_)
  refine .cons trivial rfl (.cons trivial rfl (.cons trivial rfl (.cons trivial rfl ?_)))
  refine .cons trivial rfl ?_
  refine .cons trivial rfl (.cons trivial rfl (.cons trivial rfl (.cons trivial rfl ?_)))
  refine .cons trivial rfl (.cons trivial rfl (.cons (fun _ => rfl) rfl ?_))
  exact .cons trivial rfl (.cons trivial rfl (.cons trivial rfl (.cons trivial rfl
    (.cons trivial rfl trivial))))

/-- The server exits while the TTRL scheduler samples. Its vote comes while the autosave is
awaited, and the drain runs the pseudo-label behind it. -/
def lateVote : List Label :=
  [.queue .start, .ttrlPoll 100, .exit 100, .ttrlVote 101 (some (oneSample, "b"))] ++ runsTask ++
    [.reply 0, .gracefulShutdown, .ttrlStopped, .replayStopped, .drain (.begin true)] ++ runsTask

theorem autosave_misses_training :
    ¬ ∀ (cfg : Config) (labels : List Label) (s : State),
      Runs.exec (step cfg) (init cfg) labels = some s → NoneLost s := by
  intro h
  have hs := h { quietConfig with ttrlPseudoReward := true } lateVote _ rfl
  have hmem := hs ⟨0, "snapshot_save", .named "_autosave", ""⟩ rfl [] []
    [(⟨1, "train", .train (oneSample.chunk 2 0), "b"⟩, .returned [])] rfl _
    (List.mem_cons_of_mem _ List.mem_cons_self) ⟨rfl, [], rfl⟩
  cases hmem

end Trainfer.Lifespan
