import Trainfer.SubmitTrain
import Trainfer.WaitOutcome
import Trainfer.TrajectoryLog
import Mathlib

/-! The control plane: merge, the two snapshot requests and the greedy-rank eval, and the two
steps of the server's lifespan that save and restore a snapshot.

Each of the four entry points submits one task, waits for it and makes a response of the finished
task object, in its own way. Handler results are dictionaries. -/

namespace Trainfer.ControlPlane

open ComputeQueue (QueueTask Outcome TaskState)
open GracefulDrain (HandlerReturned shutdownDroppedError)

/-! ## The entry points -/

inductive Request where
  | requestMerge
  | requestSnapshotSave (name : String)
  | requestSnapshotLoad (name : String)
  | submitEvalGreedyRank (prompt response : String)

namespace Request

def kind : Request → String
  | requestMerge => "merge"
  | requestSnapshotSave _ => "snapshot_save"
  | requestSnapshotLoad _ => "snapshot_load"
  | submitEvalGreedyRank _ _ => "eval_greedy_rank"

def payload : Request → Payload
  | requestMerge => .empty
  | requestSnapshotSave name | requestSnapshotLoad name => .named name
  | submitEvalGreedyRank prompt response => .evalPoint prompt response

/-- `result.result` -/
def resultOf (ts : TaskState JsonObject) : Value :=
  match ts.result with
  | some r => .dict r
  | none => .null

/-- `str(result.error) if result.error else None` -/
def errorOf (ts : TaskState JsonObject) : Value :=
  match ts.error with
  | some e => .str e.message
  | none => .null

/-- What is made of the finished task. -/
def respond (token : Int) (ts : TaskState JsonObject) : Request → Except PyError JsonObject
  | requestMerge =>
    .ok [("commit_token", .num token), ("result", resultOf ts), ("error", errorOf ts)]
  | requestSnapshotSave _ | requestSnapshotLoad _ =>
    .ok [("commit_token", .num token), ("result", resultOf ts)]
  | submitEvalGreedyRank _ _ =>
    match ts.error with
    | some e => .error e
    | none =>
      let r := ts.result.getD []
      .ok [("commit_token", .num token),
        ("fraction", (r.lookup "fraction").getD (.num 0)),
        ("matched", (r.lookup "matched").getD (.num 0)),
        ("total", (r.lookup "total").getD (.num 0))]

end Request

/-- Who calls: an HTTP handler, or the lifespan of the server. -/
inductive Caller where
  | endpoint (r : Request)
  | autoloadOnBoot (name : String)
  | autosaveOnExit (name : String)

namespace Caller

def request : Caller → Request
  | endpoint r => r
  | autoloadOnBoot name => .requestSnapshotLoad name
  | autosaveOnExit name => .requestSnapshotSave name

def ofLifespan : Caller → Bool
  | endpoint _ => false
  | autoloadOnBoot _ | autosaveOnExit _ => true

end Caller

/-- A call, with its task once it has one and what it has returned or raised. -/
structure Call where
  caller : Caller
  task : Option (QueueTask Payload)
  reply : Option (Except PyError JsonObject)

structure State where
  drain : GracefulDrain.State Payload JsonObject
  shuttingDown : Bool
  /-- `cfg.max_samples_per_train_call` -/
  maxSamples : Int
  calls : List Call

def init (maxSamples maxDepth : Int) : State where
  drain := GracefulDrain.init maxDepth
  shuttingDown := false
  maxSamples := maxSamples
  calls := []

def State.controller (s : State) : Controller JsonObject :=
  ⟨s.shuttingDown, s.maxSamples, s.drain.queue⟩

inductive Label where
  | call (c : Caller) (now : Nat)
  /-- `wait_for` returns to the `i`-th call. -/
  | reply (i : Nat)
  /-- The 300 s of the `i`-th call are over. -/
  | timeout (i : Nat)
  /-- `graceful_shutdown` sets its flag. -/
  | shutdown
  /-- Anything else that happens to the queue. -/
  | queue (a : GracefulDrain.Label Payload JsonObject)

/-- A call up to its first suspension. -/
def call (s : State) (c : Caller) (now : Nat) : State :=
  let refused e : State := { s with calls := s.calls ++ [⟨c, none, some (.error e)⟩] }
  match s.controller.rejectIfShuttingDown with
  | .error e => refused e
  | .ok () =>
    match ComputeQueue.submit s.drain.queue c.request.kind c.request.payload "" now with
    | .error e => refused e
    | .ok (task, _, queue) =>
      { s with
        drain := { s.drain with queue := queue }
        calls := s.calls ++ [⟨c, some task, none⟩] }

/-- The call has got through `put`. -/
def waiting (s : State) (task : QueueTask Payload) : Bool :=
  s.drain.queue.q.suspended.all fun x => x.token != task.token

/-- The `i`-th call ends. -/
def answer (s : State) (i : Nat)
    (reply : Caller → QueueTask Payload → Option (Except PyError JsonObject)) : Option State :=
  match s.calls[i]? with
  | some ⟨c, some task, none⟩ =>
    if waiting s task then
      (reply c task).map fun r => { s with calls := s.calls.set i ⟨c, some task, some r⟩ }
    else none
  | _ => none

def step (s : State) : Label → Option State
  | .call c now => some (call s c now)
  | .reply i =>
    answer s i fun c task =>
      let ts := s.drain.queue.tasks task.token
      if ts.done then some (c.request.respond task.token ts) else none
  | .timeout i => answer s i fun _ _ => some (.error ⟨.asyncioTimeout, ""⟩)
  | .shutdown => some { s with shuttingDown := true }
  | .queue a => (GracefulDrain.step s.drain a).map fun drain => { s with drain := drain }

/-! ## What a caller is told -/

/-- The handler of the task has raised. -/
def HandlerRaised (d : GracefulDrain.State Payload JsonObject) (x : QueueTask Payload) : Prop :=
  ∃ e, (x, .raised e) ∈ d.outcomes ∨ (x, .baseRaised e) ∈ d.outcomes

def WasDropped (d : GracefulDrain.State Payload JsonObject) (x : QueueTask Payload) : Prop :=
  (d.queue.tasks x.token).error = some (shutdownDroppedError x)

namespace Call

/-- An exception, or a response with an error in it. -/
def carriesError (c : Call) : Bool :=
  match c.reply with
  | some (.ok response) =>
    match JsonObject.get response "error" with
    | .null => false
    | _ => true
  | _ => true

/-- A step of the lifespan logs "restored" or "saved" when its request has not raised. -/
def logsSuccess (c : Call) : Bool :=
  match c.reply with
  | some (.ok _) => c.caller.ofLifespan
  | _ => false

end Call

/-- A failure is reported, and no error means that the handler has returned. -/
structure Honest (d : GracefulDrain.State Payload JsonObject) (c : Call) : Prop where
  failure : ∀ x, c.task = some x → HandlerRaised d x ∨ WasDropped d x → c.carriesError = true
  success : c.carriesError = false → ∃ x, c.task = some x ∧ HandlerReturned d x
  lifespan : c.logsSuccess = true → ∃ x, c.task = some x ∧ HandlerReturned d x

/-- The ends of a task that each entry point reports as they are. -/
def Reported (d : GracefulDrain.State Payload JsonObject) (x : QueueTask Payload) :
    Request → Prop
  | .requestSnapshotSave _ | .requestSnapshotLoad _ => HandlerReturned d x ∧ ¬ WasDropped d x
  | .requestMerge | .submitEvalGreedyRank _ _ =>
    (∃ e, (x, .baseRaised e) ∈ d.outcomes) → WasDropped d x

/-! ## Steps -/

theorem answer_some {s t : State} {i : Nat}
    {reply : Caller → QueueTask Payload → Option (Except PyError JsonObject)}
    (h : answer s i reply = some t) :
    ∃ c task r, s.calls[i]? = some ⟨c, some task, none⟩ ∧ reply c task = some r ∧
      t = { s with calls := s.calls.set i ⟨c, some task, some r⟩ } := by
  unfold answer at h
  split at h
  · rename_i c task hc
    split at h
    · obtain ⟨r, hr, rfl⟩ := Option.map_eq_some_iff.mp h
      exact ⟨c, task, r, hc, hr, rfl⟩
    · cases h
  · cases h

/-- A call is refused, or its task is submitted. -/
theorem call_cases (s : State) (c : Caller) (now : Nat) :
    (∃ e, call s c now = { s with calls := s.calls ++ [⟨c, none, some (.error e)⟩] }) ∨
    ∃ task st queue,
      ComputeQueue.submit s.drain.queue c.request.kind c.request.payload "" now =
        .ok (task, st, queue) ∧
      call s c now = { s with
        drain := { s.drain with queue := queue }
        calls := s.calls ++ [⟨c, some task, none⟩] } := by
  unfold call
  cases s.controller.rejectIfShuttingDown with
  | error e => exact .inl ⟨e, rfl⟩
  | ok u =>
    cases hsub : ComputeQueue.submit s.drain.queue c.request.kind c.request.payload "" now with
    | error e => exact .inl ⟨e, rfl⟩
    | ok r => exact .inr ⟨r.1, r.2.1, r.2.2, rfl, rfl⟩

/-- The task objects of the calls exist. -/
structure Served (s : State) : Prop where
  traced : GracefulDrain.Traced s.drain
  made : ∀ c ∈ s.calls, ∀ x, c.task = some x → x ∈ s.drain.queue.tasksMade

theorem served_init (maxSamples maxDepth : Int) : Served (init maxSamples maxDepth) where
  traced := GracefulDrain.traced_init maxDepth
  made := by simp [init]

theorem served_submit {s : State} {kind batchId : String} {payload : Payload} {now : Nat}
    {task : QueueTask Payload} {st : AsyncQueue.PutStatus}
    {queue : ComputeQueue.State Payload JsonObject} (h : Served s)
    (hsub : ComputeQueue.submit s.drain.queue kind payload batchId now = .ok (task, st, queue)) :
    GracefulDrain.Traced { s.drain with queue := queue } ∧ task ∈ queue.tasksMade ∧
      ∀ c ∈ s.calls, ∀ x, c.task = some x → x ∈ queue.tasksMade := by
  refine ⟨GracefulDrain.traced_submitted h.traced hsub, ?_, fun c hc x hx => ?_⟩
  · obtain ⟨_, _, _, rfl⟩ := ComputeQueue.submit_ok hsub
    exact List.mem_append_right _ ((AsyncQueue.mem_held_put _ _ _).mpr (.inr rfl))
  · have hstep : ComputeQueue.step s.drain.queue (.submit kind payload batchId now) =
        some queue := by
      rw [ComputeQueue.step, hsub]
      rfl
    exact ComputeQueue.tasksMade_step hstep (h.made c hc x hx)

theorem Served.answered {s t : State} {i : Nat}
    {reply : Caller → QueueTask Payload → Option (Except PyError JsonObject)} (h : Served s)
    (hanswer : answer s i reply = some t) : Served t := by
  obtain ⟨c, task, r, hc, -, rfl⟩ := answer_some hanswer
  refine ⟨h.traced, fun c' hc' x hx => ?_⟩
  rcases List.mem_or_eq_of_mem_set hc' with hc' | rfl
  · exact h.made c' hc' x hx
  · exact h.made _ (List.mem_of_getElem? hc) x hx

theorem served_step (s : State) (a : Label) (t : State) (h : Served s)
    (hstep : step s a = some t) : Served t := by
  cases a with
  | call c now =>
    obtain rfl := Option.some.inj hstep
    rcases call_cases s c now with ⟨e, he⟩ | ⟨task, st, queue, hsub, hcall⟩
    · rw [he]
      refine ⟨h.traced, fun c' hc' x hx => ?_⟩
      rcases List.mem_append.mp hc' with hc' | hc'
      · exact h.made c' hc' x hx
      · rw [List.mem_singleton.mp hc'] at hx
        cases hx
    · rw [hcall]
      obtain ⟨htraced, htask, hmade⟩ := served_submit h hsub
      refine ⟨htraced, fun c' hc' x hx => ?_⟩
      rcases List.mem_append.mp hc' with hc' | hc'
      · exact hmade c' hc' x hx
      · rw [List.mem_singleton.mp hc'] at hx
        obtain rfl := Option.some.inj hx
        exact htask
  | reply i => exact h.answered hstep
  | timeout i => exact h.answered hstep
  | shutdown =>
    obtain rfl := Option.some.inj hstep
    exact ⟨h.traced, h.made⟩
  | queue a =>
    obtain ⟨drain, hdrain, rfl⟩ := Option.map_eq_some_iff.mp hstep
    exact ⟨GracefulDrain.traced_step _ _ _ h.traced hdrain,
      fun c hc x hx => GracefulDrain.tasksMade_step hdrain (h.made c hc x hx)⟩

/-! ## Which failures are reported -/

section Honesty

variable {d : GracefulDrain.State Payload JsonObject} {x : QueueTask Payload} {c : Call}

/-- The error of a task that has ended is its own, or that of the drain. -/
theorem ended_of_done (h : GracefulDrain.Traced d) (hx : x ∈ d.queue.tasksMade)
    (hdone : (d.queue.tasks x.token).done = true) :
    WasDropped d x ∨
      ∃ o, (x, o) ∈ d.outcomes ∧ GracefulDrain.EndedAs x o (d.queue.tasks x.token) := by
  by_cases hfinished : x ∈ d.queue.finished
  · obtain ⟨⟨y, o⟩, he, rfl⟩ := List.mem_map.mp (h.handled ▸ hfinished)
    exact .inr ⟨o, he, h.ended _ he⟩
  · rcases h.untouched x hx hfinished with hempty | hdropped
    · rw [hempty] at hdone
      cases hdone
    · exact .inl (congrArg TaskState.error hdropped)

theorem not_raised_of_returned (h : GracefulDrain.Traced d) (hr : HandlerReturned d x) :
    ¬ HandlerRaised d x := by
  obtain ⟨r, hr⟩ := hr
  rintro ⟨e, he | he⟩
  · cases h.outcome_unique hr he
  · cases h.outcome_unique hr he

/-- A response without a place for the error is honest about a success only. -/
theorem honest_of_silent (h : GracefulDrain.Traced d) (htask : c.task = some x)
    (hsilent : c.carriesError = false) :
    Honest d c ↔ HandlerReturned d x ∧ ¬ WasDropped d x := by
  constructor
  · intro hc
    obtain ⟨y, hy, hreturned⟩ := hc.success hsilent
    obtain rfl := Option.some.inj (htask.symm.trans hy)
    refine ⟨hreturned, fun hdropped => ?_⟩
    cases hsilent.symm.trans (hc.failure x htask (.inr hdropped))
  · rintro ⟨hreturned, hkept⟩
    refine ⟨fun y hy hfailed => ?_, fun _ => ⟨x, htask, hreturned⟩, fun _ => ⟨x, htask, hreturned⟩⟩
    obtain rfl := Option.some.inj (htask.symm.trans hy)
    exact absurd hfailed (by simp [hkept, not_raised_of_returned h hreturned])

/-- A response that shows the error of the task hides what the task object hides. -/
theorem honest_of_shown (h : GracefulDrain.Traced d) (hx : x ∈ d.queue.tasksMade)
    (hdone : (d.queue.tasks x.token).done = true) (htask : c.task = some x)
    (hshown : c.carriesError = false ↔ (d.queue.tasks x.token).error = none)
    (hlifespan : c.logsSuccess = false) :
    Honest d c ↔ ((∃ e, (x, .baseRaised e) ∈ d.outcomes) → WasDropped d x) := by
  constructor
  · rintro hc ⟨e, he⟩
    have herror := hc.failure x htask (.inl ⟨e, .inr he⟩)
    refine (h.ended _ he).resolve_right fun hnone => ?_
    cases herror.symm.trans (hshown.mpr hnone)
  · intro hbase
    refine ⟨fun y hy hfailed => ?_, fun hsilent => ⟨x, htask, ?_⟩, by simp [hlifespan]⟩
    · obtain rfl := Option.some.inj (htask.symm.trans hy)
      by_contra hsilent
      have hnone := hshown.mp (by simpa using hsilent)
      have hkept : ¬ WasDropped d x := fun hdropped => by
        cases hnone.symm.trans hdropped
      rcases hfailed with ⟨e, he | he⟩ | hdropped
      · rcases h.ended _ he with hdropped | herror
        · exact hkept hdropped
        · cases hnone.symm.trans herror
      · exact hkept (hbase ⟨e, he⟩)
      · exact hkept hdropped
    · have hnone := hshown.mp hsilent
      rcases ended_of_done h hx hdone with hdropped | ⟨o, ho, hdropped | herror⟩
      · cases hnone.symm.trans hdropped
      · cases hnone.symm.trans hdropped
      · cases o with
        | returned r => exact ⟨r, ho⟩
        | raised e => cases hnone.symm.trans herror
        | baseRaised e => cases hnone.symm.trans (hbase ⟨e, ho⟩)

/-- A call that has raised is honest about everything. -/
theorem honest_of_raised {e : PyError} (hreply : c.reply = some (.error e)) : Honest d c := by
  have hcarries : c.carriesError = true := by simp [Call.carriesError, hreply]
  exact ⟨fun _ _ _ => hcarries, by simp [hcarries], by simp [Call.logsSuccess, hreply]⟩

theorem logsSuccess_of_endpoint (h : c.caller.ofLifespan = false) : c.logsSuccess = false := by
  unfold Call.logsSuccess
  split
  · exact h
  · rfl

/-- The four entry points. -/
theorem honest_respond (h : GracefulDrain.Traced d) (hx : x ∈ d.queue.tasksMade)
    (hdone : (d.queue.tasks x.token).done = true) (htask : c.task = some x)
    (hreply : c.reply = some (c.caller.request.respond x.token (d.queue.tasks x.token))) :
    Honest d c ↔ Reported d x c.caller.request := by
  cases hr : c.caller.request with
  | requestMerge =>
    rw [hr, Request.respond] at hreply
    refine honest_of_shown h hx hdone htask ?_ (logsSuccess_of_endpoint ?_)
    · cases herror : (d.queue.tasks x.token).error <;>
        simp [Call.carriesError, hreply, JsonObject.get, Request.errorOf, herror, List.lookup]
    · cases hc : c.caller <;> simp_all [Caller.request, Caller.ofLifespan]
  | requestSnapshotSave name =>
    rw [hr, Request.respond] at hreply
    refine honest_of_silent h htask ?_
    simp [Call.carriesError, hreply, JsonObject.get, List.lookup]
  | requestSnapshotLoad name =>
    rw [hr, Request.respond] at hreply
    refine honest_of_silent h htask ?_
    simp [Call.carriesError, hreply, JsonObject.get, List.lookup]
  | submitEvalGreedyRank prompt response =>
    rw [hr, Request.respond] at hreply
    refine honest_of_shown h hx hdone htask ?_ (logsSuccess_of_endpoint ?_)
    · cases herror : (d.queue.tasks x.token).error <;>
        simp [Call.carriesError, hreply, JsonObject.get, herror, List.lookup]
    · cases hc : c.caller <;> simp_all [Caller.request, Caller.ofLifespan]

end Honesty

theorem eq_of_appended {l : List Call} {c c' : Call} {i : Nat}
    (h : (l ++ [c'])[i]? = some c) (hmoved : (l ++ [c'])[i]? ≠ l[i]?) : c = c' := by
  have hge : l.length ≤ i := by
    by_contra hlt
    exact hmoved (List.getElem?_append_left (not_le.mp hlt))
  rw [List.getElem?_append_right hge] at h
  exact List.mem_singleton.mp (List.mem_of_getElem? h)

theorem eq_of_set {l : List Call} {c c' : Call} {i j : Nat} (h : (l.set j c')[i]? = some c)
    (hmoved : (l.set j c')[i]? ≠ l[i]?) : i = j ∧ c = c' := by
  obtain rfl : i = j := by
    by_contra hne
    exact hmoved (List.getElem?_set_ne (Ne.symm hne))
  have hlt : i < (l.set i c').length := (List.getElem?_eq_some_iff.mp h).1
  rw [List.length_set] at hlt
  exact ⟨rfl, Option.some.inj (h.symm.trans (List.getElem?_set_self hlt))⟩

/-- **Control-plane failures.** A call that ends is honest unless it ends with a response to
a task whose end its entry point does not report: for the two snapshot requests any end but a
return of the handler, for the other two a `BaseException`. -/
theorem honest_iff {maxSamples maxDepth : Int} {labels : List Label} {s t : State} {a : Label}
    {i : Nat} {c : Call} (hrun : Runs.exec step (init maxSamples maxDepth) labels = some s)
    (hstep : step s a = some t) (hc : t.calls[i]? = some c) (hended : c.reply ≠ none)
    (hnew : ∀ c', s.calls[i]? = some c' → c'.reply = none) :
    Honest t.drain c ↔
      (a = .reply i → ∀ x, c.task = some x → Reported t.drain x c.caller.request) := by
  have hserved : Served s :=
    Runs.exec_preserves served_step (served_init maxSamples maxDepth) hrun
  -- the call that ends is none of those that had ended before
  have hmoved : t.calls[i]? ≠ s.calls[i]? := fun hsame => hended (hnew c (hsame ▸ hc))
  cases a with
  | call caller now =>
    obtain rfl := Option.some.inj hstep
    refine iff_of_true ?_ (by simp)
    rcases call_cases s caller now with ⟨e, hcall⟩ | ⟨task, st, queue, -, hcall⟩
    · rw [hcall] at hc hmoved
      obtain rfl := eq_of_appended hc hmoved
      exact honest_of_raised rfl
    · rw [hcall] at hc hmoved
      obtain rfl := eq_of_appended hc hmoved
      exact absurd rfl hended
  | reply j =>
    obtain ⟨caller, x, r, hj, hr, rfl⟩ := answer_some hstep
    obtain ⟨rfl, rfl⟩ := eq_of_set hc hmoved
    simp only [forall_const, Option.some.injEq, forall_eq'] at hr ⊢
    split at hr
    · rename_i hdone
      obtain rfl := Option.some.inj hr
      exact honest_respond hserved.traced
        (hserved.made _ (List.mem_of_getElem? hj) x rfl) hdone rfl rfl
    · cases hr
  | timeout j =>
    obtain ⟨caller, x, r, hj, hr, rfl⟩ := answer_some hstep
    obtain ⟨rfl, rfl⟩ := eq_of_set hc hmoved
    obtain rfl := Option.some.inj hr
    exact iff_of_true (honest_of_raised rfl) (by simp)
  | shutdown =>
    obtain rfl := Option.some.inj hstep
    exact absurd rfl hmoved
  | queue a =>
    obtain ⟨drain, -, rfl⟩ := Option.map_eq_some_iff.mp hstep
    exact absurd rfl hmoved

def noSpace : PyError := ⟨.other "OSError", "[Errno 28] No space left on device"⟩

/-- The worker takes the task of the first call, and its handler fails. -/
def failedCall (c : Caller) : List Label :=
  [.call c 0, .queue (.queue .start), .queue (.queue .workerLoop), .queue (.queue .workerGet),
    .queue (.queue (.workerFinish (.raised noSpace))), .queue (.queue .workerCommit)]

theorem failedMerge_honest :
    ∃ s t c, Runs.exec step (init 64 4) (failedCall (.endpoint .requestMerge)) = some s ∧
      step s (.reply 0) = some t ∧ t.calls[0]? = some c ∧ Honest t.drain c := by
  refine ⟨_, _, _, rfl, rfl, rfl, (@honest_iff 64 4 (failedCall (.endpoint .requestMerge)) _ _
    (.reply 0) 0 _ rfl rfl rfl (by simp) ?_).mpr ?_⟩
  · rintro c' hc'
    obtain rfl := Option.some.inj hc'
    rfl
  · rintro - x - ⟨e, he⟩
    have hsame : Outcome.baseRaised e = .raised noSpace :=
      congrArg Prod.snd (List.mem_singleton.mp he)
    cases hsame

/-- The save at the exit fails, and is logged as done. -/
theorem autosave_failure_hidden :
    ¬ ∀ (maxSamples maxDepth : Int) (labels : List Label) (s t : State) (a : Label) (i : Nat)
      (c : Call), Runs.exec step (init maxSamples maxDepth) labels = some s →
      step s a = some t → t.calls[i]? = some c → c.reply ≠ none →
      (∀ c', s.calls[i]? = some c' → c'.reply = none) → Honest t.drain c := by
  intro h
  have hc := h 64 4 (failedCall (.autosaveOnExit "_autosave")) _ _ (.reply 0) 0 _ rfl rfl rfl
    (by simp) (fun c' hc' => by
      obtain rfl := Option.some.inj hc'
      rfl)
  obtain ⟨x, -, r, hr⟩ := hc.lifespan rfl
  have hsame : Outcome.returned r = .raised noSpace :=
    congrArg Prod.snd (List.mem_singleton.mp hr)
  cases hsame

end Trainfer.ControlPlane
