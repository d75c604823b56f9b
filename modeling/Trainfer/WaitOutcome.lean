import Trainfer.DrainTrace
import Mathlib

/-! What `wait_for` says about a task, and when it is asked.

A call that blocks returns the task object once its event is set. `_run` takes a task out of
`_pending` as soon as it has committed it, so a call by number that comes later finds nothing
there and makes up a task without an error. `Timely` is the order in which nobody does that;
in it a task object stays as it was when its event was set. -/

namespace Trainfer.GracefulDrain

open ComputeQueue (QueueTask Outcome TaskState Action WaitCall WaitResult WaitStatus pendingGet
  waitResult)

universe u v
variable {π : Type u} {ρ : Type v}

/-- The handler was called on the task and has returned. -/
def HandlerReturned (s : State π ρ) (x : QueueTask π) : Prop := ∃ r, (x, .returned r) ∈ s.outcomes

/-- The calls on an issued token that have returned say the same, and an error if and only if
the handler has not returned. -/
structure WaitsAgree (s : State π ρ) : Prop where
  same : ∀ w ∈ s.queue.waits, ∀ w' ∈ s.queue.waits, s.queue.Issued w.token →
    w'.token = w.token → ∀ r r', w.status = .returned r → w'.status = .returned r' → r' = r
  failure : ∀ w ∈ s.queue.waits, s.queue.Issued w.token → ∀ r, w.status = .returned r →
    ∃ x ∈ s.queue.tasksMade, x.token = w.token ∧ r.kind = x.kind ∧
      (r.error = none ↔ HandlerReturned s x)

/-- A call by number on an issued token comes while its task is pending, no handler ends in a
`BaseException`, and the drain neither gives up on a task in flight nor is followed by a start
of the worker. -/
def Timely (s : State π ρ) : Label π ρ → Prop
  | .queue (.waitFor token) => s.queue.Issued token → (pendingGet s.queue token).isSome = true
  | .queue (.workerFinish o) => isBaseRaised o = false
  | .queue .start => s.reports = []
  | .graceExpires => False
  | _ => True

instance (s : State π ρ) : DecidablePred (Timely s)
  | .queue (.waitFor _) => inferInstanceAs (Decidable (_ → _))
  | .queue (.workerFinish _) => inferInstanceAs (Decidable (_ = _))
  | .queue .start => decidable_of_iff (s.reports.isEmpty = true) List.isEmpty_iff
  | .graceExpires => .isFalse id
  | .queue (.submit ..) | .queue (.trySubmit ..) | .queue (.resumePut _) | .queue (.waitForTask _)
  | .queue (.waitResume _) | .queue (.waitTimeout _) | .queue .workerLoop | .queue .workerGet
  | .queue .workerGetTimeout | .queue .workerCommit | .begin _ | .workerDone | .deadline =>
    .isTrue trivial

/-! ## The calls -/

/-- What an action does to the calls. -/
inductive Asked (s : ComputeQueue.State π ρ) : Action π ρ → List (WaitCall ρ) → Prop
  | same {a} : Asked s a s.waits
  | byNumber {token} :
      Asked s (.waitFor token) (s.waits ++ [⟨token, ComputeQueue.waitStart s token⟩])
  | byTask {a task} (h : task ∈ s.tasksMade) :
      Asked s a (s.waits ++ [⟨task.token, .blocked task.kind⟩])
  | resumed {a i token kind} (h : ⟨token, .blocked kind⟩ ∈ s.waits)
      (hdone : (s.tasks token).done = true) :
      Asked s a (s.waits.set i ⟨token, .returned (waitResult s token kind)⟩)
  | failed {a i token e} : Asked s a (s.waits.set i ⟨token, .failed e⟩)

theorem asked {s s' : ComputeQueue.State π ρ} {a : Action π ρ}
    (h : ComputeQueue.step s a = some s') : Asked s a s'.waits := by
  cases a with
  | waitFor token =>
    obtain rfl := Option.some.inj h
    exact .byNumber
  | waitForTask i =>
    obtain ⟨task, htask, rfl⟩ := Option.map_eq_some_iff.mp h
    exact .byTask (List.mem_of_getElem? htask)
  | waitResume i =>
    obtain ⟨token, kind, hi, hdone, rfl⟩ := ComputeQueue.waitResume_some h
    exact .resumed (List.mem_of_getElem? hi) hdone
  | waitTimeout i =>
    obtain ⟨token, kind, -, rfl⟩ := ComputeQueue.waitTimeout_some h
    exact .failed
  | submit kind payload batchId now =>
    obtain rfl := Option.some.inj h
    obtain ⟨_, _, _, _, hs'⟩ := ComputeQueue.afterSubmit_submit s kind batchId payload now
    rw [hs']
    exact .same
  | trySubmit kind payload batchId now =>
    obtain rfl := Option.some.inj h
    obtain ⟨_, _, _, _, hs'⟩ := ComputeQueue.afterSubmit_trySubmit s kind batchId payload now
    rw [hs']
    exact .same
  | resumePut i =>
    obtain ⟨q, -, rfl⟩ := Option.map_eq_some_iff.mp h
    exact .same
  | start =>
    obtain ⟨-, rfl⟩ := ComputeQueue.start_some h
    exact .same
  | workerLoop =>
    obtain ⟨-, rfl | rfl⟩ := ComputeQueue.workerLoop_some h
    · exact .same
    · exact .same
  | workerGet =>
    obtain ⟨_, _, _, _, rfl⟩ := ComputeQueue.workerGet_some h
    exact .same
  | workerGetTimeout =>
    obtain ⟨-, rfl⟩ := ComputeQueue.workerGetTimeout_some h
    exact .same
  | workerFinish o =>
    obtain ⟨_, _, rfl⟩ := ComputeQueue.workerFinish_some h
    exact .same
  | workerCommit =>
    obtain ⟨_, _, _, rfl⟩ := ComputeQueue.workerCommit_some h
    exact .same

/-! ## Task objects that stay as they are -/

/-- After a drain nothing runs any more. -/
structure Over (s : State π ρ) : Prop where
  refuses : s.queue.accepting = false
  nothing : s.queue.pending = []
  stopped : s.queue.worker = .notStarted ∨ s.queue.worker = .exited

structure Steady (s : State π ρ) : Prop where
  shut : Shut s
  regular : ∀ e ∈ s.outcomes, isBaseRaised e.2 = false
  before : s.reports = [] → Live s
  after : s.reports ≠ [] → Over s
  distinct : (s.queue.tasksMade.map QueueTask.token).Nodup
  ended : ∀ t, (s.queue.tasks t).done = true → ∃ x ∈ s.queue.tasksMade, x.token = t ∧
    ((s.queue.tasks t).error = none ↔ HandlerReturned s x)

/-- What a call says is what the task object holds. -/
def Tells (s : ComputeQueue.State π ρ) (w : WaitCall ρ) : Prop :=
  match w.status with
  | .blocked kind => ∃ x ∈ s.tasksMade, x.token = w.token ∧ x.kind = kind
  | .returned r => s.Issued w.token → (s.tasks w.token).done = true ∧
      ∃ x ∈ s.tasksMade, x.token = w.token ∧ r = waitResult s w.token x.kind
  | .failed _ => True

theorem Live.ended {s : State π ρ} (h : Live s)
    (hregular : ∀ e ∈ s.outcomes, isBaseRaised e.2 = false) {t : Int}
    (hdone : (s.queue.tasks t).done = true) :
    ∃ x ∈ s.queue.tasksMade, x.token = t ∧
      ((s.queue.tasks t).error = none ↔ HandlerReturned s x) := by
  obtain ⟨x, hx, rfl⟩ : ∃ x ∈ s.queue.finished, x.token = t := by
    by_contra hnone
    rw [h.settled.fresh t fun x hx he => hnone ⟨x, hx, he⟩] at hdone
    cases hdone
  refine ⟨x, List.mem_append_left _ (h.accounted.phase.finished_subset x hx), rfl, ?_⟩
  obtain ⟨⟨y, o⟩, he, rfl⟩ := List.mem_map.mp (h.handled ▸ hx)
  have hrecorded := (h.recorded _ he).resolve_left (by simp [hregular _ he])
  cases o with
  | returned r => exact ⟨fun _ => ⟨r, he⟩, fun _ => hrecorded.1⟩
  | raised e =>
    constructor
    · intro hnone
      cases hrecorded.1.symm.trans hnone
    · rintro ⟨r, hr⟩
      cases congrArg Prod.snd (outcome_unique h he hr rfl)
  | baseRaised e => exact hrecorded.elim

theorem frozen_step {s s' : ComputeQueue.State π ρ} {a : Action π ρ}
    (hi : ComputeQueue.Accounted s) (h : ComputeQueue.Settled s)
    (hstep : ComputeQueue.step s a = some s') {t : Int} (hdone : (s.tasks t).done = true) :
    s'.tasks t = s.tasks t := by
  cases ComputeQueue.stepped hstep with
  | submitted _ hsub =>
    obtain ⟨_, _, _, rfl⟩ := ComputeQueue.submit_ok hsub
    rfl
  | @finished o task hw =>
    refine Function.update_of_ne ?_ _ _
    rintro rfl
    rw [h.fresh _ (apart_of_running hi h hw)] at hdone
    cases hdone
  | @committed task =>
    by_cases ht : t = task.token
    · subst ht
      simp only [Function.update_self]
      rw [← hdone]
    · exact Function.update_of_ne ht _ _
  | refused | resumed | waitAdded | waitEnded | moved | got => rfl

/-- Once the drain is over, the queue moves only what waits in it, and the calls. -/
theorem over_step {s : State π ρ} {a : Action π ρ} {queue : ComputeQueue.State π ρ}
    (h : Over s) (ha : a ≠ .start) (hstep : ComputeQueue.step s.queue a = some queue) :
    handled s.queue a = [] ∧ queue = { s.queue with q := queue.q, waits := queue.waits } ∧
      queue.tasksMade.Perm s.queue.tasksMade := by
  have hidle : s.queue.worker ≠ .loop ∧ s.queue.worker ≠ .getting ∧
      (∀ task, s.queue.worker ≠ .running task) ∧ ∀ task o, s.queue.worker ≠ .finishing task o := by
    rcases h.stopped with hw | hw <;> simp [hw]
  cases a with
  | submit kind payload batchId now =>
    obtain rfl := Option.some.inj hstep
    have he : ComputeQueue.submit s.queue kind payload batchId now =
        .error ComputeQueue.shuttingDownError := by simp [ComputeQueue.submit, h.refuses]
    rw [he]
    exact ⟨rfl, rfl, List.Perm.refl _⟩
  | trySubmit kind payload batchId now =>
    obtain rfl := Option.some.inj hstep
    obtain ⟨e, he⟩ := ComputeQueue.trySubmit_error (.inl h.refuses) kind batchId payload now
    rw [he]
    exact ⟨rfl, rfl, List.Perm.refl _⟩
  | resumePut i =>
    obtain ⟨q, hq, rfl⟩ := Option.map_eq_some_iff.mp hstep
    exact ⟨rfl, rfl, (AsyncQueue.held_resumePut_perm hq).append_left s.queue.started⟩
  | waitFor token =>
    obtain rfl := Option.some.inj hstep
    exact ⟨rfl, rfl, List.Perm.refl _⟩
  | waitForTask i =>
    obtain ⟨_, -, rfl⟩ := Option.map_eq_some_iff.mp hstep
    exact ⟨rfl, rfl, List.Perm.refl _⟩
  | waitResume i =>
    obtain ⟨_, _, _, _, rfl⟩ := ComputeQueue.waitResume_some hstep
    exact ⟨rfl, rfl, List.Perm.refl _⟩
  | waitTimeout i =>
    obtain ⟨_, _, _, rfl⟩ := ComputeQueue.waitTimeout_some hstep
    exact ⟨rfl, rfl, List.Perm.refl _⟩
  | start => exact absurd rfl ha
  | workerLoop => exact absurd (ComputeQueue.workerLoop_some hstep).1 hidle.1
  | workerGet =>
    obtain ⟨_, _, hw, _⟩ := ComputeQueue.workerGet_some hstep
    exact absurd hw hidle.2.1
  | workerGetTimeout => exact absurd (ComputeQueue.workerGetTimeout_some hstep).1 hidle.2.1
  | workerFinish o =>
    obtain ⟨_, hw, _⟩ := ComputeQueue.workerFinish_some hstep
    exact absurd hw (hidle.2.2.1 _)
  | workerCommit =>
    obtain ⟨_, _, hw, _⟩ := ComputeQueue.workerCommit_some hstep
    exact absurd hw (hidle.2.2.2 _ _)

section Steps

variable {s : State π ρ} {a : Label π ρ} {t : State π ρ}

theorem not_start (hg : Timely s a) (hreports : s.reports ≠ []) : a ≠ .queue .start := by
  rintro rfl
  exact hreports hg

/-- The worker has no task when it is gone. -/
theorem stopped_of_gone (h : Live s) (hgone : workerGone s = true) :
    s.queue.worker = .notStarted ∨ s.queue.worker = .exited := by
  simp only [workerGone, h.attached, Bool.false_or] at hgone
  split at hgone
  · exact .inl (by assumption)
  · exact .inr (by assumption)
  · cases hgone

theorem regular_step (h : ∀ e ∈ s.outcomes, isBaseRaised e.2 = false) (hg : Timely s a)
    (hstep : step s a = some t) : ∀ e ∈ t.outcomes, isBaseRaised e.2 = false := by
  cases moved hstep with
  | queue hqueue =>
    intro e he
    rcases List.mem_append.mp he with he | he
    · exact h e he
    · rcases handled_step hqueue with ⟨task, o, rfl, -, hh⟩ | ⟨hh, -⟩
      · obtain rfl := List.mem_singleton.mp (hh ▸ he)
        exact hg
      · simp [hh] at he
  | flags | reaped => exact h

theorem over_flags (h : Over s) {accepting stop hardStop : Bool} {phase : Phase}
    (hacc : accepting = true → s.queue.accepting = true) :
    Over { s with
      queue := { s.queue with accepting := accepting, stop := stop, hardStop := hardStop }
      phase := phase } :=
  ⟨false_of_imp hacc h.refuses, h.nothing, h.stopped⟩

/-- A task that is dropped was never given to the handler. -/
theorem not_returned_of_pending (h : Live s) (hgone : workerGone s = true) {x : QueueTask π}
    (hx : x ∈ s.queue.pending) : ¬ HandlerReturned s x := by
  rintro ⟨r, hr⟩
  have hfinished : x ∈ s.queue.finished := h.handled ▸ List.mem_map_of_mem hr
  exact apart_of_held h (h.accounted.phase.finished_subset x hfinished)
    (held_of_pending h hgone hx) rfl

theorem ended_reaped (h : Live s) (hgone : workerGone s = true)
    (hregular : ∀ e ∈ s.outcomes, isBaseRaised e.2 = false) {q : ComputeQueue.State π ρ}
    {accepting stop : Bool}
    (hr : Reaped { s.queue with accepting := accepting, stop := stop } s.queue.pending q) {k : Int}
    (hdone : (q.tasks k).done = true) :
    ∃ x ∈ s.queue.tasksMade, x.token = k ∧ ((q.tasks k).error = none ↔ HandlerReturned s x) := by
  by_cases hpending : ∃ x ∈ s.queue.pending, x.token = k
  · obtain ⟨x, hx, rfl⟩ := hpending
    refine ⟨x, (h.settled.ahead x hx).1, rfl, ?_⟩
    rw [hr.hit x hx]
    simpa using not_returned_of_pending h hgone hx
  · have hmiss : q.tasks k = s.queue.tasks k :=
      hr.miss k fun x hx he => hpending ⟨x, hx, he⟩
    rw [hmiss] at hdone ⊢
    exact h.ended hregular hdone

theorem steady_queue {b : Action π ρ} {queue : ComputeQueue.State π ρ} (h : Steady s)
    (hg : Timely s (.queue b)) (hqueue : ComputeQueue.step s.queue b = some queue) :
    (s.reports ≠ [] →
      Over { s with queue := queue, outcomes := s.outcomes ++ handled s.queue b }) ∧
    (queue.tasksMade.map QueueTask.token).Nodup ∧
    ∀ k, (queue.tasks k).done = true → ∃ x ∈ queue.tasksMade, x.token = k ∧
      ((queue.tasks k).error = none ↔
        HandlerReturned { s with queue, outcomes := s.outcomes ++ handled s.queue b } x) := by
  by_cases hreports : s.reports = []
  · have hlive := live_queue (h.before hreports) hqueue
    refine ⟨fun hne => absurd hreports hne, hlive.settled.distinct, fun k hdone => ?_⟩
    refine hlive.ended ?_ hdone
    exact regular_step h.regular hg (by rw [step, hqueue]; rfl)
  · have hover := h.after hreports
    obtain ⟨hnone, heq, hperm⟩ := over_step hover
      (fun hb => not_start hg hreports (hb ▸ rfl)) hqueue
    have htasks : queue.tasks = s.queue.tasks := by rw [heq]
    refine ⟨fun _ => ⟨?_, ?_, ?_⟩, ?_, fun k hdone => ?_⟩
    · exact (congrArg ComputeQueue.State.accepting heq).trans hover.refuses
    · exact (congrArg ComputeQueue.State.pending heq).trans hover.nothing
    · have hworker : queue.worker = s.queue.worker := by rw [heq]
      show queue.worker = _ ∨ queue.worker = _
      rw [hworker]
      exact hover.stopped
    · exact (hperm.map QueueTask.token).nodup_iff.mpr h.distinct
    · rw [htasks] at hdone ⊢
      obtain ⟨x, hx, hxk, hiff⟩ := h.ended k hdone
      refine ⟨x, hperm.mem_iff.mpr hx, hxk, ?_⟩
      simpa only [HandlerReturned, hnone, List.append_nil] using hiff

/-- The reaping of a drain in whose run nothing was given up on. -/
theorem reap_live (h : Live s) (accepting stop detached timedOut : Bool) :
    ∃ q, (reap { s with
        queue := { s.queue with accepting := accepting, stop := stop }
        detached := detached } timedOut).queue = { q with pending := [] } ∧
      Reaped { s.queue with accepting := accepting, stop := stop } s.queue.pending q := by
  obtain ⟨q, -, hqueue, hr⟩ := reapPending_spec
    (accounted_flags h.accounted accepting stop s.queue.hardStop)
    (settled_flags h.settled accepting stop s.queue.hardStop)
  exact ⟨q, hqueue, hr⟩

/-- After a drain there is nothing to reap. -/
theorem reap_over (h : Over s) (accepting stop detached timedOut : Bool) :
    (reap { s with
        queue := { s.queue with accepting := accepting, stop := stop }
        detached := detached } timedOut).queue =
      { s.queue with accepting := accepting, stop := stop } :=
  congrArg Prod.snd (reapPending_nil (s := { s.queue with accepting, stop }) h.nothing)

theorem steady_reaped {accepting stop detached timedOut : Bool} (h : Steady s)
    (hacc : accepting = true → s.queue.accepting = true)
    (hclosed : accepting = false ∨ s.phase ≠ .idle) (hgone : workerGone s = true)
    (ht : t = reap { s with
      queue := { s.queue with accepting := accepting, stop := stop }
      detached := detached } timedOut) :
    Over t ∧ (t.queue.tasksMade.map QueueTask.token).Nodup ∧
    ∀ k, (t.queue.tasks k).done = true → ∃ x ∈ t.queue.tasksMade, x.token = k ∧
      ((t.queue.tasks k).error = none ↔ HandlerReturned t x) := by
  have haccepting : accepting = false := by
    rcases hclosed with hfalse | hactive
    · exact hfalse
    · exact false_of_imp hacc (h.shut hactive)
  have houtcomes : t.outcomes = s.outcomes := by rw [ht]; rfl
  by_cases hreports : s.reports = []
  · have hlive := h.before hreports
    obtain ⟨q, hqueue, hr⟩ := reap_live hlive accepting stop detached timedOut
    have hq : t.queue = { q with pending := [] } := by rw [ht]; exact hqueue
    have hmade : t.queue.tasksMade = s.queue.tasksMade := by rw [hq, hr.frame]; rfl
    refine ⟨⟨?_, ?_, ?_⟩, by rw [hmade]; exact h.distinct, fun k hdone => ?_⟩
    · rw [hq, hr.frame]
      exact haccepting
    · rw [hq]
    · rw [hq, hr.frame]
      exact stopped_of_gone hlive hgone
    · rw [hq] at hdone ⊢
      obtain ⟨x, hx, hxk, hiff⟩ := ended_reaped hlive hgone h.regular hr hdone
      refine ⟨x, by rw [← hq, hmade]; exact hx, hxk, ?_⟩
      rw [HandlerReturned, houtcomes]
      exact hiff
  · have hover := h.after hreports
    have hq : t.queue = { s.queue with accepting := accepting, stop := stop } := by
      rw [ht]
      exact reap_over hover accepting stop detached timedOut
    refine ⟨⟨by rw [hq]; exact haccepting, by rw [hq]; exact hover.nothing,
      by rw [hq]; exact hover.stopped⟩, by rw [hq]; exact h.distinct, fun k hdone => ?_⟩
    rw [hq] at hdone ⊢
    obtain ⟨x, hx, hxk, hiff⟩ := h.ended k hdone
    refine ⟨x, hx, hxk, ?_⟩
    rw [HandlerReturned, houtcomes]
    exact hiff

theorem steady_step (h : Steady s) (hg : Timely s a) (hstep : step s a = some t) : Steady t := by
  have hshut := shut_step s a t h.shut hstep
  have hregular := regular_step h.regular hg hstep
  have hbefore := live_step s a t h.before hstep
  cases moved hstep with
  | queue hqueue =>
    obtain ⟨hafter, hdistinct, hended⟩ := steady_queue h hg hqueue
    exact ⟨hshut, hregular, hbefore, hafter, hdistinct, hended⟩
  | flags hacc =>
    exact ⟨hshut, hregular, hbefore, fun hne => over_flags (h.after hne) hacc, h.distinct, h.ended⟩
  | reaped hacc hclosed hgone =>
    have hgone := hgone.resolve_left fun ha => by
      rw [ha] at hg
      exact hg
    obtain ⟨hover, hdistinct, hended⟩ := steady_reaped h hacc hclosed hgone rfl
    exact ⟨hshut, hregular, hbefore, fun _ => hover, hdistinct, hended⟩

/-! ## What the calls say -/

/-- No task is lost and none that has ended is written to. -/
structure Kept (s s' : ComputeQueue.State π ρ) : Prop where
  made : ∀ x ∈ s.tasksMade, x ∈ s'.tasksMade
  frozen : ∀ k, (s.tasks k).done = true → s'.tasks k = s.tasks k
  issued : ∀ w ∈ s.waits, ∀ r, w.status = .returned r → s'.Issued w.token → s.Issued w.token

theorem Tells.kept {q q' : ComputeQueue.State π ρ} {w : WaitCall ρ} (h : Tells q w)
    (hw : w ∈ q.waits) (hk : Kept q q') : Tells q' w := by
  unfold Tells at h ⊢
  split
  · rename_i kind hs
    simp only [hs] at h
    obtain ⟨x, hx, htok, hkind⟩ := h
    exact ⟨x, hk.made x hx, htok, hkind⟩
  · rename_i r hs
    simp only [hs] at h
    intro hissued
    obtain ⟨hdone, x, hx, htok, hr⟩ := h (hk.issued w hw r hs hissued)
    have hsame := hk.frozen w.token hdone
    refine ⟨by rw [hsame]; exact hdone, x, hk.made x hx, htok, ?_⟩
    rw [hr, waitResult, waitResult, hsame]
  · trivial

theorem kept_queue {b : Action π ρ} {queue : ComputeQueue.State π ρ} (h : Steady s)
    (hg : Timely s (.queue b)) (hqueue : ComputeQueue.step s.queue b = some queue) :
    Kept s.queue queue := by
  refine ⟨fun x => ComputeQueue.tasksMade_step hqueue, fun k hdone => ?_, ?_⟩
  · by_cases hreports : s.reports = []
    · have hlive := h.before hreports
      exact frozen_step hlive.accounted hlive.settled hqueue hdone
    · obtain ⟨-, heq, -⟩ := over_step (h.after hreports)
        (fun hb => not_start hg hreports (hb ▸ rfl)) hqueue
      rw [heq]
  · intro w hw r hs hissued
    cases ComputeQueue.stepped hqueue with
    | submitted _ hsub =>
      obtain ⟨hacc, _, _, rfl⟩ := ComputeQueue.submit_ok hsub
      have hlive : Live s := h.before (by
        by_contra hreports
        simp [(h.after hreports).refuses] at hacc)
      have hle := hlive.accounted.returned_le w hw r hs
      have hlt := hlive.accounted.cursor_high
      exact ⟨hissued.1, by omega⟩
    | refused | resumed | waitAdded | waitEnded | moved | got | finished | committed =>
      exact hissued

theorem kept_reaped {accepting stop detached timedOut : Bool} (h : Steady s) :
    Kept s.queue (reap { s with
      queue := { s.queue with accepting := accepting, stop := stop }
      detached := detached } timedOut).queue := by
  by_cases hreports : s.reports = []
  · have hlive := h.before hreports
    obtain ⟨q, hq, hr⟩ := reap_live hlive accepting stop detached timedOut
    rw [hq, hr.frame]
    refine ⟨fun x hx => hx, fun k hdone => ?_, fun _ _ _ _ hissued => hissued⟩
    refine hr.miss k fun x hx he => ?_
    have hopen := hlive.settled.open_of_pending hlive.accounted hx
    rw [he, hdone] at hopen
    cases hopen
  · rw [reap_over (h.after hreports)]
    exact ⟨fun x hx => hx, fun _ _ => rfl, fun _ _ _ _ hissued => hissued⟩

theorem kept_step (h : Steady s) (hg : Timely s a) (hstep : step s a = some t) :
    Kept s.queue t.queue := by
  cases moved hstep with
  | queue hqueue => exact kept_queue h hg hqueue
  | flags => exact ⟨fun x hx => hx, fun _ _ => rfl, fun _ _ _ _ hissued => hissued⟩
  | reaped => exact kept_reaped h

theorem pending_made (h : Steady s) {x : QueueTask π} (hx : x ∈ s.queue.pending) :
    x ∈ s.queue.tasksMade := by
  by_cases hreports : s.reports = []
  · exact ((h.before hreports).settled.ahead x hx).1
  · rw [(h.after hreports).nothing] at hx
    cases hx

theorem tells_waitStart (h : Steady s) {token : Int} (hg : Timely s (.queue (.waitFor token))) :
    Tells s.queue ⟨token, ComputeQueue.waitStart s.queue token⟩ := by
  unfold Tells ComputeQueue.waitStart
  cases hget : pendingGet s.queue token with
  | some x =>
    have hx := List.mem_of_find?_eq_some hget
    have htok := List.find?_some hget
    exact ⟨x, pending_made h hx, by simpa using htok, rfl⟩
  | none =>
    by_cases hle : token ≤ s.queue.completedToken
    · simp only [hle, if_true]
      intro hissued
      have hsome := hg hissued
      simp [hget] at hsome
    · simp only [hle, if_false]

theorem tells_asked {b : Action π ρ} {q q' : ComputeQueue.State π ρ} {ws : List (WaitCall ρ)}
    (hk : Kept q q') (hold : ∀ w ∈ q.waits, Tells q' w)
    (hnumber : ∀ token, b = .waitFor token → Tells q' ⟨token, ComputeQueue.waitStart q token⟩)
    (ha : Asked q b ws) : ∀ w ∈ ws, Tells q' w := by
  intro w hw
  cases ha with
  | same => exact hold w hw
  | byNumber =>
    rcases List.mem_append.mp hw with hw | hw
    · exact hold w hw
    · rw [List.mem_singleton.mp hw]
      exact hnumber _ rfl
  | @byTask _ task htask =>
    rcases List.mem_append.mp hw with hw | hw
    · exact hold w hw
    · rw [List.mem_singleton.mp hw]
      exact ⟨task, hk.made task htask, rfl, rfl⟩
  | @resumed _ _ token kind hblocked hdone =>
    rcases List.mem_or_eq_of_mem_set hw with hw | rfl
    · exact hold w hw
    · obtain ⟨x, hx, htok, hkind⟩ : ∃ x ∈ q'.tasksMade, x.token = token ∧ x.kind = kind :=
        hold _ hblocked
      have hsame := hk.frozen token hdone
      exact fun _ => ⟨by rw [hsame]; exact hdone, x, hx, htok,
        by rw [waitResult, waitResult, hsame, hkind]⟩
  | failed =>
    rcases List.mem_or_eq_of_mem_set hw with hw | rfl
    · exact hold w hw
    · trivial

theorem tells_step (h : Steady s) (hw : ∀ w ∈ s.queue.waits, Tells s.queue w) (hg : Timely s a)
    (hstep : step s a = some t) : ∀ w ∈ t.queue.waits, Tells t.queue w := by
  have hk := kept_step h hg hstep
  have hold : ∀ w ∈ s.queue.waits, Tells t.queue w := fun w hmem => (hw w hmem).kept hmem hk
  cases moved hstep with
  | @queue b queue hqueue =>
    refine tells_asked hk hold ?_ (asked hqueue)
    rintro token rfl
    obtain rfl := Option.some.inj hqueue
    exact tells_waitStart h hg
  | flags => exact hold
  | @reaped _ accepting stop =>
    have hsame := congrArg ComputeQueue.State.waits
      (reapLoop_tasks { s.queue with accepting, stop } 0 s.queue.pending).1
    intro w hmem
    exact hold w (hsame ▸ hmem)

end Steps

theorem steady_init (maxDepth : Int) : Steady (init maxDepth : State π ρ) where
  shut := absurd rfl
  regular := by simp [init]
  before := fun _ => live_init maxDepth
  after := absurd rfl
  distinct := List.nodup_nil
  ended := fun k hdone => by cases hdone

theorem waitsAgree_of_tells {s : State π ρ} (h : Steady s)
    (hw : ∀ w ∈ s.queue.waits, Tells s.queue w) : WaitsAgree s := by
  have hreturned : ∀ w ∈ s.queue.waits, s.queue.Issued w.token → ∀ r, w.status = .returned r →
      (s.queue.tasks w.token).done = true ∧
        ∃ x ∈ s.queue.tasksMade, x.token = w.token ∧ r = waitResult s.queue w.token x.kind := by
    intro w hmem hissued r hs
    have htells := hw w hmem
    simp only [Tells, hs] at htells
    exact htells hissued
  have heq : ∀ x ∈ s.queue.tasksMade, ∀ y ∈ s.queue.tasksMade, x.token = y.token → x = y :=
    fun x hx y hy hxy => List.inj_on_of_nodup_map h.distinct hx hy hxy
  refine ⟨fun w hmem w' hmem' hissued htok r r' hs hs' => ?_, fun w hmem hissued r hs => ?_⟩
  · obtain ⟨-, x, hx, hxt, rfl⟩ := hreturned w hmem hissued r hs
    obtain ⟨-, y, hy, hyt, rfl⟩ := hreturned w' hmem' (htok ▸ hissued) r' hs'
    rw [htok, heq y hy x hx (by rw [hyt, hxt, htok])]
  · obtain ⟨hdone, x, hx, hxt, rfl⟩ := hreturned w hmem hissued r hs
    obtain ⟨y, hy, hyt, hiff⟩ := h.ended w.token hdone
    obtain rfl := heq y hy x hx (hyt.trans hxt.symm)
    exact ⟨y, hy, hyt, rfl, hiff⟩

/-- **Outcomes of waits.** As long as nobody asks by number for a task that has been collected,
no handler ends in a `BaseException` and the drain does not give up on a task, all calls on a
token say the same, and an error if and only if the handler has not returned. -/
theorem waitsAgree_of_timely {maxDepth : Int} {labels : List (Label π ρ)}
    (hg : Runs.Meets step Timely (init maxDepth : State π ρ) labels) :
    Runs.Always step WaitsAgree (init maxDepth : State π ρ) labels := by
  refine Runs.always_of_meets
    (I := fun s : State π ρ => Steady s ∧ ∀ w ∈ s.queue.waits, Tells s.queue w)
    (fun s a t hs hg hstep => ⟨steady_step hs.1 hg hstep, tells_step hs.1 hs.2 hg hstep⟩)
    (fun s hs => waitsAgree_of_tells hs.1 hs.2) ⟨steady_init maxDepth, ?_⟩ hg
  intro w hw
  cases hw

def trainError : PyError := ⟨.runtimeError, "CUDA out of memory"⟩

/-- A train step fails; one call by number comes before that, one with the task object after. -/
def failedTrain : List (Label Unit Unit) :=
  [.queue (.submit "train" () "" 0), .queue (.waitFor 0), .queue .start, .queue .workerLoop,
    .queue .workerGet, .queue (.workerFinish (.raised trainError)), .queue .workerCommit,
    .queue (.waitResume 0), .queue (.waitForTask 0), .queue (.waitResume 1)]

theorem failedTrain_agree :
    Runs.Always step WaitsAgree (init 1 : State Unit Unit) failedTrain :=
  waitsAgree_of_timely (by decide)

/-- The same, and then a call by number. -/
theorem late_wait_differs :
    ¬ ∀ (maxDepth : Int) (labels : List (Label Unit Unit)) (s : State Unit Unit),
      Runs.exec step (init maxDepth) labels = some s → WaitsAgree s := by
  intro h
  have hs := h 1 (failedTrain ++ [.queue (.waitFor 0)]) _ rfl
  have hsame := hs.same ⟨0, .returned ⟨0, "train", some trainError, none⟩⟩ (by
      exact List.mem_cons_self) ⟨0, .returned ⟨0, "n/a", none, none⟩⟩ (by
      exact List.mem_cons_of_mem _ (List.mem_cons_of_mem _ List.mem_cons_self)) (by decide) rfl
    _ _ rfl rfl
  cases congrArg WaitResult.error hsame

end Trainfer.GracefulDrain
