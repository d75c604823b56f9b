import Trainfer.CommitCursor
import Trainfer.GracefulDrain

/-! What is resolved when a drain returns.

`_reap_pending` only walks the `_pending` map, which the commit of a task cleans by the
cursor, while a task that has not run is in the queue or with a suspended submitter.
`Settled` is what every run keeps of single tasks, `Reaped` is what the reaping does to them,
and `drain_resolves_iff` says when the two maps agree. -/

namespace Trainfer

universe u v

namespace ComputeQueue

variable {π : Type u} {ρ : Type v}

/-! ## What every run of the queue keeps of single tasks -/

structure Settled (s : State π ρ) : Prop where
  distinct : (s.tasksMade.map QueueTask.token).Nodup
  /-- Nothing writes to a task before its handler has ended. -/
  fresh : ∀ t, (∀ x ∈ s.finished, x.token ≠ t) → s.tasks t = {}
  committed : ∀ x ∈ s.finished,
    (s.tasks x.token).done = true ∨ ∃ o, s.worker = .finishing x o
  ahead : ∀ x ∈ s.pending, x ∈ s.tasksMade ∧ s.completedToken < x.token
  pendingDistinct : (s.pending.map QueueTask.token).Nodup

theorem settled_init (maxDepth : Int) : Settled (init maxDepth : State π ρ) where
  distinct := List.nodup_nil
  fresh := fun _ _ => rfl
  committed := by simp [init]
  ahead := by simp [init]
  pendingDistinct := List.nodup_nil

theorem Settled.eq_of_token {s : State π ρ} (h : Settled s) {x y : QueueTask π}
    (hx : x ∈ s.tasksMade) (hy : y ∈ s.tasksMade) (hxy : x.token = y.token) : x = y :=
  List.inj_on_of_nodup_map h.distinct hx hy hxy

theorem settled_submit {s s' : State π ρ} {kind batchId : String} {payload : π} {now : Nat}
    {task : QueueTask π} {st : AsyncQueue.PutStatus} (hi : Accounted s) (h : Settled s)
    (hsub : submit s kind payload batchId now = .ok (task, st, s')) : Settled s' := by
  obtain ⟨_, htask, _, rfl⟩ := submit_ok hsub
  have htok : task.token = s.nextToken := by rw [htask]
  have hperm : (s.started ++ (s.q.put task).1.held).Perm (task :: s.tasksMade) :=
    ((AsyncQueue.held_put_perm s.q task).append_left s.started).trans List.perm_middle
  -- the tokens that exist are below the one that is issued
  have hlt : ∀ x ∈ s.tasksMade, x.token < task.token := fun x hx => by
    rw [htok]
    exact ((hi.made x.token).mpr ⟨x, hx, rfl⟩).2
  refine ⟨?_, h.fresh, h.committed, fun x hx => ?_, ?_⟩
  · refine (hperm.map QueueTask.token).nodup_iff.mpr ?_
    rw [List.map_cons, List.nodup_cons]
    refine ⟨fun hmem => ?_, h.distinct⟩
    obtain ⟨x, hx, hxt⟩ := List.mem_map.mp hmem
    have := hlt x hx
    omega
  · rcases List.mem_append.mp hx with hx | hx
    · exact ⟨hperm.mem_iff.mpr (List.mem_cons_of_mem task (h.ahead x hx).1), (h.ahead x hx).2⟩
    · obtain rfl := List.mem_singleton.mp hx
      exact ⟨hperm.mem_iff.mpr List.mem_cons_self, htok ▸ hi.cursor_high⟩
  · rw [List.map_append, List.map_singleton, List.nodup_append]
    refine ⟨h.pendingDistinct, List.nodup_singleton _, fun t ht u hu => ?_⟩
    obtain ⟨x, hx, rfl⟩ := List.mem_map.mp ht
    obtain rfl := List.mem_singleton.mp hu
    exact Int.ne_of_lt (hlt x (h.ahead x hx).1)

theorem Settled.ofPerm {s : State π ρ} (h : Settled s) {q : AsyncQueue (QueueTask π)}
    {worker : Worker π ρ} {started : List (QueueTask π)}
    (hperm : (started ++ q.held).Perm s.tasksMade) (hw : ∀ x o, s.worker ≠ .finishing x o ∨
      worker = s.worker) :
    Settled { s with q := q, worker := worker, started := started } where
  distinct := (hperm.map QueueTask.token).nodup_iff.mpr h.distinct
  fresh := h.fresh
  committed := fun x hx => by
    rcases h.committed x hx with hd | ⟨o, ho⟩
    · exact .inl hd
    · exact .inr ⟨o, ((hw x o).resolve_left fun hne => hne ho).trans ho⟩
  ahead := fun x hx => ⟨hperm.mem_iff.mpr (h.ahead x hx).1, (h.ahead x hx).2⟩
  pendingDistinct := h.pendingDistinct

theorem settled_finished {s : State π ρ} {task : QueueTask π} {o : Outcome ρ} (h : Settled s)
    (hw : s.worker = .running task) :
    Settled { s with
      worker := .finishing task o
      finished := s.finished ++ [task]
      tasks := Function.update s.tasks task.token (recordOutcome (s.tasks task.token) o) } where
  distinct := h.distinct
  fresh := fun t ht => by
    have hne : t ≠ task.token := fun he => ht task (by simp) he.symm
    simp only [Function.update_of_ne hne]
    exact h.fresh t fun x hx => ht x (List.mem_append_left _ hx)
  committed := fun x hx => by
    rcases List.mem_append.mp hx with hx | hx
    · rcases h.committed x hx with hd | ⟨o, ho⟩
      · refine .inl ?_
        by_cases he : x.token = task.token
        · simpa [he] using he ▸ hd
        · simpa [Function.update_of_ne he] using hd
      · simp [hw] at ho
    · obtain rfl := List.mem_singleton.mp hx
      exact .inr ⟨o, rfl⟩
  ahead := h.ahead
  pendingDistinct := h.pendingDistinct

theorem settled_committed {s : State π ρ} {task : QueueTask π} {o : Outcome ρ}
    {worker : Worker π ρ} (hi : Accounted s) (h : Settled s) (hw : s.worker = .finishing task o) :
    Settled { s with
      completedToken := max s.completedToken task.token
      tasks := Function.update s.tasks task.token { s.tasks task.token with done := true }
      pending := s.pending.filter fun t => decide (max s.completedToken task.token < t.token)
      worker := worker } where
  distinct := h.distinct
  fresh := fun t ht => by
    have hp := hi.phase
    simp only [Phase, hw] at hp
    have hne : t ≠ task.token := fun he => ht task hp.2 he.symm
    simp only [Function.update_of_ne hne]
    exact h.fresh t ht
  committed := fun x hx => by
    refine .inl ?_
    by_cases he : x.token = task.token
    · simp [he]
    · rcases h.committed x hx with hd | ⟨o, ho⟩
      · simpa [Function.update_of_ne he] using hd
      · rw [hw] at ho
        obtain ⟨rfl, _⟩ := Worker.finishing.inj ho
        exact absurd rfl he
  ahead := fun x hx => by
    obtain ⟨hx, hlt⟩ := List.mem_filter.mp hx
    exact ⟨(h.ahead x hx).1, of_decide_eq_true hlt⟩
  pendingDistinct := h.pendingDistinct.sublist (List.filter_sublist.map QueueTask.token)

theorem settled_step {s s' : State π ρ} {a : Action π ρ} (hi : Accounted s) (h : Settled s)
    (hstep : step s a = some s') : Settled s' := by
  cases stepped hstep with
  | refused => exact h
  | submitted _ hsub => exact settled_submit hi h hsub
  | resumed hq =>
    exact h.ofPerm ((AsyncQueue.held_resumePut_perm hq).append_left s.started) fun _ _ => .inr rfl
  | waitAdded => exact ⟨h.distinct, h.fresh, h.committed, h.ahead, h.pendingDistinct⟩
  | waitEnded => exact ⟨h.distinct, h.fresh, h.committed, h.ahead, h.pendingDistinct⟩
  | moved hw => exact h.ofPerm (List.Perm.refl _) fun x o => .inl (hw x o)
  | @got task q hw hq =>
    refine h.ofPerm ?_ fun x o => .inl (by simp [hw])
    rw [List.append_assoc]
    exact (AsyncQueue.held_getNowait_perm hq).symm.append_left s.started
  | finished hw => exact settled_finished h hw
  | committed hw => exact settled_committed hi h hw

theorem Settled.open_of_pending {s : State π ρ} (hi : Accounted s) (h : Settled s)
    {x : QueueTask π} (hx : x ∈ s.pending) : (s.tasks x.token).done = false := by
  cases hd : (s.tasks x.token).done with
  | false => rfl
  | true =>
    have hle := hi.done_le x.token hd
    have hlt := (h.ahead x hx).2
    omega

end ComputeQueue

namespace GracefulDrain

open ComputeQueue (QueueTask Outcome TaskState Action Accounted Settled)

variable {π : Type u} {ρ : Type v}

/-! ## The reaping -/

/-- The state after the tasks of `ps` were dropped. -/
structure Reaped (s : ComputeQueue.State π ρ) (ps : List (QueueTask π))
    (s' : ComputeQueue.State π ρ) : Prop where
  frame : s' = { s with completedToken := s'.completedToken, tasks := s'.tasks }
  mono : s.completedToken ≤ s'.completedToken
  above : ∀ x ∈ ps, x.token ≤ s'.completedToken
  hit : ∀ x ∈ ps, s'.tasks x.token =
    { s.tasks x.token with error := some (shutdownDroppedError x), done := true }
  miss : ∀ t, (∀ x ∈ ps, x.token ≠ t) → s'.tasks t = s.tasks t

theorem reapLoop_spec {ps : List (QueueTask π)} {s : ComputeQueue.State π ρ} (n : Nat)
    (hdistinct : (ps.map QueueTask.token).Nodup)
    (hopen : ∀ x ∈ ps, (s.tasks x.token).done = false) :
    (reapLoop s n ps).1 = n + ps.length ∧ Reaped s ps (reapLoop s n ps).2 := by
  induction ps generalizing s n with
  | nil => exact ⟨rfl, rfl, le_refl _, by simp, by simp, fun _ _ => rfl⟩
  | cons x ps ih =>
    rw [List.map_cons, List.nodup_cons] at hdistinct
    obtain ⟨hx, hps⟩ := hdistinct
    have hne : ∀ y ∈ ps, y.token ≠ x.token := fun y hy he => hx (he ▸ List.mem_map_of_mem hy)
    have hother : ∀ t, t ≠ x.token → (dropTask s x).tasks t = s.tasks t := fun t ht =>
      Function.update_of_ne ht _ _
    have hself : (dropTask s x).tasks x.token =
        { s.tasks x.token with error := some (shutdownDroppedError x), done := true } :=
      Function.update_self _ _ _
    obtain ⟨hcount, hreaped⟩ := ih (s := dropTask s x) (n + 1) hps fun y hy => by
      rw [hother y.token (hne y hy)]
      exact hopen y (List.mem_cons_of_mem x hy)
    have hloop : reapLoop s n (x :: ps) = reapLoop (dropTask s x) (n + 1) ps := by
      simp [reapLoop, hopen x List.mem_cons_self]
    have hmono : s.completedToken ≤ (dropTask s x).completedToken := le_max_left _ _
    rw [hloop]
    refine ⟨by rw [hcount, List.length_cons]; omega, ?_⟩
    refine ⟨hreaped.frame, le_trans hmono hreaped.mono, ?_, ?_, ?_⟩
    · intro y hy
      rcases List.mem_cons.mp hy with rfl | hy
      · exact le_trans (le_max_right _ _) hreaped.mono
      · exact hreaped.above y hy
    · intro y hy
      rcases List.mem_cons.mp hy with rfl | hy
      · rw [hreaped.miss _ hne, hself]
      · rw [hreaped.hit y hy, hother y.token (hne y hy)]
    · intro t ht
      rw [hreaped.miss t fun y hy => ht y (List.mem_cons_of_mem x hy),
        hother t (ht x List.mem_cons_self).symm]

/-- All that was pending is dropped, and the map is left empty. -/
theorem reapPending_spec {s : ComputeQueue.State π ρ} (hi : Accounted s) (h : Settled s) :
    ∃ s', (reapPending s).1 = s.pending.length ∧ (reapPending s).2 = { s' with pending := [] } ∧
      Reaped s s.pending s' := by
  obtain ⟨hcount, hreaped⟩ := reapLoop_spec 0 h.pendingDistinct
    fun x hx => h.open_of_pending hi hx
  refine ⟨_, by rw [reapPending, hcount, Nat.zero_add], ?_, hreaped⟩
  have hempty : (reapLoop s 0 s.pending).2.pending.filter
      (fun t => decide ((reapLoop s 0 s.pending).2.completedToken < t.token)) = [] := by
    rw [hreaped.frame]
    refine List.filter_eq_nil_iff.mpr fun x hx => ?_
    have := hreaped.above x hx
    simp only [decide_eq_true_eq]
    omega
  simp only [reapPending, hempty]

/-- There is nothing to reap once the map is empty. -/
theorem reapPending_nil {s : ComputeQueue.State π ρ} (h : s.pending = []) :
    reapPending s = (0, s) := by
  simp only [reapPending, h, reapLoop, List.filter_nil]
  rw [← h]

/-! ## What every run keeps until the drain returns -/

/-- The effect of a step: the queue moves, the drain moves and sets flags, or it reaps. -/
inductive Moved (s : State π ρ) : Label π ρ → State π ρ → Prop
  | queue {a queue} (h : ComputeQueue.step s.queue a = some queue) :
      Moved s (.queue a) { s with queue := queue, outcomes := s.outcomes ++ handled s.queue a }
  | flags {a accepting stop hardStop phase}
      (hacc : accepting = true → s.queue.accepting = true)
      (hphase : phase ≠ .idle → accepting = false ∨ s.phase ≠ .idle) :
      Moved s a { s with
        queue := { s.queue with accepting := accepting, stop := stop, hardStop := hardStop }
        phase := phase }
  | reaped {a accepting stop detached timedOut}
      (hacc : accepting = true → s.queue.accepting = true)
      (hclosed : accepting = false ∨ s.phase ≠ .idle)
      (hgone : a = .graceExpires ∨ workerGone s = true) :
      Moved s a (reap { s with
        queue := { s.queue with accepting := accepting, stop := stop }
        detached := detached } timedOut)

theorem workerGone_of_exited {s : State π ρ} (h : exited s.queue = true) :
    workerGone s = true := by
  unfold exited at h
  split at h
  · rename_i hw
    simp [workerGone, hw]
  · cases h

theorem moved_afterWorker {s t : State π ρ} {timedOut : Bool} (hphase : s.phase ≠ .idle)
    (h : afterWorker s timedOut = some t) : Moved s .workerDone t := by
  simp only [afterWorker] at h
  split at h
  · rename_i hexited
    split at h
    · obtain rfl := Option.some.inj h
      exact .flags id (absurd rfl)
    · obtain rfl := Option.some.inj h
      exact .reaped id (.inr hphase) (.inr (workerGone_of_exited hexited))
  · cases h

/-- **Inversion of a step.** -/
theorem moved {s t : State π ρ} {a : Label π ρ} (h : step s a = some t) : Moved s a t := by
  cases a with
  | queue a =>
    obtain ⟨queue, hqueue, rfl⟩ := Option.map_eq_some_iff.mp h
    exact .queue hqueue
  | begin deadline =>
    simp only [step] at h
    split at h
    · split at h
      · rename_i hgone
        obtain rfl := Option.some.inj h
        exact .reaped (by simp) (.inl rfl) (.inr hgone)
      · obtain rfl := Option.some.inj h
        exact .flags (by simp) fun _ => .inl rfl
    · cases h
  | workerDone =>
    simp only [step] at h
    split at h
    · rename_i hphase
      exact moved_afterWorker (by simp [hphase]) h
    · rename_i hphase
      exact moved_afterWorker (by simp [hphase]) h
    · cases h
  | deadline =>
    simp only [step] at h
    split at h
    · rename_i hphase
      obtain rfl := Option.some.inj h
      exact .flags id fun _ => .inr (by simp [hphase])
    · cases h
  | graceExpires =>
    simp only [step] at h
    split at h
    · rename_i hphase
      obtain rfl := Option.some.inj h
      exact .reaped id (.inr (by simp [hphase])) (.inl rfl)
    · cases h

/-- The queue without its flags, which only the worker and the submitters read. -/
theorem accounted_flags {s : ComputeQueue.State π ρ} (h : Accounted s) (accepting stop hardStop) :
    Accounted { s with accepting := accepting, stop := stop, hardStop := hardStop } :=
  ⟨h.cursor_low, h.cursor_high, h.made, h.awaited, h.done_le, h.returned_le, h.phase, h.reached⟩

theorem settled_flags {s : ComputeQueue.State π ρ} (h : Settled s) (accepting stop hardStop) :
    Settled { s with accepting := accepting, stop := stop, hardStop := hardStop } :=
  ⟨h.distinct, h.fresh, h.committed, h.ahead, h.pendingDistinct⟩

structure Live (s : State π ρ) : Prop where
  accounted : Accounted s.queue
  settled : Settled s.queue
  handled : s.outcomes.map Prod.fst = s.queue.finished
  recorded : ∀ e ∈ s.outcomes,
    isBaseRaised e.2 = true ∨ Recorded (s.queue.tasks e.1.token) e.2
  attached : s.detached = false

theorem live_init (maxDepth : Int) : Live (init maxDepth : State π ρ) where
  accounted := ComputeQueue.accounted_init maxDepth
  settled := ComputeQueue.settled_init maxDepth
  handled := rfl
  recorded := by simp [init]
  attached := rfl

theorem recorded_done {ts : TaskState ρ} {o : Outcome ρ} :
    Recorded { ts with done := true } o ↔ Recorded ts o := by
  cases o <;> rfl

theorem recorded_recordOutcome {o : Outcome ρ} :
    isBaseRaised o = true ∨ Recorded (ComputeQueue.recordOutcome {} o) o := by
  cases o with
  | returned r => exact .inr ⟨rfl, rfl⟩
  | raised e => exact .inr ⟨rfl, rfl⟩
  | baseRaised e => exact .inl rfl

/-- Only the end of a handler call appends to the outcomes and the finished tasks. -/
theorem handled_step {s s' : ComputeQueue.State π ρ} {a : Action π ρ}
    (h : ComputeQueue.step s a = some s') :
    (∃ task o, a = .workerFinish o ∧ s.worker = .running task ∧ handled s a = [(task, o)]) ∨
      handled s a = [] ∧ s'.finished = s.finished := by
  cases a with
  | workerFinish o =>
    obtain ⟨task, hw, _⟩ := ComputeQueue.workerFinish_some h
    exact .inl ⟨task, o, rfl, hw, by simp [handled, hw]⟩
  | submit | trySubmit | resumePut | waitFor | waitForTask | waitResume | waitTimeout | start
  | workerLoop | workerGet | workerGetTimeout | workerCommit =>
    refine .inr ⟨rfl, ?_⟩
    cases ComputeQueue.stepped h with
    | submitted _ hsub =>
      obtain ⟨_, _, _, rfl⟩ := ComputeQueue.submit_ok hsub
      rfl
    | _ => rfl

theorem apart_of_running {s : ComputeQueue.State π ρ} (hi : Accounted s) (h : Settled s)
    {task : QueueTask π} (hw : s.worker = .running task) :
    ∀ x ∈ s.finished, x.token ≠ task.token := by
  have hphase := hi.phase
  simp only [ComputeQueue.Phase, hw] at hphase
  have hdistinct := h.distinct
  rw [ComputeQueue.State.tasksMade, hphase, List.append_assoc, List.map_append,
    List.nodup_append] at hdistinct
  exact fun x hx => hdistinct.2.2 _ (List.mem_map_of_mem hx) _ (by simp)

/-- What is recorded for a finished task stays recorded. -/
theorem recorded_step {s s' : ComputeQueue.State π ρ} {a : Action π ρ} (hi : Accounted s)
    (h : Settled s) (hstep : ComputeQueue.step s a = some s') {x : QueueTask π}
    (hx : x ∈ s.finished) {o : Outcome ρ} (hr : Recorded (s.tasks x.token) o) :
    Recorded (s'.tasks x.token) o := by
  cases ComputeQueue.stepped hstep with
  | submitted _ hsub =>
    obtain ⟨_, _, _, rfl⟩ := ComputeQueue.submit_ok hsub
    exact hr
  | finished hw =>
    simpa only [Function.update_of_ne (apart_of_running hi h hw x hx)] using hr
  | @committed task =>
    by_cases hxt : x.token = task.token
    · rw [hxt] at hr
      simpa only [hxt, Function.update_self, recorded_done] using hr
    · simpa only [Function.update_of_ne hxt] using hr
  | refused | resumed | waitAdded | waitEnded | moved | got => exact hr

theorem live_queue {s : State π ρ} {a : Action π ρ} {queue : ComputeQueue.State π ρ}
    (h : Live s) (hstep : ComputeQueue.step s.queue a = some queue) :
    Live { s with queue := queue, outcomes := s.outcomes ++ handled s.queue a } := by
  have hold : ∀ e ∈ s.outcomes,
      isBaseRaised e.2 = true ∨ Recorded (queue.tasks e.1.token) e.2 := fun e he => by
    have hmem : e.1 ∈ s.queue.finished := h.handled ▸ List.mem_map_of_mem he
    exact (h.recorded e he).imp_right (recorded_step h.accounted h.settled hstep hmem)
  refine ⟨ComputeQueue.accounted_step _ _ _ h.accounted hstep,
    ComputeQueue.settled_step h.accounted h.settled hstep, ?_, ?_, h.attached⟩
  · rcases handled_step hstep with ⟨task, o, rfl, hw, hh⟩ | ⟨hh, hfin⟩
    · obtain ⟨task', hw', rfl⟩ := ComputeQueue.workerFinish_some hstep
      obtain rfl := ComputeQueue.Worker.running.inj (hw.symm.trans hw')
      simp [hh, h.handled]
    · simp [hh, h.handled, hfin]
  · intro e he
    rcases List.mem_append.mp he with hmem | hnew
    · exact hold e hmem
    · rcases handled_step hstep with ⟨task, o, rfl, hw, hh⟩ | ⟨hh, _⟩
      · obtain ⟨task', hw', rfl⟩ := ComputeQueue.workerFinish_some hstep
        obtain rfl := ComputeQueue.Worker.running.inj (hw.symm.trans hw')
        obtain rfl := List.mem_singleton.mp (hh ▸ hnew)
        have hfresh := h.settled.fresh _ (apart_of_running h.accounted h.settled hw)
        simp only [Function.update_self, hfresh]
        exact recorded_recordOutcome
      · simp [hh] at hnew

theorem live_step (s : State π ρ) (a : Label π ρ) (t : State π ρ)
    (h : s.reports = [] → Live s) (hstep : step s a = some t) : t.reports = [] → Live t := by
  intro hnone
  cases moved hstep with
  | queue hqueue => exact live_queue (h hnone) hqueue
  | flags =>
    have hs := h hnone
    exact ⟨accounted_flags hs.accounted _ _ _, settled_flags hs.settled _ _ _, hs.handled,
      hs.recorded, hs.attached⟩
  | reaped => simp [reap] at hnone

theorem false_of_imp {b c : Bool} (h : b = true → c = true) (hc : c = false) : b = false := by
  cases b with
  | false => rfl
  | true => exact absurd (h rfl) (by simp [hc])

/-- While a call of the drain is going on, nothing is accepted. -/
def Shut (s : State π ρ) : Prop := s.phase ≠ .idle → s.queue.accepting = false

theorem accepting_step {s s' : ComputeQueue.State π ρ} {a : Action π ρ}
    (h : ComputeQueue.step s a = some s') : s'.accepting = s.accepting := by
  cases ComputeQueue.stepped h with
  | submitted _ hsub =>
    obtain ⟨_, _, _, rfl⟩ := ComputeQueue.submit_ok hsub
    rfl
  | _ => rfl

theorem shut_step (s : State π ρ) (a : Label π ρ) (t : State π ρ) (h : Shut s)
    (hstep : step s a = some t) : Shut t := by
  cases moved hstep with
  | queue hqueue => exact fun hphase => (accepting_step hqueue).trans (h hphase)
  | flags hacc hphase =>
    intro hactive
    rcases hphase hactive with hfalse | hactive
    · exact hfalse
    · exact false_of_imp hacc (h hactive)
  | reaped => exact fun hphase => absurd rfl hphase

/-! ## After the return -/

theorem pending_step {s s' : ComputeQueue.State π ρ} {a : Action π ρ}
    (hacc : s.accepting = false) (hnil : s.pending = []) (h : ComputeQueue.step s a = some s') :
    s'.pending = [] := by
  cases ComputeQueue.stepped h with
  | submitted _ hsub =>
    have := (ComputeQueue.submit_ok hsub).1
    simp [hacc] at this
  | committed => simp [hnil]
  | refused | resumed | waitAdded | waitEnded | moved | got | finished => exact hnil

theorem closed_of_pending_nil {s : State π ρ} (hacc : s.queue.accepting = false)
    (hnil : s.queue.pending = []) : Closed s := by
  intro labels t hrun
  have hinv : t.queue.accepting = false ∧ t.queue.pending = [] ∧
      ∃ later, t.reports = s.reports ++ later ∧ ∀ report ∈ later, report.dropped = 0 := by
    refine Runs.exec_preserves (I := fun u => u.queue.accepting = false ∧ u.queue.pending = [] ∧
      ∃ later, u.reports = s.reports ++ later ∧ ∀ report ∈ later, report.dropped = 0)
      ?_ ⟨hacc, hnil, [], (List.append_nil _).symm, by simp⟩ hrun
    rintro u a w ⟨hacc, hnil, later, hlater, hzero⟩ hstep
    cases moved hstep with
    | queue hqueue =>
      exact ⟨(accepting_step hqueue).trans hacc, pending_step hacc hnil hqueue, later, hlater,
        hzero⟩
    | flags hacc' => exact ⟨false_of_imp hacc' hacc, hnil, later, hlater, hzero⟩
    | @reaped _ accepting stop _ timedOut hacc' =>
      have hreap : reapPending { u.queue with accepting := accepting, stop := stop } =
          (0, { u.queue with accepting := accepting, stop := stop }) := reapPending_nil hnil
      simp only [reap, hreap]
      refine ⟨false_of_imp hacc' hacc, hnil, later ++ [⟨0, timedOut⟩], ?_, fun report hr => ?_⟩
      · rw [hlater, List.append_assoc]
      · rcases List.mem_append.mp hr with hr | hr
        · exact hzero report hr
        · rw [List.mem_singleton.mp hr]
  refine ⟨fun kind payload batchId now => ?_, hinv.2.2⟩
  simp [ComputeQueue.submit, hinv.1]

/-! ## At the return -/

theorem started_eq {s : State π ρ} (h : Live s) (hgone : workerGone s = true) :
    s.queue.started = s.queue.finished ∧ ∀ x o, s.queue.worker ≠ .finishing x o := by
  have hphase := h.accounted.phase
  simp only [workerGone, h.attached, Bool.false_or] at hgone
  unfold ComputeQueue.Phase at hphase
  split at hgone
  · rename_i hw
    exact ⟨by simpa only [hw] using hphase, by simp [hw]⟩
  · rename_i hw
    exact ⟨by simpa only [hw] using hphase, by simp [hw]⟩
  · cases hgone

/-- When the worker is gone, what was started is done. -/
theorem done_of_started {s : State π ρ} (h : Live s) (hgone : workerGone s = true)
    {x : QueueTask π} (hx : x ∈ s.queue.started) : (s.queue.tasks x.token).done = true := by
  obtain ⟨heq, hidle⟩ := started_eq h hgone
  exact (h.settled.committed x (heq ▸ hx)).resolve_right fun ⟨o, ho⟩ => hidle x o ho

section Return

variable {s : State π ρ} {q : ComputeQueue.State π ρ}

/-- A task that the cursor has not passed is pending. -/
theorem pending_of_held (h : Live s) {x : QueueTask π} (hx : x ∈ s.queue.q.held)
    (hlt : s.queue.completedToken < x.token) : x ∈ s.queue.pending := by
  have hmade : x ∈ s.queue.tasksMade := List.mem_append_right _ hx
  have hissued := (h.accounted.made x.token).mpr ⟨x, hmade, rfl⟩
  rcases h.accounted.awaited x.token hissued with hle | ⟨y, hy, hyx⟩
  · omega
  · exact h.settled.eq_of_token (h.settled.ahead y hy).1 hmade hyx ▸ hy

theorem held_of_pending (h : Live s) (hgone : workerGone s = true) {x : QueueTask π}
    (hx : x ∈ s.queue.pending) : x ∈ s.queue.q.held := by
  rcases List.mem_append.mp (h.settled.ahead x hx).1 with hstarted | hheld
  · have hdone := done_of_started h hgone hstarted
    rw [h.settled.open_of_pending h.accounted hx] at hdone
    cases hdone
  · exact hheld

/-- A started task is not among the pending ones, so the reaping leaves it alone. -/
theorem tasks_started (h : Live s) (hgone : workerGone s = true)
    (hr : Reaped s.queue s.queue.pending q) {x : QueueTask π} (hx : x ∈ s.queue.started) :
    q.tasks x.token = s.queue.tasks x.token := by
  refine hr.miss x.token fun y hy he => ?_
  have hdone := done_of_started h hgone hx
  rw [← he, h.settled.open_of_pending h.accounted hy] at hdone
  cases hdone

theorem apart_of_held (h : Live s) {x y : QueueTask π} (hx : x ∈ s.queue.started)
    (hy : y ∈ s.queue.q.held) : x.token ≠ y.token := by
  have hdistinct := h.settled.distinct
  rw [ComputeQueue.State.tasksMade, List.map_append, List.nodup_append] at hdistinct
  exact hdistinct.2.2 _ (List.mem_map_of_mem hx) _ (List.mem_map_of_mem hy)

theorem fresh_of_held (h : Live s) {x : QueueTask π} (hx : x ∈ s.queue.q.held) :
    s.queue.tasks x.token = {} :=
  h.settled.fresh x.token fun y hy =>
    apart_of_held h (h.accounted.phase.finished_subset y hy) hx

theorem outcome_unique (h : Live s) {e f : QueueTask π × Outcome ρ} (he : e ∈ s.outcomes)
    (hf : f ∈ s.outcomes) (hef : e.1 = f.1) : e = f := by
  refine List.inj_on_of_nodup_map ?_ he hf hef
  have hdistinct := h.settled.distinct
  rw [ComputeQueue.State.tasksMade, List.map_append, List.nodup_append] at hdistinct
  rw [h.handled]
  exact h.accounted.phase.finished_prefix.sublist.nodup hdistinct.1.of_map

/-- If nothing is lost, the two maps agree. -/
theorem pending_perm_held (h : Live s) (hgone : workerGone s = true)
    (hahead : ∀ x ∈ s.queue.q.held, s.queue.committed < x.token) :
    s.queue.pending.Perm s.queue.q.held := by
  have hdistinct := h.settled.distinct
  rw [ComputeQueue.State.tasksMade, List.map_append, List.nodup_append] at hdistinct
  refine (List.perm_ext_iff_of_nodup h.settled.pendingDistinct.of_map hdistinct.2.1.of_map).mpr ?_
  exact fun x => ⟨held_of_pending h hgone, fun hx => pending_of_held h hx (hahead x hx)⟩

variable {t : State π ρ} {report : Report}

theorem nothingLost_of_resolved (h : Live s)
    (hr : Reaped s.queue s.queue.pending q) (houtcomes : t.outcomes = s.outcomes)
    (hq : t.queue = { q with pending := [] }) (hres : Resolved t report) : NothingLost s := by
  have hmade : t.queue.tasksMade = s.queue.tasksMade := by rw [hq, hr.frame]; rfl
  have hissued : ∀ x ∈ s.queue.tasksMade, t.queue.Issued x.token := fun x hx => by
    rw [hq, hr.frame]
    exact (h.accounted.made x.token).mpr ⟨x, hx, rfl⟩
  have htasks : t.queue.tasks = q.tasks := by rw [hq]
  refine ⟨fun x hx => ?_, fun e he => ?_⟩
  · by_contra hle
    have hle : x.token ≤ s.queue.completedToken := not_lt.mp hle
    -- the cursor has passed the task, so it is no longer pending and nobody writes to it
    have hmiss : q.tasks x.token = s.queue.tasks x.token := hr.miss x.token fun y hy he => by
      have := (h.settled.ahead y hy).2
      omega
    have hdone := hres.done x.token (hissued x (List.mem_append_right _ hx))
    rw [htasks, hmiss, fresh_of_held h hx] at hdone
    cases hdone
  · have hfinished : e.1 ∈ s.queue.finished := h.handled ▸ List.mem_map_of_mem he
    have hstarted : e.1 ∈ s.queue.started := h.accounted.phase.finished_subset e.1 hfinished
    have hmem : e.1 ∈ s.queue.tasksMade := List.mem_append_left _ hstarted
    obtain ⟨x, hx, hxe, hout⟩ := hres.outcome e.1.token (hissued e.1 hmem)
    obtain rfl := h.settled.eq_of_token (hmade ▸ hx) hmem hxe
    rcases hout with ⟨o, ho, hrec⟩ | hdropped
    · rw [← outcome_unique (e := (e.1, o)) h (houtcomes ▸ ho) he rfl]
      cases o with
      | baseRaised err => exact hrec.elim
      | returned | raised => rfl
    · have hstarted' : t.queue.started = s.queue.started := by rw [hq, hr.frame]
      exact absurd rfl (hdropped.1 e.1 (hstarted' ▸ hstarted))

theorem resolved_of_nothingLost (h : Live s) (hgone : workerGone s = true)
    (hr : Reaped s.queue s.queue.pending q) (houtcomes : t.outcomes = s.outcomes)
    (hq : t.queue = { q with pending := [] }) (hcount : report.dropped = s.queue.pending.length)
    (hlost : NothingLost s) : Resolved t report := by
  have hmade : t.queue.tasksMade = s.queue.tasksMade := by rw [hq, hr.frame]; rfl
  have hstarted : t.queue.started = s.queue.started := by rw [hq, hr.frame]
  have htasks : t.queue.tasks = q.tasks := by rw [hq]
  have hmem : ∀ u, t.queue.Issued u → ∃ x ∈ s.queue.tasksMade, x.token = u := fun u hu => by
    rw [hq, hr.frame] at hu
    exact (h.accounted.made u).mp hu
  have hhit : ∀ x ∈ s.queue.q.held, t.queue.tasks x.token =
      { s.queue.tasks x.token with error := some (shutdownDroppedError x), done := true } :=
    fun x hx => htasks ▸ hr.hit x (pending_of_held h hx (hlost.1 x hx))
  have hkept : ∀ x ∈ s.queue.started, t.queue.tasks x.token = s.queue.tasks x.token :=
    fun x hx => htasks ▸ tasks_started h hgone hr hx
  have hdropped : ∀ x ∈ s.queue.q.held, Dropped t.queue x := fun x hx =>
    ⟨fun y hy => apart_of_held h (hstarted ▸ hy) hx, by rw [hhit x hx]⟩
  refine ⟨fun u hu => ?_, fun u hu => ?_, ?_⟩
  · obtain ⟨x, hx, rfl⟩ := hmem u hu
    rcases List.mem_append.mp hx with hx | hx
    · rw [hkept x hx]
      exact done_of_started h hgone hx
    · rw [hhit x hx]
  · obtain ⟨x, hx, rfl⟩ := hmem u hu
    refine ⟨x, hmade ▸ hx, rfl, ?_⟩
    rcases List.mem_append.mp hx with hx | hx
    · have hfinished : x ∈ s.outcomes.map Prod.fst := by
        rw [h.handled, ← (started_eq h hgone).1]
        exact hx
      obtain ⟨e, he, rfl⟩ := List.mem_map.mp hfinished
      refine .inl ⟨e.2, houtcomes ▸ he, ?_⟩
      rw [hkept e.1 hx]
      exact (h.recorded e he).resolve_left (by simp [hlost.2 e he])
    · exact .inr (hdropped x hx)
  · rw [hcount, (pending_perm_held h hgone hlost.1).length_eq, hmade,
      ComputeQueue.State.tasksMade, List.filter_append]
    have hnone : s.queue.started.filter (fun x => decide (Dropped t.queue x)) = [] :=
      List.filter_eq_nil_iff.mpr fun x hx hd =>
        (of_decide_eq_true hd).1 x (hstarted ▸ hx) rfl
    have hall : s.queue.q.held.filter (fun x => decide (Dropped t.queue x)) = s.queue.q.held :=
      List.filter_eq_self.mpr fun x hx => decide_eq_true (hdropped x hx)
    rw [hnone, hall, List.nil_append]

end Return

/-- **Graceful drain.** When the drain returns for the first time, without having given up on
a task in flight, every issued task is resolved and the queue stays closed, exactly if no task
that waits is at or below the cursor and no handler call has ended in a `BaseException`. -/
theorem drain_resolves_iff {maxDepth : Int} {labels : List (Label π ρ)} {s t : State π ρ}
    {a : Label π ρ} {report : Report}
    (hrun : Runs.exec step (init maxDepth) labels = some s) (hfirst : s.reports = [])
    (hgrace : a ≠ .graceExpires) (hreturn : step s a = some t) (hreport : t.reports = [report]) :
    Resolved t report ∧ Closed t ↔ NothingLost s := by
  have hlive : Live s := by
    refine Runs.exec_preserves (I := fun s => s.reports = [] → Live s) live_step ?_ hrun hfirst
    exact fun _ => live_init maxDepth
  have hshut : Shut s :=
    Runs.exec_preserves shut_step (fun hphase => absurd rfl hphase) hrun
  cases moved hreturn with
  | queue hqueue => simp [hfirst] at hreport
  | flags => simp [hfirst] at hreport
  | @reaped _ accepting stop detached timedOut hacc hclosed hgone =>
    have hgone : workerGone s = true := hgone.resolve_left hgrace
    have haccepting : accepting = false := by
      rcases hclosed with hfalse | hactive
      · exact hfalse
      · exact false_of_imp hacc (hshut hactive)
    let closed : State π ρ :=
      { s with queue := { s.queue with accepting := accepting, stop := stop } }
    have hlive' : Live closed :=
      ⟨accounted_flags hlive.accounted _ _ _, settled_flags hlive.settled _ _ _, hlive.handled,
        hlive.recorded, hlive.attached⟩
    obtain ⟨q, hcount, hqueue, hr⟩ := reapPending_spec hlive'.accounted hlive'.settled
    have hdropped : report.dropped = s.queue.pending.length := by
      simp only [reap, hfirst, List.nil_append, List.cons.injEq, and_true] at hreport
      rw [← hreport]
      exact hcount
    have houtcomes : (reap { closed with detached := detached } timedOut).outcomes =
        closed.outcomes := rfl
    constructor
    · rintro ⟨hres, -⟩
      exact nothingLost_of_resolved (s := closed) hlive' hr houtcomes hqueue hres
    · intro hlost
      refine ⟨resolved_of_nothingLost (s := closed) hlive' hgone hr houtcomes hqueue hdropped
        hlost, ?_⟩
      refine closed_of_pending_nil ?_ (congrArg ComputeQueue.State.pending hqueue)
      have hflag := congrArg ComputeQueue.State.accepting hqueue
      have hq := congrArg ComputeQueue.State.accepting hr.frame
      exact hflag.trans (hq.trans haccepting)

/-- The worker has a task, a second one waits in the queue and a third in `put`; the deadline
passes and the first one ends in time. -/
def deadlineRun : List (Label Unit Unit) :=
  [.queue (.submit "train" () "" 0), .queue .start, .queue .workerLoop, .queue .workerGet,
    .queue (.submit "train" () "" 0), .queue (.submit "merge" () "" 0), .begin true, .deadline,
    .queue (.workerFinish (.returned ())), .queue .workerCommit, .queue .workerLoop]

theorem deadlineRun_resolved :
    ∃ s t, Runs.exec step (init 1 : State Unit Unit) deadlineRun = some s ∧
      step s .workerDone = some t ∧ Resolved t ⟨2, true⟩ ∧ Closed t := by
  refine ⟨_, _, rfl, rfl, ?_⟩
  exact (@drain_resolves_iff Unit Unit 1 deadlineRun _ _ .workerDone ⟨2, true⟩ rfl rfl
    (by simp) rfl rfl).mpr (by decide)

/-- A merge suspended in `put` is overtaken by a train batch, which the worker finishes before
it sees the hard stop. -/
def overtakenDrain : List (Label Unit Unit) :=
  [.queue (.submit "train" () "" 0), .queue (.submit "merge" () "" 0), .queue .start,
    .queue .workerLoop, .queue .workerGet, .queue (.trySubmit "train" () "" 0),
    .queue (.resumePut 0), .begin true, .queue (.workerFinish (.returned ())),
    .queue .workerCommit, .queue .workerLoop, .queue .workerGet, .deadline,
    .queue (.workerFinish (.returned ())), .queue .workerCommit, .queue .workerLoop]

/-- After `overtakenDrain` the drain returns, and task 1 is neither run nor dropped. -/
theorem drain_forgets :
    ¬ ∀ (maxDepth : Int) (labels : List (Label Unit Unit)) (s t : State Unit Unit)
      (a : Label Unit Unit) (report : Report),
      Runs.exec step (init maxDepth) labels = some s → s.reports = [] → a ≠ .graceExpires →
      step s a = some t → t.reports = [report] → Resolved t report ∧ Closed t := by
  intro h
  have hres := (h 1 overtakenDrain _ _ .workerDone ⟨0, true⟩ rfl rfl (by simp) rfl rfl).1
  exact absurd (hres.done 1 (by decide)) (by decide)

end GracefulDrain

end Trainfer
