import Trainfer.DrainResolves
import Mathlib

/-! What every run of the queue and its drain keeps, whatever the drain has given up on and
whoever asks for what.

`Live` ends with the first report. `Traced` is weaker and never ends: what a task object says
comes from its own handler call or from having been dropped. -/

namespace Trainfer

universe u v

namespace ComputeQueue

variable {π : Type u} {ρ : Type v}

theorem phase_step {s s' : State π ρ} {a : Action π ρ} (h : Phase s) (hstep : step s a = some s') :
    Phase s' := by
  cases a with
  | submit kind payload batchId now =>
    obtain rfl := Option.some.inj hstep
    obtain ⟨_, _, _, _, hs'⟩ := afterSubmit_submit s kind batchId payload now
    rw [hs']
    exact h
  | trySubmit kind payload batchId now =>
    obtain rfl := Option.some.inj hstep
    obtain ⟨_, _, _, _, hs'⟩ := afterSubmit_trySubmit s kind batchId payload now
    rw [hs']
    exact h
  | resumePut i =>
    obtain ⟨q, -, rfl⟩ := Option.map_eq_some_iff.mp hstep
    exact h
  | waitFor token =>
    obtain rfl := Option.some.inj hstep
    exact h
  | waitForTask i =>
    obtain ⟨_, -, rfl⟩ := Option.map_eq_some_iff.mp hstep
    exact h
  | waitResume i =>
    obtain ⟨_, _, _, _, rfl⟩ := waitResume_some hstep
    exact h
  | waitTimeout i =>
    obtain ⟨_, _, _, rfl⟩ := waitTimeout_some hstep
    exact h
  | start =>
    obtain ⟨hw, rfl⟩ := start_some hstep
    simpa only [Phase, hw] using h
  | workerLoop =>
    obtain ⟨hw, rfl | rfl⟩ := workerLoop_some hstep
    · simpa only [Phase, hw] using h
    · simpa only [Phase, hw] using h
  | workerGet =>
    obtain ⟨task, q, hw, -, rfl⟩ := workerGet_some hstep
    simp only [Phase, hw] at h ⊢
    rw [h]
  | workerGetTimeout =>
    obtain ⟨hw, rfl⟩ := workerGetTimeout_some hstep
    simpa only [Phase, hw] using h
  | workerFinish o =>
    obtain ⟨task, hw, rfl⟩ := workerFinish_some hstep
    simp only [Phase, hw] at h ⊢
    exact ⟨h, by simp⟩
  | workerCommit =>
    obtain ⟨task, o, hw, rfl⟩ := workerCommit_some hstep
    simp only [Phase, hw] at h
    cases o <;> exact h.1

end ComputeQueue

namespace GracefulDrain

open ComputeQueue (QueueTask Outcome TaskState Action)

variable {π : Type u} {ρ : Type v}

/-! ## Reaping, whatever is pending -/

/-- The loop writes to tasks and the cursor only, and to a task at most once. -/
theorem reapLoop_tasks (s : ComputeQueue.State π ρ) (n : Nat) (ps : List (QueueTask π)) :
    (reapLoop s n ps).2 =
      { s with
        completedToken := (reapLoop s n ps).2.completedToken
        tasks := (reapLoop s n ps).2.tasks } ∧
    ∀ t, (reapLoop s n ps).2.tasks t = s.tasks t ∨
      (s.tasks t).done = false ∧ ∃ x ∈ ps, x.token = t ∧ (reapLoop s n ps).2.tasks t =
        ⟨true, some (shutdownDroppedError x), (s.tasks t).result⟩ := by
  induction ps generalizing s n with
  | nil => exact ⟨rfl, fun t => .inl rfl⟩
  | cons x ps ih =>
    unfold reapLoop
    split
    · obtain ⟨hframe, htasks⟩ := ih s n
      refine ⟨hframe, fun t => (htasks t).imp_right ?_⟩
      rintro ⟨hopen, y, hy, hrest⟩
      exact ⟨hopen, y, List.mem_cons_of_mem x hy, hrest⟩
    · rename_i hopen
      obtain ⟨hframe, htasks⟩ := ih (dropTask s x) (n + 1)
      refine ⟨hframe, fun t => ?_⟩
      have htask := htasks t
      by_cases ht : t = x.token
      · subst ht
        have hself : (dropTask s x).tasks x.token =
            ⟨true, some (shutdownDroppedError x), (s.tasks x.token).result⟩ :=
          Function.update_self _ _ _
        rw [hself] at htask
        rcases htask with hsame | ⟨hagain, -⟩
        · exact .inr ⟨by simpa using hopen, x, List.mem_cons_self, rfl, hsame⟩
        · cases hagain
      · have hother : (dropTask s x).tasks t = s.tasks t := Function.update_of_ne ht _ _
        rw [hother] at htask
        refine htask.imp_right ?_
        rintro ⟨hfalse, y, hy, hrest⟩
        exact ⟨hfalse, y, List.mem_cons_of_mem x hy, hrest⟩

/-! ## The trace of a task -/

/-- A task object that its handler has not written to. -/
def Untouched (x : QueueTask π) (ts : TaskState ρ) : Prop :=
  ts = {} ∨ ts = ⟨true, some (shutdownDroppedError x), none⟩

/-- The error of a task whose handler has ended. -/
def EndedAs (x : QueueTask π) (o : Outcome ρ) (ts : TaskState ρ) : Prop :=
  ts.error = some (shutdownDroppedError x) ∨
    match o with
    | .returned _ | .baseRaised _ => ts.error = none
    | .raised e => ts.error = some e

structure Traced (s : State π ρ) : Prop where
  below : ∀ x ∈ s.queue.tasksMade, x.token < s.queue.nextToken
  distinct : (s.queue.tasksMade.map QueueTask.token).Nodup
  pending : ∀ x ∈ s.queue.pending, x ∈ s.queue.tasksMade
  phase : ComputeQueue.Phase s.queue
  handled : s.outcomes.map Prod.fst = s.queue.finished
  fresh : ∀ t, s.queue.nextToken ≤ t → s.queue.tasks t = {}
  untouched : ∀ x ∈ s.queue.tasksMade, x ∉ s.queue.finished →
    Untouched x (s.queue.tasks x.token)
  ended : ∀ e ∈ s.outcomes, EndedAs e.1 e.2 (s.queue.tasks e.1.token)

theorem traced_init (maxDepth : Int) : Traced (init maxDepth : State π ρ) where
  below := by simp [init, ComputeQueue.init, ComputeQueue.State.tasksMade]
  distinct := List.nodup_nil
  pending := by simp [init, ComputeQueue.init]
  phase := rfl
  handled := rfl
  fresh := fun _ _ => rfl
  untouched := fun _ _ _ => .inl rfl
  ended := by simp [init]

section Traced

variable {s : State π ρ}

/-- The trace is about the queue and the handler calls. -/
theorem Traced.congr {t : State π ρ} (h : Traced s) (hqueue : t.queue = s.queue)
    (houtcomes : t.outcomes = s.outcomes) : Traced t := by
  obtain ⟨queue, _, _, outcomes, _⟩ := t
  obtain rfl : queue = s.queue := hqueue
  obtain rfl : outcomes = s.outcomes := houtcomes
  exact ⟨h.below, h.distinct, h.pending, h.phase, h.handled, h.fresh, h.untouched, h.ended⟩

theorem Traced.eq_of_token (h : Traced s) {x y : QueueTask π} (hx : x ∈ s.queue.tasksMade)
    (hy : y ∈ s.queue.tasksMade) (hxy : x.token = y.token) : x = y :=
  List.inj_on_of_nodup_map h.distinct hx hy hxy

theorem Traced.finished_made (h : Traced s) {x : QueueTask π} (hx : x ∈ s.queue.finished) :
    x ∈ s.queue.tasksMade :=
  List.mem_append_left _ (h.phase.finished_subset x hx)

theorem Traced.fresh_update (h : Traced s) {x : QueueTask π} (hx : x ∈ s.queue.tasksMade)
    (ts : TaskState ρ) {t : Int} (ht : s.queue.nextToken ≤ t) :
    Function.update s.queue.tasks x.token ts t = {} := by
  have hlt := h.below x hx
  have hne : t ≠ x.token := by omega
  rw [Function.update_of_ne hne]
  exact h.fresh t ht

theorem Traced.outcome_unique (h : Traced s) {x : QueueTask π} {o o' : Outcome ρ}
    (ho : (x, o) ∈ s.outcomes) (ho' : (x, o') ∈ s.outcomes) : o = o' := by
  have hdistinct := h.distinct
  rw [ComputeQueue.State.tasksMade, List.map_append, List.nodup_append] at hdistinct
  have hnodup : (s.outcomes.map Prod.fst).Nodup := by
    rw [h.handled]
    exact h.phase.finished_prefix.sublist.nodup hdistinct.1.of_map
  exact congrArg Prod.snd (List.inj_on_of_nodup_map hnodup ho ho' rfl)

theorem EndedAs.setDone {x : QueueTask π} {o : Outcome ρ} {ts ts' : TaskState ρ}
    (h : EndedAs x o ts) (herror : ts'.error = ts.error) : EndedAs x o ts' := by
  unfold EndedAs at h ⊢
  rw [herror]
  exact h

/-- The handler ends on a task that nothing but a drain has written to. -/
theorem Untouched.ended {x : QueueTask π} {ts : TaskState ρ} (h : Untouched x ts)
    (o : Outcome ρ) : EndedAs x o (ComputeQueue.recordOutcome ts o) := by
  rcases h with rfl | rfl
  · cases o <;> exact .inr rfl
  · cases o with
    | returned r => exact .inl rfl
    | raised e => exact .inr rfl
    | baseRaised e => exact .inl rfl

/-! ## The steps -/

theorem traced_submitted {queue : ComputeQueue.State π ρ} {kind batchId : String} {payload : π}
    {now : Nat} {task : QueueTask π} {st : AsyncQueue.PutStatus} (h : Traced s)
    (hsub : ComputeQueue.submit s.queue kind payload batchId now = .ok (task, st, queue)) :
    Traced { s with queue := queue } := by
  obtain ⟨_, htask, _, rfl⟩ := ComputeQueue.submit_ok hsub
  have htok : task.token = s.queue.nextToken := by rw [htask]
  have hperm : (s.queue.started ++ (s.queue.q.put task).1.held).Perm
      (task :: s.queue.tasksMade) :=
    ((AsyncQueue.held_put_perm s.queue.q task).append_left s.queue.started).trans
      List.perm_middle
  have hmade : ∀ x, x ∈ s.queue.started ++ (s.queue.q.put task).1.held ↔
      x = task ∨ x ∈ s.queue.tasksMade := fun x => by
    rw [hperm.mem_iff, List.mem_cons]
  refine ⟨fun x hx => ?_, ?_, fun x hx => ?_, h.phase, h.handled, fun t ht => ?_,
    fun x hx hnew => ?_, h.ended⟩
  · show x.token < s.queue.nextToken + 1
    rcases (hmade x).mp hx with rfl | hx
    · omega
    · have := h.below x hx
      omega
  · refine (hperm.map QueueTask.token).nodup_iff.mpr
      (List.nodup_cons.mpr ⟨fun hmem => ?_, h.distinct⟩)
    obtain ⟨x, hx, hxt⟩ := List.mem_map.mp hmem
    have := h.below x hx
    omega
  · rcases List.mem_append.mp hx with hx | hx
    · exact (hmade x).mpr (.inr (h.pending x hx))
    · exact (hmade x).mpr (.inl (List.mem_singleton.mp hx))
  · refine h.fresh t ?_
    have : s.queue.nextToken + 1 ≤ t := ht
    omega
  · rcases (hmade x).mp hx with rfl | hx
    · exact .inl (h.fresh _ (le_of_eq htok.symm))
    · exact h.untouched x hx hnew

/-- Tasks that change places. -/
theorem traced_perm {queue : ComputeQueue.State π ρ} (h : Traced s)
    (hperm : queue.tasksMade.Perm s.queue.tasksMade) (hphase : ComputeQueue.Phase queue)
    (hsame : queue.nextToken = s.queue.nextToken ∧ queue.pending = s.queue.pending ∧
      queue.finished = s.queue.finished ∧ queue.tasks = s.queue.tasks) :
    Traced { s with queue := queue } := by
  obtain ⟨hnext, hpending, hfinished, htasks⟩ := hsame
  refine ⟨fun x hx => ?_, ?_, fun x hx => ?_, hphase, ?_, ?_, fun x hx hnew => ?_, ?_⟩
  · rw [hnext]
    exact h.below x (hperm.mem_iff.mp hx)
  · exact (hperm.map QueueTask.token).nodup_iff.mpr h.distinct
  · exact hperm.mem_iff.mpr (h.pending x (hpending ▸ hx))
  · rw [hfinished]
    exact h.handled
  · rw [hnext, htasks]
    exact h.fresh
  · rw [htasks]
    exact h.untouched x (hperm.mem_iff.mp hx) (hfinished ▸ hnew)
  · rw [htasks]
    exact h.ended

theorem traced_finished {task : QueueTask π} {o : Outcome ρ} (h : Traced s)
    (hw : s.queue.worker = .running task) :
    Traced { s with
      queue := { s.queue with
        worker := .finishing task o
        finished := s.queue.finished ++ [task]
        tasks := Function.update s.queue.tasks task.token
          (ComputeQueue.recordOutcome (s.queue.tasks task.token) o) }
      outcomes := s.outcomes ++ [(task, o)] } := by
  have hstarted : s.queue.started = s.queue.finished ++ [task] := by
    have hphase := h.phase
    simpa only [ComputeQueue.Phase, hw] using hphase
  have hmade : task ∈ s.queue.tasksMade := List.mem_append_left _ (by simp [hstarted])
  have hnew : task ∉ s.queue.finished := fun hmem => by
    have hdistinct := h.distinct
    rw [ComputeQueue.State.tasksMade, hstarted, List.append_assoc, List.map_append,
      List.nodup_append] at hdistinct
    exact hdistinct.2.2 _ (List.mem_map_of_mem hmem) _ (by simp) rfl
  have hne : ∀ x ∈ s.queue.tasksMade, x ≠ task → x.token ≠ task.token := fun x hx hxt he =>
    hxt (h.eq_of_token hx hmade he)
  refine ⟨h.below, h.distinct, h.pending, ⟨hstarted, by simp⟩, ?_,
    fun t ht => h.fresh_update hmade _ ht, fun x hx hx' => ?_, fun e he => ?_⟩
  · simp [h.handled]
  · simp only [List.mem_append, List.mem_singleton, not_or] at hx'
    simp only [Function.update_of_ne (hne x hx hx'.2)]
    exact h.untouched x hx hx'.1
  · rcases List.mem_append.mp he with he | he
    · have hmem : e.1 ∈ s.queue.finished := h.handled ▸ List.mem_map_of_mem he
      have : e.1 ≠ task := fun heq => hnew (heq ▸ hmem)
      simp only [Function.update_of_ne (hne e.1 (h.finished_made hmem) this)]
      exact h.ended e he
    · obtain rfl := List.mem_singleton.mp he
      simp only [Function.update_self]
      exact (h.untouched task hmade hnew).ended o

theorem traced_committed {task : QueueTask π} {o : Outcome ρ} {worker : ComputeQueue.Worker π ρ}
    (h : Traced s) (hw : s.queue.worker = .finishing task o)
    (hphase : ComputeQueue.Phase { s.queue with worker := worker }) :
    Traced { s with queue := { s.queue with
      completedToken := max s.queue.completedToken task.token
      tasks := Function.update s.queue.tasks task.token
        { s.queue.tasks task.token with done := true }
      pending := s.queue.pending.filter fun t =>
        decide (max s.queue.completedToken task.token < t.token)
      worker := worker } } := by
  have hfinished : task ∈ s.queue.finished := by
    have hphase := h.phase
    simp only [ComputeQueue.Phase, hw] at hphase
    exact hphase.2
  have hmade := h.finished_made hfinished
  refine ⟨h.below, h.distinct, fun x hx => h.pending x (List.mem_filter.mp hx).1, hphase,
    h.handled, fun t ht => h.fresh_update hmade _ ht, fun x hx hnew => ?_, fun e he => ?_⟩
  · have hne : x.token ≠ task.token := fun heq =>
      hnew (h.eq_of_token hx hmade heq ▸ hfinished)
    simp only [Function.update_of_ne hne]
    exact h.untouched x hx hnew
  · refine (h.ended e he).setDone ?_
    by_cases heq : e.1.token = task.token
    · simp [heq]
    · simp [Function.update_of_ne heq]

theorem traced_queue {a : Action π ρ} {queue : ComputeQueue.State π ρ} (h : Traced s)
    (hstep : ComputeQueue.step s.queue a = some queue) :
    Traced { s with queue := queue, outcomes := s.outcomes ++ handled s.queue a } := by
  have hphase := ComputeQueue.phase_step h.phase hstep
  rcases handled_step hstep with ⟨task, o, rfl, hw, hh⟩ | ⟨hh, -⟩
  · obtain ⟨task', hw', rfl⟩ := ComputeQueue.workerFinish_some hstep
    obtain rfl := ComputeQueue.Worker.running.inj (hw.symm.trans hw')
    rw [hh]
    exact traced_finished h hw
  · rw [hh, List.append_nil]
    cases ComputeQueue.stepped hstep with
    | submitted _ hsub => exact traced_submitted h hsub
    | resumed hq =>
      exact traced_perm h ((AsyncQueue.held_resumePut_perm hq).append_left s.queue.started) hphase
        ⟨rfl, rfl, rfl, rfl⟩
    | got _ hq =>
      refine traced_perm h ?_ hphase ⟨rfl, rfl, rfl, rfl⟩
      rw [ComputeQueue.State.tasksMade, List.append_assoc]
      exact (AsyncQueue.held_getNowait_perm hq).symm.append_left s.queue.started
    | refused | waitAdded | waitEnded | moved =>
      exact traced_perm h (List.Perm.refl _) hphase ⟨rfl, rfl, rfl, rfl⟩
    | finished hw => simp [handled, hw] at hh
    | committed hw => exact traced_committed h hw hphase

theorem traced_reap {accepting stop detached timedOut : Bool} (h : Traced s) :
    Traced (reap { s with
      queue := { s.queue with accepting := accepting, stop := stop }
      detached := detached } timedOut) := by
  obtain ⟨hframe, htasks⟩ :=
    reapLoop_tasks { s.queue with accepting, stop } 0 s.queue.pending
  generalize hq : (reapLoop { s.queue with accepting, stop } 0 s.queue.pending).2 = q
    at hframe htasks
  have hreap : (reapPending { s.queue with accepting, stop }).2 = { q with
      pending := s.queue.pending.filter fun t => decide (q.completedToken < t.token) } := by
    simp only [reapPending, hq]
    rw [hframe]
  -- a task that is written to was pending and had not ended
  have hwritten : ∀ x ∈ s.queue.tasksMade, q.tasks x.token = s.queue.tasks x.token ∨
      (s.queue.tasks x.token).done = false ∧ q.tasks x.token =
        ⟨true, some (shutdownDroppedError x), (s.queue.tasks x.token).result⟩ := by
    intro x hx
    refine (htasks x.token).imp_right ?_
    rintro ⟨hopen, y, hy, hyx, hset⟩
    obtain rfl := h.eq_of_token (h.pending y hy) hx hyx
    exact ⟨hopen, hset⟩
  have htraced : Traced { s with queue := { q with
      pending := s.queue.pending.filter fun t => decide (q.completedToken < t.token) } } := by
    rw [hframe]
    refine ⟨h.below, h.distinct, fun x hx => h.pending x (List.mem_filter.mp hx).1, h.phase,
      h.handled, fun t ht => ?_, fun x hx hnew => ?_, fun e he => ?_⟩
    · rcases htasks t with hsame | ⟨-, y, hy, hyt, -⟩
      · exact hsame.trans (h.fresh t ht)
      · have hlt := h.below y (h.pending y hy)
        have ht : s.queue.nextToken ≤ t := ht
        omega
    · rcases hwritten x hx with hsame | ⟨hopen, hset⟩
      · rw [hsame]
        exact h.untouched x hx hnew
      · refine .inr (hset.trans ?_)
        rcases h.untouched x hx hnew with hempty | hdropped
        · rw [hempty]
        · rw [hdropped] at hopen
          cases hopen
    · have hmade : e.1 ∈ s.queue.tasksMade :=
        h.finished_made (h.handled ▸ List.mem_map_of_mem he)
      rcases hwritten e.1 hmade with hsame | ⟨-, hset⟩
      · rw [hsame]
        exact h.ended e he
      · exact .inl (congrArg TaskState.error hset)
  exact htraced.congr hreap rfl

/-- Every step keeps the trace. -/
theorem traced_step (s : State π ρ) (a : Label π ρ) (t : State π ρ) (h : Traced s)
    (hstep : step s a = some t) : Traced t := by
  cases moved hstep with
  | queue hqueue => exact traced_queue h hqueue
  | flags =>
    exact ⟨h.below, h.distinct, h.pending, h.phase, h.handled, h.fresh, h.untouched, h.ended⟩
  | reaped => exact traced_reap h

/-- A task object never goes away. -/
theorem tasksMade_step {a : Label π ρ} {t : State π ρ} (hstep : step s a = some t)
    {x : QueueTask π} (hx : x ∈ s.queue.tasksMade) : x ∈ t.queue.tasksMade := by
  cases moved hstep with
  | queue hqueue => exact ComputeQueue.tasksMade_step hqueue hx
  | flags => exact hx
  | @reaped _ accepting stop =>
    have hframe := (reapLoop_tasks { s.queue with accepting, stop } 0 s.queue.pending).1
    show x ∈ (reapLoop { s.queue with accepting, stop } 0 s.queue.pending).2.started ++
      (reapLoop { s.queue with accepting, stop } 0 s.queue.pending).2.q.held
    rw [hframe]
    exact hx

end Traced

end GracefulDrain

end Trainfer
