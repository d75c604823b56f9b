import Trainfer.QueueSteps
import Trainfer.Lib.Runs
import Mathlib

/-! What the commit cursor covers.

`Accounted` collects what every run keeps: each issued token is with the worker, in
the queue or with a suspended submitter, and a waiter only returns once the cursor
has passed its token. That is not enough for the cursor to mean anything about
*earlier* tokens, because a submitter that finds a freed slot may overtake one that
was woken for it. `commitSafe_of_inOrder` shows that overtaking is the only way to
lose the guarantee, and `commit_cursor_unsafe` exhibits a run that does. -/

namespace Trainfer.ComputeQueue

universe u v
variable {π : Type u} {ρ : Type v}

/-! ## The guarantee -/

/-- The cursor, and every `wait_for` that returned, covers finished tasks only, and
the handler is called in token order. -/
structure CommitSafe (s : State π ρ) : Prop where
  cursor : ∀ t, s.Issued t → t ≤ s.committed →
    ∀ u, s.Issued u → u ≤ t → ∃ x ∈ s.finished, x.token = u
  waited : ∀ w ∈ s.waits, ∀ r, w.status = .returned r → s.Issued w.token →
    ∀ u, s.Issued u → u ≤ w.token → ∃ x ∈ s.finished, x.token = u
  ordered : s.started.Pairwise fun x y => x.token < y.token

/-- No action lets a task into the queue past a suspended submitter with a smaller
token: a new submit finds the queue full or nobody suspended, and a woken submitter
finds it full again or is the oldest one suspended. -/
def InOrder (s : State π ρ) : Action π ρ → Prop
  | .submit .. | .trySubmit .. => s.q.full = true ∨ s.q.suspended = []
  | .resumePut i => s.q.full = true ∨
      ∀ x, s.q.woken[i]? = some x →
        ∀ y ∈ s.q.putters ++ s.q.woken.eraseIdx i, x.token < y.token
  | _ => True

/-! ## What every run keeps -/

/-- The handler has been called on the finished tasks and on the one in hand. -/
def Phase (s : State π ρ) : Prop :=
  match s.worker with
  | .running task => s.started = s.finished ++ [task]
  | .finishing task _ => s.started = s.finished ∧ task ∈ s.finished
  | _ => s.started = s.finished

structure Accounted (s : State π ρ) : Prop where
  cursor_low : -1 ≤ s.completedToken
  cursor_high : s.completedToken < s.nextToken
  made : ∀ t, s.Issued t ↔ ∃ x ∈ s.tasksMade, x.token = t
  awaited : ∀ t, s.Issued t → t ≤ s.completedToken ∨ ∃ x ∈ s.pending, x.token = t
  done_le : ∀ t, (s.tasks t).done = true → t ≤ s.completedToken
  returned_le : ∀ w ∈ s.waits, ∀ r, w.status = .returned r → w.token ≤ s.completedToken
  phase : Phase s
  reached : s.completedToken = -1 ∨ ∃ x ∈ s.finished, x.token = s.completedToken

theorem accounted_init (maxDepth : Int) : Accounted (init maxDepth : State π ρ) where
  cursor_low := by simp [init]
  cursor_high := by simp [init]
  made := by
    intro t
    simp only [State.Issued, State.tasksMade, init, AsyncQueue.init_held]
    constructor
    · intro h
      omega
    · simp
  awaited := by
    intro t h
    simp only [State.Issued, init] at h
    omega
  done_le := by simp [init]
  returned_le := by simp [init]
  phase := rfl
  reached := .inl rfl

theorem Phase.finished_prefix {s : State π ρ} (h : Phase s) : s.finished <+: s.started := by
  unfold Phase at h
  split at h
  · rw [h]
    exact List.prefix_append s.finished _
  · rw [h.1]
  · rw [h]

/-- Every task the handler was called on is finished or in the worker's hand. -/
theorem Phase.finished_subset {s : State π ρ} (h : Phase s) : ∀ x ∈ s.finished, x ∈ s.started :=
  h.finished_prefix.subset

theorem accounted_submit {s s' : State π ρ} {kind batchId : String} {payload : π} {now : Nat}
    {task : QueueTask π} {st : AsyncQueue.PutStatus} (hi : Accounted s)
    (h : submit s kind payload batchId now = .ok (task, st, s')) : Accounted s' := by
  obtain ⟨_, htask, _, rfl⟩ := submit_ok h
  have htok : task.token = s.nextToken := by rw [htask]
  have hlow := hi.cursor_low
  have hhigh := hi.cursor_high
  refine ⟨hlow, by simp only; omega, ?_, ?_, hi.done_le, hi.returned_le, hi.phase, hi.reached⟩
  · intro t
    have hm := hi.made t
    simp only [State.Issued, State.tasksMade, List.mem_append, AsyncQueue.mem_held_put] at hm ⊢
    constructor
    · intro ht
      by_cases h' : t = s.nextToken
      · exact ⟨task, .inr (.inr rfl), by omega⟩
      · obtain ⟨x, hx, hxt⟩ := hm.mp (by omega)
        exact ⟨x, by tauto, hxt⟩
    · rintro ⟨x, hx, rfl⟩
      rcases (by tauto : (x ∈ s.started ∨ x ∈ s.q.held) ∨ x = task) with hx | rfl
      · have := hm.mpr ⟨x, hx, rfl⟩
        omega
      · omega
  · intro t ht
    simp only [State.Issued] at ht
    by_cases h' : t = s.nextToken
    · exact .inr ⟨task, by simp, by omega⟩
    · rcases hi.awaited t ⟨ht.1, by omega⟩ with h | ⟨x, hx, hxt⟩
      · exact .inl h
      · exact .inr ⟨x, by simp [hx], hxt⟩

theorem accounted_afterSubmit {s : State π ρ} (hi : Accounted s) (kind batchId : String)
    (payload : π) (now : Nat) :
    Accounted (afterSubmit s (submit s kind payload batchId now)) := by
  cases h : submit s kind payload batchId now with
  | error e => exact hi
  | ok r => exact accounted_submit hi h

theorem accounted_resumePut {s s' : State π ρ} {i : Nat} (hi : Accounted s)
    (h : resumePut s i = some s') : Accounted s' := by
  obtain ⟨q, hq, rfl⟩ := Option.map_eq_some_iff.mp h
  refine ⟨hi.cursor_low, hi.cursor_high, fun t => ?_, hi.awaited, hi.done_le, hi.returned_le,
    hi.phase, hi.reached⟩
  have hm := hi.made t
  simp only [State.Issued, State.tasksMade, List.mem_append,
    AsyncQueue.mem_held_resumePut hq] at hm ⊢
  exact hm

/-- Recording a `wait_for` that has not returned, or has returned on a token the
cursor has passed, changes nothing else. -/
theorem Accounted.withWaits {s : State π ρ} (hi : Accounted s) {ws : List (WaitCall ρ)}
    (hw : ∀ w ∈ ws, ∀ r, w.status = .returned r → w.token ≤ s.completedToken) :
    Accounted { s with waits := ws } :=
  ⟨hi.cursor_low, hi.cursor_high, hi.made, hi.awaited, hi.done_le, hw, hi.phase, hi.reached⟩

theorem accounted_waitFor {s : State π ρ} (hi : Accounted s) (token : Int) :
    Accounted (waitFor s token) := by
  refine hi.withWaits fun w hw r hr => ?_
  rcases List.mem_append.mp hw with hw | hw
  · exact hi.returned_le w hw r hr
  · obtain rfl := List.mem_singleton.mp hw
    exact waitStart_returned hr

theorem accounted_waitForTask {s s' : State π ρ} {i : Nat} (hi : Accounted s)
    (h : waitForTask s i = some s') : Accounted s' := by
  obtain ⟨task, _, rfl⟩ := Option.map_eq_some_iff.mp h
  refine hi.withWaits fun w hw r hr => ?_
  rcases List.mem_append.mp hw with hw | hw
  · exact hi.returned_le w hw r hr
  · obtain rfl := List.mem_singleton.mp hw
    cases hr

theorem accounted_waitResume {s s' : State π ρ} {i : Nat} (hi : Accounted s)
    (h : waitResume s i = some s') : Accounted s' := by
  obtain ⟨token, kind, _, hd, rfl⟩ := waitResume_some h
  refine hi.withWaits fun w hw r hr => ?_
  rcases List.mem_or_eq_of_mem_set hw with hw | rfl
  · exact hi.returned_le w hw r hr
  · exact hi.done_le token hd

theorem accounted_waitTimeout {s s' : State π ρ} {i : Nat} (hi : Accounted s)
    (h : waitTimeout s i = some s') : Accounted s' := by
  obtain ⟨token, kind, _, rfl⟩ := waitTimeout_some h
  refine hi.withWaits fun w hw r hr => ?_
  rcases List.mem_or_eq_of_mem_set hw with hw | rfl
  · exact hi.returned_le w hw r hr
  · cases hr

/-- Moving the worker without touching a task keeps everything but the phase. -/
theorem Accounted.withWorker {s : State π ρ} (hi : Accounted s) {w : Worker π ρ}
    (hp : Phase { s with worker := w }) : Accounted { s with worker := w } :=
  ⟨hi.cursor_low, hi.cursor_high, hi.made, hi.awaited, hi.done_le, hi.returned_le, hp,
    hi.reached⟩

theorem accounted_start {s s' : State π ρ} (hi : Accounted s) (h : start s = some s') :
    Accounted s' := by
  obtain ⟨hw, rfl⟩ := start_some h
  have hp := hi.phase
  exact hi.withWorker (by simpa [Phase, hw] using hp)

theorem accounted_workerLoop {s s' : State π ρ} (hi : Accounted s)
    (h : workerLoop s = some s') : Accounted s' := by
  have hp := hi.phase
  obtain ⟨hw, rfl | rfl⟩ := workerLoop_some h
  · exact hi.withWorker (by simpa [Phase, hw] using hp)
  · exact hi.withWorker (by simpa [Phase, hw] using hp)

theorem accounted_workerGetTimeout {s s' : State π ρ} (hi : Accounted s)
    (h : workerGetTimeout s = some s') : Accounted s' := by
  obtain ⟨hw, rfl⟩ := workerGetTimeout_some h
  have hp := hi.phase
  exact hi.withWorker (by simpa [Phase, hw] using hp)

theorem accounted_workerGet {s s' : State π ρ} (hi : Accounted s)
    (h : workerGet s = some s') : Accounted s' := by
  obtain ⟨task, q, hw, hq, rfl⟩ := workerGet_some h
  have hp := hi.phase
  refine ⟨hi.cursor_low, hi.cursor_high, fun t => ?_, hi.awaited, hi.done_le, hi.returned_le, ?_,
    hi.reached⟩
  · have hm := hi.made t
    simp only [State.Issued, State.tasksMade, List.mem_append, List.mem_singleton,
      AsyncQueue.mem_held_getNowait hq] at hm ⊢
    rw [hm]
    constructor <;> rintro ⟨x, hx, hxt⟩ <;> exact ⟨x, by tauto, hxt⟩
  · simp only [Phase, hw] at hp ⊢
    rw [hp]

@[simp] theorem recordOutcome_done (ts : TaskState ρ) (o : Outcome ρ) :
    (recordOutcome ts o).done = ts.done := by
  cases o <;> rfl

theorem accounted_workerFinish {s s' : State π ρ} {o : Outcome ρ} (hi : Accounted s)
    (h : workerFinish s o = some s') : Accounted s' := by
  obtain ⟨task, hw, rfl⟩ := workerFinish_some h
  have hp := hi.phase
  refine ⟨hi.cursor_low, hi.cursor_high, hi.made, hi.awaited, fun t ht => hi.done_le t ?_,
    hi.returned_le, ?_, ?_⟩
  · by_cases he : t = task.token
    · subst he
      simpa using ht
    · simpa [Function.update_of_ne he] using ht
  · simp only [Phase, hw] at hp ⊢
    exact ⟨hp, by simp⟩
  · rcases hi.reached with h | ⟨x, hx, hxt⟩
    · exact .inl h
    · exact .inr ⟨x, by simp [hx], hxt⟩

theorem accounted_workerCommit {s s' : State π ρ} (hi : Accounted s)
    (h : workerCommit s = some s') : Accounted s' := by
  obtain ⟨task, o, hw, rfl⟩ := workerCommit_some h
  have hlow := hi.cursor_low
  have hhigh := hi.cursor_high
  have hp := hi.phase
  simp only [Phase, hw] at hp
  have hissued : s.Issued task.token :=
    (hi.made task.token).mpr ⟨task, by simp [State.tasksMade, hp.1, hp.2], rfl⟩
  refine ⟨by simp only; omega, ?_, hi.made, fun t ht => ?_, fun t ht => ?_, fun w hwm r hr => ?_,
    ?_, ?_⟩
  · have := hissued.2
    simp only
    omega
  · by_cases hle : t ≤ max s.completedToken task.token
    · exact .inl hle
    · rcases hi.awaited t ht with h | ⟨x, hx, hxt⟩
      · exact absurd (le_trans h (le_max_left _ _)) hle
      · refine .inr ⟨x, List.mem_filter.mpr ⟨hx, ?_⟩, hxt⟩
        rw [hxt]
        exact decide_eq_true (not_le.mp hle)
  · by_cases he : t = task.token
    · exact he ▸ le_max_right _ _
    · refine le_trans (hi.done_le t ?_) (le_max_left _ _)
      simpa [Function.update_of_ne he] using ht
  · exact le_trans (hi.returned_le w hwm r hr) (le_max_left _ _)
  · cases o <;> exact hp.1
  · simp only
    rcases max_choice s.completedToken task.token with h | h
    · rw [h]
      exact hi.reached
    · exact .inr ⟨task, hp.2, h.symm⟩

/-- Step lemma: every action keeps the accounts. -/
theorem accounted_step (s : State π ρ) (a : Action π ρ) (s' : State π ρ) (hi : Accounted s)
    (h : step s a = some s') : Accounted s' := by
  cases a with
  | submit kind payload batchId now =>
    obtain rfl := Option.some.inj h
    exact accounted_afterSubmit hi kind batchId payload now
  | trySubmit kind payload batchId now =>
    obtain rfl := Option.some.inj h
    cases hr : trySubmit s kind payload batchId now with
    | error e => exact hi
    | ok r => exact accounted_submit hi (trySubmit_ok hr).2
  | resumePut i => exact accounted_resumePut hi h
  | waitFor token =>
    obtain rfl := Option.some.inj h
    exact accounted_waitFor hi token
  | waitForTask i => exact accounted_waitForTask hi h
  | waitResume i => exact accounted_waitResume hi h
  | waitTimeout i => exact accounted_waitTimeout hi h
  | start => exact accounted_start hi h
  | workerLoop => exact accounted_workerLoop hi h
  | workerGet => exact accounted_workerGet hi h
  | workerGetTimeout => exact accounted_workerGetTimeout hi h
  | workerFinish o => exact accounted_workerFinish hi h
  | workerCommit => exact accounted_workerCommit hi h

/-- Run lemma: the accounts hold in every reachable state. -/
theorem accounted_run {maxDepth : Int} {as : List (Action π ρ)} {s : State π ρ}
    (h : Runs.exec step (init maxDepth) as = some s) : Accounted s :=
  Runs.exec_preserves accounted_step (accounted_init maxDepth) h

/-- A task object never goes away. -/
theorem tasksMade_step {s s' : State π ρ} {a : Action π ρ} (h : step s a = some s')
    {x : QueueTask π} (hx : x ∈ s.tasksMade) : x ∈ s'.tasksMade := by
  cases stepped h with
  | submitted _ hsub =>
    obtain ⟨_, _, _, rfl⟩ := submit_ok hsub
    simp only [State.tasksMade, List.mem_append, AsyncQueue.mem_held_put] at hx ⊢
    tauto
  | resumed hq =>
    simpa only [State.tasksMade, List.mem_append, AsyncQueue.mem_held_resumePut hq] using hx
  | got _ hq =>
    simp only [State.tasksMade, List.mem_append, List.mem_singleton,
      AsyncQueue.mem_held_getNowait hq] at hx ⊢
    tauto
  | refused | waitAdded | waitEnded | moved | finished | committed => exact hx

/-- The cursor never goes back. -/
theorem committed_le_step {s s' : State π ρ} {a : Action π ρ} (h : step s a = some s') :
    s.committed ≤ s'.committed := by
  cases stepped h with
  | submitted _ hsub =>
    obtain ⟨_, _, _, rfl⟩ := submit_ok hsub
    exact le_refl _
  | committed => exact le_max_left _ _
  | refused | resumed | waitAdded | waitEnded | moved | got | finished => exact le_refl _

/-- A recorded `wait_for` stays as it is, except that a blocked one may return or time
out. -/
theorem waits_step {s s' : State π ρ} {a : Action π ρ} (h : step s a = some s') {i : Nat}
    {w : WaitCall ρ} (hw : s.waits[i]? = some w) :
    ∃ w', s'.waits[i]? = some w' ∧ w'.token = w.token ∧
      (w' = w ∨ (∃ r, w'.status = .returned r) ∨ a = .waitTimeout i) := by
  have hlt : i < s.waits.length := (List.getElem?_eq_some_iff.mp hw).1
  cases stepped h with
  | submitted _ hsub =>
    obtain ⟨_, _, _, rfl⟩ := submit_ok hsub
    exact ⟨w, hw, rfl, .inl rfl⟩
  | waitAdded => exact ⟨w, (List.getElem?_append_left hlt).trans hw, rfl, .inl rfl⟩
  | @waitEnded _ j token kind status hj hend =>
    by_cases hij : j = i
    · subst hij
      obtain rfl := Option.some.inj (hw.symm.trans hj)
      exact ⟨_, List.getElem?_set_self hlt, rfl, .inr hend⟩
    · exact ⟨w, by rw [List.getElem?_set_ne hij, hw], rfl, .inl rfl⟩
  | refused | resumed | moved | got | finished | committed => exact ⟨w, hw, rfl, .inl rfl⟩

/-! ## Token order -/

/-- Started tasks, then queued ones, then suspended ones, by token. -/
def Lined (s : State π ρ) : Prop :=
  AsyncQueue.InLine (fun x y => x.token < y.token) s.started s.q

theorem lined_submit {s s' : State π ρ} {kind batchId : String} {payload : π} {now : Nat}
    {task : QueueTask π} {st : AsyncQueue.PutStatus} (hi : Accounted s) (hl : Lined s)
    (hg : s.q.full = true ∨ s.q.suspended = [])
    (h : submit s kind payload batchId now = .ok (task, st, s')) : Lined s' := by
  obtain ⟨_, htask, _, rfl⟩ := submit_ok h
  refine AsyncQueue.InLine.put hl (fun y hy => ?_) hg
  -- the new token is larger than every token issued before
  have hmade : y ∈ s.tasksMade := by
    simp only [State.tasksMade, AsyncQueue.held, List.mem_append] at hy ⊢
    tauto
  have := ((hi.made y.token).mpr ⟨y, hmade, rfl⟩).2
  rw [htask]
  exact this

theorem lined_step {s s' : State π ρ} {a : Action π ρ} (hi : Accounted s) (hl : Lined s)
    (hg : InOrder s a) (h : step s a = some s') : Lined s' := by
  cases stepped h with
  | submitted ha hsub =>
    rcases ha with rfl | ⟨rfl, _⟩
    · exact lined_submit hi hl hg hsub
    · exact lined_submit hi hl hg hsub
  | resumed hq => exact AsyncQueue.InLine.resumePut hl hq hg
  | got _ hq => exact AsyncQueue.InLine.getNowait hl hq
  | refused | waitAdded | waitEnded | moved | finished | committed => exact hl

/-- If the line is kept, every task up to the cursor is finished: it cannot be suspended
or queued, for then it would be larger than the cursor's own task. -/
theorem mem_finished_of_le_cursor {s : State π ρ} (hi : Accounted s) (hl : Lined s)
    {x : QueueTask π} (hx : x ∈ s.tasksMade) (hle : x.token ≤ s.completedToken) :
    x ∈ s.finished := by
  have hissued := (hi.made x.token).mpr ⟨x, hx, rfl⟩
  obtain ⟨c, hc, hct⟩ := hi.reached.resolve_left (by have := hissued.1; omega)
  have hcs : c ∈ s.started := hi.phase.finished_subset c hc
  have hsort := List.pairwise_append.mp hl.sorted
  simp only [State.tasksMade, AsyncQueue.held, List.mem_append] at hx
  rcases hx with hx | hx | hx
  · have hp := hi.phase
    unfold Phase at hp
    split at hp
    · rename_i task hw
      rw [hp, List.mem_append, List.mem_singleton] at hx
      rcases hx with hx | rfl
      · exact hx
      · -- the running task comes after everything finished
        have hs := hsort.1
        rw [hp] at hs
        have := (List.pairwise_append.mp hs).2.2 c hc x (List.mem_singleton.mpr rfl)
        omega
    · exact hp.1 ▸ hx
    · exact hp ▸ hx
  · have := hsort.2.2 c hcs x hx
    omega
  · have := hl.behind c (List.mem_append_left _ hcs) x hx
    omega

theorem finished_of_le_cursor {s : State π ρ} (hi : Accounted s) (hl : Lined s) {u : Int}
    (hu : s.Issued u) (hle : u ≤ s.completedToken) : ∃ x ∈ s.finished, x.token = u := by
  obtain ⟨x, hx, rfl⟩ := (hi.made u).mp hu
  exact ⟨x, mem_finished_of_le_cursor hi hl hx hle, rfl⟩

theorem commitSafe_of_lined {s : State π ρ} (hi : Accounted s) (hl : Lined s) : CommitSafe s where
  cursor := fun _ _ hle _ hu hut => finished_of_le_cursor hi hl hu (le_trans hut hle)
  waited := fun w hw r hr _ _ hu hut =>
    finished_of_le_cursor hi hl hu (le_trans hut (hi.returned_le w hw r hr))
  ordered := (List.pairwise_append.mp hl.sorted).1

/-- **Commit-cursor safety.** In a run in which nobody overtakes a suspended
submitter, the cursor never covers an issued task that has not run. -/
theorem commitSafe_of_inOrder {maxDepth : Int} {as : List (Action π ρ)} {s : State π ρ}
    (hrun : Runs.exec step (init maxDepth) as = some s)
    (hord : Runs.Meets step InOrder (init maxDepth) as) : CommitSafe s := by
  have h : Accounted s ∧ Lined s :=
    Runs.exec_invariant (I := fun s => Accounted s ∧ Lined s)
      (fun s a t hs hg ht => ⟨accounted_step s a t hs.1 ht, lined_step hs.1 hs.2 hg ht⟩)
      ⟨accounted_init maxDepth, AsyncQueue.inLine_init maxDepth⟩ hrun hord
  exact commitSafe_of_lined h.1 h.2

/-- Two submitters on a queue of depth one, the second suspended in `put`: the worker
takes the first task, the woken submitter enters, and both tasks are committed. -/
def orderlyRun : List (Action Unit Unit) :=
  [.submit "merge" () "" 0, .submit "merge" () "" 0, .start, .workerLoop, .workerGet,
    .resumePut 0, .workerFinish (.returned ()), .workerCommit, .workerLoop, .workerGet,
    .workerFinish (.returned ()), .workerCommit, .waitFor 0]

theorem orderlyRun_safe :
    ∃ s, Runs.exec step (init 1 : State Unit Unit) orderlyRun = some s ∧ s.committed = 1 ∧
      CommitSafe s := by
  refine ⟨_, rfl, rfl, @commitSafe_of_inOrder Unit Unit 1 orderlyRun _ rfl ?_⟩
  refine .cons (.inr rfl) rfl (.cons (.inl rfl) rfl (.cons trivial rfl (.cons trivial rfl
    (.cons trivial rfl (.cons (.inr ?_) rfl (.cons trivial rfl (.cons trivial rfl
    (.cons trivial rfl (.cons trivial rfl (.cons trivial rfl (.cons trivial rfl
    (.cons trivial rfl trivial))))))))))))
  intro x _ y hy
  change y ∈ [] at hy
  cases hy

/-- A `merge` is suspended in `put` behind token 0; the worker's `get` wakes it, but
a train batch arrives before it resumes and takes the slot. -/
def overtakenRun : List (Action Unit Unit) :=
  [.submit "train" () "" 0, .submit "merge" () "" 0, .start, .workerLoop, .workerGet,
    .trySubmit "train" () "" 0, .resumePut 0, .workerFinish (.returned ()), .workerCommit,
    .workerLoop, .workerGet, .workerFinish (.returned ()), .workerCommit, .waitFor 1]

/-- After `overtakenRun` the cursor is 2 and `wait_for(1)` returned at once, although
the handler was never called on task 1. -/
theorem commit_cursor_unsafe :
    ¬ ∀ (maxDepth : Int) (as : List (Action Unit Unit)) (s : State Unit Unit), 0 < maxDepth →
      Runs.exec step (init maxDepth) as = some s → CommitSafe s := by
  intro h
  have hs := h 1 overtakenRun _ (by decide) rfl
  obtain ⟨x, hx, hxt⟩ := hs.cursor 1 (by decide) (by decide) 1 (by decide) (by decide)
  revert x
  decide

end Trainfer.ComputeQueue
