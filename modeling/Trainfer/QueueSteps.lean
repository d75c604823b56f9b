import Trainfer.ComputeQueue

/-! What each action of the compute queue does to the state. The lemmas here are the only
place where the actions are unfolded; `stepped` puts them together, and an invariant is
a case analysis over it. -/

namespace Trainfer.ComputeQueue

universe u v
variable {π : Type u} {ρ : Type v}

theorem submit_ok {s s' : State π ρ} {kind batchId : String} {payload : π} {now : Nat}
    {task : QueueTask π} {st : AsyncQueue.PutStatus}
    (h : submit s kind payload batchId now = .ok (task, st, s')) :
    s.accepting = true ∧ task = ⟨s.nextToken, kind, payload, batchId⟩ ∧
      st = (s.q.put task).2 ∧
      s' = { s with
        nextToken := s.nextToken + 1
        pending := s.pending ++ [task]
        lastEnqueueTs := now
        q := (s.q.put task).1 } := by
  unfold submit at h
  split at h
  · obtain ⟨rfl, rfl, rfl⟩ := h
    exact ⟨by assumption, rfl, rfl, rfl⟩
  · cases h

theorem trySubmit_ok {s s' : State π ρ} {kind batchId : String} {payload : π} {now : Nat}
    {task : QueueTask π} {st : AsyncQueue.PutStatus}
    (h : trySubmit s kind payload batchId now = .ok (task, st, s')) :
    s.q.full = false ∧ submit s kind payload batchId now = .ok (task, st, s') := by
  unfold trySubmit at h
  split at h
  · cases h
  · rename_i hf
    exact ⟨by simpa using hf, h⟩

/-- A `try_submit` that goes through finds room, so its `put` does not suspend. -/
theorem trySubmit_enqueues {s s' : State π ρ} {kind batchId : String} {payload : π} {now : Nat}
    {task : QueueTask π} {st : AsyncQueue.PutStatus}
    (h : trySubmit s kind payload batchId now = .ok (task, st, s')) :
    s.accepting = true ∧ s.q.full = false ∧ st = .done ∧
      task = ⟨s.nextToken, kind, payload, batchId⟩ ∧
      s' = { s with
        nextToken := s.nextToken + 1
        pending := s.pending ++ [task]
        lastEnqueueTs := now
        q := { s.q with items := s.q.items ++ [task] } } := by
  obtain ⟨hf, h⟩ := trySubmit_ok h
  obtain ⟨hacc, htask, hst, hs'⟩ := submit_ok h
  rw [AsyncQueue.put_not_full s.q task hf] at hst hs'
  exact ⟨hacc, hf, hst, htask, hs'⟩

/-- A submission touches the queue and what counts its tasks, if it goes through. -/
theorem afterSubmit_submit (s : State π ρ) (kind batchId : String) (payload : π) (now : Nat) :
    ∃ nextToken pending ts q, afterSubmit s (submit s kind payload batchId now) =
      { s with nextToken := nextToken, pending := pending, lastEnqueueTs := ts, q := q } := by
  cases hsub : submit s kind payload batchId now with
  | error e => exact ⟨s.nextToken, s.pending, s.lastEnqueueTs, s.q, rfl⟩
  | ok r =>
    obtain ⟨_, _, _, hs'⟩ := submit_ok hsub
    exact ⟨_, _, _, _, hs'⟩

theorem afterSubmit_trySubmit (s : State π ρ) (kind batchId : String) (payload : π) (now : Nat) :
    ∃ nextToken pending ts q, afterSubmit s (trySubmit s kind payload batchId now) =
      { s with nextToken := nextToken, pending := pending, lastEnqueueTs := ts, q := q } := by
  unfold trySubmit
  split
  · exact ⟨s.nextToken, s.pending, s.lastEnqueueTs, s.q, rfl⟩
  · exact afterSubmit_submit s kind batchId payload now

theorem trySubmit_of_not_full {s : State π ρ} (hacc : s.accepting = true)
    (hf : s.q.full = false) (kind batchId : String) (payload : π) (now : Nat) :
    ∃ r, trySubmit s kind payload batchId now = .ok r := by
  simp [trySubmit, submit, hacc, hf]

theorem trySubmit_error {s : State π ρ} (h : s.accepting = false ∨ s.q.full = true)
    (kind batchId : String) (payload : π) (now : Nat) :
    ∃ e, trySubmit s kind payload batchId now = .error e := by
  unfold trySubmit submit
  rcases h with h | h
  · cases s.q.full <;> simp [h]
  · simp [h]

theorem waitStart_returned {s : State π ρ} {token : Int} {r : WaitResult ρ}
    (h : waitStart s token = .returned r) : token ≤ s.completedToken := by
  unfold waitStart at h
  split at h
  · cases h
  · split at h
    · assumption
    · cases h

theorem waitResume_some {s s' : State π ρ} {i : Nat} (h : waitResume s i = some s') :
    ∃ token kind, s.waits[i]? = some ⟨token, .blocked kind⟩ ∧ (s.tasks token).done = true ∧
      s' = { s with waits := s.waits.set i ⟨token, .returned (waitResult s token kind)⟩ } := by
  unfold waitResume at h
  split at h
  · rename_i token kind hw
    split at h
    · rename_i hd
      exact ⟨token, kind, hw, hd, (Option.some.inj h).symm⟩
    · cases h
  · cases h

theorem waitTimeout_some {s s' : State π ρ} {i : Nat} (h : waitTimeout s i = some s') :
    ∃ token kind, s.waits[i]? = some ⟨token, .blocked kind⟩ ∧
      s' = { s with waits := s.waits.set i ⟨token, .failed ⟨.asyncioTimeout, ""⟩⟩ } := by
  unfold waitTimeout at h
  split at h
  · rename_i token kind hw
    exact ⟨token, kind, hw, (Option.some.inj h).symm⟩
  · cases h

theorem start_some {s s' : State π ρ} (h : start s = some s') :
    s.worker = .notStarted ∧ s' = { s with worker := .loop } := by
  unfold start at h
  split at h
  · rename_i hw
    exact ⟨hw, (Option.some.inj h).symm⟩
  · cases h

theorem workerLoop_some {s s' : State π ρ} (h : workerLoop s = some s') :
    s.worker = .loop ∧
      (s' = { s with worker := .exited } ∨ s' = { s with worker := .getting }) := by
  unfold workerLoop at h
  split at h
  · rename_i hw
    refine ⟨hw, ?_⟩
    split at h
    · exact .inl (Option.some.inj h).symm
    · split at h
      · exact .inl (Option.some.inj h).symm
      · exact .inr (Option.some.inj h).symm
  · cases h

theorem workerGetTimeout_some {s s' : State π ρ} (h : workerGetTimeout s = some s') :
    s.worker = .getting ∧ s' = { s with worker := .loop } := by
  unfold workerGetTimeout at h
  split at h
  · rename_i hw
    exact ⟨hw, (Option.some.inj h).symm⟩
  · cases h

theorem workerGet_some {s s' : State π ρ} (h : workerGet s = some s') :
    ∃ task q, s.worker = .getting ∧ s.q.getNowait = some (task, q) ∧
      s' = { s with q := q, worker := .running task, started := s.started ++ [task] } := by
  unfold workerGet at h
  split at h
  · rename_i task q hw hq
    exact ⟨task, q, hw, hq, (Option.some.inj h).symm⟩
  · cases h

theorem workerFinish_some {s s' : State π ρ} {o : Outcome ρ} (h : workerFinish s o = some s') :
    ∃ task, s.worker = .running task ∧
      s' = { s with
        worker := .finishing task o
        finished := s.finished ++ [task]
        tasks := Function.update s.tasks task.token (recordOutcome (s.tasks task.token) o) } := by
  unfold workerFinish at h
  split at h
  · rename_i task hw
    exact ⟨task, hw, (Option.some.inj h).symm⟩
  · cases h

theorem workerCommit_some {s s' : State π ρ} (h : workerCommit s = some s') :
    ∃ task o, s.worker = .finishing task o ∧
      s' = { s with
        completedToken := max s.completedToken task.token
        tasks := Function.update s.tasks task.token { s.tasks task.token with done := true }
        pending := s.pending.filter fun t => decide (max s.completedToken task.token < t.token)
        worker := match o with
          | .baseRaised _ => .exited
          | _ => .loop } := by
  unfold workerCommit at h
  split at h
  · rename_i task o hw
    exact ⟨task, o, hw, (Option.some.inj h).symm⟩
  · cases h

/-- The effect of an action. The guards that no invariant reads are left out. -/
inductive Stepped (s : State π ρ) : Action π ρ → State π ρ → Prop
  /-- A submit that raises. -/
  | refused {a} : Stepped s a s
  | submitted {a s' kind batchId payload now task st}
      (ha : a = .submit kind payload batchId now ∨
        a = .trySubmit kind payload batchId now ∧ s.q.full = false)
      (h : submit s kind payload batchId now = .ok (task, st, s')) : Stepped s a s'
  | resumed {i q} (hq : s.q.resumePut i = some q) : Stepped s (.resumePut i) { s with q := q }
  | waitAdded {a w} : Stepped s a { s with waits := s.waits ++ [w] }
  /-- A blocked `wait_for` returns, or times out. -/
  | waitEnded {a i token kind status} (hi : s.waits[i]? = some ⟨token, .blocked kind⟩)
      (hend : (∃ r, status = .returned r) ∨ a = .waitTimeout i) :
      Stepped s a { s with waits := s.waits.set i ⟨token, status⟩ }
  /-- The worker moves without touching a task. -/
  | moved {a w} (hw : ∀ task o, s.worker ≠ .finishing task o) : Stepped s a { s with worker := w }
  | got {task q} (hw : s.worker = .getting) (hq : s.q.getNowait = some (task, q)) :
      Stepped s .workerGet
        { s with q := q, worker := .running task, started := s.started ++ [task] }
  | finished {o task} (hw : s.worker = .running task) :
      Stepped s (.workerFinish o) { s with
        worker := .finishing task o
        finished := s.finished ++ [task]
        tasks := Function.update s.tasks task.token (recordOutcome (s.tasks task.token) o) }
  | committed {task o w} (hw : s.worker = .finishing task o) :
      Stepped s .workerCommit { s with
        completedToken := max s.completedToken task.token
        tasks := Function.update s.tasks task.token { s.tasks task.token with done := true }
        pending := s.pending.filter fun t => decide (max s.completedToken task.token < t.token)
        worker := w }

/-- **Inversion of a step.** -/
theorem stepped {s s' : State π ρ} {a : Action π ρ} (h : step s a = some s') :
    Stepped s a s' := by
  cases a with
  | submit kind payload batchId now =>
    obtain rfl := Option.some.inj h
    cases hr : submit s kind payload batchId now with
    | error e => exact .refused
    | ok r => exact .submitted (.inl rfl) hr
  | trySubmit kind payload batchId now =>
    obtain rfl := Option.some.inj h
    cases hr : trySubmit s kind payload batchId now with
    | error e => exact .refused
    | ok r =>
      obtain ⟨hfull, hsub⟩ := trySubmit_ok hr
      exact .submitted (.inr ⟨rfl, hfull⟩) hsub
  | resumePut i =>
    obtain ⟨q, hq, rfl⟩ := Option.map_eq_some_iff.mp h
    exact .resumed hq
  | waitFor token =>
    obtain rfl := Option.some.inj h
    exact .waitAdded
  | waitForTask i =>
    obtain ⟨task, _, rfl⟩ := Option.map_eq_some_iff.mp h
    exact .waitAdded
  | waitResume i =>
    obtain ⟨token, kind, hi, _, rfl⟩ := waitResume_some h
    exact .waitEnded hi (.inl ⟨_, rfl⟩)
  | waitTimeout i =>
    obtain ⟨token, kind, hi, rfl⟩ := waitTimeout_some h
    exact .waitEnded hi (.inr rfl)
  | start =>
    obtain ⟨hw, rfl⟩ := start_some h
    exact .moved (by simp [hw])
  | workerLoop =>
    obtain ⟨hw, rfl | rfl⟩ := workerLoop_some h
    · exact .moved (by simp [hw])
    · exact .moved (by simp [hw])
  | workerGet =>
    obtain ⟨task, q, hw, hq, rfl⟩ := workerGet_some h
    exact .got hw hq
  | workerGetTimeout =>
    obtain ⟨hw, rfl⟩ := workerGetTimeout_some h
    exact .moved (by simp [hw])
  | workerFinish o =>
    obtain ⟨task, hw, rfl⟩ := workerFinish_some h
    exact .finished hw
  | workerCommit =>
    obtain ⟨task, o, hw, rfl⟩ := workerCommit_some h
    exact .committed hw

end Trainfer.ComputeQueue
