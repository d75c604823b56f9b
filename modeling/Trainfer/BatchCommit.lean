import Trainfer.TrainBatch

/-! One commit token for a whole batch.

Train requests never suspend, so on a queue that only `try_submit` feeds nobody is ever
suspended in `put`, and the line of tokens is kept in every run of requests and worker
steps. The token of a batch's last chunk is then worth a commit of all its chunks. -/

namespace Trainfer.Controller

universe v
variable {ρ : Type v}

open ComputeQueue (QueueTask trySubmit Accounted Lined InOrder)

/-! ## Runs of the controller -/

inductive Act (ρ : Type v) where
  | submitTrain (spec : TrainSpec) (batchId : String) (now : Nat → Nat)
  | queue (a : ComputeQueue.Action Payload ρ)

def step (m : Controller ρ) : Act ρ → Option (Controller ρ)
  | .submitTrain spec batchId now => some (m.submitTrain spec batchId now).2
  | .queue a => (ComputeQueue.step m.queue a).map fun q => { m with queue := q }

/-- A train request, a step of the worker, a `wait_for` or another `try_submit`: anything
but a caller of `submit`, which may suspend in `put`. -/
def Act.NoBlockingPut : Act ρ → Prop
  | .queue (.submit ..) => False
  | _ => True

/-- What such runs keep. -/
structure Orderly (q : ComputeQueue.State Payload ρ) : Prop where
  accounted : Accounted q
  lined : Lined q
  nobody : q.q.suspended = []

theorem orderly_init (maxDepth : Int) :
    Orderly (ComputeQueue.init maxDepth : ComputeQueue.State Payload ρ) :=
  ⟨ComputeQueue.accounted_init maxDepth, AsyncQueue.inLine_init maxDepth, rfl⟩

theorem orderly_trySubmit {q q' : ComputeQueue.State Payload ρ} {kind batchId : String}
    {payload : Payload} {now : Nat} {t : QueueTask Payload} {st : AsyncQueue.PutStatus}
    (h : Orderly q) (hsub : trySubmit q kind payload batchId now = .ok (t, st, q')) :
    Orderly q' := by
  obtain ⟨hf, hs⟩ := ComputeQueue.trySubmit_ok hsub
  refine ⟨ComputeQueue.accounted_submit h.accounted hs,
    ComputeQueue.lined_submit h.accounted h.lined (.inr h.nobody) hs, ?_⟩
  obtain ⟨_, _, _, _, rfl⟩ := ComputeQueue.trySubmit_enqueues hsub
  exact h.nobody

theorem suspended_nil_getNowait {q q' : AsyncQueue (QueueTask Payload)} {t : QueueTask Payload}
    (h : q.suspended = []) (hg : q.getNowait = some (t, q')) : q'.suspended = [] := by
  obtain ⟨-, hs⟩ := AsyncQueue.getNowait_some hg
  rw [List.eq_nil_iff_forall_not_mem]
  intro y hy
  have := (hs y).mp hy
  simp [h] at this

/-- Step lemma for the queue. -/
theorem orderly_queue_step {q q' : ComputeQueue.State Payload ρ}
    {a : ComputeQueue.Action Payload ρ} (h : Orderly q)
    (ha : (Act.queue a).NoBlockingPut) (hstep : ComputeQueue.step q a = some q') :
    Orderly q' := by
  have hwoken : q.q.woken = [] := (List.append_eq_nil_iff.mp h.nobody).2
  have hin : InOrder q a := by
    cases a with
    | submit kind payload batchId now => exact .inr h.nobody
    | trySubmit kind payload batchId now => exact .inr h.nobody
    | resumePut i =>
      refine .inr fun x hx => ?_
      simp [hwoken] at hx
    | _ => trivial
  refine ⟨ComputeQueue.accounted_step q a q' h.accounted hstep,
    ComputeQueue.lined_step h.accounted h.lined hin hstep, ?_⟩
  cases ComputeQueue.stepped hstep with
  | submitted hsubmit hsub =>
    rcases hsubmit with rfl | ⟨rfl, hfull⟩
    · exact ha.elim
    · obtain ⟨_, _, _, rfl⟩ := ComputeQueue.submit_ok hsub
      rw [AsyncQueue.put_not_full _ _ hfull]
      exact h.nobody
  | resumed hq =>
    -- nobody is suspended, so nobody resumes
    simp [AsyncQueue.resumePut, hwoken] at hq
  | got _ hq => exact suspended_nil_getNowait h.nobody hq
  | refused | waitAdded | waitEnded | moved | finished | committed => exact h.nobody

/-- Step lemma: requests and worker steps keep the line. -/
theorem orderly_step (m : Controller ρ) (a : Act ρ) (m' : Controller ρ) (h : Orderly m.queue)
    (ha : a.NoBlockingPut) (hstep : step m a = some m') : Orderly m'.queue := by
  cases a with
  | submitTrain spec batchId now =>
    obtain rfl := Option.some.inj hstep
    refine submitTrain_preserves ?_ h
    intro q t st q' payload i hq hsub
    exact orderly_trySubmit hq hsub
  | queue a =>
    obtain ⟨q, hq, rfl⟩ := Option.map_eq_some_iff.mp hstep
    exact orderly_queue_step h ha hq

theorem tasksMade_trySubmit {q q' : ComputeQueue.State Payload ρ} {kind batchId : String}
    {payload : Payload} {now : Nat} {t x : QueueTask Payload} {st : AsyncQueue.PutStatus}
    (hx : x ∈ q.tasksMade) (hsub : trySubmit q kind payload batchId now = .ok (t, st, q')) :
    x ∈ q'.tasksMade := by
  refine ComputeQueue.tasksMade_step (a := .trySubmit kind payload batchId now) ?_ hx
  simp [ComputeQueue.step, hsub, ComputeQueue.afterSubmit]

theorem tasksMade_step (m : Controller ρ) (a : Act ρ) (m' : Controller ρ)
    {x : QueueTask Payload} (hx : x ∈ m.queue.tasksMade) (hstep : step m a = some m') :
    x ∈ m'.queue.tasksMade := by
  cases a with
  | submitTrain spec batchId now =>
    obtain rfl := Option.some.inj hstep
    refine submitTrain_preserves (I := fun q => x ∈ q.tasksMade) ?_ hx
    intro q t st q' payload i hq hsub
    exact tasksMade_trySubmit hq hsub
  | queue a =>
    obtain ⟨q, hq, rfl⟩ := Option.map_eq_some_iff.mp hstep
    exact ComputeQueue.tasksMade_step hq hx

theorem meets_noBlockingPut {m : Controller ρ} {as : List (Act ρ)}
    (h : ∀ a ∈ as, a.NoBlockingPut) :
    Runs.Meets step (fun _ a => Act.NoBlockingPut a) m as := by
  induction as generalizing m with
  | nil => trivial
  | cons a as ih =>
    exact ⟨h a List.mem_cons_self, fun t _ => ih fun b hb => h b (List.mem_cons_of_mem a hb)⟩

/-- Run lemma. -/
theorem orderly_run {m m' : Controller ρ} {as : List (Act ρ)} (h : Orderly m.queue)
    (hrun : Runs.exec step m as = some m') (has : ∀ a ∈ as, a.NoBlockingPut) :
    Orderly m'.queue :=
  Runs.exec_invariant (I := fun m : Controller ρ => Orderly m.queue)
    (fun m a m' hm ha hstep => orderly_step m a m' hm ha hstep) h hrun
    (meets_noBlockingPut has)

/-! ## The batch -/

/-- `tasks`, in this order, are what an accepted request for `spec` with chunk size `c`
and response `r` has made. -/
structure IsBatch (spec : TrainSpec) (c : Nat) (r : SubmitResult)
    (tasks : List (QueueTask Payload)) : Prop where
  samples : (tasks.map fun t => t.payload.sampleList).flatten = spec.sampleList
  payloads : ∀ t ∈ tasks, ∃ xs, t.payload = .train { spec with samples := .val xs } ∧
    xs.length ≤ c ∧ (spec.sampleList ≠ [] → xs ≠ [])
  empty : spec.sampleList = [] → tasks.map (fun t => t.payload.sampleList) = [[]]
  nonempty : tasks ≠ []
  /-- The `k`-th of `n` tasks has the token `commit_token - (n - 1 - k)`. -/
  tokens : ∀ (k : Nat) (t : QueueTask Payload), tasks[k]? = some t →
    t.token = r.commitToken - (tasks.length - 1 - k)
  count : r.nChunks = tasks.length

theorem submitTrain_isBatch {m m' : Controller ρ} {spec : TrainSpec} {c : Nat}
    {batchId : String} {now : Nat → Nat} {r : SubmitResult} (hsingle : spec.hasObjs = false)
    (hc : spec.chunkSize.getD 2 = some (c : Int))
    (hok : m.submitTrain spec batchId now = (.ok r, m')) :
    ∃ tasks, m'.queue.q.items = m.queue.q.items ++ tasks ∧ IsBatch spec c r tasks := by
  obtain ⟨c', is, ts, t, hstarts, hpos, hc', his, hloop, hlast, htok, hcount⟩ :=
    submitTrain_single_ok hsingle hok
  obtain rfl : c = c' := by
    rw [hc] at hc'
    exact_mod_cast Option.some.inj hc'
  have henq := submitChunks_ok (length_chunkStarts_le hstarts) hloop
  have hne : ts ≠ [] := by
    rintro rfl
    simp at hlast
  refine ⟨ts, henq.items, ?_, ?_, ?_, hne, ?_, hcount⟩
  · rw [henq.samples, his]
    exact Slices.flatten_slices _ hpos (Nat.le_max_right 1 _)
  · intro u hu
    obtain ⟨i, hi, he⟩ := henq.payload_of_mem hu
    refine ⟨_, he, Slices.length_slice_le _ _ _, fun hs => Slices.slice_ne_nil hpos ?_⟩
    rw [his] at hi
    have hlt := Slices.lt_of_mem_starts hpos hi
    have hlen : 0 < spec.sampleList.length := List.length_pos_iff.mpr hs
    omega
  · intro he
    have hslice : Slices.slice ([] : List Sample) c 0 = [] := by simp [Slices.slice]
    rw [henq.samples, his, he, List.length_nil, Nat.max_eq_left (Nat.zero_le 1),
      Slices.starts_one hpos, List.map_singleton, hslice]
  · intro k u hu
    have hu := henq.tokens k u hu
    have hl := henq.tokens (ts.length - 1) t (by rw [← List.getLast?_eq_getElem?, hlast])
    have hlen := List.length_pos_iff.mpr hne
    omega

/-- **One commit token covers the whole batch.** -/
theorem commitToken_covers_batch {maxSamples maxDepth : Int} {before : List (Act ρ)}
    {m m' : Controller ρ} {spec : TrainSpec} {c : Nat} {batchId : String} {now : Nat → Nat}
    {r : SubmitResult} (hrun : Runs.exec step (init maxSamples maxDepth) before = some m)
    (hbefore : ∀ a ∈ before, a.NoBlockingPut) (hsingle : spec.hasObjs = false)
    (hc : spec.chunkSize.getD 2 = some (c : Int))
    (hok : m.submitTrain spec batchId now = (.ok r, m')) :
    ∃ tasks, m'.queue.q.items = m.queue.q.items ++ tasks ∧ IsBatch spec c r tasks ∧
      ∀ (after : List (Act ρ)) (s : Controller ρ), (∀ a ∈ after, a.NoBlockingPut) →
        Runs.exec step m' after = some s → r.commitToken ≤ s.queue.committed →
          ∀ t ∈ tasks, t ∈ s.queue.finished := by
  obtain ⟨tasks, hitems, hbatch⟩ := submitTrain_isBatch hsingle hc hok
  have hm : Orderly m.queue := orderly_run (orderly_init maxDepth) hrun hbefore
  have hm' : Orderly m'.queue := by
    refine orderly_step m (.submitTrain spec batchId now) m' hm trivial ?_
    rw [step, hok]
  refine ⟨tasks, hitems, hbatch, ?_⟩
  intro after s hafter hrun' hle t ht
  have hs : Orderly s.queue := orderly_run hm' hrun' hafter
  have hmade : t ∈ m'.queue.tasksMade := by
    simp [ComputeQueue.State.tasksMade, AsyncQueue.held, hitems, ht]
  have hmade' : t ∈ s.queue.tasksMade :=
    Runs.exec_preserves (I := fun m : Controller ρ => t ∈ m.queue.tasksMade)
      (fun m a m' hx hstep => tasksMade_step m a m' hx hstep) hmade hrun'
  refine ComputeQueue.mem_finished_of_le_cursor hs.accounted hs.lined hmade' ?_
  -- no task of the batch has a larger token than the last one
  obtain ⟨k, hk, rfl⟩ := List.getElem_of_mem ht
  have htok := hbatch.tokens k tasks[k] (List.getElem?_eq_getElem hk)
  change r.commitToken ≤ s.queue.completedToken at hle
  omega

/-- Two batches on a queue of depth four, and the worker on the first task between them. -/
def twoBatches : List (Act Unit) :=
  [.submitTrain { threeChunks with chunkSize := .val 2 } "a" fun _ => 0, .queue .start,
    .queue .workerLoop, .queue .workerGet]

theorem twoBatches_covered :
    ∃ (m m' : Controller Unit) (r : SubmitResult) (tasks : List (QueueTask Payload)),
      Runs.exec step (init 256 4) twoBatches = some m ∧
      m.submitTrain threeChunks "b" (fun _ => 0) = (.ok r, m') ∧ r.commitToken = 4 ∧
      IsBatch threeChunks 1 r tasks ∧
      ∀ (after : List (Act Unit)) (s : Controller Unit), (∀ a ∈ after, a.NoBlockingPut) →
        Runs.exec step m' after = some s → 4 ≤ s.queue.committed →
          ∀ t ∈ tasks, t ∈ s.queue.finished := by
  obtain ⟨tasks, -, hbatch, hcover⟩ :=
    @commitToken_covers_batch Unit 256 4 twoBatches _ _ threeChunks 1 "b" (fun _ => 0) _ rfl
      (by simp [twoBatches, Act.NoBlockingPut]) rfl rfl rfl
  exact ⟨_, _, _, tasks, rfl, rfl, rfl, hbatch, hcover⟩

end Trainfer.Controller
