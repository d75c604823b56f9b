import Trainfer.TrainSpec
import Trainfer.CommitCursor
import Trainfer.Lib.Slices

/-! Train admission: `submit_train` checks a spec, cuts its samples into chunks and
enqueues one task for each. -/

namespace Trainfer

universe v
variable {ρ : Type v}

open ComputeQueue (QueueTask trySubmit)

/-- The part of the controller that train admission looks at. -/
structure Controller (ρ : Type v) where
  shuttingDown : Bool
  /-- `cfg.max_samples_per_train_call` -/
  maxSamples : Int
  queue : ComputeQueue.State Payload ρ

/-- The response to a train request. `highPressure` stands for the entry
`"queue_pressure": "high"`. -/
structure SubmitResult where
  batchId : String
  commitToken : Int
  nChunks : Nat
  queueDepth : Nat
  highPressure : Bool
  deriving DecidableEq, Repr

namespace Controller

def init (maxSamples maxDepth : Int) : Controller ρ :=
  ⟨false, maxSamples, ComputeQueue.init maxDepth⟩

def rejectIfShuttingDown (m : Controller ρ) : Except PyError Unit :=
  if m.shuttingDown then
    .error ⟨.trainfer .shuttingDown,
      "daemon is shutting down; new work is rejected until restart"⟩
  else .ok ()

end Controller

/-- `len(xs)`. -/
def pyLen {α : Type} : Option (List α) → Except PyError Nat
  | none => .error ⟨.typeError, "object of type 'NoneType' has no len()"⟩
  | some xs => .ok xs.length

namespace TrainSpec

/-- `spec["objectives"]`, for a spec that has some. -/
def objectiveList (spec : TrainSpec) : List ObjectiveSpec := spec.objectives.get?.getD []

/-- `spec.get("samples", [])`, once `len` has succeeded on it. -/
def sampleList (spec : TrainSpec) : List Sample := (spec.samples.getD []).getD []

def totalSamples (spec : TrainSpec) : Except PyError Nat :=
  if spec.hasObjs then
    spec.objectiveList.foldlM
      (fun total obj => (pyLen (obj.samples.getD [])).map fun n => total + n) 0
  else pyLen (spec.samples.getD [])

/-- Exactly one of the two shapes. -/
def checkShape (spec : TrainSpec) : Except PyError Unit :=
  if spec.hasObj && spec.hasObjs then
    .error ⟨.valueError, "submit_train: set exactly one of 'objective' or 'objectives'"⟩
  else if !spec.hasObj && !spec.hasObjs then
    .error ⟨.valueError, "submit_train: must set 'objective' or 'objectives'"⟩
  else .ok ()

/-- `{**spec, "samples": samples[i:i+c] if samples else samples}`. -/
def chunk (spec : TrainSpec) (c i : Nat) : TrainSpec :=
  { spec with samples := .val (Slices.slice spec.sampleList c i) }

/-- `range(0, max(1, len(samples)), chunk_size)`, with the step. -/
def chunkStarts (spec : TrainSpec) : Except PyError (Nat × List Nat) :=
  match spec.chunkSize.getD 2 with
  | none => .error ⟨.typeError, "'NoneType' object cannot be interpreted as an integer"⟩
  | some c =>
    if c = 0 then .error ⟨.valueError, "range() arg 3 must not be zero"⟩
    else if c < 0 then .ok (0, [])
    else .ok (c.toNat, Slices.starts (max 1 spec.sampleList.length) c.toNat)

end TrainSpec

namespace Controller

/-- The checks before anything is enqueued. -/
def admission (m : Controller ρ) (spec : TrainSpec) : Except PyError Unit := do
  m.rejectIfShuttingDown
  spec.checkShape
  let total ← spec.totalSamples
  if m.maxSamples < total then
    .error ⟨.trainfer .batchTooLarge,
      s!"batch_too_large: request has {total} samples, cap is {m.maxSamples}"⟩
  else .ok ()

/-- `qsize / max(1, maxsize) > 0.9`. -/
def highPressure (m : Controller ρ) : Bool :=
  decide (9 * max 1 m.queue.maxsize < 10 * m.queue.qsize)

/-- The chunk loop. An error leaves the chunks that were enqueued before it. -/
def submitChunks (q : ComputeQueue.State Payload ρ) (spec : TrainSpec) (c : Nat)
    (batchId : String) (now : Nat → Nat) :
    List Nat → Except PyError (List (QueueTask Payload)) × ComputeQueue.State Payload ρ
  | [] => (.ok [], q)
  | i :: is =>
    match trySubmit q "train" (.train (spec.chunk c i)) batchId (now i) with
    | .error e => (.error e, q)
    | .ok (t, _, q') =>
      if spec.sampleList.isEmpty then (.ok [t], q')
      else
        match submitChunks q' spec c batchId now is with
        | (.error e, q'') => (.error e, q'')
        | (.ok ts, q'') => (.ok (t :: ts), q'')

/-- `submit_train`. It never suspends: see `trySubmit_enqueues`. `now i` is the clock
when the chunk that starts at `i` is submitted. -/
def submitTrain (m : Controller ρ) (spec : TrainSpec) (batchId : String) (now : Nat → Nat) :
    Except PyError SubmitResult × Controller ρ :=
  match m.admission spec with
  | .error e => (.error e, m)
  | .ok () =>
    if spec.hasObjs then
      match trySubmit m.queue "train" (.train spec) batchId (now 0) with
      | .error e => (.error e, m)
      | .ok (t, _, q) =>
        (.ok ⟨batchId, t.token, 1, q.qsize, m.highPressure⟩, { m with queue := q })
    else
      match spec.chunkStarts with
      | .error e => (.error e, m)
      | .ok (c, is) =>
        match submitChunks m.queue spec c batchId now is with
        | (.error e, q) => (.error e, { m with queue := q })
        | (.ok tasks, q) =>
          match tasks.getLast? with
          | none => (.error ⟨.indexError, "list index out of range"⟩, { m with queue := q })
          | some t =>
            (.ok ⟨batchId, t.token, tasks.length, q.qsize, m.highPressure⟩,
              { m with queue := q })

/-! ## The chunk loop -/

/-- `k` more tasks fit into the queue. -/
def Room (q : ComputeQueue.State Payload ρ) (k : Nat) : Prop :=
  q.maxsize ≤ 0 ∨ (q.qsize : Int) + k ≤ q.maxsize

theorem room_one_iff (q : ComputeQueue.State Payload ρ) : Room q 1 ↔ q.q.full = false := by
  simp only [Room, AsyncQueue.full, ComputeQueue.State.maxsize, ComputeQueue.State.qsize,
    Bool.and_eq_false_iff, decide_eq_false_iff_not]
  omega

/-- The tasks `ts` are what the chunk loop over `is` has added to the queue `q`. -/
structure Enqueued (q : ComputeQueue.State Payload ρ) (spec : TrainSpec) (c : Nat)
    (is : List Nat) (ts : List (QueueTask Payload)) (q' : ComputeQueue.State Payload ρ) :
    Prop where
  items : q'.q.items = q.q.items ++ ts
  payloads : ts.map (·.payload) = is.map fun i => .train (spec.chunk c i)
  tokens : ∀ (k : Nat) (t : QueueTask Payload), ts[k]? = some t → t.token = q.nextToken + k
  room : is = [] ∨ Room q is.length

section ChunkLoop

variable {q q' : ComputeQueue.State Payload ρ} {spec : TrainSpec} {c : Nat} {batchId : String}
  {now : Nat → Nat}

/-- Breaking out after the first chunk of an empty batch is not seen, for there is no
second one. -/
theorem submitChunks_cons {i : Nat} {is : List Nat} (hb : spec.sampleList = [] → is = []) :
    submitChunks q spec c batchId now (i :: is) =
      match trySubmit q "train" (.train (spec.chunk c i)) batchId (now i) with
      | .error e => (.error e, q)
      | .ok (t, _, q') =>
        match submitChunks q' spec c batchId now is with
        | (.error e, q'') => (.error e, q'')
        | (.ok ts, q'') => (.ok (t :: ts), q'') := by
  rw [submitChunks]
  split
  · rfl
  · split
    · rename_i he
      rw [hb (List.isEmpty_iff.mp he)]
      rfl
    · rfl

theorem submitChunks_cons_ok {i : Nat} {is : List Nat} {ts : List (QueueTask Payload)}
    (hb : spec.sampleList = [] → is = [])
    (h : submitChunks q spec c batchId now (i :: is) = (.ok ts, q')) :
    ∃ t st q₁ ts', trySubmit q "train" (.train (spec.chunk c i)) batchId (now i) =
        .ok (t, st, q₁) ∧
      submitChunks q₁ spec c batchId now is = (.ok ts', q') ∧ ts = t :: ts' := by
  rw [submitChunks_cons hb] at h
  split at h
  · cases h
  · rename_i t st q₁ hsub
    split at h
    · cases h
    · rename_i ts' q'' hrest
      simp only [Prod.mk.injEq, Except.ok.injEq] at h
      obtain ⟨rfl, rfl⟩ := h
      exact ⟨t, st, q₁, ts', hsub, hrest, rfl⟩

theorem submitChunks_ok {is : List Nat} {ts : List (QueueTask Payload)}
    (hb : spec.sampleList = [] → is.length ≤ 1)
    (h : submitChunks q spec c batchId now is = (.ok ts, q')) : Enqueued q spec c is ts q' := by
  induction is generalizing q ts with
  | nil =>
    simp only [submitChunks, Prod.mk.injEq, Except.ok.injEq] at h
    obtain ⟨rfl, rfl⟩ := h
    exact ⟨by simp, rfl, by simp, .inl rfl⟩
  | cons i is ih =>
    have hb' : spec.sampleList = [] → is = [] := fun he => by simpa using hb he
    obtain ⟨t, st, q₁, ts', hsub, hrest, rfl⟩ := submitChunks_cons_ok hb' h
    obtain ⟨_, hf, _, ht, rfl⟩ := ComputeQueue.trySubmit_enqueues hsub
    have hq := ih (by intro he; simp [hb' he]) hrest
    refine ⟨?_, ?_, ?_, .inr ?_⟩
    · rw [hq.items, List.append_assoc]
      rfl
    · rw [List.map_cons, List.map_cons, hq.payloads, ht]
    · intro k u hu
      cases k with
      | zero =>
        obtain rfl : t = u := by simpa using hu
        simp [ht]
      | succ k =>
        have := hq.tokens k u (by simpa using hu)
        simp only [this]
        push_cast
        omega
    · have hone := (room_one_iff q).mpr hf
      rcases hq.room with rfl | hroom
      · exact hone
      · simp only [Room, ComputeQueue.State.maxsize, ComputeQueue.State.qsize, AsyncQueue.qsize,
          List.length_append, List.length_cons, List.length_nil] at hroom ⊢
        omega

variable (c batchId now) in
/-- With room for every chunk the loop runs to its end. -/
theorem submitChunks_of_room {is : List Nat} (hacc : q.accepting = true)
    (hb : spec.sampleList = [] → is.length ≤ 1) (hroom : is = [] ∨ Room q is.length) :
    ∃ ts q', submitChunks q spec c batchId now is = (.ok ts, q') := by
  induction is generalizing q with
  | nil => exact ⟨[], q, rfl⟩
  | cons i is ih =>
    have hb' : spec.sampleList = [] → is = [] := fun he => by simpa using hb he
    have hroom := hroom.resolve_left (by simp)
    have hf : q.q.full = false := by
      rw [← room_one_iff]
      simp only [Room, List.length_cons] at hroom ⊢
      omega
    obtain ⟨⟨t, st, q₁⟩, hsub⟩ := ComputeQueue.trySubmit_of_not_full hacc hf "train" batchId
      (Payload.train (spec.chunk c i)) (now i)
    obtain ⟨_, _, _, _, hq₁⟩ := ComputeQueue.trySubmit_enqueues hsub
    have hroom₁ : Room q₁ is.length := by
      simp only [Room, ComputeQueue.State.maxsize, ComputeQueue.State.qsize, AsyncQueue.qsize, hq₁,
        List.length_append, List.length_cons, List.length_nil] at hroom ⊢
      omega
    obtain ⟨ts, q', hrest⟩ := ih (q := q₁) (by rw [hq₁]; exact hacc) (by intro he; simp [hb' he])
      (.inr hroom₁)
    exact ⟨t :: ts, q', by rw [submitChunks_cons hb', hsub]; simp only [hrest]⟩

variable (spec c batchId now) in
/-- An invariant that every admitted `try_submit` keeps is kept by the loop, whether or
not it ends in an error. -/
theorem submitChunks_preserves {I : ComputeQueue.State Payload ρ → Prop}
    (hI : ∀ q t st q' payload i, I q →
      trySubmit q "train" payload batchId (now i) = .ok (t, st, q') → I q')
    (is : List Nat) (hq : I q) : I (submitChunks q spec c batchId now is).2 := by
  induction is generalizing q with
  | nil => exact hq
  | cons i is ih =>
    rw [submitChunks]
    split
    · exact hq
    · rename_i t st q₁ hsub
      have hq₁ := hI q t st q₁ _ _ hq hsub
      split
      · exact hq₁
      · have hrest := ih hq₁
        split
        · rename_i he
          rwa [he] at hrest
        · rename_i he
          rwa [he] at hrest

end ChunkLoop

/-! ## The call as a whole -/

theorem chunkStarts_ok {spec : TrainSpec} {c : Nat} {is : List Nat}
    (h : spec.chunkStarts = .ok (c, is)) :
    is = [] ∨ 0 < c ∧ spec.chunkSize.getD 2 = some (c : Int) ∧
      is = Slices.starts (max 1 spec.sampleList.length) c := by
  unfold TrainSpec.chunkStarts at h
  split at h
  · cases h
  · rename_i c' hsize
    split at h
    · cases h
    · split at h
      · obtain ⟨rfl, rfl⟩ := h
        exact .inl rfl
      · obtain ⟨rfl, rfl⟩ := h
        refine .inr ⟨by omega, ?_, rfl⟩
        rw [hsize, Int.toNat_of_nonneg (by omega)]

/-- An empty batch is one empty chunk. -/
theorem length_chunkStarts_le {spec : TrainSpec} {c : Nat} {is : List Nat}
    (h : spec.chunkStarts = .ok (c, is)) (he : spec.sampleList = []) : is.length ≤ 1 := by
  rcases chunkStarts_ok h with rfl | ⟨hc, -, rfl⟩
  · simp
  · rw [he, List.length_nil, Nat.max_eq_left (by omega), Slices.starts_one hc]
    simp

/-- An invariant that every admitted `try_submit` keeps is kept by the call. -/
theorem submitTrain_preserves {I : ComputeQueue.State Payload ρ → Prop} {m : Controller ρ}
    {spec : TrainSpec} {batchId : String} {now : Nat → Nat}
    (hI : ∀ q t st q' payload i, I q →
      trySubmit q "train" payload batchId (now i) = .ok (t, st, q') → I q')
    (hq : I m.queue) : I (m.submitTrain spec batchId now).2.queue := by
  unfold submitTrain
  split
  · exact hq
  · split
    · split
      · exact hq
      · rename_i t st q hsub
        exact hI _ _ _ _ _ _ hq hsub
    · split
      · exact hq
      · rename_i c is hstarts
        have hrest := submitChunks_preserves spec c batchId now hI is hq
        split
        · rename_i he
          rwa [he] at hrest
        · rename_i he
          rw [he] at hrest
          split
          · exact hrest
          · exact hrest

theorem submitTrain_multi_ok {m m' : Controller ρ} {spec : TrainSpec} {batchId : String}
    {now : Nat → Nat} {r : SubmitResult} (hobjs : spec.hasObjs = true)
    (h : m.submitTrain spec batchId now = (.ok r, m')) :
    ∃ t st q, trySubmit m.queue "train" (.train spec) batchId (now 0) = .ok (t, st, q) ∧
      m' = { m with queue := q } := by
  unfold submitTrain at h
  split at h
  · cases h
  · rw [if_pos hobjs] at h
    split at h
    · cases h
    · rename_i t st q hsub
      obtain ⟨_, rfl⟩ := Prod.mk.inj h
      exact ⟨t, st, q, hsub, rfl⟩

/-- An accepted single-objective call has enqueued every chunk, and answers with the
token of the last one. -/
theorem submitTrain_single_ok {m m' : Controller ρ} {spec : TrainSpec} {batchId : String}
    {now : Nat → Nat} {r : SubmitResult} (hobjs : spec.hasObjs = false)
    (h : m.submitTrain spec batchId now = (.ok r, m')) :
    ∃ c is ts t, spec.chunkStarts = .ok (c, is) ∧ 0 < c ∧
      spec.chunkSize.getD 2 = some (c : Int) ∧
      is = Slices.starts (max 1 spec.sampleList.length) c ∧
      submitChunks m.queue spec c batchId now is = (.ok ts, m'.queue) ∧
      ts.getLast? = some t ∧ r.commitToken = t.token ∧ r.nChunks = ts.length := by
  unfold submitTrain at h
  split at h
  · cases h
  · rw [if_neg (by simp [hobjs])] at h
    split at h
    · cases h
    · rename_i c is hstarts
      split at h
      · cases h
      · rename_i ts q hloop
        split at h
        · cases h
        · rename_i t ht
          simp only [Prod.mk.injEq, Except.ok.injEq] at h
          obtain ⟨rfl, rfl⟩ := h
          rcases chunkStarts_ok hstarts with rfl | ⟨hc, hsize, his⟩
          · simp only [submitChunks, Prod.mk.injEq, Except.ok.injEq] at hloop
            simp [← hloop.1] at ht
          · exact ⟨c, is, ts, t, hstarts, hc, hsize, his, hloop, ht, rfl, rfl⟩

end Controller

end Trainfer
