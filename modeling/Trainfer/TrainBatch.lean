import Trainfer.SubmitTrain

/-! What one train request leaves in the queue.

A request that goes through puts in tasks that make up the batch, under consecutive
tokens. A request that fails may have put in the first chunks already:
`allOrNothing_iff` says exactly when it has. -/

namespace Trainfer

universe v
variable {ρ : Type v}

open ComputeQueue (QueueTask trySubmit)

def Payload.sampleList : Payload → List Sample
  | .train spec => spec.sampleList
  | _ => []

/-- Training on `tasks` is training on every sample of `spec` once. -/
def Delivers (spec : TrainSpec) (tasks : List (QueueTask Payload)) : Prop :=
  if spec.hasObjs then tasks.map (·.payload) = [.train spec]
  else
    (tasks.map fun t => t.payload.sampleList).flatten = spec.sampleList ∧
      ∀ t ∈ tasks, ∃ xs, t.payload = .train { spec with samples := .val xs }

namespace Controller

/-- The tasks that a call which led from `m` to `m'` has put into the queue. -/
def newTasks (m m' : Controller ρ) : List (QueueTask Payload) :=
  m'.queue.q.items.drop m.queue.q.items.length

theorem newTasks_eq {m m' : Controller ρ} (ts : List (QueueTask Payload))
    (h : m'.queue.q.items = m.queue.q.items ++ ts) : newTasks m m' = ts := by
  rw [newTasks, h, List.drop_left]

/-! ## Accepted requests -/

@[simp] theorem sampleList_chunk (spec : TrainSpec) (c i : Nat) :
    (spec.chunk c i).sampleList = Slices.slice spec.sampleList c i := rfl

theorem Enqueued.samples {q q' : ComputeQueue.State Payload ρ} {spec : TrainSpec} {c : Nat}
    {is : List Nat} {ts : List (QueueTask Payload)} (h : Enqueued q spec c is ts q') :
    ts.map (fun t => t.payload.sampleList) = is.map (Slices.slice spec.sampleList c) := by
  have hp := congrArg (List.map Payload.sampleList) h.payloads
  simpa [Function.comp_def, Payload.sampleList] using hp

theorem Enqueued.payload_of_mem {q q' : ComputeQueue.State Payload ρ} {spec : TrainSpec}
    {c : Nat} {is : List Nat} {ts : List (QueueTask Payload)} (h : Enqueued q spec c is ts q')
    {t : QueueTask Payload} (ht : t ∈ ts) : ∃ i ∈ is, t.payload = .train (spec.chunk c i) := by
  have hm : t.payload ∈ ts.map (·.payload) := List.mem_map_of_mem ht
  rw [h.payloads] at hm
  obtain ⟨i, hi, he⟩ := List.mem_map.mp hm
  exact ⟨i, hi, he.symm⟩

/-- An accepted request trains every sample once. -/
theorem submitTrain_delivers {m m' : Controller ρ} {spec : TrainSpec} {batchId : String}
    {now : Nat → Nat} {r : SubmitResult} (h : m.submitTrain spec batchId now = (.ok r, m')) :
    Delivers spec (newTasks m m') := by
  cases hobjs : spec.hasObjs with
  | true =>
    obtain ⟨t, st, q, hsub, rfl⟩ := submitTrain_multi_ok hobjs h
    obtain ⟨_, _, _, ht, rfl⟩ := ComputeQueue.trySubmit_enqueues hsub
    rw [Delivers, if_pos hobjs, newTasks_eq [t] rfl, ht]
    rfl
  | false =>
    obtain ⟨c, is, ts, t, hstarts, hc, -, his, hloop, -⟩ := submitTrain_single_ok hobjs h
    have henq := submitChunks_ok (length_chunkStarts_le hstarts) hloop
    rw [Delivers, if_neg (by simp [hobjs]), newTasks_eq ts henq.items]
    constructor
    · rw [henq.samples, his]
      exact Slices.flatten_slices _ hc (Nat.le_max_right 1 _)
    · intro t ht
      obtain ⟨i, -, he⟩ := henq.payload_of_mem ht
      exact ⟨_, he⟩

/-! ## Failed requests -/

/-- `submit_train` is all-or-nothing on error: the queue is as before, and a retry that is
accepted, whatever has happened in between, makes up for the failed call. -/
structure AllOrNothing (m : Controller ρ) (spec : TrainSpec) (batchId : String)
    (now : Nat → Nat) : Prop where
  unchanged : ∀ e m', m.submitTrain spec batchId now = (.error e, m') → m'.queue = m.queue
  retry : ∀ e m', m.submitTrain spec batchId now = (.error e, m') → e.retryable = true →
    ∀ (m₂ m₃ : Controller ρ) (batchId₂ : String) (now₂ : Nat → Nat) (r : SubmitResult),
      m₂.submitTrain spec batchId₂ now₂ = (.ok r, m₃) →
        Delivers spec (newTasks m m' ++ newTasks m₂ m₃)

/-- The request reaches the chunk loop, and the queue has a free slot for its first chunk
but not for every one. -/
structure Splits (m : Controller ρ) (spec : TrainSpec) : Prop where
  admitted : m.admission spec = .ok ()
  single : spec.hasObjs = false
  accepting : m.queue.accepting = true
  first : Room m.queue 1
  notAll : ∃ c is, spec.chunkStarts = .ok (c, is) ∧ ¬ Room m.queue is.length

section

variable {q q' : ComputeQueue.State Payload ρ} {spec : TrainSpec} {c : Nat} {batchId : String}
  {now : Nat → Nat}

theorem submitChunks_error_unchanged {is : List Nat} {e : PyError}
    (hb : spec.sampleList = [] → is.length ≤ 1)
    (hroom : q.accepting = true → Room q 1 → Room q is.length)
    (h : submitChunks q spec c batchId now is = (.error e, q')) : q' = q := by
  by_cases hfree : q.accepting = true ∧ Room q 1
  · -- then there is room for every chunk and the loop cannot fail
    obtain ⟨ts, q'', hok⟩ :=
      submitChunks_of_room c batchId now hfree.1 hb (.inr (hroom hfree.1 hfree.2))
    rw [hok] at h
    cases h
  · cases is with
    | nil => cases h
    | cons i is =>
      have hrej : q.accepting = false ∨ q.q.full = true := by
        rw [not_and, room_one_iff, Bool.not_eq_false] at hfree
        cases hacc : q.accepting with
        | false => exact .inl rfl
        | true => exact .inr (hfree hacc)
      obtain ⟨e', he'⟩ := ComputeQueue.trySubmit_error hrej "train" batchId
        (Payload.train (spec.chunk c i)) (now i)
      rw [submitChunks, he'] at h
      exact (Prod.mk.inj h).2.symm

variable (q spec c batchId now) in
theorem nextToken_le_submitChunks (is : List Nat) :
    q.nextToken ≤ (submitChunks q spec c batchId now is).2.nextToken := by
  refine submitChunks_preserves spec c batchId now (I := fun s => q.nextToken ≤ s.nextToken) ?_ is
    (le_refl _)
  intro s t st s' payload now hs hsub
  obtain ⟨_, _, _, _, rfl⟩ := ComputeQueue.trySubmit_enqueues hsub
  exact le_trans hs (by simp)

/-- The first chunk takes a token, whatever becomes of the others. -/
theorem nextToken_lt_submitChunks {i : Nat} {is : List Nat}
    (hb : spec.sampleList = [] → is = []) (hacc : q.accepting = true) (hroom : Room q 1) :
    q.nextToken < (submitChunks q spec c batchId now (i :: is)).2.nextToken := by
  obtain ⟨⟨t, st, q₁⟩, hsub⟩ := ComputeQueue.trySubmit_of_not_full hacc ((room_one_iff q).mp hroom)
    "train" batchId (Payload.train (spec.chunk c i)) (now i)
  obtain ⟨_, _, _, _, hq₁⟩ := ComputeQueue.trySubmit_enqueues hsub
  have hlt : q.nextToken < q₁.nextToken := by simp [hq₁]
  have hle := nextToken_le_submitChunks q₁ spec c batchId now is
  rw [submitChunks_cons hb, hsub]
  simp only
  split
  · rename_i he
    rw [he] at hle
    exact lt_of_lt_of_le hlt hle
  · rename_i he
    rw [he] at hle
    exact lt_of_lt_of_le hlt hle

end

theorem submitTrain_of_admitted {m : Controller ρ} {spec : TrainSpec} (batchId : String)
    (now : Nat → Nat) {c : Nat} {is : List Nat} (hadm : m.admission spec = .ok ())
    (hobjs : spec.hasObjs = false) (hstarts : spec.chunkStarts = .ok (c, is)) :
    (m.submitTrain spec batchId now).2.queue =
      (submitChunks m.queue spec c batchId now is).2 := by
  unfold submitTrain
  rw [hadm, hstarts]
  simp only [hobjs, Bool.false_eq_true, if_false]
  split
  · rename_i h
    rw [h]
  · rename_i h
    rw [h]
    split <;> rfl

/-- A request that does not split and fails has not touched the queue. -/
theorem submitTrain_error_unchanged {m m' : Controller ρ} {spec : TrainSpec} {batchId : String}
    {now : Nat → Nat} {e : PyError} (hs : ¬ Splits m spec)
    (h : m.submitTrain spec batchId now = (.error e, m')) : m'.queue = m.queue := by
  cases hadm : m.admission spec with
  | error e' =>
    rw [submitTrain, hadm] at h
    rw [(Prod.mk.inj h).2]
  | ok u =>
    unfold submitTrain at h
    rw [hadm] at h
    simp only at h
    split at h
    · split at h
      · rw [(Prod.mk.inj h).2]
      · cases h
    · rename_i hobjs
      have hobjs : spec.hasObjs = false := by simpa using hobjs
      split at h
      · rw [(Prod.mk.inj h).2]
      · rename_i c is hstarts
        have hroom : m.queue.accepting = true → Room m.queue 1 → Room m.queue is.length := by
          intro hacc hfirst
          by_contra hall
          exact hs ⟨hadm, hobjs, hacc, hfirst, c, is, hstarts, hall⟩
        split at h
        · rename_i hloop
          rw [← (Prod.mk.inj h).2]
          exact submitChunks_error_unchanged (length_chunkStarts_le hstarts) hroom hloop
        · rename_i ts q hloop
          split at h
          · -- `tasks[-1]` fails only after a loop over an empty range
            rename_i hnil
            have henq := submitChunks_ok (length_chunkStarts_le hstarts) hloop
            have his : is = [] := by
              have hlen := congrArg List.length henq.payloads
              rw [List.getLast?_eq_none_iff.mp hnil] at hlen
              exact List.length_eq_zero_iff.mp (by simpa using hlen.symm)
            rw [his] at hloop
            rw [← (Prod.mk.inj h).2]
            exact (Prod.mk.inj hloop).2.symm
          · cases h

theorem Splits.changed {m : Controller ρ} {spec : TrainSpec} (hs : Splits m spec)
    (batchId : String) (now : Nat → Nat) :
    ∃ e m', m.submitTrain spec batchId now = (.error e, m') ∧
      m.queue.nextToken < m'.queue.nextToken := by
  obtain ⟨hadm, hobjs, hacc, hfirst, c, is, hstarts, hall⟩ := hs
  have hb := length_chunkStarts_le hstarts
  cases h : m.submitTrain spec batchId now with
  | mk res m' =>
    cases res with
    | ok r =>
      obtain ⟨c', is', ts, t, hstarts', -, -, -, hloop, -⟩ := submitTrain_single_ok hobjs h
      obtain ⟨rfl, rfl⟩ := Prod.mk.inj (Except.ok.inj (hstarts.symm.trans hstarts'))
      rcases (submitChunks_ok hb hloop).room with rfl | hroom
      · exact absurd hfirst (by simp only [Room, List.length_nil] at hall ⊢; omega)
      · exact absurd hroom hall
    | error e =>
      refine ⟨e, m', rfl, ?_⟩
      have hq := submitTrain_of_admitted batchId now hadm hobjs hstarts
      rw [h] at hq
      rw [hq]
      cases is with
      | nil => exact absurd hfirst (by simp only [Room, List.length_nil] at hall ⊢; omega)
      | cons i is => exact nextToken_lt_submitChunks (fun he => by simpa using hb he) hacc hfirst

/-- **All or nothing.** A train request is all-or-nothing on error exactly if it does not
split. -/
theorem allOrNothing_iff (m : Controller ρ) (spec : TrainSpec) (batchId : String)
    (now : Nat → Nat) : AllOrNothing m spec batchId now ↔ ¬ Splits m spec := by
  constructor
  · intro h hs
    obtain ⟨e, m', he, hlt⟩ := hs.changed batchId now
    rw [h.unchanged e m' he] at hlt
    exact lt_irrefl _ hlt
  · intro hs
    refine ⟨fun e m' h => submitTrain_error_unchanged hs h, fun e m' h _ m₂ m₃ b₂ n₂ r hr => ?_⟩
    have hq := submitTrain_error_unchanged hs h
    rw [newTasks_eq [] (by rw [hq, List.append_nil]), List.nil_append]
    exact submitTrain_delivers hr

/-- Three samples in chunks of one. -/
def threeChunks : TrainSpec where
  objective := .val "sft"
  samples := .val [[("prompt", .str "a")], [("prompt", .str "b")], [("prompt", .str "c")]]
  chunkSize := .val 1

/-- On an empty queue of depth two the third chunk is refused with a retryable error, and
the first two stay queued. -/
theorem submitTrain_splits :
    ¬ ∀ (m : Controller Unit) (spec : TrainSpec) (batchId : String) (now : Nat → Nat),
      AllOrNothing m spec batchId now := by
  intro h
  have hq := (h (init 256 2) threeChunks "b" fun _ => 0).unchanged _ _ rfl
  have htok := congrArg ComputeQueue.State.nextToken hq
  revert htok
  decide

end Controller

end Trainfer
