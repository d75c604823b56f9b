import Trainfer.TrainTrace

/-! What a train step does, on every way out of it.

Until the optimizer is asked for, a step only calls objectives. `Calls` is what such a part of a
step does: its result, the drift average it leaves and what it logs depend on the parameters and
the drift average alone, and nothing else changes. `step_ends` says that a step is such a part
with `optimize` or nothing after it, and `optimize_cases` what `optimize` does where it returns
and where it raises. -/

namespace Trainfer

open Effect

variable {P E L G τ M : Type}

/-- A call of a loss function. -/
structure LossCall (τ : Type) where
  fn : String
  samples : Option (List Sample)
  kwargs : Kwargs τ

/-- The call that an event stands for. -/
def EngineEvent.call? : EngineEvent L τ → Option (LossCall τ)
  | .primary name samples kwargs | .batch name samples kwargs =>
    some ⟨(OBJECTIVES.lookup name).getD "", samples, kwargs⟩
  | .backward _ | .step .. => none

namespace TrainEngine

/-- What a call returns, and the drift average it leaves. -/
def evalCall (b : Backend P E L G τ M) (p : P) (c : LossCall τ) (e : E) :
    Except PyError (Result L τ) × E :=
  match acceptCall c.fn c.samples c.kwargs with
  | .error err => (.error err, e)
  | .ok () => b.loss c.fn p e c.samples c.kwargs

/-- The drift average after an event. -/
def drift (b : Backend P E L G τ M) (p : P) (e : E) (event : EngineEvent L τ) : E :=
  match event.call? with
  | none => e
  | some c => (evalCall b p c e).2

theorem exec_callLoss (b : Backend P E L G τ M) (fn : String) (samples : Option (List Sample))
    (kwargs : Kwargs τ) (s : Engine P E L τ M) :
    exec (callLoss b fn samples kwargs) s =
      ((evalCall b s.params ⟨fn, samples, kwargs⟩ s.ema).1,
        { s with ema := (evalCall b s.params ⟨fn, samples, kwargs⟩ s.ema).2 }) := by
  unfold callLoss evalCall
  rw [exec_ofExcept_bind]
  cases acceptCall fn samples kwargs with
  | error err => rfl
  | ok u =>
    simp only [exec_get_bind, exec_modify_bind]
    cases (b.loss fn s.params s.ema samples kwargs).1 with
    | error err => rfl
    | ok r => rfl

theorem lookup_of_getObjective {v : Value} {name fn : String}
    (h : getObjective v = .ok (name, fn)) : (OBJECTIVES.lookup name).getD "" = fn := by
  obtain ⟨-, hlookup⟩ := getObjective_ok h
  rw [hlookup]
  rfl

variable {cfg : EngineConfig} {b : Backend P E L G τ M} {s t : Engine P E L τ M}

/-! ## Parts that only call -/

/-- The part calls objectives and does nothing else. -/
def Calls {α : Type} (b : Backend P E L G τ M) (x : EngineM P E L τ M α) : Prop :=
  ∃ g : P → E → Except PyError α × E × List (EngineEvent L τ),
    (∀ p e, (g p e).2.1 = (g p e).2.2.foldl (drift b p) e) ∧
    ∀ s, exec x s = ((g s.params s.ema).1,
      { s with ema := (g s.params s.ema).2.1, events := s.events ++ (g s.params s.ema).2.2 })

variable {α β : Type}

theorem calls_pure (a : α) : Calls b (pure a : EngineM P E L τ M α) :=
  ⟨fun _ e => (.ok a, e, []), fun _ _ => rfl, fun s => by simp⟩

theorem calls_ofExcept (r : Except PyError α) :
    Calls b (ofExcept r : EngineM P E L τ M α) := by
  refine ⟨fun _ e => (r, e, []), fun _ _ => rfl, fun s => ?_⟩
  cases r with
  | error err => simp [ofExcept]
  | ok a => simp [ofExcept]

theorem calls_ofExcept_bind {r : Except PyError α} {f : α → EngineM P E L τ M β}
    (hf : ∀ a, r = .ok a → Calls b (f a)) : Calls b (ofExcept r >>= f) := by
  cases r with
  | error err => exact calls_ofExcept (.error err)
  | ok a => exact hf a rfl

theorem calls_bind {x : EngineM P E L τ M α} {f : α → EngineM P E L τ M β} (hx : Calls b x)
    (hf : ∀ a, Calls b (f a)) : Calls b (x >>= f) := by
  obtain ⟨g, hg, hx⟩ := hx
  choose k hk hf using hf
  refine ⟨fun p e => match (g p e).1 with
    | .error err => (.error err, (g p e).2)
    | .ok a => ((k a p (g p e).2.1).1, (k a p (g p e).2.1).2.1,
        (g p e).2.2 ++ (k a p (g p e).2.1).2.2), fun p e => ?_, fun s => ?_⟩
  · cases h : (g p e).1 with
    | error err =>
      simp only [h]
      exact hg p e
    | ok a =>
      simp only [h, List.foldl_append]
      rw [← hg p e]
      exact hk a p _
  · rw [exec_bind, hx s]
    cases h : (g s.params s.ema).1 with
    | error err => simp only [h]
    | ok a => simp only [h, hf, List.append_assoc]

theorem calls_foldlM {γ : Type} {f : β → γ → EngineM P E L τ M β} (hf : ∀ a c, Calls b (f a c))
    (cs : List γ) (a : β) : Calls b (cs.foldlM f a) := by
  induction cs generalizing a with
  | nil => exact calls_pure a
  | cons c cs ih =>
    rw [List.foldlM_cons]
    exact calls_bind (hf a c) fun a' => ih a'

/-- An event and its call. -/
theorem calls_call {event : EngineEvent L τ} {fn : String} {samples : Option (List Sample)}
    {kwargs : Kwargs τ} {f : Result L τ → EngineM P E L τ M β}
    (h : event.call? = some ⟨fn, samples, kwargs⟩) (hf : ∀ r, Calls b (f r)) :
    Calls b (record event >>= fun _ => callLoss b fn samples kwargs >>= f) := by
  have hcall : Calls b (record event >>= fun _ => callLoss b fn samples kwargs) := by
    refine ⟨fun p e => ((evalCall b p ⟨fn, samples, kwargs⟩ e).1,
      (evalCall b p ⟨fn, samples, kwargs⟩ e).2, [event]), fun p e => ?_, fun s => ?_⟩
    · simp [drift, h]
    · rw [exec_record_bind, exec_callLoss]
  obtain ⟨g, hg, hx⟩ := calls_bind hcall hf
  refine ⟨g, hg, fun s => ?_⟩
  rw [← hx s, exec_record_bind, exec_bind, exec_bind, exec_record_bind]

theorem calls_callPrimary (spec : TrainSpec) (name : Value) (samples : Option (List Sample))
    (kwargs : JsonObject) : Calls b (callPrimary cfg b spec name samples kwargs) := by
  apply calls_ofExcept_bind
  rintro ⟨name, fn⟩ hobj
  refine calls_call ?_ fun result => calls_pure (name, result)
  rw [EngineEvent.call?, lookup_of_getObjective hobj]

theorem calls_callBatch (primary : String) (first : Result L τ) (samples : Option (List Sample))
    (bo : JsonObject) : Calls b (callBatch cfg b primary first samples bo) := by
  apply calls_ofExcept_bind
  rintro ⟨name, fn⟩ hobj
  refine calls_call ?_ fun result => calls_pure result.loss
  have hname : (OBJECTIVES.lookup name).getD "" = fn := by
    unfold batchObjective at hobj
    split at hobj
    · cases hobj
    · exact lookup_of_getObjective hobj
  rw [EngineEvent.call?, hname]

theorem calls_primaryStep [AddCommGroup L] [Module ℚ L] (spec : TrainSpec)
    (samples : Option (List Sample)) (kwargs : JsonObject) (acc : MultiState L τ)
    (entry : ObjectiveSpec) : Calls b (primaryStep cfg b spec samples kwargs acc entry) := by
  apply calls_bind (calls_ofExcept _)
  intro name
  apply calls_bind (calls_ofExcept _)
  intro weight
  apply calls_bind (calls_callPrimary _ _ _ _)
  rintro ⟨name, result⟩
  cases h : result.loss with
  | none => simpa only [h] using calls_pure _
  | some loss => simpa only [h] using calls_pure _

/-! ## The whole step -/

/-- What follows the calls: the optimizer of a slot on a loss, or nothing. -/
def finish (cfg : EngineConfig) (b : Backend P E L G τ M) :
    Option (String × L) → EngineM P E L τ M (StepOutcome L)
  | none => pure ⟨none, true⟩
  | some (objective, loss) => optimize cfg b objective loss

/-- The step only calls objectives before it finishes. -/
def Ends (cfg : EngineConfig) (b : Backend P E L G τ M)
    (x : EngineM P E L τ M (StepOutcome L)) : Prop :=
  ∃ y : EngineM P E L τ M (Option (String × L)), Calls b y ∧
    ∀ s, exec x s = exec (y >>= finish cfg b) s

theorem ends_skip : Ends cfg b (pure ⟨none, true⟩) :=
  ⟨pure none, calls_pure none, fun _ => rfl⟩

theorem ends_optimize (objective : String) (loss : L) :
    Ends cfg b (optimize cfg b objective loss) :=
  ⟨pure (some (objective, loss)), calls_pure _, fun _ => rfl⟩

theorem ends_bind {x : EngineM P E L τ M α} {f : α → EngineM P E L τ M (StepOutcome L)}
    (hx : Calls b x) (hf : ∀ a, Ends cfg b (f a)) : Ends cfg b (x >>= f) := by
  choose y hy hf using hf
  refine ⟨x >>= y, calls_bind hx hy, fun s => ?_⟩
  rw [exec_bind, exec_bind, exec_bind]
  rcases exec x s with ⟨e | a, t⟩
  · rfl
  · simp only
    rw [hf a t, exec_bind]

variable {spec : TrainSpec} [AddCommGroup L]

theorem ends_stepSingle : Ends cfg b (stepSingle cfg b spec) := by
  apply ends_bind (calls_ofExcept _)
  intro name
  apply ends_bind (calls_ofExcept _)
  intro kwargs
  apply ends_bind (calls_callPrimary _ _ _ _)
  rintro ⟨name, result⟩
  apply ends_bind (calls_ofExcept _)
  intro bos
  refine ends_bind (calls_foldlM (fun _ _ => ?_) bos result.loss) fun loss => ?_
  · exact calls_bind (calls_callBatch _ _ _ _) fun _ => calls_pure _
  · cases loss with
    | none => exact ends_skip
    | some loss => exact ends_optimize _ _

variable [Module ℚ L]

theorem ends_stepMulti {primaries : List ObjectiveSpec} :
    Ends cfg b (stepMulti cfg b spec primaries) := by
  apply ends_bind (calls_ofExcept _)
  intro kwargs
  apply ends_bind (calls_foldlM (fun _ _ => calls_primaryStep _ _ _ _ _) primaries {})
  intro acc
  apply ends_bind (calls_ofExcept _)
  intro samples
  refine ends_bind (calls_foldlM (fun _ _ => ?_) spec.batchList acc) fun acc' => ?_
  · exact calls_bind (calls_callBatch _ _ _ _) fun _ => calls_pure _
  · split
    · exact ends_optimize _ _
    · exact ends_skip

/-- **What a step does.** It calls objectives, and then it steps an optimizer or ends. -/
theorem step_ends (cfg : EngineConfig) (b : Backend P E L G τ M) (spec : TrainSpec) :
    Ends cfg b (step cfg b spec) := by
  unfold step
  split
  · exact ends_stepMulti
  · exact ends_stepSingle

/-- Until the optimizer is asked for, parameters and optimizers stay as they are. -/
theorem step_cases (cfg : EngineConfig) (b : Backend P E L G τ M) (spec : TrainSpec)
    (s : Engine P E L τ M) : ∃ ema events,
      (∃ r, exec (step cfg b spec) s = (r, { s with ema, events })) ∨
        ∃ objective loss, exec (step cfg b spec) s =
          exec (optimize cfg b objective loss) { s with ema, events } := by
  obtain ⟨y, ⟨g, -, hy⟩, hstep⟩ := step_ends cfg b spec
  refine ⟨(g s.params s.ema).2.1, s.events ++ (g s.params s.ema).2.2, ?_⟩
  rw [hstep s, exec_bind, hy s]
  rcases (g s.params s.ema).1 with err | _ | ⟨objective, loss⟩
  · exact .inl ⟨_, rfl⟩
  · exact .inl ⟨_, rfl⟩
  · exact .inr ⟨objective, loss, rfl⟩

/-! ## The optimizer -/

omit [AddCommGroup L] [Module ℚ L]

theorem newOptimizer_moments (cfg : EngineConfig) (objective : String) (moments : M) :
    (cfg.newOptimizer objective moments).moments = moments := by
  unfold EngineConfig.newOptimizer
  split
  · rfl
  · split <;> rfl

/-- The optimizers with one in the slot of the objective. -/
def withSlot (cfg : EngineConfig) (b : Backend P E L G τ M) (objective : String)
    (s : Engine P E L τ M) : Dict (Optimizer M) :=
  if (s.opts.lookup (cfg.key objective)).isSome then s.opts
  else s.opts.insert (cfg.key objective) (cfg.newOptimizer objective b.moments)

theorem insert_withSlot (objective : String) (s : Engine P E L τ M) (opt : Optimizer M) :
    (withSlot cfg b objective s).insert (cfg.key objective) opt =
      s.opts.insert (cfg.key objective) opt := by
  unfold withSlot
  split
  · rfl
  · exact AList.insert_insert _

theorem exec_optimizer (objective : String) (s : Engine P E L τ M) :
    exec (optimizer cfg b objective) s =
      (.ok (slotOptimizer cfg b objective s), { s with opts := withSlot cfg b objective s }) := by
  unfold optimizer slotOptimizer withSlot
  rw [exec_get_bind]
  cases s.opts.lookup (cfg.key objective) with
  | some opt => rfl
  | none => rfl

/-- The gradient that reaches the optimizer. -/
def clipped (cfg : EngineConfig) (b : Backend P E L G τ M) (grad : G) : G :=
  if 0 < cfg.gradClip then b.clip cfg.gradClip grad else grad

/-- The step of the slot's optimizer on a gradient. -/
def updateOf (cfg : EngineConfig) (b : Backend P E L G τ M) (objective : String)
    (s : Engine P E L τ M) (grad : G) : Except PyError (P × M) :=
  let opt := slotOptimizer cfg b objective s
  b.update opt.cls opt.lr s.params (clipped cfg b grad) opt.moments

/-- Where the backward pass or the optimizer raises, at most an optimizer has been made. -/
def unstepped (cfg : EngineConfig) (b : Backend P E L G τ M) (objective : String) (loss : L)
    (s : Engine P E L τ M) : Engine P E L τ M :=
  { s with opts := withSlot cfg b objective s, events := s.events ++ [.backward loss] }

/-- Where they return, the parameters and the slot are written. -/
def stepped (cfg : EngineConfig) (b : Backend P E L G τ M) (objective : String) (loss : L)
    (s : Engine P E L τ M) (params : P) (moments : M) : Engine P E L τ M :=
  let opt := slotOptimizer cfg b objective s
  { s with
    params, opts := s.opts.insert (cfg.key objective) { opt with moments }
    events := s.events ++ [.backward loss, .step (cfg.key objective) opt.lr] }

theorem exec_optimize (objective : String) (loss : L) (s : Engine P E L τ M) :
    exec (optimize cfg b objective loss) s =
      match b.backward s.params loss with
      | .error e => (.error e, unstepped cfg b objective loss s)
      | .ok grad =>
        match updateOf cfg b objective s grad with
        | .error e => (.error e, unstepped cfg b objective loss s)
        | .ok (params, moments) =>
          (.ok ⟨some loss, false⟩, stepped cfg b objective loss s params moments) := by
  unfold optimize
  rw [exec_bind, exec_optimizer]
  simp only [exec_get_bind, exec_record_bind, exec_ofExcept_bind]
  cases b.backward s.params loss with
  | error e => rfl
  | ok grad =>
    simp only [updateOf, clipped]
    cases b.update (slotOptimizer cfg b objective s).cls
        (slotOptimizer cfg b objective s).lr s.params
        (if 0 < cfg.gradClip then b.clip cfg.gradClip grad else grad)
        (slotOptimizer cfg b objective s).moments with
    | error e => rfl
    | ok new =>
      obtain ⟨params, moments⟩ := new
      simp only [exec_modify_bind, exec_record_bind, exec_pure, insert_withSlot, stepped,
        List.append_assoc, List.cons_append, List.nil_append]

end TrainEngine

end Trainfer
