import Trainfer.Lib.Effect
import Trainfer.Torch
import Trainfer.UnlikeGate
import Mathlib.Algebra.Module.Defs
import Mathlib.Algebra.Module.Rat

/-! `TrainEngine`: one train step composes objectives, runs one backward pass and steps
one optimizer. The tensor work (losses, gradients, the optimizer's arithmetic) is a
parameter; which objective runs on what, and which optimizer is stepped, is the code's. -/

namespace Trainfer

open Effect

/-- `_SHARED_KEY` -/
def sharedKey : String := ""

/-- The constructor's arguments, whether `bitsandbytes` can be imported, and whether the
model state holds a frozen reference. -/
structure EngineConfig where
  lr : ℚ := 1 / 100000
  gradClip : ℚ := 1
  perObjective : Bool := false
  perObjectiveLr : Dict ℚ := ∅
  defaultWatchlist : List Int := []
  optimizerClass : String := "adamw8bit"
  bitsandbytes : Bool := false
  frozenRef : Bool := false

inductive OptimizerClass where
  | adamW
  | adamW8bit
  | lion8bit
  deriving DecidableEq, Repr

structure Optimizer (M : Type) where
  cls : OptimizerClass
  lr : ℚ
  moments : M

/-- A call of an objective, a backward pass, or `opt.step()` on the instance cached under
`key`. -/
inductive EngineEvent (L τ : Type) where
  | primary (name : String) (samples : Option (List Sample)) (kwargs : Kwargs τ)
  | batch (name : String) (samples : Option (List Sample)) (kwargs : Kwargs τ)
  | backward (loss : L)
  | step (key : String) (lr : ℚ)

/-- The trainable parameters, `_Z0_EMA`, `_opts`, and a log of what happened. -/
structure Engine (P E L τ M : Type) where
  params : P
  ema : E
  opts : Dict (Optimizer M) := ∅
  events : List (EngineEvent L τ) := []

/-- What torch and the loss functions compute. The loss of `unlike` is the part behind
its gate. -/
structure Backend (P E L G τ M : Type) where
  loss : String → P → E → Option (List Sample) → Kwargs τ → Except PyError (Result L τ) × E
  backward : P → L → Except PyError G
  clip : ℚ → G → G
  moments : M
  update : OptimizerClass → ℚ → P → G → M → Except PyError (P × M)
  emptyEma : E

structure StepOutcome (L : Type) where
  loss : Option L
  skipped : Bool

variable {P E L G τ M : Type}

abbrev EngineM (P E L τ M : Type) := Eff (Engine P E L τ M) PyError

namespace EngineConfig

/-- `self.per_objective_lr.get(name, self.lr)`. -/
def lrFor (cfg : EngineConfig) (name : String) : ℚ := (cfg.perObjectiveLr.lookup name).getD cfg.lr

/-- The slot of the optimizer map. -/
def key (cfg : EngineConfig) (objective : String) : String :=
  if cfg.perObjective then objective else sharedKey

/-- Class and rate of a new optimizer. -/
def newOptimizer (cfg : EngineConfig) (objective : String) (moments : M) : Optimizer M :=
  if cfg.perObjective then ⟨.adamW, cfg.lrFor objective, moments⟩
  else if cfg.optimizerClass = "lion8bit" then
    ⟨if cfg.bitsandbytes then .lion8bit else .adamW, cfg.lr, moments⟩
  else ⟨if cfg.bitsandbytes then .adamW8bit else .adamW, cfg.lr, moments⟩

end EngineConfig

namespace TrainSpec

/-- `spec.get("batch_objectives", []) or []`. -/
def batchList (spec : TrainSpec) : List JsonObject := (spec.batchObjectives.getD []).getD []

end TrainSpec

namespace EngineConfig

/-- What a primary is called with: the caller's arguments, and the plumbed ones where
the caller sends none. -/
def primaryKwargs (cfg : EngineConfig) (spec : TrainSpec) (name : String)
    (kwargs : JsonObject) : Kwargs τ :=
  let kwargs := Kwargs.ofJson kwargs
  let kwargs := if cfg.frozenRef then kwargs.setDefault "pi_ref" .piRef else kwargs
  let kwargs := kwargs.setDefault "effective_lr" (.json (.num (cfg.lrFor name)))
  kwargs.setDefault "batch_objectives" (.json (.list (spec.batchList.map .dict)))

/-- The batch tensors that `safety_monitor` takes over from a primary's result. -/
def plumbTensors (result : Result L τ) (kwargs : Kwargs τ) : Kwargs τ :=
  ["target_positions", "target_token_ids", "input_ids", "attention_mask"].foldl
    (fun kwargs key =>
      match result.tensors.lookup key with
      | some t => kwargs.setDefault key (.tensor t)
      | none => kwargs) kwargs

/-- What a batch objective is called with. `safety_monitor` gets the result and the rate
of the primary `primary`. -/
def batchKwargs (cfg : EngineConfig) (primary : String) (result : Result L τ)
    (name : String) (bo : JsonObject) : Kwargs τ :=
  let kwargs := Kwargs.ofJson (bo.filter fun e => e.1 != "name")
  let kwargs := if cfg.frozenRef then kwargs.setDefault "pi_ref" .piRef else kwargs
  if name = "safety_monitor" then
    let kwargs := plumbTensors result kwargs
    let kwargs := kwargs.setDefault "default_watchlist"
      (.json (.list (cfg.defaultWatchlist.map fun id => .num id)))
    kwargs.setDefault "effective_lr" (.json (.num (cfg.lrFor primary)))
  else kwargs

end EngineConfig

/-- `d[key]`, of a name. -/
def nameField (key : String) : Field String → Except PyError Value
  | .missing => .error ⟨.keyError, "'" ++ key ++ "'"⟩
  | .null => .ok .null
  | .val name => .ok (.str name)

/-- `get_objective(bo["name"])`. -/
def batchObjective (bo : JsonObject) : Except PyError (String × String) :=
  match bo.lookup "name" with
  | none => .error ⟨.keyError, "'name'"⟩
  | some name => getObjective name

/-- `dict(x)`, `list(x)` and `for … in x` on a field that may hold `None`. -/
def notNone {α : Type} : Option α → Except PyError α
  | some a => .ok a
  | none => .error ⟨.typeError, "'NoneType' object is not iterable"⟩

/-- `float(entry.get("weight", 1.0))`. -/
def entryWeight (entry : ObjectiveSpec) : Except PyError ℚ :=
  match entry.weight.getD 1 with
  | some w => .ok w
  | none => .error ⟨.typeError,
      "float() argument must be a string or a real number, not 'NoneType'"⟩

/-- What refuses a call before any tensor work: argument binding and the gate of `unlike`. -/
def acceptCall (fn : String) (samples : Option (List Sample)) (kwargs : Kwargs τ) :
    Except PyError Unit := do
  bindKwargs fn kwargs
  if fn = "unlike_loss" then
    -- the warnings go to the log
    let _ ← unlikeGate samples kwargs
  return ()

namespace TrainEngine

def record (event : EngineEvent L τ) : EngineM P E L τ M PUnit :=
  modify fun s => { s with events := s.events ++ [event] }

/-- `fn(model, tokenizer, samples, **kwargs)`. -/
def callLoss (b : Backend P E L G τ M) (fn : String) (samples : Option (List Sample))
    (kwargs : Kwargs τ) : EngineM P E L τ M (Result L τ) := do
  ofExcept (acceptCall fn samples kwargs)
  let s ← get
  modify fun s' => { s' with ema := (b.loss fn s.params s.ema samples kwargs).2 }
  ofExcept (b.loss fn s.params s.ema samples kwargs).1

def callPrimary (cfg : EngineConfig) (b : Backend P E L G τ M) (spec : TrainSpec) (name : Value)
    (samples : Option (List Sample)) (kwargs : JsonObject) :
    EngineM P E L τ M (String × Result L τ) := do
  let (name, fn) ← ofExcept (getObjective name)
  record (.primary name samples (cfg.primaryKwargs spec name kwargs))
  let result ← callLoss b fn samples (cfg.primaryKwargs spec name kwargs)
  return (name, result)

/-- One round of the loop over `batch_objectives`. -/
def callBatch (cfg : EngineConfig) (b : Backend P E L G τ M) (primary : String)
    (first : Result L τ) (samples : Option (List Sample)) (bo : JsonObject) :
    EngineM P E L τ M (Option L) := do
  let (name, fn) ← ofExcept (batchObjective bo)
  record (.batch name samples (cfg.batchKwargs primary first name bo))
  let result ← callLoss b fn samples (cfg.batchKwargs primary first name bo)
  return result.loss

/-- `_optimizer`. -/
def optimizer (cfg : EngineConfig) (b : Backend P E L G τ M) (objective : String) :
    EngineM P E L τ M (Optimizer M) := do
  let s ← get
  match s.opts.lookup (cfg.key objective) with
  | some opt => return opt
  | none =>
    let opt := cfg.newOptimizer objective b.moments
    modify fun s => { s with opts := s.opts.insert (cfg.key objective) opt }
    return opt

/-- One backward pass and one optimizer step. -/
def optimize (cfg : EngineConfig) (b : Backend P E L G τ M) (objective : String) (loss : L) :
    EngineM P E L τ M (StepOutcome L) := do
  let opt ← optimizer cfg b objective
  let s ← get
  record (.backward loss)
  let grad ← ofExcept (b.backward s.params loss)
  let grad := if 0 < cfg.gradClip then b.clip cfg.gradClip grad else grad
  let (params, moments) ← ofExcept (b.update opt.cls opt.lr s.params grad opt.moments)
  modify fun s => { s with
    params, opts := s.opts.insert (cfg.key objective) { opt with moments } }
  record (.step (cfg.key objective) opt.lr)
  return ⟨some loss, false⟩

variable [AddCommGroup L] [Module ℚ L]

/-- `(loss if loss is not None else 0.0) + bo_loss`, unless `bo_loss` is `None`. -/
def addLoss (loss boLoss : Option L) : Option L :=
  match boLoss with
  | none => loss
  | some l => some (loss.getD 0 + l)

/-- `step`, with one objective. -/
def stepSingle (cfg : EngineConfig) (b : Backend P E L G τ M) (spec : TrainSpec) :
    EngineM P E L τ M (StepOutcome L) := do
  let name ← ofExcept (nameField "objective" spec.objective)
  let samples := spec.samples.getD []
  let kwargs ← ofExcept (notNone (spec.kwargs.getD []))
  let (name, result) ← callPrimary cfg b spec name samples kwargs
  let bos ← ofExcept (notNone (spec.batchObjectives.getD []))
  let loss ← bos.foldlM (fun loss bo => do
    let boLoss ← callBatch cfg b name result samples bo
    return addLoss loss boLoss) result.loss
  match loss with
  | none => return ⟨none, true⟩
  | some loss => optimize cfg b name loss

/-- The loop variables of `_step_multi`. -/
structure MultiState (L τ : Type) where
  total : Option L := none
  first : Option (Result L τ) := none
  skippedAll : Bool := true

/-- One round of the loop over the primaries. -/
def primaryStep (cfg : EngineConfig) (b : Backend P E L G τ M) (spec : TrainSpec)
    (defaultSamples : Option (List Sample)) (defaultKwargs : JsonObject)
    (acc : MultiState L τ) (entry : ObjectiveSpec) : EngineM P E L τ M (MultiState L τ) := do
  let name ← ofExcept (nameField "name" entry.name)
  let weight ← ofExcept (entryWeight entry)
  let samples := entry.samples.get?.or defaultSamples
  let kwargs := entry.kwargs.get?.getD defaultKwargs
  let (_, result) ← callPrimary cfg b spec name samples kwargs
  let first := acc.first.or (some result)
  match result.loss with
  | none => return { acc with first }
  | some subLoss =>
    let weighted := weight • subLoss
    let total := match acc.total with
      | none => weighted
      | some total => total + weighted
    return ⟨some total, first, false⟩

/-- The samples of the batch objectives: the spec's own, else the first non-empty list of
an entry. -/
def boSamples (primaries : List ObjectiveSpec) (defaultSamples : List Sample) : List Sample :=
  if defaultSamples.isEmpty then
    (primaries.findSome? fun entry => entry.samples.get?.filter fun ss => !ss.isEmpty).getD []
  else defaultSamples

/-- `primaries[0]["name"]`. -/
def firstName (primaries : List ObjectiveSpec) : String :=
  (primaries.head?.bind fun entry => entry.name.get?).getD ""

/-- `_step_multi`. -/
def stepMulti (cfg : EngineConfig) (b : Backend P E L G τ M) (spec : TrainSpec)
    (primaries : List ObjectiveSpec) : EngineM P E L τ M (StepOutcome L) := do
  let defaultSamples := spec.samples.getD []
  let defaultKwargs ← ofExcept (notNone (spec.kwargs.getD []))
  let acc ← primaries.foldlM (primaryStep cfg b spec defaultSamples defaultKwargs) {}
  let defaultSamples ← ofExcept (notNone defaultSamples)
  let samples := some (boSamples primaries defaultSamples)
  -- some primary has returned: `first_result` is not `None`
  let first := acc.first.getD ⟨none, []⟩
  let acc ← spec.batchList.foldlM (fun acc bo => do
    let boLoss ← callBatch cfg b (firstName primaries) first samples bo
    return { acc with
      total := addLoss acc.total boLoss
      skippedAll := acc.skippedAll && boLoss.isNone }) acc
  match acc.total, acc.skippedAll with
  | some total, false => optimize cfg b sharedKey total
  | _, _ => return ⟨none, true⟩

/-- `step`. -/
def step (cfg : EngineConfig) (b : Backend P E L G τ M) (spec : TrainSpec) :
    EngineM P E L τ M (StepOutcome L) :=
  match spec.hasObjs, spec.objectives.get? with
  | true, some primaries => stepMulti cfg b spec primaries
  | _, _ => stepSingle cfg b spec

/-- `reset_optimizer`. -/
def resetOptimizer (b : Backend P E L G τ M) (s : Engine P E L τ M) : Engine P E L τ M :=
  { s with opts := ∅, ema := b.emptyEma }

/-- What the engine goes through: train steps, resets, and weights that other tasks of the
worker put in place. -/
inductive EngineTask (P : Type) where
  | step (spec : TrainSpec)
  | resetOptimizer
  | weights (params : P)

/-- A train step from `s`; the events are those of this step. -/
def trainStep (cfg : EngineConfig) (b : Backend P E L G τ M) (spec : TrainSpec)
    (s : Engine P E L τ M) : Except PyError (StepOutcome L) × Engine P E L τ M :=
  exec (step cfg b spec) { s with events := [] }

def run (cfg : EngineConfig) (b : Backend P E L G τ M) (s : Engine P E L τ M) :
    EngineTask P → Engine P E L τ M
  | .step spec => (trainStep cfg b spec s).2
  | .resetOptimizer => resetOptimizer b s
  | .weights params => { s with params }

/-- The engine after a history. -/
def after (cfg : EngineConfig) (b : Backend P E L G τ M) (params : P)
    (history : List (EngineTask P)) : Engine P E L τ M :=
  history.foldl (run cfg b) { params, ema := b.emptyEma }

end TrainEngine

/-! ## One trainable number -/

/-- Every loss is the parameter itself; `safety_monitor` wants the tensors of a primary. -/
def scalarBackend : Backend ℚ Unit (ℚ × ℚ) ℚ Unit Unit where
  loss fn p e _ kwargs :=
    if fn = "safety_monitor_loss" then
      if (kwargs.get? "target_positions").isSome then (.ok ⟨some 0, []⟩, e)
      else (.error ⟨.runtimeError, "safety_monitor requires target_positions from the " ++
        "preceding main objective; the objective does not yet expose them. " ++
        "See safety-monitor-primitive.md."⟩, e)
    else (.ok ⟨some (p, 1), [("target_positions", ())]⟩, e)
  backward _ loss := .ok loss.2
  clip bound grad := if bound < grad then bound else grad
  moments := ()
  update _ lr p grad m := .ok (p - lr * grad, m)
  emptyEma := ()

end Trainfer
