import Trainfer.Torch
import Mathlib.Logic.Function.Basic

/-! The live model state: base weights, the merged residual, and the active LoRA
adapter. The residual is kept three times, as a dictionary of CPU tensors, as an
attribute of each base layer's weight, and in a forward hook on each base layer. -/

namespace Trainfer

universe u

/-- A module that has `lora_A` and `lora_B`; `adapters` are the keys of both. -/
structure LoraSite where
  name : String
  adapters : List String
  hasBaseLayer : Bool
  deriving DecidableEq, Repr

/-- `"default" in module.lora_A`. -/
def LoraSite.hasDefault (s : LoraSite) : Bool := s.adapters.contains "default"

/-- The key of a site in `merged_deltas`. -/
def residualKey (name : String) : String := name ++ ".weight"

theorem residualKey_inj {a b : String} : residualKey a = residualKey b ↔ a = b := by
  simp [residualKey]

inductive LoraMatrix where
  | A
  | B
  deriving DecidableEq, Repr

/-- A name in `named_parameters()`; the first kind are those that contain `lora_A` or
`lora_B`. -/
inductive ParamName where
  | lora (site : String) (m : LoraMatrix) (adapter : String)
  | other (name : String)
  deriving DecidableEq, Repr

/-- What stays the same while a model is loaded. -/
structure Arch where
  sites : List LoraSite
  otherParams : List String
  nodup : (sites.map LoraSite.name).Nodup

namespace Arch

def loraParams (arch : Arch) : List ParamName :=
  arch.sites.flatMap fun s =>
    s.adapters.map (ParamName.lora s.name .A) ++ s.adapters.map (ParamName.lora s.name .B)

def params (arch : Arch) : List ParamName := arch.loraParams ++ arch.otherParams.map .other

end Arch

/-- The residual on a base layer: the attribute `_residual_delta` of its weight, and the
forward hooks registered on it, each under the number of its handle. -/
structure BaseLayer (T : Type u) where
  residualDelta : Option T
  hooks : List (Nat × T)
  deriving DecidableEq

structure ModelState (arch : Arch) (T : Type u) where
  param : ParamName → T
  base : String → BaseLayer T
  mergedDeltas : Dict T
  mergesApplied : Int
  /-- `_residual_hook_handles` -/
  hookHandles : Dict Nat
  nextHandle : Nat
  loraRank : Int
  loraAlpha : Int
  baseModelName : String

/-- What a reader finds at the path of a file. -/
inductive FileState (α : Type u) where
  | absent
  | corrupt (e : PyError)
  | present (a : α)

namespace ModelState

variable {arch : Arch} {T : Type u} [Torch T]

/-! ## Adapter -/

def resetActiveAdapter (st : ModelState arch T) : ModelState arch T :=
  { st with
    param := fun p => if p ∈ arch.loraParams then Torch.zero_ (st.param p) else st.param p }

/-- The LoRA parameters as `bfloat16` copies. -/
def extractActiveAdapter (st : ModelState arch T) : List (ParamName × T) :=
  arch.loraParams.map fun p => (p, Torch.cast .bfloat16 (st.param p))

/-- Copies tensor after tensor; a copy that raises leaves the earlier ones in place. -/
def loadActiveAdapter (st : ModelState arch T) :
    List (ParamName × T) → Except PyError Unit × ModelState arch T
  | [] => (.ok (), st)
  | (p, t) :: sd =>
    if p ∈ arch.params then
      match Torch.copy_ (st.param p) t with
      | .error e => (.error e, st)
      | .ok t' => loadActiveAdapter { st with param := Function.update st.param p t' } sd
    else loadActiveAdapter st sd

/-! ## Residual on the live model -/

/-- `handle.remove()`. -/
def removeHook (st : ModelState arch T) (handle : Nat) : ModelState arch T :=
  { st with
    base := fun n => { st.base n with hooks := (st.base n).hooks.filter fun h => h.1 != handle } }

/-- Bind the tensor to the weight, and replace the site's hook. -/
def bindDelta (st : ModelState arch T) (name : String) (delta : T) : ModelState arch T :=
  let st :=
    match st.hookHandles.lookup name with
    | none => st
    | some old => removeHook st old
  { st with
    base := Function.update st.base name
      ⟨some delta, (st.base name).hooks ++ [(st.nextHandle, delta)]⟩
    hookHandles := st.hookHandles.insert name st.nextHandle
    nextHandle := st.nextHandle + 1 }

/-- One turn of the loop in `_apply_residual_to_model`. -/
def bindSite (st : ModelState arch T) (s : LoraSite) : ModelState arch T :=
  if s.hasDefault then
    match st.mergedDeltas.lookup (residualKey s.name) with
    | none => st
    | some delta =>
      if s.hasBaseLayer then bindDelta st s.name (Torch.cast .bfloat16 delta) else st
  else st

def applyResidualToModel (st : ModelState arch T) : ModelState arch T :=
  if st.mergedDeltas.isEmpty then st else arch.sites.foldl bindSite st

/-- Remove every hook that has a stored handle, then the attributes. -/
def clearResidualFromModel (st : ModelState arch T) : ModelState arch T :=
  { st with
    base := fun n =>
      { residualDelta :=
          if arch.sites.any fun s => s.name == n && s.hasBaseLayer then none
          else (st.base n).residualDelta
        hooks := (st.base n).hooks.filter fun h =>
          !st.hookHandles.entries.any fun e => e.2 == h.1 }
    hookHandles := ∅ }

/-! ## Merge -/

/-- The new residual of one site; `none` where the loop goes on to the next module. -/
def siteDelta (st : ModelState arch T) (s : LoraSite) : Except PyError (Option T) :=
  if s.hasDefault then
    let A := st.param (.lora s.name .A "default")
    let B := st.param (.lora s.name .B "default")
    if Torch.isZero A && Torch.isZero B then .ok none
    else do
      let delta := Torch.mul (st.loraAlpha / st.loraRank)
        (Torch.cast .float32 (← Torch.matmul B A))
      match st.mergedDeltas.lookup (residualKey s.name) with
      | none => .ok (some (Torch.cast .bfloat16 delta))
      | some prev =>
        let sum ← Torch.add delta (Torch.cast .float32 prev)
        .ok (some (Torch.cast .bfloat16 sum))
  else .ok none

def newDeltas (st : ModelState arch T) : List LoraSite → Except PyError (Dict T)
  | [] => .ok ∅
  | s :: ss => do
    let delta ← siteDelta st s
    let rest ← newDeltas st ss
    match delta with
    | none => .ok rest
    | some t => .ok (rest.insert (residualKey s.name) t)

/-- Whatever raises in the merge raises before the state is written. -/
def mergeActiveIntoResidual (st : ModelState arch T) : Except PyError (ModelState arch T) :=
  if st.loraRank = 0 then .error ⟨.other "ZeroDivisionError", "division by zero"⟩
  else do
    let new ← newDeltas st arch.sites
    let st := { st with
      mergedDeltas := st.mergedDeltas.update new
      mergesApplied := st.mergesApplied + 1 }
    .ok (applyResidualToModel (resetActiveAdapter st))

/-- `load_residual`. A missing file empties the dictionary and nothing else. -/
def loadResidual (st : ModelState arch T) (file : FileState (Dict T)) :
    Except PyError Unit × ModelState arch T :=
  match file with
  | .absent => (.ok (), { st with mergedDeltas := ∅ })
  | .corrupt e => (.error e, st)
  | .present d => (.ok (), applyResidualToModel { st with mergedDeltas := d })

end ModelState

end Trainfer
