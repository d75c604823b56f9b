import Mathlib.Data.Rat.Defs
import Mathlib.Data.List.Basic

/-! Request data: the JSON values a body is decoded to, train specs, and what the
compute queue carries. -/

namespace Trainfer

/-- A decoded JSON value. Numbers are exact. -/
inductive Value where
  | null
  | bool (b : Bool)
  | num (q : ℚ)
  | str (s : String)
  | list (vs : List Value)
  | dict (entries : List (String × Value))

/-- A dictionary with string keys. -/
abbrev JsonObject := List (String × Value)

abbrev Sample := JsonObject

/-- What a dictionary holds under one key of known type. -/
inductive Field (α : Type) where
  | missing
  | null
  | val (a : α)
  deriving DecidableEq, Repr

namespace Field

variable {α : Type}

/-- `d.get(key, default)`; `none` is Python's `None`. -/
def getD (default : α) : Field α → Option α
  | missing => some default
  | null => none
  | val a => some a

/-- `d.get(key)`. -/
def get? : Field α → Option α
  | missing => none
  | null => none
  | val a => some a

@[simp] theorem getD_missing (d : α) : (missing : Field α).getD d = some d := rfl

@[simp] theorem getD_null (d : α) : (null : Field α).getD d = none := rfl

@[simp] theorem getD_val (d a : α) : (val a).getD d = some a := rfl

end Field

/-- One entry of `objectives`. -/
structure ObjectiveSpec where
  name : Field String
  weight : Field ℚ := .missing
  samples : Field (List Sample) := .missing
  kwargs : Field JsonObject := .missing
  extra : JsonObject := []

/-- A train spec: the keys that the daemon reads, and the rest. -/
structure TrainSpec where
  objective : Field String := .missing
  objectives : Field (List ObjectiveSpec) := .missing
  samples : Field (List Sample) := .missing
  batchObjectives : Field (List JsonObject) := .missing
  kwargs : Field JsonObject := .missing
  chunkSize : Field Int := .missing
  extra : JsonObject := []

namespace TrainSpec

/-- `"objective" in spec and spec.get("objective")`, as a truth value. -/
def hasObj (spec : TrainSpec) : Bool :=
  match spec.objective.get? with
  | none => false
  | some name => name != ""

def hasObjs (spec : TrainSpec) : Bool :=
  match spec.objectives.get? with
  | none => false
  | some objs => !objs.isEmpty

end TrainSpec

/-- The payloads that the controller submits: a spec with the kind `"train"`, `{}`
with `"merge"` and `"reset_adapter"`, a name with the two snapshot kinds, and a pair
of texts with `"eval_greedy_rank"`. -/
inductive Payload where
  | train (spec : TrainSpec)
  | empty
  | named (name : String)
  | evalPoint (prompt response : String)

end Trainfer
