import Trainfer.Errors
import Trainfer.TrainSpec

/-! Keyword arguments of objectives, their results, and the objective registry. -/

namespace Trainfer

namespace Value

/-- `bool(v)`. -/
def truthy : Value → Bool
  | null => false
  | bool b => b
  | num q => q != 0
  | str s => s != ""
  | list vs => !vs.isEmpty
  | dict entries => !entries.isEmpty

/-- `type(v).__name__`, with the integral numbers as `int`. -/
def typeName : Value → String
  | null => "NoneType"
  | bool _ => "bool"
  | num q => if q.den = 1 then "int" else "float"
  | str _ => "str"
  | list _ => "list"
  | dict _ => "dict"

/-- `iter(v)`. -/
def iter : Value → Except PyError (List Value)
  | list vs => .ok vs
  | dict entries => .ok (entries.map fun e => .str e.1)
  | str s => .ok (s.toList.map fun c => .str (String.singleton c))
  | v => .error ⟨.typeError, "'" ++ v.typeName ++ "' object is not iterable"⟩

/-- `v.get`, which only a dictionary has. -/
def asDict : Value → Except PyError JsonObject
  | dict entries => .ok entries
  | v => .error ⟨.attributeError, "'" ++ v.typeName ++ "' object has no attribute 'get'"⟩

/-- `hash(v)`, which a set asks of its elements. -/
def checkHashable : Value → Except PyError Unit
  | list _ => .error ⟨.typeError, "unhashable type: 'list'"⟩
  | dict _ => .error ⟨.typeError, "unhashable type: 'dict'"⟩
  | _ => .ok ()

/-- `v == w` on hashable values; `True` is `1`. -/
def scalarEq : Value → Value → Bool
  | null, null => true
  | bool b, bool c => b == c
  | bool b, num q | num q, bool b => q == if b then 1 else 0
  | num q, num r => q == r
  | str s, str t => s == t
  | _, _ => false

def isStr (text : String) : Value → Bool
  | str s => s == text
  | _ => false

end Value

/-- A keyword argument: a JSON value, the frozen reference model, or a batch tensor of
an objective's result. -/
inductive Arg (τ : Type) where
  | json (v : Value)
  | piRef
  | tensor (t : τ)

def Arg.json? {τ : Type} : Arg τ → Option Value
  | json v => some v
  | _ => none

/-- `float(v)`; `parse` is the number that a string spells. -/
def floatOf {τ : Type} (parse : String → Option ℚ) : Arg τ → Except PyError ℚ
  | .json (.num q) => .ok q
  | .json (.bool b) => .ok (if b then 1 else 0)
  | .json (.str s) =>
    match parse s with
    | some q => .ok q
    | none => .error ⟨.valueError, "could not convert string to float: '" ++ s ++ "'"⟩
  | .json v => .error ⟨.typeError,
      "float() argument must be a string or a real number, not '" ++ v.typeName ++ "'"⟩
  | .piRef | .tensor _ =>
    .error ⟨.typeError, "float() argument must be a string or a real number"⟩

abbrev Kwargs (τ : Type) := List (String × Arg τ)

namespace Kwargs

variable {τ : Type}

def ofJson (d : JsonObject) : Kwargs τ := d.map fun e => (e.1, .json e.2)

def get? (kwargs : Kwargs τ) (key : String) : Option (Arg τ) := kwargs.lookup key

/-- `if key not in kwargs: kwargs[key] = arg`, and `kwargs.setdefault(key, arg)`. -/
def setDefault (kwargs : Kwargs τ) (key : String) (arg : Arg τ) : Kwargs τ :=
  if (kwargs.get? key).isSome then kwargs else kwargs ++ [(key, arg)]

theorem get?_ofJson (d : JsonObject) (key : String) :
    (ofJson d : Kwargs τ).get? key = (d.lookup key).map .json := by
  induction d with
  | nil => rfl
  | cons e d ih =>
    obtain ⟨k, v⟩ := e
    simp only [ofJson, List.map_cons, get?, List.lookup_cons] at ih ⊢
    cases key == k with
    | true => rfl
    | false => exact ih

theorem get?_append_one (kwargs : Kwargs τ) (key key' : String) (arg : Arg τ) :
    Kwargs.get? (kwargs ++ [(key, arg)]) key' =
      (kwargs.get? key').or (if key' = key then some arg else none) := by
  simp only [get?, List.lookup_append, List.lookup_cons, List.lookup_nil]
  by_cases h : key' = key
  · simp [h]
  · have hb : (key' == key) = false := by simpa using h
    simp [h, hb]

@[simp] theorem get?_setDefault_self (kwargs : Kwargs τ) (key : String) (arg : Arg τ) :
    (kwargs.setDefault key arg).get? key = some ((kwargs.get? key).getD arg) := by
  unfold setDefault
  cases h : kwargs.get? key with
  | some a => simp [h]
  | none => simp [get?_append_one, h]

theorem get?_setDefault_ne (kwargs : Kwargs τ) {key key' : String} (arg : Arg τ)
    (hne : key' ≠ key) : (kwargs.setDefault key arg).get? key' = kwargs.get? key' := by
  unfold setDefault
  split
  · rfl
  · simp [get?_append_one, hne]

end Kwargs

/-- What an objective returns: its loss, `None` when it skips, and the batch tensors
that `safety_monitor` reads, by key. -/
structure Result (L τ : Type) where
  loss : Option L
  tensors : List (String × τ) := []

/-- The registry, with the name of each loss function. -/
def OBJECTIVES : List (String × String) :=
  [("sft", "sft_loss"), ("weighted_sft", "weighted_sft_loss"), ("ntp", "ntp_loss"),
    ("kto", "kto_loss"), ("coh", "coh_loss"), ("hinge", "hinge_contrastive_loss"),
    ("kl_anchor", "kl_anchor_loss"), ("safety_monitor", "safety_monitor_loss"),
    ("unlike", "unlike_loss"), ("ccd", "ccd_loss"), ("ccpd_v2", "ccpd_v2_loss")]

/-- `repr(v)` of a hashable value. -/
def Value.reprScalar : Value → String
  | null => "None"
  | bool b => if b then "True" else "False"
  | num q => toString q
  | str s => "'" ++ s ++ "'"
  | v => v.typeName

/-- `str` of a `KeyError` is the `repr` of its message. -/
def unknownObjective (name : Value) : PyError :=
  ⟨.keyError, "\"unknown objective " ++ name.reprScalar ++ "; registered: ['ccd', 'ccpd_v2', " ++
    "'coh', 'hinge', 'kl_anchor', 'kto', 'ntp', 'safety_monitor', 'sft', 'unlike', " ++
    "'weighted_sft']\""⟩

/-- The registered name and its loss function. -/
def getObjective (name : Value) : Except PyError (String × String) := do
  name.checkHashable
  match name with
  | .str key =>
    match OBJECTIVES.lookup key with
    | some fn => return (key, fn)
    | none => throw (unknownObjective name)
  | _ => throw (unknownObjective name)

/-- Every loss function takes `model`, `tokenizer` and `samples` by position, so none of
them may come by keyword too. -/
def bindKwargs {τ : Type} (fn : String) (kwargs : Kwargs τ) : Except PyError Unit :=
  match ["model", "tokenizer", "samples"].find? fun key => (kwargs.get? key).isSome with
  | none => .ok ()
  | some key => .error ⟨.typeError, fn ++ "() got multiple values for argument '" ++ key ++ "'"⟩

end Trainfer
