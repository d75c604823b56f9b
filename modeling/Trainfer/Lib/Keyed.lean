import Mathlib.Data.List.Basic
import Mathlib.Logic.Function.Basic

/-! A machine for each key of a store. A machine starts with its first input, from no state.

What the machine of one key answers depends on the inputs of that key only (`ofKey_runKeyed`), so
a property of one machine on its own inputs holds for each key of a store. -/

namespace Keyed

universe u v w x
variable {κ : Type u} {ι : Type v} {σ : Type w} {ο : Type x}

/-! ## One machine -/

/-- The answers of a machine. -/
def run (step : Option σ → ι → ο × σ) : Option σ → List ι → List ο
  | _, [] => []
  | state, input :: inputs =>
    (step state input).1 :: run step (some (step state input).2) inputs

/-- The state that the inputs leave. -/
def final (step : Option σ → ι → ο × σ) : Option σ → List ι → Option σ
  | state, [] => state
  | state, input :: inputs => final step (some (step state input).2) inputs

/-! ## A store of machines -/

variable [DecidableEq κ]

/-- The answers of the machines of a store, with their keys. -/
def runKeyed (step : Option σ → ι → ο × σ) : (κ → Option σ) → List (κ × ι) → List (κ × ο)
  | _, [] => []
  | store, (key, input) :: inputs =>
    (key, (step (store key) input).1) ::
      runKeyed step (Function.update store key (some (step (store key) input).2)) inputs

def finalKeyed (step : Option σ → ι → ο × σ) : (κ → Option σ) → List (κ × ι) → κ → Option σ
  | store, [] => store
  | store, (key, input) :: inputs =>
    finalKeyed step (Function.update store key (some (step (store key) input).2)) inputs

/-- What belongs to one key. -/
def ofKey {β : Type*} (key : κ) (entries : List (κ × β)) : List β :=
  (entries.filter fun e => e.1 = key).map Prod.snd

variable {key other : κ}

@[simp] theorem ofKey_cons_self {β : Type*} (b : β) (entries : List (κ × β)) :
    ofKey key ((key, b) :: entries) = b :: ofKey key entries := by
  simp [ofKey]

theorem ofKey_cons_ne {β : Type*} (hne : other ≠ key) (b : β) (entries : List (κ × β)) :
    ofKey key ((other, b) :: entries) = ofKey key entries := by
  simp [ofKey, hne]

theorem ofKey_map {β : Type*} (keyOf : β → κ) (key : κ) (xs : List β) :
    ofKey key (xs.map fun x => (keyOf x, x)) = xs.filter fun x => keyOf x = key := by
  simp [ofKey, List.filter_map, Function.comp_def]

/-- The machine of a key runs as if it were alone. -/
theorem ofKey_runKeyed (step : Option σ → ι → ο × σ) (store : κ → Option σ) (key : κ)
    (inputs : List (κ × ι)) :
    ofKey key (runKeyed step store inputs) = run step (store key) (ofKey key inputs) := by
  induction inputs generalizing store with
  | nil => rfl
  | cons entry inputs ih =>
    obtain ⟨other, input⟩ := entry
    rw [runKeyed]
    by_cases hkey : other = key
    · subst hkey
      rw [ofKey_cons_self, ofKey_cons_self, ih, Function.update_self, run]
    · rw [ofKey_cons_ne hkey, ofKey_cons_ne hkey, ih, Function.update_of_ne (Ne.symm hkey)]

theorem finalKeyed_apply (step : Option σ → ι → ο × σ) (store : κ → Option σ) (key : κ)
    (inputs : List (κ × ι)) :
    finalKeyed step store inputs key = final step (store key) (ofKey key inputs) := by
  induction inputs generalizing store with
  | nil => rfl
  | cons entry inputs ih =>
    obtain ⟨other, input⟩ := entry
    rw [finalKeyed, ih]
    by_cases hkey : other = key
    · subst hkey
      rw [ofKey_cons_self, Function.update_self, final]
    · rw [ofKey_cons_ne hkey, Function.update_of_ne (Ne.symm hkey)]

end Keyed
