import Trainfer.StepCases
import Mathlib.Logic.Function.Basic
import Mathlib.Algebra.BigOperators.Group.List.Basic

/-! `kto_loss` and the drift average that it keeps across calls. The log-ratios of the samples and
the loss at a given drift are parameters; what is kept under which key, and when, is the code's. -/

namespace Trainfer

variable {P L G τ M : Type}

/-- `_Z0_EMA`, by `float(beta)`: the process has one model. -/
abbrev Ema := ℚ → Option ℚ

/-- What `kto_loss` asks of the model, and the numbers that strings spell. -/
structure KtoModel (P L τ : Type) where
  parseFloat : String → Option ℚ
  /-- `beta * (policy - reference)`, one for each sample. -/
  logratio : P → List Sample → Kwargs τ → Except PyError (List ℚ)
  loss : P → List Sample → Kwargs τ → ℚ → Except PyError (Result L τ)

/-- The argument `z0_ema_alpha`; `none` is `None`. -/
def z0EmaAlpha (kwargs : Kwargs τ) : Option (Arg τ) :=
  match kwargs.get? "z0_ema_alpha" with
  | none => some (.json (.num (9 / 10)))
  | some (.json .null) => none
  | some alpha => some alpha

/-- The average after a batch mean, where it is kept at all. -/
def nextZ0 (parse : String → Option ℚ) (alpha : Option (Arg τ)) (prev : Option ℚ)
    (batchZ0 : ℚ) : Except PyError (Option ℚ) :=
  match alpha, prev with
  | none, _ => .ok prev
  | some _, none => .ok (some batchZ0)
  | some alpha, some prev => do
    let a ← floatOf parse alpha
    return some (a * prev + (1 - a) * batchZ0)

/-- `kto_loss`. -/
def ktoLoss (k : KtoModel P L τ) (p : P) (ema : Ema) (samples : Option (List Sample))
    (kwargs : Kwargs τ) : Except PyError (Result L τ) × Ema :=
  match samples with
  | none | some [] => (.error ⟨.valueError, "kto_loss requires at least one sample"⟩, ema)
  | some (s :: ss) =>
    let measured := do
      let ratios ← k.logratio p (s :: ss) kwargs
      let beta ← floatOf k.parseFloat ((kwargs.get? "beta").getD (.json (.num (1 / 10))))
      let batchZ0 := ratios.sum / ratios.length
      let next ← nextZ0 k.parseFloat (z0EmaAlpha kwargs) (ema beta) batchZ0
      return (beta, batchZ0, next)
    match measured with
    | .error e => (.error e, ema)
    | .ok (beta, batchZ0, next) =>
      -- a single sample is compared with the average of the calls before it
      let useEma := (z0EmaAlpha kwargs).isSome && ss.isEmpty
      let z0 := if useEma then (ema beta).getD batchZ0 else batchZ0
      (k.loss p (s :: ss) kwargs z0, Function.update ema beta next)

/-- The losses with `kto_loss` in its place; no other objective keeps anything between calls. -/
def withKto (k : KtoModel P L τ) (rest : Backend P Unit L G τ M) : Backend P Ema L G τ M where
  loss fn p ema samples kwargs :=
    if fn = "kto_loss" then ktoLoss k p ema samples kwargs
    else ((rest.loss fn p () samples kwargs).1, ema)
  backward := rest.backward
  clip := rest.clip
  moments := rest.moments
  update := rest.update
  emptyEma := fun _ => none

namespace TrainEngine

variable {k : KtoModel P L τ} {rest : Backend P Unit L G τ M} {p : P}

/-- Only calls of `kto_loss` move the average. -/
theorem drift_withKto_of_ne {event : EngineEvent L τ}
    (h : ∀ c, event.call? = some c → c.fn ≠ "kto_loss") (ema : Ema) :
    drift (withKto k rest) p ema event = ema := by
  unfold drift
  cases hc : event.call? with
  | none => rfl
  | some c =>
    simp only [evalCall]
    cases acceptCall c.fn c.samples c.kwargs with
    | error e => rfl
    | ok u => simp only [withKto, if_neg (h c hc)]

theorem foldl_drift_withKto {events : List (EngineEvent L τ)}
    (h : ∀ event ∈ events, ∀ c, event.call? = some c → c.fn ≠ "kto_loss") (ema : Ema) :
    events.foldl (drift (withKto k rest) p) ema = ema := by
  induction events with
  | nil => rfl
  | cons event events ih =>
    rw [List.foldl_cons, drift_withKto_of_ne (h event (.head _))]
    exact ih fun x hx => h x (.tail _ hx)

end TrainEngine

end Trainfer
