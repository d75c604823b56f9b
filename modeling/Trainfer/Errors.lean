import Mathlib.Data.List.Forall2

/-! Exceptions of the daemon: the closed taxonomy of structured errors and the
built-in Python exceptions that the modelled code raises or lets through. -/

namespace Trainfer

/-- The subclasses of `TrainferError`. -/
inductive ErrorCode where
  | internal
  | invalidInput
  | unknownObjective
  | unknownResponseId
  | notFound
  | queueFull
  | batchTooLarge
  | rateLimited
  | shuttingDown
  | shutdownDropped
  | timeout
  deriving DecidableEq, Repr

/-- The `retryable` class attribute: a hint to clients to back off and send again. -/
def ErrorCode.retryable : ErrorCode → Bool
  | .queueFull | .rateLimited | .shuttingDown | .shutdownDropped | .timeout => true
  | .internal | .invalidInput | .unknownObjective | .unknownResponseId | .notFound
  | .batchTooLarge => false

inductive ExcClass where
  | trainfer (code : ErrorCode)
  | valueError
  | keyError
  | typeError
  | indexError
  | attributeError
  | runtimeError
  | asyncioTimeout
  | fileNotFound
  | decodeError
  | other (name : String)
  deriving DecidableEq, Repr

/-- An exception object: its class and `str(exc)`. -/
structure PyError where
  cls : ExcClass
  message : String
  deriving DecidableEq, Repr

/-- What an HTTP client may take as "send the same request again". -/
def PyError.retryable (e : PyError) : Bool :=
  match e.cls with
  | .trainfer code => code.retryable
  | _ => false

theorem bind_ok {α β : Type} {x : Except PyError α} {f : α → Except PyError β} {b : β}
    (h : x >>= f = .ok b) : ∃ a, x = .ok a ∧ f a = .ok b := by
  cases x with
  | error e => cases h
  | ok a => exact ⟨a, rfl, h⟩

theorem forall₂_of_mapM {α β : Type} {f : α → Except PyError β} {xs : List α} {ys : List β}
    (h : xs.mapM f = .ok ys) : List.Forall₂ (fun x y => f x = .ok y) xs ys := by
  induction xs generalizing ys with
  | nil =>
    cases h
    exact .nil
  | cons x xs ih =>
    rw [List.mapM_cons] at h
    obtain ⟨y, hy, h⟩ := bind_ok h
    obtain ⟨ys', hys, h⟩ := bind_ok h
    cases h
    exact .cons hy (ih hys)

theorem mapM_of_forall₂ {α β : Type} {f : α → Except PyError β} {xs : List α} {ys : List β}
    (h : List.Forall₂ (fun x y => f x = .ok y) xs ys) : xs.mapM f = .ok ys := by
  induction h with
  | nil => rfl
  | cons hx _ ih =>
    rw [List.mapM_cons, hx, ih]
    rfl

theorem mapM_map_ok {α β : Type} {f : α → Except PyError β} {g : α → β} {xs : List α}
    (h : ∀ x ∈ xs, f x = .ok (g x)) : xs.mapM f = .ok (xs.map g) :=
  mapM_of_forall₂ (List.forall₂_map_right_iff.mpr (List.forall₂_same.mpr h))

/-- A loop returns iff each of its rounds does. -/
theorem exists_mapM_ok_iff {α β : Type} {f : α → Except PyError β} {xs : List α} :
    (∃ ys, xs.mapM f = .ok ys) ↔ ∀ x ∈ xs, ∃ y, f x = .ok y := by
  induction xs with
  | nil => exact ⟨fun _ x hx => (List.not_mem_nil hx).elim, fun _ => ⟨[], rfl⟩⟩
  | cons x xs ih =>
    rw [List.forall_mem_cons, ← ih, List.mapM_cons]
    constructor
    · rintro ⟨ys, h⟩
      obtain ⟨y, hy, h⟩ := bind_ok h
      obtain ⟨ys', hys, -⟩ := bind_ok h
      exact ⟨⟨y, hy⟩, ys', hys⟩
    · rintro ⟨⟨y, hy⟩, ys, hys⟩
      exact ⟨y :: ys, by rw [hy, hys]; rfl⟩

theorem mem_of_mapM {α β : Type} {f : α → Except PyError β} {xs : List α} {ys : List β}
    (h : xs.mapM f = .ok ys) (y : β) : y ∈ ys ↔ ∃ x ∈ xs, f x = .ok y := by
  have hall := forall₂_of_mapM h
  clear h
  induction hall with
  | nil => simp
  | cons hx _ ih => simp [ih, hx, eq_comm]

/-- Two loops whose rounds return related results return related lists. -/
theorem mapM_related {α β γ : Type} {f : α → Except PyError β} {g : α → Except PyError γ}
    {R : β → γ → Prop} {xs : List α} {ys : List β}
    (hround : ∀ x ∈ xs, ∀ y, f x = .ok y → ∃ z, g x = .ok z ∧ R y z)
    (h : xs.mapM f = .ok ys) : ∃ zs, xs.mapM g = .ok zs ∧ List.Forall₂ R ys zs := by
  induction xs generalizing ys with
  | nil =>
    cases h
    exact ⟨[], rfl, .nil⟩
  | cons x xs ih =>
    rw [List.mapM_cons] at h
    obtain ⟨y, hy, h⟩ := bind_ok h
    obtain ⟨ys', hys, h⟩ := bind_ok h
    cases h
    obtain ⟨z, hz, hyz⟩ := hround x (.head _) y hy
    obtain ⟨zs, hzs, hrest⟩ := ih (fun x' hx' => hround x' (.tail _ hx')) hys
    exact ⟨z :: zs, by rw [List.mapM_cons, hz, hzs]; rfl, .cons hyz hrest⟩

end Trainfer
