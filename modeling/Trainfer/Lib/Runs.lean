import Mathlib.Logic.Basic

/-! Runs of a partial labelled step function. A label that is not enabled in a
state has no successor, so a list of labels is a run exactly when `exec` returns
a state. `Meets` says that every step of a run is taken in a state that satisfies
a side condition, and `exec_invariant` is the induction over runs. `emitted` collects what
the steps of a run show. -/

namespace Runs

universe u v
variable {σ : Type u} {α : Type v}

/-- Take the labels in order; `none` as soon as one of them is not enabled. -/
def exec (step : σ → α → Option σ) (s : σ) : List α → Option σ
  | [] => some s
  | a :: as => (step s a).bind fun t => exec step t as

/-- Every step of the run from `s` is taken where `guard` holds. -/
def Meets (step : σ → α → Option σ) (guard : σ → α → Prop) (s : σ) : List α → Prop
  | [] => True
  | a :: as => guard s a ∧ ∀ t, step s a = some t → Meets step guard t as

variable {step : σ → α → Option σ} {guard : σ → α → Prop}

@[simp] theorem exec_cons (s : σ) (a : α) (as : List α) :
    exec step s (a :: as) = (step s a).bind fun t => exec step t as := rfl

theorem exec_cons_some {s u : σ} {a : α} {as : List α} :
    exec step s (a :: as) = some u ↔ ∃ t, step s a = some t ∧ exec step t as = some u := by
  simp [Option.bind_eq_some_iff]

theorem exec_append (s : σ) (as bs : List α) :
    exec step s (as ++ bs) = (exec step s as).bind fun t => exec step t bs := by
  induction as generalizing s with
  | nil => rfl
  | cons a as ih =>
    simp only [List.cons_append, exec_cons]
    cases step s a with
    | none => rfl
    | some t => exact ih t

theorem exec_append_some {s u : σ} {as bs : List α} :
    exec step s (as ++ bs) = some u ↔
      ∃ t, exec step s as = some t ∧ exec step t bs = some u := by
  rw [exec_append, Option.bind_eq_some_iff]

/-- **Invariant rule.** What holds at the start and is kept by every step whose
guard holds is true at the end of every run that meets the guard. -/
theorem exec_invariant {I : σ → Prop}
    (hstep : ∀ s a t, I s → guard s a → step s a = some t → I t)
    {s t : σ} {as : List α} (hs : I s) (hrun : exec step s as = some t)
    (hg : Meets step guard s as) : I t := by
  induction as generalizing s with
  | nil =>
    cases hrun
    exact hs
  | cons a as ih =>
    obtain ⟨m, hm, hrun⟩ := exec_cons_some.mp hrun
    exact ih (hstep s a m hs hg.1 hm) hrun (hg.2 m hm)

theorem meets_of_forall (hg : ∀ s a, guard s a) (s : σ) (as : List α) :
    Meets step guard s as := by
  induction as generalizing s with
  | nil => trivial
  | cons a as ih => exact ⟨hg s a, fun t _ => ih t⟩

/-- A condition on the labels alone. -/
theorem meets_of_mem {P : α → Prop} {as : List α} (h : ∀ a ∈ as, P a) (s : σ) :
    Meets step (fun _ a => P a) s as := by
  induction as generalizing s with
  | nil => trivial
  | cons a as ih =>
    exact ⟨h a List.mem_cons_self, fun t _ => ih (fun b hb => h b (List.mem_cons_of_mem a hb)) t⟩

/-- The invariant rule without a side condition. -/
theorem exec_preserves {I : σ → Prop} (hstep : ∀ s a t, I s → step s a = some t → I t)
    {s t : σ} {as : List α} (hs : I s) (hrun : exec step s as = some t) : I t :=
  exec_invariant (fun s a t hs (_ : True) => hstep s a t hs) hs hrun
    (meets_of_forall (fun _ _ => trivial) s as)

instance decidableMeets [∀ s a, Decidable (guard s a)] :
    ∀ (s : σ) (as : List α), Decidable (Meets step guard s as)
  | _, [] => .isTrue trivial
  | s, a :: as =>
    match h : step s a with
    | none => decidable_of_iff (guard s a) ⟨fun hg => ⟨hg, by simp [h]⟩, And.left⟩
    | some t =>
      have := decidableMeets t as
      decidable_of_iff (guard s a ∧ Meets step guard t as)
        ⟨fun hg => ⟨hg.1, by simpa [h] using hg.2⟩, fun hg => ⟨hg.1, hg.2 t h⟩⟩

theorem Meets.cons {s t : σ} {a : α} {as : List α} (hg : guard s a) (ht : step s a = some t)
    (h : Meets step guard t as) : Meets step guard s (a :: as) := by
  refine ⟨hg, fun u hu => ?_⟩
  obtain rfl := Option.some.inj (ht.symm.trans hu)
  exact h

theorem Meets.left {s : σ} {as bs : List α} (h : Meets step guard s (as ++ bs)) :
    Meets step guard s as := by
  induction as generalizing s with
  | nil => trivial
  | cons a as ih => exact ⟨h.1, fun t ht => ih (h.2 t ht)⟩

theorem Meets.right {s t : σ} {as bs : List α} (h : Meets step guard s (as ++ bs))
    (ht : exec step s as = some t) : Meets step guard t bs := by
  induction as generalizing s with
  | nil =>
    cases ht
    exact h
  | cons a as ih =>
    obtain ⟨m, hm, ht⟩ := exec_cons_some.mp ht
    exact ih (h.2 m hm) ht

theorem Meets.and {guard' : σ → α → Prop} {s : σ} {as : List α} (h : Meets step guard s as)
    (h' : Meets step guard' s as) : Meets step (fun s a => guard s a ∧ guard' s a) s as := by
  induction as generalizing s with
  | nil => trivial
  | cons a as ih => exact ⟨⟨h.1, h'.1⟩, fun t ht => ih (h.2 t ht) (h'.2 t ht)⟩

theorem Meets.imp {guard' : σ → α → Prop} {s : σ} {as : List α} (h : Meets step guard s as)
    (himp : ∀ s a, guard s a → guard' s a) : Meets step guard' s as := by
  induction as generalizing s with
  | nil => trivial
  | cons a as ih => exact ⟨himp s a h.1, fun t ht => ih (h.2 t ht)⟩

/-! ## What a run shows -/

/-- What the steps of the run from `s` emit, in order. -/
def emitted {β : Type*} (step : σ → α → Option σ) (emit : σ → α → List β) (s : σ) :
    List α → List β
  | [] => []
  | a :: as =>
    match step s a with
    | none => []
    | some t => emit s a ++ emitted step emit t as

/-- What every step appends its emission to has been appended the emissions of the run. -/
theorem exec_emitted {β : Type*} {emit : σ → α → List β} {f : σ → List β}
    (hstep : ∀ s a t, step s a = some t → f t = f s ++ emit s a) {s t : σ} {as : List α}
    (hrun : exec step s as = some t) : f t = f s ++ emitted step emit s as := by
  induction as generalizing s with
  | nil =>
    cases hrun
    simp [emitted]
  | cons a as ih =>
    obtain ⟨m, hm, hrun⟩ := exec_cons_some.mp hrun
    rw [ih hrun, hstep s a m hm, List.append_assoc, emitted, hm]

/-- Emissions that do not depend on the state. -/
theorem emitted_eq_flatMap {β : Type*} {g : α → List β} {s t : σ} {as : List α}
    (hrun : exec step s as = some t) : emitted step (fun _ a => g a) s as = as.flatMap g := by
  induction as generalizing s with
  | nil => rfl
  | cons a as ih =>
    obtain ⟨m, hm, hrun⟩ := exec_cons_some.mp hrun
    rw [emitted, hm, List.flatMap_cons]
    exact congrArg (g a ++ ·) (ih hrun)

/-- An observer that sees the labels only keeps up with the run. -/
theorem exec_observed {τ : Type*} {view : τ → α → τ} {R : σ → τ → Prop}
    (hstep : ∀ s a t w, R s w → step s a = some t → R t (view w a)) {s t : σ} {w : τ}
    {as : List α} (hs : R s w) (hrun : exec step s as = some t) : R t (as.foldl view w) := by
  induction as generalizing s w with
  | nil =>
    cases hrun
    exact hs
  | cons a as ih =>
    obtain ⟨m, hm, hrun⟩ := exec_cons_some.mp hrun
    exact ih (hstep s a m w hs hm) hrun

/-! ## Every state of a run -/

/-- `P` holds in every state of the run from `s`. -/
def Always (step : σ → α → Option σ) (P : σ → Prop) (s : σ) : List α → Prop
  | [] => P s
  | a :: as => P s ∧ ∀ t, step s a = some t → Always step P t as

theorem Always.head {P : σ → Prop} {s : σ} {as : List α} (h : Always step P s as) : P s := by
  cases as with
  | nil => exact h
  | cons a as => exact h.1

theorem Always.last {P : σ → Prop} {s t : σ} {as : List α} (h : Always step P s as)
    (hrun : exec step s as = some t) : P t := by
  induction as generalizing s with
  | nil =>
    cases hrun
    exact h
  | cons a as ih =>
    obtain ⟨m, hm, hrun⟩ := exec_cons_some.mp hrun
    exact ih (h.2 m hm) hrun

/-- The invariant rule for every state of a run. -/
theorem always_of_meets {I P : σ → Prop}
    (hstep : ∀ s a t, I s → guard s a → step s a = some t → I t) (hP : ∀ s, I s → P s)
    {s : σ} {as : List α} (hs : I s) (hg : Meets step guard s as) : Always step P s as := by
  induction as generalizing s with
  | nil => exact hP s hs
  | cons a as ih => exact ⟨hP s hs, fun t ht => ih (hstep s a t hs hg.1 ht) (hg.2 t ht)⟩

/-- If a step that is taken where `I` and `P` hold keeps `P` exactly when its guard holds,
then `P` holds throughout a run exactly when every step meets its guard. -/
theorem always_iff_meets {I P : σ → Prop} (htot : ∀ s a, ∃ t, step s a = some t)
    (hI : ∀ s a t, I s → step s a = some t → I t)
    (hP : ∀ s a t, I s → P s → step s a = some t → (P t ↔ guard s a))
    {s : σ} {as : List α} (hi : I s) (hp : P s) :
    Always step P s as ↔ Meets step guard s as := by
  induction as generalizing s with
  | nil => exact ⟨fun _ => trivial, fun _ => hp⟩
  | cons a as ih =>
    obtain ⟨t, ht⟩ := htot s a
    constructor
    · intro h
      have hpt : P t := (h.2 t ht).head
      refine ⟨(hP s a t hi hp ht).mp hpt, fun u hu => ?_⟩
      obtain rfl := Option.some.inj (ht.symm.trans hu)
      exact (ih (hI s a t hi ht) hpt).mp (h.2 t ht)
    · intro h
      have hpt : P t := (hP s a t hi hp ht).mpr h.1
      refine ⟨hp, fun u hu => ?_⟩
      obtain rfl := Option.some.inj (ht.symm.trans hu)
      exact (ih (hI s a t hi ht) hpt).mpr (h.2 t ht)

end Runs
