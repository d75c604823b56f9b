import Mathlib.Init

/-! Computations that read and write a state and may raise. The state at the point of
the exception survives it. A run that returns is taken apart by `exec_bind_ok`, a loop
that returns by `exec_foldlM_ok`. -/

namespace Effect

universe u
variable {σ ε α β : Type u}

abbrev Eff (σ ε : Type u) := ExceptT ε (StateM σ)

/-- Run from `s`: the result or the exception, and the state left behind. -/
def exec (x : Eff σ ε α) (s : σ) : Except ε α × σ := x.run.run s

@[simp] theorem exec_pure (a : α) (s : σ) : exec (pure a : Eff σ ε α) s = (.ok a, s) := rfl

@[simp] theorem exec_throw (e : ε) (s : σ) : exec (throw e : Eff σ ε α) s = (.error e, s) := rfl

theorem exec_bind (x : Eff σ ε α) (f : α → Eff σ ε β) (s : σ) :
    exec (x >>= f) s = match exec x s with
      | (.ok a, t) => exec (f a) t
      | (.error e, t) => (.error e, t) := by
  show ExceptT.bindCont f (exec x s).1 (exec x s).2 = _
  rcases exec x s with ⟨_ | a, t⟩ <;> rfl

/-- A sequence returns exactly when both parts do. -/
theorem exec_bind_ok {x : Eff σ ε α} {f : α → Eff σ ε β} {s u : σ} {b : β} :
    exec (x >>= f) s = (.ok b, u) ↔
      ∃ a t, exec x s = (.ok a, t) ∧ exec (f a) t = (.ok b, u) := by
  rw [exec_bind]
  rcases exec x s with ⟨_ | a, t⟩
  · simp
  · constructor
    · intro h
      exact ⟨a, t, rfl, h⟩
    · rintro ⟨a', t', h, h'⟩
      cases h
      exact h'

theorem exec_ofExcept_bind (r : Except ε α) (f : α → Eff σ ε β) (s : σ) :
    exec (ofExcept r >>= f) s = match r with
      | .ok a => exec (f a) s
      | .error e => (.error e, s) := by
  cases r with
  | error e => rfl
  | ok a => rfl

theorem exec_ofExcept_bind_ok {r : Except ε α} {f : α → Eff σ ε β} {s u : σ} {b : β} :
    exec (ofExcept r >>= f) s = (.ok b, u) ↔ ∃ a, r = .ok a ∧ exec (f a) s = (.ok b, u) := by
  cases r with
  | error e => simp [ofExcept]
  | ok a => simp [ofExcept]

theorem exec_ofExcept_ok {r : Except ε α} {s u : σ} {a : α}
    (h : exec (ofExcept r : Eff σ ε α) s = (.ok a, u)) : r = .ok a ∧ u = s := by
  cases r with
  | error e => cases h
  | ok b =>
    cases h
    exact ⟨rfl, rfl⟩

theorem exec_get_bind (f : σ → Eff σ ε β) (s : σ) : exec (get >>= f) s = exec (f s) s := rfl

theorem exec_modify_bind (g : σ → σ) (f : PUnit → Eff σ ε β) (s : σ) :
    exec (modify g >>= f) s = exec (f ⟨⟩) (g s) := rfl

/-- **Loop rule.** What holds before the loop, with nothing done, and is kept by each
round that returns, holds after a loop that returns. -/
theorem exec_foldlM_ok {γ : Type u} {f : β → γ → Eff σ ε β} {I : List γ → β → σ → Prop}
    (hstep : ∀ (done : List γ) (c : γ) (b b' : β) (s s' : σ), I done b s →
      exec (f b c) s = (.ok b', s') → I (done ++ [c]) b' s')
    {cs : List γ} {b b' : β} {s s' : σ} (hinit : I [] b s)
    (h : exec (cs.foldlM f b) s = (.ok b', s')) : I cs b' s' := by
  suffices ∀ (cs done : List γ) (b : β) (s : σ), I done b s →
      exec (cs.foldlM f b) s = (.ok b', s') → I (done ++ cs) b' s' by
    simpa using this cs [] b s hinit h
  intro cs
  induction cs with
  | nil =>
    intro done b s hi h
    cases h
    simpa using hi
  | cons c cs ih =>
    intro done b s hi h
    rw [List.foldlM_cons] at h
    obtain ⟨m, t, hc, hrest⟩ := exec_bind_ok.mp h
    have hround := ih (done ++ [c]) m t (hstep done c b m s t hi hc) hrest
    simpa using hround

/-! ## Invariants, on every way out -/

/-- From a state in `I`, the computation ends in one, whether it returns or raises, and
what it returns satisfies `Q`. -/
def Keeps (I : σ → Prop) (x : Eff σ ε α) (Q : α → Prop) : Prop :=
  ∀ s, I s → I (exec x s).2 ∧ ∀ a, (exec x s).1 = .ok a → Q a

variable {I : σ → Prop} {Q : α → Prop} {R : β → Prop}

theorem keeps_pure {a : α} (ha : Q a) : Keeps I (pure a : Eff σ ε α) Q := by
  intro s hs
  refine ⟨hs, fun a' h => ?_⟩
  cases h
  exact ha

theorem keeps_ofExcept (r : Except ε α) : Keeps I (ofExcept r : Eff σ ε α) fun _ => True := by
  intro s hs
  refine ⟨?_, fun _ _ => trivial⟩
  cases r with
  | error e => exact hs
  | ok a => exact hs

theorem keeps_modify {f : σ → σ} (hf : ∀ s, I s → I (f s)) :
    Keeps I (modify f : Eff σ ε PUnit) fun _ => True :=
  fun s hs => ⟨hf s hs, fun _ _ => trivial⟩

theorem keeps_bind {x : Eff σ ε α} {f : α → Eff σ ε β} (hx : Keeps I x Q)
    (hf : ∀ a, Q a → Keeps I (f a) R) : Keeps I (x >>= f) R := by
  intro s hs
  obtain ⟨hi, hq⟩ := hx s hs
  rw [exec_bind]
  rcases h : exec x s with ⟨e | a, t⟩
  · rw [h] at hi
    exact ⟨hi, fun a' ha' => by cases ha'⟩
  · rw [h] at hi hq
    exact hf a (hq a rfl) t hi

theorem keeps_get_bind {f : σ → Eff σ ε β}
    (hf : ∀ s, I s → I (exec (f s) s).2 ∧ ∀ b, (exec (f s) s).1 = .ok b → R b) :
    Keeps I (get >>= f) R := hf

theorem keeps_foldlM {γ : Type u} {f : β → γ → Eff σ ε β}
    (hf : ∀ b c, Keeps I (f b c) fun _ => True) (cs : List γ) (b : β) :
    Keeps I (cs.foldlM f b) fun _ => True := by
  induction cs generalizing b with
  | nil => exact keeps_pure trivial
  | cons c cs ih =>
    rw [List.foldlM_cons]
    exact keeps_bind (hf b c) fun b' _ => ih b'

end Effect
