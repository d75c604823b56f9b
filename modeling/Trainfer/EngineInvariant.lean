import Trainfer.TrainEngine

/-! Invariants of the engine, through every step and on every way out of it. A property
that ignores the log and the drift average is kept by a step as soon as caching a new
optimizer and stepping a cached one keep it. -/

namespace Trainfer

open Effect TrainEngine

variable {P E L G τ M : Type}

/-- `I` is kept by all that a step does to the engine; `Q` is what `I` says of the optimizer
that an objective gets. -/
structure EngineInvariant (cfg : EngineConfig) (b : Backend P E L G τ M)
    (I : Engine P E L τ M → Prop) (Q : String → Optimizer M → Prop) : Prop where
  record : ∀ s event, I s → I { s with events := s.events ++ [event] }
  ema : ∀ s ema, I s → I { s with ema }
  found : ∀ s objective opt, I s → s.opts.lookup (cfg.key objective) = some opt →
    Q objective opt
  made : ∀ s objective, I s → s.opts.lookup (cfg.key objective) = none →
    Q objective (cfg.newOptimizer objective b.moments) ∧
      I { s with
        opts := s.opts.insert (cfg.key objective) (cfg.newOptimizer objective b.moments) }
  stepped : ∀ s objective opt params moments, I s → Q objective opt →
    I { s with params, opts := s.opts.insert (cfg.key objective) { opt with moments } }

namespace EngineInvariant

variable {cfg : EngineConfig} {b : Backend P E L G τ M} {I : Engine P E L τ M → Prop}
  {Q : String → Optimizer M → Prop}

theorem keeps_record (hI : EngineInvariant cfg b I Q) (event : EngineEvent L τ) :
    Keeps I (TrainEngine.record event : EngineM P E L τ M PUnit) fun _ => True :=
  keeps_modify fun s hs => hI.record s event hs

theorem keeps_callLoss (hI : EngineInvariant cfg b I Q) (fn : String)
    (samples : Option (List Sample)) (kwargs : Kwargs τ) :
    Keeps I (callLoss b fn samples kwargs) fun _ => True := by
  apply keeps_bind (keeps_ofExcept _)
  intro _ _
  apply keeps_get_bind
  intro s hs
  refine keeps_bind (keeps_modify fun s' hs' => ?_) (fun _ _ => keeps_ofExcept _) s hs
  exact hI.ema s' _ hs'

/-- A call of an objective, with its event before it. -/
theorem keeps_recorded {α : Type} (hI : EngineInvariant cfg b I Q) (event : EngineEvent L τ)
    (fn : String) (samples : Option (List Sample)) (kwargs : Kwargs τ) (f : Result L τ → α) :
    Keeps I (do
      TrainEngine.record event
      let result ← callLoss b fn samples kwargs
      return f result : EngineM P E L τ M α) fun _ => True := by
  apply keeps_bind (hI.keeps_record _)
  intro _ _
  exact keeps_bind (hI.keeps_callLoss _ _ _) fun _ _ => keeps_pure trivial

theorem keeps_callPrimary (hI : EngineInvariant cfg b I Q) (spec : TrainSpec) (name : Value)
    (samples : Option (List Sample)) (kwargs : JsonObject) :
    Keeps I (callPrimary cfg b spec name samples kwargs) fun _ => True := by
  apply keeps_bind (keeps_ofExcept _)
  rintro ⟨name, fn⟩ _
  exact hI.keeps_recorded _ _ _ _ _

theorem keeps_callBatch (hI : EngineInvariant cfg b I Q) (primary : String)
    (first : Result L τ) (samples : Option (List Sample)) (bo : JsonObject) :
    Keeps I (callBatch cfg b primary first samples bo) fun _ => True := by
  apply keeps_bind (keeps_ofExcept _)
  rintro ⟨name, fn⟩ _
  exact hI.keeps_recorded _ _ _ _ _

theorem keeps_optimizer (hI : EngineInvariant cfg b I Q) (objective : String) :
    Keeps I (optimizer cfg b objective) (Q objective) := by
  apply keeps_get_bind
  intro s hs
  cases h : s.opts.lookup (cfg.key objective) with
  | some opt =>
    have hopt : Q objective opt := hI.found s objective opt hs h
    exact ⟨hs, fun opt' h' => by cases h'; exact hopt⟩
  | none =>
    obtain ⟨hopt, hs'⟩ := hI.made s objective hs h
    exact ⟨hs', fun opt' h' => by cases h'; exact hopt⟩

theorem keeps_optimize (hI : EngineInvariant cfg b I Q) (objective : String) (loss : L) :
    Keeps I (optimize cfg b objective loss) fun _ => True := by
  apply keeps_bind (hI.keeps_optimizer objective)
  intro opt hopt
  apply keeps_get_bind
  intro s hs
  refine keeps_bind (hI.keeps_record _) (fun _ _ => ?_) s hs
  apply keeps_bind (keeps_ofExcept _)
  intro grad _
  apply keeps_bind (keeps_ofExcept _)
  rintro ⟨params, moments⟩ _
  refine keeps_bind (keeps_modify fun s' hs' => ?_) fun _ _ => ?_
  · exact hI.stepped s' objective opt params moments hs' hopt
  · exact keeps_bind (hI.keeps_record _) fun _ _ => keeps_pure trivial

variable [AddCommGroup L]

theorem keeps_stepSingle (hI : EngineInvariant cfg b I Q) (spec : TrainSpec) :
    Keeps I (stepSingle cfg b spec) fun _ => True := by
  apply keeps_bind (keeps_ofExcept _)
  intro name _
  apply keeps_bind (keeps_ofExcept _)
  intro kwargs _
  apply keeps_bind (hI.keeps_callPrimary _ _ _ _)
  rintro ⟨name, result⟩ _
  apply keeps_bind (keeps_ofExcept _)
  intro bos _
  refine keeps_bind (keeps_foldlM (fun _ _ => ?_) bos result.loss) fun loss _ => ?_
  · exact keeps_bind (hI.keeps_callBatch _ _ _ _) fun _ _ => keeps_pure trivial
  · cases loss with
    | none => exact keeps_pure trivial
    | some loss => exact hI.keeps_optimize _ _

variable [Module ℚ L]

theorem keeps_primaryStep (hI : EngineInvariant cfg b I Q) (spec : TrainSpec)
    (samples : Option (List Sample)) (kwargs : JsonObject) (acc : MultiState L τ)
    (entry : ObjectiveSpec) :
    Keeps I (primaryStep cfg b spec samples kwargs acc entry) fun _ => True := by
  apply keeps_bind (keeps_ofExcept _)
  intro name _
  apply keeps_bind (keeps_ofExcept _)
  intro weight _
  apply keeps_bind (hI.keeps_callPrimary _ _ _ _)
  rintro ⟨name, result⟩ _
  cases h : result.loss with
  | none => simpa only [h] using keeps_pure trivial
  | some loss => simpa only [h] using keeps_pure trivial

theorem keeps_stepMulti (hI : EngineInvariant cfg b I Q) (spec : TrainSpec)
    (primaries : List ObjectiveSpec) :
    Keeps I (stepMulti cfg b spec primaries) fun _ => True := by
  apply keeps_bind (keeps_ofExcept _)
  intro kwargs _
  apply keeps_bind (keeps_foldlM (fun _ _ => hI.keeps_primaryStep _ _ _ _ _) primaries {})
  intro acc _
  apply keeps_bind (keeps_ofExcept _)
  intro samples _
  refine keeps_bind (keeps_foldlM (fun _ _ => ?_) spec.batchList acc) fun acc' _ => ?_
  · exact keeps_bind (hI.keeps_callBatch _ _ _ _) fun _ _ => keeps_pure trivial
  · split
    · exact hI.keeps_optimize _ _
    · exact keeps_pure trivial

/-- **Every step keeps an engine invariant**, also one that raises. -/
theorem keeps_step (hI : EngineInvariant cfg b I Q) (spec : TrainSpec) :
    Keeps I (step cfg b spec) fun _ => True := by
  unfold step
  split
  · exact hI.keeps_stepMulti _ _
  · exact hI.keeps_stepSingle _

end EngineInvariant

end Trainfer
