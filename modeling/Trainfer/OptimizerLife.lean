import Trainfer.Lib.Runs
import Trainfer.LoadAtomic
import Trainfer.SnapshotRoundTrip
import Trainfer.StepCases

/-! The optimizers of the engine beside the tasks that overwrite the adapter.

`snapshot_load` drops the optimizers because their moments "no longer match the restored
weights". `merge` and `reset_adapter` zero the adapter and keep them, and so does a load that
raises half way. Every optimizer is stamped here with the task that made it and the tasks whose
gradients its moments hold, and `always_fresh_iff` says in which runs no stamp is older than the
adapter. -/

namespace Trainfer

variable {arch : Arch} {T : Type}

/-- The reader of the file does not raise. -/
def FileState.readable {α : Type} : FileState α → Bool
  | .corrupt _ => false
  | _ => true

/-- The load comes to the adapter and writes a LoRA parameter, whether it returns or not. -/
def SnapshotDir.writesAdapter [Torch T] (dir : SnapshotDir T) (st : ModelState arch T) : Bool :=
  match dir.manifest with
  | .present _ => dir.residual.readable &&
      match dir.adapter with
      | .absent => true
      | .corrupt _ => false
      | .present sd => (sd.takeWhile st.copyable).any fun e => decide (e.1 ∈ arch.loraParams)
  | _ => false

namespace OptimizerLife

open TrainEngine
open Runs (Always Meets)

/-- Moments with the number of the task that made the optimizer, and of the tasks that stepped
it. -/
structure Stamped (M : Type) where
  moments : M
  born : Nat
  gathered : List Nat

/-- The backend of one task, which stamps what it makes and steps. -/
def stamped {P E L G τ M : Type} (b : Backend P E L G τ M) (task : Nat) :
    Backend P E L G τ (Stamped M) where
  loss := b.loss
  backward := b.backward
  clip := b.clip
  moments := ⟨b.moments, task, []⟩
  update cls lr p grad m :=
    match b.update cls lr p grad m.moments with
    | .error e => .error e
    | .ok (params, moments) => .ok (params, ⟨moments, m.born, m.gathered ++ [task]⟩)
  emptyEma := b.emptyEma

/-- The worker: the model and the engine, the snapshots on disk, how many tasks it has handled,
and the last of them that overwrote the adapter. -/
structure Worker (arch : Arch) (T : Type) (E L τ M : Type) where
  served : Served arch T (ParamName → T) E L τ (Stamped M)
  store : SnapshotStore T
  tasks : Nat := 0
  overwritten : Nat := 0

/-- The tasks that train, or that read or write the adapter. Of the files of a save that raises
only the first few are written. -/
inductive Task where
  | train (spec : TrainSpec)
  | merge
  | resetAdapter
  | snapshotSave (env : SaveEnv) (name : String) (written : Nat)
  | snapshotLoad (name : String)

variable {E L G τ M : Type} {cfg : EngineConfig}

namespace Worker

def start (b : Backend (ParamName → T) E L G τ M) (st : ModelState arch T)
    (store : SnapshotStore T) : Worker arch T E L τ M where
  served := ⟨st, { params := st.param, ema := b.emptyEma }⟩
  store := store

section
variable [Torch T] [AddCommGroup L] [Module ℚ L]

/-- `_handle_task`, for the model and the engine. The engine works on the parameters of the
model. -/
def handle (cfg : EngineConfig) (b : Backend (ParamName → T) E L G τ M)
    (w : Worker arch T E L τ M) : Task → Served arch T (ParamName → T) E L τ (Stamped M)
  | .train spec =>
    let engine := (trainStep cfg (stamped b (w.tasks + 1)) spec
      { w.served.engine with params := w.served.model.param }).2
    ⟨{ w.served.model with param := engine.params }, engine⟩
  | .merge =>
    match w.served.model.mergeActiveIntoResidual with
    | .error _ => w.served
    | .ok st => { w.served with model := st }
  | .resetAdapter => { w.served with model := w.served.model.resetActiveAdapter }
  | .snapshotSave .. => w.served
  | .snapshotLoad name =>
    (w.served.snapshotLoad (stamped b (w.tasks + 1)) (w.store.dir name)).2

/-- What the task leaves on disk. -/
def files (w : Worker arch T E L τ M) : Task → SnapshotStore T
  | .snapshotSave env name written =>
    w.store.insert name (((SnapshotDir.saveWrites env name w.served.model).take written).foldl
      SnapshotDir.write (w.store.dir name))
  | _ => w.store

/-- The task replaces the values of the adapter by other means than training. -/
def overwrites (w : Worker arch T E L τ M) : Task → Bool
  | .train _ | .snapshotSave .. => false
  | .resetAdapter => true
  | .merge => w.served.model.mergeActiveIntoResidual.toBool
  | .snapshotLoad name => (w.store.dir name).writesAdapter w.served.model

def step (cfg : EngineConfig) (b : Backend (ParamName → T) E L G τ M)
    (w : Worker arch T E L τ M) (a : Task) : Option (Worker arch T E L τ M) :=
  some
    { served := w.handle cfg b a
      store := w.files a
      tasks := w.tasks + 1
      overwritten := if w.overwrites a then w.tasks + 1 else w.overwritten }

end

end Worker

/-! ## Stamps -/

/-- The stamps of all cached optimizers. -/
def AllStamps (Q : Stamped M → Prop) (opts : Dict (Optimizer (Stamped M))) : Prop :=
  ∀ key opt, opts.lookup key = some opt → Q opt.moments

/-- **Fresh optimizers.** Every cached optimizer was made after the last task that overwrote the
adapter, and its moments were gathered after it. -/
def Worker.Fresh (w : Worker arch T E L τ M) : Prop :=
  AllStamps (fun m => w.overwritten < m.born ∧ ∀ n ∈ m.gathered, w.overwritten < n)
    w.served.engine.opts

/-- The stamps are numbers of tasks that have been handled. -/
structure Worker.Stamps (w : Worker arch T E L τ M) : Prop where
  overwritten : w.overwritten ≤ w.tasks
  born : AllStamps (fun m => m.born ≤ w.tasks) w.served.engine.opts

theorem AllStamps.insert {Q : Stamped M → Prop} {opts : Dict (Optimizer (Stamped M))}
    (h : AllStamps Q opts) {key : String} {opt : Optimizer (Stamped M)} (hopt : Q opt.moments) :
    AllStamps Q (opts.insert key opt) := by
  intro key' opt' hl
  by_cases hk : key' = key
  · subst hk
    rw [AList.lookup_insert] at hl
    cases hl
    exact hopt
  · rw [AList.lookup_insert_ne hk] at hl
    exact h key' opt' hl

section
variable {task : Nat} {Q : Stamped M → Prop} {P : Type} {b : Backend P E L G τ M}
  {s : Engine P E L τ (Stamped M)}

theorem allStamps_withSlot (cfg : EngineConfig) (hnew : Q ⟨b.moments, task, []⟩)
    (h : AllStamps Q s.opts) (objective : String) :
    AllStamps Q (withSlot cfg (stamped b task) objective s) := by
  unfold withSlot
  split
  · exact h
  · refine h.insert ?_
    rw [newOptimizer_moments]
    exact hnew

theorem stamp_slotOptimizer (hnew : Q ⟨b.moments, task, []⟩) (h : AllStamps Q s.opts)
    (objective : String) : Q (slotOptimizer cfg (stamped b task) objective s).moments := by
  unfold slotOptimizer
  cases hl : s.opts.lookup (cfg.key objective) with
  | none =>
    rw [Option.getD_none, newOptimizer_moments]
    exact hnew
  | some opt => exact h _ opt hl

/-- The update stamps the moments it returns. -/
theorem stamp_updateOf (hstep : ∀ m moments, Q m → Q ⟨moments, m.born, m.gathered ++ [task]⟩)
    {objective : String} {grad : G} {params : P} {moments : Stamped M}
    (hslot : Q (slotOptimizer cfg (stamped b task) objective s).moments)
    (h : updateOf cfg (stamped b task) objective s grad = .ok (params, moments)) :
    Q moments := by
  simp only [updateOf, stamped] at h
  split at h
  · cases h
  · cases h
    exact hstep _ _ hslot

variable [AddCommGroup L] [Module ℚ L]

/-- A train step makes stamps of its own task only. -/
theorem allStamps_step (hnew : Q ⟨b.moments, task, []⟩)
    (hstep : ∀ m moments, Q m → Q ⟨moments, m.born, m.gathered ++ [task]⟩)
    (h : AllStamps Q s.opts) (spec : TrainSpec) :
    AllStamps Q (Effect.exec (TrainEngine.step cfg (stamped b task) spec) s).2.opts := by
  obtain ⟨ema, events, ⟨r, hkept⟩ | ⟨objective, loss, hopt⟩⟩ :=
    step_cases cfg (stamped b task) spec s
  · rw [hkept]
    exact h
  · rw [hopt, exec_optimize]
    have hslots := allStamps_withSlot (s := { s with ema, events }) cfg hnew h objective
    have hslot : Q (slotOptimizer cfg (stamped b task) objective { s with ema, events }).moments :=
      stamp_slotOptimizer hnew h objective
    split
    · exact hslots
    · split
      · exact hslots
      · rename_i params moments hupd
        exact AllStamps.insert h (stamp_updateOf hstep hslot hupd)

end

/-! ## One task -/

namespace Worker

variable {w t : Worker arch T E L τ M} {b : Backend (ParamName → T) E L G τ M} {a : Task}

theorem start_fresh (b : Backend (ParamName → T) E L G τ M) (st : ModelState arch T)
    (store : SnapshotStore T) : (start b st store).Stamps ∧ (start b st store).Fresh := by
  have hnone : ∀ Q, AllStamps Q (start b st store).served.engine.opts := by
    intro Q key opt h
    simp [start] at h
  exact ⟨⟨le_refl 0, hnone _⟩, hnone _⟩

variable [Torch T]

/-- The task is a load that returns. -/
def Loads (w : Worker arch T E L τ M) (a : Task) : Prop :=
  ∃ name m, a = .snapshotLoad name ∧ ((w.store.dir name).load w.served.model).1 = .ok m

/-- No optimizer is cached. -/
def NoOptimizer (w : Worker arch T E L τ M) : Prop :=
  ∀ key, w.served.engine.opts.lookup key = none

/-- A task that overwrites the adapter is a load that returns, or finds no optimizer. -/
def Harmless (w : Worker arch T E L τ M) (a : Task) : Prop :=
  w.overwrites a = true → w.Loads a ∨ w.NoOptimizer

variable [AddCommGroup L] [Module ℚ L]

/-- Other tasks than training keep the optimizers, and a load that returns drops them. -/
theorem opts_handle (ha : ∀ spec, a ≠ .train spec) :
    (w.Loads a → (w.handle cfg b a).engine.opts = ∅) ∧
      (¬ w.Loads a → (w.handle cfg b a).engine.opts = w.served.engine.opts) := by
  have hother : (∀ name, a ≠ .snapshotLoad name) → ¬ w.Loads a := by
    rintro hne ⟨name, m, hname, -⟩
    exact hne name hname
  cases a with
  | train spec => exact absurd rfl (ha spec)
  | merge =>
    refine ⟨fun h => absurd h (hother (by simp)), fun _ => ?_⟩
    cases hm : w.served.model.mergeActiveIntoResidual with
    | error e => simp only [handle, hm]
    | ok st => simp only [handle, hm]
  | resetAdapter => exact ⟨fun h => absurd h (hother (by simp)), fun _ => rfl⟩
  | snapshotSave env name written => exact ⟨fun h => absurd h (hother (by simp)), fun _ => rfl⟩
  | snapshotLoad name =>
    rcases hload : (w.store.dir name).load w.served.model with ⟨e | m, st⟩
    · refine ⟨?_, fun _ => by simp only [handle, Served.snapshotLoad, hload]⟩
      rintro ⟨name', m, hname, hm⟩
      cases hname
      rw [hload] at hm
      cases hm
    · refine ⟨fun _ => by simp only [handle, Served.snapshotLoad, hload, resetOptimizer], ?_⟩
      exact fun h => absurd ⟨name, m, rfl, by rw [hload]⟩ h

theorem allStamps_empty {Q : Stamped M → Prop} : AllStamps Q ∅ := by
  intro key opt h
  simp at h

theorem allStamps_train (Q : Stamped M → Prop) (hnew : Q ⟨b.moments, w.tasks + 1, []⟩)
    (hstep : ∀ m moments, Q m → Q ⟨moments, m.born, m.gathered ++ [w.tasks + 1]⟩)
    (h : AllStamps Q w.served.engine.opts) (spec : TrainSpec) :
    AllStamps Q (w.handle cfg b (.train spec)).engine.opts :=
  allStamps_step (s := { w.served.engine with params := w.served.model.param, events := [] })
    hnew hstep h spec

theorem stamps_step (hw : w.Stamps) (h : step cfg b w a = some t) : t.Stamps := by
  cases h
  refine ⟨?_, ?_⟩
  · show (if w.overwrites a then w.tasks + 1 else w.overwritten) ≤ w.tasks + 1
    have := hw.overwritten
    split <;> omega
  · show AllStamps (fun m => m.born ≤ w.tasks + 1) (w.handle cfg b a).engine.opts
    have hold : AllStamps (fun m => m.born ≤ w.tasks + 1) w.served.engine.opts :=
      fun key opt hl => Nat.le_succ_of_le (hw.born key opt hl)
    by_cases ha : ∃ spec, a = .train spec
    · obtain ⟨spec, rfl⟩ := ha
      exact allStamps_train (fun m => m.born ≤ w.tasks + 1) (le_refl _) (fun _ _ hm => hm) hold
        spec
    · obtain ⟨hdrop, hkeep⟩ := @opts_handle _ _ _ _ _ _ _ cfg w b a _ _ _
        fun spec hs => ha ⟨spec, hs⟩
      by_cases hload : w.Loads a
      · rw [hdrop hload]
        exact allStamps_empty
      · rw [hkeep hload]
        exact hold

/-- A cached optimizer is as old as the task before, so it is stale once the adapter has been
overwritten. -/
theorem fresh_step_iff (hw : w.Stamps) (hf : w.Fresh) (h : step cfg b w a = some t) :
    t.Fresh ↔ w.Harmless a := by
  cases h
  by_cases ha : ∃ spec, a = .train spec
  · obtain ⟨spec, rfl⟩ := ha
    have hlast := hw.overwritten
    refine iff_of_true ?_ (fun h => by cases h)
    refine allStamps_train
      (fun m => w.overwritten < m.born ∧ ∀ n ∈ m.gathered, w.overwritten < n) ?_ ?_ hf spec
    · exact ⟨by show w.overwritten < w.tasks + 1; omega, by simp⟩
    · rintro m moments ⟨hborn, hgathered⟩
      refine ⟨hborn, fun n hn => ?_⟩
      rcases List.mem_append.mp hn with hn | hn
      · exact hgathered n hn
      · obtain rfl := List.mem_singleton.mp hn
        omega
  · obtain ⟨hdrop, hkeep⟩ := @opts_handle _ _ _ _ _ _ _ cfg w b a _ _ _
      fun spec hs => ha ⟨spec, hs⟩
    unfold Fresh Harmless
    simp only
    by_cases hload : w.Loads a
    · rw [hdrop hload]
      exact iff_of_true allStamps_empty fun _ => .inl hload
    · rw [hkeep hload]
      cases hover : w.overwrites a with
      | false => exact iff_of_true hf (fun h => by cases h)
      | true =>
        simp only [if_true, forall_const, or_iff_right hload]
        constructor
        · intro hfresh key
          cases hl : w.served.engine.opts.lookup key with
          | none => rfl
          | some opt =>
            have hborn := hw.born key opt hl
            have hnew := (hfresh key opt hl).1
            omega
        · intro hnone key opt hl
          rw [hnone key] at hl
          cases hl

/-- **Optimizers and adapters.** In a run of tasks, whether they return or raise, every cached
optimizer is throughout younger than the adapter just if no task overwrites the adapter and
keeps an optimizer. -/
theorem always_fresh_iff (cfg : EngineConfig) (b : Backend (ParamName → T) E L G τ M)
    (st : ModelState arch T) (store : SnapshotStore T) (tasks : List Task) :
    Always (step cfg b) Fresh (start b st store) tasks ↔
      Meets (step cfg b) Harmless (start b st store) tasks := by
  obtain ⟨hstamps, hfresh⟩ := start_fresh b st store
  exact Runs.always_iff_meets (fun _ _ => ⟨_, rfl⟩) (fun _ _ _ hw h => stamps_step hw h)
    (fun _ _ _ hw hf h => fresh_step_iff hw hf h) hstamps hfresh

end Worker

/-- Every loss is one, and an optimizer adds up the gradients. -/
def momentumBackend : Backend (ParamName → OneByOne) Unit ℚ ℚ Unit ℚ where
  loss _ _ e _ _ := (.ok ⟨some 1, []⟩, e)
  backward _ loss := .ok loss
  clip _ grad := grad
  moments := 0
  update _ lr p grad m :=
    .ok (fun name => ⟨(p name).dtype, (p name).value - lr * (m + grad)⟩, m + grad)
  emptyEma := ()

def sftSpec : TrainSpec where
  objective := .val "sft"

/-- One train step and a reset: the optimizer of the step is kept for the zeroed adapter. -/
theorem stale_after_reset :
    ¬ ∀ (cfg : EngineConfig) (st : ModelState History.oneSite OneByOne)
      (store : SnapshotStore OneByOne) (tasks : List Task),
      Always (Worker.step cfg momentumBackend) Worker.Fresh
        (Worker.start momentumBackend st store) tasks := by
  intro h
  have hfresh := (h {} (History.freshOne 1) ∅ [.train sftSpec, .resetAdapter]).last rfl
  obtain ⟨hborn, -⟩ := hfresh sharedKey _ rfl
  revert hborn
  decide +kernel

end OptimizerLife

end Trainfer
