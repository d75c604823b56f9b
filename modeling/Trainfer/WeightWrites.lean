import Trainfer.ResidualBinding
import Mathlib.Data.List.Dedup

/-! The tasks that change the weights, as sequences of single writes to the live model.

`foldl_weightWrites`: the writes of a task, one after another, are what the operation of
the model state does at once. -/

namespace Trainfer

universe u

/-- One write to the live model. -/
inductive WeightWrite (T : Type u) where
  /-- `p.zero_()` -/
  | zero (p : ParamName)
  /-- A parameter gets a value, from a copy or from a step of the optimizer. -/
  | param (p : ParamName) (t : T)
  | mergedDeltas (d : Dict T)
  | mergesApplied (n : Int)
  /-- One turn of the loop in `_apply_residual_to_model`. -/
  | bind (s : LoraSite)
  /-- `handle.remove()` -/
  | removeHook (handle : Nat)
  /-- `_residual_hook_handles.clear()` -/
  | forgetHandles
  /-- `del target_w._residual_delta` -/
  | unbind (s : LoraSite)

/-- A task of the worker that changes the weights. The writes of a train step are those of
its optimizer. -/
inductive WeightTask (T : Type u) where
  | train (params : List (ParamName × T))
  | merge
  | snapshotLoad (dir : SnapshotDir T)
  | resetAdapter

variable {arch : Arch} {T : Type u} [Torch T]

namespace ModelState

def weightWrite (st : ModelState arch T) : WeightWrite T → ModelState arch T
  | .zero p => { st with param := Function.update st.param p (Torch.zero_ (st.param p)) }
  | .param p t => { st with param := Function.update st.param p t }
  | .mergedDeltas d => { st with mergedDeltas := d }
  | .mergesApplied n => { st with mergesApplied := n }
  | .bind s => bindSite st s
  | .removeHook handle => removeHook st handle
  | .forgetHandles => { st with hookHandles := ∅ }
  | .unbind s =>
    if s.hasBaseLayer then
      { st with
        base := Function.update st.base s.name { st.base s.name with residualDelta := none } }
    else st

/-- `reset_active_adapter`; `named_parameters()` yields every parameter once. -/
def zeroWrites (arch : Arch) : List (WeightWrite T) := arch.loraParams.dedup.map .zero

/-- `_apply_residual_to_model`, once the dictionary is `d`. -/
def bindWrites (arch : Arch) (d : Dict T) : List (WeightWrite T) :=
  if d.isEmpty then [] else arch.sites.map .bind

/-- `_clear_residual_from_model`. -/
def clearWrites (st : ModelState arch T) : List (WeightWrite T) :=
  st.hookHandles.entries.map (fun e => .removeHook e.2) ++ [.forgetHandles] ++
    arch.sites.map .unbind

/-- `load_active_adapter`, and whether it gets to its end. -/
def copyWrites (st : ModelState arch T) : List (ParamName × T) → List (WeightWrite T) × Bool
  | [] => ([], true)
  | (p, t) :: sd =>
    if p ∈ arch.params then
      match Torch.copy_ (st.param p) t with
      | .error _ => ([], false)
      | .ok t' =>
        let rest := copyWrites { st with param := Function.update st.param p t' } sd
        (.param p t' :: rest.1, rest.2)
    else copyWrites st sd

/-- The adapter part of `load`, and whether it gets to its end. -/
def adapterWrites (st : ModelState arch T) (dir : SnapshotDir T) : List (WeightWrite T) × Bool :=
  match dir.adapter with
  | .corrupt _ => ([], false)
  | .present sd => copyWrites st sd
  | .absent => (zeroWrites arch, true)

/-- The residual part of `load`, and whether it gets to its end. -/
def residualWrites (st : ModelState arch T) (dir : SnapshotDir T) :
    List (WeightWrite T) × Bool :=
  match dir.residual with
  | .corrupt _ => ([], false)
  | .present d => (.mergedDeltas d :: bindWrites arch d, true)
  | .absent => (.mergedDeltas ∅ :: clearWrites st, true)

/-- `load`; where a part raises, the writes end. -/
def loadWrites (st : ModelState arch T) (dir : SnapshotDir T) : List (WeightWrite T) :=
  match dir.manifest with
  | .absent | .corrupt _ => []
  | .present manifest =>
    let residual := residualWrites st dir
    let adapter := adapterWrites st dir
    residual.1 ++
      if residual.2 then
        adapter.1 ++
          match manifest with
          | .other _ => []
          | .object m => if adapter.2 then [.mergesApplied (m.mergesApplied.getD 0)] else []
      else []

/-- `merge_active_into_residual`, which computes everything before it writes. -/
def mergeWrites (st : ModelState arch T) : List (WeightWrite T) :=
  if st.loraRank = 0 then []
  else
    match newDeltas st arch.sites with
    | .error _ => []
    | .ok new =>
      let d := st.mergedDeltas.update new
      [.mergedDeltas d, .mergesApplied (st.mergesApplied + 1)] ++ zeroWrites arch ++
        bindWrites arch d

end ModelState

namespace WeightTask

/-- `with self.state.mode_lock` around the handler; only a train step has it. -/
def locked : WeightTask T → Bool
  | .train _ => true
  | .merge | .snapshotLoad _ | .resetAdapter => false

/-- What the handler writes when it starts on the model `st`. An error ends it early. -/
def writes (st : ModelState arch T) : WeightTask T → List (WeightWrite T)
  | .train params => params.map fun e => .param e.1 e.2
  | .merge => st.mergeWrites
  | .snapshotLoad dir => st.loadWrites dir
  | .resetAdapter => ModelState.zeroWrites arch

/-- What the handler does to the model. -/
def result (st : ModelState arch T) : WeightTask T → ModelState arch T
  | .train params =>
    { st with param := params.foldl (fun f e => Function.update f e.1 e.2) st.param }
  | .merge => st.after .merge
  | .snapshotLoad dir => (dir.load st).2
  | .resetAdapter => st.resetActiveAdapter

end WeightTask

namespace ModelState

/-! ## The adapter -/

theorem foldl_zero {l : List ParamName} (hl : l.Nodup) (st : ModelState arch T) :
    (l.map WeightWrite.zero).foldl weightWrite st =
      { st with
        param := fun p => if p ∈ l then Torch.zero_ (st.param p) else st.param p } := by
  induction l generalizing st with
  | nil => simp
  | cons p l ih =>
    obtain ⟨hp, hl⟩ := List.nodup_cons.mp hl
    rw [List.map_cons, List.foldl_cons, ih hl]
    simp only [weightWrite, mk.injEq, and_true]
    funext q
    by_cases hq : q = p
    · subst hq
      simp [hp]
    · simp [hq]

theorem foldl_zeroWrites (st : ModelState arch T) :
    (zeroWrites arch).foldl weightWrite st = st.resetActiveAdapter := by
  rw [zeroWrites, foldl_zero (List.nodup_dedup _), resetActiveAdapter]
  simp only [List.mem_dedup]

/-- Other fields than the parameters play no part in the copies. -/
theorem copyWrites_congr {st st' : ModelState arch T} (h : st'.param = st.param)
    (sd : List (ParamName × T)) : copyWrites st' sd = copyWrites st sd := by
  induction sd generalizing st st' with
  | nil => rfl
  | cons e sd ih =>
    obtain ⟨p, t⟩ := e
    simp only [copyWrites, h, ih h]
    split
    · split
      · rfl
      · rename_i t' _
        rw [@ih { st with param := Function.update st.param p t' }
          { st' with param := Function.update st.param p t' } rfl]
    · rfl

theorem foldl_copyWrites (st : ModelState arch T) (sd : List (ParamName × T)) :
    (copyWrites st sd).1.foldl weightWrite st = (st.loadActiveAdapter sd).2 ∧
      ((copyWrites st sd).2 = true ↔ (st.loadActiveAdapter sd).1 = .ok ()) := by
  induction sd generalizing st with
  | nil => exact ⟨rfl, by simp [copyWrites, loadActiveAdapter]⟩
  | cons e sd ih =>
    obtain ⟨p, t⟩ := e
    by_cases hp : p ∈ arch.params
    · cases hc : Torch.copy_ (st.param p) t with
      | error e => simp [copyWrites, loadActiveAdapter, hp, hc]
      | ok t' =>
        simp only [copyWrites, loadActiveAdapter, hp, hc, if_true, List.foldl_cons]
        exact ih { st with param := Function.update st.param p t' }
    · simp only [copyWrites, loadActiveAdapter, hp, if_false]
      exact ih st

theorem foldl_adapterWrites (st : ModelState arch T) (dir : SnapshotDir T) :
    (adapterWrites st dir).1.foldl weightWrite st = (dir.loadAdapterPart st).2 ∧
      ((adapterWrites st dir).2 = true ↔ (dir.loadAdapterPart st).1 = .ok ()) := by
  unfold adapterWrites SnapshotDir.loadAdapterPart
  cases dir.adapter with
  | corrupt e => exact ⟨rfl, by simp⟩
  | present sd => exact foldl_copyWrites st sd
  | absent => exact ⟨foldl_zeroWrites st, by simp⟩

theorem adapterWrites_congr {st st' : ModelState arch T} (h : st'.param = st.param)
    (dir : SnapshotDir T) : adapterWrites st' dir = adapterWrites st dir := by
  unfold adapterWrites
  split
  · rfl
  · exact copyWrites_congr h _
  · rfl

/-! ## The residual -/

theorem foldl_bindWrites {st : ModelState arch T} {d : Dict T} (hd : st.mergedDeltas = d) :
    (bindWrites arch d).foldl weightWrite st = st.applyResidualToModel := by
  subst hd
  unfold bindWrites applyResidualToModel
  split
  · rfl
  · rw [List.foldl_map]
    rfl

theorem foldl_removeHook (l : List (Σ _ : String, Nat)) (st : ModelState arch T) :
    (l.map fun e => WeightWrite.removeHook e.2).foldl weightWrite st =
      { st with
        base := fun n =>
          { st.base n with
            hooks := (st.base n).hooks.filter fun h => !l.any fun e => e.2 == h.1 } } := by
  induction l generalizing st with
  | nil => simp
  | cons e l ih =>
    rw [List.map_cons, List.foldl_cons, ih]
    simp only [weightWrite, removeHook, mk.injEq, and_true, true_and]
    funext n
    simp only [List.filter_filter, List.any_cons, BaseLayer.mk.injEq, true_and]
    refine List.filter_congr fun h _ => ?_
    rw [Bool.not_or, Bool.and_comm, bne, Bool.beq_comm]

theorem foldl_unbind (l : List LoraSite) (st : ModelState arch T) :
    (l.map WeightWrite.unbind).foldl weightWrite st =
      { st with
        base := fun n =>
          { st.base n with
            residualDelta :=
              if l.any fun s => s.name == n && s.hasBaseLayer then none
              else (st.base n).residualDelta } } := by
  induction l generalizing st with
  | nil => simp
  | cons s l ih =>
    rw [List.map_cons, List.foldl_cons, ih]
    cases hb : s.hasBaseLayer with
    | false => simp [weightWrite, hb]
    | true =>
      simp only [weightWrite, hb, if_true, mk.injEq, and_true, true_and]
      funext n
      by_cases hn : n = s.name
      · subst hn
        simp [hb]
      · have hn' : (s.name == n) = false := by simpa using Ne.symm hn
        simp [Function.update_of_ne hn, hn']

theorem foldl_clearWrites (st : ModelState arch T) :
    (clearWrites st).foldl weightWrite st = st.clearResidualFromModel := by
  rw [clearWrites, List.foldl_append, List.foldl_append, foldl_removeHook, foldl_unbind]
  rfl

theorem foldl_residualWrites (st : ModelState arch T) (dir : SnapshotDir T) :
    (residualWrites st dir).1.foldl weightWrite st = (dir.loadResidualPart st).2 ∧
      ((residualWrites st dir).2 = true ↔ (dir.loadResidualPart st).1 = .ok ()) := by
  unfold residualWrites SnapshotDir.loadResidualPart
  cases dir.residual with
  | corrupt e => exact ⟨rfl, by simp⟩
  | present d => exact ⟨@foldl_bindWrites arch _ _ { st with mergedDeltas := d } d rfl, by simp⟩
  | absent => exact ⟨foldl_clearWrites { st with mergedDeltas := ∅ }, by simp⟩

/-! ## Whole tasks -/

theorem foldl_loadWrites (st : ModelState arch T) (dir : SnapshotDir T) :
    (loadWrites st dir).foldl weightWrite st = (dir.load st).2 := by
  unfold loadWrites SnapshotDir.load
  cases dir.manifest with
  | absent => rfl
  | corrupt e => rfl
  | present m =>
    obtain ⟨hresidual, hread⟩ := foldl_residualWrites st dir
    have hparam := (loadResidualPart_record dir st).1
    simp only [List.foldl_append, hresidual]
    cases hpart : dir.loadResidualPart st with
    | mk out st₁ =>
      rw [hpart] at hread hparam
      cases out with
      | error e =>
        have hfalse : (residualWrites st dir).2 = false := by simpa using hread
        simp [hfalse]
      | ok u =>
        have htrue : (residualWrites st dir).2 = true := by simpa using hread
        obtain ⟨hadapter, hend⟩ := foldl_adapterWrites st₁ dir
        rw [adapterWrites_congr hparam dir] at hadapter hend
        simp only [htrue, if_true, List.foldl_append, hadapter]
        cases hpart' : dir.loadAdapterPart st₁ with
        | mk out' st₂ =>
          rw [hpart'] at hend
          cases out' with
          | error e =>
            have hfalse : (adapterWrites st dir).2 = false := by simpa using hend
            cases m <;> simp [hfalse]
          | ok u =>
            have htrue' : (adapterWrites st dir).2 = true := by simpa using hend
            cases m <;> simp [htrue', weightWrite]

theorem foldl_mergeWrites (st : ModelState arch T) :
    (mergeWrites st).foldl weightWrite st = st.after .merge := by
  unfold mergeWrites after mergeActiveIntoResidual
  split
  · rfl
  · cases hn : newDeltas st arch.sites with
    | error e => rfl
    | ok new =>
      simp only [bind, Except.bind, List.cons_append, List.nil_append, List.foldl_cons,
        List.foldl_append, weightWrite, foldl_zeroWrites]
      exact foldl_bindWrites rfl

end ModelState

/-- **Writes and tasks.** The writes of a task, one after another, have the result of the
task, which for a load that raises is what it has done before. -/
theorem WeightTask.foldl_writes (task : WeightTask T) (st : ModelState arch T) :
    (task.writes st).foldl ModelState.weightWrite st = task.result st := by
  cases task with
  | train params =>
    rw [WeightTask.writes, WeightTask.result, List.foldl_map]
    induction params generalizing st with
    | nil => rfl
    | cons e params ih => exact ih { st with param := Function.update st.param e.1 e.2 }
  | merge => exact ModelState.foldl_mergeWrites st
  | resetAdapter => exact ModelState.foldl_zeroWrites st
  | snapshotLoad dir => exact ModelState.foldl_loadWrites st dir

end Trainfer
