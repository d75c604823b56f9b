import Trainfer.SnapshotHistory
import Trainfer.TrainEngine

/-! A `snapshot_load` task that raises, against the state it has found.

`load` reads and writes by turns: the residual is replaced and bound before the adapter
file is read, the adapter is copied tensor after tensor, and only then it is seen whether the
manifest is an object. `load_atomic_iff` says on which states and directories a task that
raises leaves no trace. -/

namespace Trainfer

universe u

open ModelState (Tracked)

/-- What a `snapshot_load` task works on. -/
structure Served (arch : Arch) (T : Type u) (P E L τ M : Type) where
  model : ModelState arch T
  engine : Engine P E L τ M

variable {arch : Arch} {T : Type u} {P E L G τ M : Type}

namespace Served

/-- Everything that a `snapshot_load` task may change is as before. -/
structure Same (s s' : Served arch T P E L τ M) : Prop where
  mergedDeltas : ∀ k, s'.model.mergedDeltas.lookup k = s.model.mergedDeltas.lookup k
  binding : ∀ site ∈ arch.sites,
    (s'.model.base site.name).residualDelta = (s.model.base site.name).residualDelta ∧
      (s'.model.base site.name).hooks.map Prod.snd = (s.model.base site.name).hooks.map Prod.snd
  adapter : ∀ p ∈ arch.loraParams, s'.model.param p = s.model.param p
  mergesApplied : s'.model.mergesApplied = s.model.mergesApplied
  opts : s'.engine.opts = s.engine.opts

variable [Torch T]

/-- The `snapshot_load` branch of `_handle_task`. -/
def snapshotLoad (b : Backend P E L G τ M) (dir : SnapshotDir T) (s : Served arch T P E L τ M) :
    Except PyError Manifest × Served arch T P E L τ M :=
  match dir.load s.model with
  | (.error e, st) => (.error e, { s with model := st })
  | (.ok m, st) => (.ok m, ⟨st, TrainEngine.resetOptimizer b s.engine⟩)

end Served

namespace ModelState

variable [Torch T]

/-- The entry has no parameter, or its tensor can be copied to it. -/
def copyable (st : ModelState arch T) (e : ParamName × T) : Bool :=
  if e.1 ∈ arch.params then (Torch.copy_ (st.param e.1) e.2).toBool else true

/-- The copy gives a LoRA parameter the value it has. -/
def Unchanging (st : ModelState arch T) (e : ParamName × T) : Prop :=
  e.1 ∈ arch.loraParams → Torch.copy_ (st.param e.1) e.2 = .ok (st.param e.1)

end ModelState

namespace SnapshotDir

variable [Torch T]

/-- The manifest is an object, of which the last statement of `load` can get a key. -/
def ManifestFits (dir : SnapshotDir T) : Prop := ∃ m : Manifest, dir.manifest = .present m

/-- The adapter file does not raise: it is missing, or every entry can be copied. -/
def AdapterFits (dir : SnapshotDir T) (st : ModelState arch T) : Prop :=
  match dir.adapter with
  | .absent => True
  | .corrupt _ => False
  | .present sd => ∀ e ∈ sd, st.copyable e = true

/-- The entries up to the first that cannot be copied are in the model already; where there is
no file, the LoRA parameters are zero already. -/
def AdapterHeld (dir : SnapshotDir T) (st : ModelState arch T) : Prop :=
  match dir.adapter with
  | .absent => ∀ p ∈ arch.loraParams, Torch.zero_ (st.param p) = st.param p
  | .corrupt _ => True
  | .present sd => ∀ e ∈ sd.takeWhile st.copyable, st.Unchanging e

/-- The residual of the directory is in the model already. -/
def ResidualHeld (dir : SnapshotDir T) (st : ModelState arch T) : Prop :=
  match dir.residual with
  | .absent => (∀ k, st.mergedDeltas.lookup k = none) ∧ ∀ s ∈ arch.sites, st.live s.name = none
  | .corrupt _ => True
  | .present d =>
    (∀ k, d.lookup k = st.mergedDeltas.lookup k) ∧
      ∀ s ∈ arch.sites, s.hasDefault = true → s.hasBaseLayer = true →
        ∀ delta, d.lookup (residualKey s.name) = some delta →
          st.live s.name = some (Torch.cast .bfloat16 delta)

/-- A load that fails before it writes, or does not fail, or fails after it has written
only what was there. -/
def NoTrace (dir : SnapshotDir T) (st : ModelState arch T) : Prop :=
  (∀ m, dir.manifest ≠ .present m) ∨ (∃ e, dir.residual = .corrupt e) ∨
    (dir.ManifestFits ∧ dir.AdapterFits st) ∨ (dir.ResidualHeld st ∧ dir.AdapterHeld st)

end SnapshotDir

/-! ## Copying the adapter -/

namespace ModelState

section

variable [Torch T]

theorem copyable_congr {st st' : ModelState arch T} {e : ParamName × T}
    (h : st'.param e.1 = st.param e.1) : st'.copyable e = st.copyable e := by
  rw [copyable, copyable, h]

/-- One turn of the loop: it raises, or it copies the entry and leaves the other parameters
alone. -/
theorem loadActiveAdapter_cons (st : ModelState arch T) (e : ParamName × T)
    (sd : List (ParamName × T)) :
    (st.copyable e = false → ∃ err, st.loadActiveAdapter (e :: sd) = (.error err, st)) ∧
      (st.copyable e = true → ∃ st₁ : ModelState arch T,
        st.loadActiveAdapter (e :: sd) = st₁.loadActiveAdapter sd ∧
          (e.1 ∈ arch.params → Torch.copy_ (st.param e.1) e.2 = .ok (st₁.param e.1)) ∧
            ∀ q, q ≠ e.1 → st₁.param q = st.param q) := by
  obtain ⟨p, t⟩ := e
  by_cases hp : p ∈ arch.params
  · cases hc : Torch.copy_ (st.param p) t with
    | error err => simp [copyable, loadActiveAdapter, hp, hc, Except.toBool]
    | ok t' =>
      refine ⟨by simp [copyable, hp, hc, Except.toBool], fun _ =>
        ⟨{ st with param := Function.update st.param p t' }, ?_, fun _ => ?_, fun q hq => ?_⟩⟩
      · simp [loadActiveAdapter, hp, hc]
      · simp
      · exact Function.update_of_ne hq _ _
  · refine ⟨by simp [copyable, hp], fun _ => ⟨st, ?_, fun h => absurd h hp, fun _ _ => rfl⟩⟩
    simp [loadActiveAdapter, hp]

/-- The loop copies the entries up to the first that cannot be copied. `st₀` is the state
it has started from: a key occurs once, so its parameter is then still as in `st₀`. -/
theorem loadActiveAdapter_spec {st₀ : ModelState arch T} {sd : List (ParamName × T)}
    (hkeys : (sd.map Prod.fst).Nodup) {st : ModelState arch T}
    (hst : ∀ e ∈ sd, st.param e.1 = st₀.param e.1) :
    ((st.loadActiveAdapter sd).1 = .ok () ↔ ∀ e ∈ sd, st₀.copyable e = true) ∧
      (∀ e ∈ sd.takeWhile st₀.copyable, e.1 ∈ arch.params →
        Torch.copy_ (st₀.param e.1) e.2 = .ok ((st.loadActiveAdapter sd).2.param e.1)) ∧
      ∀ p, p ∉ (sd.takeWhile st₀.copyable).map Prod.fst →
        (st.loadActiveAdapter sd).2.param p = st.param p := by
  induction sd generalizing st with
  | nil => exact ⟨by simp [loadActiveAdapter], by simp, fun p _ => rfl⟩
  | cons e sd ih =>
    obtain ⟨hnew, hkeys⟩ := List.nodup_cons.mp hkeys
    have he : st.param e.1 = st₀.param e.1 := hst e List.mem_cons_self
    have hother : ∀ e' ∈ sd, e'.1 ≠ e.1 := by
      intro e' he' hkey
      exact hnew (List.mem_map.mpr ⟨e', he', hkey⟩)
    obtain ⟨hraise, hcopy⟩ := loadActiveAdapter_cons st e sd
    rw [copyable_congr he] at hraise hcopy
    cases hc : st₀.copyable e with
    | false =>
      obtain ⟨err, herr⟩ := hraise hc
      simp [herr, hc]
    | true =>
      obtain ⟨st₁, heq, hvalue, hsame⟩ := hcopy hc
      obtain ⟨hok, hcopied, hkept⟩ := @ih hkeys st₁ fun e' he' =>
        (hsame e'.1 (hother e' he')).trans (hst e' (List.mem_cons_of_mem e he'))
      rw [heq, List.takeWhile_cons_of_pos hc]
      refine ⟨by simp [hok, hc], fun e' he' hin => ?_, fun q hq => ?_⟩
      · rcases List.mem_cons.mp he' with rfl | he'
        · -- no later entry has this key
          have hlast : e'.1 ∉ (sd.takeWhile st₀.copyable).map Prod.fst := fun hmem =>
            hnew ((List.takeWhile_sublist _).map Prod.fst |>.subset hmem)
          rw [hkept e'.1 hlast, ← he]
          exact hvalue hin
        · exact hcopied e' he' hin
      · simp only [List.map_cons, List.mem_cons, not_or] at hq
        exact (hkept q hq.2).trans (hsame q hq.1)

theorem mem_params_of_lora {p : ParamName} (h : p ∈ arch.loraParams) : p ∈ arch.params :=
  List.mem_append_left _ h

/-- The LoRA parameters survive a copy exactly if the copied entries hold them. -/
theorem loadActiveAdapter_unchanged_iff {st : ModelState arch T} {sd : List (ParamName × T)}
    (hkeys : (sd.map Prod.fst).Nodup) :
    (∀ p ∈ arch.loraParams, (st.loadActiveAdapter sd).2.param p = st.param p) ↔
      ∀ e ∈ sd.takeWhile st.copyable, st.Unchanging e := by
  obtain ⟨-, hcopied, hkept⟩ := @loadActiveAdapter_spec _ _ _ st sd hkeys st fun _ _ => rfl
  constructor
  · intro hsame e he hlora
    rw [hcopied e he (mem_params_of_lora hlora), hsame e.1 hlora]
  · intro hheld p hlora
    by_cases hmem : p ∈ (sd.takeWhile st.copyable).map Prod.fst
    · obtain ⟨e, he, rfl⟩ := List.mem_map.mp hmem
      have hvalue := hcopied e he (mem_params_of_lora hlora)
      rw [hheld e he hlora] at hvalue
      exact (Except.ok.inj hvalue).symm
    · exact hkept p hmem

theorem mergesApplied_loadActiveAdapter (sd : List (ParamName × T)) (st : ModelState arch T) :
    (st.loadActiveAdapter sd).2.mergesApplied = st.mergesApplied := by
  induction sd generalizing st with
  | nil => rfl
  | cons e sd ih =>
    rw [loadActiveAdapter]
    split
    · split
      · rfl
      · exact ih _
    · exact ih st

end

/-! ## Replacing the residual -/

/-- On tracked states one of the two channels tells what is bound. -/
theorem Tracked.binding_iff_live {st st' : ModelState arch T} (h : Tracked st)
    (h' : Tracked st') (n : String) :
    ((st'.base n).residualDelta = (st.base n).residualDelta ∧
        (st'.base n).hooks.map Prod.snd = (st.base n).hooks.map Prod.snd) ↔
      st'.live n = st.live n := by
  constructor
  · exact fun hsame => hsame.1
  · intro hlive
    refine ⟨hlive, ?_⟩
    cases hl : st.live n with
    | none => rw [h.base_of_not_live hl, h'.base_of_not_live (hlive.trans hl)]
    | some d =>
      obtain ⟨n₁, hb⟩ := h.base_of_live hl
      obtain ⟨n₂, hb'⟩ := h'.base_of_live (hlive.trans hl)
      simp [hb, hb']

section

variable [Torch T]

theorem live_applyResidual_iff {st : ModelState arch T} (h : Tracked st) :
    (∀ s ∈ arch.sites, st.applyResidualToModel.live s.name = st.live s.name) ↔
      ∀ s ∈ arch.sites, s.hasDefault = true → s.hasBaseLayer = true →
        ∀ delta, st.mergedDeltas.lookup (residualKey s.name) = some delta →
          st.live s.name = some (Torch.cast .bfloat16 delta) := by
  constructor
  · intro hsame s hs hdef hbase delta hdelta
    rw [← hsame s hs]
    exact live_applyResidual_of_bindable h ⟨s, hs, rfl, hdef, hbase⟩ hdelta
  · intro hheld s hs
    by_cases hbind : Bindable arch.sites s.name
    · cases hdelta : st.mergedDeltas.lookup (residualKey s.name) with
      | none => exact live_applyResidual_of_not h (.inr hdelta)
      | some delta =>
        obtain ⟨s', hs', hname, hdef, hbase⟩ := hbind
        obtain rfl := site_unique hs' hs hname
        rw [hheld s' hs' hdef hbase delta hdelta]
        exact live_applyResidual_of_bindable h ⟨s', hs', rfl, hdef, hbase⟩ hdelta
    · exact live_applyResidual_of_not h (.inl hbind)

end

end ModelState

namespace SnapshotDir

open ModelState (Tracked copyable_congr loadResidualPart_fst loadResidualPart_record)

section

variable [Torch T] {dir : SnapshotDir T} {st : ModelState arch T}

/-- The residual part of a load leaves the dictionary and what is bound as they were
exactly if the directory holds the residual of the model. -/
theorem residualPart_unchanged_iff (ht : Tracked st) (hr : ∀ e, dir.residual ≠ .corrupt e) :
    ((∀ k, (dir.loadResidualPart st).2.mergedDeltas.lookup k = st.mergedDeltas.lookup k) ∧
        ∀ s ∈ arch.sites, (dir.loadResidualPart st).2.live s.name = st.live s.name) ↔
      dir.ResidualHeld st := by
  unfold loadResidualPart ResidualHeld
  cases hres : dir.residual with
  | corrupt e => exact absurd hres (hr e)
  | absent =>
    have ht' : Tracked ({ st with mergedDeltas := ∅ } : ModelState arch T) :=
      ht.of_same rfl rfl rfl
    have hcleared := ht'.base_clearResidual
    refine and_congr (forall_congr' fun k => ?_) (forall₂_congr fun s _ => ?_)
    · exact (AList.lookup_empty k).symm ▸ eq_comm
    · rw [ModelState.live, hcleared]
      exact eq_comm
  | present d =>
    have ht' : Tracked ({ st with mergedDeltas := d } : ModelState arch T) :=
      ht.of_same rfl rfl rfl
    have hd := (ModelState.keepsRecord_applyResidual
      ({ st with mergedDeltas := d } : ModelState arch T)).mergedDeltas
    simp only [hd]
    exact and_congr Iff.rfl (ModelState.live_applyResidual_iff ht')

/-- The entries of an adapter file are a dictionary. -/
def Keyed (dir : SnapshotDir T) : Prop :=
  ∀ sd, dir.adapter = .present sd → (sd.map Prod.fst).Nodup

theorem loadAdapterPart_ok_iff (hkeys : dir.Keyed) (st : ModelState arch T) :
    (dir.loadAdapterPart st).1 = .ok () ↔ dir.AdapterFits st := by
  unfold loadAdapterPart AdapterFits
  cases had : dir.adapter with
  | absent => simp
  | corrupt e => simp
  | present sd =>
    exact (@ModelState.loadActiveAdapter_spec _ _ _ st sd (hkeys sd had) st fun _ _ => rfl).1

/-- The adapter part leaves the LoRA parameters as they were exactly if the directory holds
them as far as it has been copied. -/
theorem adapterPart_unchanged_iff (hkeys : dir.Keyed) :
    (∀ p ∈ arch.loraParams, (dir.loadAdapterPart st).2.param p = st.param p) ↔
      dir.AdapterHeld st := by
  unfold loadAdapterPart AdapterHeld
  cases had : dir.adapter with
  | absent =>
    refine forall₂_congr fun p hp => ?_
    simp [ModelState.resetActiveAdapter, hp]
  | corrupt e => simp
  | present sd => exact ModelState.loadActiveAdapter_unchanged_iff (hkeys sd had)

theorem loadAdapterPart_mergesApplied (dir : SnapshotDir T) (st : ModelState arch T) :
    (dir.loadAdapterPart st).2.mergesApplied = st.mergesApplied := by
  unfold loadAdapterPart
  split
  · rfl
  · exact ModelState.mergesApplied_loadActiveAdapter _ st
  · rfl

theorem adapter_congr {st' : ModelState arch T} (h : st'.param = st.param) :
    (dir.AdapterFits st' ↔ dir.AdapterFits st) ∧ (dir.AdapterHeld st' ↔ dir.AdapterHeld st) := by
  have hheld : ∀ e, st'.Unchanging e ↔ st.Unchanging e := by
    intro e
    rw [ModelState.Unchanging, ModelState.Unchanging, h]
  have hcopyable : st'.copyable = st.copyable := by
    funext e
    exact copyable_congr (congrFun h e.1)
  unfold AdapterFits AdapterHeld
  simp only [h, hcopyable, hheld, and_self]

/-- Once the manifest and the residual have been read, `load` raises exactly if the
adapter file or the manifest does not fit, and then it has done its two parts and no more. -/
theorem load_of_read {m : ManifestJson} (hm : dir.manifest = .present m)
    (hr : ∀ e, dir.residual ≠ .corrupt e) (hkeys : dir.Keyed) (st : ModelState arch T) :
    (dir.ManifestFits ∧ dir.AdapterFits st → ∃ m, (dir.load st).1 = .ok m) ∧
      (¬ (dir.ManifestFits ∧ dir.AdapterFits st) → (∃ e, (dir.load st).1 = .error e) ∧
        (dir.load st).2 = (dir.loadAdapterPart (dir.loadResidualPart st).2).2) := by
  have hres := loadResidualPart_fst hr st
  have hok := loadAdapterPart_ok_iff hkeys (dir.loadResidualPart st).2
  rw [(adapter_congr (loadResidualPart_record dir st).1).1] at hok
  constructor
  · rintro ⟨⟨m, hm⟩, hfit⟩
    exact ⟨m, by rw [History.load_eq_of_ok hm hres (hok.mpr hfit)]⟩
  · intro hunfit
    unfold load
    rw [hm]
    generalize dir.loadResidualPart st = r at hres hok ⊢
    obtain ⟨r₁, r₂⟩ := r
    obtain rfl : r₁ = .ok () := hres
    simp only at hok ⊢
    cases ha : dir.loadAdapterPart r₂ with
    | mk a₁ a₂ =>
      rw [ha] at hok
      cases a₁ with
      | error e => exact ⟨⟨e, rfl⟩, rfl⟩
      | ok u =>
        cases m with
        | object m => exact absurd ⟨⟨m, hm⟩, hok.mp rfl⟩ hunfit
        | other typeName => exact ⟨⟨_, rfl⟩, rfl⟩

end

end SnapshotDir

namespace Served

theorem Same.refl (s : Served arch T P E L τ M) : s.Same s :=
  ⟨fun _ => rfl, fun _ _ => ⟨rfl, rfl⟩, fun _ _ => rfl, rfl, rfl⟩

variable [Torch T]

/-- A task whose load raises keeps the engine. -/
theorem snapshotLoad_error (b : Backend P E L G τ M) {dir : SnapshotDir T}
    {s : Served arch T P E L τ M} {e : PyError} (h : (dir.load s.model).1 = .error e) :
    s.snapshotLoad b dir = (.error e, { s with model := (dir.load s.model).2 }) := by
  unfold snapshotLoad
  generalize dir.load s.model = r at h ⊢
  obtain ⟨r₁, r₂⟩ := r
  obtain rfl : r₁ = .error e := h
  rfl

theorem snapshotLoad_fst (b : Backend P E L G τ M) (dir : SnapshotDir T)
    (s : Served arch T P E L τ M) : (s.snapshotLoad b dir).1 = (dir.load s.model).1 := by
  unfold snapshotLoad
  split <;> rename_i h <;> rw [h]

/-- A load that fails once the residual has been read leaves no trace exactly if the
directory holds the residual of the model, and its adapter as far as it can be copied. -/
theorem same_of_unfit_iff (b : Backend P E L G τ M) {dir : SnapshotDir T}
    {s : Served arch T P E L τ M} (ht : Tracked s.model) {m : ManifestJson}
    (hm : dir.manifest = .present m) (hr : ∀ e, dir.residual ≠ .corrupt e)
    (hkeys : dir.Keyed) (hunfit : ¬ (dir.ManifestFits ∧ dir.AdapterFits s.model)) :
    s.Same (s.snapshotLoad b dir).2 ↔ dir.ResidualHeld s.model ∧ dir.AdapterHeld s.model := by
  obtain ⟨⟨e, herr⟩, hafter⟩ := (SnapshotDir.load_of_read hm hr hkeys s.model).2 hunfit
  obtain ⟨hparam, hmerges⟩ := ModelState.loadResidualPart_record dir s.model
  have hadapter := @SnapshotDir.adapterPart_unchanged_iff _ _ _ dir
    (dir.loadResidualPart s.model).2 hkeys
  rw [(SnapshotDir.adapter_congr hparam).2, hparam] at hadapter
  have hk := ModelState.keepsResidual_loadAdapterPart dir (dir.loadResidualPart s.model).2
  have htracked := ModelState.tracked_loadResidualPart ht dir
  have hresidual := SnapshotDir.residualPart_unchanged_iff ht hr
  rw [snapshotLoad_error b herr, hafter]
  constructor
  · intro h
    refine ⟨hresidual.mp ⟨fun k => ?_, fun site hs => ?_⟩, hadapter.mp h.adapter⟩
    · rw [← hk.mergedDeltas]
      exact h.mergedDeltas k
    · have hsite := (h.binding site hs).1
      rwa [hk.base] at hsite
  · rintro ⟨hheld, hcopied⟩
    obtain ⟨hmerged, hlive⟩ := hresidual.mpr hheld
    refine ⟨fun k => ?_, fun site hs => ?_, hadapter.mpr hcopied, ?_, rfl⟩
    · simp only [hk.mergedDeltas]
      exact hmerged k
    · simp only [hk.base]
      exact (ht.binding_iff_live htracked site.name).mpr (hlive site hs)
    · simp only [SnapshotDir.loadAdapterPart_mergesApplied]
      exact hmerges

/-- The cases of `NoTrace` in the order in which `load` meets them. -/
theorem same_iff_noTrace (b : Backend P E L G τ M) {dir : SnapshotDir T}
    {s : Served arch T P E L τ M} (ht : Tracked s.model) (hkeys : dir.Keyed) :
    ((∃ e, (s.snapshotLoad b dir).1 = .error e) → s.Same (s.snapshotLoad b dir).2) ↔
      dir.NoTrace s.model := by
  have hsame_of_eq : ∀ e, (dir.load s.model).1 = .error e → (dir.load s.model).2 = s.model →
      s.Same (s.snapshotLoad b dir).2 := by
    intro e herr hmodel
    rw [snapshotLoad_error b herr, hmodel]
    exact .refl s
  rw [snapshotLoad_fst]
  by_cases hm : ∃ m, dir.manifest = .present m
  · obtain ⟨m, hm⟩ := hm
    by_cases hr : ∃ e, dir.residual = .corrupt e
    · refine iff_of_true (fun ⟨e, he⟩ => hsame_of_eq e he ?_) (.inr (.inl hr))
      obtain ⟨e, hr⟩ := hr
      simp [SnapshotDir.load, SnapshotDir.loadResidualPart, hm, hr]
    · have hr' : ∀ e, dir.residual ≠ .corrupt e := fun e he => hr ⟨e, he⟩
      have hread := SnapshotDir.load_of_read hm hr' hkeys s.model
      by_cases hfit : dir.ManifestFits ∧ dir.AdapterFits s.model
      · refine iff_of_true (fun ⟨e, he⟩ => ?_) (.inr (.inr (.inl hfit)))
        obtain ⟨m, hok⟩ := hread.1 hfit
        cases he.symm.trans hok
      · have hnot : ¬ ∀ m, dir.manifest ≠ .present m := fun h => h m hm
        simp only [(hread.2 hfit).1, true_imp_iff, same_of_unfit_iff b ht hm hr' hkeys hfit,
          SnapshotDir.NoTrace, hnot, hr, hfit, false_or]
  · have hm' : ∀ m, dir.manifest ≠ .present m := fun m h => hm ⟨m, h⟩
    exact iff_of_true (fun ⟨e, he⟩ => hsame_of_eq e he (ModelState.load_of_no_manifest hm' s.model))
      (.inl hm')

/-- **A failed load.** In every state of a process, a `snapshot_load` task that raises
leaves no trace exactly if the manifest or the residual file cannot be read, the adapter file
and the manifest cannot make it fail, or it has written only what was there. -/
theorem load_atomic_iff (b : Backend P E L G τ M) (param : ParamName → T) (rank alpha : Int)
    (name : String) (ops : List (ModelState.ResidualOp T)) (s : Served arch T P E L τ M)
    (dir : SnapshotDir T)
    (hrun : Runs.exec ModelState.opStep (ModelState.fresh arch param rank alpha name) ops =
      some s.model)
    (hkeys : dir.Keyed) :
    ((∃ e, (s.snapshotLoad b dir).1 = .error e) → s.Same (s.snapshotLoad b dir).2) ↔
      dir.NoTrace s.model := by
  refine same_iff_noTrace b ?_ hkeys
  refine Runs.exec_preserves (I := Tracked) ?_
    (ModelState.tracked_fresh param rank alpha name) hrun
  intro st op st' ht hstep
  obtain rfl := Option.some.inj hstep
  exact ModelState.tracked_after st op ht

/-- A directory that was saved from the model, with an adapter file that cannot be read. -/
def truncatedAdapter (st : ModelState arch T) : SnapshotDir T where
  manifest := .present (SnapshotDir.manifestOf ⟨fun _ => "", 0, none⟩ "s" st)
  residual := .present st.mergedDeltas
  adapter := .corrupt ⟨.other "SafetensorError", "Error while deserializing header"⟩

/-- Two sites after one merge, and the optimizer of the steps before it. -/
def mergedOnce : Served ModelState.twoSites OneByOne ℚ Unit (ℚ × ℚ) Unit Unit where
  model := (ModelState.fresh ModelState.twoSites (fun _ => ⟨.float32, 1⟩) 1 1 "base").after .merge
  engine := { params := 3, ema := (), opts := AList.insert sharedKey ⟨.adamW, 1, ()⟩ ∅ }

theorem truncated_own_residual :
    ∃ e, (mergedOnce.snapshotLoad scalarBackend (truncatedAdapter mergedOnce.model)).1 = .error e ∧
      mergedOnce.Same
        (mergedOnce.snapshotLoad scalarBackend (truncatedAdapter mergedOnce.model)).2 := by
  refine ⟨_, rfl, (load_atomic_iff scalarBackend (fun _ => ⟨.float32, 1⟩) 1 1 "base" [.merge]
    mergedOnce (truncatedAdapter mergedOnce.model) rfl ?_).mpr ?_ ⟨_, rfl⟩⟩
  · intro sd h
    cases h
  · refine .inr (.inr (.inr ⟨⟨fun _ => rfl, ?_⟩, trivial⟩))
    decide +kernel

/-- Nothing has been merged yet when a snapshot of a merged model is loaded whose adapter
file cannot be read. -/
theorem failed_load_replaces_residual :
    ¬ ∀ (b : Backend ℚ Unit (ℚ × ℚ) ℚ Unit Unit) (ops : List (ModelState.ResidualOp OneByOne))
      (s : Served ModelState.twoSites OneByOne ℚ Unit (ℚ × ℚ) Unit Unit)
      (dir : SnapshotDir OneByOne),
      Runs.exec ModelState.opStep
          (ModelState.fresh ModelState.twoSites (fun _ => ⟨.float32, 1⟩) 1 1 "base") ops =
        some s.model →
      dir.Keyed → (∃ e, (s.snapshotLoad b dir).1 = .error e) →
        s.Same (s.snapshotLoad b dir).2 := by
  intro h
  have hsame := h scalarBackend []
    ⟨ModelState.fresh ModelState.twoSites (fun _ => ⟨.float32, 1⟩) 1 1 "base", mergedOnce.engine⟩
    (truncatedAdapter mergedOnce.model) rfl (fun sd h => by cases h) ⟨_, rfl⟩
  have hbound := (hsame.binding ⟨"a", ["default"], true⟩ (by decide)).1
  revert hbound
  decide +kernel

end Served

end Trainfer
