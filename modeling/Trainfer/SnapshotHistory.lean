import Trainfer.ResidualBinding

/-! Histories of one process with its snapshot store: saves and loads under any names,
merges, adapter resets, and arbitrary other changes of the live state in between. -/

namespace Trainfer

universe u

open ModelState (Tracked ResidualBound Covers)

/-- The store and the live state, and for each name the state of its last save. -/
structure History (arch : Arch) (T : Type u) where
  store : SnapshotStore T
  live : ModelState arch T
  saved : String → Option (ModelState arch T)

inductive StoreAction (arch : Arch) (T : Type u) where
  | save (env : SaveEnv) (name : String)
  | load (name : String)
  | merge
  | reset
  | change (st : ModelState arch T)

namespace History

variable {arch : Arch} {T : Type u} [Torch T]

def init (st : ModelState arch T) : History arch T := ⟨∅, st, fun _ => none⟩

def step (h : History arch T) : StoreAction arch T → Option (History arch T)
  | .save env name =>
    some
      { h with
        store := h.store.save env name h.live
        saved := Function.update h.saved name (some h.live) }
  | .load name => some { h with live := (h.store.load name h.live).2 }
  | .merge =>
    match h.live.mergeActiveIntoResidual with
    | .ok st => some { h with live := st }
    | .error _ => none
  | .reset => some { h with live := h.live.resetActiveAdapter }
  | .change st => some { h with live := st }

theorem step_merge_some {h h' : History arch T} (hstep : step h .merge = some h') :
    ∃ st, h.live.mergeActiveIntoResidual = .ok st ∧ h' = { h with live := st } := by
  cases hm : h.live.mergeActiveIntoResidual with
  | error e =>
    rw [step, hm] at hstep
    cases hstep
  | ok st =>
    rw [step, hm] at hstep
    exact ⟨st, rfl, (Option.some.inj hstep).symm⟩

/-! ## States of one loaded model -/

/-- The LoRA parameters have the dtypes and shapes they were allocated with. -/
def Fits (sig : ParamName → DType × List Nat) (st : ModelState arch T) : Prop :=
  ∀ p ∈ arch.loraParams, (Torch.dtype (st.param p), Torch.shape (st.param p)) = sig p

/-- A state that the process can be in: the residual in the dictionary is the one that is
bound, and the parameters are those of the loaded model. -/
structure WellFormed (sig : ParamName → DType × List Nat) (st : ModelState arch T) : Prop where
  tracked : Tracked st
  bound : ResidualBound st
  fits : Fits sig st

/-- Changes lead to states of the same loaded model. -/
def Domain (sig : ParamName → DType × List Nat) (_ : History arch T) :
    StoreAction arch T → Prop
  | .change st => WellFormed sig st
  | _ => True

/-! ## One save, one load -/

theorem save_eq (dir : SnapshotDir T) (env : SaveEnv) (name : String) (st : ModelState arch T) :
    dir.save env name st =
      { manifest := .present (SnapshotDir.manifestOf env name st)
        residual := if st.mergedDeltas.isEmpty then dir.residual else .present st.mergedDeltas
        adapter :=
          if st.extractActiveAdapter.isEmpty then dir.adapter
          else .present st.extractActiveAdapter } := by
  cases hm : st.mergedDeltas.isEmpty <;> cases hs : st.extractActiveAdapter.isEmpty <;>
    simp [SnapshotDir.save, SnapshotDir.saveWrites, SnapshotDir.write, hm, hs]

/-- What a directory holds of the state that was last saved into it. Of an empty residual
it holds nothing: an older residual file is still there. -/
structure Stored (dir : SnapshotDir T) (saved : ModelState arch T) : Prop where
  manifest : ∃ m : Manifest,
    dir.manifest = .present m ∧ m.mergesApplied = some saved.mergesApplied
  residual : saved.mergedDeltas.isEmpty = false → dir.residual = .present saved.mergedDeltas
  adapter : arch.loraParams ≠ [] → dir.adapter = .present saved.extractActiveAdapter

/-- Files that no save has written are absent, and no file is corrupt. -/
structure Clean (arch : Arch) (dir : SnapshotDir T) : Prop where
  residual : ∀ e, dir.residual ≠ .corrupt e
  adapter : arch.loraParams = [] → dir.adapter = .absent

theorem isEmpty_extractActiveAdapter (st : ModelState arch T) :
    st.extractActiveAdapter.isEmpty = true ↔ arch.loraParams = [] := by
  simp [ModelState.extractActiveAdapter]

theorem stored_save {dir : SnapshotDir T} (env : SaveEnv) (name : String)
    (st : ModelState arch T) : Stored (dir.save env name st) st := by
  rw [save_eq]
  refine ⟨⟨_, rfl, rfl⟩, fun hne => by simp [hne], fun hne => ?_⟩
  have hsd : st.extractActiveAdapter.isEmpty = false := by
    rw [← Bool.not_eq_true, isEmpty_extractActiveAdapter]
    exact hne
  simp [hsd]

theorem clean_save {dir : SnapshotDir T} (hc : Clean arch dir) (env : SaveEnv) (name : String)
    (st : ModelState arch T) : Clean arch (dir.save env name st) := by
  rw [save_eq]
  refine ⟨fun e => ?_, fun hnil => ?_⟩
  · simp only
    split
    · exact hc.residual e
    · simp
  · simp [(isEmpty_extractActiveAdapter st).mpr hnil, hc.adapter hnil]

/-- The live state is what the saved one was, with the adapter rounded to `bfloat16`. -/
structure Restores (saved live : ModelState arch T) : Prop where
  mergedDeltas : live.mergedDeltas = saved.mergedDeltas
  mergesApplied : live.mergesApplied = saved.mergesApplied
  binding : ∀ s ∈ arch.sites, s.hasBaseLayer = true →
    (live.base s.name).residualDelta = (saved.base s.name).residualDelta ∧
      (live.base s.name).hooks.map Prod.snd = (saved.base s.name).hooks.map Prod.snd
  adapter : ∀ p ∈ arch.loraParams, live.param p =
    Torch.cast (Torch.dtype (saved.param p)) (Torch.cast .bfloat16 (saved.param p))

/-- Two bound states with the same residual carry the same tensors. -/
theorem binding_eq {st st' : ModelState arch T} (h : ResidualBound st) (h' : ResidualBound st')
    (hm : st'.mergedDeltas = st.mergedDeltas) {s : LoraSite} (hs : s ∈ arch.sites)
    (hb : s.hasBaseLayer = true) :
    (st'.base s.name).residualDelta = (st.base s.name).residualDelta ∧
      (st'.base s.name).hooks.map Prod.snd = (st.base s.name).hooks.map Prod.snd := by
  have hsite := h s hs hb
  have hsite' := h' s hs hb
  rw [hm] at hsite'
  cases hd : st.mergedDeltas.lookup (residualKey s.name) with
  | none =>
    rw [hd] at hsite hsite'
    simp [hsite.1, hsite.2, hsite'.1, hsite'.2]
  | some d =>
    rw [hd] at hsite hsite'
    obtain ⟨h₁, n, h₂⟩ := hsite
    obtain ⟨h₁', n', h₂'⟩ := hsite'
    simp [h₁, h₂, h₁', h₂']

theorem loadResidualPart_ok {dir : SnapshotDir T} (hc : Clean arch dir)
    (st : ModelState arch T) :
    (dir.loadResidualPart st).1 = .ok () ∧ (dir.loadResidualPart st).2.param = st.param :=
  ⟨ModelState.loadResidualPart_fst hc.residual st, (ModelState.loadResidualPart_record dir st).1⟩

theorem loadResidualPart_mergedDeltas {dir : SnapshotDir T} {saved : ModelState arch T}
    (hd : Stored dir saved) (hc : Clean arch dir)
    (hstale : ∀ d, dir.residual = .present d → saved.mergedDeltas.isEmpty = false)
    (st : ModelState arch T) :
    (dir.loadResidualPart st).2.mergedDeltas = saved.mergedDeltas := by
  unfold SnapshotDir.loadResidualPart
  cases hr : dir.residual with
  | corrupt e => exact absurd hr (hc.residual e)
  | absent =>
    -- a residual that is not empty would have been written
    have hempty : saved.mergedDeltas.isEmpty = true := by
      by_contra hne
      have hpres := hd.residual (by simpa using hne)
      rw [hr] at hpres
      cases hpres
    exact (AList.ext (List.isEmpty_iff.mp hempty)).symm
  | present d =>
    have hpres := hd.residual (hstale d hr)
    rw [hr] at hpres
    obtain rfl := FileState.present.inj hpres
    exact (ModelState.keepsRecord_applyResidual
      ({ st with mergedDeltas := saved.mergedDeltas } : ModelState arch T)).mergedDeltas

theorem load_eq_of_ok {dir : SnapshotDir T} {st : ModelState arch T} {m : Manifest}
    (hm : dir.manifest = .present m) (hres : (dir.loadResidualPart st).1 = .ok ())
    (had : (dir.loadAdapterPart (dir.loadResidualPart st).2).1 = .ok ()) :
    dir.load st = (.ok m,
      { (dir.loadAdapterPart (dir.loadResidualPart st).2).2 with
        mergesApplied := m.mergesApplied.getD 0 }) := by
  unfold SnapshotDir.load
  rw [hm]
  generalize hr : dir.loadResidualPart st = r at hres had ⊢
  obtain ⟨r₁, r₂⟩ := r
  obtain rfl : r₁ = .ok () := hres
  simp only at had ⊢
  generalize ha : dir.loadAdapterPart r₂ = a at had ⊢
  obtain ⟨a₁, a₂⟩ := a
  obtain rfl : a₁ = .ok () := had
  rfl

variable [LawfulTorch T]

theorem copy_of_shape {dst src : T} (h : Torch.shape dst = Torch.shape src) :
    Torch.copy_ dst src = .ok (Torch.cast (Torch.dtype dst) src) := by
  rw [Torch.copy_, h, ← LawfulTorch.shape_cast (Torch.dtype dst) src]
  exact LawfulTorch.expand_shape _

/-- Loading copies of parameters that fit succeeds and casts each to the dtype of the
parameter it is copied to. -/
theorem loadActiveAdapter_map (f : ParamName → T) (l : List ParamName)
    (st : ModelState arch T)
    (hl : ∀ p ∈ l, p ∈ arch.params ∧ Torch.shape (st.param p) = Torch.shape (f p)) :
    (st.loadActiveAdapter (l.map fun p => (p, f p))).1 = .ok () ∧
      ∀ p, (st.loadActiveAdapter (l.map fun p => (p, f p))).2.param p =
        if p ∈ l then Torch.cast (Torch.dtype (st.param p)) (f p) else st.param p := by
  induction l generalizing st with
  | nil => exact ⟨rfl, fun p => by simp [ModelState.loadActiveAdapter]⟩
  | cons q l ih =>
    obtain ⟨hq, hshape⟩ := hl q List.mem_cons_self
    rw [List.map_cons, ModelState.loadActiveAdapter]
    simp only [hq, if_true, copy_of_shape hshape]
    -- the copy changes neither the shape nor the dtype of the parameter
    have hrest := ih
      { st with param := Function.update st.param q (Torch.cast (Torch.dtype (st.param q)) (f q)) }
      (fun p hp => by
        obtain ⟨hp', hs⟩ := hl p (List.mem_cons_of_mem q hp)
        refine ⟨hp', ?_⟩
        by_cases hpq : p = q
        · subst hpq
          simp [LawfulTorch.shape_cast]
        · simpa [Function.update_of_ne hpq] using hs)
    refine ⟨hrest.1, fun p => ?_⟩
    rw [hrest.2 p]
    by_cases hpq : p = q
    · subst hpq
      simp [LawfulTorch.dtype_cast]
    · simp [hpq]

/-- A saved adapter goes into a model with the same parameters, rounded to `bfloat16`. -/
theorem loadActiveAdapter_extract {sig : ParamName → DType × List Nat}
    {saved st : ModelState arch T} (hsaved : Fits sig saved) (hst : Fits sig st) :
    (st.loadActiveAdapter saved.extractActiveAdapter).1 = .ok () ∧
      ∀ p ∈ arch.loraParams, (st.loadActiveAdapter saved.extractActiveAdapter).2.param p =
        Torch.cast (Torch.dtype (saved.param p)) (Torch.cast .bfloat16 (saved.param p)) := by
  have hfit : ∀ p ∈ arch.loraParams, Torch.dtype (st.param p) = Torch.dtype (saved.param p) ∧
      Torch.shape (st.param p) = Torch.shape (saved.param p) := by
    intro p hp
    exact Prod.mk.inj ((hst p hp).trans (hsaved p hp).symm)
  obtain ⟨hok, hval⟩ := loadActiveAdapter_map (fun p => Torch.cast .bfloat16 (saved.param p))
    arch.loraParams st (fun p hp => ⟨List.mem_append_left _ hp, by
      rw [LawfulTorch.shape_cast, (hfit p hp).2]⟩)
  refine ⟨hok, fun p hp => ?_⟩
  have hp' := hval p
  rw [if_pos hp, (hfit p hp).1] at hp'
  exact hp'

theorem loadAdapterPart_ok {sig : ParamName → DType × List Nat} {dir : SnapshotDir T}
    {saved st : ModelState arch T} (hd : Stored dir saved) (hc : Clean arch dir)
    (hsaved : Fits sig saved) (hst : Fits sig st) :
    (dir.loadAdapterPart st).1 = .ok () ∧
      ∀ p ∈ arch.loraParams, (dir.loadAdapterPart st).2.param p =
        Torch.cast (Torch.dtype (saved.param p)) (Torch.cast .bfloat16 (saved.param p)) := by
  unfold SnapshotDir.loadAdapterPart
  by_cases hnil : arch.loraParams = []
  · rw [hc.adapter hnil]
    exact ⟨rfl, by simp [hnil]⟩
  · rw [hd.adapter hnil]
    exact loadActiveAdapter_extract hsaved hst

/-- Whatever the files hold, the parameters keep their dtypes and shapes. -/
theorem fits_loadActiveAdapter {sig : ParamName → DType × List Nat} (sd : List (ParamName × T))
    {st : ModelState arch T} (h : Fits sig st) : Fits sig (st.loadActiveAdapter sd).2 := by
  induction sd generalizing st with
  | nil => exact h
  | cons e sd ih =>
    rw [ModelState.loadActiveAdapter]
    split
    · split
      · exact h
      · rename_i t' hcopy
        obtain ⟨hshape, hdtype⟩ := LawfulTorch.expand_ok _ _ _ hcopy
        refine ih fun p hp => ?_
        by_cases hpe : p = e.1
        · subst hpe
          simp only [Function.update_self, hshape, hdtype, LawfulTorch.dtype_cast]
          exact h e.1 hp
        · simp only [Function.update_of_ne hpe]
          exact h p hp
    · exact ih h

theorem Fits.reset {sig : ParamName → DType × List Nat} {st : ModelState arch T}
    (h : Fits sig st) : Fits sig st.resetActiveAdapter := by
  intro p hp
  simp only [ModelState.resetActiveAdapter, hp, if_true, LawfulTorch.dtype_zero,
    LawfulTorch.shape_zero]
  exact h p hp

theorem fits_load {sig : ParamName → DType × List Nat} {dir : SnapshotDir T}
    (hc : Clean arch dir) {st : ModelState arch T} (h : Fits sig st) :
    Fits sig (dir.load st).2 := by
  obtain ⟨hres, hparam⟩ := loadResidualPart_ok hc st
  have hfits : Fits sig (dir.loadResidualPart st).2 := by
    intro p hp
    rw [hparam]
    exact h p hp
  have hadapter : Fits sig (dir.loadAdapterPart (dir.loadResidualPart st).2).2 := by
    unfold SnapshotDir.loadAdapterPart
    split
    · exact hfits
    · exact fits_loadActiveAdapter _ hfits
    · exact hfits.reset
  unfold SnapshotDir.load
  split
  · exact h
  · exact h
  · generalize dir.loadResidualPart st = r at hres hadapter hfits ⊢
    obtain ⟨r₁, r₂⟩ := r
    obtain rfl : r₁ = .ok () := hres
    simp only at hadapter ⊢
    split
    · rename_i he
      rwa [he] at hadapter
    · rename_i he
      rw [he] at hadapter
      split <;> exact hadapter

/-- A directory that holds a state restores its adapter, with the values rounded to
`bfloat16`, and its count of merges. -/
theorem load_restores_adapter {sig : ParamName → DType × List Nat} {dir : SnapshotDir T}
    {saved st : ModelState arch T} (hd : Stored dir saved) (hc : Clean arch dir)
    (hsaved : Fits sig saved) (hst : Fits sig st) :
    (∃ m, (dir.load st).1 = .ok m) ∧ (dir.load st).2.mergesApplied = saved.mergesApplied ∧
      (dir.load st).2.mergedDeltas = (dir.loadResidualPart st).2.mergedDeltas ∧
      ∀ p ∈ arch.loraParams, (dir.load st).2.param p =
        Torch.cast (Torch.dtype (saved.param p)) (Torch.cast .bfloat16 (saved.param p)) := by
  obtain ⟨m, hm, hmerges⟩ := hd.manifest
  obtain ⟨hres, hparam⟩ := loadResidualPart_ok hc st
  have hfits : Fits sig (dir.loadResidualPart st).2 := by
    intro p hp
    rw [hparam]
    exact hst p hp
  obtain ⟨had, hadapter⟩ := loadAdapterPart_ok hd hc hsaved hfits
  rw [load_eq_of_ok hm hres had, hmerges]
  exact ⟨⟨m, rfl⟩, rfl, (ModelState.keepsResidual_loadAdapterPart dir _).mergedDeltas, hadapter⟩

/-- **One load.** A directory that holds a well-formed state restores it on any other
well-formed state of the model, if its residual file is not a stale one and covers what
is bound. -/
theorem load_restores {sig : ParamName → DType × List Nat} {dir : SnapshotDir T}
    {saved st : ModelState arch T} (hd : Stored dir saved) (hc : Clean arch dir)
    (hsaved : WellFormed sig saved) (hst : WellFormed sig st)
    (hsound : ∀ d, dir.residual = .present d →
      Covers st d ∧ saved.mergedDeltas.isEmpty = false) :
    (∃ m, (dir.load st).1 = .ok m) ∧ WellFormed sig (dir.load st).2 ∧
      Restores saved (dir.load st).2 := by
  obtain ⟨hok, hmerges, hmerged, hparams⟩ := load_restores_adapter hd hc hsaved.fits hst.fits
  have hmerged' := hmerged.trans
    (loadResidualPart_mergedDeltas hd hc (fun d h => (hsound d h).2) st)
  have hbound : ResidualBound (dir.load st).2 := by
    refine (ModelState.residualBound_load_iff hst.tracked hst.bound dir).mpr ?_
    exact ModelState.covering_loadSnapshot fun d h => (hsound d h).1
  refine ⟨hok, ⟨ModelState.tracked_load hst.tracked dir, hbound, fits_load hc hst.fits⟩,
    hmerged', hmerges, ?_, hparams⟩
  intro s hs hb
  exact binding_eq hsaved.bound hbound hmerged' hs hb

end History

end Trainfer
