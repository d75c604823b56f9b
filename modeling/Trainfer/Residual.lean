import Trainfer.Snapshot
import Trainfer.Lib.Runs
import Mathlib

/-! The residual on the live model against `merged_deltas`.

`Tracked` is what every operation keeps: each hook has its stored handle, and each
site has a hook exactly when it has the attribute. On such states the residual a site
carries is one optional tensor, `live`, and one lemma for each operation says what it
does to it. Only clearing removes a residual, and only the load of a snapshot without
a residual file clears; hence `residualBound_iff`. -/

namespace Trainfer.ModelState

universe u
variable {arch : Arch} {T : Type u}

/-! ## Hooks and handles -/

/-- Hooks and handles go together. -/
structure Tracked (st : ModelState arch T) : Prop where
  handled : ∀ n h, st.hookHandles.lookup n = some h → ∃ d, st.base n = ⟨some d, [(h, d)]⟩
  unhandled : ∀ n, st.hookHandles.lookup n = none → st.base n = ⟨none, []⟩
  inj : ∀ n n' h, st.hookHandles.lookup n = some h → st.hookHandles.lookup n' = some h → n = n'
  fresh : ∀ n h, st.hookHandles.lookup n = some h → h < st.nextHandle
  sited : ∀ n h, st.hookHandles.lookup n = some h →
    ∃ s ∈ arch.sites, s.name = n ∧ s.hasDefault = true ∧ s.hasBaseLayer = true

/-- The residual that a base layer carries, on a tracked state. -/
def live (st : ModelState arch T) (n : String) : Option T := (st.base n).residualDelta

theorem Tracked.base_of_live {st : ModelState arch T} (h : Tracked st) {n : String} {d : T}
    (hl : st.live n = some d) : ∃ handle, st.base n = ⟨some d, [(handle, d)]⟩ := by
  cases hh : st.hookHandles.lookup n with
  | none =>
    rw [live, h.unhandled n hh] at hl
    cases hl
  | some handle =>
    obtain ⟨d', hb⟩ := h.handled n handle hh
    rw [live, hb] at hl
    obtain rfl := Option.some.inj hl
    exact ⟨handle, hb⟩

theorem Tracked.base_of_not_live {st : ModelState arch T} (h : Tracked st) {n : String}
    (hl : st.live n = none) : st.base n = ⟨none, []⟩ := by
  cases hh : st.hookHandles.lookup n with
  | none => exact h.unhandled n hh
  | some handle =>
    obtain ⟨d, hb⟩ := h.handled n handle hh
    rw [live, hb] at hl
    cases hl

theorem Tracked.site_of_live {st : ModelState arch T} (h : Tracked st) {n : String}
    (hl : st.live n ≠ none) :
    ∃ s ∈ arch.sites, s.name = n ∧ s.hasDefault = true ∧ s.hasBaseLayer = true := by
  cases hh : st.hookHandles.lookup n with
  | none => exact absurd (by rw [live, h.unhandled n hh]) hl
  | some handle => exact h.sited n handle hh

theorem Tracked.removeHook_base_self {st : ModelState arch T} (h : Tracked st) {n : String}
    {old : Nat} (hh : st.hookHandles.lookup n = some old) :
    ((removeHook st old).base n).hooks = [] := by
  obtain ⟨d, hb⟩ := h.handled n old hh
  simp [removeHook, hb]

/-- Removing the hook of one site leaves the others alone. -/
theorem Tracked.removeHook_base_ne {st : ModelState arch T} (h : Tracked st) {n n' : String}
    {old : Nat} (hh : st.hookHandles.lookup n = some old) (hne : n' ≠ n) :
    (removeHook st old).base n' = st.base n' := by
  cases hh' : st.hookHandles.lookup n' with
  | none => simp [removeHook, h.unhandled n' hh']
  | some handle =>
    obtain ⟨d, hb⟩ := h.handled n' handle hh'
    have hdiff : handle ≠ old := by
      rintro rfl
      exact hne (h.inj n' n handle hh' hh)
    simp [removeHook, hb, hdiff]

/-! ## Binding one site -/

/-- The site's old hook goes, whatever it was, and the new one is its only hook. -/
theorem Tracked.bindDelta_eq {st : ModelState arch T} (h : Tracked st) (n : String) (d : T) :
    bindDelta st n d =
      { st with
        base := Function.update st.base n ⟨some d, [(st.nextHandle, d)]⟩
        hookHandles := st.hookHandles.insert n st.nextHandle
        nextHandle := st.nextHandle + 1 } := by
  unfold bindDelta
  cases hh : st.hookHandles.lookup n with
  | none => simp [h.unhandled n hh]
  | some old =>
    have hself := h.removeHook_base_self hh
    simp only [hself, List.nil_append]
    congr 1
    funext n'
    by_cases hne : n' = n
    · subst hne
      simp [removeHook]
    · rw [Function.update_of_ne hne, Function.update_of_ne hne, h.removeHook_base_ne hh hne]

theorem Tracked.bindDelta {st : ModelState arch T} (h : Tracked st) {s : LoraSite}
    (hs : s ∈ arch.sites) (hd : s.hasDefault = true) (hb : s.hasBaseLayer = true) (d : T) :
    Tracked (bindDelta st s.name d) := by
  rw [h.bindDelta_eq]
  have hlookup : ∀ n', n' ≠ s.name →
      (st.hookHandles.insert s.name st.nextHandle).lookup n' = st.hookHandles.lookup n' :=
    fun n' hne => AList.lookup_insert_ne hne
  refine ⟨fun n' h' hh => ?_, fun n' hh => ?_, fun n₁ n₂ h' h₁ h₂ => ?_, fun n' h' hh => ?_,
    fun n' h' hh => ?_⟩
  · by_cases hne : n' = s.name
    · subst hne
      simp only [AList.lookup_insert, Option.some.injEq] at hh
      exact ⟨d, by simp [hh]⟩
    · simp only [hlookup n' hne] at hh
      obtain ⟨d', hb'⟩ := h.handled n' h' hh
      exact ⟨d', by simp [Function.update_of_ne hne, hb']⟩
  · by_cases hne : n' = s.name
    · subst hne
      simp at hh
    · simp only [hlookup n' hne] at hh
      simp [Function.update_of_ne hne, h.unhandled n' hh]
  · -- the new handle is larger than every stored one
    by_cases e₁ : n₁ = s.name <;> by_cases e₂ : n₂ = s.name
    · exact e₁.trans e₂.symm
    · subst e₁
      simp only [AList.lookup_insert, Option.some.injEq, hlookup n₂ e₂] at h₁ h₂
      have := h.fresh n₂ h' h₂
      omega
    · subst e₂
      simp only [AList.lookup_insert, Option.some.injEq, hlookup n₁ e₁] at h₁ h₂
      have := h.fresh n₁ h' h₁
      omega
    · simp only [hlookup n₁ e₁, hlookup n₂ e₂] at h₁ h₂
      exact h.inj n₁ n₂ h' h₁ h₂
  · by_cases hne : n' = s.name
    · subst hne
      simp only [AList.lookup_insert, Option.some.injEq] at hh
      simp only
      omega
    · simp only [hlookup n' hne] at hh
      have := h.fresh n' h' hh
      simp only
      omega
  · by_cases hne : n' = s.name
    · exact ⟨s, hs, hne.symm, hd, hb⟩
    · simp only [hlookup n' hne] at hh
      exact h.sited n' h' hh

/-- The fields that binding and clearing leave alone. -/
structure KeepsRecord (st st' : ModelState arch T) : Prop where
  param : st'.param = st.param
  mergedDeltas : st'.mergedDeltas = st.mergedDeltas
  mergesApplied : st'.mergesApplied = st.mergesApplied
  loraRank : st'.loraRank = st.loraRank
  loraAlpha : st'.loraAlpha = st.loraAlpha
  baseModelName : st'.baseModelName = st.baseModelName

theorem KeepsRecord.refl (st : ModelState arch T) : KeepsRecord st st :=
  ⟨rfl, rfl, rfl, rfl, rfl, rfl⟩

theorem KeepsRecord.trans {st st' st'' : ModelState arch T} (h : KeepsRecord st st')
    (h' : KeepsRecord st' st'') : KeepsRecord st st'' :=
  ⟨h'.param.trans h.param, h'.mergedDeltas.trans h.mergedDeltas,
    h'.mergesApplied.trans h.mergesApplied, h'.loraRank.trans h.loraRank,
    h'.loraAlpha.trans h.loraAlpha, h'.baseModelName.trans h.baseModelName⟩

theorem keepsRecord_bindDelta (st : ModelState arch T) (n : String) (d : T) :
    KeepsRecord st (bindDelta st n d) := by
  unfold bindDelta
  split <;> exact ⟨rfl, rfl, rfl, rfl, rfl, rfl⟩

/-- Everything that has to do with the residual is as before. -/
structure KeepsResidual (st st' : ModelState arch T) : Prop where
  mergedDeltas : st'.mergedDeltas = st.mergedDeltas
  base : st'.base = st.base
  hookHandles : st'.hookHandles = st.hookHandles
  nextHandle : st'.nextHandle = st.nextHandle

theorem KeepsResidual.refl (st : ModelState arch T) : KeepsResidual st st := ⟨rfl, rfl, rfl, rfl⟩

theorem Tracked.of_same {st st' : ModelState arch T} (h : Tracked st)
    (hbase : st'.base = st.base) (hhandles : st'.hookHandles = st.hookHandles)
    (hnext : st'.nextHandle = st.nextHandle) : Tracked st' := by
  refine ⟨?_, ?_, ?_, ?_, ?_⟩
  · rw [hbase, hhandles]
    exact h.handled
  · rw [hbase, hhandles]
    exact h.unhandled
  · rw [hhandles]
    exact h.inj
  · rw [hhandles, hnext]
    exact h.fresh
  · rw [hhandles]
    exact h.sited

/-! ## Clearing -/

theorem Tracked.base_clearResidual {st : ModelState arch T} (h : Tracked st) (n : String) :
    st.clearResidualFromModel.base n = ⟨none, []⟩ := by
  cases hh : st.hookHandles.lookup n with
  | none => simp [clearResidualFromModel, h.unhandled n hh]
  | some handle =>
    obtain ⟨d, hb⟩ := h.handled n handle hh
    obtain ⟨s, hs, hname, -, hbase⟩ := h.sited n handle hh
    have hattr : (arch.sites.any fun s => s.name == n && s.hasBaseLayer) = true :=
      List.any_eq_true.mpr ⟨s, hs, by simp [hname, hbase]⟩
    have hstored : (st.hookHandles.entries.any fun e => e.2 == handle) = true :=
      List.any_eq_true.mpr ⟨⟨n, handle⟩, AList.mem_lookup_iff.mp hh, by simp⟩
    simp only [clearResidualFromModel, hattr, if_true, hb]
    simp [hstored]

theorem tracked_clearResidual {st : ModelState arch T} (h : Tracked st) :
    Tracked st.clearResidualFromModel := by
  have hnone : ∀ n, st.clearResidualFromModel.hookHandles.lookup n = none :=
    fun n => AList.lookup_empty n
  refine ⟨fun n h' hh => ?_, fun n _ => h.base_clearResidual n, fun n n' h' hh => ?_,
    fun n h' hh => ?_, fun n h' hh => ?_⟩ <;> simp [hnone] at hh

theorem KeepsResidual.tracked {st st' : ModelState arch T} (hk : KeepsResidual st st')
    (h : Tracked st) : Tracked st' := h.of_same hk.base hk.hookHandles hk.nextHandle

variable [Torch T]

/-- Each site with a base layer carries exactly `merged_deltas.get(site)`. -/
def ResidualBound (st : ModelState arch T) : Prop :=
  ∀ s ∈ arch.sites, s.hasBaseLayer = true →
    match st.mergedDeltas.lookup (residualKey s.name) with
    | some delta =>
      (st.base s.name).residualDelta = some (Torch.cast .bfloat16 delta) ∧
        ∃ handle, (st.base s.name).hooks = [(handle, Torch.cast .bfloat16 delta)]
    | none => (st.base s.name).residualDelta = none ∧ (st.base s.name).hooks = []

/-- On a tracked state it is enough to look at one of the two channels. -/
theorem Tracked.residualBound_iff_live {st : ModelState arch T} (h : Tracked st) :
    ResidualBound st ↔ ∀ s ∈ arch.sites, s.hasBaseLayer = true →
      st.live s.name =
        (st.mergedDeltas.lookup (residualKey s.name)).map (Torch.cast .bfloat16) := by
  constructor
  · intro hb s hs hbase
    have hsite := hb s hs hbase
    cases hd : st.mergedDeltas.lookup (residualKey s.name) with
    | none =>
      rw [hd] at hsite
      exact hsite.1
    | some d =>
      rw [hd] at hsite
      exact hsite.1
  · intro hl s hs hbase
    have hsite := hl s hs hbase
    cases hd : st.mergedDeltas.lookup (residualKey s.name) with
    | none =>
      rw [hd] at hsite
      simp [h.base_of_not_live hsite]
    | some d =>
      rw [hd] at hsite
      obtain ⟨handle, hb⟩ := h.base_of_live hsite
      simp [hb]

/-! ## Binding the residual -/

theorem tracked_bindSite {st : ModelState arch T} (h : Tracked st) {s : LoraSite}
    (hs : s ∈ arch.sites) : Tracked (bindSite st s) := by
  unfold bindSite
  split
  · split
    · exact h
    · split
      · exact h.bindDelta hs (by assumption) (by assumption) _
      · exact h
  · exact h

/-- A site that the loop binds if the residual has an entry for it. -/
def Bindable (l : List LoraSite) (n : String) : Prop :=
  ∃ s ∈ l, s.name = n ∧ s.hasDefault = true ∧ s.hasBaseLayer = true

theorem keepsRecord_bindSite (st : ModelState arch T) (s : LoraSite) :
    KeepsRecord st (bindSite st s) := by
  unfold bindSite
  split
  · split
    · exact .refl st
    · split
      · exact keepsRecord_bindDelta st _ _
      · exact .refl st
  · exact .refl st

theorem live_bindSite {st : ModelState arch T} (h : Tracked st) (s : LoraSite) (n : String) :
    (Bindable [s] n → ∀ d, st.mergedDeltas.lookup (residualKey n) = some d →
      (bindSite st s).live n = some (Torch.cast .bfloat16 d)) ∧
    ((¬ Bindable [s] n ∨ st.mergedDeltas.lookup (residualKey n) = none) →
      (bindSite st s).live n = st.live n) := by
  constructor
  · rintro ⟨s', hs', rfl, hd, hb⟩ d hlookup
    obtain rfl := List.mem_singleton.mp hs'
    simp [bindSite, hd, hb, hlookup, h.bindDelta_eq, live]
  · intro hn
    unfold bindSite
    split
    · rename_i hd
      split
      · rfl
      · rename_i d hlookup
        split
        · rename_i hb
          -- the loop binds `s`, so `n` is another site
          have hne : n ≠ s.name := by
            rintro rfl
            rcases hn with hn | hn
            · exact hn ⟨s, List.mem_singleton.mpr rfl, rfl, hd, hb⟩
            · rw [hlookup] at hn
              cases hn
          simp [h.bindDelta_eq, live, Function.update_of_ne hne]
        · rfl
    · rfl

theorem tracked_foldl_bindSite {l : List LoraSite} (hl : ∀ s ∈ l, s ∈ arch.sites)
    {st : ModelState arch T} (h : Tracked st) : Tracked (l.foldl bindSite st) := by
  induction l generalizing st with
  | nil => exact h
  | cons s l ih =>
    exact ih (fun s' hs' => hl s' (List.mem_cons_of_mem s hs'))
      (tracked_bindSite h (hl s List.mem_cons_self))

theorem keepsRecord_foldl_bindSite (l : List LoraSite) (st : ModelState arch T) :
    KeepsRecord st (l.foldl bindSite st) := by
  induction l generalizing st with
  | nil => exact .refl st
  | cons s l ih => exact (keepsRecord_bindSite st s).trans (ih _)

theorem live_foldl_bindSite {l : List LoraSite} (hl : ∀ s ∈ l, s ∈ arch.sites)
    {st : ModelState arch T} (h : Tracked st) (n : String) :
    (Bindable l n → ∀ d, st.mergedDeltas.lookup (residualKey n) = some d →
      (l.foldl bindSite st).live n = some (Torch.cast .bfloat16 d)) ∧
    ((¬ Bindable l n ∨ st.mergedDeltas.lookup (residualKey n) = none) →
      (l.foldl bindSite st).live n = st.live n) := by
  induction l generalizing st with
  | nil => exact ⟨fun ⟨s, hs, _⟩ => absurd hs List.not_mem_nil, fun _ => rfl⟩
  | cons s l ih =>
    have hmerged := (keepsRecord_bindSite st s).mergedDeltas
    have hrest := ih (fun s' hs' => hl s' (List.mem_cons_of_mem s hs'))
      (tracked_bindSite h (hl s List.mem_cons_self))
    rw [hmerged] at hrest
    have hone := live_bindSite h s n
    constructor
    · intro hbind d hd
      by_cases hin : Bindable l n
      · exact hrest.1 hin d hd
      · -- a later turn of the loop leaves the site as this one has bound it
        have hs : Bindable [s] n := by
          obtain ⟨s', hs', hb⟩ := hbind
          rcases List.mem_cons.mp hs' with rfl | hs'
          · exact ⟨s', List.mem_singleton.mpr rfl, hb⟩
          · exact absurd ⟨s', hs', hb⟩ hin
        exact (hrest.2 (.inl hin)).trans (hone.1 hs d hd)
    · intro hn
      have hn' : (¬ Bindable l n ∨ st.mergedDeltas.lookup (residualKey n) = none) ∧
          (¬ Bindable [s] n ∨ st.mergedDeltas.lookup (residualKey n) = none) := by
        rcases hn with hn | hn
        · refine ⟨.inl fun ⟨s', hs', hb⟩ => hn ⟨s', List.mem_cons_of_mem s hs', hb⟩,
            .inl fun ⟨s', hs', hb⟩ => hn ⟨s', ?_, hb⟩⟩
          rw [List.mem_singleton.mp hs']
          exact List.mem_cons_self
        · exact ⟨.inr hn, .inr hn⟩
      exact (hrest.2 hn'.1).trans (hone.2 hn'.2)

theorem tracked_applyResidual {st : ModelState arch T} (h : Tracked st) :
    Tracked st.applyResidualToModel := by
  unfold applyResidualToModel
  split
  · exact h
  · exact tracked_foldl_bindSite (fun _ hs => hs) h

theorem keepsRecord_applyResidual (st : ModelState arch T) :
    KeepsRecord st st.applyResidualToModel := by
  unfold applyResidualToModel
  split
  · exact .refl st
  · exact keepsRecord_foldl_bindSite _ st

theorem live_applyResidual_of_bindable {st : ModelState arch T} (h : Tracked st) {n : String}
    (hn : Bindable arch.sites n) {d : T}
    (hd : st.mergedDeltas.lookup (residualKey n) = some d) :
    st.applyResidualToModel.live n = some (Torch.cast .bfloat16 d) := by
  unfold applyResidualToModel
  split
  · rename_i he
    rw [Dict.lookup_of_isEmpty he] at hd
    cases hd
  · exact (live_foldl_bindSite (fun _ hs => hs) h n).1 hn d hd

theorem live_applyResidual_of_not {st : ModelState arch T} (h : Tracked st) {n : String}
    (hn : ¬ Bindable arch.sites n ∨ st.mergedDeltas.lookup (residualKey n) = none) :
    st.applyResidualToModel.live n = st.live n := by
  unfold applyResidualToModel
  split
  · rfl
  · exact (live_foldl_bindSite (fun _ hs => hs) h n).2 hn

/-! ## Operations that leave the residual alone -/

theorem KeepsResidual.residualBound {st st' : ModelState arch T} (hk : KeepsResidual st st') :
    ResidualBound st' ↔ ResidualBound st := by
  unfold ResidualBound
  rw [hk.mergedDeltas, hk.base]

theorem keepsResidual_loadActiveAdapter (sd : List (ParamName × T)) (st : ModelState arch T) :
    KeepsResidual st (st.loadActiveAdapter sd).2 := by
  induction sd generalizing st with
  | nil => exact .refl st
  | cons e sd ih =>
    rw [loadActiveAdapter]
    split
    · split
      · exact .refl st
      · rename_i t' _
        have hrest := ih { st with param := Function.update st.param e.1 t' }
        exact ⟨hrest.mergedDeltas, hrest.base, hrest.hookHandles, hrest.nextHandle⟩
    · exact ih st

theorem keepsResidual_loadAdapterPart (dir : SnapshotDir T) (st : ModelState arch T) :
    KeepsResidual st (dir.loadAdapterPart st).2 := by
  unfold SnapshotDir.loadAdapterPart
  split
  · exact .refl st
  · exact keepsResidual_loadActiveAdapter _ st
  · exact ⟨rfl, rfl, rfl, rfl⟩

/-! ## Replacing the residual -/

/-- The new residual has an entry for every site that carries one now, and none for a
site that has no default adapter to bind it to. -/
def Covers (st : ModelState arch T) (d : Dict T) : Prop :=
  ∀ s ∈ arch.sites, s.hasBaseLayer = true →
    (st.live s.name ≠ none → d.lookup (residualKey s.name) ≠ none) ∧
      (s.hasDefault = false → d.lookup (residualKey s.name) = none)

theorem site_unique {s s' : LoraSite} (hs : s ∈ arch.sites) (hs' : s' ∈ arch.sites)
    (h : s.name = s'.name) : s = s' :=
  List.inj_on_of_nodup_map arch.nodup hs hs' h

theorem bindable_iff {s : LoraSite} (hs : s ∈ arch.sites) (hb : s.hasBaseLayer = true) :
    Bindable arch.sites s.name ↔ s.hasDefault = true := by
  constructor
  · rintro ⟨s', hs', hname, hd, -⟩
    rwa [site_unique hs hs' hname.symm]
  · exact fun hd => ⟨s, hs, rfl, hd, hb⟩

theorem residualBound_apply_iff {st : ModelState arch T} (h : Tracked st) :
    ResidualBound st.applyResidualToModel ↔ Covers st st.mergedDeltas := by
  rw [(tracked_applyResidual h).residualBound_iff_live,
    (keepsRecord_applyResidual st).mergedDeltas]
  constructor
  · intro hl s hs hb
    have hsite := hl s hs hb
    constructor
    · intro hlive hnone
      rw [live_applyResidual_of_not h (.inr hnone), hnone] at hsite
      exact hlive hsite
    · intro hd
      have hnot : ¬ Bindable arch.sites s.name := by simp [bindable_iff hs hb, hd]
      rw [live_applyResidual_of_not h (.inl hnot)] at hsite
      -- a site without a default adapter never carries a residual
      have hlive : st.live s.name = none := by
        by_contra hne
        exact hnot (h.site_of_live hne)
      rw [hlive] at hsite
      exact Option.map_eq_none_iff.mp hsite.symm
  · intro hc s hs hb
    obtain ⟨hcover, hdefault⟩ := hc s hs hb
    cases hd : st.mergedDeltas.lookup (residualKey s.name) with
    | none =>
      rw [live_applyResidual_of_not h (.inr hd)]
      by_contra hne
      exact hcover hne hd
    | some d =>
      have hdef : s.hasDefault = true := by
        by_contra hne
        rw [hdefault (by simpa using hne)] at hd
        cases hd
      rw [live_applyResidual_of_bindable h ((bindable_iff hs hb).mpr hdef) hd]
      rfl

end Trainfer.ModelState
