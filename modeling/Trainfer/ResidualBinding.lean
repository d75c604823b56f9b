import Trainfer.Residual

/-! The residual binding invariant over runs of the operations that change
`merged_deltas`. -/

namespace Trainfer.ModelState

universe u
variable {arch : Arch} {T : Type u}

/-- The state of `ModelState.load`. -/
def fresh (arch : Arch) (param : ParamName → T) (loraRank loraAlpha : Int)
    (baseModelName : String) : ModelState arch T where
  param := param
  base := fun _ => ⟨none, []⟩
  mergedDeltas := ∅
  mergesApplied := 0
  hookHandles := ∅
  nextHandle := 0
  loraRank := loraRank
  loraAlpha := loraAlpha
  baseModelName := baseModelName

theorem tracked_fresh (param : ParamName → T) (rank alpha : Int) (name : String) :
    Tracked (fresh arch param rank alpha name) := by
  have hnone : ∀ n, (fresh arch param rank alpha name).hookHandles.lookup n = none :=
    fun n => AList.lookup_empty n
  refine ⟨fun n h' hh => ?_, fun n _ => rfl, fun n n' h' hh => ?_, fun n h' hh => ?_,
    fun n h' hh => ?_⟩ <;> simp [hnone] at hh

variable [Torch T]

/-! ## Merge -/

theorem mem_newDeltas {st : ModelState arch T} {l : List LoraSite} {new : Dict T}
    (h : newDeltas st l = .ok new) {k : String} (hk : k ∈ new) :
    ∃ s ∈ l, s.hasDefault = true ∧ k = residualKey s.name := by
  induction l generalizing new with
  | nil =>
    obtain rfl := Except.ok.inj h
    exact absurd hk (AList.notMem_empty k)
  | cons s l ih =>
    rw [newDeltas] at h
    cases hd : siteDelta st s with
    | error e => simp [hd, bind, Except.bind] at h
    | ok delta =>
      cases hr : newDeltas st l with
      | error e => simp [hd, hr, bind, Except.bind] at h
      | ok rest =>
        have hin : k ∈ rest → ∃ s' ∈ s :: l, s'.hasDefault = true ∧ k = residualKey s'.name := by
          intro hk'
          obtain ⟨s', hs', h'⟩ := ih hr hk'
          exact ⟨s', List.mem_cons_of_mem s hs', h'⟩
        cases delta with
        | none =>
          simp only [hd, hr, bind, Except.bind, Except.ok.injEq] at h
          subst h
          exact hin hk
        | some t =>
          simp only [hd, hr, bind, Except.bind, Except.ok.injEq] at h
          subst h
          rcases (AList.mem_insert rest).mp hk with rfl | hk'
          · refine ⟨s, List.mem_cons_self, ?_, rfl⟩
            -- a site without a default adapter yields no delta
            by_contra hdef
            simp [siteDelta, hdef] at hd
          · exact hin hk'

theorem mergeActive_ok {st st' : ModelState arch T} (h : st.mergeActiveIntoResidual = .ok st') :
    ∃ new, newDeltas st arch.sites = .ok new ∧
      st' = (resetActiveAdapter { st with
        mergedDeltas := st.mergedDeltas.update new
        mergesApplied := st.mergesApplied + 1 }).applyResidualToModel := by
  unfold mergeActiveIntoResidual at h
  split at h
  · cases h
  · cases hn : newDeltas st arch.sites with
    | error e => simp [hn, bind, Except.bind] at h
    | ok new =>
      simp only [hn, bind, Except.bind, Except.ok.injEq] at h
      exact ⟨new, rfl, h.symm⟩

theorem tracked_merge {st st' : ModelState arch T} (ht : Tracked st)
    (h : st.mergeActiveIntoResidual = .ok st') : Tracked st' := by
  obtain ⟨new, _, rfl⟩ := mergeActive_ok h
  exact tracked_applyResidual (ht.of_same rfl rfl rfl)

/-- A merge only adds entries, and only for sites that it can bind. -/
theorem residualBound_merge {st st' : ModelState arch T} (ht : Tracked st)
    (hb : ResidualBound st) (h : st.mergeActiveIntoResidual = .ok st') : ResidualBound st' := by
  obtain ⟨new, hnew, rfl⟩ := mergeActive_ok h
  have hl := ht.residualBound_iff_live.mp hb
  have ht' : Tracked (resetActiveAdapter { st with
      mergedDeltas := st.mergedDeltas.update new
      mergesApplied := st.mergesApplied + 1 }) := ht.of_same rfl rfl rfl
  refine (residualBound_apply_iff ht').mpr fun s hs hbase => ⟨?_, ?_⟩
  · intro hlive
    refine Dict.lookup_update_ne_none fun hnone => hlive ?_
    have hsite := hl s hs hbase
    rw [hnone] at hsite
    exact hsite
  · intro hdef
    have hlive : st.live s.name = none := by
      by_contra hne
      have hbind := (bindable_iff hs hbase).mp (ht.site_of_live hne)
      rw [hdef] at hbind
      cases hbind
    have hnone : st.mergedDeltas.lookup (residualKey s.name) = none := by
      have hsite := hl s hs hbase
      rw [hlive] at hsite
      exact Option.map_eq_none_iff.mp hsite.symm
    have hnot : residualKey s.name ∉ new := by
      intro hin
      obtain ⟨s', hs', hdef', hkey⟩ := mem_newDeltas hnew hin
      rw [site_unique hs hs' (residualKey_inj.mp hkey), hdef'] at hdef
      cases hdef
    exact (Dict.lookup_update_of_notMem hnot).trans hnone

/-! ## Runs -/

/-- What replaces or binds the residual, and training, which may give the parameters any
values. -/
inductive ResidualOp (T : Type u) where
  | merge
  | loadSnapshot (dir : SnapshotDir T)
  | loadResidual (file : FileState (Dict T))
  | train (param : ParamName → T)

/-- The state after an operation, whether or not it raises. -/
def after (st : ModelState arch T) : ResidualOp T → ModelState arch T
  | .merge =>
    match st.mergeActiveIntoResidual with
    | .ok st' => st'
    | .error _ => st
  | .loadSnapshot dir => (dir.load st).2
  | .loadResidual file => (st.loadResidual file).2
  | .train param => { st with param := param }

def opStep (st : ModelState arch T) (op : ResidualOp T) : Option (ModelState arch T) :=
  some (st.after op)

/-- The condition under which an operation leaves the residual bound: a file that replaces
the residual covers what is bound now, and a missing residual file is only met by
`load_residual` when nothing is bound. -/
def Covering (st : ModelState arch T) : ResidualOp T → Prop
  | .merge | .train _ => True
  | .loadSnapshot dir =>
    match dir.manifest, dir.residual with
    | .present _, .present d => Covers st d
    | _, _ => True
  | .loadResidual .absent => Covers st ∅
  | .loadResidual (.corrupt _) => True
  | .loadResidual (.present d) => Covers st d

theorem residualBound_fresh (param : ParamName → T) (rank alpha : Int) (name : String) :
    ResidualBound (fresh arch param rank alpha name) := by
  intro s _ _
  have hnone : (fresh arch param rank alpha name).mergedDeltas.lookup (residualKey s.name) =
      none := AList.lookup_empty _
  rw [hnone]
  exact ⟨rfl, rfl⟩

omit [Torch T] in
theorem covering_loadSnapshot {st : ModelState arch T} {dir : SnapshotDir T}
    (h : ∀ d, dir.residual = .present d → Covers st d) : Covering st (.loadSnapshot dir) := by
  simp only [Covering]
  split
  · rename_i d _ hd
    exact h d hd
  · trivial

/-! ## One operation -/

theorem tracked_loadResidualPart {st : ModelState arch T} (ht : Tracked st)
    (dir : SnapshotDir T) : Tracked (dir.loadResidualPart st).2 := by
  unfold SnapshotDir.loadResidualPart
  split
  · exact ht
  · exact tracked_applyResidual (ht.of_same rfl rfl rfl)
  · exact tracked_clearResidual (ht.of_same rfl rfl rfl)

/-- Only a corrupt residual file stops the residual part of a load. -/
theorem loadResidualPart_fst {dir : SnapshotDir T} (hr : ∀ e, dir.residual ≠ .corrupt e)
    (st : ModelState arch T) : (dir.loadResidualPart st).1 = .ok () := by
  unfold SnapshotDir.loadResidualPart
  split
  · rename_i e he
    exact absurd he (hr e)
  · rfl
  · rfl

/-- The residual part of a load leaves the parameters and the count of merges alone. -/
theorem loadResidualPart_record (dir : SnapshotDir T) (st : ModelState arch T) :
    (dir.loadResidualPart st).2.param = st.param ∧
      (dir.loadResidualPart st).2.mergesApplied = st.mergesApplied := by
  unfold SnapshotDir.loadResidualPart
  split
  · exact ⟨rfl, rfl⟩
  · rename_i d _
    have hk := keepsRecord_applyResidual ({ st with mergedDeltas := d } : ModelState arch T)
    exact ⟨hk.param, hk.mergesApplied⟩
  · exact ⟨rfl, rfl⟩

/-- After its manifest has been read, `load` changes the residual in its first part only. -/
theorem keepsResidual_load {dir : SnapshotDir T} {m : ManifestJson}
    (hm : dir.manifest = .present m)
    (st : ModelState arch T) : KeepsResidual (dir.loadResidualPart st).2 (dir.load st).2 := by
  unfold SnapshotDir.load
  rw [hm]
  simp only
  split
  · rename_i hpart
    rw [hpart]
    exact .refl _
  · rename_i st' hpart
    rw [hpart]
    have hk := keepsResidual_loadAdapterPart dir st'
    split
    · rename_i hadapter
      rwa [hadapter] at hk
    · rename_i hadapter
      rw [hadapter] at hk
      split
      · exact hk
      · exact ⟨hk.mergedDeltas, hk.base, hk.hookHandles, hk.nextHandle⟩

theorem load_of_no_manifest {dir : SnapshotDir T} (hm : ∀ m, dir.manifest ≠ .present m)
    (st : ModelState arch T) : (dir.load st).2 = st := by
  unfold SnapshotDir.load
  split
  · rfl
  · rfl
  · rename_i m h
    exact absurd h (hm m)

theorem tracked_load {st : ModelState arch T} (ht : Tracked st) (dir : SnapshotDir T) :
    Tracked (dir.load st).2 := by
  by_cases hm : ∃ m, dir.manifest = .present m
  · obtain ⟨m, hm⟩ := hm
    exact (keepsResidual_load hm st).tracked (tracked_loadResidualPart ht dir)
  · rw [load_of_no_manifest (fun m h => hm ⟨m, h⟩) st]
    exact ht

theorem tracked_after (st : ModelState arch T) (op : ResidualOp T) (ht : Tracked st) :
    Tracked (st.after op) := by
  cases op with
  | merge =>
    cases h : st.mergeActiveIntoResidual with
    | error e => rwa [after, h]
    | ok st' =>
      rw [after, h]
      exact tracked_merge ht h
  | loadSnapshot dir => exact tracked_load ht dir
  | loadResidual file =>
    cases file with
    | absent => exact ht.of_same rfl rfl rfl
    | corrupt e => exact ht
    | present d => exact tracked_applyResidual (ht.of_same rfl rfl rfl)
  | train param => exact ht.of_same rfl rfl rfl

/-- Nothing on the live model, nothing in the dictionary. -/
theorem residualBound_clear {st : ModelState arch T} (ht : Tracked st)
    (hempty : st.mergedDeltas = ∅) : ResidualBound st.clearResidualFromModel := by
  intro s _ _
  have hnone : st.clearResidualFromModel.mergedDeltas.lookup (residualKey s.name) = none := by
    change st.mergedDeltas.lookup (residualKey s.name) = none
    rw [hempty, AList.lookup_empty]
  rw [hnone, ht.base_clearResidual]
  exact ⟨rfl, rfl⟩

omit [Torch T] in
/-- What is bound does not depend on the dictionary. -/
theorem Tracked.withDeltas {st : ModelState arch T} (ht : Tracked st) (d : Dict T) :
    Tracked ({ st with mergedDeltas := d } : ModelState arch T) :=
  ht.of_same rfl rfl rfl

theorem residualBound_load_iff {st : ModelState arch T} (ht : Tracked st)
    (hb : ResidualBound st) (dir : SnapshotDir T) :
    ResidualBound (dir.load st).2 ↔ Covering st (.loadSnapshot dir) := by
  cases hm : dir.manifest with
  | absent =>
    rw [load_of_no_manifest (fun m h => by simp [hm] at h) st]
    simp [Covering, hm, hb]
  | corrupt e =>
    rw [load_of_no_manifest (fun m h => by simp [hm] at h) st]
    simp [Covering, hm, hb]
  | present m =>
    rw [(keepsResidual_load hm st).residualBound]
    simp only [SnapshotDir.loadResidualPart, Covering, hm]
    cases hr : dir.residual with
    | absent => exact iff_of_true (residualBound_clear (ht.of_same rfl rfl rfl) rfl) trivial
    | corrupt e => exact iff_of_true hb trivial
    | present d => exact residualBound_apply_iff (ht.withDeltas d)

/-- Two sites, each with a base layer and a default adapter. -/
def twoSites : Arch where
  sites := [⟨"a", ["default"], true⟩, ⟨"b", ["default"], true⟩]
  otherParams := []
  nodup := by decide

end Trainfer.ModelState
