import Trainfer.LoraGradient

/-! The function of the model across a merge, in exact arithmetic.

A LoRA site computes `y = (W + R) x + scale B A x`, where the residual `R` arrives on one of
two channels. `merge_preserves` says that a merge moves the low-rank part into the residual of
every site and changes no site's function, on either channel, and that a second merge finds
nothing to move. -/

namespace Trainfer

universe u

open Matrix

/-- Torch without rounding, on matrices. -/
class ExactTorch (T : Type u) [Torch T] [TorchEntries T] : Prop extends LawfulTorch T where
  entry_cast : ∀ (d : DType) (t : T) (i j : ℕ),
    TorchEntries.entry (Torch.cast d t) i j = TorchEntries.entry t i j
  matmul_ok : ∀ (s t : T) (m r n : ℕ), Torch.shape s = [m, r] → Torch.shape t = [r, n] →
    ∃ u, Torch.matmul s t = .ok u ∧ Torch.shape u = [m, n] ∧
      matrixOf u m n = matrixOf s m r * matrixOf t r n
  shape_mul : ∀ (q : ℚ) (t : T), Torch.shape (Torch.mul q t) = Torch.shape t
  entry_mul : ∀ (q : ℚ) (t : T) (i j : ℕ),
    TorchEntries.entry (Torch.mul q t) i j = (q : ℝ) * TorchEntries.entry t i j
  add_ok : ∀ s t : T, Torch.shape s = Torch.shape t →
    ∃ u, Torch.add s t = .ok u ∧ Torch.shape u = Torch.shape s ∧ ∀ i j,
      TorchEntries.entry u i j = TorchEntries.entry s i j + TorchEntries.entry t i j
  isZero_iff : ∀ (t : T) (m n : ℕ), Torch.shape t = [m, n] →
    (Torch.isZero t = true ↔ matrixOf t m n = 0)

/-- The dimensions of a site's layer, and the rank of its adapter. -/
structure SiteDims where
  out : ℕ
  inp : ℕ
  rank : ℕ

/-- How the residual reaches the output: through the attribute of the weight, which the patched
kernel reads, or through the forward hooks. -/
inductive Channel where
  | weight
  | hook
  deriving DecidableEq, Repr

namespace ModelState

variable {arch : Arch} {T : Type u} [Torch T] [TorchEntries T]

/-- An absent residual is zero. -/
noncomputable def residualMatrix (R : Option T) (m n : ℕ) : Matrix (Fin m) (Fin n) ℝ :=
  (R.map fun t => matrixOf t m n).getD 0

noncomputable def boundResidual (layer : BaseLayer T) (m n : ℕ) :
    Channel → Matrix (Fin m) (Fin n) ℝ
  | .weight => residualMatrix layer.residualDelta m n
  | .hook => (layer.hooks.map fun h => matrixOf h.2 m n).sum

noncomputable def scale (st : ModelState arch T) : ℝ := ((st.loraAlpha / st.loraRank : ℚ) : ℝ)

/-- `(W + R) x + scale B (A x)`. A site without the default adapter has no low-rank part. -/
noncomputable def siteOutput (st : ModelState arch T) (c : Channel) (s : LoraSite) (d : SiteDims)
    (W : Matrix (Fin d.out) (Fin d.inp) ℝ) (x : Fin d.inp → ℝ) : Fin d.out → ℝ :=
  (W + boundResidual (st.base s.name) d.out d.inp c) *ᵥ x +
    if s.hasDefault then
      st.scale • (matrixOf (st.factorB s) d.out d.rank *ᵥ
        (matrixOf (st.factorA s) d.rank d.inp *ᵥ x))
    else 0

/-- The two states compute the same function at every site with a base layer. -/
def SameFunction (dims : LoraSite → SiteDims) (st st' : ModelState arch T) : Prop :=
  ∀ s ∈ arch.sites, s.hasBaseLayer = true → ∀ (c : Channel)
    (W : Matrix (Fin (dims s).out) (Fin (dims s).inp) ℝ) (x : Fin (dims s).inp → ℝ),
    st'.siteOutput c s (dims s) W x = st.siteOutput c s (dims s) W x

/-- The factors and the residual of every site have the dimensions of its layer. -/
structure Shaped (dims : LoraSite → SiteDims) (st : ModelState arch T) : Prop where
  factorA : ∀ s ∈ arch.sites, s.hasDefault = true →
    Torch.shape (st.factorA s) = [(dims s).rank, (dims s).inp]
  factorB : ∀ s ∈ arch.sites, s.hasDefault = true →
    Torch.shape (st.factorB s) = [(dims s).out, (dims s).rank]
  residual : ∀ s ∈ arch.sites, ∀ t, st.mergedDeltas.lookup (residualKey s.name) = some t →
    Torch.shape t = [(dims s).out, (dims s).inp]

/-- A loaded model whose bound residual is the one in the dictionary. -/
structure Mergeable (dims : LoraSite → SiteDims) (st : ModelState arch T) : Prop where
  tracked : Tracked st
  bound : ResidualBound st
  shaped : Shaped dims st
  rank : st.loraRank ≠ 0

/-- Every value of the adapter is zero. -/
def AdapterZero (st : ModelState arch T) : Prop :=
  ∀ p ∈ arch.loraParams, ∀ i j, TorchEntries.entry (st.param p) i j = 0

variable [ExactTorch T] {dims : LoraSite → SiteDims} {st : ModelState arch T} {s : LoraSite}

theorem matrixOf_cast (d : DType) (t : T) (m n : ℕ) :
    matrixOf (Torch.cast d t) m n = matrixOf t m n := by
  ext i j
  exact ExactTorch.entry_cast d t i j

theorem matrixOf_mul (q : ℚ) (t : T) (m n : ℕ) :
    matrixOf (Torch.mul q t) m n = (q : ℝ) • matrixOf t m n := by
  ext i j
  exact ExactTorch.entry_mul q t i j

theorem matrixOf_add {t u : T} {m n : ℕ} (ht : Torch.shape t = [m, n])
    (hu : Torch.shape u = [m, n]) :
    ∃ v, Torch.add t u = .ok v ∧ Torch.shape v = [m, n] ∧
      matrixOf v m n = matrixOf t m n + matrixOf u m n := by
  obtain ⟨v, hadd, hshape, hv⟩ := ExactTorch.add_ok t u (ht.trans hu.symm)
  refine ⟨v, hadd, hshape.trans ht, ?_⟩
  ext i j
  exact hv i j

/-! ## The new residual of one site -/

omit [TorchEntries T] [ExactTorch T] in
theorem siteDelta_of_noDefault (hd : s.hasDefault = false) : st.siteDelta s = .ok none := by
  simp [siteDelta, hd]

/-- The residual of a site after a merge holds the low-rank part, whether the site has been
skipped or not. -/
theorem siteDelta_spec (h : Shaped dims st) (hs : s ∈ arch.sites) (hd : s.hasDefault = true) :
    ∃ delta : Option T, st.siteDelta s = .ok delta ∧
      (∀ t, delta = some t → Torch.shape t = [(dims s).out, (dims s).inp]) ∧
      residualMatrix (delta.or (st.mergedDeltas.lookup (residualKey s.name)))
          (dims s).out (dims s).inp =
        residualMatrix (st.mergedDeltas.lookup (residualKey s.name)) (dims s).out (dims s).inp +
          st.scale • (matrixOf (st.factorB s) (dims s).out (dims s).rank *
            matrixOf (st.factorA s) (dims s).rank (dims s).inp) := by
  have hA := h.factorA s hs hd
  have hB := h.factorB s hs hd
  obtain ⟨u, hmatmul, hshape, hentries⟩ := ExactTorch.matmul_ok _ _ _ _ _ hB hA
  by_cases hzero : (Torch.isZero (st.factorA s) && Torch.isZero (st.factorB s)) = true
  · refine ⟨none, ?_, by simp, ?_⟩
    · unfold siteDelta
      rw [if_pos hd]
      exact if_pos hzero
    · obtain ⟨hAzero, -⟩ := Bool.and_eq_true_iff.mp hzero
      rw [(ExactTorch.isZero_iff _ _ _ hA).mp hAzero]
      simp
  · -- the low-rank part, as the code scales it
    have hlow : matrixOf (Torch.mul (st.loraAlpha / st.loraRank) (Torch.cast .float32 u))
        (dims s).out (dims s).inp = st.scale • matrixOf u (dims s).out (dims s).inp := by
      rw [matrixOf_mul, matrixOf_cast]
      rfl
    have hlowShape : Torch.shape (Torch.mul (st.loraAlpha / st.loraRank)
        (Torch.cast .float32 u)) = [(dims s).out, (dims s).inp] := by
      rw [ExactTorch.shape_mul, LawfulTorch.shape_cast, hshape]
    unfold siteDelta
    simp only [hd, if_true]
    simp only [factorA, factorB] at hzero hmatmul hentries ⊢
    rw [if_neg hzero, hmatmul]
    simp only [bind, Except.bind]
    cases hprev : st.mergedDeltas.lookup (residualKey s.name) with
    | none =>
      refine ⟨_, rfl, ?_, ?_⟩
      · rintro t ⟨⟩
        rw [LawfulTorch.shape_cast, hlowShape]
      · simp [residualMatrix, matrixOf_cast, hlow, hentries]
    | some prev =>
      have hprevShape : Torch.shape (Torch.cast .float32 prev) =
          [(dims s).out, (dims s).inp] := by
        rw [LawfulTorch.shape_cast, h.residual s hs prev hprev]
      obtain ⟨v, hadd, hvShape, hv⟩ := matrixOf_add hlowShape hprevShape
      simp only [hadd]
      refine ⟨_, rfl, ?_, ?_⟩
      · rintro t ⟨⟩
        rw [LawfulTorch.shape_cast, hvShape]
      · simp only [residualMatrix, Option.some_or, Option.map_some, Option.getD_some,
          matrixOf_cast, hv, hlow, hentries]
        exact add_comm _ _

theorem shape_newResidual (h : Shaped dims st) (hs : s ∈ arch.sites) {delta : Option T}
    (hdelta : st.siteDelta s = .ok delta) {t : T}
    (ht : delta.or (st.mergedDeltas.lookup (residualKey s.name)) = some t) :
    Torch.shape t = [(dims s).out, (dims s).inp] := by
  cases hd : s.hasDefault with
  | true =>
    obtain ⟨delta', hdelta', hshape, -⟩ := siteDelta_spec h hs hd
    obtain rfl := Except.ok.inj (hdelta.symm.trans hdelta')
    cases delta with
    | none => exact h.residual s hs t ht
    | some t' => exact hshape t (by simpa using ht)
  | false =>
    obtain rfl := Except.ok.inj (hdelta.symm.trans (siteDelta_of_noDefault hd))
    exact h.residual s hs t ht

/-! ## The new residual of all sites -/

omit [TorchEntries T] [ExactTorch T] in
theorem newDeltas_spec {l : List LoraSite} {delta : LoraSite → Option T}
    (hl : (l.map LoraSite.name).Nodup) (h : ∀ s ∈ l, st.siteDelta s = .ok (delta s)) :
    ∃ new, st.newDeltas l = .ok new ∧ ∀ s ∈ l, new.lookup (residualKey s.name) = delta s := by
  induction l with
  | nil => exact ⟨∅, rfl, by simp⟩
  | cons s l ih =>
    obtain ⟨hfresh, hl⟩ := List.nodup_cons.mp hl
    obtain ⟨rest, hrest, hlookup⟩ := ih hl fun s' hs' => h s' (List.mem_cons_of_mem s hs')
    have hname : ∀ s' ∈ l, residualKey s'.name ≠ residualKey s.name := by
      intro s' hs' hkey
      exact hfresh (List.mem_map.mpr ⟨s', hs', residualKey_inj.mp hkey⟩)
    have hnone : rest.lookup (residualKey s.name) = none := by
      rw [AList.lookup_eq_none]
      intro hmem
      obtain ⟨s', hs', -, hkey⟩ := mem_newDeltas hrest hmem
      exact hname s' hs' hkey.symm
    have hsite := h s List.mem_cons_self
    rw [newDeltas, hsite, hrest]
    simp only [bind, Except.bind]
    cases hdelta : delta s with
    | none =>
      refine ⟨rest, rfl, fun s' hs' => ?_⟩
      rcases List.mem_cons.mp hs' with rfl | hs'
      · rw [hnone, hdelta]
      · exact hlookup s' hs'
    | some t =>
      refine ⟨_, rfl, fun s' hs' => ?_⟩
      rcases List.mem_cons.mp hs' with rfl | hs'
      · rw [AList.lookup_insert, hdelta]
      · rw [AList.lookup_insert_ne (hname s' hs'), hlookup s' hs']

omit [Torch T] [TorchEntries T] [ExactTorch T] in
theorem lookup_update (d e : Dict T) (k : String) :
    (d.update e).lookup k = (e.lookup k).or (d.lookup k) := by
  by_cases hk : k ∈ e
  · rw [Dict.lookup_update_of_mem hk]
    obtain ⟨t, ht⟩ := Option.ne_none_iff_exists'.mp
      (fun hn => AList.lookup_eq_none.mp hn hk : e.lookup k ≠ none)
    simp [ht]
  · rw [Dict.lookup_update_of_notMem hk, AList.lookup_eq_none.mpr hk]
    rfl

/-- What a merge of a mergeable state does: it returns, and every site's entry is its new
residual where it has one. -/
theorem merge_spec (h : Mergeable dims st) :
    ∃ st', st.mergeActiveIntoResidual = .ok st' ∧
      st'.param = st.resetActiveAdapter.param ∧ st'.loraRank = st.loraRank ∧
      st'.loraAlpha = st.loraAlpha ∧
      ∀ s ∈ arch.sites, ∃ delta, st.siteDelta s = .ok delta ∧
        st'.mergedDeltas.lookup (residualKey s.name) =
          delta.or (st.mergedDeltas.lookup (residualKey s.name)) := by
  have hok : ∀ s ∈ arch.sites, ∃ delta, st.siteDelta s = .ok delta := by
    intro s hs
    cases hd : s.hasDefault with
    | true =>
      obtain ⟨delta, hdelta, -⟩ := siteDelta_spec h.shaped hs hd
      exact ⟨delta, hdelta⟩
    | false => exact ⟨none, siteDelta_of_noDefault hd⟩
  choose! delta hdelta using hok
  obtain ⟨new, hnew, hlookup⟩ := newDeltas_spec arch.nodup hdelta
  have hok : ∃ st', st.mergeActiveIntoResidual = .ok st' := by
    unfold mergeActiveIntoResidual
    rw [if_neg h.rank, hnew]
    exact ⟨_, rfl⟩
  obtain ⟨st', hst'⟩ := hok
  obtain ⟨new', hnew', rfl⟩ := mergeActive_ok hst'
  obtain rfl := Except.ok.inj (hnew.symm.trans hnew')
  refine ⟨_, hst', ?_, ?_, ?_, fun s hs => ⟨delta s, hdelta s hs, ?_⟩⟩
  · rw [(keepsRecord_applyResidual _).param]
    rfl
  · rw [(keepsRecord_applyResidual _).loraRank]
    rfl
  · rw [(keepsRecord_applyResidual _).loraAlpha]
    rfl
  · rw [(keepsRecord_applyResidual _).mergedDeltas]
    show (st.mergedDeltas.update new).lookup _ = _
    rw [lookup_update, hlookup s hs]

/-! ## The function of a site -/

/-- On a bound state both channels carry the residual of the dictionary. -/
theorem boundResidual_eq (h : ResidualBound st) (hs : s ∈ arch.sites)
    (hb : s.hasBaseLayer = true) (m n : ℕ) (c : Channel) :
    boundResidual (st.base s.name) m n c =
      residualMatrix (st.mergedDeltas.lookup (residualKey s.name)) m n := by
  have hsite := h s hs hb
  cases hd : st.mergedDeltas.lookup (residualKey s.name) with
  | none =>
    rw [hd] at hsite
    obtain ⟨hattr, hhooks⟩ := hsite
    cases c with
    | weight => simp [boundResidual, hattr]
    | hook => simp [boundResidual, hhooks, residualMatrix]
  | some t =>
    rw [hd] at hsite
    obtain ⟨hattr, n', hhooks⟩ := hsite
    cases c with
    | weight => simp [boundResidual, hattr, residualMatrix, matrixOf_cast]
    | hook => simp [boundResidual, hhooks, residualMatrix, matrixOf_cast]

omit [ExactTorch T] in
theorem adapterZero_reset (st : ModelState arch T) : AdapterZero st.resetActiveAdapter := by
  intro p hp i j
  show TorchEntries.entry (if p ∈ arch.loraParams then Torch.zero_ (st.param p) else st.param p)
    i j = 0
  rw [if_pos hp]
  exact TorchEntries.entry_zero _ _ _

omit [ExactTorch T] in
theorem matrixOf_factor_zero (h : AdapterZero st) (hs : s ∈ arch.sites) (hd : s.hasDefault = true)
    (m n : ℕ) : matrixOf (st.factorA s) m n = 0 ∧ matrixOf (st.factorB s) m n = 0 := by
  constructor
  · ext i j
    exact h _ (mem_loraParams hs hd .A) i j
  · ext i j
    exact h _ (mem_loraParams hs hd .B) i j

omit [TorchEntries T] [ExactTorch T] in
theorem shape_resetParam [LawfulTorch T] (st : ModelState arch T) (p : ParamName) :
    Torch.shape (st.resetActiveAdapter.param p) = Torch.shape (st.param p) := by
  show Torch.shape (if p ∈ arch.loraParams then Torch.zero_ (st.param p) else st.param p) = _
  split
  · exact LawfulTorch.shape_zero _
  · rfl

/-- The low-rank part moves into the residual. -/
theorem siteOutput_merge {st' : ModelState arch T} (h : Mergeable dims st)
    (hbound : ResidualBound st') (hzero : AdapterZero st') (hs : s ∈ arch.sites)
    (hb : s.hasBaseLayer = true) {delta : Option T} (hdelta : st.siteDelta s = .ok delta)
    (hlookup : st'.mergedDeltas.lookup (residualKey s.name) =
      delta.or (st.mergedDeltas.lookup (residualKey s.name)))
    (c : Channel) (W : Matrix (Fin (dims s).out) (Fin (dims s).inp) ℝ)
    (x : Fin (dims s).inp → ℝ) :
    st'.siteOutput c s (dims s) W x = st.siteOutput c s (dims s) W x := by
  unfold siteOutput
  rw [boundResidual_eq hbound hs hb, boundResidual_eq h.bound hs hb, hlookup]
  cases hd : s.hasDefault with
  | true =>
    obtain ⟨delta', hdelta', -, hmatrix⟩ := siteDelta_spec h.shaped hs hd
    obtain rfl := Except.ok.inj (hdelta.symm.trans hdelta')
    obtain ⟨hAzero, -⟩ := matrixOf_factor_zero hzero hs hd (dims s).rank (dims s).inp
    rw [hmatrix, hAzero, LowRank.mulVec_merge]
    simp
  | false =>
    obtain rfl := Except.ok.inj (hdelta.symm.trans (siteDelta_of_noDefault hd))
    rfl

/-- One merge: the next state is mergeable, its adapter is zero, and the function is the same. -/
theorem merge_step (h : Mergeable dims st) :
    ∃ st', st.mergeActiveIntoResidual = .ok st' ∧ Mergeable dims st' ∧ AdapterZero st' ∧
      SameFunction dims st st' := by
  obtain ⟨st', hok, hparam, hrank, -, hmerged⟩ := merge_spec h
  have hbound : ResidualBound st' := residualBound_merge h.tracked h.bound hok
  have hzero : AdapterZero st' := by
    intro p hp i j
    rw [hparam]
    exact adapterZero_reset st p hp i j
  have hshape : ∀ p, Torch.shape (st'.param p) = Torch.shape (st.param p) := by
    intro p
    rw [hparam]
    exact shape_resetParam st p
  have hshaped : Shaped dims st' := by
    refine ⟨fun s hs hd => ?_, fun s hs hd => ?_, fun s hs t ht => ?_⟩
    · exact (hshape _).trans (h.shaped.factorA s hs hd)
    · exact (hshape _).trans (h.shaped.factorB s hs hd)
    · obtain ⟨delta, hdelta, hlookup⟩ := hmerged s hs
      exact shape_newResidual h.shaped hs hdelta (hlookup.symm.trans ht)
  refine ⟨st', hok, ⟨tracked_merge h.tracked hok, hbound, hshaped, hrank ▸ h.rank⟩, hzero, ?_⟩
  intro s hs hb c W x
  obtain ⟨delta, hdelta, hlookup⟩ := hmerged s hs
  exact siteOutput_merge h hbound hzero hs hb hdelta hlookup c W x

/-- With a zero adapter every site is skipped. -/
theorem merge_of_zero (h : Mergeable dims st) (hzero : AdapterZero st) :
    ∃ st', st.mergeActiveIntoResidual = .ok st' ∧ st'.mergedDeltas = st.mergedDeltas := by
  have hskip : ∀ s ∈ arch.sites, st.siteDelta s = .ok none := by
    intro s hs
    unfold siteDelta
    cases hd : s.hasDefault with
    | false => rfl
    | true =>
      have hA := (ExactTorch.isZero_iff _ _ _ (h.shaped.factorA s hs hd)).mpr
        (matrixOf_factor_zero hzero hs hd _ _).1
      have hB := (ExactTorch.isZero_iff _ _ _ (h.shaped.factorB s hs hd)).mpr
        (matrixOf_factor_zero hzero hs hd _ _).2
      simp only [factorA] at hA
      simp only [factorB] at hB
      simp [hA, hB]
  have hnew : ∀ l : List LoraSite, (∀ s ∈ l, st.siteDelta s = .ok none) →
      st.newDeltas l = .ok ∅ := by
    intro l hl
    induction l with
    | nil => rfl
    | cons s l ih =>
      rw [newDeltas, hl s List.mem_cons_self, ih fun s' hs' => hl s' (List.mem_cons_of_mem s hs')]
      rfl
  have hok : ∃ st', st.mergeActiveIntoResidual = .ok st' := by
    unfold mergeActiveIntoResidual
    rw [if_neg h.rank, hnew _ hskip]
    exact ⟨_, rfl⟩
  obtain ⟨st', hst'⟩ := hok
  obtain ⟨new, hempty, rfl⟩ := mergeActive_ok hst'
  obtain rfl := Except.ok.inj ((hnew _ hskip).symm.trans hempty)
  refine ⟨_, hst', ?_⟩
  rw [(keepsRecord_applyResidual _).mergedDeltas]
  show (∅ : Dict T) ∪ st.mergedDeltas = st.mergedDeltas
  exact AList.empty_union

/-- **Merging preserves the model function.** A merge of a bound state returns, leaves the
function of every site with a base layer as it is, zeroes the adapter and keeps the residual
bound; a second merge right after it leaves the residual as it is, and the function again. -/
theorem merge_preserves (h : Mergeable dims st) :
    ∃ st', st.mergeActiveIntoResidual = .ok st' ∧ SameFunction dims st st' ∧ AdapterZero st' ∧
      Mergeable dims st' ∧ ∃ st'', st'.mergeActiveIntoResidual = .ok st'' ∧
        st''.mergedDeltas = st'.mergedDeltas ∧ SameFunction dims st' st'' := by
  obtain ⟨st', hok, hmergeable, hzero, hsame⟩ := merge_step h
  obtain ⟨st'', hok', -, -, hsame'⟩ := merge_step hmergeable
  obtain ⟨st₂, hok₂, hmerged⟩ := merge_of_zero hmergeable hzero
  obtain rfl := Except.ok.inj (hok'.symm.trans hok₂)
  exact ⟨st', hok, hsame, hzero, hmergeable, st'', hok', hmerged, hsame'⟩

end ModelState

instance : ExactTorch OneByOne where
  entry_cast _ _ _ _ := rfl
  matmul_ok s t m r n hs ht := by
    obtain ⟨rfl, hr⟩ := List.cons_eq_cons.mp hs
    obtain ⟨rfl, -⟩ := List.cons_eq_cons.mp hr
    obtain ⟨-, hn⟩ := List.cons_eq_cons.mp ht
    obtain ⟨rfl, -⟩ := List.cons_eq_cons.mp hn
    refine ⟨_, rfl, rfl, ?_⟩
    ext i j
    simp [matrixOf, TorchEntries.entry, Matrix.mul_apply]
  shape_mul _ _ := rfl
  entry_mul q t _ _ := by simp [TorchEntries.entry, Torch.mul, mul_comm]
  add_ok s t _ := ⟨_, rfl, rfl, fun _ _ => by simp [TorchEntries.entry]⟩
  isZero_iff t m n ht := by
    obtain ⟨rfl, hn⟩ := List.cons_eq_cons.mp ht
    obtain ⟨rfl, -⟩ := List.cons_eq_cons.mp hn
    simp [Torch.isZero, matrixOf, TorchEntries.entry, ← Matrix.ext_iff]

namespace History

/-- One site with nonzero factors. -/
theorem mergeable_freshOne (value : ℚ) :
    ModelState.Mergeable (fun _ => ⟨1, 1, 1⟩) (freshOne value) where
  tracked := ModelState.tracked_fresh _ _ _ _
  bound := ModelState.residualBound_fresh _ _ _ _
  shaped := ⟨fun _ _ _ => rfl, fun _ _ _ => rfl, fun s _ t ht => by cases ht⟩
  rank := one_ne_zero

theorem freshOne_merges :
    ∃ st', (freshOne 2).mergeActiveIntoResidual = .ok st' ∧
      ModelState.SameFunction (fun _ => ⟨1, 1, 1⟩) (freshOne 2) st' := by
  obtain ⟨st', hok, hsame, -⟩ := ModelState.merge_preserves (mergeable_freshOne 2)
  exact ⟨st', hok, hsame⟩

end History

end Trainfer
