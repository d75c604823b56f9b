import Trainfer.SnapshotRoundTrip
import Trainfer.Lib.LowRank

/-! Whether a train step can move a LoRA site at all.

A merge and an adapter reset zero both factors of every site, and a zero pair of
factors is a stationary point for every batch. Loading a snapshot gives back the factors
that were saved, so it leaves a site trainable exactly if those were not both zero. -/

namespace Trainfer

universe u

/-- The entries of a matrix, as exact numbers. -/
class TorchEntries (T : Type u) [Torch T] where
  entry : T → ℕ → ℕ → ℝ
  entry_zero : ∀ (t : T) (i j : ℕ), entry (Torch.zero_ t) i j = 0

noncomputable instance : TorchEntries OneByOne where
  entry t _ _ := t.value
  entry_zero _ _ _ := by simp [Torch.zero_]

/-- The leading `m × n` block of a matrix. -/
noncomputable def matrixOf {T : Type u} [Torch T] [TorchEntries T] (t : T) (m n : ℕ) :
    Matrix (Fin m) (Fin n) ℝ := Matrix.of fun i j => TorchEntries.entry t i j

def rows {T : Type u} [Torch T] (t : T) : ℕ := (Torch.shape t).getD 0 0

def cols {T : Type u} [Torch T] (t : T) : ℕ := (Torch.shape t).getD 1 0

namespace ModelState

variable {arch : Arch} {T : Type u} [Torch T]

def factorA (st : ModelState arch T) (s : LoraSite) : T := st.param (.lora s.name .A "default")

def factorB (st : ModelState arch T) (s : LoraSite) : T := st.param (.lora s.name .B "default")

variable [TorchEntries T]

/-- Some input and upstream gradient give a nonzero gradient on `A` or on `B`, for the
site read as `y = (W + R) x + scale B A x`. -/
def Trainable (scale : ℝ) (st : ModelState arch T) (s : LoraSite) : Prop :=
  let A := matrixOf (st.factorA s) (rows (st.factorA s)) (cols (st.factorA s))
  let B := matrixOf (st.factorB s) (rows (st.factorB s)) (rows (st.factorA s))
  ∃ g x, LowRank.gradA scale B g x ≠ 0 ∨ LowRank.gradB scale A g x ≠ 0

/-- One of the two factors of the site has a nonzero entry. -/
def AdapterNonzero (A B : T) : Prop :=
  matrixOf A (rows A) (cols A) ≠ 0 ∨ matrixOf B (rows B) (rows A) ≠ 0

theorem trainable_iff {scale : ℝ} {st : ModelState arch T} {s : LoraSite}
    (hA : 0 < cols (st.factorA s)) (hB : 0 < rows (st.factorB s)) :
    Trainable scale st s ↔ scale ≠ 0 ∧ AdapterNonzero (st.factorA s) (st.factorB s) := by
  have : Nonempty (Fin (cols (st.factorA s))) := ⟨⟨0, hA⟩⟩
  have : Nonempty (Fin (rows (st.factorB s))) := ⟨⟨0, hB⟩⟩
  by_cases hs : scale = 0
  · simp [Trainable, hs, LowRank.gradA, LowRank.gradB]
  · unfold Trainable AdapterNonzero
    rw [LowRank.exists_gradient_ne_zero_iff hs]
    simp [hs]

theorem matrixOf_zero (t : T) (m n : ℕ) : matrixOf (Torch.zero_ t) m n = 0 := by
  ext i j
  exact TorchEntries.entry_zero t i j

/-- A site with both factors zeroed is at a stationary point, whatever its dimensions. -/
theorem not_trainable_of_zero {scale : ℝ} {st : ModelState arch T} {s : LoraSite} {A B : T}
    (hA : st.factorA s = Torch.zero_ A) (hB : st.factorB s = Torch.zero_ B) :
    ¬ Trainable scale st s := by
  have hA' : ∀ m n, matrixOf (st.factorA s) m n = 0 := fun m n => hA ▸ matrixOf_zero A m n
  have hB' : ∀ m n, matrixOf (st.factorB s) m n = 0 := fun m n => hB ▸ matrixOf_zero B m n
  rintro ⟨g, x, h | h⟩
  · rw [hB'] at h
    exact h (LowRank.gradA_zero scale g x)
  · rw [hA'] at h
    exact h (LowRank.gradB_zero scale g x)

theorem mem_loraParams {s : LoraSite} (hs : s ∈ arch.sites) (hd : s.hasDefault = true)
    (m : LoraMatrix) : ParamName.lora s.name m "default" ∈ arch.loraParams := by
  have hmem : "default" ∈ s.adapters := List.contains_iff_mem.mp hd
  refine List.mem_flatMap.mpr ⟨s, hs, ?_⟩
  cases m with
  | A => exact List.mem_append_left _ (List.mem_map_of_mem hmem)
  | B => exact List.mem_append_right _ (List.mem_map_of_mem hmem)

theorem not_trainable_reset (scale : ℝ) (st : ModelState arch T) {s : LoraSite}
    (hs : s ∈ arch.sites) (hd : s.hasDefault = true) :
    ¬ Trainable scale st.resetActiveAdapter s := by
  refine not_trainable_of_zero (A := st.factorA s) (B := st.factorB s) ?_ ?_
  · exact if_pos (mem_loraParams hs hd .A)
  · exact if_pos (mem_loraParams hs hd .B)

theorem not_trainable_merge (scale : ℝ) {st st' : ModelState arch T}
    (h : st.mergeActiveIntoResidual = .ok st') {s : LoraSite} (hs : s ∈ arch.sites)
    (hd : s.hasDefault = true) : ¬ Trainable scale st' s := by
  obtain ⟨new, _, rfl⟩ := mergeActive_ok h
  refine not_trainable_of_zero (A := st.factorA s) (B := st.factorB s) ?_ ?_
  · rw [factorA, (keepsRecord_applyResidual _).param]
    exact if_pos (mem_loraParams hs hd .A)
  · rw [factorB, (keepsRecord_applyResidual _).param]
    exact if_pos (mem_loraParams hs hd .B)

end ModelState

namespace History

open ModelState

variable {arch : Arch} {T : Type u} [Torch T] [TorchEntries T]

/-- The factors of every site are matrices with positive outer dimensions. -/
def LoraShaped (arch : Arch) (sig : ParamName → DType × List Nat) : Prop :=
  ∀ s ∈ arch.sites, s.hasDefault = true → ∃ m n r, 0 < m ∧ 0 < n ∧
    (sig (.lora s.name .A "default")).2 = [r, n] ∧ (sig (.lora s.name .B "default")).2 = [m, r]

/-- Changes lead to parameters of the same dtypes and shapes. -/
def FitsDomain (sig : ParamName → DType × List Nat) (_ : History arch T) :
    StoreAction arch T → Prop
  | .change st => Fits sig st
  | _ => True

/-- What `save` and `load` make of a parameter. -/
def rounded (t : T) : T := Torch.cast (Torch.dtype t) (Torch.cast .bfloat16 t)

/-- A merge, an adapter reset, or the load of a saved snapshot. -/
def Produces (h : History arch T) : StoreAction arch T → Prop
  | .merge | .reset => True
  | .load name => h.saved name ≠ none
  | .save .. | .change _ => False

/-- The condition under which such an action leaves the site trainable. -/
def LeavesTrainable (scale : ℝ) (s : LoraSite) (h : History arch T) :
    StoreAction arch T → Prop
  | .load name => scale ≠ 0 ∧ ∃ saved, h.saved name = some saved ∧
      AdapterNonzero (rounded (saved.factorA s)) (rounded (saved.factorB s))
  | _ => False

theorem trainable_load_iff [LawfulTorch T] {sig : ParamName → DType × List Nat}
    {h : History arch T} (hi : StoreInv sig h) (hsig : LoraShaped arch sig) {scale : ℝ}
    {s : LoraSite} (hs : s ∈ arch.sites) (hd : s.hasDefault = true) {name : String}
    {saved : ModelState arch T} (hsaved : h.saved name = some saved) :
    Trainable scale (h.store.load name h.live).2 s ↔
      scale ≠ 0 ∧ AdapterNonzero (rounded (saved.factorA s)) (rounded (saved.factorB s)) := by
  obtain ⟨hfits, hstored⟩ := hi.saved name saved hsaved
  obtain ⟨-, -, -, hparams⟩ := load_restores_adapter hstored (hi.clean name) hfits hi.fits
  have hA : (h.store.load name h.live).2.factorA s = rounded (saved.factorA s) :=
    hparams _ (mem_loraParams hs hd .A)
  have hB : (h.store.load name h.live).2.factorB s = rounded (saved.factorB s) :=
    hparams _ (mem_loraParams hs hd .B)
  obtain ⟨m, n, r, hm, hn, hshapeA, hshapeB⟩ := hsig s hs hd
  have hsA := congrArg Prod.snd (hfits _ (mem_loraParams hs hd .A))
  have hsB := congrArg Prod.snd (hfits _ (mem_loraParams hs hd .B))
  simp only [hshapeA, hshapeB] at hsA hsB
  rw [trainable_iff, hA, hB]
  · rw [hA, cols, rounded, LawfulTorch.shape_cast, LawfulTorch.shape_cast, factorA, hsA]
    exact hn
  · rw [hB, rows, rounded, LawfulTorch.shape_cast, LawfulTorch.shape_cast, factorB, hsB]
    exact hm

/-- **Training after a merge.** In every history, a merge or an adapter reset leaves no
site trainable, and the load of a snapshot leaves a site trainable exactly if the adapter
that was saved for it is not zero. -/
theorem trainable_after_iff [LawfulTorch T] {sig : ParamName → DType × List Nat}
    {st : ModelState arch T} {as : List (StoreAction arch T)} {h h' : History arch T}
    {a : StoreAction arch T} {scale : ℝ} {s : LoraSite} (hst : Fits sig st)
    (hsig : LoraShaped arch sig) (hs : s ∈ arch.sites) (hd : s.hasDefault = true)
    (hrun : Runs.exec step (init st) as = some h)
    (hdomain : Runs.Meets step (FitsDomain sig) (init st) as)
    (hstep : step h a = some h') (hprod : Produces h a) :
    Trainable scale h'.live s ↔ LeavesTrainable scale s h a := by
  have hi : StoreInv sig h := by
    refine Runs.exec_invariant (fun h a h' hi hg hstep => ?_) (storeInv_init hst) hrun hdomain
    refine storeInv_step h a h' hi ?_ hstep
    rintro st rfl
    exact hg
  cases a with
  | save env name => exact hprod.elim
  | load name =>
    obtain rfl := Option.some.inj hstep
    obtain ⟨saved, hsaved⟩ := Option.ne_none_iff_exists'.mp hprod
    simp only [LeavesTrainable, hsaved, Option.some.injEq, exists_eq_left']
    exact trainable_load_iff hi hsig hs hd hsaved
  | merge =>
    obtain ⟨st', hm, rfl⟩ := step_merge_some hstep
    exact iff_of_false (not_trainable_merge scale hm hs hd) id
  | reset =>
    obtain rfl := Option.some.inj hstep
    exact iff_of_false (not_trainable_reset scale h.live hs hd) id
  | change st' => exact hprod.elim

theorem matrixOf_ne_zero {t : OneByOne} (h : t.value ≠ 0) : matrixOf t 1 1 ≠ 0 := by
  intro hz
  have hentry : (t.value : ℝ) = 0 := congrFun (congrFun hz 0) 0
  exact h (by exact_mod_cast hentry)

/-- A snapshot of a nonzero adapter, loaded after a merge. -/
theorem saveMergeLoad_trainable :
    ∃ h h', Runs.exec step (init (freshOne 1)) [.save plainEnv "s", .merge] = some h ∧
      step h (.load "s") = some h' ∧ Trainable 1 h'.live ⟨"a", ["default"], true⟩ := by
  refine ⟨_, _, rfl, rfl, ?_⟩
  refine (@trainable_after_iff oneSite OneByOne _ _ _ (fun _ => (.float32, [1, 1])) (freshOne 1)
    [.save plainEnv "s", .merge] _ _ (.load "s") 1 _ (fun _ _ => rfl)
    (fun s hs _ => ⟨1, 1, 1, by decide, by decide, rfl, rfl⟩) (by decide) rfl rfl
    (.cons trivial rfl (.cons trivial rfl trivial)) rfl ?_).mpr ?_
  · intro hn
    cases hn
  · exact ⟨one_ne_zero, freshOne 1, rfl, .inl (matrixOf_ne_zero (by decide))⟩

/-- A merge leaves the site without any gradient. -/
theorem merge_stops_training :
    ¬ ∀ (st st' : ModelState oneSite OneByOne), Fits (fun _ => (.float32, [1, 1])) st →
      st.mergeActiveIntoResidual = .ok st' → ∀ s ∈ oneSite.sites, Trainable 1 st' s := by
  intro h
  have ht := h (freshOne 1) _ (fun _ _ => rfl) rfl ⟨"a", ["default"], true⟩ (by decide)
  exact @not_trainable_merge oneSite OneByOne _ _ 1 (freshOne 1) _ rfl _ (by decide) rfl ht

end History

end Trainfer
