import Trainfer.SnapshotHistory

/-! The last write wins, as long as the residual file of a directory is not older than its
manifest.

`save` writes no residual file for an empty residual and does not remove the one that an
earlier save has left, so a later load of that name brings the older residual back. -/

namespace Trainfer.History

universe u
variable {arch : Arch} {T : Type u} [Torch T]

open ModelState (Tracked ResidualBound Covers)

/-- A load that finds a residual file finds the one that the last save has written, and it
covers every site that carries a residual now. -/
def Sound (h : History arch T) : StoreAction arch T → Prop
  | .load name => ∀ d, (h.store.dir name).residual = .present d →
      Covers h.live d ∧
        ∀ saved, h.saved name = some saved → saved.mergedDeltas.isEmpty = false
  | _ => True

/-- What every history keeps, sound or not. -/
structure StoreInv (sig : ParamName → DType × List Nat) (h : History arch T) : Prop where
  fits : Fits sig h.live
  clean : ∀ name, Clean arch (h.store.dir name)
  saved : ∀ name saved, h.saved name = some saved →
    Fits sig saved ∧ Stored (h.store.dir name) saved
  unsaved : ∀ name, h.saved name = none → (h.store.dir name).manifest = .absent

theorem dir_save_self (store : SnapshotStore T) (env : SaveEnv) (name : String)
    (st : ModelState arch T) :
    (store.save env name st).dir name = (store.dir name).save env name st := by
  simp [SnapshotStore.save, SnapshotStore.dir]

theorem dir_save_ne (store : SnapshotStore T) (env : SaveEnv) {name name' : String}
    (st : ModelState arch T) (h : name' ≠ name) :
    (store.save env name st).dir name' = store.dir name' := by
  simp [SnapshotStore.save, SnapshotStore.dir, AList.lookup_insert_ne h]

theorem storeInv_init {sig : ParamName → DType × List Nat} {st : ModelState arch T}
    (h : Fits sig st) : StoreInv sig (init st) := by
  have hdir : ∀ name, SnapshotStore.dir (∅ : SnapshotStore T) name = .empty T := by
    intro name
    simp [SnapshotStore.dir]
  refine ⟨h, fun name => ?_, fun name saved hs => ?_, fun name _ => ?_⟩
  · simp only [init, hdir]
    exact ⟨fun e => by simp [SnapshotDir.empty], fun _ => rfl⟩
  · cases hs
  · simp only [init, hdir]
    rfl

theorem StoreInv.withLive {sig : ParamName → DType × List Nat} {h : History arch T}
    (hi : StoreInv sig h) {st : ModelState arch T} (hst : Fits sig st) :
    StoreInv sig { h with live := st } :=
  ⟨hst, hi.clean, hi.saved, hi.unsaved⟩

theorem storeInv_save {sig : ParamName → DType × List Nat} {h : History arch T}
    (hi : StoreInv sig h) (env : SaveEnv) (name : String) :
    StoreInv sig { h with
      store := h.store.save env name h.live
      saved := Function.update h.saved name (some h.live) } := by
  refine ⟨hi.fits, fun name' => ?_, fun name' saved hs => ?_, fun name' hs => ?_⟩
  · by_cases hn : name' = name
    · subst hn
      rw [dir_save_self]
      exact clean_save (hi.clean name') env name' h.live
    · rw [dir_save_ne _ _ _ hn]
      exact hi.clean name'
  · by_cases hn : name' = name
    · subst hn
      simp only [Function.update_self] at hs
      obtain rfl := Option.some.inj hs
      rw [dir_save_self]
      exact ⟨hi.fits, stored_save env name' h.live⟩
    · simp only [Function.update_of_ne hn] at hs
      rw [dir_save_ne _ _ _ hn]
      exact hi.saved name' saved hs
  · by_cases hn : name' = name
    · subst hn
      simp only [Function.update_self] at hs
      cases hs
    · simp only [Function.update_of_ne hn] at hs
      rw [dir_save_ne _ _ _ hn]
      exact hi.unsaved name' hs

/-- Both states, live and saved, have their residual bound. -/
structure BoundInv (h : History arch T) : Prop where
  tracked : Tracked h.live
  bound : ResidualBound h.live
  saved : ∀ name saved, h.saved name = some saved → Tracked saved ∧ ResidualBound saved

theorem BoundInv.withLive {h : History arch T} (hi : BoundInv h) {st : ModelState arch T}
    (ht : Tracked st) (hb : ResidualBound st) : BoundInv { h with live := st } :=
  ⟨ht, hb, hi.saved⟩

/-- Step lemma for the binding: only a load can break it. -/
theorem boundInv_step {sig : ParamName → DType × List Nat} {h h' : History arch T}
    {a : StoreAction arch T} (hi : BoundInv h) (hd : Domain sig h a) (hs : Sound h a)
    (hstep : step h a = some h') : BoundInv h' := by
  cases a with
  | save env name =>
    obtain rfl := Option.some.inj hstep
    refine ⟨hi.tracked, hi.bound, fun name' saved hsaved => ?_⟩
    by_cases hn : name' = name
    · subst hn
      simp only [Function.update_self] at hsaved
      obtain rfl := Option.some.inj hsaved
      exact ⟨hi.tracked, hi.bound⟩
    · simp only [Function.update_of_ne hn] at hsaved
      exact hi.saved name' saved hsaved
  | load name =>
    obtain rfl := Option.some.inj hstep
    refine hi.withLive (ModelState.tracked_load hi.tracked _) ?_
    refine (ModelState.residualBound_load_iff hi.tracked hi.bound _).mpr ?_
    exact ModelState.covering_loadSnapshot fun d hd => (hs d hd).1
  | merge =>
    obtain ⟨st, hm, rfl⟩ := step_merge_some hstep
    exact hi.withLive (ModelState.tracked_merge hi.tracked hm)
      (ModelState.residualBound_merge hi.tracked hi.bound hm)
  | reset =>
    obtain rfl := Option.some.inj hstep
    exact hi.withLive (hi.tracked.of_same rfl rfl rfl) hi.bound
  | change st =>
    obtain rfl := Option.some.inj hstep
    exact hi.withLive hd.tracked hd.bound

section

variable [LawfulTorch T]

theorem Fits.merge {sig : ParamName → DType × List Nat} {st st' : ModelState arch T}
    (h : Fits sig st) (hm : st.mergeActiveIntoResidual = .ok st') : Fits sig st' := by
  obtain ⟨new, _, rfl⟩ := ModelState.mergeActive_ok hm
  intro p hp
  rw [(ModelState.keepsRecord_applyResidual _).param]
  exact h.reset p hp

/-- Step lemma for the store. -/
theorem storeInv_step {sig : ParamName → DType × List Nat} (h : History arch T)
    (a : StoreAction arch T) (h' : History arch T) (hi : StoreInv sig h)
    (hd : ∀ st, a = .change st → Fits sig st) (hstep : step h a = some h') :
    StoreInv sig h' := by
  cases a with
  | save env name =>
    obtain rfl := Option.some.inj hstep
    exact storeInv_save hi env name
  | load name =>
    obtain rfl := Option.some.inj hstep
    exact hi.withLive (fits_load (hi.clean name) hi.fits)
  | merge =>
    obtain ⟨st, hm, rfl⟩ := step_merge_some hstep
    exact hi.withLive (hi.fits.merge hm)
  | reset =>
    obtain rfl := Option.some.inj hstep
    exact hi.withLive hi.fits.reset
  | change st =>
    obtain rfl := Option.some.inj hstep
    exact hi.withLive (hd st rfl)

theorem inv_step {sig : ParamName → DType × List Nat} (h : History arch T)
    (a : StoreAction arch T) (h' : History arch T) (hi : StoreInv sig h ∧ BoundInv h)
    (hg : Domain sig h a ∧ Sound h a) (hstep : step h a = some h') :
    StoreInv sig h' ∧ BoundInv h' := by
  refine ⟨storeInv_step h a h' hi.1 ?_ hstep, boundInv_step hi.2 hg.1 hg.2 hstep⟩
  rintro st rfl
  exact hg.1.fits

/-- **Last write wins.** In a sound history a load restores the state of the most recent
save under its name. -/
theorem load_restores_last_save {sig : ParamName → DType × List Nat} {st : ModelState arch T}
    {as : List (StoreAction arch T)} {name : String} {h : History arch T}
    {saved : ModelState arch T} (hst : WellFormed sig st)
    (hrun : Runs.exec step (init st) (as ++ [.load name]) = some h)
    (hdomain : Runs.Meets step (Domain sig) (init st) (as ++ [.load name]))
    (hsound : Runs.Meets step Sound (init st) (as ++ [.load name]))
    (hsaved : h.saved name = some saved) : Restores saved h.live := by
  obtain ⟨m, hm, hload⟩ := Runs.exec_append_some.mp hrun
  have hinit : StoreInv sig (init st) ∧ BoundInv (init st) :=
    ⟨storeInv_init hst.fits, hst.tracked, hst.bound, fun _ _ h => by cases h⟩
  obtain ⟨hstore, hbound⟩ :=
    Runs.exec_invariant inv_step hinit hm (hdomain.left.and hsound.left)
  have hs : Sound m (.load name) := (hsound.right hm).1
  obtain rfl := Option.some.inj hload
  obtain ⟨hfits, hstored⟩ := hstore.saved name saved hsaved
  obtain ⟨hstracked, hsbound⟩ := hbound.saved name saved hsaved
  exact (load_restores hstored (hstore.clean name) ⟨hstracked, hsbound, hfits⟩
    ⟨hbound.tracked, hbound.bound, hstore.fits⟩
    fun d hd => ⟨(hs d hd).1, (hs d hd).2 saved hsaved⟩).2.2

end

/-- One site with the given value in every parameter. -/
def oneSite : Arch := ⟨[⟨"a", ["default"], true⟩], [], by decide⟩

def freshOne (value : ℚ) : ModelState oneSite OneByOne :=
  ModelState.fresh oneSite (fun _ => ⟨.float32, value⟩) 1 1 "base"

theorem wellFormed_freshOne (value : ℚ) :
    WellFormed (fun _ => (.float32, [1, 1])) (freshOne value) :=
  ⟨ModelState.tracked_fresh _ _ _ _, ModelState.residualBound_fresh _ _ _ _, fun _ _ => rfl⟩

def plainEnv : SaveEnv := ⟨fun _ => "", 0, none⟩

/-- A merge is saved; after a second merge the first is loaded again. -/
def mergeSaveLoad : List (StoreAction oneSite OneByOne) :=
  [.merge, .save plainEnv "s", .merge]

theorem mergeSaveLoad_restores :
    ∃ h saved, Runs.exec step (init (freshOne 1)) (mergeSaveLoad ++ [.load "s"]) = some h ∧
      h.saved "s" = some saved ∧ saved.mergesApplied = 1 ∧ Restores saved h.live := by
  refine ⟨_, _, rfl, rfl, rfl,
    @load_restores_last_save _ _ _ _ _ (freshOne 1) mergeSaveLoad _ _ _ (wellFormed_freshOne 1) rfl
      ?_ ?_ rfl⟩
  · exact .cons trivial rfl (.cons trivial rfl (.cons trivial rfl (.cons trivial rfl trivial)))
  · refine .cons trivial rfl (.cons trivial rfl (.cons trivial rfl (.cons ?_ rfl trivial)))
    intro d hd
    obtain rfl := FileState.present.inj hd
    refine ⟨?_, ?_⟩
    · intro s hs _
      obtain rfl := List.mem_singleton.mp hs
      decide
    · intro saved hsaved
      obtain rfl := Option.some.inj hsaved
      decide

/-- A state with an empty residual is saved under a name that holds an older residual. -/
def saveOverResidual : List (StoreAction oneSite OneByOne) :=
  [.merge, .save plainEnv "_autosave", .change (freshOne 0), .save plainEnv "_autosave"]

/-- The load then brings the older residual back. -/
theorem stale_residual_file :
    ¬ ∀ (arch : Arch) (sig : ParamName → DType × List Nat) (st : ModelState arch OneByOne)
      (as : List (StoreAction arch OneByOne)) (name : String) (h : History arch OneByOne)
      (saved : ModelState arch OneByOne), WellFormed sig st →
      Runs.exec step (init st) (as ++ [.load name]) = some h →
      Runs.Meets step (Domain sig) (init st) (as ++ [.load name]) →
      h.saved name = some saved → Restores saved h.live := by
  intro h
  have hr := h oneSite _ (freshOne 1) saveOverResidual "_autosave" _ _ (wellFormed_freshOne 1) rfl
    (.cons trivial rfl (.cons trivial rfl (.cons (wellFormed_freshOne 0) rfl
      (.cons trivial rfl (.cons trivial rfl trivial))))) rfl
  have hempty := congrArg (fun d : Dict OneByOne => d.isEmpty) hr.mergedDeltas
  revert hempty
  decide

end Trainfer.History
