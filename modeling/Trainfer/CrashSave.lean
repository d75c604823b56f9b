import Trainfer.SnapshotRoundTrip

/-! A save that is cut off between two of its file writes, and the load that finds what it
has left.

A directory has three parts, and each of them is either written by the new save or still
what it was before. `crash_consistent_iff` says at which crash points these three make up
one state. -/

namespace Trainfer

universe u

open History (Clean Fits)

/-- What a snapshot restores. -/
structure SnapshotRecord (T : Type u) where
  mergesApplied : Int
  mergedDeltas : String → Option T
  adapter : ParamName → T

inductive SnapshotPart where
  | merges
  | residual
  | adapter
  deriving DecidableEq, Repr

variable {arch : Arch} {T : Type u}

/-- Two records agree in one part. -/
def SnapshotRecord.Agree (arch : Arch) (r r' : SnapshotRecord T) : SnapshotPart → Prop
  | .merges => r.mergesApplied = r'.mergesApplied
  | .residual => ∀ k, r.mergedDeltas k = r'.mergedDeltas k
  | .adapter => ∀ p ∈ arch.loraParams, r.adapter p = r'.adapter p

theorem SnapshotRecord.Agree.refl (r : SnapshotRecord T) (part : SnapshotPart) :
    SnapshotRecord.Agree arch r r part := by
  cases part <;> simp [SnapshotRecord.Agree]

theorem SnapshotRecord.Agree.congr {r r' : SnapshotRecord T} {part : SnapshotPart}
    (h : SnapshotRecord.Agree arch r r' part) (r'' : SnapshotRecord T) :
    SnapshotRecord.Agree arch r r'' part ↔ SnapshotRecord.Agree arch r' r'' part := by
  cases part with
  | merges => exact Eq.congr_left h
  | residual => exact forall_congr' fun k => Eq.congr_left (h k)
  | adapter => exact forall₂_congr fun p hp => Eq.congr_left (h p hp)

/-- The dtypes and shapes of allocated parameters. -/
def signature [Torch T] (param : ParamName → T) (p : ParamName) : DType × List Nat :=
  (Torch.dtype (param p), Torch.shape (param p))

namespace ModelState

def record (st : ModelState arch T) : SnapshotRecord T :=
  ⟨st.mergesApplied, st.mergedDeltas.lookup, st.param⟩

variable [Torch T]

/-- The record with the adapter rounded to `bfloat16`. -/
def rounded (st : ModelState arch T) : SnapshotRecord T :=
  { st.record with
    adapter := fun p => Torch.cast (Torch.dtype (st.param p)) (Torch.cast .bfloat16 (st.param p)) }

end ModelState

/-- What the directory holds before the save: nothing, or a complete save of a state of the
model over readable files. -/
inductive Earlier (arch : Arch) (T : Type u) [Torch T] (sig : ParamName → DType × List Nat) where
  | absent
  | saved (dir : SnapshotDir T) (clean : Clean arch dir) (env : SaveEnv)
      (old : ModelState arch T) (fits : Fits sig old)

variable [Torch T] {sig : ParamName → DType × List Nat}

namespace Earlier

def dir (name : String) : Earlier arch T sig → SnapshotDir T
  | .absent => .empty T
  | .saved dir _ env old _ => dir.save env name old

def old? : Earlier arch T sig → Option (ModelState arch T)
  | .absent => none
  | .saved _ _ _ old _ => some old

/-- The parts of the directory as a load takes them; `param` are the parameters that a load
without an adapter file zeroes. A save of an empty residual leaves an older file. -/
def record (param : ParamName → T) : Earlier arch T sig → SnapshotRecord T
  | .absent => ⟨0, fun _ => none, fun p => Torch.zero_ (param p)⟩
  | .saved dir _ _ old _ =>
    { old.rounded with
      mergedDeltas :=
        match old.mergedDeltas.isEmpty, dir.residual with
        | true, .present d => d.lookup
        | _, _ => old.mergedDeltas.lookup }

end Earlier

/-- The directory after the first `k` writes of a save. -/
def SnapshotDir.crash (dir : SnapshotDir T) (env : SaveEnv) (name : String)
    (new : ModelState arch T) (k : Nat) : SnapshotDir T :=
  ((SnapshotDir.saveWrites env name new).take k).foldl SnapshotDir.write dir

/-- The parts among the first `k` writes. -/
def partWritten (new : ModelState arch T) (k : Nat) : SnapshotPart → Bool
  | .merges => decide (1 ≤ k)
  | .residual => !new.mergedDeltas.isEmpty && decide (2 ≤ k)
  | .adapter =>
    !new.extractActiveAdapter.isEmpty && decide ((if new.mergedDeltas.isEmpty then 2 else 3) ≤ k)

/-- A load has raised, or it has restored the new state or the old one. -/
def CrashConsistent (earlier : Earlier arch T sig) (new : ModelState arch T)
    (out : Except PyError Manifest × ModelState arch T) : Prop :=
  (∃ e, out.1 = .error e) ∨ (∀ part, out.2.record.Agree arch new.rounded part) ∨
    ∃ old, earlier.old? = some old ∧ ∀ part, out.2.record.Agree arch old.rounded part

/-- No manifest at all; or what is not written yet is there as in the new state; or what is
written is as in the old state, and the rest is the old state. -/
def SurvivesCrash (earlier : Earlier arch T sig) (param : ParamName → T) (new : ModelState arch T)
    (k : Nat) : Prop :=
  (earlier.old? = none ∧ k = 0) ∨
    (∀ part, partWritten new k part = false →
      (earlier.record param).Agree arch new.rounded part) ∨
    ∃ old, earlier.old? = some old ∧ ∀ part,
      if partWritten new k part = true then new.rounded.Agree arch old.rounded part
      else (earlier.record param).Agree arch old.rounded part

namespace SnapshotDir

/-! ## The directory after a crash -/

theorem crash_manifest (dir : SnapshotDir T) (env : SaveEnv) (name : String)
    (new : ModelState arch T) (k : Nat) :
    (dir.crash env name new k).manifest =
      if partWritten new k .merges = true then .present (manifestOf env name new)
      else dir.manifest := by
  cases k with
  | zero => rfl
  | succ k =>
    cases hm : new.mergedDeltas.isEmpty <;> cases hs : new.extractActiveAdapter.isEmpty <;>
      rcases k with _ | _ | k <;> simp [crash, saveWrites, write, partWritten, hm, hs]

theorem crash_residual (dir : SnapshotDir T) (env : SaveEnv) (name : String)
    (new : ModelState arch T) (k : Nat) :
    (dir.crash env name new k).residual =
      if partWritten new k .residual = true then .present new.mergedDeltas else dir.residual := by
  cases hm : new.mergedDeltas.isEmpty <;> cases hs : new.extractActiveAdapter.isEmpty <;>
    rcases k with _ | _ | _ | k <;> simp [crash, saveWrites, write, partWritten, hm, hs]

theorem crash_adapter (dir : SnapshotDir T) (env : SaveEnv) (name : String)
    (new : ModelState arch T) (k : Nat) :
    (dir.crash env name new k).adapter =
      if partWritten new k .adapter = true then .present new.extractActiveAdapter
      else dir.adapter := by
  cases hm : new.mergedDeltas.isEmpty <;> cases hs : new.extractActiveAdapter.isEmpty <;>
    rcases k with _ | _ | _ | k <;> simp [crash, saveWrites, write, partWritten, hm, hs]

/-- The file of a part can be read, and a load takes from it what the record has. -/
def Holds (arch : Arch) (sig : ParamName → DType × List Nat) (param : ParamName → T)
    (dir : SnapshotDir T) (r : SnapshotRecord T) : SnapshotPart → Prop
  | .merges => ∃ m : Manifest,
    dir.manifest = .present m ∧ m.mergesApplied.getD 0 = r.mergesApplied
  | .residual =>
    (dir.residual = .absent ∧ ∀ k, r.mergedDeltas k = none) ∨
      ∃ d, dir.residual = .present d ∧ ∀ k, r.mergedDeltas k = d.lookup k
  | .adapter =>
    (dir.adapter = .absent ∧ ∀ p ∈ arch.loraParams, r.adapter p = Torch.zero_ (param p)) ∨
      ∃ saved : ModelState arch T, Fits sig saved ∧
        dir.adapter = .present saved.extractActiveAdapter ∧
          ∀ p ∈ arch.loraParams, r.adapter p = saved.rounded.adapter p

end SnapshotDir

open SnapshotDir (Holds)

theorem Earlier.holds (earlier : Earlier arch T sig) (param : ParamName → T) (name : String)
    {part : SnapshotPart} (hp : earlier.old? ≠ none ∨ part ≠ .merges) :
    Holds arch sig param (earlier.dir name) (earlier.record param) part := by
  cases earlier with
  | absent =>
    cases part with
    | merges => simp [Earlier.old?] at hp
    | residual => exact .inl ⟨rfl, fun _ => rfl⟩
    | adapter => exact .inl ⟨rfl, fun _ _ => rfl⟩
  | saved dir clean env old fits =>
    have hstored := @History.stored_save _ _ _ dir env name old
    cases part with
    | merges =>
      obtain ⟨m, hm, hmerges⟩ := hstored.manifest
      exact ⟨m, hm, by rw [hmerges]; rfl⟩
    | residual =>
      cases hempty : old.mergedDeltas.isEmpty with
      | false =>
        refine .inr ⟨_, hstored.residual hempty, fun k => ?_⟩
        simp [Earlier.record, hempty, ModelState.rounded, ModelState.record]
      | true =>
        -- the save has left the file that it has found
        have hfile : (dir.save env name old).residual = dir.residual := by
          simp [History.save_eq, hempty]
        cases hdir : dir.residual with
        | corrupt e => exact absurd hdir (clean.residual e)
        | absent =>
          refine .inl ⟨hfile.trans hdir, fun k => ?_⟩
          simp only [Earlier.record, hempty, hdir]
          exact Dict.lookup_of_isEmpty hempty k
        | present d =>
          exact .inr ⟨d, hfile.trans hdir, fun k => by simp [Earlier.record, hempty, hdir]⟩
    | adapter =>
      by_cases hnil : arch.loraParams = []
      · refine .inl ⟨?_, by simp [hnil]⟩
        exact (History.clean_save clean env name old).adapter hnil
      · exact .inr ⟨old, fits, hstored.adapter hnil, fun _ _ => rfl⟩

/-- Each part of the directory that a crash leaves is of the new state if it has been
partWritten, and else as before. -/
theorem crash_holds (earlier : Earlier arch T sig) (param : ParamName → T) (env : SaveEnv)
    (name : String) {new : ModelState arch T} (hnew : Fits sig new) {k : Nat}
    (hk : earlier.old? ≠ none ∨ k ≠ 0) (part : SnapshotPart) :
    Holds arch sig param ((earlier.dir name).crash env name new k)
      (if partWritten new k part = true then new.rounded else earlier.record param) part := by
  by_cases hw : partWritten new k part = true
  · simp only [hw, if_true]
    cases part with
    | merges => exact ⟨_, (SnapshotDir.crash_manifest _ env name new k).trans (if_pos hw), rfl⟩
    | residual =>
      exact .inr ⟨_, (SnapshotDir.crash_residual _ env name new k).trans (if_pos hw), fun _ => rfl⟩
    | adapter =>
      exact .inr ⟨new, hnew, (SnapshotDir.crash_adapter _ env name new k).trans (if_pos hw),
        fun _ _ => rfl⟩
  · simp only [hw]
    have hpart : earlier.old? ≠ none ∨ part ≠ .merges := by
      refine hk.imp_right fun hk hmerges => hw ?_
      subst hmerges
      simp only [partWritten, decide_eq_true_eq]
      omega
    have hearlier := earlier.holds param name hpart
    cases part with
    | merges =>
      rw [Holds, SnapshotDir.crash_manifest, if_neg hw]
      exact hearlier
    | residual =>
      rw [Holds, SnapshotDir.crash_residual, if_neg hw]
      exact hearlier
    | adapter =>
      rw [Holds, SnapshotDir.crash_adapter, if_neg hw]
      exact hearlier

/-! ## The load -/

section

variable [LawfulTorch T] {param : ParamName → T} {dir : SnapshotDir T}

/-- The adapter part of a load of a file that holds a state of the model. -/
theorem loadAdapterPart_of_holds {st : ModelState arch T} (hst : Fits sig st) {r : SnapshotRecord T}
    (h : Holds arch sig st.param dir r .adapter) :
    (dir.loadAdapterPart st).1 = .ok () ∧
      (dir.loadAdapterPart st).2.record.Agree arch r .adapter := by
  unfold SnapshotDir.loadAdapterPart
  rcases h with ⟨habsent, hzero⟩ | ⟨saved, hsaved, hpresent, hrounded⟩
  · rw [habsent]
    refine ⟨rfl, fun p hp => ?_⟩
    rw [hzero p hp]
    simp [ModelState.record, ModelState.resetActiveAdapter, hp]
  · rw [hpresent]
    obtain ⟨hok, hvalue⟩ := History.loadActiveAdapter_extract hsaved hst
    exact ⟨hok, fun p hp => (hvalue p hp).trans (hrounded p hp).symm⟩

/-- A load takes each part from its own file, whatever the others hold. -/
theorem load_of_holds {st : ModelState arch T} (hst : Fits sig st)
    {r : SnapshotPart → SnapshotRecord T}
    (h : ∀ part, Holds arch sig st.param dir (r part) part) :
    (∃ m, (dir.load st).1 = .ok m) ∧
      ∀ part, (dir.load st).2.record.Agree arch (r part) part := by
  obtain ⟨m, hm, hmerges⟩ := h .merges
  have hres : (dir.loadResidualPart st).1 = .ok () ∧
      (dir.loadResidualPart st).2.param = st.param ∧
      ∀ k, (dir.loadResidualPart st).2.mergedDeltas.lookup k = (r .residual).mergedDeltas k := by
    unfold SnapshotDir.loadResidualPart
    rcases h .residual with ⟨habsent, hnone⟩ | ⟨d, hpresent, hlookup⟩
    · rw [habsent]
      exact ⟨rfl, rfl, fun k => (AList.lookup_empty k).trans (hnone k).symm⟩
    · rw [hpresent]
      have hk := ModelState.keepsRecord_applyResidual
        ({ st with mergedDeltas := d } : ModelState arch T)
      refine ⟨rfl, hk.param, fun k => ?_⟩
      rw [hk.mergedDeltas]
      exact (hlookup k).symm
  obtain ⟨hread, hparam, hmerged⟩ := hres
  have hfits : Fits sig (dir.loadResidualPart st).2 := by
    intro p hp
    rw [hparam]
    exact hst p hp
  have had := h .adapter
  rw [← hparam] at had
  obtain ⟨hok, hadapter⟩ := loadAdapterPart_of_holds hfits had
  rw [History.load_eq_of_ok hm hread hok]
  refine ⟨⟨m, rfl⟩, fun part => ?_⟩
  cases part with
  | merges => exact hmerges
  | residual =>
    intro k
    have hkeep := (ModelState.keepsResidual_loadAdapterPart dir (dir.loadResidualPart st).2)
    refine Eq.trans ?_ (hmerged k)
    exact congrArg (fun d : Dict T => d.lookup k) hkeep.mergedDeltas
  | adapter => exact hadapter

/-- **A crash in a save.** The load after it raises, or restores the new state or the old
one, exactly if no manifest was there yet, or what was not written is as in the new state,
or what was written is as in the old state and no older residual file was left. -/
theorem crash_consistent_iff (param : ParamName → T) (rank alpha : Int) (base : String)
    (earlier : Earlier arch T (signature param)) (env : SaveEnv) (name : String)
    (new : ModelState arch T) (hnew : Fits (signature param) new) (k : Nat) :
    CrashConsistent earlier new
        (((earlier.dir name).crash env name new k).load
          (ModelState.fresh arch param rank alpha base)) ↔
      SurvivesCrash earlier param new k := by
  by_cases hk : earlier.old? ≠ none ∨ k ≠ 0
  · have hst : Fits (signature param) (ModelState.fresh arch param rank alpha base) :=
      fun _ _ => rfl
    obtain ⟨⟨m, hok⟩, hparts⟩ :=
      load_of_holds hst (crash_holds earlier param env name hnew hk)
    have hraise : ¬ ∃ e, (((earlier.dir name).crash env name new k).load
        (ModelState.fresh arch param rank alpha base)).1 = .error e := by
      rintro ⟨e, he⟩
      rw [hok] at he
      cases he
    have hmissing : ¬ (earlier.old? = none ∧ k = 0) := by
      rintro ⟨hnone, hzero⟩
      exact hk.elim (· hnone) (· hzero)
    simp only [CrashConsistent, SurvivesCrash, hraise, hmissing, false_or, (hparts _).congr]
    refine or_congr (forall_congr' fun part => ?_) (exists_congr fun old => and_congr_right fun _ =>
      forall_congr' fun part => ?_)
    · by_cases hw : partWritten new k part = true
      · simp [hw, SnapshotRecord.Agree.refl]
      · simp [hw]
    · by_cases hw : partWritten new k part = true
      · simp [hw]
      · simp [hw]
  · simp only [ne_eq, not_or, not_not] at hk
    obtain ⟨hnone, rfl⟩ := hk
    refine iff_of_true (.inl ?_) (.inl ⟨hnone, rfl⟩)
    cases earlier with
    | absent => exact ⟨_, rfl⟩
    | saved => cases hnone

end

/-- A model that has merged once, so that its residual is not empty and its adapter zero. -/
def mergedOne : ModelState History.oneSite OneByOne := (History.freshOne 1).after .merge

def freshParams : ParamName → OneByOne := fun _ => ⟨.float32, 0⟩

theorem fits_mergedOne : Fits (signature freshParams) mergedOne := by
  unfold Fits
  decide +kernel

/-- The save of a model before its first merge. -/
def savedFresh : Earlier History.oneSite OneByOne (signature freshParams) :=
  .saved (.empty _) ⟨fun _ h => (by cases h), fun _ => rfl⟩ History.plainEnv (History.freshOne 1)
    fun _ _ => rfl

theorem complete_save_survives :
    CrashConsistent savedFresh mergedOne
      (((savedFresh.dir "s").crash History.plainEnv "s" mergedOne 3).load
        (ModelState.fresh History.oneSite freshParams 1 1 "base")) := by
  refine (crash_consistent_iff freshParams 1 1 "base" savedFresh History.plainEnv "s" mergedOne
    fits_mergedOne 3).mpr (.inr (.inl fun part hw => ?_))
  have hall : ∀ part, partWritten mergedOne 3 part = true := by
    intro part
    cases part <;> decide +kernel
  rw [hall part] at hw
  cases hw

/-- A crash after the manifest of the first save: the load brings an empty residual and
counts one merge. -/
theorem crash_after_manifest :
    ¬ ∀ (earlier : Earlier History.oneSite OneByOne (signature freshParams)) (env : SaveEnv)
      (name : String) (new : ModelState History.oneSite OneByOne),
      Fits (signature freshParams) new → ∀ k,
        CrashConsistent earlier new
          (((earlier.dir name).crash env name new k).load
            (ModelState.fresh History.oneSite freshParams 1 1 "base")) := by
  intro h
  rcases h .absent History.plainEnv "s" mergedOne fits_mergedOne 1 with
    ⟨e, he⟩ | hnew | ⟨old, ho, _⟩
  · cases he
  · have hresidual := hnew .residual "a.weight"
    revert hresidual
    decide +kernel
  · cases ho

end Trainfer
