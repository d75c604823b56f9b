import Trainfer.ModelState

/-! Snapshots: a directory with a manifest, the residual and the adapter, each file
written or skipped on save by its own condition and read or replaced on load by its
presence. -/

namespace Trainfer

universe u

structure Manifest where
  name : String
  createdAt : ℚ
  baseModel : String
  loraRank : Int
  loraAlpha : Int
  /-- `none` if the key is missing. -/
  mergesApplied : Option Int
  residualFingerprint : String
  trajectoryOffset : Nat
  trajectoryPath : Option String
  deriving DecidableEq

/-- What `json.loads` makes of a manifest file: the object that `save` writes, or a value of
another type. -/
inductive ManifestJson where
  | object (m : Manifest)
  | other (typeName : String)
  deriving DecidableEq

instance : Coe Manifest ManifestJson := ⟨.object⟩

/-- The three files of a snapshot. A residual or adapter file holds a dictionary. -/
structure SnapshotDir (T : Type u) where
  manifest : FileState ManifestJson
  residual : FileState (Dict T)
  adapter : FileState (List (ParamName × T))

def SnapshotDir.empty (T : Type u) : SnapshotDir T := ⟨.absent, .absent, .absent⟩

/-- The environment of a save: the hash function, the clock, and the size and path of the
trajectory log if there is one. -/
structure SaveEnv where
  sha256 : List UInt8 → String
  now : ℚ
  log : Option (Nat × String)

/-- One `write_text` or `save_file`. -/
inductive FileWrite (T : Type u) where
  | manifest (m : Manifest)
  | residual (d : Dict T)
  | adapter (sd : List (ParamName × T))

def SnapshotDir.write {T : Type u} (dir : SnapshotDir T) : FileWrite T → SnapshotDir T
  | .manifest m => { dir with manifest := .present m }
  | .residual d => { dir with residual := .present d }
  | .adapter sd => { dir with adapter := .present sd }

namespace ModelState

variable {arch : Arch} {T : Type u} [Torch T]

/-- The hash of the residual's keys and tensors, in key order. -/
def residualFingerprint (sha256 : List UInt8 → String) (st : ModelState arch T) : String :=
  let keys := st.mergedDeltas.keys.mergeSort fun a b => decide (a ≤ b)
  sha256 (keys.flatMap fun k =>
    k.toUTF8.toList ++ ((st.mergedDeltas.lookup k).map Torch.bytes).getD [])

end ModelState

namespace SnapshotDir

variable {arch : Arch} {T : Type u} [Torch T]

def manifestOf (env : SaveEnv) (name : String) (st : ModelState arch T) : Manifest where
  name := name
  createdAt := env.now
  baseModel := st.baseModelName
  loraRank := st.loraRank
  loraAlpha := st.loraAlpha
  mergesApplied := some st.mergesApplied
  residualFingerprint := st.residualFingerprint env.sha256
  trajectoryOffset := (env.log.map Prod.fst).getD 0
  trajectoryPath := env.log.map Prod.snd

/-- What `save` writes, in order. -/
def saveWrites (env : SaveEnv) (name : String) (st : ModelState arch T) : List (FileWrite T) :=
  let sd := st.extractActiveAdapter
  [.manifest (manifestOf env name st)] ++
    (if st.mergedDeltas.isEmpty then [] else [.residual st.mergedDeltas]) ++
    (if sd.isEmpty then [] else [.adapter sd])

def save (dir : SnapshotDir T) (env : SaveEnv) (name : String) (st : ModelState arch T) :
    SnapshotDir T :=
  (saveWrites env name st).foldl write dir

/-- The residual part of `load`. -/
def loadResidualPart (dir : SnapshotDir T) (st : ModelState arch T) :
    Except PyError Unit × ModelState arch T :=
  match dir.residual with
  | .corrupt e => (.error e, st)
  | .present d => (.ok (), ({ st with mergedDeltas := d } : ModelState arch T).applyResidualToModel)
  | .absent => (.ok (), ({ st with mergedDeltas := ∅ } : ModelState arch T).clearResidualFromModel)

/-- The adapter part of `load`. -/
def loadAdapterPart (dir : SnapshotDir T) (st : ModelState arch T) :
    Except PyError Unit × ModelState arch T :=
  match dir.adapter with
  | .corrupt e => (.error e, st)
  | .present sd => st.loadActiveAdapter sd
  | .absent => (.ok (), st.resetActiveAdapter)

/-- `load`. An error leaves what was done before it. -/
def load (dir : SnapshotDir T) (st : ModelState arch T) :
    Except PyError Manifest × ModelState arch T :=
  match dir.manifest with
  | .absent => (.error ⟨.fileNotFound, "[Errno 2] No such file or directory: 'manifest.json'"⟩, st)
  | .corrupt e => (.error e, st)
  | .present manifest =>
    match loadResidualPart dir st with
    | (.error e, st) => (.error e, st)
    | (.ok (), st) =>
      match loadAdapterPart dir st with
      | (.error e, st) => (.error e, st)
      | (.ok (), st) =>
        -- `manifest.get` is the first use of what was read
        match manifest with
        | .other typeName =>
          (.error ⟨.attributeError, "'" ++ typeName ++ "' object has no attribute 'get'"⟩, st)
        | .object m => (.ok m, { st with mergesApplied := m.mergesApplied.getD 0 })

end SnapshotDir

/-- `SnapshotManager`, for names that are plain path components. -/
abbrev SnapshotStore (T : Type u) := Dict (SnapshotDir T)

namespace SnapshotStore

variable {arch : Arch} {T : Type u} [Torch T]

def dir (store : SnapshotStore T) (name : String) : SnapshotDir T :=
  (store.lookup name).getD (.empty T)

def save (store : SnapshotStore T) (env : SaveEnv) (name : String) (st : ModelState arch T) :
    SnapshotStore T :=
  store.insert name ((dir store name).save env name st)

def load (store : SnapshotStore T) (name : String) (st : ModelState arch T) :
    Except PyError Manifest × ModelState arch T :=
  (dir store name).load st

end SnapshotStore

end Trainfer
