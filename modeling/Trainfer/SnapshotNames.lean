import Trainfer.SnapshotRoundTrip
import Trainfer.Lib.DirTree
import Mathlib

/-! Snapshot names as paths.

A name goes from the request into `root / name` as it is, so slashes, dots and absolute names
decide where a save makes directories and writes its three files. `SnapshotStore` is about
names that are plain components; here any text is a name, and `isolated_iff` says which names
can be used side by side. -/

namespace Trainfer

universe u v

open DirTree (Path Node Disk Op)

variable {arch : Arch} {T : Type u}

namespace FileWrite

def fileName : FileWrite T → String
  | manifest _ => "manifest.json"
  | residual _ => "merged_deltas.safetensors"
  | adapter _ => "active_adapter.safetensors"

def manifest? : FileWrite T → Option ManifestJson
  | manifest m => some m
  | _ => none

def residual? : FileWrite T → Option (Dict T)
  | residual d => some d
  | _ => none

def adapter? : FileWrite T → Option (List (ParamName × T))
  | adapter sd => some sd
  | _ => none

end FileWrite

namespace SnapshotPath

/-- The directory of a snapshot, and all that are passed on the way to it. -/
structure Place where
  made : List Path
  dir : Path
  mem : dir ∈ made

/-- `self.root / name`, resolved; `none` for a name with a null byte, which no system call
takes. An absolute name replaces the root. -/
def place (root : Path) (name : String) : Option Place :=
  if name.toList.contains (Char.ofNat 0) then none
  else
    let start := if name.toList.head? = some '/' then [] else root
    some ⟨DirTree.visited start (DirTree.components name),
      (DirTree.components name).foldl DirTree.enter start, DirTree.foldl_enter_mem_visited _ _⟩

namespace Place

def file (p : Place) (name : String) : Path := p.dir ++ [name]

/-- The paths that a load looks for files at. -/
def files (p : Place) : List Path :=
  ["manifest.json", "merged_deltas.safetensors", "active_adapter.safetensors"].map p.file

/-- None of the directories is where a file belongs. -/
def usable (p : Place) : Prop := ∀ f ∈ p.files, f ∉ p.made

/-- There is a directory where the manifest belongs, and a save goes no further. -/
def blocked (root : Path) (p : Place) : Prop :=
  p.file "manifest.json" ∈ p.made ∨ p.file "manifest.json" <+: root

instance (root : Path) (p : Place) : Decidable (p.blocked root) :=
  inferInstanceAs (Decidable (_ ∨ _))

/-- The files that a save may write. -/
def written (arch : Arch) (root : Path) (p : Place) : List Path :=
  if p.blocked root then []
  else
    ((["manifest.json", "merged_deltas.safetensors"] ++
      if arch.loraParams = [] then [] else ["active_adapter.safetensors"]).map p.file).filter
        fun f => decide (f ∉ p.made)

end Place

/-! ## Saving -/

/-- What `save` does to the file system. -/
def saveOps [Torch T] (p : Place) (env : SaveEnv) (name : String) (st : ModelState arch T) :
    List (Op (FileWrite T)) :=
  p.made.map .mkdir ++
    (SnapshotDir.saveWrites env name st).map fun w => .put (p.file w.fileName) w

inductive Call (arch : Arch) (T : Type u) where
  | save (env : SaveEnv) (name : String) (st : ModelState arch T)
  | load (name : String)

namespace Call

def name : Call arch T → String
  | save _ name _ | load name => name

def ops [Torch T] (root : Path) : Call arch T → List (Op (FileWrite T))
  | save env name st =>
    match place root name with
    | none => []
    | some p => saveOps p env name st
  | load _ => []

/-- The call is no save under another name. -/
def spares (name : String) : Call arch T → Bool
  | save _ other _ => other == name
  | load _ => true

end Call

/-- The file system after the calls. -/
def exec [Torch T] (allowed : Path → Bool) (root : Path) (t : Disk (FileWrite T))
    (calls : List (Call arch T)) : Disk (FileWrite T) :=
  calls.foldl (fun t c => (DirTree.run allowed t (c.ops root)).1) t

/-! ## Loading -/

def isDirectory : Option (Node (FileWrite T)) → Bool
  | some .dir => true
  | _ => false

/-- What a reader finds at the path of a file. -/
def fileAt {β : Type v} (t : Disk (FileWrite T)) (p : Path) (get : FileWrite T → Option β) :
    FileState β :=
  match t p with
  | none => .absent
  | some .dir => .corrupt ⟨.other "IsADirectoryError", "[Errno 21] Is a directory"⟩
  | some (.file w) =>
    match get w with
    | some b => .present b
    | none => .corrupt ⟨.valueError, "not a file of this kind"⟩

/-- The three files as `load` finds them, if it gets to the directory. -/
def view (t : Disk (FileWrite T)) (p : Place) : SnapshotDir T :=
  match p.made.find? fun q => !isDirectory (t q) with
  | none =>
    { manifest := fileAt t (p.file "manifest.json") FileWrite.manifest?
      residual := fileAt t (p.file "merged_deltas.safetensors") FileWrite.residual?
      adapter := fileAt t (p.file "active_adapter.safetensors") FileWrite.adapter? }
  | some q =>
    match t q with
    | none => .empty T
    | some _ =>
      { SnapshotDir.empty T with
        manifest := .corrupt ⟨.other "NotADirectoryError", "[Errno 20] Not a directory"⟩ }

/-- `load`. -/
def load [Torch T] (t : Disk (FileWrite T)) (root : Path) (name : String) (st : ModelState arch T) :
    Except PyError Manifest × ModelState arch T :=
  match place root name with
  | none => (.error ⟨.valueError, "embedded null byte"⟩, st)
  | some p => (view t p).load st

def present {β : Type v} : FileState β → Bool
  | .present _ => true
  | _ => false

def corrupt {β : Type v} : FileState β → Bool
  | .corrupt _ => true
  | _ => false

def readable (d : SnapshotDir T) : Bool :=
  present d.manifest && !corrupt d.residual && !corrupt d.adapter

/-- What a load of the name restores: its files, if they can all be read. -/
def restored (t : Disk (FileWrite T)) (root : Path) (name : String) : Option (SnapshotDir T) :=
  (place root name).bind fun p => if readable (view t p) then some (view t p) else none

theorem load_of_restored [Torch T] {t : Disk (FileWrite T)} {root : Path} {name : String}
    {d : SnapshotDir T} (h : restored t root name = some d) (st : ModelState arch T) :
    load t root name st = d.load st := by
  obtain ⟨p, hp, h⟩ := Option.bind_eq_some_iff.mp h
  split at h
  · obtain rfl := Option.some.inj h
    rw [load, hp]
  · cases h

theorem load_of_unreadable [Torch T] {d : SnapshotDir T} (h : readable d = false)
    (st : ModelState arch T) : ∃ e, (d.load st).1 = .error e := by
  unfold SnapshotDir.load
  cases hm : d.manifest with
  | absent | corrupt => exact ⟨_, rfl⟩
  | present m =>
    simp only
    cases hr : d.residual with
    | corrupt e => exact ⟨e, by simp [SnapshotDir.loadResidualPart, hr]⟩
    | absent | present =>
      cases ha : d.adapter with
      | corrupt e => exact ⟨e, by simp [SnapshotDir.loadResidualPart, SnapshotDir.loadAdapterPart,
          hr, ha]⟩
      | absent | present => simp [readable, present, corrupt, hm, hr, ha] at h

/-- A load that restores nothing raises. -/
theorem load_of_not_restored [Torch T] {t : Disk (FileWrite T)} {root : Path} {name : String}
    (h : restored t root name = none) (st : ModelState arch T) :
    ∃ e, (load t root name st).1 = .error e := by
  unfold load
  cases hp : place root name with
  | none => exact ⟨_, rfl⟩
  | some p =>
    refine load_of_unreadable ?_ st
    simpa [restored, hp] using h

/-! ## Isolation -/

/-- The directory lies below the root. -/
def Below (root d : Path) : Prop := root <+: d ∧ d ≠ root

/-- The root has been made, and nothing is in it yet. -/
structure Fresh (root : Path) (t : Disk (FileWrite T)) : Prop where
  above : ∀ p, p <+: root → t p = some .dir
  below : ∀ p, Below root p → t p = none

/-- For calls with these names only: a load restores what it would restore without the saves
under other names, and files are written in directories below the root. -/
structure Isolated (arch : Arch) (T : Type u) [Torch T] (root : Path) (names : String → Prop) :
    Prop where
  frame : ∀ (allowed : Path → Bool) (t : Disk (FileWrite T)) (calls : List (Call arch T))
    (name : String), Fresh root t → (∀ c ∈ calls, names c.name) → names name →
    restored (exec allowed root t calls) root name =
      restored (exec allowed root t (calls.filter fun c => c.spares name)) root name
  below : ∀ (allowed : Path → Bool) (t : Disk (FileWrite T)) (calls : List (Call arch T))
    (call : Call arch T), Fresh root t → (∀ c ∈ calls, names c.name) → names call.name →
    ∀ f w, .put f w ∈ DirTree.applied allowed (exec allowed root t calls) (call.ops root) →
      Below root f.dropLast

/-- A save to the first place does not get in the way of a load from the second. -/
structure Apart (arch : Arch) (root : Path) (p p' : Place) : Prop where
  dir : p.dir ≠ p'.dir
  made : ∀ f ∈ p'.files, f ∉ p.made
  written : ∀ f ∈ p.written arch root, f ∉ p'.made

/-- The names that can be used side by side. -/
structure Distinguished (arch : Arch) (root : Path) (names : String → Prop) : Prop where
  below : ∀ name p, names name → place root name = some p → ¬ p.blocked root → Below root p.dir
  apart : ∀ name name' p p', names name → names name' → name ≠ name' →
    place root name = some p → place root name' = some p' → p'.usable → Below root p'.dir →
    Apart arch root p p'

/-! ## Places -/

theorem file_inj {p : Place} {a b : String} : p.file a = p.file b ↔ a = b := by
  simp [Place.file]

theorem dir_of_file_eq {p p' : Place} {a b : String} (h : p.file a = p'.file b) :
    p.dir = p'.dir := (List.append_inj' h rfl).1

theorem mem_files (p : Place) (w : FileWrite T) : p.file w.fileName ∈ p.files := by
  cases w <;> simp [Place.files, FileWrite.fileName]

theorem exists_of_mem_files {p : Place} {f : Path} (h : f ∈ p.files) : ∃ a, f = p.file a := by
  obtain ⟨a, -, rfl⟩ := List.mem_map.mp h
  exact ⟨a, rfl⟩

theorem below_file {root : Path} {p : Place} (h : Below root p.dir) (a : String) :
    Below root (p.file a) := by
  refine ⟨h.1.trans (List.prefix_append _ _), fun he => ?_⟩
  have hlen := h.1.length_le
  rw [← he, Place.file, List.length_append, List.length_singleton] at hlen
  omega

theorem not_prefix_of_below {root d : Path} (h : Below root d) : ¬ d <+: root :=
  fun hp => h.2 (hp.eq_of_length_le h.1.length_le)

/-! ## Views -/

theorem find_not_directory {t : Disk (FileWrite T)} {ps : List Path} :
    (ps.find? fun q => !isDirectory (t q)) = none ↔ ∀ q ∈ ps, t q = some .dir := by
  rw [List.find?_eq_none]
  refine forall₂_congr fun q _ => ?_
  cases hq : t q with
  | none => simp [isDirectory]
  | some n => cases n <;> simp [isDirectory]

theorem view_eq {t : Disk (FileWrite T)} {p : Place} (h : ∀ q ∈ p.made, t q = some .dir) :
    view t p =
      { manifest := fileAt t (p.file "manifest.json") FileWrite.manifest?
        residual := fileAt t (p.file "merged_deltas.safetensors") FileWrite.residual?
        adapter := fileAt t (p.file "active_adapter.safetensors") FileWrite.adapter? } := by
  rw [view, find_not_directory.mpr h]

/-- Files can be read only through directories, and where there is no directory. -/
theorem of_readable {t : Disk (FileWrite T)} {p : Place} (h : readable (view t p) = true) :
    (∀ q ∈ p.made, t q = some .dir) ∧ (∀ f ∈ p.files, t f ≠ some .dir) ∧
      t (p.file "manifest.json") ≠ none := by
  have hmade : ∀ q ∈ p.made, t q = some .dir := by
    rw [← find_not_directory]
    cases hfind : p.made.find? fun q => !isDirectory (t q) with
    | none => rfl
    | some q =>
      cases hq : t q <;>
        simp [view, hfind, hq, readable, present, SnapshotDir.empty] at h
  rw [view_eq hmade] at h
  simp only [readable, Bool.and_eq_true] at h
  obtain ⟨⟨hmanifest, hresidual⟩, hadapter⟩ := h
  refine ⟨hmade, fun f hf hdir => ?_, fun hnone => ?_⟩
  · simp only [Place.files, List.map_cons, List.map_nil, List.mem_cons, List.not_mem_nil,
      or_false] at hf
    rcases hf with rfl | rfl | rfl
    · simp [fileAt, hdir, present] at hmanifest
    · simp [fileAt, hdir, corrupt] at hresidual
    · simp [fileAt, hdir, corrupt] at hadapter
  · simp [fileAt, hnone, present] at hmanifest

theorem restored_eq_none {t : Disk (FileWrite T)} {root : Path} {name : String} {p : Place}
    (hp : place root name = some p)
    (h : (∃ q ∈ p.made, t q ≠ some .dir) ∨ (∃ f ∈ p.files, t f = some .dir) ∨
      t (p.file "manifest.json") = none) : restored t root name = none := by
  rw [restored, hp, Option.bind_some, if_neg]
  intro hread
  obtain ⟨hmade, hfiles, hmanifest⟩ := of_readable hread
  rcases h with ⟨q, hq, hne⟩ | ⟨f, hf, hdir⟩ | hnone
  · exact hne (hmade q hq)
  · exact hfiles f hf hdir
  · exact hmanifest hnone

/-- The way to the place is there once its manifest is. -/
def Anchored (p : Place) (t : Disk (FileWrite T)) : Prop :=
  t (p.file "manifest.json") = none ∨ ∀ q ∈ p.made, t q = some .dir

theorem restored_alike {allowed : Path → Bool} {t t' : Disk (FileWrite T)} {root : Path}
    {name : String} {p : Place} (hp : place root name = some p)
    (h : DirTree.Alike allowed p.made p.files t t') (ha : Anchored p t') :
    restored t root name = restored t' root name := by
  have hfile : ∀ w : FileWrite T, t (p.file w.fileName) = t' (p.file w.fileName) := fun w =>
    h.files _ (mem_files p w)
  by_cases hmade : ∀ q ∈ p.made, t' q = some .dir
  · have hmade' : ∀ q ∈ p.made, t q = some .dir := fun q hq => by
      rcases h.dirs q hq with hsame | ⟨-, hdir, -⟩
      · rw [hsame, hmade q hq]
      · exact hdir
    have hview : view t p = view t' p := by
      rw [view_eq hmade, view_eq hmade']
      simp only [fileAt, h.files _ (show p.file "manifest.json" ∈ p.files by simp [Place.files]),
        h.files _ (show p.file "merged_deltas.safetensors" ∈ p.files by simp [Place.files]),
        h.files _ (show p.file "active_adapter.safetensors" ∈ p.files by simp [Place.files])]
    rw [restored, restored, hp, Option.bind_some, Option.bind_some, hview]
  · have hnone := ha.resolve_right hmade
    have hnone' : t (p.file "manifest.json") = none := by
      rw [h.files _ (by simp [Place.files]), hnone]
    rw [restored_eq_none hp (.inr (.inr hnone)), restored_eq_none hp (.inr (.inr hnone'))]

/-! ## What a save does -/

/-- Where there is a directory in the place of the manifest, nothing is written. -/
theorem apply_manifest_refused {allowed : Path → Bool} {t : Disk (FileWrite T)} {p : Place}
    {w : FileWrite T} (h : t (p.file "manifest.json") = some .dir)
    (hw : w.fileName = "manifest.json") :
    DirTree.apply allowed t (.put (p.file w.fileName) w) = none := by
  rw [hw]
  simp [DirTree.apply, h]

theorem dir_of_blocked {t : Disk (FileWrite T)} {root : Path} {p : Place}
    (hrooted : ∀ q, q <+: root → t q = some .dir) (hmade : ∀ q ∈ p.made, t q = some .dir)
    (h : p.blocked root) :
    t (p.file "manifest.json") = some .dir :=
  h.elim (hmade _) (hrooted _)

section

variable [Torch T] {allowed : Path → Bool} {t : Disk (FileWrite T)} {root : Path} {p : Place}
  {env : SaveEnv} {name : String} {st : ModelState arch T}

theorem saveWrites_eq (env : SaveEnv) (name : String) (st : ModelState arch T) :
    ∃ rest, SnapshotDir.saveWrites env name st =
        .manifest (SnapshotDir.manifestOf env name st) :: rest ∧
      ∀ w ∈ rest, w.fileName ≠ "manifest.json" := by
  refine ⟨_, rfl, fun w hw => ?_⟩
  rcases List.mem_append.mp hw with hw | hw
  · split at hw
    · cases hw
    · obtain rfl := List.mem_singleton.mp hw
      simp [FileWrite.fileName]
  · split at hw
    · cases hw
    · obtain rfl := List.mem_singleton.mp hw
      simp [FileWrite.fileName]

theorem fileName_of_mem_saveWrites {w : FileWrite T}
    (h : w ∈ SnapshotDir.saveWrites env name st) :
    w.fileName ∈ ["manifest.json", "merged_deltas.safetensors"] ++
      if arch.loraParams = [] then [] else ["active_adapter.safetensors"] := by
  simp only [SnapshotDir.saveWrites, List.mem_append, List.mem_singleton] at h
  rcases h with (rfl | h) | h
  · simp [FileWrite.fileName]
  · split at h
    · cases h
    · obtain rfl := List.mem_singleton.mp h
      simp [FileWrite.fileName]
  · split at h
    · cases h
    · rename_i hsd
      obtain rfl := List.mem_singleton.mp h
      have hne : arch.loraParams ≠ [] := fun hnil => hsd (by
        simp [ModelState.extractActiveAdapter, hnil])
      simp [FileWrite.fileName, hne]

theorem seen_saveOps : ∀ op ∈ saveOps p env name st, op.Seen p.made p.files := by
  intro op hop
  rcases List.mem_append.mp hop with hop | hop
  · obtain ⟨q, hq, rfl⟩ := List.mem_map.mp hop
    exact hq
  · obtain ⟨w, -, rfl⟩ := List.mem_map.mp hop
    exact mem_files p w

/-- A save makes the directories and then, if that went through, writes the files. -/
theorem run_saveOps (allowed : Path → Bool) (t : Disk (FileWrite T)) :
    DirTree.run allowed t (saveOps p env name st) =
      if (DirTree.run allowed t (p.made.map .mkdir)).2 then
        DirTree.run allowed (DirTree.run allowed t (p.made.map .mkdir)).1
          ((SnapshotDir.saveWrites env name st).map fun w => .put (p.file w.fileName) w)
      else ((DirTree.run allowed t (p.made.map .mkdir)).1, false) :=
  DirTree.run_append t _ _

theorem puts_refused (h : t (p.file "manifest.json") = some .dir) :
    DirTree.run allowed t
        ((SnapshotDir.saveWrites env name st).map fun w => .put (p.file w.fileName) w) =
      (t, false) ∧
    DirTree.applied allowed t
        ((SnapshotDir.saveWrites env name st).map fun w => .put (p.file w.fileName) w) = [] := by
  obtain ⟨rest, hwrites, -⟩ := saveWrites_eq env name st
  have happ := @apply_manifest_refused T allowed t p
    (.manifest (SnapshotDir.manifestOf env name st)) h rfl
  rw [hwrites, List.map_cons, DirTree.run, DirTree.applied, happ]
  exact ⟨rfl, rfl⟩

/-- A save to a place apart is not seen. -/
theorem alike_save {t' : Disk (FileWrite T)} {p' : Place} (hapart : Apart arch root p p')
    (hrooted : ∀ q, q <+: root → t q = some .dir)
    (h : DirTree.Alike allowed p'.made p'.files t t') :
    DirTree.Alike allowed p'.made p'.files
      (DirTree.run allowed t (saveOps p env name st)).1 t' := by
  have hmkdirs : DirTree.Alike allowed p'.made p'.files
      (DirTree.run allowed t (p.made.map .mkdir)).1 t' := by
    refine DirTree.run_preserves (P := fun u => DirTree.Alike allowed p'.made p'.files u t')
      (fun op hop u u' hu happ => hu.left ?_ happ) h
    obtain ⟨q, hq, rfl⟩ := List.mem_map.mp hop
    exact fun hf => hapart.made q hf hq
  rw [run_saveOps]
  split
  · rename_i hdone
    have hmade := DirTree.run_mkdirs_done hdone
    by_cases hblocked : p.blocked root
    · rw [(puts_refused (dir_of_blocked (fun q hq => DirTree.run_dir _ (hrooted q hq)) hmade
        hblocked)).1]
      exact hmkdirs
    · -- a file that goes through is not among the directories that were just made
      refine (DirTree.run_preserves (P := fun u => DirTree.Alike allowed p'.made p'.files u t' ∧
        ∀ q ∈ p.made, u q = some .dir) ?_ ⟨hmkdirs, hmade⟩).1
      intro op hop u u' ⟨hu, hdirs⟩ happ
      obtain ⟨w, hw, rfl⟩ := List.mem_map.mp hop
      have haside : (Op.put (p.file w.fileName) w).Aside p'.made p'.files := by
        show p.file w.fileName ∉ p'.files ∧ p.file w.fileName ∉ p'.made
        refine ⟨fun hf => ?_, hapart.written _ ?_⟩
        · obtain ⟨a, ha⟩ := exists_of_mem_files hf
          exact hapart.dir (dir_of_file_eq ha)
        rw [Place.written, if_neg hblocked, List.mem_filter]
        refine ⟨List.mem_map_of_mem (fileName_of_mem_saveWrites hw), decide_eq_true fun hq => ?_⟩
        cases happ with
        | written hne => exact hne (hdirs _ hq)
      exact ⟨hu.left haside happ, fun q hq => happ.dir (hdirs q hq)⟩
  · exact hmkdirs

theorem anchored_save (husable : p.usable) (h : Anchored p t) :
    Anchored p (DirTree.run allowed t (saveOps p env name st)).1 := by
  have hmanifest : p.file "manifest.json" ∉ p.made := husable _ (by simp [Place.files])
  have hmkdirs : Anchored p (DirTree.run allowed t (p.made.map .mkdir)).1 := by
    refine h.imp (fun hnone => ?_) fun hmade q hq => DirTree.run_dir _ (hmade q hq)
    rw [DirTree.run_other, hnone]
    intro op hop he
    obtain ⟨q, hq, rfl⟩ := List.mem_map.mp hop
    exact hmanifest (he ▸ hq)
  rw [run_saveOps]
  split
  · rename_i hdone
    exact .inr fun q hq => DirTree.run_dir _ (DirTree.run_mkdirs_done hdone q hq)
  · exact hmkdirs

/-! ## Names that are distinguished are isolated -/

theorem rooted_exec (calls : List (Call arch T)) (h : ∀ q, q <+: root → t q = some .dir) :
    ∀ q, q <+: root → exec allowed root t calls q = some .dir := by
  induction calls generalizing t with
  | nil => exact h
  | cons c calls ih => exact ih fun q hq => DirTree.run_dir _ (h q hq)

theorem frame_of_apart {names : String → Prop} (hnames : Distinguished arch root names)
    {name : String} {p : Place} (hname : names name) (hp : place root name = some p)
    (husable : p.usable) (hbelow : Below root p.dir) (calls : List (Call arch T))
    (hcalls : ∀ c ∈ calls, names c.name) {t t' : Disk (FileWrite T)}
    (hrooted : ∀ q, q <+: root → t q = some .dir)
    (h : DirTree.Alike allowed p.made p.files t t') (ha : Anchored p t') :
    DirTree.Alike allowed p.made p.files (exec allowed root t calls)
        (exec allowed root t' (calls.filter fun c => c.spares name)) ∧
      Anchored p (exec allowed root t' (calls.filter fun c => c.spares name)) := by
  induction calls generalizing t t' with
  | nil => exact ⟨h, ha⟩
  | cons c calls ih =>
    obtain ⟨hc, hrest⟩ := List.forall_mem_cons.mp hcalls
    have hrooted' : ∀ q, q <+: root → (DirTree.run allowed t (c.ops root)).1 q = some .dir :=
      fun q hq => DirTree.run_dir _ (hrooted q hq)
    cases c with
    | load other =>
      exact ih hrest hrooted h ha
    | save env other st =>
      by_cases hother : other = name
      · subst hother
        have hspares : (Call.save env other st).spares other = true := by simp [Call.spares]
        have hops : (Call.save env other st).ops root = saveOps p env other st := by
          simp [Call.ops, hp]
        rw [List.filter_cons, hspares, if_pos rfl]
        simp only [exec, List.foldl_cons, hops]
        exact ih hrest (hops ▸ hrooted') (h.run seen_saveOps).1 (anchored_save husable ha)
      · have hspares : (Call.save env other st).spares name = false := by
          simpa [Call.spares] using hother
        rw [List.filter_cons, hspares, if_neg Bool.false_ne_true]
        refine ih hrest hrooted' ?_ ha
        simp only [Call.ops]
        cases hq : place root other with
        | none => exact h
        | some q =>
          exact alike_save (hnames.apart other name q p hc hname hother hq hp husable hbelow)
            hrooted h

omit [Torch T] in
theorem restored_of_not_usable (hp : place root name = some p) (husable : ¬ p.usable)
    (u : Disk (FileWrite T)) : restored u root name = none := by
  obtain ⟨f, hf, hmade⟩ : ∃ f ∈ p.files, f ∈ p.made := by simpa [Place.usable] using husable
  by_cases hdir : u f = some .dir
  · exact restored_eq_none hp (.inr (.inl ⟨f, hf, hdir⟩))
  · exact restored_eq_none hp (.inl ⟨f, hmade, hdir⟩)

/-- What a save writes is in the directory of its place, and nothing is in the way of it. -/
theorem written_open {f : Path} {w : FileWrite T}
    (hmem : .put f w ∈ DirTree.applied allowed t (saveOps p env name st))
    (hrooted : ∀ q, q <+: root → t q = some .dir) : f.dropLast = p.dir ∧ ¬ p.blocked root := by
  simp only [saveOps, DirTree.applied_append] at hmem
  rcases List.mem_append.mp hmem with hmem | hmem
  · have := DirTree.applied_subset _ _ hmem
    simp at this
  · split at hmem
    · rename_i hdone
      refine ⟨?_, fun hblocked => ?_⟩
      · obtain ⟨w', -, hw'⟩ := List.mem_map.mp (DirTree.applied_subset _ _ hmem)
        obtain ⟨rfl, rfl⟩ := Op.put.inj hw'
        rw [Place.file, List.dropLast_concat]
      · have hdir := dir_of_blocked (fun q hq => DirTree.run_dir _ (hrooted q hq))
          (DirTree.run_mkdirs_done hdone) hblocked
        rw [(puts_refused hdir).2] at hmem
        cases hmem
    · cases hmem

theorem isolated_of_distinguished {names : String → Prop}
    (hnames : Distinguished arch root names) : Isolated arch T root names where
  frame := by
    intro allowed t calls name hfresh hcalls hname
    cases hp : place root name with
    | none => simp [restored, hp]
    | some p =>
      have hrooted := fun cs : List (Call arch T) =>
        @rooted_exec arch T _ allowed t root cs hfresh.above
      by_cases husable : p.usable
      · by_cases hbelow : Below root p.dir
        · have hnone := hfresh.below _ (below_file hbelow "manifest.json")
          obtain ⟨halike, hanchored⟩ := frame_of_apart hnames hname hp husable hbelow calls hcalls
            hfresh.above (.refl t) (.inl hnone)
          exact restored_alike hp halike hanchored
        · -- outside the root, the place of the manifest is a directory on the way to the root
          have hblocked : p.blocked root := by
            by_contra hopen
            exact hbelow (hnames.below name p hname hp hopen)
          have hprefix := hblocked.resolve_left (husable _ (by simp [Place.files]))
          have hnone : ∀ cs : List (Call arch T),
              restored (exec allowed root t cs) root name = none := fun cs =>
            restored_eq_none hp (.inr (.inl ⟨_, by simp [Place.files], hrooted cs _ hprefix⟩))
          rw [hnone, hnone]
      · rw [restored_of_not_usable hp husable, restored_of_not_usable hp husable]
  below := by
    intro allowed t calls call hfresh hcalls hcall f w hmem
    cases call with
    | load other => cases hmem
    | save env name st =>
      simp only [Call.ops] at hmem
      cases hp : place root name with
      | none => simp [hp, DirTree.applied] at hmem
      | some p =>
        simp only [hp] at hmem
        obtain ⟨hdir, hopen⟩ := written_open hmem (rooted_exec calls hfresh.above)
        rw [hdir]
        exact hnames.below name p hcall hp hopen

/-! ## Names that are isolated are distinguished -/

/-- Only the directories on the way to the root are there. -/
def blank (root : Path) : Disk (FileWrite T) :=
  fun q => if q <+: root then some .dir else none

omit [Torch T] in
theorem fresh_blank (root : Path) : Fresh root (blank root : Disk (FileWrite T)) where
  above q hq := by simp [blank, hq]
  below q hq := by simp [blank, not_prefix_of_below hq]

omit [Torch T] in
theorem blank_no_file (root q : Path) (c : FileWrite T) : blank root q ≠ some (.file c) := by
  unfold blank
  split <;> simp

variable (env name st) in
/-- Nothing is forbidden, and no file is on the way to the place. -/
theorem run_clear (hclear : ∀ q ∈ p.made, ∀ c, t q ≠ some (.file c)) :
    ∃ u : Disk (FileWrite T), (∀ q, u q = if q ∈ p.made then some .dir else t q) ∧
      DirTree.run (fun _ => true) t (saveOps p env name st) =
        DirTree.run (fun _ => true) u
          ((SnapshotDir.saveWrites env name st).map fun w => .put (p.file w.fileName) w) := by
  obtain ⟨hdone, hnodes⟩ := DirTree.run_mkdirs hclear
  exact ⟨_, hnodes, by rw [run_saveOps, if_pos hdone]⟩

variable (env name st) in
theorem made_saved (hclear : ∀ q ∈ p.made, ∀ c, t q ≠ some (.file c)) :
    ∀ q ∈ p.made, (DirTree.run (fun _ => true) t (saveOps p env name st)).1 q = some .dir := by
  obtain ⟨u, hu, hrun⟩ := run_clear env name st hclear
  intro q hq
  rw [hrun]
  exact DirTree.run_dir _ (by rw [hu, if_pos hq])

omit [Torch T] in
theorem apply_put (u : Disk (FileWrite T)) {f : Path} (w : FileWrite T) (h : u f ≠ some .dir) :
    DirTree.apply (fun _ => true) u (.put f w) = some (Function.update u f (some (.file w))) := by
  simp only [DirTree.apply, if_true]

variable (env name st) in
theorem manifest_saved (hclear : ∀ q ∈ p.made, ∀ c, t q ≠ some (.file c))
    (hmade : p.file "manifest.json" ∉ p.made) (hdir : t (p.file "manifest.json") ≠ some .dir) :
    (DirTree.run (fun _ => true) t (saveOps p env name st)).1 (p.file "manifest.json") =
      some (.file (.manifest (SnapshotDir.manifestOf env name st))) := by
  obtain ⟨u, hu, hrun⟩ := run_clear env name st hclear
  obtain ⟨rest, hwrites, hothers⟩ := saveWrites_eq env name st
  have happ := apply_put u (.manifest (SnapshotDir.manifestOf env name st))
    (f := p.file "manifest.json") (by rwa [hu, if_neg hmade])
  rw [hrun, hwrites, List.map_cons, DirTree.run, FileWrite.fileName, happ]
  simp only
  rw [DirTree.run_other, Function.update_self]
  intro op hop he
  obtain ⟨w, hw, rfl⟩ := List.mem_map.mp hop
  exact hothers w hw (file_inj.mp he).symm

/-- The second of the files, if nothing is in its way. -/
theorem second_saved {m : Manifest} {w : FileWrite T} {rest : List (FileWrite T)}
    (hwrites : SnapshotDir.saveWrites env name st = .manifest m :: w :: rest)
    (hclear : ∀ q ∈ p.made, ∀ c, t q ≠ some (.file c))
    (hmade : p.file "manifest.json" ∉ p.made) (hdir : t (p.file "manifest.json") ≠ some .dir)
    (hmade' : p.file w.fileName ∉ p.made) (hdir' : t (p.file w.fileName) ≠ some .dir) :
    ∃ c, (DirTree.run (fun _ => true) t (saveOps p env name st)).1 (p.file w.fileName) =
      some (.file c) := by
  obtain ⟨u, hu, hrun⟩ := run_clear env name st hclear
  have hfirst : u (p.file "manifest.json") ≠ some .dir := by rwa [hu, if_neg hmade]
  have happ := apply_put u (.manifest m) hfirst
  have hsecond : Function.update u (p.file "manifest.json") (some (.file (.manifest m)))
      (p.file w.fileName) ≠ some .dir := by
    by_cases he : p.file w.fileName = p.file "manifest.json"
    · simp [he]
    · rwa [Function.update_of_ne he, hu, if_neg hmade']
  have happ' := apply_put _ w hsecond
  rw [hrun, hwrites, List.map_cons, DirTree.run, FileWrite.fileName, happ]
  simp only
  rw [List.map_cons, DirTree.run, happ']
  exact DirTree.run_file _ ⟨w, Function.update_self _ _ _⟩

variable (env name st) in
/-- A save leaves a file of the right kind at its path, or none. -/
theorem kind_saved {a : String} (hclear : ∀ q ∈ p.made, ∀ c, t q ≠ some (.file c))
    (hmade : p.file a ∉ p.made) (hnone : t (p.file a) = none) :
    (DirTree.run (fun _ => true) t (saveOps p env name st)).1 (p.file a) = none ∨
      ∃ w : FileWrite T, w.fileName = a ∧
        (DirTree.run (fun _ => true) t (saveOps p env name st)).1 (p.file a) =
          some (.file w) := by
  obtain ⟨u, hu, hrun⟩ := run_clear env name st hclear
  rw [hrun]
  refine DirTree.run_preserves (P := fun v => v (p.file a) = none ∨
    ∃ w : FileWrite T, w.fileName = a ∧ v (p.file a) = some (.file w)) ?_
    (.inl (by rw [hu, if_neg hmade, hnone]))
  intro op hop v v' hv happ
  obtain ⟨w, -, rfl⟩ := List.mem_map.mp hop
  by_cases he : p.file a = p.file w.fileName
  · refine .inr ⟨w, (file_inj.mp he).symm, ?_⟩
    cases happ with
    | written => rw [he, Function.update_self]
  · rw [happ.other he]
    exact hv

variable (env st) in
/-- A save to a place where nothing is yet can be loaded. -/
theorem restored_saved (hp : place root name = some p) (husable : p.usable)
    (hclear : ∀ q ∈ p.made, ∀ c, t q ≠ some (.file c)) (hnone : ∀ f ∈ p.files, t f = none) :
    ∃ d, restored (DirTree.run (fun _ => true) t (saveOps p env name st)).1 root name = some d ∧
      d.manifest = .present (SnapshotDir.manifestOf env name st) := by
  have hfile : ∀ w : FileWrite T, p.file w.fileName ∉ p.made ∧ t (p.file w.fileName) = none :=
    fun w => ⟨husable _ (mem_files p w), hnone _ (mem_files p w)⟩
  have hman := hfile (.manifest (SnapshotDir.manifestOf env name st))
  have hmanifest := manifest_saved env name st hclear hman.1 fun hdir => by
    cases hman.2.symm.trans hdir
  have hres := hfile (.residual ∅)
  have hresidual := kind_saved env name st hclear hres.1 hres.2
  have had := hfile (.adapter [])
  have hadapter := kind_saved env name st hclear had.1 had.2
  have hview := view_eq (made_saved env name st hclear)
  simp only [fileAt, hmanifest, FileWrite.manifest?] at hview
  have hread : readable (view
      (DirTree.run (fun _ => true) t (saveOps p env name st)).1 p) = true := by
    rw [hview]
    simp only [readable, present, Bool.true_and, Bool.and_eq_true, Bool.not_eq_true']
    constructor
    · rcases hresidual with hnone | ⟨w, hw, hfile⟩
      · simp only [FileWrite.fileName] at hnone
        simp [hnone, corrupt]
      · simp only [FileWrite.fileName] at hfile
        cases w <;> simp_all [FileWrite.fileName, FileWrite.residual?, corrupt]
    · rcases hadapter with hnone | ⟨w, hw, hfile⟩
      · simp only [FileWrite.fileName] at hnone
        simp [hnone, corrupt]
      · simp only [FileWrite.fileName] at hfile
        cases w <;> simp_all [FileWrite.fileName, FileWrite.adapter?, corrupt]
  refine ⟨_, by rw [restored, hp, Option.bind_some, if_pos hread], ?_⟩
  rw [hview]

theorem no_file_saved {q : Path} (hq : q ∉ p.files) (h : ∀ c, t q ≠ some (.file c)) :
    ∀ c, (DirTree.run allowed t (saveOps p env name st)).1 q ≠ some (.file c) := by
  refine DirTree.run_preserves (P := fun u => ∀ c, u q ≠ some (.file c)) ?_ h
  intro op hop u u' hu happ c
  have hseen := seen_saveOps op hop
  by_cases hpath : q = op.path
  · cases happ with
    | there => exact hu c
    | @made d =>
      obtain rfl : q = d := hpath
      simp
    | written => exact absurd (hpath ▸ hseen) hq
  · rw [happ.other hpath]
    exact hu c

/-- Each of the files that a save may write is written by a save of some state. -/
theorem written_saved (st₀ : ModelState arch T) {f : Path} (hf : f ∈ p.written arch root)
    (hbelow : Below root p.dir) (env : SaveEnv) (name : String) :
    ∃ st : ModelState arch T, ∃ c,
      (DirTree.run (fun _ => true) (blank root) (saveOps p env name st)).1 f = some (.file c) := by
  unfold Place.written at hf
  split at hf
  · cases hf
  · rename_i hopen
    obtain ⟨hf, hmade⟩ := List.mem_filter.mp hf
    have hmade := of_decide_eq_true hmade
    have hman : p.file "manifest.json" ∉ p.made := fun h => hopen (.inl h)
    have hclear : ∀ q ∈ p.made, ∀ c, (blank root : Disk (FileWrite T)) q ≠ some (.file c) :=
      fun q _ c => blank_no_file root q c
    have hdir : ∀ a, (blank root : Disk (FileWrite T)) (p.file a) ≠ some .dir := fun a => by
      simp [blank, not_prefix_of_below (below_file hbelow a)]
    obtain ⟨a, ha, rfl⟩ := List.mem_map.mp hf
    simp only [List.mem_append, List.mem_cons, List.not_mem_nil, or_false] at ha
    rcases ha with (rfl | rfl) | ha
    · exact ⟨st₀, _, manifest_saved env name st₀ hclear hman (hdir _)⟩
    · let d : Dict T := AList.insert "" (st₀.param (.other "")) ∅
      refine ⟨{ st₀ with mergedDeltas := d }, ?_⟩
      exact second_saved (w := .residual d) rfl hclear hman (hdir _) hmade (hdir _)
    · split at ha
      · cases ha
      · rename_i hlora
        obtain rfl := List.mem_singleton.mp ha
        refine ⟨{ st₀ with mergedDeltas := ∅ }, ?_⟩
        have hsd : ({ st₀ with mergedDeltas := ∅ } :
            ModelState arch T).extractActiveAdapter.isEmpty = false := by
          simpa [ModelState.extractActiveAdapter] using hlora
        have hwrites : SnapshotDir.saveWrites env name
            ({ st₀ with mergedDeltas := ∅ } : ModelState arch T) =
              [.manifest (SnapshotDir.manifestOf env name
                ({ st₀ with mergedDeltas := ∅ } : ModelState arch T)),
                .adapter
                  ({ st₀ with mergedDeltas := ∅ } : ModelState arch T).extractActiveAdapter] := by
          simp only [SnapshotDir.saveWrites, hsd]
          rfl
        exact second_saved hwrites hclear hman (hdir _) hmade (hdir _)

theorem below_of_isolated (st₀ : ModelState arch T) {names : String → Prop}
    (h : Isolated arch T root names) (env : SaveEnv) (hname : names name)
    (hp : place root name = some p) (hopen : ¬ p.blocked root) : Below root p.dir := by
  have hclear : ∀ q ∈ p.made, ∀ c, (blank root : Disk (FileWrite T)) q ≠ some (.file c) :=
    fun q _ c => blank_no_file root q c
  obtain ⟨hdone, hnodes⟩ := DirTree.run_mkdirs hclear
  obtain ⟨rest, hwrites, -⟩ := saveWrites_eq env name st₀
  have hdir : (DirTree.run (fun _ => true) (blank root : Disk (FileWrite T))
      (p.made.map .mkdir)).1 (p.file "manifest.json") ≠ some .dir := by
    rw [hnodes, if_neg fun hm => hopen (.inl hm), blank, if_neg fun hm => hopen (.inr hm)]
    simp
  have happ := apply_put _ (.manifest (SnapshotDir.manifestOf env name st₀)) hdir
  have hbelow := h.below (fun _ => true) (blank root) [] (.save env name st₀) (fresh_blank root)
    (by simp) hname (p.file "manifest.json") (.manifest (SnapshotDir.manifestOf env name st₀))
  simp only [Call.ops, hp, saveOps, DirTree.applied_append] at hbelow
  have := hbelow (List.mem_append_right _ (by
    rw [exec, List.foldl_nil, if_pos hdone, hwrites, List.map_cons, DirTree.applied,
      FileWrite.fileName, happ]
    exact List.mem_cons_self))
  rwa [Place.file, List.dropLast_concat] at this

/-- The save under one name and the save under another: in either order, the second name loads
what it does without the first. -/
theorem saves_frame {names : String → Prop} (h : Isolated arch T root names) (env : SaveEnv)
    {name' : String} {p' : Place} (hname : names name) (hname' : names name') (hne : name ≠ name')
    (hp : place root name = some p) (hp' : place root name' = some p') (st st' : ModelState arch T) :
    restored (DirTree.run (fun _ => true) (DirTree.run (fun _ => true) (blank root)
        (saveOps p env name st)).1 (saveOps p' env name' st')).1 root name' =
      restored (DirTree.run (fun _ => true) (blank root) (saveOps p' env name' st')).1 root name' ∧
    restored (DirTree.run (fun _ => true) (DirTree.run (fun _ => true) (blank root)
        (saveOps p' env name' st')).1 (saveOps p env name st)).1 root name' =
      restored (DirTree.run (fun _ => true) (blank root) (saveOps p' env name' st')).1 root name' := by
  have hops : (Call.save env name st).ops root = saveOps p env name st := by simp [Call.ops, hp]
  have hops' : (Call.save env name' st').ops root = saveOps p' env name' st' := by
    simp [Call.ops, hp']
  have hspares : (Call.save env name st).spares name' = false := by simpa [Call.spares] using hne
  have hspares' : (Call.save env name' st').spares name' = true := by simp [Call.spares]
  have hcalls : ∀ calls : List (Call arch T),
      calls ⊆ [.save env name st, .save env name' st'] → ∀ c ∈ calls, names c.name := by
    intro calls hsub c hc
    have hc := hsub hc
    simp only [List.mem_cons, List.not_mem_nil, or_false] at hc
    rcases hc with rfl | rfl
    · exact hname
    · exact hname'
  have hframe := fun calls hsub => h.frame (fun _ => true) (blank root) calls name'
    (fresh_blank root) (hcalls calls hsub) hname'
  constructor
  · simpa [exec, hops, hops', hspares, hspares'] using
      hframe [.save env name st, .save env name' st'] (List.Subset.refl _)
  · simpa [exec, hops, hops', hspares, hspares'] using
      hframe [.save env name' st', .save env name st] (by simp)

/-- In a directory that two names share, the later save replaces the manifest. -/
theorem dir_apart {env : SaveEnv} {st₀ : ModelState arch T} {name' : String} {p' : Place}
    {d : SnapshotDir T} (hne : name ≠ name') (hp' : place root name' = some p')
    (husable : p'.usable) (hbelow : Below root p'.dir) (hmade : ∀ f ∈ p'.files, f ∉ p.made)
    (hlast : restored (DirTree.run (fun _ => true) (DirTree.run (fun _ => true) (blank root)
      (saveOps p' env name' st₀)).1 (saveOps p env name st₀)).1 root name' = some d)
    (hmanifest : d.manifest = .present (SnapshotDir.manifestOf env name' st₀)) :
    p.dir ≠ p'.dir := by
  intro hdir
  have hsame : p.file "manifest.json" = p'.file "manifest.json" := by
    rw [Place.file, hdir, Place.file]
  have hmem : p'.file "manifest.json" ∈ p'.files := by simp [Place.files]
  have hthere := manifest_saved env name' st₀ (fun q _ => blank_no_file root q)
    (husable _ hmem) (by simp [blank, not_prefix_of_below (below_file hbelow "manifest.json")])
  have hreplaced := manifest_saved env name st₀
    (t := (DirTree.run (fun _ => true) (blank root) (saveOps p' env name' st₀)).1)
    (fun q hq => no_file_saved (fun hf => hmade q hf hq) (blank_no_file root q))
    (hsame ▸ hmade _ hmem) (by rw [hsame, hthere]; simp)
  obtain ⟨q, hq, hview⟩ := Option.bind_eq_some_iff.mp hlast
  obtain rfl := Option.some.inj (hp'.symm.trans hq)
  split at hview
  · rename_i hread
    obtain rfl := Option.some.inj hview
    rw [view_eq (of_readable hread).1] at hmanifest
    simp only [fileAt, ← hsame, hreplaced, FileWrite.manifest?] at hmanifest
    have hobject := ManifestJson.object.inj (FileState.present.inj hmanifest)
    exact hne (congrArg Manifest.name hobject)
  · cases hview

theorem apart_of_isolated (st₀ : ModelState arch T) {names : String → Prop}
    (h : Isolated arch T root names) (env : SaveEnv) {name' : String} {p' : Place}
    (hname : names name) (hname' : names name') (hne : name ≠ name')
    (hp : place root name = some p) (hp' : place root name' = some p') (husable : p'.usable)
    (hbelow : Below root p'.dir) : Apart arch root p p' := by
  -- the save under the second name alone can be loaded
  obtain ⟨d, hd, hmanifest⟩ := restored_saved env st₀ hp' husable
    (fun q _ => blank_no_file root q) fun f hf => by
      obtain ⟨a, rfl⟩ := exists_of_mem_files hf
      exact (fresh_blank root).below _ (below_file hbelow a)
  have hframe := fun st => saves_frame h env hname hname' hne hp hp' st st₀
  have hfirst := fun st => (hframe st).1.trans hd
  have hmade : ∀ f ∈ p'.files, f ∉ p.made := by
    intro f hf hmem
    have hdir := @DirTree.run_dir _ (fun _ => true) _ _ (saveOps p' env name' st₀)
      (made_saved env name st₀ (fun q _ => blank_no_file root q) f hmem)
    cases (restored_eq_none hp' (.inr (.inl ⟨f, hf, hdir⟩))).symm.trans (hfirst st₀)
  refine ⟨dir_apart hne hp' husable hbelow hmade ((hframe st₀).2.trans hd) hmanifest, hmade,
    fun f hf hmem => ?_⟩
  have hopen : ¬ p.blocked root := fun hblocked => by
    simp [Place.written, hblocked] at hf
  obtain ⟨st, hfile⟩ := written_saved st₀ hf
    (below_of_isolated st₀ h env hname hp hopen) env name
  obtain ⟨c, hc⟩ := @DirTree.run_file _ (fun _ => true) _ _ (saveOps p' env name' st₀) hfile
  have hdir : (DirTree.run (fun _ => true) (DirTree.run (fun _ => true) (blank root)
      (saveOps p env name st)).1 (saveOps p' env name' st₀)).1 f ≠ some .dir := by
    rw [hc]
    simp
  cases (restored_eq_none hp' (.inl ⟨f, hmem, hdir⟩)).symm.trans (hfirst st)

/-- **Snapshot names.** Names can be saved and loaded without regard to each other, in
directories below the root, exactly if they are distinguished: each leads below the root, and
no two of them to one directory or with a directory where the other has a file. -/
theorem isolated_iff (st₀ : ModelState arch T) (root : Path) (names : String → Prop) :
    Isolated arch T root names ↔ Distinguished arch root names := by
  let env : SaveEnv := ⟨fun _ => "", 0, none⟩
  constructor
  · intro h
    refine ⟨fun name p hname hp hopen => below_of_isolated st₀ h env hname hp hopen, ?_⟩
    intro name name' p p' hname hname' hne hp hp' husable hbelow
    exact apart_of_isolated st₀ h env hname hname' hne hp hp' husable hbelow
  · exact isolated_of_distinguished

end

/-- `./_autosave` is another name for the directory of `_autosave`. -/
theorem autosave_aliased :
    ¬ ∀ (root : Path) (name name' : String), name ≠ name' →
      Isolated History.oneSite OneByOne root fun n => n = name ∨ n = name' := by
  intro h
  let p : Place := ⟨[["snapshots"], ["snapshots", "_autosave"]], ["snapshots", "_autosave"],
    by decide⟩
  have hp : place ["snapshots"] "_autosave" = some p := rfl
  have hp' : place ["snapshots"] "./_autosave" = some p := rfl
  have husable : p.usable := by
    show ∀ f ∈ p.files, f ∉ p.made
    decide
  have hapart := apart_of_isolated (History.freshOne 1)
    (h ["snapshots"] "./_autosave" "_autosave" (by decide)) ⟨fun _ => "", 0, none⟩ (.inl rfl)
    (.inr rfl) (by decide) hp' hp husable ⟨⟨["_autosave"], rfl⟩, by decide⟩
  exact hapart.dir rfl

/-! ## Plain names -/

/-- One component that is not a dot or two. -/
def Plain (name : String) : Prop :=
  DirTree.components name = [name] ∧ name ≠ ".." ∧ name.toList.head? ≠ some '/'

instance (name : String) : Decidable (Plain name) := inferInstanceAs (Decidable (_ ∧ _ ∧ _))

theorem place_plain {root : Path} {name : String} {p : Place} (h : Plain name)
    (hp : place root name = some p) : p.made = [root, root ++ [name]] ∧ p.dir = root ++ [name] := by
  obtain ⟨hone, hdots, hslash⟩ := h
  unfold place at hp
  split at hp
  · cases hp
  · obtain rfl := Option.some.inj hp
    simp [hone, hslash, DirTree.visited, DirTree.enter, hdots]

theorem distinguished_plain (arch : Arch) (root : Path) : Distinguished arch root Plain where
  below := by
    intro name p hname hp _
    rw [(place_plain hname hp).2]
    exact ⟨List.prefix_append _ _, by simp⟩
  apart := by
    intro name name' p p' hname hname' hne hp hp' _ _
    obtain ⟨hmade, hdir⟩ := place_plain hname hp
    obtain ⟨hmade', hdir'⟩ := place_plain hname' hp'
    -- a file is two levels below the root, a directory at most one
    have hdeep : ∀ a b c : String, root ++ [a, b] ∉ [root, root ++ [c]] := by simp
    refine ⟨by simpa [hdir, hdir'] using hne, fun f hf => ?_, fun f hf => ?_⟩
    · obtain ⟨a, rfl⟩ := exists_of_mem_files hf
      rw [hmade, Place.file, hdir', List.append_assoc]
      exact hdeep _ _ _
    · obtain ⟨a, rfl⟩ : ∃ a, f = p.file a := by
        unfold Place.written at hf
        split at hf
        · cases hf
        · obtain ⟨a, -, rfl⟩ := List.mem_map.mp (List.mem_filter.mp hf).1
          exact ⟨a, rfl⟩
      rw [hmade', Place.file, hdir, List.append_assoc]
      exact hdeep _ _ _

/-- Plain names need no such care. -/
theorem isolated_plain (arch : Arch) (T : Type u) [Torch T] (root : Path) :
    Isolated arch T root Plain :=
  isolated_of_distinguished (distinguished_plain arch root)

end SnapshotPath

end Trainfer
