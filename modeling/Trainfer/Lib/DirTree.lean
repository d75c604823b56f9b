import Mathlib.Logic.Function.Basic
import Mathlib.Data.List.Basic

/-! A tree of directories and files, without links, and what a process does to it: it makes
directories that are not there yet and writes files. A sequence of operations stops at the
first that is refused, and what was done before stays.

`Alike` compares two trees as far as an observer of some directories and files can see;
`Alike.run` is the rule for operations that the observer sees, and `Alike.left` the one for
operations on one side only. -/

namespace DirTree

/-- The components from the root of the file system. -/
abbrev Path := List String

inductive Node (α : Type*) where
  | dir
  | file (content : α)

abbrev Disk (α : Type*) := Path → Option (Node α)

inductive Op (α : Type*) where
  | mkdir (p : Path)
  | put (p : Path) (content : α)

variable {α : Type*}

def Op.path : Op α → Path
  | mkdir p => p
  | put p _ => p

/-- One operation; `none` if it is refused. `allowed` is what the system lets the process
create. -/
def apply (allowed : Path → Bool) (t : Disk α) : Op α → Option (Disk α)
  | .mkdir p =>
    match t p with
    | some .dir => some t
    | some (.file _) => none
    | none => if allowed p then some (Function.update t p (some .dir)) else none
  | .put p content =>
    match t p with
    | some .dir => none
    | _ => if allowed p then some (Function.update t p (some (.file content))) else none

/-- The tree after the operations, and whether all of them went through. -/
def run (allowed : Path → Bool) (t : Disk α) : List (Op α) → Disk α × Bool
  | [] => (t, true)
  | op :: ops =>
    match apply allowed t op with
    | none => (t, false)
    | some t' => run allowed t' ops

/-- The operations that went through. -/
def applied (allowed : Path → Bool) (t : Disk α) : List (Op α) → List (Op α)
  | [] => []
  | op :: ops =>
    match apply allowed t op with
    | none => []
    | some t' => op :: applied allowed t' ops

/-! ## One operation -/

inductive Applied (allowed : Path → Bool) (t : Disk α) : Op α → Disk α → Prop
  | there {p} (h : t p = some .dir) : Applied allowed t (.mkdir p) t
  | made {p} (h : t p = none) (ha : allowed p = true) :
      Applied allowed t (.mkdir p) (Function.update t p (some .dir))
  | written {p content} (h : t p ≠ some .dir) (ha : allowed p = true) :
      Applied allowed t (.put p content) (Function.update t p (some (.file content)))

variable {allowed : Path → Bool} {t t' : Disk α} {op : Op α} {p q : Path}

/-- **Inversion of an operation.** -/
theorem applied_of_apply (h : apply allowed t op = some t') : Applied allowed t op t' := by
  cases op with
  | mkdir p =>
    simp only [apply] at h
    split at h
    · rename_i hdir
      obtain rfl := Option.some.inj h
      exact .there hdir
    · cases h
    · rename_i hnone
      split at h
      · rename_i ha
        obtain rfl := Option.some.inj h
        exact .made hnone ha
      · cases h
  | put p content =>
    simp only [apply] at h
    split at h
    · cases h
    · rename_i hdir
      split at h
      · rename_i ha
        obtain rfl := Option.some.inj h
        exact .written hdir ha
      · cases h

/-- A directory stays one. -/
theorem Applied.dir (h : Applied allowed t op t') (hq : t q = some .dir) : t' q = some .dir := by
  cases h with
  | there => exact hq
  | @made p hnone =>
    have hne : q ≠ p := fun he => by simp [he ▸ hq] at hnone
    rwa [Function.update_of_ne hne]
  | @written p content hdir =>
    have hne : q ≠ p := fun he => hdir (he ▸ hq)
    rwa [Function.update_of_ne hne]

/-- A file stays one. -/
theorem Applied.file (h : Applied allowed t op t') (hq : ∃ c, t q = some (.file c)) :
    ∃ c, t' q = some (.file c) := by
  obtain ⟨c, hc⟩ := hq
  cases h with
  | there => exact ⟨c, hc⟩
  | @made p hnone =>
    have hne : q ≠ p := fun he => by simp [he ▸ hc] at hnone
    exact ⟨c, by rwa [Function.update_of_ne hne]⟩
  | @written p content =>
    by_cases hqp : q = p
    · subst hqp
      exact ⟨content, Function.update_self _ _ _⟩
    · exact ⟨c, by rwa [Function.update_of_ne hqp]⟩

theorem Applied.other (h : Applied allowed t op t') (hq : q ≠ op.path) : t' q = t q := by
  cases h with
  | there => rfl
  | made => exact Function.update_of_ne hq _ _
  | written => exact Function.update_of_ne hq _ _

/-! ## Sequences -/

/-- **Invariant rule.** -/
theorem run_preserves {P : Disk α → Prop} {ops : List (Op α)}
    (hstep : ∀ op ∈ ops, ∀ t t', P t → Applied allowed t op t' → P t') (ht : P t) :
    P (run allowed t ops).1 := by
  induction ops generalizing t with
  | nil => exact ht
  | cons op ops ih =>
    rw [run]
    cases happ : apply allowed t op with
    | none => exact ht
    | some t' =>
      exact ih (fun o ho => hstep o (List.mem_cons_of_mem op ho))
        (hstep op List.mem_cons_self t t' ht (applied_of_apply happ))

theorem run_append (t : Disk α) (ops ops' : List (Op α)) :
    run allowed t (ops ++ ops') =
      if (run allowed t ops).2 then run allowed (run allowed t ops).1 ops'
      else ((run allowed t ops).1, false) := by
  induction ops generalizing t with
  | nil => rfl
  | cons op ops ih =>
    obtain happ | ⟨t', happ⟩ := Option.eq_none_or_eq_some (apply allowed t op)
    · simp [run, happ]
    · simp [run, happ, ih t']

theorem applied_append (t : Disk α) (ops ops' : List (Op α)) :
    applied allowed t (ops ++ ops') =
      applied allowed t ops ++
        if (run allowed t ops).2 then applied allowed (run allowed t ops).1 ops' else [] := by
  induction ops generalizing t with
  | nil => rfl
  | cons op ops ih =>
    obtain happ | ⟨t', happ⟩ := Option.eq_none_or_eq_some (apply allowed t op)
    · simp [run, applied, happ]
    · simp [run, applied, happ, ih t']

theorem applied_subset (t : Disk α) (ops : List (Op α)) : applied allowed t ops ⊆ ops := by
  induction ops generalizing t with
  | nil => exact fun _ h => h
  | cons op ops ih =>
    rw [applied]
    cases apply allowed t op with
    | none => simp
    | some t' => exact List.cons_subset_cons op (ih t')

theorem run_dir (ops : List (Op α)) (hq : t q = some .dir) :
    (run allowed t ops).1 q = some .dir :=
  run_preserves (P := fun t => t q = some .dir) (fun _ _ _ _ hq happ => happ.dir hq) hq

theorem run_file (ops : List (Op α)) (hq : ∃ c, t q = some (.file c)) :
    ∃ c, (run allowed t ops).1 q = some (.file c) :=
  run_preserves (P := fun t => ∃ c, t q = some (.file c)) (fun _ _ _ _ hq happ => happ.file hq) hq

theorem run_other {ops : List (Op α)} (hq : ∀ op ∈ ops, q ≠ op.path) :
    (run allowed t ops).1 q = t q :=
  run_preserves (P := fun t' => t' q = t q)
    (fun op hop _ _ hsame happ => (happ.other (hq op hop)).trans hsame) rfl

/-! ## Making directories -/

/-- Directories that were made are there. -/
theorem run_mkdirs_done {ps : List Path} (h : (run allowed t (ps.map .mkdir)).2 = true) :
    ∀ p ∈ ps, (run allowed t (ps.map .mkdir)).1 p = some .dir := by
  induction ps generalizing t with
  | nil => simp
  | cons p ps ih =>
    simp only [List.map_cons, run] at h ⊢
    cases happ : apply allowed t (.mkdir p) with
    | none => simp [happ] at h
    | some t' =>
      simp only [happ] at h ⊢
      refine List.forall_mem_cons.mpr ⟨run_dir _ ?_, ih h⟩
      cases applied_of_apply happ with
      | there hdir => exact hdir
      | made => exact Function.update_self _ _ _

/-- Where no file is in the way and nothing is forbidden, the directories are made and nothing
else changes. -/
theorem run_mkdirs {ps : List Path} (h : ∀ p ∈ ps, ∀ c, t p ≠ some (.file c)) :
    (run (fun _ => true) t (ps.map .mkdir)).2 = true ∧
      ∀ q, (run (fun _ => true) t (ps.map .mkdir)).1 q = if q ∈ ps then some .dir else t q := by
  induction ps generalizing t with
  | nil => simp [run]
  | cons p ps ih =>
    obtain ⟨hp, hps⟩ := List.forall_mem_cons.mp h
    have happ : apply (fun _ => true) t (.mkdir p) = some (Function.update t p (some .dir)) := by
      simp only [apply]
      split
      · rename_i hdir
        rw [← hdir, Function.update_eq_self]
      · rename_i c hfile
        exact absurd hfile (hp c)
      · rfl
    simp only [List.map_cons, run, happ]
    have hstill : ∀ q ∈ ps, ∀ c, Function.update t p (some .dir) q ≠ some (.file c) := by
      intro q hq c
      by_cases hqp : q = p
      · simp [hqp]
      · rw [Function.update_of_ne hqp]
        exact hps q hq c
    obtain ⟨hok, hnodes⟩ := ih hstill
    refine ⟨hok, fun q => ?_⟩
    rw [hnodes]
    by_cases hqp : q = p
    · simp [hqp]
    · simp [hqp]

/-! ## What an observer sees -/

/-- To an observer of these directories and files the trees are alike, except that some of the
directories may be there in the first only. -/
structure Alike (allowed : Path → Bool) (dirs files : List Path) (t t' : Disk α) : Prop where
  files : ∀ p ∈ files, t p = t' p
  dirs : ∀ p ∈ dirs, t p = t' p ∨ t' p = none ∧ t p = some .dir ∧ allowed p = true

/-- The operation is on what the observer sees. -/
def Op.Seen (dirs files : List Path) : Op α → Prop
  | mkdir p => p ∈ dirs
  | put p _ => p ∈ files

variable {dirs files : List Path}

theorem Alike.refl (t : Disk α) : Alike allowed dirs files t t :=
  ⟨fun _ _ => rfl, fun _ _ => .inl rfl⟩

theorem Alike.update {t t' : Disk α} (h : Alike allowed dirs files t t') (p : Path)
    (n : Option (Node α)) :
    Alike allowed dirs files (Function.update t p n) (Function.update t' p n) where
  files := fun q hq => by
    by_cases hqp : q = p
    · simp [hqp]
    · rw [Function.update_of_ne hqp, Function.update_of_ne hqp]
      exact h.files q hq
  dirs := fun q hq => by
    by_cases hqp : q = p
    · simp [hqp]
    · rw [Function.update_of_ne hqp, Function.update_of_ne hqp]
      exact h.dirs q hq

/-- Both sides refuse a seen operation, or both go on alike. -/
theorem Alike.apply {t t' : Disk α} (h : Alike allowed dirs files t t') (hop : op.Seen dirs files) :
    DirTree.apply allowed t op = none ∧ DirTree.apply allowed t' op = none ∨
      ∃ u u', DirTree.apply allowed t op = some u ∧ DirTree.apply allowed t' op = some u' ∧
        Alike allowed dirs files u u' := by
  cases op with
  | mkdir p =>
    rcases h.dirs p hop with hsame | ⟨hnone, hdir, ha⟩
    · simp only [DirTree.apply, hsame]
      split
      · exact .inr ⟨t, t', rfl, rfl, h⟩
      · exact .inl ⟨rfl, rfl⟩
      · split
        · exact .inr ⟨_, _, rfl, rfl, h.update p _⟩
        · exact .inl ⟨rfl, rfl⟩
    · refine .inr ⟨t, Function.update t' p (some .dir), ?_, ?_, ?_⟩
      · simp [DirTree.apply, hdir]
      · simp [DirTree.apply, hnone, ha]
      · have hsame := h.update p (some .dir)
        rwa [← hdir, Function.update_eq_self, hdir] at hsame
  | put p content =>
    have hsame := h.files p hop
    simp only [DirTree.apply, hsame]
    split
    · exact .inl ⟨rfl, rfl⟩
    · split
      · exact .inr ⟨_, _, rfl, rfl, h.update p _⟩
      · exact .inl ⟨rfl, rfl⟩

/-- **Both sides.** Seen operations go equally far. -/
theorem Alike.run {t t' : Disk α} {ops : List (Op α)} (h : Alike allowed dirs files t t')
    (hops : ∀ op ∈ ops, op.Seen dirs files) :
    Alike allowed dirs files (DirTree.run allowed t ops).1 (DirTree.run allowed t' ops).1 ∧
      (DirTree.run allowed t ops).2 = (DirTree.run allowed t' ops).2 := by
  induction ops generalizing t t' with
  | nil => exact ⟨h, rfl⟩
  | cons op ops ih =>
    obtain ⟨hop, hrest⟩ := List.forall_mem_cons.mp hops
    simp only [DirTree.run]
    rcases h.apply hop with ⟨hnone, hnone'⟩ | ⟨u, u', hu, hu', hlike⟩
    · rw [hnone, hnone']
      exact ⟨h, rfl⟩
    · rw [hu, hu']
      exact ih hlike hrest

/-- The operation leaves the files of the observer alone, and makes no directory a file. -/
def Op.Aside (dirs files : List Path) : Op α → Prop
  | mkdir p => p ∉ files
  | put p _ => p ∉ files ∧ p ∉ dirs

/-- **One side.** -/
theorem Alike.left {t t' u : Disk α} (h : Alike allowed dirs files t t')
    (hop : op.Aside dirs files) (happ : Applied allowed t op u) :
    Alike allowed dirs files u t' := by
  cases happ with
  | there => exact h
  | @made p hnone ha =>
    refine ⟨fun q hq => ?_, fun q hq => ?_⟩
    · have hne : q ≠ p := fun he => hop (he ▸ hq)
      rw [Function.update_of_ne hne]
      exact h.files q hq
    · by_cases hqp : q = p
      · subst hqp
        rcases h.dirs q hq with hsame | ⟨-, hdir, -⟩
        · exact .inr ⟨hsame ▸ hnone, Function.update_self _ _ _, ha⟩
        · simp [hdir] at hnone
      · rw [Function.update_of_ne hqp]
        exact h.dirs q hq
  | @written p content =>
    refine ⟨fun q hq => ?_, fun q hq => ?_⟩
    · have hne : q ≠ p := fun he => hop.1 (he ▸ hq)
      rw [Function.update_of_ne hne]
      exact h.files q hq
    · have hne : q ≠ p := fun he => hop.2 (he ▸ hq)
      rw [Function.update_of_ne hne]
      exact h.dirs q hq

/-! ## Paths -/

/-- One component from a directory, where `..` is the parent. -/
def enter (d : Path) (c : String) : Path := if c = ".." then d.dropLast else d ++ [c]

/-- The directories on a path that starts at `d`. -/
def visited (d : Path) : List String → List Path
  | [] => [d]
  | c :: cs => d :: visited (enter d c) cs

theorem foldl_enter_mem_visited (d : Path) (cs : List String) :
    cs.foldl enter d ∈ visited d cs := by
  induction cs generalizing d with
  | nil => exact List.mem_singleton_self d
  | cons c cs ih => exact List.mem_cons_of_mem d (ih (enter d c))

/-- The components of a text: what stands between slashes, without empty ones and dots. -/
def components (text : String) : List String :=
  ((text.toList.splitOn '/').map String.ofList).filter fun c => !(c == "" || c == ".")

example : components "a/./b//../c/" = ["a", "b", "..", "c"] := by decide

end DirTree
