import Trainfer.WeightWrites
import Trainfer.Lib.Runs

/-! Generations in executor threads beside the tasks of the worker, on one set of weights.

A generation holds `mode_lock` over all of its decode steps. Of the tasks only a train step
takes the lock, so the writes of a merge, a load or a reset fall between the decode steps
of a generation that is under way. `oneVersion_of_undisturbed`: a generation sees one
version of the weights in every run whose decode steps stay clear of such writes. -/

namespace Trainfer.WeightVersions

universe u

open ModelState (weightWrite)

variable {arch : Arch} {T : Type u}

/-- What a decode step reads: for each site the attribute and the hooks of its base layer,
and the adapter. -/
structure Weights (T : Type u) where
  residual : List (Option T × List T)
  adapter : List T
  deriving DecidableEq

def weights (st : ModelState arch T) : Weights T where
  residual := arch.sites.map fun s =>
    ((st.base s.name).residualDelta, (st.base s.name).hooks.map Prod.snd)
  adapter := arch.loraParams.map st.param

inductive Phase where
  | waiting
  | decoding
  | finished
  deriving DecidableEq, Repr

/-- One `generate` or `stream_generate`, with what its decode steps have read. `disturbed`
records that a task outside the lock has written since the first of them. -/
structure Generation (T : Type u) where
  phase : Phase := .waiting
  reads : List (Weights T) := []
  disturbed : Bool := false

/-- The task in the worker's hands; `started` once it has written. -/
structure Running (T : Type u) where
  locked : Bool
  started : Bool
  rest : List (WeightWrite T)

inductive Holder where
  | worker
  | generation (i : Nat)
  deriving DecidableEq, Repr

/-- `versions` are the weights before the first task and after each one. -/
structure Serving (arch : Arch) (T : Type u) where
  model : ModelState arch T
  modeLock : Option Holder
  task : Option (Running T)
  generations : List (Generation T)
  versions : List (Weights T)

def initial (st : ModelState arch T) : Serving arch T := ⟨st, none, none, [], [weights st]⟩

inductive Action (T : Type u) where
  /-- A generation arrives. -/
  | request
  /-- `with lock_cm` in `generate_chat`. -/
  | acquire (i : Nat)
  | decode (i : Nat)
  | release (i : Nat)
  /-- The worker takes a task from the queue. -/
  | start (task : WeightTask T)
  /-- `with self.state.mode_lock` in `TrainEngine.step`. -/
  | lock
  | write
  | finish

def Serving.put (s : Serving arch T) (i : Nat) (g : Generation T) : Serving arch T :=
  { s with generations := s.generations.set i g }

/-- The worker may write and finish: it needs no lock, or has it. -/
def Serving.mayWrite (s : Serving arch T) (task : Running T) : Bool :=
  !task.locked || s.modeLock == some .worker

/-- A write of a task outside the lock disturbs the generations that have read. -/
def Generation.disturb (g : Generation T) : Generation T :=
  { g with disturbed := g.disturbed || !g.reads.isEmpty }

variable [Torch T]

def step (s : Serving arch T) : Action T → Option (Serving arch T)
  | .request => some { s with generations := s.generations ++ [{}] }
  | .acquire i =>
    match s.generations[i]? with
    | some g =>
      if g.phase = .waiting ∧ s.modeLock = none then
        some ({ s with modeLock := some (.generation i) }.put i { g with phase := .decoding })
      else none
    | none => none
  | .decode i =>
    match s.generations[i]? with
    | some g =>
      if g.phase = .decoding then
        some (s.put i { g with reads := g.reads ++ [weights s.model] })
      else none
    | none => none
  | .release i =>
    match s.generations[i]? with
    | some g =>
      if g.phase = .decoding then
        some ({ s with modeLock := none }.put i { g with phase := .finished })
      else none
    | none => none
  | .start task =>
    match s.task with
    | some _ => none
    | none => some { s with task := some ⟨task.locked, false, task.writes s.model⟩ }
  | .lock =>
    match s.task with
    | some task =>
      if task.locked = true ∧ s.modeLock = none then some { s with modeLock := some .worker }
      else none
    | none => none
  | .write =>
    match s.task with
    | some ⟨locked, started, w :: rest⟩ =>
      if s.mayWrite ⟨locked, started, w :: rest⟩ then
        let model := weightWrite s.model w
        some
          { s with
            model
            task := some ⟨locked, true, rest⟩
            generations :=
              if locked then s.generations else s.generations.map Generation.disturb
            versions := if rest.isEmpty then s.versions ++ [weights model] else s.versions }
      else none
    | _ => none
  | .finish =>
    match s.task with
    | some ⟨locked, started, []⟩ =>
      if s.mayWrite ⟨locked, started, []⟩ then
        some
          { s with
            task := none
            modeLock := if locked then none else s.modeLock }
      else none
    | _ => none

/-- All decode steps of each generation have read the same weights, and these are the
weights between two tasks. -/
def OneVersion (s : Serving arch T) : Prop :=
  ∀ g ∈ s.generations, ∃ v ∈ s.versions, ∀ w ∈ g.reads, w = v

/-- A decode step is taken neither between two writes of a task outside the lock, nor after
such a write since the generation's first step. -/
def Undisturbed (s : Serving arch T) : Action T → Prop
  | .decode i =>
    (∀ task, s.task = some task → task.locked = false → task.started = true →
      task.rest = []) ∧
    ∀ g, s.generations[i]? = some g → g.disturbed = false
  | _ => True

instance [DecidableEq T] : DecidablePred (OneVersion : Serving arch T → Prop) := fun s =>
  inferInstanceAs (Decidable (∀ g ∈ s.generations, ∃ v ∈ s.versions, ∀ w ∈ g.reads, w = v))

instance : ∀ (s : Serving arch T) (a : Action T), Decidable (Undisturbed s a)
  | s, .decode i =>
    inferInstanceAs (Decidable
      ((∀ task ∈ s.task, task.locked = false → task.started = true → task.rest = []) ∧
        ∀ g ∈ s.generations[i]?, g.disturbed = false))
  | _, .request | _, .acquire _ | _, .release _ | _, .start _ | _, .lock | _, .write | _, .finish =>
    .isTrue trivial

/-! ## Inversion of a step -/

section

variable {s t : Serving arch T} {i : Nat}

theorem acquire_some (h : step s (.acquire i) = some t) :
    ∃ g, s.generations[i]? = some g ∧ g.phase = .waiting ∧ s.modeLock = none ∧
      t = { s with modeLock := some (.generation i) }.put i { g with phase := .decoding } := by
  simp only [step] at h
  cases hg : s.generations[i]? with
  | none => simp [hg] at h
  | some g =>
    simp only [hg, Option.ite_none_right_eq_some, Option.some.injEq] at h
    exact ⟨g, rfl, h.1.1, h.1.2, h.2.symm⟩

theorem decode_some (h : step s (.decode i) = some t) :
    ∃ g, s.generations[i]? = some g ∧ g.phase = .decoding ∧
      t = s.put i { g with reads := g.reads ++ [weights s.model] } := by
  simp only [step] at h
  cases hg : s.generations[i]? with
  | none => simp [hg] at h
  | some g =>
    simp only [hg, Option.ite_none_right_eq_some, Option.some.injEq] at h
    exact ⟨g, rfl, h.1, h.2.symm⟩

theorem release_some (h : step s (.release i) = some t) :
    ∃ g, s.generations[i]? = some g ∧ g.phase = .decoding ∧
      t = { s with modeLock := none }.put i { g with phase := .finished } := by
  simp only [step] at h
  cases hg : s.generations[i]? with
  | none => simp [hg] at h
  | some g =>
    simp only [hg, Option.ite_none_right_eq_some, Option.some.injEq] at h
    exact ⟨g, rfl, h.1, h.2.symm⟩

theorem start_some {task : WeightTask T} (h : step s (.start task) = some t) :
    s.task = none ∧
      t = { s with task := some ⟨task.locked, false, task.writes s.model⟩ } := by
  simp only [step] at h
  cases htask : s.task with
  | none =>
    simp only [htask, Option.some.injEq] at h
    exact ⟨rfl, h.symm⟩
  | some task => simp [htask] at h

theorem lock_some (h : step s .lock = some t) :
    s.modeLock = none ∧ t = { s with modeLock := some .worker } := by
  simp only [step] at h
  cases htask : s.task with
  | none => simp [htask] at h
  | some task =>
    simp only [htask, Option.ite_none_right_eq_some, Option.some.injEq] at h
    exact ⟨h.1.2, h.2.symm⟩

theorem write_some (h : step s .write = some t) :
    ∃ locked started w rest, s.task = some ⟨locked, started, w :: rest⟩ ∧
      (locked = true → s.modeLock = some .worker) ∧
      t = { s with
        model := weightWrite s.model w
        task := some ⟨locked, true, rest⟩
        generations := if locked then s.generations else s.generations.map Generation.disturb
        versions :=
          if rest.isEmpty then s.versions ++ [weights (weightWrite s.model w)]
          else s.versions } := by
  simp only [step] at h
  split at h
  · rename_i locked started w rest htask
    simp only [Option.ite_none_right_eq_some, Option.some.injEq] at h
    refine ⟨locked, started, w, rest, htask, fun hl => ?_, h.2.symm⟩
    simpa [Serving.mayWrite, hl] using h.1
  · cases h

theorem finish_some (h : step s .finish = some t) :
    ∃ locked started, s.task = some ⟨locked, started, []⟩ ∧
      (locked = true → s.modeLock = some .worker) ∧
      t = { s with task := none, modeLock := if locked then none else s.modeLock } := by
  simp only [step] at h
  split at h
  · rename_i locked started htask
    simp only [Option.ite_none_right_eq_some, Option.some.injEq] at h
    refine ⟨locked, started, htask, fun hl => ?_, h.2.symm⟩
    simpa [Serving.mayWrite, hl] using h.1
  · cases h

end

/-! ## The invariant -/

/-- What every undisturbed run keeps. -/
structure Kept (s : Serving arch T) : Prop where
  holds : ∀ (i : Nat) (g : Generation T), s.generations[i]? = some g → g.phase = .decoding →
    s.modeLock = some (.generation i)
  worker : ∀ task, s.task = some task → task.locked = true → task.started = true →
    s.modeLock = some .worker
  waiting : ∀ g ∈ s.generations, g.phase = .waiting → g.reads = []
  /-- Between two tasks the weights are a version. -/
  whole : (∀ task, s.task = some task → task.started = true → task.rest = []) →
    weights s.model ∈ s.versions
  current : ∀ g ∈ s.generations, g.phase = .decoding → g.disturbed = false →
    ∀ w ∈ g.reads, w = weights s.model
  nonempty : s.versions ≠ []
  oneVersion : OneVersion s

omit [Torch T] in
theorem kept_initial (st : ModelState arch T) : Kept (initial st) where
  holds := by simp [initial]
  worker := by simp [initial]
  waiting := by simp [initial]
  whole := by simp [initial]
  current := by simp [initial]
  nonempty := by simp [initial]
  oneVersion := by simp [initial, OneVersion]

section

variable {s t : Serving arch T} {i : Nat}

omit [Torch T] in
/-- A generation of the new list is the one put there, or it is elsewhere and unchanged. -/
theorem generations_of_put {j : Nat} {g' other : Generation T}
    (h : (s.put i g').generations[j]? = some other) :
    (j = i ∧ other = g') ∨ (j ≠ i ∧ s.generations[j]? = some other) := by
  by_cases hji : j = i
  · subst hji
    have hlt : j < s.generations.length := by
      simpa [Serving.put] using (List.getElem?_eq_some_iff.mp h).1
    rw [Serving.put, List.getElem?_set_self hlt] at h
    exact .inl ⟨rfl, (Option.some.inj h).symm⟩
  · rw [Serving.put, List.getElem?_set_ne (Ne.symm hji)] at h
    exact .inr ⟨hji, h⟩

omit [Torch T] in
theorem mem_put {g' other : Generation T} (h : other ∈ (s.put i g').generations) :
    other ∈ s.generations ∨ other = g' := List.mem_or_eq_of_mem_set h

omit [Torch T] in
/-- A free lock, or one that the worker holds, is not a generation's. -/
theorem Kept.not_decoding (hs : Kept s) (hlock : ∀ i, s.modeLock ≠ some (.generation i))
    {g : Generation T} (hg : g ∈ s.generations) : g.phase ≠ .decoding := by
  intro hphase
  obtain ⟨j, hj⟩ := List.mem_iff_getElem?.mp hg
  exact hlock j (hs.holds j g hj hphase)

theorem Kept.request (hs : Kept s) (h : step s .request = some t) : Kept t := by
  obtain rfl := Option.some.inj h
  refine ⟨fun j g hj hphase => ?_, hs.worker, fun g hg hphase => ?_, hs.whole,
    fun g hg hphase => ?_, hs.nonempty, fun g hg => ?_⟩
  · rw [List.getElem?_append] at hj
    split at hj
    · exact hs.holds j g hj hphase
    · rw [List.mem_singleton.mp (List.mem_of_getElem? hj)] at hphase
      cases hphase
  · rcases List.mem_append.mp hg with hg | hg
    · exact hs.waiting g hg hphase
    · rw [List.mem_singleton.mp hg]
  · rcases List.mem_append.mp hg with hg | hg
    · exact hs.current g hg hphase
    · rw [List.mem_singleton.mp hg] at hphase
      cases hphase
  · rcases List.mem_append.mp hg with hg | hg
    · exact hs.oneVersion g hg
    · obtain ⟨v, hv⟩ := List.exists_mem_of_ne_nil _ hs.nonempty
      exact ⟨v, hv, by simp [List.mem_singleton.mp hg]⟩

theorem Kept.acquire (hs : Kept s) (h : step s (.acquire i) = some t) : Kept t := by
  obtain ⟨g, hi, hphase, hfree, rfl⟩ := acquire_some h
  have hg : g ∈ s.generations := List.mem_of_getElem? hi
  have hreads := hs.waiting g hg hphase
  refine ⟨fun j other hj hdec => ?_, fun task htask hl hst => ?_, fun other ho hwait => ?_,
    hs.whole, fun other ho hdec hd w hw => ?_, hs.nonempty, fun other ho => ?_⟩
  · rcases generations_of_put hj with ⟨rfl, _⟩ | ⟨_, hj⟩
    · rfl
    · have hheld := hs.holds j other hj hdec
      rw [hfree] at hheld
      cases hheld
  · have hheld := hs.worker task htask hl hst
    rw [hfree] at hheld
    cases hheld
  · rcases mem_put ho with ho | rfl
    · exact hs.waiting other ho hwait
    · cases hwait
  · rcases mem_put ho with ho | rfl
    · exact hs.current other ho hdec hd w hw
    · simp [hreads] at hw
  · rcases mem_put ho with ho | rfl
    · exact hs.oneVersion other ho
    · exact hs.oneVersion g hg

theorem Kept.release (hs : Kept s) (h : step s (.release i) = some t) : Kept t := by
  obtain ⟨g, hi, hphase, rfl⟩ := release_some h
  have hheld := hs.holds i g hi hphase
  have hg : g ∈ s.generations := List.mem_of_getElem? hi
  refine ⟨fun j other hj hdec => ?_, fun task htask hl hst => ?_, fun other ho hwait => ?_,
    hs.whole, fun other ho hdec => ?_, hs.nonempty, fun other ho => ?_⟩
  · rcases generations_of_put hj with ⟨_, rfl⟩ | ⟨hji, hj⟩
    · cases hdec
    · -- the lock was this generation's
      have hother := hs.holds j other hj hdec
      rw [hheld] at hother
      injection hother with hother
      injection hother with hij
      exact absurd hij.symm hji
  · have hworker := hs.worker task htask hl hst
    rw [hheld] at hworker
    cases hworker
  · rcases mem_put ho with ho | rfl
    · exact hs.waiting other ho hwait
    · cases hwait
  · rcases mem_put ho with ho | rfl
    · exact hs.current other ho hdec
    · cases hdec
  · rcases mem_put ho with ho | rfl
    · exact hs.oneVersion other ho
    · exact hs.oneVersion g hg

/-- A decode step that is not disturbed reads the version of the steps before it. -/
theorem Kept.decode (hs : Kept s) (hclear : Undisturbed s (.decode i))
    (h : step s (.decode i) = some t) : Kept t := by
  obtain ⟨g, hi, hphase, rfl⟩ := decode_some h
  have hg : g ∈ s.generations := List.mem_of_getElem? hi
  have hheld := hs.holds i g hi hphase
  have hversion : weights s.model ∈ s.versions := by
    refine hs.whole fun task htask hstarted => ?_
    cases hl : task.locked with
    | false => exact hclear.1 task htask hl hstarted
    | true =>
      -- the lock is the generation's, so a train step has not written yet
      have hworker := hs.worker task htask hl hstarted
      rw [hheld] at hworker
      cases hworker
  have hreads : ∀ w ∈ g.reads ++ [weights s.model], w = weights s.model := by
    intro w hw
    rcases List.mem_append.mp hw with hw | hw
    · exact hs.current g hg hphase (hclear.2 g hi) w hw
    · exact List.mem_singleton.mp hw
  refine ⟨fun j other hj hdec => ?_, hs.worker, fun other ho hwait => ?_, hs.whole,
    fun other ho hdec hd => ?_, hs.nonempty, fun other ho => ?_⟩
  · rcases generations_of_put hj with ⟨rfl, _⟩ | ⟨_, hj⟩
    · exact hheld
    · exact hs.holds j other hj hdec
  · rcases mem_put ho with ho | rfl
    · exact hs.waiting other ho hwait
    · rw [hphase] at hwait
      cases hwait
  · rcases mem_put ho with ho | rfl
    · exact hs.current other ho hdec hd
    · exact hreads
  · rcases mem_put ho with ho | rfl
    · exact hs.oneVersion other ho
    · exact ⟨_, hversion, hreads⟩

theorem Kept.start {task : WeightTask T} (hs : Kept s) (h : step s (.start task) = some t) :
    Kept t := by
  obtain ⟨hidle, rfl⟩ := start_some h
  refine ⟨hs.holds, fun task' htask _ hstarted => ?_, hs.waiting, fun _ => hs.whole ?_,
    hs.current, hs.nonempty, hs.oneVersion⟩
  · obtain rfl := Option.some.inj htask
    cases hstarted
  · simp [hidle]

theorem Kept.lock (hs : Kept s) (h : step s .lock = some t) : Kept t := by
  obtain ⟨hfree, rfl⟩ := lock_some h
  have hnone : ∀ i, s.modeLock ≠ some (.generation i) := by simp [hfree]
  exact ⟨fun j g hj hdec => absurd hdec (hs.not_decoding hnone (List.mem_of_getElem? hj)),
    fun _ _ _ _ => rfl, hs.waiting, hs.whole, hs.current, hs.nonempty, hs.oneVersion⟩

theorem Kept.finish (hs : Kept s) (h : step s .finish = some t) : Kept t := by
  obtain ⟨locked, started, htask, hlock, rfl⟩ := finish_some h
  refine ⟨fun j g hj hdec => ?_, by simp, hs.waiting, fun _ => hs.whole ?_, hs.current,
    hs.nonempty, hs.oneVersion⟩
  · have hheld := hs.holds j g hj hdec
    cases locked with
    | false => exact hheld
    | true =>
      rw [hlock rfl] at hheld
      cases hheld
  · intro task htask' _
    rw [htask] at htask'
    rw [← Option.some.inj htask']

/-- A write under the lock meets no generation that is decoding; any other write disturbs
those that have read. -/
theorem Kept.write (hs : Kept s) (h : step s .write = some t) : Kept t := by
  obtain ⟨locked, started, w, rest, htask, hlock, rfl⟩ := write_some h
  have hversions : ∀ v ∈ s.versions, v ∈ (if rest.isEmpty = true then
      s.versions ++ [weights (weightWrite s.model w)] else s.versions) := by
    intro v hv
    split
    · exact List.mem_append_left _ hv
    · exact hv
  have hgenerations : ∀ (j : Nat) (g' : Generation T),
      (if locked = true then s.generations else s.generations.map Generation.disturb)[j]? =
        some g' →
      ∃ g : Generation T, s.generations[j]? = some g ∧ g'.phase = g.phase ∧ g'.reads = g.reads ∧
        (g'.phase = .decoding → g'.disturbed = false → g'.reads = []) := by
    intro j g' hj
    cases locked with
    | true =>
      refine ⟨g', hj, rfl, rfl, fun hdec _ => absurd hdec ?_⟩
      exact hs.not_decoding (by simp [hlock rfl]) (List.mem_of_getElem? hj)
    | false =>
      simp only [Bool.false_eq_true, if_false, List.getElem?_map, Option.map_eq_some_iff] at hj
      obtain ⟨g, hj, rfl⟩ := hj
      refine ⟨g, hj, rfl, rfl, fun _ hd => ?_⟩
      simpa [Generation.disturb] using (Bool.or_eq_false_iff.mp hd).2
  refine ⟨fun j g' hj hdec => ?_, fun task htask' hl _ => ?_, fun g' hg' hwait => ?_,
    fun hwhole => ?_, fun g' hg' hdec hd r hr => ?_, ?_, fun g' hg' => ?_⟩
  · obtain ⟨g, hj, hphase, _⟩ := hgenerations j g' hj
    exact hs.holds j g hj (hphase ▸ hdec)
  · obtain rfl := Option.some.inj htask'
    exact hlock hl
  · obtain ⟨j, hj⟩ := List.mem_iff_getElem?.mp hg'
    obtain ⟨g, hj, hphase, hreads, _⟩ := hgenerations j g' hj
    exact hreads.trans (hs.waiting g (List.mem_of_getElem? hj) (hphase ▸ hwait))
  · obtain rfl : rest = [] := hwhole _ rfl rfl
    simp
  · obtain ⟨j, hj⟩ := List.mem_iff_getElem?.mp hg'
    obtain ⟨_, _, _, _, hempty⟩ := hgenerations j g' hj
    rw [hempty hdec hd] at hr
    cases hr
  · obtain ⟨v, hv⟩ := List.exists_mem_of_ne_nil _ hs.nonempty
    exact List.ne_nil_of_mem (hversions v hv)
  · obtain ⟨j, hj⟩ := List.mem_iff_getElem?.mp hg'
    obtain ⟨g, hj, _, hreads, _⟩ := hgenerations j g' hj
    obtain ⟨v, hv, hall⟩ := hs.oneVersion g (List.mem_of_getElem? hj)
    exact ⟨v, hversions v hv, hreads ▸ hall⟩

/-- Step lemma. -/
theorem Kept.step {a : Action T} (hs : Kept s) (hclear : Undisturbed s a)
    (h : WeightVersions.step s a = some t) : Kept t := by
  cases a with
  | request => exact hs.request h
  | acquire i => exact hs.acquire h
  | decode i => exact hs.decode hclear h
  | release i => exact hs.release h
  | start task => exact hs.start h
  | lock => exact hs.lock h
  | write => exact hs.write h
  | finish => exact hs.finish h

end

/-! ## Versions and whole tasks -/

/-- The model after the given tasks, one whole task after another. -/
def afterTasks (st : ModelState arch T) (tasks : List (WeightTask T)) : ModelState arch T :=
  tasks.foldl (fun st task => task.result st) st

/-- The model once the task in the worker's hands is done. -/
def Serving.settled (s : Serving arch T) : ModelState arch T :=
  match s.task with
  | none => s.model
  | some task => task.rest.foldl weightWrite s.model

/-- Only the worker writes, and it leaves no task halfway. -/
structure Whole (st : ModelState arch T) (s : Serving arch T) : Prop where
  settled : ∃ tasks, s.settled = afterTasks st tasks
  versions : ∀ v ∈ s.versions, ∃ tasks, v = weights (afterTasks st tasks)

theorem whole_initial (st : ModelState arch T) : Whole st (initial st) := by
  refine ⟨⟨[], rfl⟩, fun v hv => ⟨[], ?_⟩⟩
  exact List.mem_singleton.mp hv

theorem Whole.step {st : ModelState arch T} (s : Serving arch T) (a : Action T)
    (t : Serving arch T) (hs : Whole st s) (h : WeightVersions.step s a = some t) :
    Whole st t := by
  cases a with
  | request =>
    obtain rfl := Option.some.inj h
    exact ⟨hs.settled, hs.versions⟩
  | acquire i =>
    obtain ⟨_, _, _, _, rfl⟩ := acquire_some h
    exact ⟨hs.settled, hs.versions⟩
  | decode i =>
    obtain ⟨_, _, _, rfl⟩ := decode_some h
    exact ⟨hs.settled, hs.versions⟩
  | release i =>
    obtain ⟨_, _, _, rfl⟩ := release_some h
    exact ⟨hs.settled, hs.versions⟩
  | lock =>
    obtain ⟨_, rfl⟩ := lock_some h
    exact ⟨hs.settled, hs.versions⟩
  | start task =>
    obtain ⟨hidle, rfl⟩ := start_some h
    obtain ⟨tasks, htasks⟩ := hs.settled
    refine ⟨⟨tasks ++ [task], ?_⟩, hs.versions⟩
    have hmodel : s.model = afterTasks st tasks := by
      rw [← htasks, Serving.settled, hidle]
    calc (task.writes s.model).foldl weightWrite s.model
        = task.result s.model := task.foldl_writes s.model
      _ = afterTasks st (tasks ++ [task]) := by
          rw [hmodel, afterTasks, afterTasks, List.foldl_append]
          rfl
  | write =>
    obtain ⟨locked, started, w, rest, htask, _, rfl⟩ := write_some h
    obtain ⟨tasks, htasks⟩ := hs.settled
    rw [Serving.settled, htask] at htasks
    refine ⟨⟨tasks, htasks⟩, fun v hv => ?_⟩
    simp only at hv
    split at hv
    · rename_i hrest
      obtain rfl := List.isEmpty_iff.mp hrest
      rcases List.mem_append.mp hv with hv | hv
      · exact hs.versions v hv
      · refine ⟨tasks, ?_⟩
        rw [List.mem_singleton.mp hv, ← htasks]
        rfl
    · exact hs.versions v hv
  | finish =>
    obtain ⟨locked, started, htask, _, rfl⟩ := finish_some h
    obtain ⟨tasks, htasks⟩ := hs.settled
    rw [Serving.settled, htask] at htasks
    exact ⟨⟨tasks, htasks⟩, hs.versions⟩

/-- In every run the versions are the weights after whole tasks, as the operations of the
model state compute them. -/
theorem versions_whole {st : ModelState arch T} {actions : List (Action T)}
    {s : Serving arch T} (hrun : Runs.exec step (initial st) actions = some s) :
    ∀ v ∈ s.versions, ∃ tasks, v = weights (afterTasks st tasks) :=
  (Runs.exec_preserves Whole.step (whole_initial st) hrun).versions

/-! ## Train steps alone -/

/-- No task outside the lock has been started. -/
structure Calm (s : Serving arch T) : Prop where
  locked : ∀ task, s.task = some task → task.locked = true
  undisturbed : ∀ g ∈ s.generations, g.disturbed = false

omit [Torch T] in
theorem Calm.put {s : Serving arch T} (hs : Calm s) {i : Nat} {g g' : Generation T}
    (hi : s.generations[i]? = some g) (hg : g'.disturbed = g.disturbed)
    (modeLock : Option Holder) : Calm ({ s with modeLock }.put i g') := by
  refine ⟨hs.locked, fun other ho => ?_⟩
  rcases mem_put ho with ho | rfl
  · exact hs.undisturbed other ho
  · exact hg.trans (hs.undisturbed g (List.mem_of_getElem? hi))

theorem Calm.step {s t : Serving arch T} {a : Action T} (hs : Calm s)
    (htrain : ∀ task, a = .start task → task.locked = true)
    (h : WeightVersions.step s a = some t) : Calm t := by
  cases a with
  | request =>
    obtain rfl := Option.some.inj h
    refine ⟨hs.locked, fun g hg => ?_⟩
    rcases List.mem_append.mp hg with hg | hg
    · exact hs.undisturbed g hg
    · rw [List.mem_singleton.mp hg]
  | acquire i =>
    obtain ⟨g, hi, _, _, rfl⟩ := acquire_some h
    refine hs.put hi ?_ _
    rfl
  | decode i =>
    obtain ⟨g, hi, _, rfl⟩ := decode_some h
    refine hs.put hi ?_ s.modeLock
    rfl
  | release i =>
    obtain ⟨g, hi, _, rfl⟩ := release_some h
    refine hs.put hi ?_ _
    rfl
  | start task =>
    obtain ⟨_, rfl⟩ := start_some h
    refine ⟨fun task' htask => ?_, hs.undisturbed⟩
    rw [← Option.some.inj htask]
    exact htrain task rfl
  | lock =>
    obtain ⟨_, rfl⟩ := lock_some h
    exact ⟨hs.locked, hs.undisturbed⟩
  | write =>
    obtain ⟨locked, started, w, rest, htask, _, rfl⟩ := write_some h
    obtain rfl : locked = true := hs.locked _ htask
    refine ⟨fun task' htask' => ?_, hs.undisturbed⟩
    rw [← Option.some.inj htask']
  | finish =>
    obtain ⟨_, _, _, _, rfl⟩ := finish_some h
    exact ⟨by simp, hs.undisturbed⟩

omit [Torch T] in
theorem Calm.clear {s : Serving arch T} (hs : Calm s) (a : Action T) : Undisturbed s a := by
  cases a with
  | decode i =>
    refine ⟨fun task htask hl _ => ?_, fun g hg => hs.undisturbed g (List.mem_of_getElem? hg)⟩
    rw [hs.locked task htask] at hl
    cases hl
  | request | acquire | release | start | lock | write | finish => trivial

/-- Beside train steps alone, which take the lock, every generation sees one version. -/
theorem oneVersion_of_trains (st : ModelState arch T) {actions : List (Action T)}
    (h : ∀ a ∈ actions, ∀ task, a = .start task → task.locked = true) :
    Runs.Always step OneVersion (initial st) actions := by
  have hinit : Calm (initial st) := ⟨by simp [initial], by simp [initial]⟩
  exact Runs.always_of_meets (I := fun s => Kept s ∧ Calm s)
    (fun _ a _ hs htrain ht => ⟨hs.1.step (hs.2.clear a) ht, hs.2.step htrain ht⟩)
    (fun _ hs => hs.1.oneVersion) ⟨kept_initial st, hinit⟩ (Runs.meets_of_mem h (initial st))

/-! ## Every run -/

/-- **One version.** In a run whose decode steps are taken neither between two writes of a
task outside the lock nor after such a write since the generation's first step, every
generation reads the weights between two tasks, and only these. -/
theorem oneVersion_of_undisturbed (st : ModelState arch T) (actions : List (Action T))
    (h : Runs.Meets step Undisturbed (initial st) actions) :
    Runs.Always step OneVersion (initial st) actions :=
  Runs.always_of_meets (fun _ _ _ hs hclear ht => hs.step hclear ht)
    (fun _ hs => hs.oneVersion) (kept_initial st) h

/-- Two sites with the value one in every parameter. -/
def siteModel : ModelState ModelState.twoSites OneByOne :=
  ModelState.fresh ModelState.twoSites (fun _ => ⟨.float32, 1⟩) 1 1 "base"

/-- A merge between two generations, and a train step that waits for the second of them. -/
def apartRun : List (Action OneByOne) :=
  [.request, .acquire 0, .decode 0, .decode 0, .release 0,
    .start .merge, .write, .write, .write, .write, .write, .write, .write, .write, .finish,
    .request, .acquire 1, .decode 1,
    .start (.train [(.lora "a" .A "default", ⟨.float32, 2⟩)]), .decode 1, .release 1,
    .lock, .write, .finish]

theorem apartRun_oneVersion :
    (Runs.exec step (initial siteModel) apartRun).isSome = true ∧
      Runs.Always step OneVersion (initial siteModel) apartRun :=
  ⟨by decide +kernel, oneVersion_of_undisturbed siteModel apartRun (by decide +kernel)⟩

/-- A merge has zeroed one matrix and bound nothing when the generation goes on. -/
def mergeUnderGeneration : List (Action OneByOne) :=
  [.request, .acquire 0, .decode 0, .start .merge, .write, .write, .write, .decode 0]

theorem merge_splits_generation :
    ¬ ∀ (st : ModelState ModelState.twoSites OneByOne) (actions : List (Action OneByOne))
      (s : Serving ModelState.twoSites OneByOne),
      Runs.exec step (initial st) actions = some s → OneVersion s := by
  intro h
  exact absurd (h siteModel mergeUnderGeneration _ rfl) (by decide +kernel)

end Trainfer.WeightVersions
