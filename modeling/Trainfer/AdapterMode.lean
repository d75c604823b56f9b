import Trainfer.Lib.Runs

/-! Chats and train steps on one PEFT model. `disable_adapter()` flips a flag that
all threads share, and `generate_chat` takes `mode_lock` inside that region, while a
train step runs wholly under the lock. Every thread is a program counter over the
atomic actions on the flag, the lock and the model, and a run is any interleaving.
`isolated_of_regions_apart`: the weights are the intended ones in every run that keeps
base-only regions apart from the model runs they would disturb. -/

namespace Trainfer.AdapterMode

/-- What the model is run for. -/
inductive Forward
  | policy
  | reference
  | adapter
  | base
  deriving DecidableEq, Repr

/-- The adapter flag a run is meant to see. A reference run inside a train step is
left open. -/
def Forward.wants : Forward → Option Bool
  | .policy | .adapter => some true
  | .base => some false
  | .reference => none

/-- An objective runs the policy, or the reference under `model.disable_adapter()`. -/
inductive Segment
  | policy
  | reference
  deriving DecidableEq, Repr

/-- Where a thread stands. `base…` is a `use_adapter=False` request, `adapter…` a
`use_adapter=True` one, `train…` a `TrainEngine.step` with the segments still to run. -/
inductive Thread
  | baseStart
  | baseEntered
  | baseLocked
  | baseRan
  | baseReleased
  | adapterStart
  | adapterLocked
  | adapterRan
  | trainStart (segments : List Segment)
  | trainLocked (segments : List Segment)
  | trainDisabled (segments : List Segment)
  | trainReferenced (segments : List Segment)
  | finished
  deriving DecidableEq, Repr

inductive Instr
  | disableAdapter
  | enableAdapter
  | acquire
  | release
  | forward (f : Forward)
  deriving DecidableEq, Repr

/-- The next atomic action of a thread and where it stands after it. -/
def Thread.next : Thread → Option (Instr × Thread)
  -- `with model.disable_adapter(): return generate_chat(..., mode_lock=...)`
  | .baseStart => some (.disableAdapter, .baseEntered)
  | .baseEntered => some (.acquire, .baseLocked)
  | .baseLocked => some (.forward .base, .baseRan)
  | .baseRan => some (.release, .baseReleased)
  | .baseReleased => some (.enableAdapter, .finished)
  -- `return generate_chat(..., mode_lock=...)`
  | .adapterStart => some (.acquire, .adapterLocked)
  | .adapterLocked => some (.forward .adapter, .adapterRan)
  | .adapterRan => some (.release, .finished)
  -- `with self.state.mode_lock:` around the whole step
  | .trainStart segments => some (.acquire, .trainLocked segments)
  | .trainLocked [] => some (.release, .finished)
  | .trainLocked (.policy :: segments) => some (.forward .policy, .trainLocked segments)
  | .trainLocked (.reference :: segments) => some (.disableAdapter, .trainDisabled segments)
  | .trainDisabled segments => some (.forward .reference, .trainReferenced segments)
  | .trainReferenced segments => some (.enableAdapter, .trainLocked segments)
  | .finished => none

/-- An exception leaves the open `with` blocks from the inside out. -/
def Thread.raise : Thread → Option Thread
  | .baseEntered => some .baseReleased
  | .baseLocked => some .baseRan
  | .adapterStart => some .finished
  | .adapterLocked => some .adapterRan
  | .trainLocked _ => some (.trainLocked [])
  | .trainDisabled _ | .trainReferenced _ => some (.trainReferenced [])
  | _ => none

/-- The thread is inside `with mode_lock`. -/
def Thread.holds : Thread → Bool
  | .baseLocked | .baseRan | .adapterLocked | .adapterRan => true
  | .trainLocked _ | .trainDisabled _ | .trainReferenced _ => true
  | _ => false

/-- A base-only request between `disable_adapter().__enter__` and `__exit__`. -/
def Thread.inRegion : Thread → Bool
  | .baseEntered | .baseLocked | .baseRan | .baseReleased => true
  | _ => false

/-- A base-only request that has entered and not run yet. -/
def Thread.awaitsRun : Thread → Bool
  | .baseEntered | .baseLocked => true
  | _ => false

/-- A train step inside the `disable_adapter()` of a reference. -/
def Thread.inReference : Thread → Bool
  | .trainDisabled _ | .trainReferenced _ => true
  | _ => false

/-- The shared model; `log` records the flag each run saw. -/
structure State where
  threads : List Thread
  adapterOn : Bool
  modeLock : Option Nat
  log : List (Forward × Bool)
  deriving DecidableEq, Repr

def initial : State := ⟨[], true, none, []⟩

/-- What arrives: a chat, streamed or not, or a train task. -/
inductive Job
  | generate (useAdapter : Bool)
  | step (segments : List Segment)
  deriving DecidableEq, Repr

/-- `if not use_adapter and hasattr(model, "disable_adapter")`, on a PEFT model. -/
def Job.start : Job → Thread
  | .generate useAdapter => if !useAdapter then .baseStart else .adapterStart
  | .step segments => .trainStart segments

/-- The effect on the shared model. `mode_lock` is re-entrant, but no thread takes it twice. -/
def Instr.apply (s : State) (i : Nat) : Instr → Option State
  | .disableAdapter => some { s with adapterOn := false }
  | .enableAdapter => some { s with adapterOn := true }
  | .acquire => if s.modeLock = none then some { s with modeLock := some i } else none
  | .release => some { s with modeLock := none }
  | .forward f => some { s with log := s.log ++ [(f, s.adapterOn)] }

inductive Action
  | arrive (job : Job)
  | act (i : Nat)
  | raise (i : Nat)
  deriving DecidableEq, Repr

def State.put (s : State) (i : Nat) (thread : Thread) : State :=
  { s with threads := s.threads.set i thread }

def step (s : State) : Action → Option State
  | .arrive job => some { s with threads := s.threads ++ [job.start] }
  | .act i => do
    let thread ← s.threads[i]?
    let (instr, thread') ← thread.next
    let s' ← instr.apply s i
    return s'.put i thread'
  | .raise i => do
    let thread ← s.threads[i]?
    let thread' ← thread.raise
    return s.put i thread'

/-- Every run of the model saw the adapter flag it was meant to see. -/
def Isolated (s : State) : Prop :=
  ∀ e ∈ s.log, ∀ b, e.1.wants = some b → e.2 = b

instance : DecidablePred Isolated := fun s =>
  decidable_of_iff (∀ e ∈ s.log, e.1.wants.all (e.2 == ·) = true) <| by
    refine forall₂_congr fun e _ => ?_
    cases e.1.wants <;> simp

def State.nextInstr (s : State) (i : Nat) : Option Instr :=
  s.threads[i]?.bind fun thread => thread.next.map Prod.fst

/-- A policy or adapter run only while no base-only request is inside its region; an
enable only while no other base-only request has yet to run. -/
def RegionsApart (s : State) : Action → Prop
  | .act i =>
    (s.nextInstr i = some (.forward .policy) ∨ s.nextInstr i = some (.forward .adapter) →
      ∀ other ∈ s.threads, other.inRegion = false) ∧
    (s.nextInstr i = some .enableAdapter →
      ∀ j < s.threads.length, j ≠ i → s.threads[j]?.any Thread.awaitsRun = false)
  | .arrive _ | .raise _ => True

instance : ∀ s a, Decidable (RegionsApart s a)
  | _, .act _ => inferInstanceAs (Decidable (_ ∧ _))
  | _, .arrive _ | _, .raise _ => .isTrue trivial

/-! ## What one action of a thread does -/

theorem next_holds {thread thread' : Thread} {instr : Instr}
    (h : thread.next = some (instr, thread')) :
    (instr = .acquire ∧ thread'.holds = true) ∨
      (instr = .release ∧ thread.holds = true ∧ thread'.holds = false) ∨
      (instr ≠ .acquire ∧ instr ≠ .release ∧ thread'.holds = thread.holds) := by
  unfold Thread.next at h
  split at h <;> cases h <;> simp [Thread.holds]

/-- The flag is off on behalf of the thread. -/
def Thread.disables (thread : Thread) : Bool := thread.inRegion || thread.inReference

theorem next_disables {thread thread' : Thread} {instr : Instr}
    (h : thread.next = some (instr, thread')) :
    (instr = .disableAdapter ∧ thread'.disables = true) ∨ instr = .enableAdapter ∨
      (instr ≠ .disableAdapter ∧ instr ≠ .enableAdapter ∧
        thread'.disables = thread.disables) := by
  unfold Thread.next at h
  split at h <;> cases h <;> simp [Thread.disables, Thread.inRegion, Thread.inReference]

theorem next_awaitsRun {thread thread' : Thread} {instr : Instr}
    (h : thread.next = some (instr, thread')) (hw : thread'.awaitsRun = true) :
    instr = .disableAdapter ∨ (instr ≠ .enableAdapter ∧ thread.awaitsRun = true) := by
  unfold Thread.next at h
  split at h <;> cases h <;> simp_all [Thread.awaitsRun]

/-- A run that wants the adapter is taken under the lock and outside the thread's own
disable regions. -/
theorem next_wants_on {thread thread' : Thread} {f : Forward}
    (h : thread.next = some (.forward f, thread')) (hf : f.wants = some true) :
    thread.holds = true ∧ thread.inReference = false := by
  unfold Thread.next at h
  split at h <;> cases h <;> simp_all [Thread.holds, Thread.inReference, Forward.wants]

theorem next_wants_off {thread thread' : Thread} {f : Forward}
    (h : thread.next = some (.forward f, thread')) (hf : f.wants = some false) :
    thread.awaitsRun = true := by
  unfold Thread.next at h
  split at h <;> cases h <;> simp_all [Thread.awaitsRun, Forward.wants]

theorem inReference_holds {thread : Thread} (h : thread.inReference = true) :
    thread.holds = true := by
  cases thread <;> simp_all [Thread.inReference, Thread.holds]

theorem raise_keeps {thread thread' : Thread} (h : thread.raise = some thread') :
    thread'.holds = thread.holds ∧ thread'.disables = thread.disables ∧
      thread'.awaitsRun = false := by
  cases thread <;> cases h <;>
    simp [Thread.holds, Thread.disables, Thread.inRegion, Thread.inReference, Thread.awaitsRun]

theorem start_idle (job : Job) :
    job.start.holds = false ∧ job.start.disables = false ∧ job.start.awaitsRun = false := by
  cases job with
  | generate useAdapter => cases useAdapter <;> exact ⟨rfl, rfl, rfl⟩
  | step segments => exact ⟨rfl, rfl, rfl⟩

/-! ## Inversion of a step -/

theorem act_some {s t : State} {i : Nat} (h : step s (.act i) = some t) :
    ∃ thread instr thread' s', s.threads[i]? = some thread ∧
      thread.next = some (instr, thread') ∧ instr.apply s i = some s' ∧ t = s'.put i thread' := by
  simp only [step, Option.bind_eq_bind, Option.bind_eq_some_iff, Option.pure_def,
    Option.some.injEq] at h
  obtain ⟨thread, hi, ⟨instr, thread'⟩, hn, s', ha, ht⟩ := h
  exact ⟨thread, instr, thread', s', hi, hn, ha, ht.symm⟩

theorem raise_some {s t : State} {i : Nat} (h : step s (.raise i) = some t) :
    ∃ thread thread', s.threads[i]? = some thread ∧ thread.raise = some thread' ∧
      t = s.put i thread' := by
  simp only [step, Option.bind_eq_bind, Option.bind_eq_some_iff, Option.pure_def,
    Option.some.injEq] at h
  obtain ⟨thread, hi, thread', hr, ht⟩ := h
  exact ⟨thread, thread', hi, hr, ht.symm⟩

theorem apply_threads {s s' : State} {i : Nat} {instr : Instr} (h : instr.apply s i = some s') :
    s'.threads = s.threads := by
  cases instr with
  | acquire =>
    simp only [Instr.apply, Option.ite_none_right_eq_some, Option.some.injEq] at h
    rw [← h.2]
  | disableAdapter | enableAdapter | release | forward => rw [← Option.some.inj h]

theorem apply_acquire {s s' : State} {i : Nat} (h : Instr.acquire.apply s i = some s') :
    s.modeLock = none ∧ s' = { s with modeLock := some i } := by
  simp only [Instr.apply, Option.ite_none_right_eq_some, Option.some.injEq] at h
  exact ⟨h.1, h.2.symm⟩

theorem apply_modeLock {s s' : State} {i : Nat} {instr : Instr} (h : instr.apply s i = some s')
    (ha : instr ≠ .acquire) (hr : instr ≠ .release) : s'.modeLock = s.modeLock := by
  cases instr with
  | acquire => exact absurd rfl ha
  | release => exact absurd rfl hr
  | disableAdapter | enableAdapter | forward => rw [← Option.some.inj h]

theorem apply_adapterOn {s s' : State} {i : Nat} {instr : Instr} (h : instr.apply s i = some s')
    (hd : instr ≠ .disableAdapter) (he : instr ≠ .enableAdapter) :
    s'.adapterOn = s.adapterOn := by
  cases instr with
  | disableAdapter => exact absurd rfl hd
  | enableAdapter => exact absurd rfl he
  | acquire => rw [(apply_acquire h).2]
  | release | forward => rw [← Option.some.inj h]

theorem put_threads_self {s : State} {i : Nat} {thread thread' : Thread}
    (hi : s.threads[i]? = some thread) : (s.put i thread').threads[i]? = some thread' := by
  have hlt : i < s.threads.length := (List.getElem?_eq_some_iff.mp hi).1
  simp [State.put, hlt]

theorem put_threads_ne {s : State} {i j : Nat} {thread' : Thread} (hij : j ≠ i) :
    (s.put i thread').threads[j]? = s.threads[j]? := by
  simp [State.put, List.getElem?_set_ne hij.symm]

/-- A thread of the new list is the one put there, or it is elsewhere and unchanged. -/
theorem threads_of_put {s : State} {i j : Nat} {thread' other : Thread}
    (h : (s.put i thread').threads[j]? = some other) :
    (j = i ∧ other = thread') ∨ (j ≠ i ∧ s.threads[j]? = some other) := by
  by_cases hji : j = i
  · subst hji
    have hlt : j < s.threads.length := by
      simpa [State.put] using (List.getElem?_eq_some_iff.mp h).1
    rw [State.put, List.getElem?_set_self hlt] at h
    exact .inl ⟨rfl, (Option.some.inj h).symm⟩
  · exact .inr ⟨hji, (put_threads_ne hji).symm.trans h⟩

theorem nextInstr_of_next {s : State} {i : Nat} {thread thread' : Thread} {instr : Instr}
    (hi : s.threads[i]? = some thread) (hn : thread.next = some (instr, thread')) :
    s.nextInstr i = some instr := by
  simp [State.nextInstr, hi, hn]

/-! ## The invariant -/

/-- Only the lock's holder is inside it. -/
def Locked (s : State) : Prop :=
  ∀ (i : Nat) (thread : Thread), s.threads[i]? = some thread → thread.holds = true →
    s.modeLock = some i

/-- A base-only request that has yet to run finds the adapter off. -/
def Awaited (s : State) : Prop :=
  ∀ (i : Nat) (thread : Thread), s.threads[i]? = some thread → thread.awaitsRun = true →
    s.adapterOn = false

/-- The adapter is off only on behalf of some thread. -/
def OffOnBehalf (s : State) : Prop :=
  s.adapterOn = false → ∃ (i : Nat) (thread : Thread),
    s.threads[i]? = some thread ∧ thread.disables = true

structure Settled (s : State) : Prop where
  locked : Locked s
  awaited : Awaited s
  off : OffOnBehalf s
  isolated : Isolated s

theorem Locked.act {s t : State} {i : Nat} (hs : Locked s) (h : step s (.act i) = some t) :
    Locked t := by
  obtain ⟨thread, instr, thread', s', hi, hn, ha, rfl⟩ := act_some h
  have hthreads := apply_threads ha
  intro j other hj hh
  rcases threads_of_put hj with ⟨rfl, rfl⟩ | ⟨hji, hj⟩
  · -- the thread that moved
    rcases next_holds hn with ⟨rfl, _⟩ | ⟨_, _, hfree⟩ | ⟨hacq, hrel, hsame⟩
    · rw [(apply_acquire ha).2]
      rfl
    · rw [hfree] at hh
      contradiction
    · have hlock : s'.modeLock = s.modeLock := apply_modeLock ha hacq hrel
      exact hlock.trans (hs j thread hi (hsame ▸ hh))
  · -- another thread inside the lock leaves no room for an acquire or a release
    rw [hthreads] at hj
    have hheld : s.modeLock = some j := hs j other hj hh
    rcases next_holds hn with ⟨rfl, _⟩ | ⟨_, hholds, _⟩ | ⟨hacq, hrel, _⟩
    · rw [(apply_acquire ha).1] at hheld
      contradiction
    · have hmine : s.modeLock = some i := hs i thread hi hholds
      exact absurd (Option.some.inj (hheld.symm.trans hmine)) hji
    · exact (apply_modeLock ha hacq hrel).trans hheld

theorem Awaited.act {s t : State} {i : Nat} (hs : Awaited s) (hg : RegionsApart s (.act i))
    (h : step s (.act i) = some t) : Awaited t := by
  obtain ⟨thread, instr, thread', s', hi, hn, ha, rfl⟩ := act_some h
  have hthreads := apply_threads ha
  intro j other hj hw
  have hoff : instr = .disableAdapter → s'.adapterOn = false := by
    rintro rfl
    rw [← Option.some.inj ha]
  by_cases hd : instr = .disableAdapter
  · exact hoff hd
  rcases threads_of_put hj with ⟨rfl, rfl⟩ | ⟨hji, hj⟩
  · rcases next_awaitsRun hn hw with hd' | ⟨he, hw'⟩
    · exact absurd hd' hd
    · exact (apply_adapterOn ha hd he).trans (hs j thread hi hw')
  · rw [hthreads] at hj
    have he : instr ≠ .enableAdapter := by
      rintro rfl
      have hlt : j < s.threads.length := (List.getElem?_eq_some_iff.mp hj).1
      have hran := hg.2 (nextInstr_of_next hi hn) j hlt hji
      simp [hj, hw] at hran
    exact (apply_adapterOn ha hd he).trans (hs j other hj hw)

theorem OffOnBehalf.act {s t : State} {i : Nat} (hs : OffOnBehalf s)
    (h : step s (.act i) = some t) : OffOnBehalf t := by
  obtain ⟨thread, instr, thread', s', hi, hn, ha, rfl⟩ := act_some h
  have hthreads := apply_threads ha
  have hself : (s'.put i thread').threads[i]? = some thread' :=
    put_threads_self (by rw [hthreads, hi])
  intro hfalse
  rcases next_disables hn with ⟨_, hdis⟩ | rfl | ⟨hd, he, hsame⟩
  · exact ⟨i, thread', hself, hdis⟩
  · rw [← Option.some.inj ha] at hfalse
    contradiction
  · obtain ⟨j, other, hj, hdis⟩ := hs ((apply_adapterOn ha hd he).symm.trans hfalse)
    by_cases hji : j = i
    · subst hji
      obtain rfl := Option.some.inj (hi.symm.trans hj)
      exact ⟨j, thread', hself, hsame.trans hdis⟩
    · exact ⟨j, other, by rw [put_threads_ne hji, hthreads, hj], hdis⟩

/-- Outside the base-only regions and under the lock, the adapter is on. -/
theorem adapterOn_of_locked {s : State} {i : Nat} {thread : Thread} (hl : Locked s)
    (ho : OffOnBehalf s) (hi : s.threads[i]? = some thread) (hholds : thread.holds = true)
    (href : thread.inReference = false) (hapart : ∀ other ∈ s.threads, other.inRegion = false) :
    s.adapterOn = true := by
  apply eq_true_of_ne_false
  intro hoff
  obtain ⟨j, other, hj, hdis⟩ := ho hoff
  have hregion : other.inRegion = false := hapart other (List.mem_of_getElem? hj)
  have hother : other.inReference = true := by simpa [Thread.disables, hregion] using hdis
  -- the train step inside its reference holds the lock, and so does the running thread
  have hlock : s.modeLock = some j := hl j other hj (inReference_holds hother)
  obtain rfl := Option.some.inj (hlock.symm.trans (hl i thread hi hholds))
  obtain rfl := Option.some.inj (hi.symm.trans hj)
  rw [href] at hother
  contradiction

theorem Settled.act {s t : State} {i : Nat} (hs : Settled s) (hg : RegionsApart s (.act i))
    (h : step s (.act i) = some t) : Settled t := by
  refine ⟨hs.locked.act h, hs.awaited.act hg h, hs.off.act h, ?_⟩
  obtain ⟨thread, instr, thread', s', hi, hn, ha, rfl⟩ := act_some h
  cases instr with
  | forward f =>
    rw [← Option.some.inj ha]
    intro e he b hb
    rcases List.mem_append.mp he with he | he
    · exact hs.isolated e he b hb
    · obtain rfl := List.mem_singleton.mp he
      cases b with
      | true =>
        obtain ⟨hholds, href⟩ := next_wants_on hn hb
        have hinstr := nextInstr_of_next hi hn
        have hapart : ∀ other ∈ s.threads, other.inRegion = false := by
          cases f with
          | policy => exact hg.1 (.inl hinstr)
          | adapter => exact hg.1 (.inr hinstr)
          | reference | base => cases hb
        exact adapterOn_of_locked hs.locked hs.off hi hholds href hapart
      | false => exact hs.awaited i thread hi (next_wants_off hn hb)
  | acquire =>
    rw [(apply_acquire ha).2]
    exact hs.isolated
  | disableAdapter | enableAdapter | release =>
    rw [← Option.some.inj ha]
    exact hs.isolated

theorem Settled.raise {s t : State} {i : Nat} (hs : Settled s)
    (h : step s (.raise i) = some t) : Settled t := by
  obtain ⟨thread, thread', hi, hr, rfl⟩ := raise_some h
  obtain ⟨hholds, hdis, hwaits⟩ := raise_keeps hr
  refine ⟨fun j other hj hh => ?_, fun j other hj hw => ?_, fun hoff => ?_, hs.isolated⟩
  · rcases threads_of_put hj with ⟨rfl, rfl⟩ | ⟨_, hj⟩
    · exact hs.locked j thread hi (hholds ▸ hh)
    · exact hs.locked j other hj hh
  · rcases threads_of_put hj with ⟨rfl, rfl⟩ | ⟨_, hj⟩
    · rw [hwaits] at hw
      contradiction
    · exact hs.awaited j other hj hw
  · obtain ⟨j, other, hj, hd⟩ := hs.off hoff
    by_cases hji : j = i
    · subst hji
      obtain rfl := Option.some.inj (hi.symm.trans hj)
      exact ⟨j, thread', put_threads_self hi, hdis.trans hd⟩
    · exact ⟨j, other, (put_threads_ne hji).trans hj, hd⟩

theorem getElem?_append_one {threads : List Thread} {thread other : Thread} {j : Nat}
    (h : (threads ++ [thread])[j]? = some other) :
    threads[j]? = some other ∨ other = thread := by
  rcases Nat.lt_or_ge j threads.length with hlt | hge
  · exact .inl (by rwa [List.getElem?_append_left hlt] at h)
  · rw [List.getElem?_append_right hge] at h
    exact .inr (List.mem_singleton.mp (List.mem_of_getElem? h))

theorem Settled.arrive {s t : State} {job : Job} (hs : Settled s)
    (h : step s (.arrive job) = some t) : Settled t := by
  obtain rfl := Option.some.inj h
  obtain ⟨hholds, hdis, hwaits⟩ := start_idle job
  refine ⟨fun j other hj hh => ?_, fun j other hj hw => ?_, fun hoff => ?_, hs.isolated⟩
  · rcases getElem?_append_one hj with hj | rfl
    · exact hs.locked j other hj hh
    · rw [hholds] at hh
      contradiction
  · rcases getElem?_append_one hj with hj | rfl
    · exact hs.awaited j other hj hw
    · rw [hwaits] at hw
      contradiction
  · obtain ⟨j, other, hj, hd⟩ := hs.off hoff
    have hlt : j < s.threads.length := (List.getElem?_eq_some_iff.mp hj).1
    exact ⟨j, other, (List.getElem?_append_left hlt).trans hj, hd⟩

theorem Settled.step {s t : State} {a : Action} (hs : Settled s) (hg : RegionsApart s a)
    (h : step s a = some t) : Settled t := by
  cases a with
  | arrive job => exact hs.arrive h
  | act i => exact hs.act hg h
  | raise i => exact hs.raise h

theorem settled_initial : Settled initial :=
  ⟨by simp [Locked, initial], by simp [Awaited, initial], by simp [OffOnBehalf, initial],
    by simp [Isolated, initial]⟩

/-- A policy or adapter run beside a base-only request that has yet to run is a wrong one. -/
theorem not_isolated_of_awaited {s t : State} {i j : Nat} {other : Thread} {f : Forward}
    (hs : Settled s) (hj : s.threads[j]? = some other) (hw : other.awaitsRun = true)
    (hi : s.nextInstr i = some (.forward f)) (hf : f.wants = some true)
    (h : AdapterMode.step s (.act i) = some t) : ¬ Isolated t := by
  have hoff : s.adapterOn = false := hs.awaited j other hj hw
  obtain ⟨thread, instr, thread', s', hthread, hn, ha, rfl⟩ := act_some h
  have hinstr : instr = .forward f :=
    Option.some.inj ((nextInstr_of_next hthread hn).symm.trans hi)
  subst hinstr
  rw [← Option.some.inj ha]
  intro hisolated
  have hon : s.adapterOn = true := hisolated (f, s.adapterOn) (by simp [State.put]) true hf
  rw [hoff] at hon
  contradiction

/-- **Adapter isolation.** In a run whose every step keeps the base-only regions apart
from the runs they would disturb, each run of the model sees the adapter flag it is meant
to see. -/
theorem isolated_of_regions_apart {actions : List Action}
    (h : Runs.Meets step RegionsApart initial actions) :
    Runs.Always step Isolated initial actions :=
  Runs.always_of_meets (fun _ _ _ hs hg ht => hs.step hg ht) (fun _ hs => hs.isolated)
    settled_initial h

/-- A base-only chat between two runs of a train step with a reference, then a chat with
the adapter. -/
def apartRun : List Action :=
  [.arrive (.generate false), .arrive (.step [.policy, .reference, .policy]),
    .act 0, .act 0, .act 0, .act 0, .act 0,
    .act 1, .act 1, .act 1, .act 1, .act 1, .act 1, .act 1,
    .arrive (.generate true), .act 2, .act 2, .act 2]

theorem apartRun_isolated : Runs.Always step Isolated initial apartRun :=
  isolated_of_regions_apart (by decide)

/-- A base-only chat has entered its region when a train step takes the lock. -/
def overlapRun : List Action :=
  [.arrive (.generate false), .arrive (.step [.policy]), .act 0, .act 1, .act 1]

/-- The policy forward of that step runs with the adapter off. -/
theorem overlap_trains_without_adapter :
    ¬ ∀ (actions : List Action) (t : State),
      Runs.exec step initial actions = some t → Isolated t := by
  intro h
  exact absurd (h overlapRun _ rfl) (by decide)

end Trainfer.AdapterMode
