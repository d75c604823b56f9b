import Trainfer.CommitStream
import Trainfer.DrainResolves

/-! The commit stream of a running daemon: the broadcaster, the queue whose handler feeds it,
and the shutdown.

The handler is synchronous and runs in the worker, which goes on into its `finally` block and
advances the cursor there. The block starts with `async with self._cursor_advanced`, which
suspends only when somebody holds the lock; nobody holds it over an `await`, so the end of the
handler and the block are one step. -/

namespace Trainfer.DaemonStream

open ComputeQueue (QueueTask Outcome)
open CommitStream (Commit Event CommitBroadcaster commits)

universe u v
variable {π : Type u} {ρ : Type v}

structure State (π : Type u) (ρ : Type v) where
  drain : GracefulDrain.State π ρ
  commits : CommitBroadcaster
  shuttingDown : Bool
  /-- How many commits had been broadcast when the sentinel was. -/
  sentinelAt : Option Nat

def init (maxDepth : Int) (enabled : Bool) : State π ρ where
  drain := GracefulDrain.init maxDepth
  commits := CommitBroadcaster.init enabled
  shuttingDown := false
  sentinelAt := none

def State.committed (s : State π ρ) : Int := s.drain.queue.committed

/-- The end of `_handle_task`: a train step that has gone through is broadcast. `info` are the
other fields of the event, from the payload and the result. -/
def announce (info : QueueTask π → ρ → Commit) (s : State π ρ) (o : Outcome ρ) :
    CommitBroadcaster :=
  match s.drain.queue.worker, o with
  | .running task, .returned r =>
    if task.kind = "train" then
      s.commits.broadcastCommit { info task r with cursor := task.token }
    else s.commits
  | _, _ => s.commits

/-- The handler ends, and the `finally` block follows. -/
def handlerEnds (info : QueueTask π → ρ → Commit) (s : State π ρ) (o : Outcome ρ) :
    Option (State π ρ) := do
  let drain ← GracefulDrain.step s.drain (.queue (.workerFinish o))
  let drain ← GracefulDrain.step drain (.queue .workerCommit)
  return { s with drain, commits := announce info s o }

inductive Label (π : Type u) (ρ : Type v) where
  /-- Anything else that happens to the queue. -/
  | queue (a : ComputeQueue.Action π ρ)
  | handlerEnds (o : Outcome ρ)
  /-- `graceful_shutdown` up to its first suspension. -/
  | shutdown
  /-- `graceful_drain`, which `graceful_shutdown` calls. -/
  | drain (a : GracefulDrain.Label π ρ)
  | subscribe (maxsize : Int)
  | unsubscribe (i : Nat)
  | get (i : Nat)

/-- The end of a handler and the `finally` block are labels of their own. -/
def ofWorker : ComputeQueue.Action π ρ → Bool
  | .workerFinish _ | .workerCommit => true
  | _ => false

def ofQueue : GracefulDrain.Label π ρ → Bool
  | .queue _ => true
  | _ => false

/-- The generator has seen the sentinel and returned. -/
def closed (s : State π ρ) (i : Nat) : Bool :=
  match s.commits.subscribers[i]? with
  | none => false
  | some sub => sub.received.any fun
    | .shutdown => true
    | .commit .. => false

def step (info : QueueTask π → ρ → Commit) (s : State π ρ) : Label π ρ → Option (State π ρ)
  | .queue a =>
    if ofWorker a then none
    else (GracefulDrain.step s.drain (.queue a)).map fun drain => { s with drain }
  | .handlerEnds o => handlerEnds info s o
  | .shutdown =>
    -- `already_shut_down`
    if s.shuttingDown then some s
    else some { s with
      shuttingDown := true
      commits := s.commits.broadcastShutdown
      sentinelAt := some s.commits.broadcasts }
  | .drain a =>
    if ofQueue a || !s.shuttingDown then none
    else (GracefulDrain.step s.drain a).map fun drain => { s with drain }
  | .subscribe maxsize =>
    -- the endpoint of a disabled stream does not subscribe
    if s.commits.enabled then some { s with commits := s.commits.subscribe maxsize } else none
  | .unsubscribe i => some { s with commits := s.commits.unsubscribe i }
  | .get i =>
    if closed s i then none
    else (s.commits.get i).map fun r => { s with commits := r.2 }

/-! ## Inversion -/

/-- What a step does to the queue, to the broadcaster and to the shutdown. -/
inductive Stepped (info : QueueTask π → ρ → Commit) (s : State π ρ) :
    Label π ρ → State π ρ → Prop
  | drained {a l drain} (h : GracefulDrain.step s.drain l = some drain)
      (hl : ∀ o, l ≠ .queue (.workerFinish o)) : Stepped info s a { s with drain }
  | handled {o drain drain'}
      (h : GracefulDrain.step s.drain (.queue (.workerFinish o)) = some drain)
      (h' : GracefulDrain.step drain (.queue .workerCommit) = some drain') :
      Stepped info s (.handlerEnds o)
        { s with drain := drain', commits := announce info s o }
  | again (h : s.shuttingDown = true) : Stepped info s .shutdown s
  | shutdown (h : s.shuttingDown = false) : Stepped info s .shutdown
      { s with
        shuttingDown := true
        commits := s.commits.broadcastShutdown
        sentinelAt := some s.commits.broadcasts }
  | client {a b commits} (hb : ∀ c, b ≠ .broadcastCommit c) (hs : b ≠ .broadcastShutdown)
      (henabled : ∀ maxsize, b = .subscribe maxsize → s.commits.enabled = true)
      (h : s.commits.step b = some commits) : Stepped info s a { s with commits }

theorem handlerEnds_some {info : QueueTask π → ρ → Commit} {s t : State π ρ} {o : Outcome ρ}
    (h : handlerEnds info s o = some t) :
    ∃ drain drain', GracefulDrain.step s.drain (.queue (.workerFinish o)) = some drain ∧
      GracefulDrain.step drain (.queue .workerCommit) = some drain' ∧
      t = { s with drain := drain', commits := announce info s o } := by
  simp only [handlerEnds, Option.bind_eq_bind, Option.bind_eq_some_iff] at h
  obtain ⟨drain, hfinish, drain', hcommit, h⟩ := h
  exact ⟨drain, drain', hfinish, hcommit, (Option.some.inj h).symm⟩

/-- **Inversion of a step.** -/
theorem stepped {info : QueueTask π → ρ → Commit} {s t : State π ρ} {a : Label π ρ}
    (h : step info s a = some t) : Stepped info s a t := by
  cases a with
  | queue a =>
    simp only [step] at h
    split at h
    · cases h
    · rename_i hw
      obtain ⟨drain, hdrain, rfl⟩ := Option.map_eq_some_iff.mp h
      refine .drained hdrain ?_
      rintro o ⟨⟩
      simp [ofWorker] at hw
  | handlerEnds o =>
    obtain ⟨drain, drain', hfinish, hcommit, rfl⟩ := handlerEnds_some h
    exact .handled hfinish hcommit
  | shutdown =>
    simp only [step] at h
    split at h
    · rename_i hdown
      obtain rfl := Option.some.inj h
      exact .again hdown
    · rename_i hdown
      obtain rfl := Option.some.inj h
      exact .shutdown (by simpa using hdown)
  | drain a =>
    simp only [step] at h
    split at h
    · cases h
    · rename_i hguard
      obtain ⟨drain, hdrain, rfl⟩ := Option.map_eq_some_iff.mp h
      refine .drained hdrain ?_
      rintro o rfl
      simp [ofQueue] at hguard
  | subscribe maxsize =>
    simp only [step] at h
    split at h
    · rename_i henabled
      obtain rfl := Option.some.inj h
      exact @Stepped.client _ _ _ _ _ (.subscribe maxsize) _ (by simp) (by simp)
        (fun _ _ => henabled) rfl
    · cases h
  | unsubscribe i =>
    obtain rfl := Option.some.inj h
    exact @Stepped.client _ _ _ _ _ (.unsubscribe i) _ (by simp) (by simp) (by simp) rfl
  | get i =>
    simp only [step] at h
    split at h
    · cases h
    · obtain ⟨r, hr, rfl⟩ := Option.map_eq_some_iff.mp h
      refine @Stepped.client _ _ _ _ _ (.get i) _ (by simp) (by simp) (by simp) ?_
      simp [CommitBroadcaster.step, hr]

/-! ## The cursor -/

theorem committed_le_reapLoop (ps : List (QueueTask π)) (q : ComputeQueue.State π ρ) (n : Nat) :
    q.completedToken ≤ (GracefulDrain.reapLoop q n ps).2.completedToken := by
  induction ps generalizing q n with
  | nil => exact le_refl _
  | cons x ps ih =>
    unfold GracefulDrain.reapLoop
    split
    · exact ih q n
    · exact le_trans (le_max_left _ _) (ih (GracefulDrain.dropTask q x) (n + 1))

theorem committed_le_drain {s t : GracefulDrain.State π ρ} {l : GracefulDrain.Label π ρ}
    (h : GracefulDrain.step s l = some t) : s.queue.committed ≤ t.queue.committed := by
  cases GracefulDrain.moved h with
  | queue hqueue => exact ComputeQueue.committed_le_step hqueue
  | flags => exact le_refl _
  | reaped => exact committed_le_reapLoop _ _ 0

/-- Every commit that was put into a queue is covered by the cursor. -/
def Covered (s : State π ρ) : Prop :=
  ∀ sub ∈ s.commits.subscribers, ∀ number c, .commit number c ∈ sub.stream →
    c.cursor ≤ s.committed

theorem announce_eq (info : QueueTask π → ρ → Commit) (s : State π ρ) (o : Outcome ρ) :
    announce info s o = s.commits ∨ ∃ task r, s.drain.queue.worker = .running task ∧
      o = .returned r ∧ task.kind = "train" ∧
      announce info s o = s.commits.broadcastCommit { info task r with cursor := task.token } := by
  unfold announce
  split
  · rename_i task r hw
    split
    · rename_i hkind
      exact .inr ⟨task, r, hw, rfl, hkind, rfl⟩
    · exact .inl rfl
  · exact .inl rfl

theorem finish_some {s t : GracefulDrain.State π ρ} {o : Outcome ρ}
    (h : GracefulDrain.step s (.queue (.workerFinish o)) = some t) :
    ∃ task, s.queue.worker = .running task ∧ t.queue.worker = .finishing task o := by
  obtain ⟨q, hq, rfl⟩ := Option.map_eq_some_iff.mp h
  obtain ⟨task, hw, rfl⟩ := ComputeQueue.workerFinish_some hq
  exact ⟨task, hw, rfl⟩

theorem commit_some {s t : GracefulDrain.State π ρ}
    (h : GracefulDrain.step s (.queue .workerCommit) = some t) :
    ∃ task o, s.queue.worker = .finishing task o ∧
      t.queue.committed = max s.queue.committed task.token := by
  simp only [GracefulDrain.step, Option.map_eq_some_iff] at h
  obtain ⟨q, hq, rfl⟩ := h
  obtain ⟨task, o, hw, rfl⟩ := ComputeQueue.workerCommit_some hq
  exact ⟨task, o, hw, rfl⟩

/-- The cursor after the `finally` block covers the task. -/
theorem committed_handled {s drain drain' : GracefulDrain.State π ρ} {o : Outcome ρ}
    {task : QueueTask π} (hw : s.queue.worker = .running task)
    (h : GracefulDrain.step s (.queue (.workerFinish o)) = some drain)
    (h' : GracefulDrain.step drain (.queue .workerCommit) = some drain') :
    task.token ≤ drain'.queue.committed := by
  obtain ⟨task', hw', hfinishing⟩ := finish_some h
  obtain rfl := ComputeQueue.Worker.running.inj (hw.symm.trans hw')
  obtain ⟨task', o', hw', hcursor⟩ := commit_some h'
  obtain ⟨rfl, -⟩ := ComputeQueue.Worker.finishing.inj (hfinishing.symm.trans hw')
  rw [hcursor]
  exact le_max_right _ _

theorem covered_init (maxDepth : Int) (enabled : Bool) :
    Covered (init maxDepth enabled : State π ρ) := by
  simp [Covered, init, CommitBroadcaster.init]

/-- Nothing is put into the queues, or only what the cursor covers. -/
theorem covered_commits {s : State π ρ} (h : Covered s) {b : CommitBroadcaster.Action}
    {commits : CommitBroadcaster} (hb : s.commits.step b = some commits) {k : Int}
    (hk : s.committed ≤ k) (hnew : ∀ c, b = .broadcastCommit c → c.cursor ≤ k) :
    ∀ sub ∈ commits.subscribers, ∀ number c, .commit number c ∈ sub.stream → c.cursor ≤ k := by
  intro sub' hsub' number c hc
  rcases CommitStream.stream_step hb hsub' with hnil | ⟨sub, hsub, hsame | ⟨c', rfl, hput⟩ |
    ⟨-, hput⟩⟩
  · simp [hnil] at hc
  · exact le_trans (h sub hsub number c (hsame ▸ hc)) hk
  · rw [hput] at hc
    rcases List.mem_append.mp hc with hc | hc
    · exact le_trans (h sub hsub number c hc) hk
    · obtain ⟨-, rfl⟩ := Event.commit.inj (List.mem_singleton.mp hc)
      exact hnew c rfl
  · rw [hput] at hc
    rcases List.mem_append.mp hc with hc | hc
    · exact le_trans (h sub hsub number c hc) hk
    · cases List.mem_singleton.mp hc

theorem covered_step (info : QueueTask π → ρ → Commit) (s : State π ρ) (a : Label π ρ)
    (t : State π ρ) (h : Covered s) (hstep : step info s a = some t) : Covered t := by
  cases stepped hstep with
  | drained hdrain =>
    exact fun sub hsub number c hc =>
      le_trans (h sub hsub number c hc) (committed_le_drain hdrain)
  | @handled o drain drain' hfinish hcommit =>
    have hle : s.committed ≤ drain'.queue.committed :=
      le_trans (committed_le_drain hfinish) (committed_le_drain hcommit)
    rcases announce_eq info s o with heq | ⟨task, r, hw, -, -, heq⟩
    · exact fun sub hsub number c hc => le_trans (h sub (heq ▸ hsub) number c hc) hle
    · refine covered_commits h (b := .broadcastCommit { info task r with cursor := task.token })
        (congrArg some heq.symm) hle ?_
      rintro c hc
      obtain rfl := CommitBroadcaster.Action.broadcastCommit.inj hc
      exact committed_handled hw hfinish hcommit
  | again => exact h
  | shutdown =>
    exact covered_commits h (b := .broadcastShutdown) rfl (le_refl _) (by simp)
  | client hb hs _ hcommits =>
    exact covered_commits h hcommits (le_refl _) fun c hc => absurd hc (hb c)

/-- **The commit stream.** Whatever the interleaving, the subscribers are those of the run, each
was offered what the run has broadcast while it was subscribed, has received what the run's gets
have returned, and has lost what has found its queue full. What it has received or still holds
is a subsequence of what it was offered, the rest is what it has lost and `drops` counts, and a
broadcast goes through at once. In the daemon, a consumer that gets an event finds the cursor at
or past it. -/
theorem commit_stream_law :
    (∀ (enabled : Bool) (actions : List CommitBroadcaster.Action) (b : CommitBroadcaster),
      Runs.exec CommitBroadcaster.step (CommitBroadcaster.init enabled) actions = some b →
        CommitStream.Told enabled actions b ∧ CommitStream.Balanced b ∧
          ∀ c, ∃ b', b.step (.broadcastCommit c) = some b') ∧
    (∀ (π : Type u) (ρ : Type v) (info : QueueTask π → ρ → Commit) (maxDepth : Int)
      (enabled : Bool) (labels : List (Label π ρ)) (s : State π ρ) (i number : Nat) (c : Commit)
      (b' : CommitBroadcaster),
      Runs.exec (step info) (init maxDepth enabled) labels = some s →
      s.commits.get i = some (.commit number c, b') → c.cursor ≤ s.committed) := by
  constructor
  · exact fun enabled actions b hrun =>
      ⟨CommitStream.told_run hrun, CommitStream.balanced_run hrun, fun c => ⟨_, rfl⟩⟩
  · intro π ρ info maxDepth enabled labels s i number c b' hrun hget
    have hcovered : Covered s :=
      Runs.exec_preserves (covered_step info) (covered_init maxDepth enabled) hrun
    obtain ⟨sub, queue, hi, hq, -⟩ := CommitStream.get_some hget
    refine hcovered sub (List.mem_of_getElem? hi) number c ?_
    rw [CommitStream.Subscriber.stream, (AsyncQueue.getNowait_some hq).1]
    exact List.mem_append_right _ List.mem_cons_self

/-! ## The shutdown -/

/-- The commits of the queue's own steps, one at most. -/
theorem commits_step {info : QueueTask π → ρ → Commit} {s t : State π ρ} {a : Label π ρ}
    (h : step info s a = some t) :
    t.commits = s.commits ∧ t.sentinelAt = s.sentinelAt ∧ t.shuttingDown = s.shuttingDown ∨
      ∃ b, s.commits.step b = some t.commits ∧
        (∀ maxsize, b = .subscribe maxsize → s.commits.enabled = true) ∧
        (b ≠ .broadcastShutdown ∧ t.sentinelAt = s.sentinelAt ∧ t.shuttingDown = s.shuttingDown ∨
          b = .broadcastShutdown ∧ s.shuttingDown = false ∧ t.shuttingDown = true ∧
            t.sentinelAt = some s.commits.broadcasts) := by
  cases stepped h with
  | drained => exact .inl ⟨rfl, rfl, rfl⟩
  | handled =>
    rename_i o drain drain' _ _
    rcases announce_eq info s o with heq | ⟨task, r, -, -, -, heq⟩
    · exact .inl ⟨heq, rfl, rfl⟩
    · refine .inr ⟨.broadcastCommit { info task r with cursor := task.token },
        congrArg some heq.symm, by simp, .inl ⟨by simp, rfl, rfl⟩⟩
  | again => exact .inl ⟨rfl, rfl, rfl⟩
  | shutdown hopen =>
    exact .inr ⟨.broadcastShutdown, rfl, by simp, .inr ⟨rfl, hopen, rfl, rfl⟩⟩
  | client hb hs henabled hcommits => exact .inr ⟨_, hcommits, henabled, .inl ⟨hs, rfl, rfl⟩⟩

/-- Where the sentinel stands among the commits: nowhere before the shutdown, and behind those
that were broadcast before it. -/
structure SentinelPlaced (s : State π ρ) : Prop where
  balanced : CommitStream.Balanced s.commits
  enabled : s.commits.subscribers = [] ∨ s.commits.enabled = true
  down : s.sentinelAt = none ↔ s.shuttingDown = false
  before : s.sentinelAt = none → ∀ sub ∈ s.commits.subscribers, .shutdown ∉ sub.stream
  behind : ∀ k, s.sentinelAt = some k → k ≤ s.commits.broadcasts ∧
    ∀ sub ∈ s.commits.subscribers,
      sub.stream.Pairwise fun e f => e = .shutdown → ∃ number c, f = .commit number c ∧ k ≤ number

theorem sentinelPlaced_init (maxDepth : Int) (enabled : Bool) :
    SentinelPlaced (init maxDepth enabled : State π ρ) :=
  ⟨CommitStream.balanced_init enabled, .inl rfl, by simp [init],
    by simp [init, CommitBroadcaster.init], by simp [init]⟩

theorem pairwise_concat {k : Nat} {es : List Event} {f : Event}
    (h : es.Pairwise fun e f => e = .shutdown → ∃ number c, f = .commit number c ∧ k ≤ number)
    (hf : .shutdown ∈ es → ∃ number c, f = .commit number c ∧ k ≤ number) :
    (es ++ [f]).Pairwise
      fun e f => e = .shutdown → ∃ number c, f = .commit number c ∧ k ≤ number := by
  refine List.pairwise_append.mpr ⟨h, List.pairwise_singleton _ _, fun e he g hg heq => ?_⟩
  rw [List.mem_singleton.mp hg]
  exact hf (heq ▸ he)

theorem sentinelPlaced_step (info : QueueTask π → ρ → Commit) (s : State π ρ) (a : Label π ρ)
    (t : State π ρ) (h : SentinelPlaced s) (hstep : step info s a = some t) :
    SentinelPlaced t := by
  rcases commits_step hstep with ⟨hcommits, hat, hdown⟩ | ⟨b, hb, hopen, hb'⟩
  · exact ⟨hcommits ▸ h.balanced, hcommits ▸ h.enabled, by rw [hat, hdown]; exact h.down,
      by rw [hat, hcommits]; exact h.before, by rw [hat, hcommits]; exact h.behind⟩
  have hbalanced := CommitStream.balanced_step _ _ _ h.balanced hb
  have henabled : t.commits.subscribers = [] ∨ t.commits.enabled = true := by
    obtain ⟨hsame, hlen | ⟨maxsize, hsubscribe⟩⟩ := CommitStream.enabled_step hb
    · refine h.enabled.imp (fun hnil => ?_) fun hon => hsame.trans hon
      rw [hnil] at hlen
      exact List.eq_nil_of_length_eq_zero hlen
    · exact .inr (hsame.trans (hopen maxsize hsubscribe))
  rcases hb' with ⟨hne, hat, hdown⟩ | ⟨rfl, hopen', hdown, hat⟩
  · refine ⟨hbalanced, henabled, by rw [hat, hdown]; exact h.down, fun hnone => ?_, fun k hk => ?_⟩
    · rw [hat] at hnone
      intro sub' hsub' hmem
      rcases CommitStream.stream_step hb hsub' with hnil | ⟨sub, hsub, hsame | ⟨c, -, hput⟩ |
        ⟨hshut, -⟩⟩
      · simp [hnil] at hmem
      · exact h.before hnone sub hsub (hsame ▸ hmem)
      · rw [hput] at hmem
        rcases List.mem_append.mp hmem with hmem | hmem
        · exact h.before hnone sub hsub hmem
        · cases List.mem_singleton.mp hmem
      · exact hne hshut
    · rw [hat] at hk
      obtain ⟨hle, hpairs⟩ := h.behind k hk
      refine ⟨le_trans hle (CommitStream.broadcasts_step hb), fun sub' hsub' => ?_⟩
      rcases CommitStream.stream_step hb hsub' with hnil | ⟨sub, hsub, hsame | ⟨c, -, hput⟩ |
        ⟨hshut, -⟩⟩
      · rw [hnil]
        exact List.Pairwise.nil
      · rw [hsame]
        exact hpairs sub hsub
      · rw [hput]
        exact pairwise_concat (hpairs sub hsub) fun _ => ⟨_, c, rfl, hle⟩
      · exact absurd hshut hne
  · have hnone := h.down.mpr hopen'
    refine ⟨hbalanced, henabled, by simp [hat, hdown], by simp [hat], fun k hk => ?_⟩
    obtain rfl := Option.some.inj (hat.symm.trans hk)
    refine ⟨CommitStream.broadcasts_step hb, fun sub' hsub' => ?_⟩
    have hfree : ∀ sub ∈ s.commits.subscribers, sub.stream.Pairwise fun e f =>
        e = .shutdown → ∃ number c, f = .commit number c ∧ s.commits.broadcasts ≤ number :=
      fun sub hsub => List.Pairwise.imp_of_mem (R := fun _ _ => True)
        (fun he _ _ heq => absurd (heq ▸ he) (h.before hnone sub hsub)) (List.pairwise_of_forall
          fun _ _ => trivial)
    rcases CommitStream.stream_step hb hsub' with hnil | ⟨sub, hsub, hsame | ⟨c, hc, -⟩ |
      ⟨-, hput⟩⟩
    · rw [hnil]
      exact List.Pairwise.nil
    · rw [hsame]
      exact hfree sub hsub
    · cases hc
    · rw [hput]
      exact pairwise_concat (hfree sub hsub)
        fun hmem => absurd hmem (h.before hnone sub hsub)

/-- When the client of the `i`-th queue has got the terminal frame, the commit of the task was
delivered before it, or turned away by the full queue and counted. -/
def NotSilent (t : State π ρ) (i : Nat) (task : QueueTask π) : Prop :=
  ∀ sub delivered, t.commits.subscribers[i]? = some sub →
    sub.received = delivered ++ [.shutdown] →
    (∃ number c, c.cursor = task.token ∧
      (.commit number c ∈ delivered ∨ (number, c) ∈ sub.lost)) ∧
    t.commits.drops = (t.commits.subscribers.map fun sub => sub.lost.length).sum

/-- The commit was broadcast before the sentinel, if that has been. -/
def Early (s : State π ρ) (number : Nat) : Prop :=
  match s.sentinelAt with
  | none => number < s.commits.broadcasts
  | some k => number < k

structure OfferedEarly (i number : Nat) (c : Commit) (s : State π ρ) : Prop where
  placed : SentinelPlaced s
  offered : ∃ sub, s.commits.subscribers[i]? = some sub ∧ (number, c) ∈ sub.offered
  early : Early s number

theorem offeredEarly_step {i number : Nat} {c : Commit} (info : QueueTask π → ρ → Commit)
    (s : State π ρ) (a : Label π ρ) (t : State π ρ) (h : OfferedEarly i number c s)
    (hstep : step info s a = some t) : OfferedEarly i number c t := by
  have hplaced := sentinelPlaced_step info s a t h.placed hstep
  have hearly := h.early
  obtain ⟨sub, hi, hoffered⟩ := h.offered
  rcases commits_step hstep with ⟨hcommits, hat, -⟩ | ⟨b, hb, -, hb'⟩
  · refine ⟨hplaced, ⟨sub, hcommits ▸ hi, hoffered⟩, ?_⟩
    unfold Early
    rw [hat, hcommits]
    exact hearly
  · obtain ⟨sub', hi', hprefix⟩ := CommitStream.offered_step hb hi
    refine ⟨hplaced, ⟨sub', hi', hprefix.subset hoffered⟩, ?_⟩
    have hmono := CommitStream.broadcasts_step hb
    rcases hb' with ⟨-, hat, -⟩ | ⟨-, hopen, -, hat⟩
    · unfold Early at hearly ⊢
      rw [hat]
      split at hearly
      · exact lt_of_lt_of_le hearly hmono
      · exact hearly
    · simp only [Early, h.placed.down.mpr hopen] at hearly
      simpa only [Early, hat] using hearly

theorem OfferedEarly.notSilent {i number : Nat} {c : Commit} {s : State π ρ}
    (h : OfferedEarly i number c s) {task : QueueTask π} (hc : c.cursor = task.token) :
    NotSilent s i task := by
  intro sub delivered hi hreceived
  refine ⟨⟨number, c, hc, ?_⟩, h.placed.balanced.drops⟩
  obtain ⟨sub', hi', hoffered⟩ := h.offered
  obtain rfl := Option.some.inj (hi.symm.trans hi')
  have hsub := List.mem_of_getElem? hi
  have hstream : sub.stream = delivered ++ .shutdown :: sub.queue.items := by
    simp [CommitStream.Subscriber.stream, hreceived]
  have hearly := h.early
  unfold Early at hearly
  split at hearly
  · rename_i hnone
    exact absurd (by simp [hstream]) (h.placed.before hnone sub hsub)
  · rename_i k hk
    have hbalanced := h.placed.balanced.each sub hsub
    rcases List.mem_append.mp (hbalanced.split.mem_iff.mpr hoffered) with hgot | hlost
    · have hmem := CommitStream.mem_commits.mp hgot
      rw [hstream] at hmem
      rcases List.mem_append.mp hmem with hmem | hmem
      · exact .inl hmem
      · -- a commit behind the sentinel was broadcast after it
        have hmem := (List.mem_cons.mp hmem).resolve_left (by simp)
        have hpairs := (h.placed.behind k hk).2 sub hsub
        rw [hstream] at hpairs
        obtain ⟨number', c', heq, hle⟩ :=
          List.rel_of_pairwise_cons (List.pairwise_append.mp hpairs).2.1 hmem rfl
        obtain ⟨rfl, -⟩ := Event.commit.inj heq
        omega
    · exact .inr hlost

/-- **The end of a stream.** A train task that completes while the client is subscribed, before
the shutdown has begun, is delivered before the terminal frame or counted in `drops`, whatever
happens in between. -/
theorem commit_not_silent (info : QueueTask π → ρ → Commit) {maxDepth : Int} {enabled : Bool}
    {before after : List (Label π ρ)} {s m t : State π ρ} {task : QueueTask π} {r : ρ} {i : Nat}
    {sub : CommitStream.Subscriber}
    (hbefore : Runs.exec (step info) (init maxDepth enabled) before = some s)
    (hrunning : s.drain.queue.worker = .running task) (htrain : task.kind = "train")
    (hi : s.commits.subscribers[i]? = some sub) (hsub : sub.subscribed = true)
    (hopen : s.shuttingDown = false)
    (hend : step info s (.handlerEnds (.returned r)) = some m)
    (hafter : Runs.exec (step info) m after = some t) : NotSilent t i task := by
  have hplaced : SentinelPlaced s :=
    Runs.exec_preserves (sentinelPlaced_step info) (sentinelPlaced_init maxDepth enabled) hbefore
  have henabled : s.commits.enabled = true := by
    refine hplaced.enabled.resolve_left fun hnil => ?_
    simp [hnil] at hi
  let c : Commit := { info task r with cursor := task.token }
  obtain ⟨drain, drain', -, -, rfl⟩ := handlerEnds_some hend
  have hcommits : announce info s (.returned r) = s.commits.broadcastCommit c := by
    simp [announce, hrunning, htrain, c]
  obtain ⟨sub', hi', hoffered, hcount⟩ :=
    CommitStream.offered_broadcastCommit henabled hi hsub c
  have hstart : OfferedEarly i s.commits.broadcasts c
      { s with drain := drain', commits := announce info s (.returned r) } := by
    refine ⟨sentinelPlaced_step info s _ _ hplaced hend, ⟨sub', hcommits ▸ hi', hoffered⟩, ?_⟩
    simp [Early, hplaced.down.mpr hopen, hcommits, hcount]
  have hlast := Runs.exec_preserves (offeredEarly_step info) hstart hafter
  exact hlast.notSilent rfl

/-- An event of which only the cursor matters. -/
def plainInfo (_ : QueueTask Unit) (_ : Unit) : Commit := ⟨0, "", "sft", 0, [], 1⟩

/-- A client subscribes and the worker takes a train task. -/
def trainBegins : List (Label Unit Unit) :=
  [.subscribe 256, .queue (.submit "train" () "" 0), .queue .start, .queue .workerLoop,
    .queue .workerGet]

/-- The daemon shuts down, the drain returns and the client reads to the terminal frame. -/
def streamEnds : List (Label Unit Unit) :=
  [.shutdown, .drain (.begin true), .queue .workerLoop, .drain .workerDone, .get 0, .get 0]

theorem trainBegins_not_silent :
    ∃ t, Runs.exec (step plainInfo) (init 64 true)
        (trainBegins ++ [.handlerEnds (.returned ())] ++ streamEnds) = some t ∧
      NotSilent t 0 ⟨0, "train", (), ""⟩ :=
  ⟨_, rfl, @commit_not_silent Unit Unit plainInfo 64 true trainBegins streamEnds _ _ _ _ () 0 _
    rfl rfl rfl rfl rfl rfl rfl rfl⟩

/-- The shutdown begins while the task is in the queue, and the worker takes it in the drain. -/
def drainBegins : List (Label Unit Unit) :=
  [.subscribe 256, .queue (.submit "train" () "" 0), .queue .start, .queue .workerLoop,
    .shutdown, .drain (.begin true), .queue .workerGet]

/-- The drain returns and the client reads to the terminal frame. -/
def drainReturns : List (Label Unit Unit) := [.queue .workerLoop, .drain .workerDone, .get 0]

/-- The commit of the drained task stands behind the sentinel, where nobody reads it. -/
theorem drained_commit_silent :
    ¬ ∀ (info : QueueTask Unit → Unit → Commit) (maxDepth : Int) (enabled : Bool)
      (before after : List (Label Unit Unit)) (s m t : State Unit Unit) (task : QueueTask Unit)
      (i : Nat) (sub : CommitStream.Subscriber),
      Runs.exec (step info) (init maxDepth enabled) before = some s →
      s.drain.queue.worker = .running task → task.kind = "train" →
      s.commits.subscribers[i]? = some sub → sub.subscribed = true →
      step info s (.handlerEnds (.returned ())) = some m →
      Runs.exec (step info) m after = some t → NotSilent t i task := by
  intro h
  have hsilent := h plainInfo 64 true drainBegins drainReturns _ _ _ _ 0 _ rfl rfl rfl rfl rfl
    rfl rfl
  obtain ⟨⟨number, c, -, hmem | hmem⟩, -⟩ := hsilent _ [] rfl rfl
  · cases hmem
  · exact List.not_mem_nil hmem

end Trainfer.DaemonStream
