import Trainfer.CommitCursor

/-! `after_commit_token` on the two generation paths.

A request that names a token first calls `wait_for` with a timeout of 60 s. The
`except (TimeoutError, KeyError): pass` that follows lets it go on when the wait has
expired or the token is not known, so the bound on the cursor is only kept as long as
neither happens too early. -/

namespace Trainfer.Generate

open ComputeQueue (WaitCall WaitStatus Accounted)

universe u v
variable {π : Type u} {ρ : Type v}

/-- Where a `generate` or `stream_generate` call is. Generation remembers the cursor it
started at, and the answer also the cursor that is reported with it. -/
inductive Phase where
  | waiting (wait : Nat)
  | ready
  | generating (start : Int)
  | answered (start reported : Int)
  | failed
  deriving DecidableEq, Repr

structure Call where
  stream : Bool
  afterCommitToken : Option Int
  phase : Phase
  deriving DecidableEq, Repr

structure State (π : Type u) (ρ : Type v) where
  queue : ComputeQueue.State π ρ
  calls : List Call

def init (maxDepth : Int) : State π ρ := ⟨ComputeQueue.init maxDepth, []⟩

/-! ## Steps -/

/-- The call up to its first suspension. -/
def call (s : State π ρ) (stream : Bool) : Option Int → State π ρ
  | none => { s with calls := s.calls ++ [⟨stream, none, .ready⟩] }
  | some n =>
    ⟨ComputeQueue.waitFor s.queue n,
      s.calls ++ [⟨stream, some n, .waiting s.queue.waits.length⟩]⟩

/-- What the `try` statement around `wait_for` makes of its end. -/
def afterWait : WaitStatus ρ → Option Phase
  | .blocked _ => none
  | .returned _ => some .ready
  | .failed e =>
    if e.cls = .asyncioTimeout ∨ e.cls = .keyError then some .ready else some .failed

/-- The next step of one call, which depends on its `wait_for` and on the cursor. -/
def advance (q : ComputeQueue.State π ρ) (raises : Bool) : Phase → Option Phase
  | .waiting i => q.waits[i]?.bind fun w => afterWait w.status
  | .ready => some (.generating q.committed)
  | .generating start => some (if raises then .failed else .answered start q.committed)
  | .answered .. | .failed => none

inductive Action (π : Type u) (ρ : Type v) where
  | queue (a : ComputeQueue.Action π ρ)
  | call (stream : Bool) (afterCommitToken : Option Int)
  | advance (j : Nat) (raises : Bool)

def step (s : State π ρ) : Action π ρ → Option (State π ρ)
  | .queue a => (ComputeQueue.step s.queue a).map fun q => { s with queue := q }
  | .call stream n => some (call s stream n)
  | .advance j raises =>
    s.calls[j]?.bind fun c => (advance s.queue raises c.phase).map fun p =>
      { s with calls := s.calls.set j { c with phase := p } }

/-! ## The contract -/

/-- Text that answers a request for token `n` was generated, and is reported, at a
cursor of at least `n`. -/
def AfterCommit (s : State π ρ) : Prop :=
  ∀ c ∈ s.calls, ∀ n, c.afterCommitToken = some n → ∀ start reported,
    (c.phase = .generating start → n ≤ start) ∧
      (c.phase = .answered start reported → n ≤ start ∧ n ≤ reported)

/-- A call names a token that has been issued (or a negative one), and the wait of a call
expires only when the cursor has passed its token. -/
def Reflected (s : State π ρ) : Action π ρ → Prop
  | .call _ (some n) => n < s.queue.nextToken
  | .queue (.waitTimeout i) =>
    ∀ c ∈ s.calls, c.phase = .waiting i → ∀ n, c.afterCommitToken = some n →
      n ≤ s.queue.committed
  | _ => True

/-! ## The invariant -/

/-- What a call for token `n` is owed in each phase. -/
def Owed (q : ComputeQueue.State π ρ) (n : Int) : Phase → Prop
  | .waiting i => ∃ w, q.waits[i]? = some w ∧ w.token = n ∧
      ∀ e, w.status = .failed e → n ≤ q.committed
  | .ready => n ≤ q.committed
  | .generating start => n ≤ start ∧ start ≤ q.committed
  | .answered start reported => n ≤ start ∧ n ≤ reported
  | .failed => True

structure Inv (s : State π ρ) : Prop where
  accounted : Accounted s.queue
  owed : ∀ c ∈ s.calls, ∀ n, c.afterCommitToken = some n → Owed s.queue n c.phase

theorem inv_init (maxDepth : Int) : Inv (init maxDepth : State π ρ) :=
  ⟨ComputeQueue.accounted_init maxDepth, by simp [init]⟩

/-- A token that is not larger than every issued one is known to `wait_for`. -/
theorem waitStart_ne_failed {q : ComputeQueue.State π ρ} (h : Accounted q) {n : Int}
    (hn : n < q.nextToken) (e : PyError) : ComputeQueue.waitStart q n ≠ .failed e := by
  intro hf
  unfold ComputeQueue.waitStart at hf
  split at hf
  · cases hf
  · rename_i hnone
    split at hf
    · cases hf
    · rename_i hle
      have hlow := h.cursor_low
      rcases h.awaited n ⟨by omega, hn⟩ with hdone | ⟨x, hx, hxn⟩
      · exact hle hdone
      · have := List.find?_eq_none.mp hnone x hx
        simp [hxn] at this

theorem owed_queue_step {q q' : ComputeQueue.State π ρ} {a : ComputeQueue.Action π ρ} {n : Int}
    {p : Phase} (hstep : ComputeQueue.step q a = some q')
    (hg : ∀ i, a = .waitTimeout i → p = .waiting i → n ≤ q.committed) (h : Owed q n p) :
    Owed q' n p := by
  have hmono := ComputeQueue.committed_le_step hstep
  cases p with
  | waiting i =>
    obtain ⟨w, hw, htok, hfail⟩ := h
    obtain ⟨w', hw', htok', hcase⟩ := ComputeQueue.waits_step hstep hw
    refine ⟨w', hw', htok'.trans htok, fun e he => ?_⟩
    rcases hcase with rfl | ⟨r, hr⟩ | hto
    · exact le_trans (hfail e he) hmono
    · rw [hr] at he
      cases he
    · exact le_trans (hg i hto rfl) hmono
  | ready => exact le_trans h hmono
  | generating start => exact ⟨h.1, le_trans h.2 hmono⟩
  | answered start reported => exact h
  | failed => trivial

/-- A call that moves on is owed what its new phase says: a wait that ends without
raising, or ends late, has seen the cursor pass its token. -/
theorem owed_advance {q : ComputeQueue.State π ρ} (hq : Accounted q) {n : Int} {raises : Bool}
    {p p' : Phase} (hadv : advance q raises p = some p') (h : Owed q n p) : Owed q n p' := by
  cases p with
  | waiting i =>
    obtain ⟨w, hw, rfl, hfail⟩ := h
    simp only [advance, hw, Option.bind_some] at hadv
    cases hs : w.status with
    | blocked kind =>
      rw [hs] at hadv
      cases hadv
    | returned r =>
      rw [hs] at hadv
      obtain rfl := Option.some.inj hadv
      exact hq.returned_le w (List.mem_of_getElem? hw) r hs
    | failed e =>
      rw [hs, afterWait] at hadv
      split at hadv
      · obtain rfl := Option.some.inj hadv
        exact hfail e hs
      · obtain rfl := Option.some.inj hadv
        trivial
  | ready =>
    obtain rfl := Option.some.inj hadv
    exact ⟨h, le_refl _⟩
  | generating start =>
    obtain rfl := Option.some.inj hadv
    cases raises with
    | true => trivial
    | false => exact ⟨h.1, le_trans h.1 h.2⟩
  | answered start reported => cases hadv
  | failed => cases hadv

theorem inv_call {s : State π ρ} (h : Inv s) (stream : Bool) (n : Option Int)
    (hg : Reflected s (.call stream n)) : Inv (call s stream n) := by
  cases n with
  | none =>
    refine ⟨h.accounted, fun c hc n hn => ?_⟩
    rcases List.mem_append.mp hc with hc | hc
    · exact h.owed c hc n hn
    · obtain rfl := List.mem_singleton.mp hc
      cases hn
  | some m =>
    refine ⟨ComputeQueue.accounted_waitFor h.accounted m, fun c hc n hn => ?_⟩
    rcases List.mem_append.mp hc with hc | hc
    · refine owed_queue_step (a := .waitFor m) rfl ?_ (h.owed c hc n hn)
      intro i hi
      cases hi
    · obtain rfl := List.mem_singleton.mp hc
      obtain rfl := Option.some.inj hn
      refine ⟨⟨m, ComputeQueue.waitStart s.queue m⟩, ?_, rfl, fun e he => ?_⟩
      · simp [call, ComputeQueue.waitFor]
      · exact absurd he (waitStart_ne_failed h.accounted hg e)

/-- Step lemma. -/
theorem inv_step (s : State π ρ) (a : Action π ρ) (s' : State π ρ) (h : Inv s)
    (hg : Reflected s a) (hstep : step s a = some s') : Inv s' := by
  cases a with
  | queue a =>
    obtain ⟨q, hq, rfl⟩ := Option.map_eq_some_iff.mp hstep
    refine ⟨ComputeQueue.accounted_step _ a q h.accounted hq, fun c hc n hn => ?_⟩
    refine owed_queue_step hq ?_ (h.owed c hc n hn)
    rintro i rfl hp
    exact hg c hc hp n hn
  | call stream n =>
    obtain rfl := Option.some.inj hstep
    exact inv_call h stream n hg
  | advance j raises =>
    obtain ⟨c, hc, hmap⟩ := Option.bind_eq_some_iff.mp hstep
    obtain ⟨p, hp, rfl⟩ := Option.map_eq_some_iff.mp hmap
    refine ⟨h.accounted, fun d hd n hn => ?_⟩
    rcases List.mem_or_eq_of_mem_set hd with hd | rfl
    · exact h.owed d hd n hn
    · exact owed_advance h.accounted hp (h.owed c (List.mem_of_getElem? hc) n hn)

theorem Inv.afterCommit {s : State π ρ} (h : Inv s) : AfterCommit s := by
  intro c hc n hn start reported
  have ho := h.owed c hc n hn
  constructor
  · intro hp
    rw [hp] at ho
    exact ho.1
  · intro hp
    rw [hp] at ho
    exact ho

/-- **The `after_commit_token` guarantee** for runs in which calls name known tokens and
no wait expires before the cursor has passed its token. -/
theorem afterCommit_of_reflected {maxDepth : Int} {as : List (Action π ρ)} {s : State π ρ}
    (hrun : Runs.exec step (init maxDepth) as = some s)
    (hrefl : Runs.Meets step Reflected (init maxDepth) as) : AfterCommit s :=
  (Runs.exec_invariant inv_step (inv_init maxDepth) hrun hrefl).afterCommit

/-- A chat for token 0 waits until the train step has been committed. -/
def patientRun : List (Action Unit Unit) :=
  [.queue (.trySubmit "train" () "" 0), .call false (some 0), .queue .start,
    .queue .workerLoop, .queue .workerGet, .queue (.workerFinish (.returned ())),
    .queue .workerCommit, .queue (.waitResume 0), .advance 0 false, .advance 0 false,
    .advance 0 false]

theorem patientRun_reflected :
    ∃ s, Runs.exec step (init 8 : State Unit Unit) patientRun = some s ∧
      s.calls = [⟨false, some 0, .answered 0 0⟩] ∧ AfterCommit s := by
  refine ⟨_, rfl, rfl, @afterCommit_of_reflected Unit Unit 8 patientRun _ rfl ?_⟩
  have hissued : Reflected (⟨(ComputeQueue.afterSubmit (ComputeQueue.init 8)
      (ComputeQueue.trySubmit (ComputeQueue.init 8) "train" () "" 0)), []⟩ : State Unit Unit)
      (.call false (some 0)) := by
    show (0 : Int) < 1
    decide
  exact .cons trivial rfl (.cons hissued rfl (.cons trivial rfl (.cons trivial rfl
    (.cons trivial rfl (.cons trivial rfl (.cons trivial rfl (.cons trivial rfl
    (.cons trivial rfl (.cons trivial rfl (.cons trivial rfl trivial))))))))))

/-- The worker is busy for 60 s: the wait of the chat expires. -/
def expiredRun : List (Action Unit Unit) :=
  [.queue (.trySubmit "train" () "" 0), .call false (some 0), .queue (.waitTimeout 0),
    .advance 0 false, .advance 0 false, .advance 0 false]

/-- The chat is answered from the weights before the step it asked for, with the cursor
`-1`. -/
theorem after_commit_expires :
    ¬ ∀ (maxDepth : Int) (as : List (Action Unit Unit)) (s : State Unit Unit),
      Runs.exec step (init maxDepth) as = some s → AfterCommit s := by
  intro h
  have hs := h 8 expiredRun _ rfl ⟨false, some 0, .answered (-1) (-1)⟩ (by decide) 0 rfl (-1) (-1)
  have hle := (hs.2 rfl).1
  revert hle
  decide

end Trainfer.Generate
