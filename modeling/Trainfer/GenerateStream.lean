import Trainfer.Lib.Runs
import Mathlib.Data.List.Infix

/-! `generate_chat_stream`: the mode lock, the thread that runs `model.generate`, and the streamer
between the thread and the generator.

The lock can be taken again by the thread that has it; the stream has it on the thread of its
caller, and the other users are on other threads. The end of the streamer and the return of
`model.generate` are one step.

`stream_exclusive` says that nobody else has the lock while the thread runs, and what is yielded.
A thread that dies does not end the streamer: `crash_hangs` says what is left then. -/

namespace Trainfer.GenerateStream

/-- Who has `mode_lock`; others are train steps and other generations. -/
inductive Owner where
  | free
  | stream
  | other
  deriving DecidableEq

inductive Thread where
  | idle
  | running
  | returned
  | crashed
  deriving DecidableEq

/-- Where the generator stands: before the lock, in `queue.get()` of the streamer, at a `yield`, in
`thread.join()`, or at its end. -/
inductive Phase where
  | entering
  | waiting
  | suspended
  | joining
  | done
  deriving DecidableEq

structure State where
  lock : Owner
  thread : Thread
  /-- The queue of the streamer; `none` is its stop signal. -/
  queue : List (Option String)
  phase : Phase
  yielded : List String
  /-- Ghosts: the texts that were put, and whether the caller has closed the generator. -/
  texts : List String
  closed : Bool

def init : State where
  lock := .free
  thread := .idle
  queue := []
  phase := .entering
  yielded := []
  texts := []
  closed := false

inductive Action where
  /-- The lock is acquired and the thread started. -/
  | enter
  | put (text : String)
  /-- `generate` returns, and has ended the streamer with the text that was left. -/
  | finish (text : String)
  /-- `generate` raises. -/
  | crash
  | get
  | resume
  /-- The caller goes away at a `yield`. -/
  | close
  | join
  | otherAcquire
  | otherRelease
  deriving DecidableEq

def step (s : State) : Action → Option State
  | .enter =>
    if s.phase = .entering ∧ s.lock = .free then
      some { s with lock := .stream, thread := .running, phase := .waiting }
    else none
  | .put text =>
    if s.thread = .running then
      some { s with queue := s.queue ++ [some text], texts := s.texts ++ [text] }
    else none
  | .finish text =>
    if s.thread = .running then
      some { s with
        thread := .returned
        queue := s.queue ++ [some text, none]
        texts := s.texts ++ [text] }
    else none
  | .crash => if s.thread = .running then some { s with thread := .crashed } else none
  | .get =>
    if s.phase = .waiting then
      match s.queue with
      | [] => none
      | none :: queue => some { s with queue, phase := .joining }
      | some text :: queue =>
        -- `if chunk`
        if text = "" then some { s with queue }
        else some { s with queue, yielded := s.yielded ++ [text], phase := .suspended }
    else none
  | .resume => if s.phase = .suspended then some { s with phase := .waiting } else none
  | .close =>
    if s.phase = .suspended then some { s with phase := .joining, closed := true } else none
  | .join =>
    if s.phase = .joining ∧ s.thread ≠ .running then some { s with phase := .done, lock := .free }
    else none
  | .otherAcquire => if s.lock = .free then some { s with lock := .other } else none
  | .otherRelease => if s.lock = .other then some { s with lock := .free } else none

/-! ## The invariant -/

def nonempty (texts : List String) : List String := texts.filter (· ≠ "")

/-- Inside the `with` block. -/
def Phase.inside : Phase → Bool
  | .waiting | .suspended | .joining => true
  | .entering | .done => false

/-- Texts in the queue, with or without the signal behind them. -/
def Holds (queue : List (Option String)) (rest : List String) (signal : Bool) : Prop :=
  queue = rest.map some ++ if signal then [none] else []

structure Inv (s : State) : Prop where
  lock : s.lock = .stream ↔ s.phase.inside = true
  thread : s.thread = .idle ↔ s.phase = .entering
  running : s.thread = .running → s.phase.inside = true
  /-- A signal is in the queue only after a return, and from then until it is taken out. -/
  queue : ∃ rest signal, Holds s.queue rest signal ∧ nonempty s.texts = s.yielded ++ nonempty rest ∧
    (signal = true → s.thread = .returned) ∧
    (s.thread = .returned → s.phase = .waiting ∨ s.phase = .suspended → signal = true) ∧
    (s.phase = .joining ∨ s.phase = .done → s.closed = false →
      s.thread = .returned ∧ rest = [] ∧ signal = false)

theorem inv_init : Inv init :=
  ⟨by decide, by decide, by decide, [], false, rfl, rfl, by simp, by simp [init], by simp [init]⟩

theorem nonempty_append (xs ys : List String) :
    nonempty (xs ++ ys) = nonempty xs ++ nonempty ys := List.filter_append _ _

theorem inv_get {s t : State} (h : Inv s) (hphase : s.phase = .waiting)
    (hstep : step s .get = some t) : Inv t := by
  obtain ⟨hlock, hthread, hrunning, rest, signal, hqueue, htexts, hsignal, hreturned, -⟩ := h
  simp only [step, if_pos hphase] at hstep
  cases rest with
  | nil =>
    cases signal with
    | false =>
      simp only [Holds, List.map_nil, List.nil_append] at hqueue
      rw [hqueue] at hstep
      cases hstep
    | true =>
      simp only [Holds, List.map_nil, List.nil_append, if_true] at hqueue
      rw [hqueue] at hstep
      cases hstep
      have hended := hsignal rfl
      refine ⟨by simpa [Phase.inside, hphase] using hlock, by simp [hended],
        by simp [Phase.inside], [], false, rfl, htexts, by simp, by simp, ?_⟩
      exact fun _ _ => ⟨hended, rfl, rfl⟩
  | cons text rest =>
    have hhead : s.queue = some text :: (rest.map some ++ if signal then [none] else []) := hqueue
    rw [hhead] at hstep
    simp only at hstep
    split at hstep
    · rename_i hempty
      cases hstep
      refine ⟨hlock, hthread, hrunning, rest, signal, rfl, ?_, hsignal, hreturned, ?_⟩
      · rw [htexts]
        simp [nonempty, hempty]
      · simp [hphase]
    · rename_i hne
      cases hstep
      refine ⟨by simpa [Phase.inside, hphase] using hlock, by simpa [hphase] using hthread,
        by simp [Phase.inside], rest, signal, rfl, ?_, hsignal, ?_, by simp⟩
      · rw [htexts]
        simp [nonempty, hne]
      · exact fun hended _ => hreturned hended (.inl hphase)

theorem holds_concat {queue : List (Option String)} {rest : List String}
    (h : Holds queue rest false) (text : String) (signal : Bool) :
    Holds (queue ++ some text :: if signal then [none] else []) (rest ++ [text]) signal := by
  unfold Holds at h ⊢
  rw [h]
  simp

/-- The thread has put a text, and with the last one its signal. -/
theorem inv_text {s : State} (h : Inv s) (hrun : s.thread = .running) (text : String)
    (last : Bool) : Inv { s with
      thread := if last then .returned else .running
      queue := s.queue ++ some text :: if last then [none] else []
      texts := s.texts ++ [text] } := by
  obtain ⟨hlock, hthread, hrunning, rest, signal, hqueue, htexts, hsignal, -, hjoined⟩ := h
  have hnone : signal = false := by
    cases signal with
    | false => rfl
    | true => simp [hsignal rfl] at hrun
  subst hnone
  have hphase : s.phase ≠ .entering := fun hp => by simp [hthread.mpr hp] at hrun
  refine ⟨hlock, ?_, fun _ => hrunning hrun, rest ++ [text], last, holds_concat hqueue text last,
    ?_, ?_, ?_, ?_⟩
  · cases last <;> simp [hphase]
  · rw [nonempty_append, htexts, nonempty_append, List.append_assoc]
  · rintro rfl
    rfl
  · cases last <;> simp
  · intro hp hopen
    simp [(hjoined hp hopen).1] at hrun

theorem inv_crash {s : State} (h : Inv s) (hrun : s.thread = .running) :
    Inv { s with thread := .crashed } := by
  obtain ⟨hlock, hthread, hrunning, rest, signal, hqueue, htexts, hsignal, -, hjoined⟩ := h
  have hphase : s.phase ≠ .entering := fun hp => by simp [hthread.mpr hp] at hrun
  refine ⟨hlock, by simp [hphase], by simp, rest, signal, hqueue, htexts, ?_, by simp, ?_⟩
  · intro hs
    simp [hsignal hs] at hrun
  · intro hp hopen
    simp [(hjoined hp hopen).1] at hrun

/-- Others take the lock and give it back. -/
theorem inv_lock {s : State} (h : Inv s) (hlock : s.lock ≠ .stream) {owner : Owner}
    (howner : owner ≠ .stream) : Inv { s with lock := owner } := by
  have hout : s.phase.inside ≠ true := fun hin => hlock (h.lock.mpr hin)
  exact ⟨iff_of_false howner hout, h.thread, h.running, h.queue⟩

theorem inv_step (s : State) (a : Action) (t : State) (h : Inv s) (hstep : step s a = some t) :
    Inv t := by
  have hinv := h
  obtain ⟨hlock, hthread, hrunning, rest, signal, hqueue, htexts, hsignal, hreturned, hjoined⟩ := h
  cases a with
  | enter =>
    simp only [step] at hstep
    split at hstep
    · rename_i hguard
      cases hstep
      have hidle := hthread.mpr hguard.1
      refine ⟨by simp [Phase.inside], by simp, by simp [Phase.inside], rest, signal, hqueue, htexts,
        ?_, by simp, by simp⟩
      intro hs
      simp [hsignal hs] at hidle
    · cases hstep
  | put text =>
    simp only [step] at hstep
    split at hstep
    · rename_i hrun
      cases hstep
      have hput := inv_text hinv hrun text false
      rwa [if_neg Bool.false_ne_true, if_neg Bool.false_ne_true, ← hrun] at hput
    · cases hstep
  | finish text =>
    simp only [step] at hstep
    split at hstep
    · rename_i hrun
      cases hstep
      exact inv_text hinv hrun text true
    · cases hstep
  | crash =>
    simp only [step] at hstep
    split at hstep
    · rename_i hrun
      cases hstep
      exact inv_crash hinv hrun
    · cases hstep
  | get =>
    by_cases hphase : s.phase = .waiting
    · exact inv_get hinv hphase hstep
    · simp [step, hphase] at hstep
  | resume =>
    simp only [step] at hstep
    split at hstep
    · rename_i hphase
      cases hstep
      exact ⟨by simpa [Phase.inside, hphase] using hlock, by simpa [hphase] using hthread,
        by simp [Phase.inside], rest, signal, hqueue, htexts, hsignal,
        fun hended _ => hreturned hended (.inr hphase), by simp⟩
    · cases hstep
  | close =>
    simp only [step] at hstep
    split at hstep
    · rename_i hphase
      cases hstep
      exact ⟨by simpa [Phase.inside, hphase] using hlock, by simpa [hphase] using hthread,
        by simp [Phase.inside], rest, signal, hqueue, htexts, hsignal, by simp, by simp⟩
    · cases hstep
  | join =>
    simp only [step] at hstep
    split at hstep
    · rename_i hguard
      cases hstep
      have hidle : s.thread ≠ .idle := fun hi => by simp [hthread.mp hi] at hguard
      exact ⟨by simp [Phase.inside], by simp [hidle], by simp [hguard.2], rest, signal, hqueue,
        htexts, hsignal, by simp, fun _ hopen => hjoined (.inl hguard.1) hopen⟩
    · cases hstep
  | otherAcquire =>
    simp only [step] at hstep
    split at hstep
    · rename_i hfree
      cases hstep
      exact inv_lock hinv (by simp [hfree]) (by decide)
    · cases hstep
  | otherRelease =>
    simp only [step] at hstep
    split at hstep
    · rename_i hother
      cases hstep
      exact inv_lock hinv (by simp [hother]) (by decide)
    · cases hstep

theorem inv_reach {actions : List Action} {s : State}
    (hrun : Runs.exec step init actions = some s) : Inv s :=
  Runs.exec_preserves inv_step inv_init hrun

/-- In every state that any interleaving reaches the lock is the stream's while the thread runs, and
the texts yielded are the nonempty ones put, from the first on, in order. A stream that ends and was
not closed ends after its thread and has yielded all of them. -/
theorem stream_exclusive {actions : List Action} {s : State}
    (hrun : Runs.exec step init actions = some s) :
    (s.thread = .running → s.lock = .stream) ∧ s.yielded <+: nonempty s.texts ∧
      (s.phase = .done → s.thread ≠ .running) ∧
      (s.phase = .done → s.closed = false →
        s.thread = .returned ∧ s.yielded = nonempty s.texts) := by
  obtain ⟨hlock, -, hrunning, rest, signal, -, htexts, -, -, hjoined⟩ := inv_reach hrun
  refine ⟨fun hrun => hlock.mpr (hrunning hrun), ?_, ?_, ?_⟩
  · rw [htexts]
    exact List.prefix_append s.yielded (nonempty rest)
  · intro hdone hrun
    have hinside := hrunning hrun
    simp [hdone, Phase.inside] at hinside
  · intro hdone hopen
    obtain ⟨hended, hrest, -⟩ := hjoined (.inr hdone) hopen
    refine ⟨hended, ?_⟩
    rw [htexts, hrest]
    simp [nonempty]

theorem stream_exclusive_hello :
    ∃ s, Runs.exec step init
        [.otherAcquire, .otherRelease, .enter, .put "hel", .put "", .get, .finish "lo", .resume,
          .get, .get, .resume, .get, .join, .otherAcquire] = some s ∧
      s.yielded = ["hel", "lo"] ∧ s.yielded = nonempty s.texts := by
  obtain ⟨s, hs, hdone, hopen, hyielded⟩ : ∃ s, Runs.exec step init
      [.otherAcquire, .otherRelease, .enter, .put "hel", .put "", .get, .finish "lo", .resume,
        .get, .get, .resume, .get, .join, .otherAcquire] = some s ∧
      s.phase = .done ∧ s.closed = false ∧ s.yielded = ["hel", "lo"] := by
    refine ⟨_, rfl, ?_⟩
    decide
  exact ⟨s, hs, hyielded, ((stream_exclusive hs).2.2.2 hdone hopen).2⟩

/-! ## After a crash -/

/-- The thread is dead, no signal is in the queue, and the generator has not left its loop. -/
structure Hung (s : State) : Prop where
  thread : s.thread = .crashed
  lock : s.lock = .stream
  phase : s.phase = .waiting ∨ s.phase = .suspended
  queue : none ∉ s.queue

/-- What a hung stream can still do: two steps for each text in the queue, and a resume. -/
def Hung.left (s : State) : Nat := 2 * s.queue.length + if s.phase = .suspended then 1 else 0

theorem hung_of_crashed {s : State} (h : Inv s) (hcrash : s.thread = .crashed)
    (hphase : s.phase = .waiting ∨ s.phase = .suspended) : Hung s := by
  obtain ⟨hlock, -, -, rest, signal, hqueue, -, hsignal, -, -⟩ := h
  have hnone : signal = false := by
    cases signal with
    | false => rfl
    | true => simp [hsignal rfl] at hcrash
  refine ⟨hcrash, hlock.mpr ?_, hphase, ?_⟩
  · rcases hphase with hp | hp <;> simp [hp, Phase.inside]
  · simp only [Holds] at hqueue
    simp [hqueue, hnone]

theorem hung_step {s t : State} {a : Action} (h : Hung s) (hclose : a ≠ .close)
    (hstep : step s a = some t) : Hung t ∧ Hung.left t < Hung.left s := by
  obtain ⟨hthread, hlock, hphase, hqueue⟩ := h
  cases a with
  | close => exact absurd rfl hclose
  | get =>
    simp only [step] at hstep
    split at hstep
    · rename_i hwaiting
      cases hq : s.queue with
      | nil => simp [hq] at hstep
      | cons head queue =>
        rw [hq] at hstep hqueue
        cases head with
        | none => simp at hqueue
        | some text =>
          have hrest : none ∉ queue := fun hmem => hqueue (List.mem_cons_of_mem _ hmem)
          simp only at hstep
          split at hstep <;> cases hstep
          · refine ⟨⟨hthread, hlock, hphase, hrest⟩, ?_⟩
            simp [Hung.left, hwaiting, hq]
          · refine ⟨⟨hthread, hlock, .inr rfl, hrest⟩, ?_⟩
            simp [Hung.left, hwaiting, hq]
            omega
    · cases hstep
  | resume =>
    simp only [step] at hstep
    split at hstep
    · rename_i hsuspended
      cases hstep
      exact ⟨⟨hthread, hlock, .inl rfl, hqueue⟩, by simp [Hung.left, hsuspended]⟩
    · cases hstep
  | enter => simp [step, hlock] at hstep
  | put text => simp [step, hthread] at hstep
  | finish text => simp [step, hthread] at hstep
  | crash => simp [step, hthread] at hstep
  | join => rcases hphase with hp | hp <;> simp [step, hp] at hstep
  | otherAcquire => simp [step, hlock] at hstep
  | otherRelease => simp [step, hlock] at hstep

theorem hung_exec {s t : State} {actions : List Action} (h : Hung s) (hclose : .close ∉ actions)
    (hrun : Runs.exec step s actions = some t) :
    Hung t ∧ actions.length + Hung.left t ≤ Hung.left s := by
  induction actions generalizing s with
  | nil =>
    cases hrun
    simp [h]
  | cons a actions ih =>
    obtain ⟨m, hm, hrun⟩ := Runs.exec_cons_some.mp hrun
    rw [List.mem_cons, not_or] at hclose
    obtain ⟨hhung, hless⟩ := hung_step h (Ne.symm hclose.1) hm
    obtain ⟨ht, hlength⟩ := ih hhung hclose.2 hrun
    refine ⟨ht, ?_⟩
    simp only [List.length_cons]
    omega

theorem hung_stuck {s : State} (h : Hung s) (hleft : Hung.left s = 0) (a : Action) :
    step s a = none := by
  have hwaiting : s.phase = .waiting := by
    rcases h.phase with hp | hp
    · exact hp
    · simp [Hung.left, hp] at hleft
  cases hs : step s a with
  | none => rfl
  | some t =>
    by_cases hclose : a = .close
    · subst hclose
      simp [step, hwaiting] at hs
    · have hless := (hung_step h hclose hs).2
      omega

/-- When the thread has crashed before the loop of the generator is over, the lock stays the
stream's until the caller closes the generator: nobody else acquires it, the stream does not end,
and after what is left in the queue nothing at all can happen. -/
theorem crash_hangs {before after : List Action} {s t : State}
    (hs : Runs.exec step init before = some s) (hcrash : s.thread = .crashed)
    (hphase : s.phase = .waiting ∨ s.phase = .suspended) (hclose : .close ∉ after)
    (ht : Runs.exec step s after = some t) :
    t.lock = .stream ∧ t.phase ≠ .done ∧ step t .otherAcquire = none ∧
      after.length ≤ 2 * s.queue.length + 1 ∧
      (t.queue = [] → t.phase = .waiting → ∀ a, step t a = none) := by
  obtain ⟨hhung, hlength⟩ := hung_exec (hung_of_crashed (inv_reach hs) hcrash hphase) hclose ht
  refine ⟨hhung.lock, ?_, by simp [step, hhung.lock], ?_, ?_⟩
  · rcases hhung.phase with hp | hp <;> simp [hp]
  · have hbound : Hung.left s ≤ 2 * s.queue.length + 1 := by
      unfold Hung.left
      split <;> omega
    omega
  · intro hempty hwaiting
    exact hung_stuck hhung (by simp [Hung.left, hempty, hwaiting])

theorem crash_hangs_hello :
    ∃ s t, Runs.exec step init [.enter, .put "hel", .crash] = some s ∧
      Runs.exec step s [.get, .resume] = some t ∧ ∀ a, step t a = none :=
  ⟨_, _, rfl, rfl, (@crash_hangs [.enter, .put "hel", .crash] [.get, .resume] _ _ rfl rfl (.inl rfl)
    (by decide) rfl).2.2.2.2 rfl rfl⟩

end Trainfer.GenerateStream
