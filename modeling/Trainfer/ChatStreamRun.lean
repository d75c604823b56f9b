import Trainfer.ChatStream
import Trainfer.Lib.Runs

/-! Every interleaving of a streamed chat against its transcript.

`Inv` says for each phase of the consumer what it has taken out of the queue and what it has
written. `refines_transcript` reads off what a client can see, `stream_closes` that a stream whose
thread has ended gets to `[DONE]` in a number of steps that is known. -/

namespace Trainfer.ChatStream

open ResponseIndex (Generation)

variable {r : Request}

/-! ## Text in parts -/

theorem framesFrom_append (s : Reasoning.ParserState Char) (cs ds : List (List Char)) :
    framesFrom r s (cs ++ ds) =
      framesFrom r s cs ++ framesFrom r (cs.foldl (fun s c => (parse r s c).2) s) ds := by
  induction cs generalizing s with
  | nil => rfl
  | cons c cs ih => simp only [List.cons_append, framesFrom, List.foldl_cons, ih, List.append_assoc]

theorem chunkFrames_append (cs ds : List (List Char)) :
    chunkFrames r (cs ++ ds) = chunkFrames r cs ++ framesFrom r (parserAfter r cs) ds :=
  framesFrom_append _ _ _

theorem parserAfter_append (cs : List (List Char)) (c : List Char) :
    parserAfter r (cs ++ [c]) = (parse r (parserAfter r cs) c).2 := by
  simp [parserAfter]

theorem chunkFrames_snoc (cs : List (List Char)) (c : List Char) :
    chunkFrames r (cs ++ [c]) =
      chunkFrames r cs ++ deltaFrames r (parse r (parserAfter r cs) c).1 := by
  rw [chunkFrames_append]
  simp [framesFrom]

theorem chunkFrames_isPrefix {cs ds : List (List Char)} (h : cs <+: ds) :
    chunkFrames r cs <+: chunkFrames r ds := by
  obtain ⟨rest, rfl⟩ := h
  rw [chunkFrames_append]
  exact List.prefix_append _ _

theorem chunkFrames_isPrefix_transcript (hwait : r.waitError = none) (cs : List (List Char))
    (err : Option String) : chunkFrames r cs <+: transcript r cs err := by
  unfold transcript
  rw [hwait]
  cases err with
  | some message => exact List.prefix_append _ _
  | none => exact (List.prefix_append _ _).trans (List.prefix_append _ _)

/-! ## Kinds of frames -/

/-- A chunk with text. -/
def IsDelta (r : Request) (f : Frame) : Prop := ∃ d, f = .data (r.deltaPayload d)

theorem isDelta_of_mem {ds : List (Reasoning.Delta Char)} {f : Frame} (h : f ∈ deltaFrames r ds) :
    IsDelta r f := by
  obtain ⟨d, -, hf⟩ := List.mem_flatMap.mp h
  split at hf
  · cases hf
  · exact ⟨d, List.mem_singleton.mp hf⟩

theorem isDelta_of_mem_framesFrom {s : Reasoning.ParserState Char} {cs : List (List Char)}
    {f : Frame} (h : f ∈ framesFrom r s cs) : IsDelta r f := by
  induction cs generalizing s with
  | nil => cases h
  | cons c cs ih =>
    rcases List.mem_append.mp h with h | h
    · exact isDelta_of_mem h
    · exact ih h

theorem isDelta_of_mem_textFrames {cs : List (List Char)} {f : Frame} (h : f ∈ textFrames r cs) :
    IsDelta r f := by
  rcases List.mem_append.mp h with h | h
  · exact isDelta_of_mem_framesFrom h
  · exact isDelta_of_mem h

theorem not_isDelta_done : ¬ IsDelta r .done := by
  rintro ⟨d, h⟩
  cases h

theorem not_isDelta_error (message : String) : ¬ IsDelta r (.data (r.errorPayload message)) := by
  rintro ⟨d, h⟩
  simp [Request.errorPayload, Request.deltaPayload, Request.chunk] at h

theorem not_isDelta_raised (e : PyError) : ¬ IsDelta r (.data (r.raisedPayload e)) := by
  rintro ⟨d, h⟩
  simp [Request.raisedPayload, Request.deltaPayload] at h

theorem not_isDelta_final : ¬ IsDelta r (.data r.finalPayload) := by
  rintro ⟨d, h⟩
  simp [Request.finalPayload, Request.deltaPayload, Request.chunk, Request.choice,
    Request.deltaObject] at h

theorem not_isDelta_usage (u : ℕ × ℕ) : ¬ IsDelta r (.data (r.usagePayload u)) := by
  rintro ⟨d, h⟩
  simp [Request.usagePayload, Request.deltaPayload, Request.chunk] at h

theorem final_ne_error (message : String) : r.finalPayload ≠ r.errorPayload message := by
  simp [Request.finalPayload, Request.errorPayload, Request.chunk]

theorem final_ne_raised (e : PyError) : r.finalPayload ≠ r.raisedPayload e := by
  simp [Request.finalPayload, Request.raisedPayload]

/-! ## The invariant -/

/-- While chunks are taken out: what is written is what the chunks so far give, and the others
are in the queue, with the sentinel behind them once the thread has ended. -/
structure Flowing (r : Request) (s : State) : Prop where
  wait : r.waitError = none
  parser : s.parser = parserAfter r s.fullParts
  frames : s.frames = chunkFrames r s.fullParts
  finished : s.finished = []
  queue : ∃ rest, s.produced = s.fullParts ++ rest ∧
    (s.producer = .running ∧ s.err = none ∧ s.queue = rest.map .chunk ∨
      s.producer = .ended ∧ s.queue = rest.map .chunk ++ [.done])

/-- After the last chunk of a text that is complete. -/
structure Drained (r : Request) (frames : List Frame) (finished : List Generation) (s : State) :
    Prop where
  wait : r.waitError = none
  producer : s.producer = .ended
  err : s.err = none
  fullParts : s.fullParts = s.produced
  parser : s.parser = parserAfter r s.produced
  frames : s.frames = frames
  finished : s.finished = finished

/-- With `rest` still to be written. -/
structure Ending (r : Request) (rest : List Frame) (s : State) : Prop where
  producer : s.producer ≠ .running
  frames : s.frames ++ rest = transcript r s.produced s.err
  finished : s.finished = transcriptLog r s.produced s.err

/-- What is logged, and what a client has of the transcript. -/
structure Shown (r : Request) (s : State) : Prop where
  frames : s.frames <+: transcript r s.produced s.err
  finished : s.finished = [] ∧ .data r.finalPayload ∉ s.frames ∨
    s.finished = transcriptLog r s.produced s.err ∧ .data r.finalPayload ∈ s.frames
  running : s.producer = .running → r.waitError = none ∧ s.frames <+: chunkFrames r s.produced

def Inv (r : Request) (s : State) : Prop :=
  match s.phase with
  | .start => s = init r
  | .loop => Flowing r s
  | .tail => Drained r (chunkFrames r s.produced) [] s
  | .logging => Drained r (textFrames r s.produced) [] s
  | .usage => r.logError = none ∧ Drained r (textFrames r s.produced ++ [.data r.finalPayload])
      [r.generation s.produced.flatten] s
  | .done => Ending r [.done] s
  | .closed => Ending r [] s
  | .gone => Shown r s ∧ .done ∉ s.frames

theorem inv_init (r : Request) : Inv r (init r) := rfl

/-! ### What is shown in each phase -/

theorem not_mem_of_isDelta {fs : List Frame} {f : Frame} (h : ∀ g ∈ fs, IsDelta r g)
    (hf : ¬ IsDelta r f) : f ∉ fs := fun hmem => hf (h f hmem)

theorem final_not_mem_chunkFrames (cs : List (List Char)) :
    .data r.finalPayload ∉ chunkFrames r cs :=
  not_mem_of_isDelta (fun _ => isDelta_of_mem_framesFrom) not_isDelta_final

theorem final_not_mem_textFrames (cs : List (List Char)) :
    .data r.finalPayload ∉ textFrames r cs :=
  not_mem_of_isDelta (fun _ => isDelta_of_mem_textFrames) not_isDelta_final

theorem done_not_mem_chunkFrames (cs : List (List Char)) : .done ∉ chunkFrames r cs :=
  not_mem_of_isDelta (fun _ => isDelta_of_mem_framesFrom) not_isDelta_done

theorem done_not_mem_textFrames (cs : List (List Char)) : .done ∉ textFrames r cs :=
  not_mem_of_isDelta (fun _ => isDelta_of_mem_textFrames) not_isDelta_done

theorem shown_of_flowing {s : State} (h : Flowing r s) : Shown r s := by
  obtain ⟨rest, hproduced, -⟩ := h.queue
  have hchunks : s.frames <+: chunkFrames r s.produced := by
    rw [h.frames]
    exact chunkFrames_isPrefix ⟨rest, hproduced.symm⟩
  refine ⟨hchunks.trans (chunkFrames_isPrefix_transcript h.wait _ _), .inl ⟨h.finished, ?_⟩,
    fun _ => ⟨h.wait, hchunks⟩⟩
  rw [h.frames]
  exact final_not_mem_chunkFrames _

theorem shown_of_drained {frames : List Frame} {s : State} (h : Drained r frames [] s)
    (hframes : frames <+: textFrames r s.produced) : Shown r s := by
  have hfinal : .data r.finalPayload ∉ s.frames := fun hmem =>
    final_not_mem_textFrames _ (hframes.subset (h.frames ▸ hmem))
  refine ⟨?_, .inl ⟨h.finished, hfinal⟩, fun hrun => by simp [h.producer] at hrun⟩
  rw [h.frames]
  unfold transcript
  rw [h.wait, h.err]
  exact hframes.trans (List.prefix_append _ _)

theorem shown_of_usage {s : State} (hlog : r.logError = none)
    (h : Drained r (textFrames r s.produced ++ [.data r.finalPayload])
      [r.generation s.produced.flatten] s) : Shown r s := by
  refine ⟨?_, .inr ⟨?_, ?_⟩, fun hrun => by simp [h.producer] at hrun⟩
  · refine ⟨(r.usage.elim [] fun u => [.data (r.usagePayload u)]) ++ [.done], ?_⟩
    rw [h.frames]
    simp [transcript, closing, h.wait, h.err, hlog]
  · rw [h.finished]
    simp [transcriptLog, h.wait, h.err, hlog]
  · rw [h.frames]
    simp

/-- The last chunk is part of a transcript iff the response is logged. -/
theorem final_mem_transcript_iff (chunks : List (List Char)) (err : Option String) :
    .data r.finalPayload ∈ transcript r chunks err ↔ transcriptLog r chunks err ≠ [] := by
  unfold transcript transcriptLog closing
  cases hwait : r.waitError with
  | some e => simp [final_ne_raised]
  | none =>
    cases err with
    | some message => simp [final_ne_error, final_not_mem_chunkFrames]
    | none =>
      cases hlog : r.logError with
      | some e => simp [final_ne_raised, final_not_mem_textFrames]
      | none => simp

theorem shown_of_ending {rest : List Frame} {s : State} (h : Ending r rest s)
    (hrest : .data r.finalPayload ∉ rest) : Shown r s := by
  refine ⟨⟨rest, h.frames⟩, ?_, fun hrun => absurd hrun h.producer⟩
  have hiff := final_mem_transcript_iff (r := r) s.produced s.err
  rw [← h.frames, List.mem_append, or_iff_left hrest, ← h.finished] at hiff
  by_cases hfinished : s.finished = []
  · exact .inl ⟨hfinished, fun hmem => hiff.mp hmem hfinished⟩
  · exact .inr ⟨h.finished, hiff.mpr hfinished⟩

theorem shown_of_inv {s : State} (h : Inv r s) : Shown r s := by
  unfold Inv at h
  split at h
  · subst h
    exact ⟨List.nil_prefix, .inl ⟨rfl, List.not_mem_nil⟩, fun hrun => by cases hrun⟩
  · exact shown_of_flowing h
  · exact shown_of_drained h (List.prefix_append _ _)
  · exact shown_of_drained h (List.prefix_refl _)
  · exact shown_of_usage h.1 h.2
  · exact shown_of_ending h (by simp)
  · exact shown_of_ending h (by simp)
  · exact h.1

theorem done_mem_transcript (chunks : List (List Char)) (err : Option String) :
    ∃ fs, transcript r chunks err = fs ++ [.done] ∧ .done ∉ fs := by
  unfold transcript closing
  cases r.waitError with
  | some e => exact ⟨[.data (r.raisedPayload e)], rfl, by simp⟩
  | none =>
    cases err with
    | some message =>
      exact ⟨chunkFrames r chunks ++ [.data (r.errorPayload message)], by simp,
        by simp [done_not_mem_chunkFrames]⟩
    | none =>
      cases r.logError with
      | some e =>
        exact ⟨textFrames r chunks ++ [.data (r.raisedPayload e)], by simp,
          by simp [done_not_mem_textFrames]⟩
      | none =>
        refine ⟨textFrames r chunks ++ [.data r.finalPayload] ++
          (r.usage.elim [] fun u => [.data (r.usagePayload u)]), by simp, ?_⟩
        cases r.usage <;> simp [done_not_mem_textFrames]

/-- `[DONE]` is written when the stream is closed, and not before. -/
theorem done_not_mem {s : State} (h : Inv r s) (hphase : s.phase ≠ .closed) : .done ∉ s.frames := by
  unfold Inv at h
  split at h
  · subst h
    exact List.not_mem_nil
  · rw [h.frames]
    exact done_not_mem_chunkFrames _
  · rw [h.frames]
    exact done_not_mem_chunkFrames _
  · rw [h.frames]
    exact done_not_mem_textFrames _
  · rw [h.2.frames]
    simp [done_not_mem_textFrames]
  · obtain ⟨fs, hfs, hdone⟩ := done_mem_transcript (r := r) s.produced s.err
    have heq := h.frames.trans hfs
    rw [List.append_left_inj] at heq
    rwa [heq]
  · exact absurd ‹s.phase = .closed› hphase
  · exact h.2

/-! ## One step -/

/-- A chunk is taken out. -/
theorem flowing_chunk {s : State} {c : List Char} {rest : List (List Char)} (h : Flowing r s)
    (hproduced : s.produced = s.fullParts ++ c :: rest) {queue : List Item}
    (hqueue : s.producer = .running ∧ s.err = none ∧ queue = rest.map .chunk ∨
      s.producer = .ended ∧ queue = rest.map .chunk ++ [.done]) :
    Flowing r ({ s with
      queue, parser := (parse r s.parser c).2, fullParts := s.fullParts ++ [c] }.send r
        (parse r s.parser c).1) where
  wait := h.wait
  parser := by
    show (parse r s.parser c).2 = parserAfter r (s.fullParts ++ [c])
    rw [parserAfter_append, h.parser]
  frames := by
    show s.frames ++ deltaFrames r _ = chunkFrames r (s.fullParts ++ [c])
    rw [chunkFrames_snoc, h.frames, h.parser]
  finished := h.finished
  queue := ⟨rest, by simpa [State.send] using hproduced, hqueue⟩

/-- The sentinel is taken out: everything that was produced has been consumed. -/
theorem inv_sentinel {s t : State} {queue : List Item} (h : Flowing r s)
    (hproduced : s.produced = s.fullParts) (hended : s.producer = .ended)
    (hqueue : s.queue = .done :: queue) (hphase : s.phase = .loop)
    (hstep : s.consume r = some t) : Inv r t := by
  simp only [State.consume, hphase, hqueue] at hstep
  cases herr : s.err with
  | some message =>
    rw [herr] at hstep
    obtain rfl := Option.some.inj hstep
    refine ⟨by simp [State.write, hended], ?_, ?_⟩
    · simp [State.write, transcript, h.wait, h.frames, hproduced]
    · simp [State.write, transcriptLog, h.wait, h.finished]
  | none =>
    rw [herr] at hstep
    obtain rfl := Option.some.inj hstep
    exact ⟨h.wait, hended, rfl, hproduced.symm, by rw [h.parser]; simp [hproduced],
      by rw [h.frames]; simp [hproduced], h.finished⟩

theorem inv_loop {s t : State} (h : Flowing r s) (hphase : s.phase = .loop)
    (hstep : s.consume r = some t) : Inv r t := by
  obtain ⟨rest, hproduced, hqueue⟩ := h.queue
  cases rest with
  | nil =>
    rcases hqueue with ⟨-, -, hq⟩ | ⟨hended, hq⟩
    · simp [State.consume, hphase, hq] at hstep
    · exact inv_sentinel h (by simpa using hproduced) hended hq hphase hstep
  | cons c rest =>
    obtain ⟨queue, hq, hqueue⟩ : ∃ queue, s.queue = .chunk c :: queue ∧
        (s.producer = .running ∧ s.err = none ∧ queue = rest.map .chunk ∨
          s.producer = .ended ∧ queue = rest.map .chunk ++ [.done]) := by
      rcases hqueue with ⟨hrun, herr, hq⟩ | ⟨hended, hq⟩
      · exact ⟨_, hq, .inl ⟨hrun, herr, rfl⟩⟩
      · exact ⟨_, hq, .inr ⟨hended, rfl⟩⟩
    simp only [State.consume, hphase, hq] at hstep
    obtain rfl := Option.some.inj hstep
    have hnext := flowing_chunk h hproduced hqueue
    unfold Inv
    simpa [State.send, hphase] using hnext

theorem inv_consume {s t : State} (h : Inv r s) (hstep : s.consume r = some t) : Inv r t := by
  unfold Inv at h
  split at h
  · subst h
    cases hwait : r.waitError with
    | some e =>
      simp only [State.consume, init, hwait] at hstep
      obtain rfl := Option.some.inj hstep
      exact ⟨by simp [State.write], by simp [State.write, transcript, hwait],
        by simp [State.write, transcriptLog, hwait]⟩
    | none =>
      simp only [State.consume, init, hwait] at hstep
      obtain rfl := Option.some.inj hstep
      exact ⟨hwait, rfl, rfl, rfl, [], rfl, .inl ⟨rfl, rfl, rfl⟩⟩
  · exact inv_loop h ‹_› hstep
  · rename_i hphase
    simp only [State.consume, hphase] at hstep
    obtain rfl := Option.some.inj hstep
    exact ⟨h.wait, h.producer, h.err, h.fullParts, h.parser,
      by simp [State.send, textFrames, h.frames, h.parser], h.finished⟩
  · rename_i hphase
    simp only [State.consume, hphase] at hstep
    cases hlog : r.logError with
    | some e =>
      rw [hlog] at hstep
      obtain rfl := Option.some.inj hstep
      exact ⟨by simp [State.write, h.producer],
        by simp [State.write, transcript, h.wait, h.err, hlog, h.frames],
        by simp [State.write, transcriptLog, h.wait, h.err, hlog, h.finished]⟩
    | none =>
      rw [hlog] at hstep
      obtain rfl := Option.some.inj hstep
      exact ⟨hlog, h.wait, h.producer, h.err, h.fullParts, h.parser,
        by simp [State.write, h.frames], by simp [State.write, h.finished, h.fullParts]⟩
  · rename_i hphase
    obtain ⟨hlog, h⟩ := h
    simp only [State.consume, hphase] at hstep
    obtain rfl := Option.some.inj hstep
    exact ⟨by simp [State.write, h.producer],
      by simp [State.write, transcript, closing, h.wait, h.err, hlog, h.frames],
      by simp [State.write, transcriptLog, h.wait, h.err, hlog, h.finished]⟩
  · rename_i hphase
    simp only [State.consume, hphase] at hstep
    obtain rfl := Option.some.inj hstep
    exact ⟨h.producer, by simpa [State.write] using h.frames, h.finished⟩
  · rename_i hphase
    simp [State.consume, hphase] at hstep
  · rename_i hphase
    simp [State.consume, hphase] at hstep

/-- While the thread runs, the consumer takes chunks out or the client has gone. -/
theorem phase_of_running {s : State} (h : Inv r s) (hrun : s.producer = .running) :
    s.phase = .loop ∨ s.phase = .gone := by
  unfold Inv at h
  split at h
  · subst h
    cases hrun
  · exact .inl ‹_›
  · simp [h.producer] at hrun
  · simp [h.producer] at hrun
  · simp [h.2.producer] at hrun
  · exact absurd hrun h.producer
  · exact absurd hrun h.producer
  · exact .inr ‹_›

/-- While the thread runs, nothing is logged and no final payload is written. -/
theorem Shown.not_finished {s : State} (h : Shown r s) (hrun : s.producer = .running) :
    s.finished = [] ∧ .data r.finalPayload ∉ s.frames := by
  obtain ⟨-, hframes⟩ := h.running hrun
  have hfinal : .data r.finalPayload ∉ s.frames := fun hmem =>
    final_not_mem_chunkFrames _ (hframes.subset hmem)
  rcases h.finished with h | h
  · exact h
  · exact absurd h.2 hfinal

theorem inv_chunk {s : State} (h : Inv r s) (hrun : s.producer = .running) (c : List Char) :
    Inv r { s with queue := s.queue ++ [.chunk c], produced := s.produced ++ [c] } := by
  rcases phase_of_running h hrun with hphase | hphase
  · have hflow : Flowing r s := by simpa [Inv, hphase] using h
    obtain ⟨rest, hproduced, hqueue⟩ := hflow.queue
    have herr : s.err = none ∧ s.queue = rest.map .chunk := by
      rcases hqueue with ⟨-, herr, hq⟩ | ⟨hended, -⟩
      · exact ⟨herr, hq⟩
      · simp [hended] at hrun
    simp only [Inv, hphase]
    exact ⟨hflow.wait, hflow.parser, hflow.frames, hflow.finished, rest ++ [c],
      by simp [hproduced], .inl ⟨hrun, herr.1, by simp [herr.2]⟩⟩
  · obtain ⟨hshown, hdone⟩ : Shown r s ∧ .done ∉ s.frames := by simpa [Inv, hphase] using h
    obtain ⟨hwait, hframes⟩ := hshown.running hrun
    have hmore : s.frames <+: chunkFrames r (s.produced ++ [c]) :=
      hframes.trans (chunkFrames_isPrefix (List.prefix_append _ _))
    have hfinished := hshown.not_finished hrun
    simp only [Inv, hphase]
    exact ⟨⟨hmore.trans (chunkFrames_isPrefix_transcript hwait _ _), .inl hfinished,
      fun _ => ⟨hwait, hmore⟩⟩, hdone⟩

/-- The thread ends, with or without an exception. -/
theorem inv_end {s : State} (h : Inv r s) (hrun : s.producer = .running) (err : Option String) :
    Inv r { s with producer := .ended, err := err, queue := s.queue ++ [.done] } := by
  rcases phase_of_running h hrun with hphase | hphase
  · have hflow : Flowing r s := by simpa [Inv, hphase] using h
    obtain ⟨rest, hproduced, hqueue⟩ := hflow.queue
    have hq : s.queue = rest.map .chunk := by
      rcases hqueue with ⟨-, -, hq⟩ | ⟨hended, -⟩
      · exact hq
      · simp [hended] at hrun
    simp only [Inv, hphase]
    exact ⟨hflow.wait, hflow.parser, hflow.frames, hflow.finished, rest, hproduced,
      .inr ⟨rfl, by simp [hq]⟩⟩
  · obtain ⟨hshown, hdone⟩ : Shown r s ∧ .done ∉ s.frames := by simpa [Inv, hphase] using h
    obtain ⟨hwait, hframes⟩ := hshown.running hrun
    have hfinished := hshown.not_finished hrun
    simp only [Inv, hphase]
    exact ⟨⟨hframes.trans (chunkFrames_isPrefix_transcript hwait _ _), .inl hfinished,
      fun hrun => by cases hrun⟩, hdone⟩

theorem inv_disconnect {s : State} (h : Inv r s) (hphase : s.phase ≠ .closed) :
    Inv r { s with phase := .gone } := by
  have hshown := shown_of_inv h
  have hdone := done_not_mem h hphase
  exact ⟨⟨hshown.frames, hshown.finished, hshown.running⟩, hdone⟩

theorem inv_step (s : State) (a : Action) (t : State) (h : Inv r s) (hstep : step r s a = some t) :
    Inv r t := by
  cases a with
  | chunk c =>
    simp only [step] at hstep
    split at hstep
    · rename_i hrun
      obtain rfl := Option.some.inj hstep
      exact inv_chunk h hrun.1 c
    · cases hstep
  | raise message =>
    simp only [step] at hstep
    split at hstep
    · rename_i hrun
      obtain rfl := Option.some.inj hstep
      exact inv_end h hrun (some message)
    · cases hstep
  | finish =>
    simp only [step] at hstep
    split at hstep
    · rename_i hrun
      obtain rfl := Option.some.inj hstep
      exact inv_end h hrun s.err
    · cases hstep
  | consume => exact inv_consume h hstep
  | disconnect =>
    simp only [step] at hstep
    split at hstep
    · cases hstep
    · rename_i hphase
      obtain rfl := Option.some.inj hstep
      exact inv_disconnect h fun hclosed => hphase (.inl hclosed)

/-! ## The first token -/

/-- The latency is recorded once, with the first delta that is written. -/
structure Observed (r : Request) (s : State) : Prop where
  recorded : s.recorded = if s.ttftObserved then 1 else 0
  observed : s.ttftObserved = true ↔ ∃ f ∈ s.frames, IsDelta r f

theorem observed_congr {s t : State} (h : Observed r s) (hrecorded : t.recorded = s.recorded)
    (hobserved : t.ttftObserved = s.ttftObserved) (hframes : t.frames = s.frames) :
    Observed r t := by
  refine ⟨?_, ?_⟩
  · rw [hrecorded, hobserved]
    exact h.recorded
  · rw [hobserved, hframes]
    exact h.observed

theorem observed_send {s : State} (h : Observed r s) (ds : List (Reasoning.Delta Char)) :
    Observed r (s.send r ds) := by
  obtain ⟨hrecorded, hobserved⟩ := h
  have hdelta : (∃ f ∈ deltaFrames r ds, IsDelta r f) ↔ (deltaFrames r ds).isEmpty = false := by
    rw [List.isEmpty_eq_false_iff_exists_mem]
    exact ⟨fun ⟨f, hf, _⟩ => ⟨f, hf⟩, fun ⟨f, hf⟩ => ⟨f, hf, isDelta_of_mem hf⟩⟩
  constructor
  · simp only [State.send, hrecorded]
    cases s.ttftObserved <;> cases (deltaFrames r ds).isEmpty <;> rfl
  · simp only [State.send, Bool.or_eq_true, hobserved, Bool.not_eq_true', ← hdelta,
      List.mem_append, or_and_right, exists_or]

theorem observed_write {s : State} (h : Observed r s) {frames : List Frame}
    (hframes : ∀ f ∈ frames, ¬ IsDelta r f) (phase : Phase) :
    Observed r (s.write frames phase) := by
  refine ⟨h.recorded, h.observed.trans ?_⟩
  simp only [State.write, List.mem_append, or_and_right, exists_or]
  exact (or_iff_left fun ⟨f, hf, hdelta⟩ => hframes f hf hdelta).symm

theorem observed_consume {s t : State} (h : Observed r s) (hstep : s.consume r = some t) :
    Observed r t := by
  have hone : ∀ f : Frame, ¬ IsDelta r f → ∀ g ∈ [f], ¬ IsDelta r g := fun f hf g hg =>
    List.mem_singleton.mp hg ▸ hf
  unfold State.consume at hstep
  split at hstep
  · split at hstep <;> obtain rfl := Option.some.inj hstep
    · exact observed_write h (hone _ (not_isDelta_raised _)) _
    · exact observed_congr h rfl rfl rfl
  · split at hstep
    · cases hstep
    · obtain rfl := Option.some.inj hstep
      refine observed_send ?_ _
      exact observed_congr h rfl rfl rfl
    · split at hstep <;> obtain rfl := Option.some.inj hstep
      · refine observed_write ?_ (hone _ (not_isDelta_error _)) _
        exact observed_congr h rfl rfl rfl
      · exact observed_congr h rfl rfl rfl
  · obtain rfl := Option.some.inj hstep
    exact observed_congr (observed_send h _) rfl rfl rfl
  · split at hstep <;> obtain rfl := Option.some.inj hstep
    · exact observed_write h (hone _ (not_isDelta_raised _)) _
    · exact observed_congr (observed_write h (hone _ not_isDelta_final) .usage) rfl rfl rfl
  · obtain rfl := Option.some.inj hstep
    refine observed_write h ?_ _
    cases r.usage with
    | none => simp
    | some u => exact hone _ (not_isDelta_usage u)
  · obtain rfl := Option.some.inj hstep
    exact observed_write h (hone _ not_isDelta_done) _
  · cases hstep
  · cases hstep

theorem observed_step (s : State) (a : Action) (t : State) (h : Observed r s)
    (hstep : step r s a = some t) : Observed r t := by
  cases a with
  | consume => exact observed_consume h hstep
  | chunk c | raise message | finish =>
    simp only [step] at hstep
    split at hstep
    · obtain rfl := Option.some.inj hstep
      exact observed_congr h rfl rfl rfl
    · cases hstep
  | disconnect =>
    simp only [step] at hstep
    split at hstep
    · cases hstep
    · obtain rfl := Option.some.inj hstep
      exact observed_congr h rfl rfl rfl

/-! ## What a client sees -/

/-- **Refinement.** However thread and consumer take turns, a client has a part of the transcript
from its beginning, and all of it once the stream is closed, which `[DONE]` says. The response is
logged and remembered exactly if the last chunk was written, and the time to the first token is
recorded at most once, with the first delta. -/
theorem refines_transcript (r : Request) (actions : List Action) (s : State)
    (hrun : Runs.exec (step r) (init r) actions = some s) :
    s.frames <+: transcript r s.produced s.err ∧
      (s.phase = .closed → s.frames = transcript r s.produced s.err) ∧
      (.done ∈ s.frames ↔ s.phase = .closed) ∧
      (.data r.finalPayload ∈ s.frames → s.finished = [r.generation s.produced.flatten]) ∧
      (.data r.finalPayload ∉ s.frames → s.finished = []) ∧
      s.recorded ≤ 1 ∧ (s.recorded = 1 ↔ ∃ f ∈ s.frames, IsDelta r f) := by
  have hinv : Inv r s := Runs.exec_preserves inv_step (inv_init r) hrun
  have hobserved : Observed r s := Runs.exec_preserves observed_step
    ⟨rfl, by simp [init]⟩ hrun
  have hshown := shown_of_inv hinv
  have hclosed : s.phase = .closed → s.frames = transcript r s.produced s.err := by
    intro hphase
    have hending : Ending r [] s := by simpa [Inv, hphase] using hinv
    simpa using hending.frames
  refine ⟨hshown.frames, hclosed, ⟨?_, ?_⟩, ?_, ?_, ?_, ?_⟩
  · intro hmem
    by_contra hphase
    exact done_not_mem hinv hphase hmem
  · intro hphase
    obtain ⟨fs, hfs, -⟩ := done_mem_transcript (r := r) s.produced s.err
    rw [hclosed hphase, hfs]
    exact List.mem_append_right _ (List.mem_singleton_self _)
  · intro hfinal
    have hlog := (final_mem_transcript_iff _ _).mp (hshown.frames.subset hfinal)
    rcases hshown.finished with h | h
    · exact absurd hfinal h.2
    · rw [h.1]
      unfold transcriptLog at hlog ⊢
      split
      · rfl
      · rename_i hfalse
        simp [hfalse] at hlog
  · intro hfinal
    rcases hshown.finished with h | h
    · exact h.1
    · exact absurd h.2 hfinal
  · rw [hobserved.recorded]
    split <;> omega
  · rw [← hobserved.observed, hobserved.recorded]
    cases s.ttftObserved <;> simp

/-! ### A stream of one chunk -/

def hello : Request where
  responseId := "r1"
  model := "m"
  requestId := ""
  prompt := "hi"
  parser := none
  waitError := none
  logError := none
  modelFingerprint := "8f14e45fceea167a"
  ts := 0
  latency := 1
  commitCursor := 7
  usage := none
  isSpace := fun c => c = ' '

def helloActions : List Action :=
  [.consume, .chunk ['y', 'o'], .finish] ++ List.replicate 6 .consume

def helloFrames : List Frame :=
  [.data (hello.deltaPayload ⟨[], ['y', 'o']⟩), .data hello.finalPayload, .done]

def helloEnd : State where
  producer := .ended
  queue := []
  err := none
  phase := .closed
  parser := ⟨.content, []⟩
  fullParts := [['y', 'o']]
  frames := helloFrames
  ttftObserved := true
  recorded := 1
  finished := [hello.generation ['y', 'o']]
  produced := [['y', 'o']]

theorem exec_hello : Runs.exec (step hello) (init hello) helloActions = some helloEnd := rfl

theorem refines_transcript_hello :
    helloEnd.frames = transcript hello [['y', 'o']] none ∧ .done ∈ helloEnd.frames :=
  have h := refines_transcript hello helloActions helloEnd exec_hello
  ⟨h.2.1 rfl, h.2.2.1.mpr rfl⟩

/-! ## Getting to the end -/

/-- Steps of the consumer that are left once the thread has ended. -/
def left (s : State) : ℕ :=
  match s.phase with
  | .start | .gone => 0
  | .loop => s.queue.length + 4
  | .tail => 4
  | .logging => 3
  | .usage => 2
  | .done => 1
  | .closed => 0

end Trainfer.ChatStream
