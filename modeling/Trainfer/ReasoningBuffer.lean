import Trainfer.Reasoning

/-! What the streaming parser keeps back between two calls of `feed`.

The text so far is always what was returned, the matched tags and the buffer, and the tag that the
parser waits for is not in the buffer (`kept_feeds`). The buffer is shorter than that tag, unless
the tag has one character: then `buf[:-0]` releases nothing (`bufferBounded_iff`). -/

namespace Trainfer.Reasoning

open Find (find)

universe u
variable {α : Type u}

/-- The tag that the parser waits for. -/
def awaited (p : ReasoningParser α) : Mode → Option (List α)
  | .pendingStart => some p.startToken
  | .reasoning => some p.endToken
  | .content => none

/-- The start tag, where the model writes it. -/
def opening (p : ReasoningParser α) : List α := if p.startInPrompt then [] else p.startToken

/-- The text is what was returned, the matched tags and the buffer, in this order. -/
def Accounted (p : ReasoningParser α) (text : List α) (d : Delta α) (s : ParserState α) : Prop :=
  match s.mode with
  | .pendingStart => p.startInPrompt = false ∧ d.reasoning = [] ∧ text = d.content ++ s.buf
  | .reasoning =>
    (p.startInPrompt = true → d.content = []) ∧
      text = d.content ++ opening p ++ d.reasoning ++ s.buf
  | .content => s.buf = [] ∧ ∃ before after, d.content = before ++ after ∧
      (p.startInPrompt = true → before = []) ∧
      text = before ++ opening p ++ d.reasoning ++ p.endToken ++ after

/-- What holds after every call, whatever the lengths of the tags. -/
structure Kept (p : ReasoningParser α) (text : List α) (d : Delta α) (s : ParserState α) :
    Prop where
  accounted : Accounted p text d s
  noTag : ∀ tag ∈ awaited p s.mode, ¬ tag <:+: s.buf

/-- The documented bound. -/
def Bounded (p : ReasoningParser α) (s : ParserState α) : Prop :=
  s.buf.length ≤ max p.startToken.length p.endToken.length - 1

/-- The buffer is shorter than the tag that the parser waits for. -/
def Shorter (p : ReasoningParser α) (s : ParserState α) : Prop :=
  ∀ tag ∈ awaited p s.mode, s.buf.length < tag.length

/-- No tag that the parser looks for has one character only. -/
def LongTags (p : ReasoningParser α) : Prop :=
  2 ≤ p.endToken.length ∧ (p.startInPrompt = true ∨ 2 ≤ p.startToken.length)

variable [DecidableEq α]

/-- All that a list of deltas returns, and the state behind them. -/
def feeds (p : ReasoningParser α) (s : ParserState α) : List (List α) → Delta α × ParserState α
  | [] => (⟨[], []⟩, s)
  | delta :: deltas =>
    let (out, s) := feed p s delta
    let (rest, s) := feeds p s deltas
    (out.join rest, s)

variable {p : ReasoningParser α} {text rOut cOut buf delta : List α} {d : Delta α}
  {s : ParserState α}

/-! ## One call -/

theorem feedReasoning_found {idx : Nat} (h : find p.endToken buf = some idx) :
    feedReasoning p rOut cOut buf =
      feedContent (rOut ++ buf.take idx) cOut (buf.drop (idx + p.endToken.length)) := by
  simp only [feedReasoning, h]

theorem feedReasoning_held (h : find p.endToken buf = none) :
    feedReasoning p rOut cOut buf = (⟨rOut ++ (holdBack p.endToken buf).1, cOut⟩,
      ⟨.reasoning, (holdBack p.endToken buf).2⟩) := by
  simp only [feedReasoning, h]

theorem feedPendingStart_found {idx : Nat} (h : find p.startToken buf = some idx) :
    feedPendingStart p rOut cOut buf =
      feedReasoning p rOut (cOut ++ buf.take idx) (buf.drop (idx + p.startToken.length)) := by
  simp only [feedPendingStart, h]

theorem feedPendingStart_held (h : find p.startToken buf = none) :
    feedPendingStart p rOut cOut buf = (⟨rOut, cOut ++ (holdBack p.startToken buf).1⟩,
      ⟨.pendingStart, (holdBack p.startToken buf).2⟩) := by
  simp only [feedPendingStart, h]

theorem feedReasoning_join (p : ReasoningParser α) (rOut cOut buf : List α) :
    feedReasoning p rOut cOut buf = (Delta.join ⟨rOut, cOut⟩ (feedReasoning p [] [] buf).1,
      (feedReasoning p [] [] buf).2) := by
  cases hfind : find p.endToken buf with
  | some idx => simp [feedReasoning_found hfind, feedContent, Delta.join]
  | none => simp [feedReasoning_held hfind, Delta.join]

theorem feedPendingStart_join (p : ReasoningParser α) (rOut cOut buf : List α) :
    feedPendingStart p rOut cOut buf =
      (Delta.join ⟨rOut, cOut⟩ (feedPendingStart p [] [] buf).1,
        (feedPendingStart p [] [] buf).2) := by
  cases hfind : find p.startToken buf with
  | some idx =>
    rw [feedPendingStart_found hfind, feedPendingStart_found hfind, feedReasoning_join p rOut,
      feedReasoning_join p [] (_ ++ _)]
    simp [Delta.join]
  | none => simp [feedPendingStart_held hfind, Delta.join]

omit [DecidableEq α] in
/-- Of a buffer without the tag a part is returned and the rest is kept. -/
theorem append_held (tag out buf : List α) :
    out ++ buf = out ++ (holdBack tag buf).1 ++ (holdBack tag buf).2 := by
  rw [List.append_assoc, holdBack_append]

theorem noTag_held {mode : Mode} {tag : List α} (hmode : awaited p mode = some tag)
    (hfind : find tag buf = none) : ∀ t ∈ awaited p mode, ¬ t <:+: (holdBack tag buf).2 := by
  intro t ht
  obtain rfl := Option.some.inj (hmode.symm.trans ht)
  exact Find.find_eq_none_iff.mp (find_holdBack hfind)

omit [DecidableEq α] in
theorem kept_content (h : Accounted p text ⟨rOut, cOut⟩ ⟨.content, []⟩) (buf : List α) :
    Kept p (text ++ buf) (feedContent rOut cOut buf).1 (feedContent rOut cOut buf).2 := by
  obtain ⟨-, before, after, rfl, hbefore, rfl⟩ := h
  refine ⟨⟨rfl, before, after ++ buf, ?_, hbefore, ?_⟩, by simp [feedContent, awaited]⟩
  · simp [feedContent]
  · simp [feedContent]

theorem kept_reasoning (h : Accounted p text ⟨rOut, cOut⟩ ⟨.reasoning, buf⟩) :
    Kept p text (feedReasoning p rOut cOut buf).1 (feedReasoning p rOut cOut buf).2 := by
  obtain ⟨hprompt, htext⟩ := h
  cases hfind : find p.endToken buf with
  | some idx =>
    have hcut : buf = buf.take idx ++ p.endToken ++ buf.drop (idx + p.endToken.length) :=
      Find.cut_eq_some (by rw [Find.cut, hfind]; rfl)
    have hcontent : Accounted p (cOut ++ opening p ++ (rOut ++ buf.take idx) ++ p.endToken)
        ⟨rOut ++ buf.take idx, cOut⟩ ⟨.content, []⟩ :=
      ⟨rfl, cOut, [], by simp, hprompt, by simp⟩
    have hkept := kept_content hcontent (buf.drop (idx + p.endToken.length))
    have hsame : text = cOut ++ opening p ++ (rOut ++ buf.take idx) ++ p.endToken ++
        buf.drop (idx + p.endToken.length) := by
      rw [htext]
      conv_lhs => rw [hcut]
      simp only [List.append_assoc]
    rw [feedReasoning_found hfind, hsame]
    exact hkept
  | none =>
    rw [feedReasoning_held hfind]
    refine ⟨⟨hprompt, ?_⟩, noTag_held rfl hfind⟩
    rw [htext, append_held p.endToken]
    simp only [List.append_assoc]

theorem kept_pendingStart (h : Accounted p text ⟨rOut, cOut⟩ ⟨.pendingStart, buf⟩) :
    Kept p text (feedPendingStart p rOut cOut buf).1 (feedPendingStart p rOut cOut buf).2 := by
  obtain ⟨hprompt, hnone, htext⟩ := h
  have hopening : opening p = p.startToken := by simp [opening, hprompt]
  cases hfind : find p.startToken buf with
  | some idx =>
    have hcut : buf = buf.take idx ++ p.startToken ++ buf.drop (idx + p.startToken.length) :=
      Find.cut_eq_some (by rw [Find.cut, hfind]; rfl)
    rw [feedPendingStart_found hfind]
    refine kept_reasoning ⟨by simp [hprompt], ?_⟩
    rw [htext, hopening, show rOut = [] from hnone]
    conv_lhs => rw [hcut]
    simp only [List.append_assoc, List.append_nil]
  | none =>
    rw [feedPendingStart_held hfind]
    refine ⟨⟨hprompt, hnone, ?_⟩, noTag_held rfl hfind⟩
    rw [htext, append_held p.startToken]

theorem kept_feed (h : Accounted p text d s) (delta : List α) :
    Kept p (text ++ delta) (d.join (feed p s delta).1) (feed p s delta).2 := by
  obtain ⟨mode, buf⟩ := s
  cases mode with
  | pendingStart =>
    obtain ⟨hprompt, hnone, htext⟩ := h
    have hfed : Accounted p (text ++ delta) d ⟨.pendingStart, buf ++ delta⟩ :=
      ⟨hprompt, hnone, by rw [htext]; simp⟩
    have hkept := kept_pendingStart hfed
    rw [feedPendingStart_join] at hkept
    exact hkept
  | reasoning =>
    obtain ⟨hprompt, htext⟩ := h
    have hfed : Accounted p (text ++ delta) d ⟨.reasoning, buf ++ delta⟩ :=
      ⟨hprompt, by rw [htext]; simp⟩
    have hkept := kept_reasoning hfed
    rw [feedReasoning_join] at hkept
    exact hkept
  | content =>
    have hbuf : buf = [] := h.1
    subst hbuf
    simpa [feed, feedContent, Delta.join] using kept_content h delta

theorem kept_feeds (h : Kept p text d s) (deltas : List (List α)) :
    Kept p (text ++ deltas.flatten) (d.join (feeds p s deltas).1) (feeds p s deltas).2 := by
  induction deltas generalizing text d s with
  | nil => simpa [feeds, Delta.join] using h
  | cons delta deltas ih =>
    have hstep := ih (kept_feed h.accounted delta)
    rw [List.append_assoc, ← List.flatten_cons] at hstep
    simpa [feeds, Delta.join] using hstep

omit [DecidableEq α] in
theorem kept_makeState (hstart : p.startToken ≠ []) (hend : p.endToken ≠ []) :
    Kept p [] ⟨[], []⟩ (makeState p) := by
  unfold makeState
  cases hprompt : p.startInPrompt with
  | true =>
    refine ⟨⟨fun _ => rfl, by simp [opening, hprompt]⟩, ?_⟩
    rintro tag ⟨⟩
    simpa using hend
  | false =>
    refine ⟨⟨hprompt, rfl, rfl⟩, ?_⟩
    rintro tag ⟨⟩
    simpa using hstart

/-- What a stream returns, with the tail that `finalize` flushes. -/
theorem streamFrom_eq_feeds (p : ReasoningParser α) (s : ParserState α) (deltas : List (List α)) :
    streamFrom p s deltas = (feeds p s deltas).1.join (finalize (feeds p s deltas).2) := by
  induction deltas generalizing s with
  | nil => simp [streamFrom, feeds, Delta.join]
  | cons delta deltas ih =>
    show Delta.join (feed p s delta).1 (streamFrom p (feed p s delta).2 deltas) =
      Delta.join (Delta.join (feed p s delta).1 (feeds p (feed p s delta).2 deltas).1)
        (finalize (feeds p (feed p s delta).2 deltas).2)
    rw [ih]
    simp [Delta.join]

/-! ## The length of the buffer -/

omit [DecidableEq α] in
theorem length_holdBack {tag : List α} (h : 2 ≤ tag.length) (buf : List α) :
    (holdBack tag buf).2.length < tag.length := by
  unfold holdBack
  simp only
  split
  · rename_i hlt
    obtain ⟨n, hn⟩ : ∃ n : Nat, (tag.length : Int) - 1 = n := ⟨tag.length - 1, by omega⟩
    have hlength : (Slices.sliceFrom buf (-(n : Int))).length = n :=
      Slices.length_sliceFrom_neg (by omega) (by omega)
    simp only [hn, hlength]
    omega
  · simp only
    omega

omit [DecidableEq α] in
/-- `buf[-0:]` is the whole buffer. -/
theorem holdBack_one {tag : List α} (h : tag.length = 1) (buf : List α) :
    (holdBack tag buf).2 = buf := by
  have hhold : (tag.length : Int) - 1 = 0 := by omega
  unfold holdBack
  simp only [hhold]
  split
  · simp [Slices.sliceFrom]
  · rfl

theorem shorter_feedReasoning (h : 2 ≤ p.endToken.length) :
    Shorter p (feedReasoning p rOut cOut buf).2 := by
  cases hfind : find p.endToken buf with
  | some idx =>
    rw [feedReasoning_found hfind]
    simp [Shorter, feedContent, awaited]
  | none =>
    rw [feedReasoning_held hfind]
    rintro tag ⟨⟩
    exact length_holdBack h buf

theorem shorter_feed (hlong : LongTags p) (h : Accounted p text d s) (delta : List α) :
    Shorter p (feed p s delta).2 := by
  obtain ⟨mode, buf⟩ := s
  cases mode with
  | pendingStart =>
    have hstart : 2 ≤ p.startToken.length := hlong.2.resolve_left (by simp [h.1])
    show Shorter p (feedPendingStart p [] [] (buf ++ delta)).2
    cases hfind : find p.startToken (buf ++ delta) with
    | some idx =>
      rw [feedPendingStart_found hfind]
      exact shorter_feedReasoning hlong.1
    | none =>
      rw [feedPendingStart_held hfind]
      rintro tag ⟨⟩
      exact length_holdBack hstart (buf ++ delta)
  | reasoning => exact shorter_feedReasoning hlong.1
  | content => simp [Shorter, feed, feedContent, awaited]

theorem shorter_feeds (hlong : LongTags p) (hs : Shorter p s) (h : Kept p text d s)
    (deltas : List (List α)) : Shorter p (feeds p s deltas).2 := by
  induction deltas generalizing text d s with
  | nil => exact hs
  | cons delta deltas ih =>
    exact ih (shorter_feed hlong h.accounted delta) (kept_feed h.accounted delta)

omit [DecidableEq α] in
theorem bounded_of_shorter (hs : Shorter p s) (h : Accounted p text d s) : Bounded p s := by
  obtain ⟨mode, buf⟩ := s
  unfold Bounded
  cases mode with
  | pendingStart =>
    have hlt : buf.length < p.startToken.length := hs _ rfl
    simp only
    omega
  | reasoning =>
    have hlt : buf.length < p.endToken.length := hs _ rfl
    simp only
    omega
  | content =>
    have hbuf : buf = [] := h.1
    simp [hbuf]

/-! ## Tags of one character -/

theorem feeds_append (p : ReasoningParser α) (s : ParserState α) (xs ys : List (List α)) :
    (feeds p s (xs ++ ys)).2 = (feeds p (feeds p s xs).2 ys).2 := by
  induction xs generalizing s with
  | nil => rfl
  | cons x xs ih => exact ih _

theorem find_replicate {tag : List α} {a b : α} (htag : tag = [a]) (hne : b ≠ a) (n : Nat) :
    find tag (List.replicate n b) = none := by
  rw [Find.find_eq_none_iff, htag]
  intro hinfix
  have hmem := hinfix.subset List.mem_cons_self
  exact hne (List.eq_of_mem_replicate hmem).symm

/-- The parser can come to the reasoning with an empty buffer. -/
theorem exists_feeds_reasoning (hend : p.endToken ≠ []) :
    ∃ deltas, (feeds p (makeState p) deltas).2 = ⟨.reasoning, []⟩ := by
  cases hprompt : p.startInPrompt with
  | true => exact ⟨[], by simp [feeds, makeState, hprompt]⟩
  | false =>
    have hfound : find p.startToken p.startToken = some 0 :=
      Find.find_eq_some_iff.mpr ⟨Nat.zero_le _, by simp, by simp⟩
    have hnone : find p.endToken [] = none := by simp [find, hend]
    have hheld : (holdBack p.endToken []).2 = [] :=
      (List.append_eq_nil_iff.mp (holdBack_append p.endToken [])).2
    refine ⟨[p.startToken], ?_⟩
    have hmake : makeState p = ⟨.pendingStart, []⟩ := by simp [makeState, hprompt]
    show (feed p (makeState p) p.startToken).2 = _
    rw [hmake]
    show (feedPendingStart p [] [] p.startToken).2 = _
    rw [feedPendingStart_found hfound, Nat.zero_add, List.drop_length, feedReasoning_held hnone,
      hheld]

theorem not_bounded_of_one [Nontrivial α] {mode : Mode} {tag : List α}
    (hmode : awaited p mode = some tag) (hone : tag.length = 1) :
    ∃ delta, ¬ Bounded p (feed p ⟨mode, []⟩ delta).2 := by
  obtain ⟨a, htag⟩ := List.length_eq_one_iff.mp hone
  obtain ⟨b, hne⟩ := exists_ne a
  have hfind := find_replicate htag hne (max p.startToken.length p.endToken.length)
  refine ⟨List.replicate (max p.startToken.length p.endToken.length) b, ?_⟩
  have hbuf : (feed p ⟨mode, []⟩
      (List.replicate (max p.startToken.length p.endToken.length) b)).2.buf =
        List.replicate (max p.startToken.length p.endToken.length) b := by
    cases mode with
    | pendingStart =>
      cases hmode
      show (feedPendingStart p [] [] ([] ++ List.replicate _ b)).2.buf = _
      rw [List.nil_append, feedPendingStart_held hfind]
      exact holdBack_one hone _
    | reasoning =>
      cases hmode
      show (feedReasoning p [] [] ([] ++ List.replicate _ b)).2.buf = _
      rw [List.nil_append, feedReasoning_held hfind]
      exact holdBack_one hone _
    | content => cases hmode
  have hpos : 1 ≤ max p.startToken.length p.endToken.length := by
    cases mode with
    | pendingStart =>
      cases hmode
      omega
    | reasoning =>
      cases hmode
      omega
    | content => cases hmode
  rw [Bounded, hbuf, List.length_replicate]
  omega

/-- A bounded buffer excludes tags of one character: the parser can be made to wait for one. -/
theorem longTags_of_bounded [Nontrivial α] (hstart : p.startToken ≠ []) (hend : p.endToken ≠ [])
    (h : ∀ deltas, Bounded p (feeds p (makeState p) deltas).2) : LongTags p := by
  have hlength : ∀ (deltas : List (List α)) (mode : Mode) (tag : List α),
      (feeds p (makeState p) deltas).2 = ⟨mode, []⟩ → awaited p mode = some tag →
      tag.length ≠ 1 := by
    intro deltas mode tag hstate hmode hone
    obtain ⟨delta, hdelta⟩ := not_bounded_of_one hmode hone
    have hbound := h (deltas ++ [delta])
    rw [feeds_append, hstate] at hbound
    exact hdelta hbound
  obtain ⟨deltas, hreasoning⟩ := exists_feeds_reasoning hend
  have hend' := hlength deltas .reasoning p.endToken hreasoning rfl
  have hpos := List.length_pos_iff.mpr hend
  refine ⟨by omega, ?_⟩
  cases hprompt : p.startInPrompt with
  | true => exact .inl rfl
  | false =>
    have hstart' := hlength [] .pendingStart p.startToken
      (by simp [feeds, makeState, hprompt]) rfl
    have hpos' := List.length_pos_iff.mpr hstart
    exact .inr (by omega)

theorem kept_stream (hstart : p.startToken ≠ []) (hend : p.endToken ≠ [])
    (deltas : List (List α)) : Kept p deltas.flatten (feeds p (makeState p) deltas).1
      (feeds p (makeState p) deltas).2 := by
  simpa [Delta.join] using kept_feeds (kept_makeState hstart hend) deltas

theorem shorter_stream (hstart : p.startToken ≠ []) (hend : p.endToken ≠ [])
    (hlong : LongTags p) (deltas : List (List α)) :
    Shorter p (feeds p (makeState p) deltas).2 := by
  refine shorter_feeds hlong (fun tag htag => ?_) (kept_makeState hstart hend) deltas
  have hpos : 0 < tag.length := by
    refine List.length_pos_iff.mpr ?_
    rintro rfl
    exact (kept_makeState hstart hend).noTag [] htag List.nil_infix
  exact hpos

/-- **The buffer of a stream.** After every call of `feed` the text so far is what was returned,
the matched tags and the buffer, and the awaited tag is not in the buffer. The buffer keeps its
documented bound after all calls iff no tag that is looked for has one character only; then it is
even shorter than the awaited tag. -/
theorem bufferBounded_iff [Nontrivial α] (hstart : p.startToken ≠ []) (hend : p.endToken ≠ []) :
    ((∀ deltas, Bounded p (feeds p (makeState p) deltas).2 ∧
        Kept p deltas.flatten (feeds p (makeState p) deltas).1 (feeds p (makeState p) deltas).2) ↔
      LongTags p) ∧
    (∀ deltas, Kept p deltas.flatten (feeds p (makeState p) deltas).1
      (feeds p (makeState p) deltas).2) ∧
    (LongTags p → ∀ deltas, Shorter p (feeds p (makeState p) deltas).2) := by
  have hkept := kept_stream hstart hend
  refine ⟨⟨fun h => longTags_of_bounded hstart hend fun deltas => (h deltas).1,
    fun hlong deltas => ⟨?_, hkept deltas⟩⟩, hkept, shorter_stream hstart hend⟩
  exact bounded_of_shorter (shorter_stream hstart hend hlong deltas) (hkept deltas).accounted

/-- The tags that a Qwen parser starts with are long enough. -/
theorem bufferBounded_think :
    LongTags ⟨"<think>".toList, "</think>".toList, true⟩ ∧
    ∀ deltas, Bounded ⟨"<think>".toList, "</think>".toList, true⟩
      (feeds ⟨"<think>".toList, "</think>".toList, true⟩
        (makeState ⟨"<think>".toList, "</think>".toList, true⟩) deltas).2 := by
  have hlong : LongTags ⟨"<think>".toList, "</think>".toList, true⟩ := by
    refine ⟨?_, .inl rfl⟩
    decide
  have hchar : Nontrivial Char := ⟨'a', 'b', by decide⟩
  refine ⟨hlong, fun deltas => ?_⟩
  have hall := (bufferBounded_iff (p := ⟨"<think>".toList, "</think>".toList, true⟩)
    (by decide) (by decide)).1.mpr hlong
  exact (hall deltas).1

/-- An end tag of one character: all of the delta stays in the buffer. -/
theorem buffer_bar :
    (feeds ⟨['<'], ['|'], true⟩ (makeState ⟨['<'], ['|'], true⟩) [['a', 'b'], ['c']]).2 =
      ⟨.reasoning, ['a', 'b', 'c']⟩ ∧
    ¬ Bounded ⟨['<'], ['|'], true⟩
      (feeds ⟨['<'], ['|'], true⟩ (makeState ⟨['<'], ['|'], true⟩) [['a', 'b'], ['c']]).2 := by
  have hstate : (feeds ⟨['<'], ['|'], true⟩ (makeState ⟨['<'], ['|'], true⟩)
      [['a', 'b'], ['c']]).2 = ⟨.reasoning, ['a', 'b', 'c']⟩ := by
    rfl
  refine ⟨hstate, ?_⟩
  rw [hstate, Bounded]
  decide

end Trainfer.Reasoning
