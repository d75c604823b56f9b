import Trainfer.Reasoning
import Trainfer.Lib.Lines

/-! A reply without streaming, whose text `extract_final` splits at once, beside the same reply
as a stream.

The two paths treat text outside the tags differently. `extract_final` drops what stands before
the start tag, calls a reply that is cut off inside the reasoning content, and looks for an end
tag also where no start tag came. `client_matches_final_iff` says for which texts none of this
shows. -/

namespace Trainfer.Reasoning

open Find (cut)
open Lines (strip)

universe u
variable {α : Type u} [DecidableEq α]

/-- `ReasoningParser.extract_final`. An empty tag, which `partition` refuses, is found at once. -/
def extractFinal (p : ReasoningParser α) (fullText : List α) : Delta α :=
  let text :=
    if p.startInPrompt then fullText
    else
      match cut p.startToken fullText with
      | some (_, after) => after
      | none => fullText
  match cut p.endToken text with
  | none => if p.startInPrompt then ⟨text, []⟩ else ⟨[], text⟩
  | some (reasoning, content) => ⟨reasoning, content⟩

/-! ## What the two clients get -/

/-- A `delta` event, which is only sent when a channel has text. -/
def yielded (d : Delta α) : List (Delta α) :=
  if d.reasoning = [] ∧ d.content = [] then [] else [d]

/-- The events of `stream_generate`, with the tail that `finalize` flushes. -/
def eventsFrom (p : ReasoningParser α) (s : ParserState α) : List (List α) → List (Delta α)
  | [] => yielded (finalize s)
  | delta :: deltas =>
    let (out, s) := feed p s delta
    yielded out ++ eventsFrom p s deltas

def events (p : ReasoningParser α) (deltas : List (List α)) : List (Delta α) :=
  eventsFrom p (makeState p) deltas

/-- A client of the stream puts the deltas of each channel together. -/
def client (es : List (Delta α)) : Delta α := es.foldr Delta.join ⟨[], []⟩

/-- Surrounding whitespace is taken off both channels. -/
def Delta.trim (space : α → Bool) (d : Delta α) : Delta α :=
  ⟨strip space d.reasoning, strip space d.content⟩

omit [DecidableEq α] in
theorem join_empty_right (d : Delta α) : d.join ⟨[], []⟩ = d := by
  simp [Delta.join]

omit [DecidableEq α] in
theorem join_assoc (d e f : Delta α) : (d.join e).join f = d.join (e.join f) := by
  simp [Delta.join]

omit [DecidableEq α] in
theorem client_append (es fs : List (Delta α)) :
    client (es ++ fs) = (client es).join (client fs) := by
  induction es with
  | nil => rfl
  | cons e es ih =>
    show e.join (client (es ++ fs)) = (e.join (client es)).join (client fs)
    rw [ih, join_assoc]

omit [DecidableEq α] in
/-- The events left out are empty. -/
theorem client_yielded (d : Delta α) : client (yielded d) = d := by
  unfold yielded
  split
  · rename_i h
    exact Delta.ext h.1.symm h.2.symm
  · exact join_empty_right d

theorem client_eventsFrom (p : ReasoningParser α) (s : ParserState α) (deltas : List (List α)) :
    client (eventsFrom p s deltas) = streamFrom p s deltas := by
  induction deltas generalizing s with
  | nil => exact client_yielded _
  | cons delta deltas ih =>
    show client (yielded _ ++ eventsFrom p _ deltas) = _
    rw [client_append, client_yielded, ih]
    rfl

theorem client_events (p : ReasoningParser α) (deltas : List (List α)) :
    client (events p deltas) = splitFrom p (makeState p).mode deltas.flatten := by
  rw [events, client_eventsFrom, streamFrom_eq_splitFrom (settled_makeState p)]
  rfl

/-! ## When they agree -/

/-- The model writes nothing but whitespace outside the tags, and no end tag is missing or out
of place. -/
def SplitsAlike (space : α → Bool) (p : ReasoningParser α) (text : List α) : Prop :=
  p.startInPrompt = true ∨
    match cut p.startToken text with
    | none => ∀ c, cut p.endToken text = some c → ∀ a ∈ c.1 ++ p.endToken, space a = true
    | some (before, after) =>
      (∀ a ∈ before, space a = true) ∧
        (cut p.endToken after = none → ∀ a ∈ after, space a = true)

variable {space : α → Bool} {p : ReasoningParser α} {text : List α}

omit [DecidableEq α] in
theorem trim_eq_iff {d e : Delta α} :
    d.trim space = e.trim space ↔
      strip space d.reasoning = strip space e.reasoning ∧
        strip space d.content = strip space e.content := by
  rw [Delta.trim, Delta.trim, Delta.mk.injEq]

omit [DecidableEq α] in
theorem strip_eq_strip_nil {l : List α} :
    strip space l = strip space [] ↔ ∀ a ∈ l, space a = true := by
  have hnil : strip space [] = ([] : List α) := rfl
  rw [hnil, Lines.strip_eq_nil_iff]

/-- With the start tag in the prompt both paths cut at the first end tag. -/
theorem final_inPrompt (h : p.startInPrompt = true) :
    extractFinal p text = splitReasoning p text := by
  cases hcut : cut p.endToken text with
  | none => simp [extractFinal, splitReasoning, h, hcut]
  | some c => simp [extractFinal, splitReasoning, h, hcut]

theorem final_noStart (h : p.startInPrompt = false) (hcut : cut p.startToken text = none) :
    (splitPending p text).trim space = (extractFinal p text).trim space ↔
      ∀ c, cut p.endToken text = some c → ∀ a ∈ c.1 ++ p.endToken, space a = true := by
  have hsplit : splitPending p text = ⟨[], text⟩ := by simp only [splitPending, hcut]
  rw [hsplit, trim_eq_iff]
  cases hend : cut p.endToken text with
  | none => simp [extractFinal, h, hcut, hend]
  | some c =>
    obtain ⟨before, after⟩ := c
    have htext := Find.cut_eq_some hend
    have hfinal : extractFinal p text = ⟨before, after⟩ := by
      simp [extractFinal, h, hcut, hend]
    have hbefore : strip space [] = strip space before ↔ ∀ a ∈ before, space a = true := by
      rw [eq_comm, strip_eq_strip_nil]
    have hafter : strip space text = strip space after ↔
        ∀ a ∈ before ++ p.endToken, space a = true := by
      rw [htext]
      exact Lines.strip_append_iff
    rw [hfinal, hbefore, hafter]
    constructor
    · rintro ⟨-, hall⟩ c hc
      cases hc
      exact hall
    · intro hall
      have hboth := hall (before, after) rfl
      exact ⟨fun a ha => hboth a (List.mem_append_left _ ha), hboth⟩

theorem final_start {before after : List α} (h : p.startInPrompt = false)
    (hcut : cut p.startToken text = some (before, after)) :
    (splitPending p text).trim space = (extractFinal p text).trim space ↔
      (∀ a ∈ before, space a = true) ∧
        (cut p.endToken after = none → ∀ a ∈ after, space a = true) := by
  have hsplit : splitPending p text = Delta.join ⟨[], before⟩ (splitReasoning p after) := by
    simp only [splitPending, hcut]
  rw [hsplit, trim_eq_iff]
  cases hend : cut p.endToken after with
  | none =>
    have hfinal : extractFinal p text = ⟨[], after⟩ := by simp [extractFinal, h, hcut, hend]
    have hjoin : Delta.join ⟨[], before⟩ (splitReasoning p after) = ⟨after, before⟩ := by
      simp [splitReasoning, hend, Delta.join]
    rw [hfinal, hjoin]
    simp only [strip_eq_strip_nil, forall_const]
    constructor
    · rintro ⟨hafter, hbefore⟩
      have hnil := Lines.strip_eq_nil_iff.mpr hafter
      exact ⟨Lines.strip_eq_nil_iff.mp (hbefore.trans hnil), hafter⟩
    · rintro ⟨hbefore, hafter⟩
      have hleft := Lines.strip_eq_nil_iff.mpr hbefore
      have hright := Lines.strip_eq_nil_iff.mpr hafter
      exact ⟨hafter, hleft.trans hright.symm⟩
  | some c =>
    obtain ⟨reasoning, content⟩ := c
    have hfinal : extractFinal p text = ⟨reasoning, content⟩ := by
      simp [extractFinal, h, hcut, hend]
    have hjoin : Delta.join ⟨[], before⟩ (splitReasoning p after) =
        ⟨reasoning, before ++ content⟩ := by
      simp [splitReasoning, hend, Delta.join]
    rw [hfinal, hjoin]
    simp [Lines.strip_append_iff]

/-- **One reply, two clients.** However a text is cut into deltas, a client that puts the stream
together and one that gets the whole reply see the same channels, up to whitespace around them,
just if the text splits alike. -/
theorem client_matches_final_iff (space : α → Bool) (p : ReasoningParser α)
    (deltas : List (List α)) :
    (client (events p deltas)).trim space = (extractFinal p deltas.flatten).trim space ↔
      SplitsAlike space p deltas.flatten := by
  rw [client_events]
  cases h : p.startInPrompt with
  | true =>
    have hmode : (makeState p).mode = .reasoning := by simp [makeState, h]
    rw [hmode, final_inPrompt h]
    exact iff_of_true rfl (.inl h)
  | false =>
    have hmode : (makeState p).mode = .pendingStart := by simp [makeState, h]
    have hne : ¬ p.startInPrompt = true := by simp [h]
    rw [hmode, SplitsAlike, or_iff_right hne]
    cases hcut : cut p.startToken deltas.flatten with
    | none => exact final_noStart h hcut
    | some c => exact final_start h hcut

/-- The tags of the DeepSeek-R1 family, which the model writes itself. -/
def deepseek : ReasoningParser Char :=
  ⟨"<think>".toList, "</think>".toList, false⟩

/-- A reply that is cut off while the model thinks: the stream calls it reasoning, the whole
reply has it as content. -/
theorem final_of_truncated :
    client (events deepseek ["<think>".toList, "So".toList]) = ⟨"So".toList, []⟩ ∧
      extractFinal deepseek "<think>So".toList = ⟨[], "So".toList⟩ ∧
      ¬ (client (events deepseek ["<think>".toList, "So".toList])).trim Char.isWhitespace =
        (extractFinal deepseek "<think>So".toList).trim Char.isWhitespace := by
  decide +kernel

end Trainfer.Reasoning
