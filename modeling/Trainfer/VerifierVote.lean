import Trainfer.MajorityVote

/-! The vote of the TTRL scheduler on prompts of the math verifier.

The scheduler extracts answers without the prompt, the verifier with it. `votesAgree_iff` says for
which prompts the two are the same; on a prompt that asks for a fraction, rollouts with different
fractions can be counted as one answer. -/

namespace Trainfer

open Regex TTRL

variable {u : Unicode} {prompt : String} {rollouts : List String}

/-! ## Routing -/

/-- `claims` of the math verifier, on whatever a record holds as its prompt. -/
def mathClaimsOf (u : Unicode) : Value → Except PyError Bool
  | .str prompt => .ok (mathClaims u prompt)
  | v => .error ⟨.typeError, "expected string or bytes-like object, got '" ++ v.typeName ++ "'"⟩

theorem selectVerifier_mem {v : Value} {verifiers : Verifiers} {domain : String}
    (h : selectVerifier v verifiers = .ok (some domain)) :
    ∃ claims, (domain, some claims) ∈ verifiers ∧ claims v = .ok true := by
  induction verifiers with
  | nil => cases h
  | cons entry verifiers ih =>
    obtain ⟨name, claims⟩ := entry
    cases claims with
    | none =>
      obtain ⟨claims, hmem, hclaims⟩ := ih h
      exact ⟨claims, List.mem_cons_of_mem _ hmem, hclaims⟩
    | some claims =>
      obtain ⟨claimed, hclaimed, h⟩ := bind_ok h
      cases claimed with
      | true =>
        cases h
        exact ⟨claims, List.mem_cons_self, hclaimed⟩
      | false =>
        obtain ⟨claims, hmem, hclaims⟩ := ih h
        exact ⟨claims, List.mem_cons_of_mem _ hmem, hclaims⟩

/-- The domains are keys of a dictionary, so the claim is that of the math verifier. -/
theorem mathClaims_of_select {verifiers : Verifiers} (hnodup : (verifiers.map Prod.fst).Nodup)
    (hmath : ("math", some (mathClaimsOf u)) ∈ verifiers)
    (hselect : selectVerifier (.str prompt) verifiers = .ok (some "math")) :
    mathClaims u prompt = true := by
  obtain ⟨claims, hmem, hclaims⟩ := selectVerifier_mem hselect
  have hentry := List.inj_on_of_nodup_map hnodup hmem hmath rfl
  obtain rfl := Option.some.inj (Prod.mk.inj hentry).2
  exact Except.ok.inj hclaims

/-! ## What a vote enqueues -/

theorem finish_label {s : State} {offset idx : ℕ} {keys : List (Option String)}
    {key winner : String} (hvote : majorityFromKeys keys 2 = some (idx, key))
    (hwinner : rollouts[idx]? = some winner) :
    (finish s offset prompt rollouts keys true).labels =
      s.labels ++ [⟨offset, prompt, winner⟩] := by
  simp only [finish, hvote, hwinner]
  rfl

theorem vote_of_finish_label {s : State} {offset : ℕ} {keys : List (Option String)}
    {submitted : Bool} {label : PseudoLabel}
    (h : (finish s offset prompt rollouts keys submitted).labels = s.labels ++ [label]) :
    ∃ idx key, majorityFromKeys keys 2 = some (idx, key) ∧
      rollouts[idx]? = some label.response := by
  have hne : s.labels ≠ s.labels ++ [label] := by simp
  unfold finish at h
  split at h
  · exact absurd h hne
  · rename_i idx key hvote
    split at h
    · exact absurd h hne
    · rename_i winner hwinner
      cases submitted with
      | false => exact absurd h hne
      | true =>
        have hlabel : (⟨offset, prompt, winner⟩ : PseudoLabel) = label := by simpa using h
        exact ⟨idx, key, hvote, hlabel ▸ hwinner⟩

/-- The response is one of two rollouts that the math verifier gives the same answer for this
prompt, and it accepts the response. -/
structure AgreesWithVerifier (u : Unicode) (prompt : String) (rollouts : List String)
    (response : String) : Prop where
  mem : response ∈ rollouts
  agreed : ∃ answer, extractAnswer u response (some prompt) = some answer ∧
    2 ≤ (rollouts.map fun r => extractAnswer u r (some prompt)).count (some answer)
  accepted : mathVerify u prompt response = some true

/-- Whatever `_maybe_run_one` enqueues after this sampling agrees with the verifier. -/
def VotesAgree (u : Unicode) (runSandboxed : String → Option String) (json : Json)
    (verifiers : Verifiers) (policy : Policy) (prompt : String) (rollouts : List String) : Prop :=
  ∀ (s s' : State) (offset : ℕ) (submitted : Bool) (label : PseudoLabel),
    s.phase = .sampling offset prompt "math" 0 rollouts →
    step json verifiers policy s
      (.finish (rollouts.map (rolloutKey u runSandboxed "math")) submitted) = some s' →
    s'.labels = s.labels ++ [label] → AgreesWithVerifier u prompt rollouts label.response

variable {runSandboxed : String → Option String} {json : Json} {verifiers : Verifiers}
  {policy : Policy}

/-- The vote is on the answers without the prompt. -/
theorem votesAgree_iff_majority :
    VotesAgree u runSandboxed json verifiers policy prompt rollouts ↔
      ∀ idx key winner, Majority (rollouts.map fun r => extractAnswer u r none) 2 idx key →
        rollouts[idx]? = some winner → AgreesWithVerifier u prompt rollouts winner := by
  have hkeys : rollouts.map (rolloutKey u runSandboxed "math") =
      rollouts.map fun r => extractAnswer u r none := rfl
  constructor
  · intro h idx key winner hmajority hwinner
    obtain ⟨⟨idx', key'⟩, hvote⟩ := Option.isSome_iff_exists.mp
      ((majorityFromKeys_isSome one_le_two).mpr ⟨key, hmajority.floor⟩)
    obtain ⟨rfl, rfl⟩ := hmajority.unique (majority_of_majorityFromKeys hvote).2
    refine h ⟨[], [], fun _ => 0, .sampling 0 prompt "math" 0 rollouts, [], []⟩ _ 0 true
      ⟨0, prompt, winner⟩ rfl ?_ (finish_label (hkeys ▸ hvote) hwinner)
    simp only [step, List.length_map, if_true, hkeys]
  · intro h s s' offset submitted label hphase hstep hlabel
    simp only [step, hphase, List.length_map, if_true] at hstep
    obtain rfl := Option.some.inj hstep
    obtain ⟨idx, key, hvote, hwinner⟩ := vote_of_finish_label hlabel
    exact h idx key _ (majority_of_majorityFromKeys (hkeys ▸ hvote)).2 hwinner

/-! ## Prompts that do not ask for a fraction -/

theorem extractAnswer_of_not_fraction (h : isFractionPrompt u (some prompt) = false)
    (text : String) : extractAnswer u text (some prompt) = extractAnswer u text none := by
  have hnone : isFractionPrompt u none = false := rfl
  simp only [extractAnswer, h, hnone]

theorem agrees_of_answer {winner answer : String} (hclaims : mathClaims u prompt = true)
    (hmem : winner ∈ rollouts) (hanswer : extractAnswer u winner (some prompt) = some answer)
    (hcount : 2 ≤ (rollouts.map fun r => extractAnswer u r (some prompt)).count (some answer)) :
    AgreesWithVerifier u prompt rollouts winner where
  mem := hmem
  agreed := ⟨answer, hanswer, hcount⟩
  accepted := by simp [mathVerify, hclaims, hanswer]

theorem agrees_of_not_fraction {idx : ℕ} {key winner : String}
    (hclaims : mathClaims u prompt = true) (h : isFractionPrompt u (some prompt) = false)
    (hmajority : Majority (rollouts.map fun r => extractAnswer u r none) 2 idx key)
    (hwinner : rollouts[idx]? = some winner) : AgreesWithVerifier u prompt rollouts winner := by
  have hkey := hmajority.found
  rw [List.getElem?_map, hwinner, Option.map_some, Option.some.injEq] at hkey
  refine agrees_of_answer hclaims (List.mem_of_getElem? hwinner)
    (extractAnswer_of_not_fraction h winner ▸ hkey) ?_
  simp only [extractAnswer_of_not_fraction h]
  exact hmajority.floor

/-! ## Prompts that ask for a fraction

The text `7` has an answer without the prompt, the last number in it, and none with it. -/

theorem isDigit_seven (u : Unicode) : u.isDigit '7' = true := by
  rw [Unicode.isDigit, u.decimal_ascii '7' (by decide)]
  rfl

theorem isWord_seven (u : Unicode) : u.isWord '7' = true := u.isWord_ascii '7' (by decide)

theorem sameLetter_seven (u : Unicode) : u.sameLetter 'a' '7' = false :=
  u.sameLetter_ascii 'a' '7' (by decide) (by decide)

theorem firstGroup_seven (u : Unicode) (answer : Regex Char) :
    firstGroup (anchored u answer) ['7'] = none := by
  have hhash : "####".toList = ['#', '#', '#', '#'] := rfl
  have hbox : "\\boxed\x7b".toList = ['\\', 'b', 'o', 'x', 'e', 'd', '\x7b'] := rfl
  have hanswer : "answer".toList = ['a', 'n', 's', 'w', 'e', 'r'] := rfl
  simp [firstGroup, anchored, search, searchFrom, seqs, word, letters, run, hhash, hbox, hanswer,
    boundary, sameLetter_seven, isWord_seven]

theorem findall_numberPattern_seven (u : Unicode) :
    findall (numberPattern u) ['7'] = [['7']] := by
  have hminus : "-".toList = ['-'] := rfl
  have hdot : ".".toList = ['.'] := rfl
  simp [findall, findallFrom, numberPattern, seqs, opt, many, plus, word, digit, run, rounds,
    hminus, hdot, isDigit_seven, consumed]

theorem findall_fractionPattern_seven (u : Unicode) :
    findall (fractionPattern u) ['7'] = [] := by
  have hminus : "-".toList = ['-'] := rfl
  have hslash : "/".toList = ['/'] := rfl
  simp [findall, findallFrom, fractionPattern, ratioPattern, seqs, opt, many, plus, word, digit,
    space, run, rounds, hminus, hslash, isDigit_seven]

theorem extractAnswer_seven (u : Unicode) : extractAnswer u "7" none = some "7" := by
  have htext : "7".toList = ['7'] := rfl
  simp only [extractAnswer, isFractionPrompt, htext, answerPatterns, firstGroup_seven,
    findall_numberPattern_seven]
  show some (String.ofList (normalizeDecimal ['7'])) = some "7"
  decide

theorem extractAnswer_seven_fraction (h : isFractionPrompt u (some prompt) = true) :
    extractAnswer u "7" (some prompt) = none := by
  have htext : "7".toList = ['7'] := rfl
  simp only [extractAnswer, h, htext, fractionAnchored, answerPatterns, firstGroup_seven,
    findall_fractionPattern_seven]
  rfl

/-- Two rollouts `7` are a majority, and the verifier rejects them. -/
theorem not_votesAgree_of_fraction (h : isFractionPrompt u (some prompt) = true) :
    ¬ VotesAgree u runSandboxed json verifiers policy prompt ["7", "7"] := by
  rw [votesAgree_iff_majority]
  intro hagree
  have hkeys : (["7", "7"].map fun r => extractAnswer u r none) = [some "7", some "7"] := by
    simp [extractAnswer_seven]
  rw [hkeys] at hagree
  have hvote : majorityFromKeys [some "7", some "7"] 2 = some (0, "7") := by decide
  obtain ⟨answer, hanswer, -⟩ :=
    (hagree 0 "7" "7" (majority_of_majorityFromKeys hvote).2 rfl).agreed
  rw [extractAnswer_seven_fraction h] at hanswer
  cases hanswer

/-- **Voting on the verifier's answers.** For a prompt of the math verifier, the vote agrees with
the verifier on all rollouts iff the prompt does not ask for a fraction. Where it does, the first
rollout with the most frequent answer is what counts: another rollout must have the same answer
as a fraction. -/
theorem votesAgree_iff (hnodup : (verifiers.map Prod.fst).Nodup)
    (hmath : ("math", some (mathClaimsOf u)) ∈ verifiers)
    (hselect : selectVerifier (.str prompt) verifiers = .ok (some "math")) :
    ((∀ rollouts, VotesAgree u runSandboxed json verifiers policy prompt rollouts) ↔
      isFractionPrompt u (some prompt) = false) ∧
    ∀ rollouts, VotesAgree u runSandboxed json verifiers policy prompt rollouts ↔
      (isFractionPrompt u (some prompt) = true → ∀ idx key winner,
        Majority (rollouts.map fun r => extractAnswer u r none) 2 idx key →
        rollouts[idx]? = some winner →
        ∃ answer, extractAnswer u winner (some prompt) = some answer ∧
          2 ≤ (rollouts.map fun r => extractAnswer u r (some prompt)).count (some answer)) := by
  have hclaims := mathClaims_of_select hnodup hmath hselect
  constructor
  · constructor
    · intro h
      cases hfraction : isFractionPrompt u (some prompt) with
      | false => rfl
      | true => exact absurd (h ["7", "7"]) (not_votesAgree_of_fraction hfraction)
    · intro h rollouts
      exact votesAgree_iff_majority.mpr fun idx key winner hmajority hwinner =>
        agrees_of_not_fraction hclaims h hmajority hwinner
  · intro rollouts
    rw [votesAgree_iff_majority]
    constructor
    · intro h _ idx key winner hmajority hwinner
      exact (h idx key winner hmajority hwinner).agreed
    · intro h idx key winner hmajority hwinner
      cases hfraction : isFractionPrompt u (some prompt) with
      | false => exact agrees_of_not_fraction hclaims hfraction hmajority hwinner
      | true =>
        obtain ⟨answer, hanswer, hcount⟩ := h hfraction idx key winner hmajority hwinner
        exact agrees_of_answer hclaims (List.mem_of_getElem? hwinner) hanswer hcount

/-- The registry with the math verifier alone. -/
def mathOnly : Verifiers := [("math", some (mathClaimsOf .ascii))]

def fractionOfEight : String := "What fraction of 8 is 5?"

theorem votesAgree_sum :
    isFractionPrompt .ascii (some "What is 2 plus 3?") = false ∧
    ∀ (runSandboxed : String → Option String) (json : Json) (policy : Policy)
      (rollouts : List String),
      VotesAgree .ascii runSandboxed json mathOnly policy "What is 2 plus 3?" rollouts :=
  have h : isFractionPrompt .ascii (some "What is 2 plus 3?") = false := by decide +kernel
  ⟨h, fun _ _ _ => (votesAgree_iff (by decide) (List.mem_singleton.mpr rfl)
    (by decide +kernel)).1.mpr h⟩

/-- The rollouts `5/8` and `5/7` are counted as two votes for `5`. -/
theorem fractionOfEight_disagrees :
    selectVerifier (.str fractionOfEight) mathOnly = .ok (some "math") ∧
    ∀ (runSandboxed : String → Option String) (json : Json) (policy : Policy),
      ¬ VotesAgree .ascii runSandboxed json mathOnly policy fractionOfEight
        ["#### 5/8", "#### 5/7", "#### 3/4"] := by
  refine ⟨by decide +kernel, fun runSandboxed json policy => ?_⟩
  rw [votesAgree_iff_majority]
  intro hagree
  have hkeys : (["#### 5/8", "#### 5/7", "#### 3/4"].map fun r => extractAnswer .ascii r none) =
      [some "5", some "5", some "3"] := by decide +kernel
  have hanswers : (["#### 5/8", "#### 5/7", "#### 3/4"].map
      fun r => extractAnswer .ascii r (some fractionOfEight)) =
        [some "5/8", some "5/7", some "3/4"] := by decide +kernel
  have hvote : majorityFromKeys [some "5", some "5", some "3"] 2 = some (0, "5") := by decide
  obtain ⟨answer, hanswer, hcount⟩ := (hagree 0 "5" "#### 5/8"
    (hkeys ▸ (majority_of_majorityFromKeys hvote).2) rfl).agreed
  have hfirst : extractAnswer .ascii "#### 5/8" (some fractionOfEight) = some "5/8" := by
    decide +kernel
  obtain rfl := Option.some.inj (hfirst.symm.trans hanswer)
  rw [hanswers] at hcount
  exact absurd hcount (by decide)

end Trainfer
