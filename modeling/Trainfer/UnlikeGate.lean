import Trainfer.Objective

/-! The precondition gate of `unlike_loss`. A sample is pure when it has no positive
teacher. Tier 1 raises on a pure sample without a `kl_anchor` in the list it is handed;
the other tiers only warn. -/

namespace Trainfer

/-- `s.get("good_token_id") is None`. -/
def Sample.isPure (s : Sample) : Bool :=
  match s.lookup "good_token_id" with
  | none | some .null => true
  | some _ => false

/-- `bo.get("name") == "kl_anchor"`. -/
def isAnchor (bo : JsonObject) : Bool := (bo.lookup "name").any (Value.isStr "kl_anchor")

inductive UnlikeWarning where
  | anchorScope (scope : Value)
  | excludeMisses
  | smallLr (lr : ℚ)

/-- `_UNLIKE_LR_HEURISTIC_FLOOR` -/
def unlikeLrHeuristicFloor : ℚ := 5 / 100000

/-- `[bo for bo in batch_objectives if bo.get("name") == "kl_anchor"]`. -/
def anchorsOf (batchObjectives : Value) : Except PyError (List JsonObject) := do
  let entries ← (← batchObjectives.iter).mapM Value.asDict
  return entries.filter isAnchor

/-- `{s.get("bad_token_id"), s.get("good_token_id")} - {None}`. -/
def sampleSurgery (s : Sample) : Except PyError (List Value) := do
  let ids := [(s.lookup "bad_token_id").getD .null, (s.lookup "good_token_id").getD .null]
  ids.forM Value.checkHashable
  return ids.filter fun id => !id.scalarEq .null

/-- `set(bo.get("exclude_token_ids") or [])`. -/
def batchExclude (bo : JsonObject) : Except PyError (List Value) := do
  let ids := (bo.lookup "exclude_token_ids").getD .null
  if ids.truthy then
    let ids ← ids.iter
    ids.forM Value.checkHashable
    return ids
  else return []

/-- Tier 3, for one sample. -/
def checkExclude (exclude : List Value) (s : Sample) : Except PyError (List UnlikeWarning) := do
  let surgery ← sampleSurgery s
  -- `per_sample_derived` is `sample_surgery` itself
  let covered := surgery.all fun id => (exclude ++ surgery).any id.scalarEq
  return if covered then [] else [.excludeMisses]

/-- Tiers 2 and 3, for one anchor. -/
def checkAnchor (pures : List Sample) (bo : JsonObject) :
    Except PyError (List UnlikeWarning) := do
  let scope := (bo.lookup "scope").getD (.str "prompt")
  if !scope.isStr "target_position" then return [.anchorScope scope]
  else
    let exclude ← batchExclude bo
    let warnings ← pures.mapM (checkExclude exclude)
    return warnings.flatten

/-- Tier 4. -/
def checkEffectiveLr : Option Value → Except PyError (List UnlikeWarning)
  | none | some .null => .ok []
  | some (.num q) => .ok (if q < unlikeLrHeuristicFloor then [.smallLr q] else [])
  | some (.bool b) => .ok (if b then [] else [.smallLr 0])
  | some v => .error ⟨.typeError,
      "'<' not supported between instances of '" ++ v.typeName ++ "' and 'float'"⟩

/-- Tiers 1 to 3; a gate that is handed no list at all is off. -/
def checkAnchored (samples : List Sample) (batchObjectives : Option Value)
    (allowUnanchored : Bool) : Except PyError (List UnlikeWarning) :=
  match batchObjectives with
  | none | some .null => .ok []
  | some bos => do
    let pures := samples.filter Sample.isPure
    if pures.isEmpty then return []
    else
      let anchors ← anchorsOf bos
      if anchors.isEmpty && !allowUnanchored then
        throw ⟨.valueError, "pure-unlike requires kl_anchor in batch_objectives " ++
          "(see GLOSSARY.md / design-notes-2026-04-18.md §9); " ++
          "pass allow_unanchored=True to override"⟩
      else
        let warnings ← anchors.mapM (checkAnchor pures)
        return warnings.flatten

/-- `_check_preconditions`, with the warnings it issues. -/
def checkPreconditions (samples : List Sample) (batchObjectives : Option Value)
    (allowUnanchored : Bool) (effectiveLr : Option Value) :
    Except PyError (List UnlikeWarning) := do
  let warnings ← checkAnchored samples batchObjectives allowUnanchored
  let small ← checkEffectiveLr effectiveLr
  return warnings ++ small

/-- `allow_unanchored: bool = False`, as the gate reads it. -/
def Kwargs.allowUnanchored {τ : Type} (kwargs : Kwargs τ) : Bool :=
  ((kwargs.get? "allow_unanchored").bind Arg.json?).any Value.truthy

/-- The part of `unlike_loss` that can refuse: the gate, on a non-empty list. -/
def unlikeGate {τ : Type} (samples : Option (List Sample)) (kwargs : Kwargs τ) :
    Except PyError (List UnlikeWarning) :=
  match samples with
  | none | some [] => .error ⟨.valueError, "unlike_loss requires at least one sample"⟩
  | some samples => checkPreconditions samples
      ((kwargs.get? "batch_objectives").bind Arg.json?) kwargs.allowUnanchored
      ((kwargs.get? "effective_lr").bind Arg.json?)

/-! ## What the gate ensures -/

/-- Of a list of dictionaries, the anchors are those named so. -/
theorem anchorsOf_dicts (bos : List JsonObject) :
    anchorsOf (.list (bos.map .dict)) = .ok (bos.filter isAnchor) := by
  have hdicts : (bos.map Value.dict).mapM Value.asDict = Except.ok bos :=
    mapM_of_forall₂ (List.forall₂_map_left_iff.mpr (List.forall₂_same.mpr fun _ _ => rfl))
  show (do let entries ← (bos.map Value.dict).mapM Value.asDict
           return entries.filter isAnchor) = _
  rw [hdicts]
  rfl

/-- A gate that lets a pure sample pass has seen an anchor, or was told to do without. -/
theorem anchors_ne_nil {samples : List Sample} {bos : Value} {allow : Bool}
    {warnings : List UnlikeWarning} (h : checkAnchored samples (some bos) allow = .ok warnings)
    (hbos : bos ≠ .null) (hpure : ∃ s ∈ samples, s.isPure = true) (hallow : allow = false) :
    ∃ anchor anchors, anchorsOf bos = .ok (anchor :: anchors) := by
  obtain ⟨s, hs, hps⟩ := hpure
  have hne : (samples.filter Sample.isPure).isEmpty = false := by
    rw [List.isEmpty_eq_false_iff_exists_mem]
    exact ⟨s, List.mem_filter.mpr ⟨hs, hps⟩⟩
  unfold checkAnchored at h
  split at h
  · contradiction
  · rename_i hnull
    exact absurd (Option.some.inj hnull) hbos
  · rename_i bos' _ heq
    obtain rfl := Option.some.inj heq
    simp only [hne, Bool.false_eq_true, ↓reduceIte] at h
    obtain ⟨anchors, ha, h⟩ := bind_ok h
    cases anchors with
    | nil =>
      subst hallow
      cases h
    | cons anchor anchors => exact ⟨anchor, anchors, ha⟩

theorem scalarEq_self_of_hashable {v : Value} (h : v.checkHashable = .ok ()) :
    v.scalarEq v = true := by
  cases v with
  | list | dict => cases h
  | null => rfl
  | bool | num | str => simp [Value.scalarEq]

/-- Tier 3 never warns: what the gate asks for is what it takes the anchor to derive. -/
theorem checkExclude_ok {exclude : List Value} {s : Sample} {warnings : List UnlikeWarning}
    (h : checkExclude exclude s = .ok warnings) : warnings = [] := by
  obtain ⟨surgery, hsurgery, h⟩ := bind_ok h
  have hself : ∀ id ∈ surgery, id.scalarEq id = true := by
    unfold sampleSurgery at hsurgery
    obtain ⟨_, hhash, hids⟩ := bind_ok hsurgery
    obtain ⟨_, hbad, hgood⟩ := bind_ok hhash
    obtain ⟨_, hgood, _⟩ := bind_ok hgood
    cases hids
    intro id hid
    simp only [List.mem_filter, List.mem_cons, List.not_mem_nil, or_false] at hid
    rcases hid.1 with rfl | rfl
    · exact scalarEq_self_of_hashable hbad
    · exact scalarEq_self_of_hashable hgood
  have hcovered : (surgery.all fun id => (exclude ++ surgery).any id.scalarEq) = true := by
    simp only [List.all_eq_true, List.any_eq_true]
    intro id hid
    exact ⟨id, List.mem_append_right exclude hid, hself id hid⟩
  rw [hcovered] at h
  cases h
  rfl

end Trainfer
