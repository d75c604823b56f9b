import Trainfer.UnlikeLoss

/-! A gradient step of `unlike_loss` on the logits of a row, against the same step of the positive
teacher alone. -/

namespace Trainfer.Unlike

open Gibbs

variable {V : ℕ} {args : UnlikeArgs} {rows : List (UnlikeRow V)} {r : UnlikeRow V}
  {x d : Fin V → ℝ} {bad g : Fin V} {eta : ℝ}

/-! ## The step -/

/-- The distribution at the position, as `unlike` looks at it. -/
noncomputable def dist (x : Fin V → ℝ) : Fin V → ℝ := softmax Finset.univ x

/-- The unlike term has a gradient: it fires, and the clamp does not hold it. -/
def Pushes (eps : ℝ) (r : UnlikeRow V) (x : Fin V → ℝ) : Prop :=
  r.trigger = true ∧ eps < 1 - dist x r.bad

/-- What the positive teacher moves a logit by, for a rate of one. -/
noncomputable def teacherStep (args : UnlikeArgs) (r : UnlikeRow V) (x : Fin V → ℝ) (k : Fin V) :
    ℝ :=
  args.positiveWeight * r.good.elim 0 fun g => stepDirection (dist x) g k

open Classical in
/-- How hard the unlike term pushes against its token. -/
noncomputable def push (eps : ℝ) (r : UnlikeRow V) (x : Fin V → ℝ) : ℝ :=
  if Pushes eps r x then dist x r.bad / (1 - dist x r.bad) else 0

/-- The step of the loss of the row. -/
noncomputable def rowStep (args : UnlikeArgs) (r : UnlikeRow V) (x : Fin V → ℝ) (k : Fin V) : ℝ :=
  teacherStep args r x k - push args.eps r x * stepDirection (dist x) r.bad k

/-- What a row counts for in the loss of the batch. Nothing keeps a weight from being negative. -/
noncomputable def share (rows : List (UnlikeRow V)) (r : UnlikeRow V) : ℝ :=
  r.weight / totalWeight rows

/-- What the loss of the batch moves a logit of the row by, for a rate of one. -/
noncomputable def lossStep (args : UnlikeArgs) (rows : List (UnlikeRow V)) (r : UnlikeRow V)
    (x : Fin V → ℝ) (k : Fin V) : ℝ := share rows r * rowStep args r x k

/-- What is left of it without the unlike term. -/
noncomputable def teacherShare (args : UnlikeArgs) (rows : List (UnlikeRow V)) (r : UnlikeRow V)
    (x : Fin V → ℝ) (k : Fin V) : ℝ := share rows r * teacherStep args r x k

/-- The distribution behind a step. -/
noncomputable def after (eta : ℝ) (x step : Fin V → ℝ) : Fin V → ℝ :=
  dist fun k => x k + eta * step k

/-! ## Probabilities -/

theorem probBad_eq (x : Fin V → ℝ) (bad : Fin V) : probBad x bad = dist x bad := by
  have hs : (Finset.univ : Finset (Fin V)).Nonempty := ⟨bad, Finset.mem_univ bad⟩
  rw [probBad, logProb, logsumexp, dist, ← log_softmax hs, Real.exp_log (softmax_pos hs x bad)]

theorem dist_pos (x : Fin V → ℝ) (k : Fin V) : 0 < dist x k :=
  softmax_pos ⟨k, Finset.mem_univ k⟩ x k

theorem sum_stepDirection_mul (x d : Fin V → ℝ) (t : Fin V) :
    ∑ k, stepDirection (dist x) t k * d k = d t - ∑ k, dist x k * d k := by
  simp [stepDirection, sub_mul, Finset.sum_sub_distrib]

/-! ## The gradient -/

theorem hasDerivAt_line (x d : Fin V → ℝ) (k : Fin V) :
    HasDerivAt (fun u => x k + u * d k) (d k) 0 := by
  simpa using ((hasDerivAt_id (0 : ℝ)).mul_const (d k)).const_add (x k)

theorem line_zero (x d : Fin V → ℝ) : (fun k => x k + 0 * d k) = x := by simp

theorem hasDerivAt_logProb (x d : Fin V → ℝ) (t : Fin V) :
    HasDerivAt (fun u => logProb (fun k => x k + u * d k) t)
      (∑ k, stepDirection (dist x) t k * d k) 0 := by
  have hs : (Finset.univ : Finset (Fin V)).Nonempty := ⟨t, Finset.mem_univ t⟩
  have hsum := hasDerivAt_logSumExp hs fun k _ => hasDerivAt_line x d k
  rw [line_zero] at hsum
  rw [sum_stepDirection_mul]
  exact (hasDerivAt_line x d t).sub hsum

theorem hasDerivAt_dist (x d : Fin V → ℝ) (t : Fin V) :
    HasDerivAt (fun u => dist (fun k => x k + u * d k) t)
      (dist x t * ∑ k, stepDirection (dist x) t k * d k) 0 := by
  have hs : (Finset.univ : Finset (Fin V)).Nonempty := ⟨t, Finset.mem_univ t⟩
  have hsoft := hasDerivAt_softmax hs (fun k _ => hasDerivAt_line x d k) (Finset.mem_univ t)
  rw [line_zero] at hsoft
  rw [sum_stepDirection_mul]
  exact hsoft

theorem hasDerivAt_teacher (args : UnlikeArgs) (r : UnlikeRow V) (x d : Fin V → ℝ) :
    HasDerivAt (fun u => args.positiveWeight * teacherLoss (fun k => x k + u * d k) r.good)
      (-∑ k, teacherStep args r x k * d k) 0 := by
  cases hgood : r.good with
  | none => simpa [teacherLoss, teacherStep, hgood] using hasDerivAt_const (0 : ℝ) (0 : ℝ)
  | some g =>
    have hneg := (hasDerivAt_logProb x d g).neg.const_mul args.positiveWeight
    have hsum : -∑ k, teacherStep args r x k * d k =
        args.positiveWeight * -∑ k, stepDirection (dist x) g k * d k := by
      simp only [teacherStep, hgood, Option.elim_some, mul_neg, Finset.mul_sum, mul_assoc]
    rw [hsum]
    exact hneg

/-- Next to the clamp the unlike term is smooth; behind it, it does not move. -/
theorem hasDerivAt_unlikelihood (heps : 0 < args.eps) (htrigger : r.trigger = true)
    (hclamp : 1 - dist x r.bad ≠ args.eps) :
    HasDerivAt (fun u => unlikelihood args.eps (fun k => x k + u * d k) r.bad)
      (push args.eps r x * ∑ k, stepDirection (dist x) r.bad k * d k) 0 := by
  have hdist := (hasDerivAt_dist x d r.bad).const_sub 1
  have hcont := hdist.continuousAt
  have hzero : 1 - dist (fun k => x k + 0 * d k) r.bad = 1 - dist x r.bad := by rw [line_zero]
  simp only [unlikelihood, probBad_eq]
  rcases lt_or_gt_of_ne hclamp with hheld | hfree
  · have hnot : ¬ Pushes args.eps r x := fun h => absurd h.2 (not_lt.mpr hheld.le)
    rw [push, if_neg hnot, zero_mul]
    have hnear : ∀ᶠ u in nhds (0 : ℝ), 1 - dist (fun k => x k + u * d k) r.bad < args.eps :=
      hcont.eventually_lt continuousAt_const (hzero ▸ hheld)
    refine (hasDerivAt_const (0 : ℝ) (-Real.log args.eps)).congr_of_eventuallyEq ?_
    filter_upwards [hnear] with u hu
    rw [max_eq_right hu.le]
  · have hnear : ∀ᶠ u in nhds (0 : ℝ), args.eps < 1 - dist (fun k => x k + u * d k) r.bad :=
      continuousAt_const.eventually_lt hcont (hzero ▸ hfree)
    rw [push, if_pos ⟨htrigger, hfree⟩]
    have hne : 1 - dist (fun k => x k + 0 * d k) r.bad ≠ 0 := hzero ▸ (heps.trans hfree).ne'
    have hlog := (hdist.log hne).fun_neg
    rw [hzero] at hlog
    have hsame : (fun u => -Real.log (max (1 - dist (fun k => x k + u * d k) r.bad) args.eps))
        =ᶠ[nhds 0] fun u => -Real.log (1 - dist (fun k => x k + u * d k) r.bad) := by
      filter_upwards [hnear] with u hu
      rw [max_eq_left hu.le]
    refine (hlog.congr_of_eventuallyEq hsame).congr_deriv ?_
    ring

/-- The loss of a row falls along a direction by what the step has in common with it. -/
theorem hasDerivAt_rowLoss (heps : 0 < args.eps) (hclamp : 1 - dist x r.bad ≠ args.eps)
    (d : Fin V → ℝ) :
    HasDerivAt (fun u => rowLoss args r fun k => x k + u * d k)
      (-∑ k, rowStep args r x k * d k) 0 := by
  have hsum : -∑ k, rowStep args r x k * d k = push args.eps r x *
      (∑ k, stepDirection (dist x) r.bad k * d k) + -∑ k, teacherStep args r x k * d k := by
    simp only [rowStep, sub_mul, Finset.sum_sub_distrib, Finset.mul_sum, mul_assoc]
    ring
  rw [hsum]
  refine HasDerivAt.fun_add ?_ (hasDerivAt_teacher args r x d)
  cases htrigger : r.trigger with
  | true => simpa using hasDerivAt_unlikelihood heps htrigger hclamp
  | false =>
    have hnot : ¬ Pushes args.eps r x := fun h => by simp [Pushes, htrigger] at h
    simpa [push, hnot] using hasDerivAt_const (0 : ℝ) (0 : ℝ)

/-- In the loss of the batch the row counts by its share of the weight. -/
theorem hasDerivAt_batchLoss {i : ℕ} {last : ℕ → Fin V → ℝ} (hr : rows[i]? = some r)
    (heps : 0 < args.eps) (hclamp : 1 - dist (last i) r.bad ≠ args.eps) (d : Fin V → ℝ) :
    HasDerivAt (fun u => batchLoss args rows
        (Function.update last i fun k => last i k + u * d k))
      (-∑ k, lossStep args rows r (last i) k * d k) 0 := by
  obtain ⟨hi, -⟩ := List.getElem?_eq_some_iff.mp hr
  have hterm : ∀ j ∈ Finset.range rows.length, HasDerivAt
      (fun u => rows[j]?.elim 0 fun r' => rowLoss args r'
        (Function.update last i (fun k => last i k + u * d k) j) * r'.weight)
      (if j = i then -(∑ k, rowStep args r (last i) k * d k) * r.weight else 0) 0 := by
    intro j _
    by_cases hj : j = i
    · subst hj
      simp only [hr, Option.elim_some, Function.update_self, if_true]
      exact (hasDerivAt_rowLoss heps hclamp d).mul_const r.weight
    · simp only [Function.update_of_ne hj, if_neg hj]
      exact hasDerivAt_const _ _
  have hsum := (HasDerivAt.fun_sum hterm).div_const (totalWeight rows)
  rw [Finset.sum_ite_eq', if_pos (Finset.mem_range.mpr hi)] at hsum
  refine hsum.congr_deriv ?_
  simp only [lossStep, share, mul_assoc, ← Finset.mul_sum]
  ring

/-! ## After the step -/

theorem share_pos_iff : 0 < share rows r ↔ 0 < r.weight := by
  have htotal : 0 < totalWeight rows := lt_max_of_lt_right (by norm_num)
  rw [share, div_pos_iff_of_pos_right htotal]

/-- A push against a token makes it less likely, if there is another one. -/
theorem dist_pushed_lt {y : Fin V → ℝ} {force : ℝ} (hforce : 0 < force)
    (hfree : 0 < 1 - dist x bad) :
    dist (fun k => y k - force * stepDirection (dist x) bad k) bad < dist y bad := by
  -- what the push takes from the token's logit and adds to another one
  have hgap : ∀ k, k ≠ bad → y k - y bad <
      y k - force * stepDirection (dist x) bad k -
        (y bad - force * stepDirection (dist x) bad bad) := by
    intro k hk
    have hbad : stepDirection (dist x) bad bad = 1 - dist x bad := by simp [stepDirection]
    have hother : stepDirection (dist x) bad k = -dist x k := by simp [stepDirection, hk]
    have hgain : 0 < force * (1 - dist x bad + dist x k) :=
      mul_pos hforce (add_pos hfree (dist_pos x k))
    rw [hbad, hother]
    linarith
  have hex : ∃ k, k ≠ bad := by
    by_contra hnone
    push Not at hnone
    have hone : dist x bad = 1 := by
      have hsum := softmax_sum_one x bad
      rwa [Finset.sum_eq_single bad (fun k _ hk => absurd (hnone k) hk)
        (fun h => absurd (Finset.mem_univ _) h)] at hsum
    rw [hone, sub_self] at hfree
    exact lt_irrefl _ hfree
  obtain ⟨k, hk⟩ := hex
  refine softmax_lt_of_lt (fun j _ => ?_) ⟨k, Finset.mem_univ k, hgap k hk⟩
  rcases eq_or_ne j bad with rfl | hj
  · rw [sub_self, sub_self]
  · exact (hgap j hj).le

/-- Where the term pushes, the step of the loss leaves the bad token less likely than the step of
the teacher would, just if the row has a positive weight. -/
theorem after_lossStep_lt_iff (heps : 0 < args.eps) (heta : 0 < eta)
    (hpush : Pushes args.eps r x) :
    after eta x (lossStep args rows r x) r.bad < after eta x (teacherShare args rows r x) r.bad ↔
      0 < r.weight := by
  have hfree : 0 < 1 - dist x r.bad := heps.trans hpush.2
  have hpos : 0 < push args.eps r x := by
    rw [push, if_pos hpush]
    exact div_pos (dist_pos x r.bad) hfree
  rw [← @share_pos_iff V rows r]
  constructor
  · intro hlt
    by_contra hnot
    rcases (not_lt.mp hnot).lt_or_eq with hneg | hzero
    · -- with a negative weight, it is the teacher's step that is pushed
      have hforce : 0 < -(eta * share rows r * push args.eps r x) := by
        have hless := mul_neg_of_neg_of_pos (mul_neg_of_pos_of_neg heta hneg) hpos
        linarith
      have hback := @dist_pushed_lt V x r.bad
        (fun k => x k + eta * lossStep args rows r x k) _ hforce hfree
      have heq : (fun k => x k + eta * lossStep args rows r x k -
          -(eta * share rows r * push args.eps r x) * stepDirection (dist x) r.bad k) =
          fun k => x k + eta * teacherShare args rows r x k := by
        funext k
        simp only [lossStep, teacherShare, rowStep]
        ring
      rw [heq] at hback
      exact lt_asymm hlt hback
    · simp [after, lossStep, teacherShare, hzero] at hlt
  · intro hshare
    have hforce : 0 < eta * share rows r * push args.eps r x :=
      mul_pos (mul_pos heta hshare) hpos
    have hlt := @dist_pushed_lt V x r.bad
      (fun k => x k + eta * teacherShare args rows r x k) _ hforce hfree
    have heq : (fun k => x k + eta * teacherShare args rows r x k -
        eta * share rows r * push args.eps r x * stepDirection (dist x) r.bad k) =
        fun k => x k + eta * lossStep args rows r x k := by
      funext k
      simp only [lossStep, teacherShare, rowStep]
      ring
    rwa [heq] at hlt

theorem lossStep_of_not_pushes (h : ¬ Pushes args.eps r x) :
    lossStep args rows r x = teacherShare args rows r x := by
  funext k
  simp [lossStep, teacherShare, rowStep, push, h]

/-- Without a teacher its step is none at all. -/
theorem after_teacherShare_none (hgood : r.good = none) :
    after eta x (teacherShare args rows r x) = dist x := by
  simp [after, teacherShare, teacherStep, hgood]

/-- The step of the teacher is the one that the safety monitor looks at. -/
theorem after_teacherShare_some (hgood : r.good = some g) :
    after eta x (teacherShare args rows r x) =
      stepped x g (eta * (share rows r * args.positiveWeight)) := by
  simp [after, teacherShare, teacherStep, hgood, stepped, dist, mul_assoc]

/-! ## The trigger -/

/-- A token that has more than one part in `n` is among the first `n`, so where the probability
that triggers is at least that, the rank decides alone. -/
theorem shouldTrigger_eq {n : ℕ} {q : ℚ} (hq : 1 ≤ n * q) (x : Fin V → ℝ) (bad : Fin V) :
    shouldTrigger (rankBad x bad) (probBad x bad) (.num n) (.num q) =
      .ok (decide (rankBad x bad < n)) := by
  have hle : dist x bad * (rankBad x bad + 1) ≤ 1 := softmax_mul_le_one x (Finset.mem_univ bad)
  have himp : (q : ℝ) < dist x bad → rankBad x bad < n := by
    intro hlt
    by_contra hge
    have hreal : (1 : ℝ) ≤ n * q := by exact_mod_cast hq
    have hcast : (n : ℝ) ≤ rankBad x bad := by exact_mod_cast not_lt.mp hge
    have hpos := dist_pos x bad
    nlinarith
  simp only [shouldTrigger, isNone, Bool.and_self, Bool.false_eq_true, if_false, criterion, bind,
    Except.bind, pure, Except.pure, probBad_eq, Nat.cast_lt]
  by_cases hrank : rankBad x bad < n
  · simp [hrank]
  · have hnot : ¬ (q : ℝ) < dist x bad := fun hlt => hrank (himp hlt)
    simp [hrank, hnot]

/-! ## A call -/

variable {parseInt : String → Option ℤ} {parseFloat : String → Option ℚ}
  {forward : PrefixForward V} {tok : Tokenizer} {samples : List Sample} {report : UnlikeReport V}

/-- The id of a token of the vocabulary, if there is one. -/
def idOf (good : Option (Fin V)) : Option ℤ := good.map fun g : Fin V => ((g : ℕ) : ℤ)

/-- The row of a sample whose last logits are `x`. -/
structure RowOf (parseInt : String → Option ℤ) (parseFloat : String → Option ℚ)
    (args : UnlikeArgs) (x : Fin V → ℝ) (s : Sample) (r : UnlikeRow V) : Prop where
  bad : badTokenId parseInt s = .ok (r.bad : ℤ)
  good : goodTokenId parseInt s = .ok (idOf r.good)
  trigger : triggerOf args x s r.bad = .ok r.trigger
  weight : ∃ q : ℚ, sampleWeight parseFloat s = .ok q ∧ r.weight = q

theorem gatherIndex_ok {t : ℤ} {k : Fin V} (h : gatherIndex V t = .ok k) : t = k := by
  unfold gatherIndex at h
  split at h
  · cases h
    simp only
    omega
  · cases h

theorem gatherGood_ok {t : Option ℤ} {good : Option (Fin V)} (h : gatherGood V t = .ok good) :
    t = idOf good := by
  cases t with
  | none =>
    cases h
    rfl
  | some t =>
    rw [gatherGood, Option.elim_some] at h
    cases hk : gatherIndex V t with
    | error e =>
      rw [hk] at h
      cases h
    | ok k =>
      rw [hk] at h
      cases h
      rw [gatherIndex_ok hk]
      rfl

theorem getElem?_of_mapM {α β : Type} {f : α → Except PyError β} {xs : List α} {ys : List β}
    (h : xs.mapM f = .ok ys) {i : ℕ} {a : α} {b : β} (ha : xs[i]? = some a) (hb : ys[i]? = some b) :
    f a = .ok b := by
  obtain ⟨hi, rfl⟩ := List.getElem?_eq_some_iff.mp ha
  obtain ⟨hi', rfl⟩ := List.getElem?_eq_some_iff.mp hb
  exact (forall₂_of_mapM h).get hi hi'

theorem length_of_mapM {α β : Type} {f : α → Except PyError β} {xs : List α} {ys : List β}
    (h : xs.mapM f = .ok ys) : ys.length = xs.length :=
  (forall₂_of_mapM h).length_eq.symm

section
variable {bads : List (Fin V)} {triggers : List Bool} {goods : List (Option (Fin V))}
  {weights : List ℚ}

theorem getElem?_rowsOf {i : ℕ} (hr : (rowsOf bads triggers goods weights)[i]? = some r) :
    bads[i]? = some r.bad ∧ triggers[i]? = some r.trigger ∧ goods[i]? = some r.good ∧
      ∃ q : ℚ, weights[i]? = some q ∧ r.weight = q := by
  rw [rowsOf, List.getElem?_map, Option.map_eq_some_iff] at hr
  obtain ⟨⟨⟨bad, trigger⟩, good, weight⟩, he, rfl⟩ := hr
  obtain ⟨hleft, hright⟩ := List.getElem?_zip_eq_some.mp he
  obtain ⟨hbad, htrigger⟩ := List.getElem?_zip_eq_some.mp hleft
  obtain ⟨hgood, hweight⟩ := List.getElem?_zip_eq_some.mp hright
  exact ⟨hbad, htrigger, hgood, weight, hweight, rfl⟩

theorem length_rowsOf {n : ℕ} (hbads : bads.length = n) (htriggers : triggers.length = n)
    (hgoods : goods.length = n) (hweights : weights.length = n) :
    (rowsOf bads triggers goods weights).length = n := by
  simp [rowsOf, hbads, htriggers, hgoods, hweights]

/-- The teachers of the rows. -/
theorem map_idOf_rowsOf {n : ℕ} (hbads : bads.length = n) (htriggers : triggers.length = n)
    (hgoods : goods.length = n) (hweights : weights.length = n) :
    (rowsOf bads triggers goods weights).map (fun r => idOf r.good) = goods.map idOf := by
  refine List.ext_getElem? fun i => ?_
  rw [List.getElem?_map, List.getElem?_map]
  cases hr : (rowsOf bads triggers goods weights)[i]? with
  | some r =>
    rw [(getElem?_rowsOf hr).2.2.1]
    rfl
  | none =>
    have hlong := List.getElem?_eq_none_iff.mp hr
    rw [length_rowsOf hbads htriggers hgoods hweights] at hlong
    rw [List.getElem?_eq_none_iff.mpr (hgoods.le.trans hlong)]
    rfl

end

/-- What a call that returns has done. -/
theorem unlikeLoss_ok (h : unlikeLoss parseInt parseFloat forward tok samples args = .ok report) :
    ∃ warnings batch logits, ∃ rows : List (UnlikeRow V),
      unlikeBatch tok samples = .ok batch ∧
      forward batch.inputIds (some batch.attentionMask) = .ok logits ∧
      rows.length = samples.length ∧
      (∀ i s r, samples[i]? = some s → rows[i]? = some r →
        RowOf parseInt parseFloat args (lastLogits batch logits i) s r) ∧
      report = reportOf args warnings batch (lastLogits batch logits)
        (rows.map fun r => idOf r.good) rows := by
  unfold unlikeLoss at h
  split at h
  · cases h
  obtain ⟨-, -, h⟩ := bind_ok h
  obtain ⟨warnings, hwarnings, h⟩ := bind_ok h
  obtain ⟨batch, hbatch, h⟩ := bind_ok h
  obtain ⟨logits, hlogits, h⟩ := bind_ok h
  obtain ⟨badIds, hbadIds, h⟩ := bind_ok h
  obtain ⟨bads, hbads, h⟩ := bind_ok h
  obtain ⟨triggers, htriggers, h⟩ := bind_ok h
  obtain ⟨goodIds, hgoodIds, h⟩ := bind_ok h
  obtain ⟨goods, hgoods, h⟩ := bind_ok h
  obtain ⟨weights, hweights, h⟩ := bind_ok h
  cases h
  have hbad := (length_of_mapM hbads).trans (length_of_mapM hbadIds)
  have htrigger : triggers.length = samples.length := by
    rw [length_of_mapM htriggers, List.length_zipIdx, List.length_zip, hbad, min_self]
  have hgood := (length_of_mapM hgoods).trans (length_of_mapM hgoodIds)
  have hweight := length_of_mapM hweights
  have hgoodsOf : goodIds = goods.map idOf := by
    refine List.ext_getElem (by rw [List.length_map, length_of_mapM hgoods]) fun i hi hi' => ?_
    rw [List.length_map] at hi'
    rw [List.getElem_map]
    exact gatherGood_ok ((forall₂_of_mapM hgoods).get hi hi')
  refine ⟨warnings, batch, logits, rowsOf bads triggers goods weights, hbatch, hlogits,
    length_rowsOf hbad htrigger hgood hweight, ?_, ?_⟩
  · intro i s r hs hr
    obtain ⟨hbi, hti, hgi, q, hqi, hweight⟩ := getElem?_rowsOf hr
    have hidx : ((samples.zip bads).zipIdx)[i]? = some ((s, r.bad), i) := by
      have hzip : (samples.zip bads)[i]? = some (s, r.bad) :=
        List.getElem?_zip_eq_some.mpr ⟨hs, hbi⟩
      rw [List.getElem?_zipIdx, hzip]
      simp
    refine ⟨?_, ?_, getElem?_of_mapM htriggers hidx hti, q, getElem?_of_mapM hweights hs hqi,
      hweight⟩
    · have hi : i < badIds.length := by
        rw [length_of_mapM hbadIds]
        exact (List.getElem?_eq_some_iff.mp hs).1
      have ht := List.getElem?_eq_getElem hi
      rw [getElem?_of_mapM hbadIds hs ht, gatherIndex_ok (getElem?_of_mapM hbads ht hbi)]
    · refine getElem?_of_mapM hgoodIds hs ?_
      rw [hgoodsOf, List.getElem?_map, hgi]
      rfl
  · rw [hgoodsOf, map_idOf_rowsOf hbad htrigger hgood hweight]

/-- What a gradient step of the loss does to the logits of one row, `last` being those of the
batch. -/
structure Descends (args : UnlikeArgs) (rows : List (UnlikeRow V)) (last : ℕ → Fin V → ℝ) (i : ℕ)
    (r : UnlikeRow V) : Prop where
  /-- The step is minus the gradient of the loss. -/
  gradient : ∀ d : Fin V → ℝ, HasDerivAt (fun u => batchLoss args rows
      (Function.update last i fun k => last i k + u * d k))
    (-∑ k, lossStep args rows r (last i) k * d k) 0
  pushed : Pushes args.eps r (last i) → ∀ lr, 0 < lr →
    (after lr (last i) (lossStep args rows r (last i)) r.bad <
      after lr (last i) (teacherShare args rows r (last i)) r.bad ↔ 0 < r.weight)
  held : ¬ Pushes args.eps r (last i) →
    lossStep args rows r (last i) = teacherShare args rows r (last i)
  /-- Without a teacher nothing else moves the row. -/
  alone : r.good = none →
    ∀ lr, after lr (last i) (teacherShare args rows r (last i)) = dist (last i)
  taught : ∀ g, r.good = some g →
    ∀ lr, after lr (last i) (teacherShare args rows r (last i)) =
      stepped (last i) g (lr * (share rows r * args.positiveWeight))

/-- **The unlike term against the teacher.** On a row where it fires and is not clamped, a gradient
step of the loss at any rate leaves the bad token less likely than what the positive teacher has
of that step would, and without a teacher less likely than before, exactly if the sample has a
positive weight. Elsewhere the term moves nothing, also where the bad token has all but less than
`eps` of the probability. -/
theorem unlike_descends (heps : 0 < args.eps)
    (h : unlikeLoss parseInt parseFloat forward tok samples args = .ok report) :
    ∃ batch logits, ∃ rows : List (UnlikeRow V), unlikeBatch tok samples = .ok batch ∧
      forward batch.inputIds (some batch.attentionMask) = .ok logits ∧
      rows.length = samples.length ∧ report.loss = batchLoss args rows (lastLogits batch logits) ∧
      ∀ i s r, samples[i]? = some s → rows[i]? = some r →
        RowOf parseInt parseFloat args (lastLogits batch logits i) s r ∧
        (1 - dist (lastLogits batch logits i) r.bad ≠ args.eps →
          Descends args rows (lastLogits batch logits) i r) := by
  obtain ⟨warnings, batch, logits, rows, hbatch, hlogits, hlength, hrows, rfl⟩ := unlikeLoss_ok h
  refine ⟨batch, logits, rows, hbatch, hlogits, hlength, rfl, fun i s r hs hr => ?_⟩
  refine ⟨hrows i s r hs hr, fun hclamp => ?_⟩
  exact {
    gradient := hasDerivAt_batchLoss hr heps hclamp
    pushed := fun hpush lr hlr => after_lossStep_lt_iff heps hlr hpush
    held := lossStep_of_not_pushes
    alone := fun hgood lr => after_teacherShare_none hgood
    taught := fun g hgood lr => after_teacherShare_some hgood }

/-- A sample without thresholds of its own. -/
def WithoutThresholds (s : Sample) : Prop :=
  s.lookup "rank_below" = none ∧ s.lookup "prob_above" = none

theorem triggerOf_eq {n : ℕ} {q : ℚ} {s : Sample} (hrank : args.defaultRankBelow = .num n)
    (hprob : args.defaultProbAbove = .num q) (hq : 1 ≤ n * q) (hplain : WithoutThresholds s)
    (x : Fin V → ℝ) (bad : Fin V) :
    triggerOf args x s bad = .ok (decide (rankBad x bad < n)) := by
  rw [triggerOf, hplain.1, hplain.2, Option.getD_none, Option.getD_none, hrank, hprob,
    shouldTrigger_eq hq]

def flatForward : PrefixForward 3 := fun _ _ => .ok fun _ _ _ => 0

theorem pushedSample_returns : ∃ report, unlikeLoss (fun _ => none) (fun _ => none) flatForward
    twoTokens [pushedSample] {} = .ok report :=
  ⟨_, rfl⟩

theorem dist_flat (k : Fin 3) : dist (fun _ => 0) k = 1 / 3 := by
  simp [dist, softmax]

theorem rankBad_flat (k : Fin 3) : rankBad (fun _ => 0) k = 0 := by
  simp [rankBad]

theorem pushedSample_without : WithoutThresholds pushedSample := ⟨rfl, rfl⟩

theorem unlike_descends_pushedSample : ∃ r : UnlikeRow 3, r.good = none ∧
    after 1 (fun _ => 0) (lossStep {} [r] r fun _ => 0) r.bad < 1 / 3 := by
  obtain ⟨report, h⟩ := pushedSample_returns
  obtain ⟨batch, logits, rows, -, hlogits, hlength, -, hrows⟩ := unlike_descends (by norm_num) h
  obtain rfl := Except.ok.inj hlogits
  obtain ⟨r, rfl⟩ := List.length_eq_one_iff.mp hlength
  obtain ⟨hrow, hdescends⟩ := hrows 0 pushedSample r rfl rfl
  have hgood : r.good = none := by
    have hnone : idOf r.good = none := (Except.ok.inj hrow.good).symm
    simpa [idOf] using hnone
  have htrigger : r.trigger = true := by
    have hfires := @triggerOf_eq 3 {} 20 (5 / 100) pushedSample rfl rfl (by norm_num)
      pushedSample_without (fun _ => 0) r.bad
    rw [rankBad_flat] at hfires
    exact Except.ok.inj (hrow.trigger.symm.trans hfires)
  have hweight : 0 < r.weight := by
    obtain ⟨q, hq, hr⟩ := hrow.weight
    obtain rfl : 1 = q := Except.ok.inj hq
    rw [hr]
    norm_num
  have hstep := hdescends ?_
  · have hpush : Pushes 1e-6 r (fun _ => 0) := ⟨htrigger, by rw [dist_flat]; norm_num⟩
    refine ⟨r, hgood, ?_⟩
    have hlt := (hstep.pushed hpush 1 one_pos).mpr hweight
    rw [hstep.alone hgood] at hlt
    exact hlt.trans_eq (dist_flat r.bad)
  · show 1 - dist (fun _ => 0) r.bad ≠ 1e-6
    rw [dist_flat]
    norm_num

end Trainfer.Unlike
