import Trainfer.Lib.FloatFormat
import Trainfer.Lib.Strata
import Mathlib.Data.String.Basic

/-! `get_split`: the train and held-out tasks of the logical corpus, split within each domain.

`getSplit_spec` says what always holds of the split, and for which growths of a task list it is
stable: a rounded share that grows moves a held-out task into train. -/

namespace Trainfer

/-- The fields of a task that are looked at. -/
structure Task where
  taskId : String
  domain : String
  deriving DecidableEq, Repr

/-- A `float`; the value is in units of `2 ^ -1074`. -/
def binary64 : FloatFormat := ⟨52, 11, 0⟩

/-- A `train_ratio` between 0 and 1, by its magnitude bits. -/
structure TrainRatio where
  bits : ℕ
  le_one : binary64.value bits ≤ 2 ^ 1074

/-- `float(n)`, in units of one. -/
def floatOfInt (n : ℕ) : ℕ := binary64.value (binary64.encode n)

/-- `round(train_ratio * n)`, with a product that is rounded and a tie to even. -/
def roundedShare (ratio : TrainRatio) (n : ℕ) : ℕ :=
  let product := binary64.value (binary64.encode (binary64.value ratio.bits * floatOfInt n))
  FloatFormat.halfEven product 1074

/-- `n_train`. -/
def trainSize (ratio : TrainRatio) (n : ℕ) : ℕ :=
  if 2 ≤ n then max 1 (min (n - 1) (roundedShare ratio n)) else n

/-- `get_split`: domain by domain in order, the tasks of each by id, cut at `n_train`. -/
def getSplit (ratio : TrainRatio) (tasks : List Task) : List Task × List Task :=
  (Strata.firsts Task.domain Task.taskId (trainSize ratio) tasks,
    Strata.rests Task.domain Task.taskId (trainSize ratio) tasks)

/-- The number of tasks of a domain. -/
def domainSize (tasks : List Task) (domain : String) : ℕ :=
  tasks.countP fun t => t.domain = domain

theorem length_stratum (tasks : List Task) (domain : String) :
    (Strata.stratum Task.domain Task.taskId tasks domain).length = domainSize tasks domain := by
  rw [(Strata.stratum_perm _ _ tasks domain).length_eq, domainSize, List.countP_eq_length_filter]

theorem trainSize_bounds (ratio : TrainRatio) {n : ℕ} (hn : 2 ≤ n) :
    0 < trainSize ratio n ∧ trainSize ratio n < n := by
  rw [trainSize, if_pos hn]
  omega

/-- The new tasks come with other ids, and in each domain after those that are there. -/
structure Extends (tasks tasks' : List Task) : Prop where
  ids : (tasks'.map Task.taskId).Nodup
  added : ∃ new, tasks'.Perm (tasks ++ new) ∧
    ∀ t ∈ tasks, ∀ t' ∈ new, t.domain = t'.domain → t.taskId < t'.taskId

theorem Extends.size_le {tasks tasks' : List Task} (h : Extends tasks tasks') (domain : String) :
    domainSize tasks domain ≤ domainSize tasks' domain := by
  obtain ⟨new, hperm, -⟩ := h.added
  rw [domainSize, domainSize, hperm.countP_eq, List.countP_append]
  exact Nat.le_add_right _ _

/-- A domain of `n` tasks has `n'` of them now, and no more in train than before. -/
def ShareStays (ratio : TrainRatio) (n n' : ℕ) : Prop :=
  n < 2 ∨ n' = n ∨ roundedShare ratio n' ≤ 1 ∨
    (roundedShare ratio n' ≤ roundedShare ratio n ∧ roundedShare ratio n' < n)

theorem trainSize_le_iff (ratio : TrainRatio) {n n' : ℕ} (hle : n ≤ n') :
    n ≤ trainSize ratio n ∨ trainSize ratio n' ≤ trainSize ratio n ↔ ShareStays ratio n n' := by
  rw [ShareStays]
  by_cases hn : 2 ≤ n
  · rw [trainSize, trainSize, if_pos hn, if_pos (hn.trans hle)]
    by_cases heq : n' = n
    · subst heq
      omega
    · omega
  · rw [trainSize, if_neg hn]
    omega

/-- **The split of the tasks.** With distinct ids, the two lists are a rearrangement of the tasks,
they share none, and both have one of each domain with two or more. When tasks are added behind
those of their domain, no held-out task moves into train iff the rounded share of no domain that
has grown goes up, other than to one. -/
theorem getSplit_spec (ratio : TrainRatio) (tasks : List Task) :
    ((tasks.map Task.taskId).Nodup →
      ((getSplit ratio tasks).1 ++ (getSplit ratio tasks).2).Perm tasks ∧
      (getSplit ratio tasks).1.Disjoint (getSplit ratio tasks).2 ∧
      ∀ domain, 2 ≤ domainSize tasks domain →
        (∃ t ∈ (getSplit ratio tasks).1, t.domain = domain) ∧
        ∃ t ∈ (getSplit ratio tasks).2, t.domain = domain) ∧
    ∀ tasks', Extends tasks tasks' →
      ((∀ t ∈ (getSplit ratio tasks).2, t ∉ (getSplit ratio tasks').1) ↔
        ∀ domain, ShareStays ratio (domainSize tasks domain) (domainSize tasks' domain)) := by
  constructor
  · intro hids
    refine ⟨Strata.parts_perm hids, Strata.parts_disjoint hids, fun domain hn => ?_⟩
    obtain ⟨hpos, hlt⟩ := trainSize_bounds ratio hn
    exact Strata.exists_mem_parts hids (length_stratum tasks domain) hpos hlt
  · intro tasks' hextends
    obtain ⟨new, hperm, hafter⟩ := hextends.added
    refine (Strata.stable_iff hperm hextends.ids hafter).trans (forall_congr' fun domain => ?_)
    rw [length_stratum, length_stratum]
    exact trainSize_le_iff ratio (hextends.size_le domain)

/-- The default of `train_ratio`. -/
def seventyPercent : TrainRatio := ⟨0x3FE6666666666666, by decide +kernel⟩

def parityTasks : List Task := [⟨"logical/parity/0", "parity"⟩, ⟨"logical/parity/1", "parity"⟩]

def moreParityTasks : List Task := parityTasks ++ [⟨"logical/parity/2", "parity"⟩]

/-- With a third task, the second one moves into train. -/
theorem parityTasks_leak :
    Extends parityTasks moreParityTasks ∧
      ⟨"logical/parity/1", "parity"⟩ ∈ (getSplit seventyPercent parityTasks).2 ∧
      ⟨"logical/parity/1", "parity"⟩ ∈ (getSplit seventyPercent moreParityTasks).1 :=
  ⟨⟨by decide +kernel, [⟨"logical/parity/2", "parity"⟩], List.Perm.refl _, by decide +kernel⟩,
    by decide +kernel, by decide +kernel⟩

end Trainfer
