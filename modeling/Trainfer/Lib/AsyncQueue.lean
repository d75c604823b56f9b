import Mathlib.Data.List.Basic

/-! A bounded single-loop queue in the manner of CPython's `asyncio.Queue`, at the
granularity of its await points. A `put` on a full queue suspends its caller; a
`get` wakes the oldest suspended caller but does not hand it the freed slot, so a
woken caller looks at `full` again when the event loop resumes it.

`InLine` says when such a queue is first in, first out with respect to an order on
the items: nothing suspended may belong before something already let in. The three
operation lemmas say exactly what each operation needs to keep it. -/

universe u

/-- `putters` wait for a wakeup, oldest first; `woken` have been woken by a `get`
and will resume inside their `put`. -/
structure AsyncQueue (α : Type u) where
  maxsize : Int
  items : List α
  putters : List α
  woken : List α

namespace AsyncQueue

variable {α : Type u}

/-- What `put` did to its caller. -/
inductive PutStatus where
  | done
  | suspended
  deriving DecidableEq, Repr

def init (maxsize : Int) : AsyncQueue α := ⟨maxsize, [], [], []⟩

def qsize (q : AsyncQueue α) : Nat := q.items.length

/-- A nonpositive `maxsize` means no bound. -/
def full (q : AsyncQueue α) : Bool := decide (0 < q.maxsize) && decide (q.maxsize ≤ q.qsize)

def empty (q : AsyncQueue α) : Bool := q.items.isEmpty

/-- The items of callers that are inside `put`. -/
def suspended (q : AsyncQueue α) : List α := q.putters ++ q.woken

/-- Everything that has entered `put` and has not been handed out. -/
def held (q : AsyncQueue α) : List α := q.items ++ q.suspended

/-- One turn of the loop in `put`: enqueue, or join the putters. -/
def put (q : AsyncQueue α) (x : α) : AsyncQueue α × PutStatus :=
  if q.full then ({ q with putters := q.putters ++ [x] }, .suspended)
  else ({ q with items := q.items ++ [x] }, .done)

/-- `put_nowait`, with `none` for `QueueFull`. -/
def putNowait (q : AsyncQueue α) (x : α) : Option (AsyncQueue α) :=
  if q.full then none else some { q with items := q.items ++ [x] }

def wakeupNext (q : AsyncQueue α) : AsyncQueue α :=
  match q.putters with
  | [] => q
  | p :: ps => { q with putters := ps, woken := q.woken ++ [p] }

def getNowait (q : AsyncQueue α) : Option (α × AsyncQueue α) :=
  match q.items with
  | [] => none
  | x :: xs => some (x, wakeupNext { q with items := xs })

/-- The `i`-th woken caller resumes and re-checks `full`. -/
def resumePut (q : AsyncQueue α) (i : Nat) : Option (AsyncQueue α) :=
  match q.woken[i]? with
  | none => none
  | some x => some (put { q with woken := q.woken.eraseIdx i } x).1

@[simp] theorem init_items (n : Int) : (init n : AsyncQueue α).items = [] := rfl

@[simp] theorem init_suspended (n : Int) : (init n : AsyncQueue α).suspended = [] := rfl

@[simp] theorem init_held (n : Int) : (init n : AsyncQueue α).held = [] := rfl

/-! ## What each operation does -/

theorem put_full (q : AsyncQueue α) (x : α) (h : q.full = true) :
    q.put x = ({ q with putters := q.putters ++ [x] }, .suspended) := by
  simp [put, h]

theorem put_not_full (q : AsyncQueue α) (x : α) (h : q.full = false) :
    q.put x = ({ q with items := q.items ++ [x] }, .done) := by
  simp [put, h]

@[simp] theorem put_maxsize (q : AsyncQueue α) (x : α) : (q.put x).1.maxsize = q.maxsize := by
  unfold put
  split <;> rfl

theorem held_put_perm (q : AsyncQueue α) (x : α) : (q.put x).1.held.Perm (x :: q.held) := by
  unfold put held suspended
  split
  · simp only [List.append_assoc, List.singleton_append]
    exact (List.perm_middle.append_left q.items).trans List.perm_middle
  · simp only [List.append_assoc, List.singleton_append]
    exact List.perm_middle

theorem mem_held_put (q : AsyncQueue α) (x y : α) :
    y ∈ (q.put x).1.held ↔ y ∈ q.held ∨ y = x := by
  rw [(held_put_perm q x).mem_iff, List.mem_cons, or_comm]

@[simp] theorem wakeupNext_items (q : AsyncQueue α) : q.wakeupNext.items = q.items := by
  unfold wakeupNext
  split <;> rfl

@[simp] theorem wakeupNext_maxsize (q : AsyncQueue α) : q.wakeupNext.maxsize = q.maxsize := by
  unfold wakeupNext
  split <;> rfl

theorem suspended_wakeupNext_perm (q : AsyncQueue α) :
    q.wakeupNext.suspended.Perm q.suspended := by
  unfold wakeupNext suspended
  cases hp : q.putters with
  | nil => simp [hp]
  | cons p ps =>
    simp only [List.cons_append, ← List.append_assoc]
    exact List.perm_append_singleton p _

theorem mem_suspended_wakeupNext (q : AsyncQueue α) (y : α) :
    y ∈ q.wakeupNext.suspended ↔ y ∈ q.suspended :=
  (suspended_wakeupNext_perm q).mem_iff

theorem getNowait_inv {q q' : AsyncQueue α} {x : α} (h : q.getNowait = some (x, q')) :
    ∃ xs, q.items = x :: xs ∧ q' = wakeupNext { q with items := xs } := by
  unfold getNowait at h
  cases hi : q.items with
  | nil => simp [hi] at h
  | cons y ys =>
    rw [hi] at h
    obtain ⟨rfl, rfl⟩ := Prod.mk.inj (Option.some.inj h)
    exact ⟨ys, rfl, rfl⟩

/-- A `get` takes the head and moves nobody else in or out. -/
theorem getNowait_some {q q' : AsyncQueue α} {x : α} (h : q.getNowait = some (x, q')) :
    q.items = x :: q'.items ∧ ∀ y, y ∈ q'.suspended ↔ y ∈ q.suspended := by
  obtain ⟨xs, hi, rfl⟩ := getNowait_inv h
  exact ⟨by simp [hi], mem_suspended_wakeupNext _⟩

theorem held_getNowait_perm {q q' : AsyncQueue α} {x : α} (h : q.getNowait = some (x, q')) :
    q.held.Perm (x :: q'.held) := by
  obtain ⟨xs, hi, rfl⟩ := getNowait_inv h
  simp only [held, hi, wakeupNext_items, List.cons_append]
  exact ((suspended_wakeupNext_perm { q with items := xs }).symm.append_left xs).cons x

theorem mem_held_getNowait {q q' : AsyncQueue α} {x : α} (h : q.getNowait = some (x, q'))
    (y : α) : y ∈ q.held ↔ y = x ∨ y ∈ q'.held := by
  rw [(held_getNowait_perm h).mem_iff, List.mem_cons]

theorem perm_eraseIdx {l : List α} {i : Nat} {x : α} (h : l[i]? = some x) :
    (x :: l.eraseIdx i).Perm l := by
  induction l generalizing i with
  | nil => simp at h
  | cons a l ih =>
    cases i with
    | zero =>
      obtain rfl : a = x := by simpa using h
      exact List.Perm.refl _
    | succ i => exact (List.Perm.swap a x _).trans ((ih (by simpa using h)).cons a)

theorem mem_iff_eraseIdx {l : List α} {i : Nat} {x : α} (h : l[i]? = some x) (y : α) :
    y ∈ l ↔ y = x ∨ y ∈ l.eraseIdx i := by
  rw [← (perm_eraseIdx h).mem_iff, List.mem_cons]

theorem held_resumePut_perm {q q' : AsyncQueue α} {i : Nat} (h : q.resumePut i = some q') :
    q'.held.Perm q.held := by
  unfold resumePut at h
  cases hw : q.woken[i]? with
  | none => simp [hw] at h
  | some x =>
    rw [hw] at h
    obtain rfl := Option.some.inj h
    refine (held_put_perm _ x).trans ?_
    simp only [held, suspended, ← List.append_assoc]
    exact List.perm_middle.symm.trans ((perm_eraseIdx hw).append_left _)

theorem mem_held_resumePut {q q' : AsyncQueue α} {i : Nat} (h : q.resumePut i = some q')
    (y : α) : y ∈ q'.held ↔ y ∈ q.held :=
  (held_resumePut_perm h).mem_iff

/-! ## Keeping the line -/

/-- `past` has been handed out, in this order; the items come after it and every
suspended item after both. -/
structure InLine (r : α → α → Prop) (past : List α) (q : AsyncQueue α) : Prop where
  sorted : (past ++ q.items).Pairwise r
  behind : ∀ x ∈ past ++ q.items, ∀ y ∈ q.suspended, r x y

variable {r : α → α → Prop} {past : List α}

theorem inLine_init (n : Int) : InLine r [] (init n : AsyncQueue α) :=
  ⟨by simp, by simp⟩

/-- A new item that belongs at the end keeps the line, provided it does not slip in
in front of a suspended one: the queue is full, or nobody is suspended. -/
theorem InLine.put {q : AsyncQueue α} {x : α} (h : InLine r past q)
    (hx : ∀ y ∈ past ++ q.items, r y x) (hs : q.full = true ∨ q.suspended = []) :
    InLine r past (q.put x).1 := by
  cases hf : q.full with
  | true =>
    rw [put_full q x hf]
    refine ⟨h.sorted, fun y hy z hz => ?_⟩
    simp only [suspended, List.mem_append, List.mem_singleton] at hz
    rcases hz with (hz | rfl) | hz
    · exact h.behind y hy z (by simp [suspended, hz])
    · exact hx y hy
    · exact h.behind y hy z (by simp [suspended, hz])
  | false =>
    have hnil : q.suspended = [] := by simpa [hf] using hs
    rw [put_not_full q x hf]
    refine ⟨?_, fun y _ z hz => ?_⟩
    · rw [← List.append_assoc, List.pairwise_append]
      exact ⟨h.sorted, by simp, by simpa using hx⟩
    · change z ∈ q.suspended at hz
      simp [hnil] at hz

theorem InLine.getNowait {q q' : AsyncQueue α} {x : α} (h : InLine r past q)
    (hg : q.getNowait = some (x, q')) : InLine r (past ++ [x]) q' := by
  obtain ⟨hi, hs⟩ := getNowait_some hg
  have e : past ++ [x] ++ q'.items = past ++ q.items := by simp [hi]
  refine ⟨e ▸ h.sorted, fun y hy z hz => ?_⟩
  rw [e] at hy
  exact h.behind y hy z ((hs z).mp hz)

/-- A woken caller keeps the line if it is put back to wait, or if it belongs
before everybody who is still suspended. -/
theorem InLine.resumePut {q q' : AsyncQueue α} {i : Nat} (h : InLine r past q)
    (hr : q.resumePut i = some q')
    (hs : q.full = true ∨
      ∀ x, q.woken[i]? = some x → ∀ y ∈ q.putters ++ q.woken.eraseIdx i, r x y) :
    InLine r past q' := by
  unfold AsyncQueue.resumePut at hr
  cases hw : q.woken[i]? with
  | none => simp [hw] at hr
  | some x =>
    rw [hw] at hr
    obtain rfl := Option.some.inj hr
    have hmem : ∀ y, y ∈ q.putters ++ q.woken.eraseIdx i ∨ y = x → y ∈ q.suspended := by
      intro y hy
      simp only [suspended, List.mem_append, mem_iff_eraseIdx hw y] at hy ⊢
      tauto
    have hx : ∀ y ∈ past ++ q.items, r y x := fun y hy => h.behind y hy x (hmem x (.inr rfl))
    cases hf : q.full with
    | true =>
      rw [put_full { q with woken := q.woken.eraseIdx i } x hf]
      refine ⟨h.sorted, fun y hy z hz => h.behind y hy z (hmem z ?_)⟩
      simp only [suspended, List.mem_append, List.mem_singleton] at hz ⊢
      tauto
    | false =>
      have hlate := hs.resolve_left (by simp [hf]) x hw
      rw [put_not_full { q with woken := q.woken.eraseIdx i } x hf]
      refine ⟨?_, fun y hy z hz => ?_⟩
      · rw [← List.append_assoc, List.pairwise_append]
        exact ⟨h.sorted, by simp, by simpa using hx⟩
      · change z ∈ q.putters ++ q.woken.eraseIdx i at hz
        simp only [List.mem_append, List.mem_singleton] at hy
        have hz' : z ∈ q.suspended := hmem z (.inl hz)
        rcases hy with hy | hy | rfl
        · exact h.behind y (List.mem_append_left _ hy) z hz'
        · exact h.behind y (List.mem_append_right _ hy) z hz'
        · exact hlate z hz

end AsyncQueue
