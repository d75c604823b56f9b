import Trainfer.Lib.AsyncQueue
import Trainfer.Lib.Runs
import Trainfer.TrainSpec
import Mathlib.Algebra.GroupWithZero.Nat
import Mathlib.Data.List.Nodup
import Mathlib.Data.List.Sublists
import Mathlib.Data.List.Pairwise

/-! `CommitBroadcaster`: every subscriber has a bounded queue of its own, and an event that
finds a queue full is counted and gone.

The ghost fields of a subscriber say what was broadcast while it was subscribed, what it has
taken out and what its full queue has turned away. `balanced_run` is the account of the
three, and `told_run` reads each of them off the run. -/

namespace Trainfer.CommitStream

/-- The event of `broadcast_commit`. -/
structure Commit where
  cursor : Int
  ts : String
  objective : String
  loss : ℚ
  components : JsonObject
  batchSize : Nat

/-- An item of a subscriber's queue. The number of the broadcast is a ghost. -/
inductive Event where
  | commit (number : Nat) (c : Commit)
  | shutdown

/-- The commits among the events, with their numbers. -/
def commits (events : List Event) : List (Nat × Commit) :=
  events.filterMap fun
    | .commit number c => some (number, c)
    | .shutdown => none

structure Subscriber where
  queue : AsyncQueue Event
  /-- In `_subscribers`. -/
  subscribed : Bool
  received : List Event
  offered : List (Nat × Commit)
  lost : List (Nat × Commit)

/-- Everything that was put into the subscriber's queue, in order. -/
def Subscriber.stream (sub : Subscriber) : List Event := sub.received ++ sub.queue.items

/-- The commits that the subscriber has received or still holds. -/
def Subscriber.got (sub : Subscriber) : List (Nat × Commit) := commits sub.stream

structure CommitBroadcaster where
  enabled : Bool
  drops : Nat
  subscribers : List Subscriber
  /-- How many commits were broadcast. -/
  broadcasts : Nat

namespace CommitBroadcaster

def init (enabled : Bool) : CommitBroadcaster := ⟨enabled, 0, [], 0⟩

def subscribe (b : CommitBroadcaster) (maxsize : Int) : CommitBroadcaster :=
  { b with subscribers := b.subscribers ++ [⟨AsyncQueue.init maxsize, true, [], [], []⟩] }

/-- `discard` of the `i`-th queue. -/
def unsubscribe (b : CommitBroadcaster) (i : Nat) : CommitBroadcaster :=
  match b.subscribers[i]? with
  | none => b
  | some sub => { b with subscribers := b.subscribers.set i { sub with subscribed := false } }

/-- `put_nowait` of a commit, and whether it was a drop. -/
def offer (number : Nat) (c : Commit) (sub : Subscriber) : Subscriber × Nat :=
  match sub.queue.putNowait (.commit number c) with
  | some q => ({ sub with queue := q, offered := sub.offered ++ [(number, c)] }, 0)
  | none =>
    ({ sub with offered := sub.offered ++ [(number, c)], lost := sub.lost ++ [(number, c)] }, 1)

/-- The loop over the subscribers. -/
def offerAll (number : Nat) (c : Commit) : List Subscriber → List Subscriber × Nat
  | [] => ([], 0)
  | sub :: subs =>
    let (subs, drops) := offerAll number c subs
    if sub.subscribed then
      let (sub, drop) := offer number c sub
      (sub :: subs, drops + drop)
    else (sub :: subs, drops)

/-- It has no suspension. -/
def broadcastCommit (b : CommitBroadcaster) (c : Commit) : CommitBroadcaster :=
  if !b.enabled || !b.subscribers.any Subscriber.subscribed then b
  else
    let (subscribers, drops) := offerAll b.broadcasts c b.subscribers
    { b with subscribers, drops := b.drops + drops, broadcasts := b.broadcasts + 1 }

/-- `put_nowait` of the sentinel. A full queue does without. -/
def offerShutdown (sub : Subscriber) : Subscriber :=
  if sub.subscribed then { sub with queue := (sub.queue.putNowait .shutdown).getD sub.queue }
  else sub

def broadcastShutdown (b : CommitBroadcaster) : CommitBroadcaster :=
  { b with subscribers := b.subscribers.map offerShutdown }

/-- The consumer of the `i`-th queue gets an event. -/
def get (b : CommitBroadcaster) (i : Nat) : Option (Event × CommitBroadcaster) := do
  let sub ← b.subscribers[i]?
  let (event, queue) ← sub.queue.getNowait
  return (event, { b with
    subscribers := b.subscribers.set i
      { sub with queue := queue, received := sub.received ++ [event] } })

inductive Action where
  | subscribe (maxsize : Int)
  | unsubscribe (i : Nat)
  | broadcastCommit (c : Commit)
  | broadcastShutdown
  | get (i : Nat)

/-- One action; `none` if the consumer has nothing to get and waits. -/
def step (b : CommitBroadcaster) : Action → Option CommitBroadcaster
  | .subscribe maxsize => some (b.subscribe maxsize)
  | .unsubscribe i => some (b.unsubscribe i)
  | .broadcastCommit c => some (b.broadcastCommit c)
  | .broadcastShutdown => some b.broadcastShutdown
  | .get i => (b.get i).map Prod.snd

end CommitBroadcaster

/-! ## The account of one subscriber -/

/-- What was offered has distinct numbers in order; what was got is a subsequence of it, and
the rest was lost. -/
structure Subscriber.Balanced (broadcasts : Nat) (sub : Subscriber) : Prop where
  numbered : (sub.offered.map Prod.fst).Pairwise (· < ·)
  past : ∀ e ∈ sub.offered, e.1 < broadcasts
  got : sub.got.Sublist sub.offered
  lost : sub.lost.Sublist sub.offered
  split : (sub.got ++ sub.lost).Perm sub.offered

theorem commits_append (es fs : List Event) : commits (es ++ fs) = commits es ++ commits fs :=
  List.filterMap_append

theorem mem_commits {events : List Event} {number : Nat} {c : Commit} :
    (number, c) ∈ commits events ↔ .commit number c ∈ events := by
  simp only [commits, List.mem_filterMap]
  constructor
  · rintro ⟨event, hmem, hevent⟩
    split at hevent
    · cases hevent
      exact hmem
    · cases hevent
  · exact fun h => ⟨_, h, rfl⟩

/-! ## What is put into the queues -/

theorem putNowait_some {q q' : AsyncQueue Event} {e : Event} (h : q.putNowait e = some q') :
    q'.items = q.items ++ [e] := by
  unfold AsyncQueue.putNowait at h
  split at h
  · cases h
  · obtain rfl := Option.some.inj h
    rfl

theorem stream_put {sub : Subscriber} {q : AsyncQueue Event} {e : Event}
    (h : sub.queue.putNowait e = some q) (offered : List (Nat × Commit)) :
    Subscriber.stream { sub with queue := q, offered } = sub.stream ++ [e] := by
  simp only [Subscriber.stream, putNowait_some h, List.append_assoc]

/-- Taking an event out moves it from what is held to what was received. -/
theorem stream_received {sub : Subscriber} {event : Event} {queue : AsyncQueue Event}
    (h : sub.queue.getNowait = some (event, queue)) :
    Subscriber.stream { sub with queue := queue, received := sub.received ++ [event] } =
      sub.stream := by
  simp [Subscriber.stream, (AsyncQueue.getNowait_some h).1]

theorem stream_offerShutdown (sub : Subscriber) :
    (CommitBroadcaster.offerShutdown sub).stream = sub.stream ∨
      (CommitBroadcaster.offerShutdown sub).stream = sub.stream ++ [.shutdown] := by
  unfold CommitBroadcaster.offerShutdown
  split
  · cases hput : sub.queue.putNowait .shutdown with
    | none => exact .inl rfl
    | some q => exact .inr (stream_put hput sub.offered)
  · exact .inl rfl

theorem got_offerShutdown (sub : Subscriber) :
    (CommitBroadcaster.offerShutdown sub).got = sub.got := by
  rcases stream_offerShutdown sub with h | h
  · rw [Subscriber.got, h, Subscriber.got]
  · rw [Subscriber.got, h, commits_append, Subscriber.got]
    exact List.append_nil _

/-- What the loop of `broadcast_commit` makes of one subscriber. -/
def offeredTo (number : Nat) (c : Commit) (sub : Subscriber) : Subscriber :=
  if sub.subscribed then (CommitBroadcaster.offer number c sub).1 else sub

theorem offerAll_fst (number : Nat) (c : Commit) (subs : List Subscriber) :
    (CommitBroadcaster.offerAll number c subs).1 = subs.map (offeredTo number c) := by
  induction subs with
  | nil => rfl
  | cons sub subs ih =>
    rw [List.map_cons, ← ih]
    simp only [CommitBroadcaster.offerAll, offeredTo]
    split <;> rfl

theorem stream_offeredTo (number : Nat) (c : Commit) (sub : Subscriber) :
    (offeredTo number c sub).stream = sub.stream ∨
      (offeredTo number c sub).stream = sub.stream ++ [.commit number c] := by
  unfold offeredTo CommitBroadcaster.offer
  split
  · split
    · rename_i q hq
      exact .inr (stream_put hq _)
    · exact .inl rfl
  · exact .inl rfl

theorem offered_offeredTo (number : Nat) (c : Commit) (sub : Subscriber) :
    (offeredTo number c sub).offered =
      if sub.subscribed then sub.offered ++ [(number, c)] else sub.offered := by
  unfold offeredTo CommitBroadcaster.offer
  split
  · split <;> rfl
  · rfl

theorem broadcastCommit_eq (b : CommitBroadcaster) (c : Commit) :
    b.broadcastCommit c = b ∨
      (b.broadcastCommit c).subscribers = b.subscribers.map (offeredTo b.broadcasts c) ∧
        (b.broadcastCommit c).broadcasts = b.broadcasts + 1 := by
  unfold CommitBroadcaster.broadcastCommit
  split
  · exact .inl rfl
  · exact .inr ⟨offerAll_fst _ _ _, rfl⟩

/-- The broadcaster that is off, and the one without a subscriber, offer nothing to anybody. -/
theorem broadcastCommit_subscribers (b : CommitBroadcaster) (c : Commit) :
    (b.broadcastCommit c).subscribers =
      b.subscribers.map fun sub => if b.enabled then offeredTo b.broadcasts c sub else sub := by
  unfold CommitBroadcaster.broadcastCommit
  split
  · rename_i hidle
    have hsame : ∀ sub ∈ b.subscribers,
        (if b.enabled then offeredTo b.broadcasts c sub else sub) = sub := by
      intro sub hsub
      by_cases henabled : b.enabled = true
      · have hnobody : b.subscribers.any Subscriber.subscribed = false := by
          simpa [henabled] using hidle
        have hout := List.any_eq_false.mp hnobody sub hsub
        rw [if_pos henabled, offeredTo, if_neg hout]
      · rw [if_neg henabled]
    rw [List.map_congr_left hsame, List.map_id']
  · rename_i hon
    have henabled : b.enabled = true := by
      simp only [Bool.or_eq_true, not_or, Bool.not_eq_true', Bool.not_eq_false] at hon
      exact hon.1
    simp [henabled, offerAll_fst]

theorem get_some {b b' : CommitBroadcaster} {i : Nat} {event : Event}
    (h : b.get i = some (event, b')) :
    ∃ sub queue, b.subscribers[i]? = some sub ∧ sub.queue.getNowait = some (event, queue) ∧
      b' = { b with
        subscribers := b.subscribers.set i
          { sub with queue := queue, received := sub.received ++ [event] } } := by
  simp only [CommitBroadcaster.get, Option.bind_eq_bind, Option.pure_def,
    Option.bind_eq_some_iff, Option.some.injEq, Prod.mk.injEq] at h
  obtain ⟨sub, hsub, ⟨e, queue⟩, hget, rfl, rfl⟩ := h
  exact ⟨sub, queue, hsub, hget, rfl⟩

theorem offeredTo_fields (number : Nat) (c : Commit) (sub : Subscriber) :
    (offeredTo number c sub).subscribed = sub.subscribed ∧
      (offeredTo number c sub).received = sub.received ∧
      (offeredTo number c sub).queue.maxsize = sub.queue.maxsize ∧
      (offeredTo number c sub).lost =
        sub.lost ++ if sub.subscribed && sub.queue.full then [(number, c)] else [] := by
  unfold offeredTo CommitBroadcaster.offer AsyncQueue.putNowait
  cases hsub : sub.subscribed <;> cases hfull : sub.queue.full <;> simp [hsub]

/-- What `get` makes of the subscriber whose queue it is. -/
def taken (sub : Subscriber) : Subscriber :=
  match sub.queue.getNowait with
  | none => sub
  | some (event, queue) => { sub with queue := queue, received := sub.received ++ [event] }

/-- The `i`-th subscriber after an action. -/
def subscriberAfter (b : CommitBroadcaster) (i : Nat) :
    CommitBroadcaster.Action → Option Subscriber
  | .subscribe maxsize =>
    if i = b.subscribers.length then some ⟨AsyncQueue.init maxsize, true, [], [], []⟩
    else b.subscribers[i]?
  | .unsubscribe j =>
    b.subscribers[i]?.map fun sub => if j = i then { sub with subscribed := false } else sub
  | .broadcastCommit c =>
    b.subscribers[i]?.map fun sub => if b.enabled then offeredTo b.broadcasts c sub else sub
  | .broadcastShutdown => b.subscribers[i]?.map CommitBroadcaster.offerShutdown
  | .get j => b.subscribers[i]?.map fun sub => if j = i then taken sub else sub

theorem getElem?_set_map {α : Type*} {xs : List α} {j : Nat} {x y : α} (hj : xs[j]? = some x)
    (i : Nat) : (xs.set j y)[i]? = xs[i]?.map fun z => if j = i then y else z := by
  rw [List.getElem?_set]
  split
  · rename_i hij
    subst hij
    simp [(List.getElem?_eq_some_iff.mp hj).1]
  · simp

/-- **Inversion of an action**, at one subscriber. -/
theorem getElem?_step {b b' : CommitBroadcaster} {a : CommitBroadcaster.Action}
    (h : b.step a = some b') (i : Nat) : b'.subscribers[i]? = subscriberAfter b i a := by
  cases a with
  | subscribe maxsize =>
    obtain rfl := Option.some.inj h
    simp only [CommitBroadcaster.subscribe, subscriberAfter]
    split
    · rename_i hi
      rw [hi, List.getElem?_concat_length]
    · rename_i hi
      rcases Nat.lt_or_ge i b.subscribers.length with hlt | hge
      · exact List.getElem?_append_left hlt
      · rw [List.getElem?_eq_none hge, List.getElem?_eq_none]
        rw [List.length_append, List.length_singleton]
        omega
  | unsubscribe j =>
    obtain rfl := Option.some.inj h
    unfold CommitBroadcaster.unsubscribe subscriberAfter
    split
    · rename_i hj
      cases hi : b.subscribers[i]? with
      | none => rfl
      | some sub =>
        have hij : j ≠ i := by
          rintro rfl
          cases hj.symm.trans hi
        simp [hij]
    · rename_i sub hj
      rw [getElem?_set_map hj]
      refine Option.map_congr fun z hz => ?_
      split
      · rename_i hij
        subst hij
        rw [Option.some.inj (hj.symm.trans hz)]
      · rfl
  | broadcastCommit c =>
    obtain rfl := Option.some.inj h
    rw [subscriberAfter, broadcastCommit_subscribers, List.getElem?_map]
  | broadcastShutdown =>
    obtain rfl := Option.some.inj h
    simp [CommitBroadcaster.broadcastShutdown, subscriberAfter]
  | get j =>
    obtain ⟨⟨event, c⟩, hget, rfl⟩ := Option.map_eq_some_iff.mp h
    obtain ⟨sub, queue, hj, hq, rfl⟩ := get_some hget
    rw [getElem?_set_map hj, subscriberAfter]
    refine Option.map_congr fun z hz => ?_
    split
    · rename_i hij
      subst hij
      rw [← Option.some.inj (hj.symm.trans hz), taken, hq]
    · rfl

theorem taken_fields (sub : Subscriber) :
    (taken sub).subscribed = sub.subscribed ∧ (taken sub).offered = sub.offered ∧
      (taken sub).lost = sub.lost ∧ (taken sub).queue.maxsize = sub.queue.maxsize := by
  unfold taken
  cases hq : sub.queue.getNowait with
  | none => simp
  | some r =>
    obtain ⟨event, queue⟩ := r
    obtain ⟨items, -, rfl⟩ := AsyncQueue.getNowait_inv hq
    simp

theorem offerShutdown_fields (sub : Subscriber) :
    (CommitBroadcaster.offerShutdown sub).offered = sub.offered ∧
      (CommitBroadcaster.offerShutdown sub).lost = sub.lost ∧
      (CommitBroadcaster.offerShutdown sub).subscribed = sub.subscribed ∧
      (CommitBroadcaster.offerShutdown sub).received = sub.received ∧
      (CommitBroadcaster.offerShutdown sub).queue.maxsize = sub.queue.maxsize := by
  unfold CommitBroadcaster.offerShutdown
  split
  · unfold AsyncQueue.putNowait
    split <;> exact ⟨rfl, rfl, rfl, rfl, rfl⟩
  · exact ⟨rfl, rfl, rfl, rfl, rfl⟩

theorem stream_taken (sub : Subscriber) : (taken sub).stream = sub.stream := by
  unfold taken
  cases hq : sub.queue.getNowait with
  | none => rfl
  | some r => exact stream_received hq

/-- A step puts at most one event into the queue of a subscriber: the commit that is broadcast,
or the sentinel. -/
theorem stream_step {b b' : CommitBroadcaster} {a : CommitBroadcaster.Action}
    (h : b.step a = some b') {sub' : Subscriber} (hsub' : sub' ∈ b'.subscribers) :
    sub'.stream = [] ∨ ∃ sub ∈ b.subscribers, sub'.stream = sub.stream ∨
      (∃ c, a = .broadcastCommit c ∧ sub'.stream = sub.stream ++ [.commit b.broadcasts c]) ∨
      a = .broadcastShutdown ∧ sub'.stream = sub.stream ++ [.shutdown] := by
  obtain ⟨i, hi'⟩ := List.mem_iff_getElem?.mp hsub'
  rw [getElem?_step h] at hi'
  cases a with
  | subscribe maxsize =>
    simp only [subscriberAfter] at hi'
    split at hi'
    · obtain rfl := Option.some.inj hi'
      exact .inl rfl
    · exact .inr ⟨sub', List.mem_of_getElem? hi', .inl rfl⟩
  | unsubscribe j =>
    obtain ⟨sub, hi, rfl⟩ := Option.map_eq_some_iff.mp hi'
    refine .inr ⟨sub, List.mem_of_getElem? hi, .inl ?_⟩
    split <;> rfl
  | broadcastCommit c =>
    obtain ⟨sub, hi, rfl⟩ := Option.map_eq_some_iff.mp hi'
    refine .inr ⟨sub, List.mem_of_getElem? hi, ?_⟩
    split
    · rcases stream_offeredTo b.broadcasts c sub with hstream | hstream
      · exact .inl hstream
      · exact .inr (.inl ⟨c, rfl, hstream⟩)
    · exact .inl rfl
  | broadcastShutdown =>
    obtain ⟨sub, hi, rfl⟩ := Option.map_eq_some_iff.mp hi'
    refine .inr ⟨sub, List.mem_of_getElem? hi, ?_⟩
    rcases stream_offerShutdown sub with hstream | hstream
    · exact .inl hstream
    · exact .inr (.inr ⟨rfl, hstream⟩)
  | get j =>
    obtain ⟨sub, hi, rfl⟩ := Option.map_eq_some_iff.mp hi'
    refine .inr ⟨sub, List.mem_of_getElem? hi, .inl ?_⟩
    split
    · exact stream_taken sub
    · rfl

/-- A subscriber keeps its place, and what it was offered. -/
theorem offered_step {b b' : CommitBroadcaster} {a : CommitBroadcaster.Action}
    (h : b.step a = some b') {i : Nat} {sub : Subscriber} (hi : b.subscribers[i]? = some sub) :
    ∃ sub', b'.subscribers[i]? = some sub' ∧ sub.offered <+: sub'.offered := by
  rw [getElem?_step h]
  cases a with
  | subscribe maxsize =>
    have hlt := (List.getElem?_eq_some_iff.mp hi).1
    exact ⟨sub, by rw [subscriberAfter, if_neg (Nat.ne_of_lt hlt), hi], List.prefix_refl _⟩
  | unsubscribe j =>
    refine ⟨_, by rw [subscriberAfter, hi]; rfl, ?_⟩
    split <;> exact List.prefix_refl _
  | broadcastCommit c =>
    refine ⟨_, by rw [subscriberAfter, hi]; rfl, ?_⟩
    split
    · rw [offered_offeredTo]
      split
      · exact List.prefix_append _ _
      · exact List.prefix_refl _
    · exact List.prefix_refl _
  | broadcastShutdown =>
    refine ⟨_, by rw [subscriberAfter, hi]; rfl, ?_⟩
    exact (offerShutdown_fields sub).1 ▸ List.prefix_refl _
  | get j =>
    refine ⟨_, by rw [subscriberAfter, hi]; rfl, ?_⟩
    split
    · exact (taken_fields sub).2.1 ▸ List.prefix_refl _
    · exact List.prefix_refl _

/-- Only the endpoint adds a queue, and nobody switches the stream on or off. -/
theorem enabled_step {b b' : CommitBroadcaster} {a : CommitBroadcaster.Action}
    (h : b.step a = some b') : b'.enabled = b.enabled ∧
      (b'.subscribers.length = b.subscribers.length ∨ ∃ maxsize, a = .subscribe maxsize) := by
  cases a with
  | subscribe maxsize =>
    obtain rfl := Option.some.inj h
    exact ⟨rfl, .inr ⟨maxsize, rfl⟩⟩
  | unsubscribe i =>
    obtain rfl := Option.some.inj h
    unfold CommitBroadcaster.unsubscribe
    split
    · exact ⟨rfl, .inl rfl⟩
    · exact ⟨rfl, .inl List.length_set⟩
  | broadcastCommit c =>
    obtain rfl := Option.some.inj h
    refine ⟨?_, .inl ?_⟩
    · unfold CommitBroadcaster.broadcastCommit
      split <;> rfl
    · rcases broadcastCommit_eq b c with heq | ⟨hsubs, -⟩
      · rw [heq]
      · rw [hsubs, List.length_map]
  | broadcastShutdown =>
    obtain rfl := Option.some.inj h
    exact ⟨rfl, .inl (List.length_map _)⟩
  | get i =>
    obtain ⟨⟨event, c⟩, hget, rfl⟩ := Option.map_eq_some_iff.mp h
    obtain ⟨sub, queue, -, -, rfl⟩ := get_some hget
    exact ⟨rfl, .inl List.length_set⟩

/-- A commit is offered to every subscriber. -/
theorem offered_broadcastCommit {b : CommitBroadcaster} (henabled : b.enabled = true) {i : Nat}
    {sub : Subscriber} (hi : b.subscribers[i]? = some sub) (hsub : sub.subscribed = true)
    (c : Commit) : ∃ sub', (b.broadcastCommit c).subscribers[i]? = some sub' ∧
      (b.broadcasts, c) ∈ sub'.offered ∧ (b.broadcastCommit c).broadcasts = b.broadcasts + 1 := by
  have hany : b.subscribers.any Subscriber.subscribed = true :=
    List.any_eq_true.mpr ⟨sub, List.mem_of_getElem? hi, hsub⟩
  refine ⟨offeredTo b.broadcasts c sub, ?_, ?_, ?_⟩
  · simp [CommitBroadcaster.broadcastCommit, henabled, hany, offerAll_fst, hi]
  · rw [offered_offeredTo, if_pos hsub]
    simp
  · simp [CommitBroadcaster.broadcastCommit, henabled, hany]

theorem broadcasts_step {b b' : CommitBroadcaster} {a : CommitBroadcaster.Action}
    (h : b.step a = some b') : b.broadcasts ≤ b'.broadcasts := by
  cases a with
  | subscribe maxsize | broadcastShutdown =>
    obtain rfl := Option.some.inj h
    exact Nat.le_refl _
  | unsubscribe i =>
    obtain rfl := Option.some.inj h
    unfold CommitBroadcaster.unsubscribe
    split <;> exact Nat.le_refl _
  | broadcastCommit c =>
    obtain rfl := Option.some.inj h
    rcases broadcastCommit_eq b c with heq | ⟨-, hcount⟩
    · exact Nat.le_of_eq (congrArg CommitBroadcaster.broadcasts heq.symm)
    · omega
  | get i =>
    obtain ⟨⟨event, c⟩, hget, rfl⟩ := Option.map_eq_some_iff.mp h
    obtain ⟨sub, queue, -, -, rfl⟩ := get_some hget
    exact Nat.le_refl _

namespace Subscriber.Balanced

variable {n : Nat} {sub : Subscriber}

theorem mono {m : Nat} (h : sub.Balanced n) (hle : n ≤ m) : sub.Balanced m :=
  ⟨h.numbered, fun e he => lt_of_lt_of_le (h.past e he) hle, h.got, h.lost, h.split⟩

theorem numbered_append (h : sub.Balanced n) (c : Commit) :
    ((sub.offered ++ [(n, c)]).map Prod.fst).Pairwise (· < ·) := by
  rw [List.map_append, List.pairwise_append]
  refine ⟨h.numbered, by simp, fun a ha b hb => ?_⟩
  obtain ⟨e, he, rfl⟩ := List.mem_map.mp ha
  have hlt := h.past e he
  simp only [List.map_cons, List.map_nil, List.mem_singleton] at hb
  omega

theorem past_append (h : sub.Balanced n) (c : Commit) :
    ∀ e ∈ sub.offered ++ [(n, c)], e.1 < n + 1 := by
  intro e he
  rcases List.mem_append.mp he with he | he
  · have hlt := h.past e he
    omega
  · rw [List.mem_singleton.mp he]
    exact Nat.lt_succ_self n

/-- A commit is put into the queue, or lost and counted. -/
theorem offer (h : sub.Balanced n) (c : Commit) :
    (CommitBroadcaster.offer n c sub).1.Balanced (n + 1) ∧
      (CommitBroadcaster.offer n c sub).1.lost.length =
        sub.lost.length + (CommitBroadcaster.offer n c sub).2 := by
  unfold CommitBroadcaster.offer
  split
  · rename_i q hq
    have hgot : Subscriber.got { sub with queue := q, offered := sub.offered ++ [(n, c)] } =
        sub.got ++ [(n, c)] := by
      rw [Subscriber.got, stream_put hq, commits_append]
      rfl
    refine ⟨⟨h.numbered_append c, h.past_append c, ?_, ?_, ?_⟩, rfl⟩
    · rw [hgot]
      exact h.got.append (List.Sublist.refl _)
    · exact h.lost.trans (List.sublist_append_left _ _)
    · rw [hgot, List.append_assoc]
      refine (List.perm_append_comm.append_left sub.got).trans ?_
      rw [← List.append_assoc]
      exact h.split.append_right _
  · refine ⟨⟨h.numbered_append c, h.past_append c, ?_, ?_, ?_⟩, by simp⟩
    · exact h.got.trans (List.sublist_append_left _ _)
    · exact h.lost.append (List.Sublist.refl _)
    · rw [← List.append_assoc]
      exact h.split.append_right _

/-- The account does not depend on whether the subscriber is still subscribed, or on what its
consumer has taken out. -/
theorem congr {sub' : Subscriber} (h : sub.Balanced n) (hgot : sub'.got = sub.got)
    (hoffered : sub'.offered = sub.offered) (hlost : sub'.lost = sub.lost) :
    sub'.Balanced n where
  numbered := hoffered ▸ h.numbered
  past := hoffered ▸ h.past
  got := by rw [hgot, hoffered]; exact h.got
  lost := by rw [hlost, hoffered]; exact h.lost
  split := by rw [hgot, hlost, hoffered]; exact h.split

end Subscriber.Balanced

/-! ## The account of the broadcaster -/

/-- Every subscriber is accounted for, and `drops` is what they have lost together. -/
structure Balanced (b : CommitBroadcaster) : Prop where
  each : ∀ sub ∈ b.subscribers, sub.Balanced b.broadcasts
  drops : b.drops = (b.subscribers.map fun sub => sub.lost.length).sum

theorem balanced_init (enabled : Bool) : Balanced (CommitBroadcaster.init enabled) :=
  ⟨by simp [CommitBroadcaster.init], rfl⟩

theorem offerAll_balanced {n : Nat} (c : Commit) {subs : List Subscriber}
    (h : ∀ sub ∈ subs, sub.Balanced n) :
    (∀ sub ∈ (CommitBroadcaster.offerAll n c subs).1, sub.Balanced (n + 1)) ∧
      ((CommitBroadcaster.offerAll n c subs).1.map fun sub => sub.lost.length).sum =
        (subs.map fun sub => sub.lost.length).sum + (CommitBroadcaster.offerAll n c subs).2 := by
  induction subs with
  | nil => simp [CommitBroadcaster.offerAll]
  | cons sub subs ih =>
    obtain ⟨hrest, hsum⟩ := ih fun s hs => h s (List.mem_cons_of_mem sub hs)
    have hsub := h sub List.mem_cons_self
    simp only [CommitBroadcaster.offerAll]
    split
    · obtain ⟨hnew, hlost⟩ := hsub.offer c
      refine ⟨List.forall_mem_cons.mpr ⟨hnew, hrest⟩, ?_⟩
      simp only [List.map_cons, List.sum_cons, hsum, hlost]
      omega
    · refine ⟨List.forall_mem_cons.mpr ⟨hsub.mono (Nat.le_succ n), hrest⟩, ?_⟩
      simp only [List.map_cons, List.sum_cons, hsum]
      omega

theorem balanced_broadcastCommit {b : CommitBroadcaster} (h : Balanced b) (c : Commit) :
    Balanced (b.broadcastCommit c) := by
  unfold CommitBroadcaster.broadcastCommit
  split
  · exact h
  · obtain ⟨heach, hsum⟩ := offerAll_balanced c h.each
    exact ⟨heach, by simp only [hsum, h.drops]⟩

/-- A subscriber is replaced by one with the same account. -/
theorem balanced_set {b : CommitBroadcaster} (h : Balanced b) {i : Nat} {sub sub' : Subscriber}
    (hi : b.subscribers[i]? = some sub) (hgot : sub'.got = sub.got)
    (hoffered : sub'.offered = sub.offered) (hlost : sub'.lost = sub.lost) :
    Balanced { b with subscribers := b.subscribers.set i sub' } where
  each := fun s hs => by
    rcases List.mem_or_eq_of_mem_set hs with hs | rfl
    · exact h.each s hs
    · exact (h.each sub (List.mem_of_getElem? hi)).congr hgot hoffered hlost
  drops := by
    have hsame : (b.subscribers.map fun sub => sub.lost.length)[i]? = some sub'.lost.length := by
      simp [hi, hlost]
    obtain ⟨hlt, hval⟩ := List.getElem?_eq_some_iff.mp hsame
    rw [h.drops, List.map_set, ← hval, List.set_getElem_self]

theorem balanced_step (b : CommitBroadcaster) (a : CommitBroadcaster.Action)
    (b' : CommitBroadcaster) (h : Balanced b) (hstep : b.step a = some b') : Balanced b' := by
  cases a with
  | subscribe maxsize =>
    obtain rfl := Option.some.inj hstep
    refine ⟨fun sub hsub => ?_, ?_⟩
    · rcases List.mem_append.mp hsub with hsub | hsub
      · exact h.each sub hsub
      · rw [List.mem_singleton.mp hsub]
        exact ⟨List.Pairwise.nil, by simp, List.Sublist.refl _, List.Sublist.refl _,
          List.Perm.refl _⟩
    · simp [CommitBroadcaster.subscribe, h.drops]
  | unsubscribe i =>
    obtain rfl := Option.some.inj hstep
    unfold CommitBroadcaster.unsubscribe
    split
    · exact h
    · rename_i sub hi
      exact balanced_set h hi rfl rfl rfl
  | broadcastCommit c =>
    obtain rfl := Option.some.inj hstep
    exact balanced_broadcastCommit h c
  | broadcastShutdown =>
    obtain rfl := Option.some.inj hstep
    refine ⟨fun sub hsub => ?_, ?_⟩
    · obtain ⟨s, hs, rfl⟩ := List.mem_map.mp hsub
      exact (h.each s hs).congr (got_offerShutdown s) (offerShutdown_fields s).1
        (offerShutdown_fields s).2.1
    · simp only [CommitBroadcaster.broadcastShutdown, List.map_map, h.drops]
      exact congrArg List.sum (List.map_congr_left fun s _ => by
        simp only [Function.comp, (offerShutdown_fields s).2.1])
  | get i =>
    obtain ⟨⟨event, c⟩, hget, rfl⟩ := Option.map_eq_some_iff.mp hstep
    obtain ⟨sub, queue, hi, hq, rfl⟩ := get_some hget
    exact balanced_set h hi (congrArg commits (stream_received hq)) rfl rfl

/-- The account holds after every run. -/
theorem balanced_run {enabled : Bool} {actions : List CommitBroadcaster.Action}
    {b : CommitBroadcaster}
    (hrun : Runs.exec CommitBroadcaster.step (CommitBroadcaster.init enabled) actions = some b) :
    Balanced b :=
  Runs.exec_preserves balanced_step (balanced_init enabled) hrun

/-! ## The ghost fields, read off the run -/

/-- What the actions alone say of the `i`-th subscriber: how many have subscribed so far,
whether it is one of them and has not unsubscribed, and what was broadcast while it was in. -/
structure Heard where
  joined : Nat
  listening : Bool
  commits : List Commit

def hear (i : Nat) (h : Heard) : CommitBroadcaster.Action → Heard
  | .subscribe _ => { h with joined := h.joined + 1, listening := h.listening || h.joined == i }
  | .unsubscribe j => { h with listening := h.listening && j != i }
  | .broadcastCommit c => { h with commits := h.commits ++ if h.listening then [c] else [] }
  | .broadcastShutdown | .get _ => h

/-- The commits broadcast while the `i`-th subscriber of the run was subscribed. -/
def heard (i : Nat) (actions : List CommitBroadcaster.Action) : List Commit :=
  (actions.foldl (hear i) ⟨0, false, []⟩).commits

/-- The event that the consumer of the `i`-th queue gets by the action. -/
def deliveredBy (i : Nat) (b : CommitBroadcaster) : CommitBroadcaster.Action → List Event
  | .get j => if j = i then ((b.get i).map Prod.fst).toList else []
  | _ => []

/-- The `i`-th queue is in the set, and full. -/
def turnsAway (b : CommitBroadcaster) (i : Nat) : Bool :=
  b.enabled && b.subscribers[i]?.any fun sub => sub.subscribed && sub.queue.full

/-- The commit of the action, if the `i`-th queue is full. -/
def turnedAwayBy (i : Nat) (b : CommitBroadcaster) : CommitBroadcaster.Action → List Commit
  | .broadcastCommit c => if turnsAway b i then [c] else []
  | _ => []

/-- The bound that a queue is created with. -/
def maxsizes : CommitBroadcaster.Action → List Int
  | .subscribe maxsize => [maxsize]
  | _ => []

/-- The subscribers are those of the run, and their ghost fields say what happened in it. -/
structure Told (enabled : Bool) (actions : List CommitBroadcaster.Action)
    (b : CommitBroadcaster) : Prop where
  queues : (b.subscribers.map fun sub => sub.queue.maxsize) = actions.flatMap maxsizes
  offered : ∀ i sub, b.subscribers[i]? = some sub →
    sub.offered.map Prod.snd = if enabled then heard i actions else []
  received : ∀ i sub, b.subscribers[i]? = some sub → sub.received =
    Runs.emitted CommitBroadcaster.step (deliveredBy i) (CommitBroadcaster.init enabled) actions
  lost : ∀ i sub, b.subscribers[i]? = some sub → sub.lost.map Prod.snd =
    Runs.emitted CommitBroadcaster.step (turnedAwayBy i) (CommitBroadcaster.init enabled) actions

/-- A list that the `i`-th subscriber has; before it subscribes it has nothing. -/
def listAt {α : Type} (f : Subscriber → List α) (b : CommitBroadcaster) (i : Nat) : List α :=
  ((b.subscribers[i]?).map f).getD []

theorem listAt_of_some {α : Type} (f : Subscriber → List α) {b : CommitBroadcaster} {i : Nat}
    {sub : Subscriber} (hi : b.subscribers[i]? = some sub) : listAt f b i = f sub := by
  simp [listAt, hi]

theorem listAt_init {α : Type} (f : Subscriber → List α) (enabled : Bool) (i : Nat) :
    listAt f (CommitBroadcaster.init enabled) i = [] := rfl

/-- A new subscriber has nothing. -/
theorem listAt_subscribe {α : Type} {f : Subscriber → List α}
    (hnew : ∀ maxsize, f ⟨AsyncQueue.init maxsize, true, [], [], []⟩ = [])
    (b : CommitBroadcaster) (i : Nat) (maxsize : Int) :
    ((subscriberAfter b i (.subscribe maxsize)).map f).getD [] = listAt f b i := by
  simp only [subscriberAfter, listAt]
  split
  · rename_i hi
    rw [hi, List.getElem?_eq_none (Nat.le_refl _)]
    exact hnew maxsize
  · rfl

theorem received_step {b b' : CommitBroadcaster} {a : CommitBroadcaster.Action}
    (h : b.step a = some b') (i : Nat) :
    listAt Subscriber.received b' i =
      listAt Subscriber.received b i ++ deliveredBy i b a := by
  rw [listAt, getElem?_step h]
  cases a with
  | subscribe maxsize =>
    rw [listAt_subscribe fun _ => rfl]
    exact (List.append_nil _).symm
  | unsubscribe j =>
    cases hi : b.subscribers[i]? <;> simp [subscriberAfter, deliveredBy, listAt, hi, apply_ite]
  | broadcastCommit c =>
    cases hi : b.subscribers[i]? <;>
      simp [subscriberAfter, deliveredBy, listAt, hi, apply_ite, offeredTo_fields]
  | broadcastShutdown =>
    cases hi : b.subscribers[i]? <;>
      simp [subscriberAfter, deliveredBy, listAt, hi, offerShutdown_fields]
  | get j =>
    obtain ⟨⟨event, c⟩, hget, -⟩ := Option.map_eq_some_iff.mp h
    obtain ⟨sub, queue, hj, hq, -⟩ := get_some hget
    by_cases hij : j = i
    · subst hij
      simp [subscriberAfter, deliveredBy, listAt, hj, hget, taken, hq]
    · simp [subscriberAfter, deliveredBy, listAt, hij]

theorem lost_step {b b' : CommitBroadcaster} {a : CommitBroadcaster.Action}
    (h : b.step a = some b') (i : Nat) :
    listAt (fun sub => sub.lost.map Prod.snd) b' i =
      listAt (fun sub => sub.lost.map Prod.snd) b i ++ turnedAwayBy i b a := by
  rw [listAt, getElem?_step h]
  cases a with
  | subscribe maxsize =>
    rw [listAt_subscribe fun _ => rfl]
    exact (List.append_nil _).symm
  | unsubscribe j =>
    cases hi : b.subscribers[i]? <;> simp [subscriberAfter, turnedAwayBy, listAt, hi, apply_ite]
  | broadcastCommit c =>
    cases hi : b.subscribers[i]? with
    | none => simp [subscriberAfter, turnedAwayBy, turnsAway, listAt, hi]
    | some sub =>
      cases henabled : b.enabled with
      | false => simp [subscriberAfter, turnedAwayBy, turnsAway, listAt, hi, henabled]
      | true =>
        cases hfull : sub.subscribed && sub.queue.full <;>
          simp [subscriberAfter, turnedAwayBy, turnsAway, listAt, hi, henabled, offeredTo_fields,
            hfull]
  | broadcastShutdown =>
    cases hi : b.subscribers[i]? <;>
      simp [subscriberAfter, turnedAwayBy, listAt, hi, offerShutdown_fields]
  | get j =>
    cases hi : b.subscribers[i]? <;>
      simp [subscriberAfter, turnedAwayBy, listAt, hi, apply_ite, taken_fields]

theorem maxsizes_step {b b' : CommitBroadcaster} {a : CommitBroadcaster.Action}
    (h : b.step a = some b') :
    (b'.subscribers.map fun sub => sub.queue.maxsize) =
      (b.subscribers.map fun sub => sub.queue.maxsize) ++ maxsizes a := by
  cases a with
  | subscribe maxsize =>
    obtain rfl := Option.some.inj h
    simp [CommitBroadcaster.subscribe, maxsizes, AsyncQueue.init]
  | unsubscribe j | broadcastCommit c | broadcastShutdown | get j =>
    refine List.ext_getElem? fun i => ?_
    simp only [maxsizes, List.append_nil, List.getElem?_map, getElem?_step h]
    cases hi : b.subscribers[i]? <;>
      simp [subscriberAfter, hi, apply_ite, offeredTo_fields, offerShutdown_fields, taken_fields]

/-- What the actions say of the `i`-th subscriber is what the broadcaster has. -/
structure Agrees (enabled : Bool) (i : Nat) (b : CommitBroadcaster) (h : Heard) : Prop where
  switch : b.enabled = enabled
  joined : b.subscribers.length = h.joined
  listening : b.subscribers[i]?.any Subscriber.subscribed = h.listening
  offered : listAt (fun sub => sub.offered.map Prod.snd) b i = if enabled then h.commits else []

theorem listening_step {enabled : Bool} {i : Nat} {b b' : CommitBroadcaster}
    {a : CommitBroadcaster.Action} {w : Heard} (h : Agrees enabled i b w)
    (hstep : b.step a = some b') :
    b'.subscribers[i]?.any Subscriber.subscribed = (hear i w a).listening := by
  have hlistening := h.listening
  rw [getElem?_step hstep]
  cases a with
  | subscribe maxsize =>
    rw [subscriberAfter, h.joined]
    split
    · rename_i hnew
      simp [hear, hnew]
    · rename_i hold
      simp [hear, hlistening, Ne.symm hold]
  | unsubscribe j =>
    rw [hear, ← hlistening]
    cases hi : b.subscribers[i]? <;> by_cases hij : j = i <;> simp [subscriberAfter, hi, hij]
  | broadcastCommit c | broadcastShutdown | get j =>
    rw [hear, ← hlistening]
    cases hi : b.subscribers[i]? <;>
      simp [subscriberAfter, hi, apply_ite, offeredTo_fields, offerShutdown_fields, taken_fields]

theorem heard_step {enabled : Bool} {i : Nat} {b b' : CommitBroadcaster}
    {a : CommitBroadcaster.Action} {w : Heard} (h : Agrees enabled i b w)
    (hstep : b.step a = some b') : listAt (fun sub => sub.offered.map Prod.snd) b' i =
      if enabled then (hear i w a).commits else [] := by
  have hoffered := h.offered
  rw [listAt, getElem?_step hstep]
  cases a with
  | subscribe maxsize =>
    rw [listAt_subscribe fun _ => rfl]
    exact hoffered
  | broadcastCommit c =>
    rw [hear, ← h.listening, ← h.switch]
    rw [listAt, ← h.switch] at hoffered
    cases hi : b.subscribers[i]? with
    | none => simpa [subscriberAfter, hi] using hoffered
    | some sub =>
      cases hon : b.enabled <;> cases hsub : sub.subscribed <;>
        simpa [subscriberAfter, hi, hon, hsub, offered_offeredTo] using hoffered
  | unsubscribe j | broadcastShutdown | get j =>
    rw [hear, ← hoffered, listAt]
    cases hi : b.subscribers[i]? <;>
      simp [subscriberAfter, hi, apply_ite, offerShutdown_fields, taken_fields]

theorem agrees_step {enabled : Bool} {i : Nat} (b : CommitBroadcaster)
    (a : CommitBroadcaster.Action) (b' : CommitBroadcaster) (w : Heard)
    (h : Agrees enabled i b w) (hstep : b.step a = some b') :
    Agrees enabled i b' (hear i w a) where
  switch := (enabled_step hstep).1.trans h.switch
  joined := by
    have hlen := congrArg List.length (maxsizes_step hstep)
    simp only [List.length_append, List.length_map, h.joined] at hlen
    cases a <;> exact hlen
  listening := listening_step h hstep
  offered := heard_step h hstep

theorem told_run {enabled : Bool} {actions : List CommitBroadcaster.Action}
    {b : CommitBroadcaster}
    (hrun : Runs.exec CommitBroadcaster.step (CommitBroadcaster.init enabled) actions = some b) :
    Told enabled actions b := by
  refine ⟨?_, fun i sub hi => ?_, fun i sub hi => ?_, fun i sub hi => ?_⟩
  · have hqueues := Runs.exec_emitted (fun _ _ _ => maxsizes_step) hrun
    rwa [Runs.emitted_eq_flatMap hrun] at hqueues
  · have hstart : Agrees enabled i (CommitBroadcaster.init enabled) ⟨0, false, []⟩ :=
      ⟨rfl, rfl, rfl, by simp [listAt_init]⟩
    have hoffered := (Runs.exec_observed agrees_step hstart hrun).offered
    rwa [listAt_of_some _ hi] at hoffered
  · have hreceived := Runs.exec_emitted (fun _ _ _ hstep => received_step hstep i) hrun
    rwa [listAt_of_some _ hi] at hreceived
  · have hlost := Runs.exec_emitted (fun _ _ _ hstep => lost_step hstep i) hrun
    rwa [listAt_of_some _ hi] at hlost

end Trainfer.CommitStream
