import Trainfer.Errors
import Trainfer.Torch
import Trainfer.Lib.Keyed
import Mathlib.Algebra.Order.Field.Basic
import Mathlib.Data.List.Chain
import Mathlib.Tactic.Linarith

/-! The rate limiter of the training and feedback routes: a token bucket for each client, made at
the client's first request. Times are those of one monotonic clock, in exact arithmetic.

`rateLimiter_bounds` is about a new limiter and any requests of any clients. -/

namespace Trainfer.RateLimit

variable {K : Type}

/-! ## Calls -/

/-- What `check` reads of a request: the header `X-Client-Id` and the peer's host. -/
structure Request where
  xClientId : Option String
  clientHost : Option String

/-- An empty header counts as none. -/
def clientId (req : Request) : String :=
  (req.xClientId.filter (· ≠ "")).getD (req.clientHost.getD "unknown")

/-- One call of `check`: the request, and what the clock says when a bucket is made and when a
token is taken. -/
structure Call (K : Type) where
  req : Request
  created : K
  now : K

/-- What a call was answered. -/
abbrev Outcome (K : Type) := Call K × Except PyError Unit

variable [LinearOrder K]

/-- The clock does not go back, within a call and from one call to the next. -/
structure Clocked (calls : List (Call K)) : Prop where
  call : ∀ c ∈ calls, c.created ≤ c.now
  next : calls.Pairwise fun a b => a.now ≤ b.created

def callsOf (id : String) (calls : List (Call K)) : List (Call K) :=
  calls.filter fun c => clientId c.req = id

def outcomesOf (id : String) (outcomes : List (Outcome K)) : List (Outcome K) :=
  outcomes.filter fun o => clientId o.1.req = id

/-- How many requests were accepted from `s` to `e`. -/
def acceptedIn (s e : K) (outcomes : List (Outcome K)) : ℕ :=
  outcomes.countP fun o => o.2.isOk && decide (s ≤ o.1.now) && decide (o.1.now ≤ e)

variable {c : Call K} {calls : List (Call K)} {s e : K}

/-- Calls from the time `t` on. -/
structure From (t : K) (calls : List (Call K)) : Prop where
  since : ∀ c ∈ calls, t ≤ c.now
  next : calls.Pairwise fun a b => a.now ≤ b.now

theorem From.tail {t : K} (h : From t (c :: calls)) : From c.now calls :=
  ⟨(List.pairwise_cons.mp h.next).1, (List.pairwise_cons.mp h.next).2⟩

theorem From.after {t : K} (h : From t (c :: calls)) (he : e < c.now) :
    ∀ c' ∈ c :: calls, e < c'.now :=
  List.forall_mem_cons.mpr ⟨he, fun c' hc' => lt_of_lt_of_le he (h.tail.since c' hc')⟩

theorem acceptedIn_cons (s e : K) (o : Outcome K) (outcomes : List (Outcome K)) :
    acceptedIn s e (o :: outcomes) = acceptedIn s e outcomes +
      if o.2.isOk = true ∧ s ≤ o.1.now ∧ o.1.now ≤ e then 1 else 0 := by
  rw [acceptedIn, List.countP_cons]
  simp only [acceptedIn, Bool.and_eq_true, decide_eq_true_eq, and_assoc]

theorem Clocked.from_created {c : Call K} (h : Clocked (c :: calls)) :
    From c.created (c :: calls) := by
  obtain ⟨hcall, hrest⟩ := List.forall_mem_cons.mp h.call
  have hnext : (c :: calls).Pairwise fun a b => a.now ≤ b.now :=
    h.next.imp_of_mem fun _ hb hab => hab.trans (h.call _ hb)
  refine ⟨List.forall_mem_cons.mpr ⟨hcall, fun c' hc' => ?_⟩, hnext⟩
  exact hcall.trans ((List.pairwise_cons.mp hnext).1 c' hc')

theorem Clocked.callsOf (h : Clocked calls) (id : String) : Clocked (callsOf id calls) :=
  ⟨fun c hc => h.call c (List.mem_of_mem_filter hc), h.next.filter _⟩

variable [Field K]

/-! ## The token bucket -/

structure TokenBucket (K : Type) where
  rate : K
  capacity : K
  tokens : K
  lastUpdate : K

/-- `TokenBucket(rate, capacity)`, at `now` on the clock. -/
def TokenBucket.make (rate capacity now : K) : TokenBucket K := ⟨rate, capacity, capacity, now⟩

def TokenBucket.consume (b : TokenBucket K) (tokens now : K) : Bool × TokenBucket K :=
  let elapsed := now - b.lastUpdate
  let filled := min b.capacity (b.tokens + elapsed * b.rate)
  if tokens ≤ filled then (true, { b with tokens := filled - tokens, lastUpdate := now })
  else (false, { b with tokens := filled, lastUpdate := now })

/-! ## The limiter -/

structure RateLimiter (K : Type) where
  rps : Option K
  buckets : Dict (TokenBucket K)

def RateLimiter.make (rps : Option K) : RateLimiter K := ⟨rps, ∅⟩

def rateLimited : PyError := ⟨.trainfer .rateLimited, "rate limit exceeded"⟩

def check (l : RateLimiter K) (c : Call K) : Except PyError Unit × RateLimiter K :=
  match l.rps with
  | none => (.ok (), l)
  | some rps =>
    if rps ≤ 0 then (.ok (), l)
    else
      let bucket := (l.buckets.lookup (clientId c.req)).getD
        (TokenBucket.make rps (max 1 rps) c.created)
      let (ok, bucket) := bucket.consume 1 c.now
      (if ok then .ok () else .error rateLimited,
        { l with buckets := l.buckets.insert (clientId c.req) bucket })

/-- A sequence of calls, in the order in which the event loop runs them. -/
def checks (l : RateLimiter K) : List (Call K) → List (Outcome K) × RateLimiter K
  | [] => ([], l)
  | c :: calls =>
    let (verdict, l) := check l c
    let (outcomes, l) := checks l calls
    ((c, verdict) :: outcomes, l)

variable {rps : K} {b : TokenBucket K} {now : K}

/-! ## The bucket of one client -/

/-- A call as a step of the client's bucket. -/
def clientStep (rps : K) (bucket : Option (TokenBucket K)) (c : Call K) :
    Outcome K × TokenBucket K :=
  let (ok, bucket) := (bucket.getD (TokenBucket.make rps (max 1 rps) c.created)).consume 1 c.now
  ((c, if ok then .ok () else .error rateLimited), bucket)

/-- A bucket of the limiter. -/
structure Fits (rps : K) (b : TokenBucket K) : Prop where
  rate : b.rate = rps
  capacity : b.capacity = max 1 rps
  nonneg : 0 ≤ b.tokens
  le : b.tokens ≤ max 1 rps

/-- What a bucket holds when a token is asked for. -/
def filled (b : TokenBucket K) (now : K) : K :=
  min b.capacity (b.tokens + (now - b.lastUpdate) * b.rate)

theorem clientStep_some (rps : K) (b : TokenBucket K) (c : Call K) :
    clientStep rps (some b) c =
      if 1 ≤ filled b c.now then
        ((c, .ok ()), { b with tokens := filled b c.now - 1, lastUpdate := c.now })
      else ((c, .error rateLimited), { b with tokens := filled b c.now, lastUpdate := c.now }) := by
  unfold clientStep TokenBucket.consume
  by_cases hone : 1 ≤ filled b c.now
  · have hmin : 1 ≤ min b.capacity (b.tokens + (c.now - b.lastUpdate) * b.rate) := hone
    rw [if_pos hone]
    simp only [Option.getD_some, if_pos hmin]
    rfl
  · have hmin : ¬ 1 ≤ min b.capacity (b.tokens + (c.now - b.lastUpdate) * b.rate) := hone
    rw [if_neg hone]
    simp only [Option.getD_some, if_neg hmin]
    rfl

/-- The first call makes the bucket. -/
theorem run_none (rps : K) (c : Call K) (calls : List (Call K)) :
    Keyed.run (clientStep rps) none (c :: calls) =
      Keyed.run (clientStep rps) (some (TokenBucket.make rps (max 1 rps) c.created))
        (c :: calls) := rfl

theorem clientStep_fst (rps : K) (bucket : Option (TokenBucket K)) (c : Call K) :
    (clientStep rps bucket c).1.1 = c := rfl

/-- Nothing is accepted in a window that was over before the first call. -/
theorem acceptedIn_eq_zero (hafter : ∀ c ∈ calls, e < c.now)
    (bucket : Option (TokenBucket K)) :
    acceptedIn s e (Keyed.run (clientStep rps) bucket calls) = 0 := by
  induction calls generalizing bucket with
  | nil => rfl
  | cons c calls ih =>
    obtain ⟨hnow, hafter⟩ := List.forall_mem_cons.mp hafter
    rw [Keyed.run, acceptedIn_cons, ih hafter, clientStep_fst, if_neg]
    rintro ⟨-, -, hle⟩
    exact absurd hle (not_le.mpr hnow)

/-! ## The limiter and its buckets -/

theorem checks_calls (l : RateLimiter K) (calls : List (Call K)) :
    (checks l calls).1.map Prod.fst = calls := by
  induction calls generalizing l with
  | nil => rfl
  | cons c calls ih => simp [checks, ih]

/-- Without a positive rate nothing is limited. -/
theorem check_unlimited {l : RateLimiter K} (h : ∀ rps ∈ l.rps, rps ≤ 0) (c : Call K) :
    check l c = (.ok (), l) := by
  unfold check
  split
  · rfl
  · rename_i rps hrps
    rw [if_pos (h rps hrps)]

/-- A limiter with a rate steps the bucket of the request's client. -/
theorem check_eq (hrps : 0 < rps) (buckets : Dict (TokenBucket K)) (c : Call K) :
    check ⟨some rps, buckets⟩ c =
      ((clientStep rps (buckets.lookup (clientId c.req)) c).1.2,
        ⟨some rps, buckets.insert (clientId c.req)
          (clientStep rps (buckets.lookup (clientId c.req)) c).2⟩) := by
  unfold check clientStep
  simp only [if_neg (not_le.mpr hrps)]

/-- The limiter is a store of buckets, one for each client id. -/
theorem checks_eq_runKeyed (hrps : 0 < rps) (buckets : Dict (TokenBucket K))
    (calls : List (Call K)) :
    (checks ⟨some rps, buckets⟩ calls).1.map (fun o => (clientId o.1.req, o)) =
        Keyed.runKeyed (clientStep rps) (fun id => buckets.lookup id)
          (calls.map fun c => (clientId c.req, c)) ∧
      (fun id => (checks ⟨some rps, buckets⟩ calls).2.buckets.lookup id) =
        Keyed.finalKeyed (clientStep rps) (fun id => buckets.lookup id)
          (calls.map fun c => (clientId c.req, c)) := by
  induction calls generalizing buckets with
  | nil => exact ⟨rfl, rfl⟩
  | cons c calls ih =>
    have hstore : (fun id => (buckets.insert (clientId c.req)
        (clientStep rps (buckets.lookup (clientId c.req)) c).2).lookup id) =
          Function.update (fun id => buckets.lookup id) (clientId c.req)
            (some (clientStep rps (buckets.lookup (clientId c.req)) c).2) := by
      funext id
      by_cases hid : id = clientId c.req
      · subst hid
        rw [AList.lookup_insert, Function.update_self]
      · rw [AList.lookup_insert_ne hid, Function.update_of_ne hid]
    obtain ⟨houtcomes, hbuckets⟩ := ih (buckets.insert (clientId c.req)
      (clientStep rps (buckets.lookup (clientId c.req)) c).2)
    simp only [checks, check_eq hrps, List.map_cons, Keyed.runKeyed, Keyed.finalKeyed]
    rw [← hstore]
    exact ⟨congrArg₂ List.cons rfl houtcomes, hbuckets⟩

/-- What a new limiter answers a client is what the client's own bucket answers. -/
theorem outcomesOf_checks (hrps : 0 < rps) (id : String) (calls : List (Call K)) :
    outcomesOf id (checks (.make (some rps)) calls).1 =
      Keyed.run (clientStep rps) none (callsOf id calls) := by
  have hkeyed := (checks_eq_runKeyed hrps ∅ calls).1
  have hanswers := congrArg (Keyed.ofKey id) hkeyed
  rw [Keyed.ofKey_runKeyed, Keyed.ofKey_map, Keyed.ofKey_map] at hanswers
  exact hanswers

theorem lookup_checks (hrps : 0 < rps) (id : String) (calls : List (Call K)) :
    (checks (.make (some rps)) calls).2.buckets.lookup id =
      Keyed.final (clientStep rps) none (callsOf id calls) := by
  have hstore := congrFun (checks_eq_runKeyed hrps ∅ calls).2 id
  rw [Keyed.finalKeyed_apply, Keyed.ofKey_map] at hstore
  exact hstore

/-- A client that is alone is answered by its bucket. -/
theorem checks_callsOf (hrps : 0 < rps) (id : String) (calls : List (Call K)) :
    (checks (.make (some rps)) (callsOf id calls)).1 =
      Keyed.run (clientStep rps) none (callsOf id calls) := by
  have hown : outcomesOf id (checks (.make (some rps)) (callsOf id calls)).1 =
      (checks (.make (some rps)) (callsOf id calls)).1 := by
    refine List.filter_eq_self.mpr fun o ho => ?_
    have hmem : o.1 ∈ callsOf id calls := by
      rw [← checks_calls (.make (some rps)) (callsOf id calls)]
      exact List.mem_map_of_mem ho
    exact (List.mem_filter.mp hmem).2
  have htwice : callsOf id (callsOf id calls) = callsOf id calls := by
    simp [callsOf]
  rw [← hown, outcomesOf_checks hrps, htwice]

variable [IsStrictOrderedRing K]

/-! ## One step -/

theorem ite_accepted_le (s e : K) (o : Outcome K) :
    ((if o.2.isOk = true ∧ s ≤ o.1.now ∧ o.1.now ≤ e then 1 else 0 : ℕ) : K) ≤
      if o.2.isOk then 1 else 0 := by
  by_cases hok : o.2.isOk = true
  · rw [if_pos hok]
    split
    · exact Nat.cast_one.le
    · exact Nat.cast_zero.le.trans zero_le_one
  · simp [hok]

theorem fits_make (rps now : K) : Fits rps (TokenBucket.make rps (max 1 rps) now) :=
  ⟨rfl, rfl, le_trans zero_le_one (le_max_left _ _), le_rfl⟩

theorem filled_nonneg (hrps : 0 < rps) (hb : Fits rps b) (hnow : b.lastUpdate ≤ now) :
    0 ≤ filled b now := by
  have hrefill : 0 ≤ (now - b.lastUpdate) * b.rate :=
    mul_nonneg (sub_nonneg.mpr hnow) (hb.rate ▸ hrps.le)
  refine le_min ?_ (add_nonneg hb.nonneg hrefill)
  rw [hb.capacity]
  exact le_trans zero_le_one (le_max_left _ _)

/-- What one call does to a bucket. -/
theorem clientStep_spec (hrps : 0 < rps) (hb : Fits rps b) (hnow : b.lastUpdate ≤ c.now) :
    Fits rps (clientStep rps (some b) c).2 ∧
      (clientStep rps (some b) c).2.lastUpdate = c.now ∧
      (clientStep rps (some b) c).2.tokens +
        (if (clientStep rps (some b) c).1.2.isOk then 1 else 0) = filled b c.now := by
  have hnonneg := filled_nonneg hrps hb hnow
  have hle : filled b c.now ≤ max 1 rps := hb.capacity ▸ min_le_left _ _
  rw [clientStep_some]
  split
  · rename_i hone
    exact ⟨⟨hb.rate, hb.capacity, by simpa using hone, by simp only; linarith⟩, rfl,
      by simp [Except.isOk, Except.toBool]⟩
  · exact ⟨⟨hb.rate, hb.capacity, hnonneg, hle⟩, rfl, by simp [Except.isOk, Except.toBool]⟩

theorem fits_final (hrps : 0 < rps) (hb : Fits rps b) (hfrom : From b.lastUpdate calls) :
    ∃ b', Keyed.final (clientStep rps) (some b) calls = some b' ∧ Fits rps b' := by
  induction calls generalizing b with
  | nil => exact ⟨b, rfl, hb⟩
  | cons c calls ih =>
    obtain ⟨hfits, hlast, -⟩ := clientStep_spec hrps hb (hfrom.since c (.head _))
    exact ih hfits (hlast ▸ hfrom.tail)

/-! ## Windows -/

/-- From a time inside the window on, a token is spent for each request that is accepted. -/
theorem acceptedIn_le_tokens (hrps : 0 < rps) (hb : Fits rps b) (hfrom : From b.lastUpdate calls)
    (he : b.lastUpdate ≤ e) :
    (acceptedIn s e (Keyed.run (clientStep rps) (some b) calls) : K) ≤
      b.tokens + rps * (e - b.lastUpdate) := by
  have hroom : 0 ≤ b.tokens + rps * (e - b.lastUpdate) :=
    add_nonneg hb.nonneg (mul_nonneg hrps.le (sub_nonneg.mpr he))
  induction calls generalizing b with
  | nil => simpa [Keyed.run, acceptedIn] using hroom
  | cons c calls ih =>
    obtain ⟨hfits, hlast, htokens⟩ := clientStep_spec hrps hb (hfrom.since c (.head _))
    rcases lt_or_ge e c.now with hlt | hge
    · -- this call and those behind it come after the window
      rw [acceptedIn_eq_zero (hfrom.after hlt), Nat.cast_zero]
      exact hroom
    · have hge' : (clientStep rps (some b) c).2.lastUpdate ≤ e := hlast ▸ hge
      have hrest := ih hfits (hlast ▸ hfrom.tail) hge'
        (add_nonneg hfits.nonneg (mul_nonneg hrps.le (sub_nonneg.mpr hge')))
      have hhead := ite_accepted_le s e (clientStep rps (some b) c).1
      have hfilled : filled b c.now ≤ b.tokens + (c.now - b.lastUpdate) * rps :=
        hb.rate ▸ min_le_right _ _
      rw [Keyed.run, acceptedIn_cons, Nat.cast_add]
      rw [hlast] at hrest
      linarith

/-- The requests accepted in a window. -/
theorem acceptedIn_le (hrps : 0 < rps) (hb : Fits rps b) (hfrom : From b.lastUpdate calls)
    (hse : s ≤ e) :
    (acceptedIn s e (Keyed.run (clientStep rps) (some b) calls) : K) ≤
      max 1 rps + rps * (e - s) := by
  have hroom : 0 ≤ max 1 rps + rps * (e - s) :=
    add_nonneg (le_trans zero_le_one (le_max_left _ _))
      (mul_nonneg hrps.le (sub_nonneg.mpr hse))
  induction calls generalizing b with
  | nil => simpa [Keyed.run, acceptedIn] using hroom
  | cons c calls ih =>
    obtain ⟨hfits, hlast, htokens⟩ := clientStep_spec hrps hb (hfrom.since c (.head _))
    rcases lt_or_ge c.now s with hlt | hge
    · -- before the window
      rw [Keyed.run, acceptedIn_cons, clientStep_fst, if_neg]
      · exact ih hfits (hlast ▸ hfrom.tail)
      · rintro ⟨-, hle, -⟩
        exact absurd hle (not_le.mpr hlt)
    · rcases lt_or_ge e c.now with hlt | hle
      · rw [acceptedIn_eq_zero (hfrom.after hlt), Nat.cast_zero]
        exact hroom
      · -- the first call of the window, with at most a full bucket
        have hle' : (clientStep rps (some b) c).2.lastUpdate ≤ e := hlast ▸ hle
        have hrest := acceptedIn_le_tokens (s := s) hrps hfits (hlast ▸ hfrom.tail) hle'
        have hhead := ite_accepted_le s e (clientStep rps (some b) c).1
        have hfilled : filled b c.now ≤ max 1 rps := hb.capacity ▸ min_le_left _ _
        have hspan : rps * (e - c.now) ≤ rps * (e - s) :=
          mul_le_mul_of_nonneg_left (by linarith) hrps.le
        rw [Keyed.run, acceptedIn_cons, Nat.cast_add]
        rw [hlast] at hrest
        linarith

/-! ## Spaced requests -/

/-- Consecutive requests are at least `1 / rps` apart. -/
def Spaced (rps : K) (calls : List (Call K)) : Prop :=
  calls.IsChain fun a b => 1 / rps ≤ b.now - a.now

/-- A full token is there again when the next request comes. -/
theorem accepted_of_spaced (hrps : 0 < rps) (hb : Fits rps b)
    (hfrom : From b.lastUpdate calls) (hspaced : Spaced rps calls)
    (hfirst : ∀ c ∈ calls.head?, 1 ≤ b.tokens + (c.now - b.lastUpdate) * rps) :
    ∀ o ∈ Keyed.run (clientStep rps) (some b) calls, o.2 = .ok () := by
  induction calls generalizing b with
  | nil => exact fun o ho => (List.not_mem_nil ho).elim
  | cons c calls ih =>
    obtain ⟨hfits, hlast, -⟩ := clientStep_spec hrps hb (hfrom.since c (.head _))
    have hfilled : 1 ≤ filled b c.now := by
      refine le_min ?_ ?_
      · rw [hb.capacity]
        exact le_max_left _ _
      · rw [hb.rate]
        exact hfirst c rfl
    refine List.forall_mem_cons.mpr ⟨?_, ih hfits (hlast ▸ hfrom.tail) hspaced.tail ?_⟩
    · rw [clientStep_some, if_pos hfilled]
    · intro c' hc'
      have hgap : 1 / rps ≤ c'.now - c.now := (List.isChain_cons.mp hspaced).1 c' hc'
      have hrefill : 1 ≤ (c'.now - c.now) * rps := (div_le_iff₀ hrps).mp hgap
      rw [hlast]
      exact le_add_of_nonneg_of_le hfits.nonneg hrefill

/-! ## A client from its first request on -/

theorem fits_client (hrps : 0 < rps) (hclock : Clocked calls)
    (h : Keyed.final (clientStep rps) none calls = some b) : Fits rps b := by
  cases calls with
  | nil => cases h
  | cons c calls =>
    obtain ⟨b', hb', hfits⟩ := fits_final hrps (fits_make rps c.created) hclock.from_created
    obtain rfl := Option.some.inj (h.symm.trans hb')
    exact hfits

theorem acceptedIn_client (hrps : 0 < rps) (hclock : Clocked calls) (hse : s ≤ e) :
    (acceptedIn s e (Keyed.run (clientStep rps) none calls) : K) ≤
      max 1 rps + rps * (e - s) := by
  cases calls with
  | nil =>
    have hroom : 0 ≤ max 1 rps + rps * (e - s) :=
      add_nonneg (le_trans zero_le_one (le_max_left _ _))
        (mul_nonneg hrps.le (sub_nonneg.mpr hse))
    simpa [Keyed.run, acceptedIn] using hroom
  | cons c calls =>
    rw [run_none]
    exact acceptedIn_le hrps (fits_make rps c.created) hclock.from_created hse

theorem accepted_client (hrps : 0 < rps) (hclock : Clocked calls) (hspaced : Spaced rps calls) :
    ∀ o ∈ Keyed.run (clientStep rps) none calls, o.2 = .ok () := by
  cases calls with
  | nil => exact fun o ho => (List.not_mem_nil ho).elim
  | cons c calls =>
    rw [run_none]
    refine accepted_of_spaced hrps (fits_make rps c.created) hclock.from_created hspaced ?_
    rintro c' ⟨⟩
    have hrefill : 0 ≤ (c.now - c.created) * rps :=
      mul_nonneg (sub_nonneg.mpr (hclock.call c (.head _))) hrps.le
    exact (le_max_left 1 rps).trans (le_add_of_nonneg_right hrefill)

/-- **The limiter.** A client's tokens stay between 0 and the capacity, the requests accepted in a
window are at most the capacity and what the window refills, requests that are far enough apart
are accepted, and a client is answered as if it were alone. -/
theorem rateLimiter_bounds (hrps : 0 < rps) (hclock : Clocked calls) :
    (∀ id b, (checks (.make (some rps)) calls).2.buckets.lookup id = some b →
      0 ≤ b.tokens ∧ b.tokens ≤ max 1 rps) ∧
    (∀ id, ∀ s e : K, s ≤ e →
      (acceptedIn s e (outcomesOf id (checks (.make (some rps)) calls).1) : K) ≤
        max 1 rps + rps * (e - s)) ∧
    (∀ id, Spaced rps (callsOf id calls) →
      ∀ o ∈ outcomesOf id (checks (.make (some rps)) calls).1, o.2 = .ok ()) ∧
    ∀ id, outcomesOf id (checks (.make (some rps)) calls).1 =
      (checks (.make (some rps)) (callsOf id calls)).1 := by
  refine ⟨fun id b hb => ?_, fun id s e hse => ?_, fun id hspaced => ?_, fun id => ?_⟩
  · rw [lookup_checks hrps] at hb
    have hfits := fits_client hrps (hclock.callsOf id) hb
    exact ⟨hfits.nonneg, hfits.le⟩
  · rw [outcomesOf_checks hrps]
    exact acceptedIn_client hrps (hclock.callsOf id) hse
  · rw [outcomesOf_checks hrps]
    exact accepted_client hrps (hclock.callsOf id) hspaced
  · rw [outcomesOf_checks hrps, checks_callsOf hrps]

/-- Two requests per second, three requests in the first half of a second and one after it. -/
theorem rateLimiter_bounds_two :
    (checks (.make (some (2 : ℚ))) [⟨⟨some "a", none⟩, 0, 0⟩, ⟨⟨some "a", none⟩, 0, 0⟩,
      ⟨⟨none, some "b"⟩, 0, 1 / 4⟩, ⟨⟨some "a", none⟩, 1 / 4, 1 / 4⟩,
      ⟨⟨some "a", none⟩, 1 / 2, 1 / 2⟩]).1.map (fun o => o.2.isOk) =
        [true, true, true, false, true] ∧
    (acceptedIn 0 (1 / 2) (outcomesOf "a" (checks (.make (some (2 : ℚ)))
      [⟨⟨some "a", none⟩, 0, 0⟩, ⟨⟨some "a", none⟩, 0, 0⟩,
      ⟨⟨none, some "b"⟩, 0, 1 / 4⟩, ⟨⟨some "a", none⟩, 1 / 4, 1 / 4⟩,
      ⟨⟨some "a", none⟩, 1 / 2, 1 / 2⟩]).1) : ℚ) ≤ max 1 2 + 2 * (1 / 2 - 0) := by
  have hclock : Clocked ([⟨⟨some "a", none⟩, 0, 0⟩, ⟨⟨some "a", none⟩, 0, 0⟩,
      ⟨⟨none, some "b"⟩, 0, 1 / 4⟩, ⟨⟨some "a", none⟩, 1 / 4, 1 / 4⟩,
      ⟨⟨some "a", none⟩, 1 / 2, 1 / 2⟩] : List (Call ℚ)) := by
    constructor
    · simp only [List.forall_mem_cons]
      norm_num
    · simp only [List.pairwise_cons, List.forall_mem_cons]
      norm_num
  refine ⟨by decide +kernel, ?_⟩
  exact (rateLimiter_bounds (by norm_num) hclock).2.1 "a" 0 (1 / 2) (by norm_num)

end Trainfer.RateLimit
