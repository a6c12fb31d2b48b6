import CallProfiler.Proofs.Saturation
import CallProfiler.Sampling.TokenBucket
import Mathlib.Algebra.Order.Ring.Rat
import Mathlib.Data.List.Basic
import Mathlib.Data.List.Induction
import Mathlib.Tactic.Linarith
import Mathlib.Tactic.NormNum
import Mathlib.Tactic.Ring

/-!
# Proofs.Sampling.Buckets: what a bucket admits when credits are exact

Credits are fractions here, and nothing is rounded. A bucket is filled only when it is asked, so the time
between two readings may be divided among any number of refills, each of them cut at the bound.

What is in a bucket can be said without the bucket: it is the least that any stretch of requests up to
now leaves of the bound and of what has come in since the stretch began (`TokenBucket.covers_iff`). The
bounds on what is admitted follow from that.

* `TokenBucket.Sound.after` — the balance stays between zero and the bound
* `TokenBucket.spent_le` — what is admitted during a stretch of requests
* `TokenBucket.answers_eraseIdx` — a request that is not admitted only makes two refills of one, and
  these come to the same (`TokenBucket.refill_refill`)
* `buckets_admit_what_comes_in` — all this for every run of a bucket that starts full
-/

namespace CallProfiler

/-- Fractions, of which nothing is lost. -/
instance : Credit ℚ where
  ofNanos n := n.toNat
  perSecond := 10 ^ 9
  least := min
  covers a b := decide (b ≤ a)

namespace TokenBucket

/-! ## Runs of requests -/

section Runs

variable {κ : Type} [Credit κ]

/-- The bucket after some requests, each made at a reading for some credits. -/
def after (bucket : TokenBucket κ) (requests : List (Reading × κ)) : TokenBucket κ :=
  requests.foldl (fun bucket request => (bucket.request request.1 request.2).2) bucket

/-- The answers to some requests, one after the other. -/
def answers (bucket : TokenBucket κ) : List (Reading × κ) → List Bool
  | [] => []
  | (now, cost) :: rest =>
    (bucket.request now cost).1 :: (bucket.request now cost).2.answers rest

/-- A run of requests in two parts is the second part after the first. -/
theorem after_append (bucket : TokenBucket κ) (first second : List (Reading × κ)) :
    bucket.after (first ++ second) = (bucket.after first).after second :=
  List.foldl_append

theorem after_concat (bucket : TokenBucket κ) (requests : List (Reading × κ)) (now : Reading)
    (cost : κ) : bucket.after (requests ++ [(now, cost)]) =
      ((bucket.after requests).request now cost).2 :=
  List.foldl_append

/-- What comes of a request depends on the bucket only by its refill. -/
theorem request_congr {bucket other : TokenBucket κ} {now : Reading} {cost : κ}
    (same : bucket.refill now = other.refill now) :
    bucket.request now cost = other.request now cost := by
  unfold request
  rw [same]

end Runs

variable {bucket : TokenBucket ℚ} {now : Reading} {cost : ℚ}

/-- What a request takes out of a bucket. -/
def paid (bucket : TokenBucket ℚ) (now : Reading) (cost : ℚ) : ℚ :=
  if (bucket.request now cost).1 then cost else 0

/-- What the admitted ones of some requests cost together. -/
def spent (bucket : TokenBucket ℚ) : List (Reading × ℚ) → ℚ
  | [] => 0
  | (now, cost) :: rest => bucket.paid now cost + (bucket.request now cost).2.spent rest

/-- The nanoseconds from the first of some requests to a reading. -/
def waited (requests : List (Reading × ℚ)) (now : Reading) : ℚ :=
  match requests with
  | [] => 0
  | (first, _) :: _ => now.toNat - first.toNat

/-! ## One request -/

/-- What the balance covers is admitted and paid. -/
theorem request_admitted (there : cost ≤ (bucket.refill now).balance) : bucket.request now cost =
    (true, { bucket.refill now with balance := (bucket.refill now).balance - cost }) := by
  unfold request
  exact if_pos (decide_eq_true there)

/-- What the balance does not cover is refused, and nothing is paid. -/
theorem request_refused (short : ¬ cost ≤ (bucket.refill now).balance) :
    bucket.request now cost = (false, bucket.refill now) := by
  unfold request
  exact if_neg fun there => short (of_decide_eq_true there)

/-- A request is admitted just if its cost is there once the bucket is filled. -/
theorem admitted_iff : (bucket.request now cost).1 = true ↔ cost ≤ (bucket.refill now).balance := by
  by_cases there : cost ≤ (bucket.refill now).balance
  · rw [request_admitted there]
    exact iff_of_true rfl there
  · rw [request_refused there]
    exact iff_of_false Bool.false_ne_true there

/-- A request fills the bucket and takes out what it pays. -/
theorem request_snd : (bucket.request now cost).2 =
    { bucket.refill now with balance := (bucket.refill now).balance - bucket.paid now cost } := by
  unfold paid
  by_cases there : cost ≤ (bucket.refill now).balance
  · rw [request_admitted there, if_pos rfl]
  · rw [request_refused there, if_neg Bool.false_ne_true, sub_zero]

/-- A request pays from the refilled balance what it costs, if it is admitted. -/
theorem balance_request : (bucket.request now cost).2.balance =
    (bucket.refill now).balance - bucket.paid now cost :=
  congrArg balance request_snd

@[simp] theorem rate_request : (bucket.request now cost).2.rate = bucket.rate := by
  rw [request_snd]
  rfl

@[simp] theorem bound_request : (bucket.request now cost).2.bound = bucket.bound := by
  rw [request_snd]
  rfl

@[simp] theorem refilledAt_request : (bucket.request now cost).2.refilledAt = now :=
  congrArg refilledAt request_snd

@[simp] theorem rate_after (bucket : TokenBucket ℚ) (requests : List (Reading × ℚ)) :
    (bucket.after requests).rate = bucket.rate := by
  induction requests generalizing bucket with
  | nil => rfl
  | cons request rest ih => exact (ih _).trans rate_request

@[simp] theorem bound_after (bucket : TokenBucket ℚ) (requests : List (Reading × ℚ)) :
    (bucket.after requests).bound = bucket.bound := by
  induction requests generalizing bucket with
  | nil => rfl
  | cons request rest ih => exact (ih _).trans bound_request

/-! ## Refills -/

/-- The time between two readings in order is not negative. -/
theorem elapsed_nonneg {first : Reading} (order : first ≤ now) : (0 : ℚ) ≤ now.toNat - first.toNat :=
  sub_nonneg.mpr (Nat.cast_le.mpr (UInt64.le_iff_toNat_le.mp order))

/-- Nothing is lost by a refill, wherever the clock has gone. -/
theorem gained_nonneg (rate : 0 ≤ bucket.rate) (now : Reading) :
    0 ≤ ((saturatingSub now bucket.refilledAt).toNat : ℚ) * bucket.rate :=
  mul_nonneg (Nat.cast_nonneg _) rate

/-- A refill that is not made before the last one adds what has come in since. -/
theorem balance_refill (later : bucket.refilledAt ≤ now) : (bucket.refill now).balance =
    min (bucket.balance + (now.toNat - bucket.refilledAt.toNat) * bucket.rate) bucket.bound := by
  have elapsed : ((saturatingSub now bucket.refilledAt).toNat : ℚ) =
      now.toNat - bucket.refilledAt.toNat := by
    rw [toNat_saturatingSub]
    exact Nat.cast_sub (UInt64.le_iff_toNat_le.mp later)
  rw [← elapsed]
  rfl

/-- A full bucket is full after any refill. -/
theorem balance_refill_full (rate : 0 ≤ bucket.rate) (full : bucket.bound ≤ bucket.balance) :
    (bucket.refill now).balance = bucket.bound := by
  have gained := gained_nonneg rate now
  exact min_eq_right (full.trans (le_add_of_nonneg_right gained))

/-- What is cut off before something is added would be cut off after it as well. -/
theorem min_add_min {balance gained bound : ℚ} (gain : 0 ≤ gained) :
    min (min balance bound + gained) bound = min (balance + gained) bound := by
  have above : min (bound + gained) bound = bound := min_eq_right (le_add_of_nonneg_right gain)
  rw [min_add, min_assoc, above]

/-- What comes in from a reading on is the same whether the bucket is filled then or not: the last refill
was not later, or the bucket is full anyway. -/
def Ready (bucket : TokenBucket ℚ) (next : Reading) : Prop :=
  bucket.refilledAt ≤ next ∨ bucket.bound ≤ bucket.balance

/-- Two refills one after the other come to the second of them. -/
theorem refill_refill (rate : 0 ≤ bucket.rate) {first : Reading} (ready : bucket.Ready first)
    (order : first ≤ now) : (bucket.refill first).refill now = bucket.refill now := by
  suffices same : ((bucket.refill first).refill now).balance = (bucket.refill now).balance from
    congrArg (fun balance => { bucket with balance := balance, refilledAt := now }) same
  rcases ready with later | full
  · have gained := mul_nonneg (elapsed_nonneg order) rate
    calc ((bucket.refill first).refill now).balance
        = min ((bucket.refill first).balance + (now.toNat - first.toNat) * bucket.rate)
            bucket.bound := balance_refill order
      _ = min (bucket.balance + (first.toNat - bucket.refilledAt.toNat) * bucket.rate +
            (now.toNat - first.toNat) * bucket.rate) bucket.bound := by
          rw [balance_refill later, min_add_min gained]
      _ = min (bucket.balance + (now.toNat - bucket.refilledAt.toNat) * bucket.rate)
            bucket.bound := by ring_nf
      _ = (bucket.refill now).balance := (balance_refill (UInt64.le_trans later order)).symm
  · calc ((bucket.refill first).refill now).balance
        = bucket.bound := balance_refill_full rate (balance_refill_full rate full).ge
      _ = (bucket.refill now).balance := (balance_refill_full rate full).symm

/-! ## The balance -/

/-- A bucket that loses nothing over time and holds between nothing and its bound. -/
structure Sound (bucket : TokenBucket ℚ) : Prop where
  rate : 0 ≤ bucket.rate
  low : 0 ≤ bucket.balance
  high : bucket.balance ≤ bucket.bound

/-- A request keeps the balance between nothing and the bound. -/
theorem Sound.request (sound : bucket.Sound) (now : Reading) (price : 0 ≤ cost) :
    (bucket.request now cost).2.Sound := by
  have gained := gained_nonneg sound.rate now
  have filled : 0 ≤ (bucket.refill now).balance :=
    le_min (add_nonneg sound.low gained) (sound.low.trans sound.high)
  have capped : (bucket.refill now).balance ≤ bucket.bound := min_le_right _ _
  by_cases there : cost ≤ (bucket.refill now).balance
  · rw [request_admitted there]
    constructor
    · exact sound.rate
    · exact sub_nonneg.mpr there
    · exact (sub_le_self _ price).trans capped
  · rw [request_refused there]
    exact ⟨sound.rate, filled, capped⟩

/-- All along a run of requests the balance is between nothing and the bound. -/
theorem Sound.after (sound : bucket.Sound) (requests : List (Reading × ℚ))
    (prices : ∀ request ∈ requests, 0 ≤ request.2) : (bucket.after requests).Sound := by
  induction requests generalizing bucket with
  | nil => exact sound
  | cons request rest ih =>
    obtain ⟨price, prices⟩ := List.forall_mem_cons.mp prices
    exact ih (sound.request request.1 price) prices

/-! ## What is admitted -/

/-- What comes before a request was not asked later. -/
theorem before_of_sorted {before later : List (Reading × ℚ)}
    (sorted : ((before ++ (now, cost) :: later).map (·.1)).Pairwise (· ≤ ·)) :
    (before.map (·.1)).Pairwise (· ≤ ·) ∧ ∀ request ∈ before, request.1 ≤ now := by
  rw [List.map_append, List.pairwise_append] at sorted
  obtain ⟨order, _, between⟩ := sorted
  refine ⟨order, fun request mem => ?_⟩
  exact between _ (List.mem_map_of_mem mem) _ List.mem_cons_self

/-- What a run has spent, the last request aside, and what the last one paid. -/
theorem spent_concat (bucket : TokenBucket ℚ) (requests : List (Reading × ℚ)) (now : Reading)
    (cost : ℚ) : bucket.spent (requests ++ [(now, cost)]) =
      bucket.spent requests + (bucket.after requests).paid now cost := by
  induction requests generalizing bucket with
  | nil => exact add_comm _ _
  | cons request rest ih =>
    show bucket.paid request.1 request.2 + spent _ (rest ++ [(now, cost)]) = _
    rw [ih, ← add_assoc]
    rfl

/-- The time since the first of some requests goes on after the last of them. -/
theorem waited_concat (requests : List (Reading × ℚ)) (last now : Reading) (cost : ℚ) :
    waited (requests ++ [(last, cost)]) now = waited requests last + (now.toNat - last.toNat) := by
  cases requests with
  | nil => exact (zero_add _).symm
  | cons first rest =>
    show (now.toNat - first.1.toNat : ℚ) = last.toNat - first.1.toNat + (now.toNat - last.toNat)
    ring

/-- A request after others stays within the bound and what comes in, in every stretch that it ends. -/
def Allows (bucket : TokenBucket ℚ) (before : List (Reading × ℚ)) (now : Reading) (cost : ℚ) : Prop :=
  ∀ earlier stretch, before = earlier ++ stretch →
    (bucket.after earlier).spent stretch + cost ≤ bucket.bound + bucket.rate * waited stretch now

/-- Without requests before it, a request is allowed if the bound covers it. -/
theorem allows_nil : bucket.Allows [] now cost ↔ cost ≤ bucket.bound := by
  constructor
  · intro allows
    simpa [spent, waited] using allows [] [] rfl
  · intro small earlier stretch split
    obtain ⟨rfl, rfl⟩ := List.nil_eq_append_iff.mp split
    simpa [spent, waited] using small

/-- The stretches that end with a last request and one more are those that end with the last one, and
the one that begins after it. -/
theorem allows_concat {before : List (Reading × ℚ)} {last : Reading} {price : ℚ} :
    bucket.Allows (before ++ [(last, price)]) now cost ↔
      bucket.Allows before last (cost + (bucket.after before).paid last price -
        bucket.rate * (now.toNat - last.toNat)) ∧ cost ≤ bucket.bound := by
  constructor
  · intro allows
    constructor
    · rintro earlier stretch rfl
      have long := allows earlier (stretch ++ [(last, price)]) (List.append_assoc ..)
      rw [spent_concat, waited_concat, ← after_append] at long
      linarith
    · have none := allows (before ++ [(last, price)]) [] (List.append_nil _).symm
      simpa [spent, waited] using none
  · rintro ⟨allows, small⟩ earlier stretch split
    rcases List.eq_nil_or_concat' stretch with rfl | ⟨stretch, request, rfl⟩
    · simpa [spent, waited] using small
    · rw [← List.append_assoc] at split
      obtain ⟨rfl, same⟩ := List.append_inj' split rfl
      obtain rfl := List.singleton_inj.mp same
      have short := allows earlier stretch rfl
      rw [spent_concat, waited_concat, ← after_append]
      linarith

/-- What is in a bucket that started full is the least that any stretch of requests up to now leaves of
the bound and of what has come in since the stretch began. -/
theorem covers_iff (rate : 0 ≤ bucket.rate) (full : bucket.bound ≤ bucket.balance)
    {before : List (Reading × ℚ)} (sorted : (before.map (·.1)).Pairwise (· ≤ ·))
    (latest : ∀ request ∈ before, request.1 ≤ now) :
    cost ≤ ((bucket.after before).refill now).balance ↔ bucket.Allows before now cost := by
  -- the last request is taken off, and what it took and what came in after it are put into the cost
  induction before using List.reverseRecOn generalizing now cost with
  | nil =>
    show cost ≤ (bucket.refill now).balance ↔ _
    rw [balance_refill_full rate full, allows_nil]
  | append_singleton before request ih =>
    rcases request with ⟨last, price⟩
    obtain ⟨sorted, before_last⟩ := before_of_sorted sorted
    have order : last ≤ now := latest _ List.mem_concat_self
    rw [allows_concat, ← ih sorted before_last, after_concat,
      balance_refill (by rwa [refilledAt_request]), balance_request, rate_request, bound_request,
      refilledAt_request, rate_after, bound_after, le_min_iff]
    refine and_congr_left fun _ => ?_
    constructor
    · intro enough
      linarith
    · intro enough
      linarith

/-- The admitted ones of a stretch of requests cost no more than the bound and what comes in during the
stretch. -/
theorem spent_le (rate : 0 ≤ bucket.rate) (size : 0 ≤ bucket.bound)
    (full : bucket.bound ≤ bucket.balance) {earlier stretch : List (Reading × ℚ)}
    (sorted : ((earlier ++ stretch).map (·.1)).Pairwise (· ≤ ·))
    (latest : ∀ request ∈ stretch, request.1 ≤ now) :
    (bucket.after earlier).spent stretch ≤ bucket.bound + bucket.rate * waited stretch now := by
  induction stretch using List.reverseRecOn generalizing now with
  | nil =>
    show 0 ≤ bucket.bound + bucket.rate * 0
    linarith
  | append_singleton stretch request ih =>
    rcases request with ⟨last, cost⟩
    rw [← List.append_assoc] at sorted
    obtain ⟨sorted, before_last⟩ := before_of_sorted sorted
    have order : last ≤ now := latest _ List.mem_concat_self
    have gained := mul_nonneg rate (elapsed_nonneg order)
    rw [spent_concat, waited_concat, mul_add, ← after_append]
    by_cases admitted : ((bucket.after (earlier ++ stretch)).request last cost).1 = true
    · have allowed := (covers_iff rate full sorted before_last).mp (admitted_iff.mp admitted)
      have fits := allowed earlier stretch rfl
      rw [paid, if_pos admitted]
      linarith
    · -- the bound is that of the requests before this one
      have fits := ih sorted fun request mem => before_last request (List.mem_append_right _ mem)
      rw [paid, if_neg admitted]
      linarith

/-! ## Requests that are not admitted -/

/-- Leaving out a request that is not admitted changes no other answer. -/
theorem answers_eraseIdx (rate : 0 ≤ bucket.rate) {requests : List (Reading × ℚ)}
    (sorted : (requests.map (·.1)).Pairwise (· ≤ ·))
    (ready : ∀ request ∈ requests, bucket.Ready request.1) {i : Nat}
    (refused : (bucket.answers requests)[i]? = some false) :
    bucket.answers (requests.eraseIdx i) = (bucket.answers requests).eraseIdx i := by
  induction requests generalizing bucket i with
  | nil => exact nomatch refused
  | cons request rest ih =>
    rcases request with ⟨first, cost⟩
    rw [List.map_cons, List.pairwise_cons] at sorted
    have later : ∀ request ∈ rest, first ≤ request.1 := by
      intro request mem
      exact sorted.1 _ (List.mem_map_of_mem mem)
    cases i with
    | zero =>
      have short : ¬ cost ≤ (bucket.refill first).balance := by
        intro there
        have admitted := admitted_iff.mpr there
        exact Bool.false_ne_true ((Option.some.inj refused).symm.trans admitted)
      show bucket.answers rest = (bucket.request first cost).2.answers rest
      rw [request_refused short]
      -- all that is left of the request is its refill, and the next request makes up for it
      cases rest with
      | nil => rfl
      | cons next rest =>
        have ready := ready _ List.mem_cons_self
        have same := refill_refill rate ready (later next List.mem_cons_self)
        unfold answers
        rw [request_congr same]
    | succ i =>
      show _ :: answers _ (rest.eraseIdx i) = _ :: (answers _ rest).eraseIdx i
      rw [ih (by rwa [rate_request]) sorted.2 _ refused]
      intro request mem
      exact Or.inl (by rw [refilledAt_request]; exact later request mem)

end TokenBucket

/-- What a bucket of exact credits does in any run of requests at readings that do not go back. The
balance stays between zero and the bound. A request is admitted just if, in every stretch of requests
that it ends, its cost and those admitted before it stay within the bound and what comes in from the
first request of the stretch to the last; so the admitted costs of any stretch stay within that. And
leaving out a request that is not admitted changes no other answer. -/
theorem buckets_admit_what_comes_in (perSecond bound : ℚ) (rate : 0 ≤ perSecond) (size : 0 ≤ bound)
    (started : Reading) (requests : List (Reading × ℚ))
    (sorted : (requests.map (·.1)).Pairwise (· ≤ ·)) (prices : ∀ request ∈ requests, 0 ≤ request.2) :
    let bucket := TokenBucket.full perSecond bound started
    (∀ before later, requests = before ++ later →
      0 ≤ (bucket.after before).balance ∧ (bucket.after before).balance ≤ bound) ∧
    (∀ before now cost later, requests = before ++ (now, cost) :: later →
      (((bucket.after before).request now cost).1 = true ↔
        ∀ earlier stretch, before = earlier ++ stretch →
          (bucket.after earlier).spent stretch + cost ≤
            bound + perSecond * (TokenBucket.waited stretch now / 10 ^ 9))) ∧
    (∀ earlier stretch last cost later, requests = earlier ++ stretch ++ (last, cost) :: later →
      (bucket.after earlier).spent (stretch ++ [(last, cost)]) ≤
        bound + perSecond * (TokenBucket.waited (stretch ++ [(last, cost)]) last / 10 ^ 9)) ∧
    ∀ i, (bucket.answers requests)[i]? = some false →
      bucket.answers (requests.eraseIdx i) = (bucket.answers requests).eraseIdx i := by
  intro bucket
  have perNano : 0 ≤ bucket.rate := div_nonneg rate (by norm_num : (0 : ℚ) ≤ 10 ^ 9)
  have full : bucket.bound ≤ bucket.balance := le_refl bound
  have inSeconds : ∀ time : ℚ,
      bound + perSecond * (time / 10 ^ 9) = bucket.bound + bucket.rate * time := by
    intro time
    show _ = bound + perSecond / 10 ^ 9 * time
    ring
  simp only [inSeconds]
  refine ⟨?_, ?_, ?_, ?_⟩
  · rintro before later rfl
    have sound : bucket.Sound := ⟨perNano, size, le_refl bound⟩
    have after := sound.after before fun request mem => prices request (List.mem_append_left _ mem)
    exact ⟨after.low, after.high.trans_eq (TokenBucket.bound_after bucket before)⟩
  · rintro before now cost later rfl
    obtain ⟨sorted, latest⟩ := TokenBucket.before_of_sorted sorted
    exact TokenBucket.admitted_iff.trans (TokenBucket.covers_iff perNano full sorted latest)
  · rintro earlier stretch last cost later rfl
    obtain ⟨_, before_last⟩ := TokenBucket.before_of_sorted sorted
    rw [List.append_cons, List.append_assoc earlier, List.map_append, List.pairwise_append] at sorted
    refine TokenBucket.spent_le perNano size full sorted.1 fun request mem => ?_
    rcases List.mem_append.mp mem with before | same
    · exact before_last request (List.mem_append_right _ before)
    · rw [List.mem_singleton.mp same]
      exact UInt64.le_refl last
  · intro i refused
    exact TokenBucket.answers_eraseIdx perNano sorted (fun request _ => Or.inr full) refused

/-- Requests to a bucket of three credits that gains two a second. The second one is not admitted. -/
def briskRequests : List (Reading × ℚ) := [(5, 2), (5, 2), (500000005, 2), (2000000005, 5 / 2)]

theorem brisk_requests_stay_within :
    let bucket : TokenBucket ℚ := .full 2 3 7
    (briskRequests.map (·.1)).Pairwise (· ≤ ·) ∧ (∀ request ∈ briskRequests, 0 ≤ request.2) ∧
    bucket.answers briskRequests = [true, false, true, true] ∧
    bucket.answers (briskRequests.eraseIdx 1) = [true, true, true] ∧
    bucket.spent briskRequests ≤ 3 + 2 * 2 ∧
    0 ≤ (bucket.after briskRequests).balance ∧ (bucket.after briskRequests).balance ≤ 3 := by
  intro bucket
  have sorted : (briskRequests.map (·.1)).Pairwise (· ≤ ·) := by decide
  have prices : ∀ request ∈ briskRequests, 0 ≤ request.2 := by decide +kernel
  have answers : bucket.answers briskRequests = [true, false, true, true] := by decide +kernel
  have time : TokenBucket.waited briskRequests 2000000005 / 10 ^ 9 = 2 := by decide +kernel
  obtain ⟨balance, admitted, within, free⟩ :=
    buckets_admit_what_comes_in 2 3 (by norm_num) (by norm_num) 7 briskRequests sorted prices
  have without := free 1 (by rw [answers]; rfl)
  rw [answers] at without
  have all : bucket.spent briskRequests ≤
      3 + 2 * (TokenBucket.waited briskRequests 2000000005 / 10 ^ 9) :=
    within [] [(5, 2), (5, 2), (500000005, 2)] 2000000005 (5 / 2) [] rfl
  rw [time] at all
  exact ⟨sorted, prices, answers, without, all, balance briskRequests [] rfl⟩

end CallProfiler
