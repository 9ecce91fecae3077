/-
# Whether a direct response reverts, and how it is rated

A response with the right key should be rated by the time it took, and the ratings
of earlier requests should not stand in the way of later ones.  The arithmetic has 16
bits: the elapsed time is cut to them, the slope of the rating is a negative number,
and so neither the rating nor the scores and averages of an evaluation need exist.

`addDirectResponse_rates_iff` says for which responses all is well, in terms of the
state before: `Answerable`.  The three ways to fail are in `direct_response_fails`.
-/
import ThresholdDsa.Hospital.Requests

namespace ThresholdDsa.Hospital

open Outcome Checked Function List

/-! ## The number of responses -/

variable {keccak256 : List ℕ → Bytes32} {msg : Msg} {st : State} {request : Request}

section

variable {w : World} {call : Call}

/-- A direct request that is not evaluated has at most 20 responses. -/
structure Short (request : Request) : Prop where
  most : request.maxVerifierCount ≤ MAX_Verifier_COUNT
  least : request.maxVerifierCount = 0 → request.minVerifierCount ≤ MIN_Verifier_COUNT
  pending : request.direct = true → request.verifiersEvaluated = false →
    request.verifierAddresses.length < request.maxVerifierCount ∨
      (request.maxVerifierCount = 0 ∧ request.verifierAddresses.length ≤ MIN_Verifier_COUNT)

theorem short_newRequest {bundleHash : Bytes32} {direct : Bool} {keyHash : Bytes32} {least most : ℕ}
    {granted : Bool} (ordered : least ≤ most)
    (empty : (w.st.requests w.st.requestsCount).verifierAddresses = []) :
    Short (newRequest msg w.st bundleHash direct keyHash least most granted) where
  most := min_le_right _ _
  least none := by
    have : min most MAX_Verifier_COUNT = 0 := none
    simp only [newRequest, MAX_Verifier_COUNT, MIN_Verifier_COUNT] at this ⊢
    omega
  pending _ _ := by
    simp only [newRequest, empty, length_nil, MAX_Verifier_COUNT, MIN_Verifier_COUNT]
    omega

theorem Short.step {r : ℕ} {answers : List Answer}
    {decision : Option (Address × Bool)} (tracked : Tracked w) (short : Short (w.st.requests r))
    (step : RequestStep keccak256 w msg r call request answers decision) :
    Short request := by
  have empty : (w.st.requests w.st.requestsCount).verifierAddresses = [] :=
    (tracked.unused _ le_rfl).addresses
  cases step with
  | same => exact short
  | decided => exact { short with }
  | onBehalf bundleHash least most new owned ordered => exact short_newRequest ordered empty
  | made bundleHash direct keyHash least most new ordered => exact short_newRequest ordered empty
  | answered key opened accepted rating rates evaluated counts =>
    refine { short with pending := fun _ early => ?_ }
    have unfilled := (evaluates_cases counts).2 early
    have room := short.pending opened.kind opened.pending
    have least := short.least
    simp only [acceptsNow, accepts, Bool.or_eq_true, decide_eq_true_eq, Bool.and_eq_true] at accepted
    simp only [length_append, length_singleton]
    omega
  | participated opened =>
    exact { short with pending := fun direct => absurd (opened.kind.symm.trans direct) (by decide) }
  | closed _ =>
    exact { short with pending := fun _ early => by cases early }

theorem short_of_run {Good : World → Transaction → Prop} (run : Run keccak256 Good w) (r : ℕ) :
    Short (w.st.requests r) := by
  refine run.invariant (P := fun w => ∀ r, Short (w.st.requests r)) (fun _ _ r => ?_)
    (fun w time short => short) (fun w tx done run short _ _ effect r => ?_) r
  · exact ⟨Nat.zero_le _, fun _ => Nat.zero_le _, nofun⟩
  · exact (short r).step (tracked run) (requestStep_of_effect effect r)

end

/-! ## When the arithmetic succeeds -/

section

/-- The rating of a response that is not reverted. -/
def ratingAt (right : Bool) (latency : ℕ) : ℕ := if right ∧ latency = 0 then 2 ^ 16 - 1 else 0

variable {rating : ℕ}

theorem verifierRating_eq_ok {right : Bool} {latency : ℕ} :
    verifierRating (if right then 1 else 0) latency = .ok rating ↔
      (latency = 0 ∨ 3600 < latency) ∧ ratingAt right latency = rating := by
  unfold verifierRating ratingAt
  split
  · rename_i at_once
    have zero : latency = 0 := by omega
    cases right <;> simp [zero]
  rename_i later
  have positive : latency ≠ 0 := by omega
  split
  · rename_i late
    simp [positive, late]
  rename_i soon
  -- the slope is a difference below zero
  have falls : sub MAP_OUT_E MAP_OUT_S = .error .panic := rfl
  rw [falls]
  constructor
  · exact nofun
  · rintro ⟨zero | late, -⟩
    · exact absurd zero positive
    · exact absurd late soon

def Scoreable (rating reputation : ℕ) : Prop :=
  (reputation + 1) ^ 2 < 2 ^ 16 ∧ rating * (reputation + 1) ^ 2 < 2 ^ 16

theorem verifierScore_eq_ok {reputation score : ℕ} :
    verifierScore rating reputation = .ok score ↔
      Scoreable rating reputation ∧ rating * (reputation + 1) ^ 2 = score := by
  simp only [verifierScore, bind_eq_ok, checked_eq_ok, Scoreable]
  constructor
  · rintro ⟨_, ⟨-, rfl⟩, _, ⟨square, rfl⟩, product, rfl⟩
    exact ⟨⟨square, product⟩, rfl⟩
  · rintro ⟨⟨square, product⟩, rfl⟩
    have base : reputation + 1 < 2 ^ 16 := lt_of_le_of_lt (Nat.le_self_pow two_ne_zero _) square
    exact ⟨_, ⟨base, rfl⟩, _, ⟨square, rfl⟩, product, rfl⟩

/-- The average of a verifier after one more rating. -/
def rated (rating : ℕ) (verifier : Verifier) : Verifier :=
  { verifier with
    averageContractRating :=
      (verifier.contractRatingCount * verifier.averageContractRating + rating) /
        (verifier.contractRatingCount + 1)
    contractRatingCount := verifier.contractRatingCount + 1 }

def Rateable (rating : ℕ) (verifier : Verifier) : Prop :=
  verifier.contractRatingCount * verifier.averageContractRating + rating < 2 ^ 16 ∧
    verifier.contractRatingCount + 1 < 2 ^ 16

theorem rateVerifier_eq_ok {verifier after : Verifier} :
    rateVerifier verifier rating = .ok after ↔
      Rateable rating verifier ∧ rated rating verifier = after := by
  simp only [rateVerifier, eq_ok, checked_eq_ok, div_eq_ok, Rateable]
  constructor
  · rintro ⟨_, ⟨-, rfl⟩, _, ⟨total, rfl⟩, _, ⟨count, rfl⟩, _, ⟨-, rfl⟩, rfl⟩
    exact ⟨⟨total, count⟩, rfl⟩
  · rintro ⟨⟨total, count⟩, rfl⟩
    have product := lt_of_le_of_lt (Nat.le_add_right _ rating) total
    exact ⟨_, ⟨product, rfl⟩, _, ⟨total, rfl⟩, _, ⟨count, rfl⟩, _, ⟨Nat.succ_ne_zero _, rfl⟩, rfl⟩

variable {addresses : List Address}

theorem bestVerifier_returns {best : Address × ℕ} :
    (∃ chosen, bestVerifier st request addresses best = .ok chosen) ↔
      ∀ a ∈ addresses, Scoreable (request.verifierRatings a) (st.verifiers a).averageContractRating := by
  induction addresses generalizing best with
  | nil => simp [bestVerifier, pure_eq_ok]
  | cons a rest ih =>
    simp only [bestVerifier, bind_eq_ok, verifierScore_eq_ok, forall_mem_cons]
    constructor
    · rintro ⟨chosen, score, ⟨scoreable, -⟩, goes_on⟩
      exact ⟨scoreable, ih.mp ⟨chosen, goes_on⟩⟩
    · rintro ⟨scoreable, others⟩
      obtain ⟨chosen, goes_on⟩ := ih.mpr others
      exact ⟨chosen, _, ⟨scoreable, rfl⟩, goes_on⟩

/-- Each verifier can be rated as often as it has responded. -/
def AllRateable (ratings : Address → ℕ) (verifiers : Address → Verifier) (addresses : List Address) :
    Prop :=
  ∀ a ∈ addresses, ∀ j < addresses.count a, Rateable (ratings a) ((rated (ratings a))^[j] (verifiers a))

variable {verifiers : Address → Verifier}

theorem allRateable_cons {ratings : Address → ℕ} {a : Address} {rest : List Address} :
    AllRateable ratings verifiers (a :: rest) ↔ Rateable (ratings a) (verifiers a) ∧
      AllRateable ratings (update verifiers a (rated (ratings a) (verifiers a))) rest := by
  have again : ∀ j, (rated (ratings a))^[j + 1] (verifiers a) =
      (rated (ratings a))^[j] (update verifiers a (rated (ratings a) (verifiers a)) a) := by
    intro j
    rw [iterate_succ_apply, update_self]
  constructor
  · intro all
    refine ⟨all a mem_cons_self 0 (by simp), fun b mem j bound => ?_⟩
    by_cases same : b = a
    · subst same
      rw [← again]
      exact all b mem_cons_self (j + 1) (by rw [count_cons_self]; omega)
    · rw [update_of_ne same]
      exact all b (mem_cons_of_mem a mem) j (by rwa [count_cons_of_ne (Ne.symm same)])
  · rintro ⟨first, others⟩ b mem j bound
    by_cases same : b = a
    · subst same
      rw [count_cons_self] at bound
      cases j with
      | zero => exact first
      | succ j =>
        rw [again]
        have below : j < rest.count b := by omega
        exact others b (count_pos_iff.mp (by omega)) j below
    · rw [count_cons_of_ne (Ne.symm same)] at bound
      have later := others b ((mem_cons.mp mem).resolve_left same) j bound
      rwa [update_of_ne same] at later

theorem rateVerifiers_returns {i : ℕ} (fits : i + addresses.length < 2 ^ 16) :
    (∃ after, rateVerifiers request addresses i verifiers = .ok after) ↔
      AllRateable request.verifierRatings verifiers addresses := by
  induction addresses generalizing i verifiers with
  | nil => simp [rateVerifiers, pure_eq_ok, AllRateable]
  | cons a rest ih =>
    simp only [length_cons] at fits
    have next : i + 1 + rest.length < 2 ^ 16 := by omega
    simp only [rateVerifiers, bind_eq_ok, rateVerifier_eq_ok, checked_eq_ok, allRateable_cons]
    constructor
    · rintro ⟨after, _, ⟨rateable, rfl⟩, _, ⟨-, rfl⟩, goes_on⟩
      exact ⟨rateable, (ih next).mp ⟨after, goes_on⟩⟩
    · rintro ⟨rateable, others⟩
      obtain ⟨after, goes_on⟩ := (ih next).mpr others
      exact ⟨after, _, ⟨rateable, rfl⟩, _, ⟨by omega, rfl⟩, goes_on⟩

end

/-! ## The condition -/

section

variable (keccak256 : List ℕ → Bytes32) (msg : Msg) (st : State) (request : Request) (key : Bytes32)

/-- The verifiers that have responded, with the sender if the response is accepted. -/
def respondersAfter : List Address :=
  if acceptsNow msg request request.verifierAddresses.length then
    request.verifierAddresses ++ [msg.sender]
  else request.verifierAddresses

def ratingsAfter : Address → ℕ :=
  if acceptsNow msg request request.verifierAddresses.length then
    update request.verifierRatings msg.sender
      (ratingAt (rightKey keccak256 st request key) (elapsedOf msg request % 2 ^ 16))
  else request.verifierRatings

/-- The response leads to an evaluation. -/
def Reached : Prop :=
  (request.minVerifierCount ≤ (respondersAfter msg request).length ∧
      request.requestTime + MAX_LATENCY ≤ msg.timestamp) ∨
    (respondersAfter msg request).length = request.maxVerifierCount

/-- A response that is accepted comes at once, or more than an hour after a whole number of periods
of the 16 bits; the end of the hour is a number of 256 bits; and if the request is evaluated, the
scores and the new averages of the responders fit into 16 bits. -/
structure Answerable : Prop where
  timely : acceptsNow msg request request.verifierAddresses.length = true →
    (elapsedOf msg request % 2 ^ 16 = 0 ∧
      (elapsedOf msg request = 0 ∨ rightKey keccak256 st request key = false)) ∨
    3600 < elapsedOf msg request % 2 ^ 16
  deadline : request.minVerifierCount ≤ (respondersAfter msg request).length →
    request.requestTime + MAX_LATENCY < 2 ^ 256
  scores : Reached msg request → ∀ a ∈ respondersAfter msg request,
    Scoreable (ratingsAfter keccak256 msg st request key a) (st.verifiers a).averageContractRating
  averages : Reached msg request →
    AllRateable (ratingsAfter keccak256 msg st request key) st.verifiers (respondersAfter msg request)

/-- What a rating by the elapsed time is: not increasing, positive within the hour, and zero after. -/
structure FallsToZero (f : ℕ → ℕ) : Prop where
  antitone : Antitone f
  positive : ∀ t ≤ 3600, 0 < f t
  zero : ∀ t, 3600 < t → f t = 0

/-- The call returns, and a right key that is accepted is rated by `f`. -/
def Rates (requestId : ℕ) (f : ℕ → ℕ) : Prop :=
  ∃ done, addDirectResponse keccak256 msg st requestId key = .ok done ∧
    (acceptsNow msg (st.requests requestId) (st.requests requestId).verifierAddresses.length = true →
      rightKey keccak256 st (st.requests requestId) key = true →
      (done.1.requests requestId).verifierRatings msg.sender =
        f (elapsedOf msg (st.requests requestId)))

end

/-! ## When a direct response returns -/

section

variable {key : Bytes32} {requestId : ℕ}

theorem evaluates_eq_ok {count : ℕ} {enough : Bool} :
    evaluates msg request count = .ok enough ↔
      (request.minVerifierCount ≤ count → request.requestTime + MAX_LATENCY < 2 ^ 256) ∧
      (enough = true ↔ (request.minVerifierCount ≤ count ∧
        request.requestTime + MAX_LATENCY ≤ msg.timestamp) ∨ count = request.maxVerifierCount) := by
  unfold evaluates
  by_cases reached : request.minVerifierCount ≤ count
  · rw [if_pos reached]
    simp only [eq_ok, checked_eq_ok]
    constructor
    · rintro ⟨_, ⟨fits, rfl⟩, rfl⟩
      refine ⟨fun _ => fits, ?_⟩
      simp only [Bool.or_eq_true, decide_eq_true_eq]
      exact or_congr_left (and_iff_right reached).symm
    · rintro ⟨fits, meaning⟩
      refine ⟨_, ⟨fits reached, rfl⟩, ?_⟩
      rw [Bool.eq_iff_iff, meaning, and_iff_right reached]
      simp
  · rw [if_neg reached, pure_eq_ok, Bool.eq_iff_iff, decide_eq_true_eq]
    constructor
    · intro meaning
      exact ⟨fun least => absurd least reached, by rw [← meaning]; simp [reached]⟩
    · rintro ⟨-, meaning⟩
      rw [meaning]
      simp [reached]

/-- The request after a response that is not reverted. -/
def requestAfter (keccak256 : List ℕ → Bytes32) (msg : Msg) (st : State) (request : Request)
    (key : Bytes32) : Request :=
  { request with
    verifierAddresses := respondersAfter msg request
    verifierRatings := ratingsAfter keccak256 msg st request key }

theorem directAnswer_iff {after : Request} :
    DirectAnswer keccak256 msg st request key after ↔
      (acceptsNow msg request request.verifierAddresses.length = true →
        elapsedOf msg request % 2 ^ 16 = 0 ∨ 3600 < elapsedOf msg request % 2 ^ 16) ∧
      after = requestAfter keccak256 msg st request key := by
  unfold requestAfter respondersAfter ratingsAfter
  constructor
  · intro answer
    cases answer with
    | taken accepted rating rates =>
      obtain ⟨timely, rfl⟩ := verifierRating_eq_ok.mp rates
      exact ⟨fun _ => timely, by rw [if_pos accepted, if_pos accepted]⟩
    | left refused =>
      have refused' := Bool.eq_false_iff.mp refused
      exact ⟨fun accepted => absurd accepted refused', by rw [if_neg refused', if_neg refused']⟩
  · rintro ⟨timely, rfl⟩
    by_cases accepted : acceptsNow msg request request.verifierAddresses.length = true
    · rw [if_pos accepted, if_pos accepted]
      exact .taken accepted _ (verifierRating_eq_ok.mpr ⟨timely accepted, rfl⟩)
    · rw [if_neg accepted, if_neg accepted]
      exact .left (Bool.eq_false_iff.mpr accepted)

theorem evaluate_returns (fits : request.verifierAddresses.length < 2 ^ 16) :
    (∃ done, evaluate keccak256 msg st requestId request = .ok done) ↔
      (∀ a ∈ request.verifierAddresses,
        Scoreable (request.verifierRatings a) (st.verifiers a).averageContractRating) ∧
      AllRateable request.verifierRatings st.verifiers request.verifierAddresses := by
  have counter : 0 + request.verifierAddresses.length < 2 ^ 16 := by omega
  simp only [evaluate, eq_ok]
  constructor
  · rintro ⟨_, best, chosen, verifiers, rates, rfl⟩
    exact ⟨bestVerifier_returns.mp ⟨best, chosen⟩, (rateVerifiers_returns counter).mp ⟨verifiers, rates⟩⟩
  · rintro ⟨scores, averages⟩
    obtain ⟨best, chosen⟩ := bestVerifier_returns.mpr scores
    obtain ⟨verifiers, rates⟩ := (rateVerifiers_returns counter).mpr averages
    exact ⟨_, best, chosen, verifiers, rates, rfl⟩

theorem addDirectResponse_returns (opened : Opened msg st (st.requests requestId) true)
    (fits : (respondersAfter msg (st.requests requestId)).length < 2 ^ 16) :
    (∃ done, addDirectResponse keccak256 msg st requestId key = .ok done) ↔
      (acceptsNow msg (st.requests requestId) (st.requests requestId).verifierAddresses.length = true →
        elapsedOf msg (st.requests requestId) % 2 ^ 16 = 0 ∨
          3600 < elapsedOf msg (st.requests requestId) % 2 ^ 16) ∧
      ((st.requests requestId).minVerifierCount ≤ (respondersAfter msg (st.requests requestId)).length →
        (st.requests requestId).requestTime + MAX_LATENCY < 2 ^ 256) ∧
      (Reached msg (st.requests requestId) →
        (∀ a ∈ respondersAfter msg (st.requests requestId),
          Scoreable (ratingsAfter keccak256 msg st (st.requests requestId) key a)
            (st.verifiers a).averageContractRating) ∧
        AllRateable (ratingsAfter keccak256 msg st (st.requests requestId) key) st.verifiers
          (respondersAfter msg (st.requests requestId))) := by
  have counts : ∀ enough, evaluates msg (requestAfter keccak256 msg st (st.requests requestId) key)
      (respondersAfter msg (st.requests requestId)).length = .ok enough ↔
      ((st.requests requestId).minVerifierCount ≤ (respondersAfter msg (st.requests requestId)).length →
        (st.requests requestId).requestTime + MAX_LATENCY < 2 ^ 256) ∧
      (enough = true ↔ Reached msg (st.requests requestId)) := fun _ => evaluates_eq_ok
  let after := requestAfter keccak256 msg st (st.requests requestId) key
  have returns : (∃ done, evaluate keccak256 msg st requestId after = .ok done) ↔ _ :=
    evaluate_returns fits
  constructor
  · rintro ⟨done, ok⟩
    obtain ⟨-, request, answer, ends⟩ := addDirectResponse_eq_ok.mp ok
    obtain ⟨timely, rfl⟩ := directAnswer_iff.mp answer
    refine ⟨timely, ?_⟩
    rcases ends with ⟨early, -⟩ | ⟨enough, evaluated⟩
    · obtain ⟨deadline, meaning⟩ := (counts false).mp early
      exact ⟨deadline, fun reached => nomatch meaning.mpr reached⟩
    · exact ⟨((counts true).mp enough).1, fun _ => returns.mp ⟨done, evaluated⟩⟩
  · rintro ⟨timely, deadline, evaluable⟩
    have answer : DirectAnswer keccak256 msg st (st.requests requestId) key _ :=
      directAnswer_iff.mpr ⟨timely, rfl⟩
    by_cases reached : Reached msg (st.requests requestId)
    · obtain ⟨done, evaluated⟩ := returns.mpr (evaluable reached)
      exact ⟨done, addDirectResponse_eq_ok.mpr ⟨opened, _, answer,
        .inr ⟨(counts true).mpr ⟨deadline, by simp [reached]⟩, evaluated⟩⟩⟩
    · exact ⟨_, addDirectResponse_eq_ok.mpr ⟨opened, _, answer,
        .inl ⟨(counts false).mpr ⟨deadline, by simp [reached]⟩, rfl⟩⟩⟩

theorem ratings_of_addDirectResponse {done : State × List Event}
    (ok : addDirectResponse keccak256 msg st requestId key = .ok done) :
    (done.1.requests requestId).verifierRatings =
      ratingsAfter keccak256 msg st (st.requests requestId) key := by
  obtain ⟨-, request, answer, ends⟩ := addDirectResponse_eq_ok.mp ok
  obtain ⟨-, rfl⟩ := directAnswer_iff.mp answer
  rcases ends with ⟨-, rfl⟩ | ⟨-, evaluated⟩
  · rw [setRequest_self]
    rfl
  · simp only [evaluate, eq_ok] at evaluated
    obtain ⟨best, -, verifiers, -, rfl⟩ := evaluated
    rw [setRequest_self]
    rfl

end

/-- The rating that an answerable response gets. -/
def promise (t : ℕ) : ℕ := if t ≤ 3600 then 2 ^ 16 - 1 else 0

theorem promise_fallsToZero : FallsToZero promise where
  antitone a b le := by
    unfold promise
    split
    · rw [if_pos (by omega)]
    · exact Nat.zero_le _
  positive t within := by
    rw [promise, if_pos within]
    decide
  zero t late := if_neg (by omega)

/-- A response to an open direct request returns, and is rated by the time that has elapsed, exactly
if it is answerable; and all answerable responses are rated by one function. -/
theorem addDirectResponse_rates_iff (keccak256 : List ℕ → Bytes32) (w : World)
    (run : Run keccak256 (fun _ _ => True) w) (requestId : ℕ) (verifier : Address) (key : Bytes32)
    (time : ℕ) (granted : (w.st.requests requestId).granted = true)
    (direct : (w.st.requests requestId).direct = true)
    (pending : (w.st.requests requestId).verifiersEvaluated = false)
    (registered : (w.st.verifiers verifier).registered = true)
    (later : (w.st.requests requestId).requestTime ≤ time) :
    ((∃ f, FallsToZero f ∧ Rates keccak256 ⟨verifier, time⟩ w.st key requestId f) ↔
      Answerable keccak256 ⟨verifier, time⟩ w.st (w.st.requests requestId) key) ∧
    FallsToZero promise ∧
    (Answerable keccak256 ⟨verifier, time⟩ w.st (w.st.requests requestId) key →
      Rates keccak256 ⟨verifier, time⟩ w.st key requestId promise) := by
  have opened : Opened ⟨verifier, time⟩ w.st (w.st.requests requestId) true :=
    ⟨registered, granted, direct, pending, later⟩
  have fits : (respondersAfter ⟨verifier, time⟩ (w.st.requests requestId)).length < 2 ^ 16 := by
    have short := short_of_run run requestId
    have most := short.most
    have room := short.pending direct pending
    simp only [MAX_Verifier_COUNT, MIN_Verifier_COUNT] at most room
    unfold respondersAfter
    split
    · rw [length_append, length_singleton]
      omega
    · omega
  have returns : (∃ done, addDirectResponse keccak256 ⟨verifier, time⟩ w.st requestId key = .ok done) ↔ _ :=
    addDirectResponse_returns opened fits
  have keeps : Answerable keccak256 ⟨verifier, time⟩ w.st (w.st.requests requestId) key →
      Rates keccak256 ⟨verifier, time⟩ w.st key requestId promise := by
    intro answerable
    obtain ⟨done, ok⟩ := returns.mpr ⟨fun accepted => (answerable.timely accepted).imp_left And.left,
      answerable.deadline, fun reached => ⟨answerable.scores reached, answerable.averages reached⟩⟩
    refine ⟨done, ok, fun accepted right => ?_⟩
    rw [ratings_of_addDirectResponse ok, ratingsAfter, if_pos accepted, update_self, right]
    rcases answerable.timely accepted with ⟨zero, at_once | wrong⟩ | late
    · rw [at_once]
      rfl
    · rw [right] at wrong
      cases wrong
    · have elapsed := Nat.mod_le (elapsedOf ⟨verifier, time⟩ (w.st.requests requestId)) (2 ^ 16)
      rw [ratingAt, if_neg (by rintro ⟨-, zero⟩; omega), promise, if_neg (by omega)]
  refine ⟨⟨?_, fun answerable => ⟨promise, promise_fallsToZero, keeps answerable⟩⟩,
    promise_fallsToZero, keeps⟩
  rintro ⟨f, falls, done, ok, rating⟩
  obtain ⟨timely, deadline, evaluable⟩ := returns.mp ⟨done, ok⟩
  refine ⟨fun accepted => ?_, deadline, fun reached => (evaluable reached).1,
    fun reached => (evaluable reached).2⟩
  refine (timely accepted).imp_left fun zero => ⟨zero, ?_⟩
  by_cases right : rightKey keccak256 w.st (w.st.requests requestId) key = true
  · -- a rating of 65535 that comes back after 65536 seconds
    left
    by_contra elapsed
    have rated := rating accepted right
    rw [ratings_of_addDirectResponse ok, ratingsAfter, if_pos accepted, update_self, right,
      zero, falls.zero _ (by omega)] at rated
    cases rated
  · exact .inr (Bool.eq_false_iff.mpr right)

namespace OnePatient

/-- The request is open, and the verifier at address 3 has answered at once with the right key. -/
def oneAnswer : World :=
  start.steps keccak (opening 2 2 ++ [send 2 0 (.addDirectResponse 0 4)])

/-- Both verifiers have got the best rating for the first request, and one has answered a second. -/
def secondRequest : World :=
  oneAnswer.steps keccak [send 3 0 (.addDirectResponse 0 4), send 1 0 (.requestOnBehalf 9 2 2),
    send 2 0 (.addDirectResponse 1 4)]

/-- The request `r` takes responses, and the verifier at address 4 is registered. -/
def Open (w : World) (r : ℕ) : Prop :=
  (w.st.requests r).granted = true ∧ (w.st.requests r).direct = true ∧
    (w.st.requests r).verifiersEvaluated = false ∧ (w.st.verifiers 4).registered = true

instance decidableOpen (w : World) (r : ℕ) : Decidable (Open w r) :=
  inferInstanceAs (Decidable (_ ∧ _))

theorem run_oneAnswer : Run keccak (fun _ _ => True) oneAnswer :=
  (Run.deployed 1 0).steps (by decide +kernel)

/-- The second response comes at once, and the request is evaluated. -/
theorem addDirectResponse_rates_iff_second :
    Open oneAnswer 0 ∧ Answerable keccak ⟨4, 0⟩ oneAnswer.st (oneAnswer.st.requests 0) 4 ∧
      ∃ f, FallsToZero f ∧ Rates keccak ⟨4, 0⟩ oneAnswer.st 4 0 f := by
  have here : Open oneAnswer 0 := by decide +kernel
  have answerable : Answerable keccak ⟨4, 0⟩ oneAnswer.st (oneAnswer.st.requests 0) 4 := by
    refine ⟨fun _ => .inl ⟨by decide +kernel, .inl (by decide +kernel)⟩, fun _ => by decide +kernel,
      fun _ => ?_, fun _ => ?_⟩
    · unfold Scoreable
      decide +kernel
    · unfold AllRateable Rateable
      decide +kernel
  have iff := addDirectResponse_rates_iff keccak oneAnswer run_oneAnswer 0 4 4 0 here.1 here.2.1
    here.2.2.1 here.2.2.2 (by decide +kernel)
  exact ⟨here, answerable, iff.1.mpr answerable⟩

/-- A right key after one second reverts; after 65536 seconds it gets the best rating; and two
verifiers with the best rating cannot evaluate another request. -/
theorem direct_response_fails :
    (Run keccak (fun _ _ => True) oneAnswer ∧ Open oneAnswer 0 ∧
      (oneAnswer.st.requests 0).requestTime = 0 ∧ rightKey keccak oneAnswer.st (oneAnswer.st.requests 0) 4 ∧
      (addDirectResponse keccak ⟨4, 1⟩ oneAnswer.st 0 4).isOk = false ∧
      ((addDirectResponse keccak ⟨4, 65536⟩ oneAnswer.st 0 4).toOption.map fun done =>
        (done.1.requests 0).verifierRatings 4) = some 65535) ∧
    Run keccak (fun _ _ => True) secondRequest ∧ Open secondRequest 1 ∧
      (secondRequest.st.requests 1).requestTime = 0 ∧
      (addDirectResponse keccak ⟨4, 0⟩ secondRequest.st 1 4).isOk = false := by
  refine ⟨⟨run_oneAnswer, ?_, ?_, ?_, ?_, ?_⟩, run_oneAnswer.steps ?_, ?_, ?_, ?_⟩ <;> decide +kernel

end OnePatient

end ThresholdDsa.Hospital
