/-
# Requests and the verifiers that answer them

`RequestStep` says what a call does to one request and its answers
(`requestStep_of_effect`); what holds of every request in every run follows from its
seven cases.  `tracked`: the contract counts the answers to a request rightly.

The bounds on the number of verifiers are clamped one by one, and nothing keeps a
verifier from answering twice.  `verifiers_counted`: the stored bounds are in order,
and a request is evaluated only after as many different verifiers have answered as
they say, in the runs in which the bounds that are asked for meet 2 and 20, and no
verifier has two answers accepted.  `verifiers_miscounted`: otherwise one verifier
is enough.
-/
import ThresholdDsa.Hospital.Runs

namespace ThresholdDsa.Hospital

open Outcome Checked Function List

/-! ## One request -/

variable {request : Request} {keccak256 : List ℕ → Bytes32} {w : World} {msg : Msg} {call : Call}
  {answers : List Answer}

section

variable (keccak256 : List ℕ → Bytes32) (w : World) (msg : Msg)

/-- What a call does to the request `r`, its answers and the last decision on it. -/
inductive RequestStep (r : ℕ) : Call → Request → List Answer → Option (Address × Bool) → Prop
  | same (call : Call) : RequestStep r call (w.st.requests r) (w.answers r) (w.decisions r)
  | decided (grant : Bool) (key : ℕ)
      (owned : (w.st.requests r).direct = true →
        (w.st.documents (w.st.requests r).bundleHash).existing = true ∧
        (w.st.documents (w.st.requests r).bundleHash).patient = msg.sender) :
      RequestStep r (.respondRequest r grant key) { w.st.requests r with granted := grant }
        (w.answers r) (some (msg.sender, grant))
  | onBehalf (bundleHash : Bytes32) (least most : ℕ) (new : r = w.st.requestsCount)
      (owned : (w.st.documents bundleHash).patient = msg.sender) (ordered : least ≤ most) :
      RequestStep r (.requestOnBehalf bundleHash least most)
        (newRequest msg w.st bundleHash true 0 least most true) (w.answers r)
        (some (msg.sender, true))
  | made (bundleHash : Bytes32) (direct : Bool) (keyHash : Bytes32) (least most : ℕ)
      (new : r = w.st.requestsCount) (ordered : least ≤ most) :
      RequestStep r (.requestDocument bundleHash direct keyHash least most)
        (newRequest msg w.st bundleHash direct keyHash least most false) (w.answers r) none
  | answered (key : Bytes32) (opened : Opened msg w.st (w.st.requests r) true)
      (accepted : acceptsNow msg (w.st.requests r) (w.st.requests r).verifierAddresses.length = true)
      (rating : ℕ)
      (rates : verifierRating (if rightKey keccak256 w.st (w.st.requests r) key then 1 else 0)
        (elapsedOf msg (w.st.requests r) % 2 ^ 16) = .ok rating)
      (evaluated : Bool)
      (counts : evaluates msg (w.st.requests r) ((w.st.requests r).verifierAddresses.length + 1) =
        .ok evaluated) :
      RequestStep r (.addDirectResponse r key)
        { w.st.requests r with
          verifierAddresses := (w.st.requests r).verifierAddresses ++ [msg.sender]
          verifierRatings := update (w.st.requests r).verifierRatings msg.sender rating
          verifiersEvaluated := evaluated }
        (w.answers r ++
          [⟨msg.sender, some key, (w.st.documents (w.st.requests r).bundleHash).keyHash⟩])
        (w.decisions r)
  | participated (opened : Opened msg w.st (w.st.requests r) false)
      (accepted : acceptsNow msg (w.st.requests r) (w.st.requests r).indirectParticipations = true)
      (addresses : List Address) (evaluated : Bool)
      (counts : evaluates msg (w.st.requests r) ((w.st.requests r).indirectParticipations + 1) =
        .ok evaluated) :
      RequestStep r (.addIndirectResponse r)
        { w.st.requests r with
          verifierAddresses := addresses
          indirectParticipations := (w.st.requests r).indirectParticipations + 1
          verifiersEvaluated := evaluated }
        (w.answers r ++
          [⟨msg.sender, none, (w.st.documents (w.st.requests r).bundleHash).keyHash⟩])
        (w.decisions r)
  | closed (call : Call) (direct : Bool) (opened : Opened msg w.st (w.st.requests r) direct)
      (count : ℕ)
      (counted : count = if direct then (w.st.requests r).verifierAddresses.length
        else (w.st.requests r).indirectParticipations)
      (some_address : (w.st.requests r).verifierAddresses = [] → direct = true)
      (refused : acceptsNow msg (w.st.requests r) count = false)
      (counts : evaluates msg (w.st.requests r) count = .ok true) :
      RequestStep r call { w.st.requests r with verifiersEvaluated := true } (w.answers r)
        (w.decisions r)

variable {keccak256 w msg} {r count : ℕ} {key : Option Bytes32}

theorem addAnswer_of_accepts (accepted : acceptsNow msg (w.st.requests r) count = true) :
    w.addAnswer msg r count key r = w.answers r ++
      [⟨msg.sender, key, (w.st.documents (w.st.requests r).bundleHash).keyHash⟩] := by
  rw [World.addAnswer, if_pos accepted, update_self]

theorem addAnswer_of_refuses (refused : acceptsNow msg (w.st.requests r) count = false) :
    w.addAnswer msg r count key = w.answers := by
  rw [World.addAnswer, if_neg (by simp [refused])]

theorem addAnswer_of_ne {r' : ℕ} (other : r' ≠ r) :
    w.addAnswer msg r count key r' = w.answers r' := by
  unfold World.addAnswer
  split
  · exact update_of_ne other _ _
  · rfl

theorem setRequest_of_ne {st : State} {r' : ℕ} (other : r' ≠ r) :
    (st.setRequest r request).requests r' = st.requests r' := update_of_ne other _ _

theorem setRequest_self {st : State} :
    (st.setRequest r request).requests r = request := update_self _ _ _

/-- The request and its answers after a call that changes another one. -/
theorem RequestStep.of_eq {decision : Option (Address × Bool)}
    (same : request = w.st.requests r) (kept : answers = w.answers r)
    (undecided : decision = w.decisions r) :
    RequestStep keccak256 w msg r call request answers decision := by
  rw [same, kept, undecided]
  exact .same call

/-- A direct response, evaluated or not. -/
theorem requestStep_of_directAnswer {key : Bytes32}
    (opened : Opened msg w.st (w.st.requests r) true)
    (answer : DirectAnswer keccak256 msg w.st (w.st.requests r) key request) (evaluated : Bool)
    (counts : evaluates msg request request.verifierAddresses.length = .ok evaluated) :
    RequestStep keccak256 w msg r (.addDirectResponse r key)
      { request with verifiersEvaluated := evaluated }
      (w.answersAfter msg (.addDirectResponse r key) r) (w.decisions r) := by
  cases answer with
  | taken accepted rating rates =>
    rw [World.answersAfter, addAnswer_of_accepts accepted]
    rw [length_append] at counts
    exact .answered key opened accepted rating rates evaluated counts
  | left refused =>
    rw [World.answersAfter, addAnswer_of_refuses refused]
    cases evaluated with
    | true => exact .closed _ true opened _ rfl (fun _ => rfl) refused counts
    | false =>
      refine .of_eq ?_ rfl rfl
      rw [← opened.pending]

/-- An indirect response, evaluated or not. -/
theorem requestStep_of_indirectAnswer (opened : Opened msg w.st (w.st.requests r) false)
    (answer : IndirectAnswer msg w.st (w.st.requests r) request) (evaluated : Bool)
    (counts : evaluates msg request request.indirectParticipations = .ok evaluated)
    (chosen : evaluated = true → request.verifierAddresses ≠ []) :
    RequestStep keccak256 w msg r (.addIndirectResponse r)
      { request with verifiersEvaluated := evaluated }
      (w.answersAfter msg (.addIndirectResponse r) r) (w.decisions r) := by
  cases answer with
  | taken accepted addresses =>
    rw [World.answersAfter, addAnswer_of_accepts accepted]
    exact .participated opened accepted addresses evaluated counts
  | left refused =>
    rw [World.answersAfter, addAnswer_of_refuses refused]
    cases evaluated with
    | true => exact .closed _ false opened _ rfl (fun empty => absurd empty (chosen rfl)) refused counts
    | false =>
      refine .of_eq ?_ rfl rfl
      rw [← opened.pending]

variable {after : Request}

theorem directAnswer_evaluated {key : Bytes32}
    (answer : DirectAnswer keccak256 msg w.st request key after) :
    after.verifiersEvaluated = request.verifiersEvaluated := by
  cases answer <;> rfl

theorem indirectAnswer_evaluated (answer : IndirectAnswer msg w.st request after) :
    after.verifiersEvaluated = request.verifiersEvaluated := by
  cases answer <;> rfl

theorem requestStep_of_effect {done : State × List Event}
    (effect : Effect keccak256 msg w.st call done) (r : ℕ) :
    RequestStep keccak256 w msg r call ((w.next msg call done).st.requests r)
      ((w.next msg call done).answers r) ((w.next msg call done).decisions r) := by
  cases effect with
  | registerPatient => exact .same _
  | registerDoctor => exact .same _
  | registerVerifier => exact .same _
  | submitDocument => exact .same _
  | documentAvailable => exact .same _
  | respondRequest requestId grant key patient owned keyed =>
    by_cases this : r = requestId
    · subst this
      simp only [World.next, setRequest_self, World.decisionsAfter, update_self]
      exact .decided grant key owned
    · exact .of_eq (setRequest_of_ne this) rfl (update_of_ne this _ _)
  | requestOnBehalf bundleHash least most patient owned ordered =>
    by_cases this : r = w.st.requestsCount
    · rw [this]
      simp only [World.next, setRequest_self, World.decisionsAfter, update_self]
      exact .onBehalf bundleHash least most rfl owned ordered
    · exact .of_eq (setRequest_of_ne this) rfl (update_of_ne this _ _)
  | requestDocument bundleHash direct keyHash least most doctor ordered =>
    by_cases this : r = w.st.requestsCount
    · rw [this]
      simp only [World.next, setRequest_self, World.decisionsAfter, update_self]
      exact .made bundleHash direct keyHash least most rfl ordered
    · exact .of_eq (setRequest_of_ne this) rfl (update_of_ne this _ _)
  | answered requestId key opened request answer early =>
    by_cases this : r = requestId
    · subst this
      have step := requestStep_of_directAnswer opened answer false early
      rw [← opened.pending, ← directAnswer_evaluated answer] at step
      simp only [World.next, setRequest_self]
      exact step
    · exact .of_eq (setRequest_of_ne this) (addAnswer_of_ne this) rfl
  | evaluated requestId key opened request answer enough =>
    by_cases this : r = requestId
    · subst this
      simp only [World.next, setRequest_self]
      exact requestStep_of_directAnswer opened answer true enough
    · exact .of_eq (setRequest_of_ne this) (addAnswer_of_ne this) rfl
  | participated requestId opened request answer early =>
    by_cases this : r = requestId
    · subst this
      have step : RequestStep keccak256 w msg r _ _ _ _ :=
        requestStep_of_indirectAnswer opened answer false early nofun
      rw [← opened.pending, ← indirectAnswer_evaluated answer] at step
      simp only [World.next, setRequest_self]
      exact step
    · exact .of_eq (setRequest_of_ne this) (addAnswer_of_ne this) rfl
  | chosen requestId opened request answer enough verifier first =>
    by_cases this : r = requestId
    · subst this
      simp only [World.next, setRequest_self]
      refine requestStep_of_indirectAnswer opened answer true enough fun _ empty => ?_
      rw [empty] at first
      cases first
    · exact .of_eq (setRequest_of_ne this) (addAnswer_of_ne this) rfl

end

/-! ## What holds of every request in every run -/

section

variable {done : State × List Event}

def Call.creates : Call → Bool
  | .requestOnBehalf _ _ _ => true
  | .requestDocument _ _ _ _ _ => true
  | _ => false

theorem requestsCount_next (effect : Effect keccak256 msg w.st call done) :
    (w.next msg call done).st.requestsCount =
      if call.creates then w.st.requestsCount + 1 else w.st.requestsCount := by
  cases effect <;> rfl

theorem rateVerifiers_registered {addresses : List Address} {i : ℕ}
    {verifiers rated : Address → Verifier}
    (rates : rateVerifiers request addresses i verifiers = .ok rated) (a : Address) :
    (rated a).registered = (verifiers a).registered := by
  induction addresses generalizing i verifiers with
  | nil =>
    cases rates
    rfl
  | cons address rest ih =>
    simp only [rateVerifiers, rateVerifier, eq_ok] at rates
    obtain ⟨verifier, ⟨product, -, total, -, count, -, average, -, rfl⟩, i', -, rates⟩ := rates
    rw [ih rates, update_apply]
    split
    · rename_i same
      rw [same]
    · rfl

/-- A verifier stays registered. -/
theorem registered_next (effect : Effect keccak256 msg w.st call done) {a : Address}
    (registered : (w.st.verifiers a).registered = true) :
    ((w.next msg call done).st.verifiers a).registered = true := by
  cases effect with
  | registerVerifier =>
    simp only [World.next, update_apply]
    split
    · rfl
    · exact registered
  | evaluated requestId key opened request answer enough best chosen verifiers rated =>
    exact (rateVerifiers_registered rated a).trans registered
  | _ => exact registered

/-- A request that has not been made. -/
structure Unused (request : Request) (answers : List Answer) : Prop where
  kind : request.direct = false
  least : request.minVerifierCount = 0
  most : request.maxVerifierCount = 0
  pending : request.verifiersEvaluated = false
  addresses : request.verifierAddresses = []
  participations : request.indirectParticipations = 0
  answers : answers = []

/-- The contract knows the answers to a request. -/
structure Recorded (request : Request) (answers : List Answer) : Prop where
  direct : request.direct = true → request.verifierAddresses = answers.map Answer.sender
  indirect : request.direct = false → request.indirectParticipations = answers.length

variable {decision : Option (Address × Bool)}

/-- Only making it changes a request that has not been made, apart from a decision on it. -/
theorem Unused.step {r : ℕ} (unused : Unused (w.st.requests r) (w.answers r))
    (step : RequestStep keccak256 w msg r call request answers decision)
    (beyond : call.creates = true → r ≠ w.st.requestsCount) : Unused request answers := by
  cases step with
  | same => exact unused
  | decided => exact { unused with }
  | onBehalf bundleHash least most new => exact absurd new (beyond rfl)
  | made bundleHash direct keyHash least most new => exact absurd new (beyond rfl)
  | answered key opened =>
    exact absurd opened.kind (by simp [unused.kind])
  | participated opened accepted =>
    simp [acceptsNow, accepts, unused.least, unused.most] at accepted
  | closed _ direct opened count counted some_address =>
    have kind := opened.kind
    rw [unused.kind, some_address unused.addresses] at kind
    cases kind

theorem Recorded.step {r : ℕ} (recorded : Recorded (w.st.requests r) (w.answers r))
    (unused : r = w.st.requestsCount → Unused (w.st.requests r) (w.answers r))
    (step : RequestStep keccak256 w msg r call request answers decision) : Recorded request answers := by
  cases step with
  | same => exact recorded
  | decided => exact { recorded with }
  | onBehalf bundleHash least most new =>
    have before := unused new
    refine ⟨fun _ => ?_, fun kind => nomatch kind⟩
    rw [before.answers]
    subst new
    exact before.addresses
  | made bundleHash direct keyHash least most new =>
    have before := unused new
    subst new
    refine ⟨fun _ => ?_, fun _ => ?_⟩
    · rw [before.answers]
      exact before.addresses
    · rw [before.answers]
      exact before.participations
  | answered key opened =>
    refine ⟨fun _ => ?_, fun kind => ?_⟩
    · rw [map_append, ← recorded.direct opened.kind]
      rfl
    · exact absurd opened.kind (by simp [show (w.st.requests r).direct = false from kind])
  | participated opened =>
    refine ⟨fun kind => ?_, fun _ => ?_⟩
    · exact absurd opened.kind (by simp [show (w.st.requests r).direct = true from kind])
    · rw [length_append, ← recorded.indirect opened.kind]
      rfl
  | closed => exact { recorded with }

structure Tracked (w : World) : Prop where
  unused : ∀ r, w.st.requestsCount ≤ r → Unused (w.st.requests r) (w.answers r)
  recorded : ∀ r, Recorded (w.st.requests r) (w.answers r)
  registered : ∀ r, ∀ answer ∈ w.answers r, (w.st.verifiers answer.sender).registered = true

theorem Tracked.next (tracked : Tracked w) (effect : Effect keccak256 msg w.st call done) :
    Tracked (w.next msg call done) where
  unused r beyond := by
    rw [requestsCount_next effect] at beyond
    have step := requestStep_of_effect effect r
    by_cases creates : call.creates = true
    · rw [if_pos creates] at beyond
      exact (tracked.unused r (by omega)).step step fun _ => by omega
    · rw [if_neg creates] at beyond
      exact (tracked.unused r beyond).step step fun made => absurd made creates
  recorded r :=
    (tracked.recorded r).step (fun new => tracked.unused r new.ge) (requestStep_of_effect effect r)
  registered r answer mem := by
    have step := requestStep_of_effect effect r
    refine registered_next effect ?_
    generalize (w.next msg call done).st.requests r = request at step
    generalize (w.next msg call done).answers r = answers at step mem
    generalize (w.next msg call done).decisions r = decision at step
    cases step with
    | answered key opened =>
      rcases mem_append.mp mem with before | new
      · exact tracked.registered r answer before
      · rw [mem_singleton.mp new]
        exact opened.registered
    | participated opened =>
      rcases mem_append.mp mem with before | new
      · exact tracked.registered r answer before
      · rw [mem_singleton.mp new]
        exact opened.registered
    | _ => exact tracked.registered r answer mem

theorem tracked {Good : World → Transaction → Prop} (run : Run keccak256 Good w) : Tracked w := by
  refine run.invariant (fun deployer time => ?_) (fun w time tracked => ?_)
    fun w tx done _ tracked _ _ effect => tracked.next effect
  · exact
      { unused := fun r _ => ⟨rfl, rfl, rfl, rfl, rfl, rfl, rfl⟩
        recorded := fun r => ⟨fun _ => rfl, fun _ => rfl⟩
        registered := fun r answer mem => nomatch mem }
  · exact ⟨tracked.unused, tracked.recorded, tracked.registered⟩

/-! ## Requests that have been evaluated -/

theorem RequestStep.evaluated {r : ℕ}
    (step : RequestStep keccak256 w msg r call request answers decision)
    (stored : r < w.st.requestsCount) (evaluated : (w.st.requests r).verifiersEvaluated = true) :
    ∃ granted, request = { w.st.requests r with granted } := by
  cases step with
  | same => exact ⟨_, rfl⟩
  | decided grant => exact ⟨grant, rfl⟩
  | onBehalf _ _ _ new => omega
  | made _ _ _ _ _ new => omega
  | answered _ opened => simp [opened.pending] at evaluated
  | participated opened => simp [opened.pending] at evaluated
  | closed _ _ opened => simp [opened.pending] at evaluated

/-- Whatever is called after a request was evaluated, only the patient's decision on it changes. -/
theorem evaluated_request_final {r : ℕ} (stored : r < w.st.requestsCount)
    (evaluated : (w.st.requests r).verifiersEvaluated = true) (txs : List Transaction) :
    ∃ granted, (w.steps keccak256 txs).st.requests r = { w.st.requests r with granted } := by
  induction txs generalizing w with
  | nil => exact ⟨_, rfl⟩
  | cons tx rest ih =>
    rw [World.steps, foldl_cons]
    rcases step_cases w tx with reverted | ⟨done, effect, stepped⟩
    · rw [reverted]
      exact ih stored evaluated
    · obtain ⟨granted, kept⟩ := (requestStep_of_effect effect r).evaluated stored evaluated
      have later : r < (w.next tx.msg tx.call done).st.requestsCount := by
        rw [requestsCount_next effect]
        split <;> omega
      have final := ih later (by rw [kept]; exact evaluated)
      rw [kept] at final
      rwa [stepped]

end

/-! ## The number of verifiers -/

section

/-- The bounds of a new request meet 2 and 20, and no verifier has two answers accepted. -/
def OrderlyCall (w : World) (msg : Msg) : Call → Prop
  | .requestOnBehalf _ least most => least ≤ MAX_Verifier_COUNT ∧ MIN_Verifier_COUNT ≤ most
  | .requestDocument _ _ _ least most => least ≤ MAX_Verifier_COUNT ∧ MIN_Verifier_COUNT ≤ most
  | .addDirectResponse r _ =>
    acceptsNow msg (w.st.requests r) (w.st.requests r).verifierAddresses.length = true →
      msg.sender ∉ (w.answers r).map Answer.sender
  | .addIndirectResponse r =>
    acceptsNow msg (w.st.requests r) (w.st.requests r).indirectParticipations = true →
      msg.sender ∉ (w.answers r).map Answer.sender
  | _ => True

def Orderly (w : World) (tx : Transaction) : Prop := OrderlyCall w tx.msg tx.call

instance decidableOrderlyCall (w : World) (msg : Msg) : (call : Call) → Decidable (OrderlyCall w msg call)
  | .requestOnBehalf _ _ _ => inferInstanceAs (Decidable (_ ∧ _))
  | .requestDocument _ _ _ _ _ => inferInstanceAs (Decidable (_ ∧ _))
  | .addDirectResponse _ _ => inferInstanceAs (Decidable (_ → _))
  | .addIndirectResponse _ => inferInstanceAs (Decidable (_ → _))
  | .registerPatient _ => isTrue trivial
  | .registerDoctor _ => isTrue trivial
  | .registerVerifier _ => isTrue trivial
  | .submitDocument _ _ => isTrue trivial
  | .respondRequest _ _ _ => isTrue trivial
  | .documentAvailable _ => isTrue trivial

instance decidableOrderly (w : World) (tx : Transaction) : Decidable (Orderly w tx) :=
  decidableOrderlyCall w tx.msg tx.call

structure Counted (request : Request) (answers : List Answer) : Prop where
  least : MIN_Verifier_COUNT ≤ request.minVerifierCount
  ordered : request.minVerifierCount ≤ request.maxVerifierCount
  most : request.maxVerifierCount ≤ MAX_Verifier_COUNT
  distinct : (answers.map Answer.sender).Nodup
  pending : request.verifiersEvaluated = false → answers.length < request.maxVerifierCount
  enough : request.verifiersEvaluated = true →
    request.minVerifierCount ≤ answers.length ∧ answers.length ≤ request.maxVerifierCount

variable {evaluated : Bool}

theorem evaluates_cases {count : ℕ} (counts : evaluates msg request count = .ok evaluated) :
    (evaluated = true → request.minVerifierCount ≤ count ∨ count = request.maxVerifierCount) ∧
      (evaluated = false → count ≠ request.maxVerifierCount) := by
  unfold evaluates at counts
  split at counts
  · rename_i reached
    simp only [eq_ok] at counts
    obtain ⟨deadline, -, rfl⟩ := counts
    exact ⟨fun _ => .inl reached, fun early => by simp at early; exact early.2⟩
  · cases counts
    exact ⟨fun full => .inr (of_decide_eq_true full), of_decide_eq_false⟩

theorem lt_most_of_accepts {count : ℕ}
    (ordered : request.minVerifierCount ≤ request.maxVerifierCount)
    (accepted : acceptsNow msg request count = true) : count < request.maxVerifierCount := by
  simp only [acceptsNow, accepts, Bool.or_eq_true, decide_eq_true_eq, Bool.and_eq_true] at accepted
  omega

/-- One more answer. -/
theorem Counted.answer {after : Request} {answer : Answer} (counted : Counted request answers)
    (same : after.minVerifierCount = request.minVerifierCount ∧
      after.maxVerifierCount = request.maxVerifierCount ∧ after.verifiersEvaluated = evaluated)
    (accepted : acceptsNow msg request answers.length = true)
    (new : answer.sender ∉ answers.map Answer.sender)
    (counts : evaluates msg request (answers.length + 1) = .ok evaluated) :
    Counted after (answers ++ [answer]) := by
  obtain ⟨least_eq, most_eq, evaluated_eq⟩ := same
  have room := lt_most_of_accepts counted.ordered accepted
  have ordered := counted.ordered
  obtain ⟨when_true, when_false⟩ := evaluates_cases counts
  rw [← least_eq, ← most_eq] at when_true
  rw [← most_eq] at when_false room
  rw [← least_eq, ← most_eq] at ordered
  have length : (answers ++ [answer]).length = answers.length + 1 := by simp
  refine ⟨least_eq ▸ counted.least, ordered, most_eq ▸ counted.most, ?_, fun early => ?_, fun done => ?_⟩
  · rw [map_append]
    exact List.Nodup.append counted.distinct (nodup_singleton _)
      (disjoint_singleton.mpr new)
  · have := when_false (evaluated_eq.symm.trans early)
    omega
  · have := when_true (evaluated_eq.symm.trans done)
    omega

/-- The bounds of a new request, which has no answers. -/
theorem counted_newRequest {bundleHash : Bytes32} {direct : Bool} {keyHash : Bytes32} {least most : ℕ}
    {granted : Bool} (ordered : least ≤ most)
    (bounds : least ≤ MAX_Verifier_COUNT ∧ MIN_Verifier_COUNT ≤ most) :
    Counted (newRequest msg w.st bundleHash direct keyHash least most granted) [] := by
  have between : MIN_Verifier_COUNT ≤ MAX_Verifier_COUNT := by decide
  refine ⟨le_max_right _ _, ?_, min_le_right _ _, nodup_nil, fun _ => ?_, nofun⟩
  · exact max_le (le_min ordered bounds.1) (le_min bounds.2 between)
  · exact lt_of_lt_of_le (by decide : 0 < MIN_Verifier_COUNT) (le_min bounds.2 between)

theorem Counted.step {r : ℕ} {decision : Option (Address × Bool)} (tracked : Tracked w)
    (counted : (w.st.requests r).existing = true → Counted (w.st.requests r) (w.answers r))
    (orderly : OrderlyCall w msg call)
    (step : RequestStep keccak256 w msg r call request answers decision)
    (stored : request.existing = true) : Counted request answers := by
  have no_answers : r = w.st.requestsCount → w.answers r = [] :=
    fun new => (tracked.unused r new.ge).answers
  cases step with
  | same => exact counted stored
  | decided => exact { counted stored with }
  | onBehalf bundleHash least most new owned ordered =>
    rw [no_answers new]
    exact counted_newRequest ordered orderly
  | made bundleHash direct keyHash least most new ordered =>
    rw [no_answers new]
    exact counted_newRequest ordered orderly
  | answered key opened accepted rating rates evaluated counts =>
    have count : (w.st.requests r).verifierAddresses.length = (w.answers r).length := by
      rw [(tracked.recorded r).direct opened.kind, length_map]
    have new := orderly accepted
    rw [count] at accepted counts
    exact (counted stored).answer ⟨rfl, rfl, rfl⟩ accepted new counts
  | participated opened accepted addresses evaluated counts =>
    have count := (tracked.recorded r).indirect opened.kind
    have new := orderly accepted
    rw [count] at accepted counts
    exact (counted stored).answer ⟨rfl, rfl, rfl⟩ accepted new counts
  | closed _ direct opened count counted_as some_address refused counts =>
    have before := counted stored
    have count_eq : count = (w.answers r).length := by
      rw [counted_as]
      cases direct with
      | true =>
        rw [if_pos rfl, (tracked.recorded r).direct opened.kind, length_map]
      | false => exact (tracked.recorded r).indirect opened.kind
    have room := before.pending opened.pending
    have reached := (evaluates_cases counts).1 rfl
    refine { before with pending := nofun, enough := fun _ => ⟨?_, room.le⟩ }
    rw [count_eq] at reached
    exact reached.resolve_right room.ne

theorem counted_of_run (run : Run keccak256 Orderly w) :
    ∀ r, (w.st.requests r).existing = true → Counted (w.st.requests r) (w.answers r) := by
  refine run.invariant (P := fun w => ∀ r, (w.st.requests r).existing = true →
    Counted (w.st.requests r) (w.answers r)) (fun _ _ r stored => nomatch stored)
    (fun w time counted => counted) fun w tx done run counted _ orderly effect r stored => ?_
  exact Counted.step (tracked run) (counted r) orderly (requestStep_of_effect effect r) stored

end

/-- The bounds of a stored request are in order, and when it is evaluated, as many different
registered verifiers have answered as they say. -/
theorem verifiers_counted (keccak256 : List ℕ → Bytes32) (w : World) (run : Run keccak256 Orderly w)
    (r : ℕ) (stored : (w.st.requests r).existing = true) :
    (2 ≤ (w.st.requests r).minVerifierCount ∧
      (w.st.requests r).minVerifierCount ≤ (w.st.requests r).maxVerifierCount ∧
      (w.st.requests r).maxVerifierCount ≤ 20) ∧
    ((w.st.requests r).verifiersEvaluated = true →
      ((w.answers r).map Answer.sender).Nodup ∧
      (∀ answer ∈ w.answers r, (w.st.verifiers answer.sender).registered = true) ∧
      (w.st.requests r).minVerifierCount ≤ (w.answers r).length ∧
      (w.answers r).length ≤ (w.st.requests r).maxVerifierCount) := by
  have counted := counted_of_run run r stored
  refine ⟨⟨counted.least, counted.ordered, counted.most⟩, fun evaluated => ?_⟩
  exact ⟨counted.distinct, (tracked run).registered r, counted.enough evaluated⟩

/-! ## A hospital with one patient -/

namespace OnePatient

def keccak (words : List ℕ) : Bytes32 := words.sum + 1

/-- Account 0 is the hospital's, 1 a patient's, 2 and 3 are verifiers'.  The patient submits a
document and asks for it to be verified. -/
def opening (least most : ℕ) : List Transaction :=
  [send 0 0 (.registerPatient 2), send 0 0 (.registerVerifier 3), send 0 0 (.registerVerifier 4),
    send 1 0 (.submitDocument 9 5), send 1 0 (.requestOnBehalf 9 least most)]

def start : World := .deployed 1 0

/-- The verifiers with these accounts answer, with a wrong key. -/
def answered (least most : ℕ) (accounts : List ℕ) : World :=
  start.steps keccak (opening least most ++ accounts.map fun a => send a 0 (.addDirectResponse 0 8))

theorem verifiers_counted_two :
    Run keccak Orderly (answered 2 2 [2, 3]) ∧
      ((answered 2 2 [2, 3]).st.requests 0).verifiersEvaluated = true ∧
      (((answered 2 2 [2, 3]).answers 0).map Answer.sender).Nodup := by
  have run : Run keccak Orderly (answered 2 2 [2, 3]) :=
    (Run.deployed 1 0).steps (by decide +kernel)
  have evaluated : ((answered 2 2 [2, 3]).st.requests 0).verifiersEvaluated = true := by decide +kernel
  have counted := verifiers_counted keccak _ run 0 (by decide +kernel)
  exact ⟨run, evaluated, (counted.2 evaluated).1⟩

theorem evaluated_request_final_answered : ∃ granted,
    ((answered 2 2 [2, 3]).steps keccak [send 1 0 (.respondRequest 0 false 0)]).st.requests 0 =
      { (answered 2 2 [2, 3]).st.requests 0 with granted } :=
  evaluated_request_final (by decide +kernel) (by decide +kernel) _

/-- One verifier answers twice, or once where at most one was asked for; and a stored minimum is
greater than the maximum. -/
theorem verifiers_miscounted :
    (Run keccak (fun _ _ => True) (answered 2 2 [2, 2]) ∧
      ((answered 2 2 [2, 2]).st.requests 0).verifiersEvaluated = true ∧
      ((answered 2 2 [2, 2]).answers 0).map Answer.sender = [3, 3]) ∧
    (Run keccak (fun _ _ => True) (answered 1 1 [2]) ∧
      ((answered 1 1 [2]).st.requests 0).verifiersEvaluated = true ∧
      ((answered 1 1 [2]).st.requests 0).minVerifierCount = 2 ∧
      ((answered 1 1 [2]).answers 0).map Answer.sender = [3]) ∧
    Run keccak (fun _ _ => True) (answered 30 40 []) ∧
      ((answered 30 40 []).st.requests 0).existing = true ∧
      ((answered 30 40 []).st.requests 0).minVerifierCount = 30 ∧
      ((answered 30 40 []).st.requests 0).maxVerifierCount = 20 := by
  have run : ∀ least most accounts, Passes keccak (fun _ _ => True) start
      (opening least most ++ accounts.map fun a => send a 0 (.addDirectResponse 0 8)) →
      Run keccak (fun _ _ => True) (answered least most accounts) :=
    fun least most accounts passes => (Run.deployed 1 0).steps passes
  exact ⟨⟨run _ _ _ (by decide +kernel), by decide +kernel, by decide +kernel⟩,
    ⟨run _ _ _ (by decide +kernel), by decide +kernel, by decide +kernel, by decide +kernel⟩,
    run _ _ _ (by decide +kernel), by decide +kernel, by decide +kernel, by decide +kernel⟩

end OnePatient

end ThresholdDsa.Hospital
