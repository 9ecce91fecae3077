/-
# The verifier that an evaluation chooses, and its token

The evaluation of a direct request chooses a responder with the greatest score, the
last of them if there are several, and logs a token made of the requester, the
verifier and the time of the block.

If no responder has a positive rating, the last one is chosen whatever key it gave.  A
rating is for the key hash that the document had when the answer came, and the document
may be submitted again before the evaluation.  And the token of two requests of one
requester that are evaluated in one block is the same if one verifier is chosen for
both.  `winner_right` is for the runs in which none of this happens.  `winner_wrong` has
all three.
-/
import ThresholdDsa.Hospital.Rating

namespace ThresholdDsa.Hospital

open Outcome Checked Function List

/-! ## The choice -/

variable {request : Request} {keccak256 : List ℕ → Bytes32} {w : World} {msg : Msg}

section

variable {st : State}

def scoreOf (st : State) (request : Request) (a : Address) : ℕ :=
  request.verifierRatings a * ((st.verifiers a).averageContractRating + 1) ^ 2

variable {addresses : List Address} {best chosen : Address × ℕ}
  (chooses : bestVerifier st request addresses best = .ok chosen)

include chooses

/-- The loop keeps the best score, and one of those that have it. -/
theorem bestVerifier_spec :
    best.2 ≤ chosen.2 ∧ (∀ a ∈ addresses, scoreOf st request a ≤ chosen.2) ∧
      ((chosen.1 ∈ addresses ∧ scoreOf st request chosen.1 = chosen.2) ∨
        (chosen = best ∧ ∀ a ∈ addresses, scoreOf st request a < best.2)) := by
  induction addresses generalizing best with
  | nil =>
    cases chooses
    exact ⟨le_rfl, nofun, .inr ⟨rfl, nofun⟩⟩
  | cons a rest ih =>
    simp only [bestVerifier, bind_eq_ok, verifierScore_eq_ok] at chooses
    obtain ⟨score, ⟨-, score_eq⟩, goes_on⟩ := chooses
    change scoreOf st request a = score at score_eq
    obtain ⟨more, others, choice⟩ := ih goes_on
    simp only [forall_mem_cons]
    split at more
    · rename_i better
      rw [if_pos better] at choice
      refine ⟨better.trans more, ⟨score_eq.le.trans more, others⟩, .inl ?_⟩
      rcases choice with ⟨mem, score_chosen⟩ | ⟨rfl, -⟩
      · exact ⟨mem_cons_of_mem a mem, score_chosen⟩
      · exact ⟨mem_cons_self, score_eq⟩
    · rename_i worse
      rw [if_neg worse] at choice
      refine ⟨more, ⟨by omega, others⟩, ?_⟩
      rcases choice with ⟨mem, score_chosen⟩ | ⟨same, below⟩
      · exact .inl ⟨mem_cons_of_mem a mem, score_chosen⟩
      · exact .inr ⟨same, by omega, below⟩

/-- Where all scores are zero, the last responder is chosen. -/
theorem bestVerifier_zero (start : best.2 = 0)
    (zero : ∀ a ∈ addresses, scoreOf st request a = 0) : chosen.1 = addresses.getLastD best.1 := by
  induction addresses generalizing best with
  | nil =>
    cases chooses
    rfl
  | cons a rest ih =>
    simp only [bestVerifier, bind_eq_ok, verifierScore_eq_ok] at chooses
    obtain ⟨score, ⟨-, score_eq⟩, goes_on⟩ := chooses
    change scoreOf st request a = score at score_eq
    simp only [forall_mem_cons] at zero
    rw [if_pos (by omega)] at goes_on
    rw [ih goes_on (score_eq.symm.trans zero.1) zero.2, getLastD_cons]

end

/-! ## The conditions -/

section

variable (keccak256 : List ℕ → Bytes32) (w : World) (msg : Msg)

/-- The key of an answer is that of the document. -/
def Answer.Right (answer : Answer) : Prop := ∃ key, answer.key = some key ∧ answer.keyHash = keccak256 [key]

/-- An indirect response leads to an evaluation. -/
def IndirectReached (request : Request) : Prop :=
  let count := if acceptsNow msg request request.indirectParticipations then
    request.indirectParticipations + 1 else request.indirectParticipations
  (request.minVerifierCount ≤ count ∧ request.requestTime + MAX_LATENCY ≤ msg.timestamp) ∨
    count = request.maxVerifierCount

/-- Some responder has a positive rating, or the last answer has the right key. -/
def WellAnswered (r : ℕ) (key : Bytes32) : Prop :=
  (∃ a ∈ respondersAfter msg (w.st.requests r),
    0 < ratingsAfter keccak256 msg w.st (w.st.requests r) key a) ∨
  ∃ answer, (w.answersAfter msg (.addDirectResponse r key) r).getLast? = some answer ∧
    answer.Right keccak256

/-- The key hash that an answer with the right key was given for is still that of the document. -/
def StillRight (r : ℕ) (key : Bytes32) : Prop :=
  ∀ answer ∈ w.answersAfter msg (.addDirectResponse r key) r, answer.Right keccak256 →
    answer.keyHash = (w.st.documents (w.st.requests r).bundleHash).keyHash

/-- No other request had a token for this addressee at this time. -/
def TokenApart (r : ℕ) (addressee : Address) : Prop :=
  ∀ token ∈ w.tokens, token.requestId ≠ r → token.time = msg.timestamp → token.addressee ≠ addressee

def SoundCall : Call → Prop
  | .addDirectResponse r key => Reached msg (w.st.requests r) →
      WellAnswered keccak256 w msg r key ∧ StillRight keccak256 w msg r key ∧
        TokenApart w msg r (w.st.requests r).requester
  | .addIndirectResponse r => IndirectReached msg (w.st.requests r) →
      TokenApart w msg r (w.st.documents (w.st.requests r).bundleHash).patient
  | .documentAvailable r => TokenApart w msg r (w.st.requests r).requester
  | _ => True

def Sound (tx : Transaction) : Prop := SoundCall keccak256 w tx.msg tx.call

end

/-! ## What holds in every run -/

section

variable {call : Call} {done : State × List Event}

/-- A positive rating is for an answer with the right key, and a direct request asks for two
verifiers at least. -/
structure Earned (keccak256 : List ℕ → Bytes32) (request : Request) (answers : List Answer) : Prop where
  ratings : ∀ a, 0 < request.verifierRatings a →
    ∃ answer ∈ answers, answer.sender = a ∧ answer.Right keccak256
  least : request.direct = true → MIN_Verifier_COUNT ≤ request.minVerifierCount

variable {answers : List Answer} {decision : Option (Address × Bool)}

theorem Earned.step {r : ℕ} (earned : Earned keccak256 (w.st.requests r) (w.answers r))
    (step : RequestStep keccak256 w msg r call request answers decision) :
    Earned keccak256 request answers := by
  have more : ∀ {a answer}, 0 < (w.st.requests r).verifierRatings a →
      ∃ given ∈ w.answers r ++ [answer], given.sender = a ∧ given.Right keccak256 := by
    intro a answer positive
    obtain ⟨given, mem, sender, right⟩ := earned.ratings a positive
    exact ⟨given, mem_append_left _ mem, sender, right⟩
  cases step with
  | same => exact earned
  | decided => exact { earned with }
  | onBehalf bundleHash least most new =>
    subst new
    exact ⟨earned.ratings, fun _ => le_max_right _ _⟩
  | made bundleHash direct keyHash least most new =>
    subst new
    exact ⟨earned.ratings, fun _ => le_max_right _ _⟩
  | answered key opened accepted rating rates evaluated counts =>
    refine ⟨fun a positive => ?_, earned.least⟩
    obtain ⟨-, rating_eq⟩ := verifierRating_eq_ok.mp rates
    by_cases same : a = msg.sender
    · refine ⟨_, mem_append_right _ (mem_singleton_self _), same.symm, key, rfl, ?_⟩
      have positive' : 0 < rating := by
        simpa only [same, update_self] using positive
      rw [← rating_eq, ratingAt] at positive'
      split at positive'
      · rename_i right
        exact of_decide_eq_true right.1
      · cases positive'
    · refine more ?_
      simpa only [update_of_ne same] using positive
  | participated =>
    exact ⟨fun a positive => more positive, earned.least⟩
  | closed => exact { earned with }

variable {Good : World → Transaction → Prop}

theorem earned_of_run (run : Run keccak256 Good w) (r : ℕ) :
    Earned keccak256 (w.st.requests r) (w.answers r) := by
  refine run.invariant (P := fun w => ∀ r, Earned keccak256 (w.st.requests r) (w.answers r))
    (fun _ _ r => ?_) (fun w time earned => earned) (fun w tx done run earned _ _ effect r => ?_) r
  · exact { ratings := fun a positive => absurd positive (lt_irrefl 0), least := nofun }
  · exact (earned r).step (requestStep_of_effect effect r)

/-- A request stays evaluated. -/
theorem evaluated_next {r : ℕ} (tracked : Tracked w)
    (evaluated : (w.st.requests r).verifiersEvaluated = true)
    (step : RequestStep keccak256 w msg r call request answers decision) :
    request.verifiersEvaluated = true := by
  have unmade : r ≠ w.st.requestsCount := by
    intro new
    rw [(tracked.unused r new.ge).pending] at evaluated
    cases evaluated
  cases step with
  | same => exact evaluated
  | decided => exact evaluated
  | onBehalf bundleHash least most new => exact absurd new unmade
  | made bundleHash direct keyHash least most new => exact absurd new unmade
  | answered key opened =>
    exact absurd opened.pending (by simp [evaluated])
  | participated opened =>
    exact absurd opened.pending (by simp [evaluated])
  | closed => rfl

/-- The token of an evaluation, or of `documentAvailable`. -/
theorem token_of_effect (effect : Effect keccak256 msg w.st call done)
    (sound : SoundCall keccak256 w msg call) :
    (w.next msg call done).tokens = w.tokens ∨
      ∃ r addressee verifier, TokenApart w msg r addressee ∧
        (w.next msg call done).tokens = w.tokens ++ [⟨r, addressee, verifier, msg.timestamp,
          keccak256 [addressee, verifier, msg.timestamp]⟩] := by
  cases effect with
  | evaluated r key opened request answer enough best =>
    obtain ⟨-, rfl⟩ := directAnswer_iff.mp answer
    have reached : Reached msg (w.st.requests r) := (evaluates_eq_ok.mp enough).2.mp rfl
    exact .inr ⟨r, _, best.1, (sound reached).2.2, rfl⟩
  | chosen r opened request answer enough verifier first =>
    have reached := (evaluates_eq_ok.mp enough).2.mp rfl
    have bundle : request.bundleHash = (w.st.requests r).bundleHash := by cases answer <;> rfl
    have indirect : IndirectReached msg (w.st.requests r) := by
      unfold IndirectReached
      cases answer with
      | taken accepted =>
        simp only [if_pos accepted]
        exact reached
      | left refused =>
        simp only [refused]
        exact reached
    have apart : TokenApart w msg r (w.st.documents request.bundleHash).patient := by
      rw [bundle]
      exact sound indirect
    exact .inr ⟨r, _, verifier, apart, rfl⟩
  | documentAvailable r =>
    exact .inr ⟨r, _, msg.sender, sound, rfl⟩
  | answered => exact .inl (append_nil _)
  | participated => exact .inl (append_nil _)
  | _ => exact .inl rfl

/-- A token is the digest of its addressee, its verifier and its time; those of different requests
differ in addressee or time. -/
structure TokensApart (keccak256 : List ℕ → Bytes32) (tokens : List Token) : Prop where
  digest : ∀ t ∈ tokens, t.tokenID = keccak256 [t.addressee, t.verifier, t.time]
  apart : ∀ t ∈ tokens, ∀ t' ∈ tokens, t.requestId ≠ t'.requestId → t.time = t'.time →
    t.addressee ≠ t'.addressee

theorem TokensApart.next (tokens : TokensApart keccak256 w.tokens)
    (effect : Effect keccak256 msg w.st call done) (sound : SoundCall keccak256 w msg call) :
    TokensApart keccak256 (w.next msg call done).tokens := by
  rcases token_of_effect effect sound with same | ⟨r, addressee, verifier, apart, more⟩
  · rw [same]
    exact tokens
  rw [more]
  simp only [TokenApart] at apart
  refine ⟨fun t mem => ?_, fun t mem t' mem' other time => ?_⟩
  · rcases mem_append.mp mem with before | new
    · exact tokens.digest t before
    · rw [mem_singleton.mp new]
  rcases mem_append.mp mem with before | new <;>
    rcases mem_append.mp mem' with before' | new'
  · exact tokens.apart t before t' before' other time
  · obtain rfl := mem_singleton.mp new'
    exact apart t before other time
  · obtain rfl := mem_singleton.mp new
    exact (apart t' before' other.symm time.symm).symm
  · obtain rfl := mem_singleton.mp new
    obtain rfl := mem_singleton.mp new'
    exact absurd rfl other

theorem tokensApart_of_run (run : Run keccak256 (Sound keccak256) w) :
    TokensApart keccak256 w.tokens := by
  refine run.invariant (P := fun w => TokensApart keccak256 w.tokens) (fun _ _ => ?_)
    (fun w time tokens => tokens) fun w tx done _ tokens _ sound effect => tokens.next effect sound
  exact ⟨nofun, nofun⟩

/-- The requests that were evaluated, each once. -/
structure Once (w : World) : Prop where
  evaluated : ∀ r ∈ w.evaluations, (w.st.requests r).verifiersEvaluated = true
  distinct : w.evaluations.Nodup

theorem evaluations_of_effect (effect : Effect keccak256 msg w.st call done) :
    (w.next msg call done).evaluations = w.evaluations ∨
      ∃ r, (w.next msg call done).evaluations = w.evaluations ++ [r] ∧
        (w.st.requests r).verifiersEvaluated = false ∧
        ((w.next msg call done).st.requests r).verifiersEvaluated = true := by
  cases effect with
  | evaluated r key opened =>
    refine .inr ⟨r, rfl, opened.pending, ?_⟩
    simp only [World.next, setRequest_self]
  | chosen r opened =>
    refine .inr ⟨r, rfl, opened.pending, ?_⟩
    simp only [World.next, setRequest_self]
  | answered => exact .inl (append_nil _)
  | participated => exact .inl (append_nil _)
  | _ => exact .inl rfl

theorem once_of_run (run : Run keccak256 Good w) : Once w := by
  refine run.invariant (fun _ _ => ⟨nofun, nodup_nil⟩) (fun w time once => ⟨once.1, once.2⟩)
    fun w tx done run once _ _ effect => ?_
  have stays : ∀ r ∈ w.evaluations,
      ((w.next tx.msg tx.call done).st.requests r).verifiersEvaluated = true := fun r mem =>
    evaluated_next (tracked run) (once.evaluated r mem) (requestStep_of_effect effect r)
  rcases evaluations_of_effect effect with same | ⟨r, more, pending, evaluated⟩
  · exact ⟨same ▸ stays, same ▸ once.distinct⟩
  refine ⟨?_, ?_⟩
  · rw [more]
    intro r' mem
    rcases mem_append.mp mem with before | new
    · exact stays r' before
    · rw [mem_singleton.mp new]
      exact evaluated
  · rw [more]
    refine List.Nodup.append once.distinct (nodup_singleton r) (disjoint_singleton.mpr ?_)
    intro before
    rw [once.evaluated r before] at pending
    cases pending

end

/-! ## The chosen verifier -/

section

variable {r : ℕ} {key : Bytes32}

theorem respondersAfter_ne_nil (least : MIN_Verifier_COUNT ≤ (w.st.requests r).minVerifierCount) :
    respondersAfter msg (w.st.requests r) ≠ [] := by
  unfold respondersAfter
  split
  · simp
  · rename_i refused
    intro empty
    refine refused ?_
    rw [empty, length_nil, acceptsNow, accepts, Bool.or_eq_true, decide_eq_true_eq]
    exact .inl (lt_of_lt_of_le (by decide) least)

variable {best : Address × ℕ}
  (chosen : bestVerifier w.st request request.verifierAddresses (0, 0) = .ok best)

include chosen

/-- The responder that is chosen has the greatest score. -/
theorem chosen_best (nonempty : request.verifierAddresses ≠ []) :
    best.1 ∈ request.verifierAddresses ∧ scoreOf w.st request best.1 = best.2 ∧
      ∀ a ∈ request.verifierAddresses, scoreOf w.st request a ≤ best.2 := by
  obtain ⟨-, greatest, ⟨mem, score⟩ | ⟨-, below⟩⟩ := bestVerifier_spec chosen
  · exact ⟨mem, score, greatest⟩
  · obtain ⟨a, mem⟩ := exists_mem_of_ne_nil _ nonempty
    exact absurd (below a mem) (Nat.not_lt_zero _)

/-- Its key is right. -/
theorem chosen_right {answers : List Answer}
    (nonempty : request.verifierAddresses ≠ []) (earned : Earned keccak256 request answers)
    (recorded : request.verifierAddresses = answers.map Answer.sender)
    (well : (∃ a ∈ request.verifierAddresses, 0 < request.verifierRatings a) ∨
      ∃ answer, answers.getLast? = some answer ∧ answer.Right keccak256) :
    ∃ answer ∈ answers, answer.sender = best.1 ∧ answer.Right keccak256 := by
  obtain ⟨mem, score, greatest⟩ := chosen_best chosen nonempty
  by_cases positive : 0 < best.2
  · refine earned.ratings best.1 ?_
    rw [← score] at positive
    exact Nat.pos_of_mul_pos_right positive
  have zero : ∀ a ∈ request.verifierAddresses, scoreOf w.st request a = 0 := by
    intro a a_mem
    have := greatest a a_mem
    omega
  rcases well with ⟨a, a_mem, rating⟩ | ⟨answer, last, right⟩
  · have none := zero a a_mem
    have : 0 < scoreOf w.st request a := Nat.mul_pos rating (by positivity)
    omega
  · refine ⟨answer, mem_of_getLast? last, ?_, right⟩
    rw [bestVerifier_zero chosen rfl zero, recorded, getLastD_eq_getLast?, getLast?_map, last]
    rfl

end

/-- The verifier of a token for a direct request has responded with the key of the document and has
the greatest score; each request is evaluated once; and the tokens of different requests differ. -/
theorem winner_right (keccak256 : List ℕ → Bytes32) (injective : Injective keccak256)
    (w : World) (run : Run keccak256 (Sound keccak256) w) (tx : Transaction)
    (sound : Sound keccak256 w tx) :
    (∀ r key done, tx.call = .addDirectResponse r key →
      tx.call.exec keccak256 tx.msg w.st = .ok done → (done.1.requests r).verifiersEvaluated = true →
      ∃ winner, done.2 = tokenEvents keccak256 tx.msg (w.st.requests r).requester winner ∧
        winner ∈ (done.1.requests r).verifierAddresses ∧
        (∃ answer ∈ (w.next tx.msg tx.call done).answers r, answer.sender = winner ∧
          ∃ given, answer.key = some given ∧
            (w.st.documents (w.st.requests r).bundleHash).keyHash = keccak256 [given]) ∧
        ∀ a ∈ (done.1.requests r).verifierAddresses,
          scoreOf w.st (done.1.requests r) a ≤ scoreOf w.st (done.1.requests r) winner) ∧
    w.evaluations.Nodup ∧
    (∀ t ∈ w.tokens, ∀ t' ∈ w.tokens, t.requestId ≠ t'.requestId → t.tokenID ≠ t'.tokenID) := by
  refine ⟨fun r key done call ok evaluated => ?_, (once_of_run run).distinct,
    fun t mem t' mem' other same => ?_⟩
  · have effect := effect_of_exec ok
    have earned := (earned_of_run run r).step (requestStep_of_effect effect r)
    have recorded := ((tracked run).next effect).recorded r
    rw [Sound, call] at sound
    rw [call] at effect earned recorded ⊢
    cases effect with
    | answered _ _ opened request answer early =>
      simp only [setRequest_self, directAnswer_evaluated answer, opened.pending] at evaluated
      cases evaluated
    | evaluated _ _ opened request answer enough best chosen =>
      obtain ⟨-, rfl⟩ := directAnswer_iff.mp answer
      have reached : Reached tx.msg (w.st.requests r) := (evaluates_eq_ok.mp enough).2.mp rfl
      have nonempty : respondersAfter tx.msg (w.st.requests r) ≠ [] :=
        respondersAfter_ne_nil ((earned_of_run run r).least opened.kind)
      obtain ⟨mem, score, greatest⟩ := chosen_best chosen nonempty
      simp only [World.next, setRequest_self] at earned recorded ⊢
      refine ⟨best.1, rfl, mem, ?_, fun a a_mem => (greatest a a_mem).trans score.ge⟩
      obtain ⟨well, still, -⟩ := sound reached
      obtain ⟨answer, answer_mem, sender, right⟩ := chosen_right chosen nonempty
        ⟨earned.ratings, earned.least⟩ (recorded.direct opened.kind) well
      obtain ⟨given, key_eq, hash_eq⟩ := right
      refine ⟨answer, answer_mem, sender, given, key_eq, ?_⟩
      rw [← still answer answer_mem ⟨given, key_eq, hash_eq⟩, hash_eq]
  · have tokens := tokensApart_of_run run
    rw [tokens.digest t mem, tokens.digest t' mem'] at same
    have words := injective same
    simp only [List.cons.injEq] at words
    exact tokens.apart t mem t' mem' other words.2.2.1 words.1

namespace TwoVerifiers

/-- A digest that tells all lists apart. -/
def digest (words : List ℕ) : Bytes32 := Encodable.encode words

theorem digest_injective : Injective digest := Encodable.encode_injective

/-- The patient's document has the key 4. -/
def opening : List Transaction :=
  [send 0 0 (.registerPatient 2), send 0 0 (.registerVerifier 3), send 0 0 (.registerVerifier 4),
    send 1 0 (.submitDocument 9 (digest [4])), send 1 0 (.requestOnBehalf 9 2 2)]

def opened : World := World.steps digest (.deployed 1 0) opening

def answer (account requestId : ℕ) (key : Bytes32) : Transaction :=
  send account 0 (.addDirectResponse requestId key)

/-- The first verifier has answered. -/
def halfway (key : Bytes32) : World := opened.step digest (answer 2 0 key)

/-- Both have answered with a wrong key, also a second request. -/
def twoRequests : World :=
  (halfway 8).steps digest [answer 3 0 8, send 1 0 (.requestOnBehalf 9 2 2), answer 2 1 8, answer 3 1 8]

theorem run_halfway : Run digest (Sound digest) (halfway 4) := by
  have start : Run digest (Sound digest) opened := by
    refine (Run.deployed 1 0).steps ⟨?_, trivial, ?_, trivial, ?_, trivial, ?_, trivial, ?_,
      trivial, trivial⟩ <;>
      decide +kernel
  refine start.step (answer 2 0 4) (by decide +kernel) fun reached => absurd reached ?_
  unfold Reached
  decide +kernel

theorem sound_second : Sound digest (halfway 4) (answer 3 0 4) := by
  have present : ∀ answer ∈ (halfway 4).answersAfter ⟨4, 0⟩ (.addDirectResponse 0 4) 0,
      answer.keyHash = ((halfway 4).st.documents ((halfway 4).st.requests 0).bundleHash).keyHash := by
    decide +kernel
  refine fun _ => ⟨.inl ⟨3, by decide +kernel, by decide +kernel⟩, fun answer mem _ => present answer mem, ?_⟩
  unfold TokenApart
  decide +kernel

theorem winner_right_second :
    (Injective digest ∧ Run digest (Sound digest) (halfway 4) ∧
      Sound digest (halfway 4) (answer 3 0 4)) ∧
    ∃ done winner, (answer 3 0 4).call.exec digest (answer 3 0 4).msg (halfway 4).st = .ok done ∧
      (done.1.requests 0).verifiersEvaluated = true ∧
      done.2 = tokenEvents digest (answer 3 0 4).msg ((halfway 4).st.requests 0).requester winner ∧
      winner ∈ (done.1.requests 0).verifierAddresses := by
  refine ⟨⟨digest_injective, run_halfway, sound_second⟩, ?_⟩
  have returns : ((answer 3 0 4).call.exec digest (answer 3 0 4).msg (halfway 4).st).isOk = true := by
    decide +kernel
  obtain ⟨done, ok⟩ := exists_of_isOk returns
  have evaluated : (done.1.requests 0).verifiersEvaluated = true := by
    have flag : ((answer 3 0 4).call.exec digest (answer 3 0 4).msg (halfway 4).st).toOption.map
        (fun done => (done.1.requests 0).verifiersEvaluated) = some true := by decide +kernel
    rw [ok] at flag
    exact Option.some.inj flag
  obtain ⟨winner, events, responder, -⟩ := (winner_right digest digest_injective (halfway 4) run_halfway
    (answer 3 0 4) sound_second).1 0 4 done rfl ok evaluated
  exact ⟨done, winner, ok, evaluated, events, responder⟩

/-- The first verifier has given the key of the document, which its owner then submits anew. -/
def resubmitted : World := (halfway 4).step digest (send 1 0 (.submitDocument 9 (digest [7])))

/-- The verifier that is chosen for the first request gave a wrong key; the tokens of the two requests
are the same; and the verifier that is chosen for the document submitted anew gave the old key. -/
theorem winner_wrong :
    Injective digest ∧ Run digest (fun _ _ => True) (halfway 8) ∧
      rightKey digest (halfway 8).st ((halfway 8).st.requests 0) 8 = false ∧
      (((answer 3 0 8).call.exec digest (answer 3 0 8).msg (halfway 8).st).toOption.map Prod.snd) =
        some (tokenEvents digest ⟨4, 0⟩ 2 4) ∧
      Run digest (fun _ _ => True) twoRequests ∧ twoRequests.evaluations = [0, 1] ∧
      twoRequests.tokens.map Token.tokenID = [digest [2, 4, 0], digest [2, 4, 0]] ∧
      Run digest (fun _ _ => True) resubmitted ∧
      rightKey digest resubmitted.st (resubmitted.st.requests 0) 4 = false ∧
      (((answer 3 0 8).call.exec digest (answer 3 0 8).msg resubmitted.st).toOption.map Prod.snd) =
        some (tokenEvents digest ⟨4, 0⟩ 2 3) := by
  have start : Run digest (fun _ _ => True) opened := (Run.deployed 1 0).steps (by decide +kernel)
  have wrong : Run digest (fun _ _ => True) (halfway 8) :=
    start.step (answer 2 0 8) (by decide +kernel) trivial
  have right : Run digest (fun _ _ => True) (halfway 4) :=
    start.step (answer 2 0 4) (by decide +kernel) trivial
  refine ⟨digest_injective, wrong, ?_, ?_, wrong.steps ?_, ?_, ?_, right.step _ ?_ trivial, ?_, ?_⟩ <;>
    decide +kernel

end TwoVerifiers

end ThresholdDsa.Hospital
