/-
# Transactions on the contract

`Effect` says what a call that does not revert has done, one case for each end of a
function (`effect_of_exec`).  A `World` is the state of the contract with what a whole
history has and the contract does not keep: who answered a request, the last decision
of a patient on it, who first submitted a document, and the tokens that were logged.
`Run` is any sequence of transactions at times that do not go back, each of which may
be asked to meet a condition; `Run.invariant` is the rule for what holds in all of them.
-/
import ThresholdDsa.Hospital.Contract

namespace ThresholdDsa.Hospital

open Outcome Checked Function

inductive Call where
  | registerPatient (patient : Address)
  | registerDoctor (doctor : Address)
  | registerVerifier (verifier : Address)
  | submitDocument (bundleHash keyHash : Bytes32)
  | respondRequest (requestId : ℕ) (grant : Bool) (key : ℕ)
  | requestOnBehalf (bundleHash : Bytes32) (minVerifierCount maxVerifierCount : ℕ)
  | requestDocument (bundleHash : Bytes32) (direct : Bool) (keyHash : Bytes32)
      (minVerifierCount maxVerifierCount : ℕ)
  | addDirectResponse (requestId : ℕ) (key : Bytes32)
  | addIndirectResponse (requestId : ℕ)
  | documentAvailable (requestId : ℕ)

/-! ## What a call does -/

section

variable (keccak256 : List ℕ → Bytes32) (msg : Msg) (st : State)

def Call.exec : Call → Exec
  | .registerPatient patient => Hospital.registerPatient msg st patient
  | .registerDoctor doctor => Hospital.registerDoctor msg st doctor
  | .registerVerifier verifier => Hospital.registerVerifier msg st verifier
  | .submitDocument bundleHash keyHash => Hospital.submitDocument msg st bundleHash keyHash
  | .respondRequest requestId grant key =>
    Hospital.respondRequest keccak256 msg st requestId grant key
  | .requestOnBehalf bundleHash least most => Hospital.requestOnBehalf msg st bundleHash least most
  | .requestDocument bundleHash direct keyHash least most =>
    Hospital.requestDocument msg st bundleHash direct keyHash least most
  | .addDirectResponse requestId key => Hospital.addDirectResponse keccak256 msg st requestId key
  | .addIndirectResponse requestId => Hospital.addIndirectResponse keccak256 msg st requestId
  | .documentAvailable requestId => Hospital.documentAvailable keccak256 msg st requestId

/-- A response goes past the checks. -/
structure Opened (request : Request) (direct : Bool) : Prop where
  registered : (st.verifiers msg.sender).registered = true
  granted : request.granted = true
  kind : request.direct = direct
  pending : request.verifiersEvaluated = false
  elapsed : request.requestTime ≤ msg.timestamp

def elapsedOf (request : Request) : ℕ := msg.timestamp - request.requestTime

/-- Whether a response would be accepted now, after `count` others. -/
def acceptsNow (request : Request) (count : ℕ) : Bool :=
  accepts request count (elapsedOf msg request % 2 ^ 16)

def rightKey (request : Request) (key : Bytes32) : Bool :=
  (st.documents request.bundleHash).keyHash = keccak256 [key]

/-- The request after a direct response. -/
inductive DirectAnswer (request : Request) (key : Bytes32) : Request → Prop
  | taken (accepted : acceptsNow msg request request.verifierAddresses.length = true) (rating : ℕ)
      (rates : verifierRating (if rightKey keccak256 st request key then 1 else 0)
        (elapsedOf msg request % 2 ^ 16) = .ok rating) :
      DirectAnswer request key { request with
        verifierAddresses := request.verifierAddresses ++ [msg.sender]
        verifierRatings := update request.verifierRatings msg.sender rating }
  | left (refused : acceptsNow msg request request.verifierAddresses.length = false) :
      DirectAnswer request key request

/-- The request after an indirect response. -/
inductive IndirectAnswer (request : Request) : Request → Prop
  | taken (accepted : acceptsNow msg request request.indirectParticipations = true)
      (addresses : List Address)
      (chooses : betterVerifier msg st request.verifierAddresses = .ok addresses) :
      IndirectAnswer request { request with
        verifierAddresses := addresses
        indirectParticipations := request.indirectParticipations + 1 }
  | left (refused : acceptsNow msg request request.indirectParticipations = false) :
      IndirectAnswer request request

/-- A call with the state and the events that it leaves. -/
inductive Effect : Call → State × List Event → Prop
  | registerPatient (patient : Address) (hospital : msg.sender = st.hospital) :
      Effect (.registerPatient patient)
        ({ st with patients := update st.patients patient true }, [])
  | registerDoctor (doctor : Address) (hospital : msg.sender = st.hospital) :
      Effect (.registerDoctor doctor)
        ({ st with doctors := update st.doctors doctor true }, [])
  | registerVerifier (verifier : Address) (hospital : msg.sender = st.hospital) :
      Effect (.registerVerifier verifier)
        ({ st with verifiers := update st.verifiers verifier ⟨true, 0, 0⟩ }, [])
  | submitDocument (bundleHash keyHash : Bytes32) (patient : st.patients msg.sender = true) :
      Effect (.submitDocument bundleHash keyHash)
        ({ st with documents := update st.documents bundleHash ⟨true, msg.sender, keyHash⟩ }, [])
  | respondRequest (requestId : ℕ) (grant : Bool) (key : ℕ) (patient : st.patients msg.sender = true)
      (owned : (st.requests requestId).direct = true →
        (st.documents (st.requests requestId).bundleHash).existing = true ∧
        (st.documents (st.requests requestId).bundleHash).patient = msg.sender)
      (keyed : (st.requests requestId).direct = false →
        (st.requests requestId).keyHash = keccak256 [key]) :
      Effect (.respondRequest requestId grant key)
        (st.setRequest requestId { st.requests requestId with granted := grant },
          .respondedRequest requestId :: if grant then [.grantedRequest requestId] else [])
  | requestOnBehalf (bundleHash : Bytes32) (least most : ℕ) (patient : st.patients msg.sender = true)
      (owned : (st.documents bundleHash).patient = msg.sender) (ordered : least ≤ most) :
      Effect (.requestOnBehalf bundleHash least most)
        ({ st.setRequest st.requestsCount (newRequest msg st bundleHash true 0 least most true) with
            requestsCount := st.requestsCount + 1 }, [.selfRequest st.requestsCount])
  | requestDocument (bundleHash : Bytes32) (direct : Bool) (keyHash : Bytes32) (least most : ℕ)
      (doctor : st.doctors msg.sender = true) (ordered : least ≤ most) :
      Effect (.requestDocument bundleHash direct keyHash least most)
        ({ st.setRequest st.requestsCount
              (newRequest msg st bundleHash direct keyHash least most false) with
            requestsCount := st.requestsCount + 1 }, [.requestedDocument st.requestsCount keyHash])
  | answered (requestId : ℕ) (key : Bytes32) (opened : Opened msg st (st.requests requestId) true)
      (request : Request) (answer : DirectAnswer keccak256 msg st (st.requests requestId) key request)
      (early : evaluates msg request request.verifierAddresses.length = .ok false) :
      Effect (.addDirectResponse requestId key) (st.setRequest requestId request, [])
  | evaluated (requestId : ℕ) (key : Bytes32) (opened : Opened msg st (st.requests requestId) true)
      (request : Request) (answer : DirectAnswer keccak256 msg st (st.requests requestId) key request)
      (enough : evaluates msg request request.verifierAddresses.length = .ok true)
      (best : Address × ℕ)
      (chosen : bestVerifier st request request.verifierAddresses (0, 0) = .ok best)
      (verifiers : Address → Verifier)
      (rated : rateVerifiers request request.verifierAddresses 0 st.verifiers = .ok verifiers) :
      Effect (.addDirectResponse requestId key)
        ({ st.setRequest requestId { request with verifiersEvaluated := true } with verifiers },
          tokenEvents keccak256 msg request.requester best.1)
  | participated (requestId : ℕ) (opened : Opened msg st (st.requests requestId) false)
      (request : Request) (answer : IndirectAnswer msg st (st.requests requestId) request)
      (early : evaluates msg request request.indirectParticipations = .ok false) :
      Effect (.addIndirectResponse requestId) (st.setRequest requestId request, [])
  | chosen (requestId : ℕ) (opened : Opened msg st (st.requests requestId) false)
      (request : Request) (answer : IndirectAnswer msg st (st.requests requestId) request)
      (enough : evaluates msg request request.indirectParticipations = .ok true)
      (verifier : Address) (first : request.verifierAddresses.head? = some verifier) :
      Effect (.addIndirectResponse requestId)
        (st.setRequest requestId { request with verifiersEvaluated := true },
          tokenEvents keccak256 msg (st.documents request.bundleHash).patient verifier)
  | documentAvailable (requestId : ℕ) (registered : (st.verifiers msg.sender).registered = true)
      (granted : (st.requests requestId).granted = true)
      (kind : (st.requests requestId).direct = false)
      (evaluated : (st.requests requestId).verifiersEvaluated = true)
      (first : (st.requests requestId).verifierAddresses.head? = some msg.sender) :
      Effect (.documentAvailable requestId)
        (st, tokenEvents keccak256 msg (st.requests requestId).requester msg.sender)

variable {keccak256 msg st} {request : Request}

theorem openRequest_eq_ok {direct : Bool} {latency : ℕ} :
    openRequest msg st request direct = .ok () ∧ latencyOf msg request = .ok latency ↔
      Opened msg st request direct ∧ latency = elapsedOf msg request % 2 ^ 16 := by
  simp only [openRequest, onlyVerifier, latencyOf, eq_ok, exists_const, decide_eq_true_eq,
    Bool.not_eq_true', sub_eq_ok]
  constructor
  · rintro ⟨⟨registered, granted, kind, pending⟩, elapsed, ⟨after, rfl⟩, rfl⟩
    exact ⟨⟨registered, granted, kind, pending, after⟩, rfl⟩
  · rintro ⟨opened, rfl⟩
    exact ⟨⟨opened.registered, opened.granted, opened.kind, opened.pending⟩, _,
      ⟨opened.elapsed, rfl⟩, rfl⟩

variable {after : Request}

theorem addResponse_eq_ok {key : Bytes32} :
    addResponse keccak256 msg st request key (elapsedOf msg request % 2 ^ 16) = .ok after ↔
      DirectAnswer keccak256 msg st request key after := by
  have hash : (if (st.documents request.bundleHash).keyHash = keccak256 [key] then 1 else 0) =
      if rightKey keccak256 st request key then 1 else 0 := by
    simp [rightKey]
  unfold addResponse
  constructor
  · intro runs
    split at runs
    · rename_i accepted
      simp only [eq_ok] at runs
      obtain ⟨rating, rates, rfl⟩ := runs
      exact .taken accepted rating (hash ▸ rates)
    · rename_i refused
      cases runs
      exact .left (Bool.eq_false_iff.mpr refused)
  · intro answer
    cases answer with
    | taken accepted rating rates =>
      unfold acceptsNow at accepted
      simp only [if_pos accepted, eq_ok]
      exact ⟨rating, hash ▸ rates, rfl⟩
    | left refused => exact if_neg (Bool.eq_false_iff.mp refused)

variable {done : State × List Event}

/-- A direct response that does not revert. -/
theorem addDirectResponse_eq_ok {requestId : ℕ} {key : Bytes32} :
    addDirectResponse keccak256 msg st requestId key = .ok done ↔
      Opened msg st (st.requests requestId) true ∧
      ∃ request, DirectAnswer keccak256 msg st (st.requests requestId) key request ∧
        ((evaluates msg request request.verifierAddresses.length = .ok false ∧
          (st.setRequest requestId request, []) = done) ∨
        (evaluates msg request request.verifierAddresses.length = .ok true ∧
          evaluate keccak256 msg st requestId request = .ok done)) := by
  simp only [addDirectResponse, bind_eq_ok]
  constructor
  · rintro ⟨⟨⟩, opens, latency, late, request, answers, enough, counts, ends⟩
    obtain ⟨opened, rfl⟩ := openRequest_eq_ok.mp ⟨opens, late⟩
    refine ⟨opened, request, addResponse_eq_ok.mp answers, ?_⟩
    cases enough with
    | false => exact .inl ⟨counts, Except.ok.inj ends⟩
    | true => exact .inr ⟨counts, ends⟩
  · rintro ⟨opened, request, answer, ends⟩
    obtain ⟨opens, late⟩ := openRequest_eq_ok.mpr ⟨opened, rfl⟩
    refine ⟨(), opens, _, late, request, addResponse_eq_ok.mpr answer, ?_⟩
    rcases ends with ⟨counts, rfl⟩ | ⟨counts, ends⟩
    · exact ⟨false, counts, rfl⟩
    · exact ⟨true, counts, ends⟩

theorem indirectAnswer_of_addParticipation
    (runs : addParticipation msg st request (elapsedOf msg request % 2 ^ 16) = .ok after) :
    IndirectAnswer msg st request after := by
  unfold addParticipation at runs
  split at runs
  · rename_i accepted
    simp only [eq_ok, checked_eq_ok] at runs
    obtain ⟨addresses, chooses, count, ⟨-, rfl⟩, rfl⟩ := runs
    exact .taken accepted addresses chooses
  · rename_i refused
    cases runs
    exact .left (Bool.eq_false_iff.mpr refused)

theorem effect_of_exec {call : Call}
    (ok : call.exec keccak256 msg st = .ok done) : Effect keccak256 msg st call done := by
  cases call with
  | registerPatient patient =>
    simp only [Call.exec, registerPatient, onlyHospital, eq_ok, exists_const, decide_eq_true_eq] at ok
    obtain ⟨hospital, rfl⟩ := ok
    exact .registerPatient patient hospital
  | registerDoctor doctor =>
    simp only [Call.exec, registerDoctor, onlyHospital, eq_ok, exists_const, decide_eq_true_eq] at ok
    obtain ⟨hospital, rfl⟩ := ok
    exact .registerDoctor doctor hospital
  | registerVerifier verifier =>
    simp only [Call.exec, registerVerifier, onlyHospital, eq_ok, exists_const, decide_eq_true_eq] at ok
    obtain ⟨hospital, rfl⟩ := ok
    exact .registerVerifier verifier hospital
  | submitDocument bundleHash keyHash =>
    simp only [Call.exec, submitDocument, onlyPatient, eq_ok, exists_const] at ok
    obtain ⟨patient, rfl⟩ := ok
    exact .submitDocument bundleHash keyHash patient
  | respondRequest requestId grant key =>
    simp only [Call.exec, respondRequest, onlyPatient, eq_ok, exists_const, Bool.or_eq_true,
      Bool.not_eq_true', decide_eq_true_eq] at ok
    obtain ⟨patient, existing, owned, keyed, rfl⟩ := ok
    refine .respondRequest requestId grant key patient (fun direct => ⟨?_, ?_⟩) fun indirect => ?_
    · exact existing.resolve_left (by simp [direct])
    · exact owned.resolve_left (by simp [direct])
    · exact keyed.resolve_left (by simp [indirect])
  | requestOnBehalf bundleHash least most =>
    simp only [Call.exec, requestOnBehalf, storeRequest, onlyPatient, eq_ok, exists_const,
      decide_eq_true_eq, checked_eq_ok] at ok
    obtain ⟨patient, owned, ordered, count, ⟨-, rfl⟩, rfl⟩ := ok
    exact .requestOnBehalf bundleHash least most patient owned ordered
  | requestDocument bundleHash direct keyHash least most =>
    simp only [Call.exec, requestDocument, storeRequest, onlyDoctor, eq_ok, exists_const,
      decide_eq_true_eq, checked_eq_ok] at ok
    obtain ⟨doctor, ordered, count, ⟨-, rfl⟩, rfl⟩ := ok
    exact .requestDocument bundleHash direct keyHash least most doctor ordered
  | addDirectResponse requestId key =>
    obtain ⟨opened, request, answer, ends⟩ := addDirectResponse_eq_ok.mp ok
    rcases ends with ⟨early, rfl⟩ | ⟨enough, evaluated⟩
    · exact .answered requestId key opened request answer early
    · simp only [evaluate, eq_ok] at evaluated
      obtain ⟨best, chosen, verifiers, rated, rfl⟩ := evaluated
      exact .evaluated requestId key opened request answer enough best chosen verifiers rated
  | addIndirectResponse requestId =>
    simp only [Call.exec, addIndirectResponse, bind_eq_ok] at ok
    obtain ⟨⟨⟩, opens, latency, late, request, answers, enough, counts, ends⟩ := ok
    obtain ⟨opened, rfl⟩ := openRequest_eq_ok.mp ⟨opens, late⟩
    have answer := indirectAnswer_of_addParticipation answers
    cases enough with
    | false =>
      cases ends
      exact .participated requestId opened request answer counts
    | true =>
      simp only [if_true, eq_ok] at ends
      obtain ⟨verifier, first, rfl⟩ := ends
      exact .chosen requestId opened request answer counts verifier first
  | documentAvailable requestId =>
    simp only [Call.exec, documentAvailable, onlyVerifier, eq_ok, exists_const, decide_eq_true_eq,
      Bool.not_eq_true'] at ok
    obtain ⟨registered, granted, kind, evaluated, chosen, first, rfl, rfl⟩ := ok
    exact .documentAvailable requestId registered granted kind evaluated first

end

/-! ## Histories -/

/-- A response that was accepted; a direct one with its key and the key hash of the document then. -/
structure Answer where
  sender : Address
  key : Option Bytes32
  keyHash : Bytes32

structure Token where
  requestId : ℕ
  (addressee verifier : Address)
  time : ℕ
  tokenID : Bytes32

/-- Nobody can sign for address 0. -/
structure Transaction where
  msg : Msg
  call : Call
  signed : msg.sender ≠ 0

/-- The contract and its history: the answers to a request, the last decision on it, who first
submitted a document, the tokens, and the requests that were evaluated. -/
structure World where
  st : State
  now : ℕ
  answers : ℕ → List Answer
  decisions : ℕ → Option (Address × Bool)
  owners : Bytes32 → Option Address
  tokens : List Token
  evaluations : List ℕ

def World.deployed (deployer : Address) (time : ℕ) : World where
  st := .deployed deployer
  now := time
  answers _ := []
  decisions _ := none
  owners _ := none
  tokens := []
  evaluations := []

def tokensOf (requestId time : ℕ) : List Event → List Token
  | [.tokenRequester tokenID verifier, .tokenVerifier _ addressee] =>
    [⟨requestId, addressee, verifier, time, tokenID⟩]
  | _ => []

section

variable (w : World) (msg : Msg)

def World.addAnswer (requestId : ℕ) (count : ℕ) (key : Option Bytes32) : ℕ → List Answer :=
  let request := w.st.requests requestId
  if acceptsNow msg request count then
    update w.answers requestId
      (w.answers requestId ++ [⟨msg.sender, key, (w.st.documents request.bundleHash).keyHash⟩])
  else w.answers

def World.answersAfter : Call → ℕ → List Answer
  | .addDirectResponse requestId key =>
    w.addAnswer msg requestId (w.st.requests requestId).verifierAddresses.length (some key)
  | .addIndirectResponse requestId =>
    w.addAnswer msg requestId (w.st.requests requestId).indirectParticipations none
  | _ => w.answers

def World.decisionsAfter : Call → ℕ → Option (Address × Bool)
  | .respondRequest requestId grant _ =>
    update w.decisions requestId (some (msg.sender, grant))
  | .requestOnBehalf _ _ _ => update w.decisions w.st.requestsCount (some (msg.sender, true))
  | .requestDocument _ _ _ _ _ => update w.decisions w.st.requestsCount none
  | _ => w.decisions

def World.ownersAfter : Call → Bytes32 → Option Address
  | .submitDocument bundleHash _ =>
    update w.owners bundleHash (some ((w.owners bundleHash).getD msg.sender))
  | _ => w.owners

def World.tokensAfter (events : List Event) : Call → List Token
  | .addDirectResponse requestId _ => w.tokens ++ tokensOf requestId msg.timestamp events
  | .addIndirectResponse requestId => w.tokens ++ tokensOf requestId msg.timestamp events
  | .documentAvailable requestId => w.tokens ++ tokensOf requestId msg.timestamp events
  | _ => w.tokens

def World.evaluationsAfter (events : List Event) : Call → List ℕ
  | .addDirectResponse requestId _ =>
    w.evaluations ++ (tokensOf requestId msg.timestamp events).map Token.requestId
  | .addIndirectResponse requestId =>
    w.evaluations ++ (tokensOf requestId msg.timestamp events).map Token.requestId
  | _ => w.evaluations

/-- After a call that did not revert. -/
def World.next (call : Call) (done : State × List Event) : World where
  st := done.1
  now := msg.timestamp
  answers := w.answersAfter msg call
  decisions := w.decisionsAfter msg call
  owners := w.ownersAfter msg call
  tokens := w.tokensAfter msg done.2 call
  evaluations := w.evaluationsAfter msg done.2 call

end

section

variable (keccak256 : List ℕ → Bytes32)

def World.step (w : World) (tx : Transaction) : World :=
  match tx.call.exec keccak256 tx.msg w.st with
  | .ok done => w.next tx.msg tx.call done
  | .error _ => { w with now := tx.msg.timestamp }

def World.steps (w : World) (txs : List Transaction) : World := txs.foldl (World.step keccak256) w

/-- The worlds reached by transactions that meet `Good` before they run. -/
inductive Run (Good : World → Transaction → Prop) : World → Prop
  | deployed (deployer : Address) (time : ℕ) : Run Good (.deployed deployer time)
  | step {w : World} (run : Run Good w) (tx : Transaction) (later : w.now ≤ tx.msg.timestamp)
      (good : Good w tx) : Run Good (w.step keccak256 tx)

variable {keccak256}

theorem step_cases (w : World) (tx : Transaction) :
    w.step keccak256 tx = { w with now := tx.msg.timestamp } ∨
      ∃ done, Effect keccak256 tx.msg w.st tx.call done ∧
        w.step keccak256 tx = w.next tx.msg tx.call done := by
  unfold World.step
  split
  · rename_i done ok
    exact .inr ⟨done, effect_of_exec ok, rfl⟩
  · exact .inl rfl

variable {Good : World → Transaction → Prop}

/-- What holds at the start, does not depend on the time, and is kept by every call that does not
revert, holds in every run. -/
theorem Run.invariant {P : World → Prop} (start : ∀ deployer time, P (.deployed deployer time))
    (pass : ∀ w time, P w → P { w with now := time })
    (keeps : ∀ w tx done, Run keccak256 Good w → P w → w.now ≤ tx.msg.timestamp → Good w tx →
      Effect keccak256 tx.msg w.st tx.call done → P (w.next tx.msg tx.call done))
    {w : World} (run : Run keccak256 Good w) : P w := by
  induction run with
  | deployed deployer time => exact start deployer time
  | @step w run tx later good ih =>
    rcases step_cases w tx with reverted | ⟨done, effect, stepped⟩
    · rw [reverted]
      exact pass w _ ih
    · rw [stepped]
      exact keeps w tx done run ih later good effect

/-- Each of the transactions meets `Good` in its turn. -/
def Passes (keccak256 : List ℕ → Bytes32) (Good : World → Transaction → Prop) :
    World → List Transaction → Prop
  | _, [] => True
  | w, tx :: rest =>
    w.now ≤ tx.msg.timestamp ∧ Good w tx ∧ Passes keccak256 Good (w.step keccak256 tx) rest

theorem Run.steps {w : World} (run : Run keccak256 Good w)
    {txs : List Transaction} (passes : Passes keccak256 Good w txs) :
    Run keccak256 Good (w.steps keccak256 txs) := by
  induction txs generalizing w with
  | nil => exact run
  | cons tx rest ih =>
    obtain ⟨later, good, passes⟩ := passes
    exact ih (run.step tx later good) passes

instance decidablePasses {Good : World → Transaction → Prop} [∀ w tx, Decidable (Good w tx)]
    (w : World) : (txs : List Transaction) → Decidable (Passes keccak256 Good w txs)
  | [] => isTrue trivial
  | tx :: rest =>
    @instDecidableAnd _ _ inferInstance
      (@instDecidableAnd _ _ inferInstance (decidablePasses (w.step keccak256 tx) rest))

end

/-- A transaction of an account, whose address is one more than its number. -/
def send (account time : ℕ) (call : Call) : Transaction := ⟨⟨account + 1, time⟩, call, account.succ_ne_zero⟩

end ThresholdDsa.Hospital
