/-
# The contract of a hospital

`HospitalA` keeps the documents of patients, requests for them, and the verifiers
who answer a request.  A request is direct (the verifiers give the key of the
document and are rated by how soon they answer) or indirect (the verifier with the
best record is chosen).  When enough verifiers have answered, the request is
evaluated: one verifier is chosen, and a token is logged for them and the requester.

The functions as `solc` 0.8 runs them: an operation on unsigned numbers whose result
does not fit reverts, and so does a failed `require`.  Hashes, addresses and numbers
are natural numbers; `abi.encode` is the list of its words.  The flag `exists` of a
record is `existing`.
-/
import ThresholdDsa.Lib.Checked

namespace ThresholdDsa.Hospital

open Outcome Checked Function

abbrev Address := ℕ
abbrev Bytes32 := ℕ

/-! ## Shared -/

def MIN_Verifier_COUNT : ℕ := 2
def MAX_Verifier_COUNT : ℕ := 20
def MAP_IN_S : ℕ := 1
def MAP_IN_E : ℕ := 3600
def MAP_OUT_S : ℕ := 2 ^ 16 - 1
def MAP_OUT_E : ℕ := 1
def MAX_LATENCY : ℕ := 3600

structure Document where
  existing : Bool
  patient : Address
  keyHash : Bytes32
  deriving DecidableEq

structure Request where
  existing : Bool
  requester : Address
  bundleHash : Bytes32
  requestTime : ℕ
  direct : Bool
  keyHash : Bytes32
  (minVerifierCount maxVerifierCount : ℕ)
  (granted verifiersEvaluated : Bool)
  verifierAddresses : List Address
  indirectParticipations : ℕ
  verifierRatings : Address → ℕ

structure Verifier where
  registered : Bool
  (averageContractRating contractRatingCount : ℕ)
  deriving DecidableEq

/-! ## State -/

/-- `patients` and `doctors` say who is registered. -/
structure State where
  hospital : Address
  patients : Address → Bool
  documents : Bytes32 → Document
  doctors : Address → Bool
  requestsCount : ℕ
  requests : ℕ → Request
  verifiers : Address → Verifier

inductive Event where
  | respondedRequest (requestId : ℕ)
  | grantedRequest (requestId : ℕ)
  | selfRequest (requestId : ℕ)
  | requestedDocument (requestId : ℕ) (keyHash : Bytes32)
  | tokenRequester (tokenID : Bytes32) (verifierAddress : Address)
  | tokenVerifier (tokenID : Bytes32) (requesterAddress : Address)
  deriving DecidableEq

/-- The sender of a transaction and the time of its block. -/
structure Msg where
  sender : Address
  timestamp : ℕ

abbrev Exec := Outcome (State × List Event)

/-- The storage of a contract that `deployer` has just made. -/
def State.deployed (deployer : Address) : State where
  hospital := deployer
  patients _ := false
  documents _ := ⟨false, 0, 0⟩
  doctors _ := false
  requestsCount := 0
  requests _ := ⟨false, 0, 0, 0, false, 0, 0, 0, false, false, [], 0, fun _ => 0⟩
  verifiers _ := ⟨false, 0, 0⟩

def State.setRequest (st : State) (requestId : ℕ) (request : Request) : State :=
  { st with requests := update st.requests requestId request }

section

variable (keccak256 : List ℕ → Bytes32) (msg : Msg) (st : State)

/-! ## Modifiers -/

def onlyHospital : Outcome Unit :=
  require (msg.sender = st.hospital)
    "Only regulatory agency smart contract hospital can call this function"

def onlyPatient : Outcome Unit :=
  require (st.patients msg.sender) "Only a patient can call this function"

def onlyDoctor : Outcome Unit :=
  require (st.doctors msg.sender) "Only a doctor can call this function"

def onlyVerifier : Outcome Unit :=
  require (st.verifiers msg.sender).registered "Only verifiers can call this function"

/-! ## Register -/

def registerPatient (patient : Address) : Exec := do
  onlyHospital msg st
  pure ({ st with patients := update st.patients patient true }, [])

def registerDoctor (doctor : Address) : Exec := do
  onlyHospital msg st
  pure ({ st with doctors := update st.doctors doctor true }, [])

def registerVerifier (verifier : Address) : Exec := do
  onlyHospital msg st
  pure ({ st with verifiers := update st.verifiers verifier ⟨true, 0, 0⟩ }, [])

/-! ## Patients -/

variable (bundleHash : Bytes32) (requestId : ℕ) (request : Request)

def submitDocument (keyHash : Bytes32) : Exec := do
  onlyPatient msg st
  pure ({ st with documents := update st.documents bundleHash ⟨true, msg.sender, keyHash⟩ }, [])

def respondRequest (grant : Bool) (key : ℕ) : Exec := do
  let request := st.requests requestId
  let document := st.documents request.bundleHash
  onlyPatient msg st
  require (!request.direct || document.existing) "Request does not exist"
  require (!request.direct || document.patient = msg.sender)
    "Only owner of this document can respond to the doctor request"
  require (request.direct || request.keyHash = keccak256 [key]) "Invalid request key"
  pure (st.setRequest requestId { request with granted := grant },
    .respondedRequest requestId :: if grant then [.grantedRequest requestId] else [])

/-- What `requestOnBehalf` and `requestDocument` write at `requestsCount`. -/
def newRequest (direct : Bool) (keyHash : Bytes32) (minVerifierCount maxVerifierCount : ℕ)
    (granted : Bool) : Request :=
  { st.requests st.requestsCount with
    existing := true
    requester := msg.sender
    bundleHash := bundleHash
    requestTime := msg.timestamp
    direct := direct
    keyHash := keyHash
    minVerifierCount := max minVerifierCount MIN_Verifier_COUNT
    maxVerifierCount := min maxVerifierCount MAX_Verifier_COUNT
    granted := granted
    verifiersEvaluated := false }

def storeRequest (event : ℕ → Event) : Exec := do
  let count ← checked 256 (st.requestsCount + 1)
  pure ({ st.setRequest st.requestsCount request with requestsCount := count }, [event st.requestsCount])

def requestOnBehalf (minVerifierCount maxVerifierCount : ℕ) : Exec := do
  onlyPatient msg st
  require ((st.documents bundleHash).patient = msg.sender)
    "Only owner of the document can call this function"
  require (minVerifierCount ≤ maxVerifierCount)
    "Request requires minimum count of verifiers to be less than maximum count of verifiers"
  storeRequest st (newRequest msg st bundleHash true 0 minVerifierCount maxVerifierCount true)
    .selfRequest

/-! ## Doctors -/

def requestDocument (direct : Bool) (keyHash : Bytes32) (minVerifierCount maxVerifierCount : ℕ) :
    Exec := do
  onlyDoctor msg st
  require (minVerifierCount ≤ maxVerifierCount)
    "Request requires minimum count of verifiers to be less than maximum count of verifiers"
  storeRequest st (newRequest msg st bundleHash direct keyHash minVerifierCount maxVerifierCount false)
    (.requestedDocument · keyHash)

/-! ## Verifiers -/

/-- The checks at the start of both kinds of responses. -/
def openRequest (direct : Bool) : Outcome Unit := do
  onlyVerifier msg st
  require request.granted "Request is not granted by patient"
  require (request.direct = direct)
    (if direct then "Request must be of direct type" else "Request must be of indirect type")
  require (!request.verifiersEvaluated) "Request is already verified"

/-- `(uint16)(block.timestamp - request.requestTime)`. -/
def latencyOf : Outcome ℕ := do
  let elapsed ← sub msg.timestamp request.requestTime
  pure (elapsed % 2 ^ 16)

/-- Conditions to accept a new response, when `count` have been accepted. -/
def accepts (count latency : ℕ) : Bool :=
  count < request.minVerifierCount ||
    (request.minVerifierCount ≤ count && count < request.maxVerifierCount && latency ≤ MAX_LATENCY)

/-- Conditions to evaluate a request; the sum is taken only if enough have been accepted. -/
def evaluates (count : ℕ) : Outcome Bool :=
  if request.minVerifierCount ≤ count then do
    let deadline ← checked 256 (request.requestTime + MAX_LATENCY)
    pure (deadline ≤ msg.timestamp || count = request.maxVerifierCount)
  else pure (count = request.maxVerifierCount)

/-- The rating of a response; `isHashCorrect` is 1 or 0. -/
def verifierRating (isHashCorrect latency : ℕ) : Outcome ℕ :=
  if latency < 1 then checked 16 (isHashCorrect * (2 ^ 16 - 1))
  else if latency > 3600 then checked 16 (isHashCorrect * 0)
  else do
    let rise ← sub MAP_OUT_E MAP_OUT_S
    let run ← sub MAP_IN_E MAP_IN_S
    let slope ← div rise run
    let shift ← sub latency MAP_IN_S
    let fall ← checked 16 (slope * shift)
    let value ← checked 16 (MAP_OUT_S + fall)
    checked 16 (isHashCorrect * value)

def verifierScore (rating reputation : ℕ) : Outcome ℕ := do
  let base ← checked 16 (reputation + 1)
  let square ← checked 16 (base ^ 2)
  checked 16 (rating * square)

/-- The loop that chooses a verifier, with the best so far. -/
def bestVerifier (request : Request) : List Address → Address × ℕ → Outcome (Address × ℕ)
  | [], best => pure best
  | address :: rest, best => do
    let score ← verifierScore (request.verifierRatings address)
      (st.verifiers address).averageContractRating
    bestVerifier request rest (if best.2 ≤ score then (address, score) else best)

/-- The new average of a verifier. -/
def rateVerifier (verifier : Verifier) (rating : ℕ) : Outcome Verifier := do
  let product ← checked 16 (verifier.contractRatingCount * verifier.averageContractRating)
  let total ← checked 16 (product + rating)
  let count ← checked 16 (verifier.contractRatingCount + 1)
  let average ← div total count
  pure { verifier with averageContractRating := average, contractRatingCount := count }

/-- The loop that rates the verifiers; its counter `i` has 16 bits. -/
def rateVerifiers (request : Request) : List Address → ℕ → (Address → Verifier) →
    Outcome (Address → Verifier)
  | [], _, verifiers => pure verifiers
  | address :: rest, i, verifiers => do
    let verifier ← rateVerifier (verifiers address) (request.verifierRatings address)
    let i ← checked 16 (i + 1)
    rateVerifiers request rest i (update verifiers address verifier)

/-- A response that is accepted is rated and recorded. -/
def addResponse (key : Bytes32) (latency : ℕ) : Outcome Request :=
  if accepts request request.verifierAddresses.length latency then do
    let isHashCorrect := if (st.documents request.bundleHash).keyHash = keccak256 [key] then 1 else 0
    let rating ← verifierRating isHashCorrect latency
    pure { request with
      verifierAddresses := request.verifierAddresses ++ [msg.sender]
      verifierRatings := update request.verifierRatings msg.sender rating }
  else pure request

/-- A token for `addressee` and the chosen verifier. -/
def tokenEvents (addressee verifier : Address) : List Event :=
  let tokenId := keccak256 [addressee, verifier, msg.timestamp]
  [.tokenRequester tokenId verifier, .tokenVerifier tokenId addressee]

/-- The evaluation of a direct request. -/
def evaluate : Exec := do
  let best ← bestVerifier st request request.verifierAddresses (0, 0)
  let verifiers ← rateVerifiers request request.verifierAddresses 0 st.verifiers
  pure ({ st.setRequest requestId { request with verifiersEvaluated := true } with verifiers },
    tokenEvents keccak256 msg request.requester best.1)

def addDirectResponse (key : Bytes32) : Exec := do
  let request := st.requests requestId
  openRequest msg st request true
  let latency ← latencyOf msg request
  let request ← addResponse keccak256 msg st request key latency
  if ← evaluates msg request request.verifierAddresses.length then
    evaluate keccak256 msg st requestId request
  else pure (st.setRequest requestId request, [])

/-- The score of a verifier in an indirect request. -/
def contractScore (verifier : Verifier) : Outcome ℕ := do
  let product ← checked 16 (verifier.averageContractRating * verifier.contractRatingCount)
  let total ← checked 16 (product + 2 ^ 15)
  let count ← checked 16 (verifier.contractRatingCount + 1)
  div total count

/-- The first address of an indirect request is that of the better verifier so far. -/
def betterVerifier : List Address → Outcome (List Address)
  | [] => pure [msg.sender]
  | current :: rest => do
    let currentVerifierScore ← contractScore (st.verifiers current)
    let newVerifierScore ← contractScore (st.verifiers msg.sender)
    pure (if newVerifierScore > currentVerifierScore then msg.sender :: rest else current :: rest)

/-- A response to an indirect request that is accepted is counted. -/
def addParticipation (latency : ℕ) : Outcome Request :=
  if accepts request request.indirectParticipations latency then do
    let addresses ← betterVerifier msg st request.verifierAddresses
    let participations ← checked 256 (request.indirectParticipations + 1)
    pure { request with verifierAddresses := addresses, indirectParticipations := participations }
  else pure request

def addIndirectResponse : Exec := do
  let request := st.requests requestId
  openRequest msg st request false
  let latency ← latencyOf msg request
  let request ← addParticipation msg st request latency
  if ← evaluates msg request request.indirectParticipations then
    let chosen ← deref request.verifierAddresses.head?
    pure (st.setRequest requestId { request with verifiersEvaluated := true },
      tokenEvents keccak256 msg (st.documents request.bundleHash).patient chosen)
  else pure (st.setRequest requestId request, [])

def documentAvailable : Exec := do
  let request := st.requests requestId
  onlyVerifier msg st
  require request.granted "Request is not granted by patient"
  require (!request.direct) "Request must be of indirect type"
  require request.verifiersEvaluated "No verifier was chosen for this request"
  let chosen ← deref request.verifierAddresses.head?
  require (msg.sender = chosen) "Invalid verifier"
  pure (st, tokenEvents keccak256 msg request.requester msg.sender)

end

end ThresholdDsa.Hospital
