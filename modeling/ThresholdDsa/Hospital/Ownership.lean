/-
# Who owns a document and decides on requests for it

A direct request is granted by the patient whose document it asks for, and the
owner of a document is looked up each time in `documents`.  `submitDocument` writes
there without a look at what is there already.

`documents_owned`: the first patient to submit a document stays its owner, no other
changes its key hash, and a direct request is evaluated only after a positive
decision of that patient, in the runs in which a document is submitted again only by
its owner.  `document_taken_over`: otherwise any patient takes a document over and
grants requests for it.
-/
import ThresholdDsa.Hospital.Requests

namespace ThresholdDsa.Hospital

open Outcome Function

section

variable {keccak256 : List ℕ → Bytes32} {w : World} {msg : Msg} {call : Call}
  {done : State × List Event}

/-- A document that is there is submitted again only by its owner. -/
def OwnerSubmitsCall (w : World) (msg : Msg) : Call → Prop
  | .submitDocument bundleHash _ => (w.st.documents bundleHash).existing = true →
      (w.st.documents bundleHash).patient = msg.sender
  | _ => True

def OwnerSubmits (w : World) (tx : Transaction) : Prop := OwnerSubmitsCall w tx.msg tx.call

/-- The patient of a document is the one who first submitted it. -/
def OwnedBy (document : Document) (owner : Option Address) : Prop :=
  (document.existing = true → owner = some document.patient) ∧
    (document.existing = false → owner = none ∧ document.patient = 0)

/-- A direct request that is granted was granted by the owner of the document. -/
def GrantedByOwner (owners : Bytes32 → Option Address) (request : Request)
    (decision : Option (Address × Bool)) : Prop :=
  request.direct = true → request.granted = true →
    ∃ owner, owners request.bundleHash = some owner ∧ decision = some (owner, true)

structure Owned (w : World) : Prop where
  documents : ∀ b, OwnedBy (w.st.documents b) (w.owners b)
  requests : ∀ r, GrantedByOwner w.owners (w.st.requests r) (w.decisions r)

/-- Only `submitDocument` changes a document. -/
theorem documents_next (effect : Effect keccak256 msg w.st call done) (b : Bytes32) :
    ((w.next msg call done).st.documents b = w.st.documents b ∧
      (w.next msg call done).owners b = w.owners b) ∨
    ∃ keyHash, call = .submitDocument b keyHash ∧
      (w.next msg call done).st.documents b = ⟨true, msg.sender, keyHash⟩ ∧
      (w.next msg call done).owners b = some ((w.owners b).getD msg.sender) := by
  cases effect with
  | submitDocument bundleHash keyHash =>
    by_cases this : b = bundleHash
    · subst this
      exact .inr ⟨keyHash, rfl, update_self _ _ _, update_self _ _ _⟩
    · exact .inl ⟨update_of_ne this _ _, update_of_ne this _ _⟩
  | _ => exact .inl ⟨rfl, rfl⟩

theorem owners_next (effect : Effect keccak256 msg w.st call done) {b : Bytes32} {owner : Address}
    (first : w.owners b = some owner) : (w.next msg call done).owners b = some owner := by
  rcases documents_next effect b with ⟨-, same⟩ | ⟨keyHash, -, -, again⟩
  · exact same.trans first
  · rw [again, first]
    rfl

theorem OwnedBy.next {b : Bytes32} (owned : OwnedBy (w.st.documents b) (w.owners b))
    (careful : OwnerSubmitsCall w msg call) (effect : Effect keccak256 msg w.st call done) :
    OwnedBy ((w.next msg call done).st.documents b) ((w.next msg call done).owners b) := by
  rcases documents_next effect b with ⟨document, owner⟩ | ⟨keyHash, rfl, document, owner⟩
  · rw [document, owner]
    exact owned
  rw [document, owner]
  refine ⟨fun _ => ?_, nofun⟩
  cases there : (w.st.documents b).existing with
  | true =>
    rw [owned.1 there]
    exact congrArg some (careful there)
  | false =>
    rw [(owned.2 there).1]
    rfl

variable {answers : List Answer} {decision : Option (Address × Bool)} {request : Request}

theorem GrantedByOwner.step {r : ℕ} (owned : Owned w) (signed : msg.sender ≠ 0)
    (step : RequestStep keccak256 w msg r call request answers decision) :
    GrantedByOwner w.owners request decision := by
  cases step with
  | same => exact owned.requests r
  | decided grant key owner =>
    intro direct granted
    obtain ⟨existing, patient⟩ := owner direct
    rw [show grant = true from granted]
    exact ⟨msg.sender, ((owned.documents _).1 existing).trans (congrArg some patient), rfl⟩
  | onBehalf bundleHash least most new owner =>
    intro _ _
    have existing : (w.st.documents bundleHash).existing = true := by
      by_contra missing
      have absent := ((owned.documents bundleHash).2 (Bool.eq_false_iff.mpr missing)).2
      exact signed (owner.symm.trans absent)
    exact ⟨msg.sender, ((owned.documents _).1 existing).trans (congrArg some owner), rfl⟩
  | made => exact fun _ granted => nomatch granted
  | answered => exact owned.requests r
  | participated => exact owned.requests r
  | closed => exact owned.requests r

theorem Owned.next (owned : Owned w) (signed : msg.sender ≠ 0) (careful : OwnerSubmitsCall w msg call)
    (effect : Effect keccak256 msg w.st call done) : Owned (w.next msg call done) where
  documents b := (owned.documents b).next careful effect
  requests r direct granted := by
    obtain ⟨owner, first, decided⟩ :=
      GrantedByOwner.step owned signed (requestStep_of_effect effect r) direct granted
    exact ⟨owner, owners_next effect first, decided⟩

theorem owned_of_run (run : Run keccak256 OwnerSubmits w) : Owned w := by
  refine run.invariant (fun deployer time => ?_) (fun w time owned => ?_)
    fun w tx done _ owned _ careful effect => owned.next tx.signed careful effect
  · exact ⟨fun b => ⟨nofun, fun _ => ⟨rfl, rfl⟩⟩, fun r direct => nomatch direct⟩
  · exact ⟨owned.documents, owned.requests⟩

/-- A direct request that gets evaluated was open before. -/
theorem granted_of_evaluated {r : ℕ}
    (step : RequestStep keccak256 w msg r call request answers decision)
    (direct : request.direct = true) (pending : (w.st.requests r).verifiersEvaluated = false)
    (evaluated : request.verifiersEvaluated = true) :
    (w.st.requests r).direct = true ∧ (w.st.requests r).granted = true := by
  cases step with
  | same => exact absurd evaluated (by simp [pending])
  | decided => exact absurd evaluated (by simp [pending])
  | onBehalf => cases evaluated
  | made => cases evaluated
  | answered key opened => exact ⟨opened.kind, opened.granted⟩
  | participated opened => exact ⟨direct, opened.granted⟩
  | closed _ kind opened => exact ⟨direct, opened.granted⟩

end

/-- The first owner of a document stays its owner, and no other account changes its key hash; and a
direct request is evaluated only if the last decision on it was positive and made by that owner. -/
theorem documents_owned (keccak256 : List ℕ → Bytes32) (w : World)
    (run : Run keccak256 OwnerSubmits w) (tx : Transaction) (careful : OwnerSubmits w tx) :
    (∀ b owner, w.owners b = some owner →
      (w.st.documents b).patient = owner ∧
      ((w.step keccak256 tx).st.documents b).patient = owner ∧
      (tx.msg.sender ≠ owner → (w.step keccak256 tx).st.documents b = w.st.documents b)) ∧
    (∀ r, ((w.step keccak256 tx).st.requests r).direct = true →
      (w.st.requests r).verifiersEvaluated = false →
      ((w.step keccak256 tx).st.requests r).verifiersEvaluated = true →
      ∃ owner, w.owners (w.st.requests r).bundleHash = some owner ∧
        w.decisions r = some (owner, true)) := by
  have owned := owned_of_run run
  have patient : ∀ b owner, w.owners b = some owner →
      (w.st.documents b).existing = true ∧ (w.st.documents b).patient = owner := by
    intro b owner first
    have existing : (w.st.documents b).existing = true := by
      by_contra missing
      have absent := ((owned.documents b).2 (Bool.eq_false_iff.mpr missing)).1
      rw [first] at absent
      cases absent
    have known := (owned.documents b).1 existing
    rw [first] at known
    exact ⟨existing, (Option.some.inj known).symm⟩
  rcases step_cases w tx with reverted | ⟨done, effect, stepped⟩
  · rw [reverted]
    refine ⟨fun b owner first => ⟨(patient b owner first).2, (patient b owner first).2, fun _ => rfl⟩,
      fun r _ pending evaluated => ?_⟩
    rw [pending] at evaluated
    cases evaluated
  · rw [stepped]
    refine ⟨fun b owner first => ?_, fun r direct pending evaluated => ?_⟩
    · obtain ⟨existing, known⟩ := patient b owner first
      refine ⟨known, ?_⟩
      rcases documents_next effect b with ⟨same, -⟩ | ⟨keyHash, call, document, -⟩
      · rw [same]
        exact ⟨known, fun _ => rfl⟩
      · have sender : owner = tx.msg.sender := by
          rw [OwnerSubmits, call] at careful
          exact known.symm.trans (careful existing)
        rw [document]
        exact ⟨sender.symm, fun other => absurd sender.symm other⟩
    · obtain ⟨kind, granted⟩ :=
        granted_of_evaluated (requestStep_of_effect effect r) direct pending evaluated
      exact owned.requests r kind granted

namespace OnePatient

instance decidableOwnerSubmitsCall (w : World) (msg : Msg) :
    (call : Call) → Decidable (OwnerSubmitsCall w msg call)
  | .submitDocument _ _ => inferInstanceAs (Decidable (_ → _))
  | .requestOnBehalf _ _ _ => isTrue trivial
  | .requestDocument _ _ _ _ _ => isTrue trivial
  | .addDirectResponse _ _ => isTrue trivial
  | .addIndirectResponse _ => isTrue trivial
  | .registerPatient _ => isTrue trivial
  | .registerDoctor _ => isTrue trivial
  | .registerVerifier _ => isTrue trivial
  | .respondRequest _ _ _ => isTrue trivial
  | .documentAvailable _ => isTrue trivial

instance decidableOwnerSubmits (w : World) (tx : Transaction) : Decidable (OwnerSubmits w tx) :=
  decidableOwnerSubmitsCall w tx.msg tx.call

/-- The second verifier's response. -/
def last : Transaction := send 3 0 (.addDirectResponse 0 8)

/-- The patient's own request, with one response. -/
def ownRequest : World := start.steps keccak (opening 2 2 ++ [send 2 0 (.addDirectResponse 0 8)])

/-- Another patient submits the document again and makes the request. -/
def takeover : World :=
  start.steps keccak [send 0 0 (.registerPatient 2), send 0 0 (.registerPatient 5),
    send 0 0 (.registerVerifier 3), send 0 0 (.registerVerifier 4), send 1 0 (.submitDocument 9 5),
    send 4 0 (.submitDocument 9 6), send 4 0 (.requestOnBehalf 9 2 2),
    send 2 0 (.addDirectResponse 0 8)]

theorem documents_owned_request :
    Run keccak OwnerSubmits ownRequest ∧ OwnerSubmits ownRequest last ∧
      ((ownRequest.step keccak last).st.requests 0).verifiersEvaluated = true ∧
      ownRequest.owners 9 = some 2 ∧ ((ownRequest.step keccak last).st.documents 9).patient = 2 ∧
      ∃ owner, ownRequest.owners (ownRequest.st.requests 0).bundleHash = some owner ∧
        ownRequest.decisions 0 = some (owner, true) := by
  have run : Run keccak OwnerSubmits ownRequest := (Run.deployed 1 0).steps (by decide +kernel)
  have careful : OwnerSubmits ownRequest last := by decide +kernel
  have evaluated : ((ownRequest.step keccak last).st.requests 0).verifiersEvaluated = true := by
    decide +kernel
  have first : ownRequest.owners 9 = some 2 := by decide +kernel
  obtain ⟨documents, requests⟩ := documents_owned keccak ownRequest run last careful
  exact ⟨run, careful, evaluated, first, (documents 9 2 first).2.1,
    requests 0 (by decide +kernel) (by decide +kernel) evaluated⟩

/-- The document of the patient at address 2 gets another owner and key hash, and the request that is
evaluated was granted by the patient at address 5. -/
theorem document_taken_over :
    Run keccak (fun _ _ => True) takeover ∧ takeover.owners 9 = some 2 ∧
      takeover.st.documents 9 = ⟨true, 5, 6⟩ ∧
      (takeover.st.requests 0).bundleHash = 9 ∧ (takeover.st.requests 0).direct = true ∧
      (takeover.st.requests 0).verifiersEvaluated = false ∧
      ((takeover.step keccak last).st.requests 0).verifiersEvaluated = true ∧
      takeover.decisions 0 = some (5, true) := by
  refine ⟨(Run.deployed 1 0).steps ?_, ?_, ?_, ?_, ?_, ?_, ?_, ?_⟩ <;> decide +kernel

end OnePatient

end ThresholdDsa.Hospital
