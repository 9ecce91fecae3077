/-
# Who may fill which message slot

The checks of `ProcessInboundMessages` and `SignProcessInboundMessages` on a peer
message, followed by `StoreMessage`.  They tie the message to the node that
signed it and its `FromID` to that node's UID; the slot it is stored in is its
`FromIndex`, which no check looks at, and the list of round 0 has no slots.

`storeMessage_by_sender`: whatever the indices, an entry is a received message in
the slot it asked for, once for each sender; if the messages carry their senders'
positions, the entry at a position was sent by the party at that position, it is
never replaced, no other party can block it, and no index is out of range.
-/
import ThresholdDsa.Ecdsa.StoreMessage
import ThresholdDsa.Smpc.Group

namespace ThresholdDsa.Smpc

open Outcome GoText SlotStore Ecdsa List

variable {M K D : Type}

/-! ## The checks -/

structure Inbound (M : Type) where
  ENode : Enode
  Sig : List Char
  msg : M

section

variable (N : Names) (SigToPub : M → List Char → Option (List UInt8))

/-- The recovered public key in hexadecimal, less its first byte, is the enode id.  The rest of
the function answers false on every path. -/
def checkP2pSig (sig : List Char) (msg : M) (enodeID : Enode) : Bool :=
  enodeID ≠ [] ∧ ((SigToPub msg sig).map fun pub =>
    (hexEncode (pub.map fun b => Char.ofNat b.toNat)).drop 2) = some enodeID

def inboundChecks (sigText enodeText : String) (FromID : M → List Char) (gid subgid : List Enode)
    (r : Inbound M) : Outcome Unit := do
  require (r.Sig ≠ []) sigText
  require (r.ENode ≠ []) enodeText
  let sig ← orError "encoding/hex: invalid" (hexDecode r.Sig)
  require (checkP2pSig SigToPub sig r.msg r.ENode) "check msg sig fail"
  let UID ← GetNodeUID N r.ENode gid
  require (N.folding.EqualFold (uidText UID) (FromID r.msg)) "check from ID fail"
  require (subgid.any fun node => N.folding.EqualFold node r.ENode) "check msg sig fail"

end

def keygenChecks (N : Names) (SigToPub : Keygen.KGMessage → List Char → Option (List UInt8))
    (gid : List Enode) (r : Inbound Keygen.KGMessage) : Outcome Unit :=
  inboundChecks N SigToPub "verify sig fail,sig data error" "verify sig fail,enode info error"
    (·.FromID) gid gid r

/-- `gid` is the group of the public key, `subgid` the group that signs. -/
def signChecks (N : Names) (SigToPub : Signing.SignMessage → List Char → Option (List UInt8))
    (gid subgid : List Enode) (r : Inbound Signing.SignMessage) : Outcome Unit :=
  inboundChecks N SigToPub "verify sig fail" "verify sig fail" (·.FromID) gid subgid r

/-- Enode ids as the p2p layer writes them. -/
def EnodeTexts (nodes : List Enode) : Prop := ∀ node ∈ nodes, node ≠ [] ∧ ∀ c ∈ node, c ∈ lowerHex

/-- The checks passed, and the sender has a UID. -/
def Passes (N : Names) (gid : List Enode) (checks : Inbound M → Outcome Unit) (r : Inbound M) :
    Prop :=
  checks r = .ok () ∧ ∃ k, GetNodeUID N r.ENode gid = .ok (some k)

variable {N : Names} {SigToPub : M → List Char → Option (List UInt8)} {sigText enodeText : String}
  {gid subgid : List Enode}

section Passed

variable {FromID : M → List Char} {r : Inbound M} {k : ℕ}
  (passed : inboundChecks N SigToPub sigText enodeText FromID gid subgid r = .ok ())

include passed

theorem passed_fromID
    (found : GetNodeUID N r.ENode gid = .ok (some k)) : FromID r.msg = idText (k + 1) := by
  simp only [inboundChecks, eq_ok, found, Except.ok.injEq] at passed
  obtain ⟨-, -, -, -, -, -, -, -, _, rfl, -, equal, -⟩ := passed
  exact eq_idText equal

/-- The enode id of a message that passed is spelt as in the group. -/
theorem passed_mem (texts : EnodeTexts subgid) : r.ENode ∈ subgid := by
  simp only [inboundChecks, eq_ok, any_eq_true, checkP2pSig, decide_eq_true_eq] at passed
  obtain ⟨-, -, -, -, sig, -, -, ⟨-, recovered⟩, -, -, -, -, node, mem, equal⟩ := passed
  obtain ⟨pub, -, pub_eq⟩ := Option.map_eq_some_iff.mp recovered
  have hex : ∀ c ∈ r.ENode, c ∈ lowerHex := by
    intro c c_mem
    rw [← pub_eq] at c_mem
    refine hexEncode_lowerHex (fun b b_mem => ?_) (mem_of_mem_drop c_mem)
    obtain ⟨byte, -, rfl⟩ := mem_map.mp b_mem
    have small := byte.toNat_lt
    rw [Char.toNat_ofNat]
    split <;> omega
  have same : node = r.ENode := N.folding.eq_of_equalFold
    (fun c c_mem d d_mem => N.folding.lowerHex ((texts node mem).2 c c_mem) (hex d d_mem)) equal
  exact same ▸ mem

end Passed

/-! ## Lists and senders -/

section

variable {n : ℕ}

/-- The lists of a node belong to the senders, at every moment of storing the messages `rs`; `run`
stores messages from the start and `place` is a party's position. -/
structure BelongToSenders (L : Labels M K (List Char)) (check : M → Outcome Unit)
    (run : List M → Outcome (Node M K D n)) (place : Enode → Outcome (Option (Fin n)))
    (rs : List (Inbound M)) : Prop where
  in_range : run (rs.map (·.msg)) = .error .panic → ∃ r ∈ rs, check r.msg = .error .panic
  sender : ∀ {p k i m}, run (rs.map (·.msg)) = .ok p → p.temp.slots k i = some m →
    ∃ r ∈ rs, r.msg = m ∧ place r.ENode = .ok (some i)
  kept : ∀ {before after p q}, rs = before ++ after → run (before.map (·.msg)) = .ok p →
    run (rs.map (·.msg)) = .ok q → p.temp.queue <+: q.temp.queue ∧
      ∀ {k i m}, p.temp.slots k i = some m → q.temp.slots k i = some m
  unblocked : ∀ {before r after p}, rs = before ++ r :: after →
    run ((before ++ [r]).map (·.msg)) = .ok p →
    (∀ earlier ∈ before, L.kind earlier.msg = L.kind r.msg → place earlier.ENode ≠ place r.ENode) →
      (L.kind r.msg = none → r.msg ∈ p.temp.queue) ∧
      ∀ k, L.kind r.msg = some k → ∃ i, place r.ENode = .ok (some i) ∧
        p.temp.slots k i = some r.msg

/-- A message with an index carries its sender's position. -/
def AsksOwnSlot (L : Labels M K (List Char)) (place : Enode → Outcome (Option (Fin n)))
    (r : Inbound M) : Prop :=
  ∀ k i, L.kind r.msg = some k → place r.ENode = .ok (some i) → L.index r.msg = (i.val : ℤ)

end

section Stored

/-- The slots of the id texts of the signing group. -/
def seating (subgid : List Enode) (idsign : List ℕ) : Seating (List Char) subgid.length :=
  Seating.ofList (idsign.map idText) subgid.length

variable {idsign : List ℕ}

theorem seat_of_position (got : GetGroupNodeUIDs N gid subgid = .ok idsign) {node : Enode} {k : ℕ}
    (found : GetNodeUID N node gid = .ok (some k)) :
    position N gid subgid node = .ok ((seating subgid idsign).seat (idText (k + 1))) := by
  have same : (fun i : Fin subgid.length => decide ((idsign.map idText)[i.val]? = some (idText (k + 1)))) =
      fun i => decide (idsign[i.val]? = some (k + 1)) := by
    funext i
    rw [getElem?_map]
    cases idsign[i.val]? with
    | none => simp
    | some uid => simp [idText_inj]
  simp only [position, got, found, bind, Except.bind, pure, Except.pure, Option.bind_some, seating,
    Seating.ofList, same]

variable {R : Rules M K (List Char) D subgid.length} {start : Node M K D subgid.length}
  {rs : List (Inbound M)} (got : GetGroupNodeUIDs N gid subgid = .ok idsign)

include got

/-- The id of a message that passed has its sender's position as slot. -/
theorem seat_of_passed {r : Inbound M}
    (passed : Passes N gid (inboundChecks N SigToPub sigText enodeText R.id gid subgid) r) :
    position N gid subgid r.ENode = .ok ((seating subgid idsign).seat (R.id r.msg)) := by
  obtain ⟨checked, k, found⟩ := passed
  rw [passed_fromID checked found]
  exact seat_of_position got found

variable (texts : EnodeTexts subgid)
  (passed : ∀ r ∈ rs, Passes N gid (inboundChecks N SigToPub sigText enodeText R.id gid subgid) r)
  (asks : ∀ r ∈ rs, AsksOwnSlot R.toLabels (position N gid subgid) r)

include texts passed asks

/-- The messages that passed and carry their senders' positions ask for the slot of their id. -/
theorem seated_of_passed :
    ∀ m ∈ rs.map (·.msg), Seated (seating subgid idsign) R.toLabels m := by
  intro m mem
  obtain ⟨r, r_mem, rfl⟩ := mem_map.mp mem
  have seat_eq := seat_of_passed got (passed r r_mem)
  obtain ⟨checked, k, found⟩ := passed r r_mem
  obtain ⟨i, place⟩ := position_of_member got found (passed_mem checked texts)
  exact ⟨i, Except.ok.inj (seat_eq.symm.trans place),
    fun kind kind_eq => asks r r_mem kind i kind_eq place⟩

variable [DecidableEq K]

omit got texts passed asks in
theorem tidy_of_run {p : Node M K D subgid.length} (empty : start.temp = Store.empty)
    (run : R.run start (rs.map (·.msg)) = .ok p) : Tidy R.toLabels (rs.map (·.msg)) p.temp := by
  have start_tidy : Tidy R.toLabels [] start.temp := empty ▸ tidy_empty R.toLabels
  have tidy := tidy_run start_tidy run
  rwa [nil_append] at tidy

theorem belong_to_senders (empty : start.temp = Store.empty) :
    BelongToSenders R.toLabels R.check (R.run start) (position N gid subgid) rs where
  in_range panicked := by
    obtain ⟨m, mem, checked⟩ := run_panic (seated_of_passed got texts passed asks) panicked
    obtain ⟨r, r_mem, rfl⟩ := mem_map.mp mem
    exact ⟨r, r_mem, checked⟩
  sender {p k i m} run held := by
    have tidy := tidy_of_run empty run
    have seat := seat_of_placed tidy (seated_of_passed got texts passed asks) held
    obtain ⟨r, r_mem, rfl⟩ := mem_map.mp (tidy.placed held).2.1
    exact ⟨r, r_mem, rfl, by rw [seat_of_passed got (passed r r_mem), seat]⟩
  kept {before after p q} split run_before run := by
    subst split
    have seated := seated_of_passed got texts passed asks
    rw [map_append] at run seated
    obtain ⟨p', run_before', run_after⟩ := run_append_eq_ok.mp run
    obtain rfl : p = p' := Except.ok.inj (run_before.symm.trans run_before')
    exact ⟨queue_run run_after, fun held =>
      kept_run (tidy_of_run empty run_before) seated run_after held⟩
  unblocked {before r after p} split run first := by
    subst split
    have seated := seated_of_passed got texts passed asks
    simp only [map_append, map_cons, mem_append, mem_cons] at seated
    have tidy_after := tidy_of_run empty run
    rw [map_append, run_append_eq_ok] at run
    obtain ⟨q, run_before, run_last⟩ := run
    obtain ⟨p', full, stored, rest⟩ := run_cons_eq_ok.mp run_last
    obtain rfl : p' = p := by
      rwa [Rules.run, map_nil, foldlM_nil, pure_eq_ok] at rest
    obtain ⟨v, v_mem, -, v_eq⟩ := stored_step (tidy_of_run empty run_before)
      (fun m mem => seated m (.inl mem)) (seated r.msg (.inr (.inl rfl))) stored
    -- an earlier message of the same id would come from the same position
    obtain rfl := v_eq (by
      intro m mem kind_eq id_eq
      obtain ⟨r', r_mem, rfl⟩ := mem_map.mp mem
      refine first r' r_mem kind_eq ?_
      rw [seat_of_passed got (passed r' (mem_append_left _ r_mem)),
        seat_of_passed got (passed r (by simp)), id_eq])
    refine ⟨fun kind_eq => ?_, fun k kind_eq => ?_⟩
    · rwa [kind_eq] at v_mem
    rw [kind_eq, Store.mem_entries_some] at v_mem
    obtain ⟨i, held⟩ := v_mem
    refine ⟨i, ?_, held⟩
    rw [seat_of_passed got (passed r (by simp))]
    refine congrArg Except.ok (seat_of_placed tidy_after (fun m mem => seated m ?_) held)
    simp only [map_append, map_cons, map_nil, mem_append,
      mem_singleton] at mem
    exact mem.imp_right .inl

end Stored

/-- **Message lists and senders.**  For the messages of key generation and of signing that passed
the inbound checks: an entry of a list with slots is a received message in the slot it asked for,
the list of round 0 keeps the order of arrival, and neither holds a sender twice; if the messages
carry their senders' positions, the lists belong to the senders. -/
theorem storeMessage_by_sender (N : Names) (P : Primitives)
    (KGSigToPub : Keygen.KGMessage → List Char → Option (List UInt8))
    (SignSigToPub : Signing.SignMessage → List Char → Option (List UInt8)) {gid subgid : List Enode}
    (gid_texts : EnodeTexts gid) (subgid_texts : EnodeTexts subgid) :
    (∀ rs : List (Inbound Keygen.KGMessage),
      (∀ r ∈ rs, Passes N gid (keygenChecks N KGSigToPub gid) r) →
      (∀ p, Keygen.storeAll P.H (Keygen.NewLocalDNode gid.length) (rs.map (·.msg)) = .ok p →
        Tidy Keygen.kgLabels (rs.map (·.msg)) p.temp) ∧
      ((∀ r ∈ rs, AsksOwnSlot Keygen.kgLabels (position N gid gid) r) →
        BelongToSenders Keygen.kgLabels (Keygen.contentCheck P.H)
          (Keygen.storeAll P.H (Keygen.NewLocalDNode gid.length)) (position N gid gid) rs)) ∧
    (∀ rs : List (Inbound Signing.SignMessage),
      (∀ r ∈ rs, Passes N gid (signChecks N SignSigToPub gid subgid) r) →
      (∀ p, Signing.storeAll P (Signing.NewLocalDNode subgid.length) (rs.map (·.msg)) = .ok p →
        Tidy Signing.signLabels (rs.map (·.msg)) p.temp) ∧
      ((∀ r ∈ rs, AsksOwnSlot Signing.signLabels (position N gid subgid) r) →
        BelongToSenders Signing.signLabels (Signing.contentCheck P)
          (Signing.storeAll P (Signing.NewLocalDNode subgid.length)) (position N gid subgid) rs)) := by
  have gid_ne : ∀ node ∈ gid, node ≠ [] := fun node mem => (gid_texts node mem).1
  have subgid_ne : ∀ node ∈ subgid, node ≠ [] := fun node mem => (subgid_texts node mem).1
  constructor
  · intro rs passed
    have run_eq : Keygen.storeAll P.H (Keygen.NewLocalDNode gid.length) =
        (Keygen.kgRules P.H gid.length).run (Keygen.NewLocalDNode gid.length) :=
      funext (Keygen.storeAll_eq P.H _)
    rw [run_eq]
    refine ⟨fun p run => tidy_of_run rfl run, fun asks => ?_⟩
    obtain ⟨idsign, got⟩ := groupNodeUIDs_returns (N := N) gid_ne gid_ne
    exact belong_to_senders (R := Keygen.kgRules P.H gid.length) got gid_texts
      (fun r mem => passed r mem) asks rfl
  · intro rs passed
    have run_eq : Signing.storeAll P (Signing.NewLocalDNode subgid.length) =
        (Signing.signRules P subgid.length).run (Signing.NewLocalDNode subgid.length) :=
      funext (Signing.storeAll_eq P _)
    rw [run_eq]
    refine ⟨fun p run => tidy_of_run rfl run, fun asks => ?_⟩
    obtain ⟨idsign, got⟩ := groupNodeUIDs_returns (N := N) gid_ne subgid_ne
    exact belong_to_senders (R := Signing.signRules P subgid.length) got subgid_texts
      (fun r mem => passed r mem) asks rfl

/-! ## Two nodes

The nodes `aa` and `bb` are at the positions 0 and 1; a signature is the enode id itself. -/

def twoNames : Names where
  digest id := if id = ['a', 'a'] then 1 else 2
  folding := lowerFolding

def twoNodes : List Enode := [['b', 'b'], ['a', 'a']]

theorem twoNodes_texts : EnodeTexts twoNodes := by
  intro node mem
  fin_cases mem
  · exact ⟨by decide, by simp [lowerHex, range_succ]⟩
  · exact ⟨by decide, by simp [lowerHex, range_succ]⟩

def signedAs (_ : Keygen.KGMessage) (sig : List Char) : Option (List UInt8) :=
  some (4 :: sig.map fun c => UInt8.ofNat c.toNat)

def twoENode (i : Fin 2) : Enode := if i.val = 0 then ['a', 'a'] else ['b', 'b']

/-- A message of the node at position 0 or 1. -/
def sent (i : Fin 2) (index : ℤ) (body : Keygen.KGBody) : Inbound Keygen.KGMessage where
  ENode := twoENode i
  Sig := twoENode i
  msg := { FromID := idText (i.val + 1), FromIndex := index, body }

def share : Keygen.KGBody := .round2 { ID := 1, Share := 5 }

theorem two_positions :
    ∀ i, position twoNames twoNodes twoNodes (twoENode i) = .ok (some i) := by
  decide +kernel

/-- Both nodes send a share with their own index. -/
theorem storeMessage_by_sender_two_nodes :
    BelongToSenders Keygen.kgLabels (Keygen.contentCheck smallPrimitives.H)
      (Keygen.storeAll smallPrimitives.H (Keygen.NewLocalDNode 2))
      (position twoNames twoNodes twoNodes) [sent 0 0 share, sent 1 1 share] := by
  refine ((storeMessage_by_sender twoNames smallPrimitives signedAs (fun _ _ => none)
    twoNodes_texts twoNodes_texts).1 _ ?_).2 ?_
  · intro r mem
    fin_cases mem
    · exact ⟨by decide +kernel, 0, by decide +kernel⟩
    · exact ⟨by decide +kernel, 1, by decide +kernel⟩
  · intro r mem k i _ place
    fin_cases mem
    · cases (two_positions 0).symm.trans place
      rfl
    · cases (two_positions 1).symm.trans place
      rfl

/-- All messages pass the checks.  The share of the second node with index 0 replaces the share of
the first, one with index 2 panics, and the list of round 0 has the order of arrival. -/
theorem share_replaced_by_other_node :
    (∀ i index, (i, index) ∈ [((0 : Fin 2), (0 : ℤ)), (1, 0), (1, 2)] →
      keygenChecks twoNames signedAs twoNodes (sent i index share) = .ok ()) ∧
    (∀ i, keygenChecks twoNames signedAs twoNodes (sent i (-1) .round0) = .ok ()) ∧
    (∀ i, position twoNames twoNodes twoNodes (twoENode i) = .ok (some i)) ∧
    (Keygen.storeAll smallPrimitives.H (Keygen.NewLocalDNode 2) [(sent 0 0 share).msg]).map
      (fun p => (p.temp.slots .kgRound2Messages 0).map (·.FromID)) = .ok (some (idText 1)) ∧
    (Keygen.storeAll smallPrimitives.H (Keygen.NewLocalDNode 2)
      [(sent 0 0 share).msg, (sent 1 0 share).msg]).map
      (fun p => (p.temp.slots .kgRound2Messages 0).map (·.FromID)) = .ok (some (idText 2)) ∧
    (Keygen.storeAll smallPrimitives.H (Keygen.NewLocalDNode 2) [(sent 1 2 share).msg]).map
      (fun _ => ()) = .error .panic ∧
    (Keygen.storeAll smallPrimitives.H (Keygen.NewLocalDNode 2)
      [(sent 1 (-1) .round0).msg, (sent 0 (-1) .round0).msg]).map
      (fun p => p.temp.queue.map (·.FromID)) = .ok [idText 2, idText 1] := by
  refine ⟨?_, ?_, ?_, ?_, ?_, ?_, ?_⟩
  · intro i index mem
    fin_cases mem <;> decide +kernel
  all_goals decide +kernel

end ThresholdDsa.Smpc
