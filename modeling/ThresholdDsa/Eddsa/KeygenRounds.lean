/-
# Rounds 0 to 6 of the package `eddsa/keygen`

Each `Start` is a function of the party's base data, of its draws, of what its
earlier rounds stored and of the messages in its slots, one slot per party.  Round
0 only sends the party's id; the base data holds what arrived of it.  The base data
and `GetIDs` are those of the ECDSA package; `GetDNodeIDIndex` looks the id up in
the sorted list.

The key of party `k` enters the group's key with the weight `weightOf`, the hash of
its own key and the list of all keys.
-/
import ThresholdDsa.Ed.Vss
import ThresholdDsa.Ecdsa.KeygenRounds

namespace ThresholdDsa.Eddsa.Keygen

open LittleEndian Outcome Ed
open Ecdsa.Keygen (KeygenBase uidOf)

variable {n : ℕ}

/-- The index `-1`, returned without an error while ids are missing, panics in the slot access
that follows. -/
def GetDNodeIDIndex (n : ℕ) (b : KeygenBase) : Outcome (Fin n) :=
  if b.dnodeid = [] ∨ b.kgRound0Messages.length ≠ n then .error .panic
  else do
    let ids ← b.GetIDs
    let uid ← uidOf b.dnodeid
    orError "get dnode index fail,no found in kgRound0Messages"
      ((List.finRange n).find? fun k => ids[k.val]? = some uid)

/-! ## Messages and stored data -/

structure KGRound1Message where
  CPk : Bytes32

structure KGRound2Message where
  ZkPk : Bytes64

structure KGRound3Message where
  DPk : Bytes64

structure KGRound4Message where
  Share : Bytes32

structure KGRound5Message where
  CfsBBytes : List Bytes32

structure Round1Draws where
  (sk rndCommit rndProof : Bytes32)

structure Temp1 where
  (sk pk : Bytes32)
  (DPk zkPk : Bytes64)

structure Temp4 where
  (uids cfsBBytes : List Bytes32)

structure LocalDNodeSaveData where
  (Sk Pk TSk FinalPkBytes : Bytes32)
  IDs : List ℤ
  CurDNodeID : ℤ

/-! ## Rounds 1 to 3 -/

/-- `sk[0] &= 248; sk[31] &= 127; sk[31] |= 64`. -/
def clamp (sk : Bytes32) : Bytes32 := fun i =>
  if i.val = 0 then sk i &&& 248 else if i.val = 31 then (sk i &&& 127) ||| 64 else sk i

def round1Start (n : ℕ) (O : EdOps) (b : KeygenBase) (d : Round1Draws) :
    Outcome (Temp1 × KGRound1Message) := do
  let sk := ScReduce (copy (32 + 32) (clamp d.sk))
  let pk := O.ToBytes (O.GeScalarMultBase sk)
  let (CPk, DPk) := O.Commit d.rndCommit pk
  let zkPk := O.Prove2 d.rndProof sk pk
  let _ ← GetDNodeIDIndex n b
  pure ({ sk, pk, DPk, zkPk }, { CPk })

/-- The results are `Save.IDs`, `Save.CurDNodeID` and the message. -/
def round2Start (n : ℕ) (b : KeygenBase) (t1 : Temp1) : Outcome ((List ℤ × ℤ) × KGRound2Message) := do
  let ids ← b.GetIDs
  let curIndex ← GetDNodeIDIndex n b
  let CurDNodeID ← deref ids[curIndex.val]?
  pure ((ids, CurDNodeID), { ZkPk := t1.zkPk })

def round3Start (n : ℕ) (b : KeygenBase) (t1 : Temp1) : Outcome KGRound3Message := do
  let _ ← GetDNodeIDIndex n b
  pure { DPk := t1.DPk }

/-! ## Round 4 -/

/-- The key a party opened. -/
def openedPk (msg3 : KGRound3Message) : Bytes32 := upper msg3.DPk

/-- The opened keys of all parties, in order. -/
def pkSet (msgs3 : Fin n → KGRound3Message) : List UInt8 :=
  (List.ofFn fun k => slice (openedPk (msgs3 k))).flatten

/-- `a = H(pk, PkSet)`. -/
def weightOf (O : EdOps) (msgs3 : Fin n → KGRound3Message) (k : Fin n) : Bytes32 :=
  ScReduce (O.sha512 (slice (openedPk (msgs3 k)) ++ pkSet msgs3))

def round4Check (O : EdOps) (msg1 : KGRound1Message) (msg2 : KGRound2Message)
    (msg3 : KGRound3Message) : Outcome Unit := do
  require (O.Verify msg1.CPk msg3.DPk)
    "smpc back-end internal error:commitment check fail in req ed pubkey"
  require (O.VerifyZk2 msg2.ZkPk (openedPk msg3))
    "smpc back-end internal error:zeroknowledge check fail"

/-- The share at position `k` is for the party with the id at that position. -/
def round4Start (O : EdOps) (b : KeygenBase) (rnds : ℕ → Bytes32) (t1 : Temp1)
    (msgs1 : Fin n → KGRound1Message) (msgs2 : Fin n → KGRound2Message)
    (msgs3 : Fin n → KGRound3Message) : Outcome (Temp4 × (Fin n → KGRound4Message)) := do
  let curIndex ← GetDNodeIDIndex n b
  let ids ← b.GetIDs
  let _ ← forRange fun k => round4Check O (msgs1 k) (msgs2 k) (msgs3 k)
  let ask := ScMul (weightOf O msgs3 curIndex) t1.sk
  let uids := ids.map uidBytes
  let (_, cfsBBytes, shares) ← O.Vss ask rnds uids b.threshold n
  let msgs4 ← forRange fun k => do
    let Share ← deref shares[k.val]?
    pure { Share }
  pure ({ uids, cfsBBytes }, msgs4)

def round5Start (n : ℕ) (b : KeygenBase) (t4 : Temp4) : Outcome KGRound5Message := do
  let _ ← GetDNodeIDIndex n b
  pure { CfsBBytes := t4.cfsBBytes }

/-! ## Round 6 -/

/-- `askB`, the weighted key of party `k`. -/
def weightedKey (O : EdOps) (msgs3 : Fin n → KGRound3Message) (k : Fin n) : O.Ge :=
  O.GeScalarMult (weightOf O msgs3 k) (O.FromBytes (openedPk (msgs3 k)))

/-- The results are `Save.TSk` and `Save.FinalPkBytes`. -/
def round6Start (O : EdOps) (b : KeygenBase) (t4 : Temp4) (msgs3 : Fin n → KGRound3Message)
    (msgs4 : Fin n → KGRound4Message) (msgs5 : Fin n → KGRound5Message) :
    Outcome (Bytes32 × Bytes32) := do
  let curIndex ← GetDNodeIDIndex n b
  let _ ← b.GetIDs
  let _ ← forRange fun k => do
    let uid ← deref t4.uids[curIndex.val]?
    let shareUFlag ← O.VerifyVss (msgs4 k).Share uid (msgs5 k).CfsBBytes
    require shareUFlag "smpc back-end internal error:vss share verification fail"
  let _ ← forRange fun k => do
    let tt ← deref (msgs5 k).CfsBBytes.head?
    require (O.ToBytes (weightedKey O msgs3 k) = tt)
      "smpc back-end internal error:VSS Coefficient verification fail"
  let tSk := (List.ofFn fun k => (msgs4 k).Share).foldl ScAdd scZero
  let finalPk := O.sumRange (weightedKey O msgs3)
  pure (tSk, O.ToBytes finalPk)

/-- What round 6 checked and stored when it returned; `uid` is the array of the party's own id. -/
theorem round6_eq_ok {O : EdOps} {b : KeygenBase} {t4 : Temp4} {msgs3 : Fin n → KGRound3Message}
    {msgs4 : Fin n → KGRound4Message} {msgs5 : Fin n → KGRound5Message} {TSk FinalPkBytes : Bytes32} :
    round6Start O b t4 msgs3 msgs4 msgs5 = .ok (TSk, FinalPkBytes) ↔
      ∃ curIndex, GetDNodeIDIndex n b = .ok curIndex ∧ (∃ ids, b.GetIDs = .ok ids) ∧
        (∀ k, ∃ uid, t4.uids[curIndex.val]? = some uid ∧
          O.VerifyVss (msgs4 k).Share uid (msgs5 k).CfsBBytes = .ok true) ∧
        (∀ k, (msgs5 k).CfsBBytes.head? = some (O.ToBytes (weightedKey O msgs3 k))) ∧
        TSk = (List.ofFn fun k => (msgs4 k).Share).foldl ScAdd scZero ∧
        FinalPkBytes = O.ToBytes (O.sumRange (weightedKey O msgs3)) := by
  simp only [round6Start, eq_ok, forRange_eq_ok, Prod.mk.injEq, decide_eq_true_eq]
  constructor
  · rintro ⟨curIndex, index_ok, ids, ids_ok, -, verified, -, heads, rfl, rfl⟩
    refine ⟨curIndex, index_ok, ⟨ids, ids_ok⟩, fun k => ?_, fun k => ?_, rfl, rfl⟩
    · obtain ⟨uid, uid_ok, flag, flag_ok, rfl⟩ := verified k
      exact ⟨uid, uid_ok, flag_ok⟩
    · obtain ⟨tt, head, rfl⟩ := heads k
      exact head
  · rintro ⟨curIndex, index_ok, ⟨ids, ids_ok⟩, verified, heads, rfl, rfl⟩
    refine ⟨curIndex, index_ok, ids, ids_ok, fun _ => (), fun k => ?_, fun _ => (), fun k => ?_, rfl,
      rfl⟩
    · obtain ⟨uid, uid_ok, flag_ok⟩ := verified k
      exact ⟨uid, uid_ok, true, flag_ok, rfl⟩
    · exact ⟨_, heads k, rfl⟩

/-- The loop that adds up the shares. -/
theorem cast_foldl_ScAdd (shares : List Bytes32) (acc : Bytes32) :
    (value (shares.foldl ScAdd acc) : ZMod L) =
      value acc + (shares.map fun share => (value share : ZMod L)).sum := by
  induction shares generalizing acc with
  | nil => simp
  | cons share shares ih =>
    rw [List.foldl_cons, ih, cast_ScAdd, List.map_cons, List.sum_cons, add_assoc]

theorem reduced_foldl_ScAdd (shares : List Bytes32) {acc : Bytes32} (start : Reduced acc) :
    Reduced (shares.foldl ScAdd acc) := by
  induction shares generalizing acc with
  | nil => exact start
  | cons share shares ih => exact ih (reduced_ScAdd _ _)

end ThresholdDsa.Eddsa.Keygen
