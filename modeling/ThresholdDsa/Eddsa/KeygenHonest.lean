/-
# An honest run of EdDSA key generation

`runKeygen` lets all parties run rounds 1 to 6 with every message delivered as it
was sent; the parties have the ids `1, …, n`, and the messages of round 0 arrive in
any order.

Every proof and opening verifies, so every party deals its weighted key.  The
shares a party receives add up to the value of the sum of the dealt polynomials at
its id, and the sum has the logarithm of the group's key as its constant term
(`edKeygen_correct`).
-/
import ThresholdDsa.Eddsa.KeygenRounds

namespace ThresholdDsa.Eddsa.Keygen

open LittleEndian Outcome GoText Ed Polynomial
open Ecdsa.Keygen (KeygenBase uidOf uidOf_hexEncode_itoa)

variable {n : ℕ}

/-! ## The run -/

structure PartyDraws where
  r1 : Round1Draws
  rnds : ℕ → Bytes32

structure KeygenTranscript (n : ℕ) where
  t1 : Fin n → Temp1
  m1 : Fin n → KGRound1Message
  saved2 : Fin n → List ℤ × ℤ
  m2 : Fin n → KGRound2Message
  m3 : Fin n → KGRound3Message
  t4 : Fin n → Temp4
  /-- `m4 i k` is the share that party `i` sends to party `k`. -/
  m4 : Fin n → Fin n → KGRound4Message
  m5 : Fin n → KGRound5Message
  save : Fin n → LocalDNodeSaveData

/-- All parties run rounds 1 to 6; the messages of party `i` are in slot `i`. -/
def runKeygen (O : EdOps) (base : Fin n → KeygenBase) (draws : Fin n → PartyDraws) :
    Outcome (KeygenTranscript n) := do
  let r1 ← forRange fun i => round1Start n O (base i) (draws i).r1
  let m1 := fun k => (r1 k).2
  let r2 ← forRange fun i => round2Start n (base i) (r1 i).1
  let m2 := fun k => (r2 k).2
  let m3 ← forRange fun i => round3Start n (base i) (r1 i).1
  let r4 ← forRange fun i => round4Start O (base i) (draws i).rnds (r1 i).1 m1 m2 m3
  let m5 ← forRange fun i => round5Start n (base i) (r4 i).1
  let r6 ← forRange fun i => round6Start O (base i) (r4 i).1 m3 (fun k => (r4 k).2 i) m5
  pure { t1 := fun i => (r1 i).1, m1, saved2 := fun i => (r2 i).1, m2, m3, t4 := fun i => (r4 i).1,
         m4 := fun i => (r4 i).2, m5,
         save := fun i => { Sk := (r1 i).1.sk, Pk := (r1 i).1.pk, TSk := (r6 i).1,
                            FinalPkBytes := (r6 i).2, IDs := (r2 i).1.1,
                            CurDNodeID := (r2 i).1.2 } }

/-- The parties with the ids `1, …, n` and threshold `t`. -/
structure Parties (base : Fin n → KeygenBase) (t : ℕ) : Prop where
  dnodeid_eq : ∀ i, (base i).dnodeid = hexEncode (itoa (i.val + 1))
  round0 : ∀ i, (base i).kgRound0Messages.Perm (List.ofFn fun j => (base j).dnodeid)
  threshold_eq : ∀ i, (base i).threshold = t

/-! ## Ids -/

variable {base : Fin n → KeygenBase} {t : ℕ} {O : EdOps} {E : Type} [AddCommGroup E]

section

variable (parties : Parties base t)

include parties

theorem getIDs_eq (i : Fin n) : (base i).GetIDs = .ok (List.ofFn fun j : Fin n => (j.val + 1 : ℤ)) := by
  refine KeygenBase.getIDs_of_perm (fun j => ?_) ?_ (parties.round0 i)
  · rw [parties.dnodeid_eq, uidOf_hexEncode_itoa]
    push_cast
    rfl
  · intro a b before
    have : a.val ≤ b.val := before
    simp only
    omega

theorem getDNodeIDIndex_eq (i : Fin n) : GetDNodeIDIndex n (base i) = .ok i := by
  have named : (base i).dnodeid ≠ [] := by
    intro empty
    have read := uidOf_hexEncode_itoa (i.val + 1)
    rw [← parties.dnodeid_eq, empty] at read
    have fails : uidOf [] = .error .panic := rfl
    exact absurd (fails.symm.trans read) (by simp)
  have full : (base i).kgRound0Messages.length = n := by
    rw [(parties.round0 i).length_eq, List.length_ofFn]
  have found : ((List.finRange n).find? fun k =>
      (List.ofFn fun j : Fin n => (j.val + 1 : ℤ))[k.val]? = some ((i.val + 1 : ℕ) : ℤ)) = some i := by
    refine find?_finRange fun k => ?_
    rw [decide_eq_true_eq, List.getElem?_ofFn, dif_pos k.isLt, Option.some.injEq, Fin.ext_iff]
    push_cast
    omega
  rw [GetDNodeIDIndex, if_neg (by simp [named, full]), getIDs_eq parties, parties.dnodeid_eq,
    uidOf_hexEncode_itoa, ok_bind, ok_bind, found]
  rfl

end

/-! ## What an honest party deals -/

/-- The secret key made of a draw. -/
def secretKey (d : Round1Draws) : Bytes32 := ScReduce (copy (32 + 32) (clamp d.sk))

/-- The weight of the key at position `i` in a list of keys. -/
def keyWeight (O : EdOps) (pk : Fin n → Bytes32) (i : Fin n) : Bytes32 :=
  ScReduce (O.sha512 (slice (pk i) ++ (List.ofFn fun k => slice (pk k)).flatten))

/-- The id of party `i`, as the rounds write it into an array. -/
def partyId (i : Fin n) : Bytes32 := uidBytes ((i.val : ℤ) + 1)

theorem value_partyId (small : n ≤ 255) (i : Fin n) : value (partyId i) = i.val + 1 := by
  have := value_uidBytes (v := i.val + 1) (by omega) (by omega)
  rw [← this, partyId]
  push_cast
  rfl

theorem usableId_partyId (small : n ≤ 255) (i : Fin n) : UsableId (partyId i) := by
  have := usableId_uidBytes (v := i.val + 1) (by omega) (by omega)
  rw [partyId]
  exact_mod_cast this

/-- Ids up to 255 differ modulo the order. -/
theorem partyId_injective (small : n ≤ 255) :
    Function.Injective fun i : Fin n => (value (partyId i) : ZMod L) := by
  intro a b same
  have equal := uidBytes_inj (v := a.val + 1) (w := b.val + 1) (by omega) (by omega) (by omega)
    (by omega) (by exact_mod_cast same)
  exact Fin.ext (by omega)

theorem reduced_partyId (small : n ≤ 255) (i : Fin n) : Reduced (partyId i) := by
  have large := large_L
  rw [Reduced, value_partyId small]
  omega

/-- What round 1 stores and sends. -/
def round1Data (O : EdOps) (d : Round1Draws) : Temp1 × KGRound1Message :=
  let sk := secretKey d
  let pk := O.ToBytes (O.GeScalarMultBase sk)
  ({ sk, pk, DPk := (O.Commit d.rndCommit pk).2, zkPk := O.Prove2 d.rndProof sk pk },
    { CPk := (O.Commit d.rndCommit pk).1 })

/-- The message of round 3. -/
def round3Data (O : EdOps) (d : Round1Draws) : KGRound3Message := { DPk := (round1Data O d).1.DPk }

/-- The coefficients that party `i` deals. -/
def dealtBy (O : EdOps) (draws : Fin n → PartyDraws) (t : ℕ) (i : Fin n) : List Bytes32 :=
  coefficients (ScMul (keyWeight O (fun k => (round1Data O (draws k).r1).1.pk) i)
    (secretKey (draws i).r1)) (draws i).rnds t

/-- The points of the coefficients, which party `i` sends in round 5. -/
def pointsBy (O : EdOps) (draws : Fin n → PartyDraws) (t : ℕ) (i : Fin n) : List Bytes32 :=
  (dealtBy O draws t i).map fun cf => O.ToBytes (O.GeScalarMultBase cf)

theorem reduced_dealtBy (O : EdOps) (draws : Fin n → PartyDraws) (t : ℕ) (i : Fin n) :
    ∀ cf ∈ dealtBy O draws t i, Reduced cf :=
  reduced_coefficients (reduced_ScMul _ _) _ _

section

variable (G : O.Model E) (parties : Parties base t) (draws : Fin n → PartyDraws) (d : Round1Draws)
  (i : Fin n)

/-- An honest key is the point of its secret key. -/
theorem pk_eq :
    (round1Data O d).1.pk = G.encode (G.mult (value (secretKey d))) :=
  G.toBytes_eq (G.point_base (reduced_ScReduce _))

theorem openedPk_round1Data :
    openedPk (round3Data O d) = (round1Data O d).1.pk := by
  simp [openedPk, round3Data, round1Data, EdOps.Commit]

include G in
theorem round4Check_honest :
    round4Check O (round1Data O d).2 { ZkPk := (round1Data O d).1.zkPk } (round3Data O d) = .ok () := by
  have committed : O.Verify (round1Data O d).2.CPk (round3Data O d).DPk = true :=
    O.verify_commit _ _
  have proved : O.VerifyZk2 (round1Data O d).1.zkPk (round1Data O d).1.pk = true :=
    EdOps.verifyZk2_prove2 G _ _ (pk_eq G d)
  rw [round4Check, openedPk_round1Data, committed, proved]
  rfl

/-- The weights of an honest run. -/
theorem weightOf_honest :
    weightOf O (fun k => round3Data O (draws k).r1) i =
      keyWeight O (fun k => (round1Data O (draws k).r1).1.pk) i := by
  simp only [weightOf, keyWeight, pkSet, openedPk_round1Data]

/-- The weighted key of party `k` is the point of the secret it deals. -/
theorem point_weightedKey (k : Fin n) :
    G.point (weightedKey O (fun k => round3Data O (draws k).r1) k) =
      some (G.mult (value (keyWeight O (fun k => (round1Data O (draws k).r1).1.pk) k) *
        value (secretKey (draws k).r1))) := by
  rw [weightedKey, openedPk_round1Data, weightOf_honest, pk_eq G]
  exact G.point_mult (reduced_ScReduce _) (G.point_fromBytes _)

include G in
theorem head_pointsBy (t : ℕ) (k : Fin n) : (pointsBy O draws t k).head? =
    some (O.ToBytes (weightedKey O (fun k => round3Data O (draws k).r1) k)) := by
  rw [pointsBy, dealtBy, coefficients, List.map_cons, List.head?_cons,
    G.toBytes_eq (G.point_base (reduced_ScMul _ _)), G.toBytes_eq (point_weightedKey G draws k),
    cast_ScMul]

include G in
/-- A dealt share passes the check. -/
theorem verifyVss_dealt (small : n ≤ 255) {share : Bytes32} (reduced : Reduced share)
    {i k : Fin n} (dealt : (value share : ZMod L) =
      (dealtPoly (dealtBy O draws t k)).eval (value (partyId i) : ZMod L)) :
    O.VerifyVss share (partyId i) (pointsBy O draws t k) = .ok true := by
  rw [pointsBy, points_eq G (reduced_dealtBy O draws t k), dealtBy, coefficients, List.map_cons]
  exact (verifyVss_iff G _ _ (EdOps.Model.last_le (reduced_partyId small i))
    (EdOps.Model.last_le reduced)).mpr dealt

include parties

theorem round1_eq :
    round1Start n O (base i) (draws i).r1 = .ok (round1Data O (draws i).r1) := by
  rw [round1Start, getDNodeIDIndex_eq parties]
  rfl

theorem round2_eq (t1 : Temp1) :
    round2Start n (base i) t1 =
      .ok ((List.ofFn fun j : Fin n => (j.val + 1 : ℤ), (i.val + 1 : ℤ)), { ZkPk := t1.zkPk }) := by
  rw [round2Start, getDNodeIDIndex_eq parties, getIDs_eq parties, ok_bind, ok_bind,
    List.getElem?_ofFn, dif_pos i.isLt]
  rfl

theorem round3_eq (t1 : Temp1) : round3Start n (base i) t1 = .ok { DPk := t1.DPk } := by
  rw [round3Start, getDNodeIDIndex_eq parties]
  rfl

include G

/-- Round 4 deals a polynomial whose constant term is the weighted key. -/
theorem round4_eq (two_le : 2 ≤ t) (t_le : t ≤ n) (small : n ≤ 255) (i : Fin n) :
    ∃ share : Fin n → Bytes32,
      round4Start O (base i) (draws i).rnds (round1Data O (draws i).r1).1
          (fun k => (round1Data O (draws k).r1).2)
          (fun k => { ZkPk := (round1Data O (draws k).r1).1.zkPk })
          (fun k => round3Data O (draws k).r1) =
        .ok ({ uids := List.ofFn (n := n) partyId, cfsBBytes := pointsBy O draws t i },
             fun k => { Share := share k }) ∧
      ∀ k, Reduced (share k) ∧
        (value (share k) : ZMod L) = (dealtPoly (dealtBy O draws t i)).eval (value (partyId k) : ZMod L) := by
  obtain ⟨share, dealt, shares⟩ := vss_eq_ok O
    (ScMul (keyWeight O (fun k => (round1Data O (draws k).r1).1.pk) i) (secretKey (draws i).r1))
    (draws i).rnds (usableId_partyId small) two_le t_le
  refine ⟨share, ?_, shares⟩
  have checked : (forRange fun k : Fin n => round4Check O (round1Data O (draws k).r1).2
      { ZkPk := (round1Data O (draws k).r1).1.zkPk } (round3Data O (draws k).r1)) =
      .ok fun _ => () :=
    forRange_eq_ok.mpr fun k => round4Check_honest G _
  have sent : (forRange fun k : Fin n => do
      let Share ← deref (List.ofFn share)[k.val]?
      pure ({ Share } : KGRound4Message)) = .ok fun k => { Share := share k } := by
    refine forRange_eq_ok.mpr fun k => ?_
    rw [List.getElem?_ofFn, dif_pos k.isLt]
    rfl
  have uids : (List.ofFn fun j : Fin n => (j.val + 1 : ℤ)).map uidBytes =
      List.ofFn (n := n) partyId := by
    rw [List.map_ofFn]
    rfl
  rw [round4Start, getDNodeIDIndex_eq parties, getIDs_eq parties, parties.threshold_eq]
  simp only [ok_bind, checked, weightOf_honest, uids]
  have secret : (round1Data O (draws i).r1).1.sk = secretKey (draws i).r1 := rfl
  rw [secret, dealt]
  simp only [ok_bind, sent]
  rfl

/-- Round 6 accepts the honest shares and stores their sum. -/
theorem round6_eq {share : Fin n → Fin n → Bytes32} (small : n ≤ 255)
    (dealt : ∀ k i, Reduced (share k i) ∧ (value (share k i) : ZMod L) =
      (dealtPoly (dealtBy O draws t k)).eval (value (partyId i) : ZMod L)) (i : Fin n) :
    round6Start O (base i)
        { uids := List.ofFn (n := n) partyId, cfsBBytes := pointsBy O draws t i }
        (fun k => round3Data O (draws k).r1) (fun k => { Share := share k i })
        (fun k => { CfsBBytes := pointsBy O draws t k }) =
      .ok ((List.ofFn fun k => share k i).foldl ScAdd scZero,
        O.ToBytes (O.sumRange (weightedKey O fun k => round3Data O (draws k).r1))) := by
  refine round6_eq_ok.mpr ⟨i, getDNodeIDIndex_eq parties i, ⟨_, getIDs_eq parties i⟩, fun k => ?_,
    fun k => head_pointsBy G draws t k, rfl, rfl⟩
  refine ⟨partyId i, ?_, verifyVss_dealt G draws small (dealt k i).1 (dealt k i).2⟩
  rw [List.getElem?_ofFn, dif_pos i.isLt]

end

/-! ## The result -/

/-- The sum of the dealt polynomials. -/
noncomputable def groupPoly (O : EdOps) (draws : Fin n → PartyDraws) (t : ℕ) : (ZMod L)[X] :=
  ∑ k, dealtPoly (dealtBy O draws t k)

theorem degree_groupPoly_lt (O : EdOps) (draws : Fin n → PartyDraws) (pos : 0 < t) :
    (groupPoly O draws t).degree < t := by
  rw [groupPoly]
  refine (degree_sum_le _ _).trans_lt ((Finset.sup_lt_iff (WithBot.bot_lt_coe t)).mpr fun k _ => ?_)
  have degree := degree_dealtPoly_lt (dealtBy O draws t k)
  rwa [dealtBy, length_coefficients _ _ pos] at degree

theorem eval_groupPoly_zero (O : EdOps) (draws : Fin n → PartyDraws) (t : ℕ) :
    (groupPoly O draws t).eval 0 =
      ∑ k, (value (keyWeight O (fun k => (round1Data O (draws k).r1).1.pk) k) : ZMod L) *
        value (secretKey (draws k).r1) := by
  rw [groupPoly, eval_finsetSum]
  refine Finset.sum_congr rfl fun k _ => ?_
  rw [dealtBy, coefficients, eval_dealtPoly_zero, cast_ScMul]

/-- The sum of the shares of party `i` lies on the sum of the polynomials. -/
theorem value_sum_shares {draws : Fin n → PartyDraws} {share : Fin n → Bytes32}
    {x : ZMod L} (dealt : ∀ k, (value (share k) : ZMod L) = (dealtPoly (dealtBy O draws t k)).eval x) :
    (value ((List.ofFn share).foldl ScAdd scZero) : ZMod L) = (groupPoly O draws t).eval x := by
  rw [cast_foldl_ScAdd, value_scZero, Nat.cast_zero, zero_add, List.map_ofFn, List.sum_ofFn, groupPoly,
    eval_finsetSum]
  exact Finset.sum_congr rfl fun k _ => dealt k

/-- `finalPk`: the sum of the keys with their weights. -/
def groupKey {O : EdOps} {E : Type} [AddCommGroup E] (G : O.Model E)
    (save : Fin n → LocalDNodeSaveData) : E :=
  ∑ k, value (keyWeight O (fun k => (save k).Pk) k) • value (save k).Sk • G.B

section

variable (G : O.Model E) (parties : Parties base t) (draws : Fin n → PartyDraws)

/-- The transcript of an honest run in which party `k` deals `share k i` to party `i`. -/
def honestTranscript (O : EdOps) (draws : Fin n → PartyDraws) (t : ℕ)
    (share : Fin n → Fin n → Bytes32) : KeygenTranscript n where
  t1 i := (round1Data O (draws i).r1).1
  m1 i := (round1Data O (draws i).r1).2
  saved2 i := (List.ofFn fun j : Fin n => (j.val + 1 : ℤ), (i.val + 1 : ℤ))
  m2 i := { ZkPk := (round1Data O (draws i).r1).1.zkPk }
  m3 i := round3Data O (draws i).r1
  t4 i := { uids := List.ofFn (n := n) partyId, cfsBBytes := pointsBy O draws t i }
  m4 i k := { Share := share i k }
  m5 i := { CfsBBytes := pointsBy O draws t i }
  save i :=
    { Sk := secretKey (draws i).r1
      Pk := (round1Data O (draws i).r1).1.pk
      TSk := (List.ofFn fun k => share k i).foldl ScAdd scZero
      FinalPkBytes := O.ToBytes (O.sumRange (weightedKey O fun k => round3Data O (draws k).r1))
      IDs := List.ofFn fun j : Fin n => (j.val + 1 : ℤ)
      CurDNodeID := (i.val + 1 : ℤ) }

include G parties

/-- Honest rounds return, with shares of the dealt polynomials. -/
theorem runKeygen_eq (two_le : 2 ≤ t) (t_le : t ≤ n) (small : n ≤ 255) :
    ∃ share : Fin n → Fin n → Bytes32,
      runKeygen O base draws = .ok (honestTranscript O draws t share) ∧
      ∀ k i, Reduced (share k i) ∧ (value (share k i) : ZMod L) =
        (dealtPoly (dealtBy O draws t k)).eval (value (partyId i) : ZMod L) := by
  choose share dealing dealt using round4_eq G parties draws two_le t_le small
  refine ⟨share, ?_, dealt⟩
  simp only [runKeygen, eq_ok, forRange_eq_ok]
  refine ⟨_, round1_eq parties draws, _, fun i => round2_eq parties i _, _,
    fun i => round3_eq parties i _, _, dealing,
    fun k => { CfsBBytes := pointsBy O draws t k }, fun i => ?_, _,
    round6_eq G parties draws small dealt, rfl⟩
  rw [round5Start, getDNodeIDIndex_eq parties]
  rfl

/-- **Honest key generation.**  Every check passes, all parties store the same key, the weighted
sum of their keys, and any `t` or more of the stored shares combine to its logarithm. -/
theorem edKeygen_correct (two_le : 2 ≤ t) (t_le : t ≤ n) (small : n ≤ 255) :
    ∃ tr, runKeygen O base draws = .ok tr ∧
      (∀ i, (tr.save i).Sk = secretKey (draws i).r1 ∧
        (tr.save i).Pk = G.encode (value (tr.save i).Sk • G.B) ∧
        (tr.save i).CurDNodeID = i.val + 1) ∧
      (∀ i k, O.VerifyVss (tr.m4 k i).Share (partyId i) (tr.m5 k).CfsBBytes = .ok true) ∧
      (∀ k, (tr.m5 k).CfsBBytes.head? = some (O.ToBytes (weightedKey O tr.m3 k))) ∧
      (∀ i, (tr.save i).FinalPkBytes = G.encode (groupKey G tr.save)) ∧
      ∀ (m : ℕ) (chosen : Fin m → Fin n), Function.Injective chosen → t ≤ m →
        value (Combine (fun j => (tr.save (chosen j)).TSk)
          fun j => uidBytes (tr.save (chosen j)).CurDNodeID) • G.B = groupKey G tr.save := by
  obtain ⟨share, run, dealt⟩ := runKeygen_eq G parties draws two_le t_le small
  have key : groupKey G (honestTranscript O draws t share).save =
      G.mult ((groupPoly O draws t).eval 0) := by
    rw [eval_groupPoly_zero, map_sum, groupKey]
    refine Finset.sum_congr rfl fun k _ => ?_
    rw [← G.nsmul_mult, G.mult_natCast]
    rfl
  have same : O.ToBytes (O.sumRange (weightedKey O fun k => round3Data O (draws k).r1)) =
      G.encode (groupKey G (honestTranscript O draws t share).save) := by
    rw [G.toBytes_eq (G.point_sumRange (by omega) (point_weightedKey G draws)), key,
      eval_groupPoly_zero, map_sum]
  refine ⟨_, run, fun i => ⟨rfl, ?_, rfl⟩,
    fun i k => verifyVss_dealt G draws small (dealt k i).1 (dealt k i).2,
    head_pointsBy G draws t, fun _ => same, fun m chosen distinct enough => ?_⟩
  · rw [← G.mult_natCast]
    exact pk_eq G _
  · have degree : (groupPoly O draws t).degree < m :=
      (degree_groupPoly_lt O draws (by omega)).trans_le (by exact_mod_cast enough)
    have combined := combine_eval (fun j => partyId (chosen j))
      (fun a b equal => distinct (partyId_injective small equal)) degree
      (fun j => value_sum_shares fun k => (dealt k (chosen j)).2)
    rw [← G.mult_natCast, key]
    exact congrArg G.mult combined

end

/-- Two parties, whose ids arrived in opposite orders. -/
def pairBase (i : Fin 2) : KeygenBase where
  dnodeid := hexEncode (itoa (i.val + 1))
  threshold := 2
  kgRound0Messages := ![[hexEncode (itoa 1), hexEncode (itoa 2)],
    [hexEncode (itoa 2), hexEncode (itoa 1)]] i

theorem parties_pairBase : Parties pairBase 2 where
  dnodeid_eq _ := rfl
  round0 i := by
    fin_cases i
    · exact List.Perm.refl _
    · exact List.Perm.swap _ _ _
  threshold_eq _ := rfl

def zeroDraws : PartyDraws where
  r1 := { sk := scZero, rndCommit := scZero, rndProof := scZero }
  rnds _ := scOne

/-- Every hash is 1. -/
def oneHash (_ : List UInt8) : Bytes64 := copy (32 + 32) scOne

theorem edKeygen_correct_pair :
    ∃ tr, runKeygen (EdOps.residueOps oneHash) pairBase (fun _ => zeroDraws) = .ok tr ∧
      (∀ k, value (keyWeight (EdOps.residueOps oneHash) (fun k => (tr.save k).Pk) k) = 1) ∧
      (∀ i, (tr.save i).FinalPkBytes = (EdOps.residueModel oneHash).encode
        (groupKey (EdOps.residueModel oneHash) tr.save)) ∧
      value (Combine (fun j => (tr.save j).TSk) fun j => uidBytes (tr.save j).CurDNodeID) •
        (EdOps.residueModel oneHash).B = groupKey (EdOps.residueModel oneHash) tr.save := by
  obtain ⟨tr, run, -, -, -, key, combines⟩ := edKeygen_correct (EdOps.residueModel oneHash)
    parties_pairBase (fun _ => zeroDraws) le_rfl le_rfl (by norm_num)
  refine ⟨tr, run, fun _ => ?_, key, combines 2 id Function.injective_id le_rfl⟩
  exact (by decide +kernel : value (ScReduce (oneHash [])) = 1)

end ThresholdDsa.Eddsa.Keygen
