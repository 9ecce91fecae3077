/-
# Rounds 0 to 7 of the package `keygen`

Each `Start` is a function of the party's base data, of its draws, of what its
earlier rounds stored and of the messages in its slots, one slot per party.  The
result is what the round stores and the messages it sends.  Round 0 only sends
the party's id; `KeygenBase.kgRound0Messages` is what arrived of it.

The rounds read a party's position from its own id, `GetDNodeIDIndex`, and the
positions of all ids from the sorted list `GetIDs`.
-/
import ThresholdDsa.Lib.GoText
import ThresholdDsa.Ec2.Ntilde
import ThresholdDsa.Ecdsa.SaveData

namespace ThresholdDsa.Ecdsa.Keygen

open BigInt Outcome Ec2 GoText List

variable {n : ℕ}

/-- The fields of `base` that do not change after round 0; `n` is `dnodecount`. -/
structure KeygenBase where
  /-- The hexadecimal text of the decimal id. -/
  dnodeid : List Char
  threshold : ℕ
  /-- The senders of the round-0 messages, in the order of arrival. -/
  kgRound0Messages : List (List Char)

/-- The number behind an id text; a text that is no number leaves a nil pointer. -/
def uidOf (id : List Char) : Outcome ℤ := do
  let uidtmp ← orError "encoding/hex: invalid" (hexDecode id)
  deref (setString10 uidtmp)

def KeygenBase.GetIDs (b : KeygenBase) : Outcome (List ℤ) := do
  let ids ← b.kgRound0Messages.mapM uidOf
  pure (ids.insertionSort (· ≤ ·))

/-- The text that `SetDNodeID` makes of a number is read back. -/
theorem uidOf_hexEncode_itoa (uid : ℕ) : uidOf (hexEncode (itoa uid)) = .ok (uid : ℤ) := by
  have decoded : hexDecode (hexEncode (itoa uid)) = some (itoa uid) := by
    apply hexDecode_hexEncode
    intro c mem
    have := lt_A_of_isDigit (itoa_isDigit mem)
    exact (UInt32.lt_iff_toNat_lt.mp this).trans (by decide)
  simp [uidOf, decoded, orError, setString10_itoa, ok_bind]

/-- The ids in order, whatever the order of their arrival. -/
theorem KeygenBase.getIDs_of_perm {b : KeygenBase} {ids : Fin n → List Char} {uid : Fin n → ℤ}
    (read : ∀ j, uidOf (ids j) = .ok (uid j)) (sorted : Monotone uid)
    (arrived : b.kgRound0Messages.Perm (List.ofFn ids)) : b.GetIDs = .ok (List.ofFn uid) := by
  have mapped : b.kgRound0Messages.mapM uidOf =
      .ok (b.kgRound0Messages.map fun id => (uidOf id).toOption.getD 0) := by
    rw [mapM_eq_ok, forall₂_map_right_iff, forall₂_same]
    intro id mem
    obtain ⟨j, rfl⟩ := (mem_ofFn' _ _).mp (arrived.mem_iff.mp mem)
    rw [read]
    rfl
  have perm : (b.kgRound0Messages.map fun id => (uidOf id).toOption.getD 0).Perm
      (List.ofFn uid) := by
    have := arrived.map fun id => (uidOf id).toOption.getD 0
    rw [map_ofFn] at this
    convert this using 2
    funext j
    simp [read, Except.toOption]
  have ordered : (List.ofFn uid).Pairwise (· ≤ ·) := by
    rw [pairwise_ofFn]
    exact fun _ _ before => sorted before.le
  simp only [KeygenBase.GetIDs, eq_ok]
  exact ⟨_, mapped, ((perm_insertionSort _ _).trans perm).eq_of_pairwise'
    (pairwise_insertionSort _ _) ordered⟩

/-- The index `-1`, returned without an error while ids are missing, panics in the slot access
that follows. -/
def KeygenBase.GetDNodeIDIndex (n : ℕ) (b : KeygenBase) : Outcome (Fin n) :=
  if b.dnodeid = [] ∨ b.kgRound0Messages.length ≠ n then .error .panic
  else do
    let idtmp ← uidOf b.dnodeid
    orError "get dnode index fail,no found in kgRound0Messages"
      ((List.finRange n).find? fun i => (i.val + 1 : ℤ) = idtmp)

/-! ## Messages -/

structure KGRound1Message where
  (ComC ComCBip32 : ℤ)
  U1PaillierPk : PublicKey

structure KGRound2Message where
  (ID Share : ℤ)

structure KGRound2Message1 where
  C1 : ℤ

structure KGRound2Message2 where
  Num : ℤ
  SfPf : SquareFreeProof

structure KGRound3Message where
  (ComU1GD ComC1GD : List ℤ)
  U1PolyGG : List (ℤ × ℤ)

structure KGRound4Message where
  U1NtildeH1H2 : NtildeH1H2
  (NtildeProof1 NtildeProof2 : NtildeProof)
  ComXiC : ℤ

structure KGRound5Message where
  ComXiGD : List ℤ

structure KGRound5Message1 where
  Num : ℤ
  HvPf : HvProof

structure KGRound5Message2 where
  Num : ℤ
  SfPf : SquareFreeProof

structure KGRound6Message where
  U1zkXiProof : SchnorrProof
  CheckPubkeyStatus : Bool

/-! ## What the rounds draw and store -/

structure Round1Draws where
  (u1 c1 : ℤ)
  (u1Rnds c1Rnds : ℕ → ℤ)
  (rndU1G rndC1G p q : ℤ)

structure Temp1 where
  u1Poly : List ℤ
  u1PolyG : List (ℤ × ℤ)
  commitU1G : Commitment
  c1 : ℤ
  commitC1G : Commitment
  u1PaillierSk : PrivateKey

structure Round4Draws where
  rndXiG : ℤ
  ntilde : NtildeDraws
  (a1 a2 : ℕ → ℤ)

/-- The secret and public results of round 4, and the primes it keeps for round 5. -/
structure Temp4 where
  SkU1 : ℤ
  Pk : ℤ × ℤ
  C : ℤ
  commitXiG : Commitment
  (p1 p2 : ℤ)

def paillierBitsLen : ℕ := 2048

def ntildeBitsLen : ℕ := 2048

/-- `(*big.Int).BitLen`. -/
def bitLen (x : ℤ) : ℕ := x.natAbs.size

/-! ## Rounds 1 to 3 -/

/-- The coordinates of the committed points, constant term first. -/
def polySecrets (constant : ℤ × ℤ) (polyG : List (ℤ × ℤ)) : List ℤ :=
  [constant.1, constant.2] ++ polyG.tail.flatMap fun p => [p.1, p.2]

def round1Start (n : ℕ) (P : Primitives) (b : KeygenBase) (d : Round1Draws) :
    Outcome (Temp1 × KGRound1Message) := do
  require (!(b.threshold ≤ 1 || n < b.threshold)) "round one fail"
  let (u1Poly, u1PolyG) ← dropError (Vss2Init P.S d.u1 d.u1Rnds b.threshold)
  let (_, c1PolyG) ← dropError (Vss2Init P.S d.c1 d.c1Rnds b.threshold)
  let u1G ← deref (P.S.ScalarBaseMult d.u1.natAbs)
  let commitU1G := P.H.Commit d.rndU1G (polySecrets u1G u1PolyG)
  let c1G ← deref (P.S.ScalarBaseMult d.c1.natAbs)
  let commitC1G := P.H.Commit d.rndC1G (polySecrets c1G c1PolyG)
  let (u1PaillierPk, u1PaillierSk) ←
    orError " Error generating Paillier pubkey/private data " (GenerateKeyPair d.p d.q)
  let commitU1G ← orError " Error generating commitment/bip32-commitment data " commitU1G
  let commitC1G ← orError " Error generating commitment/bip32-commitment data " commitC1G
  let _ ← b.GetDNodeIDIndex n
  pure ({ u1Poly, u1PolyG, commitU1G, c1 := d.c1, commitC1G, u1PaillierSk },
        { ComC := commitU1G.C, ComCBip32 := commitC1G.C, U1PaillierPk := u1PaillierPk })

/-- The share for the id at position `k`. -/
def shareFor (shares : List ShareStruct2) (ids : List ℤ) (k : Fin n) : Outcome KGRound2Message := do
  let id ← deref ids[k.val]?
  let v ← deref (shares.find? fun v => v.ID = id)
  pure { ID := v.ID, Share := v.Share }

variable (P : Primitives) (Z : ModulusProofs)

/-- `num` is the draw of `MustGetRandomInt`.  The results are `Save.IDs`, `Save.CurDNodeID` and
the messages; the share at position `k` is for the party with the id at that position. -/
def round2Start (b : KeygenBase) (num : ℤ) (t1 : Temp1) (msgs1 : Fin n → KGRound1Message) :
    Outcome ((List ℤ × ℤ) × (Fin n → KGRound2Message) × KGRound2Message1 × KGRound2Message2) := do
  let _ ← b.GetDNodeIDIndex n
  let ids ← b.GetIDs
  let CurDNodeID ← deref (setString10 b.dnodeid)
  let _ ← forRange fun k => require (bitLen (msgs1 k).U1PaillierPk.N = paillierBitsLen)
    "got paillier N with not enough bits"
  let sfProof ← orError "get square free proof fail"
    (Z.SquareFreeProve t1.u1PaillierSk.N num t1.u1PaillierSk.L)
  let dul ← ContainsDuplicate ids
  require (!(dul || n < ids.length)) "node id error"
  let u1Shares ← Vss2 P.S t1.u1Poly ids
  let shares ← forRange (shareFor u1Shares ids)
  pure ((ids, CurDNodeID), shares, { C1 := t1.c1 }, { Num := num, SfPf := sfProof })

def round3Start (b : KeygenBase) (t1 : Temp1) (msgs1 : Fin n → KGRound1Message)
    (msgs22 : Fin n → KGRound2Message2) :
    Outcome KGRound3Message := do
  let _ ← b.GetDNodeIDIndex n
  let _ ← b.GetIDs
  let _ ← forRange fun k => require
    (Z.SquareFreeVerify (msgs1 k).U1PaillierPk.N (msgs22 k).Num (msgs22 k).SfPf)
    "check that a zero-knowledge proof that paillier.N is a square-free integer fail"
  pure { ComU1GD := t1.commitU1G.D, ComC1GD := t1.commitC1G.D, U1PolyGG := t1.u1PolyG }

/-! ## Round 4 -/

/-- The checks on one sender's share, commitment and bip32 commitment. -/
def round4Check (msg1 : KGRound1Message) (msg2 : KGRound2Message) (msg21 : KGRound2Message1)
    (msg3 : KGRound3Message) : Outcome Unit := do
  let ushare : ShareStruct2 := { ID := msg2.ID, Share := msg2.Share }
  let verified ← ushare.Verify2 P.S msg3.U1PolyGG
  require verified "verify share data fail"
  require (P.H.Verify P.S { C := msg1.ComC, D := msg3.ComU1GD }) "verify commitment fail"
  let deCommitBip32 : Commitment := { C := msg1.ComCBip32, D := msg3.ComC1GD }
  require (P.H.Verify P.S deCommitBip32) "verify commitment fail"
  let c1G ← deref (P.H.DeCommit P.S deCommitBip32)
  let cGVerify ← deref (P.S.ScalarBaseMult msg21.C1.natAbs)
  let x ← deref c1G[0]?
  let y ← deref c1G[1]?
  require (x = cGVerify.1 ∧ y = cGVerify.2) "verify threshold bip32 fail"

/-- The first point of a sender's opened commitment. -/
def round4Open (msg1 : KGRound1Message) (msg3 : KGRound3Message) :
    Outcome (ℤ × ℤ) := do
  let u1G ← deref (P.H.DeCommit P.S { C := msg1.ComC, D := msg3.ComU1GD })
  let x ← deref u1G[0]?
  let y ← deref u1G[1]?
  pure (x, y)

def round4Start (b : KeygenBase) (d : Round4Draws) (msgs1 : Fin n → KGRound1Message)
    (msgs2 : Fin n → KGRound2Message) (msgs21 : Fin n → KGRound2Message1)
    (msgs3 : Fin n → KGRound3Message) :
    Outcome (Temp4 × KGRound4Message) := do
  let _ ← b.GetDNodeIDIndex n
  let _ ← b.GetIDs
  let _ ← forRange fun k => round4Check P (msgs1 k) (msgs2 k) (msgs21 k) (msgs3 k)
  let pk ← P.S.sumRange fun k => round4Open P (msgs1 k) (msgs3 k)
  let c := (List.ofFn fun k => (msgs21 k).C1).sum % P.S.N
  let skU1 := (List.ofFn fun k => (msgs2 k).Share).sum % P.S.N
  let xiG ← deref (P.S.ScalarBaseMult skU1.natAbs)
  let commitXiG ← orError "error generating commitment for sku1"
    (P.H.Commit d.rndXiG [xiG.1, xiG.2])
  let keys ← orError "gen ntilde h1 h2 fail" (GenerateNtildeH1H2 2048 d.ntilde)
  let nt := keys.ntildeH1H2
  let ntildeProof1 ← NewNtildeProof P.H d.a1 nt.H1 nt.H2 keys.alpha keys.q1 keys.q2 nt.Ntilde
  let ntildeProof2 ← NewNtildeProof P.H d.a2 nt.H2 nt.H1 keys.beta keys.q1 keys.q2 nt.Ntilde
  pure ({ SkU1 := skU1, Pk := pk, C := c, commitXiG, p1 := keys.p1, p2 := keys.p2 },
        { U1NtildeH1H2 := nt, NtildeProof1 := ntildeProof1, NtildeProof2 := ntildeProof2,
          ComXiC := commitXiG.C })

/-- What round 4 checked and stored when it returned. -/
theorem round4_eq {P : Primitives} {b : KeygenBase} {d : Round4Draws}
    {msgs1 : Fin n → KGRound1Message} {msgs2 : Fin n → KGRound2Message}
    {msgs21 : Fin n → KGRound2Message1} {msgs3 : Fin n → KGRound3Message} {t4 : Temp4}
    {own : KGRound4Message}
    (started : round4Start P b d msgs1 msgs2 msgs21 msgs3 = .ok (t4, own)) :
    (∀ k, round4Check P (msgs1 k) (msgs2 k) (msgs21 k) (msgs3 k) = .ok ()) ∧
    P.S.sumRange (fun k => round4Open P (msgs1 k) (msgs3 k)) = .ok t4.Pk ∧
    t4.C = (List.ofFn fun k => (msgs21 k).C1).sum % P.S.N ∧
    t4.SkU1 = (List.ofFn fun k => (msgs2 k).Share).sum % P.S.N ∧
    ∃ xiG, P.S.ScalarBaseMult t4.SkU1.natAbs = some xiG ∧
      P.H.Commit d.rndXiG [xiG.1, xiG.2] = some t4.commitXiG ∧ own.ComXiC = t4.commitXiG.C ∧
      ∃ keys, GenerateNtildeH1H2 2048 d.ntilde = some keys ∧ own.U1NtildeH1H2 = keys.ntildeH1H2 ∧
        t4.p1 = keys.p1 ∧ t4.p2 = keys.p2 := by
  simp only [round4Start, eq_ok, forRange_eq_ok, Prod.mk.injEq] at started
  obtain ⟨-, -, -, -, checked, checks, pk, summed, xiG, based, commitXiG, committed, keys, generated, -,
    -, -, -, rfl, rfl⟩ := started
  exact ⟨checks, summed, rfl, rfl, xiG, based, committed, rfl, keys, generated, rfl, rfl, rfl⟩

/-! ## Rounds 5 to 7 -/

def round5Start (b : KeygenBase) (num numHv : ℤ) (t4 : Temp4) (msgs4 : Fin n → KGRound4Message) :
    Outcome (KGRound5Message × KGRound5Message1 × KGRound5Message2) := do
  let curIndex ← b.GetDNodeIDIndex n
  let _ ← forRange fun k => require (bitLen (msgs4 k).U1NtildeH1H2.Ntilde = ntildeBitsLen)
    "got ntilde with not enough bits"
  let ntilde := (msgs4 curIndex).U1NtildeH1H2.Ntilde
  let sfProof ← orError "get square free proof fail"
    (Z.SquareFreeProve ntilde num ((t4.p1 - 1) * (t4.p2 - 1)))
  let hvProof ← orError "get hvzk proof fail" (Z.HvProve ntilde numHv t4.p1 t4.p2)
  pure ({ ComXiGD := t4.commitXiG.D }, { Num := numHv, HvPf := hvProof },
        { Num := num, SfPf := sfProof })

def round6Start (b : KeygenBase) (r : ℤ) (t4 : Temp4) (msgs4 : Fin n → KGRound4Message)
    (msgs5 : Fin n → KGRound5Message) (msgs51 : Fin n → KGRound5Message1)
    (msgs52 : Fin n → KGRound5Message2) :
    Outcome KGRound6Message := do
  let _ ← b.GetDNodeIDIndex n
  let _ ← b.GetIDs
  let _ ← forRange fun k => require
    (P.H.Verify P.S { C := (msgs4 k).ComXiC, D := (msgs5 k).ComXiGD }) "verify commitment fail"
  let _ ← forRange fun k => require
    (Z.SquareFreeVerify (msgs4 k).U1NtildeH1H2.Ntilde (msgs52 k).Num (msgs52 k).SfPf)
    "check that a zero-knowledge proof that ntilde is a square-free integer fail"
  let _ ← forRange fun k => require
    (Z.HvVerify (msgs4 k).U1NtildeH1H2.Ntilde (msgs51 k).Num (msgs51 k).HvPf)
    "check that a zero-knowledge proof that ntilde is a valid RSA modulus from two safe primes fail"
  let u1zkXiProof ← ZkXiProve P.S P.H r t4.SkU1
  pure { U1zkXiProof := u1zkXiProof, CheckPubkeyStatus := true }

/-- The result is what the party saves: round 2 stored the ids, rounds 1 and 4 its keys, and the
public keys and parameters of all parties came with their messages. -/
def round7Start (b : KeygenBase) (t1 : Temp1) (saved2 : List ℤ × ℤ) (t4 : Temp4)
    (msgs1 : Fin n → KGRound1Message) (msgs4 : Fin n → KGRound4Message)
    (msgs5 : Fin n → KGRound5Message) (msgs6 : Fin n → KGRound6Message) :
    Outcome LocalDNodeSaveData := do
  let _ ← b.GetIDs
  let _ ← forRange fun k => do
    let xiG := P.H.DeCommit P.S { C := (msgs4 k).ComXiC, D := (msgs5 k).ComXiGD }
    let verified ← ZkXiVerify P.S P.H (xiG.getD []) (msgs6 k).U1zkXiProof
    require verified "verify zkx fail"
  pure { SkU1 := t4.SkU1, Pk := t4.Pk, C := t4.C, U1PaillierSk := t1.u1PaillierSk,
         U1PaillierPk := List.ofFn fun k => (msgs1 k).U1PaillierPk,
         U1NtildeH1H2 := List.ofFn fun k => (msgs4 k).U1NtildeH1H2,
         IDs := saved2.1, CurDNodeID := saved2.2 }

end ThresholdDsa.Ecdsa.Keygen
