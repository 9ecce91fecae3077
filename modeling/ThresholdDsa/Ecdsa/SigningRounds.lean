/-
# Rounds 1 to 11 of the package `signing`

Each `Start` is a function of the party's base data, of its own draws, of
what its earlier rounds stored (the `Temp` records) and of the messages in its
slots.  A slot array has one entry per signer, as `idsign` has.  The result is
what the round stores and the message it sends; a round that returns an error
or panics returns neither.
-/
import ThresholdDsa.Ecdsa.SaveData

namespace ThresholdDsa.Ecdsa

open BigInt Outcome Ec2

variable {n : ℕ}

/-- The fields of `base` that do not change during a run. -/
structure SignBase (n : ℕ) where
  save : LocalDNodeSaveData
  idsign : Fin n → ℤ
  /-- The id of the party that runs the round, decoded from `kgid`. -/
  kgid : ℤ
  paillierkeylength : ℕ

variable (b : SignBase n) (P : Primitives)

def SignBase.GetDNodeIDIndex : Outcome (Fin n) :=
  orError "get dnode index fail,no found in kgRound0Messages"
    ((List.finRange n).find? fun k => b.idsign k = b.kgid)

/-! ## Messages -/

structure SignRound1Message where
  (C11 ComWiC : ℤ)

structure SignRound2Message where
  U1u1MtAZK1Proof : MtARangeProof

structure SignRound3Message where
  Kc : ℤ
  ComWiD : List ℤ

structure SignRound4Message where
  U1KGamma1Cipher : ℤ
  U1u1MtAZK2Proof : MtARespZKProof

structure SignRound4Message1 where
  U1Kw1Cipher : ℤ
  U1u1MtAZK3Proof : MtAwcRespZKProof

structure SignRound5Message where
  Delta1 : ℤ
  T1 : ℤ × ℤ
  Tpf : TProof

structure SignRound6Message where
  CommU1D : List ℤ
  U1GammaZKProof : SchnorrProof

structure SignRound7Message where
  K1R : ℤ × ℤ
  PdlwSlackPf : PDLwSlackProof

structure SignRound8Message where
  S1 : ℤ × ℤ
  STpf : STProof

structure SignRound9Message where
  Us1 : ℤ

/-! ## What the rounds draw and store -/

structure Round1Draws where
  (u1K u1Gamma rndGamma rndW : ℤ)

structure Temp1 where
  (w1 u1K u1Gamma : ℤ)
  (commitU1GammaG commitwiG : Commitment)

structure Round2Draws (n : ℕ) where
  u1R : ℤ
  range : Fin n → MtARangeDraws

structure Temp2 where
  (ukc ukc2 : ℤ)

structure Round4Draws (n : ℕ) where
  (betaU1Star vU1Star u1BetaR1 u1VR1 : Fin n → ℤ)
  (resp respWc : Fin n → RespDraws)

structure Temp4 (n : ℕ) where
  (betaU1 vU1 : Fin n → ℤ)

structure Round5Draws where
  (l1 a b : ℤ)

structure Temp5 where
  (delta1 sigma1 : ℤ)
  t1 : ℤ × ℤ
  l1 : ℤ

structure Temp6 where
  deltaSum : ℤ

structure Temp7 where
  deltaGammaG : ℤ × ℤ

structure PrePubData where
  (K1 R Ry Sigma1 : ℤ)
  deriving DecidableEq, Repr

/-! ## Rounds 1 to 3 -/

def round1Start (b : SignBase n) (d : Round1Draws) :
    Outcome (Temp1 × SignRound1Message) := do
  let curIndex ← b.GetDNodeIDIndex
  let lambda1 ← calcTimes P.S b.idsign curIndex
  let w1 := lambda1 * b.save.SkU1 % P.S.N
  let u1GammaG ← deref (P.S.ScalarBaseMult d.u1Gamma.natAbs)
  let commitU1GammaG ← orError " Error generating commitment data in signing round 1"
    (P.H.Commit d.rndGamma [u1GammaG.1, u1GammaG.2])
  let wiG ← deref (P.S.ScalarBaseMult w1.natAbs)
  let commitwiG ← orError " Error generating commitment data for wi"
    (P.H.Commit d.rndW [wiG.1, wiG.2])
  pure ({ w1, u1K := d.u1K, u1Gamma := d.u1Gamma, commitU1GammaG, commitwiG },
    { C11 := commitU1GammaG.C, ComWiC := commitwiG.C })

/-- The `k`-th message goes to signer `k`; the own one stays in the own slot. -/
def round2Start (b : SignBase n) (d : Round2Draws n) (t1 : Temp1) :
    Outcome (Temp2 × (Fin n → SignRound2Message)) := do
  let _ ← b.GetDNodeIDIndex
  let oldindex ← orError "error old index" (b.save.indexOf b.save.CurDNodeID)
  let u1PaillierPk ← deref b.save.U1PaillierPk[oldindex]?
  let ukc ← dropError (u1PaillierPk.Encrypt t1.u1K d.u1R)
  let msgs ← forRange fun k => do
    let u1nt ← b.save.ntildeOf (b.idsign k)
    let proof ← MtARangeProofProve P.S P.H (d.range k) ukc t1.u1K d.u1R u1PaillierPk u1nt
    pure { U1u1MtAZK1Proof := proof }
  pure ({ ukc, ukc2 := d.u1R }, msgs)

def round3Start (t1 : Temp1) (t2 : Temp2) : Outcome SignRound3Message := do
  let _ ← b.GetDNodeIDIndex
  pure { Kc := t2.ukc, ComWiD := t1.commitwiG.D }

/-! ## Round 4 -/

/-- The range of the masks: `2 ^ (L - L / 10) - N²`. -/
def maskBound (b : SignBase n) : ℤ :=
  2 ^ (b.paillierkeylength - b.paillierkeylength / 10) - P.S.N * P.S.N

/-- The checks of round 4 on the messages of signer `k`. -/
def round4Check (b : SignBase n) (curIndex k : Fin n) (msg1 : SignRound1Message)
    (msg2 : SignRound2Message) (msg3 : SignRound3Message) : Outcome Unit := do
  let u1PaillierPk ← b.save.paillierPkOf (b.idsign k)
  let u1nt ← b.save.ntildeOf (if k = curIndex then b.idsign k else b.save.CurDNodeID)
  let u1rlt1 ← msg2.U1u1MtAZK1Proof.MtARangeProofVerify P.S P.H msg3.Kc u1PaillierPk u1nt
  require u1rlt1 "verify mtazk1 proof fail"
  require (P.H.Verify P.S { C := msg1.ComWiC, D := msg3.ComWiD }) "verify commit for wi fail"

/-- The answer to signer `k`: its ciphertext times `x`, plus the masked ciphertext. -/
def mtaAnswer (k : Fin n) (Kc x star r : ℤ) : Outcome (PublicKey × ℤ) := do
  let u1PaillierPk ← b.save.paillierPkOf (b.idsign k)
  let product ← deref (u1PaillierPk.HomoMul Kc x)
  let starCipher ← dropError (u1PaillierPk.Encrypt star r)
  pure (u1PaillierPk, u1PaillierPk.HomoAdd product starCipher)

def round4Start (b : SignBase n) (d : Round4Draws n) (t1 : Temp1) (t2 : Temp2)
    (msgs1 : Fin n → SignRound1Message) (msgs2 : Fin n → SignRound2Message)
    (msgs3 : Fin n → SignRound3Message) :
    Outcome (Temp4 n × (Fin n → SignRound4Message) × (Fin n → SignRound4Message1)) := do
  let curIndex ← b.GetDNodeIDIndex
  let _ ← forRange fun k => round4Check P b curIndex k (msgs1 k) (msgs2 k) (msgs3 k)
  let msgs4 ← forRange fun k => do
    let (pk, cipher) ← mtaAnswer b k (msgs3 k).Kc t1.u1Gamma (d.betaU1Star k) (d.u1BetaR1 k)
    let proofPk ← (if k = curIndex then b.save.paillierPkOf b.save.CurDNodeID else pure pk)
    let ownNt ← b.save.ntildeOf b.save.CurDNodeID
    let proof ← MtARespZKProofProve P.S P.H (d.resp k) t1.u1Gamma (d.betaU1Star k) (d.u1BetaR1 k)
      (if k = curIndex then t2.ukc else (msgs3 k).Kc) cipher proofPk ownNt
    pure { U1KGamma1Cipher := cipher, U1u1MtAZK2Proof := proof }
  let msgs41 ← forRange fun k => do
    let (pk, cipher) ← mtaAnswer b k (msgs3 k).Kc t1.w1 (d.vU1Star k) (d.u1VR1 k)
    let proofPk ← (if k = curIndex then b.save.paillierPkOf b.save.CurDNodeID else pure pk)
    let ownNt ← b.save.ntildeOf b.save.CurDNodeID
    let proof ← MtAwcRespZKProofProve P.S P.H (d.respWc k) t1.w1 (d.vU1Star k) (d.u1VR1 k)
      (if k = curIndex then t2.ukc else (msgs3 k).Kc) cipher proofPk ownNt
    pure { U1Kw1Cipher := cipher, U1u1MtAZK3Proof := proof }
  pure ({ betaU1 := fun k => -1 * d.betaU1Star k, vU1 := fun k => -1 * d.vU1Star k },
    msgs4, msgs41)

/-! ## Round 5 -/

/-- Verify the two answers of signer `k` and decrypt them. -/
def round5Decrypt (b : SignBase n) (t2 : Temp2) (k : Fin n) (msg1 : SignRound1Message)
    (msg3 : SignRound3Message) (msg4 : SignRound4Message) (msg41 : SignRound4Message1) :
    Outcome (ℤ × ℤ) := do
  let u1PaillierPk ← b.save.paillierPkOf b.save.CurDNodeID
  let u1nt ← b.save.ntildeOf (b.idsign k)
  let rlt111 ← msg4.U1u1MtAZK2Proof.MtARespZKProofVerify P.S P.H t2.ukc msg4.U1KGamma1Cipher
    u1PaillierPk u1nt
  require rlt111 "verify mkg fail"
  let xG := (P.H.DeCommit P.S { C := msg1.ComWiC, D := msg3.ComWiD }).getD []
  let rlt112 ← msg41.U1u1MtAZK3Proof.MtAwcRespZKProofVefify P.S P.H xG t2.ukc msg41.U1Kw1Cipher
    u1PaillierPk u1nt
  require rlt112 "verify mkw fail"
  let alpha1U1 ← dropError (b.save.U1PaillierSk.Decrypt msg4.U1KGamma1Cipher)
  let u1U1 ← dropError (b.save.U1PaillierSk.Decrypt msg41.U1Kw1Cipher)
  pure (alpha1U1, u1U1)

def round5Start (b : SignBase n) (d : Round5Draws) (t2 : Temp2) (t4 : Temp4 n)
    (msgs1 : Fin n → SignRound1Message) (msgs3 : Fin n → SignRound3Message)
    (msgs4 : Fin n → SignRound4Message) (msgs41 : Fin n → SignRound4Message1) :
    Outcome (Temp5 × SignRound5Message) := do
  let _ ← b.GetDNodeIDIndex
  let decrypted ← forRange fun k =>
    round5Decrypt P b t2 k (msgs1 k) (msgs3 k) (msgs4 k) (msgs41 k)
  let delta1 := ((List.ofFn fun k => (decrypted k).1).sum + (List.ofFn t4.betaU1).sum) % P.S.N
  let sigma1 := ((List.ofFn fun k => (decrypted k).2).sum + (List.ofFn t4.vU1).sum) % P.S.N
  let h ← P.CalcHPoint
  let l1G ← deref (P.S.ScalarMult h d.l1.natAbs)
  let sigmaG ← deref (P.S.ScalarBaseMult sigma1.natAbs)
  let t1 ← deref (P.S.Add sigmaG l1G)
  let tProof ← TProve P.S P.H d.a d.b t1 h sigma1 d.l1
  pure ({ delta1, sigma1, t1, l1 := d.l1 }, { Delta1 := delta1, T1 := t1, Tpf := tProof })

/-! ## Rounds 6 and 7 -/

/-- `r` is the draw of the Schnorr proof. -/
def round6Start (b : SignBase n) (r : ℤ) (t1 : Temp1) (msgs5 : Fin n → SignRound5Message) :
    Outcome (Temp6 × SignRound6Message) := do
  let _ ← b.GetDNodeIDIndex
  let deltaSum := (List.ofFn fun k => (msgs5 k).Delta1).sum % P.S.N
  let u1GammaZKProof ← ZkUProve P.S P.H r t1.u1Gamma
  pure ({ deltaSum }, { CommU1D := t1.commitU1GammaG.D, U1GammaZKProof := u1GammaZKProof })

/-- The point opened from the commitment of signer `k`, after its checks. -/
def round7Open (msg1 : SignRound1Message) (msg6 : SignRound6Message) :
    Outcome (ℤ × ℤ) := do
  let deCommit : Commitment := { C := msg1.C11, D := msg6.CommU1D }
  let u1GammaG ← orError "verify commit fail" (P.H.DeCommit P.S deCommit)
  let proved ← ZkUVerify P.S P.H u1GammaG msg6.U1GammaZKProof
  require proved "verify zkuproof fail"
  match u1GammaG with
  | x :: y :: _ => pure (x, y)
  | _ => .error .panic

def round7Start (b : SignBase n) (d : PDLDraws) (t1 : Temp1) (t2 : Temp2) (t6 : Temp6)
    (msgs1 : Fin n → SignRound1Message) (msgs6 : Fin n → SignRound6Message) :
    Outcome (Temp7 × SignRound7Message) := do
  let _ ← b.GetDNodeIDIndex
  let gammaG ← forRange fun k => round7Open P (msgs1 k) (msgs6 k)
  let GammaGSum ← P.S.sumPoints (List.ofFn gammaG)
  let deltaSumInverse ← orError "calc deltaSum Inverse fail" (modInverse t6.deltaSum P.S.N)
  let deltaGammaG ← deref (P.S.ScalarMult GammaGSum deltaSumInverse.natAbs)
  require (deltaGammaG.1 ≠ 0) "r == 0"
  let bigRK1G ← deref (P.S.ScalarMult deltaGammaG t1.u1K.natAbs)
  let oldindex ← orError "error old index" (b.save.indexOf b.save.CurDNodeID)
  let u1PaillierPk ← deref b.save.U1PaillierPk[oldindex]?
  let u1NT ← deref b.save.U1NtildeH1H2[oldindex]?
  let pdlWSlackPf ← NewPDLwSlackProof P.S P.H d { K1 := t1.u1K, K1Ra := t2.ukc2 }
    { PK := u1PaillierPk, CipherText := t2.ukc, K1R := bigRK1G, R := deltaGammaG,
      H1 := u1NT.H1, H2 := u1NT.H2, NTilde := u1NT.Ntilde }
  pure ({ deltaGammaG }, { K1R := bigRK1G, PdlwSlackPf := pdlWSlackPf })

/-! ## Rounds 8 and 9 -/

/-- The point `K1R` of signer `k`, after its proof that it agrees with its ciphertext. -/
def round8Check (b : SignBase n) (t7 : Temp7) (k : Fin n) (msg3 : SignRound3Message)
    (msg7 : SignRound7Message) : Outcome (ℤ × ℤ) := do
  let index ← orError "get node uid error" (b.save.indexOf (b.idsign k))
  let paiPk ← deref b.save.U1PaillierPk[index]?
  let nt ← deref b.save.U1NtildeH1H2[index]?
  let verified ← PDLwSlackVerify P.S P.H
    { PK := paiPk, CipherText := msg3.Kc, K1R := msg7.K1R, R := t7.deltaGammaG,
      H1 := nt.H1, H2 := nt.H2, NTilde := nt.Ntilde } msg7.PdlwSlackPf
  require verified ("failed to verify ZK proof of consistency between R_i and E_i(k_i) for Uid " ++
    toString (b.idsign k) ++ ",k = " ++ toString k.val)
  pure msg7.K1R

/-- `draws` are the two draws of `NewSTProof`. -/
def round8Start (b : SignBase n) (draws : ℤ × ℤ) (t5 : Temp5) (t7 : Temp7)
    (msgs3 : Fin n → SignRound3Message) (msgs7 : Fin n → SignRound7Message) :
    Outcome SignRound8Message := do
  let _ ← b.GetDNodeIDIndex
  let K1R ← P.S.sumRange fun k => round8Check P b t7 k (msgs3 k) (msgs7 k)
  require (K1R = P.S.G) "consistency check failed: g != R products"
  let S1 ← deref (P.S.ScalarMult t7.deltaGammaG t5.sigma1.natAbs)
  let h ← P.CalcHPoint
  let stProof ← NewSTProof P.S P.H draws.1 draws.2 t5.t1 S1 t7.deltaGammaG h t5.sigma1 t5.l1
  pure { S1, STpf := stProof }

def round9Start (b : SignBase n) (t1 : Temp1) (t5 : Temp5) (t7 : Temp7)
    (msgs5 : Fin n → SignRound5Message) (msgs8 : Fin n → SignRound8Message) :
    Outcome PrePubData := do
  let h ← P.CalcHPoint
  let s1 ← P.S.sumRange fun k => do
    let verified ← STVerify P.S P.H (msgs8 k).S1 (msgs5 k).T1 t7.deltaGammaG h (msgs8 k).STpf
    require verified "STProof verify fail"
    pure (msgs8 k).S1
  require (s1 = b.save.Pk) "consistency check failed; pubkey != products"
  pure { K1 := t1.u1K, R := t7.deltaGammaG.1, Ry := t7.deltaGammaG.2, Sigma1 := t5.sigma1 }

/-! ## Rounds 10 and 11 -/

def round10Start (b : SignBase n) (predata : PrePubData) (txhash : ℤ) :
    Outcome SignRound9Message := do
  let _ ← b.GetDNodeIDIndex
  pure { Us1 := (txhash * predata.K1 + predata.R * predata.Sigma1) % P.S.N }

def round11Start (msgs9 : Fin n → SignRound9Message) : ℤ :=
  (List.ofFn fun k => (msgs9 k).Us1).sum % P.S.N

end ThresholdDsa.Ecdsa
