/-
# Rounds 1 to 7 of the package `eddsa/signing`

Each `Start` is a function of the party's base data, of its draws, of what its
earlier rounds stored and of the messages in its slots, one slot per signer.  The
data that key generation saved is the record of `eddsa/keygen`.

The rounds are given the message as an integer, `txhash`, and sign the bytes of
that integer (`Temp1.message`).  Round 7 tests the signature twice: with `EdVerify`
of the package and with the routine `Verify` of an ed25519 package outside the
repository, which is a parameter.
-/
import ThresholdDsa.Eddsa.KeygenRounds

namespace ThresholdDsa.Eddsa.Signing

open LittleEndian Outcome Ed Ec2
open Ecdsa.Keygen (uidOf)
open Eddsa.Keygen (LocalDNodeSaveData)

variable {n : ℕ}

/-- The fields of `base` that do not change during a run. -/
structure SignBase (n : ℕ) where
  save : LocalDNodeSaveData
  idsign : Fin n → ℤ
  kgid : List Char
  /-- Nil when no hash was given. -/
  txhash : Option ℤ

variable (b : SignBase n) (O : EdOps)

/-- The index `-1`, returned without an error for an empty id, panics in the slot access that
follows. -/
def SignBase.GetDNodeIDIndex : Outcome (Fin n) :=
  if b.kgid = [] then .error .panic
  else do
    let idtmp ← uidOf b.kgid
    orError "get dnode index fail,no found in kgRound0Messages"
      ((List.finRange n).find? fun k => b.idsign k = idtmp)

/-! ## Messages and stored data -/

structure SignRound1Message where
  CR : Bytes32

structure SignRound2Message where
  ZkR : Bytes64

structure SignRound3Message where
  DR : Bytes64

structure SignRound4Message where
  CSB : Bytes32

structure SignRound5Message where
  DSB : Bytes64

structure SignRound6Message where
  S : Bytes32

structure Round1Draws where
  (r rndCommit rndProof : Bytes32)

structure Temp1 where
  (tsk pkfinal : Bytes32)
  message : List UInt8
  (DR zkR : Bytes64)
  r : Bytes32

structure Temp4 where
  (s sBBytes : Bytes32)
  DSB : Bytes64
  FinalRBytes : Bytes32

/-- The signature. -/
structure EdSignData where
  (Rx Sx : Bytes32)

/-! ## Rounds 1 to 3 -/

def round1Start (b : SignBase n) (d : Round1Draws) :
    Outcome (Temp1 × SignRound1Message) := do
  let _ ← b.GetDNodeIDIndex
  let txhash ← orError "no unsign hash" b.txhash
  let r := ScReduce (copy (32 + 32) d.r)
  let RBytes := O.ToBytes (O.GeScalarMultBase r)
  let (CR, DR) := O.Commit d.rndCommit RBytes
  let zkR := O.Prove2 d.rndProof r RBytes
  pure ({ tsk := b.save.TSk, pkfinal := b.save.FinalPkBytes, message := intBytes txhash, DR, zkR, r },
    { CR })

def round2Start (t1 : Temp1) : Outcome SignRound2Message := do
  let _ ← b.GetDNodeIDIndex
  pure { ZkR := t1.zkR }

def round3Start (t1 : Temp1) : Outcome SignRound3Message := do
  let _ ← b.GetDNodeIDIndex
  pure { DR := t1.DR }

/-! ## Rounds 4 and 5 -/

/-- The nonce point that a signer opened. -/
def openedR (msg3 : SignRound3Message) : Bytes32 := upper msg3.DR

/-- `k = H(FinalRBytes||pk||M)`. -/
def messageHash (FinalRBytes pkfinal : Bytes32) (message : List UInt8) : Bytes32 :=
  ScReduce (O.sha512 (slice FinalRBytes ++ slice pkfinal ++ message))

def round4Check (msg1 : SignRound1Message) (msg2 : SignRound2Message) (msg3 : SignRound3Message) :
    Outcome Unit := do
  require (O.Verify msg1.CR msg3.DR)
    "smpc back-end internal error:commitment verification fail in ed sign"
  require (O.VerifyZk2 msg2.ZkR (openedR msg3))
    "smpc back-end internal error:zeroknowledge verification fail in ed sign"

/-- The weight of the signer at `curIndex`, whose own id is read from the saved data. -/
def lambda (b : SignBase n) (curIndex : Fin n) : Outcome Bytes32 :=
  let curByte := uidBytes b.save.CurDNodeID
  (List.finRange n).foldlM (fun lambda kk =>
    if kk = curIndex then pure lambda
    else do
      let time ← (lagrangeTime (uidBytes (b.idsign kk)) curByte).mapError
        fun _ => .error "calc time mod inverse fail"
      pure (ScMul lambda time)) scOne

def round4Start (b : SignBase n) (rndCommit : Bytes32) (t1 : Temp1)
    (msgs1 : Fin n → SignRound1Message) (msgs2 : Fin n → SignRound2Message)
    (msgs3 : Fin n → SignRound3Message) : Outcome (Temp4 × SignRound4Message) := do
  let curIndex ← b.GetDNodeIDIndex
  let _ ← forRange fun k => round4Check O (msgs1 k) (msgs2 k) (msgs3 k)
  let FinalRBytes := O.ToBytes (O.sumRange fun k => O.FromBytes (openedR (msgs3 k)))
  let k := messageHash O FinalRBytes t1.pkfinal t1.message
  let lambda ← lambda b curIndex
  let s := ScAdd (ScMul (ScMul lambda t1.tsk) k) t1.r
  let sBBytes := O.ToBytes (O.GeScalarMultBase s)
  let (CSB, DSB) := O.Commit rndCommit sBBytes
  pure ({ s, sBBytes, DSB, FinalRBytes }, { CSB })

def round5Start (t4 : Temp4) : Outcome SignRound5Message := do
  let _ ← b.GetDNodeIDIndex
  pure { DSB := t4.DSB }

/-! ## Rounds 6 and 7 -/

def round6Start (b : SignBase n) (t1 : Temp1) (t4 : Temp4) (msgs4 : Fin n → SignRound4Message)
    (msgs5 : Fin n → SignRound5Message) :
    Outcome SignRound6Message := do
  let _ ← b.GetDNodeIDIndex
  let _ ← forRange fun k => require (O.Verify (msgs4 k).CSB (msgs5 k).DSB)
    "smpc back-end internal error:commitment(CSB) not pass"
  let sB2 := O.sumRange fun k => O.FromBytes (upper (msgs5 k).DSB)
  let k2 := messageHash O t4.FinalRBytes t1.pkfinal t1.message
  let sBCal := O.GeAdd (O.GeScalarMult k2 (O.FromBytes t1.pkfinal)) (O.FromBytes t4.FinalRBytes)
  require (O.ToBytes sB2 = O.ToBytes sBCal) "error: not pass verification (sb = sbcal)"
  pure { S := t4.s }

def EdVerify (FinalR FinalS : Bytes32) (message : List UInt8) (FinalPk : Bytes32) : Bool :=
  let k := messageHash O FinalR FinalPk message
  let sBCal := O.GeAdd (O.FromBytes FinalR) (O.GeScalarMult k (O.FromBytes FinalPk))
  O.ToBytes (O.GeScalarMultBase FinalS) = O.ToBytes sBCal

/-- The routine of the imported package: public key, message and signature. -/
abbrev VerifyRoutine := Bytes32 → List UInt8 → Bytes64 → Bool

def round7Start (verify : VerifyRoutine) (t1 : Temp1) (t4 : Temp4)
    (msgs6 : Fin n → SignRound6Message) : Outcome EdSignData := do
  let FinalS := (List.ofFn fun k => (msgs6 k).S).foldl ScAdd scZero
  require (EdVerify O t4.FinalRBytes FinalS t1.message t1.pkfinal) "ed verify (r,s) fail"
  require (verify t1.pkfinal t1.message (Fin.append t4.FinalRBytes FinalS)) "ed verify (r,s) fail"
  pure { Rx := t4.FinalRBytes, Sx := FinalS }

/-- What round 7 returns has passed `EdVerify`. -/
theorem edVerify_of_round7 {O : EdOps} {verify : VerifyRoutine} {t1 : Temp1} {t4 : Temp4}
    {msgs6 : Fin n → SignRound6Message} {sig : EdSignData}
    (returned : round7Start O verify t1 t4 msgs6 = .ok sig) :
    EdVerify O sig.Rx sig.Sx t1.message t1.pkfinal = true := by
  simp only [round7Start, eq_ok] at returned
  obtain ⟨-, passed, -, -, rfl⟩ := returned
  exact passed

end ThresholdDsa.Eddsa.Signing
