/-
# Commitments and Schnorr proofs of package `ed`

`commit.go` commits to 32 bytes with a random number; `schnorrZK.go` proves
knowledge of a discrete logarithm, with the point in the hash.  The proof without
the point (`Prove`, `VerifyZk`) is called by no round.  An honest opening verifies
(`verify_commit`), and so does an honest proof (`verifyZk2_prove2`).
-/
import ThresholdDsa.Ed.Group

namespace ThresholdDsa.Ed

open LittleEndian

/-- The bytes a hash is given for an array. -/
abbrev slice {n : ℕ} (b : Fin n → UInt8) : List UInt8 := List.ofFn b

/-- `D[:32]`. -/
def lower (D : Bytes64) : Bytes32 := fun i => D (Fin.castAdd 32 i)

/-- `D[32:]`. -/
def upper (D : Bytes64) : Bytes32 := fun i => D (Fin.natAdd 32 i)

@[simp] theorem lower_append (a b : Bytes32) : lower (Fin.append a b) = a := by
  funext i
  exact Fin.append_left a b i

@[simp] theorem upper_append (a b : Bytes32) : upper (Fin.append a b) = b := by
  funext i
  exact Fin.append_right a b i

def message : List UInt8 := "hello thresholdeddsa".toList.map fun c => UInt8.ofNat c.toNat

namespace EdOps

variable (O : EdOps)

/-! ## Commitments -/

def commitDigest (rndNum secret : Bytes32) : Bytes32 :=
  O.sha256 (slice (O.sha512 (slice rndNum ++ message ++ slice secret ++ message)))

def Commit (rndNum secret : Bytes32) : Bytes32 × Bytes64 :=
  (O.commitDigest rndNum secret, Fin.append rndNum secret)

def Verify (C : Bytes32) (D : Bytes64) : Bool := C = O.commitDigest (lower D) (upper D)

theorem verify_commit (rndNum secret : Bytes32) :
    O.Verify (O.Commit rndNum secret).1 (O.Commit rndNum secret).2 = true := by
  simp [Verify, Commit]

/-! ## Schnorr proofs -/

def challenge (RBytes pk : Bytes32) : Bytes32 :=
  ScReduce (O.sha512 (slice RBytes ++ message ++ slice pk ++ message))

def Prove2 (rnd sk pk : Bytes32) : Bytes64 :=
  let rndNum := ScMulAdd rnd scOne scZero
  let e := O.challenge (O.ToBytes (O.GeScalarMultBase rndNum)) pk
  Fin.append e (ScMulAdd e sk rndNum)

def VerifyZk2 (signature : Bytes64) (pk : Bytes32) : Bool :=
  let sG := O.GeScalarMultBase (upper signature)
  let eX := O.GeScalarMult (lower signature) (O.GeNeg (O.FromBytes pk))
  O.challenge (O.ToBytes (O.GeAdd sG eX)) pk = lower signature

variable {O} {E : Type} [AddCommGroup E] (C : O.Model E)

/-- A proof made with the logarithm of the point verifies. -/
theorem verifyZk2_prove2 (rnd sk : Bytes32) {pk : Bytes32}
    (pk_eq : pk = C.encode (C.mult (value sk))) : O.VerifyZk2 (O.Prove2 rnd sk pk) pk = true := by
  have R := C.point_base (reduced_ScMulAdd rnd scOne scZero)
  set rndNum := ScMulAdd rnd scOne scZero with rndNum_eq
  set e := O.challenge (O.ToBytes (O.GeScalarMultBase rndNum)) pk with e_eq
  have sG := C.point_base (reduced_ScMulAdd e sk rndNum)
  have X : C.point (O.GeNeg (O.FromBytes pk)) = some (C.mult (-(value sk : ZMod L))) := by
    rw [map_neg, pk_eq]
    exact C.point_neg (C.point_fromBytes _)
  have e_reduced : Reduced e := reduced_ScReduce _
  have sum := C.point_add sG (C.point_mult e_reduced X)
  have cancel : C.mult (value (ScMulAdd e sk rndNum)) +
      C.mult ((value e : ZMod L) * -(value sk : ZMod L)) = C.mult (value rndNum) := by
    rw [← map_add, cast_ScMulAdd]
    congr 1
    ring
  rw [cancel] at sum
  have same : O.ToBytes (O.GeAdd (O.GeScalarMultBase (ScMulAdd e sk rndNum))
      (O.GeScalarMult e (O.GeNeg (O.FromBytes pk)))) = O.ToBytes (O.GeScalarMultBase rndNum) := by
    rw [C.toBytes_eq sum, C.toBytes_eq R]
  simp [VerifyZk2, Prove2, ← rndNum_eq, ← e_eq, same]

end EdOps

end ThresholdDsa.Ed
