/-
# What key generation leaves for signing

`LocalDNodeSaveData` of the package `keygen` with the fields the signing rounds
read, the lookup of a party's entries by its id, and the packages both protocols
call (`Primitives`).
-/
import ThresholdDsa.Ec2.PdlWSlack
import ThresholdDsa.Ec2.Vss2

namespace ThresholdDsa.Ecdsa

open Outcome Ec2

/-- The curve, the hashes and the second generator `CalcHPoint()`. -/
structure Primitives where
  S : CurveOps
  H : Hashes
  CalcHPoint : Outcome (ℤ × ℤ)

structure LocalDNodeSaveData where
  SkU1 : ℤ
  Pk : ℤ × ℤ
  C : ℤ
  U1PaillierSk : PrivateKey
  U1PaillierPk : List PublicKey
  U1NtildeH1H2 : List NtildeH1H2
  IDs : List ℤ
  CurDNodeID : ℤ
  deriving DecidableEq

/-- The first position of `id` in `save.IDs`. -/
def LocalDNodeSaveData.indexOf (save : LocalDNodeSaveData) (id : ℤ) : Option ℕ :=
  save.IDs.findIdx? fun v => v = id

/-- `save.U1PaillierPk[index]` for the position of `id`; the index `-1` is out of range. -/
def LocalDNodeSaveData.paillierPkOf (save : LocalDNodeSaveData) (id : ℤ) : Outcome PublicKey :=
  deref ((save.indexOf id).bind fun index => save.U1PaillierPk[index]?)

def LocalDNodeSaveData.ntildeOf (save : LocalDNodeSaveData) (id : ℤ) : Outcome NtildeH1H2 :=
  deref ((save.indexOf id).bind fun index => save.U1NtildeH1H2[index]?)

/-- The error of a call is dropped and its nil result used. -/
def dropError {α : Type} : Outcome α → Outcome α
  | .ok a => .ok a
  | .error _ => .error .panic

@[simp] theorem dropError_eq_ok {α : Type} {x : Outcome α} {a : α} :
    dropError x = .ok a ↔ x = .ok a := by
  cases x <;> simp [dropError]

theorem noError_dropError {α : Type} (x : Outcome α) : NoError (dropError x) := by
  cases x <;> simp [NoError, dropError]

/-! ## A group of order 13 -/

instance prime_thirteen : Fact (Nat.Prime 13) := ⟨by norm_num⟩

/-- The threshold of the closed runs; their parties have the ids 1 and 2. -/
abbrev smallThreshold : ℕ := 2

theorem two_le_smallThreshold : 2 ≤ smallThreshold := le_rfl

theorem smallIds_injective : Function.Injective fun i : Fin 2 => (((i.val : ℤ) + 1 : ℤ) : ZMod 13) := by
  decide

/-- Primitives on which closed runs evaluate; the hashes are constant. -/
abbrev smallPrimitives : Primitives where
  S := zmodCurve 13
  H := { sha512_256 := fun _ => [3], sha3_256 := fun _ => [7] }
  CalcHPoint := .ok (6, 1)

end ThresholdDsa.Ecdsa
