/-
# The point routines of package `ed`

`EdOps` lists the routines on extended group elements and the two hash functions.
`EdOps.Model` says what they implement in the group of the curve: `point g` is the
curve point an element stands for, if it stands for one.  The group has elements
besides the multiples of the base point.  The two scalar multiplications have the
precondition that the source states: the last byte of the scalar is at most 127.

`FromBytes` reports bytes that are no point; no caller in the rounds looks at the
report, so the routine is the element it leaves behind, and nothing is said about
it for such bytes.

`mult` maps residues modulo the order to the multiples of the base point; it is
injective, and honest points are all of this form.  The group has cofactor 8, so
every point has a part in these multiples, whose residue is `log`.
-/
import ThresholdDsa.Ed.Scalar

namespace ThresholdDsa.Ed

open LittleEndian

structure EdOps where
  /-- `ExtendedGroupElement`. -/
  Ge : Type
  /-- The zero value of the type. -/
  geZero : Ge
  GeAdd : Ge → Ge → Ge
  /-- `FeNeg` of the coordinates `X` and `T`. -/
  GeNeg : Ge → Ge
  GeScalarMult : Bytes32 → Ge → Ge
  GeScalarMultBase : Bytes32 → Ge
  ToBytes : Ge → Bytes32
  FromBytes : Bytes32 → Ge
  sha512 : List UInt8 → Bytes64
  sha256 : List UInt8 → Bytes32

namespace EdOps

structure Model (O : EdOps) (E : Type) [AddCommGroup E] where
  B : E
  order_B : addOrderOf B = L
  cofactor : ∀ P : E, ∃ k : ℕ, 8 • P = k • B
  point : O.Ge → Option E
  encode : E → Bytes32
  toBytes_eq : ∀ {g : O.Ge} {P : E}, point g = some P → O.ToBytes g = encode P
  point_fromBytes : ∀ P : E, point (O.FromBytes (encode P)) = some P
  point_add : ∀ {g h : O.Ge} {P Q : E}, point g = some P → point h = some Q →
    point (O.GeAdd g h) = some (P + Q)
  point_neg : ∀ {g : O.Ge} {P : E}, point g = some P → point (O.GeNeg g) = some (-P)
  point_smul : ∀ {a : Bytes32} {g : O.Ge} {P : E}, (a (Fin.last 31)).toNat ≤ 127 →
    point g = some P → point (O.GeScalarMult a g) = some (value a • P)
  point_smulBase : ∀ {a : Bytes32}, (a (Fin.last 31)).toNat ≤ 127 →
    point (O.GeScalarMultBase a) = some (value a • B)

namespace Model

variable {O : EdOps} {E : Type} [AddCommGroup E] (C : O.Model E)

/-- The multiples of the base point, by residues. -/
def mult : ZMod L →+ E :=
  ZMod.lift L ⟨zmultiplesHom E C.B, by
    have := addOrderOf_nsmul_eq_zero C.B
    rw [C.order_B] at this
    simpa using this⟩

@[simp] theorem mult_natCast (k : ℕ) : C.mult k = k • C.B := by
  rw [mult, ← Int.cast_natCast (R := ZMod L), ZMod.lift_coe]
  simp

theorem mult_injective : Function.Injective C.mult := by
  rw [mult, ZMod.lift_injective]
  intro m zero
  rw [zmultiplesHom_apply, ← addOrderOf_dvd_iff_zsmul_eq_zero, C.order_B] at zero
  exact (ZMod.intCast_zmod_eq_zero_iff_dvd m L).mpr zero

theorem nsmul_mult (k : ℕ) (x : ZMod L) : k • C.mult x = C.mult (k * x) := by
  rw [← map_nsmul, nsmul_eq_mul]

theorem encode_injective : Function.Injective C.encode := by
  intro P Q same
  have decoded := C.point_fromBytes P
  rw [same, C.point_fromBytes Q] at decoded
  exact (Option.some.inj decoded).symm

theorem last_le {a : Bytes32} (reduced : Reduced a) : (a (Fin.last 31)).toNat ≤ 127 :=
  reduced.last_le.trans (by norm_num)

theorem point_base {a : Bytes32} (reduced : Reduced a) :
    C.point (O.GeScalarMultBase a) = some (C.mult (value a)) := by
  rw [mult_natCast]
  exact C.point_smulBase (last_le reduced)

theorem point_mult {a : Bytes32} (reduced : Reduced a) {g : O.Ge} {x : ZMod L}
    (at_x : C.point g = some (C.mult x)) :
    C.point (O.GeScalarMult a g) = some (C.mult (value a * x)) := by
  rw [← C.nsmul_mult]
  exact C.point_smul (last_le reduced) at_x

theorem eight_ne_zero : (8 : ZMod L) ≠ 0 := by
  intro zero
  have divides : L ∣ 8 := (ZMod.natCast_eq_zero_iff 8 L).mp (by exact_mod_cast zero)
  exact absurd (Nat.le_of_dvd (by norm_num) divides) (by have := large_L; omega)

theorem exists_eight_nsmul (P : E) : ∃ x : ZMod L, 8 • P = C.mult (8 * x) := by
  obtain ⟨k, k_eq⟩ := C.cofactor P
  refine ⟨8⁻¹ * k, ?_⟩
  rw [mul_inv_cancel_left₀ eight_ne_zero, k_eq, C.mult_natCast]

/-- The residue of the part of a point in the multiples of the base point. -/
noncomputable def residue (P : E) : ZMod L := (C.exists_eight_nsmul P).choose

theorem eight_nsmul (P : E) : 8 • P = C.mult (8 * C.residue P) := (C.exists_eight_nsmul P).choose_spec

theorem residue_eq {P : E} {x : ZMod L} (same : 8 • P = C.mult (8 * x)) : C.residue P = x := by
  apply mul_left_cancel₀ eight_ne_zero
  apply C.mult_injective
  rw [← C.eight_nsmul, same]

theorem residue_add (P Q : E) : C.residue (P + Q) = C.residue P + C.residue Q := by
  apply C.residue_eq
  rw [smul_add, C.eight_nsmul, C.eight_nsmul, mul_add, map_add]

noncomputable def log : E →+ ZMod L := AddMonoidHom.mk' C.residue C.residue_add

@[simp] theorem log_mult (x : ZMod L) : C.log (C.mult x) = x := by
  apply C.residue_eq
  rw [C.nsmul_mult, Nat.cast_ofNat]

/-- A left-to-right sum of elements that stand for points. -/
theorem point_foldl_add {ι : Type} {g : ι → O.Ge} {P : ι → E}
    (points : ∀ k, C.point (g k) = some (P k)) (ks : List ι) {acc : O.Ge} {Q : E}
    (start : C.point acc = some Q) :
    C.point (ks.foldl (fun acc k => O.GeAdd acc (g k)) acc) = some (Q + (ks.map P).sum) := by
  induction ks generalizing acc Q with
  | nil => simpa using start
  | cons k ks ih =>
    rw [List.foldl_cons, ih (C.point_add start (points k)), List.map_cons, List.sum_cons, add_assoc]

end Model

/-- A variable set by the first element and added to by the others. -/
def sumRange (O : EdOps) : {n : ℕ} → (Fin n → O.Ge) → O.Ge
  | 0, _ => O.geZero
  | n + 1, g => (List.finRange n).foldl (fun acc k => O.GeAdd acc (g k.succ)) (g ⟨0, Nat.succ_pos n⟩)

theorem Model.point_sumRange {O : EdOps} {E : Type} [AddCommGroup E] (C : O.Model E)
    {n : ℕ} (pos : 0 < n) {g : Fin n → O.Ge} {P : Fin n → E}
    (points : ∀ k, C.point (g k) = some (P k)) : C.point (O.sumRange g) = some (∑ k, P k) := by
  cases n with
  | zero => exact absurd pos (lt_irrefl 0)
  | succ n =>
    have sum := C.point_foldl_add (fun k : Fin n => points k.succ) (List.finRange n) (points 0)
    rw [← Fin.sum_univ_def, ← Fin.sum_univ_succ] at sum
    exact sum

/-! ## The routines on residues -/

/-- The interface implemented on residues modulo the order, with a given `sha512`. -/
def residueOps (sha512 : List UInt8 → Bytes64) : EdOps where
  Ge := ZMod L
  geZero := 0
  GeAdd := (· + ·)
  GeNeg := (- ·)
  GeScalarMult a g := value a * g
  GeScalarMultBase a := value a
  ToBytes g := bytes 32 g.val
  FromBytes b := value b
  sha512 := sha512
  sha256 _ := fun _ => 0

theorem residue_bytes (g : ZMod L) : ((value (bytes 32 g.val) : ℕ) : ZMod L) = g := by
  rw [value_bytes_of_lt_L (ZMod.val_lt g), ZMod.natCast_val, ZMod.cast_id]

theorem residue_cofactor (P : ZMod L) : ∃ k : ℕ, 8 • P = k • (1 : ZMod L) := by
  refine ⟨(8 • P : ZMod L).val, ?_⟩
  rw [nsmul_one, ZMod.natCast_val, ZMod.cast_id]

section Residues

variable (sha512 : List UInt8 → Bytes64)

theorem residue_smul (a : Bytes32) (g : ZMod L) :
    (residueOps sha512).GeScalarMult a g = (value a • g : ZMod L) := by
  rw [nsmul_eq_mul]
  rfl

theorem residue_smulBase (a : Bytes32) :
    (residueOps sha512).GeScalarMultBase a = (value a • 1 : ZMod L) := by
  rw [nsmul_eq_mul, mul_one]
  rfl

def residueModel : (residueOps sha512).Model (ZMod L) where
  B := 1
  order_B := ZMod.addOrderOf_one L
  cofactor := residue_cofactor
  point := some
  encode g := bytes 32 g.val
  toBytes_eq := by rintro g P ⟨⟩; rfl
  point_fromBytes g := congrArg some (residue_bytes g)
  point_add := by rintro g h P Q ⟨⟩ ⟨⟩; rfl
  point_neg := by rintro g P ⟨⟩; rfl
  point_smul := by
    rintro a g P - ⟨⟩
    exact congrArg some (residue_smul sha512 a g)
  point_smulBase := by
    intro a _
    exact congrArg some (residue_smulBase sha512 a)

theorem encode_mult_one :
    (residueModel sha512).encode ((residueModel sha512).mult 1) = scOne := by
  have one := (residueModel sha512).mult_natCast 1
  rw [Nat.cast_one, one_nsmul] at one
  have val_one : (1 : ZMod L).val = 1 := ZMod.val_one L
  rw [one]
  exact congrArg (bytes 32) val_one

end Residues

end EdOps

end ThresholdDsa.Ed
