/-
# The curve arithmetic of `curve.go`

`BitCurve` computes on pairs of integers: `IsOnCurve` and `Add` reduce them modulo
`P`, `ScalarMult` hands the low 256 bits of their magnitudes to the C library.
Their meaning is the group of the curve `y² = x³ + B` over `ZMod P`:

* `add_of_eq`, `add_of_ne` -- `Add` is nil exactly if the first coordinates are
  congruent, and else the chord formula, whatever the integers are;
* `BitCurve.model` -- a curve of prime order, with a multiplication that is right
  on its points, is a model of the curve operations.

The multiplication is a parameter: it is the vendored `libsecp256k1`, and
`Multiplies` is what it has to do on the points of the curve.
-/
import ThresholdDsa.Lib.BigInt
import ThresholdDsa.Lib.CurveGroup
import ThresholdDsa.Secp256k1.Marshal

namespace ThresholdDsa.Secp256k1

open BigInt Ec2 WeierstrassCurve.Affine

/-- A Koblitz curve: the order of the field, of the base point, the constant, the base point. -/
structure BitCurve where
  (P N : ℕ)
  (B Gx Gy : ℤ)

namespace BitCurve

variable (K : BitCurve)

def IsOnCurve (p : ℤ × ℤ) : Bool :=
  (p.1 * p.1 * p.1 + K.B) % K.P = p.2 * p.2 % K.P

/-- A negative difference is moved up by `P`. -/
def wrap (a : ℤ) : ℤ := if a < 0 then a + K.P else a

def affineFromJacobian (x y z : ℤ) : Option (ℤ × ℤ) := do
  let zinv ← modInverse z K.P
  let zinvsq := zinv * zinv
  pure (x * zinvsq % K.P, y * (zinvsq * zinv) % K.P)

def addJacobian (x1 y1 z1 x2 y2 z2 : ℤ) : ℤ × ℤ × ℤ :=
  let z1z1 := z1 * z1 % K.P
  let z2z2 := z2 * z2 % K.P
  let u1 := x1 * z2z2 % K.P
  let u2 := x2 * z1z1 % K.P
  let h := K.wrap (u2 - u1)
  let i := 2 * h * (2 * h)
  let j := h * i
  let s1 := y1 * z2 * z2z2 % K.P
  let s2 := y2 * z1 * z1z1 % K.P
  let r := 2 * K.wrap (s2 - s1)
  let v := u1 * i
  let x3 := (r * r - j - v - v) % K.P
  let y3 := (r * (v - x3) - 2 * (s1 * j)) % K.P
  let z3 := K.wrap (K.wrap ((z1 + z2) * (z1 + z2) - z1z1) - z2z2) * h % K.P
  (x3, y3, z3)

def Add (p q : ℤ × ℤ) : Option (ℤ × ℤ) :=
  let sum := K.addJacobian p.1 p.2 1 q.1 q.2 1
  K.affineFromJacobian sum.1 sum.2.1 sum.2.2

/-- `smpc_secp256k1_ext_scalar_mul` on the 32 bytes of two coordinates and a scalar. -/
abbrev ExtScalarMul := Bytes → Bytes → ℕ → Option (ℤ × ℤ)

/-- A scalar of more than 32 bytes is a panic, which no caller tells from a nil result. -/
def ScalarMult (extScalarMul : ExtScalarMul) (p : ℤ × ℤ) (scalar : ℕ) : Option (ℤ × ℤ) :=
  if 256 ^ 32 ≤ scalar then none
  else extScalarMul (readBits 32 p.1.natAbs) (readBits 32 p.2.natAbs) scalar

def ops (extScalarMul : ExtScalarMul) : CurveOps where
  N := K.N
  G := (K.Gx, K.Gy)
  IsOnCurve := K.IsOnCurve
  Add := K.Add
  ScalarMult := ScalarMult extScalarMul

/-! ## The group of the curve -/

/-- The equation `y² = x³ + B` over the field of the coordinates. -/
def curve : WeierstrassCurve.Affine (ZMod K.P) := ⟨0, 0, 0, 0, K.B⟩

/-- What the curve operations rest on: the group has prime order, and no point has first
coordinate zero. -/
class PrimeOrder : Prop where
  P_prime : K.P.Prime
  P_lt : K.P < 256 ^ 32
  smooth : K.curve.Δ ≠ 0
  N_prime : K.N.Prime
  N_lt : K.N < 256 ^ 32
  card : Nat.card K.curve.Point = K.N
  base : K.curve.Equation K.Gx K.Gy
  base_range : (0 ≤ K.Gx ∧ K.Gx < K.P) ∧ 0 ≤ K.Gy ∧ K.Gy < K.P
  B_not_square : ¬ IsSquare (K.B : ZMod K.P)

variable [prime_order : K.PrimeOrder]

instance : Fact K.P.Prime := ⟨prime_order.P_prime⟩

instance : Fact K.N.Prime := ⟨prime_order.N_prime⟩

theorem equation_iff (x y : ZMod K.P) : K.curve.Equation x y ↔ y ^ 2 = x ^ 3 + K.B := by
  simp [WeierstrassCurve.Affine.equation_iff, curve]

theorem nonsingular_iff {x y : ZMod K.P} : K.curve.Nonsingular x y ↔ y ^ 2 = x ^ 3 + K.B := by
  rw [← equation_iff_nonsingular_of_Δ_ne_zero prime_order.smooth, K.equation_iff]

theorem two_ne_zero : (2 : ZMod K.P) ≠ 0 := by
  intro zero
  refine prime_order.smooth ?_
  simp only [curve, WeierstrassCurve.Δ, WeierstrassCurve.b₂, WeierstrassCurve.b₄,
    WeierstrassCurve.b₆, WeierstrassCurve.b₈]
  linear_combination (- 216 * (K.B : ZMod K.P) ^ 2) * zero

/-- The point with the given coordinates, which stand for elements of the field. -/
def IsPoint (c : ℤ × ℤ) (p : K.curve.Point) : Prop :=
  ∃ on : K.curve.Nonsingular (c.1 : ZMod K.P) c.2, p = .some _ _ on

theorem isOnCurve_iff {c : ℤ × ℤ} : K.IsOnCurve c = true ↔ ∃ p, K.IsPoint c p := by
  have reduced : K.IsOnCurve c = true ↔ (c.2 : ZMod K.P) ^ 2 = c.1 ^ 3 + K.B := by
    rw [IsOnCurve, decide_eq_true_iff, ← ZMod.intCast_eq_intCast_iff']
    push_cast
    constructor <;> intro same <;> linear_combination -same
  rw [reduced, ← K.nonsingular_iff]
  exact ⟨fun on => ⟨_, on, rfl⟩, fun ⟨_, on, _⟩ => on⟩

variable {K} in
theorem IsPoint.ne_zero {c : ℤ × ℤ} {p : K.curve.Point} (at_c : K.IsPoint c p) : p ≠ 0 := by
  obtain ⟨on, rfl⟩ := at_c
  exact Point.some_ne_zero on

/-- The coordinates the operations return: reduced modulo `P`. -/
def xy : K.curve.Point → ℤ × ℤ
  | .zero => (0, 0)
  | .some x y _ => (x.val, y.val)

theorem isPoint_xy {p : K.curve.Point} (ne : p ≠ 0) : K.IsPoint (K.xy p) p := by
  cases p with
  | zero => exact absurd rfl ne
  | some x y on => exact ⟨by simpa [xy] using on, by simp [xy]⟩

variable {K} in
theorem IsPoint.xy_eq {c : ℤ × ℤ} {p : K.curve.Point} (at_c : K.IsPoint c p) :
    K.xy p = (c.1 % K.P, c.2 % K.P) := by
  obtain ⟨on, rfl⟩ := at_c
  simp only [xy, ZMod.val_intCast]

variable {K} in
theorem IsPoint.unique {c c' : ℤ × ℤ} {p q : K.curve.Point} (at_c : K.IsPoint c p)
    (at_c' : K.IsPoint c' q) (x : (c.1 : ZMod K.P) = c'.1) (y : (c.2 : ZMod K.P) = c'.2) :
    p = q := by
  obtain ⟨on, rfl⟩ := at_c
  obtain ⟨on', rfl⟩ := at_c'
  simp [x, y]

/-! ## Addition -/

theorem wrap_cast (a : ℤ) : ((K.wrap a : ℤ) : ZMod K.P) = a := by
  unfold wrap
  split <;> simp

variable (p q : ℤ × ℤ)

/-- The sum in Jacobian coordinates, read in the field. -/
theorem addJacobian_cast (h : ZMod K.P) (h_eq : h = q.1 - p.1) :
    let sum := K.addJacobian p.1 p.2 1 q.1 q.2 1
    (sum.1 : ZMod K.P) = 4 * ((q.2 - p.2) ^ 2 - h ^ 3 - 2 * p.1 * h ^ 2) ∧
      (sum.2.1 : ZMod K.P) = 8 * ((q.2 - p.2) *
        (p.1 * h ^ 2 - ((q.2 - p.2) ^ 2 - h ^ 3 - 2 * p.1 * h ^ 2)) - p.2 * h ^ 3) ∧
      (sum.2.2 : ZMod K.P) = 2 * h := by
  subst h_eq
  simp only [addJacobian]
  push_cast [ZMod.intCast_mod, wrap_cast]
  refine ⟨?_, ?_, ?_⟩ <;> ring

variable {p q}

theorem add_of_eq (same : (p.1 : ZMod K.P) = q.1) : K.Add p q = none := by
  obtain ⟨-, -, z⟩ := K.addJacobian_cast p q _ rfl
  rw [same, sub_self, mul_zero, ZMod.intCast_zmod_eq_zero_iff_dvd] at z
  have pos : (0 : ℤ) < K.P := by exact_mod_cast prime_order.P_prime.pos
  have no_inverse : modInverse (K.addJacobian p.1 p.2 1 q.1 q.2 1).2.2 K.P = none := by
    rw [← Option.not_isSome_iff_eq_none, modInverse_isSome_iff pos]
    intro coprime
    have divides := Int.dvd_coe_gcd z dvd_rfl
    rw [coprime, Int.natCast_dvd_natCast, Nat.dvd_one] at divides
    exact prime_order.P_prime.one_lt.ne' divides
  simp [Add, affineFromJacobian, no_inverse]

/-- Outside that case `Add` computes the chord formula. -/
theorem add_of_ne (apart : (p.1 : ZMod K.P) ≠ q.1) :
    K.Add p q =
      let slope := K.curve.slope (p.1 : ZMod K.P) q.1 p.2 q.2
      some (((K.curve.addX p.1 q.1 slope).val : ℤ), ((K.curve.addY p.1 q.1 p.2 slope).val : ℤ)) := by
  obtain ⟨x, y, z⟩ := K.addJacobian_cast p q _ rfl
  have h_ne : (q.1 : ZMod K.P) - p.1 ≠ 0 := sub_ne_zero.mpr (Ne.symm apart)
  have h_ne' : (p.1 : ZMod K.P) - q.1 ≠ 0 := sub_ne_zero.mpr apart
  have two := K.two_ne_zero
  obtain ⟨zinv, inverse⟩ := modInverse_of_ne_zero (N := K.P)
    (a := (K.addJacobian p.1 p.2 1 q.1 q.2 1).2.2) (by rw [z]; exact mul_ne_zero two h_ne)
  have zinv_eq := modInverse_zmod inverse
  rw [z] at zinv_eq
  have slope_eq : K.curve.slope (p.1 : ZMod K.P) q.1 p.2 q.2 =
      (q.2 - p.2) * ((q.1 : ZMod K.P) - p.1)⁻¹ := by
    rw [slope_of_X_ne apart]
    field_simp
    ring
  simp only [Add, affineFromJacobian, inverse, Option.bind_eq_bind, Option.bind_some,
    Option.pure_def, ← ZMod.val_intCast, slope_eq]
  congr 4
  · push_cast
    rw [x, zinv_eq, addX]
    simp only [curve]
    field_simp
    ring
  · push_cast
    rw [y, zinv_eq, addY, negY, negAddY, addX]
    simp only [curve]
    field_simp
    ring

/-- `Add` reads its first operand modulo `P`. -/
theorem add_congr {c : ℤ × ℤ} (x : (c.1 : ZMod K.P) = p.1) (y : (c.2 : ZMod K.P) = p.2) :
    K.Add c q = K.Add p q := by
  by_cases same : (p.1 : ZMod K.P) = q.1
  · rw [K.add_of_eq same, K.add_of_eq (x.trans same)]
  · rw [K.add_of_ne same, K.add_of_ne (by rwa [x]), x, y]

/-! ## Multiplication, and the model -/

instance : Module (ZMod K.N) K.curve.Point :=
  AddCommGroup.zmodModule fun p => by
    rw [← prime_order.card]
    exact card_nsmul_eq_zero'

instance (extScalarMul : ExtScalarMul) : Module (ZMod (K.ops extScalarMul).N) K.curve.Point :=
  inferInstanceAs (Module (ZMod K.N) K.curve.Point)

/-- The C routine on the coordinates of a point, reduced or not: it refuses a scalar that is
zero or not below the order, and otherwise multiplies. -/
def Multiplies (extScalarMul : ExtScalarMul) : Prop :=
  ∀ (x y : Bytes) (k : ℕ) (p : K.curve.Point), K.IsPoint (setBytes x, setBytes y) p →
    extScalarMul x y k = if k = 0 ∨ K.N ≤ k then none else some (K.xy ((k : ZMod K.N) • p))

/-- The base point. -/
def g : K.curve.Point := .some K.Gx K.Gy
  ((equation_iff_nonsingular_of_Δ_ne_zero prime_order.smooth).mp prime_order.base)

theorem isPoint_g : K.IsPoint (K.Gx, K.Gy) K.g := ⟨_, rfl⟩

variable {K} {extScalarMul : ExtScalarMul} {c : ℤ × ℤ} {p : K.curve.Point}

/-- Coordinates of at most 32 bytes reach the C routine as they are. -/
theorem scalarMult_of_fits (multiplies : K.Multiplies extScalarMul) (at_c : K.IsPoint c p)
    (fits : Fits c) (k : ℕ) :
    ScalarMult extScalarMul c k =
      if k = 0 ∨ K.N ≤ k then none else some (K.xy ((k : ZMod K.N) • p)) := by
  obtain ⟨x_nonneg, x_small, y_nonneg, y_small⟩ := fits
  have read : (setBytes (readBits 32 c.1.natAbs), setBytes (readBits 32 c.2.natAbs)) = c := by
    rw [setBytes_readBits (by omega), setBytes_readBits (by omega)]
    rw [Int.natAbs_of_nonneg x_nonneg, Int.natAbs_of_nonneg y_nonneg]
  rw [← read] at at_c
  rw [ScalarMult, multiplies _ _ k p at_c]
  split
  · next large => rw [if_pos (.inr (prime_order.N_lt.le.trans large))]
  · rfl

theorem fits_xy (ne : p ≠ 0) : Fits (K.xy p) := by
  cases p with
  | zero => exact absurd rfl ne
  | some x y on =>
    have P_lt := prime_order.P_lt
    have x_lt := ZMod.val_lt x
    have y_lt := ZMod.val_lt y
    simp only [Fits, xy]
    refine ⟨?_, ?_, ?_, ?_⟩ <;> exact_mod_cast (by omega)

theorem exists_smul_g (p : K.curve.Point) : ∃ k : ZMod K.N, p = k • K.g := by
  have mem : p ∈ AddSubgroup.zmultiples K.g :=
    mem_zmultiples_of_prime_card prime_order.card K.isPoint_g.ne_zero
  obtain ⟨k, same⟩ := mem
  exact ⟨k, by rw [← same]; exact (Int.cast_smul_eq_zsmul (ZMod K.N) k K.g).symm⟩

variable (K) in
theorem xy_g : K.xy K.g = (K.Gx, K.Gy) := by
  obtain ⟨⟨Gx_nonneg, Gx_lt⟩, Gy_nonneg, Gy_lt⟩ := prime_order.base_range
  rw [K.isPoint_g.xy_eq, Int.emod_eq_of_lt Gx_nonneg Gx_lt, Int.emod_eq_of_lt Gy_nonneg Gy_lt]

theorem xy_fst_ne_zero (ne : p ≠ 0) : (K.xy p).1 ≠ 0 := by
  cases p with
  | zero => exact absurd rfl ne
  | some x y on =>
    simp only [xy, ne_eq, Nat.cast_eq_zero, ZMod.val_eq_zero]
    rintro rfl
    refine prime_order.B_not_square ⟨y, ?_⟩
    have equation := K.nonsingular_iff.mp on
    linear_combination -equation

theorem add_xy {q : K.curve.Point} (p_ne : p ≠ 0) (q_ne : q ≠ 0) :
    (p = q ∨ p = -q) ∧ K.Add (K.xy p) (K.xy q) = none ∨
      p ≠ q ∧ p ≠ -q ∧ K.Add (K.xy p) (K.xy q) = some (K.xy (p + q)) := by
  cases p with
  | zero => exact absurd rfl p_ne
  | some x y on =>
    cases q with
    | zero => exact absurd rfl q_ne
    | some x' y' on' =>
      by_cases same : x = x'
      · exact .inl ⟨Point.X_eq_iff.mp same, K.add_of_eq (by simpa [xy] using same)⟩
      · have apart : ¬ (Point.some x y on = .some x' y' on' ∨ Point.some x y on = -.some x' y' on') :=
          mt Point.X_eq_iff.mpr same
        refine .inr ⟨fun h => apart (.inl h), fun h => apart (.inr h), ?_⟩
        refine (K.add_of_ne (by simpa [xy] using same)).trans ?_
        simp [xy, Point.add_of_X_ne same]

theorem mul_xy (multiplies : K.Multiplies extScalarMul) (k : ℕ) (ne : p ≠ 0) :
    (k = 0 ∨ K.N ≤ k) ∧ ScalarMult extScalarMul (K.xy p) k = none ∨
      0 < k ∧ k < K.N ∧ ScalarMult extScalarMul (K.xy p) k = some (K.xy ((k : ZMod K.N) • p)) := by
  have product := scalarMult_of_fits multiplies (K.isPoint_xy ne) (fits_xy ne) k
  by_cases refused : k = 0 ∨ K.N ≤ k
  · exact .inl ⟨refused, product.trans (if_pos refused)⟩
  · exact .inr ⟨by omega, lt_of_not_ge fun le => refused (.inr le), product.trans (if_neg refused)⟩

/-- **The arithmetic of `curve.go` computes in the group of its curve.** -/
def model (multiplies : K.Multiplies extScalarMul) :
    (K.ops extScalarMul).Model K.curve.Point where
  prime := prime_order.N_prime
  g := K.g
  g_ne_zero := Point.some_ne_zero _
  span := exists_smul_g
  xy := K.xy
  xy_injective p_ne q_ne same :=
    (K.isPoint_xy p_ne).unique (K.isPoint_xy q_ne) (by rw [same]) (by rw [same])
  xy_g := K.xy_g
  isOnCurve_xy ne := K.isOnCurve_iff.mpr ⟨_, K.isPoint_xy ne⟩
  x_ne_zero := xy_fst_ne_zero
  add_xy := add_xy
  mul_xy := mul_xy multiplies

@[simp] theorem model_g (multiplies : K.Multiplies extScalarMul) : (model multiplies).g = K.g := rfl

variable (K) in
/-- Multiplication in the group, as the C routine is to do it. -/
noncomputable def groupMul : ExtScalarMul := fun x y k =>
  open Classical in
  if on : K.curve.Nonsingular (setBytes x : ZMod K.P) (setBytes y) then
    if k = 0 ∨ K.N ≤ k then none else some (K.xy ((k : ZMod K.N) • Point.some _ _ on))
  else none

theorem multiplies_groupMul : K.Multiplies K.groupMul := by
  rintro x y k p ⟨on, rfl⟩
  exact dif_pos on

/-! ## A curve of order 13 -/

/-- The curve `y² = x³ + 3` over the field of seven elements, with base point `(1, 2)`. -/
def seven : BitCurve := ⟨7, 13, 3, 1, 2⟩

instance : NeZero seven.P := ⟨by decide⟩

instance : seven.PrimeOrder where
  P_prime := by norm_num [seven]
  P_lt := by norm_num [seven]
  smooth := by decide
  N_prime := by norm_num [seven]
  N_lt := by norm_num [seven]
  card := by
    have on : ∀ p : ZMod seven.P × ZMod seven.P,
        seven.curve.Nonsingular p.1 p.2 ↔ p.2 ^ 2 = p.1 ^ 3 + 3 := fun p => by
      rw [← equation_iff_nonsingular_of_Δ_ne_zero (by decide),
        WeierstrassCurve.Affine.equation_iff]
      revert p
      decide
    have points := seven.curve.nonsingularPointEquiv.trans
      (Equiv.optionCongr (Equiv.subtypeEquivRight on))
    rw [Nat.card_congr points, Nat.card_eq_fintype_card]
    decide
  base := by
    rw [WeierstrassCurve.Affine.equation_iff]
    decide
  base_range := by decide
  B_not_square := by
    rintro ⟨root, square⟩
    revert root
    decide

end BitCurve

end ThresholdDsa.Secp256k1
