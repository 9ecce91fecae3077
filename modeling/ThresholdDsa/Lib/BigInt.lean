/-
# Arbitrary-precision integers with Go's conventions

`*big.Int` values are `ℤ`.  `Mod` and `Div` are Euclidean, as `%` and `/` on `ℤ`
are.  Two operations may have no result, and Go then returns a nil pointer:

* `modInverse g n` is `none` exactly when `g` and `n` are not coprime
  (`modInverse_isSome_iff`); a result is the inverse in `[0, n)` (`modInverse_spec`);
* `exp x y m` is `x ^ y mod m`; for a negative exponent the base is inverted
  first, and `none` is returned when it has no inverse (`exp_of_nonneg`,
  `exp_zmod`).

Both are computed by structural recursion on fuel, so that closed instances
evaluate: the extended Euclidean algorithm and square-and-multiply.
-/
import Mathlib

namespace ThresholdDsa.BigInt

/-! ## Square and multiply -/

/-- `x ^ k mod m` by repeated squaring; `fuel` bounds the number of bits of `k`. -/
def powModAux (m : ℤ) : ℕ → ℤ → ℕ → ℤ
  | 0, _, _ => 1 % m
  | fuel + 1, x, k =>
    if k = 0 then 1 % m
    else
      let rest := powModAux m fuel (x * x % m) (k / 2)
      if k % 2 = 1 then x * rest % m else rest

def powMod (x : ℤ) (k : ℕ) (m : ℤ) : ℤ := powModAux m k x k

theorem powModAux_eq (m : ℤ) (fuel : ℕ) (x : ℤ) (k : ℕ) (fits : k < 2 ^ fuel) :
    powModAux m fuel x k = x ^ k % m := by
  induction fuel generalizing x k with
  | zero =>
    obtain rfl : k = 0 := by simpa using fits
    simp [powModAux]
  | succ fuel ih =>
    rw [powModAux]
    split
    · next zero => simp [zero]
    have half : k / 2 < 2 ^ fuel := by rw [pow_succ] at fits; omega
    have square : (x * x % m) ^ (k / 2) % m = x ^ (2 * (k / 2)) % m := by
      rw [pow_mul, sq]
      exact (Int.mod_modEq (x * x) m).pow (k / 2)
    simp only [ih _ _ half, square]
    split
    · next odd =>
      have split_k : k = 2 * (k / 2) + 1 := by omega
      conv_rhs => rw [split_k, pow_succ']
      rw [Int.mul_emod, Int.emod_emod_of_dvd _ dvd_rfl, ← Int.mul_emod]
    · next even =>
      have split_k : k = 2 * (k / 2) := by omega
      conv_rhs => rw [split_k]

theorem powMod_eq (x : ℤ) (k : ℕ) (m : ℤ) : powMod x k m = x ^ k % m :=
  powModAux_eq m k x k Nat.lt_two_pow_self

/-! ## The extended Euclidean algorithm -/

/-- Remainders `r₀`, `r₁` with the coefficients `s₀`, `s₁` of the number being
inverted; the result is the last non-zero remainder with its coefficient. -/
def bezout : ℕ → ℤ → ℤ → ℤ → ℤ → ℤ × ℤ
  | 0, r₀, _, s₀, _ => (r₀, s₀)
  | fuel + 1, r₀, r₁, s₀, s₁ =>
    if r₁ = 0 then (r₀, s₀)
    else bezout fuel r₁ (r₀ % r₁) s₁ (s₀ - r₀ / r₁ * s₁)

/-- `new(big.Int).ModInverse(g, n)`; `none` is the nil result. -/
def modInverse (g n : ℤ) : Option ℤ :=
  let last := bezout n.natAbs n (g % n) 0 1
  if last.1 = 1 then some (last.2 % n) else none

theorem bezout_fst (fuel : ℕ) (r₀ r₁ s₀ s₁ : ℤ) (pos : 0 ≤ r₀ ∨ r₁ ≠ 0)
    (nonneg : 0 ≤ r₁) (fits : r₁.natAbs ≤ fuel) : (bezout fuel r₀ r₁ s₀ s₁).1 = Int.gcd r₀ r₁ := by
  have last : r₁ = 0 → r₀ = Int.gcd r₀ 0 := fun zero => by
    rw [Int.gcd_zero, Int.natAbs_of_nonneg (pos.resolve_right (not_not.mpr zero))]
  induction fuel generalizing r₀ r₁ s₀ s₁ with
  | zero =>
    obtain rfl : r₁ = 0 := by omega
    exact last rfl
  | succ fuel ih =>
    rw [bezout]
    split
    · next zero => rw [zero, ← last zero]
    · next ne =>
      have small : r₀ % r₁ < r₁ := Int.emod_lt_of_pos _ (by omega)
      have nonneg' : 0 ≤ r₀ % r₁ := Int.emod_nonneg _ ne
      rw [ih _ _ _ _ (.inl nonneg) nonneg' (by omega), Int.gcd_comm r₁, Int.gcd_emod]
      intro _
      rw [Int.gcd_zero, Int.natAbs_of_nonneg nonneg]

theorem bezout_modEq (g n : ℤ) (fuel : ℕ) (r₀ r₁ s₀ s₁ : ℤ)
    (h₀ : g * s₀ ≡ r₀ [ZMOD n]) (h₁ : g * s₁ ≡ r₁ [ZMOD n]) :
    g * (bezout fuel r₀ r₁ s₀ s₁).2 ≡ (bezout fuel r₀ r₁ s₀ s₁).1 [ZMOD n] := by
  induction fuel generalizing r₀ r₁ s₀ s₁ with
  | zero => exact h₀
  | succ fuel ih =>
    rw [bezout]
    split
    · exact h₀
    · refine ih _ _ _ _ h₁ ?_
      have step : g * (s₀ - r₀ / r₁ * s₁) ≡ r₀ - r₀ / r₁ * r₁ [ZMOD n] := by
        rw [mul_sub, mul_left_comm]
        exact h₀.sub (h₁.mul_left _)
      rwa [Int.emod_def, mul_comm r₁]

section

variable {g n : ℤ}

theorem modInverse_isSome_iff_of_ne (pos : 0 ≤ n ∨ g % n ≠ 0) (n_ne : n ≠ 0) :
    (modInverse g n).isSome ↔ Int.gcd g n = 1 := by
  have small := Int.emod_lt g n_ne
  have nonneg : 0 ≤ g % n := Int.emod_nonneg g n_ne
  have last := bezout_fst n.natAbs n (g % n) 0 1 pos nonneg (by omega)
  rw [Int.gcd_comm, Int.gcd_emod] at last
  simp only [modInverse, last]
  split <;> simp_all

variable (pos : 0 < n)
include pos

theorem modInverse_isSome_iff : (modInverse g n).isSome ↔ Int.gcd g n = 1 :=
  modInverse_isSome_iff_of_ne (.inl pos.le) pos.ne'

/-- A returned inverse lies in `[0, n)` and inverts `g` modulo `n`. -/
theorem modInverse_spec {x : ℤ} (inverse : modInverse g n = some x) :
    0 ≤ x ∧ x < n ∧ g * x ≡ 1 [ZMOD n] := by
  have combination := bezout_modEq g n n.natAbs n (g % n) 0 1
    (by simpa using (Int.modEq_zero_iff_dvd.mpr dvd_rfl).symm)
    (by simpa using (Int.mod_modEq g n).symm)
  simp only [modInverse] at inverse
  split at inverse
  · next one =>
    obtain rfl := Option.some.inj inverse
    refine ⟨Int.emod_nonneg _ pos.ne', Int.emod_lt_of_pos _ pos, ?_⟩
    rw [one] at combination
    exact ((Int.mod_modEq _ n).mul_left g).trans combination
  · exact absurd inverse (by simp)

end

section

variable {N : ℕ} [Fact N.Prime] {a : ℤ}

theorem modInverse_zmod {inverse : ℤ} (found : modInverse a N = some inverse) :
    (inverse : ZMod N) = (a : ZMod N)⁻¹ := by
  have pos : (0 : ℤ) < N := by exact_mod_cast (Fact.out : N.Prime).pos
  obtain ⟨-, -, inverts⟩ := modInverse_spec pos found
  have product := (ZMod.intCast_eq_intCast_iff _ _ _).mpr inverts
  push_cast at product
  exact eq_inv_of_mul_eq_one_right product

theorem modInverse_of_ne_zero (ne : (a : ZMod N) ≠ 0) : ∃ inverse, modInverse a N = some inverse := by
  have pos : (0 : ℤ) < N := by exact_mod_cast (Fact.out : N.Prime).pos
  rw [← Option.isSome_iff_exists, modInverse_isSome_iff pos, ← Int.isCoprime_iff_gcd_eq_one]
  exact ((ZMod.coe_int_isUnit_iff_isCoprime a N).mp (isUnit_iff_ne_zero.mpr ne)).symm

end

/-! ## Modular exponentiation -/

/-- `new(big.Int).Exp(x, y, m)` for a positive modulus; `none` is the nil result. -/
def exp (x y m : ℤ) : Option ℤ :=
  if 0 ≤ y then some (powMod x y.toNat m)
  else (modInverse x m).map fun inverse => powMod inverse (-y).toNat m

theorem exp_of_nonneg (x m : ℤ) {y : ℤ} (nonneg : 0 ≤ y) : exp x y m = some (x ^ y.toNat % m) := by
  rw [exp, if_pos nonneg, powMod_eq]

@[simp] theorem exp_natCast (x m : ℤ) (k : ℕ) : exp x k m = some (x ^ k % m) := by
  simp [exp_of_nonneg]

theorem exp_isSome_iff {x y m : ℤ} (usable : 0 ≤ y ∨ 0 ≤ m ∨ x % m ≠ 0) (m_ne : m ≠ 0) :
    (exp x y m).isSome ↔ 0 ≤ y ∨ Int.gcd x m = 1 := by
  unfold exp
  split
  · next nonneg => simp [nonneg]
  · next negative =>
    rw [Option.isSome_map, modInverse_isSome_iff_of_ne (usable.resolve_left negative) m_ne,
      or_iff_right negative]

/-- In `ZMod m`, where the base is a unit `u`, the result of `exp` is the integer power of `u`. -/
theorem exp_zmod {m : ℕ} (pos : 0 < m) {x y z : ℤ} (u : (ZMod m)ˣ) (unit : (x : ZMod m) = u)
    (power : exp x y m = some z) : (z : ZMod m) = ((u ^ y : (ZMod m)ˣ) : ZMod m) := by
  unfold exp at power
  split at power
  · next nonneg =>
    obtain rfl := Option.some.inj power
    obtain ⟨k, rfl⟩ := Int.eq_ofNat_of_zero_le nonneg
    simp [powMod_eq, unit]
  · next neg =>
    obtain ⟨inverse, found, rfl⟩ := Option.map_eq_some_iff.mp power
    obtain ⟨k, hk⟩ := Int.eq_ofNat_of_zero_le (show 0 ≤ -y by omega)
    obtain ⟨-, -, inverts⟩ := modInverse_spec (by exact_mod_cast pos) found
    have inv_eq : (inverse : ZMod m) = (u⁻¹ : (ZMod m)ˣ) := by
      have := (ZMod.intCast_eq_intCast_iff _ _ _).mpr inverts
      push_cast at this
      rw [unit] at this
      exact Units.eq_inv_of_mul_eq_one_left this
    rw [hk, show y = -(k : ℤ) by omega]
    simp [powMod_eq, inv_eq]

/-- With a unit as base `exp` always returns. -/
theorem exp_isSome_of_unit {m : ℕ} (pos : 0 < m) {x : ℤ} (y : ℤ) (unit : IsUnit (x : ZMod m)) :
    ∃ z, exp x y m = some z := by
  unfold exp
  split
  · exact ⟨_, rfl⟩
  · have coprime : Int.gcd x m = 1 := by
      rw [← Int.isCoprime_iff_gcd_eq_one]
      exact (ZMod.coe_int_isUnit_iff_isCoprime x m).mp unit |>.symm
    obtain ⟨inverse, found⟩ := Option.isSome_iff_exists.mp
      ((modInverse_isSome_iff (by exact_mod_cast pos)).mpr coprime)
    exact ⟨_, by rw [found]; rfl⟩

end ThresholdDsa.BigInt
