/-
# Arithmetic modulo the square of an RSA modulus

`PaillierModulus` is `n = p q` for distinct primes with `φ = (p - 1)(q - 1)`
coprime to `n`.  Everything about the scheme follows from two facts in
`ZMod (n ^ 2)`:

* `(1 + n) ^ k = 1 + k n` (`one_add_pow`);
* the `n`-th power of a unit is killed by `φ` (`unit_pow_phi`).

So a residue `(1 + n) ^ m ρ ^ n` determines `m` modulo `n`
(`plaintext_unique`), and the decryption formula recovers it (`decrypt_eq`).
-/
import Mathlib

namespace ThresholdDsa

/-- The factors of a Paillier modulus. -/
structure PaillierModulus where
  (p q : ℕ)
  p_prime : p.Prime
  q_prime : q.Prime
  distinct : p ≠ q
  coprime : ((p - 1) * (q - 1)).Coprime (p * q)

namespace PaillierModulus

variable (M : PaillierModulus)

def n : ℕ := M.p * M.q

/-- `(p - 1)(q - 1)`. -/
def phi : ℕ := (M.p - 1) * (M.q - 1)

theorem one_lt_n : 1 < M.n :=
  Nat.one_lt_mul_iff.mpr ⟨M.p_prime.pos, M.q_prime.pos, .inl M.p_prime.one_lt⟩

theorem n_pos : 0 < M.n := Nat.zero_lt_of_lt M.one_lt_n

theorem sq_pos : 0 < M.n ^ 2 := pow_pos M.n_pos 2

theorem totient_n : Nat.totient M.n = M.phi := by
  rw [n, Nat.totient_mul ((Nat.coprime_primes M.p_prime M.q_prime).mpr M.distinct),
    Nat.totient_prime M.p_prime, Nat.totient_prime M.q_prime, phi]

theorem n_le_four_mul_phi : M.n ≤ 4 * M.phi := by
  have p_le : M.p ≤ 2 * (M.p - 1) := by have := M.p_prime.two_le; omega
  have q_le : M.q ≤ 2 * (M.q - 1) := by have := M.q_prime.two_le; omega
  calc M.p * M.q ≤ 2 * (M.p - 1) * (2 * (M.q - 1)) := Nat.mul_le_mul p_le q_le
    _ = 4 * M.phi := by rw [phi]; ring

theorem totient_sq : Nat.totient (M.n ^ 2) = M.n * M.phi := by
  have phi_pos : 0 < M.phi := by rw [← M.totient_n]; exact Nat.totient_pos.mpr M.n_pos
  have square := Nat.totient_gcd_mul_totient_mul M.n M.n
  rw [Nat.gcd_self, M.totient_n, ← sq] at square
  exact Nat.eq_of_mul_eq_mul_left phi_pos (by rw [square]; ring)

theorem n_mul_n : (M.n : ZMod (M.n ^ 2)) * M.n = 0 := by
  rw [← sq, ← Nat.cast_pow, ZMod.natCast_self]

theorem one_add_pow (k : ℕ) : (1 + M.n : ZMod (M.n ^ 2)) ^ k = 1 + k * M.n := by
  induction k with
  | zero => simp
  | succ k ih =>
    rw [pow_succ (1 + _) k, ih, Nat.cast_succ]
    linear_combination (k : ZMod (M.n ^ 2)) * M.n_mul_n

theorem unit_pow_phi (ρ : (ZMod (M.n ^ 2))ˣ) : (ρ ^ M.n) ^ M.phi = 1 := by
  rw [← pow_mul, ← M.totient_sq, ZMod.pow_totient]

/-- Raising a ciphertext to `φ` leaves only its plaintext. -/
theorem cipher_pow_phi (m : ℕ) (ρ : (ZMod (M.n ^ 2))ˣ) :
    ((1 + M.n : ZMod (M.n ^ 2)) ^ m * (ρ : ZMod (M.n ^ 2)) ^ M.n) ^ M.phi =
      1 + ((m * M.phi : ℕ) : ZMod (M.n ^ 2)) * M.n := by
  have killed : ((ρ : ZMod (M.n ^ 2)) ^ M.n) ^ M.phi = 1 := by
    rw [← Units.val_pow_eq_pow_val, ← Units.val_pow_eq_pow_val, M.unit_pow_phi, Units.val_one]
  rw [mul_pow, ← pow_mul, killed, mul_one, M.one_add_pow]

/-- `1 + a n` modulo `n ^ 2` depends on `a` modulo `n` only. -/
theorem one_add_mul_n_inj {a b : ℕ} :
    (1 + (a : ZMod (M.n ^ 2)) * M.n = 1 + (b : ZMod (M.n ^ 2)) * M.n) ↔
      (a : ZMod M.n) = b := by
  rw [add_right_inj, ← Nat.cast_mul, ← Nat.cast_mul, ZMod.natCast_eq_natCast_iff,
    ZMod.natCast_eq_natCast_iff, sq]
  exact ⟨fun h => Nat.ModEq.mul_right_cancel' M.n_pos.ne' h, fun h => Nat.ModEq.mul_right' _ h⟩

theorem phi_isUnit : IsUnit (M.phi : ZMod M.n) :=
  (ZMod.isUnit_iff_coprime M.phi M.n).mpr M.coprime

/-- **A ciphertext has one plaintext** modulo `n`. -/
theorem plaintext_unique {a b : ℕ} {ρ σ : (ZMod (M.n ^ 2))ˣ}
    (same : (1 + M.n : ZMod (M.n ^ 2)) ^ a * (ρ : ZMod (M.n ^ 2)) ^ M.n =
      (1 + M.n : ZMod (M.n ^ 2)) ^ b * (σ : ZMod (M.n ^ 2)) ^ M.n) :
    (a : ZMod M.n) = b := by
  have powers := congrArg (· ^ M.phi) same
  simp only [M.cipher_pow_phi] at powers
  have scaled := M.one_add_mul_n_inj.mp powers
  push_cast at scaled
  exact M.phi_isUnit.mul_right_cancel scaled

/-- The generator `1 + n` as a unit modulo `n ^ 2`. -/
def oneAdd : (ZMod (M.n ^ 2))ˣ where
  val := 1 + M.n
  inv := 1 - M.n
  val_inv := by linear_combination -M.n_mul_n
  inv_val := by linear_combination -M.n_mul_n

theorem oneAdd_pow_n : M.oneAdd ^ M.n = 1 := by
  ext
  rw [Units.val_pow_eq_pow_val, oneAdd, M.one_add_pow, M.n_mul_n, add_zero, Units.val_one]

/-- Powers of the generator depend on the exponent modulo `n`. -/
theorem oneAdd_zpow_emod (a : ℤ) : M.oneAdd ^ (a % M.n) = M.oneAdd ^ a := by
  rw [Int.emod_def, zpow_sub, zpow_mul, zpow_natCast, M.oneAdd_pow_n, one_zpow, inv_one, mul_one]

/-- `plaintext_unique` for integer exponents. -/
theorem plaintext_unique_zpow {a b : ℤ} {ρ σ : (ZMod (M.n ^ 2))ˣ}
    (same : M.oneAdd ^ a * ρ ^ M.n = M.oneAdd ^ b * σ ^ M.n) : (a : ZMod M.n) = b := by
  have n_ne : (M.n : ℤ) ≠ 0 := by exact_mod_cast M.n_pos.ne'
  obtain ⟨a', ha⟩ := Int.eq_ofNat_of_zero_le (Int.emod_nonneg a n_ne)
  obtain ⟨b', hb⟩ := Int.eq_ofNat_of_zero_le (Int.emod_nonneg b n_ne)
  rw [← M.oneAdd_zpow_emod a, ← M.oneAdd_zpow_emod b, ha, hb, zpow_natCast, zpow_natCast] at same
  have naturals := M.plaintext_unique (congrArg Units.val same)
  rw [← ZMod.intCast_mod a, ← ZMod.intCast_mod b, ha, hb]
  exact_mod_cast naturals

/-- **Decryption**: from the residue `x` of a ciphertext of `m` raised to `φ`,
`(x - 1) / n * φ⁻¹ mod n` is `m mod n`. -/
theorem decrypt_eq {x u : ℤ} {m : ℕ} (nonneg : 0 ≤ x) (small : x < (M.n : ℤ) ^ 2)
    (residue : (x : ZMod (M.n ^ 2)) = 1 + ((m * M.phi : ℕ) : ZMod (M.n ^ 2)) * M.n)
    (inverse : (M.phi : ℤ) * u ≡ 1 [ZMOD M.n]) :
    (x - 1) / M.n * u % M.n = m % M.n := by
  set t : ℕ := m * M.phi % M.n with ht
  have t_small : t < M.n := Nat.mod_lt _ M.n_pos
  -- both sides are reduced, so the residue is the integer `1 + t n` itself
  have x_eq : x = 1 + t * M.n := by
    have residue' : (x : ZMod (M.n ^ 2)) = ((1 + t * M.n : ℤ) : ZMod (M.n ^ 2)) := by
      rw [residue]
      push_cast
      rw [show ((m : ZMod (M.n ^ 2)) * M.phi) = ((m * M.phi : ℕ) : ZMod (M.n ^ 2)) by push_cast; rfl]
      exact M.one_add_mul_n_inj.mpr (by rw [ht, ZMod.natCast_mod])
    have modEq := (ZMod.intCast_eq_intCast_iff _ _ _).mp residue'
    have bound : 1 + (t : ℤ) * M.n < (M.n : ℤ) ^ 2 := by
      have : (t : ℤ) + 1 ≤ M.n := by exact_mod_cast t_small
      have : (1 : ℤ) < M.n := by exact_mod_cast M.one_lt_n
      nlinarith
    have pos : 0 ≤ 1 + (t : ℤ) * M.n := by positivity
    push_cast at modEq
    rwa [Int.ModEq, Int.emod_eq_of_lt nonneg small, Int.emod_eq_of_lt pos bound] at modEq
  have n_ne : (M.n : ℤ) ≠ 0 := by exact_mod_cast M.n_pos.ne'
  have quotient : (x - 1) / M.n = t := by
    rw [x_eq, add_sub_cancel_left, Int.mul_ediv_cancel _ n_ne]
  rw [quotient]
  have t_mod : (t : ℤ) ≡ m * M.phi [ZMOD M.n] := by
    rw [ht]
    push_cast
    exact Int.mod_modEq _ _
  calc (t : ℤ) * u ≡ m * M.phi * u [ZMOD M.n] := t_mod.mul_right u
    _ = m * (M.phi * u) := by ring
    _ ≡ m * 1 [ZMOD M.n] := inverse.mul_left _
    _ = m := mul_one _

end PaillierModulus

end ThresholdDsa
