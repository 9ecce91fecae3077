/-
# Honest runs of the PDL proof, and runs that end

`pdl_complete`: the proof of an honest prover is accepted exactly if it passes the tests
that precede the equations, where the curve operations have operands that they can use.
The verifier recomputes `u2` and `u3` by a division by the `e`-th power of the ciphertext
and of `z`; both are units, so the division undoes the product (`commitment_divide`).

`pdl_returns_iff`: for arbitrary messages these divisions, and the powers with negative
exponents, have no result where the base has no inverse, and the verifier then panics.
-/
import ThresholdDsa.Ec2.MtAProofs
import ThresholdDsa.Ec2.PdlSoundness

namespace ThresholdDsa.Ec2

open BigInt Outcome Option

/-! ## Completeness -/

theorem expMul_pow_one (a b m : ℤ) (x : ℕ) : expMul a x b 1 m = .ok (a ^ x * b % m) := by
  simpa using expMul_pow a b m x 1

/-- A commitment divided by the power of a unit that it has as a factor. -/
theorem commitment_divide {m a c u : ℤ} {e : ℕ} (pos : 0 < m) (coprime : Int.gcd c m = 1)
    (low : 0 ≤ u) (small : u < m) (product : a ≡ c ^ e * u [ZMOD m]) :
    commitmentUnknownOrder a c m 1 (-e) = .ok u := by
  obtain ⟨m, rfl⟩ := Int.eq_ofNat_of_zero_le pos.le
  obtain ⟨κ, c_eq⟩ : IsUnit (c : ZMod m) :=
    (ZMod.coe_int_isUnit_iff_isCoprime c m).mpr (Int.isCoprime_iff_gcd_eq_one.mpr coprime).symm
  obtain ⟨z, power⟩ := exp_isSome_of_unit (by omega) (-(e : ℤ)) (c_eq ▸ κ.isUnit)
  have first : exp a 1 m = some (a % m) := by simpa using exp_natCast a m 1
  have quotient : (a % m * z : ℤ) ≡ u [ZMOD m] := by
    rw [← ZMod.intCast_eq_intCast_iff] at product ⊢
    rw [Int.cast_mul, ZMod.intCast_mod, product, exp_zmod (by omega) κ c_eq.symm power]
    push_cast
    rw [← c_eq, zpow_neg, zpow_natCast, mul_right_comm, ← Units.val_pow_eq_pow_val, Units.mul_inv,
      one_mul]
  rw [commitmentUnknownOrder, expMul, first, power]
  simp only [deref, ok_bind]
  rw [show a % m * z % m = u from Eq.trans quotient (Int.emod_eq_of_lt low small)]
  rfl

/-- Reduced products of powers of units are units. -/
theorem gcd_powers {m a b : ℤ} (ha : Int.gcd a m = 1) (hb : Int.gcd b m = 1) (x y : ℕ) :
    Int.gcd (a ^ x * b ^ y % m) m = 1 := by
  rw [← Int.isCoprime_iff_gcd_eq_one] at ha hb
  rw [Int.gcd_emod, ← Int.isCoprime_iff_gcd_eq_one]
  exact ha.pow_left.mul_left hb.pow_left

theorem gcd_mul_self (a n : ℤ) : Int.gcd a (n * n) = 1 ↔ Int.gcd a n = 1 := by
  simp [← Int.isCoprime_iff_gcd_eq_one, IsCoprime.mul_right_iff]

theorem gcd_succ (n : ℤ) : Int.gcd (n + 1) n = 1 := by simp

section

variable {S : CurveOps} {E : Type} [AddCommGroup E] [Module (ZMod S.N) E] (C : S.Model E)

/-- Where the moduli are not zero and the tests imply the equations, the tests decide. -/
theorem pdlAccepts_eq_checks {st : PDLwSlackStatement} {pf : PDLwSlackProof} {e : ℤ}
    (N_ne : st.PK.N ≠ 0) (NTilde_ne : st.NTilde ≠ 0)
    (equations : pdlChecks st pf = true → pdlAccepts S st pf e = .ok true) :
    pdlAccepts S st pf e = .ok (pdlChecks st pf) := by
  cases checked : pdlChecks st pf with
  | true => exact equations checked
  | false => simp [pdlAccepts, N_ne, NTilde_ne, checked, pure, Except.pure]

/-- **The PDL proof is complete.**  For a generated Paillier key, units `H1` and `H2`, a point `R`, a
secret `k` with its ciphertext and the point `k R`, and a mask that is not zero, the proof is accepted
exactly if it passes the tests, unless a curve operation then has an operand it cannot use. -/
theorem pdl_complete (H : Hashes) {p q : ℤ} {pk : PublicKey} {sk : PrivateKey}
    (generated : GenerateKeyPair p q = some (pk, sk)) (pos : 0 < p * q) {R : E} (R_ne : R ≠ 0)
    {k r c : ℤ} (k_pos : 0 < k) (k_small : k < S.N) (unit : Int.gcd r pk.N = 1)
    (encrypted : pk.Encrypt k r = .ok c) {H1 H2 NTilde : ℤ} (NTilde_pos : 0 < NTilde)
    (h1 : Int.gcd H1 NTilde = 1) (h2 : Int.gcd H2 NTilde = 1) (drawn : PDLDraws)
    (mask : (drawn.alpha : ZMod S.N) ≠ 0) (st : PDLwSlackStatement)
    (statement : st = ⟨c, pk, C.xy ((k : ZMod S.N) • R), C.xy R, H1, H2, NTilde⟩) :
    ∃ pf, NewPDLwSlackProof S H drawn ⟨k, r⟩ st = .ok pf ∧
      ((pdlChecks st pf = true → Nondegenerate S ((drawn.alpha : ZMod S.N) • R)
          ((k : ZMod S.N) • R) (pdlChallenge S H st pf.Z pf.U1 pf.U2 pf.U3)) →
        PDLwSlackVerify S H st pf = .ok (pdlChecks st pf)) := by
  obtain ⟨n, n_pos, rfl⟩ := key_eq generated pos
  have N_pos := N_pos_int C
  obtain ⟨m, rfl⟩ := Int.eq_ofNat_of_zero_le NTilde_pos.le
  obtain ⟨k, rfl⟩ := Int.eq_ofNat_of_zero_le k_pos.le
  obtain ⟨alpha, alpha_eq⟩ := Int.eq_ofNat_of_zero_le (Int.emod_nonneg drawn.alpha N_pos.ne')
  obtain ⟨rho, rho_eq⟩ := Int.eq_ofNat_of_zero_le (Int.emod_nonneg drawn.rho N_pos.ne')
  obtain ⟨gamma, gamma_eq⟩ := Int.eq_ofNat_of_zero_le (Int.emod_nonneg drawn.gamma N_pos.ne')
  have cipher := encrypt_eq encrypted
  have alpha_cast : (alpha : ZMod S.N) = drawn.alpha := by
    rw [← ZMod.intCast_mod drawn.alpha, alpha_eq, Int.cast_natCast]
  have point : S.ScalarMult (C.xy R) alpha = some (C.xy ((drawn.alpha : ZMod S.N) • R)) := by
    have reduced := C.mul_emod R_ne mask
    rwa [alpha_eq, Int.natAbs_natCast] at reduced
  have challenge : ∀ z u2 u3, ∃ e : ℕ,
      pdlChallenge S H st z (C.xy ((drawn.alpha : ZMod S.N) • R)) u2 u3 = e := fun z u2 u3 =>
    Int.eq_ofNat_of_zero_le (challenge_nonneg H _ S.N)
  have e_small : ∀ {z u1 u2 u3} {e : ℕ}, pdlChallenge S H st z u1 u2 u3 = e → (e : ℤ) < S.N :=
    fun equal => equal ▸ Int.emod_lt_of_pos _ N_pos
  simp only [NewPDLwSlackProof, statement, commitmentUnknownOrder, pdlDraws, alpha_eq, rho_eq, gamma_eq,
    keyOf_N, expMul_pow, ok_bind, Int.natAbs_natCast, point, deref]
  rw [← statement]
  set z := H1 ^ k * H2 ^ rho % (m : ℤ) with z_eq
  set beta := 1 + drawn.beta % S.N
  set u2 := ((n : ℤ) + 1) ^ alpha * beta ^ n % (n * n) with u2_eq
  set u3 := H1 ^ alpha * H2 ^ gamma % (m : ℤ) with u3_eq
  obtain ⟨e, e_eq⟩ := challenge z u2 u3
  have small := e_small e_eq
  simp only [e_eq, expMul_pow_one, ok_bind]
  refine ⟨_, rfl, fun usable => ?_⟩
  simp only [PDLwSlackVerify, e_eq] at usable ⊢
  subst statement
  have n_ne : (n : ℤ) ≠ 0 := Int.natCast_ne_zero.mpr n_pos.ne'
  refine pdlAccepts_eq_checks n_ne NTilde_pos.ne' fun checked =>
    pdlAccepts_eq_true_iff.mpr ⟨⟨n_ne, NTilde_pos.ne', checked⟩, ?_, ?_, ?_⟩
  · refine curve_test_returns C R_ne ?_ ?_ (Int.natCast_nonneg e) small ?_ (usable checked)
    · rw [Int.cast_natCast]
      exact C.smul_ne_zero R_ne (by omega) (by omega)
    · exact (C.smul_eq_zero_iff.not.mpr (not_or.mpr ⟨mask, R_ne⟩))
    · push_cast
      rw [add_smul, mul_smul, add_comm, alpha_cast]
  · simp only [commitmentUnknownOrder, keyOf_N, response_cast, expMul_pow]
    refine ⟨_, rfl, ?_⟩
    have sq_pos : (0 : ℤ) < n * n := by positivity
    refine commitment_divide sq_pos ?_ (Int.emod_nonneg _ sq_pos.ne') (Int.emod_lt_of_pos _ sq_pos) ?_
    · rw [cipher]
      exact gcd_powers ((gcd_mul_self _ _).mpr (gcd_succ n)) ((gcd_mul_self _ _).mpr unit) k n
    · refine (Int.mod_modEq _ _).trans (range_equations ?_ (Int.mod_modEq _ _) (Int.mod_modEq _ _)).symm
      rw [cipher]
      exact Int.mod_modEq _ _
  · simp only [commitmentUnknownOrder, response_cast, expMul_pow]
    refine ⟨_, rfl, commitment_divide NTilde_pos (gcd_powers h1 h2 k rho)
      (Int.emod_nonneg _ NTilde_pos.ne') (Int.emod_lt_of_pos _ NTilde_pos) ?_⟩
    exact (Int.mod_modEq _ _).trans (response_congr e (Int.mod_modEq _ _) (Int.mod_modEq _ _))

end

namespace PdlSmall

def statement (CipherText : ℤ) : PDLwSlackStatement where
  CipherText := CipherText
  PK := keyOf 15
  K1R := (3, 1)
  R := (1, 1)
  H1 := 4
  H2 := 9
  NTilde := 77

def draws : PDLDraws := { alpha := 4, beta := 5, rho := 2, gamma := 3 }

end PdlSmall

open PdlSmall in
/-- The ciphertext 53 holds 3. -/
theorem pdl_complete_three :
    ∃ pf, NewPDLwSlackProof (zmodCurve 7) MtASmall.hash draws ⟨3, 2⟩ (statement 53) = .ok pf ∧
      PDLwSlackVerify (zmodCurve 7) MtASmall.hash (statement 53) pf = .ok true := by
  have generated : GenerateKeyPair 3 5 = some (keyOf 15, privateKeyOf Small.modulus) :=
    generateKeyPair_eq Small.modulus
  obtain ⟨pf, proved, verified⟩ := pdl_complete (zmodModel 7) MtASmall.hash generated (by decide)
    (R := (1 : ZMod 7)) (by decide) (k := 3) (r := 2) (c := 53) (by decide) (by decide) (by decide)
    (by decide +kernel) (by decide) (by decide) (by decide) draws
    (by decide) (statement 53) rfl
  have checks : (NewPDLwSlackProof (zmodCurve 7) MtASmall.hash draws ⟨3, 2⟩ (statement 53)).map
      (pdlChecks (statement 53)) = .ok true := by decide +kernel
  rw [proved] at checks
  refine ⟨pf, proved, (verified fun _ => ?_).trans checks⟩
  show Nondegenerate (zmodCurve 7) _ _ 3
  unfold Nondegenerate
  decide

/-! ## Runs that end -/

/-- A test refuses before the equations are computed. -/
def pdlRefuses (st : PDLwSlackStatement) (pf : PDLwSlackProof) : Bool :=
  IsInfinityPoint st.R || IsInfinityPoint st.K1R || IsInfinityPoint pf.U1 ||
    st.PK.N ≠ 0 && trivialMod st.CipherText (st.PK.N * st.PK.N) ||
    st.PK.N ≠ 0 && st.NTilde ≠ 0 && !pdlChecks st pf

/-- The point `S1 R - e K1R`, where the curve operations return. -/
def pdlPoint (S : CurveOps) (st : PDLwSlackStatement) (S1 e : ℤ) : Option (ℤ × ℤ) := do
  let gS1 ← S.ScalarMult st.R (S1 % S.N).natAbs
  let yMinusE ← S.ScalarMult st.K1R (S.N - e).natAbs
  S.Add gS1 yMinusE

/-- Every base of a power with a negative exponent has an inverse. -/
structure PdlInvertible (st : PDLwSlackStatement) (pf : PDLwSlackProof) (e : ℤ) : Prop where
  S2 : 0 ≤ st.PK.N ∨ Int.gcd pf.S2 st.PK.N = 1
  CipherText : e ≤ 0 ∨ Int.gcd st.CipherText st.PK.N = 1
  H1 : 0 ≤ pf.S1 ∨ Int.gcd st.H1 st.NTilde = 1
  H2 : 0 ≤ pf.S3 ∨ Int.gcd st.H2 st.NTilde = 1
  Z : e ≤ 0 ∨ Int.gcd pf.Z st.NTilde = 1

theorem commitment_returns_iff {h1 h2 NTilde x r : ℤ} (NTilde_ne : NTilde ≠ 0)
    (usable1 : 0 ≤ x ∨ 0 ≤ NTilde ∨ h1 % NTilde ≠ 0)
    (usable2 : 0 ≤ r ∨ 0 ≤ NTilde ∨ h2 % NTilde ≠ 0) :
    (∃ v, commitmentUnknownOrder h1 h2 NTilde x r = .ok v) ↔
      (0 ≤ x ∨ Int.gcd h1 NTilde = 1) ∧ (0 ≤ r ∨ Int.gcd h2 NTilde = 1) := by
  rw [← exp_isSome_iff usable1 NTilde_ne, ← exp_isSome_iff usable2 NTilde_ne,
    isSome_iff_exists, isSome_iff_exists]
  simp only [commitmentUnknownOrder, expMul, eq_ok]
  constructor
  · rintro ⟨v, ax, first, bx, second, -⟩
    exact ⟨⟨ax, first⟩, bx, second⟩
  · rintro ⟨⟨ax, first⟩, bx, second⟩
    exact ⟨_, ax, first, bx, second, rfl⟩

section

variable {S : CurveOps} {st : PDLwSlackStatement} {pf : PDLwSlackProof} {e : ℤ}

theorem nontrivial_emod {x m : ℤ} (passed : trivialMod x m = false) : x % m ≠ 0 := by
  intro zero
  simp [trivialMod, zero] at passed

/-- The four commitments of the verifier. -/
theorem commitments_return_iff (N_ne : st.PK.N ≠ 0) (NTilde_ne : st.NTilde ≠ 0)
    (passed : pdlChecks st pf = true) :
    ((∃ tmp, commitmentUnknownOrder (st.PK.N + 1) pf.S2 (st.PK.N * st.PK.N) pf.S1 st.PK.N = .ok tmp ∧
        ∃ v, commitmentUnknownOrder tmp st.CipherText (st.PK.N * st.PK.N) 1 (-e) = .ok v) ∧
      ∃ tmp, commitmentUnknownOrder st.H1 st.H2 st.NTilde pf.S1 pf.S3 = .ok tmp ∧
        ∃ v, commitmentUnknownOrder tmp pf.Z st.NTilde 1 (-e) = .ok v) ↔ PdlInvertible st pf e := by
  simp only [pdlChecks, Bool.and_eq_true, Bool.not_eq_true', Bool.or_eq_false_iff] at passed
  obtain ⟨⟨⟨⟨⟨⟨-, -⟩, h1, h2⟩, z⟩, -⟩, -⟩, -⟩ := passed
  have sq_pos : 0 < st.PK.N * st.PK.N := mul_self_pos.mpr N_ne
  have second : ∀ {tmp d m : ℤ}, m ≠ 0 → (0 ≤ -e ∨ 0 ≤ m ∨ d % m ≠ 0) →
      ((∃ v, commitmentUnknownOrder tmp d m 1 (-e) = .ok v) ↔ e ≤ 0 ∨ Int.gcd d m = 1) := by
    intro tmp d m m_ne usable
    rw [commitment_returns_iff m_ne (.inl zero_le_one) usable]
    simp
  simp only [second sq_pos.ne' (.inr (.inl sq_pos.le)), second NTilde_ne (.inr (.inr (nontrivial_emod z))),
    exists_and_right, gcd_mul_self,
    commitment_returns_iff sq_pos.ne' (.inr (.inl sq_pos.le)) (.inr (.inl sq_pos.le)),
    commitment_returns_iff NTilde_ne (.inr (.inr (nontrivial_emod h1))) (.inr (.inr (nontrivial_emod h2))),
    gcd_succ, or_true, true_and]
  constructor
  · rintro ⟨⟨s2, c⟩, ⟨h1, h2⟩, z⟩
    exact ⟨s2, c, h1, h2, z⟩
  · rintro ⟨s2, c, h1, h2, z⟩
    exact ⟨⟨s2, c⟩, ⟨h1, h2⟩, z⟩

theorem pdlAccepts_returns_iff :
    (∃ b, pdlAccepts S st pf e = .ok b) ↔ pdlRefuses st pf = true ∨
      st.PK.N ≠ 0 ∧ st.NTilde ≠ 0 ∧ ∃ u1Test, pdlPoint S st pf.S1 e = some u1Test ∧
        (S.IsOnCurve u1Test = true → PdlInvertible st pf e) := by
  by_cases zero : st.PK.N = 0 ∨ st.NTilde = 0
  · have excluded : ¬(st.PK.N ≠ 0 ∧ st.NTilde ≠ 0) := by tauto
    simp only [pdlAccepts, if_pos zero, pdlZeroModulus, pdlRefuses]
    split_ifs <;> simp_all [pure, Except.pure]
  obtain ⟨N_ne, NTilde_ne⟩ := not_or.mp zero
  cases passed : pdlChecks st pf with
  | false => simp [pdlAccepts, pdlRefuses, N_ne, NTilde_ne, passed, pure, Except.pure]
  | true =>
    have not_refused : pdlRefuses st pf = false := by
      have checks := passed
      simp only [pdlChecks, Bool.and_eq_true, Bool.not_eq_true'] at checks
      simp [pdlRefuses, passed, checks]
    rw [not_refused, ← commitments_return_iff N_ne NTilde_ne passed]
    simp only [pdlAccepts, passed, pdlPoint, Bool.not_true, Bool.false_eq_true, if_false, false_or,
      N_ne, NTilde_ne, ne_eq, not_false_iff, true_and, eq_ok, bind_eq_bind,
      bind_eq_some_iff]
    constructor
    · rintro ⟨b, gS1, multiplied, yMinusE, multiplied', u1Test, added, rest⟩
      refine ⟨u1Test, ⟨gS1, multiplied, yMinusE, multiplied', added⟩, fun on_curve => ?_⟩
      rw [on_curve] at rest
      simp only [Bool.not_true, Bool.false_eq_true, if_false, bind_eq_ok] at rest
      obtain ⟨tmp2, first2, v2, second2, tmp3, first3, v3, second3, -⟩ := rest
      exact ⟨⟨tmp2, first2, v2, second2⟩, tmp3, first3, v3, second3⟩
    · rintro ⟨u1Test, ⟨gS1, multiplied, yMinusE, multiplied', added⟩, invertible⟩
      cases on_curve : S.IsOnCurve u1Test with
      | false =>
        refine ⟨false, gS1, multiplied, yMinusE, multiplied', u1Test, added, ?_⟩
        rw [on_curve]
        rfl
      | true =>
        obtain ⟨⟨tmp2, first2, v2, second2⟩, tmp3, first3, v3, second3⟩ := invertible on_curve
        refine ⟨pf.U1 = u1Test && pf.U2 = v2 && pf.U3 = v3, gS1, multiplied, yMinusE, multiplied',
          u1Test, added, ?_⟩
        rw [on_curve, first2, first3]
        simp only [Bool.not_true, Bool.false_eq_true, if_false, ok_bind, second2, second3]
        rfl

/-- **When `PDLwSlackVerify` returns.**  An early test refuses, or the curve operations return a
point and, if that is on the curve, every base of a power with a negative exponent has an inverse;
in all other cases the verifier panics. -/
theorem pdl_returns_iff (S : CurveOps) (H : Hashes) (st : PDLwSlackStatement) (pf : PDLwSlackProof) :
    (∃ b, PDLwSlackVerify S H st pf = .ok b) ↔ pdlRefuses st pf = true ∨
      st.PK.N ≠ 0 ∧ st.NTilde ≠ 0 ∧
        ∃ u1Test, pdlPoint S st pf.S1 (pdlChallenge S H st pf.Z pf.U1 pf.U2 pf.U3) = some u1Test ∧
          (S.IsOnCurve u1Test = true →
            PdlInvertible st pf (pdlChallenge S H st pf.Z pf.U1 pf.U2 pf.U3)) :=
  pdlAccepts_returns_iff

end

/-- The ciphertext 3 has no inverse modulo 225, the `Z` 7 none modulo 77. -/
theorem pdl_panics_without_inverse :
    PDLwSlackVerify (zmodCurve 7) MtASmall.hash (PdlSmall.statement 3)
      { Z := 25, U1 := (4, 1), U2 := 2, U3 := 2, S1 := 13, S2 := 3, S3 := 9 } = .error .panic ∧
    PDLwSlackVerify (zmodCurve 7) MtASmall.hash (PdlSmall.statement 53)
      { Z := 7, U1 := (4, 1), U2 := 2, U3 := 2, S1 := 13, S2 := 3, S3 := 9 } = .error .panic := by
  decide +kernel

end ThresholdDsa.Ec2
