/-
# What `PDLwSlackVerify` proves about its statement

The statement says that the ciphertext `CipherText` holds the discrete logarithm
of `K1R` to the base `R`.  The verifier's curve equation speaks of `S1` modulo the
group order `q`, its Paillier equation of `S1` modulo `n`:

* `accepts_curve`: acceptance means `S1 R = U + e K1R` for the point `U` of the
  first message, and none of the three curve operations was degenerate;
* `accepts_cipher`: acceptance fixes `U2` as a ciphertext of `S1` divided by the
  `e`-th power of the statement's ciphertext.

Two neighbouring challenges then give `S1' - S1 = k` modulo `q` and
`S1' - S1 = k'` modulo `n`.  With responses of size at most `q^3` the second is an
equation of integers (`cipher_eq_of_bounded`); without a bound on `S1` it is not,
and the Chinese remainder theorem gives a first message that passes every challenge
for any `k` and `k'` (`exists_passing`).  `PDLwSlackVerify` makes no test on the
size of `S1`.
-/
import ThresholdDsa.Ec2.PdlWSlack

namespace ThresholdDsa.Ec2

open BigInt Outcome Finset

/-! ## Acceptance -/

/-- The equations behind an accepted proof. -/
theorem pdlAccepts_eq_true_iff {S : CurveOps} {st : PDLwSlackStatement} {pf : PDLwSlackProof}
    {e : ℤ} :
    pdlAccepts S st pf e = .ok true ↔
      (st.PK.N ≠ 0 ∧ st.NTilde ≠ 0 ∧ pdlChecks st pf = true) ∧
      (∃ gS1 yMinusE, S.ScalarMult st.R (pf.S1 % S.N).natAbs = some gS1 ∧
        S.ScalarMult st.K1R (S.N - e).natAbs = some yMinusE ∧
        S.Add gS1 yMinusE = some pf.U1 ∧ S.IsOnCurve pf.U1 = true) ∧
      (∃ u2TestTmp,
        commitmentUnknownOrder (st.PK.N + 1) pf.S2 (st.PK.N * st.PK.N) pf.S1 st.PK.N =
          .ok u2TestTmp ∧
        commitmentUnknownOrder u2TestTmp st.CipherText (st.PK.N * st.PK.N) 1 (-e) = .ok pf.U2) ∧
      ∃ u3TestTmp,
        commitmentUnknownOrder st.H1 st.H2 st.NTilde pf.S1 pf.S3 = .ok u3TestTmp ∧
        commitmentUnknownOrder u3TestTmp pf.Z st.NTilde 1 (-e) = .ok pf.U3 := by
  unfold pdlAccepts
  split
  · next zero =>
    have refused : pdlZeroModulus st pf ≠ .ok true := by
      unfold pdlZeroModulus
      split_ifs <;> simp [pure, Except.pure]
    refine iff_of_false refused ?_
    rintro ⟨⟨N_ne, NTilde_ne, -⟩, -⟩
    exact zero.elim N_ne NTilde_ne
  · next nonzero =>
  split
  · next failed =>
    have not_passed : pdlChecks st pf = false := by simpa using failed
    simp [pure, Except.pure, not_passed]
  next passed =>
  have checks : st.PK.N ≠ 0 ∧ st.NTilde ≠ 0 ∧ pdlChecks st pf = true :=
    ⟨(not_or.mp nonzero).1, (not_or.mp nonzero).2, by simpa using passed⟩
  simp only [eq_ok, checks, ne_eq, not_false_iff, true_and]
  constructor
  · rintro ⟨gS1, multiplied, yMinusE, multiplied', u1Test, added, rest⟩
    split at rest
    · simp [pure, Except.pure] at rest
    · next on_curve =>
      simp only [eq_ok, Bool.and_eq_true, decide_eq_true_eq] at rest
      obtain ⟨u2TestTmp, u2Tmp, u2Test, u2, u3TestTmp, u3Tmp, u3Test, u3, ⟨rfl, rfl⟩, rfl⟩ :=
        rest
      exact ⟨⟨gS1, yMinusE, multiplied, multiplied', added, by simpa using on_curve⟩,
        ⟨u2TestTmp, u2Tmp, u2⟩, u3TestTmp, u3Tmp, u3⟩
  · rintro ⟨⟨gS1, yMinusE, multiplied, multiplied', added, on_curve⟩,
      ⟨u2TestTmp, u2Tmp, u2⟩, u3TestTmp, u3Tmp, u3⟩
    refine ⟨gS1, multiplied, yMinusE, multiplied', pf.U1, added, ?_⟩
    rw [on_curve]
    simp only [Bool.not_true, Bool.false_eq_true, if_false, eq_ok]
    exact ⟨u2TestTmp, u2Tmp, pf.U2, u2, u3TestTmp, u3Tmp, pf.U3, u3, by simp⟩

/-! ## The curve equation -/

variable {S : CurveOps} {E : Type} [AddCommGroup E] [Module (ZMod S.N) E] {R Q U : E}
  {M : PaillierModulus}

section

/-- The verifier's curve operations have operands it can use at the challenge `e`, for a first
message with the point `U` and a statement about `Q`. -/
def Nondegenerate (S : CurveOps) {E : Type} [AddCommGroup E] [Module (ZMod S.N) E] (U Q : E)
    (e : ℤ) : Prop :=
  (e : ZMod S.N) ≠ 0 ∧ U + (e : ZMod S.N) • Q ≠ 0 ∧ U + (2 * e : ZMod S.N) • Q ≠ 0

variable (C : S.Model E) {s1 e : ℤ}

include C in
theorem N_pos_int : (0 : ℤ) < S.N := Int.natCast_pos.mpr C.prime.pos

include C in
theorem emod_natAbs_cast (x : ℤ) : (((x % S.N).natAbs : ℕ) : ZMod S.N) = (x : ZMod S.N) := by
  rw [CurveOps.Model.natAbs_cast (Int.emod_nonneg _ (N_pos_int C).ne'), ZMod.intCast_mod]

theorem order_sub_cast (small : e < S.N) :
    (((S.N - e).natAbs : ℕ) : ZMod S.N) = -(e : ZMod S.N) := by
  rw [CurveOps.Model.natAbs_cast (by omega)]
  simp

variable {gS1 u1 yMinusE : ℤ × ℤ}

/-- The point a passed curve test computed. -/
theorem curve_test_point (R_ne : R ≠ 0) (Q_ne : Q ≠ 0) {a b : ℕ}
    (multiplied : S.ScalarMult (C.xy R) a = some gS1)
    (multiplied' : S.ScalarMult (C.xy Q) b = some yMinusE) (added : S.Add gS1 yMinusE = some u1) :
    ∃ U : E, U ≠ 0 ∧ u1 = C.xy U ∧ (a : ZMod S.N) • R = U - (b : ZMod S.N) • Q ∧
      (a : ZMod S.N) • R ≠ 0 ∧ (b : ZMod S.N) • Q ≠ 0 ∧
      (a : ZMod S.N) • R ≠ (b : ZMod S.N) • Q := by
  obtain ⟨a_pos, a_small, rfl⟩ := (C.mul_eq_some_iff R_ne).mp multiplied
  obtain ⟨b_pos, b_small, rfl⟩ := (C.mul_eq_some_iff Q_ne).mp multiplied'
  have first_ne := C.smul_ne_zero R_ne a_pos a_small
  have second_ne := C.smul_ne_zero Q_ne b_pos b_small
  obtain ⟨different, opposite, rfl⟩ := (C.add_eq_some_iff first_ne second_ne).mp added
  refine ⟨_, ?_, rfl, (add_sub_cancel_right _ _).symm, first_ne, second_ne, different⟩
  exact fun zero => opposite (eq_neg_of_add_eq_zero_left zero)

/-- **The curve equation of an accepted proof.** -/
theorem accepts_curve (R_ne : R ≠ 0) (Q_ne : Q ≠ 0) (small : e < S.N)
    (multiplied : S.ScalarMult (C.xy R) (s1 % S.N).natAbs = some gS1)
    (multiplied' : S.ScalarMult (C.xy Q) (S.N - e).natAbs = some yMinusE)
    (added : S.Add gS1 yMinusE = some u1) :
    ∃ U : E, U ≠ 0 ∧ u1 = C.xy U ∧ (s1 : ZMod S.N) • R = U + (e : ZMod S.N) • Q ∧
      Nondegenerate S U Q e := by
  obtain ⟨U, U_ne, point, equation, first_ne, second_ne, different⟩ :=
    curve_test_point C R_ne Q_ne multiplied multiplied' added
  rw [emod_natAbs_cast C] at equation first_ne different
  rw [order_sub_cast small, neg_smul] at equation second_ne different
  rw [sub_neg_eq_add] at equation
  refine ⟨U, U_ne, point, equation, ?_, ?_, ?_⟩
  · intro zero
    rw [zero, zero_smul, neg_zero] at second_ne
    exact second_ne rfl
  · rwa [← equation]
  · intro zero
    rw [two_mul, add_smul, ← add_assoc, ← equation] at zero
    exact different (eq_neg_of_add_eq_zero_left zero)

/-- With a solution of the curve equation the verifier's operations return the point `U`. -/
theorem curve_test_returns (R_ne : R ≠ 0) (Q_ne : Q ≠ 0) (U_ne : U ≠ 0) (low : 0 ≤ e)
    (small : e < S.N) (equation : (s1 : ZMod S.N) • R = U + (e : ZMod S.N) • Q)
    (usable : Nondegenerate S U Q e) :
    ∃ gS1 yMinusE, S.ScalarMult (C.xy R) (s1 % S.N).natAbs = some gS1 ∧
      S.ScalarMult (C.xy Q) (S.N - e).natAbs = some yMinusE ∧
      S.Add gS1 yMinusE = some (C.xy U) ∧ S.IsOnCurve (C.xy U) = true := by
  obtain ⟨e_ne, first_ne, double_ne⟩ := usable
  have e_pos : e ≠ 0 := by
    rintro rfl
    exact e_ne Int.cast_zero
  have s1_ne : s1 % S.N ≠ 0 := by
    intro zero
    rw [← ZMod.intCast_mod, zero, Int.cast_zero, zero_smul] at equation
    exact first_ne equation.symm
  have s1_range := Int.emod_nonneg s1 (N_pos_int C).ne'
  have s1_small := Int.emod_lt_of_pos s1 (N_pos_int C)
  have second_ne : -(e : ZMod S.N) • Q ≠ 0 := by
    rw [Ne, C.smul_eq_zero_iff, not_or, neg_eq_zero]
    exact ⟨e_ne, Q_ne⟩
  rw [← equation] at first_ne
  refine ⟨_, _, (C.mul_eq_some_iff R_ne).mpr ⟨by omega, by omega, rfl⟩,
    (C.mul_eq_some_iff Q_ne).mpr ⟨by omega, by omega, rfl⟩, ?_, C.isOnCurve_xy U_ne⟩
  rw [emod_natAbs_cast C, order_sub_cast small,
    (C.add_eq_some_iff first_ne second_ne), neg_smul, equation]
  refine ⟨fun same => double_ne ?_, fun same => U_ne ?_, by rw [add_neg_cancel_right]⟩
  · rw [two_mul, add_smul, ← add_assoc, same, neg_add_cancel]
  · simpa using same

include C in
/-- In a group of order at least 7, two neighbouring challenges are usable. -/
theorem exists_neighbours (large : 7 ≤ S.N) (Q_ne : Q ≠ 0) (U : E) :
    ∃ e : ℤ, 0 ≤ e ∧ e + 1 < S.N ∧ Nondegenerate S U Q e ∧ Nondegenerate S U Q (e + 1) := by
  have := Fact.mk C.prime
  have log_ne : C.dlog Q ≠ 0 := by
    intro zero
    apply Q_ne
    rw [← C.dlog_smul Q, zero, zero_smul]
  obtain ⟨w, hw⟩ : ∃ w : ZMod S.N, U = w • Q := by
    refine ⟨C.dlog U * (C.dlog Q)⁻¹, ?_⟩
    calc U = C.dlog U • C.g := (C.dlog_smul U).symm
      _ = (C.dlog U * (C.dlog Q)⁻¹) • (C.dlog Q • C.g) := by
          rw [smul_smul, inv_mul_cancel_right₀ log_ne]
      _ = (C.dlog U * (C.dlog Q)⁻¹) • Q := by rw [C.dlog_smul]
  have two_ne : (2 : ZMod S.N) ≠ 0 := by
    exact_mod_cast CurveOps.Model.natCast_ne_zero (S := S) (k := 2) (by omega) (by omega)
  -- the unusable challenges are 0, -w and -w / 2
  have usable : ∀ e : ℕ, 0 < e → e < S.N → e ≠ (-w).val → e ≠ (-w * 2⁻¹).val →
      Nondegenerate S U Q e := by
    intro e pos small first second
    have recast : ∀ a : ZMod S.N, (e : ZMod S.N) = a → e = a.val := by
      rintro a rfl
      rw [ZMod.val_natCast_of_lt small]
    rw [Nondegenerate, Int.cast_natCast, hw, ← add_smul, ← add_smul, Ne, Ne, Ne,
      C.smul_eq_zero_iff, C.smul_eq_zero_iff]
    refine ⟨CurveOps.Model.natCast_ne_zero pos small, ?_, ?_⟩
    · rintro (zero | zero)
      · exact first (recast _ (eq_neg_of_add_eq_zero_right zero))
      · exact Q_ne zero
    · rintro (zero | zero)
      · refine second (recast _ ?_)
        rw [eq_mul_inv_iff_mul_eq₀ two_ne, mul_comm]
        exact eq_neg_of_add_eq_zero_right zero
      · exact Q_ne zero
  set a := (-w).val
  set b := (-w * 2⁻¹).val
  have pair : (1 ≠ a ∧ 1 ≠ b ∧ 2 ≠ a ∧ 2 ≠ b) ∨ (3 ≠ a ∧ 3 ≠ b ∧ 4 ≠ a ∧ 4 ≠ b) ∨
      (5 ≠ a ∧ 5 ≠ b ∧ 6 ≠ a ∧ 6 ≠ b) := by
    omega
  rcases pair with ⟨h1, h2, h3, h4⟩ | ⟨h1, h2, h3, h4⟩ | ⟨h1, h2, h3, h4⟩
  · exact ⟨1, by omega, by omega, by exact_mod_cast usable 1 (by omega) (by omega) h1 h2,
      by exact_mod_cast usable 2 (by omega) (by omega) h3 h4⟩
  · exact ⟨3, by omega, by omega, by exact_mod_cast usable 3 (by omega) (by omega) h1 h2,
      by exact_mod_cast usable 4 (by omega) (by omega) h3 h4⟩
  · exact ⟨5, by omega, by omega, by exact_mod_cast usable 5 (by omega) (by omega) h1 h2,
      by exact_mod_cast usable 6 (by omega) (by omega) h3 h4⟩

end

/-! ## The Paillier equation -/

section

variable {κ σ : (ZMod (M.n ^ 2))ˣ} {c s1 s2 e : ℤ}

theorem sq_natCast : (M.n : ℤ) * M.n = ((M.n ^ 2 : ℕ) : ℤ) := by
  push_cast
  ring

theorem natCast_val_unit {m : ℕ} [NeZero m] (υ : (ZMod m)ˣ) :
    (((υ : ZMod m).val : ℤ) : ZMod m) = υ := by
  rw [Int.cast_natCast, ZMod.natCast_zmod_val]

/-- Two commitments in a row, as the verifier computes them: a product of powers divided by the
`e`-th power of a unit. -/
theorem commitments_units {m : ℕ} (pos : 0 < m) {a b d : ℤ} {α β δ : (ZMod m)ˣ}
    (ha : (a : ZMod m) = α) (hb : (b : ZMod m) = β) (hd : (d : ZMod m) = δ) (x y e : ℤ) {u : ℤ} :
    (∃ tmp, commitmentUnknownOrder a b m x y = .ok tmp ∧
      commitmentUnknownOrder tmp d m 1 (-e) = .ok u) ↔
    u = ((α ^ x * β ^ y * δ ^ (-e) : (ZMod m)ˣ) : ZMod m).val := by
  have := NeZero.of_pos pos
  simp only [commitmentUnknownOrder, expMul_units pos ha hb, Except.ok.injEq, exists_eq_left']
  rw [expMul_units pos (natCast_val_unit _) hd, zpow_one, Except.ok.injEq]
  exact eq_comm

/-- **The Paillier equation of an accepted proof.** -/
theorem accepts_cipher (hc : (c : ZMod (M.n ^ 2)) = κ) (hs : (s2 : ZMod (M.n ^ 2)) = σ) {u2 : ℤ} :
    (∃ tmp, commitmentUnknownOrder (M.n + 1) s2 (M.n * M.n) s1 M.n = .ok tmp ∧
      commitmentUnknownOrder tmp c (M.n * M.n) 1 (-e) = .ok u2) ↔
    u2 = ((M.oneAdd ^ s1 * σ ^ M.n * κ ^ (-e) : (ZMod (M.n ^ 2))ˣ) : ZMod (M.n ^ 2)).val := by
  have generator : (((M.n : ℤ) + 1 : ℤ) : ZMod (M.n ^ 2)) = M.oneAdd := by
    simp [PaillierModulus.oneAdd, add_comm]
  rw [sq_natCast, commitments_units M.sq_pos generator hs hc, zpow_natCast]

variable {k' : ℕ}

theorem cipher_unit (cipher : Ciphers M c k') :
    ∃ ρ : (ZMod (M.n ^ 2))ˣ,
      (c : ZMod (M.n ^ 2)) = (M.oneAdd ^ (k' : ℤ) * ρ ^ M.n : (ZMod (M.n ^ 2))ˣ) := by
  obtain ⟨-, -, ρ, hρ⟩ := cipher
  refine ⟨ρ, ?_⟩
  rw [hρ]
  rfl

/-- Two neighbouring challenges under one first message decrypt the statement's ciphertext. -/
theorem cipher_difference {ρ σ' : (ZMod (M.n ^ 2))ˣ} {s1' : ℤ}
    (cipher : κ = M.oneAdd ^ (k' : ℤ) * ρ ^ M.n)
    (same : (M.oneAdd ^ s1 * σ ^ M.n * κ ^ (-e) : (ZMod (M.n ^ 2))ˣ) =
      M.oneAdd ^ s1' * σ' ^ M.n * κ ^ (-(e + 1))) :
    ((s1' - s1 : ℤ) : ZMod M.n) = (k' : ℤ) := by
  apply M.plaintext_unique_zpow (ρ := σ' * σ⁻¹) (σ := ρ)
  rw [← cipher, zpow_sub, mul_pow, inv_pow]
  rw [neg_add, zpow_add, zpow_neg_one, ← mul_assoc, eq_mul_inv_iff_mul_eq, mul_right_comm,
    mul_left_inj] at same
  rw [mul_mul_mul_comm, ← mul_inv, ← same, mul_comm _ κ, mul_inv_cancel_right]

/-- Responses of size at most `q^3` turn the congruence into an equation. -/
theorem cipher_eq_of_bounded {s1' B : ℤ} (bound : 4 * B < M.n) (k'_le : (k' : ℤ) ≤ B)
    (s1_le : |s1| ≤ B) (s1'_le : |s1'| ≤ B)
    (congruent : ((s1' - s1 : ℤ) : ZMod M.n) = (k' : ℤ)) : s1' - s1 = k' := by
  rw [ZMod.intCast_eq_intCast_iff] at congruent
  obtain ⟨j, hj⟩ := congruent.dvd
  rw [abs_le] at s1_le s1'_le
  have : j = 0 := by nlinarith
  subst this
  omega

theorem sq_dvd : M.n ∣ M.n ^ 2 := dvd_pow_self _ two_ne_zero

/-- A unit modulo `n ^ 2`, read modulo `n`. -/
theorem natCast_val_unitsMap (υ : (ZMod (M.n ^ 2))ˣ) :
    (((υ : ZMod (M.n ^ 2)).val : ℤ) : ZMod M.n) = ZMod.unitsMap sq_dvd υ := by
  have := NeZero.of_pos M.sq_pos
  rw [Int.cast_natCast, ZMod.natCast_val, ZMod.unitsMap_val]

theorem gcd_val_unit (υ : (ZMod (M.n ^ 2))ˣ) : Int.gcd ((υ : ZMod (M.n ^ 2)).val : ℤ) M.n = 1 := by
  rw [← Int.isCoprime_iff_gcd_eq_one]
  refine ((ZMod.coe_int_isUnit_iff_isCoprime _ M.n).mp ?_).symm
  rw [natCast_val_unitsMap]
  exact Units.isUnit _

/-- There are more units modulo `n` than challenges, so a mask avoids the response one. -/
theorem exists_mask {N : ℕ} (large : 4 * N < M.n) (ρ : (ZMod (M.n ^ 2))ˣ) :
    ∃ β : (ZMod (M.n ^ 2))ˣ, ∀ e < N, ZMod.unitsMap sq_dvd (ρ ^ e * β) ≠ 1 := by
  have := NeZero.of_pos M.n_pos
  let ρ' := ZMod.unitsMap (sq_dvd) ρ
  let taken := (Finset.range N).image fun e => (ρ' ^ e)⁻¹
  have few : taken.card < Fintype.card (ZMod M.n)ˣ := by
    rw [ZMod.card_units_eq_totient, M.totient_n]
    have : taken.card ≤ N := card_image_le.trans (by simp)
    have := M.n_le_four_mul_phi
    omega
  obtain ⟨β', -, free⟩ := exists_mem_notMem_of_card_lt_card (by rwa [← card_univ] at few)
  obtain ⟨β, rfl⟩ := ZMod.unitsMap_surjective sq_dvd β'
  refine ⟨β, fun e small one => free ?_⟩
  rw [map_mul, map_pow] at one
  exact mem_image.mpr ⟨e, mem_range.mpr small, inv_eq_of_mul_eq_one_right one⟩

end

/-! ## Soundness with bounded responses -/

section

/-- The statement that the ciphertext `c` holds the logarithm of `Q` to the base `R`. -/
def pdlStatement (C : S.Model E) (M : PaillierModulus) (R Q : E) (c H1 H2 NTilde : ℤ) :
    PDLwSlackStatement where
  CipherText := c
  PK := publicKeyOf M
  K1R := C.xy Q
  R := C.xy R
  H1 := H1
  H2 := H2
  NTilde := NTilde

/-- The first message `(z, u1, u2, u3)` passes: at every challenge that the verifier's curve
operations can use, some responses that `allowed` admits are accepted. -/
def PassesEvery (C : S.Model E) (st : PDLwSlackStatement) (Q : E) (z : ℤ) (u1 : ℤ × ℤ) (u2 u3 : ℤ)
    (allowed : ℤ → ℤ → Prop) : Prop :=
  ∃ U : E, U ≠ 0 ∧ u1 = C.xy U ∧ ∀ e : ℤ, 0 ≤ e → e < S.N → Nondegenerate S U Q e →
    ∃ s1 s2 s3, allowed s1 s2 ∧
      pdlAccepts S st { Z := z, U1 := u1, U2 := u2, U3 := u3, S1 := s1, S2 := s2, S3 := s3 } e =
        .ok true

variable {C : S.Model E} {c H1 H2 NTilde : ℤ} {k' m : ℕ} {η₂ η₁ : (ZMod m)ˣ} {e : ℤ}
  {pf : PDLwSlackProof}

/-- Acceptance needs usable curve operands, whatever the proof. -/
theorem accepted_nondegenerate (R_ne : R ≠ 0) (Q_ne : Q ≠ 0) (small : e < S.N)
    (accepted : pdlAccepts S (pdlStatement C M R Q c H1 H2 NTilde) pf e = .ok true) :
    ∃ U : E, U ≠ 0 ∧ pf.U1 = C.xy U ∧ (pf.S1 : ZMod S.N) • R = U + (e : ZMod S.N) • Q ∧
      Nondegenerate S U Q e := by
  obtain ⟨-, ⟨gS1, yMinusE, multiplied, multiplied', added, -⟩, -⟩ :=
    pdlAccepts_eq_true_iff.mp accepted
  exact accepts_curve C R_ne Q_ne small multiplied multiplied' added

variable {κ : (ZMod (M.n ^ 2))ˣ}

/-- The two equations of an accepted proof whose `S2` is invertible. -/
theorem accepted_equations (R_ne : R ≠ 0) (Q_ne : Q ≠ 0) (U_ne : U ≠ 0)
    (hc : (c : ZMod (M.n ^ 2)) = κ) (small : e < S.N) (point : pf.U1 = C.xy U)
    (coprime : Int.gcd pf.S2 M.n = 1)
    (accepted : pdlAccepts S (pdlStatement C M R Q c H1 H2 NTilde) pf e = .ok true) :
    (pf.S1 : ZMod S.N) • R = U + (e : ZMod S.N) • Q ∧ ∃ σ : (ZMod (M.n ^ 2))ˣ,
      pf.U2 = ((M.oneAdd ^ pf.S1 * σ ^ M.n * κ ^ (-e) : (ZMod (M.n ^ 2))ˣ) : ZMod (M.n ^ 2)).val := by
  obtain ⟨U', U'_ne, point', equation, -⟩ := accepted_nondegenerate R_ne Q_ne small accepted
  obtain rfl : U = U' := C.xy_injective U_ne U'_ne (point.symm.trans point')
  obtain ⟨-, -, cipher, -⟩ := pdlAccepts_eq_true_iff.mp accepted
  obtain ⟨σ, hσ⟩ := exists_unit_of_coprime coprime
  exact ⟨equation, σ, (accepts_cipher hc hσ).mp cipher⟩

variable {u1 : ℤ × ℤ}

/-- **Soundness with bounded responses.**  A first message that passes every challenge with
responses `S1` of size at most `q^3` and invertible `S2` has a true statement. -/
theorem passes_bounded_sound (R_ne : R ≠ 0) {k : ZMod S.N} (k_ne : k ≠ 0) (large : 7 ≤ S.N)
    (modulus : 4 * S.N3 < M.n) (k'_le : (k' : ℤ) ≤ S.N3) (cipher : Ciphers M c k') {z : ℤ}
    {u2 u3 : ℤ}
    (passes : PassesEvery C (pdlStatement C M R (k • R) c H1 H2 NTilde) (k • R) z u1 u2 u3
      fun s1 s2 => |s1| ≤ S.N3 ∧ Int.gcd s2 M.n = 1) : (k' : ZMod S.N) = k := by
  have Q_ne : k • R ≠ 0 := by
    rw [Ne, C.smul_eq_zero_iff, not_or]
    exact ⟨k_ne, R_ne⟩
  obtain ⟨ρ, hc⟩ := cipher_unit cipher
  obtain ⟨U, U_ne, rfl, passes⟩ := passes
  obtain ⟨e, low, small, usable, usable'⟩ := exists_neighbours C large Q_ne U
  obtain ⟨s1, s2, s3, ⟨s1_le, s2_unit⟩, accepted⟩ := passes e low (by omega) usable
  obtain ⟨s1', s2', s3', ⟨s1'_le, s2'_unit⟩, accepted'⟩ := passes (e + 1) (by omega) small usable'
  obtain ⟨curve, σ, paillier⟩ :=
    accepted_equations R_ne Q_ne U_ne hc (by omega) rfl s2_unit accepted
  obtain ⟨curve', σ', paillier'⟩ :=
    accepted_equations R_ne Q_ne U_ne hc small rfl s2'_unit accepted'
  -- both proofs share `u2`, so the difference of the responses decrypts `c`
  have := NeZero.of_pos M.sq_pos
  have same := Units.ext (ZMod.val_injective _ (Int.natCast_inj.mp (paillier.symm.trans paillier')))
  have difference := cipher_eq_of_bounded modulus k'_le s1_le s1'_le (cipher_difference rfl same)
  apply C.smul_injective R_ne
  calc (k' : ZMod S.N) • R = ((s1' - s1 : ℤ) : ZMod S.N) • R := by rw [difference, Int.cast_natCast]
    _ = k • R := by
      rw [Int.cast_sub, sub_smul, curve, curve', Int.cast_add, Int.cast_one, add_smul, one_smul]
      abel

/-! ## Without the bound every statement passes -/

/-- The ring-Pedersen commitment to any `X` can be made to pass the verifier's test on `Z`. -/
theorem exists_commitment (η₁ : (ZMod m)ˣ) (η₂_ne : η₂ ≠ 1) (X : ℤ) :
    ∃ r : ℤ, 0 ≤ r ∧ η₁ ^ X * η₂ ^ r ≠ 1 := by
  by_cases one : η₁ ^ X = 1
  · exact ⟨1, zero_le_one, by rwa [one, one_mul, zpow_one]⟩
  · exact ⟨0, le_rfl, by rwa [zpow_zero, mul_one]⟩

/-- A number congruent to `k` modulo `q` and to `k'` modulo `n`. -/
theorem exists_crt {N n : ℕ} [NeZero N] (coprime : N.Coprime n) (k : ZMod N) (k' : ℕ) :
    ∃ X : ℕ, (X : ZMod N) = k ∧ (n : ℤ) ∣ X - k' := by
  obtain ⟨X, mod_N, mod_n⟩ := Nat.chineseRemainder coprime k.val k'
  refine ⟨X, ?_, (Int.natCast_modEq_iff.mpr mod_n).symm.dvd⟩
  rw [(ZMod.natCast_eq_natCast_iff _ _ _).mpr mod_N, ZMod.natCast_zmod_val]

theorem checks_pass (R_ne : R ≠ 0) (Q_ne : Q ≠ 0) (U_ne : U ≠ 0) (one_lt : 1 < m) {ζ υ₃ : (ZMod m)ˣ}
    (h1 : (H1 : ZMod m) = η₁) (h2 : (H2 : ZMod m) = η₂) (η₁_ne : η₁ ≠ 1) (η₂_ne : η₂ ≠ 1)
    (ζ_ne : ζ ≠ 1) (υ₃_ne : υ₃ ≠ 1) {υ₂ : (ZMod (M.n ^ 2))ˣ} (hc : (c : ZMod (M.n ^ 2)) = κ)
    (κ_ne : κ ≠ 1) (υ₂_ne : υ₂ ≠ 1) {s1 s2 s3 : ℤ} {σ : (ZMod M.n)ˣ} (hs2 : (s2 : ZMod M.n) = σ)
    (σ_ne : σ ≠ 1) :
    pdlChecks (pdlStatement C M R Q c H1 H2 m)
      { Z := (ζ : ZMod m).val, U1 := C.xy U, U2 := (υ₂ : ZMod (M.n ^ 2)).val,
        U3 := (υ₃ : ZMod m).val, S1 := s1, S2 := s2, S3 := s3 } = true := by
  have := NeZero.of_pos (zero_lt_one.trans one_lt)
  have := NeZero.of_pos M.sq_pos
  have n_gt := M.one_lt_n
  have sq_gt : 1 < M.n ^ 2 := Nat.one_lt_pow two_ne_zero n_gt
  have finite : ∀ {p : E}, p ≠ 0 → IsInfinityPoint (C.xy p) = false := by
    intro p ne
    rw [IsInfinityPoint, decide_eq_false_iff_not]
    exact fun h => C.x_ne_zero ne h.1
  have n_eq : (publicKeyOf M).N = (M.n : ℤ) := rfl
  simp only [pdlChecks, pdlStatement, finite R_ne, finite Q_ne, finite U_ne, n_eq, sq_natCast,
    (trivialMod_eq_false_iff sq_gt hc).mpr κ_ne, (trivialMod_eq_false_iff one_lt h1).mpr η₁_ne,
    (trivialMod_eq_false_iff one_lt h2).mpr η₂_ne,
    (trivialMod_eq_false_iff one_lt (natCast_val_unit ζ)).mpr ζ_ne,
    (trivialMod_eq_false_iff sq_gt (natCast_val_unit υ₂)).mpr υ₂_ne,
    (trivialMod_eq_false_iff one_lt (natCast_val_unit υ₃)).mpr υ₃_ne,
    (trivialMod_eq_false_iff n_gt hs2).mpr σ_ne, Bool.or_self, Bool.not_false, Bool.and_self]

theorem cipher_ne_one (cipher : Ciphers M c k') (c_ne : c ≠ 1)
    (hc : (c : ZMod (M.n ^ 2)) = κ) : κ ≠ 1 := by
  rintro rfl
  obtain ⟨nonneg, small, -⟩ := cipher
  have one_small : (1 : ℤ) < ((M.n ^ 2 : ℕ) : ℤ) := by
    exact_mod_cast Nat.one_lt_pow two_ne_zero M.one_lt_n
  rw [Units.val_one, ← Int.cast_one, ZMod.intCast_eq_intCast_iff, Int.ModEq,
    Int.emod_eq_of_lt nonneg (by exact_mod_cast small),
    Int.emod_eq_of_lt zero_le_one one_small] at hc
  exact c_ne hc

theorem cancel_shared {G : Type} [CommGroup G] (a b c d : G) :
    a * b * (c * d) * (a⁻¹ * c⁻¹) = b * d := by
  rw [← mul_inv, mul_inv_eq_iff_eq_mul]
  ac_rfl

/-- `X` and the plaintext agree modulo `n`, so the verifier's division leaves the mask. -/
theorem crt_cancels {X e : ℕ} {ρ β : (ZMod (M.n ^ 2))ˣ} (agree : (M.n : ℤ) ∣ X - k') :
    M.oneAdd ^ ((e : ℤ) * X + 1) * (ρ ^ e * β) ^ M.n *
      (M.oneAdd ^ (k' : ℤ) * ρ ^ M.n) ^ (-(e : ℤ)) = M.oneAdd ^ (1 : ℤ) * β ^ M.n := by
  obtain ⟨j, hj⟩ := agree
  have exponent : (e : ℤ) * X + 1 = M.n * (j * e) + k' * e + 1 := by linear_combination e * hj
  have killed : M.oneAdd ^ ((M.n : ℤ) * (j * e)) = 1 := by
    rw [zpow_mul, zpow_natCast, M.oneAdd_pow_n, one_zpow]
  rw [exponent, zpow_add, zpow_add, killed, one_mul, mul_pow, mul_zpow, zpow_neg, zpow_neg,
    zpow_natCast (ρ ^ M.n), ← pow_mul, ← pow_mul, ← zpow_mul, mul_comm M.n e]
  exact cancel_shared _ _ _ _

theorem commitment_cancels {X r : ℤ} :
    η₁ ^ (e * X + 1) * η₂ ^ (e * r) * (η₁ ^ X * η₂ ^ r) ^ (-e) = η₁ := by
  rw [zpow_add, mul_zpow, ← zpow_mul, ← zpow_mul, mul_comm X,
    mul_comm r]
  simpa using cancel_shared (η₁ ^ (e * X)) η₁ (η₂ ^ (e * r)) 1

/-- **Without a bound on `S1` every statement passes every challenge**: `X` agrees with `k`
modulo `q` and with the plaintext `k'` modulo `n`, and the honest prover's responses are made
with `X`. -/
theorem exists_passing (R_ne : R ≠ 0) {k : ZMod S.N} (k_ne : k ≠ 0) (modulus : 4 * S.N < M.n)
    (cipher : Ciphers M c k') (c_ne : c ≠ 1) (coprime : S.N.Coprime M.n) (one_lt : 1 < m)
    (h1 : (H1 : ZMod m) = η₁) (h2 : (H2 : ZMod m) = η₂) (η₁_ne : η₁ ≠ 1) (η₂_ne : η₂ ≠ 1) :
    ∃ z u1 u2 u3, PassesEvery C (pdlStatement C M R (k • R) c H1 H2 m) (k • R) z u1 u2 u3
      fun s1 s2 => 0 ≤ s1 ∧ Int.gcd s2 M.n = 1 := by
  have := NeZero.of_pos C.prime.pos
  have := NeZero.of_pos (zero_lt_one.trans one_lt)
  have := NeZero.of_pos M.sq_pos
  have Q_ne : k • R ≠ 0 := by
    rw [Ne, C.smul_eq_zero_iff, not_or]
    exact ⟨k_ne, R_ne⟩
  obtain ⟨ρ, hc⟩ := cipher_unit cipher
  obtain ⟨X, X_mod, X_cipher⟩ := exists_crt coprime k k'
  obtain ⟨r, r_nonneg, z_ne⟩ := exists_commitment η₁ η₂_ne X
  obtain ⟨β, masked⟩ := exists_mask modulus ρ
  have c_unit_ne := cipher_ne_one cipher c_ne hc
  have u2_ne : M.oneAdd ^ (1 : ℤ) * β ^ M.n ≠ 1 := by
    intro one
    have zero := M.plaintext_unique_zpow (a := 1) (b := 0) (ρ := β) (σ := 1) (by simpa using one)
    have := Fact.mk M.one_lt_n
    simp at zero
  refine ⟨((η₁ ^ (X : ℤ) * η₂ ^ r : (ZMod m)ˣ) : ZMod m).val, C.xy R,
    ((M.oneAdd ^ (1 : ℤ) * β ^ M.n : (ZMod (M.n ^ 2))ˣ) : ZMod (M.n ^ 2)).val,
    ((η₁ : (ZMod m)ˣ) : ZMod m).val, R, R_ne, rfl, ?_⟩
  intro challenge low small usable
  obtain ⟨e, rfl⟩ := Int.eq_ofNat_of_zero_le low
  refine ⟨e * X + 1, ((ρ ^ e * β : (ZMod (M.n ^ 2))ˣ) : ZMod (M.n ^ 2)).val, e * r,
    ⟨by positivity, gcd_val_unit _⟩, pdlAccepts_eq_true_iff.mpr ⟨?_, ?_, ?_, ?_⟩⟩
  · refine ⟨Int.natCast_ne_zero.mpr M.n_pos.ne', Int.natCast_ne_zero.mpr (by omega), ?_⟩
    exact checks_pass R_ne Q_ne R_ne one_lt h1 h2 η₁_ne η₂_ne z_ne η₁_ne hc c_unit_ne u2_ne
      (natCast_val_unitsMap _) (masked e (by exact_mod_cast small))
  · refine curve_test_returns C R_ne Q_ne R_ne low small ?_ usable
    push_cast
    rw [X_mod, add_smul, one_smul, mul_smul, add_comm]
  · refine (accepts_cipher hc (natCast_val_unit _)).mpr ?_
    rw [crt_cancels X_cipher]
  · refine (commitments_units (zero_lt_one.trans one_lt) h1 h2 (natCast_val_unit _) _ _ _).mpr ?_
    rw [commitment_cancels]

theorem PassesEvery.mono {st : PDLwSlackStatement} {z u2 u3 : ℤ}
    {allowed allowed' : ℤ → ℤ → Prop} (weaker : ∀ s1 s2, allowed s1 s2 → allowed' s1 s2)
    (passes : PassesEvery C st Q z u1 u2 u3 allowed) : PassesEvery C st Q z u1 u2 u3 allowed' := by
  obtain ⟨U, U_ne, point, passes⟩ := passes
  refine ⟨U, U_ne, point, fun e low small usable => ?_⟩
  obtain ⟨s1, s2, s3, admitted, accepted⟩ := passes e low small usable
  exact ⟨s1, s2, s3, weaker s1 s2 admitted, accepted⟩

/-- **What `PDLwSlackVerify` proves.**  An accepted proof had a challenge its curve operations
could use.  A first message that passes all those challenges has `k' = k` modulo `q` if the
responses keep `|S1| ≤ q^3` and `S2` invertible; without the bound on `S1`, which the verifier
does not test, every `k` and `k'` have a first message that passes. -/
theorem pdl_sound_with_bound_only (R_ne : R ≠ 0) {k : ZMod S.N} (k_ne : k ≠ 0) {k' : ℕ}
    (large : 7 ≤ S.N) (modulus : 4 * S.N3 < M.n) (k'_le : (k' : ℤ) ≤ S.N3)
    (cipher : Ciphers M c k') :
    (∀ (H1 H2 NTilde : ℤ) (pf : PDLwSlackProof) (e : ℤ), 0 ≤ e → e < S.N →
      pdlAccepts S (pdlStatement C M R (k • R) c H1 H2 NTilde) pf e = .ok true →
      ∃ U : E, U ≠ 0 ∧ pf.U1 = C.xy U ∧ Nondegenerate S U (k • R) e) ∧
    (∀ (H1 H2 NTilde z : ℤ) (u1 : ℤ × ℤ) (u2 u3 : ℤ),
      PassesEvery C (pdlStatement C M R (k • R) c H1 H2 NTilde) (k • R) z u1 u2 u3
        (fun s1 s2 => |s1| ≤ S.N3 ∧ Int.gcd s2 M.n = 1) → (k' : ZMod S.N) = k) ∧
    ∀ (m : ℕ) (H1 H2 : ℤ) (η₁ η₂ : (ZMod m)ˣ), c ≠ 1 → S.N.Coprime M.n → 1 < m →
      (H1 : ZMod m) = η₁ → (H2 : ZMod m) = η₂ → η₁ ≠ 1 → η₂ ≠ 1 →
      ∃ z u1 u2 u3, PassesEvery C (pdlStatement C M R (k • R) c H1 H2 m) (k • R) z u1 u2 u3
        fun s1 s2 => 0 ≤ s1 ∧ Int.gcd s2 M.n = 1 := by
  refine ⟨?_, ?_, ?_⟩
  · intro H1 H2 NTilde pf e _ small accepted
    have Q_ne : k • R ≠ 0 := by
      rw [Ne, C.smul_eq_zero_iff, not_or]
      exact ⟨k_ne, R_ne⟩
    obtain ⟨U, U_ne, point, -, usable⟩ := accepted_nondegenerate R_ne Q_ne small accepted
    exact ⟨U, U_ne, point, usable⟩
  · intro H1 H2 NTilde z u1 u2 u3 passes
    exact passes_bounded_sound R_ne k_ne large modulus k'_le cipher passes
  intro m H1 H2 η₁ η₂ c_ne coprime one_lt h1 h2 η₁_ne η₂_ne
  have modulus' : 4 * S.N < M.n := by
    have cube : (S.N : ℤ) ≤ S.N3 := by
      have := N_pos_int C
      unfold CurveOps.N3
      nlinarith [mul_pos this this]
    omega
  exact exists_passing R_ne k_ne modulus' cipher c_ne coprime one_lt h1 h2 η₁_ne η₂_ne

end

/-! ## A group of order 7 -/

instance prime_seven : Fact (Nat.Prime 7) := ⟨by norm_num⟩

def modulus1517 : PaillierModulus := ⟨37, 41, by norm_num, by norm_num, by norm_num, by norm_num⟩

/-- `1 + 3 n` encrypts 3 with randomness one. -/
theorem ciphers_three : Ciphers modulus1517 4552 3 := by
  refine ⟨by decide, by decide, 1, ?_⟩
  rw [Units.val_one, one_pow]
  rfl

/-- The honest first message for `k = k' = 3` passes with responses below `q^3`. -/
theorem pdl_sound_with_bound_only_three :
    ∃ z u1 u2 u3, PassesEvery (zmodModel 7)
      (pdlStatement (zmodModel 7) modulus1517 (1 : ZMod 7) ((3 : ZMod (zmodCurve 7).N) • 1) 4552 4 9
        253) ((3 : ZMod (zmodCurve 7).N) • 1) z u1 u2 u3
      (fun s1 s2 => |s1| ≤ (zmodCurve 7).N3 ∧ Int.gcd s2 modulus1517.n = 1) ∧
    ((3 : ℕ) : ZMod (zmodCurve 7).N) = 3 := by
  have passes : PassesEvery (zmodModel 7)
      (pdlStatement (zmodModel 7) modulus1517 (1 : ZMod 7) ((3 : ZMod (zmodCurve 7).N) • 1) 4552 4 9
        253) ((3 : ZMod (zmodCurve 7).N) • 1) 64 (1, 1) 1667178 4
      (fun s1 s2 => |s1| ≤ (zmodCurve 7).N3 ∧ Int.gcd s2 modulus1517.n = 1) := by
    refine ⟨1, by decide, by decide, fun e low small usable => ⟨3 * e + 1, 2, 0, ?_⟩⟩
    rw [Nondegenerate] at usable
    change e < 7 at small
    interval_cases e
    · exact absurd usable (by decide)
    · exact absurd usable (by decide)
    · exact absurd usable (by decide)
    all_goals decide +kernel
  exact ⟨_, _, _, _, passes,
    (pdl_sound_with_bound_only (R := (1 : ZMod 7)) (by decide) (by decide)
      (by decide) (by decide) (by decide) ciphers_three).2.1 4 9 253 _ _ _ _ passes⟩

/-- The ciphertext of 3 passes for the point with logarithm 2. -/
theorem pdl_passes_for_wrong_point :
    4 * (zmodCurve 7).N3 < modulus1517.n ∧ Ciphers modulus1517 4552 3 ∧
    ¬ ∀ (z : ℤ) (u1 : ℤ × ℤ) (u2 u3 : ℤ),
      PassesEvery (zmodModel 7)
        (pdlStatement (zmodModel 7) modulus1517 (1 : ZMod 7) ((2 : ZMod (zmodCurve 7).N) • 1) 4552 4
          9 (253 : ℕ)) ((2 : ZMod (zmodCurve 7).N) • 1) z u1 u2 u3 (fun _ _ => True) →
      ((3 : ℕ) : ZMod (zmodCurve 7).N) = 2 := by
  refine ⟨by decide, ciphers_three, fun sound => ?_⟩
  have h1 : ((4 : ℤ) : ZMod 253) = ZMod.unitOfCoprime 4 (show Nat.Coprime 4 253 by decide) := rfl
  have h2 : ((9 : ℤ) : ZMod 253) = ZMod.unitOfCoprime 9 (show Nat.Coprime 9 253 by decide) := rfl
  obtain ⟨z, u1, u2, u3, passes⟩ := exists_passing (C := zmodModel 7) (R := (1 : ZMod 7))
    (k := 2) (by decide) (by decide) (by decide) ciphers_three (by decide) (by decide)
    (by decide) h1 h2 (by decide) (by decide)
  exact absurd (sound z u1 u2 u3 (passes.mono fun _ _ _ => trivial)) (by decide)

end ThresholdDsa.Ec2
