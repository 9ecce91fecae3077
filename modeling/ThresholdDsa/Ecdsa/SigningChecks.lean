/-
# What rounds 7 to 9 establish against any peers

One party runs rounds 7 to 9 and they return; the other signers' messages are
arbitrary.  The two comparisons of rounds 8 and 9 then tie the received points
to the generator and to the public key (`round8_eq`, `round9_eq`), and so whatever
message the pre-signature data is used for, partial signatures made with those
discrete logarithms add up to a signature (`presign_checks_sound`).
-/
import ThresholdDsa.Ecdsa.SigningHonest

namespace ThresholdDsa.Ecdsa

open BigInt Outcome Ec2 Finset

variable {n : ℕ}

section

variable {P : Primitives} {E : Type} [AddCommGroup E] [Module (ZMod P.S.N) E] {C : P.S.Model E}
  {b : SignBase n} {t1 : Temp1} {t2 : Temp2} {t5 : Temp5} {t6 : Temp6} {t7 : Temp7}
  {msgs1 : Fin n → SignRound1Message} {msgs3 : Fin n → SignRound3Message}
  {msgs5 : Fin n → SignRound5Message} {msgs6 : Fin n → SignRound6Message}
  {msgs7 : Fin n → SignRound7Message} {msgs8 : Fin n → SignRound8Message}

theorem round7_K1R {d : PDLDraws} {own : SignRound7Message}
    (started : round7Start P b d t1 t2 t6 msgs1 msgs6 = .ok (t7, own)) :
    P.S.ScalarMult t7.deltaGammaG t1.u1K.natAbs = some own.K1R := by
  simp only [round7Start, eq_ok, Prod.mk.injEq] at started
  obtain ⟨-, -, -, -, -, -, -, -, point, -, -, -, K1R, multiplied, -, -, -, -, -, -, -, -, rfl, rfl⟩ :=
    started
  exact multiplied

/-- Round 8 compares the sum of the points `K1R` with the generator and multiplies `R` by
`sigma1`. -/
theorem round8_eq {draws : ℤ × ℤ} {own : SignRound8Message}
    (started : round8Start P b draws t5 t7 msgs3 msgs7 = .ok own) :
    P.S.sumPoints (List.ofFn fun k => (msgs7 k).K1R) = .ok P.S.G ∧
      P.S.ScalarMult t7.deltaGammaG t5.sigma1.natAbs = some own.S1 := by
  simp only [round8Start, eq_ok, decide_eq_true_eq] at started
  obtain ⟨-, -, K1R, looped, -, rfl, S1, multiplied, -, -, -, -, rfl⟩ := started
  refine ⟨(CurveOps.sumRange_eq_ok ?_ looped).2, multiplied⟩
  intro k p checked
  simp only [round8Check, eq_ok] at checked
  obtain ⟨-, -, -, -, -, -, -, -, -, -, rfl⟩ := checked
  rfl

/-- Round 9 compares the sum of the points `S1` with the public key. -/
theorem round9_eq {pre : PrePubData}
    (started : round9Start P b t1 t5 t7 msgs5 msgs8 = .ok pre) :
    P.S.sumPoints (List.ofFn fun k => (msgs8 k).S1) = .ok b.save.Pk ∧
      pre = { K1 := t1.u1K, R := t7.deltaGammaG.1, Ry := t7.deltaGammaG.2, Sigma1 := t5.sigma1 } := by
  simp only [round9Start, eq_ok, decide_eq_true_eq] at started
  obtain ⟨h, -, s1, looped, -, rfl, rfl⟩ := started
  refine ⟨(CurveOps.sumRange_eq_ok ?_ looped).2, rfl⟩
  intro k p checked
  simp only [eq_ok] at checked
  obtain ⟨-, -, -, -, rfl⟩ := checked
  rfl

/-- **The checks of rounds 7 to 9 are sound.**  Let `k` and `σ` be the discrete logarithms to
the base `R` of the points in the party's slots.  They are its own nonce and sigma share in its
own slot, `(∑ k) R = G` and `(∑ σ) R = Pk`, and for every message partial signatures made with
them add up in round 11 to a signature. -/
theorem presign_checks_sound {cur : Fin n} {d7 : PDLDraws} {d8 : ℤ × ℤ} {pre : PrePubData}
    (round7 : round7Start P b d7 t1 t2 t6 msgs1 msgs6 = .ok (t7, msgs7 cur))
    (round8 : round8Start P b d8 t5 t7 msgs3 msgs7 = .ok (msgs8 cur))
    (round9 : round9Start P b t1 t5 t7 msgs5 msgs8 = .ok pre)
    (k_nonneg : 0 ≤ t1.u1K) (sigma_nonneg : 0 ≤ t5.sigma1)
    {R Pk : E} (R_ne : R ≠ 0) (R_eq : t7.deltaGammaG = C.xy R)
    (Pk_ne : Pk ≠ 0) (Pk_eq : b.save.Pk = C.xy Pk)
    {k σ : Fin n → ZMod P.S.N}
    (K1R_eq : ∀ i, (msgs7 i).K1R = C.xy (k i • R)) (K1R_ne : ∀ i, k i • R ≠ 0)
    (S1_eq : ∀ i, (msgs8 i).S1 = C.xy (σ i • R)) (S1_ne : ∀ i, σ i • R ≠ 0) :
    k cur = (t1.u1K : ZMod P.S.N) ∧ σ cur = (t5.sigma1 : ZMod P.S.N) ∧
    (∑ i, k i) • R = C.g ∧ (∑ i, σ i) • R = Pk ∧
    (∀ (m : ℤ) (own : SignRound9Message), round10Start P b pre m = .ok own →
      (own.Us1 : ZMod P.S.N) = m * k cur + pre.R * σ cur) ∧
    ∀ (m : ℤ) (msgs9 : Fin n → SignRound9Message),
      (∀ i, ((msgs9 i).Us1 : ZMod P.S.N) = m * k i + pre.R * σ i) →
      (round11Start P msgs9 : ZMod P.S.N) • R =
        (m : ZMod P.S.N) • C.g + (pre.R : ZMod P.S.N) • Pk := by
  obtain ⟨K1R_sum, S1_mul⟩ := round8_eq round8
  obtain ⟨S1_sum, pre_eq⟩ := round9_eq round9
  have K1R_mul := round7_K1R round7
  rw [R_eq] at K1R_mul S1_mul
  have k_cur := C.log_of_scalarMult R_ne k_nonneg (K1R_eq cur) (K1R_ne cur) K1R_mul
  have sigma_cur := C.log_of_scalarMult R_ne sigma_nonneg (S1_eq cur) (S1_ne cur) S1_mul
  obtain ⟨G_eq, k_sum_ne⟩ := C.sumPoints_smul K1R_eq K1R_ne K1R_sum
  obtain ⟨Pk_eq', sigma_sum_ne⟩ := C.sumPoints_smul S1_eq S1_ne S1_sum
  have k_sum : (∑ i, k i) • R = C.g :=
    (C.xy_injective C.g_ne_zero k_sum_ne (C.xy_g.trans G_eq)).symm
  have sigma_sum : (∑ i, σ i) • R = Pk :=
    (C.xy_injective Pk_ne sigma_sum_ne (Pk_eq.symm.trans Pk_eq')).symm
  refine ⟨k_cur, sigma_cur, k_sum, sigma_sum, ?_, ?_⟩
  · intro m own sent
    simp only [round10Start, eq_ok] at sent
    obtain ⟨-, -, rfl⟩ := sent
    rw [k_cur, sigma_cur, ZMod.intCast_mod, pre_eq]
    push_cast
    rfl
  · intro m msgs9 contributed
    have s_eq : (round11Start P msgs9 : ZMod P.S.N) = m * ∑ i, k i + pre.R * ∑ i, σ i := by
      rw [round11Start, ZMod.intCast_mod, List.sum_ofFn, Int.cast_sum, mul_sum,
        mul_sum, ← sum_add_distrib]
      exact sum_congr rfl fun i _ => contributed i
    rw [s_eq, add_smul, mul_smul, mul_smul, k_sum, sigma_sum]

end

/-! ## The two-signer run -/

/-- What the first signer of the two-signer run holds after round 9, with `R = 7 G`. -/
theorem small_points {tr : SigningTranscript 2}
    (run : runSigning smallPrimitives smallBase smallDraws 4 = .ok tr) :
    (tr.t1 0).u1K = 5 ∧ (tr.t5 0).sigma1 = 12 ∧ (tr.t7 0).deltaGammaG = (7, 1) ∧
      (∀ i, (tr.m7 i).K1R = ![(9, 1), (5, 1)] i) ∧ ∀ i, (tr.m8 i).S1 = ![(6, 1), (12, 1)] i := by
  have evaluated : (runSigning smallPrimitives smallBase smallDraws 4).map (fun tr =>
      decide ((tr.t1 0).u1K = 5 ∧ (tr.t5 0).sigma1 = 12 ∧ (tr.t7 0).deltaGammaG = (7, 1) ∧
        (∀ i, (tr.m7 i).K1R = ![(9, 1), (5, 1)] i) ∧ ∀ i, (tr.m8 i).S1 = ![(6, 1), (12, 1)] i)) =
      .ok true := by
    decide +kernel
  rw [run] at evaluated
  exact of_decide_eq_true (Except.ok.inj evaluated)

theorem presign_checks_sound_two_signers :
    ∃ tr, runSigning smallPrimitives smallBase smallDraws 4 = .ok tr ∧
      ∀ (m : ℤ) (msgs9 : Fin 2 → SignRound9Message),
        (∀ i, ((msgs9 i).Us1 : ZMod smallPrimitives.S.N) =
          m * ![5, 10] i + (tr.pre 0).R * ![12, 11] i) →
        (round11Start smallPrimitives msgs9 : ZMod smallPrimitives.S.N) • (7 : ZMod 13) =
          (m : ZMod smallPrimitives.S.N) • (zmodModel 13).g +
            ((tr.pre 0).R : ZMod smallPrimitives.S.N) • (5 : ZMod 13) := by
  have returns : (runSigning smallPrimitives smallBase smallDraws 4).isOk = true := by
    decide +kernel
  obtain ⟨tr, run⟩ := exists_of_isOk returns
  obtain ⟨u1K, sigma1, R_eq, K1R_eq, S1_eq⟩ := small_points run
  have honest := runSigning_honest run
  obtain ⟨-, -, -, -, -, signature⟩ := presign_checks_sound (C := zmodModel 13)
    (R := (7 : ZMod 13)) (k := ![5, 10]) (σ := ![12, 11]) (honest.round7 0) (honest.round8 0)
    (honest.round9 0) (by rw [u1K]; decide) (by rw [sigma1]; decide)
    (by decide) (R_eq.trans (by decide)) (show (5 : ZMod 13) ≠ 0 by decide) (by decide)
    (fun i => (K1R_eq i).trans (by revert i; decide)) (by decide)
    (fun i => (S1_eq i).trans (by revert i; decide)) (by decide)
  exact ⟨tr, run, signature⟩

end ThresholdDsa.Ecdsa
