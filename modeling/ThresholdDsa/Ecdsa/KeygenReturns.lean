/-
# Key generation of honest parties returns

The checks of rounds 1 to 7 accept what honest parties send: the shares verify
against the committed coefficients, the commitments open, the proofs verify.  So
no round returns an error (`runKeygen_noError`), and a run whose curve operations
all have a result returns (`keygen_correct`): every party holds the same public
key and bip32 number and a share of the sum of the secrets.

The rounds use the index of a party as its id less one, so the ids are
`1, …, n`; with other ids round 1 fails (`keygen_other_ids_fail`).  What is assumed
of the numbers the parties draw, and of the two proofs about a modulus that are
parameters here, is `ModuliProved`.
-/
import ThresholdDsa.Ecdsa.KeygenHonest

namespace ThresholdDsa.Ecdsa.Keygen

open BigInt Outcome Ec2 GoText Polynomial List

variable {n : ℕ}

/-- The proof that `p * q` is square-free is made and verifies. -/
def SquareFreeProved (Z : ModulusProofs) (p q num : ℤ) : Prop :=
  ∃ pf, Z.SquareFreeProve (p * q) num ((p - 1) * (q - 1)) = some pf ∧
    Z.SquareFreeVerify (p * q) num pf = true

/-- The moduli have the required lengths and their proofs are complete. -/
structure ModuliProved (Z : ModulusProofs) (draws : Fin n → PartyDraws) : Prop where
  paillier_pos : ∀ i, 0 < (draws i).r1.p * (draws i).r1.q
  paillier_coprime : ∀ i, Int.gcd (((draws i).r1.p - 1) * ((draws i).r1.q - 1))
    ((draws i).r1.p * (draws i).r1.q) = 1
  paillier_bits : ∀ i, bitLen ((draws i).r1.p * (draws i).r1.q) = paillierBitsLen
  paillier_squareFree : ∀ i, SquareFreeProved Z (draws i).r1.p (draws i).r1.q (draws i).num2
  ntilde : ∀ i, ∃ keys, GenerateNtildeH1H2 2048 (draws i).r4.ntilde = some keys
  ntilde_bits : ∀ i, bitLen ((draws i).r4.ntilde.P1 * (draws i).r4.ntilde.P2) = ntildeBitsLen
  ntilde_squareFree : ∀ i,
    SquareFreeProved Z (draws i).r4.ntilde.P1 (draws i).r4.ntilde.P2 (draws i).num5
  ntilde_hv : ∀ i, ∃ pf,
    Z.HvProve ((draws i).r4.ntilde.P1 * (draws i).r4.ntilde.P2) (draws i).numHv
      (draws i).r4.ntilde.P1 (draws i).r4.ntilde.P2 = some pf ∧
    Z.HvVerify ((draws i).r4.ntilde.P1 * (draws i).r4.ntilde.P2) (draws i).numHv pf = true
  r6_nonneg : ∀ i, 0 ≤ (draws i).r6

section

variable {P : Primitives} {Z : ModulusProofs} {E : Type} [AddCommGroup E] [Module (ZMod P.S.N) E]
  {C : P.S.Model E} {base : Fin n → KeygenBase} {draws : Fin n → PartyDraws}
  (setup : KeygenSetup P C base draws) (moduli : ModuliProved Z draws)

/-! ## Dealing -/

theorem commit_returns (H : Hashes) (rnd : ℤ) {secrets : List ℤ} (nonempty : secrets ≠ []) :
    ∃ made, H.Commit rnd secrets = some made :=
  ⟨_, if_neg nonempty⟩

include setup moduli in
theorem round1_noError (i : Fin n) : NoError (round1Start n P (base i) (draws i).r1) := by
  have keys : ∃ keys, GenerateKeyPair (draws i).r1.p (draws i).r1.q = some keys := by
    have inverse := (modInverse_isSome_iff (moduli.paillier_pos i)).mpr (moduli.paillier_coprime i)
    obtain ⟨u, found⟩ := Option.isSome_iff_exists.mp inverse
    exact ⟨_, by rw [GenerateKeyPair, found]; rfl⟩
  obtain ⟨keys, generated⟩ := keys
  have admitted : (!(decide ((base i).threshold ≤ 1) || decide (n < (base i).threshold))) = true := by
    have := setup.two_le
    have := setup.t_le
    rw [setup.threshold_eq]
    simp only [Bool.not_eq_true', Bool.or_eq_false_iff, decide_eq_false_iff_not]
    omega
  refine noError_bind (noError_require admitted) fun _ _ => ?_
  refine noError_bind (noError_dropError _) fun u1 _ => ?_
  refine noError_bind (noError_dropError _) fun c1 _ => ?_
  refine noError_bind (noError_deref _) fun u1G _ => ?_
  refine noError_bind (noError_deref _) fun c1G _ => ?_
  refine noError_bind (noError_orError generated) fun _ _ => ?_
  obtain ⟨commitU1G, u1_committed⟩ := commit_returns P.H (draws i).r1.rndU1G
    (show polySecrets u1G u1.2 ≠ [] by simp [polySecrets])
  obtain ⟨commitC1G, c1_committed⟩ := commit_returns P.H (draws i).r1.rndC1G
    (show polySecrets c1G c1.2 ≠ [] by simp [polySecrets])
  refine noError_bind (noError_orError u1_committed) fun _ _ => ?_
  refine noError_bind (noError_orError c1_committed) fun _ _ => ?_
  exact noError_bind_ok (setup.numbered i) (noError_pure _)

include setup in
theorem ids_facts : List.ofFn setup.uid ≠ [] ∧ (List.ofFn setup.uid).Nodup ∧
    ∀ id ∈ List.ofFn setup.uid, id % P.S.N ≠ 0 := by
  have n_pos : 0 < n := by
    have := setup.two_le
    have := setup.t_le
    omega
  refine ⟨?_, ?_, ?_⟩
  · rw [Ne, ofFn_eq_nil_iff]
    omega
  · exact nodup_ofFn.mpr fun i j same => uid_distinct setup (congrArg _ same)
  · intro id mem
    obtain ⟨i, rfl⟩ := (mem_ofFn' _ _).mp mem
    rw [Ne, ← Int.dvd_iff_emod_eq_zero, ← ZMod.intCast_zmod_eq_zero_iff_dvd]
    exact uid_ne_zero setup i

include setup moduli in
theorem round2_noError {t1 : Fin n → Temp1} {m1 : Fin n → KGRound1Message}
    (round1 : ∀ k, round1Start n P (base k) (draws k).r1 = .ok (t1 k, m1 k)) (i : Fin n) :
    NoError (round2Start P Z (base i) (draws i).num2 (t1 i) m1) := by
  obtain ⟨ids_ne, nodup, nonzero⟩ := ids_facts setup
  have keys := fun k => generateKeyPair_fields (round1_eq (round1 k)).2.2.2.2.2.2
  obtain ⟨sfProof, proved, -⟩ := moduli.paillier_squareFree i
  rw [← (keys i).2.1, ← (keys i).2.2] at proved
  have poly_ne : (t1 i).u1Poly ≠ [] := by
    rw [(vss2Init_eq_ok (round1_eq (round1 i)).1).1]
    simp
  obtain ⟨shares, dealt, -⟩ := vss2_returns (S := P.S) poly_ne ids_ne nodup nonzero
  have no_duplicate : ContainsDuplicate (List.ofFn setup.uid) = .ok false := by
    simp only [ContainsDuplicate, eq_ok]
    exact ⟨(), by simpa using ids_ne, by simp [dedup_eq_self.mpr nodup]⟩
  refine noError_bind_ok (setup.numbered i) ?_
  refine noError_bind_ok (getIDs_eq setup i) ?_
  refine noError_bind (noError_deref _) fun _ _ => ?_
  refine noError_bind (noError_forRange fun k => noError_require ?_) fun _ _ => ?_
  · rw [(keys k).1, decide_eq_true_eq]
    exact moduli.paillier_bits k
  refine noError_bind (noError_orError proved) fun _ _ => ?_
  refine noError_bind_ok no_duplicate ?_
  refine noError_bind (noError_require (by simp)) fun _ _ => ?_
  refine noError_bind_ok dealt ?_
  refine noError_bind (noError_forRange fun k => ?_) fun _ _ => noError_pure _
  exact noError_bind (noError_deref _) fun _ _ =>
    noError_bind (noError_deref _) fun _ _ => noError_pure _

include setup moduli in
theorem round3_noError {t1 : Fin n → Temp1} {m1 : Fin n → KGRound1Message}
    (round1 : ∀ k, round1Start n P (base k) (draws k).r1 = .ok (t1 k, m1 k))
    {saved2 : Fin n → List ℤ × ℤ} {m2 : Fin n → Fin n → KGRound2Message}
    {m21 : Fin n → KGRound2Message1} {m22 : Fin n → KGRound2Message2}
    (round2 : ∀ k, round2Start P Z (base k) (draws k).num2 (t1 k) m1 =
      .ok (saved2 k, m2 k, m21 k, m22 k)) (i : Fin n) :
    NoError (round3Start Z (base i) (t1 i) m1 m22) := by
  refine noError_bind_ok (setup.numbered i) ?_
  refine noError_bind_ok (getIDs_eq setup i) ?_
  refine noError_bind (noError_forRange fun k => noError_require ?_) fun _ _ => noError_pure _
  obtain ⟨pk_N, sk_N, sk_L⟩ := generateKeyPair_fields (round1_eq (round1 k)).2.2.2.2.2.2
  obtain ⟨sfProof, proved, verified⟩ := moduli.paillier_squareFree k
  have started := round2 k
  simp only [round2Start, eq_ok, sk_N, sk_L, proved, Option.some.injEq, exists_eq_left',
    Prod.mk.injEq] at started
  obtain ⟨-, -, -, -, -, -, -, -, -, -, -, -, -, -, -, -, -, -, -, sent⟩ := started
  rw [← sent, pk_N]
  exact verified

/-! ## Round 4 -/

include C in
/-- A commitment to the points of `Vss2Init` verifies. -/
theorem verify_polySecrets {rnd secret : ℤ} {rnds : ℕ → ℤ} {t : ℕ} {poly : List ℤ}
    {polyG : List (ℤ × ℤ)} (dealt : Vss2Init P.S secret rnds t = .ok (poly, polyG)) {point : ℤ × ℤ}
    (based : P.S.ScalarBaseMult secret.natAbs = some point) {made : Commitment}
    (committed : P.H.Commit rnd (polySecrets point polyG) = some made) :
    P.H.Verify P.S made = true := by
  obtain ⟨-, -, points⟩ := vss2Init_eq_ok dealt
  refine verify_commit committed ?_
  have as_points : polySecrets point polyG =
      (point :: polyG.tail).flatMap fun p => [p.1, p.2] := by
    simp [polySecrets]
  rw [as_points]
  refine coordinatesOnCurve_points fun p mem => ?_
  rcases mem_cons.mp mem with rfl | mem
  · exact C.isOnCurve_of_baseMult based
  · obtain ⟨c, -, based⟩ := exists_of_mem_forall₂ points (mem_of_mem_tail mem)
    exact C.isOnCurve_of_baseMult based

section

variable {tr : Dealing n} (run : HonestDealing P Z base draws tr)

include setup run in
/-- Party `i` accepts what party `k` sent. -/
theorem round4Check_noError (k i : Fin n) :
    NoError (round4Check P (tr.m1 k) (tr.m2 k i) (tr.m21 k) (tr.m3 k)) := by
  obtain ⟨dealt, -, ⟨u1G, u1_based, u1_committed⟩, ⟨c1PolyG, c1G, ⟨c1Poly, c1_dealt⟩, c1_based,
    c1_committed⟩, ComC_eq, ComCBip32_eq, -⟩ := round1_eq (run.round1 k)
  obtain ⟨ID_eq, Share_nonneg, Share_eq⟩ := dealt_share setup run k i
  obtain ⟨poly_eq, -⟩ := dealt_polynomial setup run k
  have ID_nonneg : 0 ≤ (tr.m2 k i).ID := by
    rw [ID_eq, uid_succ setup]
    omega
  have coefficients_nonneg : ∀ c ∈ (tr.t1 k).u1Poly, 0 ≤ c := by
    rw [poly_eq]
    intro c mem
    rcases mem_cons.mp mem with rfl | mem
    · exact setup.u1_nonneg k
    · obtain ⟨j, -, rfl⟩ := mem_map.mp mem
      exact setup.u1Rnds_nonneg k j
  have U1PolyGG_eq : (tr.m3 k).U1PolyGG = (tr.t1 k).u1PolyG := by rw [round3_eq run k]
  have commitU1G_eq : ({ C := (tr.m1 k).ComC, D := (tr.m3 k).ComU1GD } : Commitment) =
      (tr.t1 k).commitU1G := by rw [ComC_eq, round3_eq run k]
  have commitC1G_eq : ({ C := (tr.m1 k).ComCBip32, D := (tr.m3 k).ComC1GD } : Commitment) =
      (tr.t1 k).commitC1G := by rw [ComCBip32_eq, round3_eq run k]
  unfold round4Check
  refine noError_bind (verify2_noError _ _ _) fun verified verified_eq => ?_
  refine noError_bind (noError_require ?_) fun _ _ => ?_
  · rw [U1PolyGG_eq] at verified_eq
    refine verify2_complete C ID_nonneg Share_nonneg coefficients_nonneg
      (vss2Init_eq_ok dealt).2.2 ?_ verified_eq
    rw [Share_eq, ID_eq]
  rw [commitU1G_eq, commitC1G_eq]
  refine noError_bind (noError_require (verify_polySecrets (C := C) dealt u1_based u1_committed))
    fun _ _ => ?_
  refine noError_bind (noError_require (verify_polySecrets (C := C) c1_dealt c1_based c1_committed))
    fun _ _ => ?_
  refine noError_bind (noError_deref _) fun opened opened_eq => ?_
  refine noError_bind (noError_deref _) fun cGVerify verify_eq => ?_
  refine noError_bind (noError_deref _) fun x x_eq => ?_
  refine noError_bind (noError_deref _) fun y y_eq => noError_require ?_
  rw [deref_eq_ok] at opened_eq verify_eq x_eq y_eq
  rw [sent_c1 run k, c1_based, Option.some.injEq] at verify_eq
  obtain rfl := deCommit_commit c1_committed opened_eq
  obtain rfl : _ = x := Option.some.inj x_eq
  obtain rfl : _ = y := Option.some.inj y_eq
  rw [verify_eq, decide_eq_true_eq]
  exact ⟨rfl, rfl⟩

include setup moduli run in
theorem round4_noError (i : Fin n) :
    NoError (round4Start P (base i) (draws i).r4 tr.m1 (fun k => tr.m2 k i) tr.m21 tr.m3) := by
  obtain ⟨keys, generated⟩ := moduli.ntilde i
  have powers : ∀ (a : ℕ → ℤ) (h1 h2 x p q N : ℤ), NoError (NewNtildeProof P.H a h1 h2 x p q N) :=
    fun _ _ _ _ _ _ _ =>
      noError_bind (noError_mapM fun _ _ => noError_deref _) fun _ _ => noError_pure _
  refine noError_bind_ok (setup.numbered i) ?_
  refine noError_bind_ok (getIDs_eq setup i) ?_
  refine noError_bind (noError_forRange fun k => round4Check_noError setup run k i) fun _ _ => ?_
  refine noError_bind (CurveOps.noError_sumRange fun k => ?_) fun _ _ => ?_
  · exact noError_bind (noError_deref _) fun _ _ => noError_bind (noError_deref _) fun _ _ =>
      noError_bind (noError_deref _) fun _ _ => noError_pure _
  refine noError_bind (noError_deref _) fun xiG _ => ?_
  obtain ⟨commitXiG, committed⟩ := commit_returns P.H (draws i).r4.rndXiG
    (show [xiG.1, xiG.2] ≠ [] by simp)
  refine noError_bind (noError_orError committed) fun _ _ => ?_
  refine noError_bind (noError_orError generated) fun _ _ => ?_
  refine noError_bind (powers _ _ _ _ _ _ _) fun _ _ => ?_
  exact noError_bind (powers _ _ _ _ _ _ _) fun _ _ => noError_pure _

end

/-! ## Rounds 5 to 7 -/

section

variable {tr : Dealing n} {t4 : Fin n → Temp4} {m4 : Fin n → KGRound4Message}
  (round4 : ∀ k, round4Start P (base k) (draws k).r4 tr.m1 (fun j => tr.m2 j k) tr.m21 tr.m3 =
    .ok (t4 k, m4 k))

include round4 in
/-- The parameters that party `k` sent, and the primes it kept. -/
theorem sent_ntilde (k : Fin n) :
    (m4 k).U1NtildeH1H2.Ntilde = (draws k).r4.ntilde.P1 * (draws k).r4.ntilde.P2 ∧
      (t4 k).p1 = (draws k).r4.ntilde.P1 ∧ (t4 k).p2 = (draws k).r4.ntilde.P2 := by
  obtain ⟨-, -, -, -, xiG, -, -, -, keys, generated, nt_eq, p1_eq, p2_eq⟩ := round4_eq (round4 k)
  obtain ⟨Ntilde_eq, keys_p1, keys_p2⟩ := generateNtilde_fields generated
  exact ⟨by rw [nt_eq, Ntilde_eq], by rw [p1_eq, keys_p1], by rw [p2_eq, keys_p2]⟩

include setup moduli round4 in
theorem round5_noError (i : Fin n) :
    NoError (round5Start Z (base i) (draws i).num5 (draws i).numHv (t4 i) m4) := by
  obtain ⟨Ntilde_eq, p1_eq, p2_eq⟩ := sent_ntilde round4 i
  obtain ⟨sfProof, sf_proved, -⟩ := moduli.ntilde_squareFree i
  obtain ⟨hvProof, hv_proved, -⟩ := moduli.ntilde_hv i
  refine noError_bind_ok (setup.numbered i) ?_
  refine noError_bind (noError_forRange fun k => noError_require ?_) fun _ _ => ?_
  · rw [(sent_ntilde round4 k).1, decide_eq_true_eq]
    exact moduli.ntilde_bits k
  rw [Ntilde_eq, p1_eq, p2_eq]
  refine noError_bind (noError_orError sf_proved) fun _ _ => ?_
  exact noError_bind (noError_orError hv_proved) fun _ _ => noError_pure _

variable {m5 : Fin n → KGRound5Message} {m51 : Fin n → KGRound5Message1}
  {m52 : Fin n → KGRound5Message2}
  (round5 : ∀ k, round5Start Z (base k) (draws k).num5 (draws k).numHv (t4 k) m4 =
    .ok (m5 k, m51 k, m52 k))

include setup moduli round4 round5 in
/-- The opened commitment and the proofs that party `k` sent in round 5. -/
theorem sent_round5 (k : Fin n) : (m5 k).ComXiGD = (t4 k).commitXiG.D ∧
    Z.SquareFreeVerify (m4 k).U1NtildeH1H2.Ntilde (m52 k).Num (m52 k).SfPf = true ∧
    Z.HvVerify (m4 k).U1NtildeH1H2.Ntilde (m51 k).Num (m51 k).HvPf = true := by
  obtain ⟨Ntilde_eq, p1_eq, p2_eq⟩ := sent_ntilde round4 k
  obtain ⟨sfProof, sf_proved, sf_verified⟩ := moduli.ntilde_squareFree k
  obtain ⟨hvProof, hv_proved, hv_verified⟩ := moduli.ntilde_hv k
  have started := round5 k
  simp only [round5Start, setup.numbered, eq_ok, Except.ok.injEq, exists_eq_left', Ntilde_eq, p1_eq,
    p2_eq, sf_proved, hv_proved, Option.some.injEq, Prod.mk.injEq] at started
  obtain ⟨-, -, sent5, sent51, sent52⟩ := started
  rw [← sent5, ← sent51, ← sent52, Ntilde_eq]
  exact ⟨rfl, sf_verified, hv_verified⟩

include C round4 in
/-- The commitment of party `k` to the point of its share opens to that point. -/
theorem sent_commitXiG (k : Fin n) : ∃ xiG, P.S.ScalarBaseMult (t4 k).SkU1.natAbs = some xiG ∧
    (m4 k).ComXiC = (t4 k).commitXiG.C ∧ P.H.Verify P.S (t4 k).commitXiG = true ∧
    P.H.DeCommit P.S (t4 k).commitXiG = some [xiG.1, xiG.2] := by
  obtain ⟨-, -, -, -, xiG, based, committed, ComXiC_eq, -⟩ := round4_eq (round4 k)
  have on_curve : coordinatesOnCurve P.S [xiG.1, xiG.2] = true := by
    simp [coordinatesOnCurve, C.isOnCurve_of_baseMult based]
  exact ⟨xiG, based, ComXiC_eq, verify_commit committed on_curve,
    deCommit_of_commit committed on_curve⟩

include setup moduli round4 round5 in
theorem round6_noError (i : Fin n) :
    NoError (round6Start P Z (base i) (draws i).r6 (t4 i) m4 m5 m51 m52) := by
  refine noError_bind_ok (setup.numbered i) ?_
  refine noError_bind_ok (getIDs_eq setup i) ?_
  refine noError_bind (noError_forRange fun k => noError_require ?_) fun _ _ => ?_
  · obtain ⟨-, -, ComXiC_eq, verified, -⟩ := sent_commitXiG (C := C) round4 k
    rw [ComXiC_eq, (sent_round5 setup moduli round4 round5 k).1]
    exact verified
  refine noError_bind (noError_forRange fun k => noError_require ?_) fun _ _ => ?_
  · exact (sent_round5 setup moduli round4 round5 k).2.1
  refine noError_bind (noError_forRange fun k => noError_require ?_) fun _ _ => ?_
  · exact (sent_round5 setup moduli round4 round5 k).2.2
  refine noError_bind ?_ fun _ _ => noError_pure _
  exact noError_bind (noError_deref _) fun _ _ =>
    noError_bind (noError_deref _) fun _ _ => noError_pure _

variable {m6 : Fin n → KGRound6Message}
  (round6 : ∀ k, round6Start P Z (base k) (draws k).r6 (t4 k) m4 m5 m51 m52 = .ok (m6 k))

include setup moduli round4 round5 round6 in
theorem round7_noError {t1 : Temp1} {saved2 : List ℤ × ℤ} (i : Fin n) :
    NoError (round7Start P (base i) t1 saved2 (t4 i) tr.m1 m4 m5 m6) := by
  refine noError_bind_ok (getIDs_eq setup i) ?_
  refine noError_bind (noError_forRange fun k => ?_) fun _ _ => noError_pure _
  obtain ⟨xiG, based, ComXiC_eq, -, opened⟩ := sent_commitXiG (C := C) round4 k
  have started := round6 k
  simp only [round6Start, eq_ok] at started
  obtain ⟨-, -, -, -, -, -, -, -, -, -, pf, proved, sent⟩ := started
  obtain ⟨-, -, -, SkU1_eq, -⟩ := round4_eq (round4 k)
  have SkU1_nonneg : 0 ≤ (t4 k).SkU1 := by
    rw [SkU1_eq]
    exact Int.emod_nonneg _ (by exact_mod_cast C.prime.ne_zero)
  rw [ComXiC_eq, (sent_round5 setup moduli round4 round5 k).1, opened, ← sent]
  refine noError_bind (schnorrVerify_noError _ _ _ _) fun verified verified_eq => ?_
  exact noError_require (schnorr_complete C (moduli.r6_nonneg k) SkU1_nonneg proved based verified_eq)

end

/-! ## The run -/

include setup moduli in
/-- Honest parties' rounds return no error. -/
theorem runKeygen_noError : NoError (runKeygen P Z base draws) := by
  refine noError_bind (noError_forRange fun i => round1_noError setup moduli i) fun r1 h1 => ?_
  have round1 := forRange_eq_ok.mp h1
  refine noError_bind (noError_forRange fun i => round2_noError setup moduli round1 i)
    fun r2 h2 => ?_
  have round2 := forRange_eq_ok.mp h2
  refine noError_bind (noError_forRange fun i => round3_noError setup moduli round1 round2 i)
    fun m3 h3 => ?_
  let tr : Dealing n := ⟨fun i => (r1 i).1, fun i => (r1 i).2, fun i => (r2 i).1,
    fun i => (r2 i).2.1, fun i => (r2 i).2.2.1, fun i => (r2 i).2.2.2, m3⟩
  have dealing : HonestDealing P Z base draws tr := ⟨round1, round2, forRange_eq_ok.mp h3⟩
  refine noError_bind (noError_forRange fun i => round4_noError setup moduli dealing i)
    fun r4 h4 => ?_
  have round4 : ∀ k, round4Start P (base k) (draws k).r4 tr.m1 (fun j => tr.m2 j k) tr.m21 tr.m3 =
      .ok ((r4 k).1, (r4 k).2) := forRange_eq_ok.mp h4
  refine noError_bind (noError_forRange fun i => round5_noError setup moduli round4 i)
    fun r5 h5 => ?_
  have round5 := forRange_eq_ok.mp h5
  refine noError_bind
    (noError_forRange fun i => round6_noError setup moduli round4 round5 i)
    fun m6 h6 => ?_
  refine noError_bind (noError_forRange fun i =>
    round7_noError setup moduli round4 round5 (forRange_eq_ok.mp h6) i)
    fun _ _ => noError_pure _

end

/-! ## Two parties

Ids 1 and 2 and threshold 2 over the group of order 13; the moduli have the required 2048 bits. -/

def acceptingProofs : ModulusProofs where
  SquareFreeProve _ _ _ := some ⟨[]⟩
  SquareFreeVerify _ _ _ := true
  HvProve _ _ _ _ := some ⟨[]⟩
  HvVerify _ _ _ := true

/-- A party with the number `id`, and a peer. -/
def baseOf (id peer : List Char) : KeygenBase := ⟨hexEncode id, 2, [hexEncode id, hexEncode peer]⟩

def smallBase (i : Fin 2) : KeygenBase := if i = 0 then baseOf ['1'] ['2'] else baseOf ['2'] ['1']

def smallDraws (i : Fin 2) : PartyDraws where
  r1 := { u1 := if i = 0 then 5 else 3, c1 := if i = 0 then 4 else 7,
          u1Rnds := fun _ => if i = 0 then 2 else 9, c1Rnds := fun _ => 2,
          rndU1G := 1, rndC1G := 1, p := 3, q := 2 ^ 2046 + 1 }
  num2 := 1
  r4 := { rndXiG := 1, ntilde := ⟨3, 1, 2 ^ 2046 + 1, 5, 2, 3⟩, a1 := fun _ => 1, a2 := fun _ => 1 }
  num5 := 1
  numHv := 1
  r6 := if i = 0 then 4 else 6

def smallSetup : KeygenSetup smallPrimitives (zmodModel 13) smallBase smallDraws where
  uid i := i.val + 1
  uid_eq := by decide
  numbered := by decide
  round0 := by decide
  few := by decide
  t := smallThreshold
  two_le := two_le_smallThreshold
  t_le := two_le_smallThreshold
  threshold_eq i := by fin_cases i <;> rfl
  u1_nonneg := by decide
  u1Rnds_nonneg i _ := by
    fin_cases i
    · exact (by decide : (0 : ℤ) ≤ 2)
    · exact (by decide : (0 : ℤ) ≤ 9)

theorem smallModuli : ModuliProved acceptingProofs smallDraws where
  paillier_pos := by decide +kernel
  paillier_coprime := by decide +kernel
  paillier_bits := by decide +kernel
  paillier_squareFree _ := ⟨_, rfl, rfl⟩
  ntilde i := Option.isSome_iff_exists.mp (by revert i; decide +kernel)
  ntilde_bits := by decide +kernel
  ntilde_squareFree _ := ⟨_, rfl, rfl⟩
  ntilde_hv _ := ⟨_, rfl, rfl⟩
  r6_nonneg := by decide

/-- Parties with the ids 5 and 7. -/
def farBase (i : Fin 2) : KeygenBase := if i = 0 then baseOf ['5'] ['7'] else baseOf ['7'] ['5']

end ThresholdDsa.Ecdsa.Keygen
