/-
# Honest signing yields a signature

All signers run their rounds on each other's real messages (`runSigning`),
with key shares on one polynomial and Paillier moduli above the mask range
(`SigningSetup`).  The argument follows the rounds:

* round 1 turns the shares into additive shares of the key (`sum_w1`);
* the answer of round 4 is a ciphertext of `k x + mask` that does not wrap
  (`mta_shares`), so `delta` and `sigma` are additive shares of the
  two products (`sum_delta`, `sum_sigma`);
* round 7 therefore opens the point `(∑ k)⁻¹ G` (`round7_point`), and the sum of
  round 11 is a signature for it (`signing_correct`).
-/
import ThresholdDsa.Ecdsa.SigningRounds

namespace ThresholdDsa.Ecdsa

open BigInt Outcome Ec2 Polynomial Finset

variable {n : ℕ}

/-- Everything one signer draws in a run. -/
structure SignerDraws (n : ℕ) where
  r1 : Round1Draws
  r2 : Round2Draws n
  r4 : Round4Draws n
  r5 : Round5Draws
  r6 : ℤ
  r7 : PDLDraws
  r8 : ℤ × ℤ

/-- What all signers store and send in a run; `m2 i k`, `m4 i k` and `m41 i k` are the messages
of signer `i` to signer `k`. -/
structure SigningTranscript (n : ℕ) where
  t1 : Fin n → Temp1
  m1 : Fin n → SignRound1Message
  t2 : Fin n → Temp2
  m2 : Fin n → Fin n → SignRound2Message
  m3 : Fin n → SignRound3Message
  t4 : Fin n → Temp4 n
  m4 : Fin n → Fin n → SignRound4Message
  m41 : Fin n → Fin n → SignRound4Message1
  t5 : Fin n → Temp5
  m5 : Fin n → SignRound5Message
  t6 : Fin n → Temp6
  m6 : Fin n → SignRound6Message
  t7 : Fin n → Temp7
  m7 : Fin n → SignRound7Message
  m8 : Fin n → SignRound8Message
  pre : Fin n → PrePubData
  m9 : Fin n → SignRound9Message

/-- All signers run rounds 1 to 10, every message delivered as it was sent. -/
def runSigning (P : Primitives) (base : Fin n → SignBase n) (draws : Fin n → SignerDraws n)
    (txhash : ℤ) : Outcome (SigningTranscript n) := do
  let r1 ← forRange fun i => round1Start P (base i) (draws i).r1
  let r2 ← forRange fun i => round2Start P (base i) (draws i).r2 (r1 i).1
  let m3 ← forRange fun i => round3Start (base i) (r1 i).1 (r2 i).1
  let r4 ← forRange fun i => round4Start P (base i) (draws i).r4 (r1 i).1 (r2 i).1
    (fun k => (r1 k).2) (fun k => (r2 k).2 i) m3
  let r5 ← forRange fun i => round5Start P (base i) (draws i).r5 (r2 i).1 (r4 i).1
    (fun k => (r1 k).2) m3 (fun k => (r4 k).2.1 i) (fun k => (r4 k).2.2 i)
  let r6 ← forRange fun i => round6Start P (base i) (draws i).r6 (r1 i).1 (fun k => (r5 k).2)
  let r7 ← forRange fun i => round7Start P (base i) (draws i).r7 (r1 i).1 (r2 i).1 (r6 i).1
    (fun k => (r1 k).2) (fun k => (r6 k).2)
  let m8 ← forRange fun i => round8Start P (base i) (draws i).r8 (r5 i).1 (r7 i).1 m3
    (fun k => (r7 k).2)
  let pre ← forRange fun i => round9Start P (base i) (r1 i).1 (r5 i).1 (r7 i).1
    (fun k => (r5 k).2) m8
  let m9 ← forRange fun i => round10Start P (base i) (pre i) txhash
  pure { t1 := fun i => (r1 i).1, m1 := fun i => (r1 i).2, t2 := fun i => (r2 i).1,
         m2 := fun i => (r2 i).2, m3, t4 := fun i => (r4 i).1, m4 := fun i => (r4 i).2.1,
         m41 := fun i => (r4 i).2.2, t5 := fun i => (r5 i).1, m5 := fun i => (r5 i).2,
         t6 := fun i => (r6 i).1, m6 := fun i => (r6 i).2, t7 := fun i => (r7 i).1,
         m7 := fun i => (r7 i).2, m8, pre, m9 }

/-- In the transcript every signer's rounds returned, each on the messages the others sent. -/
structure HonestSigning (P : Primitives) (base : Fin n → SignBase n)
    (draws : Fin n → SignerDraws n) (txhash : ℤ) (tr : SigningTranscript n) : Prop where
  round1 : ∀ i, round1Start P (base i) (draws i).r1 = .ok (tr.t1 i, tr.m1 i)
  round2 : ∀ i, round2Start P (base i) (draws i).r2 (tr.t1 i) = .ok (tr.t2 i, tr.m2 i)
  round3 : ∀ i, round3Start (base i) (tr.t1 i) (tr.t2 i) = .ok (tr.m3 i)
  round4 : ∀ i, round4Start P (base i) (draws i).r4 (tr.t1 i) (tr.t2 i) tr.m1
    (fun k => tr.m2 k i) tr.m3 = .ok (tr.t4 i, tr.m4 i, tr.m41 i)
  round5 : ∀ i, round5Start P (base i) (draws i).r5 (tr.t2 i) (tr.t4 i) tr.m1 tr.m3
    (fun k => tr.m4 k i) (fun k => tr.m41 k i) = .ok (tr.t5 i, tr.m5 i)
  round6 : ∀ i, round6Start P (base i) (draws i).r6 (tr.t1 i) tr.m5 = .ok (tr.t6 i, tr.m6 i)
  round7 : ∀ i, round7Start P (base i) (draws i).r7 (tr.t1 i) (tr.t2 i) (tr.t6 i) tr.m1 tr.m6 =
    .ok (tr.t7 i, tr.m7 i)
  round8 : ∀ i, round8Start P (base i) (draws i).r8 (tr.t5 i) (tr.t7 i) tr.m3 tr.m7 =
    .ok (tr.m8 i)
  round9 : ∀ i, round9Start P (base i) (tr.t1 i) (tr.t5 i) (tr.t7 i) tr.m5 tr.m8 =
    .ok (tr.pre i)
  round10 : ∀ i, round10Start P (base i) (tr.pre i) txhash = .ok (tr.m9 i)

theorem runSigning_honest {P : Primitives} {base : Fin n → SignBase n}
    {draws : Fin n → SignerDraws n} {txhash : ℤ} {tr : SigningTranscript n}
    (run : runSigning P base draws txhash = .ok tr) : HonestSigning P base draws txhash tr := by
  simp only [runSigning, eq_ok, forRange_eq_ok] at run
  obtain ⟨r1, h1, r2, h2, m3, h3, r4, h4, r5, h5, r6, h6, r7, h7, m8, h8, pre, h9, m9, h10, rfl⟩ :=
    run
  exact ⟨h1, h2, h3, h4, h5, h6, h7, h8, h9, h10⟩

/-- What key generation left the signers: shares of one polynomial, the public key, and each
other's Paillier keys; and the ranges of their draws. -/
structure SigningSetup (P : Primitives) {E : Type} [AddCommGroup E] [Module (ZMod P.S.N) E]
    (C : P.S.Model E) (base : Fin n → SignBase n) (draws : Fin n → SignerDraws n) where
  idsign : Fin n → ℤ
  distinct : Function.Injective fun i => (idsign i : ZMod P.S.N)
  idsign_eq : ∀ i, (base i).idsign = idsign
  kgid_eq : ∀ i, (base i).kgid = idsign i
  CurDNodeID_eq : ∀ i, (base i).save.CurDNodeID = idsign i
  t : ℕ
  t_pos : 0 < t
  t_le : t ≤ n
  f : (ZMod P.S.N)[X]
  degree_f : f.degree < t
  share : ∀ i, ((base i).save.SkU1 : ZMod P.S.N) = f.eval (idsign i : ZMod P.S.N)
  pk_eq : ∀ i, (base i).save.Pk = C.xy (f.eval 0 • C.g)
  L : ℕ
  length_eq : ∀ i, (base i).paillierkeylength = L
  keys : Fin n → PaillierModulus
  keys_large : ∀ i, 2 ^ (L - L / 10) < (keys i).n
  paillierPk : ∀ i k, (base i).save.paillierPkOf (idsign k) = .ok (publicKeyOf (keys k))
  paillierSk : ∀ i, (base i).save.U1PaillierSk = privateKeyOf (keys i)
  k_range : ∀ i, 0 ≤ (draws i).r1.u1K ∧ (draws i).r1.u1K < P.S.N
  gamma_range : ∀ i, 0 ≤ (draws i).r1.u1Gamma ∧ (draws i).r1.u1Gamma < P.S.N
  beta_range : ∀ i k, 0 ≤ (draws i).r4.betaU1Star k ∧
    (draws i).r4.betaU1Star k < maskBound P (base i)
  v_range : ∀ i k, 0 ≤ (draws i).r4.vU1Star k ∧ (draws i).r4.vU1Star k < maskBound P (base i)
  u1R_unit : ∀ i, Int.gcd (draws i).r2.u1R (keys i).n = 1
  u1BetaR1_unit : ∀ i k, Int.gcd ((draws i).r4.u1BetaR1 k) (keys k).n = 1
  u1VR1_unit : ∀ i k, Int.gcd ((draws i).r4.u1VR1 k) (keys k).n = 1

/-! ## The multiplication of two shares -/

section

variable {M : PaillierModulus} {b : SignBase n} {k : Fin n}

/-- An answer to a ciphertext of `m` is a ciphertext of `m x + star`. -/
theorem mtaAnswer_ciphers {Kc star r : ℤ} {m x : ℕ} {pk : PublicKey} {cipher : ℤ}
    (key : b.save.paillierPkOf (b.idsign k) = .ok (publicKeyOf M)) (Kc_ciphers : Ciphers M Kc m)
    (star_nonneg : 0 ≤ star) (unit : Int.gcd r M.n = 1)
    (answered : mtaAnswer b k Kc x star r = .ok (pk, cipher)) :
    Ciphers M cipher (m * x + star.toNat) := by
  simp only [mtaAnswer, eq_ok, dropError_eq_ok] at answered
  obtain ⟨_, key', product, multiplied, starCipher, encrypted, same⟩ := answered
  obtain rfl : publicKeyOf M = _ := Except.ok.inj (key.symm.trans key')
  obtain ⟨rfl, rfl⟩ := Prod.mk.inj same
  rw [← Int.toNat_of_nonneg star_nonneg] at encrypted
  exact homoAdd_ciphers (homoMul_ciphers Kc_ciphers multiplied) (encrypt_ciphers unit encrypted)

/-- The plaintext of an answer stays below the modulus, so decryption returns it unreduced. -/
theorem mta_no_wrap {N modulus : ℕ} {a x star bound : ℤ} (ha : 0 ≤ a ∧ a < N) (hx : 0 ≤ x ∧ x < N)
    (hstar : 0 ≤ star ∧ star < bound - N * N) (large : bound < modulus) :
    (a * x + star) % modulus = a * x + star := by
  have product : a * x ≤ (N - 1) * (N - 1) :=
    mul_le_mul (by omega) (by omega) hx.1 (by omega)
  have nonneg : 0 ≤ a * x := mul_nonneg ha.1 hx.1
  exact Int.emod_eq_of_lt (by omega) (by nlinarith)

/-- Decrypting an answer returns `a x + star`. -/
theorem decrypt_answer {N : ℕ} {cipher a x star bound value : ℤ}
    (ha : 0 ≤ a ∧ a < N) (hx : 0 ≤ x ∧ x < N) (hstar : 0 ≤ star ∧ star < bound - N * N)
    (large : bound < M.n) (ciphers : Ciphers M cipher (a.toNat * x.toNat + star.toNat))
    (decrypted : (privateKeyOf M).Decrypt cipher = .ok value) : value = a * x + star := by
  rw [decrypt_of_ciphers ciphers] at decrypted
  obtain rfl := Except.ok.inj decrypted
  rw [Nat.cast_add, Nat.cast_mul, Int.toNat_of_nonneg ha.1, Int.toNat_of_nonneg hx.1,
    Int.toNat_of_nonneg hstar.1]
  exact mta_no_wrap ha hx hstar large

end

/-- The masks cancel: what one signer adds, another subtracts. -/
theorem sum_answers {R : Type} [CommRing R] (a x : Fin n → R) (star : Fin n → Fin n → R) :
    ∑ i, (∑ k, (a i * x k + star k i) + ∑ k, -1 * star i k) = (∑ i, a i) * ∑ k, x k := by
  have masks : ∑ i, ∑ k, star k i = ∑ i, ∑ k, star i k := sum_comm
  simp only [sum_add_distrib, ← mul_sum, masks]
  rw [← sum_mul]
  ring

/-! ## What each round of an honest run stores -/

section

variable {P : Primitives} {E : Type} [AddCommGroup E] [Module (ZMod P.S.N) E] {C : P.S.Model E}
  {base : Fin n → SignBase n} {draws : Fin n → SignerDraws n} {txhash : ℤ}
  {tr : SigningTranscript n}

section

variable (setup : SigningSetup P C base draws) (run : HonestSigning P base draws txhash tr)

include setup

variable (i : Fin n)

theorem curIndex_eq : (base i).GetDNodeIDIndex = .ok i := by
  have found : ((List.finRange n).find? fun k => (base i).idsign k = (base i).kgid) = some i := by
    rw [setup.idsign_eq, setup.kgid_eq]
    refine find?_finRange fun k => ?_
    rw [decide_eq_true_eq]
    exact ⟨fun same => setup.distinct (congrArg (Int.cast (R := ZMod P.S.N)) same), fun same => by rw [same]⟩
  rw [SignBase.GetDNodeIDIndex, found]
  rfl

include run

/-- Round 1: the additive key share, the nonces, and the commitment to `gamma G`. -/
theorem round1_eq :
    (∃ lambda1, calcTimes P.S (base i).idsign i = .ok lambda1 ∧
      (tr.t1 i).w1 = lambda1 * (base i).save.SkU1 % P.S.N) ∧
    (tr.t1 i).u1K = (draws i).r1.u1K ∧ (tr.t1 i).u1Gamma = (draws i).r1.u1Gamma ∧
    ∃ u1GammaG, P.S.ScalarBaseMult (draws i).r1.u1Gamma.natAbs = some u1GammaG ∧
      P.H.Commit (draws i).r1.rndGamma [u1GammaG.1, u1GammaG.2] =
        some (tr.t1 i).commitU1GammaG ∧
      (tr.m1 i).C11 = (tr.t1 i).commitU1GammaG.C := by
  have started := run.round1 i
  simp only [round1Start, curIndex_eq setup, eq_ok, Except.ok.injEq, exists_eq_left', Prod.mk.injEq] at started
  obtain ⟨lambda1, times_ok, gammaG, based, commitG, committed, wiG, -, commitW, -, temp, msg⟩ :=
    started
  rw [← temp, ← msg]
  exact ⟨⟨lambda1, times_ok, rfl⟩, rfl, rfl, gammaG, based, committed, rfl⟩

theorem w1_range : 0 ≤ (tr.t1 i).w1 ∧ (tr.t1 i).w1 < P.S.N := by
  obtain ⟨⟨lambda1, -, w1_eq⟩, -⟩ := round1_eq setup run i
  rw [w1_eq]
  exact ⟨Int.emod_nonneg _ (N_pos C.prime).ne', Int.emod_lt_of_pos _ (N_pos C.prime)⟩

/-- The shares `w1` of round 1 add up to the private key. -/
theorem sum_w1 : ∑ i, ((tr.t1 i).w1 : ZMod P.S.N) = setup.f.eval 0 := by
  have := Fact.mk C.prime
  have degree : setup.f.degree < n :=
    lt_of_lt_of_le setup.degree_f (by exact_mod_cast setup.t_le)
  rw [Interpolation.eval_zero_eq_sum setup.distinct degree]
  refine sum_congr rfl fun i _ => ?_
  obtain ⟨⟨lambda1, times_ok, w1_eq⟩, -⟩ := round1_eq setup run i
  obtain ⟨w, w_ok, w_eq⟩ := calcTimes_eq_ok setup.distinct i
  rw [setup.idsign_eq, w_ok] at times_ok
  obtain rfl := Except.ok.inj times_ok
  rw [w1_eq, ZMod.intCast_mod, Int.cast_mul, w_eq, setup.share, mul_comm]

/-- Round 2: the ciphertext of the nonce, which round 3 broadcasts. -/
theorem round2_ciphers :
    Ciphers (setup.keys i) (tr.t2 i).ukc (draws i).r1.u1K.toNat ∧
      (tr.m3 i).Kc = (tr.t2 i).ukc := by
  have started := run.round2 i
  have broadcast := run.round3 i
  have key := setup.paillierPk i i
  rw [LocalDNodeSaveData.paillierPkOf, ← setup.CurDNodeID_eq, deref_eq_ok] at key
  simp only [round2Start, curIndex_eq setup, eq_ok, Except.ok.injEq, exists_eq_left',
    dropError_eq_ok, Prod.mk.injEq] at started
  obtain ⟨oldindex, found, pk, pk_ok, ukc, encrypted, msgs, -, temp, -⟩ := started
  simp only [round3Start, curIndex_eq setup, eq_ok, Except.ok.injEq, exists_eq_left'] at broadcast
  rw [found, Option.bind_some, pk_ok] at key
  obtain rfl := Option.some.inj key
  rw [(round1_eq setup run i).2.1, ← Int.toNat_of_nonneg (setup.k_range i).1] at encrypted
  rw [← temp, ← broadcast, ← temp]
  exact ⟨encrypt_ciphers (setup.u1R_unit i) encrypted, rfl⟩

/-- Round 4: the two answers of signer `i` to signer `k`. -/
theorem round4_ciphers (k : Fin n) :
    Ciphers (setup.keys k) (tr.m4 i k).U1KGamma1Cipher
      ((draws k).r1.u1K.toNat * (draws i).r1.u1Gamma.toNat +
        ((draws i).r4.betaU1Star k).toNat) ∧
    Ciphers (setup.keys k) (tr.m41 i k).U1Kw1Cipher
      ((draws k).r1.u1K.toNat * (tr.t1 i).w1.toNat + ((draws i).r4.vU1Star k).toNat) ∧
    (tr.t4 i).betaU1 k = -1 * (draws i).r4.betaU1Star k ∧
    (tr.t4 i).vU1 k = -1 * (draws i).r4.vU1Star k := by
  have started := run.round4 i
  have key : (base i).save.paillierPkOf ((base i).idsign k) = .ok (publicKeyOf (setup.keys k)) := by
    rw [setup.idsign_eq]
    exact setup.paillierPk i k
  obtain ⟨Kc_ciphers, Kc_eq⟩ := round2_ciphers setup run k
  simp only [round4Start, curIndex_eq setup, eq_ok, Except.ok.injEq, exists_eq_left',
    forRange_eq_ok, Prod.mk.injEq] at started
  obtain ⟨-, -, msgs4, msgs4_ok, msgs41, msgs41_ok, temp, rfl, rfl⟩ := started
  obtain ⟨⟨pk, cipher⟩, answered, _, -, _, -, _, -, m4_eq⟩ := msgs4_ok k
  obtain ⟨⟨pk', cipher'⟩, answered', _, -, _, -, _, -, m41_eq⟩ := msgs41_ok k
  rw [Kc_eq, (round1_eq setup run i).2.2.1, ← Int.toNat_of_nonneg (setup.gamma_range i).1]
    at answered
  rw [Kc_eq, ← Int.toNat_of_nonneg (w1_range setup run i).1] at answered'
  refine ⟨?_, ?_, ?_, ?_⟩
  · rw [← m4_eq]
    exact mtaAnswer_ciphers key Kc_ciphers (setup.beta_range i k).1 (setup.u1BetaR1_unit i k)
      answered
  · rw [← m41_eq]
    exact mtaAnswer_ciphers key Kc_ciphers (setup.v_range i k).1 (setup.u1VR1_unit i k) answered'
  · rw [← temp]
  · rw [← temp]

/-- Round 5: the shares `delta1` and `sigma1` of the two products. -/
theorem round5_eq :
    ((tr.t5 i).delta1 : ZMod P.S.N) =
      ∑ k, (((draws i).r1.u1K : ZMod P.S.N) * ((draws k).r1.u1Gamma : ZMod P.S.N) +
        ((draws k).r4.betaU1Star i : ZMod P.S.N)) +
      ∑ k, -1 * ((draws i).r4.betaU1Star k : ZMod P.S.N) ∧
    ((tr.t5 i).sigma1 : ZMod P.S.N) =
      ∑ k, (((draws i).r1.u1K : ZMod P.S.N) * ((tr.t1 k).w1 : ZMod P.S.N) +
        ((draws k).r4.vU1Star i : ZMod P.S.N)) +
      ∑ k, -1 * ((draws i).r4.vU1Star k : ZMod P.S.N) ∧
    (tr.m5 i).Delta1 = (tr.t5 i).delta1 := by
  have started := run.round5 i
  simp only [round5Start, curIndex_eq setup, eq_ok, Except.ok.injEq, exists_eq_left',
    forRange_eq_ok, Prod.mk.injEq] at started
  obtain ⟨decrypted, decrypted_ok, _, -, _, -, _, -, _, -, _, -, temp, msg⟩ := started
  have large : (2 ^ (setup.L - setup.L / 10) : ℤ) < ((setup.keys i).n : ℤ) := by
    exact_mod_cast setup.keys_large i
  have values : ∀ k,
      (decrypted k).1 = (draws i).r1.u1K * (draws k).r1.u1Gamma + (draws k).r4.betaU1Star i ∧
      (decrypted k).2 = (draws i).r1.u1K * (tr.t1 k).w1 + (draws k).r4.vU1Star i := by
    intro k
    have opened := decrypted_ok k
    simp only [round5Decrypt, eq_ok, dropError_eq_ok] at opened
    obtain ⟨_, -, _, -, _, -, _, -, _, -, _, -, alpha, alpha_ok, uu, uu_ok, both⟩ := opened
    rw [setup.paillierSk] at alpha_ok uu_ok
    obtain ⟨gammaCiphers, wCiphers, -⟩ := round4_ciphers setup run k i
    have beta_range := setup.beta_range k i
    have v_range := setup.v_range k i
    rw [maskBound, setup.length_eq] at beta_range v_range
    rw [← both]
    exact ⟨decrypt_answer (setup.k_range i) (setup.gamma_range k) beta_range large gammaCiphers
        alpha_ok,
      decrypt_answer (setup.k_range i) (w1_range setup run k) v_range large wCiphers uu_ok⟩
  have masks := fun k => (round4_ciphers setup run i k).2.2
  rw [← temp, ← msg]
  refine ⟨?_, ?_, rfl⟩ <;>
  · rw [ZMod.intCast_mod]
    simp only [List.sum_ofFn, values, masks]
    push_cast
    rfl

/-- **The delta shares** add up to the product of the nonce sums. -/
theorem sum_delta : ∑ i, ((tr.t5 i).delta1 : ZMod P.S.N) =
    (∑ i, ((draws i).r1.u1K : ZMod P.S.N)) * ∑ i, ((draws i).r1.u1Gamma : ZMod P.S.N) := by
  simp only [(round5_eq setup run _).1]
  exact sum_answers _ _ fun k i => ((draws k).r4.betaU1Star i : ZMod P.S.N)

/-- **The sigma shares** add up to the nonce sum times the private key. -/
theorem sum_sigma : ∑ i, ((tr.t5 i).sigma1 : ZMod P.S.N) =
    (∑ i, ((draws i).r1.u1K : ZMod P.S.N)) * setup.f.eval 0 := by
  simp only [(round5_eq setup run _).2.1]
  rw [sum_answers _ _ fun k i => ((draws k).r4.vU1Star i : ZMod P.S.N), sum_w1 setup run]

/-- Rounds 6 and 7: the point opened from the commitment of signer `k` is `gamma_k G`. -/
theorem round7_opens (k : Fin n) {opened : ℤ × ℤ}
    (open_ok : round7Open P (tr.m1 k) (tr.m6 k) = .ok opened) :
    opened = C.xy (((draws k).r1.u1Gamma : ZMod P.S.N) • C.g) ∧
      ((draws k).r1.u1Gamma : ZMod P.S.N) • C.g ≠ 0 := by
  obtain ⟨-, -, -, u1GammaG, based, committed, C11_eq⟩ := round1_eq setup run k
  have sent := run.round6 k
  simp only [round6Start, curIndex_eq setup, eq_ok, Except.ok.injEq, exists_eq_left', Prod.mk.injEq] at sent
  obtain ⟨_, -, -, m6_eq⟩ := sent
  simp only [round7Open, eq_ok] at open_ok
  obtain ⟨secrets, decommitted, -, -, -, -, matched⟩ := open_ok
  rw [← m6_eq, C11_eq] at decommitted
  obtain rfl := deCommit_commit committed decommitted
  obtain ⟨pos, small, point⟩ := C.baseMult_eq_some_iff.mp based
  obtain rfl := pure_eq_ok.mp matched
  rw [CurveOps.Model.natAbs_cast (setup.gamma_range k).1] at point
  refine ⟨point, ?_⟩
  rw [← CurveOps.Model.natAbs_cast (setup.gamma_range k).1]
  exact C.smul_ne_zero C.g_ne_zero pos small

/-- **The point of round 7** is `(∑ k)⁻¹ G`. -/
theorem round7_point :
    (tr.t7 i).deltaGammaG =
      C.xy ((∑ k, ((draws k).r1.u1K : ZMod P.S.N))⁻¹ • C.g) ∧
    ∑ k, ((draws k).r1.u1K : ZMod P.S.N) ≠ 0 := by
  have := Fact.mk C.prime
  have summed := run.round6 i
  simp only [round6Start, curIndex_eq setup, eq_ok, Except.ok.injEq, exists_eq_left', Prod.mk.injEq] at summed
  obtain ⟨_, -, t6_eq, -⟩ := summed
  have deltaSum : ((tr.t6 i).deltaSum : ZMod P.S.N) =
      (∑ k, ((draws k).r1.u1K : ZMod P.S.N)) * ∑ k, ((draws k).r1.u1Gamma : ZMod P.S.N) := by
    rw [← sum_delta setup run, ← t6_eq]
    simp [List.sum_ofFn, (round5_eq setup run _).2.2]
  have started := run.round7 i
  simp only [round7Start, curIndex_eq setup, eq_ok, Except.ok.injEq, exists_eq_left',
    forRange_eq_ok, Prod.mk.injEq] at started
  obtain ⟨opened, opened_ok, GammaGSum, sum_ok, inverse, found, point, multiplied, -, -,
    _, -, _, -, _, -, _, -, _, -, t7_eq, -⟩ := started
  have points := fun k => round7_opens setup run k (opened_ok k)
  obtain ⟨sum_eq, sum_ne⟩ :=
    C.sumPoints_smul (fun k => (points k).1) (fun k => (points k).2) sum_ok
  rw [sum_eq] at multiplied
  obtain ⟨pos, small, point_eq⟩ := (C.mul_eq_some_iff sum_ne).mp multiplied
  obtain ⟨nonneg, -, inverts⟩ := modInverse_spec (N_pos C.prime) found
  have inverse_ne : (inverse : ZMod P.S.N) ≠ 0 := by
    rw [← CurveOps.Model.natAbs_cast nonneg]
    exact CurveOps.Model.natCast_ne_zero pos small
  rw [CurveOps.Model.natAbs_cast nonneg, modInverse_zmod found, deltaSum, smul_smul] at point_eq
  rw [modInverse_zmod found, deltaSum, Ne, inv_eq_zero, ← Ne, mul_ne_zero_iff] at inverse_ne
  refine ⟨?_, inverse_ne.1⟩
  rw [← t7_eq, point_eq, mul_inv, mul_assoc, inv_mul_cancel₀ inverse_ne.2, mul_one]

/-- The pre-signature data of round 9 and the partial signature of round 10. -/
theorem round10_eq :
    (tr.pre i).R = (tr.t7 i).deltaGammaG.1 ∧
    ((tr.m9 i).Us1 : ZMod P.S.N) = (txhash : ZMod P.S.N) * ((draws i).r1.u1K : ZMod P.S.N) +
      ((tr.t7 i).deltaGammaG.1 : ZMod P.S.N) * ((tr.t5 i).sigma1 : ZMod P.S.N) := by
  have emitted := run.round9 i
  have sent := run.round10 i
  simp only [round9Start, eq_ok] at emitted
  obtain ⟨_, -, _, -, _, -, pre_eq⟩ := emitted
  simp only [round10Start, curIndex_eq setup, eq_ok, Except.ok.injEq, exists_eq_left'] at sent
  rw [← sent, ← pre_eq, (round1_eq setup run i).2.1]
  refine ⟨rfl, ?_⟩
  rw [ZMod.intCast_mod]
  push_cast
  rfl

end

/-! ## The signature -/

/-- **Honest signing is correct.**  When all signers' rounds return, the delta and sigma shares
add up to the two products, every signer's round 7 computes `R = (∑ k)⁻¹ G` and keeps its first
coordinate `r`, and the sum `s` of round 11 satisfies `s R = m G + r Pk`. -/
theorem signing_correct (setup : SigningSetup P C base draws)
    (run : runSigning P base draws txhash = .ok tr) :
    ∑ i, ((tr.t5 i).delta1 : ZMod P.S.N) =
      (∑ i, ((draws i).r1.u1K : ZMod P.S.N)) * ∑ i, ((draws i).r1.u1Gamma : ZMod P.S.N) ∧
    ∑ i, ((tr.t5 i).sigma1 : ZMod P.S.N) =
      (∑ i, ((draws i).r1.u1K : ZMod P.S.N)) * setup.f.eval 0 ∧
    ∃ R : E, R = (∑ i, ((draws i).r1.u1K : ZMod P.S.N))⁻¹ • C.g ∧ R ≠ 0 ∧
      (∀ i, (tr.t7 i).deltaGammaG = C.xy R ∧ (tr.pre i).R = (C.xy R).1) ∧
      (round11Start P tr.m9 : ZMod P.S.N) • R =
        (txhash : ZMod P.S.N) • C.g + ((C.xy R).1 : ZMod P.S.N) • (setup.f.eval 0 • C.g) := by
  have := Fact.mk C.prime
  have honest := runSigning_honest run
  have signer : Fin n := ⟨0, lt_of_lt_of_le setup.t_pos setup.t_le⟩
  have nonces_ne := (round7_point setup honest signer).2
  set K := ∑ i, ((draws i).r1.u1K : ZMod P.S.N) with hK
  set R := K⁻¹ • C.g with hR
  have point : ∀ i, (tr.t7 i).deltaGammaG = C.xy R := fun i => (round7_point setup honest i).1
  refine ⟨sum_delta setup honest, sum_sigma setup honest, R, rfl, ?_, fun i => ⟨point i, ?_⟩, ?_⟩
  · rw [Ne, C.smul_eq_zero_iff, not_or]
    exact ⟨inv_ne_zero nonces_ne, C.g_ne_zero⟩
  · rw [(round10_eq setup honest i).1, point i]
  have s_eq : (round11Start P tr.m9 : ZMod P.S.N) =
      txhash * K + ((C.xy R).1 : ZMod P.S.N) * (K * setup.f.eval 0) := by
    rw [← sum_sigma setup honest, hK, mul_sum, mul_sum, ← sum_add_distrib,
      round11Start, ZMod.intCast_mod, List.sum_ofFn, Int.cast_sum]
    refine sum_congr rfl fun i _ => ?_
    rw [(round10_eq setup honest i).2, point i]
  rw [s_eq, hR, smul_smul, smul_smul, ← add_smul]
  congr 1
  field_simp

end

/-! ## A run of two signers

Ids 1 and 2 with shares of `5 + 3 X` over the group of order 13. -/

def smallKeys (i : Fin 2) : PaillierModulus :=
  if i.val = 0 then ⟨23, 29, by norm_num, by norm_num, by norm_num, by norm_num⟩
  else ⟨19, 31, by norm_num, by norm_num, by norm_num, by norm_num⟩

def smallBase (i : Fin 2) : SignBase 2 where
  save := { SkU1 := (5 + 3 * (i.val + 1)) % 13, Pk := (5, 1), C := 0,
            U1PaillierSk := privateKeyOf (smallKeys i),
            U1PaillierPk := List.ofFn fun k => publicKeyOf (smallKeys k),
            U1NtildeH1H2 := [⟨253, 4, 9⟩, ⟨253, 9, 16⟩], IDs := [1, 2], CurDNodeID := i.val + 1 }
  idsign k := k.val + 1
  kgid := i.val + 1
  paillierkeylength := 10

def smallDraws (i : Fin 2) : SignerDraws 2 where
  r1 := if i.val = 0 then ⟨5, 6, 3, 4⟩ else ⟨10, 4, 3, 4⟩
  r2 := ⟨2, fun _ => ⟨2, 3, 4, 5⟩⟩
  r4 := ⟨fun _ => 4, fun _ => 7, fun _ => 2, fun _ => 3, fun _ => ⟨2, 3, 4, 5, 6, 8, 9⟩,
    fun _ => ⟨2, 3, 4, 5, 6, 8, 9⟩⟩
  r5 := if i.val = 0 then ⟨4, 4, 4⟩ else ⟨3, 9, 11⟩
  r6 := if i.val = 0 then 2 else 11
  r7 := if i.val = 0 then ⟨5, 3, 4, 5⟩ else ⟨1, 3, 4, 5⟩
  r8 := if i.val = 0 then (8, 9) else (5, 1)

noncomputable def smallSetup : SigningSetup smallPrimitives (zmodModel 13) smallBase smallDraws where
  idsign k := k.val + 1
  distinct := smallIds_injective
  idsign_eq _ := rfl
  kgid_eq _ := rfl
  CurDNodeID_eq _ := rfl
  t := smallThreshold
  t_pos := by decide
  t_le := two_le_smallThreshold
  f := C 3 * X + C 5
  degree_f := degree_linear_lt.trans_le le_rfl
  share i := by fin_cases i <;> simp [smallBase] <;> decide
  pk_eq i := by simp [smallBase, zmodModel]; decide
  L := 10
  length_eq _ := rfl
  keys := smallKeys
  keys_large := by decide
  paillierPk i k := by fin_cases i <;> fin_cases k <;> rfl
  paillierSk _ := rfl
  k_range := by decide
  gamma_range := by decide
  beta_range := by decide
  v_range := by decide
  u1R_unit := by decide
  u1BetaR1_unit := by decide
  u1VR1_unit := by decide

theorem signing_correct_two_signers :
    ∃ tr, runSigning smallPrimitives smallBase smallDraws 4 = .ok tr ∧
      ∃ R : ZMod 13, R ≠ 0 ∧ (∀ i, (tr.t7 i).deltaGammaG = (zmodModel 13).xy R) ∧
        (round11Start smallPrimitives tr.m9 : ZMod smallPrimitives.S.N) • R =
          ((4 : ℤ) : ZMod smallPrimitives.S.N) • (zmodModel 13).g +
            (((zmodModel 13).xy R).1 : ZMod smallPrimitives.S.N) •
              (smallSetup.f.eval 0 • (zmodModel 13).g) := by
  have returns : (runSigning smallPrimitives smallBase smallDraws 4).isOk = true := by
    decide +kernel
  obtain ⟨tr, run⟩ := exists_of_isOk returns
  obtain ⟨-, -, R, -, R_ne, points, signature⟩ := signing_correct smallSetup run
  exact ⟨tr, run, R, R_ne, fun i => (points i).1, signature⟩

/-! ## One multiplication -/

/-- Decrypting the answer to a ciphertext of `k` gives the integer `a k + star`; with the negative of
the mask it is a share of `k a` modulo the order of the curve. -/
theorem mta_shares (M : PaillierModulus) (pk : PublicKey) (sk : PrivateKey)
    (generated : GenerateKeyPair M.p M.q = some (pk, sk)) (N L : ℕ) (large : 2 ^ (L - L / 10) < M.n)
    (k a star r r' : ℤ) (k_range : 0 ≤ k ∧ k < N) (a_range : 0 ≤ a ∧ a < N)
    (star_range : 0 ≤ star ∧ star < 2 ^ (L - L / 10) - N * N) (unit : Int.gcd r M.n = 1)
    (unit' : Int.gcd r' M.n = 1) :
    ∃ Kc product mask, pk.Encrypt k r = .ok Kc ∧ pk.HomoMul Kc a = some product ∧
      pk.Encrypt star r' = .ok mask ∧ sk.Decrypt (pk.HomoAdd product mask) = .ok (a * k + star) ∧
      (∀ (n : ℕ) (b : SignBase n) (j : Fin n), b.save.paillierPkOf (b.idsign j) = .ok pk →
        mtaAnswer b j Kc a star r' = .ok (pk, pk.HomoAdd product mask)) ∧
      (a * k + star + -1 * star % N) % N = k * a % N := by
  obtain ⟨rfl, rfl⟩ := keys_eq generated
  have bound : (2 : ℤ) ^ (L - L / 10) < M.n := by exact_mod_cast large
  have square : (N : ℤ) ≤ N * N := by nlinarith
  obtain ⟨Kc, encrypted⟩ : ∃ Kc, (publicKeyOf M).Encrypt k r = .ok Kc :=
    encrypt_returns k_range.1 (by omega)
  obtain ⟨mask, masked⟩ : ∃ mask, (publicKeyOf M).Encrypt star r' = .ok mask :=
    encrypt_returns star_range.1 (by omega)
  obtain ⟨x, rfl⟩ := Int.eq_ofNat_of_zero_le a_range.1
  have multiplied : (publicKeyOf M).HomoMul Kc x = some _ := exp_natCast _ _ _
  refine ⟨Kc, _, mask, encrypted, multiplied, masked, ?_, fun n b j key => ?_, ?_⟩
  · rw [← Int.toNat_of_nonneg k_range.1] at encrypted
    rw [← Int.toNat_of_nonneg star_range.1] at masked
    have ciphers := homoAdd_ciphers (homoMul_ciphers (encrypt_ciphers unit encrypted) multiplied)
      (encrypt_ciphers unit' masked)
    have decrypted := decrypt_of_ciphers ciphers
    have value := decrypt_answer k_range a_range star_range bound ciphers decrypted
    rw [decrypted, value, mul_comm k]
  · simp only [mtaAnswer, eq_ok, dropError_eq_ok]
    exact ⟨_, key, _, multiplied, mask, masked, rfl⟩
  · rw [Int.add_emod_emod]
    congr 1
    ring

theorem mta_shares_small :
    ∃ Kc product mask, (publicKeyOf (smallKeys 0)).Encrypt 5 2 = .ok Kc ∧
      (publicKeyOf (smallKeys 0)).HomoMul Kc 6 = some product ∧
      (publicKeyOf (smallKeys 0)).Encrypt 4 3 = .ok mask ∧
      (privateKeyOf (smallKeys 0)).Decrypt ((publicKeyOf (smallKeys 0)).HomoAdd product mask) =
        .ok (6 * 5 + 4) := by
  obtain ⟨Kc, product, mask, encrypted, multiplied, masked, decrypted, -⟩ :=
    mta_shares (smallKeys 0) _ _ (generateKeyPair_eq (smallKeys 0)) 13 10 (by decide) 5 6 4 2 3
      (by decide) (by decide) (by decide) (by decide) (by decide)
  exact ⟨Kc, product, mask, encrypted, multiplied, masked, decrypted⟩

end ThresholdDsa.Ecdsa
