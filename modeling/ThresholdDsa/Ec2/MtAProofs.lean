/-
# What the three proofs of the MtA protocol give

Completeness: the provers' values satisfy the verifiers' equations.  No exponent of an
honest run is negative, so every power is an ordinary power (`expMul_pow`) and the
equations are congruences; the response `S` is only known modulo `N`, and its `N`-th power
modulo `N ^ 2` is what the equation needs (`pow_modulus_congr`).  An honest proof is
therefore accepted exactly if it passes the tests that precede the equations
(`mta_proofs_complete`); the proof with the curve point also needs operands that
`ScalarMult` and `Add` can use.
-/
import ThresholdDsa.Ec2.MtA

namespace ThresholdDsa.Ec2

open BigInt Outcome Int

/-! ## Powers with exponents that are not negative -/

theorem expMul_pow (a b m : ℤ) (x y : ℕ) : expMul a x b y m = .ok (a ^ x * b ^ y % m) := by
  simp only [expMul, exp_natCast, deref, bind, Except.bind, pure, Except.pure]
  rw [← mul_emod]

theorem challenge_nonneg (H : Hashes) (args : List ℤ) (N : ℕ) : 0 ≤ H.Sha512_256 args % N := by
  have digest : 0 ≤ H.Sha512_256 args := by
    rw [Hashes.Sha512_256, setBytes_eq]
    exact natCast_nonneg _
  rcases Nat.eq_zero_or_pos N with rfl | pos
  · simpa using digest
  · exact emod_nonneg _ (natCast_ne_zero.mpr pos.ne')

variable {n : ℕ} {r : ℤ}

/-- Numbers that agree modulo `n` have the same `n`-th power modulo `n * n`. -/
theorem pow_modulus_congr {a b : ℤ} (same : a ≡ b [ZMOD n]) :
    a ^ n ≡ b ^ n [ZMOD n * n] := by
  have powers := dvd_sub_pow_of_dvd_sub same.symm.dvd 1
  rw [pow_one, sq] at powers
  exact (modEq_iff_dvd.mpr powers).symm

/-- A response as the natural number that it is. -/
theorem response_cast (e x a : ℕ) : (e : ℤ) * x + a = ((e * x + a : ℕ) : ℤ) := by
  rfl

/-- A committed pair of exponents is answered by any response to the challenge `e`. -/
theorem response_congr {h1 h2 N z w : ℤ} {a b x y : ℕ} (e : ℕ) (committed : z ≡ h1 ^ x * h2 ^ y [ZMOD N])
    (masked : w ≡ h1 ^ a * h2 ^ b [ZMOD N]) :
    h1 ^ (e * x + a) * h2 ^ (e * y + b) ≡ z ^ e * w [ZMOD N] := by
  calc h1 ^ (e * x + a) * h2 ^ (e * y + b)
      = (h1 ^ x * h2 ^ y) ^ e * (h1 ^ a * h2 ^ b) := by ring
    _ ≡ z ^ e * w [ZMOD N] := (committed.symm.pow e).mul masked.symm

/-! ## Keys -/

section

/-- The public key of the modulus `n`. -/
def keyOf (n : ℕ) : PublicKey := { N := n, G := n + 1, N2 := n * n }

@[simp] theorem keyOf_N (n : ℕ) : (keyOf n).N = n := rfl
@[simp] theorem keyOf_G (n : ℕ) : (keyOf n).G = n + 1 := rfl
@[simp] theorem keyOf_N2 (n : ℕ) : (keyOf n).N2 = n * n := rfl

variable {p q : ℤ} {pk : PublicKey} {sk : PrivateKey}

theorem key_eq (generated : GenerateKeyPair p q = some (pk, sk)) (pos : 0 < p * q) :
    ∃ n : ℕ, 0 < n ∧ pk = keyOf n := by
  simp only [GenerateKeyPair, Option.map_eq_some_iff, Prod.mk.injEq] at generated
  obtain ⟨u, -, rfl, -⟩ := generated
  obtain ⟨n, n_eq⟩ := eq_ofNat_of_zero_le pos.le
  exact ⟨n, by omega, by rw [n_eq]; rfl⟩

variable {n : ℕ}

theorem moduli_nonzero (n_pos : 0 < n) {nt : NtildeH1H2} (nonzero : nt.Ntilde ≠ 0) (sizes : Bool) :
    ¬(sizes && (decide (nt.Ntilde = 0) || decide ((keyOf n).N = 0))) = true := by
  simp [nonzero, n_pos.ne']

theorem encrypt_eq {m : ℕ} {c : ℤ} (encrypted : (keyOf n).Encrypt m r = .ok c) :
    c = ((n : ℤ) + 1) ^ m * r ^ n % (n * n) := by
  simp only [PublicKey.Encrypt, keyOf_N, keyOf_G, keyOf_N2, eq_ok, exp_natCast, Option.some.injEq] at encrypted
  obtain ⟨-, -, Gm, rfl, RN, rfl, rfl⟩ := encrypted
  rw [← mul_emod]

end

/-! ## The initiator's proof -/

/-- No draw of `MtARangeProofProve` is negative. -/
structure MtARangeDraws.Drawn (d : MtARangeDraws) : Prop where
  alpha : 0 ≤ d.alpha
  gamma : 0 ≤ d.gamma
  rho : 0 ≤ d.rho

/-- The equations of `MtARangeProofVerify` hold for an honest proof. -/
theorem range_equations {G beta c U s : ℤ} {m alpha e : ℕ} (cipher : c ≡ G ^ m * r ^ n [ZMOD n * n])
    (masked : U ≡ G ^ alpha * beta ^ n [ZMOD n * n]) (response : s ≡ r ^ e * beta [ZMOD n]) :
    c ^ e * U ≡ G ^ (e * m + alpha) * s ^ n [ZMOD n * n] := by
  calc c ^ e * U
      ≡ (G ^ m * r ^ n) ^ e * (G ^ alpha * beta ^ n) [ZMOD n * n] := (cipher.pow e).mul masked
    _ = G ^ (e * m + alpha) * (r ^ e * beta) ^ n := by ring
    _ ≡ G ^ (e * m + alpha) * s ^ n [ZMOD n * n] := (pow_modulus_congr response.symm).mul_left _

/-- An honest range proof is accepted exactly if it passes the tests. -/
theorem range_complete {S : CurveOps} {H : Hashes} (n_pos : 0 < n) {nt : NtildeH1H2}
    (nonzero : nt.Ntilde ≠ 0) {d : MtARangeDraws} (drawn : d.Drawn) {m c : ℤ} (m_nonneg : 0 ≤ m)
    (encrypted : (keyOf n).Encrypt m r = .ok c) :
    ∃ pf, MtARangeProofProve S H d c m r (keyOf n) nt = .ok pf ∧
      pf.MtARangeProofVerify S H c (keyOf n) nt = .ok (pf.checks S c (keyOf n) nt) := by
  obtain ⟨alpha, beta, gamma, rho⟩ := d
  obtain ⟨m, rfl⟩ := eq_ofNat_of_zero_le m_nonneg
  obtain ⟨alpha, rfl⟩ := eq_ofNat_of_zero_le drawn.alpha
  obtain ⟨gamma, rfl⟩ := eq_ofNat_of_zero_le drawn.gamma
  obtain ⟨rho, rfl⟩ := eq_ofNat_of_zero_le drawn.rho
  have cipher := encrypt_eq encrypted
  simp only [MtARangeProofProve, keyOf_N, keyOf_G, keyOf_N2, expMul_pow, ok_bind]
  set z := nt.H1 ^ m * nt.H2 ^ rho % nt.Ntilde with z_eq
  set u := ((n : ℤ) + 1) ^ alpha * beta ^ n % (n * n) with u_eq
  set w := nt.H1 ^ alpha * nt.H2 ^ gamma % nt.Ntilde with w_eq
  obtain ⟨e, e_eq⟩ := eq_ofNat_of_zero_le (challenge_nonneg H [z, u, w, c, n] S.N)
  simp only [e_eq, exp_natCast, deref, ok_bind]
  refine ⟨_, rfl, ?_⟩
  rw [MtARangeProof.MtARangeProofVerify, if_neg (moduli_nonzero n_pos nonzero _)]
  split
  · next failed =>
    rw [Bool.not_eq_true'] at failed
    rw [failed]
    rfl
  · next passed =>
    rw [Bool.not_eq_true', Bool.not_eq_false] at passed
    have first : c ^ e % (n * n) * u % (n * n) =
        ((n : ℤ) + 1) ^ (e * m + alpha) * (r ^ e % n * beta % n) ^ n % (n * n) := by
      refine ((mod_modEq _ _).mul_right _).trans
        (range_equations (r := r) ?_ (mod_modEq _ _) ?_)
      · rw [cipher]
        exact mod_modEq _ _
      · exact (mod_modEq _ _).trans ((mod_modEq _ _).mul_right _)
    have second : w * (z ^ e % nt.Ntilde) % nt.Ntilde =
        nt.H1 ^ (e * m + alpha) * nt.H2 ^ (e * rho + gamma) % nt.Ntilde := by
      rw [mul_comm w]
      exact ((mod_modEq _ _).mul_right _).trans
        (response_congr e (mod_modEq _ _) (mod_modEq _ _)).symm
    rw [passed]
    simp only [keyOf_N, e_eq, response_cast, expMul_pow, exp_natCast, deref, ok_bind, first, second,
      ne_eq, not_true_eq_false, if_false, decide_true]
    rfl

/-! ## The responder's proofs -/

/-- No draw of the responder's provers is negative. -/
structure RespDraws.Drawn (d : RespDraws) : Prop where
  alpha : 0 ≤ d.alpha
  rho : 0 ≤ d.rho
  rhoBar : 0 ≤ d.rhoBar
  sigma : 0 ≤ d.sigma
  gamma : 0 ≤ d.gamma
  delta : 0 ≤ d.delta

/-- `c2` is the answer to `c1` with the secrets `x` and `y`, none of them negative. -/
structure Answers (pk : PublicKey) (x y r c1 c2 : ℤ) : Prop where
  x_nonneg : 0 ≤ x
  y_nonneg : 0 ≤ y
  answer : ∃ c1x cy, pk.HomoMul c1 x = some c1x ∧ pk.Encrypt y r = .ok cy ∧ c2 = pk.HomoAdd c1x cy

/-- The equation modulo `n * n` of both verifiers holds for an honest answer. -/
theorem answer_equation (beta : ℤ) {G c1 c2 V s : ℤ} {x y alpha gamma e : ℕ}
    (answer : c2 ≡ c1 ^ x * (G ^ y * r ^ n) [ZMOD n * n])
    (masked : V ≡ G ^ gamma * beta ^ n * c1 ^ alpha [ZMOD n * n])
    (response : s ≡ r ^ e * beta [ZMOD n]) :
    G ^ (e * y + gamma) * s ^ n * c1 ^ (e * x + alpha) ≡ c2 ^ e * V [ZMOD n * n] := by
  calc G ^ (e * y + gamma) * s ^ n * c1 ^ (e * x + alpha)
      ≡ G ^ (e * y + gamma) * (r ^ e * beta) ^ n * c1 ^ (e * x + alpha) [ZMOD n * n] :=
        ((pow_modulus_congr response).mul_left _).mul_right _
    _ = (c1 ^ x * (G ^ y * r ^ n)) ^ e * (G ^ gamma * beta ^ n * c1 ^ alpha) := by ring
    _ ≡ c2 ^ e * V [ZMOD n * n] := (answer.symm.pow e).mul masked.symm

section Responder

variable {n : ℕ} {nt : NtildeH1H2} {d : RespDraws} {x y r c1 c2 : ℤ}

/-- The first messages and the responses of an honest run, whatever the challenge, satisfy the
verifiers' equations. -/
theorem resp_complete (nt : NtildeH1H2) (drawn : d.Drawn) (answers : Answers (keyOf n) x y r c1 c2) :
    ∃ m, respMessages d x y c1 (keyOf n) nt = .ok m ∧
      ∀ e : ℤ, 0 ≤ e → ∃ a, respResponses d e x y r (keyOf n) = .ok a ∧
        a.S1 = e * x + d.alpha ∧ respEquations m a e c1 c2 (keyOf n) nt = .ok true := by
  obtain ⟨x_nonneg, y_nonneg, c1x, cy, multiplied, encrypted, rfl⟩ := answers
  obtain ⟨alpha, rho, rhoBar, sigma, beta, gamma, delta⟩ := d
  obtain ⟨x, rfl⟩ := eq_ofNat_of_zero_le x_nonneg
  obtain ⟨y, rfl⟩ := eq_ofNat_of_zero_le y_nonneg
  obtain ⟨alpha, rfl⟩ := eq_ofNat_of_zero_le drawn.alpha
  obtain ⟨rho, rfl⟩ := eq_ofNat_of_zero_le drawn.rho
  obtain ⟨rhoBar, rfl⟩ := eq_ofNat_of_zero_le drawn.rhoBar
  obtain ⟨sigma, rfl⟩ := eq_ofNat_of_zero_le drawn.sigma
  obtain ⟨gamma, rfl⟩ := eq_ofNat_of_zero_le drawn.gamma
  obtain ⟨delta, rfl⟩ := eq_ofNat_of_zero_le drawn.delta
  rw [PublicKey.HomoMul, keyOf_N2, exp_natCast, Option.some.injEq] at multiplied
  have cipher := encrypt_eq encrypted
  simp only [respMessages, keyOf_G, keyOf_N, keyOf_N2, expMul_pow, exp_natCast, deref, ok_bind]
  refine ⟨_, rfl, fun e e_nonneg => ?_⟩
  obtain ⟨e, rfl⟩ := eq_ofNat_of_zero_le e_nonneg
  simp only [respResponses, keyOf_N, exp_natCast, deref, ok_bind]
  refine ⟨_, rfl, rfl, ?_⟩
  have commitment : ∀ u v a b : ℕ, nt.H1 ^ (e * u + a) * nt.H2 ^ (e * v + b) % nt.Ntilde =
      (nt.H1 ^ u * nt.H2 ^ v % nt.Ntilde) ^ e % nt.Ntilde *
        (nt.H1 ^ a * nt.H2 ^ b % nt.Ntilde) % nt.Ntilde := by
    intro u v a b
    exact (response_congr e (mod_modEq _ _) (mod_modEq _ _)).trans
      ((mod_modEq _ _).mul_right _).symm
  have answer : ((n : ℤ) + 1) ^ (e * y + gamma) * (r ^ e % n * beta % n) ^ n % (n * n) *
        (c1 ^ (e * x + alpha) % (n * n)) % (n * n) =
      (keyOf n).HomoAdd c1x cy ^ e % (n * n) *
        (((n : ℤ) + 1) ^ gamma * beta ^ n % (n * n) * (c1 ^ alpha % (n * n)) % (n * n)) % (n * n) := by
    refine (((mod_modEq _ _).mul (mod_modEq _ _)).trans
      (answer_equation (r := r) beta ?_ ?_ ?_)).trans ((mod_modEq _ _).mul_right _).symm
    · rw [PublicKey.HomoAdd, keyOf_N2, ← multiplied, cipher]
      exact (mod_modEq _ _).trans ((mod_modEq _ _).mul (mod_modEq _ _))
    · exact (mod_modEq _ _).trans ((mod_modEq _ _).mul (mod_modEq _ _))
    · exact (mod_modEq _ _).trans ((mod_modEq _ _).mul_right _)
  simp only [respEquations, keyOf_N, response_cast, expMul_pow, exp_natCast, deref, ok_bind,
    commitment, answer, ne_eq, not_true_eq_false, if_false, decide_true]
  rfl

/-- An honest `MtARespZKProof` is accepted exactly if it passes the tests. -/
theorem mtAResp_complete {S : CurveOps} {H : Hashes} (n_pos : 0 < n) (nonzero : nt.Ntilde ≠ 0)
    (drawn : d.Drawn) (answers : Answers (keyOf n) x y r c1 c2) :
    ∃ pf, MtARespZKProofProve S H d x y r c1 c2 (keyOf n) nt = .ok pf ∧
      pf.MtARespZKProofVerify S H c1 c2 (keyOf n) nt =
        .ok (respChecks S pf.toRespMessages pf.toRespResponses c1 c2 (keyOf n) nt) := by
  obtain ⟨m, messages, respond⟩ := resp_complete nt drawn answers
  obtain ⟨a, responses, -, equations⟩ := respond
    (H.Sha512_256 [m.Z, m.ZBar, m.T, m.V, m.W, c1, c2, n] % S.N) (challenge_nonneg H _ _)
  have proved : MtARespZKProofProve S H d x y r c1 c2 (keyOf n) nt = .ok ⟨m, a⟩ := by
    simp only [MtARespZKProofProve, messages, ok_bind]
    exact congrArg (· >>= _) responses
  refine ⟨_, proved, ?_⟩
  rw [MtARespZKProof.MtARespZKProofVerify, if_neg (moduli_nonzero n_pos nonzero _)]
  cases passed : respChecks S m a c1 c2 (keyOf n) nt with
  | false => rfl
  | true => exact equations

end Responder

/-! ## The responder's proof with a curve point -/

/-- The challenge that `MtAwcRespZKProofVefify` computes for the point `X`. -/
def MtAwcRespZKProof.challenge (S : CurveOps) (H : Hashes) (pf : MtAwcRespZKProof) (X : ℤ × ℤ)
    (c1 c2 : ℤ) (pk : PublicKey) : ℤ :=
  H.Sha512_256 [pf.U.1, pf.U.2, X.1, X.2, pf.Z, pf.ZBar, pf.T, pf.V, pf.W, c1, c2, pk.N] % S.N

/-- The curve operations on a proof about `x` with the mask `alpha` get operands they can use at
the challenge `e`. -/
def usableOperands (S : CurveOps) (x alpha e : ℤ) : Prop :=
  (e : ZMod S.N) ≠ 0 ∧ (e * x + alpha : ZMod S.N) ≠ 0 ∧ (e * x : ZMod S.N) ≠ alpha

section

variable {S : CurveOps} {E : Type} [AddCommGroup E] [Module (ZMod S.N) E] (C : S.Model E)

/-- The point test of `MtAwcRespZKProofVefify` on an honest proof. -/
theorem point_test {h x alpha s1 : ℤ} (s1_eq : s1 = h % S.N * x + alpha)
    (x_ne : (x : ZMod S.N) ≠ 0) (alpha_ne : (alpha : ZMod S.N) ≠ 0)
    (usable : usableOperands S x alpha (h % S.N)) :
    ∃ exG s1G, S.ScalarMult (C.xy ((x : ZMod S.N) • C.g)) (h % S.N).natAbs = some exG ∧
      S.ScalarBaseMult (s1 % S.N).natAbs = some s1G ∧
      S.Add exG (C.xy ((alpha : ZMod S.N) • C.g)) = some s1G ∧ S.IsOnCurve s1G = true := by
  obtain ⟨h_ne, s1_ne, apart⟩ := usable
  rw [ZMod.intCast_mod] at h_ne s1_ne apart
  have s1_cast : (s1 : ZMod S.N) = h * x + alpha := by
    rw [s1_eq, cast_add, cast_mul, ZMod.intCast_mod]
  rw [← s1_cast] at s1_ne
  refine ⟨_, _, C.mul_emod (C.smul_g_ne_zero x_ne) h_ne, C.baseMult_emod s1_ne, ?_,
    C.isOnCurve_xy (C.smul_g_ne_zero s1_ne)⟩
  have := Fact.mk C.prime
  rw [smul_smul]
  refine (C.add_eq_some_iff (C.smul_g_ne_zero (mul_ne_zero h_ne x_ne))
    (C.smul_g_ne_zero alpha_ne)).mpr ⟨?_, ?_, ?_⟩
  · exact fun same => apart (C.smul_g_injective same)
  · intro opposite
    rw [← neg_smul] at opposite
    rw [s1_cast, C.smul_g_injective opposite, neg_add_cancel] at s1_ne
    exact s1_ne rfl
  · rw [← add_smul, s1_cast]

/-- Where the tests pass and the point test holds, `MtAwcRespZKProofVefify` is left with the
equations. -/
theorem awcVerify_eq (H : Hashes) (pf : MtAwcRespZKProof) {c1 c2 : ℤ} {pk : PublicKey}
    {nt : NtildeH1H2} (moduli : ¬(nt.Ntilde = 0 ∨ pk.N = 0))
    (passed : respChecks S pf.toRespMessages pf.toRespResponses c1 c2 pk nt = true) {X s1G exG : ℤ × ℤ}
    (X_on_curve : S.IsOnCurve X = true) (s1G_on_curve : S.IsOnCurve s1G = true)
    (based : S.ScalarBaseMult (pf.S1 % S.N).natAbs = some s1G)
    (mult : S.ScalarMult X (pf.challenge S H X c1 c2 pk).natAbs = some exG)
    (sum : S.Add exG pf.U = some s1G) :
    pf.MtAwcRespZKProofVefify S H [X.1, X.2] c1 c2 pk nt =
      respEquations pf.toRespMessages pf.toRespResponses (pf.challenge S H X c1 c2 pk) c1 c2 pk nt := by
  have X_checked : checkPointOnCurve S [X.1, X.2] = true := by
    simp [checkPointOnCurve, coordinatesOnCurve, X_on_curve]
  rw [MtAwcRespZKProof.challenge] at mult
  unfold MtAwcRespZKProof.challenge MtAwcRespZKProof.MtAwcRespZKProofVefify
  simp only [passed, X_checked, based, mult, sum, s1G_on_curve, deref, ok_bind]
  simp [moduli]

include C in
/-- An honest `MtAwcRespZKProof` is accepted exactly if it passes the tests, unless a curve
operation then has an operand that it cannot use. -/
theorem mtAwcResp_complete {H : Hashes} (n_pos : 0 < n) {nt : NtildeH1H2}
    (nonzero : nt.Ntilde ≠ 0) {d : RespDraws} {x y c1 c2 : ℤ} (drawn : d.Drawn)
    (answers : Answers (keyOf n) x y r c1 c2) {X : ℤ × ℤ} (point : S.ScalarBaseMult x.natAbs = some X)
    (alpha_ne : (d.alpha : ZMod S.N) ≠ 0) :
    ∃ pf, MtAwcRespZKProofProve S H d x y r c1 c2 (keyOf n) nt = .ok pf ∧
      ((respChecks S pf.toRespMessages pf.toRespResponses c1 c2 (keyOf n) nt = true →
          usableOperands S x d.alpha (pf.challenge S H X c1 c2 (keyOf n))) →
        pf.MtAwcRespZKProofVefify S H [X.1, X.2] c1 c2 (keyOf n) nt =
          .ok (respChecks S pf.toRespMessages pf.toRespResponses c1 c2 (keyOf n) nt)) := by
  have x_nonneg := answers.x_nonneg
  obtain ⟨m, messages, respond⟩ := resp_complete nt drawn answers
  obtain ⟨x_pos, x_small, X_eq⟩ := C.baseMult_eq_some_iff.mp point
  rw [CurveOps.Model.natAbs_cast x_nonneg] at X_eq
  have x_ne : (x : ZMod S.N) ≠ 0 := by
    rw [← CurveOps.Model.natAbs_cast x_nonneg]
    exact CurveOps.Model.natCast_ne_zero x_pos x_small
  have x_reduced : x % S.N = x := emod_eq_of_lt x_nonneg (by omega)
  set U := C.xy ((d.alpha : ZMod S.N) • C.g) with U_eq
  set h := H.Sha512_256 [U.1, U.2, X.1, X.2, m.Z, m.ZBar, m.T, m.V, m.W, c1, c2, n] with h_eq
  obtain ⟨a, responses, s1_eq, equations⟩ := respond (h % S.N) (challenge_nonneg H _ _)
  have proved : MtAwcRespZKProofProve S H d x y r c1 c2 (keyOf n) nt = .ok ⟨m, a, U⟩ := by
    simp only [MtAwcRespZKProofProve, C.baseMult_emod alpha_ne, x_reduced, point, deref, ok_bind,
      messages]
    exact congrArg (· >>= _) responses
  refine ⟨_, proved, fun usable => ?_⟩
  cases passed : respChecks S m a c1 c2 (keyOf n) nt with
  | false =>
    unfold MtAwcRespZKProof.MtAwcRespZKProofVefify
    rw [if_neg (List.cons_ne_nil _ _), if_neg (moduli_nonzero n_pos nonzero _), passed]
    rfl
  | true =>
    obtain ⟨exG, s1G, mult, based, sum, on_curve⟩ := point_test C s1_eq x_ne alpha_ne (usable passed)
    rw [← X_eq] at mult
    have X_on_curve : S.IsOnCurve X = true := X_eq ▸ C.isOnCurve_xy (C.smul_g_ne_zero x_ne)
    have moduli : ¬(nt.Ntilde = 0 ∨ (keyOf n).N = 0) := by simp [nonzero, n_pos.ne']
    rw [awcVerify_eq H ⟨m, a, U⟩ moduli passed X_on_curve on_curve based mult sum]
    exact equations

end

/-- **The proofs of the MtA protocol are complete.**  With a generated Paillier key, for secrets
and draws that are not negative, each proof is accepted exactly if it passes the tests that
precede the equations.  The proof with the curve point needs a mask and, if the tests pass,
operands that `ScalarMult` and `Add` can use. -/
theorem mta_proofs_complete {S : CurveOps} {E : Type} [AddCommGroup E] [Module (ZMod S.N) E]
    (C : S.Model E) (H : Hashes) {p q : ℤ} {pk : PublicKey} {sk : PrivateKey}
    (generated : GenerateKeyPair p q = some (pk, sk)) (pos : 0 < p * q) (nt : NtildeH1H2)
    (nonzero : nt.Ntilde ≠ 0) :
    (∀ (d : MtARangeDraws) (m r c : ℤ), d.Drawn → 0 ≤ m → pk.Encrypt m r = .ok c →
      ∃ pf, MtARangeProofProve S H d c m r pk nt = .ok pf ∧
        pf.MtARangeProofVerify S H c pk nt = .ok (pf.checks S c pk nt)) ∧
    (∀ (d : RespDraws) (x y r c1 c2 : ℤ), d.Drawn → Answers pk x y r c1 c2 →
      (∃ pf, MtARespZKProofProve S H d x y r c1 c2 pk nt = .ok pf ∧
        pf.MtARespZKProofVerify S H c1 c2 pk nt =
          .ok (respChecks S pf.toRespMessages pf.toRespResponses c1 c2 pk nt)) ∧
      ∀ X : ℤ × ℤ, S.ScalarBaseMult x.natAbs = some X → (d.alpha : ZMod S.N) ≠ 0 →
        ∃ pf, MtAwcRespZKProofProve S H d x y r c1 c2 pk nt = .ok pf ∧
          ((respChecks S pf.toRespMessages pf.toRespResponses c1 c2 pk nt = true →
              usableOperands S x d.alpha (pf.challenge S H X c1 c2 pk)) →
            pf.MtAwcRespZKProofVefify S H [X.1, X.2] c1 c2 pk nt =
              .ok (respChecks S pf.toRespMessages pf.toRespResponses c1 c2 pk nt))) := by
  obtain ⟨n, n_pos, rfl⟩ := key_eq generated pos
  refine ⟨?_, ?_⟩
  · intro d m r c drawn m_nonneg encrypted
    exact range_complete n_pos nonzero drawn m_nonneg encrypted
  · intro d x y r c1 c2 drawn answers
    refine ⟨mtAResp_complete n_pos nonzero drawn answers, fun X point alpha_ne => ?_⟩
    exact mtAwcResp_complete C n_pos nonzero drawn answers point alpha_ne

/-! ## Runs with the Paillier modulus 15 -/

namespace MtASmall

def hash : Hashes := { sha512_256 := fun _ => [3], sha3_256 := fun _ => [] }

def nt : NtildeH1H2 := { Ntilde := 77, H1 := 4, H2 := 9 }

def rangeDraws (alpha : ℤ) : MtARangeDraws := { alpha, beta := 7, gamma := 4, rho := 2 }

def respDraws (alpha : ℤ) : RespDraws :=
  { alpha, rho := 2, rhoBar := 3, sigma := 2, beta := 7, gamma := 5, delta := 2 }

end MtASmall

open MtASmall in
/-- The ciphertext 53 holds 3, and 196 is the answer with 3 and 4. -/
theorem mta_proofs_complete_fifteen :
    (∃ pf, MtARangeProofProve (zmodCurve 7) hash (rangeDraws 5) 53 3 2 (keyOf 15) nt = .ok pf ∧
      pf.MtARangeProofVerify (zmodCurve 7) hash 53 (keyOf 15) nt = .ok true) ∧
    (∃ pf, MtARespZKProofProve (zmodCurve 7) hash (respDraws 4) 3 4 2 53 196 (keyOf 15) nt = .ok pf ∧
      pf.MtARespZKProofVerify (zmodCurve 7) hash 53 196 (keyOf 15) nt = .ok true) ∧
    ∃ pf, MtAwcRespZKProofProve (zmodCurve 7) hash (respDraws 4) 3 4 2 53 196 (keyOf 15) nt = .ok pf ∧
      pf.MtAwcRespZKProofVefify (zmodCurve 7) hash [3, 1] 53 196 (keyOf 15) nt = .ok true := by
  have := Fact.mk (show Nat.Prime 7 by norm_num)
  have generated : GenerateKeyPair 3 5 = some (keyOf 15, privateKeyOf Small.modulus) :=
    generateKeyPair_eq Small.modulus
  obtain ⟨range, answer⟩ := mta_proofs_complete (zmodModel 7) hash generated (by decide) nt (by decide)
  obtain ⟨pf, proved, verified⟩ := range (rangeDraws 5) 3 2 53 ⟨by decide, by decide, by decide⟩
    (by decide) (by decide +kernel)
  obtain ⟨⟨pf', proved', verified'⟩, with_point⟩ := answer (respDraws 4) 3 4 2 53 196
    ⟨by decide, by decide, by decide, by decide, by decide, by decide⟩
    ⟨by decide, by decide, 152, 173, by decide +kernel, by decide +kernel, by decide⟩
  obtain ⟨pf'', proved'', verified''⟩ := with_point (3, 1) (by decide) (by decide)
  have checks : (MtARangeProofProve (zmodCurve 7) hash (rangeDraws 5) 53 3 2 (keyOf 15) nt).map
      (fun pf => pf.checks (zmodCurve 7) 53 (keyOf 15) nt) = .ok true := by decide +kernel
  have checks' : (MtARespZKProofProve (zmodCurve 7) hash (respDraws 4) 3 4 2 53 196 (keyOf 15) nt).map
      (fun pf => respChecks (zmodCurve 7) pf.toRespMessages pf.toRespResponses 53 196 (keyOf 15) nt) =
        .ok true := by decide +kernel
  have checks'' : (MtAwcRespZKProofProve (zmodCurve 7) hash (respDraws 4) 3 4 2 53 196 (keyOf 15)
      nt).map (fun pf => respChecks (zmodCurve 7) pf.toRespMessages pf.toRespResponses 53 196 (keyOf 15)
        nt) = .ok true := by decide +kernel
  have usable : usableOperands (zmodCurve 7) 3 4 (3 % 7) := by unfold usableOperands; decide
  rw [proved] at checks
  rw [proved'] at checks'
  rw [proved''] at checks''
  exact ⟨⟨pf, proved, verified.trans checks⟩, ⟨pf', proved', verified'.trans checks'⟩,
    pf'', proved'', (verified'' fun _ => usable).trans checks''⟩

/-! ## The size of accepted responses

The verifiers compare `S1` itself with `q ^ 3`, not its absolute value. -/

section

variable {S : CurveOps} {H : Hashes} {pk : PublicKey} {nt : NtildeH1H2}

theorem range_size {pf : MtARangeProof} {c : ℤ}
    (accepted : pf.MtARangeProofVerify S H c pk nt = .ok true) : pf.S1 ≤ S.N3 := by
  unfold MtARangeProof.MtARangeProofVerify at accepted
  split_ifs at accepted with panics refused
  · simp [pure, Except.pure] at accepted
  · have passed : pf.checks S c pk nt = true := by simpa using refused
    simp only [MtARangeProof.checks, MtARangeProof.sizes, Bool.and_eq_true, decide_eq_true_eq] at passed
    omega

variable {c1 c2 : ℤ}

theorem respChecks_size {m : RespMessages} {a : RespResponses}
    (passed : respChecks S m a c1 c2 pk nt = true) : a.S1 ≤ S.N3 := by
  simp only [respChecks, respSizes, Bool.and_eq_true, decide_eq_true_eq] at passed
  omega

theorem resp_size {pf : MtARespZKProof}
    (accepted : pf.MtARespZKProofVerify S H c1 c2 pk nt = .ok true) : pf.S1 ≤ S.N3 := by
  unfold MtARespZKProof.MtARespZKProofVerify at accepted
  split_ifs at accepted with panics refused
  · simp [pure, Except.pure] at accepted
  · exact respChecks_size (by simpa using refused)

theorem awc_size {pf : MtAwcRespZKProof} {xG : List ℤ}
    (accepted : pf.MtAwcRespZKProofVefify S H xG c1 c2 pk nt = .ok true) : pf.S1 ≤ S.N3 := by
  unfold MtAwcRespZKProof.MtAwcRespZKProofVefify at accepted
  split_ifs at accepted with empty panics refused
  · simp [pure, Except.pure] at accepted
  · simp [pure, Except.pure] at accepted
  · exact respChecks_size (by simpa using refused)
  · exact respChecks_size (by simpa using refused)

/-- **What acceptance says about `S1`**: it lies in `[-q ^ 3, q ^ 3]` exactly if it is at least
`-q ^ 3`. -/
theorem accepted_abs_le_iff (S : CurveOps) (H : Hashes) (pk : PublicKey) (nt : NtildeH1H2) :
    (∀ (pf : MtARangeProof) (c : ℤ), pf.MtARangeProofVerify S H c pk nt = .ok true →
      (|pf.S1| ≤ S.N3 ↔ -S.N3 ≤ pf.S1)) ∧
    (∀ (pf : MtARespZKProof) (c1 c2 : ℤ), pf.MtARespZKProofVerify S H c1 c2 pk nt = .ok true →
      (|pf.S1| ≤ S.N3 ↔ -S.N3 ≤ pf.S1)) ∧
    ∀ (pf : MtAwcRespZKProof) (xG : List ℤ) (c1 c2 : ℤ),
      pf.MtAwcRespZKProofVefify S H xG c1 c2 pk nt = .ok true →
      (|pf.S1| ≤ S.N3 ↔ -S.N3 ≤ pf.S1) := by
  have bounded : ∀ s1 : ℤ, s1 ≤ S.N3 → (|s1| ≤ S.N3 ↔ -S.N3 ≤ s1) := by
    intro s1 upper
    rw [abs_le]
    exact and_iff_left upper
  exact ⟨fun pf c accepted => bounded _ (range_size accepted),
    fun pf c1 c2 accepted => bounded _ (resp_size accepted),
    fun pf xG c1 c2 accepted => bounded _ (awc_size accepted)⟩

end

namespace MtASmall

def range (S1 : ℤ) : MtARangeProof := { Z := 25, U := 223, W := 15, S := 11, S1, S2 := 10 }

def resp (S1 : ℤ) : MtARespZKProof where
  Z := 25
  ZBar := 53
  T := 23
  V := 58
  W := 15
  S := 11
  S1 := S1
  S2 := 9
  T1 := 17
  T2 := 8

def awc (S1 : ℤ) : MtAwcRespZKProof := { resp S1 with U := (4, 1) }

/-- The three proofs with the response `S1` are accepted. -/
def Accepted (S1 : ℤ) : Prop :=
  (range S1).MtARangeProofVerify (zmodCurve 7) hash 53 (keyOf 15) nt = .ok true ∧
  (resp S1).MtARespZKProofVerify (zmodCurve 7) hash 53 196 (keyOf 15) nt = .ok true ∧
  (awc S1).MtAwcRespZKProofVefify (zmodCurve 7) hash [3, 1] 53 196 (keyOf 15) nt = .ok true

end MtASmall

open MtASmall in
theorem accepted_abs_le_iff_thirteen : Accepted 13 ∧ |(13 : ℤ)| ≤ (zmodCurve 7).N3 := by
  have accepted : Accepted 13 := by unfold Accepted; decide +kernel
  obtain ⟨-, -, awc_iff⟩ := accepted_abs_le_iff (zmodCurve 7) hash (keyOf 15) nt
  exact ⟨accepted, (awc_iff (awc 13) [3, 1] 53 196 accepted.2.2).mpr (by decide)⟩

open MtASmall in
/-- Lowering the response by a multiple of the orders involved keeps all three proofs. -/
theorem accepted_below_minus_cube : Accepted (-407) ∧ ¬|(-407 : ℤ)| ≤ (zmodCurve 7).N3 := by
  unfold Accepted
  decide +kernel

end ThresholdDsa.Ec2
