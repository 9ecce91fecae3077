/-
# The PDL-with-slack proof of `pdl_w_slack_proof.go`

The proof links a Paillier ciphertext with a curve point `K1R = k R`.  The
draws are arguments: `pdlDraws` applies the reductions modulo the group order
that the prover makes before it uses them.  `PDLwSlackVerify` is `pdlAccepts`
at the hashed challenge, so that `pdlAccepts` can be studied at every challenge.
-/
import ThresholdDsa.Ec2.MtA
import ThresholdDsa.Ec2.Sigma

namespace ThresholdDsa.Ec2

open BigInt Outcome

structure PDLwSlackStatement where
  CipherText : ℤ
  PK : PublicKey
  (K1R R : ℤ × ℤ)
  (H1 H2 NTilde : ℤ)

/-- The secret and the encryption randomness of its ciphertext. -/
structure PDLwSlackWitness where
  (K1 K1Ra : ℤ)

structure PDLwSlackProof where
  Z : ℤ
  U1 : ℤ × ℤ
  (U2 U3 S1 S2 S3 : ℤ)
  deriving DecidableEq, Repr

/-- The masks of `NewPDLwSlackProof`. -/
structure PDLDraws where
  (alpha beta rho gamma : ℤ)

variable (S : CurveOps) (st : PDLwSlackStatement) (pf : PDLwSlackProof)

/-- The masks as the prover finally uses them: every draw is reduced modulo the group order. -/
def pdlDraws (drawn : PDLDraws) : PDLDraws where
  alpha := drawn.alpha % S.N
  beta := 1 + drawn.beta % S.N
  rho := drawn.rho % S.N
  gamma := drawn.gamma % S.N

def commitmentUnknownOrder (h1 h2 NTilde x r : ℤ) : Outcome ℤ := expMul h1 x h2 r NTilde

/-- The transcript hashed by prover and verifier. -/
def pdlChallenge (H : Hashes) (st : PDLwSlackStatement) (z : ℤ) (u1 : ℤ × ℤ) (u2 u3 : ℤ) : ℤ :=
  H.Sha512_256 [st.R.1, st.R.2, st.K1R.1, st.K1R.2, st.CipherText, z, u1.1, u1.2, u2, u3,
    st.PK.N, st.PK.N + 1, st.PK.N * st.PK.N, st.H1, st.H2, st.NTilde] % S.N

def NewPDLwSlackProof (H : Hashes) (drawn : PDLDraws) (wit : PDLwSlackWitness)
    (st : PDLwSlackStatement) : Outcome PDLwSlackProof := do
  let d := pdlDraws S drawn
  let nAddOne := st.PK.N + 1
  let N2 := st.PK.N * st.PK.N
  let z ← commitmentUnknownOrder st.H1 st.H2 st.NTilde wit.K1 d.rho
  let u1 ← deref (S.ScalarMult st.R d.alpha.natAbs)
  let u2 ← commitmentUnknownOrder nAddOne d.beta N2 d.alpha st.PK.N
  let u3 ← commitmentUnknownOrder st.H1 st.H2 st.NTilde d.alpha d.gamma
  let e := pdlChallenge S H st z u1 u2 u3
  let s2 ← commitmentUnknownOrder wit.K1Ra d.beta st.PK.N e 1
  pure { Z := z, U1 := u1, U2 := u2, U3 := u3,
         S1 := e * wit.K1 + d.alpha, S2 := s2, S3 := e * d.rho + d.gamma }

/-- The tests `PDLwSlackVerify` makes before it computes its challenge. -/
def pdlChecks : Bool :=
  !(IsInfinityPoint st.R || IsInfinityPoint st.K1R || IsInfinityPoint pf.U1) &&
    !trivialMod st.CipherText (st.PK.N * st.PK.N) &&
    !(trivialMod st.H1 st.NTilde || trivialMod st.H2 st.NTilde) &&
    !trivialMod pf.Z st.NTilde && !trivialMod pf.U2 (st.PK.N * st.PK.N) &&
    !trivialMod pf.U3 st.NTilde && !trivialMod pf.S2 st.PK.N

/-- What happens at a modulus that is zero: the first reduction modulo it panics, unless a test
before it has refused. -/
def pdlZeroModulus : Outcome Bool :=
  if IsInfinityPoint st.R || IsInfinityPoint st.K1R || IsInfinityPoint pf.U1 then pure false
  else if st.PK.N = 0 then .error .panic
  else if trivialMod st.CipherText (st.PK.N * st.PK.N) then pure false
  else .error .panic

/-- `PDLwSlackVerify` with the challenge `e`. -/
def pdlAccepts (e : ℤ) :
    Outcome Bool :=
  if st.PK.N = 0 ∨ st.NTilde = 0 then pdlZeroModulus st pf
  else if !pdlChecks st pf then pure false
  else do
    let N2 := st.PK.N * st.PK.N
    let nOne := st.PK.N + 1
    let gS1 ← deref (S.ScalarMult st.R (pf.S1 % S.N).natAbs)
    let yMinusE ← deref (S.ScalarMult st.K1R (S.N - e).natAbs)
    let u1Test ← deref (S.Add gS1 yMinusE)
    if !S.IsOnCurve u1Test then pure false
    else do
      let u2TestTmp ← commitmentUnknownOrder nOne pf.S2 N2 pf.S1 st.PK.N
      let u2Test ← commitmentUnknownOrder u2TestTmp st.CipherText N2 1 (-e)
      let u3TestTmp ← commitmentUnknownOrder st.H1 st.H2 st.NTilde pf.S1 pf.S3
      let u3Test ← commitmentUnknownOrder u3TestTmp pf.Z st.NTilde 1 (-e)
      pure (pf.U1 = u1Test && pf.U2 = u2Test && pf.U3 = u3Test)

def PDLwSlackVerify (H : Hashes) (st : PDLwSlackStatement) (pf : PDLwSlackProof) : Outcome Bool :=
  pdlAccepts S st pf (pdlChallenge S H st pf.Z pf.U1 pf.U2 pf.U3)

end ThresholdDsa.Ec2
