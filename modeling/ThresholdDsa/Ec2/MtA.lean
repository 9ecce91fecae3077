/-
# The three range proofs of the MtA protocol

`MtARangeProof` (the initiator's proof about its ciphertext), `MtARespZKProof`
and `MtAwcRespZKProof` (the responder's proofs about its answer, the second with
a curve point) as `ec2` computes and checks them.  The random draws are
arguments, the challenge hash is a parameter.  The two responder proofs share
everything but the curve part: `RespMessages`, `respMessages`, `RespResponses`,
`respResponses`, `respSizes`, `respChecks` and `respEquations` are that common text.
-/
import ThresholdDsa.Ec2.Hash
import ThresholdDsa.Ec2.Paillier

namespace ThresholdDsa.Ec2

open BigInt Outcome

structure NtildeH1H2 where
  (Ntilde H1 H2 : ℤ)
  deriving DecidableEq, Repr

/-- `Exp(a, x, m) * Exp(b, y, m) mod m`; a nil power panics in the product. -/
def expMul (a x b y m : ℤ) : Outcome ℤ := do
  let ax ← deref (exp a x m)
  let bx ← deref (exp b y m)
  pure (ax * bx % m)

/-- The residue is zero or one. -/
def trivialMod (x m : ℤ) : Bool := x % m = 0 ∨ x % m = 1

/-- A unit modulo `m` passes the test unless it is one. -/
theorem trivialMod_eq_false_iff {m : ℕ} (one_lt : 1 < m) {x : ℤ} {υ : (ZMod m)ˣ}
    (hx : (x : ZMod m) = υ) : trivialMod x m = false ↔ υ ≠ 1 := by
  have := Fact.mk one_lt
  have zero_iff : x % m = 0 ↔ (x : ZMod m) = 0 := by
    rw [← Int.dvd_iff_emod_eq_zero, ZMod.intCast_zmod_eq_zero_iff_dvd]
  have one_iff : x % m = 1 ↔ (x : ZMod m) = 1 := by
    have congruent := ZMod.intCast_eq_intCast_iff x 1 m
    rw [Int.cast_one, Int.ModEq,
      Int.emod_eq_of_lt zero_le_one (by exact_mod_cast one_lt)] at congruent
    exact congruent.symm
  rw [trivialMod, decide_eq_false_iff_not, zero_iff, one_iff, hx, Units.val_eq_one, not_or]
  exact and_iff_right υ.ne_zero

/-- The number is zero or one. -/
def trivialInt (x : ℤ) : Bool := x = 0 ∨ x = 1

/-- Where both bases are units, `expMul` is the product of the powers. -/
theorem expMul_units {m : ℕ} (pos : 0 < m) {a b : ℤ} {α β : (ZMod m)ˣ} (ha : (a : ZMod m) = α)
    (hb : (b : ZMod m) = β) (x y : ℤ) :
    expMul a x b y m = .ok (((α ^ x * β ^ y : (ZMod m)ˣ) : ZMod m).val : ℤ) := by
  obtain ⟨ax, power_a⟩ := exp_isSome_of_unit pos x (ha ▸ α.isUnit)
  obtain ⟨bx, power_b⟩ := exp_isSome_of_unit pos y (hb ▸ β.isUnit)
  have := NeZero.of_pos pos
  simp only [expMul, power_a, power_b, deref, bind, Except.bind, pure, Except.pure]
  rw [← ZMod.val_intCast, Int.cast_mul, exp_zmod pos α ha power_a, exp_zmod pos β hb power_b,
    Units.val_mul]

/-! ## The initiator's range proof -/

structure MtARangeProof where
  (Z U W S S1 S2 : ℤ)
  deriving DecidableEq, Repr

/-- The draws of `MtARangeProofProve`. -/
structure MtARangeDraws where
  (alpha beta gamma rho : ℤ)

def MtARangeProofProve (S : CurveOps) (H : Hashes) (d : MtARangeDraws) (c m r : ℤ)
    (pk : PublicKey) (nt : NtildeH1H2) : Outcome MtARangeProof := do
  let z ← expMul nt.H1 m nt.H2 d.rho nt.Ntilde
  let u ← expMul pk.G d.alpha d.beta pk.N pk.N2
  let w ← expMul nt.H1 d.alpha nt.H2 d.gamma nt.Ntilde
  let e := H.Sha512_256 [z, u, w, c, pk.N] % S.N
  let re ← deref (exp r e pk.N)
  pure { Z := z, U := u, W := w, S := re * d.beta % pk.N,
         S1 := e * m + d.alpha, S2 := e * d.rho + d.gamma }

/-- The tests on the key and on sizes. -/
def MtARangeProof.sizes (S : CurveOps) (pf : MtARangeProof) (c : ℤ) (pk : PublicKey)
    (nt : NtildeH1H2) : Bool :=
  pk.N2 = pk.N * pk.N && pk.G = pk.N + 1 &&
    pf.S1 ≤ S.N3 && pf.Z < nt.Ntilde && pf.W < nt.Ntilde && pf.U < pk.N2 && c < pk.N2 &&
    pf.S < pk.N

/-- The tests on sizes and residues that precede the equations. -/
def MtARangeProof.checks (S : CurveOps) (pf : MtARangeProof) (c : ℤ) (pk : PublicKey)
    (nt : NtildeH1H2) : Bool :=
  pf.sizes S c pk nt &&
    !(trivialMod pf.Z nt.Ntilde || trivialMod pf.W nt.Ntilde || trivialMod pf.U pk.N2 ||
      trivialMod c pk.N2 || trivialMod pf.S pk.N) &&
    !trivialInt pf.S1 && !trivialInt pf.S2

/-- The reductions that follow the tests on sizes divide by both moduli, and panic at zero. -/
def MtARangeProof.MtARangeProofVerify (S : CurveOps) (H : Hashes) (pf : MtARangeProof) (c : ℤ)
    (pk : PublicKey) (nt : NtildeH1H2) : Outcome Bool :=
  if pf.sizes S c pk nt && (nt.Ntilde = 0 || pk.N = 0) then .error .panic
  else if !pf.checks S c pk nt then pure false
  else do
    let G := pk.N + 1
    let N2 := pk.N * pk.N
    let e := H.Sha512_256 [pf.Z, pf.U, pf.W, c, pk.N] % S.N
    let u2 ← expMul G pf.S1 pf.S pk.N N2
    let ce ← deref (exp c e N2)
    if ce * pf.U % N2 ≠ u2 then pure false
    else do
      let w2 ← expMul nt.H1 pf.S1 nt.H2 pf.S2 nt.Ntilde
      let ze ← deref (exp pf.Z e nt.Ntilde)
      pure (pf.W * ze % nt.Ntilde = w2)

/-! ## The common part of the responder's proofs -/

/-- The draws of `MtARespZKProofProve` and of `MtAwcRespZKProofProve`. -/
structure RespDraws where
  (alpha rho rhoBar sigma beta gamma delta : ℤ)

structure RespMessages where
  (Z ZBar T V W : ℤ)
  deriving DecidableEq, Repr

structure RespResponses where
  (S S1 S2 T1 T2 : ℤ)
  deriving DecidableEq, Repr

def respMessages (d : RespDraws) (x y c1 : ℤ) (pk : PublicKey) (nt : NtildeH1H2) :
    Outcome RespMessages := do
  let z ← expMul nt.H1 x nt.H2 d.rho nt.Ntilde
  let zBar ← expMul nt.H1 d.alpha nt.H2 d.rhoBar nt.Ntilde
  let t ← expMul nt.H1 y nt.H2 d.sigma nt.Ntilde
  let v ← expMul pk.G d.gamma d.beta pk.N pk.N2
  let c1Alpha ← deref (exp c1 d.alpha pk.N2)
  let w ← expMul nt.H1 d.gamma nt.H2 d.delta nt.Ntilde
  pure { Z := z, ZBar := zBar, T := t, V := v * c1Alpha % pk.N2, W := w }

def respResponses (d : RespDraws) (e x y r : ℤ) (pk : PublicKey) : Outcome RespResponses := do
  let re ← deref (exp r e pk.N)
  pure { S := re * d.beta % pk.N, S1 := e * x + d.alpha, S2 := e * d.rho + d.rhoBar,
         T1 := e * y + d.gamma, T2 := e * d.sigma + d.delta }

def respSizes (S : CurveOps) (m : RespMessages) (a : RespResponses) (c1 c2 : ℤ) (pk : PublicKey)
    (nt : NtildeH1H2) : Bool :=
  pk.N2 = pk.N * pk.N && pk.G = pk.N + 1 &&
    a.S1 ≤ S.N3 && m.Z < nt.Ntilde && m.ZBar < nt.Ntilde && m.T < nt.Ntilde &&
    m.W < nt.Ntilde && m.V < pk.N2 && c1 < pk.N2 && c2 < pk.N2 && a.S < pk.N

def respChecks (S : CurveOps) (m : RespMessages) (a : RespResponses) (c1 c2 : ℤ) (pk : PublicKey)
    (nt : NtildeH1H2) : Bool :=
  respSizes S m a c1 c2 pk nt &&
    !(trivialMod c1 pk.N2 || trivialMod c2 pk.N2 || trivialMod m.Z nt.Ntilde ||
      trivialMod m.ZBar nt.Ntilde || trivialMod m.T nt.Ntilde || trivialMod m.V pk.N2 ||
      trivialMod m.W nt.Ntilde || trivialMod a.S pk.N) &&
    !(trivialInt a.S1 || trivialInt a.S2 || trivialInt a.T1 || trivialInt a.T2)

def respEquations (m : RespMessages) (a : RespResponses) (e c1 c2 : ℤ) (pk : PublicKey)
    (nt : NtildeH1H2) : Outcome Bool := do
  let G := pk.N + 1
  let N2 := pk.N * pk.N
  let s12 ← expMul nt.H1 a.S1 nt.H2 a.S2 nt.Ntilde
  let ze ← deref (exp m.Z e nt.Ntilde)
  if s12 ≠ ze * m.ZBar % nt.Ntilde then pure false
  else do
    let h12 ← expMul nt.H1 a.T1 nt.H2 a.T2 nt.Ntilde
    let te ← deref (exp m.T e nt.Ntilde)
    if h12 ≠ te * m.W % nt.Ntilde then pure false
    else do
      let cs ← expMul G a.T1 a.S pk.N N2
      let c1S1 ← deref (exp c1 a.S1 N2)
      let c2e ← deref (exp c2 e N2)
      pure (cs * c1S1 % N2 = c2e * m.V % N2)

/-! ## The responder's proofs -/

structure MtARespZKProof extends RespMessages, RespResponses
  deriving DecidableEq, Repr

def MtARespZKProofProve (S : CurveOps) (H : Hashes) (d : RespDraws) (x y r c1 c2 : ℤ)
    (pk : PublicKey) (nt : NtildeH1H2) : Outcome MtARespZKProof := do
  let m ← respMessages d x y c1 pk nt
  let e := H.Sha512_256 [m.Z, m.ZBar, m.T, m.V, m.W, c1, c2, pk.N] % S.N
  let a ← respResponses d e x y r pk
  pure { toRespMessages := m, toRespResponses := a }

def MtARespZKProof.MtARespZKProofVerify (S : CurveOps) (H : Hashes) (pf : MtARespZKProof)
    (c1 c2 : ℤ) (pk : PublicKey) (nt : NtildeH1H2) : Outcome Bool :=
  if respSizes S pf.toRespMessages pf.toRespResponses c1 c2 pk nt && (nt.Ntilde = 0 || pk.N = 0) then
    .error .panic
  else if !respChecks S pf.toRespMessages pf.toRespResponses c1 c2 pk nt then pure false
  else
    let e := H.Sha512_256 [pf.Z, pf.ZBar, pf.T, pf.V, pf.W, c1, c2, pk.N] % S.N
    respEquations pf.toRespMessages pf.toRespResponses e c1 c2 pk nt

structure MtAwcRespZKProof extends RespMessages, RespResponses where
  U : ℤ × ℤ
  deriving DecidableEq, Repr

def MtAwcRespZKProofProve (S : CurveOps) (H : Hashes) (d : RespDraws) (x y r c1 c2 : ℤ)
    (pk : PublicKey) (nt : NtildeH1H2) : Outcome MtAwcRespZKProof := do
  let u ← deref (S.ScalarBaseMult (d.alpha % S.N).natAbs)
  let X ← deref (S.ScalarBaseMult (x % S.N).natAbs)
  let m ← respMessages d x y c1 pk nt
  let e := H.Sha512_256
    [u.1, u.2, X.1, X.2, m.Z, m.ZBar, m.T, m.V, m.W, c1, c2, pk.N] % S.N
  let a ← respResponses d e x y r pk
  pure { toRespMessages := m, toRespResponses := a, U := u }

/-- `xG` is the opened commitment to the point `x G`, a list of its two coordinates. -/
def MtAwcRespZKProof.MtAwcRespZKProofVefify (S : CurveOps) (H : Hashes) (pf : MtAwcRespZKProof)
    (xG : List ℤ) (c1 c2 : ℤ) (pk : PublicKey) (nt : NtildeH1H2) : Outcome Bool :=
  if xG = [] then pure false
  else if respSizes S pf.toRespMessages pf.toRespResponses c1 c2 pk nt &&
      (nt.Ntilde = 0 || pk.N = 0) then .error .panic
  else if !respChecks S pf.toRespMessages pf.toRespResponses c1 c2 pk nt then pure false
  else
    match xG with
    | [Xx, Xy] =>
      if !checkPointOnCurve S xG then pure false
      else do
        let e := H.Sha512_256 [pf.U.1, pf.U.2, Xx, Xy, pf.Z, pf.ZBar, pf.T, pf.V, pf.W, c1, c2,
          pk.N] % S.N
        let s1G ← deref (S.ScalarBaseMult (pf.S1 % S.N).natAbs)
        let exG ← deref (S.ScalarMult (Xx, Xy) e.natAbs)
        let uexG ← deref (S.Add exG pf.U)
        if !S.IsOnCurve s1G || !S.IsOnCurve uexG || s1G ≠ uexG then pure false
        else respEquations pf.toRespMessages pf.toRespResponses e c1 c2 pk nt
    | _ => pure false

end ThresholdDsa.Ec2
