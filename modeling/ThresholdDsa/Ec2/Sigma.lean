/-
# The Schnorr-type proofs of package `ec2`

`ZkUProof` and `ZkXiProof` (`schnorrZK.go`), `TProof` (`tZK.go`) and `STProof`
(`stZK.go`), prover and verifier, with the draws as arguments.  A curve call
that returns nil panics where its result is used.
-/
import ThresholdDsa.Ec2.Hash

namespace ThresholdDsa.Ec2

open Outcome

/-- The encoding check of the package `smpc`: first coordinate zero, second not. -/
def IsInfinityPoint (p : ℤ × ℤ) : Bool := p.1 = 0 ∧ p.2 ≠ 0

/-! ## Knowledge of a discrete logarithm -/

/-- `ZkUProof` and `ZkXiProof`. -/
structure SchnorrProof where
  (E S : ℤ)
  deriving DecidableEq, Repr

variable (S : CurveOps) (H : Hashes)

def schnorrProve (r x : ℤ) : Outcome SchnorrProof := do
  let rG ← deref (S.ScalarBaseMult r.natAbs)
  let xG ← deref (S.ScalarBaseMult x.natAbs)
  let e := H.Sha512_256 [rG.1, rG.2, xG.1, xG.2]
  pure { E := e, S := (r + e * x) % S.N }

/-- The point is the list of its coordinates; only the first pair is used. -/
def schnorrVerify (xG : List ℤ) (pf : SchnorrProof) : Outcome Bool :=
  if !checkPointOnCurve S xG then pure false
  else
    match xG with
    | Xx :: Xy :: _ => do
      let sG ← deref (S.ScalarBaseMult pf.S.natAbs)
      let eX ← deref (S.ScalarMult (Xx, Xy) (-1 * pf.E % S.N).natAbs)
      let rG ← deref (S.Add sG eX)
      pure (H.Sha512_256 [rG.1, rG.2, Xx, Xy] = pf.E)
    | _ => pure false

theorem schnorrVerify_noError (xG : List ℤ) (pf : SchnorrProof) :
    NoError (schnorrVerify S H xG pf) := by
  unfold schnorrVerify
  split
  · exact noError_pure _
  · split
    · exact noError_bind (noError_deref _) fun _ _ => noError_bind (noError_deref _) fun _ _ =>
        noError_bind (noError_deref _) fun _ _ => noError_pure _
    · exact noError_pure _

/-- An honest proof is accepted, unless a curve operation has no result. -/
theorem schnorr_complete {S : CurveOps} {H : Hashes} {E : Type} [AddCommGroup E]
    [Module (ZMod S.N) E] (C : S.Model E) {r x : ℤ} (r_nonneg : 0 ≤ r) (x_nonneg : 0 ≤ x)
    {pf : SchnorrProof} (proved : schnorrProve S H r x = .ok pf) {X : ℤ × ℤ}
    (point : S.ScalarBaseMult x.natAbs = some X) {answer : Bool}
    (verified : schnorrVerify S H [X.1, X.2] pf = .ok answer) : answer = true := by
  simp only [schnorrProve, eq_ok] at proved
  obtain ⟨rG, r_based, xG, x_based, rfl⟩ := proved
  obtain rfl : xG = X := Option.some.inj (x_based.symm.trans point)
  obtain ⟨-, -, rfl⟩ := C.baseMult_eq_some_iff.mp r_based
  obtain ⟨x_pos, x_small, rfl⟩ := C.baseMult_eq_some_iff.mp point
  have xG_ne := C.smul_ne_zero C.g_ne_zero x_pos x_small
  rw [CurveOps.Model.natAbs_cast r_nonneg] at verified
  rw [CurveOps.Model.natAbs_cast x_nonneg] at verified xG_ne
  set e := H.Sha512_256 [(C.xy ((r : ZMod S.N) • C.g)).1, (C.xy ((r : ZMod S.N) • C.g)).2,
    (C.xy ((x : ZMod S.N) • C.g)).1, (C.xy ((x : ZMod S.N) • C.g)).2] with e_eq
  have on_curve : checkPointOnCurve S
      [(C.xy ((x : ZMod S.N) • C.g)).1, (C.xy ((x : ZMod S.N) • C.g)).2] = true := by
    simp [checkPointOnCurve, coordinatesOnCurve, C.isOnCurve_xy xG_ne]
  simp only [schnorrVerify, on_curve, Bool.not_true, Bool.false_eq_true, if_false, eq_ok,
    Prod.mk.eta] at verified
  obtain ⟨sG, s_based, eX, e_multiplied, rG', added, rfl⟩ := verified
  have N_pos : (S.N : ℤ) ≠ 0 := by exact_mod_cast C.prime.ne_zero
  obtain ⟨s_pos, s_small, rfl⟩ := C.baseMult_eq_some_iff.mp s_based
  obtain ⟨e_pos, e_small, rfl⟩ := (C.mul_eq_some_iff xG_ne).mp e_multiplied
  obtain ⟨-, -, rfl⟩ := (C.add_eq_some_iff (C.smul_ne_zero C.g_ne_zero s_pos s_small)
    (C.smul_ne_zero xG_ne e_pos e_small)).mp added
  have recovered : (((r + e * x) % S.N).natAbs : ZMod S.N) • C.g +
      ((-1 * e % S.N).natAbs : ZMod S.N) • (x : ZMod S.N) • C.g = (r : ZMod S.N) • C.g := by
    rw [CurveOps.Model.natAbs_cast (Int.emod_nonneg _ N_pos),
      CurveOps.Model.natAbs_cast (Int.emod_nonneg _ N_pos), ZMod.intCast_mod, ZMod.intCast_mod]
    push_cast
    module
  rw [recovered, decide_eq_true_eq, e_eq]

def ZkUProve := schnorrProve

def ZkUVerify := schnorrVerify

def ZkXiProve := schnorrProve

def ZkXiVerify := schnorrVerify

/-! ## Knowledge of `sigma`, `l` with `T = sigma G + l h` -/

structure TProof where
  Alpha : ℤ × ℤ
  (T U : ℤ)
  deriving DecidableEq, Repr

def TProve (a b : ℤ) (t1 h : ℤ × ℤ) (sigma1 l1 : ℤ) :
    Outcome TProof := do
  let aG ← deref (S.ScalarBaseMult a.natAbs)
  let bH ← deref (S.ScalarMult h b.natAbs)
  let alpha ← deref (S.Add aG bH)
  let G ← deref (S.ScalarBaseMult 1)
  let e := H.Sha512_256 [t1.1, t1.2, h.1, h.2, G.1, G.2, alpha.1, alpha.2] % S.N
  pure { Alpha := alpha, T := (a + e * sigma1) % S.N, U := (b + e * l1) % S.N }

def TVerify (t1 h : ℤ × ℤ) (pf : TProof) : Outcome Bool :=
  if !checkPointOnCurve S [pf.Alpha.1, pf.Alpha.2, t1.1, t1.2, h.1, h.2] then pure false
  else if IsInfinityPoint pf.Alpha || IsInfinityPoint t1 || IsInfinityPoint h then pure false
  else if pf.T % S.N = 0 ∨ pf.T % S.N = 1 ∨ pf.U % S.N = 0 ∨ pf.U % S.N = 1 then pure false
  else do
    let G ← deref (S.ScalarBaseMult 1)
    let e := H.Sha512_256 [t1.1, t1.2, h.1, h.2, G.1, G.2, pf.Alpha.1, pf.Alpha.2] % S.N
    let tG ← deref (S.ScalarBaseMult pf.T.natAbs)
    let uH ← deref (S.ScalarMult h pf.U.natAbs)
    let tGu ← deref (S.Add tG uH)
    let et1 ← deref (S.ScalarMult t1 e.natAbs)
    let ate ← deref (S.Add pf.Alpha et1)
    pure (tGu = ate)

/-! ## Knowledge of `sigma`, `l` with `S = sigma R` and `T = sigma G + l h` -/

structure STProof where
  (Alpha Beta : ℤ × ℤ)
  (T U : ℤ)
  deriving DecidableEq, Repr

/-- The transcript hashed by `NewSTProof` and `STVerify`. -/
def stChallenge (T1 S1 R h G alpha beta : ℤ × ℤ) : ℤ :=
  H.Sha512_256 [T1.1, T1.2, S1.1, S1.2, R.1, R.2, h.1, h.2, G.1, G.2, alpha.1, alpha.2,
    beta.1, beta.2] % S.N

def NewSTProof (a b : ℤ) (T1 S1 R h : ℤ × ℤ) (sigma1 l1 : ℤ) :
    Outcome STProof := do
  let G ← deref (S.ScalarBaseMult 1)
  let alpha ← deref (S.ScalarMult R a.natAbs)
  let aG ← deref (S.ScalarBaseMult a.natAbs)
  let bH ← deref (S.ScalarMult h b.natAbs)
  let beta ← deref (S.Add aG bH)
  let e := stChallenge S H T1 S1 R h G alpha beta
  pure { Alpha := alpha, Beta := beta, T := (a + e * sigma1) % S.N, U := (b + e * l1) % S.N }

def STVerify (S1 T1 R h : ℤ × ℤ) (pf : STProof) : Outcome Bool :=
  if !checkPointOnCurve S [S1.1, S1.2, T1.1, T1.2, R.1, R.2, h.1, h.2, pf.Alpha.1, pf.Alpha.2,
      pf.Beta.1, pf.Beta.2] then pure false
  else if IsInfinityPoint S1 || IsInfinityPoint T1 || IsInfinityPoint R || IsInfinityPoint h ||
      IsInfinityPoint pf.Alpha || IsInfinityPoint pf.Beta then pure false
  else if pf.T % S.N = 0 ∨ pf.T % S.N = 1 ∨ pf.U % S.N = 0 ∨ pf.U % S.N = 1 then pure false
  else do
    let G ← deref (S.ScalarBaseMult 1)
    let e := stChallenge S H T1 S1 R h G pf.Alpha pf.Beta
    let tR ← deref (S.ScalarMult R pf.T.natAbs)
    let eS ← deref (S.ScalarMult S1 e.natAbs)
    let aSc ← deref (S.Add pf.Alpha eS)
    if tR ≠ aSc then pure false
    else do
      let tG ← deref (S.ScalarBaseMult pf.T.natAbs)
      let uH ← deref (S.ScalarMult h pf.U.natAbs)
      let eT1 ← deref (S.ScalarMult T1 e.natAbs)
      let tGuH ← deref (S.Add tG uH)
      let betaT ← deref (S.Add pf.Beta eT1)
      pure (betaT = tGuH)

end ThresholdDsa.Ec2
