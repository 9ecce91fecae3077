/-
# The ring-Pedersen parameters of `ntilde.go` and `ntildeZK.go`

`GenerateNtildeH1H2` and the proof of knowledge of the logarithm between `h1`
and `h2`.  The safe primes and the random numbers are arguments.
`SquareFreeProve`, `HvProve` and their verifiers (`squarefreeZK.go`, `hvZK.go`)
are parameters: `ModulusProofs`.
-/
import ThresholdDsa.Ec2.MtA

namespace ThresholdDsa.Ec2

open BigInt Outcome Option

/-- Two safe primes `P = 2 Q + 1` and the random numbers of `GenerateNtildeH1H2`. -/
structure NtildeDraws where
  (P1 Q1 P2 Q2 f1 alpha : ℤ)

/-- What `GenerateNtildeH1H2` returns. -/
structure NtildeKeys where
  ntildeH1H2 : NtildeH1H2
  (alpha beta q1 q2 p1 p2 : ℤ)

def GenerateNtildeH1H2 (length : ℤ) (d : NtildeDraws) : Option NtildeKeys :=
  if length ≤ 0 then none
  else do
    let NTildei := d.P1 * d.P2
    let beta ← modInverse d.alpha (d.Q1 * d.Q2)
    let h1i := d.f1 * d.f1 % NTildei
    let h2i ← exp h1i d.alpha NTildei
    pure { ntildeH1H2 := { Ntilde := NTildei, H1 := h1i, H2 := h2i }, alpha := d.alpha, beta,
           q1 := d.Q1, q2 := d.Q2, p1 := d.P1, p2 := d.P2 }

theorem generateNtilde_fields {length : ℤ} {d : NtildeDraws} {keys : NtildeKeys}
    (generated : GenerateNtildeH1H2 length d = some keys) :
    keys.ntildeH1H2.Ntilde = d.P1 * d.P2 ∧ keys.p1 = d.P1 ∧ keys.p2 = d.P2 := by
  unfold GenerateNtildeH1H2 at generated
  split at generated
  · exact absurd generated (by simp)
  · simp only [bind_eq_bind, bind_eq_some_iff, pure_def,
      Option.some.injEq] at generated
    obtain ⟨beta, -, h2, -, rfl⟩ := generated
    exact ⟨rfl, rfl, rfl⟩

/-! ## The logarithm between `h1` and `h2` -/

def Iterations : ℕ := 128

structure NtildeProof where
  (Alpha T : List ℤ)
  deriving DecidableEq, Repr

/-- Bit `i` of the challenge. -/
def challengeBit (c : ℤ) (i : ℕ) : ℤ := if c.natAbs.testBit i then 1 else 0

def NewNtildeProof (H : Hashes) (a : ℕ → ℤ) (h1 h2 x p q N : ℤ) : Outcome NtildeProof := do
  let alpha ← (List.range Iterations).mapM fun i => deref (exp h1 (a i) N)
  let c := H.Sha512_256 (h1 :: h2 :: N :: alpha)
  let t := (List.range Iterations).map fun i => (a i + challengeBit c i * x % (p * q)) % (p * q)
  pure { Alpha := alpha, T := t }

/-- The loop of `Verify` over the iterations from `i` on; a missing entry is a nil pointer, and
refused. -/
def ntildeLoop (h1 h2 N c : ℤ) : ℕ → List ℤ → List ℤ → Outcome Bool
  | i, alpha :: alphas, t :: ts => do
    let h1ExpTi ← deref (exp h1 t N)
    let h2ExpCi ← deref (exp h2 (challengeBit c i) N)
    if h1ExpTi ≠ alpha * h2ExpCi % N then pure false
    else ntildeLoop h1 h2 N c (i + 1) alphas ts
  | i, _, _ => pure (Iterations ≤ i)

def NtildeProof.Verify (H : Hashes) (pf : NtildeProof) (h1 h2 N : ℤ) : Outcome Bool :=
  if trivialMod h1 N || trivialMod h2 N || h1 % N = h2 % N then pure false
  else ntildeLoop h1 h2 N (H.Sha512_256 (h1 :: h2 :: N :: pf.Alpha)) 0 pf.Alpha pf.T

/-! ## The proofs about a modulus -/

structure SquareFreeProof where
  Sigma : List ℤ
  deriving DecidableEq, Repr

structure HvProof where
  Sigma : List ℤ
  deriving DecidableEq, Repr

/-- The provers and verifiers of `squarefreeZK.go` and `hvZK.go`. -/
structure ModulusProofs where
  SquareFreeProve : (n num l : ℤ) → Option SquareFreeProof
  SquareFreeVerify : (n num : ℤ) → SquareFreeProof → Bool
  HvProve : (n num p q : ℤ) → Option HvProof
  HvVerify : (n num : ℤ) → HvProof → Bool

end ThresholdDsa.Ec2
