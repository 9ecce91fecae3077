/-
# In how many ways a commitment opens

`Commit` and `Verify` of `commit.go` write the random number and then each secret between
two copies of the string "hello multichain", without lengths.  With a hash that tells apart
the strings written to it, two openings of one commitment write one string; they give the
same secrets exactly when their numbers have the same byte lengths, and so do all
openings in whose numbers the marker does not occur (`deCommit_unique_iff`).  A random
number may hold framed secrets itself: then one commitment opens as two points and as the
second of them alone, whatever the hash (`opensTwice_secp256k1`).
-/
import ThresholdDsa.Ec2.Hash
import ThresholdDsa.Lib.Framing

namespace ThresholdDsa.Ec2

open Framing List

/-- The number that `commit.go` makes of the string written to the hash. -/
def Hashes.writtenDigest (H : Hashes) (written : List UInt8) : ℤ :=
  setBytes (H.sha3_256 (written ++ H.sha3_256 written ++ multichain))

/-- How many bytes each number of an opening has. -/
def byteLengths (D : List ℤ) : List ℕ := D.map fun d => (intBytes d).length

/-- No number of the opening holds the marker. -/
def MarkerFree (D : List ℤ) : Prop := ∀ d ∈ D, ¬ multichain <:+: intBytes d

theorem commitInput_eq (rnd : ℤ) (secrets : List ℤ) :
    commitInput rnd secrets = intBytes rnd ++ frames multichain (secrets.map intBytes) := by
  rw [commitInput, frames, flatMap_map]

theorem unbordered_multichain : Unbordered multichain := unbordered_of_drop (by decide)

section

variable {H : Hashes} {S : CurveOps} {C : ℤ}

/-- What a commitment that verifies says about its opening. -/
theorem opening_of_verify {D : List ℤ} (verified : H.Verify S ⟨C, D⟩ = true) :
    ∃ rnd secrets, D = rnd :: secrets ∧ H.DeCommit S ⟨C, D⟩ = some secrets ∧
      H.writtenDigest (intBytes rnd ++ frames multichain (secrets.map intBytes)) = C := by
  obtain ⟨rnd, secrets, opening, digest, -⟩ := verify_iff.mp verified
  refine ⟨rnd, secrets, opening, deCommit_eq_some_iff.mpr ⟨verified, ?_⟩, ?_⟩
  · rw [opening, tail_cons]
  · rw [← commitInput_eq]
    exact digest

/-- Two openings of one commitment give the same secrets exactly when their numbers have the
same byte lengths; openings without the marker always do. -/
theorem deCommit_unique_iff (injective : Function.Injective H.writtenDigest) {D D' : List ℤ}
    (nonneg : ∀ d ∈ D, 0 ≤ d) (nonneg' : ∀ d ∈ D', 0 ≤ d)
    (verified : H.Verify S ⟨C, D⟩ = true) (verified' : H.Verify S ⟨C, D'⟩ = true) :
    (H.DeCommit S ⟨C, D⟩ = H.DeCommit S ⟨C, D'⟩ ↔ byteLengths D = byteLengths D') ∧
      (MarkerFree D → MarkerFree D' → H.DeCommit S ⟨C, D⟩ = H.DeCommit S ⟨C, D'⟩) := by
  obtain ⟨rnd, secrets, rfl, opened, digest⟩ := opening_of_verify verified
  obtain ⟨rnd', secrets', rfl, opened', digest'⟩ := opening_of_verify verified'
  have written := injective (digest.trans digest'.symm)
  have secrets_inj : secrets.map intBytes = secrets'.map intBytes → secrets = secrets' :=
    map_intBytes_inj (fun d mem => nonneg d (mem_cons_of_mem _ mem))
      fun d mem => nonneg' d (mem_cons_of_mem _ mem)
  rw [opened, opened', Option.some.injEq]
  refine ⟨⟨?_, ?_⟩, ?_⟩
  · rintro rfl
    rw [append_cancel_right_eq] at written
    simp [byteLengths, written]
  · intro lengths
    obtain ⟨length, lengths⟩ := List.cons.inj lengths
    have words : (secrets.map intBytes).map List.length =
        (secrets'.map intBytes).map List.length := by
      rw [map_map, map_map]
      exact lengths
    exact secrets_inj (framed_inj_of_length length words written).2
  · intro free free'
    have words : ∀ {r : ℤ} {E : List ℤ}, MarkerFree (r :: E) →
        ∀ word ∈ E.map intBytes, ¬ multichain <:+: word := by
      intro r E free_E word mem
      obtain ⟨d, d_mem, rfl⟩ := mem_map.mp mem
      exact free_E d (mem_cons_of_mem _ d_mem)
    exact secrets_inj (framed_inj unbordered_multichain (free rnd (by simp))
      (free' rnd' (by simp)) (words free) (words free') written).2

end

/-! ## A hash for the theorem, and an opening for the marker -/

/-- A "hash" that tells all strings apart: the string behind the byte 1. -/
def keepingHash : Hashes := { sha512_256 := id, sha3_256 := fun bytes => 1 :: bytes }

theorem injective_keepingHash : Function.Injective keepingHash.writtenDigest := by
  intro written written' same
  have kept : ∀ w : List UInt8, intBytes (keepingHash.writtenDigest w) =
      1 :: (w ++ (1 :: w) ++ multichain) :=
    fun w => (intBytes_setBytes_iff _).mpr (by simp [keepingHash])
  have bytes := congrArg intBytes same
  rw [kept, kept, List.cons.injEq, append_cancel_right_eq] at bytes
  have length := congrArg List.length bytes.2
  simp only [length_append, length_cons] at length
  exact (append_inj bytes.2 (by omega)).1

def secp256k1Prime : ℤ :=
  0xFFFFFFFFFFFFFFFFFFFFFFFFFFFFFFFFFFFFFFFFFFFFFFFFFFFFFFFEFFFFFC2F

/-- `IsOnCurve` of `crypto/secp256k1`, with the parameters of `S256`. -/
def secp256k1IsOnCurve (p : ℤ × ℤ) : Bool :=
  (p.1 * p.1 * p.1 + 7) % secp256k1Prime = p.2 * p.2 % secp256k1Prime

/-- The generator of secp256k1 and its double. -/
def generator : ℤ × ℤ :=
  (0x79BE667EF9DCBBAC55A06295CE870B07029BFCDB2DCE28D959F2815B16F81798,
    0x483ADA7726A3C4655DA4FBFC0E1108A8FD17B448A68554199C47D08FFB10D4B8)

def doubled : ℤ × ℤ :=
  (0xC6047F9441ED7D6D3045406E95C07CD85C778E4B8CEF3CA7ABAC09B95C709EE5,
    0x1AE168FEA63DC339A3C58419466CEAEEF7F632653266D0E1236431A950CFE52A)

/-- A random number that holds the random number 1 and the framed generator. -/
def holdingRandom : ℤ := setBytes (commitInput 1 [generator.1, generator.2])

theorem commitInput_holdingRandom :
    commitInput holdingRandom [doubled.1, doubled.2] =
      commitInput 1 [generator.1, generator.2, doubled.1, doubled.2] := by
  have kept : intBytes holdingRandom = commitInput 1 [generator.1, generator.2] := by
    refine (intBytes_setBytes_iff _).mpr ?_
    have first : intBytes 1 = [1] := by decide
    rw [commitInput, first]
    simp
  rw [commitInput, kept]
  simp [commitInput]

/-- One commitment opens as the generator followed by its double, and as its double alone. -/
def OpensTwice (H : Hashes) (S : CurveOps) : Prop :=
  ∃ (C : ℤ) (D D' : List ℤ), (∀ d ∈ D, 0 ≤ d) ∧ (∀ d ∈ D', 0 ≤ d) ∧
    H.Verify S ⟨C, D⟩ = true ∧ H.Verify S ⟨C, D'⟩ = true ∧
    H.DeCommit S ⟨C, D⟩ = some [generator.1, generator.2, doubled.1, doubled.2] ∧
    H.DeCommit S ⟨C, D'⟩ = some [doubled.1, doubled.2]

theorem opensTwice_secp256k1 (H : Hashes) {S : CurveOps} (curve : S.IsOnCurve = secp256k1IsOnCurve) :
    OpensTwice H S := by
  have on_curve : secp256k1IsOnCurve generator = true ∧ secp256k1IsOnCurve doubled = true := by
    decide +kernel
  have verified : H.Verify S ⟨H.commitDigest 1 [generator.1, generator.2, doubled.1, doubled.2],
      [1, generator.1, generator.2, doubled.1, doubled.2]⟩ = true := by
    refine verify_iff.mpr ⟨1, [generator.1, generator.2, doubled.1, doubled.2], rfl, rfl, ?_⟩
    simp [checkPointOnCurve, coordinatesOnCurve, curve, on_curve]
  have verified' : H.Verify S ⟨H.commitDigest 1 [generator.1, generator.2, doubled.1, doubled.2],
      [holdingRandom, doubled.1, doubled.2]⟩ = true := by
    refine verify_iff.mpr ⟨holdingRandom, [doubled.1, doubled.2], rfl, ?_, ?_⟩
    · simp only [Hashes.commitDigest, commitInput_holdingRandom]
    · simp [checkPointOnCurve, coordinatesOnCurve, curve, on_curve]
  have nonneg : 0 ≤ holdingRandom := by
    rw [holdingRandom, setBytes_eq]
    exact Int.natCast_nonneg _
  refine ⟨_, _, _, ?_, ?_, verified, verified', deCommit_eq_some_iff.mpr ⟨verified, rfl⟩,
    deCommit_eq_some_iff.mpr ⟨verified', rfl⟩⟩
  · simp [generator, doubled]
  · simp [nonneg, doubled]

/-- One opening with itself, and the two openings of one commitment. -/
theorem deCommit_unique_iff_keepingHash :
    (let D : List ℤ := [7, 2, 1]
      let C := keepingHash.commitDigest 7 [2, 1]
      keepingHash.Verify (zmodCurve 5) ⟨C, D⟩ = true ∧
        (keepingHash.DeCommit (zmodCurve 5) ⟨C, D⟩ = keepingHash.DeCommit (zmodCurve 5) ⟨C, D⟩ ↔
          byteLengths D = byteLengths D)) ∧
    ∃ (S : CurveOps) (C : ℤ) (D D' : List ℤ), keepingHash.Verify S ⟨C, D⟩ = true ∧
      keepingHash.Verify S ⟨C, D'⟩ = true ∧
      keepingHash.DeCommit S ⟨C, D⟩ ≠ keepingHash.DeCommit S ⟨C, D'⟩ ∧
      byteLengths D ≠ byteLengths D' := by
  have verified : keepingHash.Verify (zmodCurve 5) ⟨keepingHash.commitDigest 7 [2, 1], [7, 2, 1]⟩ =
      true := verify_iff.mpr ⟨7, [2, 1], rfl, rfl, by decide⟩
  refine ⟨⟨verified, (deCommit_unique_iff injective_keepingHash (by decide) (by decide) verified
    verified).1⟩, { zmodCurve 5 with IsOnCurve := secp256k1IsOnCurve }, ?_⟩
  obtain ⟨C, D, D', nonneg, nonneg', first, second, opened, opened'⟩ :=
    opensTwice_secp256k1 keepingHash (S := { zmodCurve 5 with IsOnCurve := secp256k1IsOnCurve }) rfl
  have same_iff := (deCommit_unique_iff injective_keepingHash nonneg nonneg' first second).1
  refine ⟨C, D, D', first, second, ?differ, fun lengths => ?differ (same_iff.mpr lengths)⟩
  rw [opened, opened']
  simp

theorem opens_twice : OpensTwice keepingHash { zmodCurve 5 with IsOnCurve := secp256k1IsOnCurve } :=
  opensTwice_secp256k1 keepingHash rfl

end ThresholdDsa.Ec2
