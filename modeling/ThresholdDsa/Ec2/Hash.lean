/-
# The two hash constructions of package `ec2`

The compression functions (SHA-512/256 and SHA3-256) are parameters; what the
package does around them is modelled byte by byte: `Sha512_256` of `int.go`
writes the argument count and each argument with a delimiter, and the
commitment hash of `commit.go` frames each secret with a fixed string and hashes
twice.
-/
import ThresholdDsa.Lib.CurveGroup

namespace ThresholdDsa.Ec2

open List

/-- The hash functions the package calls, on byte strings. -/
structure Hashes where
  (sha512_256 sha3_256 : List UInt8 → List UInt8)

/-- `(*big.Int).Bytes`: the absolute value, big-endian, without leading zeros. -/
def intBytes (x : ℤ) : List UInt8 := (Nat.digits 256 x.natAbs).reverse.map UInt8.ofNat

/-- `new(big.Int).SetBytes`. -/
def setBytes (bytes : List UInt8) : ℤ := bytes.foldl (fun acc b => acc * 256 + b.toNat) 0

/-! ## Bytes of integers -/

theorem setBytes_eq (bytes : List UInt8) :
    setBytes bytes = ((Nat.ofDigits 256 (bytes.reverse.map UInt8.toNat) : ℕ) : ℤ) := by
  induction bytes using List.reverseRecOn with
  | nil => rfl
  | append_singleton bytes b ih =>
    rw [setBytes, foldl_concat, ← setBytes, ih, reverse_append, reverse_singleton,
      singleton_append, map_cons, Nat.ofDigits_cons]
    push_cast
    ring

theorem digits_intBytes (x : ℤ) :
    (intBytes x).reverse.map UInt8.toNat = Nat.digits 256 x.natAbs := by
  rw [intBytes, ← map_reverse, reverse_reverse, map_map]
  conv_rhs => rw [← map_id (Nat.digits 256 x.natAbs)]
  refine map_congr_left fun d mem => ?_
  rw [Function.comp_apply, UInt8.toNat_ofNat', Nat.mod_eq_of_lt (Nat.digits_lt_base (by norm_num) mem),
    id]

theorem setBytes_intBytes (x : ℤ) : setBytes (intBytes x) = x.natAbs := by
  rw [setBytes_eq, digits_intBytes, Nat.ofDigits_digits]

theorem map_intBytes_inj {xs ys : List ℤ} (xs_nonneg : ∀ x ∈ xs, 0 ≤ x) (ys_nonneg : ∀ y ∈ ys, 0 ≤ y)
    (same : xs.map intBytes = ys.map intBytes) : xs = ys := by
  have read : ∀ {zs : List ℤ}, (∀ z ∈ zs, 0 ≤ z) → (zs.map intBytes).map setBytes = zs := by
    intro zs nonneg
    rw [map_map]
    refine (map_congr_left fun z mem => ?_).trans (map_id zs)
    exact (setBytes_intBytes z).trans (Int.natAbs_of_nonneg (nonneg z mem))
  rw [← read xs_nonneg, same, read ys_nonneg]

/-- The bytes of an integer do not start with zero. -/
theorem head_intBytes (x : ℤ) : (intBytes x).head? ≠ some 0 := by
  intro zero
  rw [intBytes, head?_map, head?_reverse, Option.map_eq_some_iff] at zero
  obtain ⟨d, last, d_zero⟩ := zero
  have small := Nat.digits_lt_base (by norm_num) (mem_of_getLast? last)
  have d_eq : d = 0 := by
    have := congrArg UInt8.toNat d_zero
    rw [UInt8.toNat_ofNat', Nat.mod_eq_of_lt small] at this
    exact this
  have nonempty : Nat.digits 256 x.natAbs ≠ [] := by
    intro empty
    simp [empty] at last
  have top := Nat.getLast_digit_ne_zero 256 (Nat.digits_ne_nil_iff_ne_zero.mp nonempty)
  rw [getLast?_eq_some_getLast nonempty, Option.some.injEq] at last
  exact top (last.trans d_eq)

/-- An integer keeps a byte string exactly if that does not start with zero. -/
theorem intBytes_setBytes_iff (bytes : List UInt8) :
    intBytes (setBytes bytes) = bytes ↔ bytes.head? ≠ some 0 := by
  constructor
  · intro kept
    rw [← kept]
    exact head_intBytes _
  intro first
  have digits : Nat.digits 256 (Nat.ofDigits 256 (bytes.reverse.map UInt8.toNat)) =
      bytes.reverse.map UInt8.toNat := by
    apply Nat.digits_ofDigits 256 (by norm_num)
    · intro d mem
      obtain ⟨b, -, rfl⟩ := mem_map.mp mem
      exact UInt8.toNat_lt b
    · intro nonempty zero
      have last := getLast?_eq_some_getLast nonempty
      rw [zero, getLast?_map, getLast?_reverse, Option.map_eq_some_iff] at last
      obtain ⟨b, head, b_zero⟩ := last
      rw [head] at first
      exact first (congrArg some (UInt8.toNat_inj.mp b_zero))
  rw [setBytes_eq, intBytes, Int.natAbs_natCast, digits, ← map_reverse, reverse_reverse,
    map_map]
  exact map_id'' (fun b => UInt8.ofNat_toNat) _

/-! ## Fiat-Shamir challenges -/

def hashInputDelimiter : UInt8 := 36  -- '$'

/-- `binary.LittleEndian.PutUint64`. -/
def putUint64 (n : ℕ) : List UInt8 := (List.range 8).map fun i => UInt8.ofNat (n / 256 ^ i % 256)

/-- The bytes `Sha512_256` hashes: the argument count, then each argument with the delimiter. -/
def hashInput (args : List ℤ) : List UInt8 :=
  putUint64 args.length ++ args.flatMap fun n => intBytes n ++ [hashInputDelimiter]

def Hashes.Sha512_256 (H : Hashes) (args : List ℤ) : ℤ := setBytes (H.sha512_256 (hashInput args))

/-! ## Commitments -/

structure Commitment where
  C : ℤ
  D : List ℤ
  deriving DecidableEq, Repr

def multichain : List UInt8 := "hello multichain".toList.map fun c => UInt8.ofNat c.toNat

/-- What `Commit` and `Verify` write to the hash for the random number and the secrets. -/
def commitInput (rnd : ℤ) (secrets : List ℤ) : List UInt8 :=
  intBytes rnd ++ secrets.flatMap fun secret => multichain ++ intBytes secret ++ multichain

/-- The digest: `Sum` does not reset the hash, so the second `Sum` covers the first input too. -/
def Hashes.commitDigest (H : Hashes) (rnd : ℤ) (secrets : List ℤ) : ℤ :=
  let written := commitInput rnd secrets
  setBytes (H.sha3_256 (written ++ H.sha3_256 written ++ multichain))

/-- `Commit(secrets...)` with the draw `rnd`; nil without secrets. -/
def Hashes.Commit (H : Hashes) (rnd : ℤ) (secrets : List ℤ) : Option Commitment :=
  if secrets = [] then none else some { C := H.commitDigest rnd secrets, D := rnd :: secrets }

/-- The coordinates, read in pairs, are on the curve. -/
def coordinatesOnCurve (S : CurveOps) : List ℤ → Bool
  | [] => true
  | [_] => false
  | x :: y :: rest => S.IsOnCurve (x, y) && coordinatesOnCurve S rest

def checkPointOnCurve (S : CurveOps) (secrets : List ℤ) : Bool :=
  !secrets.isEmpty && coordinatesOnCurve S secrets

def Hashes.Verify (H : Hashes) (S : CurveOps) (commitment : Commitment) : Bool :=
  match commitment.D with
  | [] => false
  | rnd :: secrets =>
    H.commitDigest rnd secrets = commitment.C && checkPointOnCurve S secrets

/-- The opened secrets, where the commitment verifies. -/
def Hashes.DeCommit (H : Hashes) (S : CurveOps) (commitment : Commitment) : Option (List ℤ) :=
  if H.Verify S commitment then some commitment.D.tail else none

variable {S : CurveOps} {H : Hashes} {secrets : List ℤ} {rnd : ℤ} {made : Commitment}

theorem verify_iff {commitment : Commitment} :
    H.Verify S commitment = true ↔ ∃ rnd secrets, commitment.D = rnd :: secrets ∧
      H.commitDigest rnd secrets = commitment.C ∧ checkPointOnCurve S secrets = true := by
  obtain ⟨C, D⟩ := commitment
  cases D with
  | nil => simp [Hashes.Verify]
  | cons => simp [Hashes.Verify]

theorem deCommit_eq_some_iff {commitment : Commitment} : H.DeCommit S commitment = some secrets ↔
      H.Verify S commitment = true ∧ commitment.D.tail = secrets := by
  unfold Hashes.DeCommit
  split
  · next verified => simp [verified]
  · next refused => simp [refused]

variable (committed : H.Commit rnd secrets = some made)

include committed

/-- Opening a commitment with the data it was made from returns the committed secrets. -/
theorem deCommit_commit {opened : List ℤ}
    (decommitted : H.DeCommit S made = some opened) : opened = secrets := by
  unfold Hashes.Commit at committed
  split at committed
  · exact absurd committed (by simp)
  · obtain rfl := Option.some.inj committed
    exact ((deCommit_eq_some_iff.mp decommitted).2).symm

/-- A commitment to points of the curve verifies. -/
theorem verify_commit
    (on_curve : coordinatesOnCurve S secrets = true) : H.Verify S made = true := by
  unfold Hashes.Commit at committed
  split at committed
  · exact absurd committed (by simp)
  · next nonempty =>
    obtain rfl := Option.some.inj committed
    rw [verify_iff]
    simp [checkPointOnCurve, on_curve, nonempty]

theorem deCommit_of_commit
    (on_curve : coordinatesOnCurve S secrets = true) : H.DeCommit S made = some secrets := by
  have verified := verify_commit committed on_curve
  obtain ⟨opened, decommitted⟩ : ∃ opened, H.DeCommit S made = some opened :=
    ⟨_, deCommit_eq_some_iff.mpr ⟨verified, rfl⟩⟩
  rw [decommitted, deCommit_commit committed decommitted]

omit committed

theorem coordinatesOnCurve_points {points : List (ℤ × ℤ)}
    (on_curve : ∀ p ∈ points, S.IsOnCurve p = true) :
    coordinatesOnCurve S (points.flatMap fun p => [p.1, p.2]) = true := by
  induction points with
  | nil => rfl
  | cons p points ih =>
    simp only [flatMap_cons, cons_append, nil_append, coordinatesOnCurve,
      Bool.and_eq_true]
    exact ⟨on_curve p (by simp), ih fun q mem => on_curve q (mem_cons_of_mem _ mem)⟩

end ThresholdDsa.Ec2
