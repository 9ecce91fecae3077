/-
# Scalars of package `ed`

A scalar is an array of 32 bytes, least significant first.  The limb arithmetic of
`ScMulAdd`, `ScMulSub` and `ScReduce` is taken as what it implements, arithmetic
modulo the order of the base point; the other routines are built from these as in
the source.  The order `L` is prime, by certificate (`prime_L`).

Each routine has one equation in `ZMod L` (the simp set) and one bound.  A reduced
scalar is below `2 ^ 253`, so its last byte is at most 16 (`Reduced.last_le`).
-/
import ThresholdDsa.Lib.LittleEndian
import ThresholdDsa.Lib.Pratt
import ThresholdDsa.Ec2.Hash

namespace ThresholdDsa.Ed

open BigInt LittleEndian Ec2

abbrev Bytes32 := Fin 32 → UInt8

abbrev Bytes64 := Fin (32 + 32) → UInt8

/-! ## The order -/

@[irreducible] def GetBigIntOrder : ℕ := 2 ^ 252 + 0x14def9dea2f79cd6 * 2 ^ 64 + 0x5812631a5cf5d3ed

abbrev L : ℕ := GetBigIntOrder

/-- The primes that a search up to the root finds. -/
def smallPrimes : List ℕ :=
  [2, 3, 5, 7, 11, 23, 41, 43, 73, 269, 307, 1361, 2851, 5879, 30703, 82163, 132667, 137849, 531581,
   1224481, 14741173]

def orderCertificate : List Pratt.Entry :=
  [⟨58964693, 2, [2, 2, 14741173]⟩,
   ⟨292386187, 2, [2, 3, 3, 3, 3, 307, 5879]⟩,
   ⟨213441916511, 13, [2, 5, 73, 292386187]⟩,
   ⟨1257559732178653, 2, [2, 2, 3, 7, 23, 531581, 1224481]⟩,
   ⟨4434155615661930479, 17, [2, 41, 43, 1257559732178653]⟩,
   ⟨3044861653679985063343, 5, [2, 3, 11, 30703, 82163, 132667, 137849]⟩,
   ⟨172054593956031949258510691, 2, [2, 5, 1361, 2851, 4434155615661930479]⟩,
   ⟨198211423230930754013084525763697, 5, [2, 2, 2, 2, 3, 23, 58964693, 3044861653679985063343]⟩,
   ⟨19757330305831588566944191468367130476339, 2,
    [2, 269, 213441916511, 172054593956031949258510691]⟩,
   ⟨276602624281642239937218680557139826668747, 2,
    [2, 7, 19757330305831588566944191468367130476339]⟩,
   ⟨GetBigIntOrder, 2,
    [2, 2, 3, 11, 198211423230930754013084525763697, 276602624281642239937218680557139826668747]⟩]

theorem prime_of_mem_smallPrimes : ∀ q ∈ smallPrimes, q.Prime := by
  simp only [smallPrimes, List.forall_mem_cons]
  norm_num

theorem prime_L : L.Prime := by
  have passed : Pratt.certifies 253 smallPrimes orderCertificate = true := by decide +kernel
  have primes := Pratt.prime_of_certifies prime_of_mem_smallPrimes passed
  simp only [orderCertificate, List.forall_mem_cons] at primes
  exact primes.2.2.2.2.2.2.2.2.2.2.1

instance fact_prime_L : Fact L.Prime := ⟨prime_L⟩

theorem L_lt : L < 2 ^ 253 := by norm_num [L, GetBigIntOrder]

theorem large_L : 256 < L := by norm_num [L, GetBigIntOrder]

/-! ## The routines -/

def scZero : Bytes32 := fun _ => 0

/-- `one[0] = 1`. -/
def scOne : Bytes32 := bytes 32 1

variable (a b c : Bytes32)

/-- `s = ab + c`. -/
def ScMulAdd : Bytes32 := bytes 32 ((value a * value b + value c) % L)

/-- `s = ab - c`. -/
def ScMulSub : Bytes32 :=
  bytes 32 (((value a * value b - value c : ℤ) % L).toNat)

def ScReduce (s : Bytes64) : Bytes32 := bytes 32 (value s % L)

def ScMul : Bytes32 := ScMulAdd a b scZero

def ScAdd : Bytes32 := ScMulAdd a scOne b

def ScSub : Bytes32 := ScMulSub a scOne b

def GetBytesOrder : Bytes32 := bytes 32 GetBigIntOrder

/-- The inverse for the order, whatever the second argument is; zeros where there is none. -/
def ScModInverse (_order : Bytes32) : Bytes32 :=
  (modInverse (value a) GetBigIntOrder).elim scZero fun aInv => bytes 32 aInv.toNat

/-- The array that the rounds make of an id: `copy(tem[:], v.Bytes())`, big-endian from the first
byte on. -/
def uidBytes (v : ℤ) : Bytes32 := fun i => (intBytes v).getD i.val 0

/-! ## Reduced scalars -/

def Reduced : Prop := value a < L

theorem value_bytes_of_lt_L {x : ℕ} (small : x < L) : value (bytes 32 x) = x := by
  apply value_bytes_of_lt
  calc x < 2 ^ 253 := small.trans L_lt
    _ ≤ 256 ^ 32 := by norm_num

theorem reduced_bytes {x : ℕ} (small : x < L) : Reduced (bytes 32 x) := by
  rwa [Reduced, value_bytes_of_lt_L small]

theorem Reduced.last_le {a : Bytes32} (reduced : Reduced a) : (a (Fin.last 31)).toNat ≤ 31 := by
  have low : (a (Fin.last 31)).toNat * 256 ^ 31 ≤ value a := last_le_value a
  have high : value a < 2 ^ 253 := lt_trans reduced L_lt
  omega

theorem mod_L_lt (x : ℕ) : x % L < L := Nat.mod_lt _ prime_L.pos

theorem reduced_ScMulAdd : Reduced (ScMulAdd a b c) := reduced_bytes (mod_L_lt _)

theorem reduced_ScMul : Reduced (ScMul a b) := reduced_ScMulAdd _ _ _

theorem reduced_ScAdd : Reduced (ScAdd a b) := reduced_ScMulAdd _ _ _

theorem reduced_ScReduce (s : Bytes64) : Reduced (ScReduce s) := reduced_bytes (mod_L_lt _)

@[simp] theorem value_scZero : value scZero = 0 := value_zero

theorem reduced_scZero : Reduced scZero := by
  rw [Reduced, value_scZero]
  exact prime_L.pos

/-! ## The routines modulo the order -/

@[simp] theorem value_scOne : value scOne = 1 := value_bytes_of_lt_L prime_L.one_lt

@[simp] theorem cast_ScMulAdd :
    (value (ScMulAdd a b c) : ZMod L) = value a * value b + value c := by
  rw [ScMulAdd, value_bytes_of_lt_L (mod_L_lt _), ZMod.natCast_mod]
  push_cast
  rfl

@[simp] theorem cast_ScMul :
    (value (ScMul a b) : ZMod L) = value a * value b := by
  simp [ScMul]

@[simp] theorem cast_ScAdd :
    (value (ScAdd a b) : ZMod L) = value a + value b := by
  simp [ScAdd]

@[simp] theorem cast_ScSub :
    (value (ScSub a b) : ZMod L) = value a - value b := by
  have pos : (0 : ℤ) < L := by exact_mod_cast prime_L.pos
  have low := Int.emod_nonneg ((value a * value scOne - value b : ℤ)) pos.ne'
  have high := Int.emod_lt_of_pos ((value a * value scOne - value b : ℤ)) pos
  have cast : (((value a * value scOne - value b : ℤ) % L).toNat : ZMod L) =
      ((value a * value scOne - value b : ℤ) : ZMod L) := by
    rw [← ZMod.intCast_mod, ← Int.cast_natCast (R := ZMod L), Int.toNat_of_nonneg low]
  rw [ScSub, ScMulSub, value_bytes_of_lt_L (by omega), cast]
  simp

/-- The inverse, where zero is the inverse of zero. -/
@[simp] theorem cast_ScModInverse (order : Bytes32) :
    (value (ScModInverse a order) : ZMod L) = (value a : ZMod L)⁻¹ := by
  have pos : (0 : ℤ) < L := by exact_mod_cast prime_L.pos
  rw [ScModInverse]
  cases found : modInverse (value a) L with
  | none =>
    have zero : ((value a : ℤ) : ZMod L) = 0 := by
      by_contra ne
      obtain ⟨inverse, some⟩ := modInverse_of_ne_zero ne
      exact absurd (found.symm.trans some) (by simp)
    rw [Option.elim_none, value_scZero, ← Int.cast_natCast (R := ZMod L) (value a), zero, inv_zero,
      Nat.cast_zero]
  | some aInv =>
    obtain ⟨low, high, -⟩ := modInverse_spec pos found
    have small : aInv.toNat < L := by omega
    rw [Option.elim_some, value_bytes_of_lt_L small, ← Int.cast_natCast (R := ZMod L),
      Int.toNat_of_nonneg low, modInverse_zmod found, Int.cast_natCast]

theorem reduced_ScModInverse (order : Bytes32) : Reduced (ScModInverse a order) := by
  have pos : (0 : ℤ) < L := by exact_mod_cast prime_L.pos
  rw [ScModInverse]
  cases found : modInverse (value a) L with
  | none => exact reduced_scZero
  | some aInv =>
    obtain ⟨low, high, -⟩ := modInverse_spec pos found
    exact reduced_bytes (by omega)

/-! ## Ids -/

theorem intBytes_small {v : ℕ} (pos : 0 < v) (small : v < 256) : intBytes v = [UInt8.ofNat v] := by
  rw [intBytes, Int.natAbs_natCast, Nat.digits_of_lt 256 v pos.ne' small]
  rfl

/-- An id of one byte is its own value. -/
theorem value_uidBytes {v : ℕ} (pos : 0 < v) (small : v < 256) : value (uidBytes v) = v := by
  have array : uidBytes v = bytes 32 v := by
    funext i
    rw [uidBytes, intBytes_small pos small, bytes]
    rcases Nat.eq_zero_or_pos i.val with zero | later
    · simp [zero]
    · have shifted : v / 256 ^ i.val = 0 := by
        apply Nat.div_eq_of_lt
        exact small.trans_le (Nat.le_self_pow later.ne' 256)
      rw [shifted, List.getD_eq_default _ _ later]
      rfl
  rw [array, value_bytes_of_lt (small.trans (by norm_num))]

/-- Ids of one byte differ modulo the order. -/
theorem uidBytes_inj {v w : ℕ} (v_pos : 0 < v) (v_small : v < 256) (w_pos : 0 < w) (w_small : w < 256)
    (same : (value (uidBytes v) : ZMod L) = value (uidBytes w)) : v = w := by
  have large := large_L
  rw [value_uidBytes v_pos v_small, value_uidBytes w_pos w_small, ZMod.natCast_eq_natCast_iff',
    Nat.mod_eq_of_lt (by omega), Nat.mod_eq_of_lt (by omega)] at same
  exact same

/-- The array of 256 begins with its leading byte, and so is that of 1. -/
theorem uidBytes_256 : uidBytes 256 = uidBytes 1 := by
  have two : intBytes 256 = [1, 0] := by
    simp [intBytes]
  have one : intBytes 1 = [1] := intBytes_small Nat.one_pos (by norm_num)
  funext i
  rw [uidBytes, uidBytes, two, one]
  rcases i.val with _ | _ | _
  · rfl
  · rfl
  · rfl

end ThresholdDsa.Ed
