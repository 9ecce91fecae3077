/-
# Points as byte strings

`readBits` writes the low bytes of a number into a buffer, the highest first.
`Marshal` writes a point as the byte 4 and two coordinates of 32 bytes, and
`Unmarshal` reads it back (`unmarshal_marshal`).  The databases are keyed by these
65 bytes, the commands carry them in hexadecimal.
-/
import ThresholdDsa.Ec2.Hash
import ThresholdDsa.Lib.GoText

namespace ThresholdDsa.Secp256k1

open Ec2 GoText List

abbrev Bytes := List UInt8

/-- The low `len` bytes of a number, big-endian. -/
def readBits : (len : ℕ) → ℕ → Bytes
  | 0, _ => []
  | len + 1, n => readBits len (n / 256) ++ [UInt8.ofNat (n % 256)]

@[simp] theorem length_readBits (len n : ℕ) : (readBits len n).length = len := by
  induction len generalizing n with
  | zero => rfl
  | succ len ih => simp [readBits, ih]

variable (bytes : Bytes) (p : ℤ × ℤ)

theorem setBytes_append_single (b : UInt8) :
    setBytes (bytes ++ [b]) = setBytes bytes * 256 + b.toNat := by
  simp [setBytes, foldl_append]

theorem setBytes_readBits {len n : ℕ} (small : n < 256 ^ len) : setBytes (readBits len n) = n := by
  induction len generalizing n with
  | zero =>
    have zero : n = 0 := by simpa using small
    rw [zero]
    rfl
  | succ len ih =>
    have high : n / 256 < 256 ^ len := by
      rw [Nat.div_lt_iff_lt_mul (by decide)]
      rwa [Nat.pow_succ] at small
    have low : (UInt8.ofNat (n % 256)).toNat = n % 256 := by
      rw [UInt8.toNat_ofNat']
      omega
    rw [readBits, setBytes_append_single, ih high, low]
    omega

def Marshal : Bytes := 4 :: (readBits 32 p.1.natAbs ++ readBits 32 p.2.natAbs)

/-- `none` are two nil coordinates. -/
def Unmarshal (data : Bytes) : Option (ℤ × ℤ) :=
  if data.length ≠ 65 then none
  else if data.head? ≠ some 4 then none
  else some (setBytes ((data.drop 1).take 32), setBytes (data.drop 33))

/-- Coordinates that fit into 32 bytes. -/
def Fits : Prop := 0 ≤ p.1 ∧ p.1 < 256 ^ 32 ∧ 0 ≤ p.2 ∧ p.2 < 256 ^ 32

theorem length_marshal : (Marshal p).length = 65 := by simp [Marshal]

theorem unmarshal_marshal {p : ℤ × ℤ} (fits : Fits p) : Unmarshal (Marshal p) = some p := by
  obtain ⟨x_nonneg, x_small, y_nonneg, y_small⟩ := fits
  have x_eq : setBytes (readBits 32 p.1.natAbs) = p.1 := by
    rw [setBytes_readBits (by omega)]
    omega
  have y_eq : setBytes (readBits 32 p.2.natAbs) = p.2 := by
    rw [setBytes_readBits (by omega)]
    omega
  have first : ((Marshal p).drop 1).take 32 = readBits 32 p.1.natAbs := by simp [Marshal]
  have second : (Marshal p).drop 33 = readBits 32 p.2.natAbs := by simp [Marshal]
  rw [Unmarshal, length_marshal, first, second, x_eq, y_eq]
  rfl

theorem marshal_injective {p q : ℤ × ℤ} (p_fits : Fits p) (q_fits : Fits q)
    (same : Marshal p = Marshal q) : p = q := by
  have read := unmarshal_marshal p_fits
  rw [same, unmarshal_marshal q_fits] at read
  exact (Option.some.inj read).symm

/-! ## Hexadecimal -/

/-- `hex.DecodeString`. -/
def hexBytes (text : List Char) : Option Bytes :=
  (hexDecode text).map fun chars => chars.map fun c => UInt8.ofNat c.toNat

/-- `hex.EncodeToString`. -/
def hexText : List Char := hexEncode (bytes.map fun b => Char.ofNat b.toNat)

theorem hexBytes_hexText : hexBytes (hexText bytes) = some bytes := by
  have small : ∀ c ∈ bytes.map (fun b => Char.ofNat b.toNat), c.toNat < 256 := by
    intro c mem
    obtain ⟨b, -, rfl⟩ := mem_map.mp mem
    rw [toNat_byteChar]
    exact b.toNat_lt
  rw [hexBytes, hexText, hexDecode_hexEncode small, Option.map_some, map_map]
  congr 1
  conv_rhs => rw [← map_id bytes]
  refine map_congr_left fun b _ => ?_
  rw [Function.comp_apply, toNat_byteChar, UInt8.ofNat_toNat, id]

/-- The value of a hexadecimal digit does not depend on its case. -/
theorem hexDigit_toLower (c : Char) : hexDigit c.toLower = hexDigit c := by
  by_cases upper : c.val ≥ 'A'.val ∧ c.val ≤ 'Z'.val
  · have letters : ∀ n < 26, hexDigit (Char.ofNat (65 + n)).toLower = hexDigit (Char.ofNat (65 + n)) := by
      decide
    have from_A : 65 ≤ c.toNat := UInt32.le_iff_toNat_le.mp upper.1
    have to_Z : c.toNat ≤ 90 := UInt32.le_iff_toNat_le.mp upper.2
    have letter := letters (c.toNat - 65) (by omega)
    rwa [Nat.add_sub_cancel' from_A, Char.ofNat_toNat] at letter
  · rw [Char.toLower, dif_neg upper]

theorem length_hexText : (hexText bytes).length = 2 * bytes.length := by
  induction bytes with
  | nil => rfl
  | cons b bytes ih =>
    simp only [hexText, hexEncode, map_cons, flatMap_cons, length_append,
      length_cons, length_nil] at ih ⊢
    omega

end ThresholdDsa.Secp256k1
