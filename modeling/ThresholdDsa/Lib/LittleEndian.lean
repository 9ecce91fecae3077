/-
# Numbers as byte arrays of a fixed length

`value` reads an array of `n` bytes with the least significant byte first, and
`bytes n x` writes the low `n` bytes of `x`.  Reading back gives `x mod 256 ^ n`
(`value_bytes`).
-/
import Mathlib

namespace ThresholdDsa.LittleEndian

variable {m n : ℕ}

def value (b : Fin n → UInt8) : ℕ := ∑ i, (b i).toNat * 256 ^ i.val

def bytes (n x : ℕ) : Fin n → UInt8 := fun i => UInt8.ofNat (x / 256 ^ i.val)

/-- `copy(dst[:], src[:])` into an array of zeros. -/
def copy (n : ℕ) (src : Fin m → UInt8) : Fin n → UInt8 := fun i =>
  if h : i.val < m then src ⟨i.val, h⟩ else 0

theorem value_succ (b : Fin (n + 1) → UInt8) :
    value b = (b 0).toNat + 256 * value fun i : Fin n => b i.succ := by
  rw [value, Fin.sum_univ_succ, value, Finset.mul_sum]
  congr 1
  · simp
  · refine Finset.sum_congr rfl fun i _ => ?_
    rw [Fin.val_succ, pow_succ]
    ring

theorem value_bytes (n x : ℕ) : value (bytes n x) = x % 256 ^ n := by
  induction n generalizing x with
  | zero => simp [value, Nat.mod_one]
  | succ n ih =>
    have shifted : (fun i : Fin n => bytes (n + 1) x i.succ) = bytes n (x / 256) := by
      funext i
      rw [bytes, bytes, Fin.val_succ, pow_succ', ← Nat.div_div_eq_div_mul]
    have first : (bytes (n + 1) x 0).toNat = x % 256 := by simp [bytes]
    rw [value_succ, shifted, ih, first, pow_succ', Nat.mod_mul]

theorem value_bytes_of_lt {x : ℕ} (small : x < 256 ^ n) : value (bytes n x) = x := by
  rw [value_bytes, Nat.mod_eq_of_lt small]

/-- The value is at least what its last byte says. -/
theorem last_le_value (b : Fin (n + 1) → UInt8) : (b (Fin.last n)).toNat * 256 ^ n ≤ value b :=
  Finset.single_le_sum (f := fun i : Fin (n + 1) => (b i).toNat * 256 ^ i.val)
    (fun _ _ => Nat.zero_le _) (Finset.mem_univ (Fin.last n))

theorem value_copy (le : m ≤ n) (src : Fin m → UInt8) : value (copy n src) = value src := by
  obtain ⟨k, rfl⟩ := Nat.exists_eq_add_of_le le
  rw [value, Fin.sum_univ_add, value]
  simp [copy]

theorem value_zero : value (fun _ : Fin n => 0) = 0 := by simp [value]

-- Comparing the modulus of a `ZMod` with a value must not unfold the sum.
attribute [irreducible] value

end ThresholdDsa.LittleEndian
