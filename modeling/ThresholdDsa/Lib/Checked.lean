/-
# Checked unsigned arithmetic

An unsigned operation of `w` bits panics when its result does not fit.  `checked` is
for sums, products and powers, `sub` and `div` for differences and quotients, each
with its inversion lemma.
-/
import ThresholdDsa.Lib.Outcome

namespace ThresholdDsa.Checked

open Outcome

/-- The result `n` of an addition, a multiplication or a power. -/
def checked (w n : ℕ) : Outcome ℕ := if n < 2 ^ w then .ok n else .error .panic

def sub (a b : ℕ) : Outcome ℕ := if b ≤ a then .ok (a - b) else .error .panic

def div (a b : ℕ) : Outcome ℕ := if b = 0 then .error .panic else .ok (a / b)

@[simp] theorem checked_eq_ok {w n m : ℕ} : checked w n = .ok m ↔ n < 2 ^ w ∧ n = m := by
  unfold checked
  split <;> simp [*]

@[simp] theorem sub_eq_ok {a b m : ℕ} : sub a b = .ok m ↔ b ≤ a ∧ a - b = m := by
  unfold sub
  split <;> simp [*]

@[simp] theorem div_eq_ok {a b m : ℕ} : div a b = .ok m ↔ b ≠ 0 ∧ a / b = m := by
  unfold div
  split <;> simp [*]

end ThresholdDsa.Checked
