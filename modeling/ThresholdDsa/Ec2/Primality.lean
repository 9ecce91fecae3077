/-
# The test of a modulus in `int.go`, and its Euclidean algorithm

`CheckPrime` is to refuse a modulus that is not positive, even, a prime or the power of
a prime.  `ProbablyPrime` is a parameter.  The search for a power (`IsPerfectPower`) goes
through the exponents `b` and bisects over `mid`, but compares the modulus with
`(2 ^ mid) ^ b`: it only finds powers of two.  So on an odd number it finds nothing
(`isPerfectPower_odd`), `CheckPrime` asks `ProbablyPrime` and nothing else
(`checkPrime_eq_true_iff`), and the powers of odd primes pass
(`checkPrime_prime_power_iff`).  `EuclideanAlgorithm` keeps its coefficients right
(`euclideanLoop_bezout`).
-/
import Mathlib

namespace ThresholdDsa.Ec2

/-! ## The search for a power -/

/-- The bisection between `low` and `high` for the exponent `b`.  The interval shrinks at each
turn; `fuel` is a bound on its length. -/
def powerSearch (Ntilde : ℤ) (b : ℕ) : ℕ → ℕ → ℕ → Option ℤ
  | 0, _, _ => none
  | fuel + 1, low, high =>
    if high ≤ low + 1 then none
    else
      let mid := (low + high) / 2
      if Ntilde < (2 ^ mid) ^ b then powerSearch Ntilde b fuel low mid
      else if (2 ^ mid) ^ b < Ntilde then powerSearch Ntilde b fuel mid high
      else some (2 ^ mid)

/-- `IsPerfectPower`: the exponents from 2 to the bit length, in order. -/
def IsPerfectPower (Ntilde : ℤ) : Option ℤ :=
  let log2n := Nat.size Ntilde.natAbs
  (List.range' 2 (log2n - 1)).findSome? fun b => powerSearch Ntilde b log2n 1 (log2n / b)

section PowerSearch

variable {Ntilde a : ℤ} {b : ℕ}

/-- The bisection never runs out of fuel. -/
theorem powerSearch_fuel {fuel low high : ℕ} (fits : high - low ≤ fuel) :
    powerSearch Ntilde b (fuel + 1) low high = powerSearch Ntilde b fuel low high := by
  induction fuel generalizing low high with
  | zero =>
    exact if_pos (by omega)
  | succ fuel ih =>
    simp only [powerSearch.eq_2 Ntilde b low high]
    split
    · rfl
    · rw [ih (by omega), ih (by omega)]

theorem powerSearch_eq_some {fuel low high : ℕ} (found : powerSearch Ntilde b fuel low high = some a) :
    ∃ mid, low ≤ mid ∧ 0 < low + mid ∧ a = 2 ^ mid ∧ a ^ b = Ntilde := by
  induction fuel generalizing low high with
  | zero => exact absurd found (by simp [powerSearch])
  | succ fuel ih =>
    simp only [powerSearch] at found
    split_ifs at found
    · exact ih found
    · obtain ⟨mid, le, -, power⟩ := ih found
      exact ⟨mid, by omega, by omega, power⟩
    · obtain rfl := Option.some.inj found
      exact ⟨(low + high) / 2, by omega, by omega, rfl, by omega⟩

/-- What `IsPerfectPower` finds is a power of two, and the modulus a power of that. -/
theorem isPerfectPower_eq_some (found : IsPerfectPower Ntilde = some a) :
    ∃ mid b, 0 < mid ∧ 2 ≤ b ∧ a = 2 ^ mid ∧ a ^ b = Ntilde := by
  obtain ⟨before, b, after, exponents, searched, -⟩ := List.findSome?_eq_some_iff.mp found
  have mem : b ∈ List.range' 2 (Nat.size Ntilde.natAbs - 1) := by simp [exponents]
  obtain ⟨mid, le, -, power⟩ := powerSearch_eq_some searched
  exact ⟨mid, b, le, (List.mem_range'_1.mp mem).1, power⟩

/-- **No odd number is found to be a power.** -/
theorem isPerfectPower_odd (odd : Ntilde % 2 = 1) : IsPerfectPower Ntilde = none := by
  by_contra found
  obtain ⟨a, found⟩ := Option.ne_none_iff_exists'.mp found
  obtain ⟨mid, b, mid_pos, two_le, rfl, power⟩ := isPerfectPower_eq_some found
  have two_dvd : (2 : ℤ) ∣ (2 ^ mid) ^ b :=
    dvd_pow (dvd_pow_self 2 mid_pos.ne') (by omega)
  omega

theorem isPerfectPower_lt (found : IsPerfectPower Ntilde = some a) : a.natAbs < Ntilde.natAbs := by
  obtain ⟨mid, b, mid_pos, two_le, rfl, rfl⟩ := isPerfectPower_eq_some found
  have one_lt : 1 < 2 ^ mid := Nat.one_lt_two_pow mid_pos.ne'
  exact lt_self_pow₀ one_lt (by omega)

end PowerSearch

/-! ## Powers of primes -/

/-- `IsPerfectPowerOfPrime`, called on ever smaller numbers; `fuel` bounds the calls. -/
def isPerfectPowerOfPrimeAux (probablyPrime : ℤ → Bool) : ℕ → ℤ → Bool
  | 0, _ => false
  | fuel + 1, Ntilde =>
    (IsPerfectPower Ntilde).elim false fun a =>
      if probablyPrime a then true else isPerfectPowerOfPrimeAux probablyPrime fuel a

def IsPerfectPowerOfPrime (probablyPrime : ℤ → Bool) (Ntilde : ℤ) : Bool :=
  isPerfectPowerOfPrimeAux probablyPrime (Ntilde.natAbs + 1) Ntilde

section PowerOfPrime

variable {probablyPrime : ℤ → Bool} {Ntilde : ℤ}

theorem isPerfectPowerOfPrimeAux_fuel {fuel : ℕ} (fits : Ntilde.natAbs < fuel) :
    isPerfectPowerOfPrimeAux probablyPrime fuel Ntilde =
      IsPerfectPowerOfPrime probablyPrime Ntilde := by
  induction fuel using Nat.strong_induction_on generalizing Ntilde with
  | h fuel ih =>
    obtain _ | fuel := fuel
    · exact absurd fits (by omega)
    rw [IsPerfectPowerOfPrime, isPerfectPowerOfPrimeAux, isPerfectPowerOfPrimeAux]
    cases found : IsPerfectPower Ntilde with
    | none => rfl
    | some a =>
      have smaller := isPerfectPower_lt found
      have shorter := ih (Ntilde.natAbs) fits smaller
      have enough := ih fuel (by omega) (show a.natAbs < fuel by omega)
      rw [Option.elim_some, Option.elim_some, shorter, enough]

/-- The recursion of the source. -/
theorem isPerfectPowerOfPrime_eq : IsPerfectPowerOfPrime probablyPrime Ntilde =
    (IsPerfectPower Ntilde).elim false fun a =>
      if probablyPrime a then true else IsPerfectPowerOfPrime probablyPrime a := by
  rw [IsPerfectPowerOfPrime, isPerfectPowerOfPrimeAux]
  cases found : IsPerfectPower Ntilde with
  | none => rfl
  | some a =>
    rw [Option.elim_some, Option.elim_some, isPerfectPowerOfPrimeAux_fuel (isPerfectPower_lt found)]

theorem isPerfectPowerOfPrime_odd (odd : Ntilde % 2 = 1) :
    IsPerfectPowerOfPrime probablyPrime Ntilde = false := by
  rw [isPerfectPowerOfPrime_eq, isPerfectPower_odd odd, Option.elim_none]

end PowerOfPrime

/-! ## The test of a modulus -/

def CheckPrime (probablyPrime : ℤ → Bool) (Ntilde : ℤ) : Bool :=
  if Ntilde ≤ 0 then false
  else if Ntilde % 2 = 0 then false
  else if probablyPrime Ntilde then false
  else !IsPerfectPowerOfPrime probablyPrime Ntilde

/-- The numbers that pass: odd, positive, and not taken for a prime. -/
theorem checkPrime_eq_true_iff (probablyPrime : ℤ → Bool) (Ntilde : ℤ) :
    CheckPrime probablyPrime Ntilde = true ↔
      0 < Ntilde ∧ Ntilde % 2 = 1 ∧ probablyPrime Ntilde = false := by
  unfold CheckPrime
  split_ifs with nonpos even prime
  · simp [not_lt.mpr nonpos]
  · simp [even]
  · simp [prime]
  · have odd : Ntilde % 2 = 1 := by omega
    rw [isPerfectPowerOfPrime_odd odd]
    simpa [odd, prime] using nonpos

/-- A power of an odd prime is refused exactly if `ProbablyPrime` takes it for a prime; where
that is right about the power, exactly if it is the prime itself. -/
theorem checkPrime_prime_power_iff (probablyPrime : ℤ → Bool) (p : ℕ) (prime : p.Prime)
    (p_ne_two : p ≠ 2) (k : ℕ) :
    (CheckPrime probablyPrime ((p : ℤ) ^ k) = false ↔ probablyPrime ((p : ℤ) ^ k) = true) ∧
      ((probablyPrime ((p : ℤ) ^ k) = true ↔ (p ^ k).Prime) →
        (CheckPrime probablyPrime ((p : ℤ) ^ k) = false ↔ k = 1)) := by
  have pos : (0 : ℤ) < (p : ℤ) ^ k := pow_pos (by exact_mod_cast prime.pos) k
  have odd : (p : ℤ) ^ k % 2 = 1 := by
    have odd_p : Odd (p : ℤ) := by exact_mod_cast prime.odd_of_ne_two p_ne_two
    exact Int.odd_iff.mp odd_p.pow
  have refused : CheckPrime probablyPrime ((p : ℤ) ^ k) = false ↔
      probablyPrime ((p : ℤ) ^ k) = true := by
    rw [← Bool.not_eq_true, checkPrime_eq_true_iff]
    simp [pos, odd]
  refine ⟨refused, fun exact => ?_⟩
  rw [refused, exact]
  constructor
  · exact Nat.Prime.eq_one_of_pow
  · rintro rfl
    rwa [pow_one]

/-- Primality decided exactly. -/
def exactlyPrime (n : ℤ) : Bool := decide (0 ≤ n ∧ n.natAbs.Prime)

theorem checkPrime_prime_power_nine : Nat.Prime 3 ∧
    (CheckPrime exactlyPrime (3 ^ 2) = false ↔ exactlyPrime (3 ^ 2) = true) ∧
    (CheckPrime exactlyPrime (3 ^ 2) = false ↔ 2 = 1) := by
  have three : Nat.Prime 3 := by norm_num
  have both := checkPrime_prime_power_iff exactlyPrime 3 three (by decide) 2
  exact ⟨three, both.1, both.2 (by simp [exactlyPrime])⟩

/-- Nine is the square of three, and passes. -/
theorem nine_passes : CheckPrime exactlyPrime 9 = true := by
  have composite : exactlyPrime 9 = false := by
    simp only [exactlyPrime, decide_eq_false_iff_not]
    norm_num
  exact (checkPrime_eq_true_iff exactlyPrime 9).mpr ⟨by norm_num, by norm_num, composite⟩

/-! ## The Euclidean algorithm -/

/-- The loop of `EuclideanAlgorithm`, as long as `b` is positive. -/
def euclideanLoop (a b x2 x1 y2 y1 : ℤ) : ℤ × ℤ × ℤ :=
  if 0 < b then
    euclideanLoop b (a - a / b * b) x1 (x2 - a / b * x1) y1 (y2 - a / b * y1)
  else (a, x2, y2)
termination_by b.toNat
decreasing_by
  have lt := Int.emod_lt_of_pos a ‹0 < b›
  rw [Int.emod_def] at lt
  grind

/-- A nil number is `none`. -/
def EuclideanAlgorithm : Option ℤ → Option ℤ → Option (ℤ × ℤ × ℤ)
  | some a, some b =>
    if a < b then none
    else if b = 0 then some (a, 1, 0)
    else some (euclideanLoop a b 1 0 0 1)
  | _, _ => none

/-- The pairs of coefficients express `a` and `b` by the numbers the loop began with, at each turn
and so at the end. -/
theorem euclideanLoop_bezout (A B : ℤ) {a b x2 x1 y2 y1 : ℤ} (a_nonneg : 0 ≤ a) (b_nonneg : 0 ≤ b)
    (a_eq : A * x2 + B * y2 = a) (b_eq : A * x1 + B * y1 = b) :
    ∃ x y, euclideanLoop a b x2 x1 y2 y1 = (↑(a.gcd b), x, y) ∧ A * x + B * y = a.gcd b := by
  induction a, b, x2, x1, y2, y1 using euclideanLoop.induct with
  | case1 a b x2 x1 y2 y1 pos ih =>
    have remainder : a - a / b * b = a % b := by rw [Int.emod_def, mul_comm]
    have gcd_eq : b.gcd (a - a / b * b) = a.gcd b := by
      rw [remainder, Int.gcd_comm, Int.gcd_emod]
    rw [euclideanLoop, if_pos pos, ← gcd_eq]
    refine ih b_nonneg (remainder ▸ Int.emod_nonneg a pos.ne') b_eq ?_
    linear_combination a_eq - a / b * b_eq
  | case2 a b x2 x1 y2 y1 done =>
    obtain rfl : b = 0 := by omega
    rw [euclideanLoop, if_neg done, Int.gcd_zero_right, Int.natAbs_of_nonneg a_nonneg]
    exact ⟨x2, y2, rfl, a_eq⟩

theorem euclideanAlgorithm_bezout (a b : ℤ) (le : b ≤ a) (nonneg : 0 ≤ b) (pos : 0 < a) :
    ∃ d x y, EuclideanAlgorithm (some a) (some b) = some (d, x, y) ∧ d = a.gcd b ∧
      a * x + b * y = d := by
  rw [EuclideanAlgorithm, if_neg le.not_gt]
  split
  · subst b
    exact ⟨a, 1, 0, rfl, by simp [abs_of_pos pos], by simp⟩
  · obtain ⟨x, y, ended, sum⟩ := euclideanLoop_bezout a b pos.le nonneg
      (show a * 1 + b * 0 = a by simp) (show a * 0 + b * 1 = b by simp)
    exact ⟨_, x, y, congrArg some ended, rfl, sum⟩

theorem euclideanAlgorithm_bezout_twelve :
    ∃ d x y, EuclideanAlgorithm (some 12) (some 9) = some (d, x, y) ∧ d = Int.gcd 12 9 ∧
      12 * x + 9 * y = d :=
  euclideanAlgorithm_bezout 12 9 (by decide) (by decide) (by decide)

end ThresholdDsa.Ec2
