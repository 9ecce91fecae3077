/-
# Primality by a chain of Lucas certificates

Lucas's test shows that `p` is prime from a residue of order exactly `p - 1` and
the prime factors of `p - 1`.  A certificate is a list of entries, each with a
residue and the factors of `p - 1`, every factor certified by an entry before it;
`certifies` tests it with modular powers by repeated squaring, so that the test of
a 256-bit prime is an evaluation (`prime_of_certifies`).
-/
import ThresholdDsa.Lib.BigInt
import Mathlib.NumberTheory.LucasPrimality

namespace ThresholdDsa.Pratt

open BigInt List

structure Entry where
  p : ℕ
  /-- A residue of order `p - 1`. -/
  root : ℕ
  /-- The prime factors of `p - 1`. -/
  factors : List ℕ

/-- The test of one entry, with exponents below `2 ^ bits` and factors among `known`. -/
def Entry.passes (bits : ℕ) (known : List ℕ) (e : Entry) : Bool :=
  1 < e.p && e.p ≤ 2 ^ bits && e.factors.all (known.contains ·) && e.factors.prod ^ bits % (e.p - 1) == 0 &&
    powModAux e.p bits e.root (e.p - 1) == 1 &&
    e.factors.all fun q => powModAux e.p bits e.root ((e.p - 1) / q) != 1

def certifies (bits : ℕ) : List ℕ → List Entry → Bool
  | _, [] => true
  | known, e :: rest => e.passes bits known && certifies bits (e.p :: known) rest

theorem powModAux_eq_one_iff {p bits k : ℕ} (root : ℕ) (one_lt : 1 < p) (fits : k < 2 ^ bits) :
    powModAux p bits root k = 1 ↔ (root : ZMod p) ^ k = 1 := by
  have one_mod : (1 : ℤ) % p = 1 := Int.emod_eq_of_lt (by omega) (by exact_mod_cast one_lt)
  rw [powModAux_eq _ _ _ _ fits, ← one_mod]
  exact_mod_cast (ZMod.natCast_eq_natCast_iff' (root ^ k) 1 p).symm

theorem Entry.prime {bits : ℕ} {known : List ℕ} {e : Entry} (primes : ∀ q ∈ known, q.Prime)
    (passed : e.passes bits known = true) : e.p.Prime := by
  simp only [passes, Bool.and_eq_true, decide_eq_true_eq, all_eq_true, contains_iff_mem,
    beq_iff_eq, bne_iff_ne, ne_eq] at passed
  obtain ⟨⟨⟨⟨⟨one_lt, le⟩, certified⟩, power⟩, full⟩, proper⟩ := passed
  apply lucas_primality e.p (e.root : ZMod e.p)
  · have fits : e.p - 1 < 2 ^ bits := by omega
    rwa [← powModAux_eq_one_iff e.root one_lt fits]
  intro q q_prime q_dvd
  have mem : q ∈ e.factors := by
    have q_dvd := q_prime.dvd_of_dvd_pow (q_dvd.trans (Nat.dvd_of_mod_eq_zero power))
    obtain ⟨r, r_mem, dvd⟩ := (Prime.dvd_prod_iff q_prime.prime).mp q_dvd
    rwa [(Nat.prime_dvd_prime_iff_eq q_prime (primes r (certified r r_mem))).mp dvd]
  have fits : (e.p - 1) / q < 2 ^ bits := by
    have := Nat.div_le_self (e.p - 1) q
    omega
  rw [ne_eq, ← powModAux_eq_one_iff e.root one_lt fits]
  exact proper q mem

/-- Every number of a certificate that passes is prime. -/
theorem prime_of_certifies {bits : ℕ} {known : List ℕ} {entries : List Entry}
    (primes : ∀ q ∈ known, q.Prime) (passed : certifies bits known entries = true) :
    ∀ e ∈ entries, e.p.Prime := by
  induction entries generalizing known with
  | nil => simp
  | cons e rest ih =>
    simp only [certifies, Bool.and_eq_true] at passed
    have first := Entry.prime primes passed.1
    intro e' mem
    rcases mem_cons.mp mem with rfl | later
    · exact first
    · exact ih (forall_mem_cons.mpr ⟨first, primes⟩) passed.2 e' later

end ThresholdDsa.Pratt
