/-
# Rounds in which everybody waits for everybody

Parties go through numbered rounds.  A party sends its messages of a round when it
enters the round, and leaves the round when it has those of all parties.  Messages
may arrive before their receiver has entered the round they belong to.

`Coherent` is what holds between two steps.  It bounds how far parties can be
apart: nobody has anything of the round after the next (`not_got_two_ahead`), so a
party that looks one round ahead never waits for nothing.  `all_final`: when
everything sent has arrived, every party is in the final round.
-/
import Mathlib.Data.Fintype.Lattice

namespace ThresholdDsa.LockStep

/-- The round of each party that has begun; `got i q j` is whether `i` has the messages of `j` of
round `q`. -/
structure State (ι : Type) where
  round : ι → Option ℕ
  got : ι → ℕ → ι → Prop

variable {ι : Type} {first final : ℕ}

structure Coherent (first final : ℕ) (s : State ι) : Prop where
  bounds : ∀ {i r}, s.round i = some r → first ≤ r ∧ r ≤ final
  sent : ∀ {i q j}, first ≤ q → q < final → s.got i q j → ∃ r, s.round j = some r ∧ q ≤ r
  passed : ∀ {i r q}, s.round i = some r → first ≤ q → q < r → ∀ j, s.got i q j
  waits : ∀ {i r}, s.round i = some r → r < final → ∃ j, ¬ s.got i r j

variable {s : State ι} (coherent : Coherent first final s)

include coherent

/-- Nobody is more than one round ahead of anybody. -/
theorem Coherent.le_succ {i j : ι} {r r' : ℕ}
    (at_i : s.round i = some r) (at_j : s.round j = some r') : r' ≤ r + 1 := by
  by_contra ahead
  obtain ⟨lower, -⟩ := coherent.bounds at_i
  obtain ⟨-, upper⟩ := coherent.bounds at_j
  -- then `j` has left the round after that of `i`
  have got : s.got j (r + 1) i := coherent.passed at_j (by omega) (by omega) i
  obtain ⟨r'', at_i', reached⟩ := coherent.sent (by omega) (by omega) got
  cases at_i.symm.trans at_i'
  omega

theorem Coherent.not_got_two_ahead {i : ι} {r : ℕ}
    (at_i : s.round i = some r) (below : r + 2 < final) (j : ι) : ¬ s.got i (r + 2) j := by
  intro got
  obtain ⟨lower, -⟩ := coherent.bounds at_i
  obtain ⟨r', at_j, reached⟩ := coherent.sent (by omega) below got
  have := coherent.le_succ at_i at_j
  omega

theorem Coherent.all_final [Finite ι] (begun : ∀ i, ∃ r, s.round i = some r)
    (arrived : ∀ i j q r, s.round j = some r → first ≤ q → q ≤ r → q < final → s.got i q j)
    (i : ι) : s.round i = some final := by
  have : Nonempty ι := ⟨i⟩
  choose r at_r using begun
  obtain ⟨slowest, slow⟩ := Finite.exists_min r
  obtain ⟨lower, -⟩ := coherent.bounds (at_r slowest)
  have done : ¬ r slowest < final := by
    intro behind
    obtain ⟨j, missing⟩ := coherent.waits (at_r slowest) behind
    exact missing (arrived slowest j _ _ (at_r j) lower (slow j) behind)
  obtain ⟨-, upper⟩ := coherent.bounds (at_r i)
  have := slow i
  rw [at_r i]
  congr 1
  omega

end ThresholdDsa.LockStep
