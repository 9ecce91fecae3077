/-
# Lagrange interpolation at zero

Over a field, a polynomial of degree below the number of distinct nodes takes
at zero the combination `∑ f(xᵢ) λᵢ` with `λᵢ = ∏_{j ≠ i} xⱼ / (xⱼ - xᵢ)`
(`eval_zero_eq_sum`).  `weight_eq_prod` lists the factors of a weight in the
order of the nodes.  `listPoly` is the polynomial with a given list of coefficients.
The values of a polynomial at given nodes are those of one of degree below `t` exactly
if its remainder by the nodal polynomial has such a degree (`exists_degree_lt_iff`).
-/
import Mathlib

namespace ThresholdDsa.Interpolation

open Polynomial Finset

variable {F : Type} [Field F] {n : ℕ}

/-- The weight of node `i` for interpolation at zero. -/
def weight (xs : Fin n → F) (i : Fin n) : F := ∏ j ∈ Finset.univ.erase i, xs j * (xs j - xs i)⁻¹

theorem eval_basis_zero (xs : Fin n → F) (i : Fin n) :
    (Lagrange.basis Finset.univ xs i).eval 0 = weight xs i := by
  rw [Lagrange.basis, eval_prod, weight]
  refine prod_congr rfl fun j _ => ?_
  rw [Lagrange.basisDivisor, eval_mul, eval_C, eval_sub, eval_X, eval_C, ← neg_sub (xs j) (xs i),
    inv_neg]
  ring

/-- **Interpolation at zero** from `n` distinct nodes. -/
theorem eval_zero_eq_sum {xs : Fin n → F} (distinct : Function.Injective xs) {f : F[X]}
    (degree : f.degree < n) : f.eval 0 = ∑ i, f.eval (xs i) * weight xs i := by
  have interpolated := Lagrange.eq_interpolate (s := Finset.univ) (v := xs)
    distinct.injOn (f := f) (by simpa using degree)
  conv_lhs => rw [interpolated, Lagrange.interpolate_apply, eval_finsetSum]
  refine sum_congr rfl fun i _ => ?_
  rw [eval_mul, eval_C, eval_basis_zero]

/-- The weight as a product over the indices in order. -/
theorem weight_eq_prod (xs : Fin n → F) (i : Fin n) :
    weight xs i =
      ((List.finRange n).map fun j => if j ≠ i then xs j * (xs j - xs i)⁻¹ else 1).prod := by
  rw [← Fin.prod_univ_def, ← prod_filter, weight]
  congr 1
  ext j
  simp

/-! ## Coefficient lists -/

section

variable {R : Type} [CommRing R]

/-- The polynomial with the given coefficients, constant term first. -/
noncomputable def listPoly : List R → R[X]
  | [] => 0
  | c :: cs => C c + X * listPoly cs

theorem degree_listPoly_lt (cs : List R) : (listPoly cs).degree < cs.length := by
  rw [degree_lt_iff_coeff_zero]
  induction cs with
  | nil => simp [listPoly]
  | cons c cs ih =>
    intro m large
    obtain ⟨k, rfl⟩ : ∃ k, m = k + 1 := ⟨m - 1, by simp at large; omega⟩
    rw [listPoly, coeff_add, coeff_C_succ, coeff_X_mul, zero_add]
    exact ih k (by simpa using large)

@[simp] theorem eval_listPoly_nil (x : R) : (listPoly ([] : List R)).eval x = 0 := eval_zero

@[simp] theorem eval_listPoly_cons (c : R) (cs : List R) (x : R) :
    (listPoly (c :: cs)).eval x = c + x * (listPoly cs).eval x := by
  rw [listPoly, eval_add, eval_C, eval_mul, eval_X]

end

/-! ## Values at nodes -/

section

variable {ι : Type} [Fintype ι] {v : ι → F}

theorem eval_modByMonic_nodal (P : F[X]) (i : ι) :
    (P %ₘ Lagrange.nodal Finset.univ v).eval (v i) = P.eval (v i) := by
  have node : (Lagrange.nodal Finset.univ v).eval (v i) = 0 :=
    Lagrange.eval_nodal_at_node (mem_univ i)
  conv_rhs => rw [← modByMonic_add_div P (Lagrange.nodal Finset.univ v)]
  rw [eval_add, eval_mul, node, zero_mul, add_zero]

theorem exists_degree_lt_iff (distinct : Function.Injective v) (P : F[X]) (t : ℕ) :
    (∃ f : F[X], f.degree < t ∧ ∀ i, f.eval (v i) = P.eval (v i)) ↔
      (P %ₘ Lagrange.nodal Finset.univ v).degree < t := by
  have R_degree : (P %ₘ Lagrange.nodal Finset.univ v).degree < (Finset.univ : Finset ι).card := by
    rw [← Lagrange.degree_nodal (v := v)]
    exact degree_modByMonic_lt P Lagrange.nodal_monic
  constructor
  · rintro ⟨f, degree, evals⟩
    rcases le_total t (Finset.univ : Finset ι).card with few | many
    · have same : f = P %ₘ Lagrange.nodal Finset.univ v :=
        eq_of_degrees_lt_of_eval_index_eq Finset.univ distinct.injOn
          (degree.trans_le (by exact_mod_cast few)) R_degree
          fun i _ => (evals i).trans (eval_modByMonic_nodal P i).symm
      rwa [← same]
    · exact R_degree.trans_le (by exact_mod_cast many)
  · intro degree
    exact ⟨_, degree, eval_modByMonic_nodal P⟩

end

end ThresholdDsa.Interpolation
