/-
# Verifiable secret sharing of `vss2.go`

`Vss2Init`, `Vss2`, `Verify2` and `Combine2` as the package computes them.  The
dealt polynomial is `polyOf` of the coefficient list.  Each function has one
rule:

* `vss2_share` -- a share dealt to `id` is the polynomial at `id`;
* `verify2_eq_ok_iff` -- when `Verify2` returns, and what;
* `verify2_eval` -- a share that verifies against commitments to the
  coefficients of a polynomial is, up to its sign, the value at its ID;
* `combine2_eq_ok` -- shares on a polynomial of degree below their number combine
  to the value at zero.
-/
import ThresholdDsa.Lib.BigInt
import ThresholdDsa.Lib.CurveGroup
import ThresholdDsa.Lib.Interpolation

namespace ThresholdDsa.Ec2

open BigInt Outcome Polynomial List

structure ShareStruct2 where
  (ID Share : ℤ)
  deriving DecidableEq, Repr

/-- The coefficients, constant term first, and the points they are committed to; `rnds i` is
the `i`-th draw. -/
def Vss2Init (S : CurveOps) (secret : ℤ) (rnds : ℕ → ℤ) (t : ℕ) :
    Outcome (List ℤ × List (ℤ × ℤ)) := do
  require (1 < t) "param error"
  let poly := secret :: (List.range (t - 1)).map rnds
  let polyG ← poly.mapM fun coefficient => deref (S.ScalarBaseMult coefficient.natAbs)
  pure (poly, polyG)

/-- Horner's rule from the last coefficient; every step but the first reduces. -/
def horner (N id : ℤ) : List ℤ → Outcome ℤ
  | [] => .error .panic
  | [last] => pure last
  | coefficient :: higher => do
    let result ← horner N id higher
    pure ((result * id + coefficient) % N)

def calculatePolynomial2 (S : CurveOps) (poly : List ℤ) (id : ℤ) : Outcome ℤ := do
  require (!(id % S.N = 0 || id = 0))
    "id can not be equal to 0 or 0 modulo the order of the curve"
  horner S.N id poly

/-- `ContainsDuplicate`: the ids, printed as decimal strings, are the keys of a map. -/
def ContainsDuplicate (ids : List ℤ) : Outcome Bool := do
  require (!ids.isEmpty) "input param error"
  pure (ids.dedup.length ≠ ids.length)

def Vss2 (S : CurveOps) (poly : List ℤ) (ids : List ℤ) : Outcome (List ShareStruct2) := do
  require (!ids.isEmpty) "param error"
  let dul ← ContainsDuplicate ids
  require (!dul) "param error"
  ids.mapM fun id => do
    let shareVal ← calculatePolynomial2 S poly id
    pure { ID := id, Share := shareVal }

/-- The loop of `Verify2` over the commitments after the first. -/
def verifyPoint (S : CurveOps) (id : ℤ) : ℤ → ℤ × ℤ → List (ℤ × ℤ) → Outcome (ℤ × ℤ)
  | _, computePoint, [] => pure computePoint
  | idVal, computePoint, commitment :: rest => do
    let point ← deref (S.ScalarMult commitment idVal.natAbs)
    let next ← deref (S.Add computePoint point)
    verifyPoint S id (idVal * id % S.N) next rest

def ShareStruct2.Verify2 (S : CurveOps) (share : ShareStruct2) (polyG : List (ℤ × ℤ)) :
    Outcome Bool :=
  match polyG with
  | [] => .error .panic
  | constant :: rest => do
    let computePoint ← verifyPoint S share.ID share.ID constant rest
    let originalPoint ← deref (S.ScalarBaseMult share.Share.natAbs)
    pure (computePoint = originalPoint)

theorem verify2_noError (S : CurveOps) (share : ShareStruct2) (polyG : List (ℤ × ℤ)) :
    NoError (share.Verify2 S polyG) := by
  have loop : ∀ (rest : List (ℤ × ℤ)) (idVal : ℤ) (point : ℤ × ℤ),
      NoError (verifyPoint S share.ID idVal point rest) := by
    intro rest
    induction rest with
    | nil => exact fun _ _ => noError_pure _
    | cons commitment rest ih =>
      exact fun _ _ => noError_bind (noError_deref _) fun _ _ =>
        noError_bind (noError_deref _) fun _ _ => ih _ _
  cases polyG with
  | nil => simp [ShareStruct2.Verify2, NoError]
  | cons =>
    exact noError_bind (loop _ _ _) fun _ _ =>
      noError_bind (noError_deref _) fun _ _ => noError_pure _

/-- One factor of the interpolation weight of node `i`. -/
def timesStep {n : ℕ} (S : CurveOps) (xSet : Fin n → ℤ) (i : Fin n) (times : ℤ) (j : Fin n) :
    Outcome ℤ :=
  if j = i then pure times
  else do
    let subInverse ← orError "calc times fail" (modInverse (xSet j - xSet i) S.N)
    pure (times * (xSet j * subInverse) % S.N)

/-- The interpolation weight of node `i`, as `Combine2` and round 1 of signing compute it. -/
def calcTimes {n : ℕ} (S : CurveOps) (xSet : Fin n → ℤ) (i : Fin n) : Outcome ℤ :=
  (List.finRange n).foldlM (timesStep S xSet i) 1

def combineStep {n : ℕ} (S : CurveOps) (shares : Fin n → ShareStruct2) (secret : ℤ) (i : Fin n) :
    Outcome ℤ := do
  let times ← calcTimes S (fun j => (shares j).ID) i
  pure ((secret + (shares i).Share * times) % S.N)

def Combine2 {n : ℕ} (S : CurveOps) (shares : Fin n → ShareStruct2) : Outcome ℤ := do
  require (n ≠ 0) "param error"
  (List.finRange n).foldlM (combineStep S shares) 0

/-! ## Dealing -/

/-- The polynomial with the given coefficients, constant term first. -/
noncomputable def polyOf (N : ℕ) : List ℤ → (ZMod N)[X]
  | [] => 0
  | c :: cs => C (c : ZMod N) + X * polyOf N cs

theorem degree_polyOf_lt (N : ℕ) (coefficients : List ℤ) :
    (polyOf N coefficients).degree < coefficients.length := by
  rw [degree_lt_iff_coeff_zero]
  induction coefficients with
  | nil => simp [polyOf]
  | cons c cs ih =>
    intro m large
    obtain ⟨k, rfl⟩ : ∃ k, m = k + 1 := ⟨m - 1, by simp at large; omega⟩
    simp only [polyOf, coeff_add, coeff_C_succ, coeff_X_mul, zero_add]
    exact ih k (by simpa using large)

theorem eval_polyOf_zero (N : ℕ) (c : ℤ) (cs : List ℤ) : (polyOf N (c :: cs)).eval 0 = c := by
  simp [polyOf]

variable {poly : List ℤ} {S : CurveOps} {id value : ℤ}

theorem horner_eval {N : ℕ} (computed : horner N id poly = .ok value) :
    (value : ZMod N) = (polyOf N poly).eval (id : ZMod N) := by
  induction poly generalizing value with
  | nil => exact absurd computed (by simp [horner])
  | cons c cs ih =>
    cases cs with
    | nil =>
      obtain rfl := pure_eq_ok.mp computed
      simp [polyOf]
    | cons c' cs =>
      simp only [horner, eq_ok] at computed
      obtain ⟨higher, higher_ok, rfl⟩ := computed
      rw [polyOf]
      push_cast
      rw [ih higher_ok]
      simp only [eval_add, eval_C, eval_mul, eval_X]
      ring

/-- Every share is the dealt polynomial at its ID. -/
theorem calculatePolynomial2_eval (computed : calculatePolynomial2 S poly id = .ok value) :
    (value : ZMod S.N) = (polyOf S.N poly).eval (id : ZMod S.N) := by
  simp only [calculatePolynomial2, eq_ok] at computed
  obtain ⟨-, -, value_ok⟩ := computed
  exact horner_eval value_ok

/-- The dealt shares are the values at their IDs. -/
theorem vss2_share {ids : List ℤ} {shares : List ShareStruct2}
    (dealt : Vss2 S poly ids = .ok shares) :
    ∀ v ∈ shares, calculatePolynomial2 S poly v.ID = .ok v.Share := by
  simp only [Vss2, bind_eq_ok] at dealt
  obtain ⟨-, -, -, -, -, -, mapped⟩ := dealt
  intro v mem
  obtain ⟨id, -, computed⟩ := exists_of_mem_forall₂ (mapM_eq_ok.mp mapped) mem
  simp only [eq_ok] at computed
  obtain ⟨value, value_ok, rfl⟩ := computed
  exact value_ok

/-- With two coefficients or more the last step reduces. -/
theorem calculatePolynomial2_nonneg (pos : 0 < S.N) (long : 2 ≤ poly.length)
    (computed : calculatePolynomial2 S poly id = .ok value) : 0 ≤ value := by
  match poly, long with
  | _ :: _ :: _, _ =>
    simp only [calculatePolynomial2, horner, eq_ok] at computed
    obtain ⟨-, -, -, -, rfl⟩ := computed
    exact Int.emod_nonneg _ (by omega)

theorem horner_returns (N id : ℤ) (nonempty : poly ≠ []) :
    ∃ value, horner N id poly = .ok value := by
  induction poly with
  | nil => exact absurd rfl nonempty
  | cons c cs ih =>
    cases cs with
    | nil => exact ⟨c, rfl⟩
    | cons c' cs =>
      obtain ⟨higher, higher_ok⟩ := ih (by simp)
      refine ⟨(higher * id + c) % N, ?_⟩
      simp only [horner, eq_ok]
      exact ⟨higher, higher_ok, rfl⟩

/-- `Vss2` deals to distinct ids that are not zero modulo the group order, in their order. -/
theorem vss2_returns {ids : List ℤ} (poly_ne : poly ≠ []) (ids_ne : ids ≠ []) (nodup : ids.Nodup)
    (nonzero : ∀ id ∈ ids, id % S.N ≠ 0) :
    ∃ shares, Vss2 S poly ids = .ok shares ∧ shares.map ShareStruct2.ID = ids := by
  have deals : ∀ id ∈ ids, ∃ share : ShareStruct2, (do
      let shareVal ← calculatePolynomial2 S poly id
      pure { ID := id, Share := shareVal : ShareStruct2 }) = .ok share ∧ share.ID = id := by
    intro id mem
    obtain ⟨value, value_ok⟩ := horner_returns S.N id poly_ne
    refine ⟨⟨id, value⟩, ?_, rfl⟩
    have id_ne : id ≠ 0 := by
      rintro rfl
      exact nonzero 0 mem (Int.zero_emod _)
    simp only [calculatePolynomial2, eq_ok]
    exact ⟨value, ⟨(), by simpa [id_ne] using nonzero id mem, value_ok⟩, rfl⟩
  obtain ⟨shares, dealt, shares_ids⟩ := mapM_returns deals
  refine ⟨shares, ?_, shares_ids⟩
  have distinct : ids.dedup = ids := dedup_eq_self.mpr nodup
  simp only [Vss2, ContainsDuplicate, eq_ok]
  refine ⟨(), by simpa using ids_ne, false, ⟨(), by simpa using ids_ne, by simp [distinct]⟩, (),
    rfl, dealt⟩

/-- The polynomial of `Vss2Init` has the secret as its first coefficient and `t` coefficients. -/
theorem vss2Init_eq_ok {secret : ℤ} {rnds : ℕ → ℤ} {t : ℕ} {polyG : List (ℤ × ℤ)}
    (made : Vss2Init S secret rnds t = .ok (poly, polyG)) :
    poly = secret :: (List.range (t - 1)).map rnds ∧ poly.length = t ∧
      List.Forall₂ (fun c p => S.ScalarBaseMult c.natAbs = some p) poly polyG := by
  simp only [Vss2Init, eq_ok, decide_eq_true_eq, Prod.mk.injEq] at made
  obtain ⟨-, large, polyG, mapped, rfl, rfl⟩ := made
  refine ⟨rfl, ?_, ?_⟩
  · rw [length_cons, length_map, length_range]
    omega
  · simpa only [mapM_eq_ok, deref_eq_ok] using mapped

/-! ## Combining -/

section

variable {S : CurveOps} [Fact S.N.Prime]

omit [Fact S.N.Prime] in
theorem N_pos (prime : S.N.Prime) : (0 : ℤ) < S.N := by exact_mod_cast prime.pos

variable {n : ℕ} {xs : Fin n → ℤ} (distinct : Function.Injective fun j => (xs j : ZMod S.N))
include distinct

theorem timesStep_eq_ok (i j : Fin n) (times : ℤ) : ∃ next, timesStep S xs i times j = .ok next ∧
    (next : ZMod S.N) = times *
      (if j ≠ i then (xs j : ZMod S.N) * ((xs j : ZMod S.N) - xs i)⁻¹ else 1) := by
  by_cases same : j = i
  · exact ⟨times, by rw [timesStep, if_pos same]; rfl, by simp [same]⟩
  have ne : ((xs j - xs i : ℤ) : ZMod S.N) ≠ 0 := by
    rw [Int.cast_sub, sub_ne_zero]
    exact fun equal => same (distinct equal)
  obtain ⟨inverse, found⟩ := modInverse_of_ne_zero ne
  refine ⟨times * (xs j * inverse) % S.N, by rw [timesStep, if_neg same, found]; rfl, ?_⟩
  rw [if_pos same]
  push_cast
  rw [modInverse_zmod found]
  push_cast
  rfl

/-- The weight loop returns the interpolation weight when the nodes are distinct modulo `N`. -/
theorem calcTimes_eq_ok (i : Fin n) : ∃ w, calcTimes S xs i = .ok w ∧
    (w : ZMod S.N) = Interpolation.weight (fun j => (xs j : ZMod S.N)) i := by
  have loop : ∀ (js : List (Fin n)) (acc : ℤ), ∃ w, js.foldlM (timesStep S xs i) acc = .ok w ∧
      (w : ZMod S.N) = acc * (js.map fun j =>
        if j ≠ i then (xs j : ZMod S.N) * ((xs j : ZMod S.N) - xs i)⁻¹ else 1).prod := by
    intro js
    induction js with
    | nil => intro acc; exact ⟨acc, rfl, by simp⟩
    | cons j js ih =>
      intro acc
      obtain ⟨next, next_ok, next_eq⟩ := timesStep_eq_ok distinct i j acc
      obtain ⟨w, w_ok, w_eq⟩ := ih next
      refine ⟨w, by rw [foldlM_cons, next_ok]; exact w_ok, ?_⟩
      rw [w_eq, next_eq, map_cons, prod_cons, mul_assoc]
  obtain ⟨w, w_ok, w_eq⟩ := loop (List.finRange n) 1
  exact ⟨w, w_ok, by rw [w_eq, Interpolation.weight_eq_prod, Int.cast_one, one_mul]⟩

omit distinct in
/-- **`Combine2` returns the value at zero** of a polynomial through the shares. -/
theorem combine2_eq_ok {shares : Fin n → ShareStruct2} (nonempty : n ≠ 0)
    (distinct : Function.Injective fun j => ((shares j).ID : ZMod S.N)) {f : (ZMod S.N)[X]}
    (degree : f.degree < n)
    (on_f : ∀ j, ((shares j).Share : ZMod S.N) = f.eval ((shares j).ID : ZMod S.N)) :
    ∃ secret, Combine2 S shares = .ok secret ∧ 0 ≤ secret ∧ secret < S.N ∧
      (secret : ZMod S.N) = f.eval 0 := by
  have loop : ∀ (js : List (Fin n)) (acc : ℤ), 0 ≤ acc → acc < S.N →
      ∃ v, js.foldlM (combineStep S shares) acc = .ok v ∧ 0 ≤ v ∧ v < S.N ∧
        (v : ZMod S.N) = acc + (js.map fun j => ((shares j).Share : ZMod S.N) *
          Interpolation.weight (fun j => ((shares j).ID : ZMod S.N)) j).sum := by
    intro js
    induction js with
    | nil => intro acc nonneg small; exact ⟨acc, rfl, nonneg, small, by simp⟩
    | cons j js ih =>
      intro acc _ _
      obtain ⟨times, times_ok, times_eq⟩ := calcTimes_eq_ok distinct j
      obtain ⟨v, v_ok, nonneg, small, v_eq⟩ := ih ((acc + (shares j).Share * times) % S.N)
        (Int.emod_nonneg _ (N_pos Fact.out).ne') (Int.emod_lt_of_pos _ (N_pos Fact.out))
      refine ⟨v, ?_, nonneg, small, ?_⟩
      · rw [foldlM_cons, combineStep, times_ok]
        exact v_ok
      · rw [v_eq, ZMod.intCast_mod, map_cons, sum_cons]
        push_cast
        rw [times_eq]
        ring
  obtain ⟨v, v_ok, nonneg, small, v_eq⟩ := loop (List.finRange n) 0 le_rfl (N_pos Fact.out)
  refine ⟨v, ?_, nonneg, small, ?_⟩
  · rw [Combine2, require, if_pos (by simpa using nonempty)]
    exact v_ok
  · rw [v_eq, Int.cast_zero, zero_add, ← Fin.sum_univ_def,
      Interpolation.eval_zero_eq_sum distinct degree]
    simp only [on_f]

end

/-! ## Verifying -/

section

variable {S : CurveOps} {E : Type} [AddCommGroup E] [Module (ZMod S.N) E] (C : S.Model E)

/-- The polynomial with the given points as coefficients, at `id`. -/
def pointPoly (id : ZMod S.N) : List E → E
  | [] => 0
  | p :: ps => p + id • pointPoly id ps

theorem pointPoly_smul_g (id : ZMod S.N) (coefficients : List ℤ) :
    pointPoly id (coefficients.map fun c : ℤ => (c : ZMod S.N) • C.g) =
      (polyOf S.N coefficients).eval id • C.g := by
  induction coefficients with
  | nil => simp [pointPoly, polyOf]
  | cons c cs ih =>
    simp only [map_cons, pointPoly, ih, polyOf, eval_add, eval_C, eval_mul, eval_X]
    module

/-- What `Verify2` adds to the first commitment, from the factor of the second on. -/
def pointTerms (x : ZMod S.N) : ZMod S.N → List E → List E
  | _, [] => []
  | power, p :: ps => power • p :: pointTerms x (power * x) ps

theorem sum_pointTerms (x power : ZMod S.N) (ps : List E) :
    (pointTerms x power ps).sum = power • pointPoly x ps := by
  induction ps generalizing power with
  | nil => simp [pointTerms, pointPoly]
  | cons p ps ih =>
    rw [pointTerms, sum_cons, ih, pointPoly]
    module

/-- The loop of `Verify2` from a reduced factor on has a result exactly if the terms are apart. -/
theorem verifyPoint_eq_ok_iff {id : ℤ} (id_ne : (id : ZMod S.N) ≠ 0) (ps : List E)
    (nonzero : ∀ p ∈ ps, p ≠ 0) {idVal : ℤ} (idVal_ne : (idVal : ZMod S.N) ≠ 0) {acc : E}
    (acc_ne : acc ≠ 0) {r : ℤ × ℤ} :
    verifyPoint S id (idVal % S.N) (C.xy acc) (ps.map C.xy) = .ok r ↔
      CurveOps.AddsApart acc (pointTerms (id : ZMod S.N) idVal ps) ∧
        r = C.xy (acc + (pointTerms (id : ZMod S.N) idVal ps).sum) := by
  have := Fact.mk C.prime
  induction ps generalizing idVal acc with
  | nil =>
    simp only [map_nil, verifyPoint, pure_eq_ok, pointTerms, CurveOps.AddsApart, true_and,
      sum_nil, add_zero]
    exact eq_comm
  | cons p ps ih =>
    have p_ne : p ≠ 0 := nonzero p (by simp)
    have term_ne : (idVal : ZMod S.N) • p ≠ 0 := smul_ne_zero idVal_ne p_ne
    have next : idVal % S.N * id % S.N = idVal * id % S.N := by simp [Int.mul_emod]
    have next_ne : ((idVal * id : ℤ) : ZMod S.N) ≠ 0 := by
      rw [Int.cast_mul]
      exact mul_ne_zero idVal_ne id_ne
    simp only [map_cons, verifyPoint, eq_ok, C.mul_emod p_ne idVal_ne, Option.some.injEq,
      exists_eq_left', C.add_eq_some_iff acc_ne term_ne, next, pointTerms, CurveOps.AddsApart]
    have later_nonzero : ∀ q ∈ ps, q ≠ 0 := fun q mem => nonzero q (mem_cons_of_mem _ mem)
    have later := @ih later_nonzero (idVal * id) next_ne
    rw [Int.cast_mul] at later
    rw [sum_cons, ← add_assoc]
    constructor
    · rintro ⟨_, ⟨unequal, unopposed, rfl⟩, rest⟩
      have sum_ne := fun zero => unopposed (eq_neg_of_add_eq_zero_left zero)
      obtain ⟨apart, rfl⟩ := (later sum_ne).mp rest
      exact ⟨⟨unequal, unopposed, apart⟩, rfl⟩
    · rintro ⟨⟨unequal, unopposed, apart⟩, rfl⟩
      have sum_ne := fun zero => unopposed (eq_neg_of_add_eq_zero_left zero)
      exact ⟨_, ⟨unequal, unopposed, rfl⟩, (later sum_ne).mpr ⟨apart, rfl⟩⟩

omit [Module (ZMod S.N) E] in
theorem addsApart_sum_ne {acc : E} (acc_ne : acc ≠ 0) {ts : List E}
    (apart : CurveOps.AddsApart acc ts) : acc + ts.sum ≠ 0 := by
  induction ts generalizing acc with
  | nil => simpa using acc_ne
  | cons t ts ih =>
    obtain ⟨-, unopposed, rest⟩ := apart
    rw [sum_cons, ← add_assoc]
    exact ih (fun zero => unopposed (eq_neg_of_add_eq_zero_left zero)) rest

/-- The terms as `Verify2` computes them: the first factor is the magnitude of the id, the later
ones are its powers. -/
def shareTerms (id : ℤ) : List E → List E
  | [] => []
  | p :: ps => ((id.natAbs : ℕ) : ZMod S.N) • p :: pointTerms (id : ZMod S.N) (id * id) ps

theorem verifyShare_eq_ok_iff (id : ℤ) {p : E} (p_ne : p ≠ 0) (ps : List E)
    (nonzero : ∀ q ∈ ps, q ≠ 0) {r : ℤ × ℤ} :
    verifyPoint S id id (C.xy p) (ps.map C.xy) = .ok r ↔
      (ps ≠ [] → 0 < id.natAbs ∧ id.natAbs < S.N) ∧
        CurveOps.AddsApart p (shareTerms (S := S) id ps) ∧
          r = C.xy (p + (shareTerms (S := S) id ps).sum) := by
  have := Fact.mk C.prime
  cases ps with
  | nil =>
    simp only [map_nil, verifyPoint, pure_eq_ok, shareTerms, CurveOps.AddsApart, true_and,
      sum_nil, add_zero, ne_eq, not_true_eq_false, false_implies]
    exact eq_comm
  | cons q ps =>
    have q_ne : q ≠ 0 := nonzero q (by simp)
    have later_nonzero : ∀ q ∈ ps, q ≠ 0 := fun q mem => nonzero q (mem_cons_of_mem _ mem)
    simp only [map_cons, verifyPoint, eq_ok, C.mul_eq_some_iff q_ne, shareTerms,
      CurveOps.AddsApart, sum_cons, ← add_assoc]
    have id_ne : 0 < id.natAbs → id.natAbs < S.N → (id : ZMod S.N) ≠ 0 := by
      intro pos small zero
      rw [ZMod.intCast_zmod_eq_zero_iff_dvd] at zero
      exact absurd (Int.natAbs_dvd_natAbs.mpr zero) (by simpa using Nat.not_dvd_of_pos_of_lt pos small)
    have later := fun (pos : 0 < id.natAbs) (small : id.natAbs < S.N) =>
      @verifyPoint_eq_ok_iff S E _ _ C id (id_ne pos small) ps later_nonzero (id * id) (by
        rw [Int.cast_mul]
        exact mul_ne_zero (id_ne pos small) (id_ne pos small))
    simp only [Int.cast_mul] at later
    constructor
    · rintro ⟨_, ⟨pos, small, rfl⟩, _, added, rest⟩
      obtain ⟨unequal, unopposed, rfl⟩ :=
        (C.add_eq_some_iff p_ne (C.smul_ne_zero q_ne pos small)).mp added
      have sum_ne := fun zero => unopposed (eq_neg_of_add_eq_zero_left zero)
      obtain ⟨apart, rfl⟩ := (later pos small sum_ne).mp rest
      exact ⟨fun _ => ⟨pos, small⟩, ⟨unequal, unopposed, apart⟩, rfl⟩
    · rintro ⟨bounds, ⟨unequal, unopposed, apart⟩, rfl⟩
      obtain ⟨pos, small⟩ := bounds (by simp)
      have sum_ne := fun zero => unopposed (eq_neg_of_add_eq_zero_left zero)
      exact ⟨_, ⟨pos, small, rfl⟩, _,
        (C.add_eq_some_iff p_ne (C.smul_ne_zero q_ne pos small)).mpr ⟨unequal, unopposed, rfl⟩,
        (later pos small sum_ne).mpr ⟨apart, rfl⟩⟩

variable {share : ShareStruct2} {polyG : List (ℤ × ℤ)}

/-- **What `Verify2` returns** on curve points: whether the magnitude of the share, times the base
point, is the sum of the terms; it has a result where no operation meets a degenerate case. -/
theorem verify2_eq_ok_iff (p : E) (ps : List E) (nonzero : ∀ q ∈ p :: ps, q ≠ 0) {answer : Bool} :
    share.Verify2 S ((p :: ps).map C.xy) = .ok answer ↔
      (0 < share.Share.natAbs ∧ share.Share.natAbs < S.N) ∧
      (ps ≠ [] → 0 < share.ID.natAbs ∧ share.ID.natAbs < S.N) ∧
      CurveOps.AddsApart p (shareTerms (S := S) share.ID ps) ∧
      (answer = true ↔
        ((share.Share.natAbs : ℕ) : ZMod S.N) • C.g = p + (shareTerms (S := S) share.ID ps).sum) := by
  have p_ne : p ≠ 0 := nonzero p (by simp)
  simp only [ShareStruct2.Verify2, map_cons, eq_ok, C.baseMult_eq_some_iff,
    verifyShare_eq_ok_iff C share.ID p_ne ps fun q mem => nonzero q (mem_cons_of_mem _ mem)]
  have same_iff : CurveOps.AddsApart p (shareTerms (S := S) share.ID ps) →
      0 < share.Share.natAbs → share.Share.natAbs < S.N →
      (C.xy (p + (shareTerms (S := S) share.ID ps).sum) =
          C.xy (((share.Share.natAbs : ℕ) : ZMod S.N) • C.g) ↔
        ((share.Share.natAbs : ℕ) : ZMod S.N) • C.g = p + (shareTerms (S := S) share.ID ps).sum) := by
    intro apart pos small
    exact ⟨fun same => (C.xy_injective (addsApart_sum_ne p_ne apart)
      (C.smul_ne_zero C.g_ne_zero pos small) same).symm, fun same => congrArg C.xy same.symm⟩
  constructor
  · rintro ⟨_, ⟨bounds, apart, rfl⟩, _, ⟨pos, small, rfl⟩, rfl⟩
    exact ⟨⟨pos, small⟩, bounds, apart, decide_eq_true_iff.trans (same_iff apart pos small)⟩
  · rintro ⟨⟨pos, small⟩, bounds, apart, right⟩
    refine ⟨_, ⟨bounds, apart, rfl⟩, _, ⟨pos, small, rfl⟩, ?_⟩
    rw [Bool.eq_iff_iff, right, decide_eq_true_iff, same_iff apart pos small]

/-- For an id that is not negative the terms are those of the polynomial. -/
theorem add_sum_shareTerms {id : ℤ} (nonneg : 0 ≤ id) (p : E) (ps : List E) :
    p + (shareTerms (S := S) id ps).sum = pointPoly (id : ZMod S.N) (p :: ps) := by
  cases ps with
  | nil => simp [shareTerms, pointPoly]
  | cons q ps =>
    rw [shareTerms, CurveOps.Model.natAbs_cast nonneg, sum_cons, sum_pointTerms, pointPoly,
      pointPoly]
    module

/-- **What `Verify2` accepts**: the absolute value of the share, times the base point, is the
polynomial of the committed points at the share's ID. -/
theorem verify2_eval (id_nonneg : 0 ≤ share.ID) (p : E) (ps : List E)
    (nonzero : ∀ q ∈ p :: ps, q ≠ 0) (verified : share.Verify2 S ((p :: ps).map C.xy) = .ok true) :
    ((share.Share.natAbs : ℕ) : ZMod S.N) • C.g = pointPoly (share.ID : ZMod S.N) (p :: ps) := by
  obtain ⟨-, -, -, accepts⟩ := (verify2_eq_ok_iff C p ps nonzero).mp verified
  rw [← add_sum_shareTerms id_nonneg]
  exact accepts.mp rfl

theorem committed_points {poly : List ℤ} (nonneg : ∀ c ∈ poly, 0 ≤ c)
    (committed : List.Forall₂ (fun c p => S.ScalarBaseMult c.natAbs = some p) poly polyG) :
    polyG = (poly.map fun c : ℤ => (c : ZMod S.N) • C.g).map C.xy ∧
      ∀ q ∈ poly.map fun c : ℤ => (c : ZMod S.N) • C.g, q ≠ 0 := by
  induction committed with
  | nil => simp
  | @cons c p cs ps based rest ih =>
    obtain ⟨rfl, later⟩ := ih fun c' mem => nonneg c' (mem_cons_of_mem _ mem)
    obtain ⟨pos, small, rfl⟩ := C.baseMult_eq_some_iff.mp based
    have cast : ((c.natAbs : ℕ) : ZMod S.N) = (c : ZMod S.N) :=
      CurveOps.Model.natAbs_cast (nonneg c (by simp))
    rw [cast]
    refine ⟨by simp, fun q mem => ?_⟩
    rcases mem_cons.mp mem with rfl | mem
    · show (c : ZMod S.N) • C.g ≠ 0
      rw [← cast]
      exact C.smul_ne_zero C.g_ne_zero pos small
    · exact later q mem

include C in
/-- `Verify2` accepts the value of the polynomial whose coefficients are committed. -/
theorem verify2_complete (id_nonneg : 0 ≤ share.ID) (share_nonneg : 0 ≤ share.Share) {poly : List ℤ}
    (coefficients_nonneg : ∀ c ∈ poly, 0 ≤ c)
    (committed : List.Forall₂ (fun c p => S.ScalarBaseMult c.natAbs = some p) poly polyG)
    (dealt : (share.Share : ZMod S.N) = (polyOf S.N poly).eval (share.ID : ZMod S.N))
    {answer : Bool} (verified : share.Verify2 S polyG = .ok answer) : answer = true := by
  obtain ⟨rfl, nonzero⟩ := committed_points C coefficients_nonneg committed
  cases poly with
  | nil => exact absurd verified (by simp [ShareStruct2.Verify2])
  | cons c cs =>
    obtain ⟨-, -, -, accepts⟩ := (verify2_eq_ok_iff C _ _ nonzero).mp verified
    rw [accepts, CurveOps.Model.natAbs_cast share_nonneg, dealt, add_sum_shareTerms id_nonneg]
    exact (pointPoly_smul_g C _ _).symm

end

end ThresholdDsa.Ec2
