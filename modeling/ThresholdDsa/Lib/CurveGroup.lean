/-
# A curve given by operations on coordinates

Code that computes on an elliptic curve sees pairs of integers and calls
`Add` and `ScalarMult`, which may return nil.  `CurveOps` is that interface.
`CurveOps.Model` says what the operations mean: the coordinates are those of
the non-zero elements of a group of prime order `N` generated by the base point,
`Add` returns nil exactly on equal or opposite points, and `ScalarMult` exactly
on a scalar that is zero or at least `N`.

The rules used by a verification of such code:

* `Model.add_eq_some_iff`, `Model.mul_eq_some_iff` read one call;
* `sumRange_eq_ok` and `Model.sumPoints_eq_ok` read the summation loop
  `p := ps[0]; p = p + ps[i]`, with or without a check of each element;
  `AddsApart` says when it has a result;
* `Model.smul_g_injective`, `Model.dlog` give discrete logarithms.

`zmodCurve` is the additive group of `ZMod N` in this dress; it has a model
(`zmodModel`), so the interface can be met, and its operations evaluate.
-/
import ThresholdDsa.Lib.Outcome

namespace ThresholdDsa

open List

/-- The operations a curve offers on affine coordinates; `none` is a nil result. -/
structure CurveOps where
  N : ℕ
  G : ℤ × ℤ
  IsOnCurve : ℤ × ℤ → Bool
  Add : ℤ × ℤ → ℤ × ℤ → Option (ℤ × ℤ)
  ScalarMult : ℤ × ℤ → ℕ → Option (ℤ × ℤ)

namespace CurveOps

/-- The cube of the group order. -/
def N3 (S : CurveOps) : ℤ := S.N * S.N * S.N

def ScalarBaseMult (S : CurveOps) (k : ℕ) : Option (ℤ × ℤ) := S.ScalarMult S.G k

/-- The summation loop: start from the first point and add the others in order. -/
def sumPoints (S : CurveOps) : List (ℤ × ℤ) → Outcome (ℤ × ℤ)
  | [] => .error .panic
  | first :: rest => rest.foldlM (fun acc point => Outcome.deref (S.Add acc point)) first

/-- The same loop where the body checks an element before it is added. -/
def sumRange (S : CurveOps) : {n : ℕ} → (Fin n → Outcome (ℤ × ℤ)) → Outcome (ℤ × ℤ)
  | 0, _ => .error .panic
  | n + 1, body => do
    let first ← body ⟨0, Nat.succ_pos n⟩
    (List.finRange n).foldlM (fun acc k => do
      let point ← body k.succ
      Outcome.deref (S.Add acc point)) first

variable {S : CurveOps}

section SumRange

theorem foldlM_body_eq_ok {ι : Type} {body : ι → Outcome (ℤ × ℤ)} (points : ι → ℤ × ℤ)
    (returns : ∀ k p, body k = .ok p → p = points k) (ks : List ι) {acc r : ℤ × ℤ}
    (looped : ks.foldlM (fun acc k => do
      let point ← body k
      Outcome.deref (S.Add acc point)) acc = .ok r) :
    (∀ k ∈ ks, body k = .ok (points k)) ∧
      (ks.map points).foldlM (fun acc point => Outcome.deref (S.Add acc point)) acc = .ok r := by
  induction ks generalizing acc with
  | nil => exact ⟨by simp, looped⟩
  | cons k ks ih =>
    simp only [foldlM_cons, Outcome.bind_eq_ok] at looped
    obtain ⟨next, ⟨point, point_ok, added⟩, rest⟩ := looped
    obtain rfl := returns k point point_ok
    obtain ⟨bodies, sum⟩ := ih rest
    refine ⟨forall_mem_cons.mpr ⟨point_ok, bodies⟩, ?_⟩
    rw [map_cons, foldlM_cons, added]
    exact sum

variable {n : ℕ} {body : Fin n → Outcome (ℤ × ℤ)} {points : Fin n → ℤ × ℤ}

/-- A checked sum that returns has passed every check, and is the sum of the points. -/
theorem sumRange_eq_ok (returns : ∀ k p, body k = .ok p → p = points k)
    {r : ℤ × ℤ} (looped : S.sumRange body = .ok r) :
    (∀ k, body k = .ok (points k)) ∧ S.sumPoints (List.ofFn points) = .ok r := by
  cases n with
  | zero => exact absurd looped (by simp [sumRange])
  | succ n =>
    simp only [sumRange, Outcome.bind_eq_ok] at looped
    obtain ⟨first, first_ok, rest⟩ := looped
    obtain rfl := returns 0 first first_ok
    obtain ⟨bodies, sum⟩ := foldlM_body_eq_ok (fun k : Fin n => points k.succ)
      (fun k p h => returns k.succ p h) (List.finRange n) rest
    refine ⟨Fin.cases first_ok fun k => bodies k (mem_finRange k), ?_⟩
    rwa [ofFn_succ, sumPoints, ofFn_eq_map]

theorem noError_sumRange (bodies : ∀ k, (body k).NoError) : (S.sumRange body).NoError := by
  cases n with
  | zero => simp [sumRange, Outcome.NoError]
  | succ n =>
    refine Outcome.noError_bind (bodies 0) fun _ _ => Outcome.noError_foldlM (fun acc k _ => ?_) _
    exact Outcome.noError_bind (bodies k.succ) fun _ _ => Outcome.noError_deref _

end SumRange

/-- Adding the elements in turn never meets two equal or opposite ones. -/
def AddsApart {G : Type} [AddGroup G] : G → List G → Prop
  | _, [] => True
  | acc, p :: ps => acc ≠ p ∧ acc ≠ -p ∧ AddsApart (acc + p) ps

instance AddsApart.instDecidable {G : Type} [AddGroup G] [DecidableEq G] :
    (acc : G) → (ps : List G) → Decidable (AddsApart acc ps)
  | _, [] => isTrue trivial
  | acc, p :: ps =>
    have := instDecidable (acc + p) ps
    inferInstanceAs (Decidable (acc ≠ p ∧ acc ≠ -p ∧ AddsApart (acc + p) ps))

/-- What the operations mean, in a group `E` of prime order `N`. -/
structure Model (S : CurveOps) (E : Type) [AddCommGroup E] [Module (ZMod S.N) E] where
  prime : S.N.Prime
  g : E
  g_ne_zero : g ≠ 0
  span : ∀ p : E, ∃ k : ZMod S.N, p = k • g
  xy : E → ℤ × ℤ
  xy_injective : ∀ {p q : E}, p ≠ 0 → q ≠ 0 → xy p = xy q → p = q
  xy_g : xy g = S.G
  isOnCurve_xy : ∀ {p : E}, p ≠ 0 → S.IsOnCurve (xy p) = true
  /-- No point has first coordinate zero. -/
  x_ne_zero : ∀ {p : E}, p ≠ 0 → (xy p).1 ≠ 0
  add_xy : ∀ {p q : E}, p ≠ 0 → q ≠ 0 →
    (p = q ∨ p = -q) ∧ S.Add (xy p) (xy q) = none ∨
      p ≠ q ∧ p ≠ -q ∧ S.Add (xy p) (xy q) = some (xy (p + q))
  mul_xy : ∀ {p : E} (k : ℕ), p ≠ 0 →
    (k = 0 ∨ S.N ≤ k) ∧ S.ScalarMult (xy p) k = none ∨
      0 < k ∧ k < S.N ∧ S.ScalarMult (xy p) k = some (xy ((k : ZMod S.N) • p))

namespace Model

variable {E : Type} [AddCommGroup E] [Module (ZMod S.N) E] (C : S.Model E) {r : ℤ × ℤ} {p : E}
  {k : ℕ}

include C in
theorem smul_eq_zero_iff {k : ZMod S.N} : k • p = 0 ↔ k = 0 ∨ p = 0 := by
  have := Fact.mk C.prime
  exact smul_eq_zero

theorem natCast_ne_zero (pos : 0 < k) (small : k < S.N) : (k : ZMod S.N) ≠ 0 := by
  rw [Ne, ZMod.natCast_eq_zero_iff]
  exact Nat.not_dvd_of_pos_of_lt pos small

include C in
theorem smul_injective (ne : p ≠ 0) {a b : ZMod S.N} (same : a • p = b • p) : a = b := by
  have diff : (a - b) • p = 0 := by rw [sub_smul, same, sub_self]
  rcases (C.smul_eq_zero_iff).mp diff with zero | zero
  · exact sub_eq_zero.mp zero
  · exact absurd zero ne

theorem smul_g_injective {a b : ZMod S.N} (same : a • C.g = b • C.g) : a = b :=
  C.smul_injective C.g_ne_zero same

/-- The discrete logarithm to the base point. -/
noncomputable def dlog (p : E) : ZMod S.N := (C.span p).choose

@[simp] theorem dlog_smul (p : E) : C.dlog p • C.g = p := (C.span p).choose_spec.symm

theorem add_eq_some_iff {q : E} (hp : p ≠ 0) (hq : q ≠ 0) :
    S.Add (C.xy p) (C.xy q) = some r ↔ p ≠ q ∧ p ≠ -q ∧ r = C.xy (p + q) := by
  rcases C.add_xy hp hq with ⟨degenerate, none⟩ | ⟨ne, ne', sum⟩
  · rw [none]
    constructor
    · simp
    · rintro ⟨ne, ne', -⟩
      exact absurd degenerate (not_or.mpr ⟨ne, ne'⟩)
  · rw [sum]
    constructor
    · intro h
      exact ⟨ne, ne', (Option.some.inj h).symm⟩
    · rintro ⟨-, -, rfl⟩
      rfl

theorem mul_eq_some_iff (hp : p ≠ 0) :
    S.ScalarMult (C.xy p) k = some r ↔
      0 < k ∧ k < S.N ∧ r = C.xy ((k : ZMod S.N) • p) := by
  rcases C.mul_xy k hp with ⟨degenerate, none⟩ | ⟨pos, small, product⟩
  · rw [none]
    constructor
    · simp
    · rintro ⟨pos, small, -⟩
      omega
  · rw [product]
    constructor
    · intro h
      exact ⟨pos, small, (Option.some.inj h).symm⟩
    · rintro ⟨-, -, rfl⟩
      rfl

theorem baseMult_eq_some_iff :
    S.ScalarBaseMult k = some r ↔ 0 < k ∧ k < S.N ∧ r = C.xy ((k : ZMod S.N) • C.g) := by
  rw [ScalarBaseMult, ← C.xy_g, C.mul_eq_some_iff C.g_ne_zero]

include C in
/-- A scalar multiple that `ScalarMult` returned is not the identity. -/
theorem smul_ne_zero (hp : p ≠ 0) (pos : 0 < k) (small : k < S.N) :
    (k : ZMod S.N) • p ≠ 0 := by
  rw [Ne, C.smul_eq_zero_iff, not_or]
  exact ⟨natCast_ne_zero pos small, hp⟩

theorem smul_g_ne_zero {k : ZMod S.N} (k_ne : k ≠ 0) : k • C.g ≠ 0 := fun zero =>
  (C.smul_eq_zero_iff.mp zero).elim k_ne C.g_ne_zero

include C in
theorem isOnCurve_of_baseMult (multiplied : S.ScalarBaseMult k = some r) :
    S.IsOnCurve r = true := by
  obtain ⟨pos, small, rfl⟩ := C.baseMult_eq_some_iff.mp multiplied
  exact C.isOnCurve_xy (C.smul_ne_zero C.g_ne_zero pos small)

theorem foldl_add_eq_ok (rest : List E) (nonzero : ∀ p ∈ rest, p ≠ 0) (acc : E) (acc_ne : acc ≠ 0)
    (sum : (rest.map C.xy).foldlM (fun a p => Outcome.deref (S.Add a p)) (C.xy acc) = .ok r) :
    r = C.xy (acc + rest.sum) ∧ acc + rest.sum ≠ 0 := by
  induction rest generalizing acc with
  | nil =>
    simp only [map_nil, foldlM_nil, Outcome.pure_eq_ok] at sum
    simpa [← sum] using acc_ne
  | cons p rest ih =>
    simp only [map_cons, foldlM_cons, Outcome.eq_ok] at sum
    obtain ⟨next, added, tail⟩ := sum
    obtain ⟨-, opposite, rfl⟩ := (C.add_eq_some_iff acc_ne (nonzero p (by simp))).mp added
    have next_ne : acc + p ≠ 0 := fun zero => opposite (eq_neg_of_add_eq_zero_left zero)
    rw [sum_cons, ← add_assoc]
    exact ih (fun q mem => nonzero q (mem_cons_of_mem _ mem)) _ next_ne tail

variable {logs : List (ZMod S.N)}

/-- Multiples of the base point are apart where the scalars are. -/
theorem addsApart_smul_g {acc : ZMod S.N} (apart : AddsApart acc logs) :
    AddsApart (acc • C.g) (logs.map (· • C.g)) := by
  induction logs generalizing acc with
  | nil => trivial
  | cons k logs ih =>
    obtain ⟨unequal, unopposed, rest⟩ := apart
    refine ⟨fun same => unequal (C.smul_g_injective same), fun same => unopposed ?_, ?_⟩
    · exact C.smul_g_injective (same.trans (neg_smul k C.g).symm)
    · rw [← add_smul]
      exact ih rest

/-- **The summation loop returns the sum**, and then the sum is not the identity. -/
theorem sumPoints_eq_ok (points : List E) (nonzero : ∀ p ∈ points, p ≠ 0)
    (sum : S.sumPoints (points.map C.xy) = .ok r) :
    r = C.xy points.sum ∧ points.sum ≠ 0 := by
  cases points with
  | nil => exact absurd sum (by simp [sumPoints])
  | cons first rest =>
    rw [sum_cons]
    exact C.foldl_add_eq_ok rest (fun q mem => nonzero q (mem_cons_of_mem _ mem)) first
      (nonzero first (by simp)) sum

/-- The summation loop over points given by their logarithms to a base `R`. -/
theorem sumPoints_smul {n : ℕ} {R : E} {points : Fin n → ℤ × ℤ} {logs : Fin n → ZMod S.N}
    (points_eq : ∀ i, points i = C.xy (logs i • R)) (nonzero : ∀ i, logs i • R ≠ 0)
    (summed : S.sumPoints (List.ofFn points) = .ok r) :
    r = C.xy ((∑ i, logs i) • R) ∧ (∑ i, logs i) • R ≠ 0 := by
  have as_map : List.ofFn points = (List.ofFn fun i => logs i • R).map C.xy := by
    rw [map_ofFn]
    exact congrArg List.ofFn (funext points_eq)
  rw [as_map] at summed
  have sum := C.sumPoints_eq_ok _ (by
    intro p mem
    obtain ⟨i, rfl⟩ := (mem_ofFn' _ _).mp mem
    exact nonzero i) summed
  rwa [sum_ofFn, ← Finset.sum_smul] at sum

theorem natAbs_cast {k : ℤ} (nonneg : 0 ≤ k) : ((k.natAbs : ℕ) : ZMod S.N) = (k : ZMod S.N) := by
  obtain ⟨m, rfl⟩ := Int.eq_ofNat_of_zero_le nonneg
  simp

/-- Multiplication by a scalar that is reduced modulo the order first. -/
theorem mul_emod (hp : p ≠ 0) {k : ℤ} (k_ne : (k : ZMod S.N) ≠ 0) :
    S.ScalarMult (C.xy p) (k % S.N).natAbs = some (C.xy ((k : ZMod S.N) • p)) := by
  have N_pos : (0 : ℤ) < S.N := Int.natCast_pos.mpr C.prime.pos
  have low := Int.emod_nonneg k N_pos.ne'
  have small := Int.emod_lt_of_pos k N_pos
  have reduced : ((k % S.N : ℤ) : ZMod S.N) = k := ZMod.intCast_mod k S.N
  have nonzero : k % S.N ≠ 0 := by
    intro zero
    rw [zero, Int.cast_zero] at reduced
    exact k_ne reduced.symm
  refine (C.mul_eq_some_iff hp).mpr ⟨by omega, by omega, ?_⟩
  rw [natAbs_cast low, reduced]

theorem baseMult_emod {k : ℤ} (k_ne : (k : ZMod S.N) ≠ 0) :
    S.ScalarBaseMult (k % S.N).natAbs = some (C.xy ((k : ZMod S.N) • C.g)) := by
  rw [ScalarBaseMult, ← C.xy_g]
  exact C.mul_emod C.g_ne_zero k_ne

/-- A scalar multiple computed by the code has its scalar as logarithm. -/
theorem log_of_scalarMult {R : E} (R_ne : R ≠ 0) {scalar : ℤ} (nonneg : 0 ≤ scalar)
    {point : ℤ × ℤ} {log : ZMod S.N} (point_eq : point = C.xy (log • R)) (nonzero : log • R ≠ 0)
    (multiplied : S.ScalarMult (C.xy R) scalar.natAbs = some point) :
    log = (scalar : ZMod S.N) := by
  obtain ⟨pos, small, product⟩ := (C.mul_eq_some_iff R_ne).mp multiplied
  rw [← natAbs_cast nonneg]
  refine C.smul_injective R_ne (C.xy_injective nonzero (C.smul_ne_zero R_ne pos small) ?_)
  rw [← point_eq, product]

end Model

end CurveOps

/-! ## The additive group of integers modulo a prime -/

/-- The elements `1, …, N - 1` of `ZMod N` as points `(k, 1)`. -/
def zmodCurve (N : ℕ) : CurveOps where
  N := N
  G := (1, 1)
  IsOnCurve p := p.2 = 1 ∧ 0 < p.1 ∧ p.1 < N
  Add p q := if p.1 = q.1 ∨ p.1 + q.1 = N then none else some ((p.1 + q.1) % N, 1)
  ScalarMult p k := if k = 0 ∨ N ≤ k then none else some (k * p.1 % N, 1)

instance (N : ℕ) : Module (ZMod (zmodCurve N).N) (ZMod N) :=
  inferInstanceAs (Module (ZMod N) (ZMod N))

section ZmodModel

variable {N : ℕ} [Fact N.Prime]

private theorem val_range {a : ZMod N} (ne : a ≠ 0) : 0 < a.val ∧ a.val < N :=
  ⟨Nat.pos_of_ne_zero ((ZMod.val_ne_zero a).mpr ne), ZMod.val_lt a⟩

private theorem val_add_eq_iff {a b : ZMod N} (ha : a ≠ 0) (hb : b ≠ 0) :
    a.val + b.val = N ↔ a = -b := by
  have := val_range ha
  have := val_range hb
  rw [eq_neg_iff_add_eq_zero, ← ZMod.val_eq_zero, ZMod.val_add]
  constructor
  · intro total
    rw [total, Nat.mod_self]
  · intro zero
    obtain ⟨c, total⟩ := Nat.dvd_of_mod_eq_zero zero
    have : c < 2 := by nlinarith
    interval_cases c <;> omega

/-- `zmodCurve N` computes in `ZMod N`. -/
def zmodModel (N : ℕ) [Fact N.Prime] : (zmodCurve N).Model (ZMod N) :=
  { prime := (Fact.out : N.Prime)
    g := 1
    g_ne_zero := one_ne_zero
    span := fun p => ⟨p, (mul_one p).symm⟩
    xy := fun a => (a.val, 1)
    xy_injective := fun {p q} _ _ same => by
      have vals : (p.val : ℤ) = q.val := congrArg Prod.fst same
      exact ZMod.val_injective N (by exact_mod_cast vals)
    xy_g := by
      have := Nat.Prime.one_lt (Fact.out : N.Prime)
      simp [zmodCurve, ZMod.val_one_eq_one_mod, Nat.mod_eq_of_lt this]
    isOnCurve_xy := fun {p} ne => by
      obtain ⟨pos, small⟩ := val_range ne
      exact decide_eq_true ⟨rfl, Int.natCast_pos.mpr pos, Int.ofNat_lt.mpr small⟩
    x_ne_zero := fun {p} ne => by
      have := val_range ne
      simp only [ne_eq, Nat.cast_eq_zero]
      omega
    add_xy := fun {p q} hp hq => by
      have equal : ((p.val : ℤ) = q.val) ↔ p = q := by
        rw [Nat.cast_inj]
        exact (ZMod.val_injective N).eq_iff
      have opposite : ((p.val : ℤ) + q.val = N) ↔ p = -q := by
        rw [← val_add_eq_iff hp hq]
        exact_mod_cast Iff.rfl
      by_cases degenerate : p = q ∨ p = -q
      · refine .inl ⟨degenerate, ?_⟩
        simp only [zmodCurve, equal, opposite, if_pos degenerate]
      · refine .inr ⟨fun h => degenerate (.inl h), fun h => degenerate (.inr h), ?_⟩
        simp only [zmodCurve, equal, opposite, if_neg degenerate, ZMod.val_add]
        norm_cast
    mul_xy := fun {p} k _ => by
      by_cases degenerate : k = 0 ∨ N ≤ k
      · refine .inl ⟨degenerate, ?_⟩
        simp only [zmodCurve, if_pos degenerate]
      · refine .inr ⟨by omega, by simpa [zmodCurve] using fun h => degenerate (.inr h), ?_⟩
        have product : (((k : ZMod N) * p).val : ℤ) = k * p.val % N := by
          rw [ZMod.val_mul, ZMod.val_natCast, Nat.mod_mul_mod]
          norm_cast
        simp only [zmodCurve, if_neg degenerate]
        exact congrArg (fun v => some (v, (1 : ℤ))) product.symm }

end ZmodModel

end ThresholdDsa
