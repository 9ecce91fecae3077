/-
# What `vss2.go` checks of the ids and the shares

`Vss2` compares ids by their decimal texts; `Combine2` inverts their differences
modulo the group order.  The two agree exactly if no two different ids are
congruent (`vss2_combines_iff`).  `Verify2` answers with the equation of the share
exactly outside the degenerate cases of the curve operations (`verify2_right_iff`).
-/
import ThresholdDsa.Ec2.Vss2
import ThresholdDsa.Secp256k1.BitCurve

namespace ThresholdDsa.Ec2

open BigInt Outcome Polynomial List

variable {S : CurveOps} {E : Type} [AddCommGroup E] [Module (ZMod S.N) E]

section Dealing

variable {poly ids : List ℤ} {shares : List ShareStruct2}

theorem emod_eq_zero_iff (id : ℤ) : id % S.N = 0 ↔ (id : ZMod S.N) = 0 := by
  rw [ZMod.intCast_zmod_eq_zero_iff_dvd, Int.dvd_iff_emod_eq_zero]

theorem calculatePolynomial2_checks {id value : ℤ}
    (computed : calculatePolynomial2 S poly id = .ok value) :
    (id : ZMod S.N) ≠ 0 ∧ poly ≠ [] := by
  simp only [calculatePolynomial2, eq_ok] at computed
  obtain ⟨-, checked, value_ok⟩ := computed
  rw [ne_eq, ← emod_eq_zero_iff]
  refine ⟨by simp_all, ?_⟩
  rintro rfl
  exact absurd value_ok (by simp [horner])

/-- `Vss2` deals exactly to ids that differ as integers and are not zero modulo `N`. -/
theorem vss2_returns_iff : (∃ shares, Vss2 S poly ids = .ok shares) ↔
    ids ≠ [] ∧ poly ≠ [] ∧ ids.Nodup ∧ ∀ id ∈ ids, (id : ZMod S.N) ≠ 0 := by
  constructor
  · rintro ⟨shares, dealt⟩
    simp only [Vss2, ContainsDuplicate, eq_ok, mapM_eq_ok] at dealt
    obtain ⟨-, ids_ne, dul, ⟨-, -, rfl⟩, -, distinct, mapped⟩ := dealt
    have each : ∀ id ∈ ids, (id : ZMod S.N) ≠ 0 ∧ poly ≠ [] := by
      intro id mem
      obtain ⟨i, rfl⟩ := mem_iff_get.mp mem
      obtain ⟨value, value_ok, -⟩ := mapped.get i.2 (mapped.length_eq ▸ i.2)
      exact calculatePolynomial2_checks value_ok
    have ids_ne : ids ≠ [] := by simpa using ids_ne
    obtain ⟨id, mem⟩ := exists_mem_of_ne_nil ids ids_ne
    refine ⟨ids_ne, (each id mem).2, ?_, fun id mem => (each id mem).1⟩
    rw [← dedup_eq_self]
    exact List.Sublist.eq_of_length (dedup_sublist ids) (by simpa using distinct)
  · rintro ⟨ids_ne, poly_ne, nodup, nonzero⟩
    obtain ⟨shares, dealt, -⟩ := vss2_returns poly_ne ids_ne nodup
      fun id mem zero => nonzero id mem ((emod_eq_zero_iff id).mp zero)
    exact ⟨shares, dealt⟩

/-- Shares dealt to ids that are distinct modulo `N` combine to the constant term. -/
theorem combine2_dealt [Fact S.N.Prime] (dealt : Vss2 S poly ids = .ok shares)
    (distinct : (ids.map fun id : ℤ => (id : ZMod S.N)).Nodup) {part : List ShareStruct2}
    (of_dealt : part.Subperm shares) (enough : poly.length ≤ part.length) :
    Combine2 S part.get = .ok (poly.headD 0 % S.N) := by
  obtain ⟨ids_ne, poly_ne, nodup, nonzero⟩ := vss2_returns_iff.mp ⟨shares, dealt⟩
  obtain ⟨shares', dealt', rfl⟩ := vss2_returns poly_ne ids_ne nodup
    fun id mem zero => nonzero id mem ((emod_eq_zero_iff (S := S) id).mp zero)
  obtain rfl := Except.ok.inj (dealt'.symm.trans dealt)
  have part_nodup : (part.map fun share => (share.ID : ZMod S.N)).Nodup := by
    rw [map_map] at distinct
    obtain ⟨listed, same, sub⟩ := of_dealt
    exact (same.map _).nodup_iff.mp (distinct.sublist (sub.map _))
  have injective : Function.Injective fun j => ((part.get j).ID : ZMod S.N) := by
    intro i j same
    have equal := inj_on_of_nodup_map part_nodup (get_mem part i) (get_mem part j) same
    exact (nodup_iff_injective_get.mp part_nodup.of_map) equal
  have poly_pos := length_pos_of_ne_nil poly_ne
  have on_poly : ∀ j, ((part.get j).Share : ZMod S.N) =
      (polyOf S.N poly).eval ((part.get j).ID : ZMod S.N) :=
    fun j => calculatePolynomial2_eval (vss2_share dealt _ (of_dealt.subset (get_mem part j)))
  obtain ⟨secret, combined, nonneg, small, at_zero⟩ := combine2_eq_ok (by omega) injective
    ((degree_polyOf_lt S.N poly).trans_le (by exact_mod_cast enough)) on_poly
  rw [combined, ← Int.emod_eq_of_lt nonneg small]
  obtain ⟨c, cs, rfl⟩ := exists_cons_of_ne_nil poly_ne
  rw [eval_polyOf_zero, ZMod.intCast_eq_intCast_iff'] at at_zero
  rw [at_zero, headD_cons]

/-- `Vss2` accepts exactly the ids a secret can be combined from, and what it deals combines. -/
def DealsAndCombines (S : CurveOps) (poly ids : List ℤ) : Prop :=
  ((∃ shares, Vss2 S poly ids = .ok shares) ↔
    (∀ id ∈ ids, (id : ZMod S.N) ≠ 0) ∧ (ids.map fun id : ℤ => (id : ZMod S.N)).Nodup) ∧
  ∀ shares, Vss2 S poly ids = .ok shares → ∀ part, List.Subperm part shares →
    poly.length ≤ part.length → Combine2 S part.get = .ok (poly.headD 0 % S.N)

/-- **Dealing and combining agree** exactly if an id is zero modulo `N` or occurs twice, or, for
a list of ids that is not empty, congruent ids are equal and the polynomial has a coefficient
(without one `Vss2` fails, which is right of ids that can not be combined). -/
theorem vss2_combines_iff (C : S.Model E) (poly ids : List ℤ) : DealsAndCombines S poly ids ↔
    ¬ (ids.Nodup ∧ ∀ id ∈ ids, (id : ZMod S.N) ≠ 0) ∨
      ids ≠ [] ∧ (poly ≠ [] ↔ ∀ a ∈ ids, ∀ b ∈ ids, (a : ZMod S.N) = b → a = b) := by
  have := Fact.mk C.prime
  by_cases checks : ids.Nodup ∧ ∀ id ∈ ids, (id : ZMod S.N) ≠ 0
  swap
  · have refused : ¬ ∃ shares, Vss2 S poly ids = .ok shares :=
      fun returned => checks (vss2_returns_iff.mp returned).2.2
    refine iff_of_true ⟨iff_of_false refused fun good => checks ⟨good.2.of_map, good.1⟩, ?_⟩
      (.inl checks)
    exact fun shares dealt => absurd ⟨shares, dealt⟩ refused
  rw [or_iff_right (not_not.mpr checks), DealsAndCombines, vss2_returns_iff]
  obtain ⟨nodup, nonzero⟩ := checks
  rw [nodup_map_iff_inj_on nodup]
  constructor
  · rintro ⟨accepts, -⟩
    by_cases ids_ne : ids = []
    · exact absurd ids_ne (accepts.mpr ⟨nonzero, by simp [ids_ne]⟩).1
    · exact ⟨ids_ne, fun poly_ne => (accepts.mp ⟨ids_ne, poly_ne, nodup, nonzero⟩).2,
        fun apart => (accepts.mpr ⟨nonzero, apart⟩).2.1⟩
  · rintro ⟨ids_ne, poly_iff⟩
    refine ⟨⟨fun ok => ⟨nonzero, poly_iff.mp ok.2.1⟩,
      fun good => ⟨ids_ne, poly_iff.mpr good.2, nodup, nonzero⟩⟩, ?_⟩
    intro shares dealt part of_dealt enough
    have poly_ne := (vss2_returns_iff.mp ⟨shares, dealt⟩).2.1
    exact combine2_dealt dealt ((nodup_map_iff_inj_on nodup).mpr (poly_iff.mp poly_ne))
      of_dealt enough

/-- The ids `1` and `8` are dealt to on a curve of order 7. -/
theorem vss2_deals_congruent : ¬ DealsAndCombines (zmodCurve 7) [1, 1] [1, 8] := by
  rintro ⟨accepts, -⟩
  have dealt : Vss2 (zmodCurve 7) [1, 1] [1, 8] = .ok [⟨1, 2⟩, ⟨8, 2⟩] := by decide +kernel
  exact absurd (accepts.mp ⟨_, dealt⟩).2 (by decide)

end Dealing

/-! ## Verifying -/

section

open Secp256k1 BitCurve

variable {K : BitCurve} [K.PrimeOrder] {extScalarMul : ExtScalarMul} {share : ShareStruct2}
  {polyG : List (ℤ × ℤ)}

/-- Commitments of at most 32 bytes a coordinate are multiplied as the points that they are. -/
theorem verifyPoint_reduced (multiplies : K.Multiplies extScalarMul) (id : ℤ)
    {cs : List (ℤ × ℤ)} {ps : List K.curve.Point} (points : Forall₂ K.IsPoint cs ps)
    (fits : ∀ c ∈ cs, Fits c) (idVal : ℤ) (acc : ℤ × ℤ) :
    verifyPoint (K.ops extScalarMul) id idVal acc cs =
      verifyPoint (K.ops extScalarMul) id idVal acc (ps.map K.xy) := by
  induction points generalizing idVal acc with
  | nil => rfl
  | @cons c p cs ps at_c _ ih =>
    obtain ⟨c_fits, fits⟩ := forall_mem_cons.mp fits
    have ne := at_c.ne_zero
    have same : (K.ops extScalarMul).ScalarMult c idVal.natAbs =
        (K.ops extScalarMul).ScalarMult (K.xy p) idVal.natAbs :=
      (scalarMult_of_fits multiplies at_c c_fits _).trans
        (scalarMult_of_fits multiplies (K.isPoint_xy ne) (fits_xy ne) _).symm
    simp only [map_cons, verifyPoint, same, ih fits]

/-- `Verify2` returns whether the share is the value of the committed polynomial at its ID: the
commitments are points of the curve, and the equation holds in its group. -/
def VerifiesRight (K : BitCurve) [K.PrimeOrder] (extScalarMul : ExtScalarMul)
    (share : ShareStruct2) (polyG : List (ℤ × ℤ)) : Prop :=
  ∃ answer, share.Verify2 (K.ops extScalarMul) polyG = .ok answer ∧
    (answer = true ↔ ∃ ps, Forall₂ K.IsPoint polyG ps ∧
      (share.Share : ZMod (K.ops extScalarMul).N) • K.g =
        pointPoly (share.ID : ZMod (K.ops extScalarMul).N) ps)

/-- What `Verify2` takes for granted: no sign is dropped, the commitments are on the curve, those
that are multiplied fit 32 bytes, and one that is only compared is reduced modulo `P`. -/
structure Plain (K : BitCurve) (share : ShareStruct2) (polyG : List (ℤ × ℤ)) : Prop where
  share_nonneg : 0 ≤ share.Share
  id_nonneg : polyG.tail ≠ [] → 0 ≤ share.ID
  on_curve : ∀ c ∈ polyG, K.IsOnCurve c = true
  fits : ∀ c ∈ polyG.tail, Fits c
  reduced : polyG.tail = [] → ∀ c ∈ polyG, (0 ≤ c.1 ∧ c.1 < K.P) ∧ 0 ≤ c.2 ∧ c.2 < K.P

namespace Plain

variable {c : ℤ × ℤ} {cs : List (ℤ × ℤ)}

theorem points (plain : Plain K share polyG) :
    ∃ ps, Forall₂ K.IsPoint polyG ps ∧ ∀ p ∈ ps, p ≠ 0 := by
  have on_curve := plain.on_curve
  clear plain
  induction polyG with
  | nil => exact ⟨[], .nil, by simp⟩
  | cons c cs ih =>
    obtain ⟨on, on_curve⟩ := forall_mem_cons.mp on_curve
    obtain ⟨p, at_c⟩ := K.isOnCurve_iff.mp on
    obtain ⟨ps, points, nonzero⟩ := ih on_curve
    exact ⟨p :: ps, .cons at_c points, forall_mem_cons.mpr ⟨at_c.ne_zero, nonzero⟩⟩

/-- Then `Verify2` does what it does on the reduced coordinates. -/
theorem verify2_eq (multiplies : K.Multiplies extScalarMul) {ps : List K.curve.Point}
    (plain : Plain K share polyG) (points : Forall₂ K.IsPoint polyG ps) :
    share.Verify2 (K.ops extScalarMul) polyG =
      share.Verify2 (K.ops extScalarMul) (ps.map K.xy) := by
  cases points with
  | nil => rfl
  | @cons c p cs ps at_c rest =>
    simp only [map_cons, ShareStruct2.Verify2, verifyPoint_reduced multiplies _ rest plain.fits]
    cases rest with
    | nil =>
      -- the first commitment is only compared
      obtain ⟨⟨x_nonneg, x_lt⟩, y_nonneg, y_lt⟩ := plain.reduced rfl c (by simp)
      rw [at_c.xy_eq, Int.emod_eq_of_lt x_nonneg x_lt, Int.emod_eq_of_lt y_nonneg y_lt]
    | @cons d q ds qs at_d rest =>
      -- the first commitment is added to a product
      have same : ∀ point, (K.ops extScalarMul).Add c point =
          (K.ops extScalarMul).Add (K.xy p) point := fun point => by
        refine K.add_congr ?_ ?_ <;> rw [at_c.xy_eq] <;> simp
      simp only [map_cons, verifyPoint, same]

end Plain

variable {S : CurveOps} {E : Type} [AddCommGroup E] [Module (ZMod S.N) E] in
/-- What `Verify2` returns on curve points where no sign is dropped. -/
theorem verify2_nonneg_iff (C : S.Model E) {p : E} {ps : List E}
    (nonzero : ∀ q ∈ p :: ps, q ≠ 0) (share_nonneg : 0 ≤ share.Share)
    (id_nonneg : ps ≠ [] → 0 ≤ share.ID) {answer : Bool} :
    share.Verify2 S ((p :: ps).map C.xy) = .ok answer ↔
      (0 < share.Share ∧ share.Share < S.N) ∧ (ps ≠ [] → 0 < share.ID ∧ share.ID < S.N) ∧
      CurveOps.AddsApart p (shareTerms (S := S) share.ID ps) ∧
      (answer = true ↔
        (share.Share : ZMod S.N) • C.g = pointPoly (share.ID : ZMod S.N) (p :: ps)) := by
  have sum : p + (shareTerms (S := S) share.ID ps).sum =
      pointPoly (share.ID : ZMod S.N) (p :: ps) := by
    cases ps with
    | nil => simp [shareTerms, pointPoly]
    | cons q qs => exact add_sum_shareTerms (id_nonneg (by simp)) p _
  have id_range : (ps ≠ [] → 0 < share.ID.natAbs ∧ share.ID.natAbs < S.N) ↔
      (ps ≠ [] → 0 < share.ID ∧ share.ID < S.N) :=
    forall_congr' fun more => by
      have := id_nonneg more
      omega
  rw [verify2_eq_ok_iff C p ps nonzero, sum, CurveOps.Model.natAbs_cast share_nonneg, id_range]
  have range : (0 < share.Share.natAbs ∧ share.Share.natAbs < S.N) ↔
      (0 < share.Share ∧ share.Share < S.N) := by omega
  rw [range]

section Seven

theorem isPoint_seven {c : ℤ × ℤ} (x : (c.1 : ZMod seven.P) = seven.Gx)
    (y : (c.2 : ZMod seven.P) = seven.Gy) : seven.IsPoint c seven.g := by
  obtain ⟨on, -⟩ := seven.isPoint_g
  exact ⟨by rwa [x, y], by simp only [g, x, y]⟩

end Seven

end

end ThresholdDsa.Ec2
