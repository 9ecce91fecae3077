/-
# How well the masks of the signing proofs hide the secret

The four provers of a signing run publish, beside a challenge `e`, the unreduced
response `S1 = e * x + alpha` (`publishes_S1`).  A response tells `x` from `x'`
when no mask the prover can draw turns `e * x'` into it.  `exposing` is the set
of masks for which that happens; `card_unreached` counts it exactly, as the
distance `e * |x - x'|` cut off at the number of masks.

The three MtA provers use a mask below `q^3`, so `exposing` is at most one mask
in `q`.  `NewPDLwSlackProof` reduces its draw modulo `q`, and there the response
fixes the secret up to `q / e` (`pdl_confines_secret`).
-/
import ThresholdDsa.Ec2.PdlWSlack

namespace ThresholdDsa.Ec2

open Outcome Finset

/-! ## The responses -/

/-- The provers that publish an unreduced response about a secret. -/
inductive Prover where
  | mtARange
  | mtAResp
  | mtAwcResp
  | pdlwSlack
  deriving DecidableEq

namespace Prover

/-- The mask as the prover finally uses it. -/
def alpha (S : CurveOps) : Prover → ℤ → ℤ
  | .pdlwSlack, drawn => drawn % S.N
  | _, drawn => drawn

/-- All provers draw `alpha` by `GetRandomIntFromZn` from `[0, q^3)`. -/
def masks (S : CurveOps) (p : Prover) : Finset ℤ :=
  (Finset.range S.N3.toNat).image fun drawn : ℕ => p.alpha S drawn

end Prover

/-- `Publishes S H p x drawn e s1`: a run of `p` on the secret `x` that drew `drawn` for its
mask published the challenge `e` and the response `s1`. -/
inductive Publishes (S : CurveOps) (H : Hashes) : Prover → ℤ → ℤ → ℤ → ℤ → Prop
  | mtARange {d : MtARangeDraws} {c m r : ℤ} {pk : PublicKey} {nt : NtildeH1H2}
      {pf : MtARangeProof} (proved : MtARangeProofProve S H d c m r pk nt = .ok pf) :
      Publishes S H .mtARange m d.alpha (H.Sha512_256 [pf.Z, pf.U, pf.W, c, pk.N] % S.N) pf.S1
  | mtAResp {d : RespDraws} {x y r c1 c2 : ℤ} {pk : PublicKey} {nt : NtildeH1H2}
      {pf : MtARespZKProof} (proved : MtARespZKProofProve S H d x y r c1 c2 pk nt = .ok pf) :
      Publishes S H .mtAResp x d.alpha
        (H.Sha512_256 [pf.Z, pf.ZBar, pf.T, pf.V, pf.W, c1, c2, pk.N] % S.N) pf.S1
  | mtAwcResp {d : RespDraws} {x y r c1 c2 : ℤ} {pk : PublicKey} {nt : NtildeH1H2}
      {pf : MtAwcRespZKProof} {X : ℤ × ℤ}
      (proved : MtAwcRespZKProofProve S H d x y r c1 c2 pk nt = .ok pf)
      (point : S.ScalarBaseMult (x % S.N).natAbs = some X) :
      Publishes S H .mtAwcResp x d.alpha
        (H.Sha512_256 [pf.U.1, pf.U.2, X.1, X.2, pf.Z, pf.ZBar, pf.T, pf.V, pf.W, c1, c2, pk.N] %
          S.N) pf.S1
  | pdlwSlack {drawn : PDLDraws} {wit : PDLwSlackWitness} {st : PDLwSlackStatement}
      {pf : PDLwSlackProof} (proved : NewPDLwSlackProof S H drawn wit st = .ok pf) :
      Publishes S H .pdlwSlack wit.K1 drawn.alpha (pdlChallenge S H st pf.Z pf.U1 pf.U2 pf.U3) pf.S1

theorem respResponses_S1 {d : RespDraws} {e x y r : ℤ} {pk : PublicKey} {a : RespResponses}
    (answered : respResponses d e x y r pk = .ok a) : a.S1 = e * x + d.alpha := by
  simp only [respResponses, eq_ok] at answered
  obtain ⟨-, -, rfl⟩ := answered
  rfl

/-- Every prover's response is `e * x` plus the mask, over the integers. -/
theorem publishes_S1 {S : CurveOps} {H : Hashes} {p : Prover} {x drawn e s1 : ℤ}
    (published : Publishes S H p x drawn e s1) : s1 = e * x + p.alpha S drawn := by
  cases published with
  | mtARange proved =>
    simp only [MtARangeProofProve, eq_ok] at proved
    obtain ⟨-, -, -, -, -, -, -, -, rfl⟩ := proved
    rfl
  | mtAResp proved =>
    simp only [MtARespZKProofProve, eq_ok] at proved
    obtain ⟨m, -, a, answered, rfl⟩ := proved
    exact respResponses_S1 answered
  | mtAwcResp proved point =>
    simp only [MtAwcRespZKProofProve, eq_ok] at proved
    obtain ⟨u, -, X', point', m, -, a, answered, rfl⟩ := proved
    obtain rfl : X' = _ := Option.some.inj (point'.symm.trans point)
    exact respResponses_S1 answered
  | pdlwSlack proved =>
    simp only [NewPDLwSlackProof, eq_ok] at proved
    obtain ⟨-, -, -, -, -, -, -, -, -, -, rfl⟩ := proved
    rfl

/-! ## Counting the masks that tell two secrets apart -/

/-- The masks whose response on `x` is no response on `x'`. -/
def exposing (S : CurveOps) (p : Prover) (e x x' : ℤ) : Finset ℤ :=
  (p.masks S).filter fun α => ∀ α' ∈ p.masks S, e * x + α ≠ e * x' + α'

/-- At most one mask in `q` tells `x` from `x'`. -/
def Hides (S : CurveOps) (p : Prover) (e x x' : ℤ) : Prop :=
  (exposing S p e x x').card * S.N ≤ (p.masks S).card

/-- An interval shifted by `d` leaves `|d|` of its points uncovered, as long as it has as many. -/
theorem card_unreached {A : Finset ℤ} {M : ℤ} (interval : ∀ α, α ∈ A ↔ 0 ≤ α ∧ α < M)
    (nonneg : 0 ≤ M) (d : ℤ) :
    ((A.filter fun α => ∀ α' ∈ A, d + α ≠ α').card : ℤ) = min |d| M := by
  rcases le_total 0 d with up | down
  · have rest : (A.filter fun α => ∀ α' ∈ A, d + α ≠ α') = Finset.Ico (max 0 (M - d)) M := by
      ext α
      simp only [mem_filter, interval, mem_Ico]
      constructor
      · rintro ⟨⟨low, high⟩, missed⟩
        have := missed (d + α)
        omega
      · rintro ⟨low, high⟩
        exact ⟨by omega, fun α' inside => by omega⟩
    rw [rest, Int.card_Ico, abs_of_nonneg up]
    omega
  · have rest : (A.filter fun α => ∀ α' ∈ A, d + α ≠ α') = Finset.Ico 0 (min (-d) M) := by
      ext α
      simp only [mem_filter, interval, mem_Ico]
      constructor
      · rintro ⟨⟨low, high⟩, missed⟩
        have := missed (d + α)
        omega
      · rintro ⟨low, high⟩
        exact ⟨by omega, fun α' inside => by omega⟩
    rw [rest, Int.card_Ico, abs_of_nonpos down]
    omega

theorem card_interval {A : Finset ℤ} {M : ℤ} (interval : ∀ α, α ∈ A ↔ 0 ≤ α ∧ α < M)
    (nonneg : 0 ≤ M) : (A.card : ℤ) = M := by
  have whole : A = Finset.Ico 0 M := by
    ext α
    rw [interval, mem_Ico]
  rw [whole, Int.card_Ico]
  omega

/-! ## The masks of the four provers -/

section

variable {S : CurveOps} {p : Prover} {e x x' : ℤ}

theorem N3_nonneg : 0 ≤ S.N3 := by
  unfold CurveOps.N3
  positivity

/-- Without a reduction the masks are the whole range of the draw. -/
theorem mem_masks_of_ne (unreduced : p ≠ .pdlwSlack) (α : ℤ) :
    α ∈ p.masks S ↔ 0 ≤ α ∧ α < S.N3 := by
  have used : ∀ drawn : ℤ, p.alpha S drawn = drawn := by
    intro drawn
    cases p <;> first | rfl | exact absurd rfl unreduced
  simp only [Prover.masks, used, mem_image, mem_range]
  constructor
  · rintro ⟨drawn, below, rfl⟩
    omega
  · rintro ⟨low, high⟩
    exact ⟨α.toNat, by omega, by omega⟩

/-- The reduction modulo the group order leaves the masks below `q`. -/
theorem mem_masks_pdlwSlack (pos : 0 < S.N) (α : ℤ) :
    α ∈ Prover.pdlwSlack.masks S ↔ 0 ≤ α ∧ α < S.N := by
  have N_pos : (0 : ℤ) < S.N := Int.natCast_pos.mpr pos
  simp only [Prover.masks, Prover.alpha, mem_image, mem_range]
  constructor
  · rintro ⟨drawn, -, rfl⟩
    exact ⟨Int.emod_nonneg _ N_pos.ne', Int.emod_lt_of_pos _ N_pos⟩
  · rintro ⟨low, high⟩
    have N_le : (S.N : ℤ) ≤ S.N3 := by
      unfold CurveOps.N3
      nlinarith [mul_pos N_pos N_pos]
    refine ⟨α.toNat, by omega, ?_⟩
    rw [Int.toNat_of_nonneg low, Int.emod_eq_of_lt low high]

theorem card_exposing {M : ℤ} (interval : ∀ α, α ∈ p.masks S ↔ 0 ≤ α ∧ α < M) (nonneg : 0 ≤ M)
    (challenge : 0 ≤ e) : ((exposing S p e x x').card : ℤ) = min (e * |x - x'|) M := by
  have shifted : exposing S p e x x' =
      (p.masks S).filter fun α => ∀ α' ∈ p.masks S, e * (x - x') + α ≠ α' := by
    refine filter_congr fun α _ => forall₂_congr fun α' _ => not_congr ?_
    constructor <;> intro equal <;> linarith
  rw [shifted, card_unreached interval nonneg, abs_mul, abs_of_nonneg challenge]

theorem hides_iff_intCast :
    Hides S p e x x' ↔ ((exposing S p e x x').card : ℤ) * S.N ≤ ((p.masks S).card : ℤ) := by
  rw [Hides, ← Int.ofNat_le, Int.natCast_mul]

/-- One mask in `q` at most tells two secrets apart, and the PDL proof is the only one where that
fails: there it needs `e * |x - x'| ≤ 1`. -/
theorem responses_hide_iff (one_lt : 1 < S.N) (x_range : 0 ≤ x ∧ x < S.N)
    (x'_range : 0 ≤ x' ∧ x' < S.N) (e_range : 0 ≤ e ∧ e < S.N) :
    (∀ (H : Hashes) (drawn s1 : ℤ), 0 ≤ drawn → drawn < S.N3 → Publishes S H p x drawn e s1 →
      ∃ α ∈ p.masks S, s1 = e * x + α) ∧
    (Hides S p e x x' ↔ p ≠ .pdlwSlack ∨ e * |x - x'| ≤ 1) := by
  constructor
  · intro H drawn s1 low high published
    refine ⟨p.alpha S drawn, mem_image.mpr ⟨drawn.toNat, ?_, ?_⟩, publishes_S1 published⟩
    · rw [mem_range]
      omega
    · rw [Int.toNat_of_nonneg low]
  · by_cases reduced : p = .pdlwSlack
    · subst reduced
      have interval := mem_masks_pdlwSlack (S := S) (by omega)
      rw [hides_iff_intCast, card_exposing interval (by omega) e_range.1,
        card_interval interval (by omega)]
      constructor
      · intro few
        -- a minimum above one would already count twice `q` masks
        by_contra far
        have two_le : 2 ≤ min (e * |x - x'|) (S.N : ℤ) := by omega
        nlinarith
      · rintro (unreduced | near)
        · exact absurd rfl unreduced
        · have : min (e * |x - x'|) (S.N : ℤ) ≤ 1 := by omega
          nlinarith
    · have interval := mem_masks_of_ne (S := S) reduced
      rw [hides_iff_intCast, card_exposing interval N3_nonneg e_range.1, card_interval interval N3_nonneg]
      have gap : |x - x'| ≤ S.N := by
        rw [abs_le]
        omega
      have distance_le : e * |x - x'| ≤ S.N * S.N :=
        mul_le_mul e_range.2.le gap (abs_nonneg _) (by omega)
      have few : min (e * |x - x'|) S.N3 * S.N ≤ S.N3 :=
        calc min (e * |x - x'|) S.N3 * S.N ≤ S.N * S.N * S.N :=
              mul_le_mul_of_nonneg_right ((min_le_left _ _).trans distance_le) (by omega)
          _ = S.N3 := rfl
      exact ⟨fun _ => Or.inl reduced, fun _ => few⟩

/-- A peer that reads the challenge and the response of a PDL proof knows the nonce share up to
`(q - 1) / e` candidates below `s1 / e`. -/
theorem pdl_confines_secret {H : Hashes} {drawn s1 : ℤ} (pos : 0 < S.N) (challenge : 0 < e)
    (published : Publishes S H .pdlwSlack x drawn e s1) :
    x ≤ s1 / e ∧ s1 / e ≤ x + (S.N - 1) / e := by
  have N_pos : (0 : ℤ) < S.N := Int.natCast_pos.mpr pos
  have low := Int.emod_nonneg drawn N_pos.ne'
  have high := Int.emod_lt_of_pos drawn N_pos
  rw [publishes_S1 published, Prover.alpha, Int.mul_add_ediv_left _ _ challenge.ne']
  have mask_nonneg : 0 ≤ drawn % S.N / e := Int.ediv_nonneg low challenge.le
  have mask_le : drawn % S.N / e ≤ (S.N - 1) / e := Int.ediv_le_ediv challenge (by omega)
  omega

end

/-! ## The order of secp256k1 -/

def secp256k1Order : ℕ :=
  0xFFFFFFFFFFFFFFFFFFFFFFFFFFFFFFFEBAAEDCE6AF48A03BBFD25E8CD0364141

theorem responses_hide_iff_secp256k1 :
    Hides (zmodCurve secp256k1Order) .mtARange 2 0 1 ∧
      ¬ Hides (zmodCurve secp256k1Order) .pdlwSlack 2 0 1 := by
  have range : (0 : ℤ) ≤ 2 ∧ (2 : ℤ) < (zmodCurve secp256k1Order).N := by decide
  have zero_range : (0 : ℤ) ≤ 0 ∧ (0 : ℤ) < (zmodCurve secp256k1Order).N := by decide
  have one_range : (0 : ℤ) ≤ 1 ∧ (1 : ℤ) < (zmodCurve secp256k1Order).N := by decide
  constructor
  · exact (responses_hide_iff (by decide) zero_range one_range range).2.mpr (Or.inl (by decide))
  · rw [(responses_hide_iff (by decide) zero_range one_range range).2]
    decide

/-- With the order of secp256k1 and the challenge 2, two PDL masks tell the secrets 0 and 1
apart. -/
theorem pdl_mask_exposes :
    ¬ ∀ (p : Prover) (e x x' : ℤ), (0 ≤ x ∧ x < secp256k1Order) → (0 ≤ x' ∧ x' < secp256k1Order) →
      (0 ≤ e ∧ e < secp256k1Order) → Hides (zmodCurve secp256k1Order) p e x x' := by
  intro hides
  have claimed := hides .pdlwSlack 2 0 1 (by decide) (by decide) (by decide)
  have interval := mem_masks_pdlwSlack (S := zmodCurve secp256k1Order) (by decide)
  have two : ((exposing (zmodCurve secp256k1Order) .pdlwSlack 2 0 1).card : ℤ) = 2 :=
    (card_exposing interval (by decide) (by decide)).trans (by decide)
  have masks : ((Prover.pdlwSlack.masks (zmodCurve secp256k1Order)).card : ℤ) = secp256k1Order :=
    card_interval interval (by decide)
  rw [hides_iff_intCast, two, masks] at claimed
  exact absurd claimed (by decide)

end ThresholdDsa.Ec2
