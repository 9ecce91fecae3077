/-
# What round 4 of key generation establishes

All parties finish round 4 on the same broadcast messages; the senders are
arbitrary.  A sender's coefficient points `U1PolyGG` determine a polynomial
(`logPoly`), and an accepted share is its value at the share's ID, up to the sign
(`accepted_share`).

Round 4 leaves four things open: that the share's ID is the receiver's id, that
the share is not negative, that there are no more coefficient points than the
threshold, and that the first of them is the point opened from the sender's
commitment, the one added into the public key.  Under the first three, the fourth
is exactly what makes the shares of a sender shares of its opened point, and the
stored shares shares of the public key (`accepted_shares_iff`).
-/
import ThresholdDsa.Ecdsa.KeygenReturns

namespace ThresholdDsa.Ecdsa.Keygen

open BigInt Outcome Ec2 Polynomial Function List

variable {n : ℕ}

variable {E : Type} [AddCommGroup E]

section Points

variable {S : CurveOps} [Module (ZMod S.N) E] (C : S.Model E)

/-- The logarithms of the coefficient points. -/
noncomputable def coefficients (ps : List E) : List ℤ := ps.map fun p => ((C.dlog p).val : ℤ)

/-- The polynomial with the logarithms of the points as coefficients. -/
noncomputable def logPoly (ps : List E) : (ZMod S.N)[X] := polyOf S.N (coefficients C ps)

theorem coefficients_smul_g (ps : List E) :
    ((coefficients C ps).map fun c : ℤ => (c : ZMod S.N) • C.g) = ps := by
  have := NeZero.of_pos C.prime.pos
  rw [coefficients, map_map]
  conv_rhs => rw [← map_id ps]
  refine map_congr_left fun p _ => ?_
  simp

theorem logPoly_degree (ps : List E) : (logPoly C ps).degree < ps.length := by
  have degree := degree_polyOf_lt S.N (coefficients C ps)
  rwa [coefficients, length_map] at degree

theorem logPoly_eval (ps : List E) (x : ZMod S.N) : (logPoly C ps).eval x • C.g = pointPoly x ps := by
  rw [logPoly, ← pointPoly_smul_g, coefficients_smul_g]

theorem logPoly_eval_zero (p : E) (ps : List E) : (logPoly C (p :: ps)).eval 0 • C.g = p := by
  rw [logPoly_eval, pointPoly, zero_smul, add_zero]

end Points

section

variable {P : Primitives} [Module (ZMod P.S.N) E] {C : P.S.Model E}

/-- An accepted share is the value of the sender's polynomial at the share's ID. -/
theorem accepted_share {msg1 : KGRound1Message} {msg2 : KGRound2Message} {msg21 : KGRound2Message1}
    {msg3 : KGRound3Message} (checked : round4Check P msg1 msg2 msg21 msg3 = .ok ())
    (id_nonneg : 0 ≤ msg2.ID) (share_nonneg : 0 ≤ msg2.Share) {ps : List E}
    (points : msg3.U1PolyGG = ps.map C.xy) (nonzero : ∀ p ∈ ps, p ≠ 0) :
    ps ≠ [] ∧ (msg2.Share : ZMod P.S.N) = (logPoly C ps).eval (msg2.ID : ZMod P.S.N) := by
  simp only [round4Check, eq_ok] at checked
  obtain ⟨verified, verify, -, rfl, -⟩ := checked
  rw [points] at verify
  cases ps with
  | nil => exact absurd verify (by simp [ShareStruct2.Verify2])
  | cons p ps =>
    have value := verify2_eval C id_nonneg p ps nonzero verify
    rw [CurveOps.Model.natAbs_cast share_nonneg, ← logPoly_eval] at value
    exact ⟨by simp, C.smul_g_injective value⟩

/-- What round 4 does not test: `msgs2 j k` is the share sender `k` sent to party `j`, and `ps k`
the points in the list `U1PolyGG` of sender `k`. -/
structure SentAsMeant (C : P.S.Model E) (uid : Fin n → ℤ) (t : ℕ)
    (msgs2 : Fin n → Fin n → KGRound2Message) (msgs3 : Fin n → KGRound3Message)
    (ps : Fin n → List E) : Prop where
  id_eq : ∀ j k, (msgs2 j k).ID = uid j
  share_nonneg : ∀ j k, 0 ≤ (msgs2 j k).Share
  points : ∀ k, (msgs3 k).U1PolyGG = (ps k).map C.xy
  nonzero : ∀ k, ∀ p ∈ ps k, p ≠ 0
  short : ∀ k, (ps k).length ≤ t

variable {uid : Fin n → ℤ} {t : ℕ} {base : Fin n → KeygenBase} {d : Fin n → Round4Draws}
  {msgs1 : Fin n → KGRound1Message} {msgs2 : Fin n → Fin n → KGRound2Message}
  {msgs21 : Fin n → KGRound2Message1} {msgs3 : Fin n → KGRound3Message} {t4 : Fin n → Temp4}
  {own : Fin n → KGRound4Message} {ps : Fin n → List E}

/-- All accepted shares of a sender are values of its polynomial. -/
theorem shares_on_logPoly
    (started : ∀ j, round4Start P (base j) (d j) msgs1 (msgs2 j) msgs21 msgs3 = .ok (t4 j, own j))
    (uid_nonneg : ∀ j, 0 ≤ uid j) (meant : SentAsMeant C uid t msgs2 msgs3 ps) (j k : Fin n) :
    ps k ≠ [] ∧
      ((msgs2 j k).Share : ZMod P.S.N) = (logPoly C (ps k)).eval (uid j : ZMod P.S.N) := by
  have checked := (round4_eq (started j)).1 k
  have id_nonneg : 0 ≤ (msgs2 j k).ID := by
    rw [meant.id_eq]
    exact uid_nonneg j
  have accepted := accepted_share checked id_nonneg (meant.share_nonneg j k) (meant.points k)
    (meant.nonzero k)
  rwa [meant.id_eq] at accepted

/-- Every stored share is the value of the sum of the senders' polynomials. -/
theorem stored_share
    (started : ∀ j, round4Start P (base j) (d j) msgs1 (msgs2 j) msgs21 msgs3 = .ok (t4 j, own j))
    (uid_nonneg : ∀ j, 0 ≤ uid j) (meant : SentAsMeant C uid t msgs2 msgs3 ps) (j : Fin n) :
    ((t4 j).SkU1 : ZMod P.S.N) = (∑ k, logPoly C (ps k)).eval (uid j : ZMod P.S.N) := by
  obtain ⟨-, -, -, SkU1_eq, -⟩ := round4_eq (started j)
  rw [SkU1_eq, ZMod.intCast_mod, sum_ofFn, Int.cast_sum, Polynomial.eval_finsetSum]
  exact Finset.sum_congr rfl fun k _ => (shares_on_logPoly started uid_nonneg meant j k).2

/-- **When accepted shares are shares of the opened points.**  All parties finished round 4 on the
same broadcast messages.  With IDs, signs and lengths as meant, the shares of sender `k` lie on a
polynomial of degree below `t` with its opened point as constant term exactly if `U1PolyGG` starts
with that point; if this holds for all senders, any `t` stored shares combine to the logarithm of
the public key. -/
theorem accepted_shares_iff
    (started : ∀ j, round4Start P (base j) (d j) msgs1 (msgs2 j) msgs21 msgs3 = .ok (t4 j, own j))
    (uid_nonneg : ∀ j, 0 ≤ uid j)
    (distinct : Injective fun j => (uid j : ZMod P.S.N)) (t_pos : 0 < t) (t_le : t ≤ n)
    (meant : SentAsMeant C uid t msgs2 msgs3 ps) {opened : Fin n → ℤ × ℤ}
    (opens : ∀ k, round4Open P (msgs1 k) (msgs3 k) = .ok (opened k)) :
    (∀ k, (∃ f : (ZMod P.S.N)[X], f.degree < t ∧
        (∀ j, ((msgs2 j k).Share : ZMod P.S.N) = f.eval (uid j : ZMod P.S.N)) ∧
        C.xy (f.eval 0 • C.g) = opened k) ↔ (msgs3 k).U1PolyGG.head? = some (opened k)) ∧
    ((∀ k, (msgs3 k).U1PolyGG.head? = some (opened k)) →
      ∀ (m : ℕ) (chosen : Fin m → Fin n), Injective chosen → t ≤ m →
        ∃ s : ℤ, Combine2 P.S (fun a => { ID := uid (chosen a), Share := (t4 (chosen a)).SkU1 }) =
          .ok s ∧ ∀ j, (t4 j).Pk = C.xy ((s : ZMod P.S.N) • C.g)) := by
  have := Fact.mk C.prime
  have on_poly := fun j k => shares_on_logPoly started uid_nonneg meant j k
  have first : Fin n := ⟨0, by omega⟩
  have head_eq : ∀ k, (msgs3 k).U1PolyGG.head? =
      some (C.xy ((logPoly C (ps k)).eval 0 • C.g)) := by
    intro k
    rw [meant.points k]
    obtain ⟨p, rest, list_eq⟩ := exists_cons_of_ne_nil (on_poly first k).1
    rw [list_eq, logPoly_eval_zero, map_cons, head?_cons]
  have degree : ∀ k, (logPoly C (ps k)).degree < t := fun k =>
    (logPoly_degree C (ps k)).trans_le (by exact_mod_cast meant.short k)
  constructor
  · intro k
    rw [head_eq, Option.some.injEq]
    constructor
    · rintro ⟨f, f_degree, f_shares, f_zero⟩
      have wide : (t : WithBot ℕ) ≤ (Finset.univ : Finset (Fin n)).card := by
        rw [Finset.card_univ, Fintype.card_fin]
        exact_mod_cast t_le
      have same : f = logPoly C (ps k) :=
        Polynomial.eq_of_degrees_lt_of_eval_index_eq Finset.univ (distinct.injOn)
          (f_degree.trans_le wide) ((degree k).trans_le wide)
          fun j _ => (f_shares j).symm.trans (on_poly j k).2
      rw [← same, f_zero]
    · intro constant
      exact ⟨logPoly C (ps k), degree k, fun j => (on_poly j k).2, constant⟩
  · intro heads m chosen injective enough
    have opened_point : ∀ k, opened k = C.xy ((logPoly C (ps k)).eval 0 • C.g) := fun k =>
      Option.some.inj ((heads k).symm.trans (head_eq k))
    have opened_ne : ∀ k, (logPoly C (ps k)).eval 0 • C.g ≠ 0 := by
      intro k
      obtain ⟨p, rest, list_eq⟩ := exists_cons_of_ne_nil (on_poly first k).1
      rw [list_eq, logPoly_eval_zero]
      exact meant.nonzero k p (by simp [list_eq])
    have sum_degree : (∑ k, logPoly C (ps k)).degree < m := by
      refine (Polynomial.degree_sum_le _ _).trans_lt ?_
      rw [Finset.sup_lt_iff (WithBot.bot_lt_coe _)]
      exact fun k _ => (degree k).trans_le (by exact_mod_cast enough)
    let shares : Fin m → ShareStruct2 := fun a =>
      { ID := uid (chosen a), Share := (t4 (chosen a)).SkU1 }
    have distinct_ids : Injective fun a => ((shares a).ID : ZMod P.S.N) :=
      distinct.comp injective
    have on_sum : ∀ a, ((shares a).Share : ZMod P.S.N) =
        (∑ k, logPoly C (ps k)).eval ((shares a).ID : ZMod P.S.N) := fun a =>
      stored_share started uid_nonneg meant (chosen a)
    obtain ⟨s, combined, -, -, value⟩ :=
      combine2_eq_ok (by omega : m ≠ 0) distinct_ids sum_degree on_sum
    refine ⟨s, combined, fun j => ?_⟩
    obtain ⟨-, summed, -⟩ := round4_eq (started j)
    obtain ⟨-, sum⟩ := CurveOps.sumRange_eq_ok
      (fun k p body => Except.ok.inj (body.symm.trans (opens k))) summed
    obtain ⟨Pk_eq, -⟩ := C.sumPoints_smul opened_point opened_ne sum
    rw [Pk_eq, value, Polynomial.eval_finsetSum]

end

/-! ## Two senders

The shares are those of `5 + 2X` and `3 + 9X`; the second sender opens `u • g`. -/

def smallMsg1 (_ : Fin 2) : KGRound1Message where
  ComC := 7
  ComCBip32 := 7
  U1PaillierPk := ⟨35, 36, 1225⟩

def smallMsg2 (j k : Fin 2) : KGRound2Message where
  ID := j.val + 1
  Share := if k.val = 0 then 5 + 2 * (j.val + 1) else (3 + 9 * (j.val + 1)) % 13

def smallMsg21 (_ : Fin 2) : KGRound2Message1 where
  C1 := 4

def smallMsg3 (u : ℤ) (k : Fin 2) : KGRound3Message where
  ComU1GD := [1, if k.val = 0 then 5 else u, 1]
  ComC1GD := [1, 4, 1]
  U1PolyGG := if k.val = 0 then [(5, 1), (2, 1)] else [(3, 1), (9, 1)]

def smallRound4 (u : ℤ) (j : Fin 2) : Outcome (Temp4 × KGRound4Message) :=
  round4Start smallPrimitives (smallBase j) (smallDraws j).r4 smallMsg1 (smallMsg2 j) smallMsg21
    (smallMsg3 u)

theorem accepted_shares_two_parties :
    ∃ (t4 : Fin 2 → Temp4) (own : Fin 2 → KGRound4Message),
      (∀ j, smallRound4 3 j = .ok (t4 j, own j)) ∧
      ∃ s : ℤ, Combine2 smallPrimitives.S (fun a : Fin 2 =>
        { ID := (a.val : ℤ) + 1, Share := (t4 a).SkU1 }) = .ok s ∧
        ∀ j, (t4 j).Pk = (zmodModel 13).xy ((s : ZMod 13) • (zmodModel 13).g) := by
  have returns : ∀ j, (smallRound4 3 j).isOk = true := by decide +kernel
  have started : ∀ j, ∃ t4 own, smallRound4 3 j = .ok (t4, own) := by
    intro j
    have ok := returns j
    cases result : smallRound4 3 j with
    | error fault => rw [result] at ok; exact absurd ok Bool.false_ne_true
    | ok saved => exact ⟨saved.1, saved.2, rfl⟩
  choose t4 own started using started
  have meant : SentAsMeant (P := smallPrimitives) (zmodModel 13) (fun j : Fin 2 => (j.val : ℤ) + 1)
      2 smallMsg2 (smallMsg3 3) fun k => if k = 0 then [5, 2] else [3, 9] :=
    ⟨by decide, by decide, by decide, by decide, by decide⟩
  have opens : ∀ k, round4Open smallPrimitives (smallMsg1 k) (smallMsg3 3 k) =
      .ok (if k = 0 then (5, 1) else (3, 1)) := by
    decide +kernel
  have consequence := (accepted_shares_iff started
    (by decide) (by decide) (by decide) le_rfl meant opens).2 (by decide) 2 id injective_id le_rfl
  exact ⟨t4, own, started, consequence⟩

/-- Opening `4 • g`, the second sender passes round 4 at both parties; the stored shares combine
to 8, but the public key is `9 • g`. -/
theorem accepted_shares_miss_public_key :
    (∀ j, (smallRound4 4 j).map (fun saved => (saved.1.SkU1, saved.1.Pk)) =
      .ok (if j = 0 then 6 else 4, (9, 1))) ∧
    Combine2 smallPrimitives.S (fun a : Fin 2 =>
      { ID := (a.val : ℤ) + 1, Share := if a = 0 then 6 else 4 }) = .ok 8 ∧
    smallPrimitives.S.ScalarBaseMult 8 = some (8, 1) := by
  decide +kernel

end ThresholdDsa.Ecdsa.Keygen
