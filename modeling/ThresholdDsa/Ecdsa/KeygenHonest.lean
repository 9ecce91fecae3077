/-
# An honest run of key generation

`runKeygen` lets all parties run rounds 1 to 7 with every message delivered as it
was sent; party `i` is the one with index `i`, so the share it deals for the id
at position `j` reaches party `j`.

What the rounds stored determines the result: the opened commitment of a dealer
is its point `u1 G` (`opened_point`), the share for party `j` is the dealer's
polynomial at the id of `j` (`dealt_share`), so round 4 stores shares of the sum
of the polynomials and the point of its value at zero (`saved_shares`).
-/
import ThresholdDsa.Ecdsa.KeygenRounds

namespace ThresholdDsa.Ecdsa.Keygen

open BigInt Outcome Ec2 GoText Polynomial

variable {n : ℕ}

/-! ## The run -/

structure PartyDraws where
  r1 : Round1Draws
  num2 : ℤ
  r4 : Round4Draws
  (num5 numHv r6 : ℤ)

/-- What rounds 1 to 3 stored and sent. -/
structure Dealing (n : ℕ) where
  t1 : Fin n → Temp1
  m1 : Fin n → KGRound1Message
  saved2 : Fin n → List ℤ × ℤ
  m2 : Fin n → Fin n → KGRound2Message
  m21 : Fin n → KGRound2Message1
  m22 : Fin n → KGRound2Message2
  m3 : Fin n → KGRound3Message

structure KeygenTranscript (n : ℕ) extends Dealing n where
  t4 : Fin n → Temp4
  m4 : Fin n → KGRound4Message
  m5 : Fin n → KGRound5Message
  m51 : Fin n → KGRound5Message1
  m52 : Fin n → KGRound5Message2
  m6 : Fin n → KGRound6Message
  save : Fin n → LocalDNodeSaveData

/-- All parties run rounds 1 to 7; the messages of party `i` are in slot `i`. -/
def runKeygen (P : Primitives) (Z : ModulusProofs) (base : Fin n → KeygenBase)
    (draws : Fin n → PartyDraws) : Outcome (KeygenTranscript n) := do
  let r1 ← forRange fun i => round1Start n P (base i) (draws i).r1
  let m1 := fun k => (r1 k).2
  let r2 ← forRange fun i => round2Start P Z (base i) (draws i).num2 (r1 i).1 m1
  let m3 ← forRange fun i => round3Start Z (base i) (r1 i).1 m1 (fun k => (r2 k).2.2.2)
  let r4 ← forRange fun i => round4Start P (base i) (draws i).r4 m1 (fun k => (r2 k).2.1 i)
    (fun k => (r2 k).2.2.1) m3
  let m4 := fun k => (r4 k).2
  let r5 ← forRange fun i => round5Start Z (base i) (draws i).num5 (draws i).numHv (r4 i).1 m4
  let m6 ← forRange fun i => round6Start P Z (base i) (draws i).r6 (r4 i).1 m4
    (fun k => (r5 k).1) (fun k => (r5 k).2.1) (fun k => (r5 k).2.2)
  let save ← forRange fun i => round7Start P (base i) (r1 i).1 (r2 i).1 (r4 i).1 m1 m4
    (fun k => (r5 k).1) m6
  pure { t1 := fun i => (r1 i).1, m1, saved2 := fun i => (r2 i).1, m2 := fun i => (r2 i).2.1,
         m21 := fun i => (r2 i).2.2.1, m22 := fun i => (r2 i).2.2.2, m3,
         t4 := fun i => (r4 i).1, m4, m5 := fun i => (r5 i).1, m51 := fun i => (r5 i).2.1,
         m52 := fun i => (r5 i).2.2, m6, save }

/-- The parties, numbered by their index, and what they draw. -/
structure KeygenSetup (P : Primitives) {E : Type} [AddCommGroup E] [Module (ZMod P.S.N) E]
    (C : P.S.Model E) (base : Fin n → KeygenBase) (draws : Fin n → PartyDraws) where
  uid : Fin n → ℤ
  uid_eq : ∀ i, uidOf (base i).dnodeid = .ok (uid i)
  numbered : ∀ i, (base i).GetDNodeIDIndex n = .ok i
  round0 : ∀ i, (base i).kgRound0Messages.Perm (List.ofFn fun j => (base j).dnodeid)
  few : n < P.S.N
  t : ℕ
  two_le : 2 ≤ t
  t_le : t ≤ n
  threshold_eq : ∀ i, (base i).threshold = t
  u1_nonneg : ∀ i, 0 ≤ (draws i).r1.u1
  u1Rnds_nonneg : ∀ i j, 0 ≤ (draws i).r1.u1Rnds j

/-! ## Ids -/

variable {P : Primitives} {E : Type} [AddCommGroup E] [Module (ZMod P.S.N) E] {C : P.S.Model E}
  {base : Fin n → KeygenBase} {draws : Fin n → PartyDraws} {Z : ModulusProofs}

section

variable (setup : KeygenSetup P C base draws)

include setup

/-- The index of a party is its id less one. -/
theorem uid_succ (i : Fin n) : setup.uid i = i.val + 1 := by
  have indexed := setup.numbered i
  unfold KeygenBase.GetDNodeIDIndex at indexed
  split at indexed
  · exact absurd indexed (by simp)
  · simp only [setup.uid_eq, eq_ok, Except.ok.injEq, exists_eq_left'] at indexed
    have found := List.find?_some indexed
    exact (decide_eq_true_eq.mp found).symm

theorem uid_ne_zero (i : Fin n) : (setup.uid i : ZMod P.S.N) ≠ 0 := by
  rw [uid_succ setup]
  exact_mod_cast CurveOps.Model.natCast_ne_zero (Nat.succ_pos i) (show i.val + 1 < P.S.N from
    (Nat.succ_le_of_lt i.isLt).trans_lt setup.few)

theorem uid_distinct : Function.Injective fun i => (setup.uid i : ZMod P.S.N) := by
  intro i j same
  have := setup.few
  simp only [uid_succ setup] at same
  have same : ((i.val + 1 : ℕ) : ZMod P.S.N) = ((j.val + 1 : ℕ) : ZMod P.S.N) := by exact_mod_cast same
  rw [ZMod.natCast_eq_natCast_iff', Nat.mod_eq_of_lt (by omega), Nat.mod_eq_of_lt (by omega)] at same
  omega

/-- Every party sorts the same ids, `1, …, n`. -/
theorem getIDs_eq (i : Fin n) : (base i).GetIDs = .ok (List.ofFn setup.uid) := by
  have sorted : Monotone setup.uid := by
    intro a b before
    rw [uid_succ setup, uid_succ setup]
    omega
  exact KeygenBase.getIDs_of_perm setup.uid_eq sorted (setup.round0 i)

end

/-! ## What the rounds store and send -/

structure HonestDealing (P : Primitives) (Z : ModulusProofs) (base : Fin n → KeygenBase)
    (draws : Fin n → PartyDraws) (tr : Dealing n) : Prop where
  round1 : ∀ i, round1Start n P (base i) (draws i).r1 = .ok (tr.t1 i, tr.m1 i)
  round2 : ∀ i, round2Start P Z (base i) (draws i).num2 (tr.t1 i) tr.m1 =
    .ok (tr.saved2 i, tr.m2 i, tr.m21 i, tr.m22 i)
  round3 : ∀ i, round3Start Z (base i) (tr.t1 i) tr.m1 tr.m22 = .ok (tr.m3 i)

structure HonestKeygen (P : Primitives) (Z : ModulusProofs) (base : Fin n → KeygenBase)
    (draws : Fin n → PartyDraws) (tr : KeygenTranscript n) : Prop where
  dealing : HonestDealing P Z base draws tr.toDealing
  round4 : ∀ i, round4Start P (base i) (draws i).r4 tr.m1 (fun k => tr.m2 k i) tr.m21 tr.m3 =
    .ok (tr.t4 i, tr.m4 i)
  round7 : ∀ i, round7Start P (base i) (tr.t1 i) (tr.saved2 i) (tr.t4 i) tr.m1 tr.m4 tr.m5 tr.m6 =
    .ok (tr.save i)

theorem runKeygen_honest {tr : KeygenTranscript n}
    (run : runKeygen P Z base draws = .ok tr) : HonestKeygen P Z base draws tr := by
  simp only [runKeygen, eq_ok, forRange_eq_ok] at run
  obtain ⟨r1, h1, r2, h2, m3, h3, r4, h4, r5, h5, m6, h6, save, h7, rfl⟩ := run
  exact ⟨⟨h1, h2, h3⟩, h4, h7⟩

/-- Round 1 deals the polynomials and commits to their points. -/
theorem round1_eq {b : KeygenBase} {d : Round1Draws} {t1 : Temp1}
    {m1 : KGRound1Message} (started : round1Start n P b d = .ok (t1, m1)) :
    Vss2Init P.S d.u1 d.u1Rnds b.threshold = .ok (t1.u1Poly, t1.u1PolyG) ∧ t1.c1 = d.c1 ∧
    (∃ u1G, P.S.ScalarBaseMult d.u1.natAbs = some u1G ∧
      P.H.Commit d.rndU1G (polySecrets u1G t1.u1PolyG) = some t1.commitU1G) ∧
    (∃ c1PolyG c1G, (∃ c1Poly, Vss2Init P.S d.c1 d.c1Rnds b.threshold = .ok (c1Poly, c1PolyG)) ∧
      P.S.ScalarBaseMult d.c1.natAbs = some c1G ∧
      P.H.Commit d.rndC1G (polySecrets c1G c1PolyG) = some t1.commitC1G) ∧
    m1.ComC = t1.commitU1G.C ∧ m1.ComCBip32 = t1.commitC1G.C ∧
    GenerateKeyPair d.p d.q = some (m1.U1PaillierPk, t1.u1PaillierSk) := by
  simp only [round1Start, eq_ok, dropError_eq_ok, Prod.mk.injEq] at started
  obtain ⟨-, -, ⟨u1Poly, u1PolyG⟩, u1_dealt, ⟨c1Poly, c1PolyG⟩, c1_dealt, u1G, u1_point, c1G,
    c1_point, ⟨pk, sk⟩, keys, commitU1G, u1_committed, commitC1G, c1_committed, -, -, rfl, rfl⟩ := started
  exact ⟨u1_dealt, rfl, ⟨u1G, u1_point, u1_committed⟩,
    ⟨c1PolyG, c1G, ⟨c1Poly, c1_dealt⟩, c1_point, c1_committed⟩, rfl, rfl, keys⟩

section Dealings

variable (setup : KeygenSetup P C base draws) {tr : Dealing n}
  (run : HonestDealing P Z base draws tr)

include setup run

theorem dealt_polynomial (i : Fin n) :
    (tr.t1 i).u1Poly = (draws i).r1.u1 :: (List.range (setup.t - 1)).map (draws i).r1.u1Rnds ∧
      (tr.t1 i).u1Poly.length = setup.t := by
  have dealt := (round1_eq (run.round1 i)).1
  rw [setup.threshold_eq i] at dealt
  obtain ⟨poly_eq, length_eq, -⟩ := vss2Init_eq_ok dealt
  exact ⟨poly_eq, length_eq⟩

/-- Party `i` deals its polynomial at the id of party `j` to party `j`. -/
theorem dealt_share (i j : Fin n) : (tr.m2 i j).ID = setup.uid j ∧ 0 ≤ (tr.m2 i j).Share ∧
    ((tr.m2 i j).Share : ZMod P.S.N) =
      (polyOf P.S.N (tr.t1 i).u1Poly).eval (setup.uid j : ZMod P.S.N) := by
  have started := run.round2 i
  simp only [round2Start, eq_ok, getIDs_eq setup i, Except.ok.injEq, exists_eq_left', Prod.mk.injEq] at started
  obtain ⟨-, -, -, -, -, -, -, -, -, -, -, -, u1Shares, dealt, shares, chosen, -, rfl, -⟩ := started
  have chosen_j := forRange_eq_ok.mp chosen j
  simp only [shareFor, eq_ok] at chosen_j
  obtain ⟨id, id_eq, v, found, same⟩ := chosen_j
  rw [List.getElem?_ofFn, dif_pos j.isLt, Option.some.injEq] at id_eq
  have v_id : v.ID = setup.uid j := by
    have matched := List.find?_some found
    rw [decide_eq_true_eq] at matched
    rw [matched, ← id_eq]
  have value := vss2_share dealt v (List.mem_of_find?_eq_some found)
  have long : 2 ≤ (tr.t1 i).u1Poly.length := by
    rw [(dealt_polynomial setup run i).2]
    exact setup.two_le
  rw [← same, ← v_id]
  exact ⟨rfl, calculatePolynomial2_nonneg C.prime.pos long value, calculatePolynomial2_eval value⟩

omit setup in
theorem round3_eq (i : Fin n) : tr.m3 i =
    { ComU1GD := (tr.t1 i).commitU1G.D, ComC1GD := (tr.t1 i).commitC1G.D,
      U1PolyGG := (tr.t1 i).u1PolyG } := by
  have started := run.round3 i
  simp only [round3Start, eq_ok] at started
  obtain ⟨-, -, -, -, -, -, sent⟩ := started
  exact sent.symm

/-- The point opened from the commitment of party `k` is `u1 G`. -/
theorem opened_point (k : Fin n) {p : ℤ × ℤ} (opened : round4Open P (tr.m1 k) (tr.m3 k) = .ok p) :
    p = C.xy (((draws k).r1.u1 : ZMod P.S.N) • C.g) ∧
      ((draws k).r1.u1 : ZMod P.S.N) • C.g ≠ 0 := by
  obtain ⟨-, -, ⟨u1G, based, committed⟩, -, ComC_eq, -, -⟩ := round1_eq (run.round1 k)
  obtain ⟨pos, small, rfl⟩ := C.baseMult_eq_some_iff.mp based
  rw [CurveOps.Model.natAbs_cast (setup.u1_nonneg k)] at committed
  simp only [round4Open, ComC_eq, round3_eq run k, eq_ok] at opened
  obtain ⟨u1G, decommitted, x, hx, y, hy, rfl⟩ := opened
  obtain rfl := deCommit_commit committed decommitted
  obtain rfl : _ = x := Option.some.inj hx
  obtain rfl : _ = y := Option.some.inj hy
  refine ⟨rfl, ?_⟩
  rw [← CurveOps.Model.natAbs_cast (setup.u1_nonneg k)]
  exact C.smul_ne_zero C.g_ne_zero pos small

/-- The sum of the dealt polynomials. -/
noncomputable def sharedPoly (tr : Dealing n) : (ZMod P.S.N)[X] :=
  ∑ i, polyOf P.S.N (tr.t1 i).u1Poly

theorem sharedPoly_degree : (sharedPoly (P := P) tr).degree < setup.t := by
  refine (Polynomial.degree_sum_le _ _).trans_lt ?_
  rw [Finset.sup_lt_iff (WithBot.bot_lt_coe _)]
  intro i _
  have bound := degree_polyOf_lt P.S.N (tr.t1 i).u1Poly
  rwa [(dealt_polynomial setup run i).2] at bound

theorem sharedPoly_eval_zero :
    (sharedPoly tr).eval 0 = ((∑ i, (draws i).r1.u1 : ℤ) : ZMod P.S.N) := by
  rw [sharedPoly, Polynomial.eval_finsetSum, Int.cast_sum]
  refine Finset.sum_congr rfl fun i _ => ?_
  rw [(dealt_polynomial setup run i).1, eval_polyOf_zero]

omit setup in
theorem sent_c1 (i : Fin n) : (tr.m21 i).C1 = (draws i).r1.c1 := by
  have started := run.round2 i
  simp only [round2Start, eq_ok, Prod.mk.injEq] at started
  obtain ⟨-, -, -, -, -, -, -, -, -, -, -, -, -, -, -, -, -, -, -, -, sent, -⟩ := started
  rw [← sent]
  exact (round1_eq (run.round1 i)).2.1

end Dealings

/-! ## What round 4 stores -/

section

variable (setup : KeygenSetup P C base draws) {tr : KeygenTranscript n}
  (run : HonestKeygen P Z base draws tr)

include setup run

/-- **What round 4 stores**: the public key, the bip32 number and a share of the sum of the
polynomials. -/
theorem saved_shares (j : Fin n) :
    (tr.t4 j).Pk = C.xy (((∑ i, (draws i).r1.u1 : ℤ) : ZMod P.S.N) • C.g) ∧
    (tr.t4 j).C = (∑ i, (draws i).r1.c1) % P.S.N ∧
    ((tr.t4 j).SkU1 : ZMod P.S.N) = (sharedPoly tr.toDealing).eval (setup.uid j : ZMod P.S.N) := by
  obtain ⟨-, summed, C_eq, SkU1_eq, -⟩ := round4_eq (run.round4 j)
  refine ⟨?_, ?_, ?_⟩
  · have opened := fun k p => opened_point setup run.dealing k (p := p)
    obtain ⟨bodies, sum⟩ := CurveOps.sumRange_eq_ok (fun k p h => (opened k p h).1) summed
    obtain ⟨Pk_eq, -⟩ := C.sumPoints_smul (fun _ => rfl) (fun k => (opened k _ (bodies k)).2) sum
    rw [Pk_eq, Int.cast_sum]
  · rw [C_eq, List.sum_ofFn]
    congr 1
    refine Finset.sum_congr rfl fun k _ => ?_
    exact sent_c1 run.dealing k
  · rw [SkU1_eq, ZMod.intCast_mod, List.sum_ofFn, Int.cast_sum, sharedPoly,
      Polynomial.eval_finsetSum]
    exact Finset.sum_congr rfl fun k _ => (dealt_share setup run.dealing k j).2.2

end

end ThresholdDsa.Ecdsa.Keygen
