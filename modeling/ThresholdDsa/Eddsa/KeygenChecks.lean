/-
# What round 6 of EdDSA key generation establishes

Some parties finish round 6 on the same broadcast messages; the senders are
arbitrary.  The points that a sender sends in round 5 commit to a polynomial
(`committed`), and an accepted share is its value at the receiver's id
(`accepted_share`).  Its constant term belongs to the sender's weighted key, because
round 6 compares the first point with it.

Round 6 does not bound the number of points by the threshold.  The shares of a sender
are shares of its key with the threshold exactly if the weighted key is a multiple of
the base point and the committed polynomial agrees at zero and at the ids with one of
degree below the threshold; then the stored shares are shares of the group's key
(`round6_shares_iff`).  No more points than the threshold are enough for the second
part (`degree_of_short`).
-/
import ThresholdDsa.Eddsa.KeygenHonest

namespace ThresholdDsa.Eddsa.Keygen

open LittleEndian Outcome GoText Ed Interpolation Polynomial Function List EdOps
open Ecdsa.Keygen (KeygenBase)

variable {n m : ℕ}

/-- Zero and the ids, as nodes. -/
def nodes (uid : Fin m → Bytes32) : Option (Fin m) → ZMod L := fun node =>
  node.elim 0 fun j => value (uid j)

/-- The polynomial that a list of points commits to. -/
noncomputable def committed {O : EdOps} {E : Type} [AddCommGroup E] (G : O.Model E) (ps : List E) :
    (ZMod L)[X] :=
  listPoly (ps.map G.log)

theorem degree_of_short {O : EdOps} {E : Type} [AddCommGroup E] (G : O.Model E) {ps : List E} {t : ℕ}
    (short : ps.length ≤ t) {uid : Fin m → Bytes32} (distinct : Injective (nodes uid)) :
    (committed G ps %ₘ Lagrange.nodal Finset.univ (nodes uid)).degree < t := by
  refine (exists_degree_lt_iff distinct _ t).mp ⟨committed G ps, ?_, fun _ => rfl⟩
  have degree := degree_listPoly_lt (ps.map G.log)
  rw [length_map] at degree
  exact degree.trans_le (by exact_mod_cast short)

/-- Zero and ids up to 255 differ modulo the order. -/
theorem nodes_partyId_injective (small : n ≤ 255) :
    Injective (nodes (partyId : Fin n → Bytes32)) := by
  have large := large_L
  have nonzero : ∀ j : Fin n, (value (partyId j) : ZMod L) ≠ 0 := by
    intro j zero
    rw [value_partyId small, ZMod.natCast_eq_zero_iff] at zero
    exact absurd (Nat.le_of_dvd (Nat.succ_pos _) zero) (by omega)
  intro a b same
  cases a with
  | none =>
    cases b with
    | none => rfl
    | some j => exact absurd same.symm (nonzero j)
  | some i =>
    cases b with
    | none => exact absurd same (nonzero i)
    | some j => exact congrArg some (partyId_injective small same)

/-- The parties that finish, what they know of themselves, and their ids. -/
structure Finishing (base : Fin m → KeygenBase) (t4 : Fin m → Temp4) (who : Fin m → Fin n)
    (uid : Fin m → Bytes32) : Prop where
  index_eq : ∀ j, GetDNodeIDIndex n (base j) = .ok (who j)
  uid_eq : ∀ j, (t4 j).uids[(who j).val]? = some (uid j)
  bounded : ∀ j, (uid j (Fin.last 31)).toNat ≤ 127
  distinct : Injective (nodes uid)

/-- What was sent is in the domain of the point routines; `ps k` are the points of sender `k`, and
`msgs4 j k` is what it sent to party `j`. -/
structure InDomain {O : EdOps} {E : Type} [AddCommGroup E] (G : O.Model E)
    (msgs3 : Fin n → KGRound3Message) (msgs4 : Fin m → Fin n → KGRound4Message)
    (msgs5 : Fin n → KGRound5Message) (ps : Fin n → List E) : Prop where
  points : ∀ k, List.Forall₂ (fun cf p => G.point (O.FromBytes cf) = some p) (msgs5 k).CfsBBytes (ps k)
  keys : ∀ k, ∃ P, G.point (O.FromBytes (openedPk (msgs3 k))) = some P
  shares : ∀ j k, ((msgs4 j k).Share (Fin.last 31)).toNat ≤ 127

/-- The shares of sender `k` are shares with threshold `t` of its weighted key. -/
def SharesKey {O : EdOps} {E : Type} [AddCommGroup E] (G : O.Model E) (t : ℕ)
    (uid : Fin m → Bytes32) (msgs3 : Fin n → KGRound3Message)
    (msgs4 : Fin m → Fin n → KGRound4Message) (k : Fin n) : Prop :=
  ∃ f : (ZMod L)[X], f.degree < t ∧
    (∀ j, (value (msgs4 j k).Share : ZMod L) = f.eval (value (uid j) : ZMod L)) ∧
    G.point (weightedKey O msgs3 k) = some (G.mult (f.eval 0))

/-- Sender `k` committed to a polynomial for threshold `t`, and its weighted key is a multiple of
the base point. -/
def CommitsKey {O : EdOps} {E : Type} [AddCommGroup E] (G : O.Model E) (t : ℕ)
    (uid : Fin m → Bytes32) (msgs3 : Fin n → KGRound3Message) (ps : Fin n → List E) (k : Fin n) :
    Prop :=
  (∃ x, G.point (weightedKey O msgs3 k) = some (G.mult x)) ∧
    (committed G (ps k) %ₘ Lagrange.nodal Finset.univ (nodes uid)).degree < t

section

variable {O : EdOps} {E : Type} [AddCommGroup E] {G : O.Model E} {base : Fin m → KeygenBase}
  {t4 : Fin m → Temp4} {who : Fin m → Fin n} {uid : Fin m → Bytes32}
  {msgs3 : Fin n → KGRound3Message} {msgs4 : Fin m → Fin n → KGRound4Message}
  {msgs5 : Fin n → KGRound5Message} {ps : Fin n → List E} {TSk FinalPkBytes : Fin m → Bytes32}
  (finished : ∀ j, round6Start O (base j) (t4 j) msgs3 (msgs4 j) msgs5 = .ok (TSk j, FinalPkBytes j))
  (finishing : Finishing base t4 who uid) (domain : InDomain G msgs3 msgs4 msgs5 ps)

include finished finishing domain

/-- An accepted share is the value of the committed polynomial. -/
theorem accepted_share (j : Fin m) (k : Fin n) :
    (value (msgs4 j k).Share : ZMod L) = (committed G (ps k)).eval (value (uid j) : ZMod L) := by
  obtain ⟨curIndex, index_eq, -, verified, -⟩ := round6_eq_ok.mp (finished j)
  obtain ⟨own, own_eq, passed⟩ := verified k
  obtain rfl : who j = curIndex := Except.ok.inj ((finishing.index_eq j).symm.trans index_eq)
  obtain rfl : uid j = own := Option.some.inj ((finishing.uid_eq j).symm.trans own_eq)
  exact share_of_verifyVss G (domain.points k) (finishing.bounded j) (domain.shares j k) passed

omit finishing in
/-- The committed constant term is that of the weighted key. -/
theorem committed_zero (j : Fin m) (k : Fin n) :
    ∃ P, G.point (weightedKey O msgs3 k) = some P ∧ (committed G (ps k)).eval 0 = G.log P := by
  obtain ⟨curIndex, -, -, -, heads, -⟩ := round6_eq_ok.mp (finished j)
  obtain ⟨key, key_eq⟩ := domain.keys k
  have weighted : G.point (weightedKey O msgs3 k) = some (value (weightOf O msgs3 k) • key) :=
    G.point_smul (Model.last_le (reduced_ScReduce _)) key_eq
  refine ⟨_, weighted, ?_⟩
  have head := heads k
  have points := domain.points k
  rw [G.toBytes_eq weighted] at head
  cases list : (msgs5 k).CfsBBytes with
  | nil => simp [list] at head
  | cons =>
    rw [list] at points head
    obtain ⟨p, qs, first_eq, -, ps_eq⟩ := forall₂_cons_left_iff.mp points
    rw [head?_cons, Option.some.injEq] at head
    rw [head, G.point_fromBytes, Option.some.injEq] at first_eq
    rw [committed, ps_eq, map_cons, eval_listPoly_cons, zero_mul, add_zero, ← first_eq]

/-- The values at the nodes that make a polynomial one for the key of sender `k`. -/
theorem sharesKey_iff_nodes (t : ℕ) (j₀ : Fin m) (k : Fin n) :
    SharesKey G t uid msgs3 msgs4 k ↔ (∃ x, G.point (weightedKey O msgs3 k) = some (G.mult x)) ∧
      ∃ f : (ZMod L)[X], f.degree < t ∧
        ∀ node, f.eval (nodes uid node) = (committed G (ps k)).eval (nodes uid node) := by
  obtain ⟨P, weighted, constant⟩ := committed_zero finished domain j₀ k
  have share := accepted_share finished finishing domain
  constructor
  · rintro ⟨f, degree, shares, key⟩
    have P_eq : P = G.mult (f.eval 0) := Option.some.inj (weighted.symm.trans key)
    refine ⟨⟨_, key⟩, f, degree, fun node => ?_⟩
    cases node with
    | none =>
      rw [P_eq, G.log_mult] at constant
      exact constant.symm
    | some j => exact (shares j).symm.trans (share j k)
  · rintro ⟨⟨x, key⟩, f, degree, values⟩
    have P_eq : P = G.mult x := Option.some.inj (weighted.symm.trans key)
    have zero : f.eval 0 = x := by
      have at_zero : f.eval 0 = (committed G (ps k)).eval 0 := values none
      rw [at_zero, constant, P_eq, G.log_mult]
    refine ⟨f, degree, fun j => (share j k).trans (values (some j)).symm, ?_⟩
    rw [zero]
    exact key

/-- **When accepted shares are shares of the keys.**  The parties finished round 6 on the same
broadcast messages, whatever the senders sent in the domain of the point routines. -/
theorem round6_shares_iff (pos : 0 < m) (t : ℕ) :
    (∀ k, SharesKey G t uid msgs3 msgs4 k ↔ CommitsKey G t uid msgs3 ps k) ∧
    ((∀ k, CommitsKey G t uid msgs3 ps k) →
      ∃ f : (ZMod L)[X], f.degree < t ∧
        (∀ j, (value (TSk j) : ZMod L) = f.eval (value (uid j) : ZMod L)) ∧
        ∀ j, FinalPkBytes j = G.encode (G.mult (f.eval 0))) := by
  have each : ∀ k, SharesKey G t uid msgs3 msgs4 k ↔ CommitsKey G t uid msgs3 ps k := by
    intro k
    rw [sharesKey_iff_nodes finished finishing domain t ⟨0, pos⟩ k,
      exists_degree_lt_iff finishing.distinct]
    exact Iff.rfl
  refine ⟨each, fun commits => ?_⟩
  choose f degree shares key using fun k => (each k).mpr (commits k)
  refine ⟨∑ k, f k, ?_, fun j => ?_, fun j => ?_⟩
  · refine (degree_sum_le _ _).trans_lt ((Finset.sup_lt_iff ?_).mpr fun k _ => degree k)
    exact WithBot.bot_lt_coe t
  · obtain ⟨-, -, -, -, -, TSk_eq, -⟩ := round6_eq_ok.mp (finished j)
    rw [TSk_eq, cast_foldl_ScAdd, value_scZero, Nat.cast_zero, zero_add, map_ofFn, sum_ofFn,
      eval_finsetSum]
    exact Finset.sum_congr rfl fun k _ => shares k j
  · obtain ⟨-, -, -, -, -, -, key_eq⟩ := round6_eq_ok.mp (finished j)
    rw [key_eq, G.toBytes_eq (G.point_sumRange (who j).pos key), eval_finsetSum, map_sum]

end

/-! ## Two senders

The weights are 1 and the keys are the base point.  The first sender deals `1 + X`, the second one
`1` or, with a third point, `1 + X²`. -/

section

variable (third : Bool) (k j : Fin 2)

def senderLogs : List (ZMod L) :=
  if k.val = 0 then [1, 1] else if third then [1, 0, 1] else [1, 0]

def senderMsg3 (_ : Fin 2) : KGRound3Message where
  DPk := Fin.append scZero scOne

def senderMsg4 (k : Fin 2) : KGRound4Message where
  Share := bytes 32 (if k.val = 0 then j.val + 1 + 1
    else if third then (j.val + 1) * (j.val + 1) + 1 else 1)

def senderMsg5 : KGRound5Message where
  CfsBBytes := (senderLogs third k).map fun c =>
    (residueModel oneHash).encode ((residueModel oneHash).mult c)

def senderTemp4 : Temp4 where
  uids := List.ofFn (n := 2) partyId
  cfsBBytes := []

/-- The round 6 of party `j`. -/
def senderRound6 : Outcome (Bytes32 × Bytes32) :=
  round6Start (residueOps oneHash) (pairBase j) senderTemp4 senderMsg3 (senderMsg4 third j)
    (senderMsg5 third)

theorem value_weightOf_one :
    value (weightOf (residueOps oneHash) senderMsg3 k) = 1 := by
  have one_lt := prime_L.one_lt
  have hashed : ∀ written, (residueOps oneHash).sha512 written = copy (32 + 32) scOne :=
    fun _ => rfl
  rw [weightOf, hashed, ScReduce, value_copy (by norm_num), value_scOne, Nat.mod_eq_of_lt one_lt,
    value_bytes_of_lt_L one_lt]

theorem point_senderKey :
    (residueModel oneHash).point (weightedKey (residueOps oneHash) senderMsg3 k) =
      some ((residueModel oneHash).mult 1) := by
  have opened : openedPk (senderMsg3 k) =
      (residueModel oneHash).encode ((residueModel oneHash).mult 1) := by
    rw [openedPk, senderMsg3, upper_append, encode_mult_one]
  have point := (residueModel oneHash).point_mult
    (a := weightOf (residueOps oneHash) senderMsg3 k) (reduced_ScReduce _)
    ((residueModel oneHash).point_fromBytes ((residueModel oneHash).mult 1))
  rw [← opened, value_weightOf_one, Nat.cast_one, one_mul] at point
  exact point

theorem value_senderShare (k : Fin 2) :
    value (senderMsg4 third j k).Share = if k.val = 0 then j.val + 1 + 1
      else if third then (j.val + 1) * (j.val + 1) + 1 else 1 := by
  have large := large_L
  refine value_bytes_of_lt_L ?_
  fin_cases j <;> fin_cases k <;> cases third <;> simp <;> omega

theorem reduced_senderShare (k : Fin 2) : Reduced (senderMsg4 third j k).Share := by
  have large := large_L
  rw [Reduced, value_senderShare]
  fin_cases j <;> fin_cases k <;> cases third <;> simp <;> omega

/-- Both parties accept the shares of both senders. -/
theorem verifyVss_sender (k : Fin 2) :
    (residueOps oneHash).VerifyVss (senderMsg4 third j k).Share (partyId j)
      (senderMsg5 third k).CfsBBytes = .ok true := by
  have small : (2 : ℕ) ≤ 255 := by norm_num
  have id_bounded := Model.last_le (reduced_partyId small j)
  have share_bounded := Model.last_le (reduced_senderShare third j k)
  have value_eq := value_senderShare third j k
  have id_eq := value_partyId small j
  have accepts : ∀ cs : List (ZMod L), senderLogs third k = 1 :: cs →
      (value (senderMsg4 third j k).Share : ZMod L) =
        (listPoly (1 :: cs)).eval (value (partyId j) : ZMod L) →
      (residueOps oneHash).VerifyVss (senderMsg4 third j k).Share (partyId j)
        (senderMsg5 third k).CfsBBytes = .ok true := by
    intro cs logs_eq share_eq
    rw [senderMsg5, logs_eq]
    exact (verifyVss_iff (residueModel oneHash) 1 cs id_bounded share_bounded).mpr share_eq
  rw [value_eq, id_eq] at accepts
  fin_cases k
  · refine accepts [1] rfl ?_
    simp [add_comm]
  · cases third
    · refine accepts [0] rfl ?_
      simp
    · refine accepts [0, 1] rfl ?_
      simp [add_comm]

/-- The share that party `j` stores. -/
def senderTSk : Bytes32 :=
  (List.ofFn fun k => (senderMsg4 third j k).Share).foldl ScAdd scZero

/-- The key that both parties store. -/
def senderFinalPk : Bytes32 :=
  (residueOps oneHash).ToBytes ((residueOps oneHash).sumRange
    (weightedKey (residueOps oneHash) senderMsg3))

theorem value_senderTSk :
    (value (senderTSk true j) : ZMod L) = (j.val + 1) * (j.val + 1) + 1 + (j.val + 1 + 1) := by
  rw [senderTSk, cast_foldl_ScAdd, value_scZero, Nat.cast_zero, zero_add, map_ofFn,
    sum_ofFn, Fin.sum_univ_two]
  simp only [comp_apply, value_senderShare]
  push_cast
  norm_num
  ring

theorem senderRound6_eq :
    senderRound6 third j = .ok (senderTSk third j, senderFinalPk) := by
  refine round6_eq_ok.mpr ⟨j, getDNodeIDIndex_eq parties_pairBase j, ⟨_, getIDs_eq parties_pairBase j⟩,
    fun k => ⟨partyId j, ?_, verifyVss_sender third j k⟩, fun k => ?_, rfl, rfl⟩
  · rw [senderTemp4, List.getElem?_ofFn, dif_pos j.isLt]
  · rw [(residueModel oneHash).toBytes_eq (point_senderKey k)]
    fin_cases k
    · rfl
    · cases third <;> rfl

theorem finishing_pair :
    Finishing (n := 2) pairBase (fun _ => senderTemp4) id (partyId : Fin 2 → Bytes32) where
  index_eq := getDNodeIDIndex_eq parties_pairBase
  uid_eq j := by rw [senderTemp4, List.getElem?_ofFn, dif_pos (id j).isLt]; rfl
  bounded j := Model.last_le (reduced_partyId (by norm_num) j)
  distinct := nodes_partyId_injective (by norm_num)

theorem inDomain_senders :
    InDomain (residueModel oneHash) senderMsg3 (senderMsg4 third) (senderMsg5 third)
      fun k => (senderLogs third k).map (residueModel oneHash).mult where
  points k := by
    rw [senderMsg5, forall₂_map_left_iff, forall₂_map_right_iff, forall₂_same]
    exact fun c _ => (residueModel oneHash).point_fromBytes _
  keys k := ⟨_, rfl⟩
  shares j k := Model.last_le (reduced_senderShare third j k)

/-- With two points of each sender the stored shares are shares of the key. -/
theorem round6_shares_two_points :
    ∃ f : (ZMod L)[X], f.degree < (2 : ℕ) ∧
      (∀ j : Fin 2, (value (senderTSk false j) : ZMod L) = f.eval (value (partyId j) : ZMod L)) ∧
      ∀ _ : Fin 2, senderFinalPk =
        (residueModel oneHash).encode ((residueModel oneHash).mult (f.eval 0)) := by
  refine (round6_shares_iff (senderRound6_eq false) finishing_pair (inDomain_senders false)
    (by norm_num) 2).2 fun k => ⟨⟨1, point_senderKey k⟩, ?_⟩
  apply degree_of_short _ _ finishing_pair.distinct
  fin_cases k <;> simp [senderLogs]

/-- A line has no second difference. -/
theorem second_difference {f : (ZMod L)[X]} (degree : f.degree < (2 : ℕ)) :
    f.eval 2 - 2 * f.eval 1 + f.eval 0 = 0 := by
  have le_one : f.degree ≤ 1 := Order.lt_succ_iff.mp (by exact_mod_cast degree)
  rw [eq_X_add_C_of_degree_le_one le_one]
  simp only [eval_add, eval_mul, eval_C, eval_X]
  ring

theorem two_ne_zero : (2 : ZMod L) ≠ 0 := by
  intro zero
  have divides : L ∣ 2 := (ZMod.natCast_eq_zero_iff 2 L).mp (by exact_mod_cast zero)
  exact absurd (Nat.le_of_dvd (by norm_num) divides) (by have := large_L; omega)

/-- The values at the ids 1 and 2 in the terms of a line. -/
theorem not_line {f : (ZMod L)[X]} (degree : f.degree < (2 : ℕ)) {u : Fin 2 → Bytes32}
    (values : ∀ j : Fin 2, (value (u j) : ZMod L) = f.eval (value (partyId j) : ZMod L))
    (bent : (value (u (Fin.last 1)) : ZMod L) - 2 * value (u ⟨0, Nat.succ_pos 1⟩) + f.eval 0 = 2) :
    False := by
  have at_one := values ⟨0, Nat.succ_pos 1⟩
  have at_two := values (Fin.last 1)
  rw [value_partyId (by norm_num)] at at_one at_two
  have line := second_difference degree
  rw [at_one, at_two] at bent
  norm_num at bent
  exact two_ne_zero (bent.symm.trans line)

/-- The second sender sends three points.  Both parties finish round 6, the shares of that sender
are not shares of its key with threshold 2, and the stored shares, 4 and 8, are not shares of the
stored key, the point of 2. -/
theorem three_points_accepted :
    (∀ j : Fin 2, senderRound6 true j = .ok (senderTSk true j, senderFinalPk)) ∧
    ¬ SharesKey (residueModel oneHash) 2 partyId senderMsg3 (senderMsg4 true) (Fin.last 1) ∧
    ¬ ∃ f : (ZMod L)[X], f.degree < (2 : ℕ) ∧
      (∀ j : Fin 2, (value (senderTSk true j) : ZMod L) = f.eval (value (partyId j) : ZMod L)) ∧
      senderFinalPk =
        (residueModel oneHash).encode ((residueModel oneHash).mult (f.eval 0)) := by
  refine ⟨senderRound6_eq true, ?_, ?_⟩
  · rintro ⟨f, degree, shares, key⟩
    have constant : 1 = f.eval 0 := (residueModel oneHash).mult_injective
      (Option.some.inj ((point_senderKey _).symm.trans key))
    apply not_line degree shares
    rw [value_senderShare, value_senderShare, ← constant]
    norm_num
  · rintro ⟨f, degree, shares, key⟩
    have constant : 2 = f.eval 0 := by
      rw [senderFinalPk, (residueModel oneHash).toBytes_eq
        ((residueModel oneHash).point_sumRange (by norm_num) point_senderKey),
        ← map_sum] at key
      have same := (residueModel oneHash).mult_injective
        ((residueModel oneHash).encode_injective key)
      rw [← same]
      norm_num
    apply not_line degree shares
    rw [value_senderTSk, value_senderTSk, ← constant]
    norm_num

end

end ThresholdDsa.Eddsa.Keygen
