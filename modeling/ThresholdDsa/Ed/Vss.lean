/-
# Secret sharing of package `ed`

`Vss` deals a polynomial whose constant term is the secret: the coefficients'
points and one share per id.  `VerifyVss` checks a share against the points, and
`Combine` interpolates at zero.

A dealt share is the polynomial at the id (`calculatePolynomial_eq_ok`), passes the
check (`verifyVss_dealt`), and shares of a polynomial of smaller degree than their
number combine to its value at zero (`combine_eval`).  The tests of `Combine` for
an inverse of 32 characters `0` never succeed: the last byte of a reduced scalar is
smaller (`not_all_zero_characters`).
-/
import ThresholdDsa.Ed.Commit
import ThresholdDsa.Lib.Interpolation

namespace ThresholdDsa.Ed

open LittleEndian Outcome Ec2 Interpolation Polynomial List

/-! ## Dealing -/

/-- The test on ids reads the array with the first byte as the most significant one. -/
def idnum (id : Bytes32) : ℤ := setBytes (slice id)

def calculatePolynomial (cfs : List Bytes32) (id : Bytes32) : Outcome Bytes32 := do
  require (!(idnum id = 0 || idnum id % GetBigIntOrder = 0))
    "id can not be equal to 0 or 0 modulo the order of the curve"
  match cfs.reverse with
  | [] => .error .panic
  | last :: rest => pure (rest.foldl (fun result cf => ScAdd (ScMul result id) cf) last)

/-- The secret and the reduced draws; `rnds i` is the draw for coefficient `i + 1`. -/
def coefficients (secret : Bytes32) (rnds : ℕ → Bytes32) (t : ℕ) : List Bytes32 :=
  secret :: (List.range (t - 1)).map fun i => ScMulAdd (rnds i) scOne scZero

/-- The results are the coefficients, their points and the shares. -/
def EdOps.Vss (O : EdOps) (secret : Bytes32) (rnds : ℕ → Bytes32) (ids : List Bytes32) (t n : ℕ) :
    Outcome (List Bytes32 × List Bytes32 × List Bytes32) := do
  require (!(t ≤ 1 || n < t)) "threshold must > 1 and <= n"
  let cfs := coefficients secret rnds t
  let cfsBBytes := cfs.map fun cf => O.ToBytes (O.GeScalarMultBase cf)
  let shares ← (List.range n).mapM fun i => do
    let id ← deref ids[i]?
    calculatePolynomial cfs id
  pure (cfs, cfsBBytes, shares)

/-! ## Checking a share -/

def EdOps.VerifyVss (O : EdOps) (share id : Bytes32) : List Bytes32 → Outcome Bool
  | [] => .error .panic
  | first :: rest =>
    let rlt1 := (rest.foldl (fun (acc : O.Ge × Bytes32) cf =>
      (O.GeAdd acc.1 (O.GeScalarMult acc.2 (O.FromBytes cf)), ScMul acc.2 id))
      (O.FromBytes first, id)).1
    .ok (O.ToBytes rlt1 = O.ToBytes (O.GeScalarMultBase share))

/-! ## Combining -/

/-- `byte('0')`. -/
def zeroCharacter : UInt8 := 48

/-- The factor of another id in an interpolation weight; an error where the inverse consists of
characters `0`, with the inverse. -/
def lagrangeTime (t tt : Bytes32) : Except Bytes32 Bytes32 :=
  let time := ScModInverse (ScSub t tt) GetBytesOrder
  if ∀ index, time index = zeroCharacter then .error time else .ok (ScMul time t)

def lagrangeTimes {m : ℕ} (ids : Fin m → Bytes32) (j : Fin m) : Except Bytes32 Bytes32 :=
  (List.finRange m).foldlM (fun times i =>
    if j ≠ i then do
      let time ← lagrangeTime (ids i) (ids j)
      pure (ScMul times time)
    else pure times) scOne

/-- The shares and the ids they belong to; a failed inverse is returned in place of the secret. -/
def Combine {m : ℕ} (shares ids : Fin m → Bytes32) : Bytes32 :=
  let secret := (List.finRange m).foldlM (fun secret j => do
    let times ← lagrangeTimes ids j
    pure (ScAdd (ScMul (shares j) times) secret)) scZero
  match secret with
  | .ok secret => secret
  | .error time => time

/-! ## Shares of a polynomial -/

/-- The dealt polynomial. -/
noncomputable def dealtPoly (cfs : List Bytes32) : (ZMod L)[X] :=
  listPoly (cfs.map fun cf => (value cf : ZMod L))

theorem degree_dealtPoly_lt (cfs : List Bytes32) : (dealtPoly cfs).degree < cfs.length := by
  have degree := degree_listPoly_lt (cfs.map fun cf => (value cf : ZMod L))
  rwa [length_map] at degree

theorem eval_dealtPoly_cons (cf : Bytes32) (cfs : List Bytes32) (x : ZMod L) :
    (dealtPoly (cf :: cfs)).eval x = value cf + x * (dealtPoly cfs).eval x := by
  rw [dealtPoly, map_cons, eval_listPoly_cons, dealtPoly]

theorem eval_dealtPoly_zero (cf : Bytes32) (cfs : List Bytes32) :
    (dealtPoly (cf :: cfs)).eval 0 = value cf := by
  rw [eval_dealtPoly_cons, zero_mul, add_zero]

/-- Horner's loop from the last coefficient down. -/
theorem foldl_horner (id : Bytes32) (rest : List Bytes32) (last : Bytes32) :
    (value (rest.foldl (fun result cf => ScAdd (ScMul result id) cf) last) : ZMod L) =
      (dealtPoly ((last :: rest).reverse)).eval (value id : ZMod L) := by
  suffices general : ∀ (higher : List Bytes32) (result : Bytes32),
      (value result : ZMod L) = (dealtPoly higher).eval (value id : ZMod L) →
      (value (rest.foldl (fun result cf => ScAdd (ScMul result id) cf) result) : ZMod L) =
        (dealtPoly (rest.reverse ++ higher)).eval (value id : ZMod L) by
    rw [reverse_cons]
    apply general
    rw [eval_dealtPoly_cons, dealtPoly, map_nil, eval_listPoly_nil, mul_zero, add_zero]
  induction rest with
  | nil => intro higher result reads; exact reads
  | cons cf rest ih =>
    intro higher result reads
    rw [foldl_cons, reverse_cons, append_assoc, singleton_append]
    apply ih
    rw [cast_ScAdd, cast_ScMul, eval_dealtPoly_cons, reads]
    ring

/-- An id that passes the test of `calculatePolynomial`. -/
def UsableId (id : Bytes32) : Prop := idnum id ≠ 0 ∧ idnum id % GetBigIntOrder ≠ 0

/-- A dealt share is the value of the polynomial at the id, and reduced. -/
theorem calculatePolynomial_eq_ok {cfs : List Bytes32} {id : Bytes32} (usable : UsableId id)
    (long : 1 < cfs.length) :
    ∃ share, calculatePolynomial cfs id = .ok share ∧ Reduced share ∧
      (value share : ZMod L) = (dealtPoly cfs).eval (value id : ZMod L) := by
  obtain ⟨last, rest, reversed⟩ : ∃ last rest, cfs.reverse = last :: rest :=
    exists_cons_of_ne_nil (by
      rw [ne_eq, reverse_eq_nil_iff]
      rintro rfl
      simp at long)
  have rest_ne : rest ≠ [] := by
    rintro rfl
    have := congrArg List.length reversed
    simp at this
    omega
  have passes : (!(decide (idnum id = 0) || decide (idnum id % GetBigIntOrder = 0))) = true := by
    simp [usable.1, usable.2]
  refine ⟨rest.foldl (fun result cf => ScAdd (ScMul result id) cf) last, ?_, ?_, ?_⟩
  · rw [calculatePolynomial, reversed, passes]
    rfl
  · obtain ⟨init, cf, rfl⟩ := eq_nil_or_concat rest |>.resolve_left rest_ne
    rw [concat_eq_append, foldl_concat]
    exact reduced_ScAdd _ _
  · rw [foldl_horner, ← reversed, reverse_reverse]

/-- The id of one byte is usable: its value with the bytes reversed is no multiple of the prime
order. -/
theorem usableId_uidBytes {v : ℕ} (pos : 0 < v) (small : v < 256) : UsableId (uidBytes v) := by
  have number : idnum (uidBytes v) = v * 256 ^ 31 := by
    have array : slice (uidBytes v) = UInt8.ofNat v :: List.replicate 31 0 := by
      rw [slice, ofFn_succ]
      congr 1
      · simp [uidBytes, intBytes_small pos small]
      · rw [eq_replicate_iff]
        refine ⟨by simp, fun b mem => ?_⟩
        obtain ⟨i, rfl⟩ := (mem_ofFn' _ _).mp mem
        simp [uidBytes, intBytes_small pos small]
    have first : (UInt8.ofNat v).toNat = v := by
      rw [UInt8.toNat_ofNat', Nat.mod_eq_of_lt small]
    rw [idnum, array, setBytes, foldl_cons, first]
    simp only [List.replicate, foldl_cons, foldl_nil, UInt8.toNat_zero]
    push_cast
    ring
  refine ⟨by rw [number]; positivity, fun multiple => ?_⟩
  have divides : L ∣ v * 256 ^ 31 := by
    rw [number] at multiple
    exact_mod_cast Int.dvd_of_emod_eq_zero multiple
  rcases (prime_L.dvd_mul).mp divides with left | right
  · exact absurd (Nat.le_of_dvd pos left) (by have := large_L; omega)
  · have base : L ∣ 256 := prime_L.dvd_of_dvd_pow right
    exact absurd (Nat.le_of_dvd (by norm_num) base) (by have := large_L; omega)

theorem length_coefficients (secret : Bytes32) (rnds : ℕ → Bytes32) {t : ℕ} (pos : 0 < t) :
    (coefficients secret rnds t).length = t := by
  rw [coefficients, length_cons, length_map, length_range]
  omega

theorem reduced_coefficients {secret : Bytes32} (reduced : Reduced secret) (rnds : ℕ → Bytes32)
    (t : ℕ) : ∀ cf ∈ coefficients secret rnds t, Reduced cf := by
  rw [coefficients, forall_mem_cons]
  refine ⟨reduced, fun cf mem => ?_⟩
  obtain ⟨i, -, rfl⟩ := mem_map.mp mem
  exact reduced_ScMulAdd _ _ _

/-- Dealing among usable ids returns, and the shares are the polynomial at the ids. -/
theorem vss_eq_ok (O : EdOps) (secret : Bytes32) (rnds : ℕ → Bytes32) {n t : ℕ}
    {uid : Fin n → Bytes32} (usable : ∀ i, UsableId (uid i)) (two_le : 2 ≤ t) (t_le : t ≤ n) :
    ∃ share : Fin n → Bytes32, O.Vss secret rnds (List.ofFn uid) t n =
        .ok (coefficients secret rnds t, (coefficients secret rnds t).map fun cf =>
          O.ToBytes (O.GeScalarMultBase cf), List.ofFn share) ∧
      ∀ i, Reduced (share i) ∧ (value (share i) : ZMod L) =
        (dealtPoly (coefficients secret rnds t)).eval (value (uid i) : ZMod L) := by
  have long : 1 < (coefficients secret rnds t).length := by
    rw [length_coefficients secret rnds (by omega)]
    omega
  choose share share_ok reduced eval using fun i =>
    calculatePolynomial_eq_ok (usable i) long
  have dealt : ((List.range n).mapM fun i => do
      let id ← deref (List.ofFn uid)[i]?
      calculatePolynomial (coefficients secret rnds t) id) = .ok (List.ofFn share) := by
    rw [mapM_eq_ok, ofFn_eq_map (f := share), ← map_coe_finRange_eq_range, forall₂_map_left_iff,
      forall₂_map_right_iff, forall₂_same]
    intro i _
    rw [List.getElem?_ofFn, dif_pos i.isLt]
    exact share_ok i
  refine ⟨share, ?_, fun i => ⟨reduced i, eval i⟩⟩
  have passes : (!(decide (t ≤ 1) || decide (n < t))) = true := by
    simp
    omega
  rw [EdOps.Vss, passes]
  simp only [require, if_true, ok_bind, dealt]
  rfl

/-! ## Checking a share -/

section

variable {O : EdOps} {E : Type} [AddCommGroup E] (G : O.Model E)

/-- The loop of `VerifyVss` over points with known logarithms. -/
theorem point_verifyLoop (id : Bytes32) (cs : List (ZMod L)) {g : O.Ge} {x : ZMod L}
    {idVal : Bytes32} (at_x : G.point g = some (G.mult x))
    (bounded : (idVal (Fin.last 31)).toNat ≤ 127) :
    G.point ((cs.map fun c => G.encode (G.mult c)).foldl (fun (acc : O.Ge × Bytes32) cf =>
      (O.GeAdd acc.1 (O.GeScalarMult acc.2 (O.FromBytes cf)), ScMul acc.2 id)) (g, idVal)).1 =
    some (G.mult (x + value idVal * (listPoly cs).eval (value id : ZMod L))) := by
  induction cs generalizing g x idVal with
  | nil => simpa using at_x
  | cons c cs ih =>
    rw [map_cons, foldl_cons]
    have added := G.point_add at_x (G.point_smul bounded (G.point_fromBytes (G.mult c)))
    rw [G.nsmul_mult, ← map_add] at added
    rw [ih added (EdOps.Model.last_le (reduced_ScMul idVal id)), cast_ScMul, eval_listPoly_cons]
    congr 2
    ring

variable {cfs : List Bytes32}

/-- The points of reduced coefficients. -/
theorem points_eq (reduced : ∀ cf ∈ cfs, Reduced cf) :
    (cfs.map fun cf => O.ToBytes (O.GeScalarMultBase cf)) =
      (cfs.map fun cf => (value cf : ZMod L)).map fun c => G.encode (G.mult c) := by
  rw [map_map]
  refine map_congr_left fun cf mem => ?_
  exact G.toBytes_eq (G.point_base (reduced cf mem))

/-- A share passes exactly if it is the value of the committed polynomial at the id. -/
theorem verifyVss_iff {share id : Bytes32} (c : ZMod L) (cs : List (ZMod L))
    (id_bounded : (id (Fin.last 31)).toNat ≤ 127) (share_bounded : (share (Fin.last 31)).toNat ≤ 127) :
    O.VerifyVss share id ((c :: cs).map fun c => G.encode (G.mult c)) = .ok true ↔
      (value share : ZMod L) = (listPoly (c :: cs)).eval (value id : ZMod L) := by
  have left := point_verifyLoop G id cs (G.point_fromBytes (G.mult c)) id_bounded
  have right := G.point_smulBase share_bounded
  rw [← G.mult_natCast] at right
  simp only [map_cons, EdOps.VerifyVss, Except.ok.injEq, decide_eq_true_eq,
    G.toBytes_eq left, G.toBytes_eq right, G.encode_injective.eq_iff, G.mult_injective.eq_iff,
    eval_listPoly_cons]
  exact eq_comm

/-- The loop of `VerifyVss` over arbitrary points, seen in the multiples of the base point. -/
theorem log_verifyLoop (id : Bytes32) {ps : List E}
    (points : List.Forall₂ (fun cf p => G.point (O.FromBytes cf) = some p) cfs ps) {g : O.Ge}
    {P : E} {idVal : Bytes32} (at_g : G.point g = some P)
    (bounded : (idVal (Fin.last 31)).toNat ≤ 127) :
    ∃ Q, G.point (cfs.foldl (fun (acc : O.Ge × Bytes32) cf =>
        (O.GeAdd acc.1 (O.GeScalarMult acc.2 (O.FromBytes cf)), ScMul acc.2 id)) (g, idVal)).1 =
      some Q ∧
      G.log Q = G.log P + value idVal * (listPoly (ps.map G.log)).eval (value id : ZMod L) := by
  induction points generalizing g P idVal with
  | nil => exact ⟨P, at_g, by simp⟩
  | cons first rest ih =>
    have added := G.point_add at_g (G.point_smul bounded first)
    obtain ⟨Q, reached, log_Q⟩ := ih added (EdOps.Model.last_le (reduced_ScMul idVal id))
    refine ⟨Q, reached, ?_⟩
    rw [log_Q, map_add, map_nsmul, nsmul_eq_mul, cast_ScMul, map_cons, eval_listPoly_cons]
    ring

/-- An accepted share is the value at the id of the polynomial that the points commit to. -/
theorem share_of_verifyVss {share id : Bytes32} {ps : List E}
    (points : List.Forall₂ (fun cf p => G.point (O.FromBytes cf) = some p) cfs ps)
    (id_bounded : (id (Fin.last 31)).toNat ≤ 127)
    (share_bounded : (share (Fin.last 31)).toNat ≤ 127)
    (verified : O.VerifyVss share id cfs = .ok true) :
    (value share : ZMod L) = (listPoly (ps.map G.log)).eval (value id : ZMod L) := by
  cases points with
  | nil => exact absurd verified (by simp [EdOps.VerifyVss])
  | cons first rest =>
    obtain ⟨Q, reached, log_Q⟩ := log_verifyLoop G id rest first id_bounded
    have right := G.point_smulBase share_bounded
    simp only [EdOps.VerifyVss, Except.ok.injEq, decide_eq_true_eq, G.toBytes_eq reached,
      G.toBytes_eq right, G.encode_injective.eq_iff] at verified
    have logs := congrArg G.log verified
    rw [log_Q, ← G.mult_natCast, G.log_mult] at logs
    rw [← logs, map_cons, eval_listPoly_cons]

end

/-! ## Combining -/

theorem not_all_zero_characters {time : Bytes32} (reduced : Reduced time) :
    ¬ ∀ index, time index = zeroCharacter := by
  intro all
  have last := reduced.last_le
  rw [all] at last
  exact absurd last (by decide)

theorem lagrangeTime_eq (t tt : Bytes32) :
    lagrangeTime t tt = .ok (ScMul (ScModInverse (ScSub t tt) GetBytesOrder) t) := by
  unfold lagrangeTime
  exact if_neg (not_all_zero_characters (reduced_ScModInverse _ _))

section Combine

variable {m : ℕ} (ids : Fin m → Bytes32)

/-- The product that `lagrangeTimes` computes. -/
def timesStep (j : Fin m) (times : Bytes32) (i : Fin m) : Bytes32 :=
  if j ≠ i then ScMul times (ScMul (ScModInverse (ScSub (ids i) (ids j)) GetBytesOrder) (ids i))
  else times

theorem lagrangeTimes_eq (j : Fin m) :
    lagrangeTimes ids j = .ok ((List.finRange m).foldl (timesStep ids j) scOne) := by
  have step : ∀ times i, (if j ≠ i then do
      let time ← lagrangeTime (ids i) (ids j)
      pure (ScMul times time)
    else pure times : Except Bytes32 Bytes32) = pure (timesStep ids j times i) := by
    intro times i
    unfold timesStep
    split
    · rw [lagrangeTime_eq]
      rfl
    · rfl
  simp only [lagrangeTimes, step]
  exact foldlM_pure

theorem cast_timesStep (j : Fin m) (is : List (Fin m)) (times : Bytes32) :
    (value (is.foldl (timesStep ids j) times) : ZMod L) = value times * (is.map fun i =>
      if i ≠ j then (value (ids i) : ZMod L) * ((value (ids i) : ZMod L) - value (ids j))⁻¹
      else 1).prod := by
  induction is generalizing times with
  | nil => simp
  | cons i is ih =>
    rw [foldl_cons, ih, map_cons, prod_cons, ← mul_assoc]
    congr 1
    unfold timesStep
    by_cases same : j = i
    · simp [same]
    · rw [if_pos same, if_pos (Ne.symm same), cast_ScMul, cast_ScMul, cast_ScModInverse,
        cast_ScSub]
      ring

/-- The weight that `lagrangeTimes` returns. -/
theorem cast_lagrangeTimes (j : Fin m) :
    (value ((List.finRange m).foldl (timesStep ids j) scOne) : ZMod L) =
      weight (fun i => (value (ids i) : ZMod L)) j := by
  rw [cast_timesStep, value_scOne, Nat.cast_one, one_mul, weight_eq_prod]

/-- **`Combine` returns the value at zero** of a polynomial through the shares. -/
theorem combine_eval {shares : Fin m → Bytes32}
    (distinct : Function.Injective fun i => (value (ids i) : ZMod L)) {f : (ZMod L)[X]}
    (degree : f.degree < m)
    (on_f : ∀ j, (value (shares j) : ZMod L) = f.eval (value (ids j) : ZMod L)) :
    (value (Combine shares ids) : ZMod L) = f.eval 0 := by
  have returns : Combine shares ids = (List.finRange m).foldl (fun secret j =>
      ScAdd (ScMul (shares j) ((List.finRange m).foldl (timesStep ids j) scOne)) secret) scZero := by
    simp only [Combine, lagrangeTimes_eq]
    have loop : (List.finRange m).foldlM (fun secret j => (do
        let times ← (.ok ((List.finRange m).foldl (timesStep ids j) scOne) : Except Bytes32 Bytes32)
        pure (ScAdd (ScMul (shares j) times) secret))) scZero =
      pure ((List.finRange m).foldl (fun secret j =>
        ScAdd (ScMul (shares j) ((List.finRange m).foldl (timesStep ids j) scOne)) secret) scZero) :=
      foldlM_pure
    rw [loop]
    rfl
  have sum : ∀ (js : List (Fin m)) (acc : Bytes32),
      (value (js.foldl (fun secret j => ScAdd (ScMul (shares j)
        ((List.finRange m).foldl (timesStep ids j) scOne)) secret) acc) : ZMod L) =
      value acc + (js.map fun j => f.eval (value (ids j) : ZMod L) *
        weight (fun i => (value (ids i) : ZMod L)) j).sum := by
    intro js
    induction js with
    | nil => intro acc; simp
    | cons j js ih =>
      intro acc
      rw [foldl_cons, ih, cast_ScAdd, cast_ScMul, cast_lagrangeTimes, on_f, map_cons,
        sum_cons]
      ring
  rw [returns, sum, value_scZero, Nat.cast_zero, zero_add, ← Fin.sum_univ_def,
    eval_zero_eq_sum distinct degree]

end Combine

end ThresholdDsa.Ed
