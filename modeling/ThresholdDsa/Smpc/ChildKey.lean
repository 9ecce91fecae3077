/-
# Keys derived along an input code

An input code `m/x1/…/xk` names a key below a root key.  Each level hashes the
public key so far and the next index with the chain code as key; the left half of
the digest is added to the share and, times the base point, to the public key, the
right half is the next chain code.

The loop stands three times in the source: in the handler of a PreSign request
(`presignChild`), in the handler of SignData (`signChild`) and in
`GetBip32ChildKey`.  They differ in what they look up before.  A nil public key is
`none`; using it panics.

`child_shares_interpolate`: along a path without degenerate additions all three
compute one child key, and the shares of the PreSign handler, weighted as round 1
of signing weights them, add up to its discrete logarithm.
-/
import ThresholdDsa.Ec2.Vss2
import ThresholdDsa.Secp256k1.Marshal

namespace ThresholdDsa.Smpc.ChildKey

open Outcome GoText Ec2 Secp256k1

def utf8 (text : Text) : Bytes := text.flatMap String.utf8EncodeChar

structure PubKeyData where
  Key : Text
  Pub : Bytes
  (Save GroupID : Text)
  deriving DecidableEq

/-- What the general database holds under a key: key data, or a record of another type. -/
inductive Value where
  | pubKey (pd : PubKeyData)
  | other
  deriving DecidableEq

def Value.pubKeyData : Value → Option PubKeyData
  | .pubKey pd => some pd
  | .other => none

/-- `GetPubKeyData`, `getSkU1FromLocalDb` and `getBip32cFromLocalDb`. -/
structure KeyDb where
  pubKey : Bytes → Option Value
  (skU1 bip32c : Bytes → Option Bytes)

section Derivation

variable (S : CurveOps) (hmac : Bytes → Bytes → Bytes)

/-- The variables of the loop. -/
structure Level where
  childSKU1 : ℤ
  childPK : Option (ℤ × ℤ)
  TRb : Bytes

/-- The digest of one level. -/
def levelDigest (TRb : Bytes) (pk : ℤ × ℤ) (index : Text) : Bytes :=
  hmac TRb (intBytes pk.1 ++ intBytes pk.2 ++ utf8 index)

def TL (T : Bytes) : ℤ := setBytes (T.take 32)

def deriveLevel (l : Level) (index : Text) : Outcome Level := do
  let pk ← deref l.childPK
  let T := levelDigest hmac l.TRb pk index
  let TLG ← deref (S.ScalarBaseMult (TL T).natAbs)
  pure { childSKU1 := (TL T + l.childSKU1) % S.N
         childPK := S.Add TLG pk
         TRb := T.drop 32 }

/-- The loop over the indices after the first. -/
def derive (l : Level) (inputCode : Text) : Outcome Level :=
  ((inputCode.splitOn '/').drop 1).foldlM (deriveLevel S hmac) l

structure PreSign where
  (Pub InputCode Gid Nonce : Text)
  Index : ℤ
  deriving DecidableEq

/-- The share and the public key that a PreSign request is run with. -/
def presignChild (db : KeyDb) (ps : PreSign) : Outcome (ℤ × Option (ℤ × ℤ)) := do
  let smpcpks ← orError "encoding/hex" (hexBytes ps.Pub)
  let pd ← orError "get presign data from db fail" ((db.pubKey smpcpks).bind Value.pubKeyData)
  let da2 ← orError "presign get sku1 fail" (db.skU1 smpcpks)
  let sku1 := setBytes da2
  let pk := Unmarshal pd.Pub
  if ps.InputCode ≠ [] then do
    let da4 ← orError "presign get bip32 fail" (db.bip32c smpcpks)
    let l ← derive S hmac ⟨sku1, pk, intBytes (setBytes da4)⟩ ps.InputCode
    pure (l.childSKU1, l.childPK)
  else pure (sku1, pk)

structure SignData where
  InputCodeT : Text
  Sku1 : ℤ
  Pk : ℤ × ℤ

/-- The public key that a SignData request is signed for. -/
def signChild (db : KeyDb) (sd : SignData) : Outcome (Option (ℤ × ℤ)) :=
  if sd.InputCodeT ≠ [] then do
    let da3 ← orError "presign get bip32 fail" (db.bip32c (Marshal sd.Pk))
    let l ← derive S hmac ⟨sd.Sku1, some sd.Pk, intBytes (setBytes da3)⟩ sd.InputCodeT
    pure l.childPK
  else pure (some sd.Pk)

/-- An address fails for the empty text only. -/
def GetSmpcAddr (pubkey : Text) : Outcome Unit := require (pubkey ≠ []) "pubkey is nil"

def GetBip32ChildKey (db : KeyDb) (rootpubkey inputcode : Text) : Outcome Text := do
  require (rootpubkey ≠ [] ∧ inputcode ≠ []) "param error"
  let indexs := inputcode.splitOn '/'
  require (rootpubkey.length = 130 ∧ 2 ≤ indexs.length ∧ indexs.head? = some ['m']) "param error"
  let smpcpks ← orError "encoding/hex" (hexBytes rootpubkey)
  let da ← orError "get bip32 child key,not exist pubkey data" (db.pubKey smpcpks)
  let pd ← orError "get bip32 child key,pubkey data error" da.pubKeyData
  let pk := Unmarshal pd.Pub
  let da2 ← orError "get sku1 fail" (db.skU1 smpcpks)
  let da3 ← orError "get bip32c fail" (db.bip32c smpcpks)
  let l ← derive S hmac ⟨setBytes da2, pk, intBytes (setBytes da3)⟩ inputcode
  let childPK ← deref l.childPK
  let pubkeyhex := hexText (Marshal childPK)
  GetSmpcAddr pubkeyhex
  pure pubkeyhex

end Derivation

/-! ## The loop adds one offset to share and key -/

section

variable {S : CurveOps} {E : Type} [AddCommGroup E] [Module (ZMod S.N) E] (C : S.Model E)
  (hmac : Bytes → Bytes → Bytes)

/-- Every left half is a scalar from 1 to `N - 1`, and every addition has a result. -/
def GoodPath (S : CurveOps) : (pk : ℤ × ℤ) → (TRb : Bytes) → List Text → Prop
  | _, _, [] => True
  | pk, TRb, index :: rest =>
    let T := levelDigest hmac TRb pk index
    0 < TL T ∧ TL T < S.N ∧ ∃ childPK,
      (S.ScalarBaseMult (TL T).natAbs).bind (S.Add · pk) = some childPK ∧
      GoodPath S childPK (T.drop 32) rest

variable {hmac}

/-- One level: the offset is the left half of the digest, whatever the share. -/
theorem deriveLevel_eq_ok {pk childPK : ℤ × ℤ} {P : E} (P_ne : P ≠ 0) (pk_eq : pk = C.xy P)
    {TRb : Bytes} {index : Text} (pos : 0 < TL (levelDigest hmac TRb pk index))
    (small : TL (levelDigest hmac TRb pk index) < S.N)
    (added : (S.ScalarBaseMult (TL (levelDigest hmac TRb pk index)).natAbs).bind (S.Add · pk) =
      some childPK) :
    ∃ d : ZMod S.N, P + d • C.g ≠ 0 ∧ childPK = C.xy (P + d • C.g) ∧ ∀ share : ℤ,
      ∃ share' : ℤ, (share' : ZMod S.N) = share + d ∧
        deriveLevel S hmac ⟨share, some pk, TRb⟩ index =
          .ok ⟨share', some childPK, (levelDigest hmac TRb pk index).drop 32⟩ := by
  generalize levelDigest_eq : levelDigest hmac TRb pk index = T at pos small added
  obtain ⟨TLG, multiplied, sum⟩ := Option.bind_eq_some_iff.mp added
  obtain ⟨-, -, rfl⟩ := C.baseMult_eq_some_iff.mp multiplied
  have d_eq : (((TL T).natAbs : ℕ) : ZMod S.N) = ((TL T : ℤ) : ZMod S.N) :=
    CurveOps.Model.natAbs_cast pos.le
  have TLG_ne := C.smul_ne_zero C.g_ne_zero (k := (TL T).natAbs) (by omega) (by omega)
  rw [d_eq] at TLG_ne sum
  have read := sum
  rw [pk_eq] at read
  obtain ⟨-, not_opposite, childPK_eq⟩ := (C.add_eq_some_iff TLG_ne P_ne).mp read
  refine ⟨((TL T : ℤ) : ZMod S.N), ?_, ?_, fun share => ⟨(TL T + share) % S.N, ?_, ?_⟩⟩
  · intro zero
    exact not_opposite (eq_neg_of_add_eq_zero_right zero)
  · rw [childPK_eq, add_comm]
  · rw [ZMod.intCast_mod]
    push_cast
    ring
  · rw [← d_eq] at sum
    simp only [deriveLevel, deref, levelDigest_eq, multiplied, sum, ok_bind]
    rfl

/-- The whole path, for every share at once. -/
theorem foldlM_deriveLevel_eq_ok {indexs : List Text} {pk : ℤ × ℤ} {P : E} (P_ne : P ≠ 0)
    (pk_eq : pk = C.xy P) {TRb : Bytes} (good : GoodPath hmac S pk TRb indexs) :
    ∃ (d : ZMod S.N) (TRb' : Bytes), P + d • C.g ≠ 0 ∧ ∀ share : ℤ, ∃ share' : ℤ,
      (share' : ZMod S.N) = share + d ∧
        indexs.foldlM (deriveLevel S hmac) ⟨share, some pk, TRb⟩ =
          .ok ⟨share', some (C.xy (P + d • C.g)), TRb'⟩ := by
  induction indexs generalizing pk P TRb with
  | nil =>
    refine ⟨0, TRb, by simpa using P_ne, fun share => ⟨share, by simp, ?_⟩⟩
    rw [zero_smul, add_zero, ← pk_eq]
    rfl
  | cons index rest ih =>
    obtain ⟨pos, small, childPK, added, good⟩ := good
    obtain ⟨d, child_ne, child_eq, level⟩ := deriveLevel_eq_ok C P_ne pk_eq pos small added
    obtain ⟨d', TRb', last_ne, path⟩ := ih child_ne child_eq good
    refine ⟨d + d', TRb', ?_, fun share => ?_⟩
    · rwa [add_smul, ← add_assoc]
    · obtain ⟨share', share'_eq, level_ok⟩ := level share
      obtain ⟨share'', share''_eq, path_ok⟩ := path share'
      refine ⟨share'', by rw [share''_eq, share'_eq, add_assoc], ?_⟩
      rw [List.foldlM_cons, level_ok, ok_bind, path_ok, add_smul, ← add_assoc]

end

/-! ## A group with shares of one root key -/

/-- The node has key data, share and chain code of the root key. -/
structure Holds (db : KeyDb) (pk : ℤ × ℤ) (share : ℤ) (bip32c : Bytes) : Prop where
  pubKey : ∃ pd, db.pubKey (Marshal pk) = some (.pubKey pd) ∧ pd.Pub = Marshal pk
  skU1 : ∃ da, db.skU1 (Marshal pk) = some da ∧ setBytes da = share
  bip32c : db.bip32c (Marshal pk) = some bip32c

section

variable {S : CurveOps} {hmac : Bytes → Bytes → Bytes} {db : KeyDb} {pk : ℤ × ℤ} {share : ℤ}
  {bip32c : Bytes} {inputCode : Text}

theorem presignChild_of_holds (fits : Fits pk) (holds : Holds db pk share bip32c)
    (nonempty : inputCode ≠ []) {l : Level}
    (derived : derive S hmac ⟨share, some pk, intBytes (setBytes bip32c)⟩ inputCode = .ok l)
    (gid nonce : Text) (index : ℤ) :
    presignChild S hmac db ⟨hexText (Marshal pk), inputCode, gid, nonce, index⟩ =
      .ok (l.childSKU1, l.childPK) := by
  obtain ⟨pd, pubKey, Pub_eq⟩ := holds.pubKey
  obtain ⟨da, skU1, share_eq⟩ := holds.skU1
  simp only [presignChild, hexBytes_hexText, orError, ok_bind, pubKey, Option.bind_some,
    Value.pubKeyData, skU1, share_eq, Pub_eq, unmarshal_marshal fits, ne_eq, nonempty,
    not_false_eq_true, if_true, holds.bip32c, derived]
  rfl

theorem signChild_of_holds (holds : Holds db pk share bip32c) (nonempty : inputCode ≠ []) {l : Level}
    {sku1 : ℤ} (derived : derive S hmac ⟨sku1, some pk, intBytes (setBytes bip32c)⟩ inputCode = .ok l) :
    signChild S hmac db ⟨inputCode, sku1, pk⟩ = .ok l.childPK := by
  simp only [signChild, ne_eq, nonempty, not_false_eq_true, if_true, holds.bip32c, orError, ok_bind,
    derived]
  rfl

theorem getBip32ChildKey_of_holds (fits : Fits pk) (holds : Holds db pk share bip32c)
    {indexs : List Text} (path : inputCode.splitOn '/' = ['m'] :: indexs) (below : indexs ≠ [])
    {l : Level} {childPK : ℤ × ℤ} (child : l.childPK = some childPK)
    (derived : derive S hmac ⟨share, some pk, intBytes (setBytes bip32c)⟩ inputCode = .ok l) :
    GetBip32ChildKey S hmac db (hexText (Marshal pk)) inputCode = .ok (hexText (Marshal childPK)) := by
  obtain ⟨pd, pubKey, Pub_eq⟩ := holds.pubKey
  obtain ⟨da, skU1, share_eq⟩ := holds.skU1
  have length (q : ℤ × ℤ) : (hexText (Marshal q)).length = 130 := by
    rw [length_hexText, length_marshal]
  have written (q : ℤ × ℤ) : hexText (Marshal q) ≠ [] := by
    intro empty
    have := length q
    rw [empty] at this
    cases this
  have nonempty : inputCode ≠ [] := by
    rintro rfl
    cases path
  have levels : 2 ≤ (['m'] :: indexs).length := by
    have := List.length_pos_iff.mpr below
    simp only [List.length_cons]
    omega
  simp only [GetBip32ChildKey, GetSmpcAddr, require, written, nonempty, length, path, levels, ne_eq,
    not_false_eq_true, and_self, List.head?_cons, hexBytes_hexText, orError, pubKey,
    Value.pubKeyData, skU1, share_eq, holds.bip32c, Pub_eq, unmarshal_marshal fits, derived, child,
    deref, ok_bind]
  rfl

end

open Polynomial in
/-- Along a good path the three loops compute one child key at every node, the key and the shares are
those of the root with one number added, and over any signers that are enough for the root key the
weighted child shares add up to the child's discrete logarithm. -/
theorem child_shares_interpolate {S : CurveOps} {E : Type} [AddCommGroup E] [Module (ZMod S.N) E]
    (C : S.Model E) (fits : ∀ {p : E}, p ≠ 0 → Fits (C.xy p)) (hmac : Bytes → Bytes → Bytes)
    {n t : ℕ} {dbs : Fin n → KeyDb} {ids shares : Fin n → ℤ} {bip32c : Bytes} {root : E}
    {f : (ZMod S.N)[X]} (degree : f.degree < t)
    (on_f : ∀ i, (shares i : ZMod S.N) = f.eval (ids i : ZMod S.N))
    (root_eq : f.eval 0 • C.g = root) (root_ne : root ≠ 0)
    (holds : ∀ i, Holds (dbs i) (C.xy root) (shares i) bip32c)
    {inputCode : Text} {indexs : List Text} (path : inputCode.splitOn '/' = ['m'] :: indexs)
    (below : indexs ≠ []) (good : GoodPath hmac S (C.xy root) (intBytes (setBytes bip32c)) indexs) :
    ∃ (child : E) (childShares : Fin n → ℤ),
      (∃ d : ZMod S.N, child = root + d • C.g ∧ ∀ i, (childShares i : ZMod S.N) = shares i + d) ∧
      (∀ i gid nonce index, presignChild S hmac (dbs i)
        ⟨hexText (Marshal (C.xy root)), inputCode, gid, nonce, index⟩ =
          .ok (childShares i, some (C.xy child))) ∧
      (∀ i sku1, signChild S hmac (dbs i) ⟨inputCode, sku1, C.xy root⟩ = .ok (some (C.xy child))) ∧
      (∀ i, GetBip32ChildKey S hmac (dbs i) (hexText (Marshal (C.xy root))) inputCode =
        .ok (hexText (Marshal (C.xy child)))) ∧
      ∀ {m : ℕ} (signers : Fin m → Fin n), t ≤ m →
        (Function.Injective fun k => (ids (signers k) : ZMod S.N)) →
        ∃ w1 : Fin m → ℤ,
          (∀ k, ∃ lambda1, calcTimes S (fun k => ids (signers k)) k = .ok lambda1 ∧
            w1 k = lambda1 * childShares (signers k) % S.N) ∧
          (∑ k, (w1 k : ZMod S.N)) • C.g = child := by
  have := Fact.mk C.prime
  obtain ⟨d, TRb', child_ne, run⟩ := foldlM_deriveLevel_eq_ok C root_ne rfl good
  have derived (share : ℤ) : ∃ share' : ℤ, (share' : ZMod S.N) = share + d ∧
      derive S hmac ⟨share, some (C.xy root), intBytes (setBytes bip32c)⟩ inputCode =
        .ok ⟨share', some (C.xy (root + d • C.g)), TRb'⟩ := by
    obtain ⟨share', share'_eq, ran⟩ := run share
    refine ⟨share', share'_eq, ?_⟩
    rw [derive, path]
    exact ran
  choose childOf childOf_eq derived using derived
  have nonempty : inputCode ≠ [] := by
    rintro rfl
    cases path
  refine ⟨root + d • C.g, fun i => childOf (shares i), ⟨d, rfl, fun i => childOf_eq _⟩,
    ?_, ?_, ?_, ?_⟩
  · intro i gid nonce index
    exact presignChild_of_holds (fits root_ne) (holds i) nonempty (derived _) gid nonce index
  · exact fun i sku1 => signChild_of_holds (holds i) nonempty (derived sku1)
  · exact fun i => getBip32ChildKey_of_holds (fits root_ne) (holds i) path below rfl (derived _)
  intro m signers enough distinct
  choose lambda1 times lambda1_eq using fun k => calcTimes_eq_ok distinct k
  refine ⟨fun k => lambda1 k * childOf (shares (signers k)) % S.N,
    fun k => ⟨lambda1 k, times k, rfl⟩, ?_⟩
  -- the child shares lie on `f + d`, which has the degree of `f` as `t` is not zero
  have positive : 0 < t := by
    by_contra zero
    have f_zero : f = 0 := by
      rw [← degree_eq_bot]
      rw [Nat.eq_zero_of_not_pos zero] at degree
      exact Nat.WithBot.lt_zero_iff.mp degree
    rw [f_zero, eval_zero, zero_smul] at root_eq
    exact root_ne root_eq.symm
  have shifted : (f + Polynomial.C d).degree < m := by
    have small : (t : WithBot ℕ) ≤ m := by exact_mod_cast enough
    have constant : (Polynomial.C d).degree < (t : WithBot ℕ) :=
      degree_C_le.trans_lt (by exact_mod_cast positive)
    exact (degree_add_le _ _).trans_lt ((max_lt degree constant).trans_le small)
  have sum := Interpolation.eval_zero_eq_sum distinct shifted
  rw [eval_add, eval_C] at sum
  have log : ∑ k, ((lambda1 k * childOf (shares (signers k)) % S.N : ℤ) : ZMod S.N) =
      f.eval 0 + d := by
    rw [sum]
    refine Finset.sum_congr rfl fun k _ => ?_
    rw [ZMod.intCast_mod, Int.cast_mul, childOf_eq, on_f, lambda1_eq, eval_add, eval_C, mul_comm]
  rw [log, add_smul, root_eq]

/-! ## Two nodes over the integers modulo 7 -/

namespace Small

/-- Every left half is 2. -/
def hmac (_ _ : Bytes) : Bytes := List.replicate 31 0 ++ [2]

/-- The shares 2 and 3 of the polynomial `X + 1`. -/
def db (i : Fin 2) : KeyDb where
  pubKey key := if key = Marshal (1, 1) then some (.pubKey ⟨[], Marshal (1, 1), [], []⟩) else none
  skU1 key := if key = Marshal (1, 1) then some [UInt8.ofNat (i + 2)] else none
  bip32c key := if key = Marshal (1, 1) then some [9] else none

instance prime_seven : Fact (Nat.Prime 7) := ⟨by norm_num⟩

theorem holds (i : Fin 2) : Holds (db i) ((zmodModel 7).xy 1) (i + 2) [9] := by
  have root : (zmodModel 7).xy 1 = (1, 1) := rfl
  rw [root]
  refine ⟨⟨⟨[], Marshal (1, 1), [], []⟩, by simp [db], rfl⟩, ⟨[UInt8.ofNat (i + 2)], by simp [db], ?_⟩,
    by simp [db]⟩
  fin_cases i <;> rfl

theorem fits {p : ZMod 7} (_ : p ≠ 0) : Fits ((zmodModel 7).xy p) := by
  have small : p.val < 7 := ZMod.val_lt p
  show 0 ≤ (p.val : ℤ) ∧ (p.val : ℤ) < 256 ^ 32 ∧ (0 : ℤ) ≤ 1 ∧ (1 : ℤ) < 256 ^ 32
  omega

end Small

open Polynomial in
theorem child_shares_interpolate_two_nodes :
    ∃ (child : ZMod 7) (childShares w1 : Fin 2 → ℤ),
      (∀ i gid nonce index, presignChild (zmodCurve 7) Small.hmac (Small.db i)
        ⟨hexText (Marshal ((zmodModel 7).xy 1)), ['m', '/', '5'], gid, nonce, index⟩ =
          .ok (childShares i, some ((zmodModel 7).xy child))) ∧
      (∀ k, ∃ lambda1, calcTimes (zmodCurve 7) (fun i : Fin 2 => (i : ℤ) + 1) k = .ok lambda1 ∧
        w1 k = lambda1 * childShares k % (zmodCurve 7).N) ∧
      (∑ k, (w1 k : ZMod (zmodCurve 7).N)) • (zmodModel 7).g = child := by
  have degree : (X + Polynomial.C 1 : (ZMod (zmodCurve 7).N)[X]).degree < (2 : ℕ) := by
    have := Fact.mk (zmodModel 7).prime
    rw [degree_X_add_C]
    decide
  have on_f : ∀ i : Fin 2, (((i : ℤ) + 2 : ℤ) : ZMod (zmodCurve 7).N) =
      (X + Polynomial.C 1 : (ZMod (zmodCurve 7).N)[X]).eval
        (((i : ℤ) + 1 : ℤ) : ZMod (zmodCurve 7).N) := by
    intro i
    rw [eval_add, eval_X, eval_C]
    push_cast
    ring
  have root : (X + Polynomial.C 1 : (ZMod (zmodCurve 7).N)[X]).eval 0 • (zmodModel 7).g = 1 := by
    rw [eval_add, eval_X, eval_C]
    decide
  have path : ['m', '/', '5'].splitOn '/' = ['m'] :: [['5']] := by decide
  have good : GoodPath Small.hmac (zmodCurve 7) ((zmodModel 7).xy 1) (intBytes (setBytes [9]))
      [['5']] :=
    ⟨by decide, by decide, (3, 1), by decide, trivial⟩
  obtain ⟨child, childShares, -, presign, -, -, interpolate⟩ := child_shares_interpolate
    (zmodModel 7) Small.fits Small.hmac degree on_f root (by decide) Small.holds path (by decide) good
  obtain ⟨w1, weighted, sum⟩ := interpolate id le_rfl (by decide)
  exact ⟨child, childShares, w1, presign, weighted, sum⟩

end ThresholdDsa.Smpc.ChildKey
