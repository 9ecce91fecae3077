/-
# Signing for a derived key

`smpcGenPubKey` stores key data, share and chain code under the root public key.  A
SIGN command names the root key and an input code.  `HandleRPCSign` picks pre-sign
data under root key and input code, `sign` reads the root key's data, and for each
hash `SignEC3` reads key data and share once more, under the derived public key.

Nothing stores data under a derived key.  `child_sign_returns` says when a command
whose rounds succeed returns: exactly if there are enough pre-sign data under the
input code, the derived key is itself a stored one, and the numbers of the
signatures are not too short.  `child_sign_fails`: the child `m/5` of a key that was
generated and stored, with pre-sign data, cannot be signed for.  And requests for
pre-sign data leave none under an input code (`entries_child_eq_empty`).
-/
import ThresholdDsa.Smpc.PreSignRequest
import ThresholdDsa.Smpc.SignResults

namespace ThresholdDsa.Smpc.ChildSign

open Outcome GoText Ec2 Secp256k1 ChildKey DbThreads Finalize Function List

/-! ## What a generated key leaves in the databases -/

/-- A key that the rounds have generated.  The data are also stored under the digests of its
addresses. -/
structure Generated where
  pk : ℤ × ℤ
  (Key Save GroupID : Text)
  (sku1 bip32c : Bytes)
  addresses : List Bytes
  group_ne : GroupID ≠ []

def Generated.keys (g : Generated) : List Bytes := Marshal g.pk :: g.addresses

/-- The database after `smpcGenPubKey`. -/
def smpcGenPubKey (g : Generated) (db : KeyDb) : KeyDb where
  pubKey key :=
    if key ∈ g.keys then some (.pubKey ⟨g.Key, Marshal g.pk, g.Save, g.GroupID⟩) else db.pubKey key
  skU1 key := if key ∈ g.keys then some g.sku1 else db.skU1 key
  bip32c key := if key ∈ g.keys then some g.bip32c else db.bip32c key

/-- Key data and share that `SignEC3` accepts. -/
def KeyStored (db : KeyDb) (pk : ℤ × ℤ) : Prop :=
  ∃ pubs da2, db.pubKey (Marshal pk) = some (.pubKey pubs) ∧ pubs.GroupID ≠ [] ∧
    db.skU1 (Marshal pk) = some da2

theorem holds_smpcGenPubKey (g : Generated) (db : KeyDb) :
    Holds (smpcGenPubKey g db) g.pk (setBytes g.sku1) g.bip32c ∧ KeyStored (smpcGenPubKey g db) g.pk := by
  have mem : Marshal g.pk ∈ g.keys := mem_cons_self
  have pubKey : (smpcGenPubKey g db).pubKey (Marshal g.pk) =
      some (.pubKey ⟨g.Key, Marshal g.pk, g.Save, g.GroupID⟩) := by simp [smpcGenPubKey, mem]
  have skU1 : (smpcGenPubKey g db).skU1 (Marshal g.pk) = some g.sku1 := by simp [smpcGenPubKey, mem]
  have bip32c : (smpcGenPubKey g db).bip32c (Marshal g.pk) = some g.bip32c := by
    simp [smpcGenPubKey, mem]
  exact ⟨⟨⟨_, pubKey, rfl⟩, ⟨_, skU1, rfl⟩, bip32c⟩, _, _, pubKey, g.group_ne, skU1⟩

/-! ## The derived key -/

/-- The public key at the end of a path. -/
def childKey (S : CurveOps) (hmac : Bytes → Bytes → Bytes) :
    (pk : ℤ × ℤ) → (TRb : Bytes) → List Text → Option (ℤ × ℤ)
  | pk, _, [] => some pk
  | pk, TRb, index :: rest =>
    let T := levelDigest hmac TRb pk index
    ((S.ScalarBaseMult (TL T).natAbs).bind (S.Add · pk)).bind fun pk' =>
      childKey S hmac pk' (T.drop 32) rest

section Derived

variable {S : CurveOps} {hmac : Bytes → Bytes → Bytes}

theorem deriveLevel_iff {l l' : Level} {index : Text} :
    deriveLevel S hmac l index = .ok l' ↔
      ∃ pk TLG, l.childPK = some pk ∧
        S.ScalarBaseMult (TL (levelDigest hmac l.TRb pk index)).natAbs = some TLG ∧
        ⟨(TL (levelDigest hmac l.TRb pk index) + l.childSKU1) % S.N, S.Add TLG pk,
          (levelDigest hmac l.TRb pk index).drop 32⟩ = l' := by
  simp only [deriveLevel, eq_ok]
  constructor
  · rintro ⟨pk, read, TLG, scaled, eq⟩
    exact ⟨pk, TLG, read, scaled, eq⟩
  · rintro ⟨pk, TLG, read, scaled, eq⟩
    exact ⟨pk, read, TLG, scaled, eq⟩

variable {indexs : List Text}

/-- Without a point there is no further level. -/
theorem foldlM_deriveLevel_none {l l' : Level} (none : l.childPK = none)
    (ran : indexs.foldlM (deriveLevel S hmac) l = .ok l') : l'.childPK = .none := by
  cases indexs with
  | nil =>
    obtain rfl := Except.ok.inj ran
    exact none
  | cons =>
    obtain ⟨_, level, -⟩ := bind_eq_ok.mp ran
    obtain ⟨pk, -, read, -⟩ := deriveLevel_iff.mp level
    rw [none] at read
    cases read

variable {child pk : ℤ × ℤ}

theorem foldlM_deriveLevel_iff {TRb : Bytes} (share : ℤ) :
    (∃ l, indexs.foldlM (deriveLevel S hmac) ⟨share, some pk, TRb⟩ = .ok l ∧ l.childPK = some child) ↔
      childKey S hmac pk TRb indexs = some child := by
  induction indexs generalizing pk share TRb with
  | nil => simp [childKey, pure_eq_ok]
  | cons index rest ih =>
    simp only [childKey, Option.bind_eq_some_iff]
    constructor
    · rintro ⟨l, ran, last⟩
      obtain ⟨l', level, path⟩ := bind_eq_ok.mp ran
      obtain ⟨_, TLG, read, scaled, rfl⟩ := deriveLevel_iff.mp level
      obtain rfl := Option.some.inj read
      cases added : S.Add TLG pk with
      | none =>
        rw [foldlM_deriveLevel_none added path] at last
        cases last
      | some pk' =>
        rw [added] at path
        exact ⟨pk', ⟨TLG, scaled, added⟩, (ih _).mp ⟨l, path, last⟩⟩
    · rintro ⟨pk', ⟨TLG, scaled, added⟩, path⟩
      obtain ⟨l, ran, last⟩ := (ih ((TL (levelDigest hmac TRb pk index) + share) % S.N)).mpr path
      rw [← added] at ran
      exact ⟨l, bind_eq_ok.mpr ⟨_, deriveLevel_iff.mpr ⟨pk, TLG, rfl, scaled, rfl⟩, ran⟩, last⟩

/-- The public key of a SignData request is the one at the end of its input code. -/
theorem signChild_iff {db : KeyDb} {share sku1 : ℤ} {bip32c : Bytes} {code : Text}
    (holds : Holds db pk share bip32c) (nonempty : code ≠ []) :
    signChild S hmac db ⟨code, sku1, pk⟩ = .ok (some child) ↔
      childKey S hmac pk (intBytes (setBytes bip32c)) ((code.splitOn '/').drop 1) = some child := by
  rw [← foldlM_deriveLevel_iff sku1]
  simp only [signChild, ne_eq, nonempty, not_false_eq_true, if_true, holds.bip32c, orError, ok_bind,
    eq_ok, derive]

end Derived

/-! ## Picking pre-sign data -/

section

variable {K : Type} [DecidableEq K] {S : PreSignStore K} {p : Place} {predb : K → Option PreSignData}

variable (S p predb) in
/-- The keys of a place that hold pre-sign data. -/
def entries : Finset K :=
  ((List.range S.PrePubDataCount).filterMap (GetPreSignKey S p)).toFinset.filter fun key =>
    (predb key).isSome

theorem mem_entries {key : K} :
    key ∈ entries S p predb ↔
      (∃ index < S.PrePubDataCount, GetPreSignKey S p index = some key) ∧ ∃ v, predb key = some v := by
  simp [entries, Option.isSome_iff_exists]

theorem entries_update (key : K) :
    entries S p (update predb key none) = (entries S p predb).erase key := by
  ext k
  rw [Finset.mem_erase, mem_entries, mem_entries]
  by_cases same : k = key
  · simp [same]
  · simp [same]

variable (S p predb) in
/-- What a probe finds. -/
def hitAt (index : ℕ) : Option (ℕ × PreSignData) :=
  ((GetPreSignKey S p index).bind predb).map fun v => (index, v)

theorem exec_probe (index : ℕ) :
    (probe S (fun _ => true) p index).exec predb = (predb, hitAt S p predb index) := by
  unfold probe hitAt
  cases GetPreSignKey S p index with
  | none => rfl
  | some key =>
    simp only [Prog.exec, Option.bind_some]
    cases predb key with
    | none => rfl
    | some v => rfl

theorem exec_binarySearchPick (positive : 0 < S.PrePubDataCount) :
    (BinarySearchPick S p 0 (S.PrePubDataCount - 1)).exec predb =
      (predb, (List.range S.PrePubDataCount).findSome? (hitAt S p predb)) := by
  have count : S.PrePubDataCount - 1 + 1 - 0 = S.PrePubDataCount := by omega
  rw [BinarySearchPick, Prog.halving_eq_scan _ le_rfl, count, Prog.exec_scan exec_probe,
    range_eq_range']

/-- A pick takes an entry out, as long as there is one. -/
theorem exec_pick :
    (∃ key ∈ entries S p predb, ∃ v,
      (PickPreSignData S p).exec predb = (update predb key none, some v)) ∨
    (entries S p predb = ∅ ∧ ((PickPreSignData S p).exec predb).2 = none) := by
  unfold PickPreSignData
  split
  · rename_i unusable
    refine .inr ⟨Finset.eq_empty_of_forall_notMem fun key mem => ?_, rfl⟩
    obtain ⟨⟨index, index_lt, key_eq⟩, -⟩ := mem_entries.mp mem
    have keyless : p.pubkey = [] ∨ p.gid = [] := by
      rcases unusable with no_pub | no_gid | none_kept
      · exact .inl no_pub
      · exact .inr no_gid
      · omega
    rw [GetPreSignKey, if_pos keyless] at key_eq
    cases key_eq
  · rename_i usable
    rw [Prog.exec_bind, exec_binarySearchPick (by omega)]
    cases search : (List.range S.PrePubDataCount).findSome? (hitAt S p predb) with
    | none =>
      refine .inr ⟨Finset.eq_empty_of_forall_notMem fun key mem => ?_, rfl⟩
      obtain ⟨⟨index, index_lt, key_eq⟩, v, entry⟩ := mem_entries.mp mem
      have missed := findSome?_eq_none_iff.mp search index (mem_range.mpr index_lt)
      simp only [hitAt, key_eq, Option.bind_some, entry, Option.map_some] at missed
      cases missed
    | some hit =>
      obtain ⟨index, mem, found⟩ := exists_of_findSome?_eq_some search
      obtain ⟨v, read, rfl⟩ := Option.map_eq_some_iff.mp found
      obtain ⟨key, key_eq, entry⟩ := Option.bind_eq_some_iff.mp read
      refine .inl ⟨key, mem_entries.mpr ⟨⟨index, mem_range.mp mem, key_eq⟩, v, entry⟩, v, ?_⟩
      simp only [key_eq]
      rfl

/-- The loop picks for every hash exactly if there are as many entries as hashes. -/
theorem exec_rpcSignLoop (MsgHash : List Text) (pickdata : List PickHashData) :
    (MsgHash.length ≤ (entries S p predb).card ∧ ∃ picks, picks.map (·.Hash) = MsgHash ∧
      ((rpcSignLoop S p MsgHash pickdata).exec predb).2 = some (pickdata ++ picks)) ∨
    ((entries S p predb).card < MsgHash.length ∧
      ((rpcSignLoop S p MsgHash pickdata).exec predb).2 = none) := by
  induction MsgHash generalizing predb pickdata with
  | nil => exact .inl ⟨Nat.zero_le _, [], rfl, by rw [append_nil]; rfl⟩
  | cons vv rest ih =>
    rw [rpcSignLoop, Prog.exec_bind]
    rcases exec_pick (S := S) (p := p) with ⟨key, mem, v, picked⟩ | ⟨empty, missed⟩
    · have left : (entries S p (update predb key none)).card + 1 =
          (entries S p predb).card := by
        rw [entries_update, Finset.card_erase_add_one mem]
      rw [picked, length_cons, ← left]
      rcases @ih (update predb key none) (pickdata ++ [{ Hash := vv, Pre := v }]) with
        ⟨enough, picks, hashes, eq⟩ | ⟨few, eq⟩
      · refine .inl ⟨Nat.succ_le_succ enough, ⟨vv, v⟩ :: picks, by rw [map_cons, hashes], ?_⟩
        simp [eq]
      · exact .inr ⟨Nat.succ_lt_succ few, eq⟩
    · rw [missed, empty]
      exact .inr ⟨Nat.succ_pos _, rfl⟩

end

/-! ## The command -/

section

variable {K : Type} [DecidableEq K] (store : PreSignStore K) (E : Env) (P : Prims) (db : KeyDb)

def placeOf (sig : TxDataSign) : Place := ⟨sig.PubKey, sig.InputCode, sig.GroupID⟩

/-- The pre-sign data `HandleRPCSign` hands to the command; without them the command is dropped. -/
def HandleRPCSign (predb : K → Option PreSignData) (sig : TxDataSign) : Option (List PickHashData) := do
  let smpcpks ← hexBytes sig.PubKey
  let _ ← (db.pubKey smpcpks).bind Value.pubKeyData
  ((rpcSignLoop store (placeOf sig) (sig.MsgHash.getD []) []).exec predb).2

/-- The arguments that `sign` gives to `signEC`. -/
def callOf (wsid : Text) (sig : TxDataSign) (save : Text) (sku1 : ℤ) (pk : ℤ × ℤ)
    (pickdata : List PickHashData) : SignCall where
  msgprex := wsid
  txhash := sig.MsgHash.getD []
  save := save
  sku1 := sku1
  pk := pk
  inputcode := sig.InputCode
  keytype := sig.Keytype
  pickdata := pickdata
  GroupID := sig.GroupID

/-- The branch of `sign` for keys on the elliptic curve, up to the result.  The record of the command
is updated afterwards. -/
def sign (wsid : Text) (sig : TxDataSign) (pickdata : List PickHashData) (found : Bool)
    (events : List Finalize.Event) : Outcome Text := do
  let smpcpks ← orError "encoding/hex" (hexBytes sig.PubKey)
  let da ← orError "get sign data from db fail" (db.pubKey smpcpks)
  let pd ← orError "get sign data from db fail" da.pubKeyData
  let da2 ← orError "sign get sku1 fail" (db.skU1 smpcpks)
  let pk ← deref (Unmarshal pd.Pub)
  let result ← signEC E P db (callOf wsid sig pd.Save (setBytes da2) pk pickdata) found events
  require ((result.splitOn ':').all fun rsv => rsv = Finalize.NULL ∨ rsv.length = 130)
    "wrong size for smpc sig."
  pure result

end

/-! ## When a command returns -/

section

variable {K : Type} [DecidableEq K] {store : PreSignStore K} {E : Env} {P : Prims} {db : KeyDb}
  {predb : K → Option PreSignData} {sig : TxDataSign} {pk : ℤ × ℤ} {share : ℤ} {bip32c : Bytes}
  {tmp : List Text} {picks : List PickHashData}

/-- The public key of the command's input code. -/
def childOf (P : Prims) (pk : ℤ × ℤ) (bip32c : Bytes) (code : Text) : Option (ℤ × ℤ) :=
  childKey P.S P.hmac pk (intBytes (setBytes bip32c)) ((code.splitOn '/').drop 1)

/-- Rounds that give `s vv` for the hash `vv`. -/
def roundsOf (s : Text → ℤ) : Rounds := fun _ _ _ sd => some (s sd.Txhash)

/-- Every request ends, with these rounds and the command's worker in place, and every goroutine
returns. -/
structure RunsThrough (s : Text → ℤ) (n : ℕ) (events : List Finalize.Event) : Prop where
  only : ∀ e ∈ events, (∃ i, e = .ended i [roundsOf s] true) ∨ ∃ i, e = .returned i
  ends : ∀ i < n, .ended i [roundsOf s] true ∈ events
  returns : ∀ i < n, .returned i ∈ events

/-- The numbers that the rounds give make up signatures for the public key. -/
structure RoundsSucceed (E : Env) (P : Prims) (pickdata : List PickHashData) (child : ℤ × ℤ)
    (s : Text → ℤ) (tmp : List Text) : Prop where
  hash : ∀ vv ∈ tmp, (hexBytes vv).isSome
  verified : ∀ vv ∈ tmp, ∀ pick, Dispatch.pickFor E pickdata vv = some pick →
    Verify2 P.S pick.R (lowS P.S (s vv)) vv child = .ok true

/-- No number is two bytes short or more. -/
def FullSize (E : Env) (P : Prims) (pickdata : List PickHashData) (s : Text → ℤ) (tmp : List Text) : Prop :=
  ∀ vv ∈ tmp, ∀ pick, Dispatch.pickFor E pickdata vv = some pick →
    256 ^ 30 ≤ pick.R ∧ 256 ^ 30 ≤ lowS P.S (s vv)

theorem handleRPCSign_iff (holds : Holds db pk share bip32c) (pub : sig.PubKey = hexText (Marshal pk)) :
    (∃ picks, HandleRPCSign store db predb sig = some picks) ↔
      (sig.MsgHash.getD []).length ≤ (entries store (placeOf sig) predb).card := by
  obtain ⟨pd, pubKey, -⟩ := holds.pubKey
  have loop : HandleRPCSign store db predb sig =
      ((rpcSignLoop store (placeOf sig) (sig.MsgHash.getD []) []).exec predb).2 := by
    simp [HandleRPCSign, pub, hexBytes_hexText, pubKey, Value.pubKeyData]
  rw [loop]
  rcases exec_rpcSignLoop (S := store) (p := placeOf sig) (sig.MsgHash.getD []) [] with
    ⟨enough, picks, -, eq⟩ | ⟨few, eq⟩
  · exact ⟨fun _ => enough, fun _ => ⟨_, eq⟩⟩
  · rw [eq]
    exact ⟨by simp, fun enough => absurd enough (Nat.not_le.mpr few)⟩

theorem hashes_of_handleRPCSign (picked : HandleRPCSign store db predb sig = some picks) :
    picks.map (·.Hash) = sig.MsgHash.getD [] := by
  simp only [HandleRPCSign, Option.bind_eq_bind, Option.bind_eq_some_iff] at picked
  obtain ⟨-, -, -, -, loop⟩ := picked
  rcases exec_rpcSignLoop (S := store) (p := placeOf sig) (sig.MsgHash.getD []) [] with
    ⟨-, picks', hashes, eq⟩ | ⟨-, eq⟩
  · rw [eq, nil_append] at loop
    rwa [← Option.some.inj loop]
  · rw [eq] at loop
    cases loop

variable {s : Text → ℤ} {vv wsid save : Text}

/-- Every hash of the command finds its pick. -/
theorem pickFor_of_hashes (hashes : picks.map (·.Hash) = sig.MsgHash.getD [])
    (stripped : (sig.MsgHash.getD []).mapM Dispatch.stripHash = .ok tmp) (mem : vv ∈ tmp) :
    ∃ pick, Dispatch.pickFor E picks vv = some pick := by
  obtain ⟨hash, hash_mem, strip⟩ := exists_of_mem_forall₂ (mapM_eq_ok.mp stripped) mem
  rw [← hashes] at hash_mem
  obtain ⟨val, val_mem, rfl⟩ := mem_map.mp hash_mem
  have same : val.Hash = '0' :: 'x' :: vv ∨ val.Hash = vv := by
    unfold Dispatch.stripHash at strip
    split at strip
    · exact .inl (by rw [← pure_eq_ok.mp strip]; assumption)
    · exact .inr (by rw [← pure_eq_ok.mp strip]; assumption)
    · cases strip
  have found : (picks.find? fun val => E.folding.EqualFold val.Hash ('0' :: 'x' :: vv) ∨
      E.folding.EqualFold val.Hash vv).isSome := by
    rw [find?_isSome]
    refine ⟨val, val_mem, decide_eq_true ?_⟩
    rcases same with long | short
    · exact .inl (long ▸ E.folding.equalFold_refl _)
    · exact .inr (short ▸ E.folding.equalFold_refl _)
  obtain ⟨pick, eq⟩ := Option.isSome_iff_exists.mp found
  exact ⟨pick.Pre, by rw [Dispatch.pickFor, eq]; rfl⟩

variable (E P picks) in
theorem sign_iff (fits : Fits pk) (holds : Holds db pk share bip32c)
    (pub : sig.PubKey = hexText (Marshal pk)) :
    ∃ save, ∀ wsid found events ret, sign E P db wsid sig picks found events = .ok ret ↔
      signEC E P db (callOf wsid sig save share pk picks) found events = .ok ret ∧
        ∀ rsv ∈ ret.splitOn ':', rsv = Finalize.NULL ∨ rsv.length = 130 := by
  obtain ⟨pd, pubKey, Pub_eq⟩ := holds.pubKey
  obtain ⟨da2, skU1, rfl⟩ := holds.skU1
  refine ⟨pd.Save, fun wsid found events ret => ?_⟩
  simp only [sign, pub, hexBytes_hexText, orError, ok_bind, pubKey, Value.pubKeyData, skU1, Pub_eq,
    unmarshal_marshal fits, deref, eq_ok, all_eq_true, decide_eq_true_eq]
  constructor
  · rintro ⟨_, signed, -, sizes, rfl⟩
    exact ⟨signed, sizes⟩
  · rintro ⟨signed, sizes⟩
    exact ⟨ret, signed, (), sizes, rfl⟩

/-- The text of a signature for the public key of the input code. -/
def TextOf (E : Env) (P : Prims) (db : KeyDb) (childPK : Option (ℤ × ℤ)) (picks : List PickHashData)
    (s : Text → ℤ) (vv text : Text) : Prop :=
  ∃ pick child v, Dispatch.pickFor E picks vv = some pick ∧ childPK = some child ∧ KeyStored db child ∧
    Verify2 P.S pick.R (lowS P.S (s vv)) vv child = .ok true ∧
    text = GetSignString pick.R (lowS P.S (s vv)) v

variable {e : Finalize.Event}

section

variable (holds : Holds db pk share bip32c) (nonempty : sig.InputCode ≠ [])

include holds nonempty

theorem makes_textOf (only : (∃ i, e = .ended i [roundsOf s] true) ∨ ∃ i, e = .returned i) :
    Makes E P db (callOf wsid sig save share pk picks)
      (TextOf E P db (childOf P pk bip32c sig.InputCode) picks s) e := by
  rcases only with ⟨i, rfl⟩ | ⟨i, rfl⟩
  · intro vv pick text picked done
    obtain ⟨childPK, rounds, mem, derived, signed⟩ := doSignData_eq_ok done
    obtain ⟨child, rfl, made⟩ := signEC3_eq_ok signed
    obtain rfl := mem_singleton.mp mem
    obtain ⟨pubs, da2, _, stored, key_group, skU1, given, verified, v, eq⟩ := made.key
    obtain rfl := Option.some.inj given
    exact ⟨pick, child, v, picked, (signChild_iff holds nonempty).mp derived,
      ⟨pubs, da2, stored, key_group, skU1⟩, verified, eq⟩
  · trivial

theorem placed_textOf {n : ℕ} {events : List Finalize.Event} (through : RunsThrough s n events) :
    Placed (TextOf E P db (childOf P pk bip32c sig.InputCode) picks s) tmp
      (run E P db (callOf wsid sig save share pk picks) tmp start events) :=
  Placed.start.run fun e mem => makes_textOf holds nonempty (through.only e mem)

variable {childPK : Option (ℤ × ℤ)}

omit holds nonempty in
theorem TextOf.length_iff {text : Text}
    (made : TextOf E P db childPK picks s vv text) (N_le : P.S.N ≤ 256 ^ 32) {pick : PreSignData}
    (picked : Dispatch.pickFor E picks vv = some pick) :
    text.length = 130 ↔ 256 ^ 30 ≤ pick.R ∧ 256 ^ 30 ≤ lowS P.S (s vv) := by
  obtain ⟨_, child, v, picked', -, -, verified, rfl⟩ := made
  obtain rfl := Option.some.inj (picked.symm.trans picked')
  obtain ⟨r_range, s_range⟩ := verify2_range verified
  have N_le' : (P.S.N : ℤ) ≤ 256 ^ 32 := by exact_mod_cast N_le
  exact length_getSignString_iff (by omega) (by omega) (by omega) (by omega)

omit holds nonempty in
theorem TextOf.ne_NULL {text : Text}
    (made : TextOf E P db childPK picks s vv text) : text ≠ Finalize.NULL := by
  obtain ⟨pick, child, v, -, -, -, -, rfl⟩ := made
  intro null
  have mem : 'N' ∈ GetSignString pick.R (lowS P.S (s vv)) v := by
    rw [null]
    decide
  have := mem_hexChars_of_getSignString mem
  revert this
  decide

/-- The requests of a command for a stored child key append their signatures. -/
theorem appends_of_stored {child : ℤ × ℤ} (group : sig.GroupID ≠ [])
    (derived : childOf P pk bip32c sig.InputCode = some child) (stored : KeyStored db child)
    (succeed : RoundsSucceed E P picks child s tmp)
    (only : (∃ i, e = .ended i [roundsOf s] true) ∨ ∃ i, e = .returned i) :
    Appends E P db (callOf wsid sig save share pk picks) tmp e := by
  rcases only with ⟨i, rfl⟩ | ⟨i, rfl⟩
  · refine ⟨rfl, fun vv mem pick picked => ?_⟩
    obtain ⟨hashBytes, hash⟩ := Option.isSome_iff_exists.mp (succeed.hash vv mem)
    obtain ⟨pubs, da2, pubKey, key_group, skU1⟩ := stored
    have verified := succeed.verified vv mem pick picked
    have signed : ∃ text, SignEC3 P db (request (callOf wsid sig save share pk picks) vv pick)
        (some child) (roundsOf s) = .ok text :=
      signEC3_returns group hash pubKey key_group skU1 rfl verified
    obtain ⟨text, signed⟩ := signed
    exact ⟨text, doSignData_returns ((signChild_iff holds nonempty).mpr derived) signed⟩
  · trivial

end

theorem group_ne_of_entries (some_entry : 0 < (entries store (placeOf sig) predb).card) :
    sig.GroupID ≠ [] := by
  intro empty
  obtain ⟨key, mem⟩ := Finset.card_pos.mp some_entry
  obtain ⟨⟨index, -, key_eq⟩, -⟩ := mem_entries.mp mem
  rw [GetPreSignKey, if_pos (.inr empty)] at key_eq
  cases key_eq

end

/-- A command for a non-empty input code of a stored root key, whose rounds give valid signatures for
the derived key, returns exactly if it has no hash at all, or there are pre-sign data of the input
code for every hash, key data and share of the derived key itself are stored, and no number of a
signature is two bytes short. -/
theorem child_sign_returns {K : Type} [DecidableEq K] (store : PreSignStore K) (E : Env) (P : Prims)
    (N_le : P.S.N ≤ 256 ^ 32) {db : KeyDb} {predb : K → Option PreSignData} {pk : ℤ × ℤ} {share : ℤ}
    {bip32c : Bytes} (fits : Fits pk) (holds : Holds db pk share bip32c) (wsid : Text)
    {sig : TxDataSign} (pub : sig.PubKey = hexText (Marshal pk)) (code : sig.InputCode ≠ [])
    {tmp : List Text} (stripped : (sig.MsgHash.getD []).mapM Dispatch.stripHash = .ok tmp)
    {s : Text → ℤ} {events : List Finalize.Event} (through : RunsThrough s tmp.length events)
    (succeed : ∀ picks child, HandleRPCSign store db predb sig = some picks →
      childOf P pk bip32c sig.InputCode = some child → RoundsSucceed E P picks child s tmp) :
    (∃ picks ret, HandleRPCSign store db predb sig = some picks ∧
      sign E P db wsid sig picks true events = .ok ret) ↔
    (tmp ≠ [] →
      tmp.length ≤ (entries store (placeOf sig) predb).card ∧
      (∃ child, childOf P pk bip32c sig.InputCode = some child ∧ KeyStored db child) ∧
      ∀ picks, HandleRPCSign store db predb sig = some picks → FullSize E P picks s tmp) := by
  have lengths : (sig.MsgHash.getD []).length = tmp.length := (mapM_eq_ok.mp stripped).length_eq
  have enough : (∃ picks, HandleRPCSign store db predb sig = some picks) ↔
      tmp.length ≤ (entries store (placeOf sig) predb).card := lengths ▸ handleRPCSign_iff holds pub
  constructor
  · rintro ⟨picks, ret, picked, signed⟩ some_hash
    obtain ⟨save, iff⟩ := sign_iff E P picks fits holds pub
    obtain ⟨signed, sizes⟩ := (iff wsid true events ret).mp signed
    obtain ⟨tmp', stripped', full, entries⟩ := signEC_eq_ok signed
    obtain rfl : tmp = tmp' := Except.ok.inj (stripped.symm.trans stripped')
    refine ⟨enough.mp ⟨picks, picked⟩, ?_, ?_⟩
    · obtain ⟨vv, mem⟩ := exists_mem_of_ne_nil tmp some_hash
      obtain ⟨text, -, pick, child, v, -, derived, stored, -⟩ :=
        (placed_textOf holds code through).exists_entry full mem
      exact ⟨child, derived, stored⟩
    · intro picks' picked' vv mem pick pick_eq
      obtain rfl : picks = picks' := Option.some.inj (picked.symm.trans picked')
      obtain ⟨text, text_mem, made⟩ := (placed_textOf holds code through).exists_entry full mem
      have entry : text ∈ ret.splitOn ':' := by
        rw [entries]
        exact mem_append_left _ text_mem
      exact (made.length_iff N_le pick_eq).mp ((sizes text entry).resolve_left made.ne_NULL)
  · intro cond
    have picked : ∃ picks, HandleRPCSign store db predb sig = some picks := by
      rw [enough]
      by_cases no_hash : tmp = []
      · simp [no_hash]
      · exact (cond no_hash).1
    obtain ⟨picks, picked⟩ := picked
    obtain ⟨save, iff⟩ := sign_iff E P picks fits holds pub
    have appends : ∀ e ∈ events, Appends E P db (callOf wsid sig save share pk picks) tmp e := by
      intro e mem
      by_cases no_hash : tmp = []
      · rw [no_hash]
        rcases through.only e mem with ⟨i, rfl⟩ | ⟨i, rfl⟩
        · exact ⟨rfl, nofun⟩
        · trivial
      · obtain ⟨le, ⟨child, derived, stored⟩, -⟩ := cond no_hash
        have group := group_ne_of_entries ((length_pos_iff.mpr no_hash).trans_le le)
        exact appends_of_stored holds code group derived stored (succeed picks child picked derived)
          (through.only e mem)
    have full := full_run (fun vv mem => pickFor_of_hashes (hashes_of_handleRPCSign picked) stripped mem)
      (fun i i_lt => ⟨_, _, through.ends i i_lt⟩) appends
    obtain ⟨ret, signed⟩ := signEC_returns stripped through.returns full
    refine ⟨picks, ret, picked, (iff wsid true events ret).mpr ⟨signed, fun rsv mem => ?_⟩⟩
    obtain ⟨tmp', stripped', -, entries⟩ := signEC_eq_ok signed
    obtain rfl : tmp = tmp' := Except.ok.inj (stripped.symm.trans stripped')
    rw [entries] at mem
    rcases mem_append.mp mem with text_mem | null
    · right
      obtain ⟨order, -, placed⟩ := (placed_textOf holds code through).signed
      obtain ⟨i, -, vv, at_i, made⟩ := exists_of_mem_forall₂ placed.flip text_mem
      have vv_mem : vv ∈ tmp := mem_of_getElem? at_i
      obtain ⟨pick, pick_eq⟩ := pickFor_of_hashes (hashes_of_handleRPCSign picked) stripped vv_mem
      obtain ⟨-, -, sizes⟩ := cond (ne_nil_of_mem vv_mem)
      exact (made.length_iff N_le pick_eq).mpr (sizes picks picked vv vv_mem pick pick_eq)
    · exact .inl (mem_singleton.mp null)

/-! ## The pre-sign data that requests leave -/

section

variable {K : Type} [DecidableEq K] {R : PreSignRequest.Env K} {db : KeyDb}

/-- Every entry lies at a place without an input code. -/
def RootEntries (R : PreSignRequest.Env K) (predb : K → Option PreSignData) : Prop :=
  ∀ k v, predb k = some v → ∃ p index, p.inputcode = [] ∧ ':' ∉ p.pubkey ∧ ':' ∉ p.gid ∧
    GetPreSignKey R.store p index = some k

theorem RootEntries.step (groups : ∀ g, R.isGroup g = true → ':' ∉ g) {st : PreSignRequest.State K}
    (roots : RootEntries R st.predb) (e : PreSignRequest.Event K) :
    RootEntries R (PreSignRequest.step R db st e).predb := by
  cases e with
  | taken key =>
    intro k v entry
    have old : st.predb k = some v := by
      by_cases gone : k = key
      · simp [PreSignRequest.step, gone] at entry
      · simpa [PreSignRequest.step, gone] using entry
    exact roots k v old
  | request ps rounds sync =>
    rcases PreSignRequest.doReq_cases R db st
      (PreSignRequest.UnmarshalJSON (PreSignRequest.MarshalJSON ps)) rounds sync with same | ⟨key, stored⟩
    · rw [PreSignRequest.step, same]
      exact roots
    · intro k v entry
      rcases stored.entries k v entry with rfl | old
      · obtain ⟨index, key_eq⟩ := stored.key_eq
        exact ⟨_, index, rfl, stored.pub_free, groups _ stored.group, key_eq⟩
      · exact roots k v old

/-- Requests for pre-sign data leave none under an input code, so no command with one gets any. -/
theorem entries_child_eq_empty (H : PreSignRequest.StoreHashing R.store)
    (groups : ∀ g, R.isGroup g = true → ':' ∉ g) (events : List (PreSignRequest.Event K))
    {p : Place} (code : p.inputcode ≠ []) :
    entries R.store p (PreSignRequest.run R db events).predb = ∅ := by
  have from_state : ∀ (events : List (PreSignRequest.Event K)) (st : PreSignRequest.State K),
      RootEntries R st.predb → RootEntries R (events.foldl (PreSignRequest.step R db) st).predb := by
    intro events
    induction events with
    | nil => exact fun st roots => roots
    | cons e rest ih => exact fun st roots => ih _ (roots.step groups e)
  have roots : RootEntries R (PreSignRequest.run R db events).predb := by
    apply from_state
    intro k v entry
    cases entry
  refine Finset.eq_empty_of_forall_notMem fun key mem => ?_
  obtain ⟨⟨index, -, key_eq⟩, v, entry⟩ := mem_entries.mp mem
  obtain ⟨q, index', root, pub, gid, root_key⟩ := roots key v entry
  exact H.key_ne pub gid root code root_key key_eq rfl

open PreSignRequest in
theorem entries_child_eq_empty_requests :
    entries Small.store ⟨Small.rootpubkey, ['m', '/', '5'], ['9']⟩
      (run Small.env (ChildKey.Small.db 0) Small.requests).predb = ∅ :=
  entries_child_eq_empty (R := Small.env) Small.hashing Small.group_free _ (List.cons_ne_nil _ _)

end

/-! ## One key, two input codes -/

namespace OneKey

/-- The integers modulo `2 ^ 256`; every left half of a digest is 2. -/
def prims : Prims := ⟨zmodCurve (2 ^ 256), ChildKey.Small.hmac, fun _ _ _ _ _ _ => 0⟩

def generated : Generated where
  pk := (1, 1)
  Key := ['k']
  Save := ['s']
  GroupID := ['9']
  sku1 := [1]
  bip32c := [9]
  addresses := []
  group_ne := by decide

def db : KeyDb := smpcGenPubKey generated ⟨fun _ => none, fun _ => none, fun _ => none⟩

def hash : Text := '0' :: '4' :: List.replicate 62 '0'

def command (code : Text) : TxDataSign :=
  { modeOneData with
    PubKey := hexText (Marshal (1, 1)), InputCode := code, MsgHash := some [hash], GroupID := ['9'] }

def store : PreSignStore Text := { PreSignRequest.Small.store with PrePubDataCount := 1 }

def pre : PreSignData := ⟨['a'], 0, 2 ^ 250 + 1, 0, 0, ['9'], false, 0⟩

/-- There are pre-sign data of the input code. -/
def predb (code : Text) (key : Text) : Option PreSignData :=
  if some key = GetPreSignKey store (placeOf (command code)) 0 then some pre else none

def events (s : ℤ) : List Finalize.Event := [.ended 0 [roundsOf fun _ => s] true, .returned 0]

theorem runsThrough (s : ℤ) : RunsThrough (fun _ => s) 1 (events s) where
  only e mem := by
    rcases mem_pair.mp mem with rfl | rfl
    · exact .inl ⟨0, rfl⟩
    · exact .inr ⟨0, rfl⟩
  ends i i_lt := by
    obtain rfl := Nat.lt_one_iff.mp i_lt
    exact mem_cons_self
  returns i i_lt := by
    obtain rfl := Nat.lt_one_iff.mp i_lt
    exact mem_cons_of_mem _ mem_cons_self

theorem roundsSucceed {child : ℤ × ℤ} {s : ℤ}
    (verified : Verify2 prims.S pre.R (lowS prims.S s) hash child = .ok true) :
    RoundsSucceed modeOneEnv prims [⟨hash, pre⟩] child (fun _ => s) [hash] where
  hash vv mem := by
    rw [mem_singleton.mp mem]
    decide
  verified vv mem pick picked := by
    obtain rfl := mem_singleton.mp mem
    have found : Dispatch.pickFor modeOneEnv [⟨hash, pre⟩] hash = some pre := by decide +kernel
    obtain rfl := Option.some.inj (found.symm.trans picked)
    exact verified

end OneKey

open OneKey in
/-- The child key `m/5` is itself one that was generated. -/
theorem child_sign_returns_stored :
    let both := smpcGenPubKey generated
      (smpcGenPubKey { generated with pk := (3, 1) } ⟨fun _ => none, fun _ => none, fun _ => none⟩)
    ∃ picks ret, HandleRPCSign store both (predb "m/5".toList) (command "m/5".toList) = some picks ∧
      sign modeOneEnv prims both ['w'] (command "m/5".toList) picks true
        (OneKey.events (2 ^ 250 + 3)) = .ok ret := by
  intro both
  have picked : HandleRPCSign store both (predb "m/5".toList) (command "m/5".toList) =
      some [⟨hash, pre⟩] := by
    decide +kernel
  have derived : childOf prims (1, 1) [9] "m/5".toList = some (3, 1) := by decide +kernel
  have succeed : ∀ picks child, HandleRPCSign store both (predb "m/5".toList)
        (command "m/5".toList) = some picks →
      childOf prims (1, 1) [9] "m/5".toList = some child →
      RoundsSucceed modeOneEnv prims picks child (fun _ => 2 ^ 250 + 3) [hash] := by
    intro picks child picked' derived'
    obtain rfl := Option.some.inj (picked.symm.trans picked')
    obtain rfl := Option.some.inj (derived.symm.trans derived')
    exact roundsSucceed (by decide +kernel)
  have holds : Holds both (1, 1) 1 [9] := (holds_smpcGenPubKey generated _).1
  have stored : KeyStored both (3, 1) := ⟨_, _, rfl, by decide, rfl⟩
  have fits : Fits (1, 1) := by
    unfold Fits
    decide
  refine (child_sign_returns store modeOneEnv prims (by decide) fits holds ['w'] rfl (by decide) rfl
    (runsThrough (2 ^ 250 + 3)) succeed).mpr fun _ => ⟨by decide +kernel, ⟨_, derived, stored⟩, ?_⟩
  intro picks picked' vv mem pick pick_eq
  obtain rfl := Option.some.inj (picked.symm.trans picked')
  obtain rfl := mem_singleton.mp mem
  have found : Dispatch.pickFor modeOneEnv [⟨hash, pre⟩] hash = some pre := by decide +kernel
  obtain rfl := Option.some.inj (found.symm.trans pick_eq)
  decide

open OneKey in
/-- The child `m/5` of a key that was generated.  With pre-sign data of the root alone the command
gets none.  With data of its own the rounds give a valid signature, but nothing is stored under the
child key. -/
theorem child_sign_fails :
    HandleRPCSign store OneKey.db (predb []) (command "m/5".toList) = none ∧
    HandleRPCSign store OneKey.db (predb "m/5".toList) (command "m/5".toList) = some [⟨hash, pre⟩] ∧
    childOf prims (1, 1) [9] "m/5".toList = some (3, 1) ∧
    RoundsSucceed modeOneEnv prims [⟨hash, pre⟩] (3, 1) (fun _ => 2 ^ 250 + 3) [hash] ∧
    RunsThrough (fun _ => 2 ^ 250 + 3) 1 (OneKey.events (2 ^ 250 + 3)) ∧
    sign modeOneEnv prims OneKey.db ['w'] (command "m/5".toList) [⟨hash, pre⟩] true
      (OneKey.events (2 ^ 250 + 3)) = .error (.error "sign fail") :=
  ⟨by decide +kernel, by decide +kernel, by decide +kernel, roundsSucceed (by decide +kernel),
    runsThrough _, by decide +kernel⟩

end ThresholdDsa.Smpc.ChildSign
