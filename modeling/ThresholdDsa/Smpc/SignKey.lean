/-
# What the key of a sign command commits to

The key of a sign command is the hash of a lower-case text: sender, nonce, public
key, the sorted digests of the message hashes, key type, group, threshold and
mode, joined by colons.  The checks leave a colon only in the list of digests,
which ends with `NULL`, and in the mode, which comes last, so the text can be read
back from the left.

`sign_key_commits`: two accepted commands with one key agree on these fields up to
letter case, and on the message hashes up to their order.  The input code, which
picks a child key, is not part of the text, and an approval's own list of message
hashes is never read (`key_shared`).
-/
import ThresholdDsa.Smpc.ApprovalWait

namespace ThresholdDsa.Smpc

open Outcome GoText Function List Option

/-! ## Reading the text back -/

/-- Hashes tell their arguments apart, lower case goes by character and touches neither digits nor
colons, and the sender of a transaction is an address. -/
structure Hashing (E : Env) where
  lower : Char → Char
  toLower : ∀ t, E.ToLower t = t.map lower
  plain : ∀ c d, d.isDigit ∨ d = ':' → (lower c = d ↔ c = d)
  keccak : Injective E.Keccak256Hash
  digest : ∀ keytype, Injective (E.digest keytype)
  address : ∀ raw tx, E.decode raw = some tx → ':' ∉ tx.sender

/-- Two nodes, or one node at two times: the group table may differ. -/
structure SameHashing (E E' : Env) : Prop where
  toLower : E'.ToLower = E.ToLower
  keccak : E'.Keccak256Hash = E.Keccak256Hash
  digest : E'.digest = E.digest
  decode : E'.decode = E.decode

section

variable {E : Env} (H : Hashing E)

theorem Hashing.digit {d : Char} (digit : d.isDigit) : H.lower d = d :=
  (H.plain d d (.inl digit)).mpr rfl

theorem Hashing.field_inj {a b x y : Text} (a_free : ':' ∉ a) (b_free : ':' ∉ b)
    (same : (a ++ ':' :: x).map H.lower = (b ++ ':' :: y).map H.lower) :
    a.map H.lower = b.map H.lower ∧ x.map H.lower = y.map H.lower :=
  map_append_sep_inj (fun c => H.plain c ':' (.inr rfl)) a_free b_free same

theorem Hashing.eq_of_digits {s t : Text} (digits : ∀ d ∈ t, d.isDigit)
    (same : s.map H.lower = t.map H.lower) : s = t := by
  induction t generalizing s with
  | nil => simpa using same
  | cons d t ih =>
    cases s with
    | nil => simp at same
    | cons c s =>
      simp only [map_cons, List.cons.injEq] at same
      have d_digit := digits d mem_cons_self
      rw [H.digit d_digit, H.plain c d (.inl d_digit)] at same
      rw [same.1, ih (fun d mem => digits d (mem_cons_of_mem _ mem)) same.2]

theorem itoa_injective : Injective itoa := by
  intro m n same
  have := congrArg digits same
  simpa [digits_itoa] using this

def NULL : Text := ['N', 'U', 'L', 'L']

theorem colon_notMem_itoa (n : ℕ) : ':' ∉ itoa n := by
  intro mem
  have digit := itoa_isDigit mem
  revert digit
  decide

theorem colon_notMem_idField (v : Option ℕ) : ':' ∉ idField v := by
  cases v with
  | none => decide
  | some n => exact colon_notMem_itoa n

theorem Hashing.idField_inj {v v' : Option ℕ}
    (same : (idField v).map H.lower = (idField v').map H.lower) : v = v' := by
  have nil_ne : ∀ n, (idField none).map H.lower ≠ (idField (some n)).map H.lower := by
    intro n same
    have eq : idField none = itoa n := H.eq_of_digits (fun d mem => itoa_isDigit mem) same
    have digit : ('<' : Char).isDigit := itoa_isDigit (n := n) (eq ▸ by decide)
    revert digit
    decide
  cases v with
  | none =>
    cases v' with
    | none => rfl
    | some n => exact absurd same (nil_ne n)
  | some m =>
    cases v' with
    | none => exact absurd same.symm (nil_ne m)
    | some n =>
      have eq : itoa m = itoa n := H.eq_of_digits (fun d mem => itoa_isDigit mem) same
      rw [itoa_injective eq]

theorem Hashing.idField_ne_null (v : Option ℕ) : (idField v).map H.lower ≠ NULL.map H.lower := by
  intro same
  cases v with
  | none =>
    have length_eq := congrArg List.length same
    simp [idField, NULL] at length_eq
  | some n =>
    have eq : NULL = itoa n := H.eq_of_digits (fun d mem => itoa_isDigit mem) same.symm
    have digit : ('N' : Char).isDigit := itoa_isDigit (n := n) (eq ▸ by decide)
    revert digit
    decide

/-- The list of digests and what follows it. -/
def idsText (ids : List (Option ℕ)) (rest : Text) : Text :=
  match ids with
  | [] => NULL ++ ':' :: rest
  | v :: ids => idField v ++ ':' :: idsText ids rest

theorem idsText_eq (ids : List (Option ℕ)) (rest : Text) :
    ids.flatMap (fun v => idField v ++ [':']) ++ ['N', 'U', 'L', 'L'] ++ ':' :: rest =
      idsText ids rest := by
  induction ids with
  | nil => rfl
  | cons v ids ih =>
    rw [idsText, ← ih]
    simp

/-- `NULL` is no digest, so the list ends where it stands. -/
theorem Hashing.idsText_inj {ids ids' : List (Option ℕ)} {rest rest' : Text}
    (same : (idsText ids rest).map H.lower = (idsText ids' rest').map H.lower) :
    ids = ids' ∧ rest.map H.lower = rest'.map H.lower := by
  have null_free : ':' ∉ NULL := by decide
  induction ids generalizing ids' with
  | nil =>
    cases ids' with
    | nil => exact ⟨rfl, (H.field_inj null_free null_free same).2⟩
    | cons v ids' =>
      have head := (H.field_inj null_free (colon_notMem_idField v) same).1
      exact absurd head.symm (H.idField_ne_null v)
  | cons v ids ih =>
    cases ids' with
    | nil =>
      have head := (H.field_inj (colon_notMem_idField v) null_free same).1
      exact absurd head (H.idField_ne_null v)
    | cons v' ids' =>
      obtain ⟨head, tail⟩ :=
        H.field_inj (colon_notMem_idField v) (colon_notMem_idField v') same
      obtain ⟨rfl, rest_eq⟩ := ih tail
      exact ⟨by rw [H.idField_inj head], rest_eq⟩

end

/-! ## Accepted commands -/

theorem perm_of_sortIDs {xs ys : List (Option ℕ)} (sorted : sortIDs xs = .ok ys) : xs.Perm ys := by
  unfold sortIDs at sorted
  split at sorted
  · next all_some =>
    cases sorted
    have values : (xs.filterMap id).map some = xs := by
      induction xs with
      | nil => rfl
      | cons x xs ih =>
        simp only [all_cons, Bool.and_eq_true] at all_some
        obtain ⟨n, rfl⟩ := isSome_iff_exists.mp all_some.1
        rw [filterMap_cons_some (by rfl), map_cons, ih all_some.2]
    have perm := ((xs.filterMap id).perm_insertionSort (· ≤ ·)).map some
    rw [values] at perm
    exact perm.symm
  · split at sorted
    · cases sorted
      exact .refl _
    · cases sorted

theorem hashID_injective {E : Env} {keytype : Text} (keytype_ne : keytype ≠ [])
    (digest : Injective (E.digest keytype)) : Injective (hashID E keytype) := by
  intro h h' same
  by_cases empty : h = [] <;> by_cases empty' : h' = [] <;>
    simp_all [hashID, digest.eq_iff]

/-- What the checks and the key of an accepted command say about its text. -/
structure KeyOf (E : Env) (sender : Text) (nonce : ℕ) (sig : TxDataSign) (key : Text) where
  hash : List Text
  ids : List (Option ℕ)
  msgHash : sig.MsgHash = some hash
  sorted : sortIDs (hash.map (hashID E sig.Keytype)) = .ok ids
  keytype : sig.Keytype = EC256K1 ∨ sig.Keytype = ED25519
  pubKey : ':' ∉ sig.PubKey
  groupID : ':' ∉ sig.GroupID
  thresHold : ':' ∉ sig.ThresHold
  key_eq : key = E.Keccak256Hash (E.ToLower (sender ++ ':' :: (itoa nonce ++ ':' :: (sig.PubKey ++
    ':' :: idsText ids (sig.Keytype ++ ':' :: (sig.GroupID ++ ':' :: (sig.ThresHold ++ ':' ::
      sig.Mode)))))))

theorem colon_notMem_of_getGroup {E : Env} {gID : Text} (members : 0 < (GetGroup E gID).length) :
    ':' ∉ gID := by
  unfold GetGroup at members
  split at members
  · next gid decoded =>
    simp only [HexID, filter_eq_some_iff] at decoded
    have free := colon_notMem_of_hexDecode decoded.1
    split at free
    · next begins =>
      obtain ⟨rest, rfl⟩ := isPrefixOf_iff_prefix.mp begins
      simpa using free
    · exact free
  · simp at members

theorem colon_notMem_of_thresholdNums {text : String} {threshold : Text} {limit nodecnt : ℤ}
    (nums : thresholdNums text threshold = .ok (limit, nodecnt)) : ':' ∉ threshold := by
  obtain ⟨first, second, split_eq, limit_eq, nodecnt_eq⟩ := thresholdNums_eq_ok.mp nums
  have joined : ['/'].intercalate (threshold.splitOn '/') = threshold :=
    intercalate_splitOn '/'
  rw [split_eq] at joined
  simp only [Atoi, filter_eq_some_iff] at limit_eq nodecnt_eq
  have first_free := colon_notMem_of_setString10 limit_eq.1
  have second_free := colon_notMem_of_setString10 nodecnt_eq.1
  rw [← joined]
  simp [List.intercalate, first_free, second_free]

theorem keyOf_of_checkSign {E : Env} {db : Db} {sender key : Text} {nonce : ℕ} {sig : TxDataSign}
    (checked : checkSign E db sender nonce sig = .ok key) :
    Nonempty (KeyOf E sender nonce sig key) := by
  simp only [checkSign, eq_ok, decide_eq_true_eq, Prod.exists] at checked
  obtain ⟨-, ⟨-, -, hashes, keytype_ne, -⟩, -, -, -, keytype, limit, nodecnt, nums, -, ⟨-, two⟩, -,
    ⟨count, -⟩, -, -, smpcpks, decoded, pubs, -, -, -, -, -, -, -, made⟩ := checked
  obtain ⟨hash, msgHash⟩ := isSome_iff_exists.mp hashes
  simp only [signKey, getSignHash, msgHash, if_neg keytype_ne, eq_ok] at made
  obtain ⟨_, ⟨ids, sorted, rfl⟩, key_eq⟩ := made
  refine ⟨⟨hash, ids, msgHash, sorted, keytype, colon_notMem_of_hexDecode decoded,
    colon_notMem_of_getGroup (E := E) ?_, colon_notMem_of_thresholdNums nums, ?_⟩⟩
  · omega
  · rw [← key_eq, ← idsText_eq]
    simp [keyText, List.intercalate]

/-- **What a sign key commits to.**  Two sign commands that are accepted with the same key, on any
two nodes or at any two times, agree up to letter case on sender, nonce, public key, key type,
group, threshold and mode, and their lists of message hashes differ in order only. -/
theorem sign_key_commits {E E' : Env} (H : Hashing E) (shared : SameHashing E E') {db db' : Db}
    {raw raw' key : Text} {tx tx' : Tx} {sig sig' : TxDataSign}
    (accepted : CheckRaw E db raw = .ok (key, tx)) (data : tx.data = .sign sig)
    (accepted' : CheckRaw E' db' raw' = .ok (key, tx')) (data' : tx'.data = .sign sig') :
    E.ToLower tx.sender = E.ToLower tx'.sender ∧ tx.Nonce = tx'.Nonce ∧
    E.ToLower sig.PubKey = E.ToLower sig'.PubKey ∧
    (∃ hash hash', sig.MsgHash = some hash ∧ sig'.MsgHash = some hash' ∧ hash.Perm hash') ∧
    sig.Keytype = sig'.Keytype ∧ E.ToLower sig.GroupID = E.ToLower sig'.GroupID ∧
    E.ToLower sig.ThresHold = E.ToLower sig'.ThresHold ∧
    E.ToLower sig.Mode = E.ToLower sig'.Mode := by
  obtain ⟨decoded, checked⟩ := checkRaw_eq_ok.mp accepted
  obtain ⟨decoded', checked'⟩ := checkRaw_eq_ok.mp accepted'
  have sender_free := H.address raw tx decoded
  have sender_free' := H.address raw' tx' (shared.decode ▸ decoded')
  simp only [CheckTxData, data] at checked
  simp only [CheckTxData, data'] at checked'
  obtain ⟨K⟩ := keyOf_of_checkSign checked
  obtain ⟨K'⟩ := keyOf_of_checkSign checked'
  have texts := K.key_eq.symm.trans K'.key_eq
  rw [shared.keccak, shared.toLower, H.keccak.eq_iff, H.toLower, H.toLower] at texts
  -- field by field from the left
  obtain ⟨sender_eq, texts⟩ := H.field_inj sender_free sender_free' texts
  obtain ⟨nonce_eq, texts⟩ :=
    H.field_inj (colon_notMem_itoa tx.Nonce) (colon_notMem_itoa tx'.Nonce) texts
  obtain ⟨pubKey_eq, texts⟩ := H.field_inj K.pubKey K'.pubKey texts
  obtain ⟨ids_eq, texts⟩ := H.idsText_inj texts
  have free : ∀ keytype, keytype = EC256K1 ∨ keytype = ED25519 → ':' ∉ keytype := by
    rintro _ (rfl | rfl) <;> decide
  obtain ⟨keytype_eq, texts⟩ := H.field_inj (free _ K.keytype) (free _ K'.keytype) texts
  obtain ⟨groupID_eq, texts⟩ := H.field_inj K.groupID K'.groupID texts
  obtain ⟨thresHold_eq, mode_eq⟩ := H.field_inj K.thresHold K'.thresHold texts
  have same_keytype : sig.Keytype = sig'.Keytype := by
    -- the fifth characters of the two names are digits
    have six : H.lower '6' = '6' := H.digit (by decide)
    have five : H.lower '5' = '5' := H.digit (by decide)
    rcases K.keytype with eq | eq <;> rcases K'.keytype with eq' | eq' <;> rw [eq, eq']
    all_goals
      rw [eq, eq'] at keytype_eq
      simp [EC256K1, ED25519, six, five] at keytype_eq
  refine ⟨?_, ?_, ?_, ⟨K.hash, K'.hash, K.msgHash, K'.msgHash, ?_⟩, same_keytype, ?_, ?_, ?_⟩
  · rw [H.toLower, H.toLower, sender_eq]
  · exact itoa_injective (H.eq_of_digits (fun d mem => itoa_isDigit mem) nonce_eq)
  · rw [H.toLower, H.toLower, pubKey_eq]
  · have keytype_ne : sig.Keytype ≠ [] := by
      rcases K.keytype with eq | eq <;> rw [eq] <;> decide
    have same_id : hashID E' sig'.Keytype = hashID E sig.Keytype := by
      funext h
      rw [hashID, hashID, shared.digest, same_keytype]
    have perm := (perm_of_sortIDs K.sorted).trans (ids_eq ▸ (perm_of_sortIDs K'.sorted).symm)
    rw [same_id] at perm
    exact (map_perm_map_iff (hashID_injective keytype_ne (H.digest _))).mp perm
  · rw [H.toLower, H.toLower, groupID_eq]
  · rw [H.toLower, H.toLower, thresHold_eq]
  · rw [H.toLower, H.toLower, mode_eq]

/-! ## Commands with one key

Texts are hashed to themselves.  The text `1` is a sign command, `2` the same with a child key, `3`
the same with its two hashes in the other order, and `a` approves it for another hash. -/

section

open TwoNodes

/-- Texts as numbers. -/
def textCode : Text → ℕ
  | [] => 0
  | c :: t => textCode t * 1114112 + c.toNat + 1

theorem textCode_injective : Injective textCode := by
  intro s t same
  induction s generalizing t with
  | nil =>
    cases t with
    | nil => rfl
    | cons d t => simp [textCode] at same
  | cons c s ih =>
    cases t with
    | nil => simp [textCode] at same
    | cons d t =>
      have bound : ∀ c : Char, c.toNat < 1114112 := by
        intro c
        have valid := c.valid
        simp only [Char.toNat]
        omega
      have c_lt := bound c
      have d_lt := bound d
      simp only [textCode] at same
      have heads : c.toNat = d.toNat := by omega
      have tails : textCode s = textCode t := by omega
      rw [Char.toNat_inj.mp heads, ih tails]

def twoHashes : TxDataSign := { signData with MsgHash := some [['g'], ['h']] }

def commandKey : Text :=
  (keyText [account '1', ['0'], ['0', '4'],
    itoa (textCode ['g']) ++ [':'] ++ itoa (textCode ['h']) ++ [':'] ++ NULL, EC256K1, gid,
    ['2', '/', '2'], mode0]).map Char.toLower

def keyEnv : Env := { env with
  Keccak256Hash := id
  digest := fun _ => textCode
  decode := fun
    | ['1'] => some ⟨account '1', 0, .sign twoHashes⟩
    | ['2'] => some ⟨account '1', 0, .sign { twoHashes with InputCode := ['m', '/', '0'] }⟩
    | ['3'] => some ⟨account '1', 0, .sign { twoHashes with MsgHash := some [['h'], ['g']] }⟩
    | ['a'] => some ⟨account '2', 0,
        .acceptSign { accept AGREE with Key := commandKey, MsgHash := some [['x']] }⟩
    | _ => none }

def keyHashing : Hashing keyEnv where
  lower := Char.toLower
  toLower _ := rfl
  plain := toLower_eq_iff_of_kept
  keccak := injective_id
  digest _ := textCode_injective
  address raw tx decoded := by
    have free : ':' ∉ account '1' ∧ ':' ∉ account '2' := by decide +kernel
    unfold keyEnv at decoded
    simp only at decoded
    split at decoded
    · cases decoded
      exact free.1
    · cases decoded
      exact free.1
    · cases decoded
      exact free.1
    · cases decoded
      exact free.2
    · cases decoded

theorem accepted_one (c : Char) (sig : TxDataSign)
    (mem : (c, sig) ∈ [('1', twoHashes), ('2', { twoHashes with InputCode := ['m', '/', '0'] }),
      ('3', { twoHashes with MsgHash := some [['h'], ['g']] })]) :
    CheckRaw keyEnv db [c] = .ok (commandKey, ⟨account '1', 0, .sign sig⟩) := by
  fin_cases mem <;> decide +kernel

/-- The first two commands. -/
theorem sign_key_commits_child : ∃ hash hash', twoHashes.MsgHash = some hash ∧
    ({ twoHashes with InputCode := ['m', '/', '0'] } : TxDataSign).MsgHash = some hash' ∧
    hash.Perm hash' :=
  (sign_key_commits keyHashing ⟨rfl, rfl, rfl, rfl⟩ (accepted_one '1' _ (by simp)) rfl
    (accepted_one '2' _ (by simp)) rfl).2.2.2.1

/-- Three commands with one key: another child key, and another order of the hashes.  The approval
of account 2 names neither hash and is counted. -/
theorem key_shared :
    Injective keyEnv.Keccak256Hash ∧
    CheckRaw keyEnv db ['1'] = .ok (commandKey, ⟨account '1', 0, .sign twoHashes⟩) ∧
    CheckRaw keyEnv db ['2'] = .ok (commandKey,
      ⟨account '1', 0, .sign { twoHashes with InputCode := ['m', '/', '0'] }⟩) ∧
    CheckRaw keyEnv db ['3'] = .ok (commandKey,
      ⟨account '1', 0, .sign { twoHashes with MsgHash := some [['h'], ['g']] }⟩) ∧
    CheckRaw keyEnv db ['a'] = .ok (commandKey, ⟨account '2', 0,
      .acceptSign { accept AGREE with Key := commandKey, MsgHash := some [['x']] }⟩) ∧
    (ExecApproveSigning keyEnv db ['a'] (account '2')
      { accept AGREE with Key := commandKey, MsgHash := some [['x']] } pending
      (doSignWorker keyEnv commandKey twoHashes)).map (·.msgacceptres) = .ok [['a']] := by
  refine ⟨injective_id, accepted_one '1' _ (by simp), accepted_one '2' _ (by simp),
    accepted_one '3' _ (by simp), ?_, ?_⟩
  all_goals decide +kernel

end

end ThresholdDsa.Smpc
