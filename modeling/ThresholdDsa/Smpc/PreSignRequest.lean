/-
# PreSign requests and the entries they make

`ExcutePreSignData` asks the group for pre-sign data of a root key, and
`GetBip32ChildKey` for those of a child key.  A request travels as JSON.
`MarshalJSON` leaves out the input code, so every request arrives as one for the
root key; and a request of `GetBip32ChildKey` has index 0.

`presign_requests_kept`: an entry was always made with the share that belongs to its
place (there are only entries of root keys), but a request arrives as it was made,
and touches no entry of another input code, exactly when it has no input code.
`child_request_overwrites_root`: a request for `m/5` replaces the first entry of the
root key.

The JSON text of an object reads back, so an object is the list of its fields.
-/
import ThresholdDsa.Smpc.ChildKey
import ThresholdDsa.Smpc.PreSignData

namespace ThresholdDsa.Smpc.PreSignRequest

open Outcome GoText Secp256k1 ChildKey DbThreads Function List Option

/-! ## The request on the wire -/

abbrev Fields := List (Text × Text)

/-- A missing field is the empty text. -/
def Fields.get (fs : Fields) (name : String) : Text := (fs.lookup name.toList).getD []

/-- `strconv.Itoa`. -/
def Itoa (n : ℤ) : Text := if n < 0 then '-' :: itoa n.natAbs else itoa n.natAbs

def MarshalJSON (ps : PreSign) : Fields :=
  [("Pub".toList, ps.Pub), ("Gid".toList, ps.Gid), ("Nonce".toList, ps.Nonce),
    ("Index".toList, Itoa ps.Index)]

def UnmarshalJSON (pre : Fields) : PreSign where
  Pub := pre.get "Pub"
  InputCode := []
  Gid := pre.get "Gid"
  Nonce := pre.get "Nonce"
  Index := atoiValue (pre.get "Index")

/-- The request of `ExcutePreSignData`. -/
def excuteRequest (pubkey gg nonce : Text) (index : ℤ) : PreSign := ⟨pubkey, [], gg, nonce, index⟩

/-- The request of `GetBip32ChildKey`, which does not set the index. -/
def bip32Request (rootpubkey inputcode gg nonce : Text) : PreSign := ⟨rootpubkey, inputcode, gg, nonce, 0⟩

theorem setString10_Itoa (n : ℤ) : setString10 (Itoa n) = some n := by
  by_cases negative : n < 0
  · rw [Itoa, if_pos negative, setString10, digits_itoa]
    show some (-(n.natAbs : ℤ)) = some n
    congr 1
    omega
  · rw [Itoa, if_neg negative, setString10_itoa]
    congr 1
    omega

/-- A request comes back without its input code. -/
theorem unmarshal_marshalJSON (ps : PreSign) (low : -2 ^ 63 ≤ ps.Index) (high : ps.Index < 2 ^ 63) :
    UnmarshalJSON (MarshalJSON ps) = { ps with InputCode := [] } := by
  have index : atoiValue (Itoa ps.Index) = ps.Index := by
    rw [atoiValue, setString10_Itoa, map_some, getD_some]
    omega
  show (⟨ps.Pub, [], ps.Gid, ps.Nonce, atoiValue (Itoa ps.Index)⟩ : PreSign) =
    ⟨ps.Pub, [], ps.Gid, ps.Nonce, ps.Index⟩
  rw [index]

/-! ## The handler -/

/-- What the rounds of `PreSignEC3` return. -/
structure Drawn where
  (K1 R Ry Sigma1 : ℤ)

/-- `isGroup` is whether a text names a group; the rounds fail for one that does not, since the node
does not find itself among its members. -/
structure Env (K : Type) where
  store : PreSignStore K
  S : CurveOps
  hmac : Bytes → Bytes → Bytes
  isGroup : Text → Bool

/-- The pre-sign database.  `origin` is not in the program: the share and the public key that the
rounds of the last entry under a key were run with. -/
structure State (K : Type) where
  predb : K → Option PreSignData
  origin : K → Option (ℤ × Option (ℤ × ℤ))

/-- A request is delivered, with what the rounds return and whether the nodes agree afterwards; or an
entry is taken for a signature. -/
inductive Event (K : Type) where
  | request (ps : PreSign) (rounds : Option Drawn) (sync : Bool)
  | taken (key : K)

variable {K : Type} {S : PreSignStore K} {p : Place}

section

variable [DecidableEq K] (E : Env K) (db : KeyDb)

def placeOf (ps : PreSign) : Place := ⟨ps.Pub, ps.InputCode, ps.Gid⟩

def preOf (ps : PreSign) (d : Drawn) : PreSignData :=
  ⟨ps.Nonce, d.K1, d.R, d.Ry, d.Sigma1, ps.Gid, false, ps.Index⟩

/-- Put the data; take them out again if the nodes do not agree that all have them. -/
def storePre (ps : PreSign) (d : Drawn) (sync : Bool) (predb : K → Option PreSignData) :
    K → Option PreSignData :=
  let stored := ((PutPreSignData E.store (placeOf ps) ps.Index.toNat (preOf ps d) true).exec predb).1
  if sync then stored else ((DeletePreSignData E.store (placeOf ps) ps.Nonce).exec stored).1

/-- The PreSign branch of `DoReq`. -/
def DoReq (st : State K) (ps : PreSign) (rounds : Option Drawn) (sync : Bool) : State K :=
  match presignChild E.S E.hmac db ps, rounds.filter fun _ => E.isGroup ps.Gid with
  | .ok made, some d =>
    match GetPreSignKey E.store (placeOf ps) ps.Index.toNat with
    | some key =>
      if ps.Index < 0 then st
      else
        { predb := storePre E ps d sync st.predb
          origin := update st.origin key (some made) }
    | none => st
  | _, _ => st

def step (st : State K) : Event K → State K
  | .request ps rounds sync => DoReq E db st (UnmarshalJSON (MarshalJSON ps)) rounds sync
  | .taken key => { st with predb := update st.predb key none }

def run (events : List (Event K)) : State K := events.foldl (step E db) ⟨fun _ => none, fun _ => none⟩

end

/-! ## Keys of entries -/

/-- Digests tell their arguments apart, and lower case goes by character: it touches neither digits
nor colons, and keeps the value of a hexadecimal digit. -/
structure StoreHashing {K : Type} (S : PreSignStore K) where
  lower : Char → Char
  toLower : ∀ t, S.toLower t = t.map lower
  plain : ∀ c d, d.isDigit ∨ d = ':' → (lower c = d ↔ c = d)
  hex : ∀ c, hexDigit (lower c) = hexDigit c
  keccak : Injective S.Keccak256Hash

section

variable (H : StoreHashing S)

theorem StoreHashing.count_colon (t : Text) : (t.map H.lower).count ':' = t.count ':' := by
  induction t with
  | nil => rfl
  | cons c t ih =>
    have same : (H.lower c == ':') = (c == ':') := by
      rw [Bool.eq_iff_iff, beq_iff_eq, beq_iff_eq]
      exact H.plain c ':' (.inr rfl)
    rw [map_cons, count_cons, count_cons, ih, same]

theorem StoreHashing.hexDecode_map (t : Text) : hexDecode (t.map H.lower) = hexDecode t := by
  induction t using hexDecode.induct with
  | case1 => rfl
  | case2 c => rfl
  | case3 high low rest ih =>
    simp [hexDecode, H.hex, ih]

theorem colon_notMem_itoa (n : ℕ) : ':' ∉ itoa n :=
  colon_notMem_of_setString10 (setString10_itoa n)

variable {i : ℕ} {k : K}

theorem key_of_root (root : p.inputcode = []) (key : GetPreSignKey S p i = some k) :
    k = S.Keccak256Hash (S.toLower (p.pubkey ++ ':' :: (p.gid ++ ':' :: itoa i))) := by
  rw [GetPreSignKey, if_neg (c := p.inputcode ≠ []) (not_not.mpr root)] at key
  split at key
  · cases key
  · simpa using (Option.some.inj key).symm

theorem key_of_child (child : p.inputcode ≠ []) (key : GetPreSignKey S p i = some k) :
    k = S.Keccak256Hash (S.toLower
      (p.pubkey ++ ':' :: (p.inputcode ++ ':' :: (p.gid ++ ':' :: itoa i)))) := by
  rw [GetPreSignKey, if_pos (c := p.inputcode ≠ []) child] at key
  split at key
  · cases key
  · simpa using (Option.some.inj key).symm

include H in
/-- An entry of a root key has no key in common with one of a child key. -/
theorem StoreHashing.key_ne {q : Place} {j : ℕ} {k' : K} (p_pub : ':' ∉ p.pubkey)
    (p_gid : ':' ∉ p.gid) (root : p.inputcode = []) (child : q.inputcode ≠ [])
    (p_key : GetPreSignKey S p i = some k) (q_key : GetPreSignKey S q j = some k') : k ≠ k' := by
  intro same
  have texts := H.keccak ((key_of_root root p_key).symm.trans (same.trans (key_of_child child q_key)))
  rw [H.toLower, H.toLower] at texts
  have counts := congrArg (List.count ':') texts
  rw [H.count_colon, H.count_colon] at counts
  simp only [count_append, count_cons_self, count_eq_zero_of_not_mem p_pub,
    count_eq_zero_of_not_mem p_gid, count_eq_zero_of_not_mem (colon_notMem_itoa _)] at counts
  omega

include H in
/-- Entries of root keys with one key belong to one public key. -/
theorem StoreHashing.pubkey_eq {q : Place} {j : ℕ} (p_pub : ':' ∉ p.pubkey) (q_pub : ':' ∉ q.pubkey)
    (p_root : p.inputcode = []) (q_root : q.inputcode = []) (p_key : GetPreSignKey S p i = some k)
    (q_key : GetPreSignKey S q j = some k) :
    hexBytes p.pubkey = hexBytes q.pubkey := by
  have texts := H.keccak ((key_of_root p_root p_key).symm.trans (key_of_root q_root q_key))
  rw [H.toLower, H.toLower] at texts
  have pubs := (map_append_sep_inj (fun c => H.plain c ':' (.inr rfl)) p_pub q_pub texts).1
  rw [hexBytes, hexBytes, ← H.hexDecode_map, pubs, H.hexDecode_map]

end

/-! ## What the calls do to the database -/

section

variable [DecidableEq K] {predb : K → Option PreSignData}

theorem exec_put {index : ℕ} {val : PreSignData} {key : K}
    (key_eq : GetPreSignKey S p index = some key) :
    ((PutPreSignData S p index val true).exec predb).1 = update predb key (some val) := by
  rw [PutPreSignData, key_eq]
  simp only [Prog.exec, if_true]
  split <;> rfl

/-- The entry at an index of a place. -/
def entry (S : PreSignStore K) (p : Place) (predb : K → Option PreSignData) (index : ℕ) :
    Option PreSignData :=
  (GetPreSignKey S p index).bind predb

/-- A search reads the entries in order and nothing else. -/
theorem exec_search {A : Type} {test : PreSignData → Bool}
    {f : Option (ℕ × PreSignData) → Prog K PreSignData A} (start stop : ℕ) :
    ((Prog.halving (probe S test p) (stop + 1 - start) start stop).bind f).exec predb =
      (f ((List.range' start (stop + 1 - start)).findSome? fun index =>
        ((entry S p predb index).filter test).map (Prod.mk index))).exec predb := by
  have reads : ∀ index, (probe S test p index).exec predb =
      (predb, ((entry S p predb index).filter test).map (Prod.mk index)) := by
    intro index
    unfold probe entry
    cases GetPreSignKey S p index with
    | none => rfl
    | some key =>
      simp only [Prog.exec, bind_some]
      cases (predb key).filter test <;> rfl
  rw [Prog.halving_eq_scan _ le_rfl, Prog.exec_bind, Prog.exec_scan reads]

/-- A deletion touches an entry of its place only. -/
theorem exec_delete_cases (datakey : Text) :
    ((DeletePreSignData S p datakey).exec predb).1 = predb ∨
      ∃ index key, GetPreSignKey S p index = some key ∧
        ((DeletePreSignData S p datakey).exec predb).1 = update predb key none := by
  unfold DeletePreSignData
  split
  · exact .inl rfl
  unfold BinarySearchPreSignData
  rw [exec_search]
  cases findSome? _ _ with
  | none => exact .inl rfl
  | some found =>
    simp only
    cases key_eq : GetPreSignKey S p found.1 with
    | none => exact .inl rfl
    | some key => exact .inr ⟨found.1, key, key_eq, rfl⟩

end

/-! ## Requests without an input code -/

section

variable [DecidableEq K] {E : Env K} {db : KeyDb}

/-- Every entry under a public key, input code and group was made with the share and the public key
that a PreSign request for them is run with. -/
def Attributed (E : Env K) (db : KeyDb) (st : State K) : Prop :=
  ∀ (p : Place) (index : ℕ) (k : K) (e : PreSignData), ':' ∉ p.pubkey → ':' ∉ p.gid →
    GetPreSignKey E.store p index = some k → st.predb k = some e →
    ∃ made, st.origin k = some made ∧ ∀ nonce i,
      presignChild E.S E.hmac db ⟨p.pubkey, p.inputcode, p.gid, nonce, i⟩ = .ok made

/-- The entries of the other input codes stay. -/
def KeepsOthers (E : Env K) (inputcode : Text) (st st' : State K) : Prop :=
  ∀ (q : Place) (index : ℕ) (k : K), ':' ∉ q.pubkey → ':' ∉ q.gid → q.inputcode ≠ inputcode →
    GetPreSignKey E.store q index = some k → st'.predb k = st.predb k

variable {ps : PreSign} {st : State K}

omit [DecidableEq K] in
/-- Child share and key depend on the bytes of the public key and on the input code. -/
theorem presignChild_congr {ps' : PreSign} (pub : hexBytes ps.Pub = hexBytes ps'.Pub)
    (code : ps.InputCode = ps'.InputCode) :
    presignChild E.S E.hmac db ps = presignChild E.S E.hmac db ps' := by
  simp only [presignChild, pub, code]

/-- All that the handler can do. -/
structure Stored (E : Env K) (db : KeyDb) (ps : PreSign) (st st' : State K) (key : K) : Prop where
  made : ∃ made, presignChild E.S E.hmac db ps = .ok made ∧
    st'.origin = update st.origin key (some made)
  group : E.isGroup ps.Gid = true
  key_eq : ∃ index, GetPreSignKey E.store (placeOf ps) index = some key
  entries : ∀ k v, st'.predb k = some v → k = key ∨ st.predb k = some v
  elsewhere : ∀ k, (∀ index, GetPreSignKey E.store (placeOf ps) index ≠ some k) →
    st'.predb k = st.predb k

theorem storePre_cases {key : K}
    (key_eq : GetPreSignKey E.store (placeOf ps) ps.Index.toNat = some key) (d : Drawn)
    (sync : Bool) (predb : K → Option PreSignData) :
    storePre E ps d sync predb = update predb key (some (preOf ps d)) ∨
      ∃ index key', GetPreSignKey E.store (placeOf ps) index = some key' ∧
        storePre E ps d sync predb =
          update (update predb key (some (preOf ps d))) key' none := by
  simp only [storePre, exec_put key_eq]
  split
  · exact .inl rfl
  · exact exec_delete_cases ps.Nonce

variable (E db) in
theorem doReq_cases (st : State K) (ps : PreSign) (rounds : Option Drawn) (sync : Bool) :
    DoReq E db st ps rounds sync = st ∨
      ∃ key, Stored E db ps st (DoReq E db st ps rounds sync) key := by
  unfold DoReq
  split
  · rename_i made d child drawn
    split
    · rename_i key key_eq
      split
      · exact .inl rfl
      right
      obtain ⟨-, group⟩ := filter_eq_some_iff.mp drawn
      refine ⟨key, ⟨made, child, rfl⟩, group, ⟨_, key_eq⟩, ?_, ?_⟩
      · intro k v stored
        by_cases same : k = key
        · exact .inl same
        right
        simp only at stored
        rcases storePre_cases key_eq d sync st.predb with put | ⟨index, key', -, deleted⟩
        · rwa [put, update_of_ne same] at stored
        · rw [deleted] at stored
          by_cases gone : k = key'
          · rw [gone, update_self] at stored
            cases stored
          · rwa [update_of_ne gone, update_of_ne same] at stored
      · intro k other
        have same : k ≠ key := fun eq => other _ (eq ▸ key_eq)
        simp only
        rcases storePre_cases key_eq d sync st.predb with put | ⟨index, key', key'_eq, deleted⟩
        · rw [put, update_of_ne same]
        · have gone : k ≠ key' := fun eq => other _ (eq ▸ key'_eq)
          rw [deleted, update_of_ne gone, update_of_ne same]
    · exact .inl rfl
  · exact .inl rfl

/-- A request that is run names its public key in hexadecimal. -/
theorem Stored.pub_free {st' : State K} {key : K} (stored : Stored E db ps st st' key) :
    ':' ∉ ps.Pub := by
  obtain ⟨made, child, -⟩ := stored.made
  simp only [presignChild, eq_ok] at child
  obtain ⟨bytes, decoded, -⟩ := child
  obtain ⟨chars, decoded, -⟩ := map_eq_some_iff.mp decoded
  exact colon_notMem_of_hexDecode decoded

variable (H : StoreHashing E.store) (groups : ∀ g, E.isGroup g = true → ':' ∉ g)

include H groups

theorem attributed_doReq (attributed : Attributed E db st) (root : ps.InputCode = [])
    (rounds : Option Drawn) (sync : Bool) :
    Attributed E db (DoReq E db st ps rounds sync) := by
  rcases doReq_cases E db st ps rounds sync with same | ⟨key, stored⟩
  · rw [same]
    exact attributed
  intro p index k e p_pub p_gid p_key entry
  obtain ⟨made, child, origin⟩ := stored.made
  obtain ⟨i, key_eq⟩ := stored.key_eq
  rw [origin]
  by_cases same : k = key
  · rw [same, update_self]
    rw [same] at p_key
    refine ⟨made, rfl, fun nonce i => ?_⟩
    have p_root : p.inputcode = [] := by
      by_contra p_child
      exact H.key_ne stored.pub_free (groups _ stored.group) root p_child key_eq p_key rfl
    rw [← child]
    apply presignChild_congr
    · exact H.pubkey_eq p_pub stored.pub_free p_root root p_key key_eq
    · exact p_root.trans root.symm
  · rw [update_of_ne same]
    exact attributed p index k e p_pub p_gid p_key ((stored.entries k e entry).resolve_left same)

theorem keepsOthers_doReq (st : State K) (root : ps.InputCode = []) (rounds : Option Drawn)
    (sync : Bool) :
    KeepsOthers E ps.InputCode st (DoReq E db st ps rounds sync) := by
  rcases doReq_cases E db st ps rounds sync with same | ⟨key, stored⟩
  · rw [same]
    exact fun _ _ _ _ _ _ _ => rfl
  · intro q index k q_pub q_gid other q_key
    rw [root] at other
    refine stored.elsewhere k fun i key_eq => ?_
    exact H.key_ne stored.pub_free (groups _ stored.group) root other key_eq q_key rfl

/-- Whatever is asked for, what arrives is a request for the root key. -/
theorem attributed_step (attributed : Attributed E db st) (e : Event K) :
    Attributed E db (step E db st e) := by
  cases e with
  | request ps rounds sync => exact attributed_doReq H groups attributed rfl rounds sync
  | taken key =>
    intro p index k e p_pub p_gid p_key entry
    refine attributed p index k e p_pub p_gid p_key ?_
    simp only [step] at entry
    by_cases gone : k = key
    · rw [gone, update_self] at entry
      cases entry
    · rwa [update_of_ne gone] at entry

theorem attributed_run (events : List (Event K)) : Attributed E db (run E db events) := by
  have from_state : ∀ (events : List (Event K)) (st : State K), Attributed E db st →
      Attributed E db (events.foldl (step E db) st) := by
    intro events
    induction events with
    | nil => exact fun st attributed => attributed
    | cons e rest ih => exact fun st attributed => ih _ (attributed_step H groups attributed e)
  apply from_state
  intro p index k e _ _ _ entry
  cases entry

end

/-- In every run of requests and picks the entries were made with the share that belongs to their
place.  A request arrives as it was made, and leaves the entries of all other input codes alone,
exactly when it has no input code. -/
theorem presign_requests_kept {K : Type} [DecidableEq K] (E : Env K) (H : StoreHashing E.store)
    (groups : ∀ g, E.isGroup g = true → ':' ∉ g) (db : KeyDb) :
    (∀ events, Attributed E db (run E db events)) ∧
    ∀ ps : PreSign, -2 ^ 63 ≤ ps.Index → ps.Index < 2 ^ 63 →
      ((UnmarshalJSON (MarshalJSON ps) = ps ∧ ∀ st rounds sync,
          KeepsOthers E ps.InputCode st (step E db st (.request ps rounds sync))) ↔
        ps.InputCode = []) := by
  refine ⟨attributed_run H groups, fun ps low high => ⟨?_, ?_⟩⟩
  · rintro ⟨same, -⟩
    rw [← same]
    rfl
  · intro root
    have same : UnmarshalJSON (MarshalJSON ps) = ps := by
      rw [unmarshal_marshalJSON ps low high, ← root]
    refine ⟨same, fun st rounds sync => ?_⟩
    rw [step, same]
    exact keepsOthers_doReq H groups st root rounds sync

/-! ## One node over the integers modulo 7 -/

namespace Small

def store : PreSignStore Text where
  Keccak256Hash := id
  toLower := List.map Char.toLower
  folding := lowerFolding
  PrePubDataCount := 2000

def env : Env Text where
  store := store
  S := zmodCurve 7
  hmac := ChildKey.Small.hmac
  isGroup g := g = ['9']

def hashing : StoreHashing store where
  lower := Char.toLower
  toLower _ := rfl
  plain := toLower_eq_iff_of_kept
  hex := hexDigit_toLower
  keccak := injective_id

theorem group_free (g : Text) (group : env.isGroup g = true) : ':' ∉ g := by
  rw [of_decide_eq_true group]
  decide

def rootpubkey : Text := hexText (Marshal (1, 1))

/-- A request for the first entry of the root key, and one for its child `m/5`. -/
def requests : List (Event Text) :=
  [.request (excuteRequest rootpubkey ['9'] ['a'] 0) (some ⟨11, 0, 0, 0⟩) true,
    .request (bip32Request rootpubkey ['m', '/', '5'] ['9'] ['b']) (some ⟨22, 0, 0, 0⟩) true]

/-- The nonce share of the first entry under an input code. -/
def first (inputcode : Text) (st : State Text) : Option ℤ :=
  ((GetPreSignKey store ⟨rootpubkey, inputcode, ['9']⟩ 0).bind st.predb).map (·.K1)

end Small

theorem presign_requests_kept_root :
    UnmarshalJSON (MarshalJSON (excuteRequest Small.rootpubkey ['9'] ['a'] 7)) =
      excuteRequest Small.rootpubkey ['9'] ['a'] 7 :=
  (((presign_requests_kept Small.env Small.hashing Small.group_free (ChildKey.Small.db 0)).2
    (excuteRequest Small.rootpubkey ['9'] ['a'] 7) (by decide) (by decide)).mpr rfl).1

/-- The request for the child arrives as one for the root key and replaces its first entry; there is
none for the child. -/
theorem child_request_overwrites_root :
    UnmarshalJSON (MarshalJSON (bip32Request Small.rootpubkey ['m', '/', '5'] ['9'] ['b'])) ≠
      bip32Request Small.rootpubkey ['m', '/', '5'] ['9'] ['b'] ∧
    Small.first [] (run Small.env (ChildKey.Small.db 0) (Small.requests.take 1)) = some 11 ∧
    Small.first [] (run Small.env (ChildKey.Small.db 0) Small.requests) = some 22 ∧
    Small.first ['m', '/', '5'] (run Small.env (ChildKey.Small.db 0) Small.requests) = none := by
  decide +kernel

end ThresholdDsa.Smpc.PreSignRequest
