/-
# What a resharing run leaves in the databases

`processReshare` waits for the new share and then writes two databases in many
steps: the share under the public key and under each address, the record of the
public key, the nonce of the account, the record of the request and the list of
keys of each account.  Any of the operations may fail, some checks come only after
the share has been replaced, and nothing is undone.

Whether an operation fails is the parameter `faults`, a function of the number of
operations before it.  `failed_reshare_keeps_iff` says which failed runs leave the
stored share and the record as they were, and `accepted_before_of_ok` says what a
run that returns no error must have found: the last call asks for the request under
the key type `ALL`, while the run has saved it under `EC256K1`.
-/
import ThresholdDsa.Lib.Effect
import ThresholdDsa.Lib.Framing
import ThresholdDsa.Smpc.Command

namespace ThresholdDsa.Smpc.Reshare

open Outcome GoText Effect Function Option

/-! ## Records and databases -/

structure PubKeyData where
  (Key Account Pub Save Nonce GroupID LimitNum Mode KeyGenTime RefReShareKeys : Text)
  deriving DecidableEq

structure AcceptReqAddrData where
  (Initiator Account Cointype GroupID Nonce LimitNum Mode TimeStamp Deal Accept Status : Text)
  (PubKey Tip Error : Text)
  WorkID : ℤ
  Sigs : Text
  deriving DecidableEq

/-- What `GetPubKeyData` finds; `other` is a record of a type that resharing never reads. -/
inductive Value where
  | pubKey (pd : PubKeyData)
  | acceptReqAddr (ac : AcceptReqAddrData)
  | bytes (da : Text)
  | other
  deriving DecidableEq

/-- The share database, the general one and that of pending requests; `ops` counts the operations
so far. -/
structure Stores where
  sk : Text → Option Text
  pub : Text → Option Value
  reqAddrInfo : Text → Option AcceptReqAddrData
  ops : ℕ

/-- The coin types and the address of a public key for each; it is `none` where the type has no
handler or the handler fails. -/
structure Coins where
  Cointypes : List Text
  PublicKeyToAddress : Text → Text → Option Text

/-- What the select of the waiting loop takes. -/
inductive Signal where
  | errChan
  | timeout
  | outCh (failure : Option String)
  | endCh
  deriving DecidableEq

/-- The arguments of a run and what it takes from its worker, the end message and the clock:
`save` is the marshalled save data, `pubkeyhex` and `SkU1` the new public key and share. -/
structure Request where
  (msgprex groupid pubkey account mode sigs : Text)
  signals : List Signal
  worker : Option (Text × ℤ)
  save : Option Text
  (pubkeyhex SkU1 tt : Text)
  wid : ℤ

def ALL : Text := ['A', 'L', 'L']
def PENDING : Text := ['P', 'e', 'n', 'd', 'i', 'n', 'g']
def SUCCESS : Text := ['S', 'u', 'c', 'c', 'e', 's', 's']
def TRUE : Text := ['t', 'r', 'u', 'e']

/-! ## Database operations -/

section

variable (faults : ℕ → Bool)

/-- One operation: it fails with `text` and without effect, or makes its change. -/
def attempt (text : String) (change : Stores → Stores) : Effect Stores Unit :=
  ofStep fun st =>
    if faults st.ops then (.error (.error text), { st with ops := st.ops + 1 })
    else (.ok (), change { st with ops := st.ops + 1 })

/-- An entry that cannot be read counts as absent. -/
def lookup {α : Type} (table : Stores → Option α) : Effect Stores (Option α) :=
  ofStep fun st => (.ok (if faults st.ops then none else table st), { st with ops := st.ops + 1 })

variable (key : Text)

def putSkU1ToLocalDb (value : Text) : Effect Stores Unit :=
  attempt faults "put sku1 data to db fail" fun st =>
    { st with sk := update st.sk key (some value) }

def GetPubKeyData : Effect Stores (Option Value) := lookup faults fun st => st.pub key

def PutPubKeyData (value : Value) : Effect Stores Unit :=
  attempt faults "put pubkey data to db fail" fun st =>
    { st with pub := update st.pub key (some value) }

def DeletePubKeyData : Effect Stores Unit :=
  attempt faults "delete pubkey data from db fail" fun st =>
    { st with pub := update st.pub key none }

def GetReqAddrInfoData : Effect Stores (Option AcceptReqAddrData) :=
  lookup faults fun st => st.reqAddrInfo key

def PutReqAddrInfoData (ac : AcceptReqAddrData) : Effect Stores Unit :=
  attempt faults "put reqaddr info to db fail" fun st =>
    { st with reqAddrInfo := update st.reqAddrInfo key (some ac) }

def DeleteReqAddrInfoData : Effect Stores Unit :=
  attempt faults "delete reqaddr info from db fail" fun st =>
    { st with reqAddrInfo := update st.reqAddrInfo key none }

/-- `Encode2`, then `Compress`. -/
def encode (encodeText compressText : String) : Effect Stores Unit := do
  attempt faults encodeText id
  attempt faults compressText id

end

section

variable (E : Env) (C : Coins) (faults : ℕ → Bool) (account : Text) (rq : Request)

/-- The key of the request for an address. -/
def reqAddrKey (cointype groupid nonce limitnum mode : Text) : Text :=
  E.Keccak256Hash (E.ToLower
    ([':'].intercalate [account, cointype, groupid, nonce, limitnum, mode]))

/-- The keys of the addresses of a public key, one for each coin type that has one. -/
def addressKeys (pubkey : Text) : List Text :=
  (C.Cointypes.filter fun ct => !E.folding.EqualFold ct ALL).filterMap fun ct =>
    (C.PublicKeyToAddress ct pubkey).map fun ctaddr => E.Keccak256Hash (E.ToLower ctaddr)

/-- `GetReqAddrNonce`, with "0" in place of its errors. -/
def reqAddrNonce : Effect Stores Text := do
  if account = [] then pure ['0']
  else
    match ← GetPubKeyData faults (E.Keccak256Hash (E.ToLower account)) with
    | some (.bytes da) => do
      let nonce ← ofOutcome (deref (setString10 da))
      pure (intText (nonce + 1))
    | _ => pure ['0']

def SetReqAddrNonce (nonce : Text) : Effect Stores Unit := do
  ofOutcome (require (account ≠ [] ∧ nonce ≠ []) "set reqaddr nonce fail")
  PutPubKeyData faults (E.Keccak256Hash (E.ToLower account)) (.bytes nonce)

def SaveAcceptReqAddrData (ac : AcceptReqAddrData) : Effect Stores Unit := do
  encode faults "save reqaddr accept data fail" "save reqaddr accept data fail"
  PutReqAddrInfoData faults
    (reqAddrKey E ac.Account ac.Cointype ac.GroupID ac.Nonce ac.LimitNum ac.Mode) ac

/-- The key of the request joins the list of an account's keys. -/
def addToAccount (rk account : Text) : Effect Stores Unit := do
  match ← GetPubKeyData faults (E.ToLower account) with
  | none => PutPubKeyData faults (E.ToLower account) (.bytes rk)
  | some (.bytes da) =>
    if (da.splitOn ':').any fun v => E.folding.EqualFold v rk then pure ()
    else PutPubKeyData faults (E.ToLower account) (.bytes (da ++ ':' :: rk))
  | some _ => ofOutcome (.error .panic)

/-- In mode "0" the accounts stand in the signatures of the group, after the enode of each. -/
def addToAccounts (rk mode account sigs : Text) : Effect Stores Unit :=
  if mode = mode0 then
    let sigs2 := Framing.split Sep sigs
    (List.range (atoiValue (sigs2.headD [])).toNat).forM fun j => do
      let fr ← ofOutcome (deref sigs2[2 * j + 2]?)
      addToAccount E faults rk fr
  else addToAccount E faults rk account

def isSettled : Option Value → Bool
  | some (.acceptReqAddr ac) => ac.Status ≠ PENDING
  | _ => false

/-- `AcceptReqAddr` with the arguments "true", "true" and "Success": a request that is no longer
pending stays as it is. -/
def AcceptReqAddr (cointype groupid nonce threshold mode pubkey : Text) (workid : ℤ) :
    Effect Stores Unit := do
  let key := reqAddrKey E account cointype groupid nonce threshold mode
  let da ← GetPubKeyData faults key
  if isSettled da then pure ()
  else
    let found ← GetReqAddrInfoData faults key
    let ac ← ofOutcome (orError "get reqaddr accept data fail from db" found)
    encode faults "encode reqaddr accept data fail" "compress reqaddr accept data fail"
    DeleteReqAddrInfoData faults key
    PutPubKeyData faults key <| .acceptReqAddr
      { ac with
        Deal := TRUE
        Accept := TRUE
        Status := SUCCESS
        PubKey := if pubkey = [] then ac.PubKey else pubkey
        WorkID := if 0 ≤ workid then workid else ac.WorkID }

/-- The waiting loop, up to the end message or an error; without a signal it times out. -/
def awaitEnd : List Signal → Outcome Unit
  | [] => .error (.error "reshare timeout")
  | .errChan :: _ => .error (.error "error channel closed fail to start local smpc node")
  | .timeout :: _ => .error (.error "reshare timeout")
  | .outCh none :: rest => awaitEnd rest
  | .outCh (some failure) :: _ => .error (.error failure)
  | .endCh :: _ => .ok ()

/-- The part of a run before its first write: the worker, the bytes of the public key and the
marshalled save data. -/
def newKey : Outcome ((Text × ℤ) × Text × Text) := do
  awaitEnd rq.signals
  let w ← orError "get worker fail" rq.worker
  let s ← orError "marshal fail" rq.save
  let smpcpks ← orError "invalid hex" (hexDecode rq.pubkey)
  require (E.folding.EqualFold rq.pubkey rq.pubkeyhex) "reshare fail,old pubkey != new pubkey"
  pure (w, smpcpks, s)

/-- The old record must agree in mode and account; its entry under its own key goes. -/
def dropOldRecord (smpcpks mode account : Text) : Effect Stores Unit := do
  match ← GetPubKeyData faults smpcpks with
  | some (.pubKey daa) => do
    ofOutcome (require (daa.Mode = mode) "check mode fail")
    ofOutcome (require (E.folding.EqualFold account daa.Account) "check accout fail")
    DeletePubKeyData faults daa.Key
  | _ => pure ()

/-- The records of the new key; the nonce of its request is returned. -/
def storeRecords (limitnum smpcpks s : Text) : Effect Stores Text := do
  let nonce ← reqAddrNonce E faults rq.account
  let rk := reqAddrKey E rq.account EC256K1 rq.groupid nonce limitnum rq.mode
  let pubs : PubKeyData :=
    { Key := rk, Account := rq.account, Pub := smpcpks, Save := s, Nonce := nonce
      GroupID := rq.groupid, LimitNum := limitnum, Mode := rq.mode, KeyGenTime := rq.tt
      RefReShareKeys := rq.msgprex }
  encode faults "encode PubKeyData fail in req ec2 pubkey"
    "compress PubKeyData fail in req ec2 pubkey"
  dropOldRecord E faults smpcpks rq.mode rq.account
  PutPubKeyData faults smpcpks (.pubKey pubs)
  (addressKeys E C rq.pubkey).forM fun key => PutPubKeyData faults key (.pubKey pubs)
  SetReqAddrNonce E faults rq.account nonce
  SaveAcceptReqAddrData E faults
    { Initiator := E.curEnode, Account := rq.account, Cointype := EC256K1, GroupID := rq.groupid
      Nonce := nonce, LimitNum := limitnum, Mode := rq.mode, TimeStamp := rq.tt, Deal := TRUE
      Accept := TRUE, Status := SUCCESS, PubKey := rq.pubkey, Tip := [], Error := []
      WorkID := rq.wid, Sigs := rq.sigs }
  addToAccounts E faults rk rq.mode rq.account rq.sigs
  pure nonce

/-- The part of a run after the share is stored under the public key. -/
def afterShare (limitnum : Text) (id : ℤ) (smpcpks s : Text) :
    Effect Stores Text := do
  (addressKeys E C rq.pubkeyhex).forM fun key => putSkU1ToLocalDb faults key rq.SkU1
  let nonce ← storeRecords E C faults rq limitnum smpcpks s
  AcceptReqAddr E faults rq.account ALL rq.groupid nonce limitnum rq.mode rq.pubkey id
  pure rq.SkU1

def processReshare : Effect Stores Text := do
  let ((limitnum, id), smpcpks, s) ← ofOutcome (newKey E rq)
  putSkU1ToLocalDb faults smpcpks rq.SkU1
  afterShare E C faults rq limitnum id smpcpks s

end

/-! ## What the operations leave alone -/

section

variable {E : Env} {C : Coins} {faults : ℕ → Bool}

/-- A relation that ignores the count of operations. -/
class Uncounted (R : Stores → Stores → Prop) : Prop extends Std.Refl R, IsTrans Stores R where
  count : ∀ st, R st { st with ops := st.ops + 1 }

variable {R : Stores → Stores → Prop} [Uncounted R]

theorem within_attempt {text : String} {change : Stores → Stores} (moves : ∀ st, R st (change st)) :
    Within R (attempt faults text change) := by
  refine within_ofStep fun st => ?_
  split
  · exact Uncounted.count st
  · exact IsTrans.trans _ _ _ (Uncounted.count st) (moves _)

theorem within_lookup {α : Type} {table : Stores → Option α} : Within R (lookup faults table) :=
  within_ofStep Uncounted.count

theorem within_encode {encodeText compressText : String} :
    Within R (encode faults encodeText compressText) :=
  within_bind (within_attempt Std.Refl.refl) fun _ => within_attempt Std.Refl.refl

theorem within_reqAddrNonce {account : Text} : Within R (reqAddrNonce E faults account) := by
  unfold reqAddrNonce
  split
  · exact within_pure _
  · refine within_bind within_lookup fun found => ?_
    split
    · exact within_bind (within_ofOutcome _) fun _ => within_pure _
    · exact within_pure _

/-- The relation holds across every change of the records that a run makes before it settles its
request: a key or a nonce is written, an entry is deleted, the request is saved. -/
structure RecordMoves (E : Env) (rq : Request) (limitnum : Text) (R : Stores → Stores → Prop) :
    Prop where
  put : ∀ (st : Stores) (key : Text) (value : Value), (∀ ac, value ≠ .acceptReqAddr ac) →
    R st { st with pub := update st.pub key (some value) }
  delete : ∀ (st : Stores) (key : Text), R st { st with pub := update st.pub key none }
  save : ∀ (st : Stores) (nonce : Text) (ac : AcceptReqAddrData),
    R st { st with
      reqAddrInfo := update st.reqAddrInfo
        (reqAddrKey E rq.account EC256K1 rq.groupid nonce limitnum rq.mode) (some ac) }

section

variable {rq : Request} {limitnum : Text} (moves : RecordMoves E rq limitnum R)

include moves

theorem within_putPubKeyData {key : Text} {value : Value} (plain : ∀ ac, value ≠ .acceptReqAddr ac) :
    Within R (PutPubKeyData faults key value) :=
  within_attempt fun st => moves.put st key value plain

theorem within_dropOldRecord {smpcpks mode account : Text} :
    Within R (dropOldRecord E faults smpcpks mode account) := by
  refine within_bind within_lookup fun found => ?_
  split
  · exact within_bind (within_ofOutcome _) fun _ => within_bind (within_ofOutcome _) fun _ =>
      within_attempt fun st => moves.delete st _
  · exact within_pure _

theorem within_addToAccount {rk account : Text} : Within R (addToAccount E faults rk account) := by
  refine within_bind within_lookup fun found => ?_
  split
  · exact within_putPubKeyData moves (by simp)
  · split
    · exact within_pure _
    · exact within_putPubKeyData moves (by simp)
  · exact within_ofOutcome _

theorem within_addToAccounts {rk mode account sigs : Text} :
    Within R (addToAccounts E faults rk mode account sigs) := by
  unfold addToAccounts
  split
  · exact within_forM fun j => within_bind (within_ofOutcome _) fun _ => within_addToAccount moves
  · exact within_addToAccount moves

theorem within_storeRecords {smpcpks s : Text} :
    Within R (storeRecords E C faults rq limitnum smpcpks s) := by
  refine within_bind within_reqAddrNonce fun nonce => ?_
  refine within_bind within_encode fun _ => within_bind (within_dropOldRecord moves) fun _ => ?_
  refine within_bind (within_putPubKeyData moves (by simp)) fun _ => ?_
  refine within_bind (within_forM fun key => within_putPubKeyData moves (by simp)) fun _ => ?_
  have nonce_set : Within R (SetReqAddrNonce E faults rq.account nonce) :=
    within_bind (within_ofOutcome _) fun _ => within_putPubKeyData moves (by simp)
  refine within_bind nonce_set fun _ => within_bind ?_ fun _ => ?_
  · exact within_bind within_encode fun _ => within_attempt fun st => moves.save st nonce _
  · exact within_bind (within_addToAccounts moves) fun _ => within_pure _

end

/-- Once the entry of `key` is the new share it stays so. -/
def ShareStays (key share : Text) (st st' : Stores) : Prop :=
  st.sk key = some share → st'.sk key = some share

instance (key share : Text) : Uncounted (ShareStays key share) where
  refl _ stored := stored
  trans _ _ _ first second stored := second (first stored)
  count _ stored := stored

theorem within_afterShare (rq : Request) (limitnum : Text) (id : ℤ) (smpcpks s : Text) :
    Within (ShareStays smpcpks rq.SkU1) (afterShare E C faults rq limitnum id smpcpks s) := by
  have shares : Within (ShareStays smpcpks rq.SkU1)
      ((addressKeys E C rq.pubkeyhex).forM fun key => putSkU1ToLocalDb faults key rq.SkU1) := by
    refine within_forM fun key => within_attempt fun st stored => ?_
    show update st.sk key (some rq.SkU1) smpcpks = _
    by_cases own : smpcpks = key
    · rw [own, update_self]
    · rw [update_of_ne own, stored]
  have moves : RecordMoves E rq limitnum (ShareStays smpcpks rq.SkU1) :=
    ⟨fun _ _ _ _ stored => stored, fun _ _ stored => stored, fun _ _ _ stored => stored⟩
  refine within_bind shares fun _ => within_bind (within_storeRecords moves) fun nonce => ?_
  refine within_bind (within_bind within_lookup fun found => ?_) fun _ => within_pure _
  -- settling the request touches its record only
  split
  · exact within_pure _
  · refine within_bind within_lookup fun _ => within_bind (within_ofOutcome _) fun _ => ?_
    refine within_bind within_encode fun _ => ?_
    exact within_bind (within_attempt fun _ stored => stored) fun _ =>
      within_attempt fun _ stored => stored

/-- Before the run settles its request: settled requests were settled before, and a pending one was
there before or is the one that the run saves. -/
structure RequestsKept (E : Env) (rq : Request) (limitnum : Text) (st st' : Stores) : Prop where
  settled : ∀ key, isSettled (st'.pub key) → isSettled (st.pub key)
  pending : ∀ key, (st'.reqAddrInfo key).isSome → (st.reqAddrInfo key).isSome ∨
    ∃ nonce, key = reqAddrKey E rq.account EC256K1 rq.groupid nonce limitnum rq.mode

instance (rq : Request) (limitnum : Text) : Uncounted (RequestsKept E rq limitnum) where
  refl _ := ⟨fun _ => id, fun _ => .inl⟩
  trans _ _ _ first second :=
    ⟨fun key settled => first.settled key (second.settled key settled),
      fun key pending => (second.pending key pending).elim (first.pending key) .inr⟩
  count _ := ⟨fun _ => id, fun _ => .inl⟩

theorem recordMoves_requestsKept (rq : Request) (limitnum : Text) :
    RecordMoves E rq limitnum (RequestsKept E rq limitnum) where
  put st key value plain := by
    refine ⟨fun other settled => ?_, fun _ => .inl⟩
    by_cases own : other = key
    · have unsettled : isSettled (some value) = false := by
        cases value with
        | acceptReqAddr ac => exact absurd rfl (plain ac)
        | _ => rfl
      simp [own, unsettled] at settled
    · simpa [own] using settled
  delete st key := by
    refine ⟨fun other settled => ?_, fun _ => .inl⟩
    by_cases own : other = key
    · simp [own, isSettled] at settled
    · simpa [own] using settled
  save st nonce ac := by
    refine ⟨fun _ => id, fun other pending => ?_⟩
    by_cases own : other = reqAddrKey E rq.account EC256K1 rq.groupid nonce limitnum rq.mode
    · exact .inr ⟨nonce, own⟩
    · exact .inl (by simpa [own] using pending)

theorem within_putSkU1ToLocalDb {rq : Request} {limitnum key share : Text} :
    Within (RequestsKept E rq limitnum) (putSkU1ToLocalDb faults key share) :=
  within_attempt fun _ => ⟨fun _ => id, fun _ => .inl⟩

theorem lookup_eq_ok {α : Type} {table : Stores → Option α} {found : Option α} {st st' : Stores}
    (looked : exec (lookup faults table) st = (.ok found, st')) :
    (found = none ∨ found = table st) ∧ st' = { st with ops := st.ops + 1 } := by
  obtain ⟨found_eq, rfl⟩ := Prod.mk.inj looked
  refine ⟨?_, rfl⟩
  cases Except.ok.inj found_eq
  split
  · exact .inl rfl
  · exact .inr rfl

/-- A request that `AcceptReqAddr` settles, or finds settled, is in one of the databases. -/
theorem exists_of_acceptReqAddr {account cointype groupid nonce threshold mode pubkey : Text}
    {workid : ℤ} {st st' : Stores}
    (ran : exec (AcceptReqAddr E faults account cointype groupid nonce threshold mode pubkey workid) st
      = (.ok (), st')) :
    isSettled (st.pub (reqAddrKey E account cointype groupid nonce threshold mode)) ∨
      (st.reqAddrInfo (reqAddrKey E account cointype groupid nonce threshold mode)).isSome := by
  obtain ⟨da, st₁, looked, ran⟩ := exec_bind_eq_ok ran
  obtain ⟨da_eq, rfl⟩ := lookup_eq_ok looked
  by_cases settled : isSettled da
  · left
    rcases da_eq with rfl | rfl
    · cases settled
    · exact settled
  · right
    rw [if_neg settled] at ran
    obtain ⟨found, st₂, looked, ran⟩ := exec_bind_eq_ok ran
    obtain ⟨found_eq, -⟩ := lookup_eq_ok looked
    obtain ⟨ac, _, present, -⟩ := exec_bind_eq_ok ran
    obtain rfl : found = some ac := orError_eq_ok.mp (congrArg Prod.fst present)
    rcases found_eq with absent | found
    · cases absent
    · exact isSome_of_mem found.symm

end

/-! ## Failed runs -/

section

variable (E : Env) (C : Coins) (faults : ℕ → Bool) (rq : Request)

/-- The keys of the public key and of its addresses. -/
def ownKeys : List Text :=
  (hexDecode rq.pubkey).toList ++ addressKeys E C rq.pubkeyhex ++ addressKeys E C rq.pubkey

/-- The share and the record under each of the keys are the same. -/
def Kept (st st' : Stores) : Prop :=
  ∀ key ∈ ownKeys E C rq, st'.sk key = st.sk key ∧ st'.pub key = st.pub key

/-- The run gets to the new public key, which is the old one, and the first operation on the share
database succeeds. -/
structure WritesShare (st : Stores) : Prop where
  finished : awaitEnd rq.signals = .ok ()
  worker : rq.worker.isSome
  save : rq.save.isSome
  hex : (hexDecode rq.pubkey).isSome
  same : E.folding.EqualFold rq.pubkey rq.pubkeyhex
  stored : faults st.ops = false

variable {E C faults rq}

theorem newKey_eq_ok {w : Text × ℤ} {smpcpks s : Text} :
    newKey E rq = .ok (w, smpcpks, s) ↔
      awaitEnd rq.signals = .ok () ∧ rq.worker = some w ∧ rq.save = some s ∧
        hexDecode rq.pubkey = some smpcpks ∧ E.folding.EqualFold rq.pubkey rq.pubkeyhex := by
  simp only [newKey, eq_ok]
  constructor
  · rintro ⟨_, finished, _, worker, _, save, _, hex, _, same, eq⟩
    cases eq
    exact ⟨finished, worker, save, hex, same⟩
  · rintro ⟨finished, worker, save, hex, same⟩
    exact ⟨(), finished, w, worker, s, save, smpcpks, hex, (), same, rfl⟩

/-- A run that does not write the share stops before any change. -/
theorem exec_of_not_writesShare {st : Stores} (early : ¬ WritesShare E faults rq st) :
    ∃ fault, ∀ sk, ∃ ops,
      exec (processReshare E C faults rq) { st with sk := sk } =
        (.error fault, { st with sk := sk, ops := ops }) := by
  cases checked : newKey E rq with
  | error fault => exact ⟨fault, fun sk => ⟨st.ops, exec_bind_error (by rw [checked]; rfl)⟩⟩
  | ok found =>
    obtain ⟨⟨limitnum, id⟩, smpcpks, s⟩ := found
    obtain ⟨finished, worker, save, hex, same⟩ := newKey_eq_ok.mp checked
    have failing : faults st.ops = true := by
      by_contra works
      exact early ⟨finished, by simp [worker], by simp [save], by simp [hex], same, by simpa using works⟩
    refine ⟨.error "put sku1 data to db fail", fun sk => ⟨st.ops + 1, ?_⟩⟩
    refine (exec_bind_ok (by rw [checked]; rfl)).trans (exec_bind_error ?_)
    exact if_pos failing

/-- A run that writes the share leaves it under the public key, however it ends. -/
theorem share_of_writesShare {st : Stores} (writes : WritesShare E faults rq st) {smpcpks : Text}
    (hex : hexDecode rq.pubkey = some smpcpks) (sk : Text → Option Text) :
    (exec (processReshare E C faults rq) { st with sk := sk }).2.sk smpcpks = some rq.SkU1 := by
  obtain ⟨⟨limitnum, id⟩, worker⟩ := isSome_iff_exists.mp writes.worker
  obtain ⟨s, save⟩ := isSome_iff_exists.mp writes.save
  have checked := newKey_eq_ok.mpr ⟨writes.finished, worker, save, hex, writes.same⟩
  have written : exec (putSkU1ToLocalDb faults smpcpks rq.SkU1) { st with sk := sk } =
      (.ok (), { st with sk := update sk smpcpks (some rq.SkU1), ops := st.ops + 1 }) := by
    simp [putSkU1ToLocalDb, attempt, writes.stored]
  rw [processReshare, exec_bind_ok (by rw [checked]; rfl), exec_bind_ok written]
  exact within_afterShare rq limitnum id smpcpks s _ (update_self ..)

/-- The last call asks for the request under the key type `ALL`.  A run returns its share only if a
request of that type was there before, or its key is that of the request the run saves. -/
theorem accepted_before_of_ok {st st' : Stores} {share : Text}
    (ran : exec (processReshare E C faults rq) st = (.ok share, st')) :
    ∃ nonce limitnum,
      let key := reqAddrKey E rq.account ALL rq.groupid nonce limitnum rq.mode
      isSettled (st.pub key) ∨ (st.reqAddrInfo key).isSome ∨
        ∃ nonce', key = reqAddrKey E rq.account EC256K1 rq.groupid nonce' limitnum rq.mode := by
  obtain ⟨⟨⟨limitnum, id⟩, smpcpks, s⟩, st₁, checked, ran⟩ := exec_bind_eq_ok ran
  obtain rfl : st = st₁ := congrArg Prod.snd checked
  obtain ⟨_, st₂, own_share, ran⟩ := exec_bind_eq_ok ran
  obtain ⟨_, st₃, shares, ran⟩ := exec_bind_eq_ok ran
  obtain ⟨nonce, st₄, records, ran⟩ := exec_bind_eq_ok ran
  obtain ⟨_, _, accepted, -⟩ := exec_bind_eq_ok ran
  -- nothing before the last call adds a request of type `ALL`
  have kept : RequestsKept E rq limitnum st st₄ := by
    have first : RequestsKept E rq limitnum st st₂ := within_putSkU1ToLocalDb.of_exec own_share
    have second : RequestsKept E rq limitnum st₂ st₃ :=
      (within_forM fun _ => within_putSkU1ToLocalDb).of_exec shares
    have third := (within_storeRecords (recordMoves_requestsKept rq limitnum)).of_exec records
    exact IsTrans.trans _ _ _ (IsTrans.trans _ _ _ first second) third
  refine ⟨nonce, limitnum, ?_⟩
  rcases exists_of_acceptReqAddr accepted with settled | pending
  · exact .inl (kept.settled _ settled)
  · exact .inr (kept.pending _ pending)

end

/-- **Failed resharing.**  A failed run leaves the share and the record as they were, whatever
share the node held, exactly when it stops before the share is written under the public key. -/
theorem failed_reshare_keeps_iff (E : Env) (C : Coins) (faults : ℕ → Bool) (rq : Request)
    (st : Stores) (text : String)
    (failed : (exec (processReshare E C faults rq) st).1 = .error (.error text)) :
    (∀ sk : Text → Option Text,
      (exec (processReshare E C faults rq) { st with sk := sk }).1 = .error (.error text) ∧
        Kept E C rq { st with sk := sk }
          (exec (processReshare E C faults rq) { st with sk := sk }).2) ↔
      ¬ WritesShare E faults rq st := by
  constructor
  · intro kept writes
    obtain ⟨smpcpks, hex⟩ := isSome_iff_exists.mp writes.hex
    have own : smpcpks ∈ ownKeys E C rq := by simp [ownKeys, hex]
    have absent := ((kept fun _ => none).2 smpcpks own).1
    rw [share_of_writesShare writes hex] at absent
    cases absent
  · intro early sk
    obtain ⟨fault, runs⟩ := exec_of_not_writesShare (C := C) early
    obtain ⟨ops, before⟩ := runs st.sk
    obtain ⟨ops', ran⟩ := runs sk
    have same : fault = .error text := by
      rw [before] at failed
      exact Except.error.inj failed
    rw [ran, same]
    exact ⟨rfl, fun key _ => ⟨rfl, rfl⟩⟩

/-! ## Two runs

The public key `0a` has the address `A`; no operation fails. -/

namespace Runs

theorem enode_length_nil (_ : Text) : ∀ enode ∈ ([] : List Text), enode.length = 128 := by simp

def env : Env where
  folding := lowerFolding
  ToLower := List.map Char.toLower
  Keccak256Hash := id
  digest _ _ := 0
  groups _ := []
  enode_length := enode_length_nil
  decode _ := none
  curEnode := ['e']
  MaxAcceptTime := 0

def coins : Coins where
  Cointypes := [ALL, ['E', 'T', 'H']]
  PublicKeyToAddress _ _ := some ['A']

def smpcpks : Text := [Char.ofNat 10]

def request : Request where
  msgprex := ['r']
  groupid := ['g']
  pubkey := ['0', 'a']
  account := ['x']
  mode := mode1
  sigs := []
  signals := [.outCh none, .endCh]
  worker := some (['2', '/', '3'], 0)
  save := some ['s']
  pubkeyhex := ['0', 'a']
  SkU1 := ['n', 'e', 'w']
  tt := ['1']
  wid := 0

def oldRecord (Mode : Text) : PubKeyData where
  Key := ['k']
  Account := ['x']
  Pub := smpcpks
  Save := ['o']
  Nonce := ['0']
  GroupID := ['g']
  LimitNum := ['2', '/', '3']
  Mode
  KeyGenTime := ['0']
  RefReShareKeys := []

/-- The old share and the old record under the public key and the address. -/
def stores (Mode : Text) : Stores where
  sk key := if key = smpcpks ∨ key = ['a'] then some ['o', 'l', 'd'] else none
  pub key := if key = smpcpks ∨ key = ['a'] then some (.pubKey (oldRecord Mode)) else none
  reqAddrInfo _ := none
  ops := 0

def result (Mode : Text) : Outcome Text × Stores :=
  exec (processReshare env coins (fun _ => false) request) (stores Mode)

/-- A run that gets another public key stops before it writes. -/
theorem failed_reshare_keeps_other_key :
    Kept env coins { request with pubkeyhex := ['0', 'b'] } (stores mode1)
      (exec (processReshare env coins (fun _ => false) { request with pubkeyhex := ['0', 'b'] })
        (stores mode1)).2 :=
  ((failed_reshare_keeps_iff env coins (fun _ => false) { request with pubkeyhex := ['0', 'b'] }
      (stores mode1) "reshare fail,old pubkey != new pubkey" (by decide +kernel)).mpr
    (fun writes => absurd writes.same (by decide)) (stores mode1).sk).2

/-- No operation fails, mode and account agree: the run replaces shares and records and returns the
error of its last call.  Where the old record has another mode, the shares are replaced before the
run is refused. -/
theorem shares_replaced_by_failed_runs :
    (result mode1).1 = .error (.error "get reqaddr accept data fail from db") ∧
    ((result mode1).2.sk smpcpks = some ['n', 'e', 'w'] ∧
      (result mode1).2.sk ['a'] = some ['n', 'e', 'w'] ∧
      (result mode1).2.pub smpcpks ≠ (stores mode1).pub smpcpks) ∧
    (result mode0).1 = .error (.error "check mode fail") ∧
    ((result mode0).2.sk smpcpks = some ['n', 'e', 'w'] ∧
      (result mode0).2.sk ['a'] = some ['n', 'e', 'w'] ∧
      (result mode0).2.pub smpcpks = (stores mode0).pub smpcpks) := by
  decide +kernel

end Runs

end ThresholdDsa.Smpc.Reshare
