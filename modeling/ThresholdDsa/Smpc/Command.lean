/-
# Commands, their records and their checks

Commands and approvals reach a node as transactions: a sender, a nonce and the
data of a key generation request, a sign request or the approval of either.
`CheckTxData` checks the data against the databases and the group table and
returns the key of the command; `CheckRaw` does so for the text of a transaction.
`CheckAccept` and `CheckAcc` say which accounts may approve.

Decoding a transaction (RLP, the sender's signature, JSON) is the parameter
`decode`; hashing, letter case and the table of groups are parameters too.  The
database of public keys holds records of several types under one kind of key.
-/
import ThresholdDsa.Smpc.Group

namespace ThresholdDsa.Smpc

open Outcome GoText

/-! ## Transactions and records -/

structure TxDataReqAddr where
  (Keytype GroupID ThresHold Mode AcceptTimeOut TimeStamp : Text)
  deriving DecidableEq

/-- The list of hashes may be absent. -/
structure TxDataSign where
  (PubKey InputCode : Text)
  MsgHash : Option (List Text)
  MsgContext : List Text
  (Keytype GroupID ThresHold Mode AcceptTimeOut TimeStamp : Text)
  deriving DecidableEq

structure TxDataAcceptReqAddr where
  (Key Accept TimeStamp : Text)
  deriving DecidableEq

structure TxDataAcceptSign where
  Key : Text
  MsgHash : Option (List Text)
  MsgContext : List Text
  (Accept TimeStamp : Text)
  deriving DecidableEq

inductive TxData where
  | reqAddr (req : TxDataReqAddr)
  | sign (sig : TxDataSign)
  | acceptReqAddr (acceptreq : TxDataAcceptReqAddr)
  | acceptSign (acceptsig : TxDataAcceptSign)
  deriving DecidableEq

/-- A decoded transaction; `sender` is the address recovered from its signature. -/
structure Tx where
  sender : Text
  Nonce : ℕ
  data : TxData
  deriving DecidableEq

structure PubKeyData where
  (Key Pub Mode : Text)
  deriving DecidableEq

/-- `common.Sep`. -/
def Sep : Text := "dcrmparm".toList

/-- `Sigs` is the list of its fields, which `Sep` separates: the number of nodes, then enode and
account of each. -/
structure AcceptReqAddrData where
  (Account GroupID LimitNum Mode : Text)
  Sigs : List Text
  deriving DecidableEq

structure AcceptSignData where
  (Account GroupID PubKey Mode Deal Status : Text)
  deriving DecidableEq

inductive Value where
  | pubKey (pd : PubKeyData)
  | acceptSign (ac : AcceptSignData)
  | acceptReqAddr (ac : AcceptReqAddrData)
  | bytes (da : Text)
  deriving DecidableEq

/-- `GetPubKeyData`, `GetSignInfoData` and `GetReqAddrInfoData`. -/
structure Db where
  (pubKey signInfo reqAddrInfo : Text → Option Value)

def Value.pubKey? : Value → Option PubKeyData
  | .pubKey pd => some pd
  | _ => none

def Value.acceptSign? : Value → Option AcceptSignData
  | .acceptSign ac => some ac
  | _ => none

def Value.acceptReqAddr? : Value → Option AcceptReqAddrData
  | .acceptReqAddr ac => some ac
  | _ => none

def TxData.sign? : TxData → Option TxDataSign
  | .sign sig => some sig
  | _ => none

def Db.putPubKey (db : Db) (key : Text) (value : Value) : Db :=
  { db with pubKey := Function.update db.pubKey key (some value) }

def Db.putSignInfo (db : Db) (key : Text) (value : Value) : Db :=
  { db with signInfo := Function.update db.signInfo key (some value) }

/-- What the checks take from outside: letter case, hashes, the group table and decoding.
`groups` lists the enode ids of a group, 64 bytes in hexadecimal. -/
structure Env where
  folding : Folding
  (ToLower Keccak256Hash : Text → Text)
  digest : Text → Text → ℕ
  groups : Text → List Enode
  enode_length : ∀ gid, ∀ node ∈ groups gid, node.length = 128
  decode : Text → Option Tx
  curEnode : Enode
  MaxAcceptTime : ℤ

def EC256K1 : Text := ['E', 'C', '2', '5', '6', 'K', '1']
def ED25519 : Text := ['E', 'D', '2', '5', '5', '1', '9']
def AGREE : Text := ['A', 'G', 'R', 'E', 'E']
def DISAGREE : Text := ['D', 'I', 'S', 'A', 'G', 'R', 'E', 'E']
def mode0 : Text := ['0']
def mode1 : Text := ['1']

/-- `discover.HexID`: 64 bytes in hexadecimal, with or without `0x`. -/
def HexID (gID : Text) : Option Text :=
  (hexDecode (if ['0', 'x'].isPrefixOf gID then gID.drop 2 else gID)).filter (·.length = 64)

section

variable (E : Env) (db : Db)

/-- The nodes of a group; an unknown group has none. -/
def GetGroup (gID : Text) : List Enode :=
  match HexID gID with
  | some gid => E.groups gid
  | none => []

variable {E} in
theorem enode_length_of_mem {gID : Text} {node : Enode} (mem : node ∈ GetGroup E gID) :
    node.length = 128 := by
  unfold GetGroup at mem
  split at mem
  · exact E.enode_length _ node mem
  · exact absurd mem (by simp)

/-- No two nodes of the group have the same enode id in lower case. -/
def CheckGroupEnode (gid : Text) : Bool :=
  gid ≠ [] ∧ ((GetGroup E gid).map E.ToLower).Nodup

/-! ## The hash list in a sign key -/

def hashID (keytype id : Text) : Option ℕ :=
  if id = [] ∨ keytype = [] then none else some (E.digest keytype id)

/-- Sorting compares the digests; comparing a nil digest with another one panics. -/
def sortIDs (ids : List (Option ℕ)) : Outcome (List (Option ℕ)) :=
  if ids.all (·.isSome) then pure (((ids.filterMap id).insertionSort (· ≤ ·)).map some)
  else if ids.all (·.isNone) then pure ids
  else .error .panic

def idField : Option ℕ → Text
  | some n => itoa n
  | none => ['<', 'n', 'i', 'l', '>']

def getSignHash (hash : Option (List Text)) (keytype : Text) : Outcome Text :=
  match hash with
  | none => pure []
  | some hash =>
    if keytype = [] then pure [] else do
      let ids ← sortIDs (hash.map (hashID E keytype))
      pure (ids.flatMap (fun v => idField v ++ [':']) ++ ['N', 'U', 'L', 'L'])

/-! ## Who may approve -/

/-- Any field of `Sigs` is compared with the account. -/
def CheckAcc (geteracc : Text) (sigs : List Text) : Bool :=
  E.curEnode ≠ [] ∧ geteracc ≠ [] ∧ sigs.any (E.folding.EqualFold geteracc)

/-- The record of the key generation of a public key. -/
def keygenRecord (smpcpks : Text) : Option AcceptReqAddrData := do
  let pd ← (← db.pubKey smpcpks).pubKey?
  (← db.pubKey pd.Key).acceptReqAddr?

def CheckAccept (pubkey mode account : Text) : Bool :=
  pubkey ≠ [] ∧ mode ≠ [] ∧ account ≠ [] ∧
    (keygenRecord db (hexDecodeBytes pubkey)).any fun ac =>
      ac.Mode = mode ∧
        ((mode = mode1 ∧ E.folding.EqualFold account ac.Account) ∨
          (mode = mode0 ∧ CheckAcc E account ac.Sigs))

/-! ## `CheckTxData` -/

def atoiError : String := "strconv.Atoi: parsing"

/-- The two numbers of a threshold text. -/
def thresholdNums (formatError : String) (threshold : Text) : Outcome (ℤ × ℤ) :=
  match threshold.splitOn '/' with
  | [first, second] => do
    let nodecnt ← orError atoiError (Atoi second)
    let limit ← orError atoiError (Atoi first)
    pure (limit, nodecnt)
  | _ => .error (.error formatError)

theorem thresholdNums_eq_ok {formatError : String} {threshold : Text} {limit nodecnt : ℤ} :
    thresholdNums formatError threshold = .ok (limit, nodecnt) ↔
      ∃ first second, threshold.splitOn '/' = [first, second] ∧ Atoi first = some limit ∧
        Atoi second = some nodecnt := by
  unfold thresholdNums
  split
  · rename_i first second split_eq
    simp only [eq_ok, Prod.mk.injEq, split_eq, List.cons.injEq, and_true]
    constructor
    · rintro ⟨n, n_eq, l, l_eq, rfl, rfl⟩
      exact ⟨first, second, ⟨rfl, rfl⟩, l_eq, n_eq⟩
    · rintro ⟨_, _, ⟨rfl, rfl⟩, l_eq, n_eq⟩
      exact ⟨nodecnt, n_eq, limit, l_eq, rfl, rfl⟩
  · rename_i other
    simp only [reduceCtorEq, false_iff, not_exists, not_and]
    exact fun first second split_eq => absurd split_eq (other first second)

/-- The waiting time of a request, 600 seconds where it is absent or malformed. -/
def acceptTime (AcceptTimeOut : Text) : ℤ := (Atoi AcceptTimeOut).getD 600

def checkAcceptTime (AcceptTimeOut : Text) : Outcome Unit := do
  require (0 < acceptTime AcceptTimeOut) "illegal agreed timeout"
  require (acceptTime AcceptTimeOut ≤ E.MaxAcceptTime) "greater than the agreed maximum timeout"

def checkMsgContext (MsgContext : List Text) : Outcome Unit := do
  require (MsgContext.length ≤ 16) "msgcontext counts must <= 16"
  require (MsgContext.all (·.length ≤ 1024 * 1024)) "msgcontext item size must <= 1M"

/-- The text that is hashed into a key. -/
def keyText (fields : List Text) : Text := [':'].intercalate fields

variable (sender : Text) (nonce : ℕ)

def signKey (sig : TxDataSign) : Outcome Text := do
  let hash ← getSignHash E sig.MsgHash sig.Keytype
  pure (E.Keccak256Hash (E.ToLower (keyText
    [sender, itoa nonce, sig.PubKey, hash, sig.Keytype, sig.GroupID, sig.ThresHold, sig.Mode])))

def checkSign (sig : TxDataSign) : Outcome Text := do
  require (sender ≠ [] ∧ sig.PubKey ≠ [] ∧ sig.MsgHash.isSome ∧ sig.Keytype ≠ [] ∧
    sig.GroupID ≠ [] ∧ sig.ThresHold ≠ [] ∧ sig.Mode ≠ [] ∧ sig.TimeStamp ≠ [])
    "param error from raw data"
  let indexs := sig.InputCode.splitOn '/'
  require (sig.InputCode = [] ∨ (2 ≤ indexs.length ∧ indexs.head? = some ['m']))
    "param error from raw data"
  require (sig.Keytype = EC256K1 ∨ sig.Keytype = ED25519) "invalid keytype"
  let (limit, nodecnt) ← thresholdNums "threshold is not right" sig.ThresHold
  require (limit ≤ nodecnt ∧ 2 ≤ limit) "threshold format error"
  let nc : ℤ := (GetGroup E sig.GroupID).length
  require (limit ≤ nc ∧ nc ≤ nodecnt) "check group node count error"
  require (CheckGroupEnode E sig.GroupID) "there is same enodeID in group"
  let smpcpks ← orError "encoding/hex: invalid" (hexDecode sig.PubKey)
  let pubs ← orError "get data from db fail in func sign" ((db.pubKey smpcpks).bind (·.pubKey?))
  require (pubs.Mode = sig.Mode) "can not sign with different mode in pubkey"
  checkMsgContext sig.MsgContext
  checkAcceptTime E sig.AcceptTimeOut
  signKey E sender nonce sig

def checkAcceptSign (acceptsig : TxDataAcceptSign) : Outcome Text := do
  require acceptsig.MsgHash.isSome "accept data error"
  checkMsgContext acceptsig.MsgContext
  require (acceptsig.Accept = AGREE ∨ acceptsig.Accept = DISAGREE)
    "transaction data format error,the lastest segment is not AGREE or DISAGREE"
  let ac ← orError "get accept result from db fail"
    ((db.signInfo acceptsig.Key).bind (·.acceptSign?))
  require (ac.Mode ≠ mode1) "mode = 1,do not need to accept"
  require (CheckAccept E db ac.PubKey ac.Mode sender) "invalid accepter"
  pure acceptsig.Key

def reqAddrKey (req : TxDataReqAddr) : Text :=
  E.Keccak256Hash (E.ToLower (keyText
    [sender, req.Keytype, req.GroupID, itoa nonce, req.ThresHold, req.Mode]))

def checkReqAddr (req : TxDataReqAddr) : Outcome Text := do
  require (req.Keytype = EC256K1 ∨ req.Keytype = ED25519) "invalid keytype"
  require (req.GroupID ≠ []) "get group id fail"
  require (req.ThresHold ≠ []) "get threshold fail"
  require (req.Mode ≠ []) "get mode fail"
  checkAcceptTime E req.AcceptTimeOut
  require (req.TimeStamp ≠ []) "get timestamp fail"
  let (ts, nodecnt) ← thresholdNums "tx.data error" req.ThresHold
  require (ts ≤ nodecnt ∧ 2 ≤ ts) "threshold format error"
  require ((GetGroup E req.GroupID).length = nodecnt) "check group node count error"
  require (CheckGroupEnode E req.GroupID) "there is same enodeID in group"
  pure (reqAddrKey E sender nonce req)

def checkAcceptReqAddr (acceptreq : TxDataAcceptReqAddr) : Outcome Text := do
  require (acceptreq.Accept = AGREE ∨ acceptreq.Accept = DISAGREE)
    "transaction data format error,the lastest segment is not AGREE or DISAGREE"
  let da ← orError "get accept data fail from db in checking raw reqaddr accept data"
    (db.reqAddrInfo acceptreq.Key)
  let ac ← orError "decode accept data fail" da.acceptReqAddr?
  require (ac.Mode ≠ mode1) "mode = 1,do not need to accept"
  require (CheckAcc E sender ac.Sigs) "invalid accept account"
  pure acceptreq.Key

/-- The key of the command, or the error. -/
def CheckTxData (tx : Tx) : Outcome Text :=
  match tx.data with
  | .reqAddr req => checkReqAddr E tx.sender tx.Nonce req
  | .sign sig => checkSign E db tx.sender tx.Nonce sig
  | .acceptReqAddr acceptreq => checkAcceptReqAddr E db tx.sender acceptreq
  | .acceptSign acceptsig => checkAcceptSign E db tx.sender acceptsig

def CheckRaw (raw : Text) : Outcome (Text × Tx) := do
  let tx ← orError "Unsupported request type" (E.decode raw)
  let key ← CheckTxData E db tx
  pure (key, tx)

variable {E db}

theorem checkRaw_eq_ok {raw k : Text} {tx : Tx} :
    CheckRaw E db raw = .ok (k, tx) ↔ E.decode raw = some tx ∧ CheckTxData E db tx = .ok k := by
  simp only [CheckRaw, eq_ok, Prod.mk.injEq]
  constructor
  · rintro ⟨tx', decoded, k', checked, rfl, rfl⟩
    exact ⟨decoded, checked⟩
  · rintro ⟨decoded, checked⟩
    exact ⟨tx, decoded, k, checked, rfl, rfl⟩

end

end ThresholdDsa.Smpc
