/-
# Approving and starting a reshare

The RESHARE command and its approvals.  `DoReq` saves a record of the command and
waits.  An approval is put into the worker's list of transactions, one for each
account and type (`CheckReshareDulpRawReply`); when every node of the group has one
there, a token ends the wait.  `GetReplyFromGroup` then reads the list once more,
and the run is started if every node agrees.

The handler of an approval works in two parts: it collects the transaction
(`DisAcceptMsg`), and afterwards updates the record, to `Failure` if the approval
says DISAGREE.  A transaction that came before its worker was found is collected
only (`HandleC1Data`).  The transactions of the list are checked again whenever
they are read, and an approval passes only while the record is pending.

Keys are hexadecimal digests in lower case, so the worker that `FindWorker`
compares without regard to case is the one with the key itself.  The databases do
not fail here; what happens when they do is in `Smpc.AcceptStatus`.
-/
import ThresholdDsa.Smpc.AcceptStatus
import ThresholdDsa.Smpc.Approval

namespace ThresholdDsa.Smpc.ReshareApproval

open Outcome GoText AcceptStatus

/-! ## Transactions -/

structure TxDataReShare where
  (PubKey GroupID TSGroupID ThresHold Account Mode AcceptTimeOut TimeStamp : Text)
  deriving DecidableEq

structure TxDataAcceptReShare where
  (Key Accept TimeStamp : Text)
  deriving DecidableEq

inductive ReshareData where
  | reShare (rh : TxDataReShare)
  | acceptReShare (acceptrh : TxDataAcceptReShare)
  deriving DecidableEq

structure ReshareTx where
  sender : Text
  Nonce : ℕ
  data : ReshareData
  deriving DecidableEq

/-- Decoding of the two transaction types, the address of a public key (an error for a malformed
one), and the account signatures of a command. -/
structure ReshareEnv extends Env where
  decodeReshare : Text → Option ReshareTx
  PublicKeyToAddress : Text → Option Text
  GetGroupSigsDataByRaw : Text → Outcome Text

abbrev AcceptReShareData := Record ReShareFixed

/-- The record of one command in the two databases. -/
abbrev Places := AcceptStatus.Place → Option AcceptReShareData

section

variable (E : ReshareEnv)

/-- The nodes of a group; splitting the empty text of an unknown group gives one empty name. -/
def nodesOf (gid : Text) : List Enode :=
  match GetGroup E.toEnv gid with
  | [] => [[]]
  | nodes => nodes

/-- The account of a node: the address of the public key `04…`. -/
def accountOf (node : Enode) : Option Text := E.PublicKeyToAddress ('0' :: '4' :: node)

/-- A node whose key has no address ends the search. -/
def validAccept (sender : Text) : List Enode → Bool
  | [] => false
  | node :: rest =>
    match accountOf E node with
    | none => false
    | some fr => if E.folding.EqualFold sender fr then true else validAccept sender rest

variable (sender : Text) (info : Text → Option AcceptReShareData) (tx : ReshareTx) (l : List Text)

def IsValidReShareAccept (gid : Text) : Bool :=
  sender ≠ [] ∧ gid ≠ [] ∧ validAccept E sender (nodesOf E gid)

def reshareKey (rh : TxDataReShare) : Text :=
  E.Keccak256Hash (E.ToLower (keyText
    [sender, rh.GroupID, rh.TSGroupID, rh.PubKey, rh.ThresHold, rh.Mode]))

def checkReShare (rh : TxDataReShare) : Outcome Text := do
  require (IsValidReShareAccept E sender rh.GroupID) "check current enode account fail from raw data"
  require (sender ≠ [] ∧ rh.PubKey ≠ [] ∧ rh.TSGroupID ≠ [] ∧ rh.ThresHold ≠ [] ∧ rh.Account ≠ [] ∧
    rh.Mode ≠ [] ∧ rh.TimeStamp ≠ []) "param error"
  let (limit, nodecnt) ← thresholdNums "transacion data format error,threshold is not right" rh.ThresHold
  require (limit ≤ nodecnt ∧ 2 ≤ limit) "threshold format error"
  let nc : ℤ := (GetGroup E.toEnv rh.GroupID).length
  require (limit ≤ nc ∧ nc ≤ nodecnt) "check group node count error"
  checkAcceptTime E.toEnv rh.AcceptTimeOut
  pure (reshareKey E sender rh)

/-- `info` is `GetReShareInfoData`. -/
def checkAcceptReShare (acceptrh : TxDataAcceptReShare) :
    Outcome Text := do
  require (acceptrh.Accept = AGREE ∨ acceptrh.Accept = DISAGREE)
    "transaction data format error,the lastest segment is not AGREE or DISAGREE"
  let ac ← orError "get accept result from db fail" (info acceptrh.Key)
  require (ac.fixed.Mode ≠ mode1) "mode = 1,do not need to accept"
  pure acceptrh.Key

def CheckTxData : Outcome Text :=
  match tx.data with
  | .reShare rh => checkReShare E tx.sender rh
  | .acceptReShare acceptrh => checkAcceptReShare info acceptrh

def CheckRaw (raw : Text) : Outcome (Text × ReshareTx) := do
  let tx ← orError "Unsupported request type" (E.decodeReshare raw)
  let key ← CheckTxData E info tx
  pure (key, tx)

/-! ## One entry for each account and type -/

def RESHARE : Text := "RESHARE".toList
def ACCEPTRESHARE : Text := "ACCEPTRESHARE".toList

def GetReshareRawValue (raw : Text) : RawValue :=
  match E.decodeReshare raw with
  | some ⟨sender, _, .reShare rh⟩ => (sender, RESHARE, rh.TimeStamp)
  | some ⟨sender, _, .acceptReShare acceptrh⟩ => (sender, ACCEPTRESHARE, acceptrh.TimeStamp)
  | none => ([], [], [])

def sameVoter (v v' : RawValue) : Bool :=
  E.folding.EqualFold v.1 v'.1 ∧ E.folding.EqualFold v.2.1 v'.2.1

/-- The loop of the duplicate filter: its answer, and the list it leaves. -/
def dulpLoop (raw : Text) : List Text → Outcome Bool × List Text
  | [] => (pure true, [])
  | s :: rest =>
    if s = [] then ((dulpLoop raw rest).1, s :: (dulpLoop raw rest).2)
    else if E.folding.EqualFold raw s then (pure false, s :: rest)
    else if sameVoter E (GetReshareRawValue E raw) (GetReshareRawValue E s) then
      match later (GetReshareRawValue E raw).2.2 (GetReshareRawValue E s).2.2 with
      | .ok true => dulpLoop raw rest
      | answer => (answer, s :: rest)
    else ((dulpLoop raw rest).1, s :: (dulpLoop raw rest).2)

def CheckReshareDulpRawReply (raw : Text) (l : List Text) : Outcome Bool × List Text :=
  if raw ≠ [] ∧ (GetReshareRawValue E raw).present then dulpLoop E raw l else (pure false, l)

/-! ## Replies of the group -/

/-- The first transaction of the list that passes the checks and comes from the account. -/
def replyOf (account : Text) :
    Option ReshareTx :=
  l.findSome? fun raw =>
    match CheckRaw E info raw with
    | .ok (_, tx) => if E.folding.EqualFold tx.sender account then some tx else none
    | .error _ => none

def ReshareTx.TimeStamp : Text :=
  match tx.data with
  | .reShare rh => rh.TimeStamp
  | .acceptReShare acceptrh => acceptrh.TimeStamp

/-- A node agrees if it has any transaction in the list. -/
def GetReplyFromGroup (gid initiator : Text) :
    List NodeReply :=
  (nodesOf E gid).map fun node =>
    let in' := if E.folding.EqualFold initiator node then ['1'] else ['0']
    match (accountOf E node).bind (replyOf E info l) with
    | some tx => ⟨node, agree, tx.TimeStamp, in'⟩
    | none => ⟨node, Pending, [], in'⟩

def rawReply : RawReply :=
  match tx.data with
  | .reShare rh => ⟨tx.sender, true, rh.TimeStamp⟩
  | .acceptReShare acceptrh => ⟨tx.sender, acceptrh.Accept = AGREE, acceptrh.TimeStamp⟩

def GetRawReply : Outcome (List RawReply) :=
  l.foldlM (fun ret raw =>
    match CheckRaw E info raw with
    | .ok (_, tx) => putRawReply (rawReply tx) ret
    | .error (.error _) => pure ret
    | .error .panic => .error .panic) []

/-- Every node of the group has a reply, whatever it says. -/
def CheckReply (key : Text) : Outcome Bool :=
  match info key with
  | none => pure false
  | some ac => do
    let ret ← GetRawReply E info l
    pure ((nodesOf E ac.fixed.GroupID).all fun node =>
      (accountOf E node).any fun fr => replied E.toEnv ret fr)

end

/-! ## The command and its wait -/

inductive Phase where
  | waiting
  | refused
  | started
  deriving DecidableEq

/-- A RESHARE command in the hands of a worker.  `sender` is the node that sent it, `account` the
sender of the transaction. -/
structure Command where
  raw : Text
  sender : Enode
  account : Text
  rh : TxDataReShare
  key : Text
  (workid NodeCnt : ℤ)
  deriving DecidableEq

/-- The worker of the command.  `handling` lists the approvals between the two parts of their
handler; `counted` is not in the program, it lists all transactions ever put into the list. -/
structure Job where
  msgacceptreshareres : List Text
  (bacceptreshareres acceptReShareChan : Bool)
  handling : List Text
  phase : Phase
  counted : List Text
  deriving DecidableEq

def Job.initial : Job := ⟨[], false, false, [], .waiting, []⟩

section Wait

variable (E : ReshareEnv) (c : Command) (db : Places) (raw : Text)

/-- `GetReShareInfoData`, for the key of the command. -/
def infoOf (key : Text) : Option AcceptReShareData :=
  if key = c.key then db .pending else none

/-- A job after `DisAcceptMsg`; `notify` is the send of the token, `blocked` that the call waits for
ever at a full channel. -/
structure Collected where
  job : Job
  (notify blocked : Bool)

/-- `DisAcceptMsg`; a panic is recovered and ends the call. -/
def DisAcceptMsg (j : Job) : Collected :=
  match CheckRaw E (infoOf c db) raw with
  | .error _ => ⟨j, false, false⟩
  | .ok (key, _) =>
    if Find E.toEnv j.msgacceptreshareres raw then ⟨j, false, false⟩
    else
      match CheckReshareDulpRawReply E raw j.msgacceptreshareres with
      | (.ok true, l) =>
        let j := { j with msgacceptreshareres := l ++ [raw], counted := j.counted ++ [raw] }
        if c.NodeCnt ≤ j.msgacceptreshareres.length ∧
            CheckReply E (infoOf c db) j.msgacceptreshareres key = .ok true then
          if j.bacceptreshareres then ⟨j, false, true⟩
          else ⟨{ j with bacceptreshareres := true }, true, false⟩
        else ⟨j, false, false⟩
      | (_, l) => ⟨{ j with msgacceptreshareres := l }, false, false⟩

/-- The token goes to the worker named in the record, which is the worker of the command. -/
def collect (j : Job) : Job × Bool :=
  let r := DisAcceptMsg E c db raw j
  ({ r.job with acceptReShareChan := r.job.acceptReShareChan || r.notify }, r.blocked)

def codec : Codec ReShareFixed := ⟨fun _ => true, fun _ => true⟩

def update (u : AcceptStatus.Call) : Places := ((AcceptReShare codec u).exec db).1

/-- `SaveAcceptReShareData`. -/
def save (ac : AcceptReShareData) : Places := Function.update db .pending (some ac)

def false' : Text := "false".toList
def true' : Text := "true".toList

/-- The second part of the handler of an approval. -/
def approvalCall (acceptrh : TxDataAcceptReShare) (ars : List NodeReply) : AcceptStatus.Call where
  initiator := c.sender
  deal := false'
  accept := if acceptrh.Accept = AGREE then true' else false'
  status := if acceptrh.Accept = AGREE then Pending else Failure
  result := []
  tip := []
  errinfo := []
  allreply := some ars
  workid := c.workid
  sigs := []

def refusedText : Text := "don't accept reshare".toList
def timeoutText : Text := "get other node accept reshare result timeout".toList

/-- What the wait writes when it ends.  The status of an approved command starts with a small
letter. -/
def decisionCall (reply : Bool) (ars : List NodeReply) : AcceptStatus.Call where
  initiator := c.sender
  deal := false'
  accept := false'
  status := if reply then "pending".toList else Failure
  result := []
  tip := if reply then [] else refusedText
  errinfo := if reply then [] else refusedText
  allreply := if reply then some ars else none
  workid := c.workid
  sigs := []

def timeoutCall (ars : List NodeReply) : AcceptStatus.Call where
  initiator := c.sender
  deal := false'
  accept := false'
  status := Timeout
  result := []
  tip := timeoutText
  errinfo := timeoutText
  allreply := some ars
  workid := c.workid
  sigs := []

def replies (j : Job) : List NodeReply :=
  GetReplyFromGroup E (infoOf c db) j.msgacceptreshareres c.rh.GroupID c.sender

def allAgree (ars : List NodeReply) : Bool := ars.all fun nr => E.folding.EqualFold nr.Status agree

def isApproval : Option TxDataAcceptReShare :=
  match E.decodeReshare raw with
  | some ⟨_, _, .acceptReShare acceptrh⟩ => some acceptrh
  | _ => none

/-- `own` collects the command itself, `preSaved` an approval from `C1Data`; `reply` and `settle` are
the two parts of the handler of an approval.  `resaved` and `updated` are what another worker does to
the record when a command with the same key is in its hands. -/
inductive Event where
  | own
  | preSaved (raw : Text)
  | reply (raw : Text)
  | settle (raw : Text)
  | resaved (ac : AcceptReShareData)
  | updated (u : AcceptStatus.Call)
  | token
  | timeout

def step (j : Job) : Event → Places × Job
  | .own => (db, (collect E c db c.raw j).1)
  | .preSaved raw => if (isApproval E raw).isSome then (db, (collect E c db raw j).1) else (db, j)
  | .reply raw =>
    match isApproval E raw, CheckRaw E (infoOf c db) raw with
    | some _, .ok _ =>
      let (j, blocked) := collect E c db raw j
      (db, if blocked then j else { j with handling := j.handling ++ [raw] })
    | _, _ => (db, j)
  | .settle raw =>
    match isApproval E raw with
    | some acceptrh =>
      if raw ∈ j.handling then
        (update db (approvalCall c acceptrh (replies E c db j)),
          { j with handling := j.handling.erase raw })
      else (db, j)
    | none => (db, j)
  | .resaved ac =>
    -- The key is the digest of the fields: the other command has the group and the mode of this one.
    if ac.Status = Pending ∧ ac.fixed.GroupID = c.rh.GroupID ∧ ac.fixed.Mode = c.rh.Mode then
      (save db ac, j)
    else (db, j)
  | .updated u => (update db u, j)
  | .token =>
    if j.phase = .waiting ∧ j.acceptReShareChan then
      let ars := replies E c db j
      let reply := allAgree E ars
      (update db (decisionCall c reply ars),
        { j with
          acceptReShareChan := false
          phase := if reply then .started else .refused })
    else (db, j)
  | .timeout =>
    if j.phase = .waiting then
      (update db (timeoutCall c (replies E c db j)), { j with phase := .refused })
    else (db, j)

/-- The RESHARE branch of `DoReq` up to the wait: the command, and the record that it saves.  The
list of the worker is empty. -/
def DoReq (sender : Enode) (workid : ℤ) : Outcome (Command × AcceptReShareData) := do
  require (raw ≠ [] ∧ 0 ≤ workid ∧ sender ≠ []) "do req fail"
  let (key, tx) ← CheckRaw E (fun _ => none) raw
  match tx.data with
  | .acceptReShare _ => .error (.error "do req fail")
  | .reShare rh => do
    let ars := GetReplyFromGroup E (fun _ => none) [] rh.GroupID sender
    let sigs ← E.GetGroupSigsDataByRaw raw
    let (_, nodecnt) ← thresholdNums "threshold num error" rh.ThresHold
    let ac : AcceptReShareData :=
      { fixed := ⟨tx.sender, rh.GroupID, rh.TSGroupID, rh.PubKey, rh.ThresHold, rh.Account, rh.Mode,
          rh.TimeStamp⟩
        Initiator := sender
        Deal := false'
        Accept := false'
        Status := Pending
        result := []
        Tip := []
        Error := []
        AllReply := ars
        WorkID := workid
        Sigs := sigs }
    pure ({ raw, sender, account := tx.sender, rh, key, workid, NodeCnt := nodecnt }, ac)

end Wait

end ThresholdDsa.Smpc.ReshareApproval
