/-
# Collecting the approvals of a command

A worker counts the transactions that approve its command in a list, one for each
account (`CheckDulpRawReply` lets a newer one replace an older one).  Two paths
fill the list.  `DisAcceptMsg` takes the command itself and approvals that come
through the request queue; `ExecApproveSigning` and `ExecApproveKeyGen` take
approvals from the network, ask `IsValidAccept` whether the account is bound to a
node of the group, and also record the reply.  When the list is as long as the
group, a token ends the wait of `DoSign` or `DoReq`, which goes on if every
recorded reply agrees.

`Worker.counted` is not a field of the program: it is the log of all transactions
ever put into the list, from which the latest reply of an account is read.
-/
import ThresholdDsa.Lib.Quorum
import ThresholdDsa.Smpc.Command

namespace ThresholdDsa.Smpc

open Outcome GoText Quorum

/-! ## The worker -/

structure ApprovReply where
  ENode : Enode
  (sender Accept TimeStamp : Text)
  deriving DecidableEq

/-- The fields that approval uses.  `msgacceptres`, `bacceptres` and `acceptChan` are those of the
command's kind; the two channels hold at most one token. -/
structure Worker where
  sid : Text
  approved : Bool
  (NodeCnt ThresHold : ℤ)
  msgacceptres : List Text
  ApprovReplys : List ApprovReply
  (bacceptres acceptChan : Bool)
  counted : List Text
  deriving DecidableEq

def Worker.PushBack (w : Worker) (raw : Text) : Worker :=
  { w with msgacceptres := w.msgacceptres ++ [raw], counted := w.counted ++ [raw] }

/-- `w.bacceptres <- true`, then the token for the wait; the first send blocks for ever when its
channel is full. -/
def Worker.sendToken (w : Worker) : Worker :=
  if w.bacceptres then w else { w with bacceptres := true, acceptChan := true }

section Collect

variable (E : Env)

def Find (l : List Text) (msg : Text) : Bool :=
  msg ≠ [] ∧ l.any fun s => s ≠ [] ∧ E.folding.EqualFold s msg

/-! ## One entry for each account -/

/-- Whether the time `t1` is later than `t2`; the nil result of a malformed text panics when it is
compared with a number. -/
def later (t1 t2 : Text) : Outcome Bool :=
  match setString10 t1, setString10 t2 with
  | some t1, some t2 => pure (t2 < t1)
  | none, none => pure false
  | _, _ => .error .panic

/-- The sender of a transaction, its type and its time stamp. -/
abbrev RawValue := Text × Text × Text

def RawValue.present (v : RawValue) : Bool := v.1 ≠ [] ∧ v.2.1 ≠ [] ∧ v.2.2 ≠ []

def SIGN : Text := ['S', 'I', 'G', 'N']
def ACCEPTSIGN : Text := ['A', 'C', 'C', 'E', 'P', 'T', 'S', 'I', 'G', 'N']
def REQSMPCADDR : Text := ['R', 'E', 'Q', 'S', 'M', 'P', 'C', 'A', 'D', 'D', 'R']
def ACCEPTREQADDR : Text := ['A', 'C', 'C', 'E', 'P', 'T', 'R', 'E', 'Q', 'A', 'D', 'D', 'R']

def rawValue (typeAndTime : TxData → Text × Text) (raw : Text) : RawValue :=
  match E.decode raw with
  | some tx => (tx.sender, typeAndTime tx.data)
  | none => ([], [], [])

def GetSignRawValue (raw : Text) : RawValue :=
  rawValue E (fun
    | .sign sig => (SIGN, sig.TimeStamp)
    | .acceptSign acceptsig => (ACCEPTSIGN, acceptsig.TimeStamp)
    | _ => ([], [])) raw

def GetReqAddrRawValue (raw : Text) : RawValue :=
  rawValue E (fun
    | .reqAddr req => (REQSMPCADDR, req.TimeStamp)
    | .acceptReqAddr acceptreq => (ACCEPTREQADDR, acceptreq.TimeStamp)
    | _ => ([], [])) raw

/-- The loop of the duplicate filter: its answer, and the list it leaves. -/
def dulpLoop (value : Text → RawValue) (raw : Text) : List Text → Outcome Bool × List Text
  | [] => (pure true, [])
  | s :: rest =>
    if s = [] ∨ E.folding.EqualFold raw s ∨ ¬ (value s).present then (pure false, s :: rest)
    else if E.folding.EqualFold (value raw).1 (value s).1 then
      match later (value raw).2.2 (value s).2.2 with
      | .ok true => dulpLoop value raw rest
      | answer => (answer, s :: rest)
    else ((dulpLoop value raw rest).1, s :: (dulpLoop value raw rest).2)

variable (value : Text → RawValue) (db : Db) (key : Text)

/-- `CheckSignDulpRawReply` and `CheckReqAddrDulpRawReply`. -/
def CheckDulpRawReply (raw : Text) (l : List Text) :
    Outcome Bool × List Text :=
  if raw ≠ [] ∧ (value raw).present then dulpLoop E value raw l else (pure false, l)

/-! ## Accounts and nodes -/

/-- Neighbouring fields of `Sigs` that are the node and the account. -/
def adjacent (node sender : Text) : List Text → Bool
  | vv :: next :: rest =>
    (E.folding.EqualFold vv node ∧ E.folding.EqualFold next sender) ∨
      adjacent node sender (next :: rest)
  | _ => false

/-- `Sigs` has as many fields as the threshold text says. -/
def sigsComplete (ac : AcceptReqAddrData) : Bool :=
  decide (3 ≤ ac.Sigs.length) &&
    match ac.LimitNum.splitOn '/' with
    | [_, second] => (Atoi second).any fun nodecnt => (ac.Sigs.length : ℤ) = 2 * nodecnt + 1
    | _ => false

def IsValidAccept (gid sender : Text) (ac : AcceptReqAddrData) : Bool :=
  gid ≠ [] ∧ sender ≠ [] ∧ sigsComplete ac ∧
    (GetGroup E gid).any fun node => adjacent E node sender ac.Sigs

/-- The field before the first one that is the account; there is none before the first field. -/
def fieldBefore (sender : Text) : Option Text → List Text → Outcome Text
  | _, [] => pure []
  | before, m :: rest =>
    if E.folding.EqualFold m sender then deref before else fieldBefore sender (some m) rest

def GetENodeByFrom (sender : Text) (ac : AcceptReqAddrData) : Outcome Text :=
  if sender ≠ [] ∧ sigsComplete ac then fieldBefore E sender none ac.Sigs else pure []

/-! ## Replies from the network -/

/-- Replace the first reply of the account, or append. -/
def putReply (reply : ApprovReply) : List ApprovReply → List ApprovReply
  | [] => [reply]
  | vv :: rest =>
    if E.folding.EqualFold vv.sender reply.sender then reply :: rest else vv :: putReply reply rest

/-- The part that both `ExecApprove...` functions share; `need` is the number of approvals the
command waits for.  A panic stops the process. -/
def countReply (need : Worker → ℤ) (gid : Text) (ac : AcceptReqAddrData)
    (raw sender Accept TimeStamp : Text) (w : Worker) : Outcome Worker :=
  if Find E w.msgacceptres raw ∨ ¬ IsValidAccept E gid sender ac then pure w
  else
    match CheckDulpRawReply E value raw w.msgacceptres with
    | (.error fault, _) => .error fault
    | (.ok false, l) => pure { w with msgacceptres := l }
    | (.ok true, l) => do
      let w := Worker.PushBack { w with msgacceptres := l } raw
      let enode ← GetENodeByFrom E sender ac
      if enode = [] then pure w else
        let accept := if Accept = [] then DISAGREE else Accept
        let reply : ApprovReply := { ENode := enode, sender, Accept := accept, TimeStamp }
        let w := { w with ApprovReplys := putReply E reply w.ApprovReplys }
        if need w ≤ w.msgacceptres.length then
          pure (Worker.sendToken { w with approved := true })
        else pure w

/-- `GetReqAddrKeyByKey`, from the record of the sign command to that of the public key. -/
def GetReqAddrKeyByKey : Text :=
  let found := do
    let ad ← (← (db.signInfo key <|> db.pubKey key)).acceptSign?
    let pd ← (← db.pubKey (← hexDecode ad.PubKey)).pubKey?
    pure pd.Key
  found.getD []

def acceptReqData : Option AcceptReqAddrData :=
  (db.pubKey (GetReqAddrKeyByKey db key)).bind (·.acceptReqAddr?)

def signHandled (ac : AcceptSignData) : Bool :=
  ac.Deal = ['t', 'r', 'u', 'e'] ∨ ac.Status = ['S', 'u', 'c', 'c', 'e', 's', 's'] ∨
    ac.Status = ['F', 'a', 'i', 'l', 'u', 'r', 'e'] ∨ ac.Status = ['T', 'i', 'm', 'e', 'o', 'u', 't']

def ExecApproveSigning (raw sender : Text) (sig : TxDataAcceptSign) (ac : AcceptSignData)
    (w : Worker) : Outcome Worker :=
  if w.approved ∨ signHandled ac then pure w
  else
    match acceptReqData db sig.Key with
    | none => pure w
    | some acceptreqdata =>
      countReply E (GetSignRawValue E) (·.ThresHold) ac.GroupID acceptreqdata raw sender sig.Accept
        sig.TimeStamp w

def ExecApproveKeyGen (raw sender : Text) (req : TxDataAcceptReqAddr) (ac : AcceptReqAddrData)
    (w : Worker) : Outcome Worker :=
  if w.approved then pure w
  else countReply E (GetReqAddrRawValue E) (·.NodeCnt) ac.GroupID ac raw sender req.Accept
    req.TimeStamp w

/-! ## Replies from the request queue -/

structure RawReply where
  sender : Text
  Accept : Bool
  TimeStamp : Text
  deriving DecidableEq

/-- A later reply of an account replaces the earlier one. -/
def putRawReply (reply : RawReply) : List RawReply → Outcome (List RawReply)
  | [] => pure [reply]
  | tmp :: rest =>
    if tmp.sender = reply.sender then do
      let newer ← later reply.TimeStamp tmp.TimeStamp
      pure ((if newer then reply else tmp) :: rest)
    else do
      let rest ← putRawReply reply rest
      pure (tmp :: rest)

def rawReply (tx : Tx) : RawReply :=
  match tx.data with
  | .reqAddr req => ⟨tx.sender, true, req.TimeStamp⟩
  | .sign sig => ⟨tx.sender, true, sig.TimeStamp⟩
  | .acceptReqAddr acceptreq => ⟨tx.sender, acceptreq.Accept = AGREE, acceptreq.TimeStamp⟩
  | .acceptSign acceptsig => ⟨tx.sender, acceptsig.Accept = AGREE, acceptsig.TimeStamp⟩

def GetRawReply (l : List Text) : Outcome (List RawReply) :=
  l.foldlM (fun ret raw =>
    match CheckRaw E db raw with
    | .ok (_, tx) => putRawReply (rawReply tx) ret
    | .error (.error _) => pure ret
    | .error .panic => .error .panic) []

/-- The account after the first field that is the node; a node that ends the fields panics. -/
def accountAfter (node : Text) : List Text → Outcome (Option Text)
  | [] => pure none
  | v :: rest =>
    if E.folding.EqualFold v node then (deref rest.head?).map some else accountAfter node rest

def replied (ret : List RawReply) (account : Text) : Bool :=
  ret.any fun vv => E.folding.EqualFold vv.sender account

/-- `CheckReply` of a sign command: every node of the group has a reply of its account. -/
def checkSignReply (ac : AcceptReqAddrData) (l : List Text) (key : Text) : Outcome Bool := do
  let ret ← GetRawReply E db l
  match (db.signInfo key).bind (·.acceptSign?) with
  | none => pure false
  | some sig =>
    let accounts ← (GetGroup E sig.GroupID).mapM fun node => accountAfter E node ac.Sigs
    pure (accounts.all fun account => account.any (replied E ret))

/-- `CheckReply` of a key generation: every account of `Sigs` has a reply. -/
def checkReqAddrReply (ac : AcceptReqAddrData) (l : List Text) : Outcome Bool := do
  let ret ← GetRawReply E db l
  let count := (ac.Sigs.length - 1) / 2
  pure (0 < count ∧ (List.range count).all fun j => (ac.Sigs[2 * j + 2]?).any (replied E ret))

/-- The part that both `DisAcceptMsg` methods share; a panic is recovered and ends the call. -/
def collectReply (need : Worker → ℤ) (found : Bool) (complete : List Text → Outcome Bool)
    (raw : Text) (w : Worker) : Worker :=
  if Find E w.msgacceptres raw then w
  else
    match CheckDulpRawReply E value raw w.msgacceptres with
    | (.ok true, l) =>
      if found then
        let w := Worker.PushBack { w with msgacceptres := l } raw
        if need w ≤ w.msgacceptres.length ∧ complete w.msgacceptres = .ok true then w.sendToken
        else w
      else { w with msgacceptres := l }
    | (_, l) => { w with msgacceptres := l }

/-- `CheckReply` for `RPCSIGN`. -/
def checkReplySign (l : List Text) : Outcome Bool :=
  let k := GetReqAddrKeyByKey db key
  match (db.reqAddrInfo k <|> db.pubKey k).bind (·.acceptReqAddr?) with
  | some ac => if k = [] then pure false else checkSignReply E db ac l key
  | none => pure false

/-- `CheckReply` for `RPCREQADDR`. -/
def checkReplyReqAddr (l : List Text) : Outcome Bool :=
  match (db.reqAddrInfo key <|> db.pubKey key).bind (·.acceptReqAddr?) with
  | some ac => checkReqAddrReply E db ac l
  | none => pure false

/-- `ReqSmpcSign.DisAcceptMsg`. -/
def disAcceptSign (raw key : Text) (w : Worker) : Worker :=
  if raw = [] ∨ key = [] then w
  else collectReply E (GetSignRawValue E) (·.ThresHold)
    ((db.signInfo key).bind (·.acceptSign?)).isSome (checkReplySign E db key) raw w

/-- `ReqSmpcAddr.DisAcceptMsg`. -/
def disAcceptReqAddr (raw key : Text) (w : Worker) : Worker :=
  if raw = [] ∨ key = [] then w
  else collectReply E (GetReqAddrRawValue E) (·.NodeCnt)
    ((db.reqAddrInfo key).bind (·.acceptReqAddr?)).isSome (checkReplyReqAddr E db key) raw w

end Collect

/-! ## Commands of both kinds -/

inductive Kind where
  | sign
  | keygen
  deriving DecidableEq

/-- What an approval says. -/
structure Reply where
  (Key Accept TimeStamp : Text)
  deriving DecidableEq

def reply : Kind → TxData → Option Reply
  | .sign, .acceptSign acceptsig => some ⟨acceptsig.Key, acceptsig.Accept, acceptsig.TimeStamp⟩
  | .keygen, .acceptReqAddr acceptreq => some ⟨acceptreq.Key, acceptreq.Accept, acceptreq.TimeStamp⟩
  | _, _ => none

section Commands

variable (E : Env)

/-- The number of approvals a command waits for. -/
def need : Kind → Worker → ℤ
  | .sign => (·.ThresHold)
  | .keygen => (·.NodeCnt)

/-- The method for the type of the transaction; those of the other kind fill other lists. -/
def DisAcceptMsg (K : Kind) (db : Db) (raw : Text) (w : Worker) : Worker :=
  match K, CheckRaw E db raw with
  | .sign, .ok (key, ⟨_, _, .sign _⟩) => disAcceptSign E db raw key w
  | .sign, .ok (key, ⟨_, _, .acceptSign _⟩) => disAcceptSign E db raw key w
  | .keygen, .ok (key, ⟨_, _, .reqAddr _⟩) => disAcceptReqAddr E db raw key w
  | .keygen, .ok (key, ⟨_, _, .acceptReqAddr _⟩) => disAcceptReqAddr E db raw key w
  | _, _ => w

/-- An approval from the network: `Call` checks it and reads the record in the databases `seen`; the
worker with its key then runs with the databases `now`. -/
def approve (K : Kind) (seen now : Db) (raw : Text) (w : Worker) : Outcome Worker :=
  match K, CheckRaw E seen raw with
  | .sign, .ok (_, ⟨sender, _, .acceptSign sig⟩) =>
    match (seen.signInfo sig.Key).bind (·.acceptSign?) with
    | some ac =>
      if E.folding.EqualFold w.sid sig.Key then ExecApproveSigning E now raw sender sig ac w
      else pure w
    | none => pure w
  | .keygen, .ok (_, ⟨sender, _, .acceptReqAddr req⟩) =>
    match (seen.reqAddrInfo req.Key).bind (·.acceptReqAddr?) with
    | some ac =>
      if E.folding.EqualFold w.sid req.Key then ExecApproveKeyGen E raw sender req ac w else pure w
    | none => pure w
  | _, _ => pure w

/-! ## The wait -/

inductive Phase where
  | waiting
  | refused
  | past
  | stopped
  deriving DecidableEq

/-- A worker and the wait of its command; `stopped` after a panic of the process. -/
structure Job where
  w : Worker
  phase : Phase
  deriving DecidableEq

inductive Event where
  | disAccept (db : Db) (raw : Text)
  | approve (seen now : Db) (raw : Text)
  | token
  | timeout

def agree : Text := ['A', 'g', 'r', 'e', 'e']

/-- Every reply of `GetAllReplyFromGroup2` agrees. -/
def allAgree (w : Worker) : Bool :=
  w.ApprovReplys.all fun nr => E.folding.EqualFold nr.Accept agree

def Job.step (K : Kind) (j : Job) : Event → Job
  | .disAccept db raw =>
    if j.phase = .stopped then j else { j with w := DisAcceptMsg E K db raw j.w }
  | .approve seen now raw =>
    if j.phase = .stopped then j else
      match Smpc.approve E K seen now raw j.w with
      | .ok w => { j with w }
      | .error _ => { j with phase := .stopped }
  | .token =>
    if j.phase = .waiting ∧ j.w.acceptChan then
      { w := { j.w with acceptChan := false },
        phase := if allAgree E j.w then .past else .refused }
    else j
  | .timeout => if j.phase = .waiting then { j with phase := .refused } else j

def Job.run (K : Kind) (j : Job) (events : List Event) : Job := events.foldl (Job.step E K) j

/-- The worker as `DoSign` sets it up. -/
def doSignWorker (key : Text) (sig : TxDataSign) : Worker :=
  let gcnt : ℤ := (GetGroup E sig.GroupID).length
  { sid := key
    approved := false
    NodeCnt :=
      match sig.ThresHold.splitOn '/' with
      | [_, second] => (Atoi second).getD gcnt
      | _ => gcnt
    ThresHold := gcnt
    msgacceptres := []
    ApprovReplys := []
    bacceptres := false
    acceptChan := false
    counted := [] }

/-- The worker as `DoReq` sets it up. -/
def doReqWorker (key : Text) (req : TxDataReqAddr) : Outcome Worker := do
  let (th, nodecnt) ← thresholdNums "threshold num error" req.ThresHold
  pure
    { sid := key
      approved := false
      NodeCnt := nodecnt
      ThresHold := th
      msgacceptres := []
      ApprovReplys := []
      bacceptres := false
      acceptChan := false
      counted := [] }

/-- A command of mode 0 on its worker, with its text, key, group and sender. -/
inductive Started : Kind → Text → Text → Text → Text → Worker → Prop
  | sign {db : Db} {raw key : Text} {tx : Tx} {sig : TxDataSign}
      (checked : CheckRaw E db raw = .ok (key, tx)) (command : tx.data = .sign sig)
      (mode : sig.Mode = mode0) :
      Started .sign raw key sig.GroupID tx.sender (doSignWorker E key sig)
  | keygen {db : Db} {raw key : Text} {tx : Tx} {req : TxDataReqAddr} {w : Worker}
      (checked : CheckRaw E db raw = .ok (key, tx)) (command : tx.data = .reqAddr req)
      (mode : req.Mode = mode0) (ready : doReqWorker key req = .ok w) :
      Started .keygen raw key req.GroupID tx.sender w

end Commands

end ThresholdDsa.Smpc
