/-
# Sign commands and their approvals on recycled workers

A worker executes one sign command after the other; `Clear` resets its fields in
between.  Approvals come from other goroutines.  `ExecApproveSigning` and the
`DisAcceptMsg` of the request queue find the worker by the key of the command and
then read and write its fields, one after the other, until the list of approvals
is long enough and two tokens are sent.  The wait of a command of mode 0 is a
goroutine of its own; it reads one of the tokens.

Every access to a field that several goroutines use is a step of its own, and a
send on a full channel blocks.  What happens to the databases besides `DoSign` is
any change.  `Tag`, the fields `jobs`, `counted` and `replied` of a worker and the
content of a token are not in the program: they say for which command, in which
job of the worker, a transaction was counted, a reply recorded or a token sent.
-/
import ThresholdDsa.Smpc.DoSign

namespace ThresholdDsa.Smpc.WorkerPool

open Outcome GoText Function

/-! ## Workers -/

/-- The command of a call, and the number of the job in which it found the worker. -/
structure Tag where
  key : Text
  job : ℕ
  deriving DecidableEq

/-- `count` is the length of the list that its sender found long enough. -/
structure Token where
  tag : Tag
  count : ℕ
  deriving DecidableEq

/-- The fields that the approval of sign commands uses; both channels have room for one token. -/
structure Worker where
  sid : Text
  approved : Bool
  ThresHold : ℤ
  msgacceptsignres : List Text
  ApprovReplys : List ApprovReply
  bacceptsignres : Bool
  acceptSignChan : Option Token
  jobs : ℕ
  (counted replied : List Tag)
  deriving DecidableEq

def newWorker : Worker where
  sid := []
  approved := false
  ThresHold := 5
  msgacceptsignres := []
  ApprovReplys := []
  bacceptsignres := false
  acceptSignChan := none
  jobs := 0
  counted := []
  replied := []

def Worker.PushBack (w : Worker) (raw : Text) (tag : Tag) : Worker :=
  { w with msgacceptsignres := w.msgacceptsignres ++ [raw], counted := w.counted ++ [tag] }

/-- A goroutine that works on the worker `w`. -/
structure Visitor (ι : Type) where
  w : ι
  tag : Tag
  deriving DecidableEq

section

variable {ι : Type} [DecidableEq ι]

/-! ## The two channels -/

/-- `w.bacceptsignres <- true`. -/
def sendAccepted (ws : ι → Worker) (w : ι) : Option (ι → Worker) :=
  if (ws w).bacceptsignres then none
  else some (update ws w { ws w with bacceptsignres := true })

/-- `workers[ac.WorkID].acceptSignChan <- "go on"`. -/
def sendGoOn (ws : ι → Worker) (WorkID : ι) (token : Token) : Option (ι → Worker) :=
  if (ws WorkID).acceptSignChan.isSome then none
  else some (update ws WorkID { ws WorkID with acceptSignChan := some token })

/-! ## `ExecApproveSigning` -/

/-- Its arguments; `WorkID` is a field of the record `ac`. -/
structure Request (ι : Type) where
  sender : Text
  sig : TxDataAcceptSign
  ac : AcceptSignData
  WorkID : ι
  deriving DecidableEq

/-- How far a call with a worker is: it has found the worker, the command is pending, the
transaction is not in the list, no entry of its account is left there, it is counted, the place of
its reply is known, the reply is recorded, the list is long enough, the worker is marked as
approved, the first token is sent. -/
inductive Approving where
  | found
  | pending (acceptreqdata : AcceptReqAddrData)
  | unseen (acceptreqdata : AcceptReqAddrData)
  | fresh (acceptreqdata : AcceptReqAddrData)
  | counted (acceptreqdata : AcceptReqAddrData)
  | indexed (reply : ApprovReply) (index : Option ℕ)
  | replied
  | full (count : ℕ)
  | approved (count : ℕ)
  | half (count : ℕ)
  deriving DecidableEq

/-- `w.ApprovReplys[index] = reply` panics if the replies were reset since the search. -/
def storeReply (reply : ApprovReply) (replys : List ApprovReply) :
    Option ℕ → Outcome (List ApprovReply)
  | some k => if k < replys.length then pure (replys.set k reply) else .error .panic
  | none => pure (replys ++ [reply])

section

variable (E : Env) (db : Db) (raw : Text)

/-- The next step of a call; `none` when it returns. -/
def Approving.next (v : Visitor ι) (r : Request ι) (ws : ι → Worker) :
    Approving → Outcome ((ι → Worker) × Option Approving)
  | .found =>
    if (ws v.w).approved ∨ signHandled r.ac then pure (ws, none)
    else pure (ws, (acceptReqData db r.sig.Key).map .pending)
  | .pending acceptreqdata =>
    if Find E (ws v.w).msgacceptsignres raw ∨
        ¬ IsValidAccept E r.ac.GroupID r.sender acceptreqdata then pure (ws, none)
    else pure (ws, some (.unseen acceptreqdata))
  | .unseen acceptreqdata =>
    match CheckDulpRawReply E (GetSignRawValue E) raw (ws v.w).msgacceptsignres with
    | (.error fault, _) => .error fault
    | (.ok passes, l) =>
      pure (update ws v.w { ws v.w with msgacceptsignres := l },
        if passes then some (.fresh acceptreqdata) else none)
  | .fresh acceptreqdata =>
    pure (update ws v.w ((ws v.w).PushBack raw v.tag), some (.counted acceptreqdata))
  | .counted acceptreqdata => do
    let index := (ws v.w).ApprovReplys.findIdx? fun vv => E.folding.EqualFold vv.sender r.sender
    let enode ← GetENodeByFrom E r.sender acceptreqdata
    if enode = [] then pure (ws, none) else
      let accept := if r.sig.Accept = [] then DISAGREE else r.sig.Accept
      pure (ws, some (.indexed ⟨enode, r.sender, accept, r.sig.TimeStamp⟩ index))
  | .indexed reply index => do
    let replys ← storeReply reply (ws v.w).ApprovReplys index
    let w := { ws v.w with ApprovReplys := replys, replied := (ws v.w).replied ++ [v.tag] }
    pure (update ws v.w w, some .replied)
  | .replied =>
    let count := (ws v.w).msgacceptsignres.length
    pure (ws, if (ws v.w).ThresHold ≤ count then some (.full count) else none)
  | .full count =>
    pure (update ws v.w { ws v.w with approved := true }, some (.approved count))
  | .approved count =>
    match sendAccepted ws v.w with
    | none => pure (ws, some (.approved count))
    | some ws => pure (ws, some (.half count))
  | .half count =>
    match sendGoOn ws r.WorkID ⟨v.tag, count⟩ with
    | none => pure (ws, some (.half count))
    | some ws => pure (ws, none)

/-! ## `DisAcceptMsg` -/

/-- How far a call is; `found` is the check of the record that `DoReq` makes before it. -/
inductive Collecting (ι : Type) where
  | found
  | called
  | unseen
  | fresh
  | counted (WorkID : ι)
  | full (WorkID : ι) (count : ℕ)
  | complete (WorkID : ι) (count : ℕ)
  | half (WorkID : ι) (count : ℕ)
  deriving DecidableEq

/-- The next step of a call, which collects for the command `v.tag.key`; a panic is recovered. -/
def Collecting.next (WorkID : Text → Option ι) (v : Visitor ι) (ws : ι → Worker) :
    Collecting ι → (ι → Worker) × Option (Collecting ι)
  | .found =>
    (ws, if ((db.signInfo v.tag.key).bind (·.acceptSign?)).any fun ac => ¬ signHandled ac
      then some .called else none)
  | .called => (ws, if Find E (ws v.w).msgacceptsignres raw then none else some .unseen)
  | .unseen =>
    match CheckDulpRawReply E (GetSignRawValue E) raw (ws v.w).msgacceptsignres with
    | (passes, l) => (update ws v.w { ws v.w with msgacceptsignres := l },
        if passes = .ok true then some .fresh else none)
  | .fresh =>
    match (db.signInfo v.tag.key).bind (·.acceptSign?), WorkID v.tag.key with
    | some _, some id =>
      (update ws v.w ((ws v.w).PushBack raw v.tag), some (.counted id))
    | _, _ => (ws, none)
  | .counted id =>
    let count := (ws v.w).msgacceptsignres.length
    (ws, if (ws v.w).ThresHold ≤ count then some (.full id count) else none)
  | .full id count =>
    (ws, if checkReplySign E db v.tag.key (ws v.w).msgacceptsignres = .ok true
      then some (.complete id count) else none)
  | .complete id count =>
    match sendAccepted ws v.w with
    | none => (ws, some (.complete id count))
    | some ws => (ws, some (.half id count))
  | .half id count =>
    match sendGoOn ws id ⟨v.tag, count⟩ with
    | none => (ws, some (.half id count))
    | some ws => (ws, none)

end

/-! ## Goroutines -/

/-- An approval: not begun, `ExecApproveSigning` called, `DoReq` called, at work on a worker, or
ended. -/
inductive Stage (ι : Type) where
  | new
  | approve (r : Request ι)
  | reply (key : Text)
  | approving (v : Visitor ι) (r : Request ι) (p : Approving)
  | collecting (v : Visitor ι) (p : Collecting ι)
  | done
  deriving DecidableEq

/-- `queue` is whether the transaction comes through the request queue. -/
structure Call (ι : Type) where
  queue : Bool
  raw : Text
  stage : Stage ι

structure Job where
  (raw key : Text)
  tx : Tx
  sig : TxDataSign
  deriving DecidableEq

/-- The assignments of `Clear` after the first one. -/
inductive Clearing where
  | approved
  | thresHold
  | msgacceptsignres
  | bacceptsignres
  | acceptSignChan
  | approvReplys
  deriving DecidableEq

/-- The loop of a worker: it waits for a command, the command is checked, its record is saved, the
worker has its key, it has its threshold, the command itself is counted, the record of the public
key is looked up, `DoSign` awaits the end of the wait, signs, has returned, `Clear` runs. -/
inductive Phase (ι : Type) where
  | idle
  | checked (J : Job)
  | saved (J : Job)
  | named (J : Job)
  | ready (J : Job)
  | collect (J : Job) (tag : Tag) (p : Collecting ι)
  | lookup (J : Job)
  | await (J : Job)
  | signing (J : Job)
  | ended (J : Option Job)
  | clear (next : Clearing)
  deriving DecidableEq

/-- The goroutine that waits for the approval of a command. -/
inductive Wait where
  | none
  | waiting (key : Text)
  | past
  | refused
  deriving DecidableEq

/-- `WorkID` is the worker in the record of a command, `wait i n` the wait that job `n` of worker
`i` has started; after a panic the process has `stopped`. -/
structure Pool (ι κ : Type) where
  db : Db
  WorkID : Text → Option ι
  workers : ι → Worker
  phase : ι → Phase ι
  wait : ι → ℕ → Wait
  calls : κ → Call ι
  stopped : Bool

end

section

variable {ι κ : Type} [Fintype ι] [DecidableEq ι] [DecidableEq κ] (E : Env) (c : Pool ι κ)

def Pool.setStage (k : κ) (stage : Stage ι) : Pool ι κ :=
  { c with calls := update c.calls k { c.calls k with stage } }

def Pool.setPhase (i : ι) (phase : Phase ι) : Pool ι κ :=
  { c with phase := update c.phase i phase }

def Pool.setWorker (i : ι) (w : Worker) : Pool ι κ :=
  { c with workers := update c.workers i w }

def Pool.setWait (i : ι) (n : ℕ) (wait : Wait) : Pool ι κ :=
  { c with wait := update c.wait i (update (c.wait i) n wait) }

/-! ## Approvals -/

/-- What `FindWorker` asks of a worker. -/
def Pool.hasKey (key : Text) (i : ι) : Bool :=
  (c.workers i).sid ≠ [] ∧ E.folding.EqualFold (c.workers i).sid key

/-- `FindWorker` returns the worker `pick`, any one that has the key, or none if none has. -/
def Pool.FindWorker (key : Text) (pick : Option ι) (search : Stage ι) (found : Visitor ι → Stage ι) :
    Stage ι :=
  match pick with
  | some i => if c.hasKey E key i then found ⟨i, ⟨key, (c.workers i).jobs⟩⟩ else search
  | none => if ∃ i, c.hasKey E key i then search else .done

/-- `Call`, `RPCAcceptSign` and `DoReq` check the transaction and find the record of its command. -/
def Pool.beginCall (call : Call ι) : Stage ι :=
  match CheckRaw E c.db call.raw with
  | .ok (_, ⟨sender, _, .acceptSign sig⟩) =>
    match (c.db.signInfo sig.Key).bind (·.acceptSign?), c.WorkID sig.Key with
    | some ac, some WorkID =>
      if call.queue then .reply sig.Key else .approve ⟨sender, sig, ac, WorkID⟩
    | _, _ => .done
  | _ => .done

/-- The next step of an approval. -/
def Pool.call (k : κ) (pick : Option ι) : Pool ι κ :=
  match (c.calls k).stage with
  | .new => c.setStage k (c.beginCall E (c.calls k))
  | .approve r =>
    c.setStage k (c.FindWorker E r.sig.Key pick (.approve r) fun v => .approving v r .found)
  | .reply key => c.setStage k (c.FindWorker E key pick (.reply key) fun v => .collecting v .found)
  | .approving v r p =>
    match p.next E c.db (c.calls k).raw v r c.workers with
    | .error _ => { c with stopped := true }
    | .ok (workers, p) => { c.setStage k (p.elim .done (.approving v r)) with workers }
  | .collecting v p =>
    match p.next E c.db (c.calls k).raw c.WorkID v c.workers with
    | (workers, p) => { c.setStage k (p.elim .done (.collecting v)) with workers }
  | .done => c

/-! ## The loop of a worker -/

/-- The checks of `DoSign`. -/
def Pool.beginJob (raw : Text) : Phase ι :=
  match CheckRaw E c.db raw with
  | .ok (key, tx) =>
    match tx.data with
    | .sign sig =>
      if raw ≠ [] ∧ (c.db.signInfo key).isNone ∧
          checkNonce (GetSignNonce E c.db tx.sender) tx.Nonce = .ok () then
        .checked ⟨raw, key, tx, sig⟩
      else .ended none
    | _ => .ended none
  | .error _ => .ended none

/-- The number of nodes in the group of the command. -/
def Job.threshold (J : Job) : ℤ := (GetGroup E J.sig.GroupID).length

/-- `DisAcceptMsg` of the command itself asks for its key again. -/
def Pool.countOwn (J : Job) (job : ℕ) : Phase ι :=
  match CheckRaw E c.db J.raw with
  | .ok (key, _) => .collect J ⟨key, job⟩ .called
  | .error _ => .lookup J

def Clearing.assign (w : Worker) : Clearing → Worker
  | .approved => { w with approved := false }
  | .thresHold => { w with ThresHold := 5 }
  | .msgacceptsignres => { w with msgacceptsignres := [], counted := [] }
  | .bacceptsignres => { w with bacceptsignres := false }
  | .acceptSignChan => { w with acceptSignChan := none }
  | .approvReplys => { w with ApprovReplys := [], replied := [] }

def Clearing.after : Clearing → Phase ι
  | .approved => .clear .thresHold
  | .thresHold => .clear .msgacceptsignres
  | .msgacceptsignres => .clear .bacceptsignres
  | .bacceptsignres => .clear .acceptSignChan
  | .acceptSignChan => .clear .approvReplys
  | .approvReplys => .idle

/-- The next step of the loop; `raw` is the command that an idle worker is given. -/
def Pool.work (i : ι) (raw : Text) : Pool ι κ :=
  let w := c.workers i
  match c.phase i with
  | .idle => c.setPhase i (c.beginJob E raw)
  | .checked J =>
    { c.setPhase i (.saved J) with
      db := writeCommand E c.db J.tx J.sig J.key
      WorkID := update c.WorkID J.key (some i) }
  | .saved J => (c.setPhase i (.named J)).setWorker i { w with sid := J.key, jobs := w.jobs + 1 }
  | .named J => (c.setPhase i (.ready J)).setWorker i { w with ThresHold := J.threshold E }
  | .ready J =>
    if J.sig.Mode = mode0 then
      (c.setPhase i (c.countOwn E J w.jobs)).setWait i w.jobs (.waiting J.key)
    else c.setPhase i (.signing J)
  | .collect J tag p =>
    match p.next E c.db J.raw c.WorkID ⟨i, tag⟩ c.workers with
    | (workers, p) => { c.setPhase i (p.elim (.lookup J) (.collect J tag)) with workers }
  | .lookup J =>
    if GetReqAddrKeyByKey c.db J.key = [] ∨ (acceptReqData c.db J.key).isNone then
      c.setPhase i (.ended (some J))
    else c.setPhase i (.await J)
  | .await J =>
    match c.wait i w.jobs with
    | .past => c.setPhase i (.signing J)
    | .refused => c.setPhase i (.ended (some J))
    | _ => c
  | .signing J => c.setPhase i (.ended (some J))
  | .ended _ => (c.setPhase i (.clear .approved)).setWorker i { w with sid := [] }
  | .clear next => (c.setPhase i next.after).setWorker i (next.assign w)

/-! ## Runs -/

/-- A step of an approval, of a worker, of the wait of job `n` of worker `i`, which reads a token or
runs out of time, or of the rest of the program. -/
inductive Event (ι κ : Type) where
  | call (k : κ) (pick : Option ι)
  | work (i : ι) (raw : Text)
  | token (i : ι) (n : ℕ)
  | timeout (i : ι) (n : ℕ)
  | other (db : Db)

/-- Every reply of `GetAllReplyFromGroup2` agrees. -/
def Worker.allAgree (w : Worker) : Bool :=
  w.ApprovReplys.all fun nr => E.folding.EqualFold nr.Accept agree

def Pool.readToken (i : ι) (n : ℕ) : Pool ι κ :=
  let w := c.workers i
  match c.wait i n, w.acceptSignChan with
  | .waiting _, some _ =>
    (c.setWorker i { w with acceptSignChan := none }).setWait i n
      (if w.allAgree E then .past else .refused)
  | _, _ => c

def Pool.step (event : Event ι κ) : Pool ι κ :=
  if c.stopped then c
  else
    match event with
    | .call k pick => c.call E k pick
    | .work i raw => c.work E i raw
    | .token i n => c.readToken E i n
    | .timeout i n =>
      match c.wait i n with
      | .waiting _ => c.setWait i n .refused
      | _ => c
    | .other db => { c with db }

def Pool.run (events : List (Event ι κ)) : Pool ι κ := events.foldl (step E) c

end

end ThresholdDsa.Smpc.WorkerPool
