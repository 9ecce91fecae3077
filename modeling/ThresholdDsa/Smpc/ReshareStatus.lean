/-
# The record of a resharing after an approved run

When the wait of a RESHARE command ends with approval, `DoReq` writes the status
`pending` into the record.  That is not the `Pending` of an open request: the record
moves to the finished database, where `AcceptReShare` no longer changes it.  The run
follows, and if it returns its share, `_reshare` asks for the status `Success`.

`approved_reshare_fails`: the run returns an error, since its last call looks for a
request of the key type `ALL`, and the record keeps the status that it had when the
wait ended.
-/
import ThresholdDsa.Smpc.ReshareAgreement
import ThresholdDsa.Smpc.ReshareStore

namespace ThresholdDsa.Smpc.ReshareApproval

open Outcome GoText Effect AcceptStatus Function Option

/-! ## The run and its end -/

/-- The arguments of `processReshare` that come from the command; the rest is from the worker, the
rounds and the clock. -/
def requestOf (c : Command) (rest : Reshare.Request) : Reshare.Request :=
  { rest with
    msgprex := c.key
    groupid := c.rh.GroupID
    pubkey := c.rh.PubKey
    account := c.rh.Account
    mode := c.rh.Mode }

/-- What `_reshare` asks for when the run has returned `ret`. -/
def successCall (workid : ℤ) (ret : Text) : AcceptStatus.Call where
  initiator := []
  deal := true'
  accept := true'
  status := Success
  result := ret
  tip := []
  errinfo := []
  allreply := none
  workid := workid
  sigs := []

/-- `_reshare`, after the run. -/
def afterRun (c : Command) (ret : Text) (outcome : Outcome Text) (db : Places) : Places :=
  if outcome.isOk then update db (successCall c.workid ret) else db

/-- The record has left the pending database. -/
def Settled (db : Places) (ac : AcceptReShareData) : Prop :=
  db .finished = some ac ∧ ac.Status ≠ Pending

/-- The record is open, or it is settled. -/
def Saved (db : Places) : Prop := (db .pending).isSome ∨ ∃ ac, Settled db ac

section

variable {E : ReshareEnv} {c : Command} {db : Places} {j : Job} {ac : AcceptReShareData}
  {u : AcceptStatus.Call}

theorem Settled.update (settled : Settled db ac) : Settled (update db u) ac := by
  rw [update_of_moved settled.1 settled.2]
  exact settled

theorem Settled.save (settled : Settled db ac) (new : AcceptReShareData) : Settled (save db new) ac := by
  refine ⟨?_, settled.2⟩
  rw [ReshareApproval.save, update_of_ne (by decide)]
  exact settled.1

theorem unprocessed_iff : (∀ ac, ¬ Settled db ac) ↔
    (db .finished).filter (fun ac => ac.Status ≠ Pending) = none := by
  rw [filter_eq_none_iff]
  simp [Settled]

theorem Saved.update (saved : Saved db) : Saved (update db u) := by
  by_cases settled : ∃ ac, Settled db ac
  · obtain ⟨ac, settled⟩ := settled
    exact .inr ⟨ac, settled.update⟩
  obtain ⟨ac, at_pending⟩ := isSome_iff_exists.mp (saved.resolve_right settled)
  rw [update_of_pending at_pending (unprocessed_iff.mp (not_exists.mp settled))]
  split
  · rename_i moved
    exact .inr ⟨ac.merge u, update_self .., moved⟩
  · left
    rw [update_self]
    rfl

/-- What an event does to the record: nothing, a call of `AcceptReShare`, or a new record in the
pending database. -/
inductive Touched (db : Places) : Places → Prop
  | same : Touched db db
  | called (u : AcceptStatus.Call) : Touched db (ReshareApproval.update db u)
  | saved (ac : AcceptReShareData) : Touched db (ReshareApproval.save db ac)

theorem touched_step (db : Places) (j : Job) (e : Event) : Touched db (step E c db j e).1 := by
  cases e with
  | own => exact .same
  | preSaved raw =>
    simp only [step]
    split <;> exact .same
  | reply raw =>
    simp only [step]
    split <;> exact .same
  | settle raw =>
    simp only [step]
    split
    · split
      · exact .called _
      · exact .same
    · exact .same
  | resaved ac =>
    simp only [step]
    split
    · exact .saved ac
    · exact .same
  | updated u => exact .called u
  | token =>
    simp only [step]
    split
    · exact .called _
    · exact .same
  | timeout =>
    simp only [step]
    split
    · exact .called _
    · exact .same

theorem Saved.touched {db' : Places} (saved : Saved db) (touched : Touched db db') : Saved db' := by
  cases touched with
  | same => exact saved
  | called u => exact saved.update
  | saved ac => exact .inl (by rw [save_pending]; rfl)

theorem Settled.touched {db' : Places} (settled : Settled db ac) (touched : Touched db db') :
    Settled db' ac := by
  cases touched with
  | same => exact settled
  | called u => exact settled.update
  | saved new => exact settled.save new

theorem Saved.reachable {db₀ : Places} (reached : Reachable E c (ReshareApproval.save db₀ ac) db j) :
    Saved db := by
  induction reached with
  | start => exact .inl (by rw [save_pending]; rfl)
  | step _ e ih => exact ih.touched (touched_step _ _ e)

theorem Settled.run (settled : Settled db ac) (es : List Event) : Settled (run E c db j es).1 ac := by
  induction es generalizing db j with
  | nil => exact settled
  | cons e rest ih => exact ih (settled.touched (touched_step _ _ e))

theorem Settled.afterRun (settled : Settled db ac) (ret : Text) (outcome : Outcome Text) :
    Settled (afterRun c ret outcome db) ac := by
  unfold ReshareApproval.afterRun
  split
  · exact settled.update
  · exact settled

/-- The wait ends with approval: the record is settled as `pending`, or it was settled before. -/
theorem settled_of_started (saved : Saved db) (waiting : j.phase = .waiting) {e : Event}
    (started : (step E c db j e).2.phase = .started) :
    ∃ ac, Settled (step E c db j e).1 ac ∧ (Settled db ac ∨ ac.Status = "pending".toList) := by
  by_cases token : e = .token
  · rw [token] at started ⊢
    simp only [step] at started ⊢
    split at started
    · rename_i sent
      rw [if_pos sent]
      have agrees : allAgree E (replies E c db j) = true := by
        by_contra refused
        rw [if_neg refused] at started
        cases started
      by_cases settled : ∃ ac, Settled db ac
      · obtain ⟨ac, settled⟩ := settled
        exact ⟨ac, settled.update, .inl settled⟩
      obtain ⟨ac, at_pending⟩ := isSome_iff_exists.mp (saved.resolve_right settled)
      have status : (ac.merge (decisionCall c (allAgree E (replies E c db j))
          (replies E c db j))).Status = "pending".toList := by
        rw [agrees]
        rfl
      have moved : "pending".toList ≠ Pending := by decide
      refine ⟨_, ⟨?_, status ▸ moved⟩, .inr status⟩
      rw [update_of_pending at_pending (unprocessed_iff.mp (not_exists.mp settled)),
        if_pos (status ▸ moved)]
      dsimp only
      rw [update_self]
    · rw [waiting] at started
      cases started
  · by_cases timeout : e = .timeout
    · rw [timeout] at started
      simp only [step, waiting, if_true] at started
      cases started
    · rw [step_phase token timeout, waiting] at started
      cases started

theorem stored_of_settled (settled : Settled db ac) : stored db = some ac := by
  simp [stored, settled.1]

end

/-! ## Approved commands -/

/-- No request for an address is of the key type `ALL` (`CheckTxData` takes no such request), and the
key of such a request is not that of the request which the run saves. -/
structure NoAllRequest (E : Env) (rq : Reshare.Request) (st : Reshare.Stores) : Prop where
  unsettled : ∀ nonce limitnum, Reshare.isSettled
    (st.pub (Reshare.reqAddrKey E rq.account Reshare.ALL rq.groupid nonce limitnum rq.mode)) = false
  absent : ∀ nonce limitnum, st.reqAddrInfo
    (Reshare.reqAddrKey E rq.account Reshare.ALL rq.groupid nonce limitnum rq.mode) = none
  apart : ∀ nonce nonce' limitnum,
    Reshare.reqAddrKey E rq.account Reshare.ALL rq.groupid nonce limitnum rq.mode ≠
      Reshare.reqAddrKey E rq.account EC256K1 rq.groupid nonce' limitnum rq.mode

/-- **Approved resharing.**  For every approved command, every run and everything that happens to
the record until and after its end: the run returns no share, and the record has the status
`Success` exactly if it had it before the approval. -/
theorem approved_reshare_fails (E : ReshareEnv) (c : Command) (ac : AcceptReShareData)
    (db₀ db : Places) (j : Job)
    (reached : Reachable E c (save db₀ ac) db j) (waiting : j.phase = .waiting) (e : Event)
    (approved : (step E c db j e).2.phase = .started) (es : List Event) (C : Reshare.Coins)
    (faults : ℕ → Bool) (rest : Reshare.Request) (st : Reshare.Stores)
    (requests : NoAllRequest E.toEnv (requestOf c rest) st) (ret : Text) :
    let outcome := (exec (Reshare.processReshare E.toEnv C faults (requestOf c rest)) st).1
    let later := run E c (step E c db j e).1 (step E c db j e).2 es
    let found := stored (afterRun c ret outcome later.1)
    outcome.isOk = false ∧
      (found.map Record.Status = some Success ↔ ∃ old, Settled db old ∧ old.Status = Success) := by
  intro outcome later found
  constructor
  · cases ended : outcome with
    | error fault => rfl
    | ok share =>
      have ran : exec (Reshare.processReshare E.toEnv C faults (requestOf c rest)) st =
          (.ok share, (exec (Reshare.processReshare E.toEnv C faults (requestOf c rest)) st).2) :=
        Prod.ext ended rfl
      obtain ⟨nonce, limitnum, settled | pending | ⟨nonce', same⟩⟩ :=
        Reshare.accepted_before_of_ok ran
      · rw [requests.unsettled] at settled
        cases settled
      · rw [requests.absent] at pending
        cases pending
      · exact absurd same (requests.apart nonce nonce' limitnum)
  · obtain ⟨new, settled, before⟩ := settled_of_started (Saved.reachable reached) waiting approved
    have last : Settled (afterRun c ret outcome later.1) new := (settled.run es).afterRun ret outcome
    rw [show found = some new from stored_of_settled last, map_some, Option.some.injEq]
    constructor
    · intro success
      rcases before with before | status
      · exact ⟨new, before, success⟩
      · rw [status] at success
        exact absurd success (by decide)
    · rintro ⟨old, settled_old, success⟩
      have kept := settled_old.touched (touched_step (E := E) (c := c) db j e)
      rw [Option.some.inj (settled.1.symm.trans kept.1), success]

/-! ## A group of two nodes

The other node agrees.  The digest of a text depends on the letter after the account, so that the
key types have different keys. -/

namespace TwoNodes

open Smpc.TwoNodes (account)

def typedEnv : ReshareEnv :=
  { env with Keccak256Hash := fun text => if text[43]? = some 'a' then ['z'] else ['k'] }

def agreed : Places × Job := run typedEnv command start Job.initial [.own, .reply ['y'], .settle ['y']]

theorem agreed_reached : Reachable typedEnv command start agreed.1 agreed.2 := Reachable.start.run _

def finishedRun : Reshare.Request :=
  { Reshare.Runs.request with pubkeyhex := ['0', '4'], worker := some (['2', '/', '2'], 0) }

def noCoins : Reshare.Coins := ⟨[], fun _ _ => none⟩

/-- The old record of the public key, of the same account and mode. -/
def oldKey : Reshare.PubKeyData :=
  { Reshare.Runs.oldRecord mode0 with Account := account '1' }

def shareStores : Reshare.Stores where
  sk _ := none
  pub key := if key = [Char.ofNat 4] then some (.pubKey oldKey) else none
  reqAddrInfo _ := none
  ops := 0

/-- The run of the approved command; no operation fails. -/
def shareRun : Outcome Text × Reshare.Stores :=
  exec (Reshare.processReshare typedEnv.toEnv noCoins (fun _ => false)
    (requestOf command finishedRun)) shareStores

theorem typedKey_all (nonce limitnum : Text) :
    Reshare.reqAddrKey typedEnv.toEnv command.rh.Account Reshare.ALL command.rh.GroupID nonce limitnum
      command.rh.Mode = ['z'] := rfl

theorem typedKey_ec256k1 (nonce limitnum : Text) :
    Reshare.reqAddrKey typedEnv.toEnv command.rh.Account EC256K1 command.rh.GroupID nonce limitnum
      command.rh.Mode = ['k'] := rfl

theorem noAllRequest : NoAllRequest typedEnv.toEnv (requestOf command finishedRun) shareStores where
  unsettled nonce limitnum := by
    rw [show (requestOf command finishedRun).account = command.rh.Account from rfl]
    exact congrArg (fun key => Reshare.isSettled (shareStores.pub key)) (typedKey_all nonce limitnum)
  absent _ _ := rfl
  apart nonce nonce' limitnum := by
    intro same
    have keys := (typedKey_all nonce limitnum).symm.trans
      (same.trans (typedKey_ec256k1 nonce' limitnum))
    cases keys

end TwoNodes

theorem approved_reshare_fails_two_nodes :
    TwoNodes.shareRun.1.isOk = false ∧
      (stored (afterRun TwoNodes.command [] TwoNodes.shareRun.1
        (run TwoNodes.typedEnv TwoNodes.command
          (step TwoNodes.typedEnv TwoNodes.command TwoNodes.agreed.1 TwoNodes.agreed.2 .token).1
          (step TwoNodes.typedEnv TwoNodes.command TwoNodes.agreed.1 TwoNodes.agreed.2 .token).2
          [.timeout]).1)).map Record.Status ≠ some Success := by
  have both := approved_reshare_fails TwoNodes.typedEnv TwoNodes.command TwoNodes.record
    (fun _ => none) TwoNodes.agreed.1 TwoNodes.agreed.2 TwoNodes.agreed_reached (by decide +kernel)
    .token (by decide +kernel) [.timeout] TwoNodes.noCoins (fun _ => false) TwoNodes.finishedRun
    TwoNodes.shareStores TwoNodes.noAllRequest []
  refine ⟨both.1, fun success => ?_⟩
  obtain ⟨old, settled, -⟩ := both.2.mp success
  have absent : TwoNodes.agreed.1 .finished = none := by decide +kernel
  rw [settled.1] at absent
  cases absent

/-- The wait ends with approval and no operation of the run fails; mode, account and public key are
the old ones.  The run returns an error and the record keeps the status `pending`, also when the
status `Success` is asked for. -/
theorem approved_reshare_pending :
    (step TwoNodes.typedEnv TwoNodes.command TwoNodes.agreed.1 TwoNodes.agreed.2 .token).2.phase =
      .started ∧
    TwoNodes.shareRun.1 = .error (.error "get reqaddr accept data fail from db") ∧
    (stored (update
      (step TwoNodes.typedEnv TwoNodes.command TwoNodes.agreed.1 TwoNodes.agreed.2 .token).1
      (successCall 0 ['1']))).map Record.Status = some "pending".toList :=
  ⟨by decide +kernel, by decide +kernel, by decide +kernel⟩

end ThresholdDsa.Smpc.ReshareApproval
