/-
# Concurrent commands and the nonces of an account

`DoSign` and `ReqSmpcAddr.DoReq` make the same four database operations: they ask
for a record under the key of the command, read the nonce of the account, write
the nonce of the command and save its record.  Other calls may run in between.
The nonce is read and written in two operations, with no lock around both, and a
read that fails counts as a read of no entry.

`nonce_passed_once`: two commands of one account with one nonce do not both pass
if, whenever a call reads a nonce, the read succeeds and no other call is between
its comparison and its write of the same nonce.  The calls then take the steps of
`NonceGate`.
-/
import ThresholdDsa.Lib.NonceGate
import ThresholdDsa.Smpc.DoSign

namespace ThresholdDsa.Smpc.Nonces

set_option linter.unusedSectionVars false

open Outcome GoText Function

/-! ## Calls -/

section

variable (E : Env)

def nonceKey : Kind → Text → Text
  | .sign, account => signNonceKey E account
  | .keygen, account => reqAddrNonceKey E account

def getNonce (db : Db) : Kind → Text → Outcome Text
  | .sign, account => GetSignNonce E db account
  | .keygen, account => GetReqAddrNonce E db account

def infoData (db : Db) : Kind → Text → Option Value
  | .sign, key => db.signInfo key
  | .keygen, key => db.reqAddrInfo key

def isCommand : Kind → TxData → Bool
  | .sign, .sign _ => true
  | .keygen, .reqAddr _ => true
  | _, _ => false

def reqAddrRecord (sender : Text) (req : TxDataReqAddr) (Sigs : List Text) : AcceptReqAddrData where
  Account := sender
  GroupID := req.GroupID
  LimitNum := req.ThresHold
  Mode := req.Mode
  Sigs

/-- `SaveAcceptSignData` and `SaveAcceptReqAddrData`; without the accounts of the group a key
generation has no record. -/
def saveRecord (db : Db) (key : Text) (tx : Tx) (Sigs : Option (List Text)) : Db :=
  match tx.data, Sigs with
  | .sign sig, _ => db.putSignInfo key (.acceptSign (signRecord tx.sender sig))
  | .reqAddr req, some Sigs =>
    { db with
      reqAddrInfo := update db.reqAddrInfo key
        (some (.acceptReqAddr (reqAddrRecord tx.sender req Sigs))) }
  | _, _ => db

/-- How far a call is: the transaction is checked, its key is free, its nonce is the next one, the
nonce is written, the record is saved.  A call that was refused is `stopped`. -/
inductive Stage where
  | start
  | named (key : Text) (tx : Tx)
  | fresh (key : Text) (tx : Tx)
  | counted (key : Text) (tx : Tx)
  | numbered (key : Text) (tx : Tx)
  | saved (key : Text) (tx : Tx)
  | stopped
  deriving DecidableEq

/-- `Sigs` is what `GetGroupSigsDataByRaw` finds for a key generation. -/
structure Call where
  kind : Kind
  raw : Text
  Sigs : Option (List Text)
  stage : Stage

/-- `GetPubKeyData` reports an entry that it cannot read as absent. -/
def readable (db : Db) (fails : Bool) : Db :=
  if fails then { db with pubKey := fun _ => none } else db

/-- The next database operation of a call; `fails` is whether it fails. -/
def Call.next (db : Db) (fails : Bool) (c : Call) : Db × Stage :=
  match c.stage with
  | .start =>
    match CheckRaw E db c.raw with
    | .ok (key, tx) =>
      (db, if fails = false ∧ isCommand c.kind tx.data then .named key tx else .stopped)
    | .error _ => (db, .stopped)
  | .named key tx =>
    (db, if fails = false ∧ (infoData db c.kind key).isSome then .stopped else .fresh key tx)
  | .fresh key tx =>
    match checkNonce (getNonce E (readable db fails) c.kind tx.sender) tx.Nonce with
    | .ok () => (db, .counted key tx)
    | .error _ => (db, .stopped)
  | .counted key tx =>
    if fails then (db, .stopped)
    else (db.putPubKey (nonceKey E c.kind tx.sender) (.bytes (itoa tx.Nonce)), .numbered key tx)
  | .numbered key tx => (if fails then db else saveRecord db key tx c.Sigs, .saved key tx)
  | .saved key tx => (db, .saved key tx)
  | .stopped => (db, .stopped)

end

structure Config (ι : Type) where
  db : Db
  calls : ι → Call

/-- A step of a call, or one of the rest of the program. -/
inductive Event (ι : Type) where
  | call (i : ι) (fails : Bool)
  | other (db : Db)

section

variable {ι : Type} [DecidableEq ι] (E : Env)

def Config.step (c : Config ι) : Event ι → Config ι
  | .call i fails =>
    let (db, stage) := (c.calls i).next E c.db fails
    { db, calls := update c.calls i { c.calls i with stage } }
  | .other db => { c with db }

def Config.run (c : Config ι) (events : List (Event ι)) : Config ι := events.foldl (step E) c

/-- A nonce is read successfully, and while no other call is about to write it; the rest of the
program leaves nonces alone. -/
def Careful (c : Config ι) : Event ι → Prop
  | .call i fails => ∀ key tx, (c.calls i).stage = .fresh key tx → fails = false ∧
      ∀ j, j ≠ i → ∀ key' tx', (c.calls j).stage = .counted key' tx' →
        nonceKey E (c.calls j).kind tx'.sender ≠ nonceKey E (c.calls i).kind tx.sender
  | .other db => ∀ kind account,
      db.pubKey (nonceKey E kind account) = c.db.pubKey (nonceKey E kind account)

def CarefulRun : Config ι → List (Event ι) → Prop
  | _, [] => True
  | c, e :: events => Careful E c e ∧ CarefulRun (c.step E e) events

/-- The transaction of a call that passed the nonce check, in the stages after it. -/
def Stage.passed : Stage → Option Tx
  | .counted _ tx | .numbered _ tx | .saved _ tx => some tx
  | _ => none

/-! ## The calls at the gate -/

/-- The number in a nonce entry. -/
def lastNonce : Option Value → Option ℤ
  | some (.bytes da) => setString10 da
  | _ => none

def Stage.tx? : Stage → Option Tx
  | .named _ tx | .fresh _ tx | .counted _ tx | .numbered _ tx | .saved _ tx => some tx
  | .start | .stopped => none

def Stage.phase : Stage → NonceGate.Phase
  | .start | .named _ _ | .fresh _ _ => .waiting
  | .counted _ _ => .counted
  | .numbered _ _ | .saved _ _ => .past
  | .stopped => .stopped

def Config.gate (c : Config ι) : NonceGate.Gate ι Text where
  last key := lastNonce (c.db.pubKey key)
  phase i := (c.calls i).stage.phase

/-- The nonce entry and the nonce of a call, read off its text. -/
def Config.key (c : Config ι) (i : ι) : Text :=
  nonceKey E (c.calls i).kind (((E.decode (c.calls i).raw).map (·.sender)).getD [])

def Config.nonce (c : Config ι) (i : ι) : ℤ :=
  (((E.decode (c.calls i).raw).map (·.Nonce)).getD 0 : ℕ)

/-- The transaction in the stage of a call is that of its text. -/
def Config.Decoded (c : Config ι) : Prop :=
  ∀ i tx, (c.calls i).stage.tx? = some tx → E.decode (c.calls i).raw = some tx

variable {E} {c : Config ι} {i : ι} {tx : Tx}

theorem Config.Decoded.key_eq (decoded : c.Decoded E) (holds : (c.calls i).stage.tx? = some tx) :
    c.key E i = nonceKey E (c.calls i).kind tx.sender := by
  simp [Config.key, decoded i tx holds]

theorem Config.Decoded.nonce_eq (decoded : c.Decoded E)
    (holds : (c.calls i).stage.tx? = some tx) : c.nonce E i = tx.Nonce := by
  simp [Config.nonce, decoded i tx holds]

/-- What one operation can do to the nonces and to the stage of a call. -/
inductive Moves (E : Env) (db : Db) (fails : Bool) (call : Call) : Db → Stage → Prop where
  | stop (before : call.stage.phase ≠ .past) : Moves E db fails call db .stopped
  | stay (db' : Db) (stage : Stage) (kept : db'.pubKey = db.pubKey)
      (same : stage.phase = call.stage.phase)
      (read : ∀ tx, stage.tx? = some tx →
        call.stage.tx? = some tx ∨ E.decode call.raw = some tx) : Moves E db fails call db' stage
  | count (key : Text) (tx : Tx) (stage_eq : call.stage = .fresh key tx)
      (checked : checkNonce (getNonce E (readable db fails) call.kind tx.sender) tx.Nonce = .ok ()) :
      Moves E db fails call db (.counted key tx)
  | store (key : Text) (tx : Tx) (stage_eq : call.stage = .counted key tx) :
      Moves E db fails call
        (db.putPubKey (nonceKey E call.kind tx.sender) (.bytes (itoa tx.Nonce))) (.numbered key tx)

theorem saveRecord_pubKey (db : Db) (key : Text) (tx : Tx) (Sigs : Option (List Text)) :
    (saveRecord db key tx Sigs).pubKey = db.pubKey := by
  unfold saveRecord
  split <;> rfl

theorem moves_next (db : Db) (fails : Bool) (call : Call) :
    Moves E db fails call (call.next E db fails).1 (call.next E db fails).2 := by
  unfold Call.next
  split
  · next stage_eq =>
    have before : call.stage.phase ≠ .past := by simp [stage_eq, Stage.phase]
    split
    · next key tx checked =>
      split
      · refine .stay _ _ rfl (by rw [stage_eq]; rfl) fun tx' named => ?_
        cases named
        exact .inr (checkRaw_eq_ok.mp checked).1
      · exact .stop before
    · exact .stop before
  · next key tx stage_eq =>
    split
    · exact .stop (by simp [stage_eq, Stage.phase])
    · exact .stay _ _ rfl (by rw [stage_eq]; rfl) fun tx' named => .inl (stage_eq ▸ named)
  · next key tx stage_eq =>
    split
    · next checked => exact .count key tx stage_eq checked
    · exact .stop (by simp [stage_eq, Stage.phase])
  · next key tx stage_eq =>
    split
    · exact .stop (by simp [stage_eq, Stage.phase])
    · exact .store key tx stage_eq
  · next key tx stage_eq =>
    refine .stay _ _ ?_ (by rw [stage_eq]; rfl) fun tx' named => .inl (stage_eq ▸ named)
    split
    · rfl
    · exact saveRecord_pubKey ..
  · next key tx stage_eq =>
    exact .stay _ _ rfl (by rw [stage_eq]) fun tx' named => .inl (stage_eq ▸ named)
  · next stage_eq => exact .stop (by simp [stage_eq, Stage.phase])

theorem tx_of_moves {db db' : Db} {fails : Bool} {call : Call} {stage : Stage}
    (moves : Moves E db fails call db' stage) (holds : stage.tx? = some tx) :
    call.stage.tx? = some tx ∨ E.decode call.raw = some tx := by
  cases moves with
  | stop before => cases holds
  | stay db' stage kept same read => exact read tx holds
  | count key tx' stage_eq => exact .inl (stage_eq ▸ holds)
  | store key tx' stage_eq => exact .inl (stage_eq ▸ holds)

@[simp] theorem step_call_kind (e : Event ι) (i : ι) :
    ((c.step E e).calls i).kind = (c.calls i).kind := by
  cases e with
  | call j fails => by_cases eq : i = j <;> simp [Config.step, eq]
  | other db => rfl

@[simp] theorem step_call_raw (e : Event ι) (i : ι) :
    ((c.step E e).calls i).raw = (c.calls i).raw := by
  cases e with
  | call j fails => by_cases eq : i = j <;> simp [Config.step, eq]
  | other db => rfl

theorem Config.Decoded.step (decoded : c.Decoded E) (e : Event ι) : (c.step E e).Decoded E := by
  intro i tx holds
  rw [step_call_raw]
  cases e with
  | call j fails =>
    by_cases eq : i = j
    · subst eq
      simp only [Config.step, update_self] at holds
      rcases tx_of_moves (moves_next ..) holds with before | read
      · exact decoded i tx before
      · exact read
    · simp only [Config.step, update_of_ne eq] at holds
      exact decoded i tx holds
  | other db => exact decoded i tx holds

/-- A nonce that passes the check is the one after the entry. -/
theorem next_of_checkNonce {db : Db} {kind : Kind} {account : Text} {nonce : ℕ}
    (checked : checkNonce (getNonce E db kind account) nonce = .ok ()) :
    (nonce : ℤ) = NonceGate.next (lastNonce (db.pubKey (nonceKey E kind account))) := by
  obtain ⟨text, read, number⟩ := checkNonce_eq_ok.mp checked
  have read_next : nextNonce db (nonceKey E kind account) = .ok text := by
    cases kind with
    | sign =>
      simp only [getNonce, GetSignNonce] at read
      split at read
      · cases read
      · exact read
    | keygen =>
      simp only [getNonce, GetReqAddrNonce] at read
      split at read
      · cases read
      · exact read
  unfold nextNonce at read_next
  split at read_next
  · next absent =>
    cases read_next
    rw [absent]
    exact (Option.some.inj number).symm
  · next da entry =>
    simp only [eq_ok] at read_next
    obtain ⟨last, last_eq, rfl⟩ := read_next
    rw [setString10_intText] at number
    rw [entry, lastNonce, last_eq]
    exact (Option.some.inj number).symm
  · cases read_next

theorem gate_call (i : ι) (fails : Bool) :
    (c.step E (.call i fails)).gate =
      ⟨fun key => lastNonce (((c.calls i).next E c.db fails).1.pubKey key),
        update c.gate.phase i ((c.calls i).next E c.db fails).2.phase⟩ := by
  simp only [Config.gate, Config.step, NonceGate.Gate.mk.injEq, true_and]
  funext j
  by_cases eq : j = i <;> simp [eq]

/-- A careful step is a step of the gate, or none. -/
theorem gate_step (decoded : c.Decoded E) {e : Event ι} (careful : Careful E c e) :
    (c.step E e).gate = c.gate ∨
      NonceGate.Step (c.key E) (c.nonce E) c.gate (c.step E e).gate := by
  cases e with
  | other db =>
    refine .inr (.other (fun key => lastNonce (db.pubKey key)) fun i => ?_)
    exact congrArg lastNonce (careful _ _)
  | call i fails =>
    rw [gate_call]
    have moves := moves_next (E := E) c.db fails (c.calls i)
    generalize (c.calls i).next E c.db fails = result at moves ⊢
    obtain ⟨db', stage⟩ := result
    cases moves with
    | stop before => exact .inr (.stop i before)
    | stay _ _ kept same read =>
      have last_eq : (fun key => lastNonce (db'.pubKey key)) = c.gate.last := by
        rw [kept]
        rfl
      have phase_eq : update c.gate.phase i stage.phase = c.gate.phase := by
        rw [same]
        exact update_eq_self i c.gate.phase
      exact .inl (congrArg₂ NonceGate.Gate.mk last_eq phase_eq)
    | count key tx stage_eq checked =>
      obtain ⟨succeeds, alone⟩ := careful key tx stage_eq
      subst succeeds
      have holds : (c.calls i).stage.tx? = some tx := by rw [stage_eq]; rfl
      refine .inr (.count i (by simp [Config.gate, stage_eq, Stage.phase]) ?_ ?_)
      · rw [decoded.nonce_eq holds, decoded.key_eq holds]
        exact next_of_checkNonce checked
      intro j ne same between
      -- only a call in the stage `counted` is between its steps
      cases stage_eq' : (c.calls j).stage with
      | counted key' tx' =>
        have holds' : (c.calls j).stage.tx? = some tx' := by rw [stage_eq']; rfl
        rw [decoded.key_eq holds, decoded.key_eq holds'] at same
        exact alone j ne key' tx' stage_eq' same
      | _ => simp [Config.gate, stage_eq', Stage.phase] at between
    | store key tx stage_eq =>
      have holds : (c.calls i).stage.tx? = some tx := by rw [stage_eq]; rfl
      have stored : NonceGate.Step (c.key E) (c.nonce E) c.gate _ :=
        .store i (by simp [Config.gate, stage_eq, Stage.phase])
      rw [decoded.nonce_eq holds, decoded.key_eq holds] at stored
      have last_eq : update c.gate.last (nonceKey E (c.calls i).kind tx.sender)
          (some (tx.Nonce : ℤ)) = fun key => lastNonce ((c.db.putPubKey
            (nonceKey E (c.calls i).kind tx.sender) (.bytes (itoa tx.Nonce))).pubKey key) := by
        funext k
        by_cases eq : k = nonceKey E (c.calls i).kind tx.sender
        · simp [eq, Db.putPubKey, lastNonce, setString10_itoa]
        · simp [Db.putPubKey, update_of_ne eq, Config.gate]
      exact .inr (last_eq ▸ stored)

theorem key_step (e : Event ι) : (c.step E e).key E = c.key E := by
  funext i
  simp [Config.key]

theorem nonce_step (e : Event ι) : (c.step E e).nonce E = c.nonce E := by
  funext i
  simp [Config.nonce]

/-- Careful runs keep the nonces in order. -/
theorem ordered_run {events : List (Event ι)} (decoded : c.Decoded E)
    (ordered : c.gate.Ordered (c.key E) (c.nonce E)) (careful : CarefulRun E c events) :
    (c.run E events).Decoded E ∧
      (c.run E events).gate.Ordered ((c.run E events).key E) ((c.run E events).nonce E) := by
  induction events generalizing c with
  | nil => exact ⟨decoded, ordered⟩
  | cons e events ih =>
    refine ih (decoded.step e) ?_ careful.2
    rw [key_step, nonce_step]
    rcases gate_step decoded careful.1 with same | step
    · exact same ▸ ordered
    · exact ordered.step step

theorem kind_run (events : List (Event ι)) (i : ι) :
    ((c.run E events).calls i).kind = (c.calls i).kind := by
  induction events generalizing c with
  | nil => rfl
  | cons e events ih => exact ih.trans (step_call_kind e i)

theorem carefulRun_append {xs ys : List (Event ι)} :
    CarefulRun E c (xs ++ ys) ↔ CarefulRun E c xs ∧ CarefulRun E (c.run E xs) ys := by
  induction xs generalizing c with
  | nil => exact ⟨fun careful => ⟨trivial, careful⟩, fun careful => careful.2⟩
  | cons e xs ih =>
    simp only [List.cons_append, CarefulRun, ih, and_assoc]
    rfl

/-- A call that runs alone is careful. -/
theorem carefulRun_alone (n : ℕ) (others : ∀ j, j ≠ i → (c.calls j).stage.phase ≠ .counted) :
    CarefulRun E c (List.replicate n (.call i false)) := by
  induction n generalizing c with
  | zero => trivial
  | succ n ih =>
    refine ⟨fun key tx _ => ⟨rfl, fun j ne key' tx' counted => ?_⟩, ih fun j ne => ?_⟩
    · exact absurd (by rw [counted]; rfl) (others j ne)
    · simpa only [Config.step, update_of_ne ne] using others j ne

end

/-- **One command for an account and a nonce.**  For any number of `DoSign` and `DoReq` calls on
one database and every careful interleaving of their operations: two calls of one kind that passed
the nonce check for one account with one nonce are the same call. -/
theorem nonce_passed_once {ι : Type} [DecidableEq ι] (E : Env) {c : Config ι}
    (started : ∀ i, (c.calls i).stage = .start) {events : List (Event ι)}
    (careful : CarefulRun E c events) {i j : ι} {tx tx' : Tx}
    (passed : ((c.run E events).calls i).stage.passed = some tx)
    (passed' : ((c.run E events).calls j).stage.passed = some tx')
    (kind_eq : (c.calls i).kind = (c.calls j).kind) (sender_eq : tx.sender = tx'.sender)
    (nonce_eq : tx.Nonce = tx'.Nonce) : i = j := by
  have decoded : c.Decoded E := by
    intro i tx holds
    simp [started, Stage.tx?] at holds
  have waiting : ∀ i, c.gate.phase i = .waiting := by
    intro i
    simp [Config.gate, started, Stage.phase]
  obtain ⟨decoded_end, ordered⟩ :=
    ordered_run decoded (NonceGate.Gate.ordered_of_waiting waiting) careful
  have at_gate : ∀ {stage : Stage} {tx : Tx}, stage.passed = some tx →
      (stage.phase = .counted ∨ stage.phase = .past) ∧ stage.tx? = some tx := by
    intro stage tx passed
    cases stage <;> simp_all [Stage.passed, Stage.phase, Stage.tx?]
  obtain ⟨phase, holds⟩ := at_gate passed
  obtain ⟨phase', holds'⟩ := at_gate passed'
  refine ordered.passed_once phase phase' ?_ ?_
  · rw [decoded_end.key_eq holds, decoded_end.key_eq holds', kind_run, kind_run, kind_eq, sender_eq]
  · rw [decoded_end.nonce_eq holds, decoded_end.nonce_eq holds', nonce_eq]

/-! ## Two calls with one command

The text `1` is a sign command and `r` a key generation, both of account 1 with nonce 0. -/

section

open TwoNodes

def keygenData : TxDataReqAddr where
  Keytype := EC256K1
  GroupID := gid
  ThresHold := ['2', '/', '2']
  Mode := mode0
  AcceptTimeOut := []
  TimeStamp := ['1']

def nonceEnv : Env := { modeOneEnv with
  decode := fun
    | ['1'] => some ⟨account '1', 0, .sign modeOneData⟩
    | ['r'] => some ⟨account '1', 0, .reqAddr keygenData⟩
    | _ => none }

def twoCalls (kind : Kind) (raw : Text) : Config (Fin 2) where
  db := modeOneDb
  calls _ := { kind, raw, Sigs := some [], stage := .start }

/-- One call after the other. -/
def inTurn : List (Event (Fin 2)) :=
  (List.finRange 2).flatMap fun i => List.replicate 5 (.call i false)

/-- Each operation of the first call, then the same one of the second. -/
def together : List (Event (Fin 2)) :=
  (List.replicate 5 ((List.finRange 2).map fun i => .call i false)).flatten

/-- In turn only the first call passes. -/
theorem nonce_passed_once_in_turn :
    (((twoCalls .sign ['1']).run nonceEnv inTurn).calls 0).stage.passed =
      some ⟨account '1', 0, .sign modeOneData⟩ ∧
    (((twoCalls .sign ['1']).run nonceEnv inTurn).calls 1).stage.passed ≠
      some ⟨account '1', 0, .sign modeOneData⟩ := by
  have first : (((twoCalls .sign ['1']).run nonceEnv inTurn).calls 0).stage.passed =
      some ⟨account '1', 0, .sign modeOneData⟩ := by decide +kernel
  refine ⟨first, fun second => ?_⟩
  have same : (0 : Fin 2) = 1 := by
    refine nonce_passed_once nonceEnv (fun _ => rfl) ?_ first second rfl rfl rfl
    refine carefulRun_append.mpr ⟨carefulRun_alone 5 fun j _ => ?_, carefulRun_alone 5 ?_⟩
    · simp [twoCalls, Stage.phase]
    · decide +kernel
  cases same

/-- Both calls pass with nonce 0, sign commands as well as key generations. -/
theorem both_calls_pass :
    (∀ i, (((twoCalls .sign ['1']).run nonceEnv together).calls i).stage.passed =
      some ⟨account '1', 0, .sign modeOneData⟩) ∧
    ∀ i, (((twoCalls .keygen ['r']).run nonceEnv together).calls i).stage.passed =
      some ⟨account '1', 0, .reqAddr keygenData⟩ := by
  decide +kernel

end

end ThresholdDsa.Smpc.Nonces
