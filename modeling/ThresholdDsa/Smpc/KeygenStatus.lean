/-
# The order in which key generation stores its result

When the rounds are over, `smpcGenPubKey` stores the share and the chain value
(the share alone comes later for EdDSA), moves the record of the request to the
finished database with status `Success`, and only then stores the `PubKeyData`
and the entries under the addresses.  Its caller turns an error into a second
update of the record, with status `Failure`; by then the record counts as
processed and is left alone.

The run is a program of `DbThreads` over the slots of one request, with an
operation of every kind free to fail.  `success_stored_iff`: a record with status
`Success` always comes with the key it reports, and an error never does, exactly
in the runs that do not reach the status, or find the key there before, or fail
nowhere after it.
-/
import ThresholdDsa.Lib.FaultyRun
import ThresholdDsa.Smpc.AcceptStatus
import ThresholdDsa.Smpc.ReshareStore

namespace ThresholdDsa.Smpc.KeygenStatus

open DbThreads GoText AcceptStatus List Prog Function

/-! ## Slots -/

/-- The record of the request in its two databases, and what is stored under a public key or an
address.  The general database holds the finished record and the `PubKeyData`; their keys are a
hash of the request and a key or a hash of an address. -/
inductive Slot where
  | record (place : AcceptStatus.Place)
  | pubKey (key : Text)
  | account (key : Text)
  | sku1 (key : Text)
  | bip32c (key : Text)
  deriving DecidableEq

inductive Datum where
  | record (ac : Record ReqAddrFixed)
  | pubKeyData (pubs : Reshare.PubKeyData)
  | bytes (text : Text)
  deriving DecidableEq

def Datum.acceptReqAddrData : Datum → Option (Record ReqAddrFixed)
  | .record ac => some ac
  | _ => none

abbrev Databases := Slot → Option Datum

/-! ## The run -/

/-- `Tip` and `Err` of a result that has one. -/
structure Report where
  (Tip Err : Text)
  deriving DecidableEq

abbrev GenProg (A : Type) := Prog Slot Datum (Except Report A)

/-- What the rounds left in the queues of the worker. -/
structure Worker where
  id : ℤ
  (groupid limitnum : Text)
  (pkx pky save sku1 bip32c edpk edsave edsku1 : Option Text)

/-- The arguments of `smpcGenPubKey`, the worker if there is one, the error of the rounds if they
failed, and the sender, replies and worker number of its caller. -/
structure Keygen where
  (msgprex account cointype mode nonce : Text)
  worker : Except Text Worker
  rounds : Option Report
  sender : Text
  ars : List NodeReply
  workid : ℤ

/-- Code outside the run: marshalling a point given in decimals, encoding and compressing, with
their errors, the error of a database operation, the clock, and the coins. -/
structure Outside where
  E : Env
  coins : Reshare.Coins
  Marshal : Text → Text → Text
  (Encode2 Compress : Reshare.PubKeyData → Option Text)
  codec : Codec ReqAddrFixed
  (dbErr now : Text)

/-- The key pair of a run and what is stored of it. -/
structure Prepared where
  pk : Text
  pubs : Reshare.PubKeyData
  sku1 : Text
  bip32c : Option Text

def Prepared.pubkeyhex (x : Prepared) : Text := hexEncode x.pk

def ErrGetGenPubkeyFail : Text := "\x7bCode:24,Error:\"get generate pubkey fail.\"\x7d".toList
def ErrGetGenSaveDataFail : Text := "\x7bCode:25,Error:\"get generate save data fail.\"\x7d".toList

def internal (text : String) : Text := ("smpc back-end internal error:" ++ text).toList

section

variable (O : Outside) (k : Keygen)

/-- The front of a queue, or an error if it is empty. -/
def front {A : Type} (queue : Option Text) (report : Report) (next : Text → GenProg A) :
    GenProg A :=
  match queue with
  | none => .ret (.error report)
  | some v => next v

def store {A : Type} (slot : Slot) (v : Datum) (report : Report) (next : GenProg A) : GenProg A :=
  .put slot v fun stored => if stored then next else .ret (.error report)

/-- `Encode2`, then `Compress`. -/
def encoded (pubs : Reshare.PubKeyData) (encodeTip compressTip : Text) (x : Prepared) :
    GenProg Prepared :=
  match O.Encode2 pubs with
  | some err => .ret (.error ⟨encodeTip, err⟩)
  | none =>
    match O.Compress pubs with
    | some err => .ret (.error ⟨compressTip, err⟩)
    | none => .ret (.ok x)

def pubKeyData (w : Worker) (Pub Save : Text) : Reshare.PubKeyData where
  Key := k.msgprex
  Account := k.account
  Pub
  Save
  Nonce := k.nonce
  GroupID := w.groupid
  LimitNum := w.limitnum
  Mode := k.mode
  KeyGenTime := O.now
  RefReShareKeys := []

/-- ECDSA up to the status: the share and the chain value are stored under the public key. -/
def prepareEC (w : Worker) : GenProg Prepared :=
  front w.pkx ⟨internal "get pkx fail in req ec2 pubkey", ErrGetGenPubkeyFail⟩ fun spkx =>
  front w.pky ⟨internal "get pky fail in req ec2 pubkey", ErrGetGenPubkeyFail⟩ fun spky =>
  front w.save ⟨internal "get save data fail in req ec2 pubkey", ErrGetGenSaveDataFail⟩ fun save =>
  front w.sku1 ⟨internal "get sku1 fail in req ec2 pubkey", ErrGetGenSaveDataFail⟩ fun sku1 =>
  store (.sku1 (O.Marshal spkx spky)) (.bytes sku1)
    ⟨internal "put sku1 to local db fail", ErrGetGenSaveDataFail⟩ <|
  front w.bip32c ⟨internal "get c for bip32 fail in req ec2 pubkey",
    "get c for bip32 fail in req ec2 pubkey".toList⟩ fun bip32c =>
  store (.bip32c (O.Marshal spkx spky)) (.bytes bip32c)
    ⟨internal "put bip32c to local db fail", ErrGetGenSaveDataFail⟩ <|
  encoded O (pubKeyData O k w (O.Marshal spkx spky) save)
    (internal "encode PubKeyData fail in req ec2 pubkey")
    (internal "compress PubKeyData fail in req ec2 pubkey")
    ⟨O.Marshal spkx spky, pubKeyData O k w (O.Marshal spkx spky) save, sku1, some bip32c⟩

/-- EdDSA up to the status: nothing is stored. -/
def prepareED (w : Worker) : GenProg Prepared :=
  front w.edpk ⟨internal "get workers[id].edpk fail", ErrGetGenPubkeyFail⟩ fun sedpk =>
  front w.edsave ⟨internal "get workers[id].edsave fail", ErrGetGenSaveDataFail⟩ fun sedsave =>
  front w.edsku1 ⟨internal "get workers[id].edsku1 fail", ErrGetGenSaveDataFail⟩ fun sedsku1 =>
  encoded O (pubKeyData O k w sedpk sedsave)
    (internal "encode PubKeyData fail in req ed pubkey")
    (internal "compress PubKeyData fail in req ed pubkey")
    ⟨sedpk, pubKeyData O k w sedpk sedsave, sedsku1, none⟩

def prepare (w : Worker) : GenProg Prepared :=
  if k.cointype = ED25519 then prepareED O k w else prepareEC O k w

def successCall (w : Worker) (x : Prepared) : AcceptStatus.Call where
  initiator := []
  deal := "true".toList
  accept := "true".toList
  status := Success
  result := x.pubkeyhex
  tip := []
  errinfo := []
  allreply := none
  workid := w.id
  sigs := []

def acceptTip : AcceptError → Text
  | .notFound tip _ => tip.toList
  | .codec tip => tip.toList
  | .db => O.dbErr

/-- `AcceptReqAddr` on the slots of the record. -/
def acceptReqAddr (u : AcceptStatus.Call) : Prog Slot Datum Result :=
  (AcceptReqAddr O.codec u).embed .record .record Datum.acceptReqAddrData

/-- The update of the record to `Success`. -/
def status (w : Worker) (x : Prepared) : GenProg Unit :=
  (acceptReqAddr O (successCall w x)).bind fun reply =>
    .ret (reply.mapError fun e => ⟨acceptTip O e, "update req addr status error".toList⟩)

def putPubKeyFail : Report := ⟨internal " put pubkey data fail", O.dbErr⟩
def putSkU1Fail : Report := ⟨internal " put sku1 data fail", O.dbErr⟩

/-- What is stored after the status, in order. -/
def later (x : Prepared) : List (Slot × Datum × Report) :=
  match x.bip32c with
  | some bip32c =>
    [(.pubKey x.pk, .pubKeyData x.pubs, putPubKeyFail O),
      (.account x.pk, .bytes x.pubkeyhex,
        ⟨internal " put account data to local db fail", O.dbErr⟩)] ++
    (Reshare.addressKeys O.E O.coins x.pubkeyhex).flatMap fun key =>
      [(.pubKey key, .pubKeyData x.pubs, putPubKeyFail O),
        (.account key, .bytes x.pubkeyhex,
          ⟨internal " put account data to local db fail", O.dbErr⟩),
        (.sku1 key, .bytes x.sku1, putSkU1Fail O),
        (.bip32c key, .bytes bip32c, ⟨internal " put bip32c fail", O.dbErr⟩)]
  | none =>
    (x.pk :: Reshare.addressKeys O.E O.coins x.pubkeyhex).flatMap fun key =>
      [(.pubKey key, .pubKeyData x.pubs, putPubKeyFail O),
        (.account key, .bytes x.pubkeyhex,
          ⟨internal " put account data to db fail", O.dbErr⟩),
        (.sku1 key, .bytes x.sku1, putSkU1Fail O)]

/-- From the worker on. -/
def generate (w : Worker) : GenProg Text :=
  (prepare O k w).bind fun
  | .error report => .ret (.error report)
  | .ok x => (status O w x).bind fun
    | .error report => .ret (.error report)
    | .ok () => (putAll (later O x)).bind fun
      | .error report => .ret (.error report)
      | .ok () => .ret (.ok x.pubkeyhex)

def smpcGenPubKey : GenProg Text :=
  if k.msgprex = [] ∨ k.account = [] ∨ k.cointype = [] ∨ k.mode = [] ∨ k.nonce = [] then
    .ret (.error ⟨"param error".toList, "param error".toList⟩)
  else
    match k.worker with
    | .error err => .ret (.error ⟨internal "no find worker", err⟩)
    | .ok w =>
      match k.rounds with
      | some report => .ret (.error report)
      | none => generate O k w

def failureCall (report : Report) : AcceptStatus.Call where
  initiator := k.sender
  deal := "false".toList
  accept := []
  status := Failure
  result := []
  tip := report.Tip
  errinfo := report.Err
  allreply := some k.ars
  workid := k.workid
  sigs := []

/-- The error of `smpcGenPubKey` goes into the record; the answer has it too, or that of the
update. -/
def reportFailure (report : Report) : Prog Slot Datum (Except Report Text × Except Report Text) :=
  (acceptReqAddr O (failureCall k report)).bind fun
  | .error e => .ret (.error report, .error ⟨acceptTip O e, acceptTip O e⟩)
  | .ok () => .ret (.error report, .error report)

/-- `DoReq` from the call of `smpcGenPubKey` on: what that reports, and the answer. -/
def DoReq : Prog Slot Datum (Except Report Text × Except Report Text) :=
  (smpcGenPubKey O k).bind fun
  | .ok chret => .ret (.ok chret, .ok chret)
  | .error report => reportFailure O k report

end

/-! ## Up to the status -/

section

variable {O : Outside} {k : Keygen} {w : Worker} {faults : ℕ → Bool} {n : ℕ} {db : Databases}

/-- What the run has to store if nothing it needs is missing: the key of the worker, encodable. -/
def encodable (O : Outside) (x : Prepared) : Prop := O.Encode2 x.pubs = none ∧ O.Compress x.pubs = none

instance (x : Prepared) : Decidable (encodable O x) := inferInstanceAs (Decidable (_ ∧ _))

def workerKey (O : Outside) (k : Keygen) (w : Worker) : Option Prepared :=
  if k.cointype = ED25519 then do
    let sedpk ← w.edpk
    let sedsave ← w.edsave
    let sedsku1 ← w.edsku1
    pure ⟨sedpk, pubKeyData O k w sedpk sedsave, sedsku1, none⟩
  else do
    let spkx ← w.pkx
    let spky ← w.pky
    let save ← w.save
    let sku1 ← w.sku1
    let bip32c ← w.bip32c
    pure ⟨O.Marshal spkx spky, pubKeyData O k w (O.Marshal spkx spky) save, sku1, some bip32c⟩

/-- The operations before the status. -/
def before (k : Keygen) : ℕ := if k.cointype = ED25519 then 0 else 2

/-- The share and the chain value of ECDSA. -/
def Shared (x : Prepared) (db : Databases) : Prop :=
  ∀ c, x.bip32c = some c →
    db (.sku1 x.pk) = some (.bytes x.sku1) ∧ db (.bip32c x.pk) = some (.bytes c)

/-- A run of `prepare` from `db`: it reaches the status with the worker's key, or it stops. -/
inductive PrepareRan (O : Outside) (k : Keygen) (w : Worker) (faults : ℕ → Bool) (n : ℕ)
    (db : Databases) (r : Ran Slot Datum (Except Report Prepared)) : Prop
  | done {x : Prepared} (result : r.result = .ok x) (key : workerKey O k w = some x)
      (codes : encodable O x) (stores : ∀ i < before k, faults (n + i) = false)
      (next : r.next = n + before k) (shared : Shared x r.db)
      (untouched : x.bip32c = none → r.db = db)
  | stopped {report : Report} (result : r.result = .error report)
      (missing : ∀ x, workerKey O k w = some x → encodable O x →
        ∃ i < before k, faults (n + i) = true)

theorem PrepareRan.after {r : Ran Slot Datum (Except Report Prepared)} {db' : Databases}
    (ran : PrepareRan O k w faults n db r) : PrepareRan O k w faults n db (r.after db') := by
  cases ran with
  | done result key codes stores next shared untouched =>
    exact .done result key codes stores next shared untouched
  | stopped result missing => exact .stopped result missing

/-- The last step of `prepare`, after the operations of the coin type. -/
theorem encoded_ran {x : Prepared} {m : ℕ} {db' : Databases} (key : workerKey O k w = some x)
    (stores : ∀ i < before k, faults (n + i) = false) (next : m = n + before k)
    (shared : Shared x db') (untouched : x.bip32c = none → db' = db) (encodeTip compressTip : Text) :
    PrepareRan O k w faults n db ((encoded O x.pubs encodeTip compressTip x).ran faults m db') := by
  have stops {report : Report} (uncoded : ¬ encodable O x) :
      PrepareRan O k w faults n db ⟨[], db', m, .error report⟩ :=
    .stopped rfl fun x' key' codes => absurd (Option.some.inj (key'.symm.trans key) ▸ codes) uncoded
  unfold encoded
  cases encodes : O.Encode2 x.pubs with
  | some err => exact stops (by simp [encodable, encodes])
  | none =>
    cases compresses : O.Compress x.pubs with
    | some err => exact stops (by simp [encodable, compresses])
    | none => exact .done rfl key ⟨encodes, compresses⟩ stores next shared untouched

theorem prepareED_ran (ed : k.cointype = ED25519) :
    PrepareRan O k w faults n db ((prepareED O k w).ran faults n db) := by
  have no_operation : before k = 0 := if_pos ed
  have key_eq : workerKey O k w = _ := if_pos ed
  unfold prepareED
  cases edpk : w.edpk with
  | none => exact .stopped rfl fun x key => by rw [key_eq, edpk] at key; cases key
  | some sedpk =>
    cases edsave : w.edsave with
    | none => exact .stopped rfl fun x key => by rw [key_eq, edpk, edsave] at key; cases key
    | some sedsave =>
      cases edsku1 : w.edsku1 with
      | none =>
        exact .stopped rfl fun x key => by rw [key_eq, edpk, edsave, edsku1] at key; cases key
      | some sedsku1 =>
        rw [edpk, edsave, edsku1] at key_eq
        simp only [front]
        refine encoded_ran key_eq ?_ ?_ (fun c chain => by cases chain) (fun _ => rfl) _ _
        · simp [no_operation]
        · simp [no_operation]

theorem prepareEC_ran (ec : k.cointype ≠ ED25519) :
    PrepareRan O k w faults n db ((prepareEC O k w).ran faults n db) := by
  have two_operations : before k = 2 := if_neg ec
  have key_eq : workerKey O k w = _ := if_neg ec
  unfold prepareEC
  cases pkx : w.pkx with
  | none => exact .stopped rfl fun x key => by rw [key_eq, pkx] at key; cases key
  | some spkx =>
  cases pky : w.pky with
  | none => exact .stopped rfl fun x key => by rw [key_eq, pkx, pky] at key; cases key
  | some spky =>
  cases save : w.save with
  | none => exact .stopped rfl fun x key => by rw [key_eq, pkx, pky, save] at key; cases key
  | some ssave =>
  cases sku1 : w.sku1 with
  | none => exact .stopped rfl fun x key => by rw [key_eq, pkx, pky, save, sku1] at key; cases key
  | some ssku1 =>
  simp only [front, store, ran]
  cases first : faults n with
  | true =>
    refine .stopped rfl fun x _ _ => ⟨0, ?_, first⟩
    rw [two_operations]
    exact Nat.two_pos
  | false =>
  cases bip32c : w.bip32c with
  | none =>
    exact .stopped rfl fun x key => by
      rw [key_eq, pkx, pky, save, sku1, bip32c] at key; cases key
  | some c =>
  simp only [Bool.false_eq_true, if_false, if_true, ran]
  cases second : faults (n + 1) with
  | true =>
    refine .stopped rfl fun x _ _ => ⟨1, ?_, second⟩
    rw [two_operations]
    exact Nat.one_lt_two
  | false =>
  rw [pkx, pky, save, sku1, bip32c] at key_eq
  refine (PrepareRan.after (encoded_ran key_eq ?_ ?_ (fun c' chain => ?_)
    (fun single => by cases single) _ _)).after
  · rw [two_operations]
    intro i lt
    interval_cases i
    · exact first
    · exact second
  · rw [two_operations]
  · cases chain
    simp

theorem prepare_ran : PrepareRan O k w faults n db ((prepare O k w).ran faults n db) := by
  unfold prepare
  split
  · rename_i ed
    exact prepareED_ran ed
  · rename_i ec
    exact prepareEC_ran ec

/-- The slots that a run leaves alone up to the status. -/
structure SameRecords (db db' : Databases) : Prop where
  record : ∀ place, db' (.record place) = db (.record place)
  pubKey : ∀ key, db' (.pubKey key) = db (.pubKey key)

variable {ac : Record ReqAddrFixed} {x : Prepared} {db' : Databases} {u : AcceptStatus.Call}

theorem SameRecords.update (same : SameRecords db db') {slot : Slot}
    (share : (∃ key, slot = .sku1 key) ∨ ∃ key, slot = .bip32c key) (v : Option Datum) :
    SameRecords db (update db' slot v) where
  record place := by
    rcases share with ⟨key, rfl⟩ | ⟨key, rfl⟩ <;>
      exact (update_of_ne (by simp) _ _).trans (same.record place)
  pubKey key' := by
    rcases share with ⟨key, rfl⟩ | ⟨key, rfl⟩ <;>
      exact (update_of_ne (by simp) _ _).trans (same.pubKey key')

section

variable {A : Type} {Inv : Databases → Prop}

theorem keeps_front {queue : Option Text} {report : Report} {next : Text → GenProg A}
    (keeps : ∀ v, (next v).Keeps Inv) : (front queue report next).Keeps Inv := by
  cases queue with
  | none => trivial
  | some v => exact keeps v

theorem keeps_store {slot : Slot} {v : Datum} {report : Report} {next : GenProg A}
    (write : ∀ db, Inv db → Inv (update db slot (some v))) (keeps : next.Keeps Inv) :
    (store slot v report next).Keeps Inv := by
  refine ⟨write, fun stored => ?_⟩
  cases stored with
  | false => trivial
  | true => exact keeps

theorem keeps_encoded (pubs : Reshare.PubKeyData) (encodeTip compressTip : Text) (x : Prepared) :
    (encoded O pubs encodeTip compressTip x).Keeps Inv := by
  unfold encoded
  split
  · trivial
  · split <;> trivial

end

theorem keeps_prepare (db : Databases) : (prepare O k w).Keeps (SameRecords db) := by
  unfold prepare
  split
  · refine keeps_front fun _ => keeps_front fun _ => keeps_front fun _ => ?_
    exact keeps_encoded _ _ _ _
  · refine keeps_front fun _ => keeps_front fun _ => keeps_front fun _ => keeps_front fun _ => ?_
    refine keeps_store (fun _ same => same.update (.inl ⟨_, rfl⟩) _) ?_
    refine keeps_front fun _ => keeps_store (fun _ same => same.update (.inr ⟨_, rfl⟩) _) ?_
    exact keeps_encoded _ _ _ _

/-! ## The status -/

def SuccessRecorded (db : Databases) : Prop :=
  ∃ ac, db (.record .finished) = some (.record ac) ∧ ac.Status = Success

/-- The record of a request that is not processed yet. -/
structure Started (ac : Record ReqAddrFixed) (db : Databases) : Prop where
  pending : db (.record .pending) = some (.record ac)
  unfinished : db (.record .finished) = none

theorem Started.same (start : Started ac db) (same : SameRecords db db') : Started ac db' where
  pending := (same.record _).trans start.pending
  unfinished := (same.record _).trans start.unfinished

/-- The databases once the record has been moved. -/
def recorded (ac : Record ReqAddrFixed) (db : Databases) : Databases :=
  update (update db (.record .pending) none) (.record .finished)
    (some (.record ac))

/-- The record can be encoded, it is found, deleted and stored. -/
structure Moves (O : Outside) (faults : ℕ → Bool) (n : ℕ) (ac : Record ReqAddrFixed) : Prop where
  encodes : O.codec.Encode2 ac = true
  compresses : O.codec.Compress ac = true
  found : faults (n + 1) = false
  deleted : faults (n + 2) = false
  stored : faults (n + 3) = false

/-- A call that moves the record, or stops before it is stored. -/
inductive MoveRan {A : Type} (moves : Prop) (next : ℕ) (ac : Record ReqAddrFixed) (db : Databases)
    (ok : A) (failed : A → Prop) (r : Ran Slot Datum A) : Prop
  | done (moved : moves) (result : r.result = ok) (next_eq : r.next = next)
      (first : List Databases) (states : r.states = first ++ [recorded ac db])
      (unfinished : ∀ db' ∈ first, db' (.record .finished) = none) (db_eq : r.db = recorded ac db)
  | stopped (fails : ¬ moves) (result : failed r.result)
      (always : Ran.Always (fun db' => db' (.record .finished) = none) r)

theorem MoveRan.after {A : Type} {moves moves' : Prop} {next : ℕ} {ok : A} {failed : A → Prop}
    {r : Ran Slot Datum A} (ran : MoveRan moves next ac db ok failed r)
    (unfinished : db (.record .finished) = none) (same : moves' ↔ moves) :
    MoveRan moves' next ac db ok failed (r.after db) := by
  cases ran with
  | done moved result next_eq first states unfinished' db_eq =>
    refine .done (same.mpr moved) result next_eq (db :: first) ?_ ?_ db_eq
    · show db :: r.states = _
      rw [states]
      rfl
    · intro db' member
      rcases mem_cons.mp member with rfl | later
      · exact unfinished
      · exact unfinished' db' later
  | stopped fails result always =>
    exact .stopped (fun moved => fails (same.mp moved)) result (always.after unfinished)

def Failed (r : Result) : Prop := ∃ e, r = .error e

theorem moveRecord_ran (unfinished : db (.record .finished) = none) :
    MoveRan (faults n = false ∧ faults (n + 1) = false) (n + 2) ac db (.ok ()) Failed
      (((moveRecord ac).embed .record .record Datum.acceptReqAddrData).ran faults n db) := by
  have deleted : update db (.record .pending) none (.record .finished) = none :=
    (update_of_ne (by simp) _ _).trans unfinished
  simp only [moveRecord, embed]
  cases deletes : faults n with
  | true =>
    rw [ran_del_fails deletes]
    refine .stopped (by simp) ⟨_, rfl⟩ ?_
    exact Ran.Always.after ⟨fun _ member => absurd member not_mem_nil, unfinished⟩
      unfinished
  | false =>
    rw [ran_del deletes]
    simp only [if_true, embed]
    cases stores : faults (n + 1) with
    | true =>
      rw [ran_put_fails stores]
      refine .stopped (by simp) ⟨_, rfl⟩ ?_
      exact Ran.Always.after (Ran.Always.after
        ⟨fun _ member => absurd member not_mem_nil, deleted⟩ deleted) deleted
    | false =>
      rw [ran_put stores]
      refine .done (by simp) rfl rfl [update db (.record .pending) none] rfl ?_ rfl
      intro db' member
      rw [mem_singleton.mp member]
      exact deleted

theorem always_stay {A : Type} {a : A} (unfinished : db (.record .finished) = none) :
    Ran.Always (fun db' => db' (.record .finished) = none) (⟨[], db, n, a⟩ : Ran Slot Datum A) :=
  ⟨fun _ member => absurd member not_mem_nil, unfinished⟩

theorem settle_ran {K : AcceptStatus.Kind ReqAddrFixed} (settled : ac.Status ≠ Pending)
    (unfinished : db (.record .finished) = none) :
    MoveRan (O.codec.Encode2 ac = true ∧ O.codec.Compress ac = true ∧
        faults n = false ∧ faults (n + 1) = false) (n + 2) ac db (.ok ()) Failed
      (((settle K O.codec ac).embed .record .record Datum.acceptReqAddrData).ran faults n db) := by
  unfold settle
  cases encodes : O.codec.Encode2 ac with
  | false => exact .stopped (by simp) ⟨_, rfl⟩ (always_stay unfinished)
  | true =>
  cases compresses : O.codec.Compress ac with
  | false => exact .stopped (by simp) ⟨_, rfl⟩ (always_stay unfinished)
  | true =>
    simp only [not_true_eq_false, if_false, if_pos settled, true_and]
    exact moveRecord_ran unfinished

theorem acceptReqAddr_ran (start : Started ac db) (settled : (ac.merge u).Status ≠ Pending) :
    MoveRan (Moves O faults n (ac.merge u)) (n + 4) (ac.merge u) db (.ok ()) Failed
      ((acceptReqAddr O u).ran faults n db) := by
  simp only [acceptReqAddr, AcceptReqAddr, accept, AcceptStatus.lookup, embed]
  rw [ran_find_miss (.inr (by rw [start.unfinished]; rfl))]
  cases found : faults (n + 1) with
  | true =>
    rw [ran_find_miss (.inl found)]
    refine .stopped (fun moves => ?_) ⟨_, rfl⟩
      (((always_stay start.unfinished).after start.unfinished).after start.unfinished)
    rw [moves.found] at found
    cases found
  | false =>
    rw [ran_find_hit found start.pending rfl]
    refine ((settle_ran settled start.unfinished).after start.unfinished ?_).after
      start.unfinished Iff.rfl
    exact ⟨fun moves => ⟨moves.encodes, moves.compresses, moves.deleted, moves.stored⟩,
      fun moves => ⟨moves.1, moves.2.1, found, moves.2.2.1, moves.2.2.2⟩⟩

theorem status_ran (start : Started ac db) :
    MoveRan (Moves O faults n (ac.merge (successCall w x))) (n + 4) (ac.merge (successCall w x)) db
      (.ok ()) (fun result => ∃ report, result = .error report) ((status O w x).ran faults n db) := by
  have settled : (ac.merge (successCall w x)).Status ≠ Pending := by
    show Success ≠ Pending
    decide
  rw [status, ran_bind]
  have accepted : MoveRan (Moves O faults n _) (n + 4) _ db _ _ _ := acceptReqAddr_ran start settled
  cases accepted with
  | done moved result next_eq first states unfinished db_eq =>
    rw [result, next_eq, db_eq, states]
    exact .done moved rfl rfl first (append_nil _) unfinished rfl
  | stopped fails result always =>
    obtain ⟨e, result⟩ := result
    rw [result]
    exact .stopped fails ⟨_, rfl⟩ ((always_stay always.db).behind always.states)

/-! ## The whole run -/

/-- The run stores the status `Success` of the key `x`: nothing it needs is missing, and no
operation up to the status fails. -/
structure Reaches (O : Outside) (k : Keygen) (faults : ℕ → Bool) (ac : Record ReqAddrFixed)
    (w : Worker) (x : Prepared) : Prop where
  given : ¬ (k.msgprex = [] ∨ k.account = [] ∨ k.cointype = [] ∨ k.mode = [] ∨ k.nonce = [])
  worker : k.worker = .ok w
  rounds : k.rounds = none
  key : workerKey O k w = some x
  codes : encodable O x
  stores : ∀ i < before k, faults i = false
  moves : Moves O faults (before k) (ac.merge (successCall w x))

theorem Reaches.unique {w' : Worker} {x' : Prepared} (reaches : Reaches O k faults ac w x)
    (reaches' : Reaches O k faults ac w' x') : x' = x := by
  have same_worker := reaches.worker.symm.trans reaches'.worker
  cases same_worker
  have same_key := reaches.key.symm.trans reaches'.key
  cases same_key
  rfl

/-- The databases right after the status of the key `x`. -/
structure AtStatus (O : Outside) (k : Keygen) (ac : Record ReqAddrFixed) (w : Worker)
    (x : Prepared) (start db : Databases) : Prop where
  finished : db (.record .finished) = some (.record (ac.merge (successCall w x)))
  pending : db (.record .pending) = none
  pubKey : ∀ key, db (.pubKey key) = start (.pubKey key)
  shared : Shared x db
  share : x.bip32c = none → db (.sku1 x.pk) = start (.sku1 x.pk)

/-- A run of `smpcGenPubKey`: it stores the status and goes on, or stops without it. -/
inductive GenRan (O : Outside) (k : Keygen) (faults : ℕ → Bool) (ac : Record ReqAddrFixed)
    (db : Databases) (r : Ran Slot Datum (Except Report Text)) : Prop
  | reached {w : Worker} {x : Prepared} (reaches : Reaches O k faults ac w x) (at_status : Databases)
      (status : AtStatus O k ac w x db at_status) (first : List Databases)
      (unfinished : ∀ db' ∈ first, db' (.record .finished) = none)
      (states : r.states = first ++ at_status ::
        ((putAll (later O x)).ran faults (before k + 4) at_status).states)
      (db_eq : r.db = ((putAll (later O x)).ran faults (before k + 4) at_status).db)
      (result : r.result = (((putAll (later O x)).ran faults (before k + 4) at_status).result.map
        fun _ => x.pubkeyhex))
  | stopped {report : Report} (fails : ∀ w x, ¬ Reaches O k faults ac w x)
      (result : r.result = .error report)
      (always : Ran.Always (fun db' => db' (.record .finished) = none) r)

theorem atStatus_recorded (same : SameRecords db db') (shared : Shared x db')
    (untouched : x.bip32c = none → db' = db) :
    AtStatus O k ac w x db (recorded (ac.merge (successCall w x)) db') where
  finished := update_self _ _ _
  pending := by simp [recorded]
  pubKey key := by
    rw [← same.pubKey key]
    simp [recorded]
  shared c chain := by
    simpa [recorded] using shared c chain
  share single := by
    rw [untouched single]
    simp [recorded]

theorem generate_ran (start : Started ac db)
    (given : ¬ (k.msgprex = [] ∨ k.account = [] ∨ k.cointype = [] ∨ k.mode = [] ∨ k.nonce = []))
    (worker : k.worker = .ok w) (rounds : k.rounds = none) :
    GenRan O k faults ac db ((generate O k w).ran faults 0 db) := by
  have keeps : (prepare O k w).Keeps (SameRecords db) := keeps_prepare db
  have same := keeps.ran faults 0 ⟨fun _ => rfl, fun _ => rfl⟩
  have unfinished : ∀ db', SameRecords db db' → db' (.record .finished) = none :=
    fun db' same => (same.record _).trans start.unfinished
  rw [generate, ran_bind]
  cases (prepare_ran : PrepareRan O k w faults 0 db _) with
  | stopped result missing =>
    rw [result]
    refine .stopped (fun w' x reaches => ?_) rfl
      ((always_stay (unfinished _ same.db)).behind fun db' member => unfinished db' (same.states db' member))
    cases worker.symm.trans reaches.worker
    obtain ⟨i, lt, fails⟩ := missing x reaches.key reaches.codes
    rw [Nat.zero_add, reaches.stores i lt] at fails
    cases fails
  | @done x result key codes stores next shared untouched =>
    have before_status : ∀ db' ∈ ((prepare O k w).ran faults 0 db).states,
        db' (.record .finished) = none := fun db' member => unfinished db' (same.states db' member)
    rw [Nat.zero_add] at next
    rw [result, next]
    rw [ran_bind]
    have status : MoveRan (Moves O faults (before k) (ac.merge (successCall w x))) (before k + 4)
        _ _ _ _ ((status O w x).ran faults (before k) _) := status_ran (start.same same.db)
    cases status with
    | stopped fails result always =>
      obtain ⟨report, result⟩ := result
      rw [result]
      refine .stopped (fun w' x' reaches => fails ?_) rfl
        (((always_stay always.db).behind always.states).behind before_status)
      cases worker.symm.trans reaches.worker
      cases key.symm.trans reaches.key
      exact reaches.moves
    | done moved result next first states unfinished db_eq =>
      rw [result, next, db_eq, states]
      rw [ran_bind]
      have reaches : Reaches O k faults ac w x :=
        ⟨given, worker, rounds, key, codes, fun i lt => by simpa using stores i lt, moved⟩
      refine .reached reaches _ (atStatus_recorded same.db shared untouched)
        (((prepare O k w).ran faults 0 db).states ++ first) ?_ ?_ ?_ ?_
      · intro db' member
        rcases mem_append.mp member with early | later
        · exact before_status db' early
        · exact unfinished db' later
      · cases stored : ((putAll (later O x)).ran faults (before k + 4) _).result <;>
          simp [Ran.behind, ran]
      · cases stored : ((putAll (later O x)).ran faults (before k + 4) _).result <;>
          simp [Ran.behind, ran]
      · cases stored : ((putAll (later O x)).ran faults (before k + 4) _).result <;>
          simp [Ran.behind, ran, Except.map]

theorem smpcGenPubKey_ran (start : Started ac db) :
    GenRan O k faults ac db ((smpcGenPubKey O k).ran faults 0 db) := by
  unfold smpcGenPubKey
  split
  · rename_i missing
    exact .stopped (fun _ _ reaches => reaches.given missing) rfl (always_stay start.unfinished)
  rename_i given
  cases worker : k.worker with
  | error err =>
    refine .stopped (fun _ _ reaches => ?_) rfl (always_stay start.unfinished)
    cases worker.symm.trans reaches.worker
  | ok w =>
    cases rounds : k.rounds with
    | some report =>
      refine .stopped (fun _ _ reaches => ?_) rfl (always_stay start.unfinished)
      cases rounds.symm.trans reaches.rounds
    | none => exact generate_ran start given worker rounds

/-! ## After the status -/

/-- The key `x` is stored under its public key. -/
structure KeyStored (x : Prepared) (db : Databases) : Prop where
  pubKey : db (.pubKey x.pk) = some (.pubKeyData x.pubs)
  sku1 : db (.sku1 x.pk) = some (.bytes x.sku1)
  bip32c : ∀ c, x.bip32c = some c → db (.bip32c x.pk) = some (.bytes c)

/-- The writes after the status, each with a part of the key `x`. -/
inductive PartOf (x : Prepared) : Slot → Datum → Prop
  | pubKey (key : Text) : PartOf x (.pubKey key) (.pubKeyData x.pubs)
  | account (key : Text) : PartOf x (.account key) (.bytes x.pubkeyhex)
  | sku1 (key : Text) : PartOf x (.sku1 key) (.bytes x.sku1)
  | bip32c (key : Text) {c : Text} (chain : x.bip32c = some c) : PartOf x (.bip32c key) (.bytes c)

theorem partOf_later : ∀ write ∈ later O x, PartOf x write.1 write.2.1 := by
  intro write member
  unfold later at member
  cases chain : x.bip32c with
  | some c =>
    simp only [chain, mem_append, mem_flatMap, mem_cons, not_mem_nil, or_false]
      at member
    rcases member with (rfl | rfl) | ⟨key, -, rfl | rfl | rfl | rfl⟩
    · exact .pubKey _
    · exact .account _
    · exact .pubKey _
    · exact .account _
    · exact .sku1 _
    · exact .bip32c _ chain
  | none =>
    simp only [chain, mem_flatMap, mem_cons, not_mem_nil, or_false] at member
    obtain ⟨key, -, rfl | rfl | rfl⟩ := member
    · exact .pubKey _
    · exact .account _
    · exact .sku1 _

/-- A write under any key keeps what is stored under the public key: it may only store the same
again. -/
theorem KeyStored.update {slot : Slot} {v : Datum} (part : PartOf x slot v)
    (stored : KeyStored x db) : KeyStored x (update db slot (some v)) where
  pubKey := by cases part <;> simp [update_apply, stored.pubKey]
  sku1 := by cases part <;> simp [update_apply, stored.sku1]
  bip32c c chain := by
    cases part with
    | bip32c key chain' =>
      cases chain.symm.trans chain'
      simp [update_apply, stored.bip32c c chain]
    | pubKey key => simp [stored.bip32c c chain]
    | account key => simp [stored.bip32c c chain]
    | sku1 key => simp [stored.bip32c c chain]

theorem keeps_keyStored : (putAll (later O x)).Keeps (KeyStored x) :=
  keeps_putAll fun write member _ stored => stored.update (partOf_later write member)

/-- The record stays in its places. -/
def RecordAs (db db' : Databases) : Prop := ∀ place, db' (.record place) = db (.record place)

theorem keeps_recordAs (db : Databases) :
    (putAll (later O x)).Keeps (RecordAs db) := by
  refine keeps_putAll fun write member db' same place => ?_
  obtain ⟨slot, v, report⟩ := write
  have other : (.record place : Slot) ≠ slot := by
    have part : PartOf x slot v := partOf_later _ member
    cases part <;> simp
  exact (update_of_ne other _ _).trans (same place)

/-! ## The update to failure -/

/-- An update with another status never records `Success`. -/
theorem keeps_failure (other : u.status ≠ Success) (given : u.status ≠ []) :
    (acceptReqAddr O u).Keeps fun db => ¬ SuccessRecorded db := by
  have elsewhere : ∀ (v : Option Datum) (db : Databases), ¬ SuccessRecorded db →
      ¬ SuccessRecorded (update db (.record .pending) v) := by
    intro v db none_yet recorded
    obtain ⟨ac, at_finished, status⟩ := recorded
    exact none_yet ⟨ac, at_finished, status⟩
  have settles : ∀ (K : AcceptStatus.Kind ReqAddrFixed) (ac : Record ReqAddrFixed),
      ((settle K O.codec (ac.merge u)).embed Slot.record Datum.record
        Datum.acceptReqAddrData).Keeps fun db => ¬ SuccessRecorded db := by
    intro K ac
    unfold settle
    split
    · trivial
    split
    · trivial
    split
    · refine ⟨elsewhere none, fun deleted => ?_⟩
      cases deleted with
      | false => trivial
      | true =>
        refine ⟨fun db _ recorded => ?_, fun _ => trivial⟩
        obtain ⟨ac', at_finished, status⟩ := recorded
        cases at_finished
        exact other ((if_neg given).symm.trans status)
    · exact ⟨elsewhere _, fun _ => trivial⟩
  have looks : ∀ K : AcceptStatus.Kind ReqAddrFixed,
      ((lookup K O.codec u).embed Slot.record Datum.record Datum.acceptReqAddrData).Keeps
        fun db => ¬ SuccessRecorded db := by
    refine fun K => ⟨fun v => ?_, trivial⟩
    cases v with
    | record ac => exact settles K ac
    | pubKeyData pubs => trivial
    | bytes text => trivial
  refine ⟨fun v => ?_, looks _⟩
  cases v with
  | record ac => trivial
  | pubKeyData pubs => exact looks _
  | bytes text => exact looks _

/-- A processed record is left alone. -/
theorem processed_ran (finished : db (.record .finished) = some (.record ac))
    (processed : ac.Status ≠ Pending) (pending : db (.record .pending) = none) :
    Ran.Always (· = db) ((acceptReqAddr O u).ran faults n db) := by
  have stay : ∀ (m : ℕ) (a : Result), Ran.Always (· = db) (⟨[], db, m, a⟩ : Ran Slot Datum Result) :=
    fun m a => ⟨fun _ member => absurd member not_mem_nil, rfl⟩
  simp only [acceptReqAddr, AcceptReqAddr, accept, AcceptStatus.lookup, embed]
  cases reads : faults n with
  | false =>
    rw [ran_find_hit reads finished (by simpa [Datum.acceptReqAddrData] using processed)]
    exact (stay _ _).after rfl
  | true =>
    rw [ran_find_miss (.inl reads), ran_find_miss (.inr (by rw [pending]; rfl))]
    exact ((stay _ _).after rfl).after rfl

/-- A run of `DoReq`: `smpcGenPubKey` stores the status and goes on with `tail`, or it stops
without it. -/
inductive DoReqRan (O : Outside) (k : Keygen) (faults : ℕ → Bool) (ac : Record ReqAddrFixed)
    (db : Databases) (r : Ran Slot Datum (Except Report Text × Except Report Text)) : Prop
  | reached {w : Worker} {x : Prepared} (reaches : Reaches O k faults ac w x) (at_status : Databases)
      (status : AtStatus O k ac w x db at_status) (tail : Ran Slot Datum (Except Report Unit))
      (tail_eq : tail = (putAll (later O x)).ran faults (before k + 4) at_status)
      (passes : at_status ∈ r.states)
      (states : ∀ db' ∈ r.states, db' (.record .finished) = none ∨ db' = at_status ∨
        db' ∈ tail.states ∨ db' = tail.db)
      (db_eq : r.db = tail.db)
      (result : (∃ report, r.result.1 = .error report) ↔ tail.result ≠ .ok ())
  | stopped (fails : ∀ w x, ¬ Reaches O k faults ac w x)
      (always : Ran.Always (fun db' => ¬ SuccessRecorded db') r)

theorem not_successRecorded_of_unfinished (unfinished : db (.record .finished) = none) :
    ¬ SuccessRecorded db := by
  rintro ⟨ac, finished, -⟩
  rw [unfinished] at finished
  cases finished

theorem reportFailure_ran (O : Outside) (k : Keygen) (report : Report) (faults : ℕ → Bool) (n : ℕ)
    (db : Databases) :
    let called := (acceptReqAddr O (failureCall k report)).ran faults n db
    let r := (reportFailure O k report).ran faults n db
    r.states = called.states ∧ r.db = called.db ∧ r.result.1 = .error report := by
  intro called r
  have r_eq : r = _ := ran_bind _ _ _ _ _
  rw [r_eq]
  cases called.result with
  | error e => simp [Ran.behind, ran, called]
  | ok u => simp [Ran.behind, ran, called]

/-- A failure before the status. -/
theorem reportFailure_keeps (report : Report) (none_yet : ¬ SuccessRecorded db) :
    Ran.Always (fun db' => ¬ SuccessRecorded db')
      ((reportFailure O k report).ran faults n db) := by
  have other : (failureCall k report).status ≠ Success := by
    show Failure ≠ Success
    decide
  have given : (failureCall k report).status ≠ [] := by
    show Failure ≠ []
    decide
  have keeps : (acceptReqAddr O (failureCall k report)).Keeps _ := keeps_failure other given
  have kept := keeps.ran faults n none_yet
  obtain ⟨states, db_eq, -⟩ := reportFailure_ran O k report faults n db
  exact ⟨fun db' member => kept.states db' (states ▸ member), db_eq ▸ kept.db⟩

/-- A failure after the status. -/
theorem reportFailure_stays (report : Report)
    (finished : db (.record .finished) = some (.record ac)) (processed : ac.Status ≠ Pending)
    (pending : db (.record .pending) = none) :
    Ran.Always (· = db) ((reportFailure O k report).ran faults n db) := by
  have stays : Ran.Always (· = db) ((acceptReqAddr O (failureCall k report)).ran faults n db) :=
    processed_ran finished processed pending
  obtain ⟨states, db_eq, -⟩ := reportFailure_ran O k report faults n db
  exact ⟨fun db' member => stays.states db' (states ▸ member), db_eq.trans stays.db⟩

theorem doReq_ran (start : Started ac db) :
    DoReqRan O k faults ac db ((DoReq O k).ran faults 0 db) := by
  rw [DoReq, ran_bind]
  cases (smpcGenPubKey_ran start : GenRan O k faults ac db _) with
  | @stopped report fails result always =>
    rw [result]
    refine .stopped fails ((reportFailure_keeps report
      (not_successRecorded_of_unfinished always.db)).behind fun db' member => ?_)
    exact not_successRecorded_of_unfinished (always.states db' member)
  | @reached w x reaches at_status status first unfinished states db_eq result =>
    generalize tail_eq : (putAll (later O x)).ran faults (before k + 4) at_status = tail
      at states db_eq result
    have kept : Ran.Always (RecordAs at_status) tail := by
      rw [← tail_eq]
      exact (keeps_recordAs at_status).ran faults _ fun _ => rfl
    have passed : ∀ db' ∈ first ++ at_status :: tail.states, db' (.record .finished) = none ∨
        db' = at_status ∨ db' ∈ tail.states ∨ db' = tail.db := by
      intro db' member
      rcases mem_append.mp member with early | later
      · exact .inl (unfinished db' early)
      · rcases mem_cons.mp later with here | after
        · exact .inr (.inl here)
        · exact .inr (.inr (.inl after))
    have passes : at_status ∈ first ++ at_status :: tail.states :=
      mem_append_right _ mem_cons_self
    rw [result, states, db_eq]
    cases stored : tail.result with
    | ok done =>
      refine .reached reaches at_status status tail tail_eq.symm ?_ ?_ rfl ?_
      · simp [Ran.behind, ran, Except.map]
      · simpa only [Ran.behind, ran, Except.map, append_nil] using passed
      · simp [Ran.behind, ran, Except.map, stored]
    | error report =>
      have stays : Ran.Always (· = tail.db) ((reportFailure O k report).ran faults
          ((smpcGenPubKey O k).ran faults 0 db).next tail.db) :=
        reportFailure_stays report ((kept.db _).trans status.finished)
          (by show Success ≠ Pending; decide) ((kept.db _).trans status.pending)
      refine .reached reaches at_status status tail tail_eq.symm ?_ ?_ stays.db ?_
      · exact mem_append_left _ passes
      · intro db' member
        rcases mem_append.mp member with earlier | failing
        · exact passed db' earlier
        · exact .inr (.inr (.inr (stays.states db' failing)))
      · rw [stored]
        refine ⟨fun _ => by simp, fun _ => ⟨report, ?_⟩⟩
        exact (reportFailure_ran O k report faults _ tail.db).2.2

/-! ## Status and key -/

/-- A recorded success comes with the key of the run. -/
def Sound (O : Outside) (k : Keygen) (db : Databases) : Prop :=
  SuccessRecorded db →
    ∃ w x, k.worker = .ok w ∧ workerKey O k w = some x ∧ KeyStored x db

theorem AtStatus.recorded {start : Databases} (status : AtStatus O k ac w x start db) :
    SuccessRecorded db :=
  ⟨_, status.finished, rfl⟩

/-- Once the status is recorded the key is stored exactly if all that comes later was there. -/
theorem AtStatus.keyStored_iff {start : Databases} (status : AtStatus O k ac w x start db) :
    KeyStored x db ↔ start (.pubKey x.pk) = some (.pubKeyData x.pubs) ∧
      (x.bip32c = none → start (.sku1 x.pk) = some (.bytes x.sku1)) := by
  constructor
  · intro stored
    refine ⟨(status.pubKey _).symm.trans stored.pubKey, fun single => ?_⟩
    exact (status.share single).symm.trans stored.sku1
  · rintro ⟨pubKey, share⟩
    refine ⟨(status.pubKey _).trans pubKey, ?_, fun c chain => (status.shared c chain).2⟩
    cases chain : x.bip32c with
    | none => exact (status.share chain).trans (share chain)
    | some c => exact (status.shared c chain).1

/-- In every run from a pending request and whatever operation fails: at every moment a recorded
success comes with the key, exactly if a run that gets as far as the status finds the
`PubKeyData`, and the share of EdDSA, already stored; and an error never comes with a recorded
success, exactly if in such a run no later operation fails. -/
theorem success_stored_iff (O : Outside) (k : Keygen) (faults : ℕ → Bool)
    (ac : Record ReqAddrFixed) (db : Databases) (start : Started ac db) :
    let r := (DoReq O k).ran faults 0 db
    ((∀ db' ∈ db :: r.states, Sound O k db') ↔
      ∀ w x, Reaches O k faults ac w x → db (.pubKey x.pk) = some (.pubKeyData x.pubs) ∧
        (x.bip32c = none → db (.sku1 x.pk) = some (.bytes x.sku1))) ∧
    ((∀ report, r.result.1 = .error report → ¬ SuccessRecorded r.db) ↔
      ∀ w x, Reaches O k faults ac w x →
        ∀ i < (later O x).length, faults (before k + 4 + i) = false) := by
  intro r
  have begins : Sound O k db := fun recorded =>
    absurd recorded (not_successRecorded_of_unfinished start.unfinished)
  cases (doReq_ran start : DoReqRan O k faults ac db r) with
  | stopped fails always =>
    refine ⟨iff_of_true ?_ fun w x reaches => absurd reaches (fails w x),
      iff_of_true (fun _ _ => always.db) fun w x reaches => absurd reaches (fails w x)⟩
    intro db' member
    rcases mem_cons.mp member with rfl | later
    · exact begins
    · exact fun recorded => absurd recorded (always.states db' later)
  | @reached w x reaches at_status status tail tail_eq passes states db_eq result =>
    have kept : Ran.Always (RecordAs at_status) tail := by
      rw [tail_eq]
      exact (keeps_recordAs at_status).ran faults _ fun _ => rfl
    refine ⟨⟨fun sound w' x' reaches' => ?_, fun there db' member => ?_⟩,
      ⟨fun silent w' x' reaches' => ?_, fun succeeds report failed => ?_⟩⟩
    · cases reaches.unique reaches'
      obtain ⟨w₁, x₁, worker, key, stored⟩ :=
        sound at_status (mem_cons_of_mem _ passes) status.recorded
      cases worker.symm.trans reaches.worker
      cases key.symm.trans reaches.key
      exact status.keyStored_iff.mp stored
    · have stored : KeyStored x at_status := status.keyStored_iff.mpr (there w x reaches)
      have always : Ran.Always (KeyStored x) tail := by
        rw [tail_eq]
        exact keeps_keyStored.ran faults _ stored
      have sound : KeyStored x db' → Sound O k db' :=
        fun stored _ => ⟨w, x, reaches.worker, reaches.key, stored⟩
      rcases mem_cons.mp member with rfl | later
      · exact begins
      · rcases states db' later with unfinished | rfl | after | rfl
        · exact fun recorded => absurd recorded (not_successRecorded_of_unfinished unfinished)
        · exact sound stored
        · exact sound (always.states db' after)
        · exact sound always.db
    · cases reaches.unique reaches'
      have no_error : ¬ ∃ report, r.result.1 = .error report := by
        rintro ⟨report, failed⟩
        refine silent report failed ⟨ac.merge (successCall w x), ?_, rfl⟩
        rw [db_eq]
        exact (kept.db _).trans status.finished
      rw [result, not_not, tail_eq] at no_error
      exact (putAll_ok_iff _ _ _ _).mp no_error
    · have stored := (putAll_ok_iff faults (later O x) _ at_status).mpr (succeeds w x reaches)
      rw [← tail_eq] at stored
      exact absurd stored (result.mp ⟨report, failed⟩)

end

/-! ## A run that fails

ECDSA with one coin.  The operations are: the share, the chain value, two reads, the deletion and
the put of the record, and then, as number 6, the `PubKeyData`. -/

namespace Runs

def outside : Outside where
  E := Reshare.Runs.env
  coins := Reshare.Runs.coins
  Marshal spkx spky := spkx ++ spky
  Encode2 _ := none
  Compress _ := none
  codec := ⟨fun _ => true, fun _ => true⟩
  dbErr := ['f', 'u', 'l', 'l']
  now := ['1']

def worker : Worker where
  id := 0
  groupid := ['g']
  limitnum := ['2', '/', '3']
  pkx := some ['1']
  pky := some ['2']
  save := some ['s']
  sku1 := some ['5']
  bip32c := some ['7']
  edpk := none
  edsave := none
  edsku1 := none

def keygen : Keygen where
  msgprex := ['r']
  account := ['x']
  cointype := EC256K1
  mode := mode1
  nonce := ['0']
  worker := .ok worker
  rounds := none
  sender := ['e']
  ars := []
  workid := 0

def request : Record ReqAddrFixed where
  fixed := ⟨['x'], EC256K1, ['g'], ['0'], ['2', '/', '3'], mode1, ['1']⟩
  Initiator := ['e']
  Deal := "false".toList
  Accept := "true".toList
  Status := Pending
  result := []
  Tip := []
  Error := []
  AllReply := []
  WorkID := 0
  Sigs := []

def databases : Databases := fun slot =>
  if slot = .record .pending then some (.record request) else none

theorem started : Started request databases := ⟨rfl, rfl⟩

/-- The put of the `PubKeyData` fails. -/
def sixth (n : ℕ) : Bool := n == 6

theorem success_stored_iff_sixth :
    let r := (DoReq outside keygen).ran sixth 0 databases
    Started request databases ∧
    ((∀ db' ∈ databases :: r.states, Sound outside keygen db') ↔
      ∀ w x, Reaches outside keygen sixth request w x →
        databases (.pubKey x.pk) = some (.pubKeyData x.pubs) ∧
        (x.bip32c = none → databases (.sku1 x.pk) = some (.bytes x.sku1))) ∧
    ((∀ report, r.result.1 = .error report → ¬ SuccessRecorded r.db) ↔
      ∀ w x, Reaches outside keygen sixth request w x →
        ∀ i < (later outside x).length, sixth (before keygen + 4 + i) = false) :=
  ⟨started, success_stored_iff outside keygen sixth request databases started⟩

/-- The record has status `Success` although the key was never stored and an error is reported. -/
theorem failed_keygen_success :
    let r := (DoReq outside keygen).ran sixth 0 databases
    (∃ db' ∈ r.states, ¬ Sound outside keygen db') ∧
      (∃ report, r.result.1 = .error report) ∧ SuccessRecorded r.db := by
  intro r
  have recorded : SuccessRecorded r.db := ⟨request.merge (successCall worker
    ⟨['1', '2'], pubKeyData outside keygen worker ['1', '2'] ['s'], ['5'], some ['7']⟩), rfl, rfl⟩
  refine ⟨⟨r.db, ?_, fun sound => ?_⟩, ⟨putPubKeyFail outside, rfl⟩, recorded⟩
  · have last : r.states.getLast? = some r.db := rfl
    exact mem_of_getLast? last
  · obtain ⟨w, x, same_worker, key, stored⟩ := sound recorded
    have missing : r.db (.pubKey ['1', '2']) = none := rfl
    exact absurd (missing.symm.trans stored.pubKey) (by simp)

end Runs

end ThresholdDsa.Smpc.KeygenStatus
