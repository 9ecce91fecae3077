/-
# The checks before a sign command is executed

`DoSign` checks the transaction, that its key is not in use and that its nonce is
the next one of the account; it then writes the nonce and the record of the
command.  In mode 0 it waits for the approvals of the group, in every other mode
it goes on at once.  The result is the command with which `sign` is called.

`mode_one_signs_iff`: none of the checks looks at who owns the public key, so in
mode 1 every account can have a key used; the command is its owner's exactly when
some check refuses it or the sender is the account of the key generation.
-/
import ThresholdDsa.Smpc.ApprovalWait

namespace ThresholdDsa.Smpc

open Outcome GoText

section DoSign

variable (E : Env) (db : Db)

/-! ## Nonces -/

/-- The nonce after the stored one, `0` where none is stored. -/
def nextNonce (key : Text) : Outcome Text :=
  match db.pubKey key with
  | none => pure ['0']
  | some (.bytes da) => do
    let nonce ← deref (setString10 da)
    pure (intText (nonce + 1))
  | some _ => .error (.error "get nonce fail,please provide an right account")

def signNonceKey (account : Text) : Text :=
  E.Keccak256Hash (E.ToLower (account ++ [':', 'S', 'i', 'g', 'n']))

def GetSignNonce (account : Text) : Outcome Text :=
  if account = [] then .error (.error "invalid account") else nextNonce db (signNonceKey E account)

def reqAddrNonceKey (account : Text) : Text := E.Keccak256Hash (E.ToLower account)

def GetReqAddrNonce (account : Text) : Outcome Text :=
  if account = [] then .error (.error "get nonce fail,please provide an account")
  else nextNonce db (reqAddrNonceKey E account)

/-- The nonce of the command is the next one.  The error of `GetSignNonce` is dropped; the empty
text it leaves is no number, and comparing with it panics. -/
def checkNonce (current : Outcome Text) (nonce : ℕ) : Outcome Unit :=
  match current with
  | .error _ => .error .panic
  | .ok text => do
    let curnoncenum ← deref (setString10 text)
    require ((nonce : ℤ) = curnoncenum) "check nonce fail"

theorem checkNonce_eq_ok {current : Outcome Text} {nonce : ℕ} :
    checkNonce current nonce = .ok () ↔
      ∃ text, current = .ok text ∧ setString10 text = some (nonce : ℤ) := by
  cases current with
  | error fault => simp [checkNonce]
  | ok text =>
    simp only [checkNonce, eq_ok, decide_eq_true_eq, Except.ok.injEq, exists_eq_left']
    constructor
    · rintro ⟨n, n_eq, rfl⟩
      exact n_eq
    · exact fun text_eq => ⟨_, text_eq, rfl⟩

/-! ## `DoSign` -/

/-- A sign command on its way to `sign`. -/
structure SignJob where
  (key sender : Text)
  sig : TxDataSign
  deriving DecidableEq

def signRecord (sender : Text) (sig : TxDataSign) : AcceptSignData where
  Account := sender
  GroupID := sig.GroupID
  PubKey := sig.PubKey
  Mode := sig.Mode
  Deal := ['f', 'a', 'l', 's', 'e']
  Status := ['P', 'e', 'n', 'd', 'i', 'n', 'g']

/-- `SetSignNonce` and `SaveAcceptSignData`. -/
def writeCommand (tx : Tx) (sig : TxDataSign) (key : Text) : Db :=
  (db.putPubKey (signNonceKey E tx.sender) (.bytes (itoa tx.Nonce))).putSignInfo key
    (.acceptSign (signRecord tx.sender sig))

/-- `wait` is how the approval wait of a command of mode 0 ends. -/
def DoSign (raw : Text) (sender : Enode) (wait : Phase) : Outcome (SignJob × Db) := do
  require (raw ≠ [] ∧ sender ≠ []) "do sign fail"
  let (key, tx) ← CheckRaw E db raw
  let sig ← orError "sign data error" tx.data.sign?
  require (db.signInfo key).isNone "the sign cmd has handled before"
  checkNonce (GetSignNonce E db tx.sender) tx.Nonce
  let written := writeCommand E db tx sig key
  if sig.Mode = mode0 then do
    require (GetReqAddrKeyByKey written key ≠ []) "get reqaddr key fail"
    require (acceptReqData written key).isSome "get reqaddr sigs data fail"
    require (wait = .past) "don't accept sign"
    pure (⟨key, tx.sender, sig⟩, written)
  else pure (⟨key, tx.sender, sig⟩, written)

/-- The checks that `DoSign` makes on a transaction, whatever the mode. -/
structure Accepted (tx : Tx) (sig : TxDataSign) (key : Text) : Prop where
  checked : checkSign E db tx.sender tx.Nonce sig = .ok key
  fresh : db.signInfo key = none
  next : ∃ text, GetSignNonce E db tx.sender = .ok text ∧ setString10 text = some (tx.Nonce : ℤ)

variable {E db} {raw : Text} {sender : Enode} {wait : Phase} {tx : Tx} {sig : TxDataSign}

theorem accepted_of_doSign {job : SignJob} {written : Db}
    (signs : DoSign E db raw sender wait = .ok (job, written)) :
    ∃ tx, E.decode raw = some tx ∧ tx.data = .sign job.sig ∧ job.sender = tx.sender ∧
      Accepted E db tx job.sig job.key ∧ (job.sig.Mode = mode0 → wait = .past) := by
  simp only [DoSign, eq_ok, Prod.exists] at signs
  obtain ⟨-, -, key, tx, checked, sig, sig_eq, -, fresh, _, next, rest⟩ := signs
  obtain ⟨decoded, checked⟩ := checkRaw_eq_ok.mp checked
  have data_eq : tx.data = .sign sig := by
    cases data : tx.data with
    | sign other => simpa [TxData.sign?, data] using sig_eq
    | _ => simp [TxData.sign?, data] at sig_eq
  rw [CheckTxData, data_eq] at checked
  have accepted : Accepted E db tx sig key :=
    ⟨checked, Option.isNone_iff_eq_none.mp fresh, checkNonce_eq_ok.mp next⟩
  split at rest
  · simp only [eq_ok, Prod.mk.injEq, decide_eq_true_eq] at rest
    obtain ⟨-, -, -, -, -, past, rfl, -⟩ := rest
    exact ⟨tx, decoded, data_eq, rfl, accepted, fun _ => past⟩
  · rename_i other
    simp only [pure_eq_ok, Prod.mk.injEq] at rest
    obtain ⟨rfl, -⟩ := rest
    exact ⟨tx, decoded, data_eq, rfl, accepted, fun mode => absurd mode other⟩

/-- Outside mode 0 the checks are all there is. -/
theorem doSign_of_accepted {key : Text} (decoded : E.decode raw = some tx)
    (data_eq : tx.data = .sign sig) (accepted : Accepted E db tx sig key) (raw_ne : raw ≠ [])
    (sender_ne : sender ≠ []) (mode : sig.Mode ≠ mode0) :
    ∃ job, DoSign E db raw sender wait = .ok job := by
  have checked : CheckRaw E db raw = .ok (key, tx) :=
    checkRaw_eq_ok.mpr ⟨decoded, by rw [CheckTxData, data_eq]; exact accepted.checked⟩
  have sig_eq : tx.data.sign? = some sig := by rw [data_eq]; rfl
  refine ⟨(⟨key, tx.sender, sig⟩, writeCommand E db tx sig key), ?_⟩
  simp only [DoSign, eq_ok, Prod.exists]
  refine ⟨(), by simp [raw_ne, sender_ne], key, tx, checked, sig, sig_eq, (), by
    simp [accepted.fresh], (), checkNonce_eq_ok.mpr accepted.next, ?_⟩
  rw [if_neg mode]
  rfl

theorem checkAccept_mode1 {pubkey account : Text} :
    CheckAccept E db pubkey mode1 account ↔ pubkey ≠ [] ∧ account ≠ [] ∧
      ∃ ac, keygenRecord db (hexDecodeBytes pubkey) = some ac ∧ ac.Mode = mode1 ∧
        E.folding.EqualFold account ac.Account := by
  have modes : mode1 ≠ mode0 := by decide
  have nonempty : mode1 ≠ [] := by decide
  simp [CheckAccept, Option.any_eq_true, modes, nonempty]

end DoSign

/-- **Who signs in mode 1.**  For a sign command of mode 1: if it is carried to `sign`, its sender
may use the public key, exactly when some check of `DoSign` refuses it or its sender is the account
of the key generation of that public key, made in mode 1. -/
theorem mode_one_signs_iff (E : Env) (db : Db) {raw : Text} {tx : Tx} {sig : TxDataSign}
    (decoded : E.decode raw = some tx) (command : tx.data = .sign sig) (mode : sig.Mode = mode1)
    (sender : Enode) (wait : Phase) :
    ((∃ job, DoSign E db raw sender wait = .ok job) →
        CheckAccept E db sig.PubKey mode1 tx.sender) ↔
      (raw = [] ∨ sender = [] ∨ ∀ key, ¬ Accepted E db tx sig key) ∨
        ∃ ac, keygenRecord db (hexDecodeBytes sig.PubKey) = some ac ∧ ac.Mode = mode1 ∧
          E.folding.EqualFold tx.sender ac.Account := by
  constructor
  · intro owned
    by_contra refused
    rw [not_or, not_or, not_or, not_forall] at refused
    obtain ⟨⟨raw_ne, sender_ne, key, accepted⟩, other⟩ := refused
    have not_mode0 : sig.Mode ≠ mode0 := by
      rw [mode]
      decide
    have signs : ∃ job, DoSign E db raw sender wait = .ok job :=
      doSign_of_accepted decoded command (not_not.mp accepted) raw_ne sender_ne not_mode0
    exact other (checkAccept_mode1.mp (owned signs)).2.2
  · rintro carried ⟨⟨job, written⟩, signs⟩
    obtain ⟨tx', decoded', data_eq, -, accepted, -⟩ := accepted_of_doSign signs
    obtain rfl := Option.some.inj (decoded.symm.trans decoded')
    obtain rfl : sig = job.sig := TxData.sign.inj (command.symm.trans data_eq)
    have params : tx.sender ≠ [] ∧ job.sig.PubKey ≠ [] := by
      have checked := accepted.checked
      simp only [checkSign, eq_ok, decide_eq_true_eq] at checked
      obtain ⟨-, ⟨sender_ne, pubkey_ne, -⟩, -⟩ := checked
      exact ⟨sender_ne, pubkey_ne⟩
    rcases carried with (raw_nil | sender_nil | refused) | owner
    · simp [DoSign, raw_nil, require, bind, Except.bind] at signs
    · simp [DoSign, sender_nil, require, bind, Except.bind] at signs
    · exact absurd accepted (refused job.key)
    · exact checkAccept_mode1.mpr ⟨params.2, params.1, owner⟩

/-! ## A public key of mode 1

The public key belongs to the account `1…1`; the text `c` is the sign command of the account
`c…c`. -/

section

open TwoNodes

def modeOneData : TxDataSign := { signData with Mode := mode1 }

def modeOneEnv : Env := { env with
  decode := fun
    | [c] => some ⟨account c, 0, .sign modeOneData⟩
    | _ => none }

def modeOneRecord : AcceptReqAddrData := { record with Mode := mode1, Sigs := [] }

def modeOneDb : Db where
  pubKey k :=
    if k = ['r'] then some (.acceptReqAddr modeOneRecord)
    else if k = [Char.ofNat 4] then some (.pubKey ⟨['r'], [Char.ofNat 4], mode1⟩)
    else none
  signInfo _ := none
  reqAddrInfo _ := none

theorem modeOne_accepted (c : Char) (mem : c ∈ ['1', '3']) :
    Accepted modeOneEnv modeOneDb ⟨account c, 0, .sign modeOneData⟩ modeOneData ['k'] where
  checked := by fin_cases mem <;> decide +kernel
  fresh := rfl
  next := ⟨['0'], by fin_cases mem <;> decide +kernel, setString10_itoa 0⟩

theorem modeOne_signs (c : Char) (mem : c ∈ ['1', '3']) :
    ∃ job, DoSign modeOneEnv modeOneDb [c] (node 'a') .waiting = .ok job := by
  apply doSign_of_accepted rfl rfl (modeOne_accepted c mem) (by simp)
  · decide
  · decide

/-- The command of the owner. -/
theorem mode_one_signs_owner :
    CheckAccept modeOneEnv modeOneDb modeOneData.PubKey mode1 (account '1') := by
  have owner : modeOneEnv.folding.EqualFold (account '1') modeOneRecord.Account :=
    modeOneEnv.folding.equalFold_refl _
  have decoded : modeOneEnv.decode ['1'] = some ⟨account '1', 0, .sign modeOneData⟩ := rfl
  exact (mode_one_signs_iff modeOneEnv modeOneDb decoded rfl rfl (node 'a') .waiting).mpr
    (.inr ⟨modeOneRecord, by decide +kernel, rfl, owner⟩) (modeOne_signs '1' (by decide))

/-- The command of another account is carried to `sign` as well. -/
theorem mode_one_signs_for_stranger :
    (∃ job, DoSign modeOneEnv modeOneDb ['3'] (node 'a') .waiting = .ok job) ∧
    modeOneEnv.decode ['3'] = some ⟨account '3', 0, .sign modeOneData⟩ ∧
    modeOneData.Mode = mode1 ∧
    ¬ CheckAccept modeOneEnv modeOneDb modeOneData.PubKey mode1 (account '3') :=
  ⟨modeOne_signs '3' (by decide), rfl, rfl, by decide +kernel⟩

end

end ThresholdDsa.Smpc
