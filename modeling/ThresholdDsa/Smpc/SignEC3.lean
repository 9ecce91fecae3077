/-
# One signature, from the stored data to its text

A SignData request asks for the signature of one hash.  Its handler derives the
public key of the input code and calls `SignEC3`, which looks up key data and share
under that public key, runs the rounds, checks the signature they give (`Verify2`)
and writes it as a text of hexadecimal digits.

The rounds are a parameter: they give `s`, or fail.  So is the recovery id, which
the code takes from the curve library.
-/
import ThresholdDsa.Smpc.ChildKey
import ThresholdDsa.Smpc.PreSignData

namespace ThresholdDsa.Smpc.Finalize

open Outcome GoText Ec2 Secp256k1 ChildKey List

/-! ## The text of a signature -/

/-- `%02X` of each byte. -/
def ToolDecimalByteSlice2HexString (bytes : Bytes) : Text :=
  bytes.flatMap fun b =>
    [(Nat.digitChar (b.toNat / 16)).toUpper, (Nat.digitChar (b.toNat % 16)).toUpper]

/-- The bytes of `r`, `s` and `v`; one missing byte is filled up if the other number has 31 or 32. -/
def signBytes (r s v : ℤ) : Bytes :=
  let rr := (intBytes r).length
  let sss := (intBytes s).length
  let last := [UInt8.ofNat (v % 256).toNat]
  if rr = 31 ∧ sss = 32 then 0 :: readBits 31 r.natAbs ++ readBits 32 s.natAbs ++ last
  else if rr = 31 ∧ sss = 31 then 0 :: readBits 31 r.natAbs ++ 0 :: readBits 31 s.natAbs ++ last
  else if rr = 32 ∧ sss = 31 then readBits 32 r.natAbs ++ 0 :: readBits 31 s.natAbs ++ last
  else readBits rr r.natAbs ++ readBits sss s.natAbs ++ last

def GetSignString (r s v : ℤ) : Text := ToolDecimalByteSlice2HexString (signBytes r s v)

/-- The sixteen characters of the text. -/
def hexChars : Text := "0123456789ABCDEF".toList

theorem upper_digitChar_mem {n : ℕ} (small : n < 16) : (Nat.digitChar n).toUpper ∈ hexChars := by
  interval_cases n <;> decide

theorem mem_hexChars_of_getSignString {r s v : ℤ} {c : Char} (mem : c ∈ GetSignString r s v) :
    c ∈ hexChars := by
  obtain ⟨b, -, digit⟩ := mem_flatMap.mp mem
  have small := b.toNat_lt
  rcases mem_pair.mp digit with rfl | rfl
  · exact upper_digitChar_mem (by omega)
  · exact upper_digitChar_mem (Nat.mod_lt _ (by decide))

theorem colon_notMem_getSignString (r s v : ℤ) : ':' ∉ GetSignString r s v := by
  intro mem
  have := mem_hexChars_of_getSignString mem
  revert this
  decide

theorem length_intBytes_le_iff {x : ℤ} {k : ℕ} (nonneg : 0 ≤ x) :
    (intBytes x).length ≤ k ↔ x < 256 ^ k := by
  rw [intBytes, length_map, length_reverse, Nat.digits_length_le_iff (by decide)]
  zify
  rw [abs_of_nonneg nonneg]

/-- The text has 130 digits unless `r` or `s` is two bytes short or more. -/
theorem length_getSignString_iff {r s v : ℤ} (r_pos : 0 ≤ r) (r_lt : r < 256 ^ 32) (s_pos : 0 ≤ s)
    (s_lt : s < 256 ^ 32) :
    (GetSignString r s v).length = 130 ↔ 256 ^ 30 ≤ r ∧ 256 ^ 30 ≤ s := by
  have r_le := (length_intBytes_le_iff r_pos).mpr r_lt
  have s_le := (length_intBytes_le_iff s_pos).mpr s_lt
  have r_short := not_congr (length_intBytes_le_iff (k := 30) r_pos)
  have s_short := not_congr (length_intBytes_le_iff (k := 30) s_pos)
  rw [not_lt] at r_short s_short
  have digits : (GetSignString r s v).length = 2 * (signBytes r s v).length := by
    simp [GetSignString, ToolDecimalByteSlice2HexString, mul_comm]
  rw [digits, ← r_short, ← s_short]
  unfold signBytes
  simp only
  split
  · simp only [length_append, length_cons, length_readBits, length_nil, true_iff]
    omega
  split
  · simp only [length_append, length_cons, length_readBits, length_nil, true_iff]
    omega
  · split
    · simp only [length_append, length_cons, length_readBits, length_nil, true_iff]
      omega
    · simp only [length_append, length_cons, length_readBits, length_nil]
      omega

theorem getSignString_ne_nil (r s v : ℤ) : GetSignString r s v ≠ [] := by
  have bytes : signBytes r s v ≠ [] := by
    unfold signBytes
    simp only
    split
    · simp
    · split
      · simp
      · split <;> simp
  obtain ⟨b, rest, eq⟩ := exists_cons_of_ne_nil bytes
  rw [GetSignString, eq]
  simp [ToolDecimalByteSlice2HexString]

/-! ## Checking a signature -/

def hexNumber : Text → Option ℕ
  | [] => none
  | text => text.foldlM (fun acc c => (hexDigit c).map (16 * acc + ·)) 0

/-- `new(big.Int).SetString(text, 16)`. -/
def setString16 : Text → Option ℤ
  | '-' :: rest => (hexNumber rest).map fun n => -(n : ℤ)
  | '+' :: rest => (hexNumber rest).map fun n => (n : ℤ)
  | text => (hexNumber text).map fun n => (n : ℤ)

def IsInfinityPoint (p : ℤ × ℤ) : Bool := p.1 = 0 ∧ p.2 ≠ 0

/-- The recovery id is not looked at. -/
def Verify2 (S : CurveOps) (r s : ℤ) (message : Text) (pk : ℤ × ℤ) : Outcome Bool :=
  if message = [] then pure false
  else if ¬ S.IsOnCurve pk then pure false
  else if IsInfinityPoint pk then pure false
  else if r < 1 ∨ (S.N : ℤ) - 1 < r then pure false
  else if s < 1 ∨ (S.N : ℤ) - 1 < s then pure false
  else
    match BigInt.modInverse s S.N with
    | none => pure false
    | some ss => do
      let z ← deref (setString16 message)
      let u1 := z * ss % S.N
      let u2 := r * ss % S.N
      let ug ← deref (S.ScalarBaseMult u1.natAbs)
      let upk ← deref (S.ScalarMult pk u2.natAbs)
      let sum ← deref (S.Add ug upk)
      pure (sum.1 % S.N = r)

theorem verify2_range {S : CurveOps} {r s : ℤ} {message : Text} {pk : ℤ × ℤ}
    (verified : Verify2 S r s message pk = .ok true) :
    (1 ≤ r ∧ r ≤ S.N - 1) ∧ 1 ≤ s ∧ s ≤ S.N - 1 := by
  unfold Verify2 at verified
  split at verified
  · cases verified
  split at verified
  · cases verified
  · split at verified
    · cases verified
    · split at verified
      · cases verified
      · split at verified
        · cases verified
        · omega

/-- The text is a signature of the hash for the public key. -/
def IsSignature (S : CurveOps) (pk : ℤ × ℤ) (message sig : Text) : Prop :=
  ∃ r s v, Verify2 S r s message pk = .ok true ∧ sig = GetSignString r s v

/-! ## `SignEC3` -/

/-- A SignData request.  `GroupID` is the group of the worker that makes it. -/
structure SignData extends ChildKey.SignData where
  (MsgPrex Save Txhash GroupID Keytype : Text)
  Pre : PreSignData

/-- The rounds of `SignEC3`, from key data, share and public key; `none` is a failure or a timeout. -/
abbrev Rounds := ChildKey.PubKeyData → (sku1 : ℤ) → (pk : ℤ × ℤ) → SignData → Option ℤ

/-- The curve, HMAC-SHA512 and the recovery id of `r`, its second coordinate and `s`. -/
structure Prims where
  S : CurveOps
  hmac : Bytes → Bytes → Bytes
  recid : (r ry s : ℤ) → (pk : ℤ × ℤ) → (hashBytes : Bytes) → (invert : Bool) → ℤ

section SignEC3

variable (P : Prims)

def ETH : Text := "ETH".toList
def BTC : Text := "BTC".toList

/-- From `s` to the text: the smaller of `s` and `N - s`, the recovery id, the check. -/
def finish (sd : SignData) (pk : ℤ × ℤ) (hashBytes : Bytes) (s : ℤ) : Outcome Text := do
  let bb : Bool := (P.S.N : ℤ) / 2 < s
  let s := if bb then P.S.N - s else s
  require (s ≠ 0) "s == 0"
  let invert := (sd.Keytype = ETH ∨ sd.Keytype = BTC) ∧ bb
  let recid := P.recid sd.Pre.R sd.Pre.Ry s pk hashBytes invert
  let verified ← Verify2 P.S sd.Pre.R s sd.Txhash pk
  require verified "sign verify fail"
  pure (GetSignString sd.Pre.R s recid)

def SignEC3 (db : KeyDb) (sd : SignData) (childPK : Option (ℤ × ℤ)) (rounds : Rounds) :
    Outcome Text := do
  require (sd.GroupID ≠ []) "get group id fail"
  let hashBytes ← orError "encoding/hex" (hexBytes sd.Txhash)
  let pk ← deref childPK
  let da ← orError "sign get local pubkey data fail" (db.pubKey (Marshal pk))
  let pubs ← orError "presign get local save data fail" (da.pubKeyData.filter (·.GroupID ≠ []))
  let da2 ← orError "sign get sku1 fail" (db.skU1 (Marshal pk))
  let s ← orError "process sign fail" (rounds pubs (setBytes da2) pk sd)
  finish P sd pk hashBytes s

/-- Up to `recalcTimes` attempts; the text of the first that succeeds. -/
def recalc (attempts : List (Outcome Text)) : Outcome Text :=
  match attempts with
  | [] => .error (.error "sign fail")
  | .ok ret :: rest => if ret ≠ [] then .ok ret else recalc rest
  | .error .panic :: _ => .error .panic
  | .error _ :: rest => recalc rest

/-- The SignData branch of `DoReq`, up to handing the signature to the worker of the command. -/
def doSignData (db : KeyDb) (sd : SignData) (attempts : List Rounds) : Outcome Text := do
  let childPK ← signChild P.S P.hmac db sd.toSignData
  recalc (attempts.map fun rounds => SignEC3 P db sd childPK rounds)

end SignEC3

section Results

variable {P : Prims} {db : KeyDb} {sd : SignData}

/-- The smaller of `s` and `N - s`. -/
def lowS (S : CurveOps) (s : ℤ) : ℤ := if (S.N : ℤ) / 2 < s then S.N - s else s

variable {sig : Text} {pk : ℤ × ℤ} {rounds : Rounds} {s : ℤ}

theorem finish_eq_ok {hashBytes : Bytes} (finished : finish P sd pk hashBytes s = .ok sig) :
    Verify2 P.S sd.Pre.R (lowS P.S s) sd.Txhash pk = .ok true ∧
      ∃ v, sig = GetSignString sd.Pre.R (lowS P.S s) v := by
  simp only [finish, eq_ok, decide_eq_true_eq] at finished
  obtain ⟨-, -, verified, check, -, passed, rfl⟩ := finished
  rw [passed] at check
  exact ⟨check, _, rfl⟩

theorem finish_returns (verified : Verify2 P.S sd.Pre.R (lowS P.S s) sd.Txhash pk = .ok true)
    (hashBytes : Bytes) :
    ∃ sig, finish P sd pk hashBytes s = .ok sig := by
  have nonzero : lowS P.S s ≠ 0 := by
    have := (verify2_range verified).2.1
    omega
  unfold lowS at verified nonzero
  simp only [finish, decide_eq_true_eq, require, verified, nonzero, ne_eq, not_false_eq_true,
    decide_true, if_true, ok_bind]
  exact ⟨_, rfl⟩

/-- What `SignEC3` has found and checked when it returns. -/
structure Made (P : Prims) (db : KeyDb) (sd : SignData) (pk : ℤ × ℤ) (rounds : Rounds) (sig : Text) :
    Prop where
  group : sd.GroupID ≠ []
  key : ∃ pubs da2 s, db.pubKey (Marshal pk) = some (.pubKey pubs) ∧ pubs.GroupID ≠ [] ∧
    db.skU1 (Marshal pk) = some da2 ∧ rounds pubs (setBytes da2) pk sd = some s ∧
    Verify2 P.S sd.Pre.R (lowS P.S s) sd.Txhash pk = .ok true ∧
    ∃ v, sig = GetSignString sd.Pre.R (lowS P.S s) v

theorem Made.isSignature (made : Made P db sd pk rounds sig) :
    IsSignature P.S pk sd.Txhash sig := by
  obtain ⟨-, -, s, -, -, -, -, verified, v, eq⟩ := made.key
  exact ⟨_, _, v, verified, eq⟩

theorem signEC3_eq_ok {childPK : Option (ℤ × ℤ)} (signed : SignEC3 P db sd childPK rounds = .ok sig) :
    ∃ pk, childPK = some pk ∧ Made P db sd pk rounds sig := by
  simp only [SignEC3, eq_ok, decide_eq_true_eq] at signed
  obtain ⟨-, group, hashBytes, -, pk, child, da, stored, pubs, pubs_eq, da2, share, s, given, finished⟩ :=
    signed
  obtain ⟨read, key_group⟩ := Option.filter_eq_some_iff.mp pubs_eq
  cases da with
  | other => cases read
  | pubKey pd =>
    cases read
    obtain ⟨verified, text⟩ := finish_eq_ok finished
    exact ⟨pk, child, group, pubs, da2, s, stored, of_decide_eq_true key_group, share, given, verified,
      text⟩

theorem signEC3_returns {hashBytes da2 : Bytes} {pubs : ChildKey.PubKeyData}
    (group : sd.GroupID ≠ []) (hash : hexBytes sd.Txhash = some hashBytes)
    (stored : db.pubKey (Marshal pk) = some (.pubKey pubs)) (key_group : pubs.GroupID ≠ [])
    (share : db.skU1 (Marshal pk) = some da2) (given : rounds pubs (setBytes da2) pk sd = some s)
    (verified : Verify2 P.S sd.Pre.R (lowS P.S s) sd.Txhash pk = .ok true) :
    ∃ sig, SignEC3 P db sd (some pk) rounds = .ok sig := by
  obtain ⟨sig, finished⟩ := finish_returns verified hashBytes
  refine ⟨sig, ?_⟩
  simp [SignEC3, require, group, hash, stored, share, given, deref, orError,
    ChildKey.Value.pubKeyData, Option.filter_some, key_group, ok_bind, finished]

theorem recalc_eq_ok {attempts : List (Outcome Text)} (done : recalc attempts = .ok sig) :
    .ok sig ∈ attempts := by
  induction attempts with
  | nil => cases done
  | cons first rest ih =>
    rcases first with (text | _) | ret
    · exact mem_cons_of_mem _ (ih done)
    · cases done
    · rw [recalc] at done
      split at done
      · cases done
        exact mem_cons_self
      · exact mem_cons_of_mem _ (ih done)

theorem doSignData_eq_ok {attempts : List Rounds} (done : doSignData P db sd attempts = .ok sig) :
    ∃ childPK, ∃ rounds ∈ attempts, signChild P.S P.hmac db sd.toSignData = .ok childPK ∧
      SignEC3 P db sd childPK rounds = .ok sig := by
  simp only [doSignData, bind_eq_ok] at done
  obtain ⟨childPK, child, tried⟩ := done
  obtain ⟨rounds, mem, signed⟩ := mem_map.mp (recalc_eq_ok tried)
  exact ⟨childPK, rounds, mem, child, signed⟩

/-- The first attempt is enough. -/
theorem doSignData_returns {childPK : Option (ℤ × ℤ)} {rest : List Rounds}
    (child : signChild P.S P.hmac db sd.toSignData = .ok childPK)
    (signed : SignEC3 P db sd childPK rounds = .ok sig) :
    doSignData P db sd (rounds :: rest) = .ok sig := by
  obtain ⟨_, -, made⟩ := signEC3_eq_ok signed
  obtain ⟨-, -, _, -, -, -, -, -, v, text⟩ := made.key
  have written : sig ≠ [] := by
    rw [text]
    exact getSignString_ne_nil _ _ v
  simp [doSignData, child, ok_bind, signed, recalc, written]

end Results

end ThresholdDsa.Smpc.Finalize
