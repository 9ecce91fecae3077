/-
# Signing one hash of an ED25519 command

`SignED` reads the message hash as hexadecimal text, makes an integer of the bytes,
lets a DNode run the signing rounds on that integer and returns the signature as
text.  The lookups that come before are fields of `SignEDCall`; what the other
signers send is arbitrary (`Inbox`).

The rounds hash the bytes of the integer, which has no leading zeros.  A returned
signature is for the bytes that the text encodes exactly if these do not start with
zero (`signED_signs_text_iff`).
-/
import ThresholdDsa.Eddsa.SigningHonest

namespace ThresholdDsa.Smpc.EdSign

open LittleEndian Outcome GoText Ed List
open Ec2 (intBytes setBytes head_intBytes intBytes_setBytes_iff)
open Eddsa.Signing

variable {n : ℕ}

/-- The bytes of a text. -/
def textBytes (text : Text) : List UInt8 := text.map fun c => UInt8.ofNat c.toNat

/-- The text after `0x` or `0X`. -/
def hexDigits : Text → Text
  | '0' :: 'x' :: rest => rest
  | '0' :: 'X' :: rest => rest
  | s => s

/-- `common.FromHex`: with a zero digit in front of an odd number of digits; what cannot be decoded
is dropped. -/
def FromHex (s : Text) : List UInt8 :=
  let digits := hexDigits s
  textBytes (hexDecodeBytes (if digits.length % 2 = 1 then '0' :: digits else digits))

/-- What `SignED` reads of its worker, of the key's records and of the group. -/
structure SignEDCall (n : ℕ) where
  /-- The worker id is in range. -/
  validID : Bool
  (groupid SmpcFrom : Text)
  /-- The `GroupID` of the record of a public key. -/
  GetPubKeyData : Text → Option Text
  sku1 : ℤ
  /-- The parts 2 and 3 of the saved text, 32 bytes each. -/
  saved : Option (Bytes32 × Bytes32)
  IDs : List ℤ
  CurDNodeID : ℤ
  idsign : Fin n → ℤ
  /-- The number that `GetNodeUID` gives the node. -/
  UID : ℕ

/-- The secret key filled up on the left, or its first 32 bytes. -/
def skBytes (sku1 : ℤ) : Bytes32 :=
  let va := intBytes sku1
  fun i => (List.replicate (32 - va.length) 0 ++ va).getD i.val 0

/-- The DNode for a hash. -/
def SignEDCall.dnode (call : SignEDCall n) (tsk pkfinal : Bytes32) (message : Text) : SignBase n where
  save := { Sk := skBytes call.sku1, Pk := scZero, TSk := tsk, FinalPkBytes := pkfinal,
            IDs := call.IDs, CurDNodeID := call.CurDNodeID }
  idsign := call.idsign
  kgid := hexEncode (itoa call.UID)
  txhash := some (setBytes (FromHex message))

def byteText (bytes : List UInt8) : Text := bytes.map fun b => Char.ofNat b.toNat

def SignED (O : EdOps) (verify : VerifyRoutine) (call : SignEDCall n) (message : Text)
    (draws : SignerDraws) (inbox : Inbox n) : Outcome Text := do
  require call.validID "smpc back-end internal error:get worker id fail"
  require (call.groupid ≠ []) "get group id fail"
  let smpcpks ← orError "encoding/hex: invalid" (hexDecode call.SmpcFrom)
  let GroupID ← orError "ed sign get local save data fail" (call.GetPubKeyData smpcpks)
  require (GroupID ≠ []) "ed sign get local save data fail"
  let (tsk, pkfinal) ← deref call.saved
  let edrs ← runDNode O verify (call.dnode tsk pkfinal message) draws inbox
  pure (hexEncode (byteText (slice edrs.Rx ++ slice edrs.Sx)))

/-! ## What a returned text signs -/

/-- The text holds a signature that satisfies the equation for `message`. -/
def Signs (O : EdOps) (pkfinal : Bytes32) (message : List UInt8) (sig : Text) : Prop :=
  ∃ Rx Sx : Bytes32, sig = hexEncode (byteText (slice Rx ++ slice Sx)) ∧
    EdVerify O Rx Sx message pkfinal = true

theorem byteText_injective : Function.Injective byteText := by
  refine map_injective_iff.mpr fun a b same => ?_
  have numbers := congrArg Char.toNat same
  rw [toNat_byteChar, toNat_byteChar] at numbers
  exact UInt8.toNat_inj.mp numbers

theorem toNat_lt_of_mem_byteText {bytes : List UInt8} {c : Char} (mem : c ∈ byteText bytes) :
    c.toNat < 256 := by
  obtain ⟨b, -, rfl⟩ := mem_map.mp mem
  rw [toNat_byteChar]
  exact UInt8.toNat_lt b

/-- The text determines the signature. -/
theorem signature_of_text {R R' s s' : Bytes32}
    (same : hexEncode (byteText (slice R ++ slice s)) = hexEncode (byteText (slice R' ++ slice s'))) :
    R = R' ∧ s = s' := by
  have decoded : hexDecode (hexEncode (byteText (slice R ++ slice s))) =
      some (byteText (slice R ++ slice s)) := hexDecode_hexEncode fun _ => toNat_lt_of_mem_byteText
  rw [same, hexDecode_hexEncode fun _ => toNat_lt_of_mem_byteText, Option.some.injEq] at decoded
  obtain ⟨first, second⟩ := append_inj (byteText_injective decoded) (by simp [slice])
  exact ⟨(ofFn_injective first).symm, (ofFn_injective second).symm⟩

/-- What `SignED` returns has passed `EdVerify` for the bytes of the integer. -/
theorem signs_of_signED {O : EdOps} {verify : VerifyRoutine} {call : SignEDCall n} {message : Text}
    {draws : SignerDraws} {inbox : Inbox n} {sig : Text}
    (returned : SignED O verify call message draws inbox = .ok sig) :
    ∃ tsk pkfinal, call.saved = some (tsk, pkfinal) ∧
      Signs O pkfinal (intBytes (setBytes (FromHex message))) sig := by
  simp only [SignED, eq_ok] at returned
  obtain ⟨-, -, -, -, smpcpks, -, GroupID, -, -, -, ⟨tsk, pkfinal⟩, saved, edrs, run, rfl⟩ := returned
  obtain ⟨txhash, given, verified⟩ := edVerify_of_runDNode run
  obtain rfl : setBytes (FromHex message) = txhash := Option.some.inj given
  exact ⟨tsk, pkfinal, saved, edrs.Rx, edrs.Sx, rfl, verified⟩

/-! ## Leading zeros -/

/-- The call at the first of two signers. -/
def pairCall : SignEDCall 2 where
  validID := true
  groupid := ['g']
  SmpcFrom := []
  GetPubKeyData _ := some ['g']
  sku1 := 0
  saved := some (scOne, scOne)
  IDs := [1, 2]
  CurDNodeID := (1 : ℕ)
  idsign k := (k.val + 1 : ℕ)
  UID := 1

theorem skBytes_zero : skBytes 0 = scZero := by
  funext i
  have empty : intBytes 0 = [] := rfl
  simp only [skBytes, empty, length_nil, append_nil, Nat.sub_zero, scZero]
  rw [getD_eq_getElem?_getD, getElem?_replicate]
  simp

theorem dnode_pairCall (message : Text) :
    pairCall.dnode scOne scOne message = pairBase (setBytes (FromHex message)) ⟨0, Nat.succ_pos 1⟩ := by
  simp only [SignEDCall.dnode, pairCall, skBytes_zero, pairBase]

/-- A signature of two honest signers for a text whose bytes start with zero. -/
theorem signED_pair {message : Text} (first : (FromHex message).head? = some 0) :
    ∃ (inbox : Inbox 2) (sig : Text),
      SignED (EdOps.residueOps markHash) (ownVerify (EdOps.residueOps markHash)) pairCall message
        zeroDraws inbox = .ok sig ∧
      ¬ Signs (EdOps.residueOps markHash) scOne (FromHex message) sig := by
  obtain ⟨tr, returned, R, s, reduced, signed, unsatisfied⟩ := pair_signs (setBytes (FromHex message))
  have run := runDNode_of_runSigning
    (getDNodeIDIndex_eq (signers_pairBase markHash (setBytes (FromHex message)))) returned
    ⟨0, Nat.succ_pos 1⟩
  rw [signed] at run
  refine ⟨tr.inbox, hexEncode (byteText (slice ((EdOps.residueModel markHash).encode R) ++ slice s)),
    ?_, ?_⟩
  · simp only [SignED, eq_ok]
    refine ⟨(), rfl, (), rfl, [], rfl, ['g'], rfl, (), rfl, (scOne, scOne), rfl,
      { Rx := (EdOps.residueModel markHash).encode R, Sx := s }, ?_, rfl⟩
    rw [dnode_pairCall]
    exact run
  · rintro ⟨Rx, Sx, text_eq, verified⟩
    obtain ⟨rfl, rfl⟩ := signature_of_text text_eq
    have key := (EdOps.encode_mult_one markHash).symm
    rw [key, edVerify_iff (EdOps.residueModel markHash) _ _ _ reduced, ← key] at verified
    exact unsatisfied _ first verified

/-- The text `00` encodes one zero byte; the signature returned for it is not for that byte. -/
theorem signED_drops_zero :
    ∃ (inbox : Inbox 2) (sig : Text),
      SignED (EdOps.residueOps markHash) (ownVerify (EdOps.residueOps markHash)) pairCall ['0', '0']
        zeroDraws inbox = .ok sig ∧
      ¬ Signs (EdOps.residueOps markHash) scOne [0] sig := by
  have zero : FromHex ['0', '0'] = [0] := by decide
  have first : (FromHex ['0', '0']).head? = some 0 := by decide
  have failing := signED_pair first
  rwa [zero] at failing

/-- **What `SignED` signs.**  Whatever the other signers send, a returned signature is for the bytes
that the text encodes, for every hash and curve, exactly if these bytes do not start with zero. -/
theorem signED_signs_text_iff (message : Text) :
    (∀ (O : EdOps) (E : Type) (_ : AddCommGroup E) (G : O.Model E) (verify : VerifyRoutine),
      Accepts G verify → ∀ (n : ℕ) (call : SignEDCall n) (draws : SignerDraws) (inbox : Inbox n)
        (sig : Text), SignED O verify call message draws inbox = .ok sig →
        ∃ tsk pkfinal, call.saved = some (tsk, pkfinal) ∧ Signs O pkfinal (FromHex message) sig) ↔
      (FromHex message).head? ≠ some 0 := by
  constructor
  · intro all first
    obtain ⟨inbox, sig, returned, unsigned⟩ := signED_pair first
    obtain ⟨tsk, pkfinal, saved, signs⟩ := all _ _ _ (EdOps.residueModel markHash) _
      (accepts_edVerify _) _ _ _ _ _ returned
    obtain ⟨rfl, rfl⟩ := Prod.mk.inj (Option.some.inj saved)
    exact unsigned signs
  · intro first O E _ G verify _ n call draws inbox sig returned
    obtain ⟨tsk, pkfinal, saved, signs⟩ := signs_of_signED returned
    rw [(intBytes_setBytes_iff _).mpr first] at signs
    exact ⟨tsk, pkfinal, saved, signs⟩

end ThresholdDsa.Smpc.EdSign
