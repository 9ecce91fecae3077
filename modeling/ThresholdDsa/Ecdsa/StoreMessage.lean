/-
# Collecting the messages of key generation and signing

`StoreMessage` of the key-generation and of the signing node.  Each branch is the
slot store of its own list, except round 0 of key generation, which appends.  The
slot is the `FromIndex` of the message.  Round 1 also copies the Paillier key into
the save data, round 4 first checks the proofs about `Ntilde` and then copies
`Ntilde`, and round 5 of signing checks the proof about `T`.

`storeMessage_eq` puts each switch into the form of `SlotStore.Rules`.
-/
import ThresholdDsa.Lib.SlotStore
import ThresholdDsa.Ecdsa.KeygenRounds
import ThresholdDsa.Ecdsa.SigningRounds

namespace ThresholdDsa.Ecdsa

open Outcome SlotStore Ec2

variable {n : ℕ}

namespace Keygen

structure KGRound3Message1 where
  Y : ℤ

inductive KGBody where
  | round0
  | round1 (m : KGRound1Message)
  | round2 (m : KGRound2Message)
  | round21 (m : KGRound2Message1)
  | round22 (m : KGRound2Message2)
  | round3 (m : KGRound3Message)
  | round31 (m : KGRound3Message1)
  | round4 (m : KGRound4Message)
  | round5 (m : KGRound5Message)
  | round51 (m : KGRound5Message1)
  | round52 (m : KGRound5Message2)
  | round6 (m : KGRound6Message)

structure KGMessage where
  FromID : List Char
  FromIndex : ℤ
  body : KGBody

/-- The message lists with a slot for each node. -/
inductive KGList where
  | kgRound1Messages | kgRound2Messages | kgRound2Messages1 | kgRound2Messages2
  | kgRound3Messages | kgRound3Messages1 | kgRound4Messages
  | kgRound5Messages | kgRound5Messages1 | kgRound5Messages2 | kgRound6Messages
  deriving DecidableEq, Repr

/-- The list for each message type; round 0 has the list without slots. -/
def KGBody.list : KGBody → Option KGList
  | .round0 => none
  | .round1 _ => some .kgRound1Messages
  | .round2 _ => some .kgRound2Messages
  | .round21 _ => some .kgRound2Messages1
  | .round22 _ => some .kgRound2Messages2
  | .round3 _ => some .kgRound3Messages
  | .round31 _ => some .kgRound3Messages1
  | .round4 _ => some .kgRound4Messages
  | .round5 _ => some .kgRound5Messages
  | .round51 _ => some .kgRound5Messages1
  | .round52 _ => some .kgRound5Messages2
  | .round6 _ => some .kgRound6Messages

def kgLabels : Labels KGMessage KGList (List Char) where
  kind m := m.body.list
  id m := m.FromID
  index m := m.FromIndex

/-- The fields of the save data that `StoreMessage` fills. -/
structure KGData (n : ℕ) where
  U1PaillierPk : Fin n → Option PublicKey
  U1NtildeH1H2 : Fin n → Option NtildeH1H2

abbrev LocalDNode (n : ℕ) := Node KGMessage KGList (KGData n) n

def NewLocalDNode (n : ℕ) : LocalDNode n := ⟨Store.empty, ⟨fun _ => none, fun _ => none⟩⟩

variable (H : Hashes) (p : LocalDNode n) (msg : KGMessage)

/-- The check of the two proofs about `Ntilde`; `Mod` by zero panics. -/
def ntildeCheck (m : KGRound4Message) : Outcome Unit := do
  let H1 := m.U1NtildeH1H2.H1
  let H2 := m.U1NtildeH1H2.H2
  let Ntilde := m.U1NtildeH1H2.Ntilde
  let _ ← deref (if Ntilde = 0 then none else some ())
  let h1modn := H1 % Ntilde
  let h2modn := H2 % Ntilde
  require (!(h1modn = 0 || h2modn = 0)) "h1 or h2 is equal 0 mod Ntilde"
  require (!(h1modn = 1 || h2modn = 1)) "h1 or h2 is equal 1 mod Ntilde"
  require (!(h1modn = h2modn)) "h1 and h2 were equal mod Ntilde"
  let verified1 ← m.NtildeProof1.Verify H H1 H2 Ntilde
  require verified1 "ntilde zk proof check fail"
  let verified2 ← m.NtildeProof2.Verify H H2 H1 Ntilde
  require verified2 "ntilde zk proof check fail"

def keepPaillier (m : KGRound1Message) (index : Fin n) (data : KGData n) : KGData n :=
  { data with U1PaillierPk := Function.update data.U1PaillierPk index (some m.U1PaillierPk) }

def keepNtilde (m : KGRound4Message) (index : Fin n) (data : KGData n) : KGData n :=
  { data with U1NtildeH1H2 := Function.update data.U1NtildeH1H2 index (some m.U1NtildeH1H2) }

def storePlain (k : KGList) (p : LocalDNode n) (msg : KGMessage) : Outcome (LocalDNode n × Bool) :=
  storeSlot kgLabels k (pure ()) (fun _ data => data) p msg

def StoreMessage :
    Outcome (LocalDNode n × Bool) :=
  match msg.body with
  | .round0 => pure (storeQueue kgLabels p msg)
  | .round1 m => storeSlot kgLabels .kgRound1Messages (pure ()) (keepPaillier m) p msg
  | .round2 _ => storePlain .kgRound2Messages p msg
  | .round21 _ => storePlain .kgRound2Messages1 p msg
  | .round22 _ => storePlain .kgRound2Messages2 p msg
  | .round3 _ => storePlain .kgRound3Messages p msg
  | .round31 _ => storePlain .kgRound3Messages1 p msg
  | .round4 m => storeSlot kgLabels .kgRound4Messages (ntildeCheck H m) (keepNtilde m) p msg
  | .round5 _ => storePlain .kgRound5Messages p msg
  | .round51 _ => storePlain .kgRound5Messages1 p msg
  | .round52 _ => storePlain .kgRound5Messages2 p msg
  | .round6 _ => storePlain .kgRound6Messages p msg

/-- The content check of a message. -/
def contentCheck : Outcome Unit :=
  match msg.body with
  | .round4 m => ntildeCheck H m
  | _ => pure ()

def kgRules (n : ℕ) : Rules KGMessage KGList (List Char) (KGData n) n where
  toLabels := kgLabels
  check := contentCheck H
  keep msg :=
    match msg.body with
    | .round1 m => keepPaillier m
    | .round4 m => keepNtilde m
    | _ => fun _ data => data

theorem storeMessage_eq :
    StoreMessage H p msg = (kgRules H n).store p msg := by
  obtain ⟨id, index, body⟩ := msg
  cases body <;> rfl

/-- `StoreMessage` called on the messages in order. -/
def storeAll (msgs : List KGMessage) : Outcome (LocalDNode n) :=
  msgs.foldlM (fun p msg => do
    let (p, _) ← StoreMessage H p msg
    pure p) p

theorem storeAll_eq (msgs : List KGMessage) :
    storeAll H p msgs = (kgRules H n).run p msgs := by
  simp only [storeAll, Rules.run, storeMessage_eq]

end Keygen

namespace Signing

inductive SignBody where
  | round1 (m : SignRound1Message)
  | round2 (m : SignRound2Message)
  | round3 (m : SignRound3Message)
  | round4 (m : SignRound4Message)
  | round41 (m : SignRound4Message1)
  | round5 (m : SignRound5Message)
  | round6 (m : SignRound6Message)
  | round7 (m : SignRound7Message)
  | round8 (m : SignRound8Message)
  | round9 (m : SignRound9Message)

structure SignMessage where
  FromID : List Char
  FromIndex : ℤ
  body : SignBody

inductive SignList where
  | signRound1Messages | signRound2Messages | signRound3Messages | signRound4Messages
  | signRound4Messages1 | signRound5Messages | signRound6Messages | signRound7Messages
  | signRound8Messages | signRound9Messages
  deriving DecidableEq, Repr

def SignBody.list : SignBody → SignList
  | .round1 _ => .signRound1Messages
  | .round2 _ => .signRound2Messages
  | .round3 _ => .signRound3Messages
  | .round4 _ => .signRound4Messages
  | .round41 _ => .signRound4Messages1
  | .round5 _ => .signRound5Messages
  | .round6 _ => .signRound6Messages
  | .round7 _ => .signRound7Messages
  | .round8 _ => .signRound8Messages
  | .round9 _ => .signRound9Messages

def signLabels : Labels SignMessage SignList (List Char) where
  kind m := some m.body.list
  id m := m.FromID
  index m := m.FromIndex

/-- A signing node copies nothing out of the messages. -/
abbrev LocalDNode (n : ℕ) := Node SignMessage SignList Unit n

def NewLocalDNode (n : ℕ) : LocalDNode n := ⟨Store.empty, ()⟩

variable (P : Primitives) (p : LocalDNode n) (msg : SignMessage)

def tproofCheck (m : SignRound5Message) : Outcome Unit := do
  let h ← P.CalcHPoint
  let verified ← TVerify P.S P.H m.T1 h m.Tpf
  require verified "verify tproof fail"

def storePlain (k : SignList) (p : LocalDNode n) (msg : SignMessage) :
    Outcome (LocalDNode n × Bool) :=
  storeSlot signLabels k (pure ()) (fun _ data => data) p msg

def StoreMessage :
    Outcome (LocalDNode n × Bool) :=
  match msg.body with
  | .round1 _ => storePlain .signRound1Messages p msg
  | .round2 _ => storePlain .signRound2Messages p msg
  | .round3 _ => storePlain .signRound3Messages p msg
  | .round4 _ => storePlain .signRound4Messages p msg
  | .round41 _ => storePlain .signRound4Messages1 p msg
  | .round5 m =>
    storeSlot signLabels .signRound5Messages (tproofCheck P m) (fun _ data => data) p msg
  | .round6 _ => storePlain .signRound6Messages p msg
  | .round7 _ => storePlain .signRound7Messages p msg
  | .round8 _ => storePlain .signRound8Messages p msg
  | .round9 _ => storePlain .signRound9Messages p msg

def contentCheck : Outcome Unit :=
  match msg.body with
  | .round5 m => tproofCheck P m
  | _ => pure ()

def signRules (n : ℕ) : Rules SignMessage SignList (List Char) Unit n where
  toLabels := signLabels
  check := contentCheck P
  keep _ _ data := data

theorem storeMessage_eq :
    StoreMessage P p msg = (signRules P n).store p msg := by
  obtain ⟨id, index, body⟩ := msg
  cases body <;> rfl

def storeAll (msgs : List SignMessage) :
    Outcome (LocalDNode n) :=
  msgs.foldlM (fun p msg => do
    let (p, _) ← StoreMessage P p msg
    pure p) p

theorem storeAll_eq (msgs : List SignMessage) :
    storeAll P p msgs = (signRules P n).run p msgs := by
  simp only [storeAll, Rules.run, storeMessage_eq]

end Signing

end ThresholdDsa.Ecdsa
