/-
# Rounds 1 to 3 of the package `reshare`

The old parties of a key weight their shares, deal them anew and every party of the
new group adds up what it gets.  Each `Start` is a function of the party's data, of
its draws and of the messages in its slots; there are `T` slots, one for each index
in the list `idreshare` of the old parties.

A party has two places: its index in `idreshare`, from `GetDNodeIDIndex`, and its
index in `Save.IDs`, the sorted ids that `GetIDs` reads from round 0.  For the first
the party's id text, which `SetDNodeID` writes, is decoded from hexadecimal to decimal
digits; for the second, `indexInIDs`, rounds 2 to 5 read the same text as a decimal
number.
-/
import ThresholdDsa.Lib.SlotStore
import ThresholdDsa.Ecdsa.KeygenRounds

namespace ThresholdDsa.Ecdsa.Reshare

open BigInt Outcome Ec2 GoText SlotStore

variable {n m T : ℕ}

/-! ## Ids -/

def SetDNodeID (id : List Char) : List Char := hexEncode id

/-- The id text of the party with the given id. -/
def idTextOf (id : ℤ) : List Char := SetDNodeID (intText id)

/-- The ids of the round-0 messages. -/
def GetIDs (reshareRound0Messages : List (List Char)) : Outcome (List ℤ) := do
  let ids ← reshareRound0Messages.mapM Keygen.uidOf
  pure (ids.insertionSort (· ≤ ·))

/-- The index in the list of the old parties; the empty id has index `-1`, without an error. -/
def GetDNodeIDIndex (idreshare : List ℤ) (id : List Char) : Outcome ℤ :=
  if id = [] then pure (-1)
  else do
    let idtmp ← Keygen.uidOf id
    let k ← orError "get dnode index fail,no found in kgRound0Messages"
      (idreshare.findIdx? fun v => v = idtmp)
    pure k

/-- The search of rounds 2 to 5 for the place of an id in `Save.IDs`. -/
def indexInIDs (n : ℕ) (IDs : List ℤ) (id : ℤ) : Option (Fin n) :=
  (List.finRange n).find? fun k => IDs[k.val]? = some id

/-- The place that a party finds by its id text is another one than its own. -/
theorem place_ne {ids : Fin n → ℤ} {own c : Fin n} {id : ℤ}
    (read : setString10 (idTextOf (ids own)) = some id)
    (found : indexInIDs n (List.ofFn ids) id = some c) : c ≠ own := by
  rintro rfl
  have at_place := List.find?_some found
  rw [decide_eq_true_eq, List.getElem?_ofFn, dif_pos c.isLt, Option.some.injEq] at at_place
  rw [← at_place] at read
  exact setString10_hexEncode_intText_ne _ read

/-! ## Messages and what the rounds keep -/

structure ReRound1Message where
  ComC : ℤ

structure ReRound2Message where
  (ID Share : ℤ)

structure ReRound2Message1 where
  ComD : List ℤ
  SkP1PolyG : List (ℤ × ℤ)

structure ReRound3Message where
  U1PaillierPk : Option PublicKey
  deriving DecidableEq

structure Temp1 where
  (comd skP1Poly : List ℤ)
  skP1PolyG : List (ℤ × ℤ)

/-- The fields of `base` that hold ids. -/
structure ReBase where
  dnodeid : List Char
  idreshare : List ℤ
  /-- The senders of the round-0 messages, in the order of arrival. -/
  reshareRound0Messages : List (List Char)

/-- What an old party has beside the ids: `rnds` are the draws of the polynomial, `rnd` that of the
commitment. -/
structure OldNode where
  SkU1 : ℤ
  rnds : ℕ → ℤ
  rnd : ℤ

/-- The Paillier keys of an old node and its index among them, or the primes of new ones. -/
inductive PaillierKeys where
  | old (sk : PrivateKey) (pks : List PublicKey) (oldindex : ℕ)
  | fresh (p q : ℤ)

structure Saved where
  SkU1 : ℤ
  Pk : ℤ × ℤ
  paillier : Option (PublicKey × PrivateKey)
  deriving DecidableEq

/-! ## Round 1 -/

variable (P : Primitives)

/-- The results are what the party keeps, the slot of its message, and the message. -/
def round1Start (T n : ℕ) (b : ReBase) (o : OldNode) :
    Outcome (Temp1 × Fin T × ReRound1Message) := do
  require (!(T ≤ 1 || n < T)) "threshold value error"
  let index ← GetDNodeIDIndex b.idreshare b.dnodeid
  let self ← orError "round start fail,self uid is nil"
    (slotIndex b.idreshare.length index).toOption
  let lambda1 ← calcTimes P.S b.idreshare.get self
  let w1 := lambda1 * o.SkU1 % P.S.N
  let (skP1Poly, skP1PolyG) ← dropError (Vss2Init P.S w1 o.rnds T)
  let skP1G ← deref (P.S.ScalarBaseMult w1.natAbs)
  let commitSkP1G ← orError " Error generating commitment data in reshare round 1"
    (P.H.Commit o.rnd (Keygen.polySecrets skP1G skP1PolyG))
  let slot ← slotIndex T index
  pure ({ comd := commitSkP1G.D, skP1Poly, skP1PolyG }, slot, { ComC := commitSkP1G.C })

/-! ## Round 2 -/

/-- The messages of an old party in round 2: the share of each id, the place whose share stays in
the party's own slot, what is sent to all, and the slot of the messages. -/
structure Dealt (T n : ℕ) where
  curIndex : Fin n
  slot : Fin T
  shares : Fin n → ReRound2Message
  open1 : ReRound2Message1

def shareFor (shares : List ShareStruct2) (ids : List ℤ) (k : Fin n) : Outcome ReRound2Message := do
  let id ← deref ids[k.val]?
  let v ← deref (shares.find? fun v => v.ID = id)
  pure { ID := v.ID, Share := v.Share }

/-- Round 2 of an old party; the others only take `Save.IDs` from `GetIDs`. -/
def round2Start (T n : ℕ) (b : ReBase) (t1 : Temp1) : Outcome (Dealt T n) := do
  let ids ← GetIDs b.reshareRound0Messages
  let dul := (ContainsDuplicate ids).toOption.getD true
  require (!(dul || n < ids.length)) "node id error"
  let skP1Shares ← Vss2 P.S t1.skP1Poly ids
  let curIndexReshare ← GetDNodeIDIndex b.idreshare b.dnodeid
  let CurDNodeID ← deref (setString10 b.dnodeid)
  let curIndex ← orError "get current node index fail" (indexInIDs n ids CurDNodeID)
  let shares ← forRange (shareFor skP1Shares ids)
  let slot ← slotIndex T curIndexReshare
  pure { curIndex, slot, shares, open1 := { ComD := t1.comd, SkP1PolyG := t1.skP1PolyG } }

/-- What reaches the party at place `j`: the dealer, whose place is `own`, keeps the share for
`curIndex`; the others get the shares that were sent. -/
def Dealt.deliver (d : Dealt T n) (own j : Fin n) : Option ReRound2Message :=
  if j = own then some (d.shares d.curIndex)
  else if j = d.curIndex then none
  else some (d.shares j)

/-! ## Round 3 -/

/-- The messages in one slot. -/
structure Slot where
  msg1 : ReRound1Message
  msg2 : ReRound2Message
  msg21 : ReRound2Message1

def Slot.deCommit (s : Slot) : Commitment := { C := s.msg1.ComC, D := s.msg21.ComD }

def round3Check (msg1 : Option ReRound1Message) (msg2 : Option ReRound2Message)
    (msg21 : Option ReRound2Message1) : Outcome Slot := do
  let msg2 ← orError "round.Start get round2 msg fail" msg2
  let msg21 ← orError "round.Start get round2-1 msg fail" msg21
  let ushare : ShareStruct2 := { ID := msg2.ID, Share := msg2.Share }
  let verified ← ushare.Verify2 P.S msg21.SkP1PolyG
  require verified "verify share data fail"
  let msg1 ← orError "round.Start get round1 msg fail" msg1
  require (P.H.Verify P.S { C := msg1.ComC, D := msg21.ComD }) "verify commitment fail"
  pure { msg1, msg2, msg21 }

/-- The first point of the opened commitment. -/
def round3Open (s : Slot) : Outcome (ℤ × ℤ) := do
  let u1G ← deref (P.H.DeCommit P.S s.deCommit)
  let x ← deref u1G[0]?
  let y ← deref u1G[1]?
  pure (x, y)

def PaillierKeys.take : PaillierKeys → Outcome (Option (PublicKey × PrivateKey))
  | .old sk pks oldindex => do
    let pk ← deref pks[oldindex]?
    pure (some (pk, sk))
  | .fresh p q => pure (GenerateKeyPair p q)

/-- The party starts the round when its slots are full; with an empty one it would return an
error.  An error of the search comes after `Save.SkU1` and `Save.Pk` are set. -/
def round3Start (n : ℕ) (IDs : List ℤ) (dnodeid : List Char) (keys : PaillierKeys)
    (msgs1 : Fin T → Option ReRound1Message) (msgs2 : Fin T → Option ReRound2Message)
    (msgs21 : Fin T → Option ReRound2Message1) : Outcome (Saved × ReRound3Message) := do
  let slots ← forRange fun k => round3Check P (msgs1 k) (msgs2 k) (msgs21 k)
  let Pk ← P.S.sumRange fun k => round3Open P (slots k)
  let SkU1 := (List.ofFn fun k => (slots k).msg2.Share).sum % P.S.N
  let idtmp ← orError "get id big number fail" (setString10 dnodeid)
  let _ ← orError "get cur index fail" (indexInIDs n IDs idtmp)
  let paillier ← keys.take
  pure ({ SkU1, Pk, paillier }, { U1PaillierPk := paillier.map (·.1) })

/-! ## The run -/

/-- The parties of the new group, numbered by their place among the sorted ids, and the old parties
among them. -/
structure Resharing (m n : ℕ) where
  ids : Fin n → ℤ
  sorted : Monotone ids
  /-- The order in which a party has got the messages of round 0. -/
  arrival : Fin n → List (Fin n)
  complete : ∀ j, (arrival j).Perm (List.finRange n)
  keys : Fin n → PaillierKeys
  old : Fin m → OldNode
  /-- The place of an old party in the new group. -/
  own : Fin m → Fin n
  idreshare : List ℤ

def Resharing.base (r : Resharing m n) (j : Fin n) : ReBase where
  dnodeid := idTextOf (r.ids j)
  idreshare := r.idreshare
  reshareRound0Messages := (r.arrival j).map fun k => idTextOf (r.ids k)

/-- The message of the old party that has put it into slot `k`. -/
def inSlot {α : Type} (slot : Fin m → Fin T) (msgs : Fin m → α) (k : Fin T) : Option α :=
  ((List.finRange m).find? fun i => slot i = k).map msgs

/-- Rounds 1 to 3 with every message delivered as it was sent; `T` is `threshold`. -/
def runReshare (T : ℕ) (r : Resharing m n) : Outcome (Fin n → Saved × ReRound3Message) := do
  let r1 ← forRange fun i => round1Start P T n (r.base (r.own i)) (r.old i)
  let r2 ← forRange fun i => round2Start P T n (r.base (r.own i)) (r1 i).1
  let IDs ← forRange fun j => GetIDs (r.base j).reshareRound0Messages
  forRange fun j => round3Start P n (IDs j) (r.base j).dnodeid (r.keys j)
    (inSlot (fun i => (r1 i).2.1) fun i => (r1 i).2.2)
    (fun k => (inSlot (fun i => (r2 i).slot) (fun i => (r2 i).deliver (r.own i) j) k).join)
    (inSlot (fun i => (r2 i).slot) fun i => (r2 i).open1)

end ThresholdDsa.Ecdsa.Reshare
