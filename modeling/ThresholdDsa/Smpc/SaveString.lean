/-
# The save string of a public key and its readers

Signing reads the Paillier keys and the `Ntilde` values of a public key from the string
`Save` of its record, by position: the string is cut at `SepSave`, and offsets are computed
from the index of a node and the node count.  Positions are `int`s, which wrap around.

Key generation writes the string in this form.  Resharing writes the JSON text of
`KGLocalDBSaveData.OutMap` in its place, which has no separator: `reshared_save_readable_iff`.
-/
import ThresholdDsa.Lib.Framing
import ThresholdDsa.Ecdsa.ReshareKeys
import ThresholdDsa.Smpc.ReshareStore

namespace ThresholdDsa.Smpc.SaveString

open Outcome GoText Framing Effect List
open Ec2 (setBytes NtildeH1H2)
open Ecdsa.Reshare (NtildePrivData)

/-! ## Keys and save data, with their texts -/

structure PublicKey extends Ec2.PublicKey where
  Length : Text
  deriving DecidableEq

structure PrivateKey where
  Length : Text
  PublicKey : PublicKey
  (L U : ℤ)
  deriving DecidableEq

/-- `keygen.LocalDNodeSaveData` of a finished run: nothing is nil. -/
structure LocalDNodeSaveData where
  (Pkx Pky C SkU1 : ℤ)
  U1PaillierSk : PrivateKey
  U1PaillierPk : List PublicKey
  U1NtildePrivData : NtildePrivData
  U1NtildeH1H2 : List NtildeH1H2
  IDs : List ℤ
  CurDNodeID : ℤ
  deriving DecidableEq

structure KGLocalDBSaveData where
  Save : LocalDNodeSaveData
  MsgToEnode : List (Text × Text)

/-! ## The readers -/

def SepSave : Text := "dcrmsepsave".toList

/-- A Go `int` of 64 bits. -/
def int (x : ℤ) : ℤ := x.bmod (2 ^ 64)

/-- `mm[s]`. -/
def field (mm : List Text) (s : ℤ) : Outcome Text :=
  if s < 0 then .error .panic else deref mm[s.toNat]?

/-- `new(big.Int).SetBytes([]byte(mm[s]))`. -/
def intField (mm : List Text) (s : ℤ) : Outcome ℤ := do
  let text ← field mm s
  pure (setBytes (text.map fun c => UInt8.ofNat c.toNat))

def GetPaillierPkByIndexFromSaveData (save : Text) (index : ℤ) : Outcome (Option PublicKey) :=
  if save = [] ∨ index < 0 then pure none
  else
    let mm := split SepSave save
    let s := int (4 + 4 * index)
    if (mm.length : ℤ) < int (s + 4) then pure none
    else do
      let l ← field mm s
      let n ← intField mm (s + 1)
      let g ← intField mm (s + 2)
      let n2 ← intField mm (s + 3)
      pure (some { Length := l, N := n, G := g, N2 := n2 })

/-- `curIndex` stands for `GetCurNodeIndex`. -/
def GetCurNodePaillierSkFromSaveData (curIndex : Text → Text → ℤ) (save gid keytype : Text) :
    Outcome (Option PrivateKey) :=
  if save = [] ∨ gid = [] ∨ keytype = [] then pure none
  else do
    match ← GetPaillierPkByIndexFromSaveData save (curIndex gid keytype) with
    | none => pure none
    | some publicKey =>
      let mm := split SepSave save
      if mm.length < 4 then pure none
      else do
        let l ← field mm 1
        let ll ← intField mm 2
        let uu ← intField mm 3
        pure (some { Length := l, PublicKey := publicKey, L := ll, U := uu })

def GetNtildeByIndexFromSaveData (save : Text) (index NodeCnt : ℤ) : Outcome (Option NtildeH1H2) :=
  if save = [] ∨ index < 0 ∨ NodeCnt < 0 then pure none
  else
    let mm := split SepSave save
    let s := int (4 + 4 * NodeCnt + 3 * index)
    if (mm.length : ℤ) < int (s + 3) then pure none
    else do
      let ntilde ← intField mm s
      let h1 ← intField mm (s + 1)
      let h2 ← intField mm (s + 2)
      pure (some { Ntilde := ntilde, H1 := h1, H2 := h2 })

/-- The readers give back what the save data has, for every node. -/
def Readable (curIndex : Text → Text → ℤ) (save gid keytype : Text) (sd : LocalDNodeSaveData) :
    Prop :=
  ∀ i < sd.U1PaillierPk.length,
    GetPaillierPkByIndexFromSaveData save i = .ok sd.U1PaillierPk[i]? ∧
    GetNtildeByIndexFromSaveData save i sd.U1PaillierPk.length = .ok sd.U1NtildeH1H2[i]? ∧
    GetCurNodePaillierSkFromSaveData curIndex save gid keytype = .ok (some sd.U1PaillierSk)

/-! ## What resharing writes -/

/-- `json.Marshal` of a map of strings, or of a struct with string fields: the text has the letter
m only where a name or a value has it (no escape sequence does). -/
structure Json where
  object : List (Text × Text) → Text
  letter : ∀ entries, 'm' ∈ object entries → ∃ entry ∈ entries, 'm' ∈ entry.1 ∨ 'm' ∈ entry.2

section Write

variable (json : Json)

def PublicKey.MarshalJSON (publicKey : PublicKey) : Text :=
  json.object [("Length".toList, publicKey.Length), ("N".toList, intText publicKey.N),
    ("G".toList, intText publicKey.G), ("N2".toList, intText publicKey.N2)]

def PrivateKey.MarshalJSON (privateKey : PrivateKey) : Text :=
  json.object [("Length".toList, privateKey.Length),
    ("PublicKey".toList, privateKey.PublicKey.MarshalJSON json),
    ("L".toList, intText privateKey.L), ("U".toList, intText privateKey.U)]

def ntildeMarshalJSON (ntilde : NtildeH1H2) : Text :=
  json.object [("Ntilde".toList, intText ntilde.Ntilde), ("H1".toList, intText ntilde.H1),
    ("H2".toList, intText ntilde.H2)]

def privDataMarshalJSON (priv : NtildePrivData) : Text :=
  json.object [("Alpha".toList, intText priv.Alpha), ("Beta".toList, intText priv.Beta),
    ("Q1".toList, intText priv.Q1), ("Q2".toList, intText priv.Q2)]

/-- `strings.Join(texts, "|")`. -/
def joinBar (texts : List Text) : Text := ['|'].intercalate texts

def LocalDNodeSaveData.OutMap (sd : LocalDNodeSaveData) : List (Text × Text) :=
  [("Pkx".toList, intText sd.Pkx), ("Pky".toList, intText sd.Pky), ("C".toList, intText sd.C),
    ("SkU1".toList, intText sd.SkU1),
    ("U1PaillierSk".toList, sd.U1PaillierSk.MarshalJSON json),
    ("U1PaillierPk".toList, joinBar (sd.U1PaillierPk.map (PublicKey.MarshalJSON json))),
    ("U1NtildePrivData".toList, privDataMarshalJSON json sd.U1NtildePrivData),
    ("U1NtildeH1H2".toList, joinBar (sd.U1NtildeH1H2.map (ntildeMarshalJSON json))),
    ("IDs".toList, joinBar (sd.IDs.map intText)), ("CurDNodeID".toList, intText sd.CurDNodeID)]

/-- `out[key] = value`. -/
def setEntry (out : List (Text × Text)) (entry : Text × Text) : List (Text × Text) :=
  out.filter (fun old => old.1 ≠ entry.1) ++ [entry]

def KGLocalDBSaveData.OutMap (kgsave : KGLocalDBSaveData) : List (Text × Text) :=
  kgsave.MsgToEnode.foldl setEntry (kgsave.Save.OutMap json)

/-- The string that `processReshare` puts into the record of the public key. -/
def reshareSave (kgsave : KGLocalDBSaveData) : Text := json.object (kgsave.OutMap json)

end Write

/-! ## A string without the letter m -/

section

variable {json : Json} {save : Text}

/-- The texts in the data are without the letter m: the key lengths (numbers) and the ids and enode
ids of the nodes (numbers and hexadecimal). -/
structure KGLocalDBSaveData.Plain (kgsave : KGLocalDBSaveData) : Prop where
  own : 'm' ∉ kgsave.Save.U1PaillierSk.Length
  ownPk : 'm' ∉ kgsave.Save.U1PaillierSk.PublicKey.Length
  others : ∀ pk ∈ kgsave.Save.U1PaillierPk, 'm' ∉ pk.Length
  nodes : ∀ entry ∈ kgsave.MsgToEnode, 'm' ∉ entry.1 ∧ 'm' ∉ entry.2

theorem m_notMem_intText (n : ℤ) : 'm' ∉ intText n := by
  have digits : ∀ k : ℕ, 'm' ∉ itoa k := fun k mem => absurd (itoa_isDigit mem) (by decide)
  unfold intText
  split
  · simp [digits]
  · exact digits _

theorem Json.m_notMem {entries : List (Text × Text)}
    (free : ∀ entry ∈ entries, 'm' ∉ entry.1 ∧ 'm' ∉ entry.2) : 'm' ∉ json.object entries := by
  intro mem
  obtain ⟨entry, inside, name | value⟩ := json.letter entries mem
  · exact (free entry inside).1 name
  · exact (free entry inside).2 value

theorem m_notMem_joinBar {texts : List Text} (free : ∀ text ∈ texts, 'm' ∉ text) :
    'm' ∉ joinBar texts := by
  intro mem
  rcases mem_intercalate mem with separator | ⟨text, text_mem, inside⟩
  · exact absurd separator (by decide)
  · exact free text text_mem inside

theorem PublicKey.m_notMem {pk : PublicKey} (free : 'm' ∉ pk.Length) : 'm' ∉ pk.MarshalJSON json := by
  refine json.m_notMem ?_
  simp [m_notMem_intText, free]

theorem m_notMem_outMap {kgsave : KGLocalDBSaveData} (plain : kgsave.Plain) :
    ∀ entry ∈ kgsave.OutMap json, 'm' ∉ entry.1 ∧ 'm' ∉ entry.2 := by
  have sk : 'm' ∉ kgsave.Save.U1PaillierSk.MarshalJSON json := by
    refine json.m_notMem ?_
    simp [m_notMem_intText, plain.own, PublicKey.m_notMem plain.ownPk]
  have pks : 'm' ∉ joinBar (kgsave.Save.U1PaillierPk.map (PublicKey.MarshalJSON json)) := by
    refine m_notMem_joinBar (forall_mem_map.mpr fun pk mem => ?_)
    exact PublicKey.m_notMem (plain.others pk mem)
  have priv : 'm' ∉ privDataMarshalJSON json kgsave.Save.U1NtildePrivData := by
    refine json.m_notMem ?_
    simp [m_notMem_intText]
  have ntildes : 'm' ∉ joinBar (kgsave.Save.U1NtildeH1H2.map (ntildeMarshalJSON json)) := by
    refine m_notMem_joinBar (forall_mem_map.mpr fun ntilde _ => json.m_notMem ?_)
    simp [m_notMem_intText]
  have ids : 'm' ∉ joinBar (kgsave.Save.IDs.map intText) :=
    m_notMem_joinBar (forall_mem_map.mpr fun id _ => m_notMem_intText id)
  have start : ∀ entry ∈ kgsave.Save.OutMap json, 'm' ∉ entry.1 ∧ 'm' ∉ entry.2 := by
    simp [LocalDNodeSaveData.OutMap, m_notMem_intText, sk, pks, priv, ntildes, ids]
  -- the entries of the nodes come on top, one after the other
  refine List.foldlRecOn (motive := fun out => ∀ entry ∈ out, 'm' ∉ entry.1 ∧ 'm' ∉ entry.2)
    kgsave.MsgToEnode setEntry start fun out free entry mem old old_mem => ?_
  rcases mem_append.mp old_mem with kept | new
  · exact free old (mem_of_mem_filter kept)
  · rw [mem_singleton.mp new]
    exact plain.nodes entry mem

/-- A string without the letter has no separator. -/
theorem split_of_m_notMem (free : 'm' ∉ save) : split SepSave save = [save] := by
  refine split_of_not_infix fun inside => free (inside.subset ?_)
  decide

theorem int_of_small {x : ℤ} (nonneg : 0 ≤ x) (small : x < 2 ^ 63) : int x = x := by
  unfold int
  rw [Int.bmod_eq_of_le] <;> omega

theorem paillierPk_none (free : 'm' ∉ save) {index : ℤ} (small : index < 2 ^ 60) :
    GetPaillierPkByIndexFromSaveData save index = .ok none := by
  unfold GetPaillierPkByIndexFromSaveData
  split
  · rfl
  · rename_i valid
    have start : int (4 + 4 * index) = 4 + 4 * index := int_of_small (by omega) (by omega)
    have past : int (4 + 4 * index + 4) = 4 + 4 * index + 4 := int_of_small (by omega) (by omega)
    simp only [split_of_m_notMem free, start, past, length_singleton]
    rw [if_pos (by omega)]
    rfl

theorem ntilde_none (free : 'm' ∉ save) {index NodeCnt : ℤ} (small : index < 2 ^ 60)
    (few : NodeCnt < 2 ^ 60) : GetNtildeByIndexFromSaveData save index NodeCnt = .ok none := by
  unfold GetNtildeByIndexFromSaveData
  split
  · rfl
  rename_i valid
  have start : int (4 + 4 * NodeCnt + 3 * index) = 4 + 4 * NodeCnt + 3 * index :=
    int_of_small (by omega) (by omega)
  have past : int (4 + 4 * NodeCnt + 3 * index + 3) = 4 + 4 * NodeCnt + 3 * index + 3 :=
    int_of_small (by omega) (by omega)
  simp only [split_of_m_notMem free, start, past, length_singleton]
  rw [if_pos (by omega)]
  rfl

theorem paillierSk_none (free : 'm' ∉ save) {curIndex : Text → Text → ℤ} {gid keytype : Text}
    (small : curIndex gid keytype < 2 ^ 60) :
    GetCurNodePaillierSkFromSaveData curIndex save gid keytype = .ok none := by
  unfold GetCurNodePaillierSkFromSaveData
  rw [paillierPk_none free small]
  split <;> rfl

end

/-! ## The record that resharing stores -/

section

variable {E : Env} {C : Reshare.Coins} {faults : ℕ → Bool} {rq : Reshare.Request}

open Reshare

/-- A record of a public key that was not there before has the string `s`. -/
def Saves (s : Text) (st st' : Stores) : Prop :=
  ∀ key pd, st'.pub key = some (.pubKey pd) → st.pub key = some (.pubKey pd) ∨ pd.Save = s

instance (s : Text) : Uncounted (Saves s) where
  refl _ _ _ := .inl
  trans _ _ _ first second key pd stored := (second key pd stored).elim (first key pd) .inr
  count _ _ _ := .inl

variable {s : Text}

theorem saves_put {key : Text} {value : Reshare.Value}
    (new : ∀ pd, value = .pubKey pd → pd.Save = s) :
    Within (Saves s) (PutPubKeyData faults key value) := by
  refine within_attempt fun st other pd stored => ?_
  by_cases own : other = key
  · rw [own] at stored
    simp only [Function.update_self, Option.some.injEq] at stored
    exact .inr (new pd stored)
  · exact .inl (by simpa [own] using stored)

theorem saves_delete {key : Text} : Within (Saves s) (DeletePubKeyData faults key) := by
  refine within_attempt fun st other pd stored => ?_
  by_cases own : other = key
  · simp [own] at stored
  · exact .inl (by simpa [own] using stored)

theorem saves_addToAccount {rk account : Text} :
    Within (Saves s) (addToAccount E faults rk account) := by
  refine within_bind within_lookup fun found => ?_
  split
  · exact saves_put (by simp)
  · split
    · exact within_pure _
    · exact saves_put (by simp)
  · exact within_ofOutcome _

theorem saves_storeRecords {limitnum smpcpks : Text} :
    Within (Saves s) (storeRecords E C faults rq limitnum smpcpks s) := by
  refine within_bind within_reqAddrNonce fun nonce => within_bind within_encode fun _ => ?_
  have dropped : Within (Saves s) (dropOldRecord E faults smpcpks rq.mode rq.account) := by
    refine within_bind within_lookup fun found => ?_
    split
    · exact within_bind (within_ofOutcome _) fun _ =>
        within_bind (within_ofOutcome _) fun _ => saves_delete
    · exact within_pure _
  refine within_bind dropped fun _ => within_bind (saves_put (by simp)) fun _ => ?_
  refine within_bind (within_forM fun key => saves_put (by simp)) fun _ => ?_
  have nonce_set : Within (Saves s) (SetReqAddrNonce E faults rq.account nonce) :=
    within_bind (within_ofOutcome _) fun _ => saves_put (by simp)
  have accounts : ∀ rk, Within (Saves s) (addToAccounts E faults rk rq.mode rq.account rq.sigs) := by
    intro rk
    unfold addToAccounts
    split
    · exact within_forM fun j => within_bind (within_ofOutcome _) fun _ => saves_addToAccount
    · exact saves_addToAccount
  refine within_bind nonce_set fun _ => within_bind ?_ fun _ => ?_
  · exact within_bind within_encode fun _ => within_attempt fun _ _ _ => .inl
  · exact within_bind (accounts _) fun _ => within_pure _

theorem saves_acceptReqAddr {account cointype groupid nonce threshold mode pubkey : Text}
    {workid : ℤ} : Within (Saves s)
      (AcceptReqAddr E faults account cointype groupid nonce threshold mode pubkey workid) := by
  refine within_bind within_lookup fun found => ?_
  split
  · exact within_pure _
  · refine within_bind within_lookup fun _ => within_bind (within_ofOutcome _) fun _ => ?_
    refine within_bind within_encode fun _ => ?_
    exact within_bind (within_attempt fun _ _ _ => .inl) fun _ => saves_put (by simp)

/-- The records that a run leaves have its save data, however the run ends. -/
theorem saves_processReshare (saved : rq.save = some s) :
    Within (Saves s) (processReshare E C faults rq) := by
  intro st
  cases checked : newKey E rq with
  | error fault =>
    rw [processReshare, exec_bind_error (by rw [checked]; rfl)]
    exact fun _ _ => .inl
  | ok found =>
    obtain ⟨⟨limitnum, id⟩, smpcpks, s'⟩ := found
    obtain ⟨-, -, save, -, -⟩ := newKey_eq_ok.mp checked
    obtain rfl : s = s' := Option.some.inj (saved.symm.trans save)
    have share : ∀ key, Within (Saves s) (putSkU1ToLocalDb faults key rq.SkU1) :=
      fun key => within_attempt fun _ _ _ => .inl
    have after : Within (Saves s) (afterShare E C faults rq limitnum id smpcpks s) :=
      within_bind (within_forM fun key => share key) fun _ =>
        within_bind saves_storeRecords fun _ =>
          within_bind saves_acceptReqAddr fun _ => within_pure _
    rw [processReshare, exec_bind_ok (by rw [checked]; rfl)]
    exact within_bind (share smpcpks) (fun _ => after) st

end

/-- **Reshared keys.**  The record that a resharing stores is readable for signing only if there
is no node at all: every reader returns nil. -/
theorem reshared_save_readable_iff (E : Env) (C : Reshare.Coins) (faults : ℕ → Bool)
    (rq : Reshare.Request) (json : Json) (kgsave : KGLocalDBSaveData) (plain : kgsave.Plain)
    (saved : rq.save = some (reshareSave json kgsave)) (st : Reshare.Stores) (key : Text)
    (pd : Reshare.PubKeyData) (curIndex : Text → Text → ℤ) (gid keytype : Text)
    (stored : (exec (Reshare.processReshare E C faults rq) st).2.pub key = some (.pubKey pd))
    (new : st.pub key ≠ some (.pubKey pd)) :
    (Readable curIndex pd.Save gid keytype kgsave.Save ↔ kgsave.Save.U1PaillierPk = []) ∧
      ∀ index NodeCnt : ℤ, index < 2 ^ 60 → NodeCnt < 2 ^ 60 → curIndex gid keytype < 2 ^ 60 →
        GetPaillierPkByIndexFromSaveData pd.Save index = .ok none ∧
        GetNtildeByIndexFromSaveData pd.Save index NodeCnt = .ok none ∧
        GetCurNodePaillierSkFromSaveData curIndex pd.Save gid keytype = .ok none := by
  have save_eq : pd.Save = reshareSave json kgsave :=
    (saves_processReshare saved st key pd stored).resolve_left new
  have free : 'm' ∉ pd.Save := save_eq ▸ json.m_notMem (m_notMem_outMap plain)
  refine ⟨⟨fun readable => ?_, fun none_left i lt => ?_⟩, fun index NodeCnt small few own => ?_⟩
  · by_contra some_node
    have first := (readable 0 (length_pos_iff.mpr some_node)).1
    rw [Nat.cast_zero, paillierPk_none free (by norm_num), Except.ok.injEq, eq_comm,
      List.getElem?_eq_none_iff] at first
    exact some_node (length_eq_zero_iff.mp (Nat.le_zero.mp first))
  · rw [none_left] at lt
    cases lt
  · exact ⟨paillierPk_none free small, ntilde_none free small few, paillierSk_none free own⟩

/-! ## A run with two nodes

The JSON text is written with quotes and without escapes. -/

def quoted (text : Text) : Text := '"' :: text ++ ['"']

theorem quoted_letter (entries : List (Text × Text))
    (mem : 'm' ∈ entries.flatMap fun entry => quoted entry.1 ++ ':' :: quoted entry.2) :
    ∃ entry ∈ entries, 'm' ∈ entry.1 ∨ 'm' ∈ entry.2 := by
  obtain ⟨entry, inside, mem⟩ := mem_flatMap.mp mem
  refine ⟨entry, inside, ?_⟩
  simpa [quoted] using mem

def quotedJson : Json where
  object entries := entries.flatMap fun entry => quoted entry.1 ++ ':' :: quoted entry.2
  letter := quoted_letter

def oneKey : PublicKey := { Length := ['6'], N := 35, G := 36, N2 := 1225 }

def twoNodes : KGLocalDBSaveData where
  Save :=
    { Pkx := 1, Pky := 2, C := 3, SkU1 := 4
      U1PaillierSk := { Length := ['6'], PublicKey := oneKey, L := 24, U := 19 }
      U1PaillierPk := [oneKey, { Length := ['6'], N := 33, G := 34, N2 := 1089 }]
      U1NtildePrivData := { Alpha := 1, Beta := 1, Q1 := 2, Q2 := 3 }
      U1NtildeH1H2 := [{ Ntilde := 35, H1 := 4, H2 := 4 }, { Ntilde := 33, H1 := 4, H2 := 16 }]
      IDs := [1, 2], CurDNodeID := 1 }
  MsgToEnode := [(['1'], ['e']), (['2'], ['f'])]

theorem plain_twoNodes : twoNodes.Plain where
  own := by decide
  ownPk := by decide
  others := by decide
  nodes := by decide

def twoRequest : Reshare.Request :=
  { Reshare.Runs.request with save := some (reshareSave quotedJson twoNodes) }

/-- What the run leaves under the public key. -/
def twoRecord : Option Reshare.Value :=
  (exec (Reshare.processReshare Reshare.Runs.env Reshare.Runs.coins (fun _ => false) twoRequest)
    (Reshare.Runs.stores mode1)).2.pub Reshare.Runs.smpcpks

def namedSave : Reshare.Value → Text × Text
  | .pubKey pd => (pd.RefReShareKeys, pd.Save)
  | _ => ([], [])

theorem exists_twoRecord : ∃ pd, twoRecord = some (.pubKey pd) ∧ pd.RefReShareKeys = ['r'] ∧
    pd.Save = reshareSave quotedJson twoNodes := by
  have read : twoRecord.map namedSave = some (['r'], reshareSave quotedJson twoNodes) := by
    decide +kernel
  obtain ⟨value, found, parts⟩ := Option.map_eq_some_iff.mp read
  cases value with
  | pubKey pd => exact ⟨pd, found, Prod.mk.inj parts⟩
  | _ => exact absurd (congrArg Prod.fst parts) (by simp [namedSave])

/-- The node's own record of the resharing cannot be read. -/
theorem two_nodes_unreadable : ∃ pd, twoRecord = some (.pubKey pd) ∧ pd.RefReShareKeys = ['r'] ∧
    GetPaillierPkByIndexFromSaveData pd.Save 0 = .ok none ∧
    GetNtildeByIndexFromSaveData pd.Save 0 2 = .ok none ∧
    GetCurNodePaillierSkFromSaveData (fun _ _ => 0) pd.Save ['g'] EC256K1 = .ok none := by
  obtain ⟨pd, stored, named, saved⟩ := exists_twoRecord
  refine ⟨pd, stored, named, ?_⟩
  rw [saved]
  decide +kernel

theorem reshared_save_readable_iff_two_nodes :
    ∃ pd, twoRecord = some (.pubKey pd) ∧
      ¬ Readable (fun _ _ => 0) pd.Save ['g'] EC256K1 twoNodes.Save := by
  obtain ⟨pd, stored, named, -⟩ := exists_twoRecord
  refine ⟨pd, stored, ?_⟩
  have old : (Reshare.Runs.stores mode1).pub Reshare.Runs.smpcpks ≠ some (.pubKey pd) := by
    intro same
    have name := congrArg Reshare.PubKeyData.RefReShareKeys
      (Reshare.Value.pubKey.inj (Option.some.inj same))
    rw [named] at name
    cases name
  rw [(reshared_save_readable_iff Reshare.Runs.env Reshare.Runs.coins (fun _ => false) twoRequest
    quotedJson twoNodes plain_twoNodes rfl _ _ pd (fun _ _ => 0) ['g'] EC256K1 stored old).1]
  simp [twoNodes]

end ThresholdDsa.Smpc.SaveString
