/-
# What the signature of a round message covers

A node signs the JSON of the round message that its protocol object emits: sender,
index, addressees and the fields of the message's own Go type.  The key of the
session and the name of the type are added to the map afterwards, so neither is
signed, while the receiver takes the session from the first and picks the Go type
by the second.

`inbound_authentic_iff`: whatever the network delivers, every message that reaches
`DNode.Update` as one of an honest node was emitted by it in that session and with
that type, if and only if the node has emitted every message of equal JSON in every
session that would take it.  For a node that emits in one session only, and in it no
square-free proof, this is so.
-/
import ThresholdDsa.Smpc.Command
import ThresholdDsa.Smpc.Inbound

namespace ThresholdDsa.Smpc.P2pMessage

open Outcome GoText List Option

/-! ## Messages and their JSON -/

/-- Names of JSON fields and of entries of the message map. -/
inductive Key where
  | FromID | FromIndex | ToID
  | ComC | ComC_bip32 | ComCBip32 | U1PaillierPk | ID | Share | C1 | Num | SfPf
  | ComU1GD | ComC1GD | U1PolyGG | Y | U1NtildeH1H2 | NtildeProof1 | NtildeProof2 | ComXiC
  | ComXiGD | HvPf | U1zkXiProof | CheckPubkeyStatus
  | C11 | ComWiC | U1u1MtAZK1Proof | Kc | ComWiD | U1KGamma1Cipher | U1u1MtAZK2Proof
  | U1Kw1Cipher | U1u1MtAZK3Proof | Delta1 | T1X | T1Y | Tpf | CommU1D | U1GammaZKProof
  | K1RX | K1RY | PdlwSlackPf | S1X | S1Y | STpf | Us1
  | ComD | SkP1PolyG | NewSkOk
  | CPk | ZkPk | DPk | CfsBBytes | CR | ZkR | DR | CSB | DSB | S
  deriving DecidableEq

inductive Protocol where
  | keygen | signing | reshare | edKeygen | edSigning
  deriving DecidableEq

/-- The Go types of the round messages, by package. -/
inductive GoType where
  | KGRound0Message | KGRound1Message | KGRound2Message | KGRound2Message1 | KGRound2Message2
  | KGRound3Message | KGRound3Message1 | KGRound4Message | KGRound5Message | KGRound5Message1
  | KGRound5Message2 | KGRound6Message
  | SignRound1Message | SignRound2Message | SignRound3Message | SignRound4Message
  | SignRound4Message1 | SignRound5Message | SignRound6Message | SignRound7Message
  | SignRound8Message | SignRound9Message
  | ReRound0Message | ReRound1Message | ReRound2Message | ReRound2Message1 | ReRound3Message
  | ReRound4Message | ReRound5Message
  | EdKGRound0Message | EdKGRound1Message | EdKGRound2Message | EdKGRound3Message
  | EdKGRound4Message | EdKGRound5Message
  | EdSignRound1Message | EdSignRound2Message | EdSignRound3Message | EdSignRound4Message
  | EdSignRound5Message | EdSignRound6Message
  deriving DecidableEq

def GoType.protocol : GoType → Protocol
  | .KGRound0Message | .KGRound1Message | .KGRound2Message | .KGRound2Message1
  | .KGRound2Message2 | .KGRound3Message | .KGRound3Message1 | .KGRound4Message
  | .KGRound5Message | .KGRound5Message1 | .KGRound5Message2 | .KGRound6Message => .keygen
  | .SignRound1Message | .SignRound2Message | .SignRound3Message | .SignRound4Message
  | .SignRound4Message1 | .SignRound5Message | .SignRound6Message | .SignRound7Message
  | .SignRound8Message | .SignRound9Message => .signing
  | .ReRound0Message | .ReRound1Message | .ReRound2Message | .ReRound2Message1
  | .ReRound3Message | .ReRound4Message | .ReRound5Message => .reshare
  | .EdKGRound0Message | .EdKGRound1Message | .EdKGRound2Message | .EdKGRound3Message
  | .EdKGRound4Message | .EdKGRound5Message => .edKeygen
  | .EdSignRound1Message | .EdSignRound2Message | .EdSignRound3Message | .EdSignRound4Message
  | .EdSignRound5Message | .EdSignRound6Message => .edSigning

/-- The fields after the embedded round message. -/
def GoType.ownFields : GoType → List Key
  | .KGRound0Message => []
  | .KGRound1Message => [.ComC, .ComCBip32, .U1PaillierPk]
  | .KGRound2Message => [.ID, .Share]
  | .KGRound2Message1 => [.C1]
  | .KGRound2Message2 => [.Num, .SfPf]
  | .KGRound3Message => [.ComU1GD, .ComC1GD, .U1PolyGG]
  | .KGRound3Message1 => [.Y]
  | .KGRound4Message => [.U1NtildeH1H2, .NtildeProof1, .NtildeProof2, .ComXiC]
  | .KGRound5Message => [.ComXiGD]
  | .KGRound5Message1 => [.Num, .HvPf]
  | .KGRound5Message2 => [.Num, .SfPf]
  | .KGRound6Message => [.U1zkXiProof, .CheckPubkeyStatus]
  | .SignRound1Message => [.C11, .ComWiC]
  | .SignRound2Message => [.U1u1MtAZK1Proof]
  | .SignRound3Message => [.Kc, .ComWiD]
  | .SignRound4Message => [.U1KGamma1Cipher, .U1u1MtAZK2Proof]
  | .SignRound4Message1 => [.U1Kw1Cipher, .U1u1MtAZK3Proof]
  | .SignRound5Message => [.Delta1, .T1X, .T1Y, .Tpf]
  | .SignRound6Message => [.CommU1D, .U1GammaZKProof]
  | .SignRound7Message => [.K1RX, .K1RY, .PdlwSlackPf]
  | .SignRound8Message => [.S1X, .S1Y, .STpf]
  | .SignRound9Message => [.Us1]
  | .ReRound0Message => []
  | .ReRound1Message => [.ComC]
  | .ReRound2Message => [.ID, .Share]
  | .ReRound2Message1 => [.ComD, .SkP1PolyG]
  | .ReRound3Message => [.U1PaillierPk]
  | .ReRound4Message => [.U1NtildeH1H2, .NtildeProof1, .NtildeProof2]
  | .ReRound5Message => [.NewSkOk]
  | .EdKGRound0Message => []
  | .EdKGRound1Message => [.CPk]
  | .EdKGRound2Message => [.ZkPk]
  | .EdKGRound3Message => [.DPk]
  | .EdKGRound4Message => [.Share]
  | .EdKGRound5Message => [.CfsBBytes]
  | .EdSignRound1Message => [.CR]
  | .EdSignRound2Message => [.ZkR]
  | .EdSignRound3Message => [.DR]
  | .EdSignRound4Message => [.CSB]
  | .EdSignRound5Message => [.DSB]
  | .EdSignRound6Message => [.S]

/-- The value of a field; a structure of package `ec2` is the text its `MarshalJSON` writes.
Values of different kinds never stand under the same list of names. -/
inductive Value where
  | null
  | int (n : ℤ)
  | ints (ns : List ℤ)
  | intss (nss : List (List ℤ))
  | bool (b : Bool)
  | text (t : Text)
  | texts (ts : List Text)
  | ec2 (json : Text)
  deriving DecidableEq

/-- The type of a message and the values of its own fields. -/
structure Content where
  type : GoType
  values : List Value
  complete : values.length = type.ownFields.length
  deriving DecidableEq

/-- A round message; `ToID` may be nil. -/
structure Message where
  content : Content
  FromID : Text
  FromIndex : ℤ
  ToID : Option (List Text)
  deriving DecidableEq

/-- What `json.Marshal` writes: the names and values of the fields, in order. -/
def marshal (m : Message) : List (Key × Value) :=
  (.FromID, .text m.FromID) :: (.FromIndex, .int m.FromIndex) ::
    (.ToID, (m.ToID.map Value.texts).getD .null) ::
    m.content.type.ownFields.zip m.content.values

/-- Equal JSON: the same message, except that its type may be another one with the same fields. -/
theorem marshal_eq_iff {m m' : Message} :
    marshal m = marshal m' ↔ m.FromID = m'.FromID ∧ m.FromIndex = m'.FromIndex ∧
      m.ToID = m'.ToID ∧ m.content.type.ownFields = m'.content.type.ownFields ∧
      m.content.values = m'.content.values := by
  constructor
  · intro same
    simp only [marshal, List.cons.injEq, Prod.mk.injEq, true_and, Value.text.injEq,
      Value.int.injEq] at same
    obtain ⟨id_eq, index_eq, to_eq, zip_eq⟩ := same
    refine ⟨id_eq, index_eq, ?_, ?_, ?_⟩
    · cases mine : m.ToID <;> cases other : m'.ToID <;> simp_all
    · have names := congrArg (List.map Prod.fst) zip_eq
      rwa [map_fst_zip m.content.complete.ge, map_fst_zip m'.content.complete.ge] at names
    · have values := congrArg (List.map Prod.snd) zip_eq
      rwa [map_snd_zip m.content.complete.le, map_snd_zip m'.content.complete.le]
        at values
  · rintro ⟨id_eq, index_eq, to_eq, names, values⟩
    simp only [marshal, id_eq, index_eq, to_eq, names, values]

def goTypes : List GoType :=
  [.KGRound0Message, .KGRound1Message, .KGRound2Message, .KGRound2Message1, .KGRound2Message2,
    .KGRound3Message, .KGRound3Message1, .KGRound4Message, .KGRound5Message, .KGRound5Message1,
    .KGRound5Message2, .KGRound6Message, .SignRound1Message, .SignRound2Message,
    .SignRound3Message, .SignRound4Message, .SignRound4Message1, .SignRound5Message,
    .SignRound6Message, .SignRound7Message, .SignRound8Message, .SignRound9Message,
    .ReRound0Message, .ReRound1Message, .ReRound2Message, .ReRound2Message1, .ReRound3Message,
    .ReRound4Message, .ReRound5Message, .EdKGRound0Message, .EdKGRound1Message,
    .EdKGRound2Message, .EdKGRound3Message, .EdKGRound4Message, .EdKGRound5Message,
    .EdSignRound1Message, .EdSignRound2Message, .EdSignRound3Message, .EdSignRound4Message,
    .EdSignRound5Message, .EdSignRound6Message]

/-- The types with the fields of another type. -/
def twins : List (GoType × GoType) :=
  [(.KGRound2Message2, .KGRound5Message2), (.KGRound2Message, .ReRound2Message),
    (.KGRound0Message, .ReRound0Message), (.KGRound0Message, .EdKGRound0Message),
    (.ReRound0Message, .EdKGRound0Message)]

theorem mem_goTypes (T : GoType) : T ∈ goTypes := by
  cases T <;> decide

theorem eq_or_twins_of_ownFields {T T' : GoType} (same : T.ownFields = T'.ownFields) :
    T = T' ∨ (T, T') ∈ twins ∨ (T', T) ∈ twins := by
  have table : ∀ T ∈ goTypes, ∀ T' ∈ goTypes, T.ownFields = T'.ownFields →
      T = T' ∨ (T, T') ∈ twins ∨ (T', T) ∈ twins := by
    decide +kernel
  exact table T (mem_goTypes T) T' (mem_goTypes T') same

/-! ## Reading a message -/

/-- The map that `json.Unmarshal` gives, with the empty text for what is absent.  `type` is the
text under `Type` as the type of this name in the ECDSA packages, if there is one. -/
structure MsgMap where
  type : Option GoType
  ENode : Enode
  Sig : Text
  field : Key → Text

inductive Ec2 where
  | PublicKey | SquareFreeProof | NtildeH1H2 | NtildeProof | HvProof | ZkXiProof
  | MtARangeProof | MtARespZKProof | MtAwcRespZKProof | TProof | ZkUProof | PDLwSlackProof
  | STProof
  deriving DecidableEq

/-- A branch returns nil, or goes on to the branches after it. -/
inductive Stop where
  | nil | next
  deriving DecidableEq

section

variable (UnmarshalJSON : Ec2 → Text → Option Text) (msg : MsgMap)

def present (names : List Key) : Except Stop Unit :=
  if names.any fun name => msg.field name = [] then .error .nil else .ok ()

def readInt (text : Text) : Except Stop ℤ :=
  match setString10 text with
  | some n => .ok n
  | none => .error .nil

def readInts (sep : Char) (text : Text) : Except Stop (List ℤ) :=
  (text.splitOn sep).mapM readInt

def readEc2 (name : Ec2) (key : Key) : Except Stop Value :=
  match UnmarshalJSON name (msg.field key) with
  | some json => .ok (.ec2 json)
  | none => .error .next

/-- The branches of `GetRealMessage`. -/
def kgContent : Except Stop Content :=
  match msg.type with
  | some .KGRound1Message => do
    present msg [.U1PaillierPk]
    let pub ← readEc2 UnmarshalJSON msg .PublicKey .U1PaillierPk
    let comc ← readInt (msg.field .ComC)
    let ComCBip32 ← readInt (msg.field .ComC_bip32)
    pure ⟨.KGRound1Message, [.int comc, .int ComCBip32, pub], rfl⟩
  | some .KGRound2Message => do
    let id ← readInt (msg.field .ID)
    let sh ← readInt (msg.field .Share)
    pure ⟨.KGRound2Message, [.int id, .int sh], rfl⟩
  | some .KGRound2Message1 => do
    let c1 ← readInt (msg.field .C1)
    pure ⟨.KGRound2Message1, [.int c1], rfl⟩
  | some .KGRound2Message2 => do
    present msg [.SfPf, .Num]
    let pf ← readEc2 UnmarshalJSON msg .SquareFreeProof .SfPf
    let num ← readInt (msg.field .Num)
    pure ⟨.KGRound2Message2, [.int num, pf], rfl⟩
  | some .KGRound3Message => do
    present msg [.ComU1GD, .ComC1GD, .U1PolyGG]
    let u1gd ← readInts ':' (msg.field .ComU1GD)
    let u1cd ← readInts ':' (msg.field .ComC1GD)
    let ugg ← ((msg.field .U1PolyGG).splitOn '|').mapM (readInts ':')
    pure ⟨.KGRound3Message, [.ints u1gd, .ints u1cd, .intss ugg], rfl⟩
  | some .KGRound3Message1 => do
    present msg [.Y]
    let y ← readInt (msg.field .Y)
    pure ⟨.KGRound3Message1, [.int y], rfl⟩
  | some .KGRound4Message => do
    present msg [.U1NtildeH1H2]
    let nti ← readEc2 UnmarshalJSON msg .NtildeH1H2 .U1NtildeH1H2
    present msg [.NtildeProof1]
    let pf1 ← readEc2 UnmarshalJSON msg .NtildeProof .NtildeProof1
    present msg [.NtildeProof2]
    let pf2 ← readEc2 UnmarshalJSON msg .NtildeProof .NtildeProof2
    present msg [.ComXiC]
    -- the one number whose conversion is not tested: it may be nil
    let comxic := setString10 (msg.field .ComXiC)
    pure ⟨.KGRound4Message, [nti, pf1, pf2, (comxic.map Value.int).getD .null], rfl⟩
  | some .KGRound5Message => do
    present msg [.ComXiGD]
    let xigd ← readInts ':' (msg.field .ComXiGD)
    pure ⟨.KGRound5Message, [.ints xigd], rfl⟩
  | some .KGRound5Message1 => do
    present msg [.HvPf, .Num]
    let pf ← readEc2 UnmarshalJSON msg .HvProof .HvPf
    let num ← readInt (msg.field .Num)
    pure ⟨.KGRound5Message1, [.int num, pf], rfl⟩
  | some .KGRound5Message2 => do
    present msg [.SfPf, .Num]
    let pf ← readEc2 UnmarshalJSON msg .SquareFreeProof .SfPf
    let num ← readInt (msg.field .Num)
    pure ⟨.KGRound5Message2, [.int num, pf], rfl⟩
  | some .KGRound6Message => do
    let b := decide (msg.field .CheckPubkeyStatus = ['t', 'r', 'u', 'e'])
    present msg [.U1zkXiProof]
    let zk ← readEc2 UnmarshalJSON msg .ZkXiProof .U1zkXiProof
    pure ⟨.KGRound6Message, [zk, .bool b], rfl⟩
  | _ => .error .next

/-- The branches of `SignGetRealMessage`. -/
def signContent : Except Stop Content :=
  match msg.type with
  | some .SignRound1Message => do
    present msg [.C11]
    let c11 ← readInt (msg.field .C11)
    present msg [.ComWiC]
    let wic ← readInt (msg.field .ComWiC)
    pure ⟨.SignRound1Message, [.int c11, .int wic], rfl⟩
  | some .SignRound2Message => do
    present msg [.U1u1MtAZK1Proof]
    let proof ← readEc2 UnmarshalJSON msg .MtARangeProof .U1u1MtAZK1Proof
    pure ⟨.SignRound2Message, [proof], rfl⟩
  | some .SignRound3Message => do
    present msg [.Kc]
    let kc ← readInt (msg.field .Kc)
    present msg [.ComWiD]
    let dtmp ← readInts ':' (msg.field .ComWiD)
    pure ⟨.SignRound3Message, [.int kc, .ints dtmp], rfl⟩
  | some .SignRound4Message => do
    present msg [.U1u1MtAZK2Proof]
    let proof ← readEc2 UnmarshalJSON msg .MtARespZKProof .U1u1MtAZK2Proof
    present msg [.U1KGamma1Cipher]
    let cipher ← readInt (msg.field .U1KGamma1Cipher)
    pure ⟨.SignRound4Message, [.int cipher, proof], rfl⟩
  | some .SignRound4Message1 => do
    present msg [.U1u1MtAZK3Proof]
    let proof ← readEc2 UnmarshalJSON msg .MtAwcRespZKProof .U1u1MtAZK3Proof
    present msg [.U1Kw1Cipher]
    let cipher ← readInt (msg.field .U1Kw1Cipher)
    pure ⟨.SignRound4Message1, [.int cipher, proof], rfl⟩
  | some .SignRound5Message => do
    present msg [.Tpf]
    let proof ← readEc2 UnmarshalJSON msg .TProof .Tpf
    present msg [.Delta1, .T1X, .T1Y]
    let delta ← readInt (msg.field .Delta1)
    let t1x ← readInt (msg.field .T1X)
    let t1y ← readInt (msg.field .T1Y)
    pure ⟨.SignRound5Message, [.int delta, .int t1x, .int t1y, proof], rfl⟩
  | some .SignRound6Message => do
    present msg [.U1GammaZKProof]
    let proof ← readEc2 UnmarshalJSON msg .ZkUProof .U1GammaZKProof
    present msg [.CommU1D]
    let dtmp ← readInts ':' (msg.field .CommU1D)
    pure ⟨.SignRound6Message, [.ints dtmp, proof], rfl⟩
  | some .SignRound7Message => do
    present msg [.PdlwSlackPf]
    let proof ← readEc2 UnmarshalJSON msg .PDLwSlackProof .PdlwSlackPf
    present msg [.K1RX, .K1RY]
    let k1rx ← readInt (msg.field .K1RX)
    let k1ry ← readInt (msg.field .K1RY)
    pure ⟨.SignRound7Message, [.int k1rx, .int k1ry, proof], rfl⟩
  | some .SignRound8Message => do
    present msg [.STpf]
    let proof ← readEc2 UnmarshalJSON msg .STProof .STpf
    present msg [.S1X, .S1Y]
    let s1x ← readInt (msg.field .S1X)
    let s1y ← readInt (msg.field .S1Y)
    pure ⟨.SignRound8Message, [.int s1x, .int s1y, proof], rfl⟩
  | some .SignRound9Message => do
    present msg [.Us1]
    let us1 ← readInt (msg.field .Us1)
    pure ⟨.SignRound9Message, [.int us1], rfl⟩
  | _ => .error .nil

/-- The branches of `ReshareGetRealMessage`. -/
def reshareContent : Except Stop Content :=
  match msg.type with
  | some .ReRound1Message => do
    present msg [.ComC]
    let comc ← readInt (msg.field .ComC)
    pure ⟨.ReRound1Message, [.int comc], rfl⟩
  | some .ReRound2Message => do
    present msg [.ID, .Share]
    -- the conversions are not tested: the numbers may be nil
    let id := setString10 (msg.field .ID)
    let sh := setString10 (msg.field .Share)
    pure ⟨.ReRound2Message, [(id.map Value.int).getD .null, (sh.map Value.int).getD .null], rfl⟩
  | some .ReRound2Message1 => do
    present msg [.ComD, .SkP1PolyG]
    let u1gd ← readInts ':' (msg.field .ComD)
    let ugg ← ((msg.field .SkP1PolyG).splitOn '|').mapM (readInts ':')
    pure ⟨.ReRound2Message1, [.ints u1gd, .intss ugg], rfl⟩
  | some .ReRound3Message => do
    present msg [.U1PaillierPk]
    let pub ← readEc2 UnmarshalJSON msg .PublicKey .U1PaillierPk
    pure ⟨.ReRound3Message, [pub], rfl⟩
  | some .ReRound4Message => do
    present msg [.U1NtildeH1H2, .NtildeProof1, .NtildeProof2]
    let nti ← readEc2 UnmarshalJSON msg .NtildeH1H2 .U1NtildeH1H2
    let pf1 ← readEc2 UnmarshalJSON msg .NtildeProof .NtildeProof1
    let pf2 ← readEc2 UnmarshalJSON msg .NtildeProof .NtildeProof2
    pure ⟨.ReRound4Message, [nti, pf1, pf2], rfl⟩
  | some .ReRound5Message => do
    present msg [.NewSkOk]
    pure ⟨.ReRound5Message, [.text (msg.field .NewSkOk)], rfl⟩
  | _ => .error .next

/-- Sender, addressees and index. -/
def header : Option (Text × Option (List Text) × ℤ) := do
  let sender ← some (msg.field .FromID) |>.filter (· ≠ [])
  let toID := if msg.field .ToID = [] then none else some ((msg.field .ToID).splitOn ':')
  let index ← Atoi (msg.field .FromIndex)
  pure (sender, toID, index)

/-- A structure that cannot be read makes the message one of round 0, as any other type does. -/
def GetRealMessage : Option Message := do
  let (sender, toID, index) ← header msg
  match kgContent UnmarshalJSON msg with
  | .ok content => some { content, FromID := sender, FromIndex := index, ToID := toID }
  | .error .nil => none
  | .error .next =>
    some { content := ⟨.KGRound0Message, [], rfl⟩, FromID := sender, FromIndex := -1, ToID := toID }

def SignGetRealMessage : Option Message := do
  let (sender, toID, index) ← header msg
  match signContent UnmarshalJSON msg with
  | .ok content => some { content, FromID := sender, FromIndex := index, ToID := toID }
  | .error _ => none

def ReshareGetRealMessage : Option Message := do
  let (sender, toID, index) ← header msg
  match reshareContent UnmarshalJSON msg with
  | .ok content => some { content, FromID := sender, FromIndex := index, ToID := toID }
  | .error .nil => none
  | .error .next =>
    some { content := ⟨.ReRound0Message, [], rfl⟩, FromID := sender, FromIndex := -1, ToID := toID }

end

/-! ### The protocol of a message that was read -/

def OfProtocol (p : Protocol) (x : Except Stop Content) : Prop :=
  ∀ c, x = .ok c → c.type.protocol = p

theorem ofProtocol_pure {p : Protocol} {c : Content} (own : c.type.protocol = p) :
    OfProtocol p (pure c) := by
  intro c' made
  cases made
  exact own

theorem ofProtocol_error {p : Protocol} {stop : Stop} : OfProtocol p (.error stop) := by
  intro c made
  cases made

theorem ofProtocol_bind {α : Type} {p : Protocol} {x : Except Stop α}
    {f : α → Except Stop Content} (rest : ∀ a, OfProtocol p (f a)) : OfProtocol p (x >>= f) := by
  cases x with
  | error stop => exact ofProtocol_error
  | ok a => exact rest a

section

variable {UnmarshalJSON : Ec2 → Text → Option Text} {msg : MsgMap}

theorem ofProtocol_kgContent : OfProtocol .keygen (kgContent UnmarshalJSON msg) := by
  unfold kgContent
  split
  all_goals first
    | exact ofProtocol_error
    | repeat refine ofProtocol_bind fun _ => ?_
      exact ofProtocol_pure rfl

theorem ofProtocol_signContent : OfProtocol .signing (signContent UnmarshalJSON msg) := by
  unfold signContent
  split
  all_goals first
    | exact ofProtocol_error
    | repeat refine ofProtocol_bind fun _ => ?_
      exact ofProtocol_pure rfl

theorem protocol_getRealMessage {mm : Message} (read : GetRealMessage UnmarshalJSON msg = some mm) :
    mm.content.type.protocol = .keygen := by
  simp only [GetRealMessage, bind_eq_bind, bind_eq_some_iff] at read
  obtain ⟨⟨sender, toID, index⟩, -, read⟩ := read
  split at read
  · next content made =>
    cases read
    exact ofProtocol_kgContent _ made
  · cases read
  · cases read
    rfl

theorem protocol_signGetRealMessage {mm : Message}
    (read : SignGetRealMessage UnmarshalJSON msg = some mm) :
    mm.content.type.protocol = .signing := by
  simp only [SignGetRealMessage, bind_eq_bind, bind_eq_some_iff] at read
  obtain ⟨⟨sender, toID, index⟩, -, read⟩ := read
  split at read
  · next content made =>
    cases read
    exact ofProtocol_signContent _ made
  · cases read

end

/-! ## Signing and receiving -/

/-- Recovery of the signer's public key from a signature over JSON; a signature has bytes. -/
structure Recovery where
  SigToPub : List (Key × Value) → List Char → Option (List UInt8)
  no_bytes : ∀ json, SigToPub json [] = none

section Network

variable (N : Names) (R : Recovery) (UnmarshalJSON : Ec2 → Text → Option Text)

def check (sig : List Char) (msg : Message) (enodeID : Enode) : Bool :=
  checkP2pSig (fun msg => R.SigToPub (marshal msg)) sig msg enodeID

def bytes (sig : List UInt8) : List Char := sig.map fun b => Char.ofNat b.toNat

/-- `Sign` signs with the node's private key, if it can be loaded. -/
def sigP2pMsg (Sign : List (Key × Value) → Option (List UInt8)) (msg : Message) (enodeID : Enode) :
    Outcome (List UInt8) := do
  require (enodeID ≠ []) "param error"
  let sig ← orError "get private fail" (Sign (marshal msg))
  require (check R (bytes sig) msg enodeID) "check sig error"
  pure sig

inductive Role where
  | keygen | sign
  deriving DecidableEq

def Role.protocol : Role → Protocol
  | .keygen => .keygen
  | .sign => .signing

/-- A worker that processes round messages: its key, the members of its group, and for signing
those of the group of the public key. -/
structure Session where
  key : Text
  role : Role
  (group pubKeyGroup : List Enode)

def Session.uidGroup (s : Session) : List Enode :=
  match s.role with
  | .keygen => s.group
  | .sign => s.pubKeyGroup

def Session.realMessage (s : Session) (msg : MsgMap) : Option Message :=
  match s.role with
  | .keygen => GetRealMessage UnmarshalJSON msg
  | .sign => SignGetRealMessage UnmarshalJSON msg

/-- The message of one map that is handed to `DNode.Update`. -/
def receive (s : Session) (msg : MsgMap) : Outcome Message := do
  let (failText, sigText, enodeText) := match s.role with
    | .keygen => ("fail to process inbound messages", "verify sig fail,sig data error",
        "verify sig fail,enode info error")
    | .sign => ("fail to sign process inbound messages", "verify sig fail", "verify sig fail")
  let mm ← orError failText (s.realMessage UnmarshalJSON msg)
  inboundChecks N (fun mm => R.SigToPub (marshal mm)) sigText enodeText (·.FromID) s.uidGroup
    s.group { ENode := msg.ENode, Sig := msg.Sig, msg := mm }
  pure mm

variable {W : Type} (Unmarshal : W → Option MsgMap) (hexs : W → Text)

/-- The loops `ProcessInboundMessages` and `SignProcessInboundMessages` over the texts that arrive:
`Msg56` holds the hashes of texts already processed, `passed` what `DNode.Update` got so far, and
`Update` tells whether it accepted the last one.  The first error ends the loop. -/
def process (s : Session) (Update : List (Enode × Message) → Bool) :
    List Text → List (Enode × Message) → List W → List (Enode × Message)
  | _, passed, [] => passed
  | Msg56, passed, m :: rest =>
    if hexs m ∈ Msg56 then process s Update Msg56 passed rest else
    match Unmarshal m with
    | none => passed
    | some msg =>
      match receive N R UnmarshalJSON s msg with
      | .error _ => passed
      | .ok mm =>
        let passed := passed ++ [(msg.ENode, mm)]
        if Update passed then process s Update (hexs m :: Msg56) passed rest else passed

/-! ## What an honest node is answerable for -/

/-- The session takes messages of node `E` with this id: it is the id of `E`, who is a member. -/
def Admits (s : Session) (E : Enode) (FromID : Text) : Prop :=
  ∃ UID, GetNodeUID N E s.uidGroup = .ok UID ∧ N.folding.EqualFold (uidText UID) FromID = true ∧
    (s.group.any fun node => N.folding.EqualFold node E) = true

/-- Node `E` with its key emits the messages `log`, each in a session, and nobody else can sign
for it. -/
structure Honest (E : Enode) (log : List (Text × Message)) : Prop where
  signed : ∀ e ∈ log, ∃ Sign sig, sigP2pMsg R Sign e.2 E = .ok sig
  unforgeable : ∀ sig msg, check R sig msg E = true → ∃ e ∈ log, marshal e.2 = marshal msg

variable {N R UnmarshalJSON Unmarshal hexs} {mm : Message} {s : Session} {msg : MsgMap} {E : Enode}

theorem receive_eq_ok :
    receive N R UnmarshalJSON s msg = .ok mm ↔
      s.realMessage UnmarshalJSON msg = some mm ∧ msg.Sig ≠ [] ∧ msg.ENode ≠ [] ∧
      (∃ sig, hexDecode msg.Sig = some sig ∧ check R sig mm msg.ENode = true) ∧
      Admits N s msg.ENode mm.FromID := by
  simp only [receive, inboundChecks, eq_ok, decide_eq_true_eq]
  constructor
  · rintro ⟨mm', read, _, ⟨_, sig_ne, _, enode_ne, sig, decoded, _, checked, UID, found, _, id_eq,
      member⟩, rfl⟩
    exact ⟨read, sig_ne, enode_ne, ⟨sig, decoded, checked⟩, UID, found, id_eq, member⟩
  · rintro ⟨read, sig_ne, enode_ne, ⟨sig, decoded, checked⟩, UID, found, id_eq, member⟩
    exact ⟨mm, read, (), ⟨(), sig_ne, (), enode_ne, sig, decoded, (), checked, UID, found, (), id_eq,
      member⟩, rfl⟩

/-- Along a whole run of the loop, what is passed on was received. -/
theorem received_of_mem_process {Update : List (Enode × Message) → Bool} {texts : List W}
    {Msg56 : List Text} {passed : List (Enode × Message)}
    (mem : (E, mm) ∈ process N R UnmarshalJSON Unmarshal hexs s Update Msg56 passed texts) :
    (E, mm) ∈ passed ∨ ∃ msg, msg.ENode = E ∧ receive N R UnmarshalJSON s msg = .ok mm := by
  induction texts generalizing Msg56 passed with
  | nil => exact .inl mem
  | cons m rest ih =>
    simp only [process] at mem
    split at mem
    · exact ih mem
    split at mem
    · exact .inl mem
    next msg _ =>
    split at mem
    · exact .inl mem
    next mm' received =>
    -- the message of this turn, or one passed before
    have last : (E, mm) ∈ passed ++ [(msg.ENode, mm')] → (E, mm) ∈ passed ∨
        ∃ msg, msg.ENode = E ∧ receive N R UnmarshalJSON s msg = .ok mm := by
      intro held
      rcases mem_append.mp held with before | now
      · exact .inl before
      · cases mem_singleton.mp now
        exact .inr ⟨msg, rfl, received⟩
    split at mem
    · exact (ih mem).elim last .inr
    · exact last mem

theorem process_singleton {m : W} (decoded : Unmarshal m = some msg)
    (received : receive N R UnmarshalJSON s msg = .ok mm) :
    process N R UnmarshalJSON Unmarshal hexs s (fun _ => true) [] [] [m] = [(msg.ENode, mm)] := by
  simp [process, decoded, received]

theorem protocol_realMessage (read : s.realMessage UnmarshalJSON msg = some mm) :
    mm.content.type.protocol = s.role.protocol := by
  unfold Session.realMessage at read
  split at read
  · next role => rw [role]; exact protocol_getRealMessage read
  · next role => rw [role]; exact protocol_signGetRealMessage read

theorem toNat_lt_of_mem_bytes {sig : List UInt8} {c : Char} (mem : c ∈ bytes sig) :
    c.toNat < 256 := by
  obtain ⟨b, -, rfl⟩ := mem_map.mp mem
  have small := b.toNat_lt
  rw [Char.toNat_ofNat]
  split <;> omega

/-- The signature of an emitted message passes for every message with the same JSON. -/
theorem passes_of_signed {Sign : List (Key × Value) → Option (List UInt8)} {m : Message}
    {sig : List UInt8} (signed : sigP2pMsg R Sign m E = .ok sig) (same : marshal mm = marshal m) :
    E ≠ [] ∧ hexEncode (bytes sig) ≠ [] ∧
      ∃ sig', hexDecode (hexEncode (bytes sig)) = some sig' ∧ check R sig' mm E = true := by
  simp only [sigP2pMsg, eq_ok, decide_eq_true_eq] at signed
  obtain ⟨_, enode_ne, sig', -, _, checked, rfl⟩ := signed
  have decoded : hexDecode (hexEncode (bytes sig')) = some (bytes sig') :=
    hexDecode_hexEncode fun c mem => toNat_lt_of_mem_bytes mem
  refine ⟨enode_ne, ?_, bytes sig', decoded, ?_⟩
  · intro empty
    rw [empty] at decoded
    have no_bytes : [] = bytes sig' := Option.some.inj decoded
    rw [← no_bytes] at checked
    simp [check, checkP2pSig, R.no_bytes] at checked
  · simpa only [check, checkP2pSig, same] using checked

/-- A message that is passed on has the JSON of one that the node emitted. -/
theorem emitted_of_received {log : List (Text × Message)} (honest : Honest R E log)
    (sender : msg.ENode = E) (received : receive N R UnmarshalJSON s msg = .ok mm) :
    ∃ e ∈ log, marshal e.2 = marshal mm := by
  obtain ⟨-, -, -, ⟨sig, -, checked⟩, -⟩ := receive_eq_ok.mp received
  exact honest.unforgeable sig mm (sender ▸ checked)

theorem eq_of_marshal_eq {m : Message} (same : marshal m = marshal mm)
    (type_eq : m.content.type = mm.content.type) : m = mm := by
  obtain ⟨id_eq, index_eq, to_eq, -, values_eq⟩ := marshal_eq_iff.mp same
  obtain ⟨⟨type, values, complete⟩, FromID, FromIndex, ToID⟩ := m
  obtain ⟨⟨type', values', complete'⟩, FromID', FromIndex', ToID'⟩ := mm
  simp only at id_eq index_eq to_eq values_eq type_eq
  subst id_eq index_eq to_eq values_eq type_eq
  rfl

/-- In one of the two protocols the square-free proofs are the only messages of two types. -/
theorem type_eq_of_ownFields {T T' : GoType} {role : Role} (own : T.protocol = role.protocol)
    (own' : T'.protocol = role.protocol) (same : T.ownFields = T'.ownFields)
    (other : T ≠ .KGRound2Message2 ∧ T ≠ .KGRound5Message2) : T = T' := by
  rcases eq_or_twins_of_ownFields same with eq | twin | twin
  · exact eq
  all_goals
    simp only [twins, mem_cons, Prod.mk.injEq, not_mem_nil, or_false] at twin
    rcases twin with ⟨rfl, rfl⟩ | ⟨rfl, rfl⟩ | ⟨rfl, rfl⟩ | ⟨rfl, rfl⟩ | ⟨rfl, rfl⟩
    all_goals cases role <;> simp_all [GoType.protocol, Role.protocol]

/-- What reaches `DNode.Update` of the session as a message of `E` was emitted by `E` in that
session, with that type and content. -/
def Authentic (N : Names) (R : Recovery) (UnmarshalJSON : Ec2 → Text → Option Text)
    (Unmarshal : W → Option MsgMap) (hexs : W → Text) (E : Enode) (log : List (Text × Message))
    (s : Session) : Prop :=
  ∀ Update texts mm, (E, mm) ∈ process N R UnmarshalJSON Unmarshal hexs s Update [] [] texts →
    (s.key, mm) ∈ log

/-- **Origin of a round message.**  For every honest node and whatever is delivered: its messages
are authentic in all sessions if and only if, for each message it emitted, it also emitted every
message with that JSON in every session that reads it and takes its id.  In particular they are
authentic in a session if the node emits in no other one, and no square-free proof in this one. -/
theorem inbound_authentic_iff (N : Names) (R : Recovery) (UnmarshalJSON : Ec2 → Text → Option Text)
    {W : Type} (Unmarshal : W → Option MsgMap) (hexs : W → Text)
    (decodes : ∀ msg, ∃ m, Unmarshal m = some msg) {E : Enode} {log : List (Text × Message)}
    (honest : Honest R E log) (sessions : List Session) :
    ((∀ s ∈ sessions, Authentic N R UnmarshalJSON Unmarshal hexs E log s) ↔
      ∀ s ∈ sessions, ∀ e ∈ log, ∀ msg mm, s.realMessage UnmarshalJSON msg = some mm →
        marshal mm = marshal e.2 → Admits N s E mm.FromID → (s.key, mm) ∈ log) ∧
    ∀ s : Session,
      (∀ e ∈ log, e.1 = s.key ∧ e.2.content.type.protocol = s.role.protocol ∧
        e.2.content.type ≠ .KGRound2Message2 ∧ e.2.content.type ≠ .KGRound5Message2) →
      Authentic N R UnmarshalJSON Unmarshal hexs E log s := by
  refine ⟨⟨?_, ?_⟩, ?_⟩
  · intro authentic s s_mem e e_mem msg mm read same admits
    obtain ⟨Sign, sig, signed⟩ := honest.signed e e_mem
    obtain ⟨enode_ne, sig_ne, checked⟩ := passes_of_signed signed same
    -- the map with the sender and signature of the emitted message
    obtain ⟨m, decoded⟩ := decodes { msg with ENode := E, Sig := hexEncode (bytes sig) }
    have received : receive N R UnmarshalJSON s
        { msg with ENode := E, Sig := hexEncode (bytes sig) } = .ok mm :=
      receive_eq_ok.mpr ⟨read, sig_ne, enode_ne, checked, admits⟩
    refine authentic s s_mem (fun _ => true) [m] mm ?_
    rw [process_singleton decoded received]
    exact mem_singleton.mpr rfl
  · intro closed s s_mem Update texts mm mem
    rcases received_of_mem_process mem with held | ⟨msg, sender, received⟩
    · cases held
    · obtain ⟨e, e_mem, same⟩ := emitted_of_received honest sender received
      obtain ⟨read, -, -, -, admits⟩ := receive_eq_ok.mp received
      exact closed s s_mem e e_mem msg mm read same.symm (sender ▸ admits)
  · intro s only Update texts mm mem
    rcases received_of_mem_process mem with held | ⟨msg, sender, received⟩
    · cases held
    obtain ⟨e, e_mem, same⟩ := emitted_of_received honest sender received
    obtain ⟨read, -⟩ := receive_eq_ok.mp received
    obtain ⟨key_eq, own, other⟩ := only e e_mem
    have type_eq : e.2.content.type = mm.content.type :=
      type_eq_of_ownFields own (protocol_realMessage read)
        (marshal_eq_iff.mp same).2.2.2.1 other
    rw [← eq_of_marshal_eq same type_eq, ← key_eq]
    exact e_mem

end Network

/-! ## Two sessions of one group

The group of the nodes `aa` and `bb` runs two key generations.  Node `aa` signs with the byte `aa`. -/

def nodeA : Enode := ['a', 'a']

/-- Only the emitted messages have a signature. -/
def ideal (log : List (Text × Message)) : Recovery where
  SigToPub json sig :=
    if sig = bytes [0xaa] ∧ json ∈ log.map fun e => marshal e.2 then some [4, 0xaa] else none
  no_bytes json := by simp [bytes]

theorem honest_ideal (log : List (Text × Message)) : Honest (ideal log) nodeA log where
  signed e e_mem := by
    have known : marshal e.2 ∈ log.map fun e => marshal e.2 := mem_map_of_mem e_mem
    have encoded : (hexEncode (bytes [4, 0xaa])).drop 2 = nodeA := by decide +kernel
    refine ⟨fun _ => some [0xaa], [0xaa], ?_⟩
    simp only [sigP2pMsg, eq_ok, decide_eq_true_eq]
    refine ⟨(), by decide, [0xaa], rfl, (), ?_, rfl⟩
    simp only [check, checkP2pSig, ideal, known, and_self, if_true, map_some,
      decide_eq_true_eq]
    exact ⟨by decide, congrArg some encoded⟩
  unforgeable sig msg checked := by
    simp only [check, checkP2pSig, ideal, decide_eq_true_eq, map_eq_some_iff] at checked
    obtain ⟨-, pub, recovered, -⟩ := checked
    split at recovered
    · next known =>
      obtain ⟨e, e_mem, same⟩ := mem_map.mp known.2
      exact ⟨e, e_mem, same⟩
    · cases recovered

def session (key : Text) : Session where
  key
  role := .keygen
  group := twoNodes
  pubKeyGroup := []

/-- What node `aa` sends at its start. -/
def hello : Message where
  content := ⟨.KGRound0Message, [], rfl⟩
  FromID := idText 1
  FromIndex := -1
  ToID := none

def squareFree (type : GoType) (fields : type.ownFields = [.Num, .SfPf]) : Message where
  content := ⟨type, [.int 5, .ec2 ['p']], by rw [fields]; rfl⟩
  FromID := idText 1
  FromIndex := 0
  ToID := none

/-- A map with the index `index` of the node `aa`, the number 5 and the proof `p`. -/
def fromA (type : GoType) (index : Text) : MsgMap where
  type := some type
  ENode := nodeA
  Sig := nodeA
  field
    | .FromID => idText 1
    | .FromIndex => index
    | .Num => ['5']
    | .SfPf => ['p']
    | _ => []

def emitted : List (Text × Message) :=
  [(['k'], hello), (['k'], squareFree .KGRound2Message2 rfl)]

def passed (key : Text) (m : MsgMap) : List (Enode × Message) :=
  process twoNames (ideal emitted) (fun _ text => some text) some (fun _ => []) (session key)
    (fun _ => true) [] [] [m]

/-- A node that says hello and sends its bip32 number in one session. -/
theorem inbound_authentic_hello :
    let log := [(['k'], hello), (['k'], ⟨⟨.KGRound2Message1, [.int 5], rfl⟩, idText 1, 0, none⟩)]
    Authentic twoNames (ideal log) (fun _ text => some text) some (fun _ : MsgMap => []) nodeA log
      (session ['k']) ∧
    ∀ s ∈ [session ['k']], ∀ e ∈ log, ∀ msg mm, s.realMessage (fun _ text => some text) msg = some mm →
      marshal mm = marshal e.2 → Admits twoNames s nodeA mm.FromID → (s.key, mm) ∈ log := by
  intro log
  obtain ⟨closed_iff, in_one⟩ := inbound_authentic_iff twoNames (ideal log) (fun _ text => some text)
    some (fun _ => []) (fun msg => ⟨msg, rfl⟩) (honest_ideal log) [session ['k']]
  have authentic := in_one (session ['k']) (by decide)
  exact ⟨authentic, closed_iff.mp (forall_mem_singleton.mpr authentic)⟩

/-- The hello of session `k` passes in session `l`, and the square-free proof of round 2 passes as
one of round 5; the node emitted neither. -/
theorem hello_replayed_and_proof_retyped :
    Honest (ideal emitted) nodeA emitted ∧
    passed ['l'] (fromA .KGRound0Message ['-', '1']) = [(nodeA, hello)] ∧
    (['l'], hello) ∉ emitted ∧
    passed ['k'] (fromA .KGRound5Message2 ['0']) = [(nodeA, squareFree .KGRound5Message2 rfl)] ∧
    (['k'], squareFree .KGRound5Message2 rfl) ∉ emitted := by
  refine ⟨honest_ideal emitted, ?_, ?_, ?_, ?_⟩
  all_goals decide +kernel

end ThresholdDsa.Smpc.P2pMessage
