/-
# Round messages as maps and back

`OutMap` writes a round message as a map of texts, and `GetRealMessage`,
`SignGetRealMessage` and `ReshareGetRealMessage` read it.  Numbers are written in decimal,
lists joined by `:`, lists of points by `|`, and the structures of package `ec2` as JSON
objects of such texts.

`codec_iff` has two parts.  A message that a round sends is read back as it was, unless it is
a `ReRound5Message`, which `OutMap` writes under the name of another type.  A map is read as a
message of the type that it names, unless a keygen or reshare decoder falls through to the
message of round 0: for a name that it does not know, or for a structure that it cannot read.
-/
import ThresholdDsa.Lib.Framing
import ThresholdDsa.Smpc.P2pMessage

namespace ThresholdDsa.Smpc.P2pMessage

open Outcome GoText Framing List Option

/-! ## Numbers and lists as text -/

def joinBy (sep : Char) (texts : List Text) : Text := [sep].intercalate texts

/-- The characters of numbers and of lists of numbers. -/
def Plain (text : Text) : Prop := ∀ c ∈ text, c.toNat < 128

theorem intText_ne_nil (n : ℤ) : intText n ≠ [] := by
  unfold intText
  split
  · exact cons_ne_nil _ _
  · exact Nat.toDigits_ne_nil

theorem mem_intText {n : ℤ} {c : Char} (mem : c ∈ intText n) : c = '-' ∨ c.isDigit := by
  unfold intText at mem
  split at mem
  · rcases mem_cons.mp mem with minus | digit
    · exact .inl minus
    · exact .inr (itoa_isDigit digit)
  · exact .inr (itoa_isDigit mem)

theorem notMem_intText {sep : Char} (not_minus : sep ≠ '-') (not_digit : sep.isDigit = false)
    (n : ℤ) : sep ∉ intText n := by
  intro mem
  rcases mem_intText mem with minus | digit
  · exact not_minus minus
  · rw [not_digit] at digit
    cases digit

theorem plain_intText (n : ℤ) : Plain (intText n) := by
  intro c mem
  rcases mem_intText mem with rfl | digit
  · decide
  · simp only [Char.isDigit, Bool.and_eq_true, decide_eq_true_eq] at digit
    have upper : c.toNat ≤ '9'.toNat := digit.2
    exact upper.trans_lt (by decide)

theorem plain_joinBy {sep : Char} (small : sep.toNat < 128) {texts : List Text}
    (plain : ∀ text ∈ texts, Plain text) : Plain (joinBy sep texts) := by
  intro c mem
  rcases mem_intercalate mem with rfl | ⟨text, text_mem, inside⟩
  · exact small
  · exact plain text text_mem c inside

theorem joinBy_ne_nil {sep : Char} {texts : List Text} (some_text : texts ≠ [])
    (full : ∀ text ∈ texts, text ≠ []) : joinBy sep texts ≠ [] := by
  obtain ⟨first, rest, rfl⟩ := exists_cons_of_ne_nil some_text
  have first_ne : first ≠ [] := full first (by simp)
  cases rest with
  | nil => simpa [joinBy] using first_ne
  | cons => simp [joinBy, intercalate_cons_cons]

theorem atoi_intText {n : ℤ} (low : -2 ^ 63 ≤ n) (high : n < 2 ^ 63) : Atoi (intText n) = some n := by
  rw [Atoi, setString10_intText, filter_some, if_pos (by simpa using ⟨low, high⟩)]

/-- A list of numbers that is not empty. -/
abbrev Ints := { ns : List ℤ // ns ≠ [] }

/-- A list of lists of numbers, none of them empty. -/
abbrev Intss := { nss : List (List ℤ) // nss ≠ [] ∧ ∀ ns ∈ nss, ns ≠ [] }

def intsText (sep : Char) (ns : List ℤ) : Text := joinBy sep (ns.map intText)

def intssText (nss : List (List ℤ)) : Text := joinBy '|' (nss.map (intsText ':'))

theorem splitOn_intsText {sep : Char} (not_minus : sep ≠ '-') (not_digit : sep.isDigit = false)
    (ns : Ints) : (intsText sep ns.val).splitOn sep = ns.val.map intText := by
  refine splitOn_intercalate sep (forall_mem_map.mpr fun n _ => ?_) (by simpa using ns.2)
  exact notMem_intText not_minus not_digit n

theorem notMem_intsText (ns : List ℤ) : '|' ∉ intsText ':' ns := by
  intro mem
  rcases mem_intercalate mem with separator | ⟨text, text_mem, inside⟩
  · exact absurd separator (by decide)
  · obtain ⟨n, -, rfl⟩ := mem_map.mp text_mem
    exact notMem_intText (by decide) (by decide) n inside

theorem splitOn_intssText (nss : Intss) :
    (intssText nss.val).splitOn '|' = nss.val.map (intsText ':') := by
  refine splitOn_intercalate '|' (forall_mem_map.mpr fun ns _ => ?_)
    (by simpa using nss.2.1)
  exact notMem_intsText ns

/-! ## Structures of package `ec2` -/

/-- How a field of a structure is written. -/
inductive FieldKind where
  | int
  | length
  | ints
  | iterations
  deriving DecidableEq

def Iterations : ℕ := 128

/-- The JSON names of a structure, and how the fields are written. -/
def Ec2.layout : Ec2 → List (String × FieldKind)
  | .PublicKey => [("Length", .length), ("N", .int), ("G", .int), ("N2", .int)]
  | .SquareFreeProof => [("Y", .ints)]
  | .NtildeH1H2 => [("Ntilde", .int), ("H1", .int), ("H2", .int)]
  | .NtildeProof => [("Alpha", .iterations), ("T", .iterations)]
  | .HvProof => [("Y", .ints)]
  | .ZkXiProof => [("E", .int), ("S", .int)]
  | .MtARangeProof => [("Z", .int), ("U", .int), ("W", .int), ("S", .int), ("S1", .int), ("S2", .int)]
  | .MtARespZKProof =>
    [("Z", .int), ("ZBar", .int), ("T", .int), ("V", .int), ("W", .int), ("S", .int), ("S1", .int),
      ("S2", .int), ("T1", .int), ("T2", .int)]
  | .MtAwcRespZKProof =>
    [("Ux", .int), ("Uy", .int), ("Z", .int), ("ZBar", .int), ("T", .int), ("V", .int), ("W", .int),
      ("S", .int), ("S1", .int), ("S2", .int), ("T1", .int), ("T2", .int)]
  | .TProof => [("AlphaX", .int), ("AlphaY", .int), ("T", .int), ("U", .int)]
  | .ZkUProof => [("E", .int), ("S", .int)]
  | .PDLwSlackProof =>
    [("Z", .int), ("U1X", .int), ("U1Y", .int), ("U2", .int), ("U3", .int), ("S1", .int),
      ("S2", .int), ("S3", .int)]
  | .STProof =>
    [("AlphaX", .int), ("AlphaY", .int), ("BetaX", .int), ("BetaY", .int), ("T", .int), ("U", .int)]

/-- `json.Marshal` of a structure with text fields, and `json.Unmarshal` into one: the texts of its
fields.  Plain texts come back as they were. -/
structure Json where
  object : List (String × Text) → Text
  parse : List String → Text → Option (List Text)
  object_ne : ∀ entries, object entries ≠ []
  parse_object : ∀ (names : List String) (texts : List Text), names.Nodup →
    names.length = texts.length → (∀ text ∈ texts, Plain text) →
    parse names (object (names.zip texts)) = some texts

/-- The value of a field, a list where the kind is one of numbers. -/
def FieldKind.Fits : FieldKind → List ℤ → Prop
  | .int, ns => ns.length = 1
  | .length, ns => ∃ l, ns = [l] ∧ 0 < l ∧ l < 2 ^ 63
  | .ints, ns => ns ≠ []
  | .iterations, ns => ns.length = Iterations

def FieldKind.sep : FieldKind → Char
  | .iterations => '|'
  | _ => ':'

def FieldKind.write (kind : FieldKind) (ns : List ℤ) : Text := intsText kind.sep ns

def readNumbers (sep : Char) (text : Text) : Option (List ℤ) := (text.splitOn sep).mapM setString10

def FieldKind.read (kind : FieldKind) (text : Text) : Option (List ℤ) :=
  match kind with
  | .int => (setString10 text).map fun n => [n]
  | .length => ((Atoi text).filter fun l => 0 < l).map fun l => [l]
  | .ints => readNumbers ':' text
  | .iterations => (readNumbers '|' text).filter fun ns => ns.length = Iterations

/-- A structure with all its fields. -/
structure Ec2Data (name : Ec2) where
  values : List (List ℤ)
  fits : List.Forall₂ FieldKind.Fits (name.layout.map Prod.snd) values

def writeFields (kinds : List FieldKind) (values : List (List ℤ)) : List Text :=
  List.zipWith FieldKind.write kinds values

def readFields : List FieldKind → List Text → Option (List (List ℤ))
  | [], [] => some []
  | kind :: kinds, text :: texts => do
    let ns ← kind.read text
    let rest ← readFields kinds texts
    pure (ns :: rest)
  | _, _ => none

def MarshalJSON (json : Json) (name : Ec2) (values : List (List ℤ)) : Text :=
  json.object ((name.layout.map Prod.fst).zip (writeFields (name.layout.map Prod.snd) values))

/-- The structure that was read, as `MarshalJSON` writes it. -/
def UnmarshalJSON (json : Json) (name : Ec2) (raw : Text) : Option Text := do
  let texts ← json.parse (name.layout.map Prod.fst) raw
  let values ← readFields (name.layout.map Prod.snd) texts
  pure (MarshalJSON json name values)

variable {json : Json}

section Structures

variable {name : Ec2}

theorem layout_nodup (name : Ec2) : (name.layout.map Prod.fst).Nodup := by
  cases name <;> decide

theorem mapM_setString10 (ns : List ℤ) : (ns.map intText).mapM setString10 = some ns := by
  induction ns with
  | nil => rfl
  | cons n ns ih => rw [map_cons, mapM_cons, setString10_intText, ih]; rfl

theorem readNumbers_intsText {sep : Char} (not_minus : sep ≠ '-') (not_digit : sep.isDigit = false)
    (ns : Ints) : readNumbers sep (intsText sep ns.val) = some ns.val := by
  rw [readNumbers, splitOn_intsText not_minus not_digit, mapM_setString10]

theorem FieldKind.Fits.ne_nil {kind : FieldKind} {ns : List ℤ} (fits : kind.Fits ns) : ns ≠ [] := by
  cases kind with
  | int => exact ne_nil_of_length_eq_add_one fits
  | length =>
    obtain ⟨l, rfl, -⟩ := fits
    exact cons_ne_nil l []
  | ints => exact fits
  | iterations => exact ne_nil_of_length_eq_add_one (n := 127) fits

theorem FieldKind.read_write {kind : FieldKind} {ns : List ℤ} (fits : kind.Fits ns) :
    kind.read (kind.write ns) = some ns := by
  have numbers : readNumbers kind.sep (kind.write ns) = some ns := by
    refine readNumbers_intsText ?_ ?_ ⟨ns, fits.ne_nil⟩ <;> cases kind <;> decide
  cases kind with
  | int =>
    obtain ⟨n, rfl⟩ := length_eq_one_iff.mp fits
    simp [FieldKind.read, FieldKind.write, intsText, joinBy, setString10_intText]
  | length =>
    obtain ⟨l, rfl, pos, small⟩ := fits
    have text : FieldKind.write .length [l] = intText l := by
      simp [FieldKind.write, intsText, joinBy]
    rw [FieldKind.read, text, atoi_intText (by omega) small]
    simp [pos]
  | ints => exact numbers
  | iterations =>
    rw [FieldKind.read, show readNumbers '|' (FieldKind.write .iterations ns) = some ns from numbers,
      filter_some, if_pos (decide_eq_true (show ns.length = Iterations from fits))]

theorem plain_intsText {sep : Char} (small : sep.toNat < 128) (ns : List ℤ) :
    Plain (intsText sep ns) :=
  plain_joinBy small (forall_mem_map.mpr fun n _ => plain_intText n)

theorem readFields_writeFields {kinds : List FieldKind} {values : List (List ℤ)}
    (fits : List.Forall₂ FieldKind.Fits kinds values) :
    readFields kinds (writeFields kinds values) = some values := by
  induction fits with
  | nil => rfl
  | cons fit _ ih =>
    rw [writeFields, zipWith_cons_cons, readFields, FieldKind.read_write fit]
    rw [writeFields] at ih
    rw [ih]
    rfl

theorem plain_writeFields (kinds : List FieldKind) (values : List (List ℤ)) :
    ∀ text ∈ writeFields kinds values, Plain text := by
  induction kinds generalizing values with
  | nil => simp [writeFields]
  | cons kind kinds ih =>
    cases values with
    | nil => simp [writeFields]
    | cons ns values =>
      have plain : Plain (kind.write ns) := plain_intsText (by cases kind <;> decide) ns
      exact forall_mem_cons.mpr ⟨plain, ih values⟩

/-- A structure is read as it was written. -/
theorem unmarshal_marshalStruct (data : Ec2Data name) :
    UnmarshalJSON json name (MarshalJSON json name data.values) =
      some (MarshalJSON json name data.values) := by
  have lengths : (name.layout.map Prod.fst).length =
      (writeFields (name.layout.map Prod.snd) data.values).length := by
    have same := data.fits.length_eq
    simp only [length_map] at same
    simp [writeFields, same]
  simp only [UnmarshalJSON, MarshalJSON]
  rw [json.parse_object _ _ (layout_nodup name) lengths (plain_writeFields _ _)]
  simp only [bind_eq_bind, bind_some, readFields_writeFields data.fits]
  rfl

end Structures

/-! ## The messages that the rounds send -/

/-- A round message by its type, with the values of its fields: no number is nil and no list empty. -/
inductive Sent where
  | KGRound0Message
  | KGRound1Message (ComC ComCBip32 : ℤ) (U1PaillierPk : Ec2Data .PublicKey)
  | KGRound2Message (ID Share : ℤ)
  | KGRound2Message1 (C1 : ℤ)
  | KGRound2Message2 (Num : ℤ) (SfPf : Ec2Data .SquareFreeProof)
  | KGRound3Message (ComU1GD ComC1GD : Ints) (U1PolyGG : Intss)
  | KGRound3Message1 (Y : ℤ)
  | KGRound4Message (U1NtildeH1H2 : Ec2Data .NtildeH1H2)
      (NtildeProof1 NtildeProof2 : Ec2Data .NtildeProof) (ComXiC : ℤ)
  | KGRound5Message (ComXiGD : Ints)
  | KGRound5Message1 (Num : ℤ) (HvPf : Ec2Data .HvProof)
  | KGRound5Message2 (Num : ℤ) (SfPf : Ec2Data .SquareFreeProof)
  | KGRound6Message (U1zkXiProof : Ec2Data .ZkXiProof) (CheckPubkeyStatus : Bool)
  | SignRound1Message (C11 ComWiC : ℤ)
  | SignRound2Message (U1u1MtAZK1Proof : Ec2Data .MtARangeProof)
  | SignRound3Message (Kc : ℤ) (ComWiD : Ints)
  | SignRound4Message (U1KGamma1Cipher : ℤ) (U1u1MtAZK2Proof : Ec2Data .MtARespZKProof)
  | SignRound4Message1 (U1Kw1Cipher : ℤ) (U1u1MtAZK3Proof : Ec2Data .MtAwcRespZKProof)
  | SignRound5Message (Delta1 T1X T1Y : ℤ) (Tpf : Ec2Data .TProof)
  | SignRound6Message (CommU1D : Ints) (U1GammaZKProof : Ec2Data .ZkUProof)
  | SignRound7Message (K1RX K1RY : ℤ) (PdlwSlackPf : Ec2Data .PDLwSlackProof)
  | SignRound8Message (S1X S1Y : ℤ) (STpf : Ec2Data .STProof)
  | SignRound9Message (Us1 : ℤ)
  | ReRound0Message
  | ReRound1Message (ComC : ℤ)
  | ReRound2Message (ID Share : ℤ)
  | ReRound2Message1 (ComD : Ints) (SkP1PolyG : Intss)
  | ReRound3Message (U1PaillierPk : Ec2Data .PublicKey)
  | ReRound4Message (U1NtildeH1H2 : Ec2Data .NtildeH1H2)
      (NtildeProof1 NtildeProof2 : Ec2Data .NtildeProof)
  | ReRound5Message (NewSkOk : { text : Text // text ≠ [] })

/-- The value of a field that is a structure. -/
def ec2Value (json : Json) {name : Ec2} (data : Ec2Data name) : Value :=
  .ec2 (MarshalJSON json name data.values)

def Sent.content (json : Json) : Sent → Content
  | .KGRound0Message => ⟨.KGRound0Message, [], length_nil⟩
  | .KGRound1Message ComC ComCBip32 U1PaillierPk =>
    ⟨.KGRound1Message, [.int ComC, .int ComCBip32, ec2Value json U1PaillierPk], rfl⟩
  | .KGRound2Message ID Share => ⟨.KGRound2Message, [.int ID, .int Share], length_eq_two.mpr ⟨_, _, rfl⟩⟩
  | .KGRound2Message1 C1 => ⟨.KGRound2Message1, [.int C1], length_singleton⟩
  | .KGRound2Message2 Num SfPf => ⟨.KGRound2Message2, [.int Num, ec2Value json SfPf], rfl⟩
  | .KGRound3Message ComU1GD ComC1GD U1PolyGG =>
    ⟨.KGRound3Message, [.ints ComU1GD.val, .ints ComC1GD.val, .intss U1PolyGG.val], rfl⟩
  | .KGRound3Message1 Y => ⟨.KGRound3Message1, [.int Y], length_singleton⟩
  | .KGRound4Message U1NtildeH1H2 NtildeProof1 NtildeProof2 ComXiC =>
    ⟨.KGRound4Message, [ec2Value json U1NtildeH1H2, ec2Value json NtildeProof1,
      ec2Value json NtildeProof2, .int ComXiC], rfl⟩
  | .KGRound5Message ComXiGD => ⟨.KGRound5Message, [.ints ComXiGD.val], rfl⟩
  | .KGRound5Message1 Num HvPf => ⟨.KGRound5Message1, [.int Num, ec2Value json HvPf], rfl⟩
  | .KGRound5Message2 Num SfPf => ⟨.KGRound5Message2, [.int Num, ec2Value json SfPf], rfl⟩
  | .KGRound6Message U1zkXiProof CheckPubkeyStatus =>
    ⟨.KGRound6Message, [ec2Value json U1zkXiProof, .bool CheckPubkeyStatus], rfl⟩
  | .SignRound1Message C11 ComWiC =>
    ⟨.SignRound1Message, [.int C11, .int ComWiC], length_eq_two.mpr ⟨_, _, rfl⟩⟩
  | .SignRound2Message U1u1MtAZK1Proof =>
    ⟨.SignRound2Message, [ec2Value json U1u1MtAZK1Proof], rfl⟩
  | .SignRound3Message Kc ComWiD => ⟨.SignRound3Message, [.int Kc, .ints ComWiD.val], rfl⟩
  | .SignRound4Message U1KGamma1Cipher U1u1MtAZK2Proof =>
    ⟨.SignRound4Message, [.int U1KGamma1Cipher, ec2Value json U1u1MtAZK2Proof], rfl⟩
  | .SignRound4Message1 U1Kw1Cipher U1u1MtAZK3Proof =>
    ⟨.SignRound4Message1, [.int U1Kw1Cipher, ec2Value json U1u1MtAZK3Proof], rfl⟩
  | .SignRound5Message Delta1 T1X T1Y Tpf =>
    ⟨.SignRound5Message, [.int Delta1, .int T1X, .int T1Y, ec2Value json Tpf], rfl⟩
  | .SignRound6Message CommU1D U1GammaZKProof =>
    ⟨.SignRound6Message, [.ints CommU1D.val, ec2Value json U1GammaZKProof], rfl⟩
  | .SignRound7Message K1RX K1RY PdlwSlackPf =>
    ⟨.SignRound7Message, [.int K1RX, .int K1RY, ec2Value json PdlwSlackPf], rfl⟩
  | .SignRound8Message S1X S1Y STpf =>
    ⟨.SignRound8Message, [.int S1X, .int S1Y, ec2Value json STpf], rfl⟩
  | .SignRound9Message Us1 => ⟨.SignRound9Message, [.int Us1], length_singleton⟩
  | .ReRound0Message => ⟨.ReRound0Message, [], length_nil⟩
  | .ReRound1Message ComC => ⟨.ReRound1Message, [.int ComC], length_singleton⟩
  | .ReRound2Message ID Share => ⟨.ReRound2Message, [.int ID, .int Share], length_eq_two.mpr ⟨_, _, rfl⟩⟩
  | .ReRound2Message1 ComD SkP1PolyG =>
    ⟨.ReRound2Message1, [.ints ComD.val, .intss SkP1PolyG.val], rfl⟩
  | .ReRound3Message U1PaillierPk => ⟨.ReRound3Message, [ec2Value json U1PaillierPk], rfl⟩
  | .ReRound4Message U1NtildeH1H2 NtildeProof1 NtildeProof2 =>
    ⟨.ReRound4Message, [ec2Value json U1NtildeH1H2, ec2Value json NtildeProof1,
      ec2Value json NtildeProof2], rfl⟩
  | .ReRound5Message NewSkOk => ⟨.ReRound5Message, [.text NewSkOk.val], rfl⟩

/-! ## `OutMap` -/

def GoType.IsBroadcast : GoType → Bool
  | .KGRound2Message | .KGRound3Message1 | .SignRound2Message | .SignRound4Message
  | .SignRound4Message1 | .ReRound2Message => false
  | _ => true

/-- The entry `Type`: that of the last message of resharing is the name of the one before. -/
def GoType.entry : GoType → GoType
  | .ReRound5Message => .ReRound4Message
  | T => T

/-- The entry of a field has its JSON name, with one exception. -/
def Key.entry : Key → Key
  | .ComCBip32 => .ComC_bip32
  | key => key

def Value.text' : Value → Text
  | .null => "<nil>".toList
  | .int n => intText n
  | .ints ns => intsText ':' ns
  | .intss nss => intssText nss
  | .bool b => if b then "true".toList else "false".toList
  | .text t => t
  | .texts ts => joinBy ':' ts
  | .ec2 json => json

/-- The text of an entry in a list of names and texts. -/
def entryText (key : Key) : List Key → List Text → Text
  | name :: names, text :: texts => if key = name then text else entryText key names texts
  | _, _ => []

/-- The map of a message.  Sender and signature are added where the message goes out. -/
def Message.OutMap (m : Message) : MsgMap where
  type := some m.content.type.entry
  ENode := []
  Sig := []
  field key :=
    if key = .FromID then m.FromID
    else if key = .FromIndex then intText m.FromIndex
    else if key = .ToID then
      if m.content.type.IsBroadcast then [] else joinBy ':' (m.ToID.getD [])
    else entryText key (m.content.type.ownFields.map Key.entry) (m.content.values.map Value.text')

/-- What a round sends: a broadcast has no addressee, any other message one. -/
structure SentMessage where
  body : Sent
  FromID : Text
  fromID_ne : FromID ≠ []
  FromIndex : ℤ
  low : -2 ^ 63 ≤ FromIndex
  high : FromIndex < 2 ^ 63
  receiver : Text
  receiver_ne : receiver ≠ []
  receiver_colon : ':' ∉ receiver

/-- The messages of round 0, whose index is always `-1`. -/
def GoType.isRound0 : GoType → Bool
  | .KGRound0Message | .ReRound0Message => true
  | _ => false

def SentMessage.message (json : Json) (m : SentMessage) : Message where
  content := m.body.content json
  FromID := m.FromID
  FromIndex := if (m.body.content json).type.isRound0 then -1 else m.FromIndex
  ToID := if (m.body.content json).type.IsBroadcast then none else some [m.receiver]

/-! ## Reading the messages -/

section

variable (UnmarshalJSON : Ec2 → Text → Option Text) (msg : MsgMap)

/-- The decoder of a protocol, of those with `OutMap` and decoder over texts. -/
def realMessage : Protocol → Option Message
  | .keygen => GetRealMessage UnmarshalJSON msg
  | .signing => SignGetRealMessage UnmarshalJSON msg
  | .reshare => ReshareGetRealMessage UnmarshalJSON msg
  | _ => none

end

/-! ## What is written is read -/

theorem readInt_intText (n : ℤ) : readInt (intText n) = .ok n := by
  rw [readInt, setString10_intText]

theorem mapM_readInt (ns : List ℤ) : (ns.map intText).mapM readInt = .ok ns := by
  induction ns with
  | nil => rfl
  | cons n ns ih => rw [map_cons, mapM_cons, readInt_intText, ih]; rfl

theorem readInts_intsText (ns : Ints) : readInts ':' (intsText ':' ns.val) = .ok ns.val := by
  rw [readInts, splitOn_intsText (by decide) (by decide), mapM_readInt]

theorem mapM_readInts (nss : List (List ℤ)) (full : ∀ ns ∈ nss, ns ≠ []) :
    (nss.map (intsText ':')).mapM (readInts ':') = .ok nss := by
  induction nss with
  | nil => rfl
  | cons ns nss ih =>
    have first := readInts_intsText ⟨ns, full ns (by simp)⟩
    rw [map_cons, mapM_cons, first, ih fun other mem => full other (by simp [mem])]
    rfl

theorem read_intssText (nss : Intss) :
    ((intssText nss.val).splitOn '|').mapM (readInts ':') = .ok nss.val := by
  rw [splitOn_intssText, mapM_readInts _ nss.2.2]

theorem intsText_ne_nil (ns : Ints) : intsText ':' ns.val ≠ [] :=
  joinBy_ne_nil (by simpa using ns.2) (forall_mem_map.mpr fun n _ => intText_ne_nil n)

theorem intssText_ne_nil (nss : Intss) : intssText nss.val ≠ [] :=
  joinBy_ne_nil (by simpa using nss.2.1)
    (forall_mem_map.mpr fun ns mem => intsText_ne_nil ⟨ns, nss.2.2 ns mem⟩)

theorem header_outMap (m : SentMessage) :
    header (m.message json).OutMap =
      some (m.FromID, (m.message json).ToID, (m.message json).FromIndex) := by
  have index : Atoi (intText (m.message json).FromIndex) = some (m.message json).FromIndex := by
    refine atoi_intText ?_ ?_ <;> simp only [SentMessage.message] <;> split
    · norm_num
    · exact m.low
    · norm_num
    · exact m.high
  have toID : (if (m.message json).OutMap.field .ToID = [] then none
      else some (((m.message json).OutMap.field .ToID).splitOn ':')) = (m.message json).ToID := by
    simp only [Message.OutMap, SentMessage.message, reduceCtorEq, if_false, if_true]
    split
    · rfl
    · have alone : joinBy ':' [m.receiver] = m.receiver := by simp [joinBy]
      rw [getD_some, alone, if_neg m.receiver_ne]
      have single : (joinBy ':' [m.receiver]).splitOn ':' = [m.receiver] :=
        splitOn_intercalate ':' (by simpa using m.receiver_colon) (by simp)
      rw [alone] at single
      rw [single]
  simp only [header, toID]
  rw [show (m.message json).OutMap.field .FromIndex = intText (m.message json).FromIndex from rfl, index]
  rw [show (m.message json).OutMap.field .FromID = m.FromID from rfl, filter_some,
    if_pos (decide_eq_true m.fromID_ne)]
  rfl

/-- The branches of the decoder of a protocol. -/
def contentOf (json : Json) (msg : MsgMap) : Protocol → Except Stop Content
  | .keygen => kgContent (UnmarshalJSON json) msg
  | .signing => signContent (UnmarshalJSON json) msg
  | .reshare => reshareContent (UnmarshalJSON json) msg
  | _ => .error .nil

theorem read_bind {α β : Type} (a : α) (f : α → Except Stop β) : (Except.ok a >>= f) = f a := rfl

theorem marshalJSON_ne_nil (name : Ec2) (values : List (List ℤ)) : MarshalJSON json name values ≠ [] :=
  json.object_ne _

/-- The branch for a message that keeps the name of its type. -/
theorem contentOf_outMap (m : SentMessage) (later : (m.body.content json).type.isRound0 = false)
    (named : (m.body.content json).type ≠ .ReRound5Message) :
    contentOf json (m.message json).OutMap (m.body.content json).type.protocol =
      .ok (m.body.content json) := by
  obtain ⟨body, FromID, _, FromIndex, _, _, receiver, _, _⟩ := m
  cases body
  all_goals first
    | exact absurd rfl named
    | (cases later; done)
    | simp [contentOf, GoType.protocol, kgContent, signContent, reshareContent, Message.OutMap,
        SentMessage.message, Sent.content, GoType.entry, Key.entry,
        GoType.ownFields, Value.text', present, readEc2, ec2Value, unmarshal_marshalStruct,
        readInt_intText, readInts_intsText, read_intssText, intText_ne_nil, intsText_ne_nil,
        intssText_ne_nil, marshalJSON_ne_nil, setString10_intText, entryText, read_bind]

theorem realMessage_of_content {msg : MsgMap} {p : Protocol} {sender : Text}
    {toID : Option (List Text)} {index : ℤ} {content : Content}
    (head : header msg = some (sender, toID, index)) (made : contentOf json msg p = .ok content) :
    realMessage (UnmarshalJSON json) msg p =
      some { content, FromID := sender, FromIndex := index, ToID := toID } := by
  cases p with
  | keygen => simp [realMessage, GetRealMessage, head, show kgContent _ msg = _ from made]
  | signing => simp [realMessage, SignGetRealMessage, head, show signContent _ msg = _ from made]
  | reshare => simp [realMessage, ReshareGetRealMessage, head, show reshareContent _ msg = _ from made]
  | edKeygen => cases made
  | edSigning => cases made

/-- What is sent is read, except for the last message of resharing. -/
theorem realMessage_outMap_iff (m : SentMessage) :
    realMessage (UnmarshalJSON json) (m.message json).OutMap (m.body.content json).type.protocol =
      some (m.message json) ↔ (m.body.content json).type ≠ .ReRound5Message := by
  constructor
  · intro read last
    have unnamed : (m.message json).OutMap.field .U1NtildeH1H2 = [] := by
      obtain ⟨body, FromID, _, FromIndex, _, _, receiver, _, _⟩ := m
      cases body
      all_goals first
        | rfl
        | cases last
    rw [last] at read
    simp only [GoType.protocol, realMessage, ReshareGetRealMessage, header_outMap,
      bind_eq_bind, bind_some] at read
    have named : (m.message json).OutMap.type = some .ReRound4Message := by
      show some (m.body.content json).type.entry = _
      rw [last]
      rfl
    have refused : reshareContent (UnmarshalJSON json) (m.message json).OutMap = .error .nil := by
      simp [reshareContent, named, present, unnamed]
      rfl
    rw [refused] at read
    cases read
  · intro named
    by_cases first : (m.body.content json).type.isRound0 = true
    · obtain ⟨body, FromID, _, FromIndex, _, _, receiver, _, _⟩ := m
      cases body
      all_goals first
        | (cases first; done)
        | simp only [Sent.content, GoType.protocol, realMessage, GetRealMessage,
            ReshareGetRealMessage, header_outMap, bind_eq_bind, bind_some]
          rfl
    · have later := Bool.eq_false_iff.mpr first
      exact realMessage_of_content (header_outMap m) (contentOf_outMap m later named)

/-! ## Maps that are read as a message of round 0 -/

/-- The structures that the branch of a type reads, in this order. -/
def GoType.structures : GoType → List (Ec2 × Key)
  | .KGRound1Message => [(.PublicKey, .U1PaillierPk)]
  | .KGRound2Message2 => [(.SquareFreeProof, .SfPf)]
  | .KGRound4Message =>
    [(.NtildeH1H2, .U1NtildeH1H2), (.NtildeProof, .NtildeProof1), (.NtildeProof, .NtildeProof2)]
  | .KGRound5Message1 => [(.HvProof, .HvPf)]
  | .KGRound5Message2 => [(.SquareFreeProof, .SfPf)]
  | .KGRound6Message => [(.ZkXiProof, .U1zkXiProof)]
  | .ReRound3Message => [(.PublicKey, .U1PaillierPk)]
  | .ReRound4Message =>
    [(.NtildeH1H2, .U1NtildeH1H2), (.NtildeProof, .NtildeProof1), (.NtildeProof, .NtildeProof2)]
  | _ => []

/-- The other entries that have to be there before the first structure is read. -/
def GoType.required : GoType → List Key
  | .KGRound2Message2 | .KGRound5Message1 | .KGRound5Message2 => [.Num]
  | .ReRound4Message => [.NtildeProof1, .NtildeProof2]
  | _ => []

section FallThrough

variable (UnmarshalJSON : Ec2 → Text → Option Text) (msg : MsgMap)

/-- One of the structures is there and cannot be read, and those before it can. -/
def Stumbles : List (Ec2 × Key) → Prop
  | [] => False
  | (name, key) :: rest =>
    msg.field key ≠ [] ∧ (UnmarshalJSON name (msg.field key) = none ∨ Stumbles rest)

/-- The map names a type that the decoder does not know, or a structure of the type cannot be read. -/
def FallsThrough (p : Protocol) : Prop :=
  (∀ T, msg.type = some T → T.protocol ≠ p ∨ T.isRound0) ∨
    ∃ T, msg.type = some T ∧ T.protocol = p ∧ (∀ key ∈ T.required, msg.field key ≠ []) ∧
      Stumbles UnmarshalJSON msg T.structures

variable {UnmarshalJSON msg} {α β : Type} {x : Except Stop α}

theorem bind_eq_next {f : α → Except Stop β} :
    (x >>= f) = .error .next ↔ x = .error .next ∨ ∃ a, x = .ok a ∧ f a = .error .next := by
  cases x with
  | error stop => simp [Bind.bind, Except.bind]
  | ok a => simp [Bind.bind, Except.bind]

theorem present_ne_next {names : List Key} : present msg names ≠ .error .next := by
  unfold present
  split <;> simp

theorem present_eq_ok {names : List Key} {u : Unit} :
    present msg names = .ok u ↔ ∀ name ∈ names, msg.field name ≠ [] := by
  unfold present
  split
  · rename_i missing
    simpa using missing
  · rename_i full
    simpa using full

theorem readInt_ne_next {text : Text} : readInt text ≠ .error .next := by
  unfold readInt
  split <;> simp

theorem mapM_ne_next {f : α → Except Stop β} (never : ∀ a, f a ≠ .error .next) (xs : List α) :
    xs.mapM f ≠ .error .next := by
  induction xs with
  | nil => simp [pure, Except.pure]
  | cons a xs ih =>
    rw [mapM_cons]
    intro stops
    rcases bind_eq_next.mp stops with first | ⟨b, -, rest⟩
    · exact never a first
    · rcases bind_eq_next.mp rest with rest | ⟨_, -, done⟩
      · exact ih rest
      · cases done

theorem readInts_ne_next {sep : Char} {text : Text} : readInts sep text ≠ .error .next :=
  mapM_ne_next (fun _ => readInt_ne_next) _

theorem readEc2_eq_next {name : Ec2} {key : Key} :
    readEc2 UnmarshalJSON msg name key = .error .next ↔
      UnmarshalJSON name (msg.field key) = none := by
  unfold readEc2
  split <;> simp_all

theorem exists_readEc2 {name : Ec2} {key : Key} :
    (∃ v, readEc2 UnmarshalJSON msg name key = .ok v) ↔
      UnmarshalJSON name (msg.field key) ≠ none := by
  unfold readEc2
  split <;> simp_all

theorem map_eq_next {f : α → β} :
    f <$> x = .error .next ↔ x = .error .next := by
  cases x <;> simp [Functor.map, Except.map]

theorem kgContent_eq_next :
    kgContent UnmarshalJSON msg = .error .next ↔ FallsThrough UnmarshalJSON msg .keygen := by
  cases named : msg.type with
  | none => simp [kgContent, FallsThrough, named]
  | some T =>
    cases T <;> simp [kgContent, FallsThrough, named, bind_eq_next, map_eq_next, present_ne_next,
      present_eq_ok, readInt_ne_next, readInts_ne_next, mapM_ne_next, readEc2_eq_next, exists_readEc2,
      GoType.protocol, GoType.isRound0, GoType.required, GoType.structures, Stumbles]
    -- the branches that read more than one entry before the structure, or several structures
    all_goals tauto

theorem reshareContent_eq_next :
    reshareContent UnmarshalJSON msg = .error .next ↔ FallsThrough UnmarshalJSON msg .reshare := by
  cases named : msg.type with
  | none => simp [reshareContent, FallsThrough, named]
  | some T =>
    cases T <;> simp [reshareContent, FallsThrough, named, bind_eq_next, map_eq_next, present_ne_next,
      present_eq_ok, readInt_ne_next, readInts_ne_next, mapM_ne_next, readEc2_eq_next, exists_readEc2,
      GoType.protocol, GoType.isRound0, GoType.required, GoType.structures, Stumbles]
    all_goals tauto

/-- A branch makes a message of the type that the map names. -/
def Named (msg : MsgMap) (x : Except Stop Content) : Prop := ∀ c, x = .ok c → msg.type = some c.type

theorem named_error {stop : Stop} : Named msg (.error stop) := by
  intro c made
  cases made

theorem named_bind {f : α → Except Stop Content} (rest : ∀ a, Named msg (f a)) :
    Named msg (x >>= f) := by
  cases x with
  | error stop => exact named_error
  | ok a => exact rest a

theorem named_pure {c : Content} (own : msg.type = some c.type) : Named msg (pure c) := by
  intro c' made
  cases made
  exact own

theorem named_kgContent : Named msg (kgContent UnmarshalJSON msg) := by
  unfold kgContent
  split
  all_goals first
    | exact named_error
    | repeat refine named_bind fun _ => ?_
      exact named_pure ‹_›

theorem named_signContent : Named msg (signContent UnmarshalJSON msg) := by
  unfold signContent
  split
  all_goals first
    | exact named_error
    | repeat refine named_bind fun _ => ?_
      exact named_pure ‹_›

theorem named_reshareContent : Named msg (reshareContent UnmarshalJSON msg) := by
  unfold reshareContent
  split
  all_goals first
    | exact named_error
    | repeat refine named_bind fun _ => ?_
      exact named_pure ‹_›

end FallThrough

/-- The map has a header, does not name the message of round 0, and falls through to it. -/
structure Misread (UnmarshalJSON : Ec2 → Text → Option Text) (msg : MsgMap) (p : Protocol) : Prop where
  lenient : p = .keygen ∨ p = .reshare
  head : (header msg).isSome
  other : ∀ T, msg.type = some T → ¬ (T.protocol = p ∧ T.isRound0)
  falls : FallsThrough UnmarshalJSON msg p

/-- The end of the two decoders that have a message of round 0. -/
def finishRead (head : Option (Text × Option (List Text) × ℤ)) (read : Except Stop Content)
    (zero : Content) : Option Message := do
  let (sender, toID, index) ← head
  match read with
  | .ok content => some { content, FromID := sender, FromIndex := index, ToID := toID }
  | .error .nil => none
  | .error .next => some { content := zero, FromID := sender, FromIndex := -1, ToID := toID }

theorem keygen_round0_iff (T : GoType) :
    T.protocol = .keygen ∧ T.isRound0 = true ↔ T = .KGRound0Message := by
  cases T <;> decide

theorem reshare_round0_iff (T : GoType) :
    T.protocol = .reshare ∧ T.isRound0 = true ↔ T = .ReRound0Message := by
  cases T <;> decide

theorem finishRead_named_iff {UnmarshalJSON : Ec2 → Text → Option Text} {msg : MsgMap} {p : Protocol}
    {read : Except Stop Content} {zero : Content} (lenient : p = .keygen ∨ p = .reshare)
    (zero_iff : ∀ T : GoType, T.protocol = p ∧ T.isRound0 = true ↔ T = zero.type)
    (named : Named msg read) (next_iff : read = .error .next ↔ FallsThrough UnmarshalJSON msg p) :
    (∀ mm, finishRead (header msg) read zero = some mm → msg.type = some mm.content.type) ↔
      ¬ Misread UnmarshalJSON msg p := by
  cases head : header msg with
  | none =>
    refine ⟨fun _ misread => ?_, fun _ mm made => by cases made⟩
    simpa [head] using misread.head
  | some parts =>
    obtain ⟨sender, toID, index⟩ := parts
    by_cases falls : read = .error .next
    · rw [falls]
      constructor
      · intro kept misread
        exact misread.other _ (kept _ rfl) ((zero_iff _).mpr rfl)
      · intro kept mm made
        cases made
        by_contra other
        refine kept ⟨lenient, by simp [head], fun T type_eq first => other ?_, next_iff.mp falls⟩
        rw [type_eq, (zero_iff T).mp first]
    · refine ⟨fun _ misread => falls (next_iff.mpr misread.falls), fun _ mm made => ?_⟩
      cases read with
      | ok content =>
        cases made
        exact named content rfl
      | error stop =>
        cases stop with
        | nil => cases made
        | next => exact absurd rfl falls

theorem realMessage_named_iff (UnmarshalJSON : Ec2 → Text → Option Text) (msg : MsgMap)
    (p : Protocol) :
    (∀ mm, realMessage UnmarshalJSON msg p = some mm → msg.type = some mm.content.type) ↔
      ¬ Misread UnmarshalJSON msg p := by
  cases p with
  | keygen => exact finishRead_named_iff (.inl rfl) keygen_round0_iff named_kgContent kgContent_eq_next
  | reshare =>
    exact finishRead_named_iff (.inr rfl) reshare_round0_iff named_reshareContent
      reshareContent_eq_next
  | signing =>
    refine ⟨fun _ misread => by simpa using misread.lenient, fun _ mm made => ?_⟩
    simp only [realMessage, SignGetRealMessage, bind_eq_bind, bind_eq_some_iff] at made
    obtain ⟨⟨sender, toID, index⟩, -, made⟩ := made
    split at made
    · next content read =>
      cases made
      exact named_signContent content read
    · cases made
  | edKeygen => exact ⟨fun _ misread => by simpa using misread.lenient, fun _ mm made => by cases made⟩
  | edSigning => exact ⟨fun _ misread => by simpa using misread.lenient, fun _ mm made => by cases made⟩

/-- **Messages and maps.**  A message that a round sends is read back as it was exactly if it is not
a `ReRound5Message`; and a map is read as nil or as a message of the type it names exactly if it does
not fall through to the message of round 0. -/
theorem codec_iff (json : Json) :
    (∀ m : SentMessage,
      realMessage (UnmarshalJSON json) (m.message json).OutMap
          (m.message json).content.type.protocol = some (m.message json) ↔
        (m.message json).content.type ≠ .ReRound5Message) ∧
    ∀ (p : Protocol) (msg : MsgMap),
      (∀ mm, realMessage (UnmarshalJSON json) msg p = some mm → msg.type = some mm.content.type) ↔
        ¬ Misread (UnmarshalJSON json) msg p :=
  ⟨realMessage_outMap_iff, fun p msg => realMessage_named_iff _ msg p⟩

/-! ## Two messages that are not read

The JSON text of the fields is their texts, joined by a character that is not plain. -/

def separator : Char := Char.ofNat 200

def joinJson (entries : List (String × Text)) : Text :=
  '\x7b' :: joinBy separator (entries.map Prod.snd)

def splitJson : List String → Text → Option (List Text)
  | [], _ => some []
  | _, _ :: rest => some (rest.splitOn separator)
  | _, [] => none

theorem splitJson_joinJson (names : List String) (texts : List Text) (_ : names.Nodup)
    (lengths : names.length = texts.length) (plain : ∀ text ∈ texts, Plain text) :
    splitJson names (joinJson (names.zip texts)) = some texts := by
  cases names with
  | nil =>
    obtain rfl : texts = [] := length_eq_zero_iff.mp lengths.symm
    rfl
  | cons name names =>
    have values : ((name :: names).zip texts).map Prod.snd = texts :=
      map_snd_zip lengths.ge
    have some_text : texts ≠ [] := by
      rintro rfl
      cases lengths
    have free : ∀ text ∈ texts, separator ∉ text := fun text mem inside =>
      absurd (plain text mem separator inside) (by decide)
    rw [joinJson, values]
    exact congrArg some (splitOn_intercalate separator free some_text)

def textJson : Json where
  object := joinJson
  parse := splitJson
  object_ne _ := cons_ne_nil _ _
  parse_object := splitJson_joinJson

theorem true_ne_nil : "TRUE".toList ≠ [] := by decide

def lastMessage : SentMessage where
  body := .ReRound5Message ⟨"TRUE".toList, true_ne_nil⟩
  FromID := ['3', '1']
  fromID_ne := by decide
  FromIndex := 0
  low := by norm_num
  high := by norm_num
  receiver := ['3', '2']
  receiver_ne := by decide
  receiver_colon := by decide

/-- A map that names round 1 of key generation, with a Paillier key that is no structure. -/
def brokenMap : MsgMap where
  type := some .KGRound1Message
  ENode := ['e']
  Sig := ['0', '0']
  field
    | .FromID => ['3', '1']
    | .FromIndex => ['0']
    | .U1PaillierPk => ['x']
    | _ => []

/-- The last message of resharing is not read, and the map with the broken key is read as a message
of round 0. -/
theorem last_message_unread :
    realMessage (UnmarshalJSON textJson) (lastMessage.message textJson).OutMap .reshare = none ∧
    (realMessage (UnmarshalJSON textJson) brokenMap .keygen).map (fun mm => mm.content.type) =
      some .KGRound0Message :=
  ⟨by decide +kernel, by decide +kernel⟩

end ThresholdDsa.Smpc.P2pMessage
