/-
# The table of node groups

A group id is a hash chain over the ids of the group's nodes, computed by
`CreateSDKGroup`.  The groups a node knows come from Group packets:
`recvGroupInfo` stores the node list of a packet under the id in the packet,
whoever sent it, in memory and on disk, and `getGroupSDK` looks a group up by the
first eight hexadecimal digits of its id.

`group_membership_fixed`: in every run in which each stored packet carries the
nodes its id is the chain of, and no two group ids begin with the same eight
digits, a lookup gives nodes whose chain is the id asked for, and so always the
same ones.
-/
import ThresholdDsa.Lib.GoText
import ThresholdDsa.Lib.HashChain
import ThresholdDsa.Lib.Outcome
import Mathlib.Data.List.Sort

namespace ThresholdDsa.P2p

set_option linter.unusedSectionVars false

open Outcome GoText HashChain Function Option List

/-! ## Groups and their ids -/

structure RpcNode (NodeID : Type) where
  ID : NodeID
  IP : Text
  (UDP TCP : ℕ)
  deriving DecidableEq

/-- The type of a group, with `1+1+1` and `1+2` told apart from all other texts. -/
inductive GroupType where
  | oneOneOne
  | oneTwo
  | other (text : Text)
  deriving DecidableEq

def GroupType.sdk : GroupType → Bool
  | .other _ => false
  | _ => true

structure Group (NodeID : Type) where
  ID : NodeID
  type : GroupType
  Nodes : List (RpcNode NodeID)
  deriving DecidableEq

inductive P2pType where
  | Sdkprotocol_type | SmpcProtocol_type | Xprotocol_type | unknown
  deriving DecidableEq

/-- What lies outside the table.  `Keccak512` hashes an id's hexadecimal text, after the digest so
far if there is one: both have fixed lengths, so the arguments are the bytes hashed.
`nodeFromRPC` is whether a node received from a sender is accepted. -/
structure Net (NodeID : Type) where
  String : NodeID → Text
  HexID : Text → Option NodeID
  zero : NodeID
  Keccak512 : Option NodeID → NodeID → NodeID
  ParseNode : Text → Option (RpcNode NodeID)
  nodeFromRPC : Text → RpcNode NodeID → Bool

variable {NodeID : Type} (L : Net NodeID)

/-- The nodes of the enodes in the order of the sorted texts. -/
def parseSorted (enodes : List Text) : Outcome (List (RpcNode NodeID)) :=
  (enodes.insertionSort (· ≤ ·)).mapM fun un => orError "parse err" (L.ParseNode un)

def getGIDFromEnodes (enodes : List Text) : Outcome NodeID := do
  let nodes ← parseSorted L enodes
  orError "wrong length, want 64 bytes" (chain L.Keccak512 (nodes.map (·.ID)))

/-- The first eight hexadecimal digits. -/
def Net.head8 (id : NodeID) : Text := (L.String id).take 8

/-! ## The table -/

structure State (NodeID : Type) where
  (SdkGroup SDK_groupList db : NodeID → Option (Group NodeID))

def State.empty : State NodeID := ⟨fun _ => none, fun _ => none, fun _ => none⟩

variable (order : List NodeID)

/-- `order` is the order in which the map is visited. -/
def getGroupSDK (st : State NodeID) (gid : NodeID) : Option (Group NodeID) :=
  order.findSome? fun id =>
    (st.SdkGroup id).filter fun g => g.type.sdk && L.head8 id = L.head8 gid

def checkExistGroup (st : State NodeID) (gid : NodeID) : Bool :=
  (st.SdkGroup gid).any (·.type.sdk)

def getGroup (st : State NodeID) (gid : NodeID) : List (RpcNode NodeID) :=
  match getGroupSDK L order st gid with
  | some g => g.Nodes
  | none => []

def SdkProtocol_getGroup (st : State NodeID) (gID : Text) :
    List (RpcNode NodeID) :=
  match L.HexID gID with
  | some gid => if checkExistGroup st gid then getGroup L order st gid else []
  | none => []

/-- The groups on disk replace those in memory. -/
def RecoverGroupAll (db groups : NodeID → Option (Group NodeID)) : NodeID → Option (Group NodeID) :=
  fun id => (db id).or (groups id)

/-- Which database operations of one call succeed. -/
structure Disk where
  (stores recoversSdk recoversList : Bool)

variable [DecidableEq NodeID]

/-- How many received nodes are in the group with the same address. -/
def sameNodes (known nodes : List (RpcNode NodeID)) : ℕ :=
  (nodes.filter fun node =>
    (known.find? (·.ID = node.ID)).any fun n => n.IP = node.IP ∧ n.UDP = node.UDP).length

/-- Whether `recvGroupInfo` returns at once.  A group that is stored under `gid` with a type that
the lookup skips may leave a nil group. -/
def existGid (st : State NodeID) (gid : NodeID) (nodes : List (RpcNode NodeID)) : Outcome Bool :=
  if (st.SdkGroup gid).isNone then pure false
  else if nodes = [] then pure true
  else do
    let groupTmp ← deref (getGroupSDK L order st gid)
    pure (sameNodes groupTmp.Nodes nodes = nodes.length)

def recovered (disk : Disk) (st : State NodeID) : State NodeID :=
  { st with
    SdkGroup := if disk.recoversSdk then RecoverGroupAll st.db st.SdkGroup else st.SdkGroup
    SDK_groupList :=
      if disk.recoversSdk && disk.recoversList then RecoverGroupAll st.db st.SDK_groupList
      else st.SDK_groupList }

def StoreGroupToDb (disk : Disk) (st : State NodeID) (g : Group NodeID) : State NodeID :=
  if disk.stores then recovered disk { st with db := update st.db g.ID (some g) } else st

def recvGroupInfo (disk : Disk) (st : State NodeID) (gid : NodeID) (nodes : List (RpcNode NodeID))
    (p2pType : P2pType) (type : GroupType) :
    Outcome (State NodeID) :=
  let Nodes := nodes.map fun node => { node with TCP := node.UDP }
  match p2pType with
  | .Sdkprotocol_type => do
    let exist ← existGid L order st gid nodes
    if exist then pure st else
      let groupTmp : Group NodeID := { ID := gid, type, Nodes }
      pure (StoreGroupToDb disk
        { st with SdkGroup := update st.SdkGroup gid (some groupTmp) } groupTmp)
  -- these groups have no id and no type of their own, and are stored all the same
  | .SmpcProtocol_type | .Xprotocol_type =>
    pure (StoreGroupToDb disk st { ID := L.zero, type := .other [], Nodes })
  | .unknown => pure st

/-- A Group packet that arrives. -/
structure GroupMsg (NodeID : Type) where
  sender : Text
  expired : Bool
  p2pType : P2pType
  group : Group NodeID

def handle (disk : Disk) (st : State NodeID) (req : GroupMsg NodeID) :
    Outcome (State NodeID) := do
  require (!req.expired) "expired"
  require (req.group.Nodes.all (L.nodeFromRPC req.sender)) "p2perror"
  recvGroupInfo L order disk st req.group.ID req.group.Nodes req.p2pType req.group.type

/-- `buildSDKGroup`: a sub group has as many nodes as the threshold asks for, the last ones zero if
there are too few. -/
def groupNodes (subGroup : Bool) (nodeNum0 : ℕ) (enode : List (RpcNode NodeID)) :
    List (RpcNode NodeID) :=
  if subGroup then
    enode.take nodeNum0 ++ List.replicate (nodeNum0 - enode.length) ⟨L.zero, [], 0, 0⟩
  else enode

/-- The group is put into the list of groups to announce. -/
def CreateSDKGroup (st : State NodeID) (threshold : Text) (enodes : List Text) (subGroup : Bool) :
    Outcome (State NodeID × NodeID × ℕ) := do
  let es := threshold.splitOn '/'
  require (es.length = 2) "args threshold format is wrong"
  let nodeNum0 := (atoiValue (es.head?.getD [])).toNat
  let enode ← enodes.mapM fun e => orError "enode wrong format" (L.ParseNode e)
  let gid ← getGIDFromEnodes L (if subGroup then enodes.take nodeNum0 else enodes)
  let groupTmp : Group NodeID :=
    { ID := gid, type := .oneOneOne, Nodes := groupNodes L subGroup nodeNum0 enode }
  pure ({ st with SDK_groupList := update st.SDK_groupList gid (some groupTmp) }, gid,
    enodes.length)

/-! ## Runs -/

inductive Event (NodeID : Type) where
  | packet (order : List NodeID) (disk : Disk) (req : GroupMsg NodeID)
  | create (threshold : Text) (enodes : List Text) (subGroup : Bool)
  | restart (disk : Disk)

/-- A call that returns an error changes nothing; one that panics ends the process. -/
def settle (st : State NodeID) : Outcome (State NodeID) → State NodeID
  | .ok st' => st'
  | .error (.error _) => st
  | .error .panic => { State.empty with db := st.db }

def step (st : State NodeID) : Event NodeID → State NodeID
  | .packet order disk req => settle st (handle L order disk st req)
  | .create threshold enodes subGroup =>
    settle st ((CreateSDKGroup L st threshold enodes subGroup).map (·.1))
  | .restart disk => recovered disk { State.empty with db := st.db }

def run (events : List (Event NodeID)) : State NodeID := events.foldl (step L) State.empty

/-! ## Ids and members -/

/-- The ids of the nodes are those of a list of enodes that gives this group id. -/
def HasGid (gid : NodeID) (nodes : List (RpcNode NodeID)) : Prop :=
  ∃ enodes parsed, parseSorted L enodes = .ok parsed ∧
    (parsed.map (·.ID)).Perm (nodes.map (·.ID)) ∧ getGIDFromEnodes L enodes = .ok gid

/-- The group is in memory or on disk. -/
def State.Holds (st : State NodeID) (id : NodeID) (g : Group NodeID) : Prop :=
  st.SdkGroup id = some g ∨ st.db id = some g

/-- Every group that a lookup can find has the members its id stands for, and is the only one with
its first eight digits. -/
structure Sound (st : State NodeID) : Prop where
  members : ∀ {id g}, st.Holds id g → g.type.sdk → HasGid L id g.Nodes
  apart : ∀ {id g id' g'}, st.Holds id g → g.type.sdk → st.Holds id' g' → g'.type.sdk →
    L.head8 id = L.head8 id' → id = id'

/-- A packet with a group that lookups find carries the members of its id, and the id begins unlike
the ids of all other such groups. -/
def Genuine (st : State NodeID) : Event NodeID → Prop
  | .packet _ _ req =>
    req.p2pType = .Sdkprotocol_type → req.group.type.sdk →
      HasGid L req.group.ID req.group.Nodes ∧
      ∀ id g, st.Holds id g → g.type.sdk → L.head8 id = L.head8 req.group.ID → id = req.group.ID
  | _ => True

/-- Every step from `st` on is genuine. -/
def GenuineRun : State NodeID → List (Event NodeID) → Prop
  | _, [] => True
  | st, e :: events => Genuine L st e ∧ GenuineRun (step L st e) events

variable {L} in
theorem HasGid.congr {gid : NodeID} {nodes nodes' : List (RpcNode NodeID)}
    (has : HasGid L gid nodes) (same : nodes'.map (·.ID) = nodes.map (·.ID)) :
    HasGid L gid nodes' := by
  obtain ⟨enodes, parsed, parse, perm, got⟩ := has
  exact ⟨enodes, parsed, parse, same ▸ perm, got⟩

variable {st : State NodeID} {g : Group NodeID}

section

variable {L}

/-- A state that holds nothing new stays sound. -/
theorem Sound.mono {st' : State NodeID} (sound : Sound L st)
    (held : ∀ id g, st'.Holds id g → g.type.sdk → st.Holds id g) : Sound L st' where
  members holds sdk := sound.members (held _ _ holds sdk) sdk
  apart holds sdk holds' sdk' := sound.apart (held _ _ holds sdk) sdk (held _ _ holds' sdk') sdk'

variable {id : NodeID} {disk : Disk}

theorem holds_recovered (holds : (recovered disk st).Holds id g) : st.Holds id g := by
  rcases holds with memory | stored
  · simp only [recovered] at memory
    split at memory
    · simp only [RecoverGroupAll, or_eq_some_iff] at memory
      rcases memory with onDisk | ⟨-, inMemory⟩
      · exact .inr onDisk
      · exact .inl inMemory
    · exact .inl memory
  · exact .inr stored

/-- Storing a group adds only this group. -/
theorem holds_store {g' : Group NodeID} (holds : (StoreGroupToDb disk st g).Holds id g') :
    st.Holds id g' ∨ id = g.ID ∧ g' = g := by
  unfold StoreGroupToDb at holds
  split at holds
  · rcases holds_recovered holds with memory | stored
    · exact .inl (.inl memory)
    · by_cases same : id = g.ID
      · subst same
        simp only [update_self, Option.some.injEq] at stored
        exact .inr ⟨rfl, stored.symm⟩
      · simp only [update_of_ne same] at stored
        exact .inl (.inr stored)
  · exact .inl holds

/-- What a call of `recvGroupInfo` adds to the table, at most. -/
theorem holds_recvGroupInfo {order : List NodeID} {st' : State NodeID} {gid : NodeID}
    {nodes : List (RpcNode NodeID)} {p2pType : P2pType} {type : GroupType}
    (received : recvGroupInfo L order disk st gid nodes p2pType type = .ok st')
    (holds : st'.Holds id g) (sdk : g.type.sdk) :
    st.Holds id g ∨ p2pType = .Sdkprotocol_type ∧ type.sdk ∧ id = gid ∧
      g.Nodes.map (·.ID) = nodes.map (·.ID) := by
  cases p2pType with
  | Sdkprotocol_type =>
    simp only [recvGroupInfo, bind_eq_ok] at received
    obtain ⟨exist, -, received⟩ := received
    split at received
    · cases received
      exact .inl holds
    cases received
    rcases holds_store holds with before | ⟨rfl, rfl⟩
    · rcases before with memory | stored
      · by_cases same : id = gid
        · subst same
          simp only [update_self, Option.some.injEq] at memory
          subst memory
          exact .inr ⟨rfl, sdk, rfl, by simp⟩
        · simp only [update_of_ne same] at memory
          exact .inl (.inl memory)
      · exact .inl (.inr stored)
    · exact .inr ⟨rfl, sdk, rfl, by simp⟩
  | SmpcProtocol_type | Xprotocol_type =>
    cases received
    rcases holds_store holds with before | ⟨-, rfl⟩
    · exact .inl before
    · cases sdk
  | unknown =>
    cases received
    exact .inl holds

theorem holds_crash (holds : ({ State.empty with db := st.db } : State NodeID).Holds id g) :
    st.Holds id g := by
  rcases holds with memory | stored
  · cases memory
  · exact .inr stored

theorem Sound.settle {result : Outcome (State NodeID)} (sound : Sound L st)
    (returned : ∀ st', result = .ok st' → Sound L st') : Sound L (settle st result) := by
  match result with
  | .ok st' => exact returned st' rfl
  | .error (.error _) => exact sound
  | .error .panic => exact sound.mono fun _ _ holds _ => holds_crash holds

theorem Sound.step {e : Event NodeID} (sound : Sound L st) (genuine : Genuine L st e) :
    Sound L (step L st e) := by
  cases e with
  | packet =>
    refine sound.settle fun st' handled => ?_
    simp only [handle, eq_ok] at handled
    obtain ⟨-, -, -, -, received⟩ := handled
    refine ⟨fun holds sdk => ?_, fun {id g id' g'} holds sdk holds' sdk' same => ?_⟩
    · rcases holds_recvGroupInfo received holds sdk with before | ⟨p2p, type, rfl, ids⟩
      · exact sound.members before sdk
      · exact (genuine p2p type).1.congr ids
    · rcases holds_recvGroupInfo received holds sdk with before | ⟨p2p, type, rfl, -⟩
      · rcases holds_recvGroupInfo received holds' sdk' with before' | ⟨p2p, type, rfl, -⟩
        · exact sound.apart before sdk before' sdk' same
        · exact (genuine p2p type).2 id g before sdk same
      · rcases holds_recvGroupInfo received holds' sdk' with before' | ⟨-, -, rfl, -⟩
        · exact ((genuine p2p type).2 id' g' before' sdk' same.symm).symm
        · rfl
  | create threshold enodes subGroup =>
    refine sound.settle fun st' created => ?_
    cases made : CreateSDKGroup L st threshold enodes subGroup with
    | error fault => simp [made, Except.map] at created
    | ok result =>
      simp only [made, Except.map, Except.ok.injEq] at created
      simp only [CreateSDKGroup, eq_ok] at made
      obtain ⟨-, -, enode, -, gid, -, rfl⟩ := made
      subst created
      exact sound.mono fun _ _ holds _ => holds
  | restart disk =>
    exact sound.mono fun _ _ holds _ => holds_crash (holds_recovered holds)

theorem Sound.run {events : List (Event NodeID)} (sound : Sound L st)
    (genuine : GenuineRun L st events) : Sound L (events.foldl (P2p.step L) st) := by
  induction events generalizing st with
  | nil => exact sound
  | cons e events ih => exact ih (sound.step genuine.1) genuine.2

theorem sound_empty : Sound L (State.empty : State NodeID) where
  members holds := by rcases holds with held | held <;> cases held
  apart holds := by rcases holds with held | held <;> cases held

/-- In a sound state a lookup finds the group asked for. -/
theorem hasGid_of_lookup (sound : Sound L st) {order : List NodeID} {gID : Text}
    (found : SdkProtocol_getGroup L order st gID ≠ []) :
    ∃ gid, L.HexID gID = some gid ∧ HasGid L gid (SdkProtocol_getGroup L order st gID) := by
  unfold SdkProtocol_getGroup at found ⊢
  split at found
  · next gid decoded =>
    split at found
    · next exist =>
      rw [if_pos exist]
      refine ⟨gid, decoded, ?_⟩
      unfold getGroup at found ⊢
      split at found
      · next g looked =>
        obtain ⟨id, -, kept⟩ := exists_of_findSome?_eq_some looked
        simp only [filter_eq_some_iff, Bool.and_eq_true, decide_eq_true_eq] at kept
        obtain ⟨held, sdk, same⟩ := kept
        obtain ⟨g', held', sdk'⟩ := (any_eq_true _ _).mp exist
        have id_eq : id = gid :=
          sound.apart (.inl held) sdk (.inl held') sdk' same
        exact id_eq ▸ sound.members (.inl held) sdk
      · exact absurd rfl found
    · exact absurd rfl found
  · exact absurd rfl found

/-- The members of a group id are determined by it. -/
theorem perm_of_hasGid
    (injective : ∀ d d' n n', L.Keccak512 d n = L.Keccak512 d' n' → d = d' ∧ n = n') {gid : NodeID}
    {nodes nodes' : List (RpcNode NodeID)} (has : HasGid L gid nodes)
    (has' : HasGid L gid nodes') : (nodes.map (·.ID)).Perm (nodes'.map (·.ID)) := by
  obtain ⟨enodes, parsed, parse, perm, got⟩ := has
  obtain ⟨enodes', parsed', parse', perm', got'⟩ := has'
  simp only [getGIDFromEnodes, parse, parse', bind, Except.bind, orError_eq_ok] at got got'
  have ids_eq : parsed.map (·.ID) = parsed'.map (·.ID) :=
    chain_injective injective (got.trans got'.symm)
  exact perm.symm.trans (ids_eq ▸ perm')

end

/-! ## What a node announces -/

section

variable {L} {st st' : State NodeID} {enodes : List Text}

theorem map_some_of_mapM {text : String} {nodes : List (RpcNode NodeID)}
    (parse : enodes.mapM (fun e => orError text (L.ParseNode e)) = .ok nodes) :
    enodes.map L.ParseNode = nodes.map some := by
  have pairs := mapM_eq_ok.mp parse
  clear parse
  induction pairs with
  | nil => rfl
  | cons first rest ih =>
    rw [orError_eq_ok] at first
    simp [first, ih]

/-- Sorting the enodes permutes their nodes. -/
theorem perm_parseSorted {nodes parsed : List (RpcNode NodeID)}
    (named : enodes.map L.ParseNode = nodes.map some) (parse : parseSorted L enodes = .ok parsed) :
    parsed.Perm nodes := by
  have sorted := (enodes.perm_insertionSort (· ≤ ·)).map L.ParseNode
  rw [map_some_of_mapM parse, named] at sorted
  simpa using sorted.filterMap id

/-- The packets of an honest creator are genuine: its group has the members of its id, if the
threshold does not ask for more nodes than there are. -/
theorem hasGid_createSDKGroup {threshold : Text} {subGroup : Bool} {gid : NodeID} {count : ℕ}
    (created : CreateSDKGroup L st threshold enodes subGroup = .ok (st', gid, count))
    (enough : subGroup = true → (atoiValue ((threshold.splitOn '/').head?.getD [])).toNat ≤ enodes.length) :
    ∃ g, st'.SDK_groupList gid = some g ∧ g.ID = gid ∧ g.type.sdk ∧ HasGid L gid g.Nodes := by
  simp only [CreateSDKGroup, eq_ok] at created
  obtain ⟨-, -, enode, parse, gid', got, made⟩ := created
  cases made
  refine ⟨_, update_self .., rfl, rfl, ?_⟩
  have named := map_some_of_mapM parse
  have length_eq : enode.length = enodes.length := by
    simpa using (congrArg List.length named).symm
  have parsed_ok := got
  simp only [getGIDFromEnodes, bind_eq_ok] at parsed_ok
  obtain ⟨parsed, parsed_eq, -⟩ := parsed_ok
  refine ⟨_, parsed, parsed_eq, ?_, got⟩
  apply List.Perm.map
  cases subGroup with
  | false => exact perm_parseSorted named parsed_eq
  | true =>
    have no_zero : (atoiValue ((threshold.splitOn '/').head?.getD [])).toNat - enode.length = 0 := by
      have := enough rfl
      omega
    simp only [groupNodes, no_zero, List.replicate_zero, List.append_nil, if_true]
    refine perm_parseSorted ?_ parsed_eq
    rw [if_pos rfl, List.map_take, List.map_take, named]

end

/-- **Membership behind a group id.**  In every run of Group packets, `CreateSDKGroup` calls and
restarts whose packets are genuine, whatever order the map is visited in: nodes are only reported
for an id they give, and for one id never other nodes. -/
theorem group_membership_fixed (L : Net NodeID)
    (injective : ∀ d d' n n', L.Keccak512 d n = L.Keccak512 d' n' → d = d' ∧ n = n')
    {events : List (Event NodeID)} (genuine : GenuineRun L State.empty events) (order : List NodeID)
    (gID : Text) (found : SdkProtocol_getGroup L order (run L events) gID ≠ []) :
    (∃ gid, L.HexID gID = some gid ∧
      HasGid L gid (SdkProtocol_getGroup L order (run L events) gID)) ∧
    ∀ events', GenuineRun L State.empty events' → ∀ order',
      SdkProtocol_getGroup L order' (run L events') gID ≠ [] →
      ((SdkProtocol_getGroup L order (run L events) gID).map (·.ID)).Perm
        ((SdkProtocol_getGroup L order' (run L events') gID).map (·.ID)) := by
  obtain ⟨gid, decoded, has⟩ := hasGid_of_lookup (sound_empty.run genuine) found
  refine ⟨⟨gid, decoded, has⟩, ?_⟩
  intro events' genuine' order' found'
  obtain ⟨gid', decoded', has'⟩ := hasGid_of_lookup (sound_empty.run genuine') found'
  obtain rfl : gid = gid' := Option.some.inj (decoded.symm.trans decoded')
  exact perm_of_hasGid injective has has'

/-! ## Packets about a known group -/

section

variable {gid : NodeID} {nodes : List (RpcNode NodeID)} {p2pType : P2pType} {type : GroupType}

/-- The order of a visit to the whole map. -/
def Covers (st : State NodeID) (order : List NodeID) : Prop :=
  ∀ id g, st.SdkGroup id = some g → id ∈ order

/-- A group that the lookup of `gid` can find. -/
def Found (st : State NodeID) (gid : NodeID) (g : Group NodeID) : Prop :=
  ∃ id, st.SdkGroup id = some g ∧ g.type.sdk ∧ L.head8 id = L.head8 gid

/-- The listed nodes are in the group, with the addresses listed. -/
def Listed (known nodes : List (RpcNode NodeID)) : Prop :=
  ∀ node ∈ nodes, (known.find? (·.ID = node.ID)).any fun n => n.IP = node.IP ∧ n.UDP = node.UDP

def SameIds (known nodes : List (RpcNode NodeID)) : Prop :=
  ∀ id, id ∈ known.map (·.ID) ↔ id ∈ nodes.map (·.ID)

/-- Whatever the order of the visit, the handler returns, and a packet that it takes for known lists
the nodes of the group that is stored under its id. -/
def Handled (st : State NodeID) (gid : NodeID) (nodes : List (RpcNode NodeID)) (p2pType : P2pType)
    (type : GroupType) : Prop :=
  ∀ order disk, Covers st order →
    (∃ st', recvGroupInfo L order disk st gid nodes p2pType type = .ok st') ∧
    (p2pType = .Sdkprotocol_type → existGid L order st gid nodes = .ok true →
      ∃ g, st.SdkGroup gid = some g ∧ SameIds g.Nodes nodes)

variable {L order}

theorem found_of_getGroupSDK (looked : getGroupSDK L order st gid = some g) : Found L st gid g := by
  obtain ⟨id, -, kept⟩ := exists_of_findSome?_eq_some looked
  simp only [filter_eq_some_iff, Bool.and_eq_true, decide_eq_true_eq] at kept
  exact ⟨id, kept⟩

theorem sameNodes_eq_length {known : List (RpcNode NodeID)} :
    sameNodes known nodes = nodes.length ↔ Listed known nodes :=
  length_filter_eq_length_iff

/-- What the handler decides about a packet that lists nodes for a stored id. -/
theorem existGid_eq_ok (held : st.SdkGroup gid = some g) (some_node : nodes ≠ []) {exist : Bool} :
    existGid L order st gid nodes = .ok exist ↔
      ∃ found, getGroupSDK L order st gid = some found ∧ (exist ↔ Listed found.Nodes nodes) := by
  simp only [existGid, held, isNone_some, Bool.false_eq_true, if_false, some_node, eq_ok]
  refine exists_congr fun found => and_congr_right fun _ => ?_
  rw [← sameNodes_eq_length, Bool.eq_iff_iff, decide_eq_true_iff]
  exact iff_comm

theorem recvGroupInfo_returns {disk : Disk} :
    (∃ st', recvGroupInfo L order disk st gid nodes p2pType type = .ok st') ↔
      (p2pType = .Sdkprotocol_type → ∃ exist, existGid L order st gid nodes = .ok exist) := by
  cases p2pType with
  | Sdkprotocol_type =>
    simp only [recvGroupInfo, bind_eq_ok, forall_const]
    refine ⟨fun ⟨_, exist, known, _⟩ => ⟨exist, known⟩, fun ⟨exist, known⟩ => ?_⟩
    cases exist <;> exact ⟨_, _, known, rfl⟩
  | SmpcProtocol_type | Xprotocol_type | unknown => exact iff_of_true ⟨_, rfl⟩ nofun

/-- **When a packet is handled rightly**: a packet of the SDK about a stored id must find a group of
a known type whose id begins alike, unless it lists no node; and if it does not list the stored
nodes, it must list one that no such group has. -/
theorem handled_iff : Handled L st gid nodes p2pType type ↔
    ∀ keys, Covers st keys → p2pType = .Sdkprotocol_type → ∀ g, st.SdkGroup gid = some g →
      (nodes ≠ [] → ∃ found, Found L st gid found) ∧
      (SameIds g.Nodes nodes ∨
        nodes ≠ [] ∧ ∀ found, Found L st gid found → ¬ Listed found.Nodes nodes) := by
  simp only [Handled, recvGroupInfo_returns]
  constructor
  · intro handled keys covers sdk g held
    have right (id : NodeID) (known : existGid L (id :: keys) st gid nodes = .ok true) :
        SameIds g.Nodes nodes := by
      obtain ⟨g', held', same⟩ := (handled (id :: keys) ⟨true, true, true⟩
        fun id' g held' => mem_cons_of_mem id (covers id' g held')).2 sdk known
      cases held.symm.trans held'
      exact same
    by_cases none : nodes = []
    · have known : existGid L (gid :: keys) st gid nodes = .ok true := by
        simp [existGid, held, none]; rfl
      exact ⟨absurd none, .inl (right gid known)⟩
    refine ⟨fun _ => ?_, or_iff_not_imp_left.mpr fun other => ⟨none, ?_⟩⟩
    · obtain ⟨exist, known⟩ := (handled keys ⟨true, true, true⟩ covers).1 sdk
      obtain ⟨found, looked, -⟩ := (existGid_eq_ok held none).mp known
      exact ⟨found, found_of_getGroupSDK looked⟩
    · -- the visit starts at the group that has every node of the packet
      rintro found ⟨id, held', kept⟩ listed
      have first : getGroupSDK L (id :: keys) st gid = some found := by
        simp [getGroupSDK, held', kept]
      exact other (right id ((existGid_eq_ok held none).mpr ⟨found, first, by simpa using listed⟩))
  · intro fit order disk covers
    cases held : st.SdkGroup gid with
    | none =>
      have unknown : existGid L order st gid nodes = .ok false := by simp [existGid, held]; rfl
      exact ⟨fun _ => ⟨false, unknown⟩, fun _ known => by cases unknown.symm.trans known⟩
    | some g =>
      have fit := (fit order covers · g held)
      by_cases none : nodes = []
      · have known : existGid L order st gid nodes = .ok true := by simp [existGid, held, none]; rfl
        refine ⟨fun _ => ⟨true, known⟩, fun sdk _ => ⟨g, rfl, ?_⟩⟩
        exact (fit sdk).2.resolve_right fun other => other.1 none
      simp only [existGid_eq_ok held none]
      constructor
      · intro sdk
        obtain ⟨found, id, held', kept⟩ := (fit sdk).1 none
        have some_group : (getGroupSDK L order st gid).isSome :=
          List.findSome?_isSome_iff.mpr ⟨id, covers id found held', by simp [held', kept]⟩
        obtain ⟨first, looked⟩ := isSome_iff_exists.mp some_group
        exact ⟨decide (sameNodes first.Nodes nodes = nodes.length), first, looked, by
          rw [decide_eq_true_iff, sameNodes_eq_length]⟩
      · rintro sdk ⟨found, looked, listed⟩
        refine ⟨g, rfl, (fit sdk).2.resolve_right fun other => ?_⟩
        exact other.2 found (found_of_getGroupSDK looked) (listed.mp trivial)

end

/-! ## A group of two

The nodes 1 and 2 form a group; node 3 announces itself. -/

/-- Ids as the terms of the chain. -/
inductive Id where
  | node (n : ℕ)
  | first (node : Id)
  | next (digest node : Id)
  deriving DecidableEq

def chainNet : Net Id where
  String
    | .node n => itoa n
    | _ => List.replicate 128 'f'
  HexID text := if text = ['g'] then some (.next (.first (.node 1)) (.node 2)) else none
  zero := .node 0
  Keccak512
    | none, n => .first n
    | some d, n => .next d n
  ParseNode text := (setString10 text).map fun n => ⟨.node n.toNat, ['a'], 2000, 2000⟩
  nodeFromRPC _ n := 1024 < n.UDP

def pair : Id := .next (.first (.node 1)) (.node 2)

def peer (n : ℕ) : RpcNode Id := ⟨.node n, ['a'], 2000, 2000⟩

def announce (gid : Id) (nodes : List (RpcNode Id)) : Event Id :=
  .packet [pair] ⟨true, true, true⟩ ⟨['s'], false, .Sdkprotocol_type, ⟨gid, .oneOneOne, nodes⟩⟩

theorem chainNet_injective : ∀ d d' n n',
    chainNet.Keccak512 d n = chainNet.Keccak512 d' n' → d = d' ∧ n = n' := by
  intro d d' n n' same
  cases d <;> cases d' <;> simp_all [chainNet]

theorem hasGid_pair : HasGid chainNet pair [peer 1, peer 2] :=
  ⟨[['2'], ['1']], [peer 1, peer 2], by decide +kernel, .refl _, by decide +kernel⟩

theorem group_membership_fixed_pair :
    ∃ gid, chainNet.HexID ['g'] = some gid ∧ HasGid chainNet gid
      (SdkProtocol_getGroup chainNet [pair] (run chainNet [announce pair [peer 1, peer 2]]) ['g']) := by
  have genuine : GenuineRun chainNet State.empty [announce pair [peer 1, peer 2]] := by
    refine ⟨fun _ _ => ⟨hasGid_pair, fun id g holds => ?_⟩, trivial⟩
    rcases holds with held | held <;> cases held
  exact (group_membership_fixed chainNet chainNet_injective genuine [pair] ['g']
    (by decide +kernel)).1

/-- A group of an unknown type is stored under an id, and the next packet with that id panics; and a
packet that lists one node of a pair is taken for the pair. -/
theorem not_handled_pair :
    recvGroupInfo chainNet [pair] ⟨true, true, true⟩ (run chainNet [.packet [pair] ⟨true, true, true⟩
      ⟨['s'], false, .Sdkprotocol_type, ⟨pair, .other [], [peer 1, peer 2]⟩⟩]) pair [peer 1]
      .Sdkprotocol_type .oneOneOne = .error .panic ∧
    existGid chainNet [pair] (run chainNet [announce pair [peer 1, peer 2]]) pair [peer 1] =
      .ok true :=
  ⟨rfl, by decide +kernel⟩

/-- Node 3 sends a packet with the id of the pair, which is then its group; or one with another id
that begins alike, and a lookup of the pair may find it. -/
theorem pair_replaced :
    (SdkProtocol_getGroup chainNet [pair] (run chainNet [announce pair [peer 1, peer 2]]) ['g']).map
      (·.ID) = [.node 1, .node 2] ∧
    SdkProtocol_getGroup chainNet [pair]
      (run chainNet [announce pair [peer 1, peer 2], announce pair [peer 3]]) ['g'] = [peer 3] ∧
    SdkProtocol_getGroup chainNet [.first (.node 3), pair]
      (run chainNet [announce pair [peer 1, peer 2], announce (.first (.node 3)) [peer 3]]) ['g'] =
      [peer 3] ∧
    chainNet.HexID ['g'] = some pair ∧ ¬ HasGid chainNet pair [peer 3] := by
  refine ⟨by decide +kernel, by decide +kernel, by decide +kernel, by decide, ?_⟩
  intro has
  have perm := perm_of_hasGid chainNet_injective has hasGid_pair
  have length_eq := perm.length_eq
  simp at length_eq

end ThresholdDsa.P2p
