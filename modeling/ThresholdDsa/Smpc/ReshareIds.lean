/-
# The ids of a resharing, read in two ways

`ReShareEC2` gives a node the hexadecimal form of its decimal UID as id text.  The
loop for inbound messages reads the id text of a sender as a decimal number and
keeps the sender's enode under it (`MsgToEnode`); when all messages of round 0 are
there, `GetIDReshareByGroupID` reads the list of the old nodes' ids back from these
keys.  `GetIDs` and `GetDNodeIDIndex` decode the text instead, and the searches for
the own place in rounds 2 to 5 read it as a decimal number again.

`textNumber` is the number that the text of a UID reads as: larger than the UID and
growing with it.  So the list of old ids is the list of these numbers, no node finds
itself in it, and no search finds the own place (`reshare_ids_disagree`).
-/
import ThresholdDsa.Smpc.Inbound
import ThresholdDsa.Ecdsa.ReshareRounds

namespace ThresholdDsa.Smpc.ReshareIds

open Outcome GoText Ecdsa.Reshare List

/-! ## Collecting the messages of round 0 -/

/-- The map from id texts to enodes. -/
abbrev MsgToEnode := List (List Char × Enode)

def MsgToEnode.set (msgToEnode : MsgToEnode) (key : List Char) (enode : Enode) : MsgToEnode :=
  (key, enode) :: msgToEnode.filter fun entry => entry.1 ≠ key

/-- `SetString(from, 10)`, then `fmt.Sprintf("%v", id)`. -/
def enodeKey (FromID : List Char) : List Char :=
  match setString10 FromID with
  | some id => intText id
  | none => "<nil>".toList

/-- What a node has collected; `idreshare` belongs to its first round. -/
structure Collected where
  reshareRound0Messages : List (List Char)
  MsgToEnode : MsgToEnode
  idreshare : List ℤ
  deriving DecidableEq

/-- The list with the message in the last free place, and whether it is complete; `n` is
`DNodeCountInGroup`. -/
def CheckReshareMsg0 (n : ℕ) (msgs : List (List Char)) (FromID : List Char) :
    List (List Char) × Bool :=
  let msgs := if msgs.length + 1 = n then msgs ++ [FromID] else msgs
  (msgs, msgs.length = n)

/-- `StoreMessage` for a message of round 0. -/
def storeMessage0 (n : ℕ) (msgs : List (List Char)) (FromID : List Char) : List (List Char) :=
  if FromID ∈ msgs then msgs else if msgs.length < n then msgs ++ [FromID] else msgs

section Collecting

/- `range` is the order in which a loop visits the entries of a map. -/
variable (N : Names) (range : MsgToEnode → MsgToEnode)

/-- The id text of a node: `SetDNodeID(fmt.Sprintf("%v", UID))`. -/
def dnodeID (gid : List Enode) (node : Enode) : Outcome (List Char) := do
  let UID ← GetNodeUID N node gid
  pure (uidText UID)

def GetIDReshareByGroupID (msgtoenode : MsgToEnode) (groupid : List Enode) : Outcome (List ℤ) := do
  let keys := groupid.filterMap fun node =>
    ((range msgtoenode).find? fun entry => N.folding.EqualFold entry.2 node).map (·.1)
  let ids ← keys.mapM fun key => deref (setString10 key)
  pure (ids.insertionSort (· ≤ ·))

/-- The node starts: round 0 stores its own message. -/
def startNode (curEnode : Enode) (id : List Char) : Collected where
  reshareRound0Messages := [id]
  MsgToEnode := MsgToEnode.set [] (enodeKey id) curEnode
  idreshare := []

/-- A message of round 0 that passes the checks; `ts` is the group of the old nodes. -/
def receive (n : ℕ) (ts : List Enode) (st : Collected) (msg : List Char × Enode) :
    Outcome Collected := do
  let msgToEnode := st.MsgToEnode.set (enodeKey msg.1) msg.2
  let checked := CheckReshareMsg0 n st.reshareRound0Messages msg.1
  let idreshare ← if checked.2 then GetIDReshareByGroupID N range msgToEnode ts else pure st.idreshare
  pure { reshareRound0Messages := storeMessage0 n checked.1 msg.1, MsgToEnode := msgToEnode, idreshare }

/-- The node `curEnode` gets the messages of the other nodes in the given order. -/
def collect (gid ts : List Enode) (curEnode : Enode) (order : List Enode) : Outcome Collected := do
  let own ← dnodeID N gid curEnode
  let msgs ← order.mapM fun node => do
    let id ← dnodeID N gid node
    pure (id, node)
  msgs.foldlM (receive N range gid.length ts) (startNode curEnode own)

end Collecting

/-! ## What a node collects -/

section

/-- The entry of a node with the UID `uid`. -/
def entry (uid : Enode → ℕ) (node : Enode) : List Char × Enode :=
  (intText (textNumber (uid node)), node)

theorem enodeKey_idText (uid : ℕ) : enodeKey (idText uid) = intText (textNumber uid) := by
  rw [enodeKey, idText, setString10_hexEncode_itoa]

variable {node : Enode} {nodes : List Enode}

theorem entry_key_inj {uid : Enode → ℕ} {other : Enode}
    (same : (entry uid node).1 = (entry uid other).1) : uid node = uid other := by
  have numbers : some (textNumber (uid node) : ℤ) = some (textNumber (uid other) : ℤ) := by
    rw [← setString10_intText, ← setString10_intText]
    exact congrArg setString10 same
  exact textNumber_strictMono.injective (by exact_mod_cast Option.some.inj numbers)

/-- A group whose nodes have distinct UIDs, and the old nodes among them. -/
structure Numbered (N : Names) (gid ts : List Enode) (uid : Enode → ℕ) : Prop where
  texts : EnodeTexts gid
  nodup : gid.Nodup
  uid_inj : ∀ node ∈ gid, ∀ other ∈ gid, uid node = uid other → node = other
  id_ok : ∀ node ∈ gid, dnodeID N gid node = .ok (idText (uid node))
  old_ok : GetGroupNodeUIDs N gid ts = .ok ((ts.map uid).insertionSort (· ≤ ·))
  old_mem : ∀ node ∈ ts, node ∈ gid

/-- What a node has when the messages of `nodes`, its own among them, have arrived. -/
structure Holds (uid : Enode → ℕ) (nodes : List Enode) (st : Collected) : Prop where
  msgs : st.reshareRound0Messages = nodes.map fun node => idText (uid node)
  map : st.MsgToEnode.Perm (nodes.map (entry uid))

/-- The ids of the old nodes, as their texts read in decimal. -/
def oldNumbers (uid : Enode → ℕ) (ts : List Enode) : List ℤ :=
  ((ts.map uid).insertionSort (· ≤ ·)).map fun u => (textNumber u : ℤ)

variable {N : Names} {range : MsgToEnode → MsgToEnode} {gid ts : List Enode} {uid : Enode → ℕ}
  (group : Numbered N gid ts uid) (visits : ∀ m, (range m).Perm m)

include group visits

/-- From a full map the old ids are read as numbers. -/
theorem getIDReshare_eq {m : MsgToEnode} (all : nodes.Perm gid)
    (full : m.Perm (nodes.map (entry uid))) :
    GetIDReshareByGroupID N range m ts = .ok (oldNumbers uid ts) := by
  have entries : (range m).Perm (nodes.map (entry uid)) := (visits m).trans full
  -- the entry of a node is the only one with its enode
  have keys : (ts.filterMap fun node =>
      ((range m).find? fun entry => N.folding.EqualFold entry.2 node).map (·.1)) =
      ts.map fun node => (entry uid node).1 := by
    rw [← filterMap_eq_map]
    refine filterMap_congr fun node mem => ?_
    have own := group.old_mem node mem
    have present : ((range m).find? fun entry => N.folding.EqualFold entry.2 node).isSome := by
      rw [find?_isSome]
      refine ⟨entry uid node, entries.mem_iff.mpr (mem_map_of_mem (all.mem_iff.mpr own)), ?_⟩
      exact N.folding.equalFold_refl node
    obtain ⟨found, found_eq⟩ := Option.isSome_iff_exists.mp present
    obtain ⟨other, other_mem, rfl⟩ :=
      mem_map.mp (entries.mem_iff.mp (mem_of_find?_eq_some found_eq))
    have matched := find?_some found_eq
    have equal : N.folding.EqualFold other node := matched
    have other_own := all.mem_iff.mp other_mem
    have same : other = node := N.folding.eq_of_equalFold (fun c c_mem d d_mem =>
      N.folding.lowerHex ((group.texts other other_own).2 c c_mem) ((group.texts node own).2 d d_mem))
      equal
    rw [found_eq, same]
    rfl
  have read : (ts.map fun node => (entry uid node).1).mapM (fun key => deref (setString10 key)) =
      .ok (ts.map fun node => (textNumber (uid node) : ℤ)) := by
    rw [mapM_eq_ok, forall₂_map_left_iff, forall₂_map_right_iff, forall₂_same]
    intro node _
    rw [entry, setString10_intText]
    rfl
  have sorted : (ts.map fun node => (textNumber (uid node) : ℤ)).insertionSort (· ≤ ·) =
      oldNumbers uid ts := by
    rw [oldNumbers, map_insertionSort (· ≤ ·) (· ≤ ·), map_map]
    · rfl
    · intro u _ v _
      rw [Nat.cast_le, textNumber_strictMono.le_iff_le]
  simp only [GetIDReshareByGroupID, keys, read, eq_ok]
  exact ⟨_, rfl, sorted⟩

/-- One more message. -/
theorem receive_eq {rest : List Enode} {st : Collected} (all : (nodes ++ node :: rest).Perm gid)
    (holds : Holds uid nodes st) : ∃ st',
    receive N range gid.length ts st (idText (uid node), node) = .ok st' ∧
      Holds uid (nodes ++ [node]) st' ∧
      st'.idreshare = if rest = [] then oldNumbers uid ts else st.idreshare := by
  have mem : node ∈ gid := all.mem_iff.mp (by simp)
  have before : ∀ other ∈ nodes, other ∈ gid := fun other earlier =>
    all.mem_iff.mp (mem_append_left _ earlier)
  have fresh : ∀ other ∈ nodes, uid other ≠ uid node := by
    intro other earlier same
    obtain rfl := group.uid_inj other (before other earlier) node mem same
    have nodup := all.nodup_iff.mpr group.nodup
    exact disjoint_of_nodup_append nodup earlier (by simp)
  have count : gid.length = nodes.length + 1 + rest.length := by
    rw [← all.length_eq, length_append, length_cons]
    omega
  have msgs_length : st.reshareRound0Messages.length = nodes.length := by
    rw [holds.msgs, length_map]
  have new_text : idText (uid node) ∉ st.reshareRound0Messages := by
    rw [holds.msgs]
    intro earlier
    obtain ⟨other, other_mem, same⟩ := mem_map.mp earlier
    exact fresh other other_mem (idText_inj.mp same)
  -- no earlier entry has the key of the node
  have map_eq : (st.MsgToEnode.set (enodeKey (idText (uid node))) node).Perm
      ((nodes ++ [node]).map (entry uid)) := by
    have kept : st.MsgToEnode.filter (fun e => e.1 ≠ enodeKey (idText (uid node))) = st.MsgToEnode := by
      rw [filter_eq_self]
      intro e e_mem
      obtain ⟨other, other_mem, rfl⟩ := mem_map.mp (holds.map.mem_iff.mp e_mem)
      rw [decide_eq_true_eq, enodeKey_idText]
      exact fun same => fresh other other_mem (entry_key_inj same)
    rw [MsgToEnode.set, kept, enodeKey_idText, map_append]
    exact (perm_append_singleton _ _).symm.trans (holds.map.append_right _)
  by_cases last : rest = []
  · have checked : CheckReshareMsg0 gid.length st.reshareRound0Messages (idText (uid node)) =
        (st.reshareRound0Messages ++ [idText (uid node)], true) := by
      simp [CheckReshareMsg0, msgs_length, count, last]
    have ids := getIDReshare_eq group visits (last ▸ all) map_eq
    have stored : storeMessage0 gid.length (st.reshareRound0Messages ++ [idText (uid node)])
        (idText (uid node)) = (nodes ++ [node]).map fun node => idText (uid node) := by
      rw [storeMessage0, if_pos (by simp), holds.msgs, map_append]
      rfl
    refine ⟨⟨_, st.MsgToEnode.set (enodeKey (idText (uid node))) node, oldNumbers uid ts⟩, ?_,
      ⟨stored, map_eq⟩, (if_pos last).symm⟩
    simp only [receive, checked, if_true, ids, eq_ok]
    exact ⟨_, rfl, rfl⟩
  · have more : 0 < rest.length := length_pos_iff.mpr last
    have checked : CheckReshareMsg0 gid.length st.reshareRound0Messages (idText (uid node)) =
        (st.reshareRound0Messages, false) := by
      have not_last : ¬ st.reshareRound0Messages.length + 1 = gid.length := by omega
      have not_full : ¬ st.reshareRound0Messages.length = gid.length := by omega
      simp [CheckReshareMsg0, not_last, not_full]
    have room : st.reshareRound0Messages.length < gid.length := by omega
    have stored : storeMessage0 gid.length st.reshareRound0Messages (idText (uid node)) =
        (nodes ++ [node]).map fun node => idText (uid node) := by
      rw [storeMessage0, if_neg new_text, if_pos room, holds.msgs, map_append]
      rfl
    refine ⟨⟨_, st.MsgToEnode.set (enodeKey (idText (uid node))) node, st.idreshare⟩, ?_,
      ⟨stored, map_eq⟩, (if_neg last).symm⟩
    simp only [receive, checked, Bool.false_eq_true, if_false, eq_ok]
    exact ⟨_, rfl, rfl⟩

/-- The messages of the other nodes, in any order: the list of old ids is set with the last. -/
theorem collect_eq {order : List Enode} (all : (node :: order).Perm gid) : ∃ st,
    collect N range gid ts node order = .ok st ∧ Holds uid (node :: order) st ∧
      st.idreshare = if order = [] then [] else oldNumbers uid ts := by
  have id_ok : ∀ other ∈ node :: order, dnodeID N gid other = .ok (idText (uid other)) :=
    fun other mem => group.id_ok other (all.mem_iff.mp mem)
  have sent : (order.mapM fun other => do
      let id ← dnodeID N gid other
      pure (id, other)) = .ok (order.map fun other => (idText (uid other), other)) := by
    rw [mapM_eq_ok, forall₂_map_right_iff, forall₂_same]
    intro other mem
    rw [id_ok other (mem_cons_of_mem _ mem)]
    rfl
  -- the induction is on the messages that are still to come
  have loop : ∀ (rest nodes : List Enode) (st : Collected), (nodes ++ rest).Perm gid →
      Holds uid nodes st → ∃ st',
        (rest.map fun other => (idText (uid other), other)).foldlM
          (receive N range gid.length ts) st = .ok st' ∧ Holds uid (nodes ++ rest) st' ∧
        st'.idreshare = if rest = [] then st.idreshare else oldNumbers uid ts := by
    intro rest
    induction rest with
    | nil => exact fun nodes st _ holds => ⟨st, rfl, by simpa using holds, rfl⟩
    | cons other rest ih =>
      intro nodes st all holds
      obtain ⟨st₁, received, holds₁, ids₁⟩ := receive_eq group visits all holds
      obtain ⟨st', ran, holds', ids'⟩ := ih (nodes ++ [other]) st₁ (by simpa using all) holds₁
      refine ⟨st', ?_, by simpa using holds', ?_⟩
      · rw [map_cons, foldlM_cons, received]
        exact ran
      · rw [ids', ids₁, if_neg (cons_ne_nil _ _)]
        split <;> rfl
  have started : Holds uid [node] (startNode node (idText (uid node))) := by
    refine ⟨rfl, ?_⟩
    rw [startNode, enodeKey_idText]
    exact List.Perm.refl _
  obtain ⟨st, ran, holds, ids⟩ := loop order [node] _ all started
  refine ⟨st, ?_, holds, ids⟩
  simp only [collect, bind_eq_ok]
  exact ⟨_, id_ok node (by simp), _, sent, ran⟩

omit group visits in
/-- `Save.IDs` holds the UIDs of the group. -/
theorem getIDs_of_holds {st : Collected} (all : nodes.Perm gid) (holds : Holds uid nodes st) :
    Ecdsa.Reshare.GetIDs st.reshareRound0Messages =
      .ok (((gid.map uid).insertionSort (· ≤ ·)).map fun u : ℕ => (u : ℤ)) := by
  have read : st.reshareRound0Messages.mapM Ecdsa.Keygen.uidOf =
      .ok ((nodes.map uid).map fun u : ℕ => (u : ℤ)) := by
    rw [holds.msgs, mapM_eq_ok, map_map, forall₂_map_left_iff, forall₂_map_right_iff,
      forall₂_same]
    exact fun node _ => uidOf_idText (uid node)
  simp only [Ecdsa.Reshare.GetIDs, read, eq_ok]
  refine ⟨_, rfl, ?_⟩
  rw [← map_insertionSort (· ≤ ·) (· ≤ ·) _ _ fun u _ v _ => Nat.cast_le.symm]
  refine congrArg _ (List.Perm.eq_of_pairwise' (r := (· ≤ ·)) (pairwise_insertionSort _ _)
    (pairwise_insertionSort _ _) ?_)
  exact (perm_insertionSort _ _).trans ((all.map uid).trans (perm_insertionSort _ _).symm)

end

/-! ## The ids disagree -/

/-- `GetDNodeIDIndex` of the node's id is its position among the old UIDs. -/
def OwnIndexTrue (old : List ℕ) (idreshare : List ℤ) (uid : ℕ) : Prop :=
  ∃ p : ℕ, GetDNodeIDIndex idreshare (idText uid) = .ok (p : ℤ) ∧ old[p]? = some uid

/-- The searches of rounds 2 to 5 find the node's position in `Save.IDs`. -/
def CurIndexTrue (n : ℕ) (IDs : List ℤ) (uid : ℕ) : Prop :=
  ∃ p : Fin n, (setString10 (idText uid)).bind (indexInIDs n IDs) = some p ∧
    IDs[p.val]? = some (uid : ℤ)

theorem not_curIndexTrue (n : ℕ) (IDs : List ℤ) (uid : ℕ) : ¬ CurIndexTrue n IDs uid := by
  rintro ⟨p, found, own⟩
  rw [idText, setString10_hexEncode_itoa, Option.bind_some] at found
  have at_place := find?_some found
  rw [decide_eq_true_eq, own, Option.some.injEq] at at_place
  have := lt_textNumber uid
  omega

/-- In a list of the numbers that the texts read as, the node's own UID stands at another place. -/
theorem not_ownIndexTrue {old : List ℕ} {idreshare : List ℤ} {uid : ℕ}
    (numbers : idreshare = [] ∨ idreshare = old.map fun u => (textNumber u : ℤ)) :
    ¬ OwnIndexTrue old idreshare uid := by
  rintro ⟨p, found, own⟩
  have text_ne : idText uid ≠ [] := by
    intro empty
    have read := uidOf_idText uid
    rw [empty] at read
    cases read
  rw [GetDNodeIDIndex, if_neg text_ne] at found
  simp only [uidOf_idText, eq_ok, Except.ok.injEq, exists_eq_left'] at found
  obtain ⟨k, k_eq, same⟩ := found
  obtain rfl : k = p := by exact_mod_cast same
  obtain ⟨inside, equal, -⟩ := findIdx?_eq_some_iff_getElem.mp k_eq
  rcases numbers with rfl | rfl
  · exact absurd inside (by simp)
  · obtain ⟨_, own⟩ := List.getElem?_eq_some_iff.mp own
    rw [decide_eq_true_eq, getElem_map, own] at equal
    have := lt_textNumber uid
    omega

theorem map_textNumber_eq_iff (old : List ℕ) :
    (old.map fun u => (textNumber u : ℤ)) = (old.map fun u : ℕ => (u : ℤ)) ↔ old = [] := by
  cases old with
  | nil => simp
  | cons u old =>
    have := lt_textNumber u
    simp only [map_cons, List.cons.injEq, reduceCtorEq, iff_false, not_and]
    intro same
    omega

/-- **The ids of a resharing disagree.**  For every group, its old nodes and every node of it that
has collected the messages of round 0 in any order: `Save.IDs` holds the UIDs, but `idreshare` holds
the old ones only if there are none, the node does not find its position among them, and the
searches of the later rounds do not find its place in `Save.IDs`. -/
theorem reshare_ids_disagree (N : Names) {range : MsgToEnode → MsgToEnode}
    (visits : ∀ m, (range m).Perm m) {gid ts : List Enode} (texts : EnodeTexts gid)
    (nodup : gid.Nodup)
    (digests : ∀ node ∈ gid, ∀ other ∈ gid, N.digest node = N.digest other → node = other)
    (old_mem : ∀ node ∈ ts, node ∈ gid) {node : Enode} {order : List Enode}
    (all : (node :: order).Perm gid) :
    ∃ st k old UIDs, collect N range gid ts node order = .ok st ∧
      GetNodeUID N node gid = .ok (some k) ∧ GetGroupNodeUIDs N gid ts = .ok old ∧
      GetGroupNodeUIDs N gid gid = .ok UIDs ∧
      Ecdsa.Reshare.GetIDs st.reshareRound0Messages = .ok (UIDs.map fun u : ℕ => (u : ℤ)) ∧
      (st.idreshare = (old.map fun u : ℕ => (u : ℤ)) ↔ ts = []) ∧
      ¬ OwnIndexTrue old st.idreshare (k + 1) ∧
      ¬ CurIndexTrue gid.length (UIDs.map fun u : ℕ => (u : ℤ)) (k + 1) := by
  have gid_ne : ∀ node ∈ gid, node ≠ [] := fun node mem => (texts node mem).1
  obtain ⟨index, index_ok, index_inj⟩ := exists_nodeUID (N := N) gid_ne
  let uid : Enode → ℕ := fun node => index node + 1
  have old_ok := groupNodeUIDs_eq gid_ne (fun node mem => gid_ne node (old_mem node mem))
    fun node mem => index_ok node (old_mem node mem)
  have group : Numbered N gid ts uid :=
    { texts, nodup, old_ok, old_mem
      uid_inj := fun node mem other other_mem same =>
        digests node mem other other_mem (index_inj node mem other other_mem (by simpa [uid] using same))
      id_ok := fun node mem => by
        rw [dnodeID, index_ok node mem]
        rfl }
  obtain ⟨st, collected, holds, ids⟩ := collect_eq group visits all
  have numbers : st.idreshare = [] ∨ st.idreshare = oldNumbers uid ts := by
    rw [ids]
    split
    · exact .inl rfl
    · exact .inr rfl
  have empty_iff : (ts.map uid).insertionSort (· ≤ ·) = [] ↔ ts = [] := by
    rw [← length_eq_zero_iff, length_insertionSort, length_map, length_eq_zero_iff]
  refine ⟨st, index node, _, _, collected, index_ok node (all.mem_iff.mp (by simp)), old_ok,
    groupNodeUIDs_eq gid_ne gid_ne index_ok, getIDs_of_holds all holds, ?_, not_ownIndexTrue numbers,
    not_curIndexTrue _ _ _⟩
  rcases numbers with none | read
  · rw [none, eq_comm, map_eq_nil_iff]
    exact empty_iff
  · rw [read]
    exact (map_textNumber_eq_iff _).trans empty_iff

/-! ## Two nodes -/

/-- The hypotheses hold of a group of two old nodes. -/
theorem reshare_ids_disagree_two_nodes : ∃ st old,
    collect twoNames id twoNodes twoNodes ['b', 'b'] [['a', 'a']] = .ok st ∧
      GetGroupNodeUIDs twoNames twoNodes twoNodes = .ok old ∧
      st.idreshare ≠ old.map fun u : ℕ => (u : ℤ) := by
  obtain ⟨st, k, old, UIDs, collected, -, old_ok, -, -, agrees, -, -⟩ :=
    reshare_ids_disagree twoNames (fun m => List.Perm.refl m) twoNodes_texts (by decide) (by decide)
      (fun node mem => mem) (List.Perm.refl twoNodes)
  exact ⟨st, old, collected, old_ok, fun same => absurd (agrees.mp same) (by decide)⟩

/-- Nodes 1 and 2: the list of old ids is `31, 32`; node 2 is not found in it, and its place in
`Save.IDs` is not found. -/
theorem two_nodes_not_found : ∃ st, collect twoNames id twoNodes twoNodes ['b', 'b'] [['a', 'a']] = .ok st ∧
    GetNodeUID twoNames ['b', 'b'] twoNodes = .ok (some 1) ∧ st.idreshare = [31, 32] ∧
    Ecdsa.Reshare.GetIDs st.reshareRound0Messages = .ok [1, 2] ∧
    GetDNodeIDIndex st.idreshare (idText 2) =
      .error (.error "get dnode index fail,no found in kgRound0Messages") ∧
    (setString10 (idText 2)).bind (indexInIDs 2 [1, 2]) = none := by
  exact ⟨⟨[idText 2, idText 1], [(['3', '1'], ['a', 'a']), (['3', '2'], ['b', 'b'])], [31, 32]⟩,
    by decide +kernel⟩

end ThresholdDsa.Smpc.ReshareIds
