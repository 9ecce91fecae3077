/-
# Node ids of a group and their positions

A group is the list of its nodes' enode ids.  `GetIDs` sorts the digests of the
ids; a node's UID is one more than its place among them (`GetNodeUID`), and the
text that stands for it in messages is the hexadecimal form of the decimal one
(`uidText`).  `GetGroupNodeUIDs` gives the sorted UIDs of a sub-group, and
`position` a node's place among these.

`position_of_member`: a node of the sub-group that has a UID has a position.  `exists_assigns`: the
nodes of a group have the UIDs `1, …, n`, the same for every node that computes them.
-/
import ThresholdDsa.Ecdsa.KeygenRounds

namespace ThresholdDsa.Smpc

open Outcome GoText List

abbrev Enode := List Char

/-- The digest in `DoubleHash` and the folding in `strings.EqualFold`. -/
structure Names where
  digest : Enode → ℤ
  folding : Folding

variable (N : Names)

def DoubleHash (id : Enode) : Option ℤ :=
  if id = [] then none else some (N.digest id)

/-- Sorting compares the digests; a nil pointer panics. -/
def GetIDs (nodes : List Enode) : Outcome (List ℤ) := do
  let ids ← nodes.mapM fun node => deref (DoubleHash N node)
  pure (ids.insertionSort (· ≤ ·))

/-- The index of the first id with the given digest. -/
def indexOfID (ids : List ℤ) (uid : ℤ) : Option ℕ :=
  (List.range ids.length).find? fun k => ids[k]? = some uid

/-- The index of a node; its UID is one more.  `none` stands for `-1` and the nil UID. -/
def GetNodeUID (EnodeID : Enode) (gid : List Enode) : Outcome (Option ℕ) :=
  match DoubleHash N EnodeID with
  | none => pure none
  | some uid => do
    let ids ← GetIDs N gid
    pure ((List.range ids.length).find? fun k => ids[k]? = some uid ∧ k + 1 ≤ gid.length)

def GetGroupNodeUIDs (gid subgid : List Enode) : Outcome (List ℕ) := do
  let allids ← GetIDs N gid
  let found ← subgid.mapM fun node => do
    let id ← deref (DoubleHash N node)
    pure ((indexOfID allids id).map (· + 1))
  pure ((found.filterMap id).insertionSort (· ≤ ·))

/-- The id text of a UID: the hexadecimal form of its decimal digits. -/
def idText (uid : ℕ) : List Char := hexEncode (itoa uid)

/-- `fmt.Sprintf("%v", UID)`, then `hex.EncodeToString`. -/
def uidText : Option ℕ → List Char
  | none => hexEncode "<nil>".toList
  | some k => idText (k + 1)

/-- A node's place among the sorted UIDs of the sub-group. -/
def position (gid subgid : List Enode) (node : Enode) : Outcome (Option (Fin subgid.length)) := do
  let idsign ← GetGroupNodeUIDs N gid subgid
  let index ← GetNodeUID N node gid
  pure (index.bind fun k => (List.finRange subgid.length).find? fun i => idsign[i.val]? = some (k + 1))

/-! ## UID texts -/

section

/-- The rounds of key generation read the UID back. -/
theorem uidOf_idText (uid : ℕ) : Ecdsa.Keygen.uidOf (idText uid) = .ok (uid : ℤ) :=
  Ecdsa.Keygen.uidOf_hexEncode_itoa uid

theorem idText_inj {u v : ℕ} : idText u = idText v ↔ u = v := by
  refine ⟨fun same => ?_, congrArg idText⟩
  have decoded := (uidOf_idText u).symm.trans (same ▸ uidOf_idText v)
  exact_mod_cast Except.ok.inj decoded

variable {N}

theorem eq_idText {uid : ℕ} {FromID : List Char} (equal : N.folding.EqualFold (idText uid) FromID) :
    FromID = idText uid :=
  (N.folding.eq_of_equalFold (fun _ mem _ _ same =>
    (N.folding.digit (hexEncode_itoa_isDigit mem) same.symm).symm) equal).symm

end

/-! ## Positions -/

section

variable {N} {gid subgid : List Enode} {node : Enode} {idsign : List ℕ} {k : ℕ}

theorem doubleHash_of_ne (nonempty : node ≠ []) : DoubleHash N node = some (N.digest node) :=
  if_neg nonempty

variable (gid_ne : ∀ node ∈ gid, node ≠ [])

include gid_ne

theorem getIDs_eq : GetIDs N gid = .ok ((gid.map N.digest).insertionSort (· ≤ ·)) := by
  have hashed : gid.mapM (fun node => deref (DoubleHash N node)) = .ok (gid.map N.digest) := by
    rw [mapM_eq_ok, forall₂_map_right_iff, forall₂_same]
    intro node mem
    rw [doubleHash_of_ne (gid_ne node mem)]
    rfl
  rw [GetIDs, hashed]
  rfl

omit gid_ne in
theorem getIDs_length {ids : List ℤ} (got : GetIDs N gid = .ok ids) : ids.length = gid.length := by
  simp only [GetIDs, eq_ok, mapM_eq_ok] at got
  obtain ⟨digests, each, rfl⟩ := got
  rw [length_insertionSort, each.length_eq]

omit gid_ne in
/-- The index of a node is that of its digest; the bound on it always holds. -/
theorem getNodeUID_eq {ids : List ℤ} {digest : ℤ} (got : GetIDs N gid = .ok ids)
    (hashed : DoubleHash N node = some digest) :
    GetNodeUID N node gid = .ok (indexOfID ids digest) := by
  simp only [GetNodeUID, hashed, eq_ok]
  refine ⟨ids, got, find?_congr fun j j_mem => ?_⟩
  have inside : j + 1 ≤ gid.length := by
    rw [← getIDs_length got]
    exact mem_range.mp j_mem
  simp [inside]

omit gid_ne in
/-- A sub-group node with a UID is among the sorted UIDs. -/
theorem mem_groupNodeUIDs (got : GetGroupNodeUIDs N gid subgid = .ok idsign)
    (found : GetNodeUID N node gid = .ok (some k)) (mem : node ∈ subgid) : k + 1 ∈ idsign := by
  simp only [GetGroupNodeUIDs, eq_ok, mapM_eq_ok] at got
  obtain ⟨allids, ids_eq, uids, each, rfl⟩ := got
  obtain ⟨uid, uid_mem, digest, digest_eq, rfl⟩ := exists_of_mem_forall₂ each.flip mem
  have same : indexOfID allids digest = some k := by
    rw [getNodeUID_eq ids_eq digest_eq] at found
    exact Except.ok.inj found
  rw [(perm_insertionSort _ _).mem_iff, mem_filterMap]
  exact ⟨some (k + 1), by rwa [same] at uid_mem, rfl⟩

theorem groupNodeUIDs_returns (subgid_ne : ∀ node ∈ subgid, node ≠ []) :
    ∃ idsign, GetGroupNodeUIDs N gid subgid = .ok idsign := by
  obtain ⟨ids, ids_ok⟩ : ∃ ids, GetIDs N gid = .ok ids := ⟨_, getIDs_eq gid_ne⟩
  have uids_return : ∃ uids, (subgid.mapM fun node => do
      let id ← deref (DoubleHash N node)
      pure ((indexOfID ids id).map (· + 1))) = .ok uids :=
    mapM_total fun node mem => ⟨_, by rw [doubleHash_of_ne (subgid_ne node mem)]; rfl⟩
  obtain ⟨uids, uids_ok⟩ := uids_return
  refine ⟨(uids.filterMap id).insertionSort (· ≤ ·), ?_⟩
  simp only [GetGroupNodeUIDs, ids_ok, eq_ok]
  exact ⟨_, rfl, uids, uids_ok, rfl⟩

/-- A node of a group has a UID: its index is that of its digest. -/
theorem getNodeUID_member (mem : node ∈ gid) :
    ∃ k, GetNodeUID N node gid = .ok (some k) ∧
      ((gid.map N.digest).insertionSort (· ≤ ·))[k]? = some (N.digest node) := by
  have digest_mem : N.digest node ∈ (gid.map N.digest).insertionSort (· ≤ ·) :=
    (perm_insertionSort _ _).mem_iff.mpr (mem_map_of_mem mem)
  obtain ⟨j, inside, at_j⟩ := getElem_of_mem digest_mem
  have some_index : (indexOfID ((gid.map N.digest).insertionSort (· ≤ ·)) (N.digest node)).isSome := by
    rw [indexOfID, find?_isSome]
    exact ⟨j, mem_range.mpr inside,
      decide_eq_true ((getElem?_eq_getElem inside).trans (congrArg some at_j))⟩
  obtain ⟨k, k_eq⟩ := Option.isSome_iff_exists.mp some_index
  refine ⟨k, ?_, by simpa using find?_some k_eq⟩
  rw [getNodeUID_eq (getIDs_eq gid_ne) (doubleHash_of_ne (gid_ne node mem)), k_eq]

/-- Every node of a group has a UID; nodes with different digests have different ones. -/
theorem exists_nodeUID : ∃ index : Enode → ℕ,
    (∀ node ∈ gid, GetNodeUID N node gid = .ok (some (index node))) ∧
      ∀ node ∈ gid, ∀ other ∈ gid, index node = index other → N.digest node = N.digest other := by
  choose! index index_ok at_index using
    fun node (mem : node ∈ gid) => getNodeUID_member (N := N) gid_ne mem
  refine ⟨index, index_ok, fun node mem other other_mem same => ?_⟩
  have read := at_index node mem
  rw [same, at_index other other_mem] at read
  exact (Option.some.inj read).symm

/-- The UIDs of a sub-group, from the indices of its nodes. -/
theorem groupNodeUIDs_eq {index : Enode → ℕ} (subgid_ne : ∀ node ∈ subgid, node ≠ [])
    (index_ok : ∀ node ∈ subgid, GetNodeUID N node gid = .ok (some (index node))) :
    GetGroupNodeUIDs N gid subgid =
      .ok ((subgid.map fun node => index node + 1).insertionSort (· ≤ ·)) := by
  have ids_eq := getIDs_eq (N := N) gid_ne
  have uids_ok : (subgid.mapM fun node => do
      let id ← deref (DoubleHash N node)
      pure ((indexOfID ((gid.map N.digest).insertionSort (· ≤ ·)) id).map (· + 1))) =
      .ok (subgid.map fun node => some (index node + 1)) := by
    rw [mapM_eq_ok, forall₂_map_right_iff, forall₂_same]
    intro node mem
    have hashed := doubleHash_of_ne (N := N) (subgid_ne node mem)
    have found := index_ok node mem
    rw [getNodeUID_eq ids_eq hashed, Except.ok.injEq] at found
    simp only [hashed, eq_ok, Option.some.injEq]
    exact ⟨_, rfl, by rw [found]; rfl⟩
  simp only [GetGroupNodeUIDs, ids_eq, eq_ok]
  refine ⟨_, rfl, _, uids_ok, ?_⟩
  rw [filterMap_map]
  exact congrArg _ (congrFun filterMap_eq_map subgid)

omit gid_ne

theorem groupNodeUIDs_length (got : GetGroupNodeUIDs N gid subgid = .ok idsign) :
    idsign.length ≤ subgid.length := by
  simp only [GetGroupNodeUIDs, eq_ok, mapM_eq_ok] at got
  obtain ⟨allids, -, uids, each, rfl⟩ := got
  rw [length_insertionSort, each.length_eq]
  exact length_filterMap_le _ _

theorem position_of_member (got : GetGroupNodeUIDs N gid subgid = .ok idsign)
    (found : GetNodeUID N node gid = .ok (some k)) (mem : node ∈ subgid) :
    ∃ i, position N gid subgid node = .ok (some i) := by
  obtain ⟨j, inside, at_j⟩ := getElem_of_mem (mem_groupNodeUIDs got found mem)
  have bound := groupNodeUIDs_length got
  have exists_place : ((List.finRange subgid.length).find? fun i =>
      idsign[i.val]? = some (k + 1)).isSome := by
    rw [find?_isSome]
    exact ⟨⟨j, by omega⟩, mem_finRange _, by simp [at_j, inside]⟩
  obtain ⟨i, place⟩ := Option.isSome_iff_exists.mp exists_place
  refine ⟨i, ?_⟩
  simp [position, got, found, bind, Except.bind, pure, Except.pure, place]

end

/-! ## The assignment of UIDs -/

section

variable {N} {gid : List Enode} {index : Enode → ℕ}

/-- The nodes have the indices of their digests among all, whatever order a node knows the group in;
a UID is one more. -/
structure Assigns (N : Names) (gid : List Enode) (index : Enode → ℕ) : Prop where
  node : ∀ gid', gid'.Perm gid → ∀ node ∈ gid, GetNodeUID N node gid' = .ok (some (index node))
  onto : (gid.map index).Perm (List.range gid.length)
  ordered : ∀ a ∈ gid, ∀ b ∈ gid, index a < index b ↔ N.digest a < N.digest b
  subgroup : ∀ gid', gid'.Perm gid → ∀ subgid : List Enode, subgid.Nodup → subgid ⊆ gid →
    ∃ uids, GetGroupNodeUIDs N gid' subgid = .ok uids ∧ uids.Pairwise (· < ·) ∧
      ∀ u, u ∈ uids ↔ ∃ node ∈ subgid, u = index node + 1
  place : ∀ node ∈ gid, ∃ i, position N gid gid node = .ok (some i) ∧ i.val = index node

theorem lt_of_nodup_sort {α : Type} [LinearOrder α] {l : List α} (nodup : l.Nodup) :
    (l.insertionSort (· ≤ ·)).Pairwise (· < ·) := by
  have distinct := nodup_iff_pairwise_ne.mp ((perm_insertionSort (· ≤ ·) l).nodup_iff.mpr nodup)
  exact ((pairwise_insertionSort (· ≤ ·) l).and distinct).imp fun pair => lt_of_le_of_ne pair.1 pair.2

theorem sort_eq_of_perm {α : Type} [LinearOrder α] {l l' : List α} (perm : l.Perm l')
    (sorted : l'.Pairwise (· ≤ ·)) : l.insertionSort (· ≤ ·) = l' :=
  Perm.eq_of_pairwise (fun _ _ _ _ => le_antisymm) (pairwise_insertionSort (· ≤ ·) l) sorted
    ((perm_insertionSort (· ≤ ·) l).trans perm)

section Distinct

variable (gid_ne : ∀ node ∈ gid, node ≠ []) (distinct : (gid.map N.digest).Nodup)
  (index_ok : ∀ node ∈ gid, GetNodeUID N node gid = .ok (some (index node)))

include gid_ne index_ok in
/-- A node that lists the group in another order finds the same index. -/
theorem getNodeUID_perm {gid' : List Enode} (perm : gid'.Perm gid) {node : Enode} (mem : node ∈ gid) :
    GetNodeUID N node gid' = .ok (some (index node)) := by
  have same : (gid'.map N.digest).insertionSort (· ≤ ·) = (gid.map N.digest).insertionSort (· ≤ ·) :=
    sort_eq_of_perm ((perm.map _).trans (perm_insertionSort _ _).symm) (pairwise_insertionSort _ _)
  have hashed := doubleHash_of_ne (N := N) (gid_ne node mem)
  have ids' := getIDs_eq (N := N) fun node mem => gid_ne node (perm.mem_iff.mp mem)
  rw [getNodeUID_eq ids' hashed, same, ← getNodeUID_eq (getIDs_eq gid_ne) hashed, index_ok node mem]

variable (at_index : ∀ node ∈ gid,
  ((gid.map N.digest).insertionSort (· ≤ ·))[index node]? = some (N.digest node))

include at_index distinct

theorem index_lt_iff {a b : Enode} (a_mem : a ∈ gid) (b_mem : b ∈ gid) :
    index a < index b ↔ N.digest a < N.digest b := by
  have strict : ∀ {a b}, a ∈ gid → b ∈ gid → index a < index b → N.digest a < N.digest b := by
    intro a b a_mem b_mem lt
    obtain ⟨a_lt, a_eq⟩ := List.getElem?_eq_some_iff.mp (at_index a a_mem)
    obtain ⟨b_lt, b_eq⟩ := List.getElem?_eq_some_iff.mp (at_index b b_mem)
    have := pairwise_iff_getElem.mp (lt_of_nodup_sort distinct) _ _ a_lt b_lt lt
    rwa [a_eq, b_eq] at this
  refine ⟨strict a_mem b_mem, fun lt => ?_⟩
  rcases lt_trichotomy (index a) (index b) with less | same | greater
  · exact less
  · have equal := at_index a a_mem
    rw [same, at_index b b_mem, Option.some.injEq] at equal
    exact absurd equal.symm lt.ne
  · exact absurd (strict b_mem a_mem greater) lt.asymm

theorem index_injOn {a b : Enode} (a_mem : a ∈ gid) (b_mem : b ∈ gid) (same : index a = index b) :
    a = b := by
  have a_lt := not_congr (index_lt_iff distinct at_index a_mem b_mem)
  have b_lt := not_congr (index_lt_iff distinct at_index b_mem a_mem)
  exact inj_on_of_nodup_map distinct a_mem b_mem
    (le_antisymm (not_lt.mp (b_lt.mp same.not_gt)) (not_lt.mp (a_lt.mp same.not_lt)))

theorem map_index_perm : (gid.map index).Perm (List.range gid.length) := by
  have nodup : (gid.map index).Nodup :=
    (distinct.of_map).map_on fun a a_mem b b_mem => index_injOn distinct at_index a_mem b_mem
  refine (subperm_of_subset nodup fun k mem => ?_).perm_of_length_le (by simp)
  obtain ⟨node, node_mem, rfl⟩ := mem_map.mp mem
  have inside := (List.getElem?_eq_some_iff.mp (at_index node node_mem)).1
  rw [length_insertionSort, length_map] at inside
  exact mem_range.mpr inside

end Distinct

/-- **UIDs.**  In every group whose nodes have pairwise different digests the nodes have the UIDs
`1, …, n` in the order of the digests, and all nodes agree on them; the UIDs of a sub-group are
sorted, and in the whole group a node's position is its UID less one. -/
theorem exists_assigns (gid_ne : ∀ node ∈ gid, node ≠ []) (distinct : (gid.map N.digest).Nodup) :
    ∃ index, Assigns N gid index := by
  choose! index index_ok at_index using
    fun node (mem : node ∈ gid) => getNodeUID_member (N := N) gid_ne mem
  have onto := map_index_perm distinct at_index
  have uids : ∀ gid', gid'.Perm gid → ∀ subgid : List Enode, subgid ⊆ gid →
      GetGroupNodeUIDs N gid' subgid =
        .ok ((subgid.map fun node => index node + 1).insertionSort (· ≤ ·)) := fun gid' perm subgid sub =>
    groupNodeUIDs_eq (fun node mem => gid_ne node (perm.mem_iff.mp mem)) (fun node mem => gid_ne node (sub mem))
      fun node mem => getNodeUID_perm gid_ne index_ok perm (sub mem)
  refine ⟨index, fun gid' perm node mem => getNodeUID_perm gid_ne index_ok perm mem, onto,
    fun a a_mem b b_mem => index_lt_iff distinct at_index a_mem b_mem, fun gid' perm subgid nodup sub =>
      ⟨_, uids gid' perm subgid sub, lt_of_nodup_sort ?_, fun u => ?_⟩, fun node mem => ?_⟩
  · exact nodup.map_on fun a a_mem b b_mem same =>
      index_injOn distinct at_index (sub a_mem) (sub b_mem) (Nat.succ.inj same)
  · rw [(perm_insertionSort _ _).mem_iff, mem_map]
    exact exists_congr fun node => and_congr_right fun _ => eq_comm
  have all : (gid.map fun node => index node + 1).insertionSort (· ≤ ·) =
      (List.range gid.length).map (· + 1) := by
    refine sort_eq_of_perm ?_ (pairwise_map.mpr (pairwise_le_range.imp Nat.succ_le_succ))
    have shifted := onto.map (· + 1)
    rwa [map_map] at shifted
  have inside : index node < gid.length := mem_range.mp (onto.mem_iff.mp (mem_map_of_mem mem))
  have found : ((List.finRange gid.length).find? fun i =>
      ((List.range gid.length).map (· + 1))[i.val]? = some (index node + 1)) = some ⟨_, inside⟩ := by
    refine find?_finRange fun i => ?_
    simp [Fin.ext_iff]
  refine ⟨⟨_, inside⟩, ?_, rfl⟩
  rw [position, uids gid (.refl _) gid (Subset.refl _), ok_bind, index_ok node mem, ok_bind, all,
    Option.bind_some, found]
  rfl

/-- Two nodes whose digests are their lengths, the longer one first in the list. -/
theorem exists_assigns_two : ∃ index, Assigns ⟨fun node => node.length, lowerFolding⟩
    ["bb".toList, "a".toList] index :=
  exists_assigns (by decide) (by decide)

end

end ThresholdDsa.Smpc
