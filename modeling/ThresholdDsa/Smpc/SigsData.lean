/-
# The signatures that bind nodes to accounts

A key generation or reshare of mode 0 carries one signature for each node of the
group: the account that approves for the node has signed the node's enode id.
`GetGroupSigsDataByRaw` finds the account of each signature and writes the number of
nodes, then node and account of each, with `Sep` between; the approval checks read
that text.

The text is accepted if it has the right number of fields.
`group_sigs_bind_nodes`: if the entries name different nodes and the group has no
node twice, every node of the group stands in it once, with an account that has
signed for it; `IsValidAccept` and `GetENodeByFrom` go by these pairs, and
`CheckAcc` looks at the accounts only.  `one_entry_for_two_nodes`: an entry that is
given twice is accepted in place of the second node's.
-/
import ThresholdDsa.Lib.Framing
import ThresholdDsa.Smpc.ApprovalWait
import ThresholdDsa.Smpc.ReshareCommand

namespace ThresholdDsa.Smpc.SigsData

open Outcome GoText Framing List

/-! ## `GetGroupSigsDataByRaw` -/

/-- A decoded transaction with its signatures. -/
inductive GroupTx where
  | reqAddr (req : TxDataReqAddr) (Sigs : Text)
  | reShare (rh : ReshareApproval.TxDataReShare) (Sigs : Text)
  | other

/-- Threshold, mode, signatures and group. -/
def GroupTx.GetGroupSigs : GroupTx → Text × Text × Text × Text
  | .reqAddr req Sigs => (req.ThresHold, req.Mode, Sigs, req.GroupID)
  | .reShare rh Sigs => (rh.ThresHold, rh.Mode, Sigs, rh.GroupID)
  | .other => ([], [], [], [])

/-- `enodes` are the texts `enode://id@ip:port` of a group's nodes, in ASCII, and `ParseNode` takes the
id, which is hexadecimal.  `Recover id sig` is the address of the account whose signature over the id
is `sig`, 20 bytes in hexadecimal with `0x`.  Neither has the letters of `Sep`. -/
structure SigsEnv extends Env where
  decodeSigs : Text → Option GroupTx
  enodes : Text → List Text
  ParseNode : Text → Enode
  parsed : ∀ gid, (enodes gid).map ParseNode = GetGroup toEnv gid
  parse_nil : ParseNode [] = []
  Recover : (node2 sig : Text) → Option Text
  id_free : ∀ gid, ∀ node ∈ GetGroup toEnv gid, ¬ Sep <:+: node
  account_length : ∀ {node2 sig acc}, Recover node2 sig = some acc → acc.length = 42
  account_free : ∀ {node2 sig acc}, Recover node2 sig = some acc → ¬ Sep <:+: acc

/-- `strings.Split(text, "//")`. -/
def splitSlashes : Text → List Text
  | '/' :: '/' :: rest => [] :: splitSlashes rest
  | c :: rest =>
    match splitSlashes rest with
    | [] => [[c]]
    | first :: more => (c :: first) :: more
  | [] => [[]]

/-- The id that an entry `enode://id@…` names. -/
def enodeID (entry : Text) : Option Enode :=
  ((entry.splitOn '@').head?.bind fun en => (splitSlashes en)[1]?)

section

variable (E : SigsEnv)

/-- The texts of the nodes; the split text of an unknown group is one empty text. -/
def nodesOf (groupid : Text) : List Text :=
  if E.enodes groupid = [] then [[]] else E.enodes groupid

/-- The pair of an entry and a node, if the entry names the node. -/
def nodePair (entry node : Text) : Outcome (Option (Enode × Text)) := do
  let node2 := E.ParseNode node
  let enID ← orError "group sigs error" (enodeID entry)
  if E.folding.EqualFold node2 enID then do
    require (node.length < entry.length) "group sigs error"
    let acc ← orError "recovery failed" (E.Recover node2 (entry.drop node.length))
    pure (some (node2, acc))
  else pure none

/-- The two loops. -/
def sigPairs (nodes sigs : List Text) : Outcome (List (Enode × Text)) := do
  let found ← sigs.mapM fun entry => nodes.mapM (nodePair E entry)
  pure (found.flatMap List.reduceOption)

/-- `n`, `eid1`, `acc1`, `eid2`, `acc2`, … with `Sep` between. -/
def sigsText (nodecnt : ℕ) (pairs : List (Enode × Text)) : Text :=
  itoa nodecnt ++ pairs.flatMap fun p => Sep ++ p.1 ++ Sep ++ p.2

def GetGroupSigsDataByRaw (raw : Text) : Outcome Text := do
  require (raw ≠ []) "raw data empty"
  let tx ← orError "rlp: decoding" (E.decodeSigs raw)
  let (threshold, mode, groupsigs, groupid) := tx.GetGroupSigs
  require (threshold ≠ [] ∧ mode ≠ [] ∧ groupid ≠ [])
    "raw data error,it is not REQSMPCADDR tx or RESHARE tx"
  if mode = mode1 then pure [] else do
    require (¬ (mode = mode0 ∧ groupsigs = [])) "raw data error,must have sigs data when mode = 0"
    let second ← deref (threshold.splitOn '/')[1]?
    let nodecnt := atoiValue second
    require (1 < nodecnt) "threshold error"
    let sigs := groupsigs.splitOn '|'
    require (nodecnt = sigs.length) "group sigs error"
    let pairs ← sigPairs E (nodesOf E groupid) sigs
    let sstmp := sigsText nodecnt.toNat pairs
    require (((split Sep sstmp).length : ℤ) = 2 * nodecnt + 1) "group sigs error"
    pure sstmp

end

/-! ## The pairs of the entries -/

variable {E : SigsEnv}

section

variable {nodes entries : List Text} {entry : Text}

/-- The account has signed the id, and the signature is part of one of the entries. -/
def Signed (E : SigsEnv) (entries : List Text) (p : Enode × Text) : Prop :=
  ∃ entry ∈ entries, ∃ sig, sig <:+ entry ∧ E.Recover p.1 sig = some p.2

/-- What a pair of an entry tells. -/
structure Named (E : SigsEnv) (nodes : List Text) (entry : Text) (p : Enode × Text) : Prop where
  node : ∃ node ∈ nodes, p.1 = E.ParseNode node
  id : ∃ enID, enodeID entry = some enID ∧ E.folding.EqualFold p.1 enID
  signed : ∃ sig, sig <:+ entry ∧ E.Recover p.1 sig = some p.2

theorem nodePair_eq_ok {node : Text} {p : Enode × Text} (found : nodePair E entry node = .ok (some p)) :
    p.1 = E.ParseNode node ∧ (∃ enID, enodeID entry = some enID ∧ E.folding.EqualFold p.1 enID) ∧
      ∃ sig, sig <:+ entry ∧ E.Recover p.1 sig = some p.2 := by
  simp only [nodePair, eq_ok] at found
  obtain ⟨enID, id_eq, found⟩ := found
  split at found
  · rename_i same
    simp only [eq_ok] at found
    obtain ⟨-, -, acc, recovered, eq⟩ := found
    cases eq
    exact ⟨rfl, ⟨enID, id_eq, same⟩, _, drop_suffix _ _, recovered⟩
  · cases found

/-- One entry: its pairs, in the order of the nodes. -/
theorem entry_pairs {os : List (Option (Enode × Text))}
    (row : List.Forall₂ (fun node o => nodePair E entry node = .ok o) nodes os) :
    (os.reduceOption.map Prod.fst).Sublist (nodes.map E.ParseNode) ∧
      ∀ p ∈ os.reduceOption, Named E nodes entry p := by
  induction row with
  | nil => exact ⟨List.Sublist.refl _, nofun⟩
  | @cons node o rest os found _ ih =>
    obtain ⟨sub, named⟩ := ih
    have kept : ∀ p ∈ os.reduceOption, Named E (node :: rest) entry p := by
      intro p mem
      obtain ⟨⟨n, n_mem, eq⟩, id, signed⟩ := named p mem
      exact ⟨⟨n, mem_cons_of_mem _ n_mem, eq⟩, id, signed⟩
    cases o with
    | none => exact ⟨sub.cons _, kept⟩
    | some p =>
      obtain ⟨node_eq, id, signed⟩ := nodePair_eq_ok found
      constructor
      · rw [reduceOption_cons_of_some, map_cons, map_cons, node_eq]
        exact sub.cons_cons _
      · rw [reduceOption_cons_of_some]
        intro q mem
        rcases mem_cons.mp mem with rfl | later
        · exact ⟨⟨node, mem_cons_self, node_eq⟩, id, signed⟩
        · exact kept q later

/-- Two texts that are not the same id. -/
def Apart (E : SigsEnv) (s t : Text) : Prop := ¬ E.folding.EqualFold s t

/-- The entries name different nodes. -/
def EntriesApart (E : SigsEnv) (entries : List Text) : Prop :=
  entries.Pairwise fun e e' => ∀ id id', enodeID e = some id → enodeID e' = some id' → Apart E id id'

/-- All entries: every pair comes from an entry, and no node is named twice. -/
theorem sigPairs_spec {pairs : List (Enode × Text)} (returned : sigPairs E nodes entries = .ok pairs) :
    (∀ p ∈ pairs, ∃ entry ∈ entries, Named E nodes entry p) ∧
      (EntriesApart E entries → (nodes.map E.ParseNode).Pairwise (Apart E) →
        (pairs.map Prod.fst).Pairwise (Apart E)) := by
  simp only [sigPairs, eq_ok, mapM_eq_ok] at returned
  obtain ⟨found, rows, rfl⟩ := returned
  induction rows with
  | nil => exact ⟨nofun, fun _ _ => List.Pairwise.nil⟩
  | @cons entry os entries found row _ ih =>
    obtain ⟨named, apart⟩ := ih
    obtain ⟨sub, first_named⟩ := entry_pairs row
    constructor
    · intro p mem
      rcases mem_append.mp (flatMap_cons ▸ mem) with first | later
      · exact ⟨entry, mem_cons_self, first_named p first⟩
      · obtain ⟨e, e_mem, e_named⟩ := named p later
        exact ⟨e, mem_cons_of_mem _ e_mem, e_named⟩
    · intro entries_apart nodes_apart
      obtain ⟨first_apart, rest_apart⟩ := pairwise_cons.mp entries_apart
      rw [flatMap_cons, map_append, pairwise_append]
      refine ⟨nodes_apart.sublist sub, apart rest_apart nodes_apart, ?_⟩
      intro s s_mem t t_mem equal
      obtain ⟨p, p_mem, rfl⟩ := mem_map.mp s_mem
      obtain ⟨q, q_mem, rfl⟩ := mem_map.mp t_mem
      obtain ⟨id, id_eq, p_id⟩ := (first_named p p_mem).id
      obtain ⟨e, e_mem, q_named⟩ := named q q_mem
      obtain ⟨id', id'_eq, q_id⟩ := q_named.id
      -- both pairs would have the id of their own entry
      exact first_apart e e_mem id id' id_eq id'_eq
        (Folding.equalFold_trans (Folding.equalFold_symm p_id) (Folding.equalFold_trans equal q_id))

end

/-! ## The text and its fields -/

theorem unbordered_sep : Unbordered Sep := unbordered_of_drop (by decide)

theorem not_sep_infix {text : Text} (free : 'm' ∉ text) : ¬ Sep <:+: text :=
  fun inside => free (inside.subset (by decide))

theorem split_sigsText {n : ℕ} {pairs : List (Enode × Text)}
    (free : ∀ p ∈ pairs, ¬ Sep <:+: p.1 ∧ ¬ Sep <:+: p.2) :
    split Sep (sigsText n pairs) = itoa n :: pairFields pairs := by
  have joined : ∀ first : Text, first ++ pairs.flatMap (fun p => Sep ++ p.1 ++ Sep ++ p.2) =
      Sep.intercalate (first :: pairFields pairs) := by
    clear free
    induction pairs with
    | nil => simp [pairFields]
    | cons p pairs ih =>
      intro first
      have fields_eq : pairFields (p :: pairs) = p.1 :: p.2 :: pairFields pairs := rfl
      have last := ih p.2
      rw [flatMap_cons, fields_eq, intercalate_cons_cons, intercalate_cons_cons, ← last]
      simp
  rw [sigsText, joined]
  refine split_intercalate unbordered_sep (cons_ne_nil _ _) (forall_mem_cons.mpr ⟨?_, fun t mem => ?_⟩)
  · exact not_sep_infix fun letter => absurd (itoa_isDigit letter) (by decide)
  · obtain ⟨p, p_mem, part⟩ := mem_flatMap.mp mem
    rcases mem_pair.mp part with rfl | rfl
    · exact (free p p_mem).1
    · exact (free p p_mem).2

theorem length_pairFields (pairs : List (Enode × Text)) :
    (pairFields pairs).length = 2 * pairs.length := by
  simp [pairFields, mul_comm]

/-- Neighbouring fields of a pair. -/
theorem adjacent_of_mem {E : Env} {pairs : List (Enode × Text)} {p : Enode × Text} {node sender : Text}
    (mem : p ∈ pairs) (same_node : E.folding.EqualFold p.1 node)
    (same_account : E.folding.EqualFold p.2 sender) (first : Text) :
    adjacent E node sender (first :: pairFields pairs) := by
  induction pairs generalizing first with
  | nil => cases mem
  | cons q pairs ih =>
    have fields_eq : pairFields (q :: pairs) = q.1 :: q.2 :: pairFields pairs := rfl
    simp only [fields_eq, adjacent, decide_eq_true_eq]
    rcases mem_cons.mp mem with rfl | later
    · exact .inr (.inl ⟨same_node, same_account⟩)
    · exact .inr (.inr (ih later q.2))

/-- The checks read from the text what the signatures bind. -/
theorem isValidAccept_iff {E : Env} {S : GroupSigs} {gid sender : Text} {ac : AcceptReqAddrData}
    (gid_ne : gid ≠ []) (sigs : ac.Sigs = S.fields) (complete : sigsComplete ac) :
    IsValidAccept E gid sender ac ↔ ∃ node ∈ GetGroup E gid, Binds E S node sender := by
  constructor
  · exact binds_of_isValidAccept sigs
  rintro ⟨node, node_mem, p, p_mem, same_node, same_account⟩
  have sender_ne : sender ≠ [] := by
    have length := Folding.length_eq_of_equalFold same_account
    rw [S.account_length p p_mem] at length
    exact ne_nil_of_length_eq_add_one length.symm
  simp only [IsValidAccept, decide_eq_true_eq, any_eq_true]
  exact ⟨gid_ne, sender_ne, complete, node, node_mem,
    sigs ▸ adjacent_of_mem p_mem same_node same_account _⟩

/-- `CheckAcc` takes the accounts of all nodes, whichever node it is asked about. -/
theorem checkAcc_iff {E : Env} {S : GroupSigs} {account : Text} (account_length : account.length = 42)
    (eid_ne : E.curEnode ≠ []) :
    CheckAcc E account S.fields ↔ ∃ p ∈ S.pairs, E.folding.EqualFold p.2 account := by
  have account_ne : account ≠ [] := ne_nil_of_length_eq_add_one account_length
  simp only [CheckAcc, decide_eq_true_eq, any_eq_true]
  constructor
  · rintro ⟨-, -, field, mem, equal⟩
    have field_length : field.length = 42 :=
      (Folding.length_eq_of_equalFold equal).symm.trans account_length
    rcases mem_cons.mp mem with rfl | mem
    · have := itoa_length_lt S.small
      omega
    · obtain ⟨p, p_mem, part⟩ := mem_flatMap.mp mem
      rcases mem_pair.mp part with rfl | rfl
      · have := S.enode_length p p_mem
        omega
      · exact ⟨p, p_mem, Folding.equalFold_symm equal⟩
  · rintro ⟨p, p_mem, equal⟩
    refine ⟨eid_ne, account_ne, p.2, mem_cons_of_mem _ ?_, Folding.equalFold_symm equal⟩
    exact mem_flatMap.mpr ⟨p, p_mem, by simp⟩

/-! ## Nodes and accounts of a checked command -/

/-- What `CheckTxData` has checked of the threshold and the group of a command. -/
structure Checked (E : Env) (threshold groupid : Text) (nodecnt : ℤ) : Prop where
  nums : ∃ first second limit, threshold.splitOn '/' = [first, second] ∧ Atoi first = some limit ∧
    Atoi second = some nodecnt ∧ 2 ≤ limit ∧ limit ≤ (GetGroup E groupid).length
  count : (GetGroup E groupid).length ≤ nodecnt

theorem Checked.groupid_ne {E : Env} {threshold groupid : Text} {nodecnt : ℤ}
    (checked : Checked E threshold groupid nodecnt) : groupid ≠ [] := by
  rintro rfl
  obtain ⟨-, -, limit, -, -, -, two, le⟩ := checked.nums
  have unknown : GetGroup E [] = [] := rfl
  rw [unknown, length_nil] at le
  omega

theorem checked_of_checkReqAddr {E : Env} {sender key : Text} {nonce : ℕ} {req : TxDataReqAddr}
    (passed : checkReqAddr E sender nonce req = .ok key) :
    ∃ nodecnt, Checked E req.ThresHold req.GroupID nodecnt := by
  simp only [checkReqAddr, eq_ok, decide_eq_true_eq, Prod.exists] at passed
  obtain ⟨-, -, -, -, -, -, -, -, -, -, -, -, limit, nodecnt, nums, -, ⟨le, two⟩, -, count, -⟩ := passed
  obtain ⟨first, second, split_eq, first_eq, second_eq⟩ := thresholdNums_eq_ok.mp nums
  exact ⟨nodecnt, ⟨first, second, limit, split_eq, first_eq, second_eq, two, count ▸ le⟩, count.le⟩

/-- A number that `strconv.Atoi` accepts. -/
theorem atoiValue_of_atoi {text : Text} {n : ℤ} (read : Atoi text = some n) :
    atoiValue text = n ∧ n < 2 ^ 63 := by
  obtain ⟨number, range⟩ := Option.filter_eq_some_iff.mp read
  obtain ⟨low, high⟩ := of_decide_eq_true range
  rw [atoiValue, number, Option.map_some, Option.getD_some]
  omega

theorem mem_getGroup_of_sigPairs {groupid : Text} {entries : List Text}
    {pairs : List (Enode × Text)} (loops : sigPairs E (E.enodes groupid) entries = .ok pairs) :
    ∀ p ∈ pairs, p.1 ∈ GetGroup E.toEnv groupid := by
  intro p mem
  obtain ⟨entry, -, name⟩ := (sigPairs_spec loops).1 p mem
  obtain ⟨node, node_mem, eq⟩ := name.node
  rw [← E.parsed groupid, eq]
  exact mem_map_of_mem node_mem

section Returned

variable {raw threshold groupsigs groupid sigs : Text} {tx : GroupTx} {nodecnt : ℤ}
  (decoded : E.decodeSigs raw = some tx)
  (data : tx.GetGroupSigs = (threshold, mode0, groupsigs, groupid))
  (checked : Checked E.toEnv threshold groupid nodecnt)
  (returned : GetGroupSigsDataByRaw E raw = .ok sigs)

include decoded data checked returned

/-- A returned text is the text of the pairs of all entries. -/
theorem getGroupSigsDataByRaw_eq_ok :
    ∃ pairs, sigPairs E (E.enodes groupid) (groupsigs.splitOn '|') = .ok pairs ∧
      sigs = sigsText nodecnt.toNat pairs ∧
      ((split Sep (sigsText nodecnt.toNat pairs)).length : ℤ) = 2 * nodecnt + 1 ∧
      1 < nodecnt ∧ nodecnt < 2 ^ 63 := by
  obtain ⟨first, second, limit, split_eq, -, second_eq, two, le⟩ := checked.nums
  have known : E.enodes groupid ≠ [] := by
    intro empty
    have nodes := E.parsed groupid
    rw [empty, map_nil] at nodes
    rw [← nodes] at le
    exact absurd (two.trans le) (by simp)
  have not_one : mode0 ≠ mode1 := by decide
  have value := atoiValue_of_atoi second_eq
  simp only [GetGroupSigsDataByRaw, decoded, data, split_eq, orError, ok_bind, not_one, if_false,
    getElem?_cons_succ, getElem?_cons_zero, deref, value.1, eq_ok, decide_eq_true_eq,
    nodesOf, known] at returned
  obtain ⟨-, -, -, -, -, -, -, two_nodes, -, -, pairs, loops, -, length, rfl⟩ := returned
  exact ⟨pairs, loops, rfl, length, two_nodes, value.2⟩

/-- The text binds group nodes to accounts that have signed for them. -/
theorem exists_groupSigs :
    ∃ S : GroupSigs, split Sep sigs = S.fields ∧ (S.pairs.length : ℤ) = nodecnt ∧
      sigPairs E (E.enodes groupid) (groupsigs.splitOn '|') = .ok S.pairs := by
  obtain ⟨pairs, loops, rfl, length, two_nodes, small⟩ :=
    getGroupSigsDataByRaw_eq_ok decoded data checked returned
  have named := (sigPairs_spec loops).1
  have node_of := mem_getGroup_of_sigPairs loops
  have account_of : ∀ p ∈ pairs, ∃ sig, E.Recover p.1 sig = some p.2 := by
    intro p mem
    obtain ⟨entry, -, name⟩ := named p mem
    obtain ⟨sig, -, recovered⟩ := name.signed
    exact ⟨sig, recovered⟩
  have fields : split Sep (sigsText nodecnt.toNat pairs) =
      itoa nodecnt.toNat :: pairFields pairs := split_sigsText fun p mem =>
    ⟨E.id_free groupid p.1 (node_of p mem), (account_of p mem).elim fun _ => E.account_free⟩
  rw [fields, length_cons, length_pairFields] at length
  have count : nodecnt.toNat = pairs.length := by omega
  have few : pairs.length < 2 ^ 63 := by omega
  have total : (pairs.length : ℤ) = nodecnt := by omega
  refine ⟨⟨pairs, fun p mem => enode_length_of_mem (node_of p mem),
    fun p mem => (account_of p mem).elim fun _ => E.account_length, few⟩, ?_, total, loops⟩
  rw [fields, count]
  rfl

omit decoded data checked returned

/-- Pairs with one node are one pair. -/
theorem eq_of_apart {pairs : List (Enode × Text)} (apart : (pairs.map Prod.fst).Pairwise (Apart E))
    {p q : Enode × Text} (p_mem : p ∈ pairs) (q_mem : q ∈ pairs)
    (same : E.folding.EqualFold p.1 q.1) : p = q := by
  induction pairs with
  | nil => cases p_mem
  | cons first rest ih =>
    obtain ⟨first_apart, rest_apart⟩ := pairwise_cons.mp apart
    rcases mem_cons.mp p_mem with rfl | p_rest
    · rcases mem_cons.mp q_mem with rfl | q_rest
      · rfl
      · exact absurd same (first_apart q.1 (mem_map_of_mem q_rest))
    · rcases mem_cons.mp q_mem with rfl | q_rest
      · exact absurd (Folding.equalFold_symm same) (first_apart p.1 (mem_map_of_mem p_rest))
      · exact ih rest_apart p_rest q_rest

include checked in
theorem sigsComplete_of_checked {S : GroupSigs} (total : (S.pairs.length : ℤ) = nodecnt)
    {ac : AcceptReqAddrData} (ac_sigs : ac.Sigs = S.fields)
    (limit_num : ac.LimitNum = threshold) : sigsComplete ac := by
  obtain ⟨first, second, limit, split_eq, -, second_eq, two, le⟩ := checked.nums
  have count := checked.count
  have length : (ac.Sigs.length : ℤ) = 2 * nodecnt + 1 := by
    rw [ac_sigs, GroupSigs.fields, length_cons, length_pairFields]
    omega
  have enough : 3 ≤ ac.Sigs.length := by omega
  simp [sigsComplete, limit_num, split_eq, second_eq, length, enough]

end Returned

/-- A command of mode 0 that was checked, whose entries name different nodes and whose group has no
node twice: the text has every node of the group once, with an account whose signature over the
node's id is in the transaction.  The approval checks go by these pairs; `CheckAcc` does not look at
the node it is asked about. -/
theorem group_sigs_bind_nodes (E : SigsEnv) {raw threshold groupsigs groupid sigs : Text} {tx : GroupTx}
    {nodecnt : ℤ} (decoded : E.decodeSigs raw = some tx)
    (data : tx.GetGroupSigs = (threshold, mode0, groupsigs, groupid))
    (checked : Checked E.toEnv threshold groupid nodecnt)
    (entries_apart : EntriesApart E (groupsigs.splitOn '|'))
    (nodes_apart : (GetGroup E.toEnv groupid).Pairwise (Apart E))
    (returned : GetGroupSigsDataByRaw E raw = .ok sigs) :
    ∃ S : GroupSigs, split Sep sigs = S.fields ∧
      (∀ p ∈ S.pairs, Signed E (groupsigs.splitOn '|') p) ∧
      (S.pairs.map Prod.fst).Perm (GetGroup E.toEnv groupid) ∧
      (∀ node ∈ GetGroup E.toEnv groupid, ∃ account, Binds E.toEnv S node account ∧
        ∀ other, Binds E.toEnv S node other → E.folding.EqualFold other account) ∧
      ∀ ac : AcceptReqAddrData, ac.Sigs = S.fields → ac.LimitNum = threshold → ∀ account,
        (IsValidAccept E.toEnv groupid account ac ↔
          ∃ node ∈ GetGroup E.toEnv groupid, Binds E.toEnv S node account) ∧
        (IsValidAccept E.toEnv groupid account ac → ∃ node ∈ GetGroup E.toEnv groupid,
          GetENodeByFrom E.toEnv account ac = .ok node ∧ Binds E.toEnv S node account) ∧
        ∀ eid, eid ≠ [] → account.length = 42 →
          (CheckAcc { E.toEnv with curEnode := eid } account ac.Sigs ↔
            ∃ node ∈ GetGroup E.toEnv groupid, Binds E.toEnv S node account) := by
  obtain ⟨S, fields, total, loops⟩ := exists_groupSigs decoded data checked returned
  obtain ⟨named, keeps_apart⟩ := sigPairs_spec loops
  have apart : (S.pairs.map Prod.fst).Pairwise (Apart E) :=
    keeps_apart entries_apart (by rw [E.parsed]; exact nodes_apart)
  have node_of := mem_getGroup_of_sigPairs loops
  have all_nodes : (S.pairs.map Prod.fst).Perm (GetGroup E.toEnv groupid) := by
    have nodup : (S.pairs.map Prod.fst).Nodup := by
      refine apart.imp ?_
      rintro id _ different rfl
      exact different (E.folding.equalFold_refl id)
    apply (subperm_of_subset nodup ?_).perm_of_length_le
    · have count := checked.count
      rw [length_map]
      omega
    · intro id mem
      obtain ⟨p, p_mem, rfl⟩ := mem_map.mp mem
      exact node_of p p_mem
  refine ⟨S, fields, ?_, all_nodes, ?_, ?_⟩
  · intro p mem
    obtain ⟨entry, entry_mem, name⟩ := named p mem
    exact ⟨entry, entry_mem, name.signed⟩
  · intro node mem
    obtain ⟨p, p_mem, rfl⟩ := mem_map.mp (all_nodes.mem_iff.mpr mem)
    refine ⟨p.2, ⟨p, p_mem, E.folding.equalFold_refl _, E.folding.equalFold_refl _⟩, ?_⟩
    rintro other ⟨q, q_mem, same_node, same_account⟩
    obtain rfl := eq_of_apart apart q_mem p_mem same_node
    exact Folding.equalFold_symm same_account
  · intro ac ac_sigs limit_num account
    have complete := sigsComplete_of_checked checked total ac_sigs limit_num
    have valid : IsValidAccept E.toEnv groupid account ac ↔
        ∃ node ∈ GetGroup E.toEnv groupid, Binds E.toEnv S node account :=
      isValidAccept_iff checked.groupid_ne ac_sigs complete
    refine ⟨valid, fun accepted => ?_, fun eid eid_ne account_length => ?_⟩
    · obtain ⟨node, -, bound⟩ := valid.mp accepted
      obtain ⟨p, p_mem, equal, found⟩ := getENodeByFrom_of_binds ac_sigs bound complete
      exact ⟨p.1, node_of p p_mem, found, p, p_mem, E.folding.equalFold_refl _, equal⟩
    · rw [ac_sigs, checkAcc_iff account_length eid_ne]
      constructor
      · rintro ⟨p, p_mem, equal⟩
        exact ⟨p.1, node_of p p_mem, p, p_mem, E.folding.equalFold_refl _, equal⟩
      · rintro ⟨-, -, p, p_mem, -, equal⟩
        exact ⟨p, p_mem, equal⟩

/-! ## Two nodes, with an entry each or one entry for both -/

namespace TwoEntries

open TwoNodes

def url (id : Enode) : Text := "enode://".toList ++ id ++ "@h".toList

def ParseNode (node : Text) : Enode := (node.drop 8).take 128

theorem parseNode_url {id : Enode} (length : id.length = 128) : ParseNode (url id) = id := by
  have drop : (url id).drop 8 = id ++ "@h".toList := rfl
  rw [ParseNode, drop, ← length, take_left]

def entry (id sig : Char) : Text := url (node id) ++ [sig]

def request : TxDataReqAddr where
  Keytype := EC256K1
  GroupID := gid
  ThresHold := "2/2".toList
  Mode := mode0
  AcceptTimeOut := []
  TimeStamp := ['1']

/-- The signature `1` is that of the first account, `2` that of the second.  The first transaction has
an entry of each node, the second has the entry of the first node twice. -/
def sigsEnv : SigsEnv where
  toEnv := env
  decodeSigs
    | ['1'] => some (.reqAddr request (entry 'a' '1' ++ '|' :: entry 'b' '2'))
    | ['2'] => some (.reqAddr request (entry 'a' '1' ++ '|' :: entry 'a' '1'))
    | _ => none
  enodes gid := (GetGroup env gid).map url
  ParseNode := ParseNode
  parsed gid := by
    rw [map_map]
    refine (map_congr_left fun id mem => ?_).trans (map_id _)
    exact parseNode_url (enode_length_of_mem mem)
  parse_nil := rfl
  Recover _ sig := if sig = ['1'] then some (account '1') else if sig = ['2'] then some (account '2') else none
  id_free gid id mem := by
    unfold GetGroup at mem
    split at mem
    · rcases mem_pair.mp mem with rfl | rfl <;> exact not_sep_infix (by decide)
    · cases mem
  account_length {_ sig _} recovered := by
    split_ifs at recovered
    · cases recovered
      rfl
    · cases recovered
      rfl
  account_free {_ sig _} recovered := by
    split_ifs at recovered
    · cases recovered
      exact not_sep_infix (by decide)
    · cases recovered
      exact not_sep_infix (by decide)

def boundText : Text := sigsText 2 [(node 'a', account '1'), (node 'b', account '2')]

def repeatedText : Text := sigsText 2 [(node 'a', account '1'), (node 'a', account '1')]

theorem group : GetGroup sigsEnv.toEnv gid = [node 'a', node 'b'] := by decide +kernel

theorem entriesApart : EntriesApart sigsEnv ((entry 'a' '1' ++ '|' :: entry 'b' '2').splitOn '|') := by
  have split_eq : (entry 'a' '1' ++ '|' :: entry 'b' '2').splitOn '|' = [entry 'a' '1', entry 'b' '2'] := by
    decide +kernel
  have first : enodeID (entry 'a' '1') = some (node 'a') := by decide +kernel
  have second : enodeID (entry 'b' '2') = some (node 'b') := by decide +kernel
  rw [split_eq, EntriesApart, pairwise_pair]
  intro id id' id_eq id'_eq
  obtain rfl := Option.some.inj (first.symm.trans id_eq)
  obtain rfl := Option.some.inj (second.symm.trans id'_eq)
  exact TwoNodes.apart

end TwoEntries

open TwoNodes TwoEntries in
theorem group_sigs_bind_two_nodes :
    ∃ S : GroupSigs, split Sep boundText = S.fields ∧
      (S.pairs.map Prod.fst).Perm [node 'a', node 'b'] := by
  have passed : checkReqAddr sigsEnv.toEnv (account '1') 0 request = .ok ['k'] := by decide +kernel
  obtain ⟨nodecnt, checked⟩ := checked_of_checkReqAddr passed
  have nodes_apart : (GetGroup sigsEnv.toEnv gid).Pairwise (Apart sigsEnv) := by
    rw [group, pairwise_pair]
    exact TwoNodes.apart
  have returned : GetGroupSigsDataByRaw sigsEnv ['1'] = .ok boundText := by decide +kernel
  obtain ⟨S, fields, -, all_nodes, -⟩ :=
    group_sigs_bind_nodes sigsEnv rfl rfl checked entriesApart nodes_apart returned
  exact ⟨S, fields, group ▸ all_nodes⟩

open TwoNodes TwoEntries in
/-- With an entry of each node `CheckAcc` relates the first node to both accounts.  With one entry
twice the text is accepted, and the second node is missing. -/
theorem one_entry_for_two_nodes :
    checkReqAddr sigsEnv.toEnv (account '1') 0 request = .ok ['k'] ∧
    (GetGroupSigsDataByRaw sigsEnv ['1'] = .ok boundText ∧
      CheckAcc { env with curEnode := node 'a' } (account '1') (split Sep boundText) ∧
      CheckAcc { env with curEnode := node 'a' } (account '2') (split Sep boundText) ∧
      ¬ env.folding.EqualFold (account '1') (account '2')) ∧
    GetGroupSigsDataByRaw sigsEnv ['2'] = .ok repeatedText ∧
      node 'b' ∈ GetGroup sigsEnv.toEnv gid ∧ node 'b' ∉ split Sep repeatedText ∧
      (split Sep repeatedText).count (node 'a') = 2 := by
  decide +kernel

end ThresholdDsa.Smpc.SigsData
