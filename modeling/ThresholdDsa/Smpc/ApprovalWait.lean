/-
# What the end of the approval wait means

The wait of a command of mode 0 ends with approval when the list of counted
transactions is as long as the group and every recorded reply agrees.  The list
holds at most one entry for each account, so its length counts accounts; whether
these are the accounts of the group depends on who gets into it.

`wait_ends_approved`: if the command's sender is bound to a node of the group, no
node is bound to two accounts, and the request queue delivers to the worker only
the command itself and agreeing replies of bound accounts, then the wait ends
with approval only when the account of every node of the group issued the command
or has agreed in its latest counted reply.  `outsider_counts_as_approval`: a
command from any other account counts as the missing approval.
-/
import ThresholdDsa.Smpc.Approval

namespace ThresholdDsa.Smpc

open Outcome GoText Quorum List

/-! ## Nodes and their accounts -/

/-- The content of `Sigs` as `GetGroupSigsDataByRaw` writes it: for each signature the enode id, 64
bytes in hexadecimal, and the address of the account, 20 bytes with `0x`. -/
structure GroupSigs where
  pairs : List (Enode × Text)
  enode_length : ∀ p ∈ pairs, p.1.length = 128
  account_length : ∀ p ∈ pairs, p.2.length = 42
  small : pairs.length < 2 ^ 63

def pairFields (pairs : List (Enode × Text)) : List Text := pairs.flatMap fun p => [p.1, p.2]

def GroupSigs.fields (S : GroupSigs) : List Text := itoa S.pairs.length :: pairFields S.pairs

section

variable (E : Env)

/-- `Sigs` binds the node to the account. -/
def Binds (S : GroupSigs) (node account : Text) : Prop :=
  ∃ p ∈ S.pairs, E.folding.EqualFold p.1 node ∧ E.folding.EqualFold p.2 account

variable {E} {S : GroupSigs}

theorem itoa_length_lt {n : ℕ} (small : n < 2 ^ 63) : (itoa n).length < 42 := by
  have digits : (itoa n).length ≤ 19 := by
    rw [itoa, Nat.length_toDigits_le_iff (by decide) (by decide)]
    omega
  omega

variable {sender : Text} {pairs : List (Enode × Text)}

/-- Neighbours in the list of fields are a pair, since the field before a pair is not a node. -/
theorem adjacent_pairFields {first node : Text}
    (lengths : ∀ p ∈ pairs, p.2.length = 42) (node_length : node.length = 128)
    (first_length : first.length ≤ 42) (found : adjacent E node sender (first :: pairFields pairs)) :
    ∃ p ∈ pairs, E.folding.EqualFold p.1 node ∧ E.folding.EqualFold p.2 sender := by
  have not_node : ∀ {t : Text}, t.length ≤ 42 → ¬ E.folding.EqualFold t node := fun short equal => by
    have same := Folding.length_eq_of_equalFold equal
    omega
  induction pairs generalizing first with
  | nil => simp [pairFields, adjacent] at found
  | cons p pairs ih =>
    have fields_eq : pairFields (p :: pairs) = p.1 :: p.2 :: pairFields pairs := rfl
    simp only [fields_eq, adjacent, decide_eq_true_eq] at found
    rcases found with ⟨bad, -⟩ | here | rest
    · exact absurd bad (not_node first_length)
    · exact ⟨p, by simp, here⟩
    · have short : p.2.length ≤ 42 := (lengths p (by simp)).le
      obtain ⟨q, q_mem, bound⟩ :=
        ih (fun q mem => lengths q (mem_cons_of_mem p mem)) short rest
      exact ⟨q, mem_cons_of_mem p q_mem, bound⟩

variable {ac : AcceptReqAddrData}

theorem binds_of_isValidAccept {gid : Text} (sigs : ac.Sigs = S.fields)
    (valid : IsValidAccept E gid sender ac) : ∃ node ∈ GetGroup E gid, Binds E S node sender := by
  simp only [IsValidAccept, sigs, any_eq_true, decide_eq_true_eq] at valid
  obtain ⟨-, -, -, node, mem, found⟩ := valid
  exact ⟨node, mem, adjacent_pairFields S.account_length (enode_length_of_mem mem)
    (itoa_length_lt S.small).le found⟩

/-- The field before an account is its node. -/
theorem fieldBefore_pairFields (before : Text)
    (enodes : ∀ p ∈ pairs, p.1.length = 128) (sender_length : sender.length = 42)
    (bound : ∃ p ∈ pairs, E.folding.EqualFold p.2 sender) :
    ∃ p ∈ pairs, E.folding.EqualFold p.2 sender ∧
      fieldBefore E sender (some before) (pairFields pairs) = .ok p.1 := by
  induction pairs generalizing before with
  | nil => simp at bound
  | cons p pairs ih =>
    have enode_length := enodes p (by simp)
    have not_sender : ¬ E.folding.EqualFold p.1 sender := fun equal => by
      have same := Folding.length_eq_of_equalFold equal
      omega
    have fields_eq : pairFields (p :: pairs) = p.1 :: p.2 :: pairFields pairs := rfl
    rw [fields_eq, fieldBefore, if_neg not_sender, fieldBefore]
    by_cases here : E.folding.EqualFold p.2 sender
    · rw [if_pos here]
      exact ⟨p, mem_cons_self, here, rfl⟩
    rw [if_neg here]
    obtain ⟨q, q_mem, equal⟩ := bound
    have later : q ∈ pairs := by
      rcases mem_cons.mp q_mem with rfl | later
      · exact absurd equal here
      · exact later
    obtain ⟨r, r_mem, found⟩ :=
      ih p.2 (fun q mem => enodes q (mem_cons_of_mem p mem)) ⟨q, later, equal⟩
    exact ⟨r, mem_cons_of_mem p r_mem, found⟩

/-- `GetENodeByFrom` gives a node that the account is bound to. -/
theorem getENodeByFrom_of_binds {node : Text} (sigs : ac.Sigs = S.fields)
    (bound : Binds E S node sender) (complete : sigsComplete ac) :
    ∃ p ∈ S.pairs, E.folding.EqualFold p.2 sender ∧ GetENodeByFrom E sender ac = .ok p.1 := by
  obtain ⟨p, p_mem, -, equal⟩ := bound
  have sender_length : sender.length = 42 :=
    (Folding.length_eq_of_equalFold equal).symm.trans (S.account_length p p_mem)
  have sender_ne : sender ≠ [] := fun empty => by simp [empty] at sender_length
  have not_sender : ¬ E.folding.EqualFold (itoa S.pairs.length) sender := fun equal => by
    have same := Folding.length_eq_of_equalFold equal
    have short := itoa_length_lt S.small
    omega
  rw [GetENodeByFrom, if_pos ⟨sender_ne, complete⟩, sigs, GroupSigs.fields, fieldBefore,
    if_neg not_sender]
  exact fieldBefore_pairFields _ S.enode_length sender_length ⟨p, p_mem, equal⟩

end

/-! ## The list of counted transactions -/

section

variable (E : Env)

def senderOf (raw : Text) : Text := ((E.decode raw).map (·.sender)).getD []

/-- The accounts of the list, up to letter case. -/
def voter (raw : Text) : Text := (senderOf E raw).map E.folding.fold

variable {E}

theorem rawValue_sender {typeAndTime : TxData → Text × Text} (raw : Text) :
    (rawValue E typeAndTime raw).1 = senderOf E raw := by
  unfold rawValue senderOf
  cases E.decode raw <;> rfl

/-- The filter only removes entries, and lets a transaction pass when no entry of its account is
left. -/
theorem dulpLoop_spec (value : Text → RawValue) (raw : Text) (l : List Text) :
    (dulpLoop E value raw l).2.Sublist l ∧
      ((dulpLoop E value raw l).1 = .ok true →
        ∀ s ∈ (dulpLoop E value raw l).2, ¬ E.folding.EqualFold (value raw).1 (value s).1) := by
  induction l with
  | nil => exact ⟨.slnil, fun _ s mem => absurd mem (by simp [dulpLoop])⟩
  | cons s rest ih =>
    obtain ⟨sub, apart⟩ := ih
    unfold dulpLoop
    split
    · exact ⟨.refl _, fun passed => absurd passed (by simp [pure, Except.pure])⟩
    split
    · split
      · exact ⟨sub.cons s, apart⟩
      · rename_i answer refused
        exact ⟨.refl _, fun passed => absurd passed (refused · )⟩
    · rename_i other
      refine ⟨sub.cons_cons s, fun passed t mem => ?_⟩
      rcases mem_cons.mp mem with rfl | later
      · exact other
      · exact apart passed t later

theorem checkDulpRawReply_spec {value : Text → RawValue} {raw : Text} {l left : List Text}
    {answer : Outcome Bool} (filtered : CheckDulpRawReply E value raw l = (answer, left)) :
    left.Sublist l ∧ (answer = .ok true →
      ∀ s ∈ left, ¬ E.folding.EqualFold (value raw).1 (value s).1) := by
  unfold CheckDulpRawReply at filtered
  split at filtered
  · have spec := dulpLoop_spec (E := E) value raw l
    rwa [filtered] at spec
  · cases filtered
    exact ⟨.refl _, fun passed => absurd passed (by simp [pure, Except.pure])⟩

end

/-! ## The invariant of the count -/

variable {w : Worker}

section

variable (E : Env) (K : Kind) (command key gid : Text) (S : GroupSigs)

/-- The transaction is an approval of the command and agrees. -/
def Agrees (raw : Text) : Prop :=
  ∃ tx r, E.decode raw = some tx ∧ reply K tx.data = some r ∧ E.folding.EqualFold key r.Key ∧
    r.Accept = AGREE

/-- The latest counted transaction of an account. -/
def latestOf (account : Text) (w : Worker) : Option Text :=
  latest (fun s => E.folding.EqualFold (senderOf E s) account) w.counted

/-- No node of the group is bound to two accounts. -/
def SingleAccounts : Prop :=
  ∀ node ∈ GetGroup E gid, ∀ a b, Binds E S node a → Binds E S node b → E.folding.EqualFold a b

structure Counted (w : Worker) : Prop where
  sid : w.sid = key
  need : need K w = (GetGroup E gid).length
  distinct : (w.msgacceptres.map (voter E)).Nodup
  logged : ∀ s ∈ w.msgacceptres, s ∈ w.counted
  seated : ∀ s ∈ w.msgacceptres, ∃ node ∈ GetGroup E gid, Binds E S node (senderOf E s)
  answered : ∀ {a s}, latestOf E a w = some s → s = command ∨ Agrees E K key s ∨
    ∃ r ∈ w.ApprovReplys, E.folding.EqualFold r.sender a ∧ ¬ E.folding.EqualFold r.Accept agree
  covered : w.acceptChan → ∀ node ∈ GetGroup E gid, ∃ s ∈ w.counted, Binds E S node (senderOf E s)

variable {E K command key gid S} (inv : Counted E K command key gid S w)

include inv

theorem Counted.drop {l : List Text} (sub : l.Sublist w.msgacceptres) :
    Counted E K command key gid S { w with msgacceptres := l } where
  sid := inv.sid
  need := by cases K <;> exact inv.need
  distinct := inv.distinct.sublist (sub.map _)
  logged s mem := inv.logged s (sub.subset mem)
  seated s mem := inv.seated s (sub.subset mem)
  answered := inv.answered
  covered := inv.covered

omit inv in
theorem need_approve (K : Kind) (w : Worker) : Smpc.need K { w with approved := true } = Smpc.need K w := by
  cases K <;> rfl

theorem Counted.approve : Counted E K command key gid S { w with approved := true } :=
  { inv with need := (need_approve K w).trans inv.need }

/-- A transaction whose account has no entry is counted; `rs` are the replies afterwards. -/
theorem Counted.push {raw : Text} (rs : List ApprovReply)
    (apart : ∀ s ∈ w.msgacceptres, ¬ E.folding.EqualFold (senderOf E raw) (senderOf E s))
    (seat : ∃ node ∈ GetGroup E gid, Binds E S node (senderOf E raw))
    (kept : ∀ r ∈ w.ApprovReplys, ¬ E.folding.EqualFold r.sender (senderOf E raw) → r ∈ rs)
    (answer : raw = command ∨ Agrees E K key raw ∨ ∃ r ∈ rs,
      E.folding.EqualFold r.sender (senderOf E raw) ∧ ¬ E.folding.EqualFold r.Accept agree) :
    Counted E K command key gid S { w.PushBack raw with ApprovReplys := rs } where
  sid := inv.sid
  need := by cases K <;> exact inv.need
  distinct := by
    show ((w.msgacceptres ++ [raw]).map (voter E)).Nodup
    rw [map_append, map_singleton, nodup_append_comm, singleton_append,
      nodup_cons]
    refine ⟨fun mem => ?_, inv.distinct⟩
    obtain ⟨s, s_mem, same⟩ := mem_map.mp mem
    exact apart s s_mem (Folding.equalFold_iff.mpr same.symm)
  logged s mem := by
    rcases mem_append.mp mem with old | new
    · exact mem_append_left _ (inv.logged s old)
    · exact mem_append_right _ new
  seated s mem := by
    rcases mem_append.mp mem with old | new
    · exact inv.seated s old
    · rwa [mem_singleton.mp new]
  answered {a s} found := by
    rw [latestOf, Worker.PushBack, latest_append] at found
    split at found
    · rename_i own
      obtain rfl := Option.some.inj found
      refine answer.imp_right (Or.imp_right ?_)
      rintro ⟨r, r_mem, r_sender, disagrees⟩
      exact ⟨r, r_mem, Folding.equalFold_trans r_sender own, disagrees⟩
    · rename_i other
      refine (inv.answered found).imp_right (Or.imp_right ?_)
      rintro ⟨r, r_mem, r_sender, disagrees⟩
      refine ⟨r, kept r r_mem fun own => other ?_, r_sender, disagrees⟩
      exact Folding.equalFold_trans (Folding.equalFold_symm own) r_sender
  covered token node mem := by
    obtain ⟨s, s_mem, bound⟩ := inv.covered token node mem
    exact ⟨s, mem_append_left _ s_mem, bound⟩

/-- A list as long as the group has an entry for the account of every node. -/
theorem Counted.sendToken (single : SingleAccounts E gid S)
    (enough : Smpc.need K w ≤ w.msgacceptres.length) :
    Counted E K command key gid S w.sendToken := by
  unfold Worker.sendToken
  split
  · exact inv
  refine { inv with need := ?_, covered := fun _ node mem => ?_ }
  · cases K <;> exact inv.need
  rw [inv.need] at enough
  have voted := every_seat_voted (fun s node =>
    node ∈ GetGroup E gid ∧ Binds E S node (senderOf E s)) inv.distinct
    (fun s s_mem => by
      obtain ⟨node, node_mem, bound⟩ := inv.seated s s_mem
      exact ⟨node, node_mem, node_mem, bound⟩)
    (fun first second => Folding.equalFold_iff.mp
      (single _ first.1 _ _ first.2 second.2)) (by exact_mod_cast enough) mem
  obtain ⟨s, s_mem, -, bound⟩ := voted
  exact ⟨s, inv.logged s s_mem, bound⟩

omit inv in
theorem mem_putReply {reply r : ApprovReply} {replies : List ApprovReply} (mem : r ∈ replies)
    (other : ¬ E.folding.EqualFold r.sender reply.sender) : r ∈ putReply E reply replies := by
  induction replies with
  | nil => exact absurd mem (by simp)
  | cons vv rest ih =>
    unfold putReply
    rcases mem_cons.mp mem with rfl | later
    · rw [if_neg other]
      exact mem_cons_self
    · split
      · exact mem_cons_of_mem _ later
      · exact mem_cons_of_mem _ (ih later)

omit inv in
theorem self_mem_putReply (reply : ApprovReply) (replies : List ApprovReply) :
    reply ∈ putReply E reply replies := by
  induction replies with
  | nil => exact mem_singleton_self reply
  | cons vv rest ih =>
    unfold putReply
    split
    · exact mem_cons_self
    · exact mem_cons_of_mem _ ih

variable {value : Text → RawValue} {raw : Text}

/-- The request queue delivers the command or an agreeing reply. -/
theorem Counted.collectReply
    (single : SingleAccounts E gid S) (value_sender : ∀ t, (value t).1 = senderOf E t)
    (seat : ∃ node ∈ GetGroup E gid, Binds E S node (senderOf E raw))
    (answer : raw = command ∨ Agrees E K key raw) (found : Bool)
    (complete : List Text → Outcome Bool) :
    Counted E K command key gid S (Smpc.collectReply E value (Smpc.need K) found complete raw w) := by
  unfold Smpc.collectReply
  split
  · exact inv
  split
  · rename_i l filtered
    obtain ⟨sub, apart⟩ := checkDulpRawReply_spec filtered
    simp only [value_sender] at apart
    have dropped := inv.drop sub
    split
    · have pushed := dropped.push w.ApprovReplys (apart trivial) seat (fun r mem _ => mem)
        (answer.imp_right Or.inl)
      dsimp only
      split
      · rename_i enough
        exact pushed.sendToken single enough.1
      · exact pushed
    · exact dropped
  · rename_i answer l _ filtered
    exact inv.drop (checkDulpRawReply_spec filtered).1

omit inv in
theorem not_agree_disagree : ¬ E.folding.EqualFold DISAGREE agree := fun equal =>
  absurd (Folding.length_eq_of_equalFold equal) (by decide)

/-- The network delivers a reply, whose account the function checks. -/
theorem Counted.countReply
    (single : SingleAccounts E gid S) (value_sender : ∀ t, (value t).1 = senderOf E t)
    {ac : AcceptReqAddrData} (sigs : ac.Sigs = S.fields) {Accept TimeStamp : Text}
    (answer : Agrees E K key raw ∨ Accept = DISAGREE) {w' : Worker}
    (returned : Smpc.countReply E value (Smpc.need K) gid ac raw (senderOf E raw) Accept TimeStamp w =
      .ok w') : Counted E K command key gid S w' := by
  unfold Smpc.countReply at returned
  split at returned
  · cases returned
    exact inv
  rename_i entered
  rw [not_or, not_not] at entered
  obtain ⟨node, node_mem, bound⟩ := binds_of_isValidAccept sigs entered.2
  have complete : sigsComplete ac := by
    have valid := entered.2
    simp only [IsValidAccept, decide_eq_true_eq] at valid
    exact valid.2.2.1
  split at returned
  · exact absurd returned (by simp)
  · rename_i l filtered
    cases returned
    exact inv.drop (checkDulpRawReply_spec filtered).1
  rename_i l filtered
  obtain ⟨sub, apart⟩ := checkDulpRawReply_spec filtered
  simp only [value_sender] at apart
  obtain ⟨enode, enode_eq, returned⟩ := bind_eq_ok.mp returned
  have enode_ne : enode ≠ [] := by
    obtain ⟨p, p_mem, -, eq⟩ := getENodeByFrom_of_binds sigs bound complete
    rw [← Except.ok.inj (eq.symm.trans enode_eq)]
    exact ne_nil_of_length_eq_add_one (S.enode_length p p_mem)
  rw [if_neg enode_ne] at returned
  dsimp only at returned
  generalize reply_eq : ApprovReply.mk enode (senderOf E raw)
    (if Accept = [] then DISAGREE else Accept) TimeStamp = reply at returned
  have reply_sender : reply.sender = senderOf E raw := by rw [← reply_eq]
  have pushed := (inv.drop sub).push (putReply E reply w.ApprovReplys) (apart trivial)
    ⟨node, node_mem, bound⟩ (fun r mem other => mem_putReply mem (by rwa [reply_sender]))
    (.inr (answer.imp_right fun disagrees => ⟨reply, self_mem_putReply _ _,
      by rw [reply_sender]; exact E.folding.equalFold_refl _,
      by
        rw [← reply_eq, disagrees]
        exact not_agree_disagree⟩))
  split at returned
  · rename_i enough
    cases returned
    exact pushed.approve.sendToken single (by rwa [need_approve])
  · cases returned
    exact pushed

end

/-! ## Runs -/

section

variable (E : Env) (K : Kind) (command key gid : Text) (S : GroupSigs)

/-- The records of the command name its group, those of the key generation its accounts. -/
def Recorded (db : Db) : Kind → Prop
  | .sign => ∀ k, E.folding.EqualFold key k →
      (∀ ac, (db.signInfo k).bind (·.acceptSign?) = some ac → ac.GroupID = gid) ∧
      ∀ ac, acceptReqData db k = some ac → ac.Sigs = S.fields
  | .keygen => ∀ k, E.folding.EqualFold key k →
      ∀ ac, (db.reqAddrInfo k).bind (·.acceptReqAddr?) = some ac →
        ac.GroupID = gid ∧ ac.Sigs = S.fields

def Event.Recorded : Event → Prop
  | .approve seen now _ => Smpc.Recorded E key gid S seen K ∧ Smpc.Recorded E key gid S now K
  | _ => True

/-- The request queue delivers only the command and agreeing replies of bound accounts. -/
def Event.Careful : Event → Prop
  | .disAccept db raw => ∀ k tx, CheckRaw E db raw = .ok (k, tx) → raw = command ∨
      (Agrees E K key raw ∧ ∃ node ∈ GetGroup E gid, Binds E S node tx.sender)
  | _ => True

variable {E K command key gid S} {raw k : Text} {db : Db}

theorem senderOf_decoded {tx : Tx} (decoded : E.decode raw = some tx) :
    senderOf E raw = tx.sender := by
  rw [senderOf, decoded]
  rfl

theorem Counted.disAcceptSign (inv : Counted E .sign command key gid S w)
    (single : SingleAccounts E gid S)
    (delivered : (∃ node ∈ GetGroup E gid, Binds E S node (senderOf E raw)) ∧
      (raw = command ∨ Agrees E .sign key raw)) :
    Counted E .sign command key gid S (Smpc.disAcceptSign E db raw k w) := by
  unfold Smpc.disAcceptSign
  split
  · exact inv
  · exact inv.collectReply single rawValue_sender delivered.1 delivered.2 _ _

theorem Counted.disAcceptReqAddr (inv : Counted E .keygen command key gid S w)
    (single : SingleAccounts E gid S)
    (delivered : (∃ node ∈ GetGroup E gid, Binds E S node (senderOf E raw)) ∧
      (raw = command ∨ Agrees E .keygen key raw)) :
    Counted E .keygen command key gid S (Smpc.disAcceptReqAddr E db raw k w) := by
  unfold Smpc.disAcceptReqAddr
  split
  · exact inv
  · exact inv.collectReply single rawValue_sender delivered.1 delivered.2 _ _

theorem Counted.disAccept (inv : Counted E K command key gid S w) (single : SingleAccounts E gid S)
    (issuer : ∃ node ∈ GetGroup E gid, Binds E S node (senderOf E command))
    (careful : Event.Careful E K command key gid S (.disAccept db raw)) :
    Counted E K command key gid S (DisAcceptMsg E K db raw w) := by
  have delivered : ∀ {k tx}, CheckRaw E db raw = .ok (k, tx) →
      (∃ node ∈ GetGroup E gid, Binds E S node (senderOf E raw)) ∧
        (raw = command ∨ Agrees E K key raw) := by
    intro k tx checked
    rcases careful k tx checked with rfl | ⟨agrees, bound⟩
    · exact ⟨issuer, .inl rfl⟩
    · rw [senderOf_decoded (checkRaw_eq_ok.mp checked).1]
      exact ⟨bound, .inr agrees⟩
  unfold DisAcceptMsg
  split
  · exact inv.disAcceptSign single (delivered ‹_›)
  · exact inv.disAcceptSign single (delivered ‹_›)
  · exact inv.disAcceptReqAddr single (delivered ‹_›)
  · exact inv.disAcceptReqAddr single (delivered ‹_›)
  · exact inv

theorem accept_of_checkAcceptSign {sender : Text} {sig : TxDataAcceptSign}
    (checked : checkAcceptSign E db sender sig = .ok k) :
    sig.Accept = AGREE ∨ sig.Accept = DISAGREE := by
  simp only [checkAcceptSign, eq_ok, decide_eq_true_eq] at checked
  obtain ⟨-, -, -, -, -, accept, -⟩ := checked
  exact accept

theorem accept_of_checkAcceptReqAddr {sender : Text} {req : TxDataAcceptReqAddr}
    (checked : checkAcceptReqAddr E db sender req = .ok k) :
    req.Accept = AGREE ∨ req.Accept = DISAGREE := by
  simp only [checkAcceptReqAddr, eq_ok, decide_eq_true_eq] at checked
  obtain ⟨-, accept, -⟩ := checked
  exact accept

theorem Counted.network (inv : Counted E K command key gid S w) (single : SingleAccounts E gid S)
    {seen now : Db} (recorded : Event.Recorded E K key gid S (.approve seen now raw)) {w' : Worker}
    (returned : Smpc.approve E K seen now raw w = .ok w') :
    Counted E K command key gid S w' := by
  obtain ⟨recorded_seen, recorded_now⟩ := recorded
  unfold Smpc.approve at returned
  split at returned
  · rename_i sender _ sig checked
    obtain ⟨decoded, checked⟩ := checkRaw_eq_ok.mp checked
    have sender_eq : senderOf E raw = sender := senderOf_decoded decoded
    split at returned
    · rename_i ac ac_eq
      split at returned
      · rename_i found
        rw [inv.sid] at found
        unfold ExecApproveSigning at returned
        split at returned
        · cases returned
          exact inv
        split at returned
        · cases returned
          exact inv
        · rename_i acceptreqdata data_eq
          have sigs := (recorded_now sig.Key found).2 acceptreqdata data_eq
          rw [(recorded_seen sig.Key found).1 ac ac_eq, ← sender_eq] at returned
          refine inv.countReply single rawValue_sender sigs ?_ returned
          refine (accept_of_checkAcceptSign checked).imp_left fun agrees => ?_
          exact ⟨_, _, decoded, rfl, found, agrees⟩
      · cases returned
        exact inv
    · cases returned
      exact inv
  · rename_i sender _ req checked
    obtain ⟨decoded, checked⟩ := checkRaw_eq_ok.mp checked
    have sender_eq : senderOf E raw = sender := senderOf_decoded decoded
    split at returned
    · rename_i ac ac_eq
      split at returned
      · rename_i found
        rw [inv.sid] at found
        unfold ExecApproveKeyGen at returned
        split at returned
        · cases returned
          exact inv
        · obtain ⟨gid_eq, sigs⟩ := recorded_seen req.Key found ac ac_eq
          rw [gid_eq, ← sender_eq] at returned
          refine inv.countReply single rawValue_sender sigs ?_ returned
          refine (accept_of_checkAcceptReqAddr checked).imp_left fun agrees => ?_
          exact ⟨_, _, decoded, rfl, found, agrees⟩
      · cases returned
        exact inv
    · cases returned
      exact inv
  · cases returned
    exact inv

theorem Counted.step {j : Job} (inv : Counted E K command key gid S j.w)
    (single : SingleAccounts E gid S)
    (issuer : ∃ node ∈ GetGroup E gid, Binds E S node (senderOf E command)) {event : Event}
    (recorded : event.Recorded E K key gid S) (careful : event.Careful E K command key gid S) :
    Counted E K command key gid S (j.step E K event).w := by
  cases event with
  | disAccept db raw =>
    simp only [Job.step]
    split
    · exact inv
    · exact inv.disAccept single issuer careful
  | approve seen now raw =>
    simp only [Job.step]
    split
    · exact inv
    · split
      · exact inv.network single recorded ‹_›
      · exact inv
  | token =>
    simp only [Job.step]
    split
    · refine { inv with need := ?_, covered := fun token => absurd token (by simp) }
      cases K <;> exact inv.need
    · exact inv
  | timeout =>
    simp only [Job.step]
    split <;> exact inv

theorem counted_run {j : Job} (inv : Counted E K command key gid S j.w)
    (single : SingleAccounts E gid S)
    (issuer : ∃ node ∈ GetGroup E gid, Binds E S node (senderOf E command)) {events : List Event}
    (recorded : ∀ event ∈ events, event.Recorded E K key gid S)
    (careful : ∀ event ∈ events, event.Careful E K command key gid S) :
    Counted E K command key gid S (j.run E K events).w := by
  induction events generalizing j with
  | nil => exact inv
  | cons event events ih =>
    have stepped := inv.step single issuer (recorded event (by simp)) (careful event (by simp))
    exact ih stepped (fun e mem => recorded e (mem_cons_of_mem _ mem))
      (fun e mem => careful e (mem_cons_of_mem _ mem))

theorem counted_empty (sid : w.sid = key) (need_eq : need K w = (GetGroup E gid).length)
    (list_nil : w.msgacceptres = []) (log_nil : w.counted = []) (no_token : w.acceptChan = false) :
    Counted E K command key gid S w where
  sid := sid
  need := need_eq
  distinct := by rw [list_nil]; exact nodup_nil
  logged := by simp [list_nil]
  seated := by simp [list_nil]
  answered {a s} found := by simp [latestOf, log_nil, latest] at found
  covered token := by simp [no_token] at token

/-- The worker starts with an empty count and waits for as many approvals as the group has nodes. -/
theorem counted_start {issuer : Text} (started : Started E K command key gid issuer w) :
    Counted E K command key gid S w ∧ senderOf E command = issuer := by
  cases started with
  | sign checked =>
    exact ⟨counted_empty rfl rfl rfl rfl rfl, senderOf_decoded (checkRaw_eq_ok.mp checked).1⟩
  | keygen checked command_eq mode ready =>
    rename_i db tx req
    obtain ⟨decoded, checked⟩ := checkRaw_eq_ok.mp checked
    refine ⟨?_, senderOf_decoded decoded⟩
    simp only [doReqWorker, eq_ok] at ready
    obtain ⟨⟨th, nodecnt⟩, nums, rfl⟩ := ready
    -- the number of nodes in the threshold text was compared with the group
    have same : ((GetGroup E req.GroupID).length : ℤ) = nodecnt := by
      simp only [CheckTxData, command_eq, checkReqAddr, eq_ok, decide_eq_true_eq] at checked
      obtain ⟨-, -, -, -, -, -, -, -, -, -, -, -, ⟨ts, count⟩, checked_nums, -, -, -, length_eq, -⟩ :=
        checked
      obtain ⟨first, second, split_eq, -, nodecnt_eq⟩ := thresholdNums_eq_ok.mp nums
      obtain ⟨first', second', split_eq', -, count_eq⟩ := thresholdNums_eq_ok.mp checked_nums
      cases split_eq.symm.trans split_eq'
      rw [length_eq, Option.some.inj (count_eq.symm.trans nodecnt_eq)]
    exact counted_empty rfl same.symm rfl rfl rfl

end

/-- **The end of the approval wait.**  For a sign command or a key generation request of mode 0
whose sender is bound to a node of the group, where no node is bound to two accounts: in every run
in which the request queue delivers to the worker only the command and agreeing replies of bound
accounts, the wait ends with approval only in a state in which every node of the group has an
account that issued the command or agrees in its latest counted reply. -/
theorem wait_ends_approved {E : Env} {K : Kind} {command key gid issuer : Text} {w : Worker}
    {S : GroupSigs} (started : Started E K command key gid issuer w)
    (single : SingleAccounts E gid S)
    (bound : ∃ node ∈ GetGroup E gid, Binds E S node issuer) {events : List Event}
    (recorded : ∀ event ∈ events, event.Recorded E K key gid S)
    (careful : ∀ event ∈ events, event.Careful E K command key gid S) {j : Job}
    (reached : Job.run E K ⟨w, .waiting⟩ events = j) (waits : j.phase = .waiting)
    (ends : (j.step E K .token).phase = .past) :
    ∀ node ∈ GetGroup E gid, (∃ a, Binds E S node a) ∧
      ∀ a, Binds E S node a → E.folding.EqualFold a issuer ∨
        ∃ s, latestOf E a j.w = some s ∧ Agrees E K key s := by
  obtain ⟨start, issuer_eq⟩ := counted_start started
  rw [← issuer_eq] at bound
  have inv := counted_run (j := ⟨w, .waiting⟩) start single bound recorded careful
  rw [reached] at inv
  simp only [Job.step, waits, true_and] at ends
  split at ends
  · rename_i token
    have agreed : allAgree E j.w := by
      by_contra refused
      simp [refused] at ends
    simp only [allAgree, all_eq_true] at agreed
    intro node mem
    obtain ⟨s, s_mem, s_bound⟩ := inv.covered token node mem
    refine ⟨⟨_, s_bound⟩, fun a a_bound => ?_⟩
    have same := single node mem _ _ s_bound a_bound
    obtain ⟨t, latest_eq⟩ : ∃ t, latestOf E a j.w = some t := latest_of_mem s_mem same
    rcases inv.answered latest_eq with rfl | agrees | ⟨r, r_mem, -, disagrees⟩
    · left
      rw [← issuer_eq]
      exact Folding.equalFold_symm (mem_of_latest latest_eq).2
    · exact .inr ⟨t, latest_eq, agrees⟩
    · exact absurd (agreed r r_mem) disagrees
  · exact absurd (waits.symm.trans ends) (by decide)

/-! ## A group of two nodes

The accounts of the nodes are `1…1` and `2…2`, `3…3` is another account.  The texts `1`, `2` and `3`
are sign commands of these accounts, `a` is the agreement of the first, `b` that of the second and
`n` its disagreement. -/

section

namespace TwoNodes

def node (c : Char) : Enode := List.replicate 128 c

def account (c : Char) : Text := List.replicate 42 c

def gid : Text := node '0'

def signData : TxDataSign where
  PubKey := ['0', '4']
  InputCode := []
  MsgHash := some [['h']]
  MsgContext := []
  Keytype := EC256K1
  GroupID := gid
  ThresHold := ['2', '/', '2']
  Mode := mode0
  AcceptTimeOut := []
  TimeStamp := ['1']

def accept (Accept : Text) : TxDataAcceptSign where
  Key := ['k']
  MsgHash := some [['h']]
  MsgContext := []
  Accept := Accept
  TimeStamp := ['2']

def env : Env where
  folding := lowerFolding
  ToLower := List.map Char.toLower
  Keccak256Hash _ := ['k']
  digest _ id := id.length
  groups _ := [node 'a', node 'b']
  enode_length := by
    intro _ e mem
    fin_cases mem <;> rfl
  decode
    | ['a'] => some ⟨account '1', 0, .acceptSign (accept AGREE)⟩
    | ['b'] => some ⟨account '2', 0, .acceptSign (accept AGREE)⟩
    | ['n'] => some ⟨account '2', 0, .acceptSign (accept DISAGREE)⟩
    | [c] => some ⟨account c, 0, .sign signData⟩
    | _ => none
  curEnode := node 'a'
  MaxAcceptTime := 406800

def sigs : GroupSigs where
  pairs := [(node 'a', account '1'), (node 'b', account '2')]
  enode_length := by
    intro p mem
    fin_cases mem <;> rfl
  account_length := by
    intro p mem
    fin_cases mem <;> rfl
  small := by decide

def record : AcceptReqAddrData where
  Account := account '1'
  GroupID := gid
  LimitNum := ['2', '/', '2']
  Mode := mode0
  Sigs := sigs.fields

def pending : AcceptSignData where
  Account := account '1'
  GroupID := gid
  PubKey := ['0', '4']
  Mode := mode0
  Deal := ['f', 'a', 'l', 's', 'e']
  Status := ['P', 'e', 'n', 'd', 'i', 'n', 'g']

def db : Db where
  pubKey k :=
    if k = ['r'] then some (.acceptReqAddr record)
    else if k = [Char.ofNat 4] then some (.pubKey ⟨['r'], [Char.ofNat 4], mode0⟩)
    else none
  signInfo _ := some (.acceptSign pending)
  reqAddrInfo _ := none

theorem started (c : Char) (mem : c ∈ ['1', '3']) :
    Started env .sign [c] ['k'] gid (account c) (doSignWorker env ['k'] signData) := by
  have checked : CheckRaw env db [c] = .ok (['k'], ⟨account c, 0, .sign signData⟩) := by
    fin_cases mem <;> decide +kernel
  exact .sign checked rfl rfl

theorem apart : ¬ env.folding.EqualFold (node 'a') (node 'b') := by decide +kernel

end TwoNodes

open TwoNodes

/-- The owner of the first account asks, the owner of the second agrees. -/
theorem wait_ends_approved_two_nodes :
    ∃ s, latestOf env (account '2') (Job.run env .sign ⟨doSignWorker env ['k'] signData, .waiting⟩
      [.disAccept db ['1'], .approve db db ['b']]).w = some s ∧ Agrees env .sign ['k'] s := by
  have bound : ∀ c d, (node c, account d) ∈ sigs.pairs → Binds env sigs (node c) (account d) :=
    fun c d mem => ⟨_, mem, env.folding.equalFold_refl _, env.folding.equalFold_refl _⟩
  have single : SingleAccounts env gid sigs := by
    rintro e - x y ⟨p, p_mem, p_node, p_account⟩ ⟨q, q_mem, q_node, q_account⟩
    have nodes := Folding.equalFold_trans p_node (Folding.equalFold_symm q_node)
    have same : p.2 = q.2 := by
      fin_cases p_mem <;> fin_cases q_mem
      · rfl
      · exact absurd nodes apart
      · exact absurd (Folding.equalFold_symm nodes) apart
      · rfl
    rw [← same] at q_account
    exact Folding.equalFold_trans (Folding.equalFold_symm p_account) q_account
  have recorded : Recorded env ['k'] gid sigs db .sign := by
    intro k _
    refine ⟨fun ac found => ?_, fun ac found => ?_⟩
    · cases found
      rfl
    · cases (show some record = some ac from found)
      rfl
  have recorded_all : ∀ event ∈ [Event.disAccept db ['1'], .approve db db ['b']],
      event.Recorded env .sign ['k'] gid sigs := by
    intro event mem
    fin_cases mem
    · trivial
    · exact ⟨recorded, recorded⟩
  have approved := wait_ends_approved (started '1' (by decide)) single
    ⟨node 'a', by decide +kernel, bound 'a' '1' (by decide +kernel)⟩ recorded_all
    (by
      intro event mem
      fin_cases mem
      · exact fun _ _ _ => .inl rfl
      · trivial)
    rfl (by decide +kernel) (by decide +kernel) (node 'b') (by decide +kernel)
  refine (approved.2 (account '2') (bound 'b' '2' (by decide +kernel))).resolve_left ?_
  decide +kernel

/-- The command of another account ends the wait when one of the two accounts agrees, and so does
a disagreement that comes through the request queue. -/
theorem outsider_counts_as_approval :
    Started env .sign ['3'] ['k'] gid (account '3') (doSignWorker env ['k'] signData) ∧
    Binds env sigs (node 'b') (account '2') ∧ node 'b' ∈ GetGroup env gid ∧
    ¬ env.folding.EqualFold (account '2') (account '3') ∧
    (let j := Job.run env .sign ⟨doSignWorker env ['k'] signData, .waiting⟩
      [.disAccept db ['3'], .approve db db ['a']]
    (j.step env .sign .token).phase = .past ∧ latestOf env (account '2') j.w = none) ∧
    (let j := Job.run env .sign ⟨doSignWorker env ['k'] signData, .waiting⟩
      [.disAccept db ['1'], .disAccept db ['n']]
    (j.step env .sign .token).phase = .past ∧ latestOf env (account '2') j.w = some ['n'] ∧
      env.decode ['n'] = some ⟨account '2', 0, .acceptSign (accept DISAGREE)⟩) := by
  refine ⟨started '3' (by decide), ⟨(node 'b', account '2'), by decide +kernel,
    env.folding.equalFold_refl _, env.folding.equalFold_refl _⟩, by decide +kernel,
    by decide +kernel, ⟨by decide +kernel, by decide +kernel⟩, by decide +kernel, by decide +kernel,
    rfl⟩

end

end ThresholdDsa.Smpc
