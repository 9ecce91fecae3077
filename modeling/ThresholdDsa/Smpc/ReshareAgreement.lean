/-
# What the end of the wait of a reshare means

`GetReplyFromGroup` takes any transaction of a node for its agreement.  A DISAGREE
stops the command all the same if its handler has moved the record out of the
pending database by the time the wait ends, because an approval of a command
without a pending record does not pass the checks.

`wait_ends_as_agreed`: the end of the wait respects the replies exactly when the
handler of every DISAGREE has stored the failure by then.  `disagreement_starts_run`:
a DISAGREE completes the list, the token ends the wait before the handler has gone
on, and the run starts.
-/
import ThresholdDsa.Smpc.ApprovalWait
import ThresholdDsa.Smpc.ReshareCommand

namespace ThresholdDsa.Smpc.ReshareApproval

set_option linter.unusedSectionVars false

open Outcome GoText AcceptStatus DbThreads List

/-! ## The record -/

variable {db : Places} {ac : AcceptReShareData} {E : ReshareEnv} {raw : Text} {c : Command}
  {j : Job}

section

variable {u : AcceptStatus.Call}

/-- A record that has left the pending database is not touched. -/
theorem update_of_moved (at_finished : db .finished = some ac) (status : ac.Status ≠ Pending) :
    update db u = db := by
  have processed : (db .finished).filter (fun ac => ac.Status ≠ Pending) = some ac := by
    rw [at_finished]
    simp [status]
  simp only [update, AcceptReShare, accept, Prog.exec, processed]

theorem save_pending (db : Places) (ac : AcceptReShareData) : (save db ac) .pending = some ac :=
  Function.update_self _ _ _

theorem update_of_absent (absent : db .pending = none) : update db u = db := by
  simp only [update, AcceptReShare, accept, AcceptStatus.lookup, Prog.exec, absent, Option.filter_none]
  split
  · rfl
  · rfl

theorem update_of_pending (at_pending : db .pending = some ac)
    (unprocessed : (db .finished).filter (fun ac => ac.Status ≠ Pending) = none) :
    update db u =
      if (ac.merge u).Status ≠ Pending then
        Function.update (Function.update db .pending none) .finished (some (ac.merge u))
      else Function.update db .pending (some (ac.merge u)) := by
  simp only [update, AcceptReShare, accept, AcceptStatus.lookup, settle, codec, Prog.exec, unprocessed,
    at_pending, Option.filter_some, if_true, not_true_eq_false, if_false]
  split
  · rfl
  · rfl

/-- All that a call can do to the record. -/
theorem update_cases (db : Places) (u : AcceptStatus.Call) :
    update db u = db ∨ ∃ ac, db .pending = some ac ∧
      (((ac.merge u).Status = Pending ∧ (update db u) .pending = some (ac.merge u)) ∨
        ((update db u) .pending = none ∧ (update db u) .finished = some (ac.merge u))) := by
  cases at_pending : db .pending with
  | none => exact .inl (update_of_absent at_pending)
  | some ac =>
    cases processed : (db .finished).filter (fun ac => ac.Status ≠ Pending) with
    | some ac' =>
      obtain ⟨at_finished, status⟩ := Option.filter_eq_some_iff.mp processed
      exact .inl (update_of_moved at_finished (of_decide_eq_true status))
    | none =>
      refine .inr ⟨ac, rfl, ?_⟩
      rw [update_of_pending at_pending processed]
      split
      · right
        rw [Function.update_of_ne (by decide), Function.update_self, Function.update_self]
        exact ⟨rfl, rfl⟩
      · rename_i same
        rw [Function.update_self]
        exact .inl ⟨not_not.mp same, rfl⟩

end

/-! ## One entry for each account and type -/

theorem sameVoter_symm {v v' : RawValue} (same : sameVoter E v v' = true) :
    sameVoter E v' v = true := by
  simp only [sameVoter, decide_eq_true_eq] at same ⊢
  exact ⟨Folding.equalFold_symm same.1, Folding.equalFold_symm same.2⟩

theorem sameVoter_trans {v v' v'' : RawValue} (first : sameVoter E v v' = true)
    (second : sameVoter E v' v'' = true) : sameVoter E v v'' = true := by
  simp only [sameVoter, decide_eq_true_eq] at first second ⊢
  exact ⟨Folding.equalFold_trans first.1 second.1, Folding.equalFold_trans first.2 second.2⟩

/-- The transaction `raw'` has an earlier time stamp than `raw`. -/
def Older (E : ReshareEnv) (raw' raw : Text) : Prop :=
  ∃ t' t, setString10 (GetReshareRawValue E raw').2.2 = some t' ∧
    setString10 (GetReshareRawValue E raw).2.2 = some t ∧ t' < t

theorem Older.trans {r s t : Text} (first : Older E r s) (second : Older E s t) : Older E r t := by
  obtain ⟨a, b, a_eq, b_eq, a_lt⟩ := first
  obtain ⟨b', c, b'_eq, c_eq, b_lt⟩ := second
  cases b_eq.symm.trans b'_eq
  exact ⟨a, c, a_eq, c_eq, a_lt.trans b_lt⟩

theorem older_of_later {s : Text}
    (newer : later (GetReshareRawValue E raw).2.2 (GetReshareRawValue E s).2.2 = .ok true) :
    Older E s raw := by
  unfold later at newer
  split at newer
  · rename_i t1 t2 raw_eq s_eq
    exact ⟨t2, t1, s_eq, raw_eq, by simpa using pure_eq_ok.mp newer⟩
  · cases newer
  · cases newer

/-- The filter lets a transaction of a new voter pass. -/
theorem dulpLoop_new {l : List Text} (unequal : ∀ s ∈ l, ¬ E.folding.EqualFold raw s = true)
    (other : ∀ s ∈ l, ¬ sameVoter E (GetReshareRawValue E raw) (GetReshareRawValue E s) = true) :
    dulpLoop E raw l = (.ok true, l) := by
  induction l with
  | nil => rfl
  | cons s rest ih =>
    have ih := ih (fun s mem => unequal s (mem_cons_of_mem _ mem))
      (fun s mem => other s (mem_cons_of_mem _ mem))
    rw [dulpLoop, ih, if_neg (unequal s mem_cons_self), if_neg (other s mem_cons_self)]
    split <;> rfl

/-- All that the filter can do: let the transaction replace older ones of its voter, or leave the
list alone. -/
theorem dulpLoop_cases {l : List Text} (nonempty : ∀ s ∈ l, s ≠ [])
    (unequal : ∀ s ∈ l, ¬ E.folding.EqualFold raw s = true)
    (distinct : l.Pairwise fun a b =>
      ¬ sameVoter E (GetReshareRawValue E a) (GetReshareRawValue E b) = true) :
    (dulpLoop E raw l = (.ok true, l.filter fun s =>
        !sameVoter E (GetReshareRawValue E raw) (GetReshareRawValue E s)) ∧
      ∀ s ∈ l, sameVoter E (GetReshareRawValue E raw) (GetReshareRawValue E s) = true →
        Older E s raw) ∨
    ((dulpLoop E raw l).1 ≠ .ok true ∧ (dulpLoop E raw l).2 = l) := by
  induction l with
  | nil => exact .inl ⟨rfl, fun s mem => absurd mem not_mem_nil⟩
  | cons s rest ih =>
    obtain ⟨apart, distinct⟩ := pairwise_cons.mp distinct
    have unequal_rest : ∀ s ∈ rest, ¬ E.folding.EqualFold raw s = true :=
      fun s mem => unequal s (mem_cons_of_mem _ mem)
    rw [dulpLoop, if_neg (nonempty s mem_cons_self), if_neg (unequal s mem_cons_self)]
    by_cases same : sameVoter E (GetReshareRawValue E raw) (GetReshareRawValue E s) = true
    · -- the voter has no other entry
      have others : ∀ t ∈ rest,
          ¬ sameVoter E (GetReshareRawValue E raw) (GetReshareRawValue E t) = true :=
        fun t mem same' => apart t mem (sameVoter_trans (sameVoter_symm same) same')
      rw [if_pos same]
      split
      · rename_i newer
        refine .inl ⟨?_, ?_⟩
        · rw [dulpLoop_new unequal_rest others, filter_cons_of_neg (by simpa using same),
            filter_eq_self.mpr fun t mem => by simpa using others t mem]
        · intro t mem same'
          rcases mem_cons.mp mem with rfl | mem
          · exact older_of_later newer
          · exact absurd same' (others t mem)
      · rename_i answer refused
        exact .inr ⟨refused, rfl⟩
    · rw [if_neg same]
      rcases ih (fun s mem => nonempty s (mem_cons_of_mem _ mem)) unequal_rest distinct with
        ⟨passed, older⟩ | ⟨refused, kept⟩
      · refine .inl ⟨?_, ?_⟩
        · rw [passed, filter_cons_of_pos (by simpa using same)]
        · intro t mem same'
          rcases mem_cons.mp mem with rfl | mem
          · exact absurd same' same
          · exact older t mem same'
      · exact .inr ⟨refused, by rw [kept]⟩

/-! ## Replies of the group -/

section

variable {info : Text → Option AcceptReShareData} {l : List Text} {key : Text} {tx : ReshareTx}

theorem checkRaw_eq_ok :
    CheckRaw E info raw = .ok (key, tx) ↔
      E.decodeReshare raw = some tx ∧ CheckTxData E info tx = .ok key := by
  simp only [CheckRaw, eq_ok, Prod.mk.injEq]
  constructor
  · rintro ⟨tx', decoded, key', checked, rfl, rfl⟩
    exact ⟨decoded, checked⟩
  · rintro ⟨decoded, checked⟩
    exact ⟨tx, decoded, key, checked, rfl, rfl⟩

theorem sender_of_putRawReply {reply v : RawReply} {ret ret' : List RawReply}
    (put : putRawReply reply ret = .ok ret') (mem : v ∈ ret') :
    v.sender = reply.sender ∨ ∃ v' ∈ ret, v'.sender = v.sender := by
  induction ret generalizing ret' with
  | nil =>
    rw [putRawReply, pure_eq_ok] at put
    rw [← put, mem_singleton] at mem
    exact .inl (by rw [mem])
  | cons top rest ih =>
    rw [putRawReply] at put
    split at put
    · rename_i same
      simp only [eq_ok] at put
      obtain ⟨newer, -, rfl⟩ := put
      rcases mem_cons.mp mem with rfl | mem
      · split
        · exact .inl rfl
        · exact .inr ⟨top, mem_cons_self, rfl⟩
      · exact .inr ⟨v, mem_cons_of_mem _ mem, rfl⟩
    · simp only [eq_ok] at put
      obtain ⟨rest', put', rfl⟩ := put
      rcases mem_cons.mp mem with rfl | mem
      · exact .inr ⟨v, mem_cons_self, rfl⟩
      · rcases ih put' mem with new | ⟨v', mem', same⟩
        · exact .inl new
        · exact .inr ⟨v', mem_cons_of_mem _ mem', same⟩

/-- Every reply comes from a transaction of the list. -/
theorem raw_of_reply {ret : List RawReply} (got : GetRawReply E info l = .ok ret) {v : RawReply}
    (mem : v ∈ ret) :
    ∃ raw ∈ l, ∃ key tx, CheckRaw E info raw = .ok (key, tx) ∧ tx.sender = v.sender := by
  unfold GetRawReply at got
  generalize start : ([] : List RawReply) = acc at got
  have general : (∃ v' ∈ acc, v'.sender = v.sender) ∨
      ∃ raw ∈ l, ∃ key tx, CheckRaw E info raw = .ok (key, tx) ∧ tx.sender = v.sender := by
    clear start
    induction l generalizing acc with
    | nil =>
      rw [foldlM_nil, pure_eq_ok] at got
      rw [← got] at mem
      exact .inl ⟨v, mem, rfl⟩
    | cons raw rest ih =>
      rw [foldlM_cons, bind_eq_ok] at got
      obtain ⟨acc', first, run⟩ := got
      rcases ih acc' run with ⟨v', mem', same⟩ | ⟨raw', mem', found⟩
      · split at first
        · rename_i key tx checked
          rcases sender_of_putRawReply first mem' with new | ⟨v'', mem'', same'⟩
          · refine .inr ⟨raw, mem_cons_self, key, tx, checked, ?_⟩
            rw [← same, new]
            unfold rawReply
            split <;> rfl
          · exact .inl ⟨v'', mem'', same'.trans same⟩
        · rw [pure_eq_ok] at first
          rw [← first] at mem'
          exact .inl ⟨v', mem', same⟩
        · cases first
      · exact .inr ⟨raw', mem_cons_of_mem _ mem', found⟩
  rcases general with ⟨v', mem', -⟩ | found
  · rw [← start] at mem'
    exact absurd mem' not_mem_nil
  · exact found

/-- A complete list has a transaction of every node. -/
theorem present_of_checkReply (found : info key = some ac)
    (complete : CheckReply E info l key = .ok true) {node : Enode}
    (mem : node ∈ nodesOf E ac.fixed.GroupID) :
    ∃ fr, accountOf E node = some fr ∧ ∃ raw ∈ l, ∃ tx, E.decodeReshare raw = some tx ∧
      E.folding.EqualFold tx.sender fr = true := by
  simp only [CheckReply, found, eq_ok] at complete
  obtain ⟨ret, got, all⟩ := complete
  have one := all_eq_true.mp all node mem
  obtain ⟨fr, account_eq, replied⟩ := (Option.any_eq_true _ _).mp one
  simp only [Smpc.replied, any_eq_true] at replied
  obtain ⟨v, v_mem, same⟩ := replied
  obtain ⟨raw, raw_mem, key', tx, checked, sender_eq⟩ := raw_of_reply got v_mem
  refine ⟨fr, account_eq, raw, raw_mem, tx, (checkRaw_eq_ok.mp checked).1, ?_⟩
  rw [sender_eq]
  exact same

theorem replyOf_eq_some {account : Text} (found : replyOf E info l account = some tx) :
    ∃ raw ∈ l, ∃ key, CheckRaw E info raw = .ok (key, tx) ∧
      E.folding.EqualFold tx.sender account = true := by
  obtain ⟨raw, mem, hit⟩ := exists_of_findSome?_eq_some found
  refine ⟨raw, mem, ?_⟩
  split at hit
  · rename_i key tx' checked
    split at hit
    · rename_i same
      cases hit
      exact ⟨key, checked, same⟩
    · cases hit
  · cases hit

theorem replyOf_isSome {account : Text} (mem : raw ∈ l)
    (checked : CheckRaw E info raw = .ok (key, tx))
    (same : E.folding.EqualFold tx.sender account = true) :
    (replyOf E info l account).isSome := by
  rw [replyOf, findSome?_isSome_iff]
  exact ⟨raw, mem, by simp [checked, same]⟩

/-- The wait goes on exactly when every node has a transaction that passes the checks. -/
theorem allAgree_iff {gid initiator : Text} :
    allAgree E (GetReplyFromGroup E info l gid initiator) = true ↔
      ∀ node ∈ nodesOf E gid, ((accountOf E node).bind (replyOf E info l)).isSome := by
  have pending : ¬ E.folding.EqualFold Pending agree = true := by
    intro same
    have := Folding.length_eq_of_equalFold same
    exact absurd this (by decide)
  simp only [allAgree, GetReplyFromGroup, all_map, all_eq_true, Function.comp_apply]
  refine forall₂_congr fun node _ => ?_
  cases (accountOf E node).bind (replyOf E info l) with
  | some tx => simp [E.folding.equalFold_refl]
  | none => simpa using pending

end

/-! ## Collecting -/

/-- The list with `raw` in place of older transactions of its voter. -/
def placed (E : ReshareEnv) (raw : Text) (l : List Text) : List Text :=
  (l.filter fun s => !sameVoter E (GetReshareRawValue E raw) (GetReshareRawValue E s)) ++ [raw]

/-- A transaction has been put into the list. -/
structure Pushed (E : ReshareEnv) (c : Command) (db : Places) (raw : Text) (j j' : Job) : Prop where
  nonempty : raw ≠ []
  checked : ∃ key tx, CheckRaw E (infoOf c db) raw = .ok (key, tx) ∧
    (j'.acceptReShareChan = true → j.acceptReShareChan = true ∨
      CheckReply E (infoOf c db) j'.msgacceptreshareres key = .ok true)
  list : j'.msgacceptreshareres = placed E raw j.msgacceptreshareres
  older : ∀ s ∈ j.msgacceptreshareres,
    sameVoter E (GetReshareRawValue E raw) (GetReshareRawValue E s) = true → Older E s raw
  counted : j'.counted = j.counted ++ [raw]

theorem collect_phase : (collect E c db raw j).1.phase = j.phase := by
  unfold collect DisAcceptMsg
  split
  · rfl
  split
  · rfl
  · split
    · simp only
      split
      · split <;> rfl
      · rfl
    · rfl

/-- All that collecting a transaction can do. -/
theorem collect_cases (nonempty : ∀ s ∈ j.msgacceptreshareres, s ≠ [])
    (distinct : j.msgacceptreshareres.Pairwise fun a b =>
      ¬ sameVoter E (GetReshareRawValue E a) (GetReshareRawValue E b) = true) :
    (collect E c db raw j).1 = j ∨ Pushed E c db raw j (collect E c db raw j).1 := by
  unfold collect DisAcceptMsg
  split
  · exact .inl (by simp)
  rename_i key tx checked
  split
  · exact .inl (by simp)
  rename_i absent
  by_cases readable : raw ≠ [] ∧ (GetReshareRawValue E raw).present = true
  · have unequal : ∀ s ∈ j.msgacceptreshareres, ¬ E.folding.EqualFold raw s = true := by
      intro s mem same
      apply absent
      simp only [Find, decide_eq_true_eq, any_eq_true]
      exact ⟨readable.1, s, mem, nonempty s mem, Folding.equalFold_symm same⟩
    rw [CheckReshareDulpRawReply, if_pos readable]
    rcases dulpLoop_cases nonempty unequal distinct with ⟨passed, older⟩ | ⟨refused, kept⟩
    · rw [passed]
      simp only
      split
      · rename_i complete
        split
        · refine .inr ⟨readable.1, ⟨key, tx, checked, ?_⟩, rfl, older, rfl⟩
          intro set
          simp only [Bool.or_false] at set
          exact .inl set
        · exact .inr ⟨readable.1, ⟨key, tx, checked, fun _ => .inr complete.2⟩, rfl, older, rfl⟩
      · refine .inr ⟨readable.1, ⟨key, tx, checked, ?_⟩, rfl, older, rfl⟩
        intro set
        simp only [Bool.or_false] at set
        exact .inl set
    · left
      generalize dulpLoop E raw j.msgacceptreshareres = answer at refused kept
      obtain ⟨answer, l⟩ := answer
      simp only at refused kept
      split
      · rename_i eq
        exact absurd (Prod.mk.inj eq).1 refused
      · rename_i eq
        rw [← (Prod.mk.inj eq).2, kept]
        simp
  · left
    rw [CheckReshareDulpRawReply, if_neg readable]
    simp [pure, Except.pure]

/-! ## The invariant -/

/-- A transaction of the list: the command itself, or an approval of it. -/
def Entry (E : ReshareEnv) (c : Command) (raw : Text) : Prop :=
  raw ≠ [] ∧ (raw = c.raw ∨ ∃ sender nonce acceptrh,
    E.decodeReshare raw = some ⟨sender, nonce, .acceptReShare acceptrh⟩ ∧ acceptrh.Key = c.key ∧
      (acceptrh.Accept = AGREE ∨ acceptrh.Accept = DISAGREE) ∧ c.rh.Mode ≠ mode1)

/-- The record of the command is in the pending database. -/
def IsPending (c : Command) (db : Places) : Prop :=
  ∃ ac, db .pending = some ac ∧ ac.Status = Pending ∧ ac.fixed.GroupID = c.rh.GroupID ∧
    ac.fixed.Mode = c.rh.Mode

/-- What holds between two events of the command. -/
structure Sound (E : ReshareEnv) (c : Command) (db : Places) (j : Job) : Prop where
  record : IsPending c db ∨ db .pending = none
  entries : ∀ raw ∈ j.msgacceptreshareres, Entry E c raw
  distinct : j.msgacceptreshareres.Pairwise fun a b =>
    ¬ sameVoter E (GetReshareRawValue E a) (GetReshareRawValue E b) = true
  taken : ∀ raw ∈ j.msgacceptreshareres, raw ∈ j.counted
  latest : ∀ raw' ∈ j.counted, ∃ raw ∈ j.msgacceptreshareres,
    sameVoter E (GetReshareRawValue E raw) (GetReshareRawValue E raw') = true ∧
      (raw = raw' ∨ Older E raw' raw)
  complete : j.acceptReShareChan = true → ∀ node ∈ nodesOf E c.rh.GroupID,
    ∃ fr, accountOf E node = some fr ∧ ∃ raw ∈ j.msgacceptreshareres, ∃ tx,
      E.decodeReshare raw = some tx ∧ E.folding.EqualFold tx.sender fr = true

/-- `DoReq` has accepted the command and saved the record. -/
structure Began (E : ReshareEnv) (c : Command) (ac : AcceptReShareData) : Prop where
  accepted : DoReq E c.raw c.sender c.workid = .ok (c, ac)

section

theorem Began.decoded (began : Began E c ac) :
    ∃ nonce, E.decodeReshare c.raw = some ⟨c.account, nonce, .reShare c.rh⟩ ∧
      checkReShare E c.account c.rh = .ok c.key ∧ ac.Status = Pending ∧
      ac.fixed.GroupID = c.rh.GroupID ∧ ac.fixed.Mode = c.rh.Mode := by
  have accepted := began.accepted
  simp only [DoReq, bind_eq_ok, Prod.exists] at accepted
  obtain ⟨-, -, key, ⟨sender, nonce, data⟩, checked, rest⟩ := accepted
  cases data with
  | acceptReShare => cases rest
  | reShare rh =>
    simp only [eq_ok, Prod.exists, Prod.mk.injEq] at rest
    obtain ⟨sigs, -, limit, nodecnt, -, command_eq, rfl⟩ := rest
    obtain ⟨decoded, checked⟩ := checkRaw_eq_ok.mp checked
    rw [← command_eq]
    exact ⟨nonce, decoded, checked, rfl, rfl, rfl⟩

variable {raw key : Text}

theorem infoOf_eq_some (found : infoOf c db key = some ac) :
    key = c.key ∧ db .pending = some ac := by
  unfold infoOf at found
  split at found
  · rename_i same
    exact ⟨same, found⟩
  · cases found

/-- An approval that passes the checks belongs to the command, whose record is pending. -/
theorem checked_approval {sender : Text} {nonce : ℕ} {acceptrh : TxDataAcceptReShare}
    (checked : CheckRaw E (infoOf c db) raw = .ok (key, ⟨sender, nonce, .acceptReShare acceptrh⟩)) :
    acceptrh.Key = c.key ∧ (acceptrh.Accept = AGREE ∨ acceptrh.Accept = DISAGREE) ∧
      ∃ ac, db .pending = some ac ∧ ac.fixed.Mode ≠ mode1 := by
  obtain ⟨-, checked⟩ := checkRaw_eq_ok.mp checked
  simp only [CheckTxData, checkAcceptReShare, eq_ok, decide_eq_true_eq] at checked
  obtain ⟨-, valid, ac, found, -, mode, -⟩ := checked
  obtain ⟨key_eq, at_pending⟩ := infoOf_eq_some found
  exact ⟨key_eq, valid, ac, at_pending, mode⟩

/-- While the record is pending, every transaction of the list passes the checks. -/
theorem Entry.checked (began : Began E c ac) (entry : Entry E c raw) (pending : IsPending c db) :
    ∃ key tx, CheckRaw E (infoOf c db) raw = .ok (key, tx) ∧ E.decodeReshare raw = some tx := by
  rcases entry.2 with rfl | ⟨sender, nonce, acceptrh, decoded, key_eq, valid, mode⟩
  · obtain ⟨nonce, decoded, checked, -⟩ := began.decoded
    exact ⟨c.key, _, checkRaw_eq_ok.mpr ⟨decoded, checked⟩, decoded⟩
  obtain ⟨ac', at_pending, -, -, mode_eq⟩ := pending
  refine ⟨acceptrh.Key, _, checkRaw_eq_ok.mpr ⟨decoded, ?_⟩, decoded⟩
  simp only [CheckTxData, checkAcceptReShare, eq_ok, decide_eq_true_eq]
  refine ⟨(), valid, ac', ?_, (), ?_, trivial⟩
  · rw [infoOf, if_pos key_eq]
    exact at_pending
  · rw [mode_eq]
    exact mode

theorem Sound.initial (began : Began E c ac) :
    Sound E c (save db ac) Job.initial where
  record := by
    obtain ⟨-, -, -, status, group, mode⟩ := began.decoded
    exact .inl ⟨ac, save_pending db ac, status, group, mode⟩
  entries raw mem := absurd mem not_mem_nil
  distinct := List.Pairwise.nil
  taken raw mem := absurd mem not_mem_nil
  latest raw mem := absurd mem not_mem_nil
  complete set := by cases set

theorem isApproval_eq_some {acceptrh : TxDataAcceptReShare} :
    isApproval E raw = some acceptrh ↔
      ∃ sender nonce, E.decodeReshare raw = some ⟨sender, nonce, .acceptReShare acceptrh⟩ := by
  unfold isApproval
  split
  · rename_i sender nonce acceptrh' decoded
    rw [decoded]
    simp
  · rename_i other
    simp only [reduceCtorEq, false_iff, not_exists]
    exact fun sender nonce decoded => other _ _ _ decoded

/-- What is collected is an entry of the command, under its key. -/
theorem Sound.entry (began : Began E c ac) (sound : Sound E c db j) {tx : ReshareTx}
    (nonempty : raw ≠ []) (kind : raw = c.raw ∨ (isApproval E raw).isSome)
    (checked : CheckRaw E (infoOf c db) raw = .ok (key, tx)) : Entry E c raw ∧ key = c.key := by
  rcases kind with rfl | approval
  · obtain ⟨nonce, decoded, command_checked, -⟩ := began.decoded
    rw [checkRaw_eq_ok.mpr ⟨decoded, command_checked⟩] at checked
    exact ⟨⟨nonempty, .inl rfl⟩, (Prod.mk.inj (Except.ok.inj checked)).1.symm⟩
  obtain ⟨acceptrh, approval⟩ := Option.isSome_iff_exists.mp approval
  obtain ⟨sender, nonce, decoded⟩ := isApproval_eq_some.mp approval
  cases (checkRaw_eq_ok.mp checked).1.symm.trans decoded
  obtain ⟨key_eq, valid, ac', at_pending, mode⟩ := checked_approval checked
  have same_key : key = acceptrh.Key := by
    have checked' := (checkRaw_eq_ok.mp checked).2
    simp only [CheckTxData, checkAcceptReShare, eq_ok] at checked'
    obtain ⟨-, -, -, -, -, -, eq⟩ := checked'
    exact eq.symm
  refine ⟨⟨nonempty, .inr ⟨sender, nonce, acceptrh, decoded, key_eq, valid, ?_⟩⟩,
    same_key.trans key_eq⟩
  rcases sound.record with ⟨ac'', at_pending', -, -, mode_eq⟩ | moved
  · cases at_pending.symm.trans at_pending'
    rw [← mode_eq]
    exact mode
  · rw [moved] at at_pending
    cases at_pending

/-- The sender of a transaction is the first part of its value. -/
theorem sender_eq_value {tx : ReshareTx} (decoded : E.decodeReshare raw = some tx) :
    (GetReshareRawValue E raw).1 = tx.sender := by
  obtain ⟨sender, nonce, data⟩ := tx
  cases data <;> simp only [GetReshareRawValue, decoded]

theorem mem_placed {s : Text} {l : List Text} :
    s ∈ placed E raw l ↔
      (s ∈ l ∧ ¬ sameVoter E (GetReshareRawValue E raw) (GetReshareRawValue E s) = true) ∨ s = raw := by
  simp [placed, mem_append, mem_filter]

/-- Collecting keeps the invariant. -/
theorem Sound.collect (began : Began E c ac) (sound : Sound E c db j)
    (kind : raw = c.raw ∨ (isApproval E raw).isSome) : Sound E c db (collect E c db raw j).1 := by
  have cases : (ReshareApproval.collect E c db raw j).1 = j ∨
      Pushed E c db raw j (ReshareApproval.collect E c db raw j).1 :=
    collect_cases (fun s mem => (sound.entries s mem).1) sound.distinct
  rcases cases with same | pushed
  · rw [same]
    exact sound
  generalize (ReshareApproval.collect E c db raw j).1 = j' at pushed
  obtain ⟨key, tx, checked, completes⟩ := pushed.checked
  obtain ⟨entry, key_eq⟩ := sound.entry began pushed.nonempty kind checked
  have decoded := (checkRaw_eq_ok.mp checked).1
  constructor
  case record => exact sound.record
  case entries =>
    intro s mem
    rw [pushed.list, mem_placed] at mem
    rcases mem with ⟨old, -⟩ | rfl
    · exact sound.entries s old
    · exact entry
  case distinct =>
    rw [pushed.list, placed, pairwise_append]
    refine ⟨sound.distinct.filter _, pairwise_singleton _ _, ?_⟩
    intro s old s' new same
    rw [mem_singleton.mp new] at same
    have other := (mem_filter.mp old).2
    rw [sameVoter_symm same] at other
    cases other
  case taken =>
    intro s mem
    rw [pushed.list, mem_placed] at mem
    rw [pushed.counted, mem_append, mem_singleton]
    exact mem.imp (fun old => sound.taken s old.1) id
  case latest =>
    intro raw' mem
    rw [pushed.counted, mem_append, mem_singleton] at mem
    rw [pushed.list]
    rcases mem with old | rfl
    · obtain ⟨s, s_mem, same, dominates⟩ := sound.latest raw' old
      by_cases replaced : sameVoter E (GetReshareRawValue E raw) (GetReshareRawValue E s) = true
      · have newer := pushed.older s s_mem replaced
        refine ⟨raw, mem_placed.mpr (.inr rfl), sameVoter_trans replaced same, .inr ?_⟩
        rcases dominates with rfl | older
        · exact newer
        · exact older.trans newer
      · exact ⟨s, mem_placed.mpr (.inl ⟨s_mem, replaced⟩), same, dominates⟩
    · refine ⟨raw', mem_placed.mpr (.inr rfl), ?_, .inl rfl⟩
      simp [sameVoter, E.folding.equalFold_refl]
  case complete =>
    intro set node node_mem
    rcases completes set with before | complete
    · obtain ⟨fr, account_eq, s, s_mem, tx', s_decoded, same⟩ :=
        sound.complete before node node_mem
      refine ⟨fr, account_eq, ?_⟩
      rw [pushed.list]
      by_cases replaced : sameVoter E (GetReshareRawValue E raw) (GetReshareRawValue E s) = true
      · refine ⟨raw, mem_placed.mpr (.inr rfl), tx, decoded, ?_⟩
        simp only [sameVoter, decide_eq_true_eq, sender_eq_value decoded,
          sender_eq_value s_decoded] at replaced
        exact Folding.equalFold_trans replaced.1 same
      · exact ⟨s, mem_placed.mpr (.inl ⟨s_mem, replaced⟩), tx', s_decoded, same⟩
    · rcases sound.record with ⟨ac', at_pending, -, group, -⟩ | moved
      · have found : infoOf c db key = some ac' := by
          rw [infoOf, if_pos key_eq]
          exact at_pending
        rw [← group] at node_mem
        exact present_of_checkReply found complete node_mem
      · have unknown : infoOf c db key = none := by
          rw [infoOf, if_pos key_eq]
          exact moved
        rw [CheckReply, unknown] at complete
        cases complete

theorem record_update (record : IsPending c db ∨ db .pending = none) (u : AcceptStatus.Call) :
    IsPending c (update db u) ∨ (update db u) .pending = none := by
  rcases update_cases db u with same | ⟨ac, at_pending, ⟨status, kept⟩ | ⟨gone, -⟩⟩
  · rw [same]
    exact record
  · rcases record with ⟨ac', at_pending', -, group, mode⟩ | absent
    · cases at_pending.symm.trans at_pending'
      exact .inl ⟨ac.merge u, kept, status, group, mode⟩
    · rw [absent] at at_pending
      cases at_pending
  · exact .inr gone

theorem Sound.step (began : Began E c ac) (sound : Sound E c db j) (e : Event) :
    Sound E c (step E c db j e).1 (step E c db j e).2 := by
  cases e with
  | own => exact sound.collect began (.inl rfl)
  | preSaved raw =>
    simp only [ReshareApproval.step]
    split
    · rename_i approval
      exact sound.collect began (.inr approval)
    · exact sound
  | reply raw =>
    simp only [ReshareApproval.step]
    split
    · rename_i approval _
      have approves : (isApproval E raw).isSome := by
        rw [approval]
        rfl
      have collected := sound.collect began (.inr approves)
      split
      · exact collected
      · exact { collected with }
    · exact sound
  | settle raw =>
    simp only [ReshareApproval.step]
    split
    · split
      · exact { sound with record := record_update sound.record _ }
      · exact sound
    · exact sound
  | resaved ac' =>
    simp only [ReshareApproval.step]
    split
    · rename_i fits
      exact { sound with record := .inl ⟨ac', save_pending db ac', fits⟩ }
    · exact sound
  | updated u => exact { sound with record := record_update sound.record u }
  | token =>
    simp only [ReshareApproval.step]
    split
    · exact { sound with
        record := record_update sound.record _
        complete := fun set => by cases set }
    · exact sound
  | timeout =>
    simp only [ReshareApproval.step]
    split
    · exact { sound with record := record_update sound.record _ }
    · exact sound

/-- The states of a command: from the start, by any events. -/
inductive Reachable (E : ReshareEnv) (c : Command) (start : Places) : Places → Job → Prop
  | start : Reachable E c start start Job.initial
  | step {db : Places} {j : Job} (reached : Reachable E c start db j) (e : Event) :
      Reachable E c start (step E c db j e).1 (step E c db j e).2

theorem Sound.reachable (began : Began E c ac) {db₀ : Places}
    (reached : Reachable E c (save db₀ ac) db j) : Sound E c db j := by
  induction reached with
  | start => exact .initial began
  | step _ e ih => exact ih.step began e

theorem step_phase {e : Event} (not_token : e ≠ .token) (not_timeout : e ≠ .timeout) :
    (step E c db j e).2.phase = j.phase := by
  have collected (raw : Text) : (ReshareApproval.collect E c db raw j).1.phase = j.phase :=
    collect_phase
  cases e with
  | own => exact collected c.raw
  | preSaved raw =>
    simp only [ReshareApproval.step]
    split
    · exact collected raw
    · rfl
  | reply raw =>
    simp only [ReshareApproval.step]
    split
    · split
      · exact collected raw
      · exact collected raw
    · rfl
  | settle raw =>
    simp only [ReshareApproval.step]
    split
    · split <;> rfl
    · rfl
  | resaved ac =>
    simp only [ReshareApproval.step]
    split <;> rfl
  | updated u => rfl
  | token => exact absurd rfl not_token
  | timeout => exact absurd rfl not_timeout

end

/-! ## The end of the wait -/

section

variable (E : ReshareEnv) (c : Command)

/-- The account of the node has signed the command. -/
def IsInitiator (node : Enode) : Prop :=
  ∃ fr, accountOf E node = some fr ∧ E.folding.EqualFold c.account fr = true

/-- `raw` is an ACCEPTRESHARE of the command, from the account of the node. -/
def IsReply (node : Enode) (accept raw : Text) : Prop :=
  ∃ fr sender nonce acceptrh, accountOf E node = some fr ∧
    E.decodeReshare raw = some ⟨sender, nonce, .acceptReShare acceptrh⟩ ∧
    E.folding.EqualFold sender fr = true ∧ acceptrh.Key = c.key ∧ acceptrh.Accept = accept

/-- The latest reply of the node that the command has taken. -/
def Replied (j : Job) (node : Enode) (accept : Text) : Prop :=
  ∃ raw ∈ j.counted, IsReply E c node accept raw ∧
    ∀ raw' ∈ j.counted, ∀ accept', IsReply E c node accept' raw' → raw' = raw ∨ Older E raw' raw

/-- The record is stored as a failure. -/
def IsFailed (db : Places) : Prop :=
  db .pending = none ∧ ∃ ac, db .finished = some ac ∧ ac.Status = Failure

/-- The outcome `db'`, `j'` of a wait that has taken the replies of `j`. -/
def AsAgreed (j : Job) (db' : Places) (j' : Job) : Prop :=
  (j'.phase = .started → ∀ node ∈ nodesOf E c.rh.GroupID,
    IsInitiator E c node ∨ Replied E c j node AGREE) ∧
  ((∃ node ∈ nodesOf E c.rh.GroupID, Replied E c j node DISAGREE) →
    j'.phase ≠ .started ∧ IsFailed db')

/-- The command itself speaks for every node of the group. -/
def CommandAlone (j : Job) : Prop :=
  c.raw ∈ j.msgacceptreshareres ∧ ∀ node ∈ nodesOf E c.rh.GroupID, IsInitiator E c node

/-- By the end of the wait the handler of a DISAGREE has stored the failure. -/
def Heeded (db : Places) (j : Job) (e : Event) : Prop :=
  (∃ node ∈ nodesOf E c.rh.GroupID, Replied E c j node DISAGREE) →
    IsFailed db ∧ (e = .token → ¬ CommandAlone E c j)

end

section

variable {node : Enode} {accept : Text}

theorem IsReply.sameVoter {accept' raw' : Text} (reply : IsReply E c node accept raw)
    (reply' : IsReply E c node accept' raw') :
    sameVoter E (GetReshareRawValue E raw) (GetReshareRawValue E raw') = true := by
  obtain ⟨fr, sender, nonce, acceptrh, account_eq, decoded, same, -, -⟩ := reply
  obtain ⟨fr', sender', nonce', acceptrh', account_eq', decoded', same', -, -⟩ := reply'
  cases account_eq.symm.trans account_eq'
  simp only [ReshareApproval.sameVoter, GetReshareRawValue, decoded, decoded', decide_eq_true_eq]
  exact ⟨Folding.equalFold_trans same (Folding.equalFold_symm same'), E.folding.equalFold_refl _⟩

variable (began : Began E c ac)

include began

/-- An entry of the voter of a reply is a reply of the node. -/
theorem Entry.isReply {s : Text} (entry : Entry E c s) (reply : IsReply E c node accept raw)
    (same : sameVoter E (GetReshareRawValue E s) (GetReshareRawValue E raw) = true) :
    ∃ accept', IsReply E c node accept' s := by
  obtain ⟨fr, sender, nonce, acceptrh, account_eq, decoded, from_node, -, -⟩ := reply
  rcases entry.2 with rfl | ⟨sender', nonce', acceptrh', decoded', key_eq, -, -⟩
  · obtain ⟨nonce', decoded', -⟩ := began.decoded
    simp only [ReshareApproval.sameVoter, GetReshareRawValue, decoded, decoded',
      decide_eq_true_eq] at same
    exact absurd (Folding.length_eq_of_equalFold same.2) (by decide)
  · simp only [ReshareApproval.sameVoter, GetReshareRawValue, decoded, decoded',
      decide_eq_true_eq] at same
    exact ⟨acceptrh'.Accept, fr, sender', nonce', acceptrh', account_eq, decoded',
      Folding.equalFold_trans same.1 from_node, key_eq, rfl⟩

omit began in
theorem Older.irrefl {raw' : Text} (older : Older E raw raw') : ¬ Older E raw' raw := by
  intro newer
  obtain ⟨t', t, t'_eq, t_eq, lt⟩ := older.trans newer
  cases t'_eq.symm.trans t_eq
  exact lt_irrefl _ lt

omit began in
theorem Sound.eq_of_sameVoter (sound : Sound E c db j) {a b : Text}
    (a_mem : a ∈ j.msgacceptreshareres) (b_mem : b ∈ j.msgacceptreshareres)
    (same : ReshareApproval.sameVoter E (GetReshareRawValue E a) (GetReshareRawValue E b) = true) :
    a = b := by
  have symm : Std.Symm fun a b : Text =>
      ¬ ReshareApproval.sameVoter E (GetReshareRawValue E a) (GetReshareRawValue E b) = true :=
    ⟨fun _ _ apart same => apart (sameVoter_symm same)⟩
  by_contra ne
  exact sound.distinct.forall a_mem b_mem ne same

/-- The list holds the latest replies. -/
theorem Sound.replied_iff (sound : Sound E c db j) :
    Replied E c j node accept ↔ ∃ raw ∈ j.msgacceptreshareres, IsReply E c node accept raw := by
  constructor
  · rintro ⟨raw, mem, reply, newest⟩
    obtain ⟨s, s_mem, same, dominates⟩ := sound.latest raw mem
    rcases dominates with rfl | older
    · exact ⟨s, s_mem, reply⟩
    · obtain ⟨accept', reply'⟩ := (sound.entries s s_mem).isReply began reply same
      rcases newest s (sound.taken s s_mem) accept' reply' with rfl | newer
      · exact ⟨s, s_mem, reply⟩
      · exact absurd newer older.irrefl
  · rintro ⟨raw, mem, reply⟩
    refine ⟨raw, sound.taken raw mem, reply, ?_⟩
    intro raw' mem' accept' reply'
    obtain ⟨s, s_mem, same, dominates⟩ := sound.latest raw' mem'
    have s_eq : s = raw :=
      sound.eq_of_sameVoter s_mem mem (sameVoter_trans same (reply'.sameVoter reply))
    rw [s_eq] at dominates
    exact dominates.imp Eq.symm id

omit began in
/-- Only the command itself is read when there is no pending record. -/
theorem eq_command_of_checked (absent : db .pending = none) {key : Text} {tx : ReshareTx}
    (entry : Entry E c raw) (checked : CheckRaw E (infoOf c db) raw = .ok (key, tx)) :
    raw = c.raw := by
  rcases entry.2 with rfl | ⟨sender, nonce, acceptrh, decoded, -, -, -⟩
  · rfl
  · cases (checkRaw_eq_ok.mp checked).1.symm.trans decoded
    obtain ⟨-, -, ac', at_pending, -⟩ := checked_approval checked
    rw [absent] at at_pending
    cases at_pending

omit began in
/-- The decision of the wait, node by node. -/
theorem agrees_iff :
    allAgree E (replies E c db j) = true ↔ ∀ node ∈ nodesOf E c.rh.GroupID,
      ∃ fr, accountOf E node = some fr ∧ ∃ raw ∈ j.msgacceptreshareres, ∃ key tx,
        CheckRaw E (infoOf c db) raw = .ok (key, tx) ∧ E.folding.EqualFold tx.sender fr = true := by
  rw [replies, allAgree_iff]
  refine forall₂_congr fun node _ => ?_
  cases account_eq : accountOf E node with
  | none => simp
  | some fr =>
    simp only [Option.bind_some, Option.some.injEq, exists_eq_left']
    constructor
    · intro found
      obtain ⟨tx, found⟩ := Option.isSome_iff_exists.mp found
      obtain ⟨raw, mem, key, checked, same⟩ := replyOf_eq_some found
      exact ⟨raw, mem, key, tx, checked, same⟩
    · rintro ⟨raw, mem, key, tx, checked, same⟩
      exact replyOf_isSome mem checked same

/-- What the wait reads for a node is the command, or a reply of the node to it. -/
theorem Entry.read {key fr : Text} {tx : ReshareTx} (entry : Entry E c raw)
    (account_eq : accountOf E node = some fr)
    (checked : CheckRaw E (infoOf c db) raw = .ok (key, tx))
    (same : E.folding.EqualFold tx.sender fr = true) :
    (raw = c.raw ∧ IsInitiator E c node) ∨ IsReply E c node AGREE raw ∨
      IsReply E c node DISAGREE raw := by
  have decoded := (checkRaw_eq_ok.mp checked).1
  rcases entry.2 with rfl | ⟨sender, nonce, acceptrh, decoded', key_eq, agree | disagree, -⟩
  · obtain ⟨nonce, decoded', -⟩ := began.decoded
    cases decoded.symm.trans decoded'
    exact .inl ⟨rfl, fr, account_eq, same⟩
  · cases decoded.symm.trans decoded'
    exact .inr (.inl ⟨fr, sender, nonce, acceptrh, account_eq, decoded, same, key_eq, agree⟩)
  · cases decoded.symm.trans decoded'
    exact .inr (.inr ⟨fr, sender, nonce, acceptrh, account_eq, decoded, same, key_eq, disagree⟩)

/-- A complete list and a pending record: the run starts, whatever the replies. -/
theorem Sound.agrees_of_pending (sound : Sound E c db j)
    (complete : j.acceptReShareChan = true) (pending : IsPending c db) :
    allAgree E (replies E c db j) = true := by
  rw [agrees_iff]
  intro node node_mem
  obtain ⟨fr, account_eq, raw, mem, tx, decoded, same⟩ := sound.complete complete node node_mem
  obtain ⟨key, tx', checked, decoded'⟩ := (sound.entries raw mem).checked began pending
  cases decoded.symm.trans decoded'
  exact ⟨fr, account_eq, raw, mem, key, tx, checked, same⟩

theorem CommandAlone.agrees (alone : CommandAlone E c j) :
    allAgree E (replies E c db j) = true := by
  rw [agrees_iff]
  intro node node_mem
  obtain ⟨fr, account_eq, same⟩ := alone.2 node node_mem
  obtain ⟨nonce, decoded, checked, -⟩ := began.decoded
  exact ⟨fr, account_eq, c.raw, alone.1, c.key, _, checkRaw_eq_ok.mpr ⟨decoded, checked⟩, same⟩

/-- Without a pending record only the command itself can make the run start. -/
theorem Sound.alone_of_agrees (sound : Sound E c db j)
    (absent : db .pending = none) (agrees : allAgree E (replies E c db j) = true)
    (node_mem : node ∈ nodesOf E c.rh.GroupID) : CommandAlone E c j := by
  rw [agrees_iff] at agrees
  have reads : ∀ node ∈ nodesOf E c.rh.GroupID,
      c.raw ∈ j.msgacceptreshareres ∧ IsInitiator E c node := by
    intro node node_mem
    obtain ⟨fr, account_eq, raw, mem, key, tx, checked, same⟩ := agrees node node_mem
    cases eq_command_of_checked absent (sound.entries raw mem) checked
    obtain ⟨nonce, decoded, -⟩ := began.decoded
    cases (checkRaw_eq_ok.mp checked).1.symm.trans decoded
    exact ⟨mem, fr, account_eq, same⟩
  exact ⟨(reads node node_mem).1, fun node node_mem => (reads node node_mem).2⟩

omit began in
theorem IsFailed.of_timeout {ars : List NodeReply} (failed : IsFailed (update db (timeoutCall c ars))) :
    IsFailed db := by
  rcases update_cases db (timeoutCall c ars) with same | ⟨ac, -, ⟨-, kept⟩ | ⟨-, moved⟩⟩
  · rw [same] at failed
    exact failed
  · rw [failed.1] at kept
    cases kept
  · obtain ⟨-, ac', at_finished, status⟩ := failed
    cases moved.symm.trans at_finished
    have timeout : (ac.merge (timeoutCall c ars)).Status = Timeout := rfl
    rw [timeout] at status
    exact absurd status (by decide)

/-- The decision, on the replies that the wait has taken. -/
theorem Sound.decided (sound : Sound E c db j)
    (heeded : (∃ node ∈ nodesOf E c.rh.GroupID, Replied E c j node DISAGREE) → IsFailed db)
    (agrees : allAgree E (replies E c db j) = true) (node_mem : node ∈ nodesOf E c.rh.GroupID) :
    IsInitiator E c node ∨ Replied E c j node AGREE := by
  obtain ⟨fr, account_eq, raw, mem, key, tx, checked, same⟩ := agrees_iff.mp agrees node node_mem
  rcases (sound.entries raw mem).read began account_eq checked same with
    ⟨-, initiator⟩ | agree | disagree
  · exact .inl initiator
  · exact .inr ((sound.replied_iff began).mpr ⟨raw, mem, agree⟩)
  · have failed := heeded ⟨node, node_mem, (sound.replied_iff began).mpr ⟨raw, mem, disagree⟩⟩
    exact .inl ((sound.alone_of_agrees began failed.1 agrees node_mem).2 node node_mem)

end

/-- For every command that `DoReq` has accepted, every sequence of events and every end of the wait:
the outcome respects the replies exactly when the handler of each DISAGREE has stored the failure
before. -/
theorem wait_ends_as_agreed {E : ReshareEnv} {c : Command} {ac : AcceptReShareData}
    (began : Began E c ac) {db₀ db : Places} {j : Job} (reached : Reachable E c (save db₀ ac) db j)
    (waiting : j.phase = .waiting) {e : Event} (ends : (step E c db j e).2.phase ≠ .waiting) :
    AsAgreed E c j (step E c db j e).1 (step E c db j e).2 ↔ Heeded E c db j e := by
  have sound := Sound.reachable began reached
  by_cases token : e = .token
  · rw [token] at ends ⊢
    have complete : j.acceptReShareChan = true := by
      by_contra unset
      apply ends
      simp [step, waiting, if_neg unset]
    simp only [step, waiting, true_and, complete, if_true, AsAgreed, Heeded, forall_const]
    cases agrees : allAgree E (replies E c db j) with
    | true =>
      simp only [if_true, ne_eq, not_true_eq_false, false_and, imp_false, forall_const]
      constructor
      · rintro ⟨-, none_disagrees⟩ disagrees
        exact absurd disagrees none_disagrees
      · intro heeded
        constructor
        · exact fun node => sound.decided began (fun disagrees => (heeded disagrees).1) agrees
        · intro disagrees
          obtain ⟨failed, not_alone⟩ := heeded disagrees
          obtain ⟨node, node_mem, -⟩ := disagrees
          exact not_alone (sound.alone_of_agrees began failed.1 agrees node_mem)
    | false =>
      have absent : db .pending = none := by
        rcases sound.record with pending | absent
        · rw [sound.agrees_of_pending began complete pending] at agrees
          cases agrees
        · exact absent
      have not_alone : ¬ CommandAlone E c j := by
        intro alone
        rw [alone.agrees began] at agrees
        cases agrees
      rw [update_of_absent absent]
      simp [not_alone]
  · by_cases timeout : e = .timeout
    · rw [timeout]
      simp only [step, waiting, if_true, AsAgreed, Heeded]
      constructor
      · rintro ⟨-, outcome⟩ disagrees
        exact ⟨(outcome disagrees).2.of_timeout, fun token => by cases token⟩
      intro heeded
      constructor
      · intro started
        cases started
      · intro disagrees
        have failed := (heeded disagrees).1
        rw [update_of_absent failed.1]
        exact ⟨nofun, failed⟩
    · exact absurd ((step_phase token timeout).trans waiting) ends

/-! ## A group of two nodes -/

section

variable (E : ReshareEnv) (c : Command)

def run (db : Places) (j : Job) : List Event → Places × Job
  | [] => (db, j)
  | e :: rest => run (step E c db j e).1 (step E c db j e).2 rest

variable {E c}

theorem Reachable.run {start : Places} (reached : Reachable E c start db j)
    (es : List Event) : Reachable E c start (run E c db j es).1 (run E c db j es).2 := by
  induction es generalizing db j with
  | nil => exact reached
  | cons e rest ih => exact ih (reached.step e)

end

namespace TwoNodes

open Smpc.TwoNodes (node account gid)

def reshareData : TxDataReShare where
  PubKey := ['0', '4']
  GroupID := gid
  TSGroupID := gid
  ThresHold := ['2', '/', '2']
  Account := account '1'
  Mode := mode0
  AcceptTimeOut := []
  TimeStamp := ['1']

def accept (Accept : Text) : TxDataAcceptReShare := ⟨['k'], Accept, ['2']⟩

/-- The account of the first node sends the command `r`, the other one agrees with `y` or disagrees
with `n`. -/
def env : ReshareEnv :=
  { Smpc.TwoNodes.env with
    decodeReshare := fun
      | ['r'] => some ⟨account '1', 0, .reShare reshareData⟩
      | ['y'] => some ⟨account '2', 0, .acceptReShare (accept AGREE)⟩
      | ['n'] => some ⟨account '2', 0, .acceptReShare (accept DISAGREE)⟩
      | _ => none
    PublicKeyToAddress := fun
      | '0' :: '4' :: 'a' :: _ => some (account '1')
      | '0' :: '4' :: 'b' :: _ => some (account '2')
      | _ => none
    GetGroupSigsDataByRaw := fun _ => .ok [] }

def command : Command := ⟨['r'], node 'a', account '1', reshareData, ['k'], 0, 2⟩

def record : AcceptReShareData where
  fixed := ⟨account '1', gid, gid, ['0', '4'], ['2', '/', '2'], account '1', mode0, ['1']⟩
  Initiator := node 'a'
  Deal := false'
  Accept := false'
  Status := Pending
  result := []
  Tip := []
  Error := []
  AllReply := GetReplyFromGroup env (fun _ => none) [] gid (node 'a')
  WorkID := 0
  Sigs := []

def start : Places := save (fun _ => none) record

theorem began : Began env command record := ⟨by decide +kernel⟩

/-- The state after the command and the reply of the other node, `settled` or not. -/
def replied (raw : Text) (settled : Bool) : Places × Job :=
  run env command start Job.initial
    ([.own, .reply raw] ++ if settled then [.settle raw] else [])

theorem reached (raw : Text) (settled : Bool) :
    Reachable env command start (replied raw settled).1 (replied raw settled).2 :=
  Reachable.start.run _

theorem disagrees : Replied env command (replied ['n'] false).2 (node 'b') DISAGREE := by
  have counted : (replied ['n'] false).2.counted = [['r'], ['n']] := by decide +kernel
  refine ⟨['n'], ?_, ⟨account '2', account '2', 0, accept DISAGREE, rfl, rfl, by decide +kernel, rfl,
    rfl⟩, ?_⟩
  · rw [counted]
    decide
  · intro raw' mem accept' reply
    rw [counted] at mem
    obtain ⟨_, _, _, _, -, decoded, -⟩ := reply
    rcases mem_pair.mp mem with rfl | rfl
    · cases decoded
    · exact .inl rfl

theorem none_disagrees (n : Enode) : ¬ Replied env command (replied ['y'] true).2 n DISAGREE := by
  have counted : (replied ['y'] true).2.counted = [['r'], ['y']] := by decide +kernel
  rintro ⟨raw, mem, ⟨_, _, _, _, -, decoded, -, -, disagree⟩, -⟩
  rw [counted] at mem
  rcases mem_pair.mp mem with rfl | rfl
  · cases decoded
  · cases decoded
    exact absurd disagree (by decide)

end TwoNodes

/-- The other node agrees, and its handler finishes before the wait ends. -/
theorem agreed_reshare_starts :
    AsAgreed TwoNodes.env TwoNodes.command (TwoNodes.replied ['y'] true).2
      (step TwoNodes.env TwoNodes.command (TwoNodes.replied ['y'] true).1
        (TwoNodes.replied ['y'] true).2 .token).1
      (step TwoNodes.env TwoNodes.command (TwoNodes.replied ['y'] true).1
        (TwoNodes.replied ['y'] true).2 .token).2 := by
  refine (wait_ends_as_agreed TwoNodes.began (TwoNodes.reached _ _) (by decide +kernel)
    (by decide +kernel)).mpr ?_
  rintro ⟨n, -, disagrees⟩
  exact absurd disagrees (TwoNodes.none_disagrees n)

/-- The other node disagrees, and the token ends the wait before its handler has gone on. -/
theorem disagreement_starts_run :
    Began TwoNodes.env TwoNodes.command TwoNodes.record ∧
    Reachable TwoNodes.env TwoNodes.command (save (fun _ => none) TwoNodes.record)
      (TwoNodes.replied ['n'] false).1 (TwoNodes.replied ['n'] false).2 ∧
    (TwoNodes.replied ['n'] false).2.phase = .waiting ∧
    Smpc.TwoNodes.node 'b' ∈ nodesOf TwoNodes.env TwoNodes.command.rh.GroupID ∧
    Replied TwoNodes.env TwoNodes.command (TwoNodes.replied ['n'] false).2 (Smpc.TwoNodes.node 'b')
      DISAGREE ∧
    (step TwoNodes.env TwoNodes.command (TwoNodes.replied ['n'] false).1
      (TwoNodes.replied ['n'] false).2 .token).2.phase = .started :=
  ⟨TwoNodes.began, TwoNodes.reached _ _, by decide +kernel, by decide +kernel, TwoNodes.disagrees,
    by decide +kernel⟩

end ThresholdDsa.Smpc.ReshareApproval
