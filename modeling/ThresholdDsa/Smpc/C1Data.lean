/-
# What `HandleC1Data` does with early messages

Messages of a session that arrive before its worker is ready are parked in the
map `C1Data`: round messages under key, sender and type, approvals under key and
account.  `HandleC1Data` reads the map at the keys it expects: those of the round
messages of every node, then those of the approvals of the accounts in the `Sigs`
of the key generation record.  An entry that it hands on is removed by a
goroutine of its own, at any time later.

`accepts_dispatched_iff`: every parked approval of a listed account is handed on
exactly once, however the removals run, exactly if the loop gets as far as all of
them.  It returns at the first one that passes `CheckRaw`.
-/
import ThresholdDsa.Smpc.Approval

namespace ThresholdDsa.Smpc.Parking

open Outcome GoText List Option

/-! ## Keys -/

def kgTypes : List Text :=
  ["KGRound0Message", "KGRound1Message", "KGRound2Message", "KGRound2Message1", "KGRound2Message2",
    "KGRound3Message", "KGRound3Message1", "KGRound4Message", "KGRound5Message", "KGRound5Message1",
    "KGRound5Message2", "KGRound6Message"].map String.toList

def signTypes : List Text :=
  ["SignRound1Message", "SignRound2Message", "SignRound3Message", "SignRound4Message",
    "SignRound4Message1", "SignRound5Message", "SignRound6Message", "SignRound7Message",
    "SignRound8Message", "SignRound9Message"].map String.toList

section

variable (E : Env) (key : Text)

/-- The key of a round message. -/
def roundKey (sender msgtype : Text) : Text :=
  E.ToLower (key ++ ['-'] ++ sender ++ ['-'] ++ msgtype)

/-- The key of an approval. -/
def acceptKey (account : Text) : Text := E.ToLower (key ++ ['-'] ++ account)

def HandleKG (uid : Option ℕ) : List Text := kgTypes.map (roundKey E key (uidText uid))

def HandleSign (uid : Option ℕ) : List Text := signTypes.map (roundKey E key (uidText uid))

/-- The UID of a node of the group; it exists, since no enode id of a group is empty. -/
def nodeUID (keytype : Text) (nodes : List Enode) (node : Enode) : Option ℕ :=
  match GetNodeUID ⟨fun id => E.digest keytype id, E.folding⟩ node nodes with
  | .ok uid => uid
  | .error _ => none

/-- `strings.Split` of the nodes; an unknown group gives one empty text. -/
def groupNodes (GroupID : Text) : List Enode :=
  match GetGroup E GroupID with
  | [] => [[]]
  | nodes => nodes

/-- The keys of the round messages, in the order in which they are handled. -/
def roundKeys (GroupID : Text) : List Text :=
  (groupNodes E GroupID).flatMap fun node =>
    [EC256K1, ED25519].flatMap fun keytype =>
      HandleKG E key (nodeUID E keytype (GetGroup E GroupID) node) ++
        HandleSign E key (nodeUID E keytype (GetGroup E GroupID) node)

def edKeys (GroupID : Text) : List Text :=
  (groupNodes E GroupID).map fun node =>
    E.ToLower (key ++ ['-'] ++ node ++ Sep ++ "EDC21".toList)

/-- The accounts in the fields of `Sigs`: every second one after the first. -/
def accountsOf : List Text → List Text
  | _ :: account :: rest => account :: accountsOf rest
  | _ => []

def accounts (Sigs : List Text) : List Text :=
  if Sigs.length < 3 then [] else accountsOf Sigs.tail

end

/-! ## Handing on -/

inductive Receiver where
  | SmpcMsg
  | DisMsg
  | DisAcceptMsg
  | ExecApproveKeyGen (sender : Text)
  | ExecApproveSigning (sender : Text)
  deriving DecidableEq

/-- The approval functions. -/
def Receiver.approves : Receiver → Bool
  | .SmpcMsg => false
  | .DisMsg => false
  | _ => true

structure Dispatch where
  (c1data msg : Text)
  receiver : Receiver
  deriving DecidableEq

/-- `deletes` are the removals under way, `reads` counts the reads of the map. -/
structure State where
  C1Data : Text → Option Text
  deletes : List Text
  reads : ℕ
  dispatched : List Dispatch

def State.parked (C1Data : Text → Option Text) : State := ⟨C1Data, [], 0, []⟩

/-- An entry is handed on and its removal begins. -/
def State.give (st : State) (c1data msg : Text) (receiver : Receiver) : State :=
  { st with
    deletes := st.deletes ++ [c1data]
    dispatched := st.dispatched ++ [⟨c1data, msg, receiver⟩] }

/-- Which removals run before which read. -/
abbrev Removals := ℕ → Text → Bool

section

variable (E : Env) (db : Db) (runs : Removals) (started : ℕ → Bool)

def State.sweep (st : State) : State where
  C1Data c := if c ∈ st.deletes ∧ runs st.reads c then none else st.C1Data c
  deletes := st.deletes.filter fun c => !runs st.reads c
  reads := st.reads + 1
  dispatched := st.dispatched

/-- `Handle`: a round message goes to the worker if its node has started. -/
def Handle (st : State) (c1data : Text) : State :=
  match (st.sweep runs).C1Data c1data with
  | some val => if started st.reads then (st.sweep runs).give c1data val .SmpcMsg else st.sweep runs
  | none => st.sweep runs

def handleED (st : State) (c1data : Text) : State :=
  match (st.sweep runs).C1Data c1data with
  | some c1 => (st.sweep runs).give c1data c1 .DisMsg
  | none => st.sweep runs

/-- What the loop does with a parked approval: it calls one of the approval functions or none and
returns, or it calls `DisAcceptMsg` and goes on. -/
inductive Verdict where
  | done (receiver : Option Receiver)
  | goOn
  deriving DecidableEq

def verdict (raw : Text) : Verdict :=
  match CheckRaw E db raw with
  | .ok (_, ⟨sender, _, .acceptReqAddr req⟩) =>
    match (db.reqAddrInfo req.Key).bind (·.acceptReqAddr?) with
    | some _ => .done (some (.ExecApproveKeyGen sender))
    | none => .done none
  | .ok (_, ⟨sender, _, .acceptSign sig⟩) =>
    match (db.signInfo sig.Key).bind (·.acceptSign?) with
    | some _ => .done (some (.ExecApproveSigning sender))
    | none => .done none
  | _ => .goOn

/-- The loop over the accounts, by their keys. -/
def acceptLoop : List Text → State → State
  | [], st => st
  | c1data :: rest, st =>
    match (st.sweep runs).C1Data c1data with
    | none => acceptLoop rest (st.sweep runs)
    | some c1 =>
      match verdict E db c1 with
      | .done (some receiver) => (st.sweep runs).give c1data c1 receiver
      | .done none =>
        { st.sweep runs with deletes := (st.sweep runs).deletes ++ [c1data] }
      | .goOn => acceptLoop rest ((st.sweep runs).give c1data c1 .DisAcceptMsg)

/-- `HandleC1Data` for key generation and signing; `worker` is the answer of `FindWorker`. -/
def HandleC1Data (ac : AcceptReqAddrData) (key : Text) (worker : Bool) (st : State) : State :=
  if worker = false ∨ key = [] then st
  else
    let handled := (roundKeys E key ac.GroupID).foldl (Handle runs started) st
    let handledED := (edKeys E key ac.GroupID).foldl (handleED runs) handled
    acceptLoop E db runs ((accounts ac.Sigs).map (acceptKey E key)) handledED

end

/-! ## The loop over the accounts -/

variable {st : State} {keys : List Text} {c : Text}

section

variable {E : Env} {db : Db} {runs : Removals} {started : ℕ → Bool} {C1Data : Text → Option Text}

/-- An approval that passes `CheckRaw` has a record. -/
theorem verdict_ne_lost (raw : Text) : verdict E db raw ≠ .done none := by
  unfold verdict
  split
  · rename_i key sender nonce req checked
    have passed := (checkRaw_eq_ok.mp checked).2
    simp only [CheckTxData, checkAcceptReqAddr, eq_ok] at passed
    obtain ⟨-, -, da, stored, ac, record, -⟩ := passed
    rw [stored, bind_some, record]
    simp
  · rename_i key sender nonce sig checked
    have passed := (checkRaw_eq_ok.mp checked).2
    simp only [CheckTxData, checkAcceptSign, eq_ok] at passed
    obtain ⟨-, -, -, -, -, -, ac, record, -⟩ := passed
    rw [record]
    simp
  · simp

/-- Where a parked approval goes. -/
def receiverOf (E : Env) (db : Db) (raw : Text) : Receiver :=
  match verdict E db raw with
  | .done (some receiver) => receiver
  | _ => .DisAcceptMsg

theorem receiverOf_approves (raw : Text) : (receiverOf E db raw).approves = true := by
  unfold receiverOf verdict
  split
  · rename_i receiver found
    split at found <;> (try split at found) <;> cases found <;> rfl
  · rfl

/-- An entry at which the loop returns: an approval that passes `CheckRaw`. -/
def stops (E : Env) (db : Db) (C1Data : Text → Option Text) (c : Text) : Bool :=
  (C1Data c).any fun raw => verdict E db raw ≠ .goOn

/-- The keys up to the first at which the loop returns. -/
def visited (E : Env) (db : Db) (C1Data : Text → Option Text) : List Text → List Text
  | [] => []
  | c :: rest => c :: if stops E db C1Data c then [] else visited E db C1Data rest

/-- The entry at a key, handed on. -/
def handedOn (E : Env) (db : Db) (C1Data : Text → Option Text) (c : Text) : Option Dispatch :=
  (C1Data c).map fun raw => ⟨c, raw, receiverOf E db raw⟩

section Turn

variable {c raw : Text} {rest : List Text}

theorem acceptLoop_absent (reads : (st.sweep runs).C1Data c = none) :
    acceptLoop E db runs (c :: rest) st = acceptLoop E db runs rest (st.sweep runs) := by
  rw [acceptLoop, reads]

theorem acceptLoop_returns (reads : (st.sweep runs).C1Data c = some raw)
    (returns : verdict E db raw ≠ .goOn) :
    acceptLoop E db runs (c :: rest) st = (st.sweep runs).give c raw (receiverOf E db raw) := by
  rw [acceptLoop, reads, receiverOf]
  cases judged : verdict E db raw with
  | goOn => exact absurd judged returns
  | done receiver =>
    cases receiver with
    | none => exact absurd judged (verdict_ne_lost raw)
    | some => simp [judged]

theorem acceptLoop_goesOn (reads : (st.sweep runs).C1Data c = some raw)
    (goes : verdict E db raw = .goOn) :
    acceptLoop E db runs (c :: rest) st =
      acceptLoop E db runs rest ((st.sweep runs).give c raw (receiverOf E db raw)) := by
  simp only [acceptLoop, reads, receiverOf, goes]

end Turn

theorem visited_of_stops {rest : List Text} (stop : stops E db C1Data c = true) :
    visited E db C1Data (c :: rest) = [c] := by
  rw [visited, if_pos stop]

theorem visited_of_goes {rest : List Text} (goes : stops E db C1Data c = false) :
    visited E db C1Data (c :: rest) = c :: visited E db C1Data rest := by
  rw [visited, goes]
  rfl

/-- The entries that the loop has still to hand on are as they were parked, and nobody is removing
them. -/
def Untouched (C1Data : Text → Option Text) (keys : List Text) (st : State) : Prop :=
  ∀ c ∈ keys, C1Data c = none ∧ st.C1Data c = none ∨ st.C1Data c = C1Data c ∧ c ∉ st.deletes

theorem sweep_untouched (untouched : Untouched C1Data keys st) :
    Untouched C1Data keys (st.sweep runs) ∧ ∀ c ∈ keys, (st.sweep runs).C1Data c = C1Data c := by
  have each : ∀ c ∈ keys, C1Data c = none ∧ (st.sweep runs).C1Data c = none ∨
      (st.sweep runs).C1Data c = C1Data c ∧ c ∉ (st.sweep runs).deletes := by
    intro c member
    rcases untouched c member with ⟨absent, gone⟩ | ⟨same, kept⟩
    · refine .inl ⟨absent, ?_⟩
      simp [State.sweep, gone]
    · refine .inr ⟨?_, fun deleted => kept (mem_of_mem_filter deleted)⟩
      simp [State.sweep, kept, same]
  refine ⟨each, fun c member => ?_⟩
  rcases each c member with ⟨absent, gone⟩ | ⟨same, -⟩
  · rw [absent, gone]
  · exact same

/-- A loop that reads each key it gets to as it was parked hands on each entry; `I` is what it keeps
to from key to key. -/
theorem acceptLoop_of_reads {I : List Text → State → Prop}
    (read : ∀ {c rest st}, I (c :: rest) st → (st.sweep runs).C1Data c = C1Data c)
    (absent : ∀ {c rest st}, I (c :: rest) st → C1Data c = none → I rest (st.sweep runs))
    (gives : ∀ {c rest st raw}, I (c :: rest) st → C1Data c = some raw →
      stops E db C1Data c = false → I rest ((st.sweep runs).give c raw (receiverOf E db raw)))
    (holds : I keys st) :
    (acceptLoop E db runs keys st).dispatched =
      st.dispatched ++ (visited E db C1Data keys).filterMap (handedOn E db C1Data) := by
  induction keys generalizing st with
  | nil => simp [acceptLoop, visited]
  | cons c rest ih =>
    cases parked : C1Data c with
    | none =>
      have goes : stops E db C1Data c = false := by simp [stops, parked]
      rw [visited_of_goes goes, acceptLoop_absent ((read holds).trans parked),
        ih (absent holds parked)]
      simp [handedOn, parked, State.sweep]
    | some raw =>
      have handed : handedOn E db C1Data c = some ⟨c, raw, receiverOf E db raw⟩ := by
        simp [handedOn, parked]
      by_cases goes : verdict E db raw = .goOn
      · have goes_on : stops E db C1Data c = false := by simp [stops, parked, goes]
        rw [visited_of_goes goes_on, acceptLoop_goesOn ((read holds).trans parked) goes,
          ih (gives holds parked goes_on)]
        simp [handed, State.sweep, State.give]
      · have stop : stops E db C1Data c = true := by simp [stops, parked, goes]
        rw [visited_of_stops stop, acceptLoop_returns ((read holds).trans parked) goes]
        simp [handed, State.sweep, State.give]

/-- If no key with an entry comes twice, the loop hands on each entry it gets to, whatever is
removed meanwhile. -/
theorem acceptLoop_dispatched (untouched : Untouched C1Data (visited E db C1Data keys) st)
    (distinct : ((visited E db C1Data keys).filter fun c => (C1Data c).isSome).Nodup) :
    (acceptLoop E db runs keys st).dispatched =
      st.dispatched ++ (visited E db C1Data keys).filterMap (handedOn E db C1Data) := by
  refine acceptLoop_of_reads (I := fun keys st => Untouched C1Data (visited E db C1Data keys) st ∧
    ((visited E db C1Data keys).filter fun c => (C1Data c).isSome).Nodup) ?_ ?_ ?_ ⟨untouched, distinct⟩
  · intro c rest st holds
    refine (sweep_untouched holds.1).2 c ?_
    exact mem_cons_self
  · rintro c rest st ⟨untouched, distinct⟩ parked
    rw [visited_of_goes (by simp [stops, parked])] at untouched distinct
    rw [filter_cons_of_neg (by simp [parked])] at distinct
    exact ⟨fun c' member => (sweep_untouched untouched).1 c' (mem_cons_of_mem _ member), distinct⟩
  · rintro c rest st raw ⟨untouched, distinct⟩ parked goes
    rw [visited_of_goes goes] at untouched distinct
    rw [filter_cons_of_pos (by simp [parked]), nodup_cons] at distinct
    refine ⟨fun c' member => ?_, distinct.2⟩
    rcases (sweep_untouched untouched).1 c' (mem_cons_of_mem _ member) with absent | ⟨same, kept⟩
    · exact .inl absent
    cases other : C1Data c' with
    | none => exact .inl ⟨rfl, same.trans other⟩
    | some raw' =>
      refine .inr ⟨same.trans other, fun deleted => ?_⟩
      rcases mem_append.mp deleted with before | now
      · exact kept before
      · rw [mem_singleton.mp now] at member other
        exact distinct.1 (mem_filter.mpr ⟨member, by simp [other]⟩)

/-- If no removal runs, the loop hands on each entry it gets to, as often as it gets there. -/
theorem acceptLoop_unremoved (same : ∀ c ∈ keys, st.C1Data c = C1Data c) :
    (acceptLoop E db (fun _ _ => false) keys st).dispatched =
      st.dispatched ++ (visited E db C1Data keys).filterMap (handedOn E db C1Data) := by
  refine acceptLoop_of_reads (I := fun keys st => ∀ c ∈ keys, st.C1Data c = C1Data c) ?_ ?_ ?_ same
  · intro c rest st same
    simp [State.sweep, same c mem_cons_self]
  · intro c rest st same _ c' member
    simp [State.sweep, same c' (mem_cons_of_mem _ member)]
  · intro c rest st raw same _ _ c' member
    simp [State.sweep, State.give, same c' (mem_cons_of_mem _ member)]

/-! ## The round messages before it -/

/-- Nothing but the keys has been touched. -/
structure Elsewhere (C1Data : Text → Option Text) (keys : List Text) (st : State) : Prop where
  same : ∀ c ∉ keys, st.C1Data c = C1Data c
  deletes : ∀ c ∈ st.deletes, c ∈ keys
  dispatched : ∀ d ∈ st.dispatched, d.c1data ∈ keys

section Elsewhere

theorem elsewhere_parked : Elsewhere C1Data keys (State.parked C1Data) where
  same _ _ := rfl
  deletes _ member := absurd member not_mem_nil
  dispatched _ member := absurd member not_mem_nil

variable (elsewhere : Elsewhere C1Data keys st)

include elsewhere

theorem Elsewhere.sweep : Elsewhere C1Data keys (st.sweep runs) where
  same c outside := by
    have kept : c ∉ st.deletes := fun deleted => outside (elsewhere.deletes c deleted)
    simp [State.sweep, kept, elsewhere.same c outside]
  deletes c deleted := elsewhere.deletes c (mem_of_mem_filter deleted)
  dispatched := elsewhere.dispatched

theorem Elsewhere.give (inside : c ∈ keys) (msg : Text)
    (receiver : Receiver) : Elsewhere C1Data keys (st.give c msg receiver) where
  same := elsewhere.same
  deletes c' deleted := by
    rcases mem_append.mp deleted with before | now
    · exact elsewhere.deletes c' before
    · rw [mem_singleton.mp now]
      exact inside
  dispatched d member := by
    rcases mem_append.mp member with before | now
    · exact elsewhere.dispatched d before
    · rw [mem_singleton.mp now]
      exact inside

theorem Elsewhere.handle (inside : c ∈ keys) :
    Elsewhere C1Data keys (Handle runs started st c) := by
  unfold Handle
  split
  · split
    · exact elsewhere.sweep.give inside _ _
    · exact elsewhere.sweep
  · exact elsewhere.sweep

theorem Elsewhere.handleED (inside : c ∈ keys) : Elsewhere C1Data keys (handleED runs st c) := by
  unfold Parking.handleED
  split
  · exact elsewhere.sweep.give inside _ _
  · exact elsewhere.sweep

theorem Elsewhere.foldl {step : State → Text → State}
    (keeps : ∀ st c, c ∈ keys → Elsewhere C1Data keys st → Elsewhere C1Data keys (step st c))
    {handled : List Text} (inside : ∀ c ∈ handled, c ∈ keys) :
    Elsewhere C1Data keys (handled.foldl step st) := by
  induction handled generalizing st with
  | nil => exact elsewhere
  | cons c rest ih =>
    refine ih (keeps st c (inside c mem_cons_self) elsewhere) fun c' member => ?_
    exact inside c' (mem_cons_of_mem _ member)

end Elsewhere

/-! ## All parked approvals -/

/-- The dispatches of one key among those of a list of keys. -/
theorem filter_handedOn {d : Dispatch} (handed : handedOn E db C1Data c = some d) (keys : List Text) :
    (keys.filterMap (handedOn E db C1Data)).filter (fun d => d.c1data = c) =
      List.replicate (keys.count c) d := by
  have key_of : ∀ {c' : Text} {d' : Dispatch}, handedOn E db C1Data c' = some d' → d'.c1data = c' := by
    intro c' d' handed'
    obtain ⟨raw, -, rfl⟩ := map_eq_some_iff.mp handed'
    rfl
  induction keys with
  | nil => rfl
  | cons c' rest ih =>
    by_cases same : c' = c
    · rw [same, filterMap_cons_some handed, filter_cons_of_pos (by simp [key_of handed]),
        ih, count_cons_self, replicate_succ]
    · rw [count_cons_of_ne same, ← ih]
      cases other : handedOn E db C1Data c' with
      | none => rw [filterMap_cons_none other]
      | some d' =>
        rw [filterMap_cons_some other, filter_cons_of_neg (by simp [key_of other, same])]

variable (E db) in
/-- The condition under which the loop hands on every parked approval once.  `ahead`: after a key at
which it returns there is no entry that was not before it.  `once`: up to there no key with an
entry is listed twice. -/
structure GetsToEach (C1Data : Text → Option Text) (keys : List Text) : Prop where
  ahead : ∀ pre c post, keys = pre ++ c :: post → stops E db C1Data c = true →
    ∀ c' ∈ post, (C1Data c').isSome → c' ∈ pre ++ [c]
  once : ∀ pre c post, keys = pre ++ c :: post → (∀ c' ∈ pre, stops E db C1Data c' = false) →
    (C1Data c).isSome → c ∉ pre

/-- The loop gets to a key exactly if no key before it stops. -/
theorem prefix_visited_iff (pre : List Text) (c : Text) (post : List Text) :
    pre ++ [c] <+: visited E db C1Data (pre ++ c :: post) ↔ ∀ c' ∈ pre, stops E db C1Data c' = false := by
  induction pre with
  | nil => simp [visited]
  | cons a pre ih =>
    rw [cons_append, cons_append, visited, forall_mem_cons]
    cases stop : stops E db C1Data a <;> simp [ih]

/-- It gets no further than to a stop. -/
theorem visited_upto (pre : List Text) {post : List Text} (stop : stops E db C1Data c = true) :
    visited E db C1Data (pre ++ c :: post) <+: pre ++ [c] := by
  induction pre with
  | nil => simp [visited_of_stops stop]
  | cons a pre ih =>
    rw [cons_append, visited]
    cases stop_a : stops E db C1Data a <;> simp [ih]

variable (E db C1Data) in
theorem visited_split (keys : List Text) : visited E db C1Data keys = keys ∨
    ∃ pre c post, keys = pre ++ c :: post ∧ stops E db C1Data c = true ∧
      visited E db C1Data keys = pre ++ [c] := by
  induction keys with
  | nil => exact .inl rfl
  | cons c rest ih =>
    cases stop : stops E db C1Data c with
    | true => exact .inr ⟨[], c, rest, rfl, stop, visited_of_stops stop⟩
    | false =>
      rw [visited_of_goes stop]
      rcases ih with all | ⟨pre, c₀, post, rfl, stop₀, seen⟩
      · exact .inl (by rw [all])
      · exact .inr ⟨c :: pre, c₀, post, rfl, stop₀, by rw [seen]; rfl⟩

variable (E db C1Data) in
theorem visited_prefix_keys (keys : List Text) : visited E db C1Data keys <+: keys := by
  rcases visited_split E db C1Data keys with all | ⟨pre, c, post, split, -, seen⟩
  · rw [all]
  · rw [seen, split]
    exact ⟨post, by simp⟩

/-- No key with an entry comes again. -/
theorem nodup_filter_iff {p : Text → Bool} {l : List Text} :
    (l.filter p).Nodup ↔ ∀ pre c post, l = pre ++ c :: post → p c = true → c ∉ pre := by
  constructor
  · rintro distinct pre c post rfl holds member
    rw [filter_append, filter_cons_of_pos holds] at distinct
    have apart := disjoint_of_nodup_append distinct
    exact apart (mem_filter.mpr ⟨member, holds⟩) mem_cons_self
  · intro fresh
    induction l using List.reverseRecOn with
    | nil => exact nodup_nil
    | append_singleton l c ih =>
      have rest : (l.filter p).Nodup := by
        refine ih fun pre c' post split => fresh pre c' (post ++ [c]) ?_
        rw [split, append_assoc]
        rfl
      rw [filter_append]
      by_cases holds : p c = true
      · rw [filter_cons_of_pos holds]
        refine nodup_append_comm.mp (nodup_cons.mpr ⟨fun member => ?_, rest⟩)
        exact fresh l c [] rfl holds (mem_of_mem_filter member)
      · rw [filter_cons_of_neg holds, filter_nil, append_nil]
        exact rest

theorem getsToEach_iff :
    GetsToEach E db C1Data keys ↔
      (∀ c ∈ keys, (C1Data c).isSome → c ∈ visited E db C1Data keys) ∧
        ((visited E db C1Data keys).filter fun c => (C1Data c).isSome).Nodup := by
  rw [nodup_filter_iff]
  constructor
  · intro gets
    refine ⟨fun c member parked => ?_, fun pre c post seen parked => ?_⟩
    · rcases visited_split E db C1Data keys with all | ⟨pre, c₀, post, rfl, stop, seen⟩
      · rwa [all]
      · rw [seen]
        rcases mem_append.mp member with early | late
        · exact mem_append_left _ early
        · rcases mem_cons.mp late with rfl | after
          · simp
          · exact gets.ahead pre c₀ post rfl stop c after parked
    · obtain ⟨more, keys_eq⟩ := visited_prefix_keys E db C1Data keys
      rw [seen, append_assoc, cons_append] at keys_eq
      refine gets.once pre c _ keys_eq.symm ((prefix_visited_iff pre c (post ++ more)).mp ?_) parked
      rw [keys_eq, seen]
      exact ⟨post, by simp⟩
  · rintro ⟨reached, fresh⟩
    refine ⟨fun pre c post split stop c' after parked => ?_, fun pre c post split goes parked => ?_⟩
    · subst split
      exact (visited_upto pre stop).mem (reached c' (by simp [after]) parked)
    · subst split
      obtain ⟨more, seen⟩ := (prefix_visited_iff pre c post).mpr goes
      exact fresh pre c more (by rw [← seen]; simp) parked

theorem getsToEach_iff_count :
    GetsToEach E db C1Data keys ↔
      ∀ c ∈ keys, (C1Data c).isSome → (visited E db C1Data keys).count c = 1 := by
  have counted : ∀ c, (C1Data c).isSome = true →
      ((visited E db C1Data keys).filter fun c => (C1Data c).isSome).count c =
        (visited E db C1Data keys).count c :=
    fun c parked => count_filter parked
  rw [getsToEach_iff]
  constructor
  · rintro ⟨reached, distinct⟩ c member parked
    rw [← counted c parked]
    exact count_eq_one_of_mem distinct
      (mem_filter.mpr ⟨reached c member parked, parked⟩)
  · intro once
    refine ⟨fun c member parked => ?_, nodup_iff_count_le_one.mpr fun c => ?_⟩
    · rw [← count_pos_iff, once c member parked]
      exact Nat.one_pos
    · by_cases seen : c ∈ (visited E db C1Data keys).filter fun c => (C1Data c).isSome
      · obtain ⟨member, parked⟩ := mem_filter.mp seen
        rw [counted c parked, once c ((visited_prefix_keys ..).mem member) parked]
      · rw [count_eq_zero.mpr seen]
        exact Nat.zero_le _

/-- What the whole function has handed on under a key that only the loop reads. -/
theorem dispatched_of_handleC1Data {ac : AcceptReqAddrData} {key : Text} {d : Dispatch}
    (named : key ≠ [])
    (apart : ∀ c ∈ (accounts ac.Sigs).map (acceptKey E key),
      c ∉ roundKeys E key ac.GroupID ++ edKeys E key ac.GroupID)
    (listed : c ∈ (accounts ac.Sigs).map (acceptKey E key))
    (handed : handedOn E db C1Data c = some d)
    (settled : runs = (fun _ _ => false) ∨ GetsToEach E db C1Data ((accounts ac.Sigs).map (acceptKey E key))) :
    (HandleC1Data E db runs started ac key true (State.parked C1Data)).dispatched.filter
        (fun d => d.c1data = c) =
      List.replicate
        ((visited E db C1Data ((accounts ac.Sigs).map (acceptKey E key))).count c) d := by
  have elsewhere : Elsewhere C1Data (roundKeys E key ac.GroupID ++ edKeys E key ac.GroupID)
      ((edKeys E key ac.GroupID).foldl (handleED runs)
        ((roundKeys E key ac.GroupID).foldl (Handle runs started) (State.parked C1Data))) := by
    refine Elsewhere.foldl (Elsewhere.foldl elsewhere_parked ?_ ?_) ?_ ?_
    · exact fun st c inside elsewhere => elsewhere.handle inside
    · exact fun c member => mem_append_left _ member
    · exact fun st c inside elsewhere => elsewhere.handleED inside
    · exact fun c member => mem_append_right _ member
  unfold HandleC1Data
  rw [if_neg (by simp [named])]
  simp only
  revert elsewhere
  generalize (edKeys E key ac.GroupID).foldl (handleED runs) _ = st
  intro elsewhere
  have dispatched : (acceptLoop E db runs ((accounts ac.Sigs).map (acceptKey E key)) st).dispatched =
      st.dispatched ++ (visited E db C1Data ((accounts ac.Sigs).map (acceptKey E key))).filterMap
        (handedOn E db C1Data) := by
    rcases settled with rfl | gets
    · exact acceptLoop_unremoved fun c member => elsewhere.same c (apart c member)
    · refine acceptLoop_dispatched (fun c member => .inr ⟨?_, fun deleted => ?_⟩)
        (getsToEach_iff.mp gets).2
      · exact elsewhere.same c (apart c ((visited_prefix_keys ..).mem member))
      · exact apart c ((visited_prefix_keys ..).mem member) (elsewhere.deletes c deleted)
  have none_before : st.dispatched.filter (fun d => d.c1data = c) = [] := by
    refine filter_eq_nil_iff.mpr fun d' member => ?_
    simp only [decide_eq_true_eq]
    rintro rfl
    exact apart _ listed (elsewhere.dispatched d' member)
  rw [dispatched, filter_append, none_before, nil_append, filter_handedOn handed]

/-- Every parked approval of a listed account is handed to an approval function exactly once, in
every order of the removals, exactly if the loop gets to each of them. -/
theorem accepts_dispatched_iff (E : Env) (db : Db) (ac : AcceptReqAddrData) (key : Text)
    (C1Data : Text → Option Text) (named : key ≠ [])
    (apart : ∀ c ∈ (accounts ac.Sigs).map (acceptKey E key),
      c ∉ roundKeys E key ac.GroupID ++ edKeys E key ac.GroupID) :
    (∀ runs started, ∀ account ∈ accounts ac.Sigs, ∀ raw,
      C1Data (acceptKey E key account) = some raw →
        ∃ receiver : Receiver, receiver.approves = true ∧
          (HandleC1Data E db runs started ac key true (State.parked C1Data)).dispatched.filter
            (fun d => d.c1data = acceptKey E key account) =
            [⟨acceptKey E key account, raw, receiver⟩]) ↔
      GetsToEach E db C1Data ((accounts ac.Sigs).map (acceptKey E key)) := by
  constructor
  · intro once
    refine getsToEach_iff_count.mpr fun c listed parked => ?_
    obtain ⟨raw, parked⟩ := isSome_iff_exists.mp parked
    obtain ⟨account, member, rfl⟩ := mem_map.mp listed
    have handed : handedOn E db C1Data (acceptKey E key account) =
        some ⟨acceptKey E key account, raw, receiverOf E db raw⟩ := by simp [handedOn, parked]
    obtain ⟨receiver, -, only⟩ := once (fun _ _ => false) (fun _ => false) account member raw parked
    rw [dispatched_of_handleC1Data named apart listed handed (.inl rfl)] at only
    have lengths := congrArg List.length only
    rwa [length_replicate] at lengths
  · intro gets runs started account member raw parked
    have listed : acceptKey E key account ∈ (accounts ac.Sigs).map (acceptKey E key) :=
      mem_map_of_mem member
    have handed : handedOn E db C1Data (acceptKey E key account) =
        some ⟨acceptKey E key account, raw, receiverOf E db raw⟩ := by simp [handedOn, parked]
    refine ⟨receiverOf E db raw, receiverOf_approves raw, ?_⟩
    rw [dispatched_of_handleC1Data named apart listed handed (.inr gets),
      getsToEach_iff_count.mp gets _ listed (by simp [parked])]
    rfl

end

/-! ## Two approvals

A key generation of two nodes with the accounts `x` and `y`, mode 0.  The text of an approval is its
sender. -/

namespace TwoAccounts

def env : Env where
  folding := lowerFolding
  ToLower := List.map Char.toLower
  Keccak256Hash := id
  digest _ _ := 0
  groups _ := []
  enode_length := by simp
  decode raw := some ⟨raw, 0, .acceptReqAddr ⟨['k'], AGREE, ['1']⟩⟩
  curEnode := ['e']
  MaxAcceptTime := 0

def record : AcceptReqAddrData where
  Account := ['x']
  GroupID := ['g']
  LimitNum := ['2', '/', '2']
  Mode := mode0
  Sigs := [['2'], ['e', '1'], ['x'], ['e', '2'], ['y']]

def db : Db where
  pubKey _ := none
  signInfo _ := none
  reqAddrInfo _ := some (.acceptReqAddr record)

/-- The approvals of the accounts in `senders` are parked. -/
def parked (senders : List Text) (c : Text) : Option Text :=
  senders.find? fun account => c = acceptKey env ['k'] account

theorem apart : ∀ c ∈ (accounts record.Sigs).map (acceptKey env ['k']),
    c ∉ roundKeys env ['k'] record.GroupID ++ edKeys env ['k'] record.GroupID := by
  decide +kernel

theorem accepts_dispatched_iff_one_parked :
    (['k'] : Text) ≠ [] ∧
    ((∀ runs started, ∀ account ∈ accounts record.Sigs, ∀ raw,
      parked [['y']] (acceptKey env ['k'] account) = some raw →
        ∃ receiver : Receiver, receiver.approves = true ∧
          (HandleC1Data env db runs started record ['k'] true
            (State.parked (parked [['y']]))).dispatched.filter
            (fun d => d.c1data = acceptKey env ['k'] account) =
            [⟨acceptKey env ['k'] account, raw, receiver⟩]) ↔
      GetsToEach env db (parked [['y']]) ((accounts record.Sigs).map (acceptKey env ['k']))) :=
  ⟨by decide, accepts_dispatched_iff env db record ['k'] (parked [['y']]) (by decide) apart⟩

/-- The approval of `y` stays in the map. -/
theorem second_approval_left :
    ∃ runs started, ∃ account ∈ accounts record.Sigs, ∃ raw,
      parked [['x'], ['y']] (acceptKey env ['k'] account) = some raw ∧
        (HandleC1Data env db runs started record ['k'] true
          (State.parked (parked [['x'], ['y']]))).dispatched.filter
          (fun d => d.c1data = acceptKey env ['k'] account) = [] := by
  refine ⟨fun _ _ => true, fun _ => false, ['y'], by decide, ['y'], by decide +kernel, ?_⟩
  decide +kernel

end TwoAccounts

end ThresholdDsa.Smpc.Parking
