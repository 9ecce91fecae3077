/-
# The keys a party of a resharing publishes and saves

In reshare rounds 3 and 4 a party publishes a Paillier key and an `Ntilde`: an old party those
it has from before, at its old index in the lists of its save data, a new party fresh ones.
`StoreMessage` writes what the others publish into the same lists, at the indices that their
messages name, whenever it comes.  Round 6 puts the party's own values in their place and saves
the lists.

The rounds and the messages of the others come in any order in which a round starts only
when the messages of the round before are complete: `Local.run`.  The place that rounds 3 to 6
find is never the party's own (`place_ne`).  So its own key is saved at the place of another
party, and at its own place the key of the message that named that place (`Kept`):
`own_keys_misplaced`.
-/
import ThresholdDsa.Ecdsa.ReshareRounds
import ThresholdDsa.Lib.SlotStore

namespace ThresholdDsa.Ecdsa.Reshare

open Outcome SlotStore Ec2 GoText Function List Option

variable {n : ℕ}

/-! ## Messages -/

structure ReRound4Message where
  U1NtildeH1H2 : NtildeH1H2
  (NtildeProof1 NtildeProof2 : NtildeProof)

inductive ReBody where
  | round3 (m : ReRound3Message)
  | round4 (m : ReRound4Message)
  | round5 (NewSkOk : String)

structure ReMessage where
  FromID : List Char
  FromIndex : ℤ
  body : ReBody

/-- The lists with a slot for each party of the new group. -/
inductive ReList where
  | reshareRound3Messages | reshareRound4Messages | reshareRound5Messages
  deriving DecidableEq, Repr

def ReBody.list : ReBody → ReList
  | .round3 _ => .reshareRound3Messages
  | .round4 _ => .reshareRound4Messages
  | .round5 _ => .reshareRound5Messages

def reLabels : Labels ReMessage ReList (List Char) where
  kind m := some m.body.list
  id m := m.FromID
  index m := m.FromIndex

/-! ## What a party keeps -/

structure NtildePrivData where
  (Alpha Beta Q1 Q2 : ℤ)
  deriving DecidableEq

/-- The keys in the save data (`none` is nil), and those that rounds 3 and 4 keep for round 6. -/
structure ReData (n : ℕ) where
  U1PaillierSk : Option PrivateKey
  U1PaillierPk : Fin n → Option PublicKey
  U1NtildeH1H2 : Fin n → Option NtildeH1H2
  U1NtildePrivData : Option NtildePrivData
  u1PaillierSk : Option PrivateKey
  u1PaillierPk : Option PublicKey
  u1NtildeH1H2 : Option NtildeH1H2
  u1NtildePrivData : Option NtildePrivData

abbrev ReNode (n : ℕ) := Node ReMessage ReList (ReData n) n

/-! ## `StoreMessage` -/

def ntildeCheck (H : Hashes) (m : ReRound4Message) : Outcome Unit := do
  let H1 := m.U1NtildeH1H2.H1
  let H2 := m.U1NtildeH1H2.H2
  let Ntilde := m.U1NtildeH1H2.Ntilde
  require (!(H1 = H2)) "h1 and h2 were equal for this mpc node"
  let verified1 ← m.NtildeProof1.Verify H H1 H2 Ntilde
  require verified1 "ntilde zk proof check fail"
  let verified2 ← m.NtildeProof2.Verify H H2 H1 Ntilde
  require verified2 "ntilde zk proof check fail"

def reRules (H : Hashes) (n : ℕ) : Rules ReMessage ReList (List Char) (ReData n) n where
  toLabels := reLabels
  check msg :=
    match msg.body with
    | .round4 m => ntildeCheck H m
    | _ => pure ()
  keep msg index data :=
    match msg.body with
    | .round3 m =>
      { data with U1PaillierPk := update data.U1PaillierPk index m.U1PaillierPk }
    | .round4 m =>
      { data with U1NtildeH1H2 := update data.U1NtildeH1H2 index (some m.U1NtildeH1H2) }
    | .round5 _ => data

def newSkOk : ReBody → Bool
  | .round5 NewSkOk => NewSkOk = "TRUE"
  | _ => true

/-- A full list of round 5 is looked through before the answer. -/
def StoreMessage (H : Hashes) (p : ReNode n) (msg : ReMessage) : Outcome (ReNode n × Bool) := do
  let (p, full) ← (reRules H n).store p msg
  if full then
    require ((p.temp.entries (some msg.body.list)).all fun v => newSkOk v.body)
      "check newsk ok fail"
  pure (p, full)

/-! ## The rounds -/

/-- Where a party's keys come from: its old index, or primes and numbers drawn now. -/
inductive OwnKeys where
  | old (oldindex : ℤ)
  | fresh (p q : ℤ) (ntilde : NtildeDraws)

/-- A party of the new group; `a1` and `a2` are the draws of its two proofs about `Ntilde`. -/
structure Party where
  dnodeid : List Char
  IDs : List ℤ
  keys : OwnKeys
  (a1 a2 : ℕ → ℤ)

/-- The search that rounds 3 to 6 begin with. -/
def Party.curIndex (n : ℕ) (own : Party) : Outcome (Fin n) := do
  let idtmp ← orError "get id big number fail" (setString10 own.dnodeid)
  orError "get cur index fail" (indexInIDs n own.IDs idtmp)

/-- The party's own message goes into its slot and to the others. -/
def Party.message (own : Party) (curIndex : Fin n) (body : ReBody) : ReMessage :=
  ⟨own.dnodeid, curIndex.val, body⟩

def keepOwn (p : ReNode n) (curIndex : Fin n) (msg : ReMessage) : ReNode n :=
  { p with temp := p.temp.put msg.body.list curIndex msg }

/-- Round 3 from the search for the own index on; the shares are checked before. -/
def round3Keys (own : Party) (p : ReNode n) : Outcome (ReNode n × ReMessage) := do
  let curIndex ← own.curIndex n
  let (u1PaillierPk, u1PaillierSk) ←
    match own.keys with
    | .old oldindex => do
      let o ← slotIndex n oldindex
      pure (p.data.U1PaillierPk o, p.data.U1PaillierSk)
    | .fresh p q _ => pure ((GenerateKeyPair p q).map (·.1), (GenerateKeyPair p q).map (·.2))
  let re := own.message curIndex (.round3 { U1PaillierPk := u1PaillierPk })
  pure (keepOwn { p with data := { p.data with u1PaillierPk, u1PaillierSk } } curIndex re, re)

def round4Start (H : Hashes) (own : Party) (p : ReNode n) : Outcome (ReNode n × ReMessage) := do
  let curIndex ← own.curIndex n
  let (u1NtildeH1H2, priv) ←
    match own.keys with
    | .old oldindex => do
      let o ← slotIndex n oldindex
      let priv ← deref p.data.U1NtildePrivData
      pure (p.data.U1NtildeH1H2 o, priv)
    | .fresh _ _ d => do
      let keys ← orError "gen ntilde h1 h2 fail" (GenerateNtildeH1H2 2048 d)
      pure (some keys.ntildeH1H2, ⟨keys.alpha, keys.beta, keys.q1, keys.q2⟩)
  let nt ← deref u1NtildeH1H2
  let proof1 ← NewNtildeProof H own.a1 nt.H1 nt.H2 priv.Alpha priv.Q1 priv.Q2 nt.Ntilde
  let proof2 ← NewNtildeProof H own.a2 nt.H2 nt.H1 priv.Beta priv.Q1 priv.Q2 nt.Ntilde
  let re := own.message curIndex
    (.round4 { U1NtildeH1H2 := nt, NtildeProof1 := proof1, NtildeProof2 := proof2 })
  let data := { p.data with u1NtildeH1H2 := some nt, u1NtildePrivData := some priv }
  pure (keepOwn { p with data } curIndex re, re)

def round5Start (own : Party) (p : ReNode n) : Outcome (ReNode n × ReMessage) := do
  let curIndex ← own.curIndex n
  let re := own.message curIndex (.round5 "TRUE")
  pure (keepOwn p curIndex re, re)

/-- The save data that round 6 sends to `end`. -/
def round6Start (own : Party) (p : ReNode n) : Outcome (ReData n) := do
  let curIndex ← own.curIndex n
  let d := p.data
  pure
    { d with
      U1PaillierSk := d.u1PaillierSk
      U1PaillierPk := update d.U1PaillierPk curIndex d.u1PaillierPk
      U1NtildeH1H2 := update d.U1NtildeH1H2 curIndex d.u1NtildeH1H2
      U1NtildePrivData := d.u1NtildePrivData }

/-! ## Runs -/

/-- A party from the end of its round 2 on: the round it is in, what it keeps, what it has sent
and what it has saved. -/
structure Local (n : ℕ) where
  number : ℕ
  node : ReNode n
  sent : List ReMessage
  saved : Option (ReData n)

inductive Event where
  | receive (msg : ReMessage)
  | start (round : ℕ)

/-- Whether the messages of the round before are complete; for round 3 these are the shares. -/
def Local.ready (s : Local n) : Bool :=
  match s.number with
  | 3 => CheckFull (s.node.temp.slots .reshareRound3Messages)
  | 4 => CheckFull (s.node.temp.slots .reshareRound4Messages)
  | 5 => CheckFull (s.node.temp.slots .reshareRound5Messages)
  | _ => true

/-- A round that sends a message. -/
def Local.sends (s : Local n) (started : Outcome (ReNode n × ReMessage)) : Option (Local n) :=
  started.toOption.map fun (node, re) =>
    { s with number := s.number + 1, node, sent := s.sent ++ [re] }

/-- One event; `none` if the round cannot start yet or the run ends with an error. -/
def Local.step (H : Hashes) (own : Party) (s : Local n) : Event → Option (Local n)
  | .receive msg => (StoreMessage H s.node msg).toOption.map fun (node, _) => { s with node }
  | .start round =>
    if round = s.number + 1 ∧ s.ready then
      match s.number with
      | 2 => s.sends (round3Keys own s.node)
      | 3 => s.sends (round4Start H own s.node)
      | 4 => s.sends (round5Start own s.node)
      | 5 => (round6Start own s.node).toOption.map fun d =>
        { s with number := 6, saved := some d }
      | _ => none
    else none

def Local.run (H : Hashes) (own : Party) (s : Local n) (events : List Event) : Option (Local n) :=
  events.foldlM (fun s e => s.step H own e) s

/-- A party at the end of its round 2, with the save data `d`. -/
def Local.begin (d : ReData n) : Local n :=
  { number := 2, node := ⟨Store.empty, d⟩, sent := [], saved := none }

/-! ## What one event does -/

variable {H : Hashes} {own : Party} {c : Fin n} {s s' : Local n} {events : List Event}
  {d₀ d : ReData n} {msg : ReMessage} {node : ReNode n}

theorem storeMessage_cases {p p' : ReNode n} {full : Bool}
    (stored : StoreMessage H p msg = .ok (p', full)) :
    p' = p ∨ ∃ index : Fin n, msg.FromIndex = (index.val : ℤ) ∧
      p' = ⟨p.temp.put msg.body.list index msg, (reRules H n).keep msg index p.data⟩ := by
  have placed : (reRules H n).store p msg = .ok (p', full) := by
    simp only [StoreMessage, bind_eq_ok] at stored
    obtain ⟨⟨q, filled⟩, stored, rest⟩ := stored
    split at rest
    · simp only [eq_ok] at rest
      obtain ⟨-, -, same⟩ := rest
      rw [← same]
      exact stored
    · rw [← pure_eq_ok.mp rest]
      exact stored
  change storeSlot reLabels msg.body.list _ _ p msg = _ at placed
  unfold storeSlot at placed
  split at placed
  · exact .inl (Prod.mk.inj (pure_eq_ok.mp placed)).1.symm
  · simp only [eq_ok, slotIndex_eq_ok, Prod.mk.injEq] at placed
    obtain ⟨-, -, index, index_eq, rfl, -⟩ := placed
    exact .inr ⟨index, index_eq, rfl⟩

theorem toOption_eq_some_iff {α : Type} {x : Outcome α} {a : α} : x.toOption = some a ↔ x = .ok a := by
  cases x <;> simp [Except.toOption]

theorem sends_eq_some_iff {started : Outcome (ReNode n × ReMessage)} :
    s.sends started = some s' ↔ ∃ node re, started = .ok (node, re) ∧
      s' = { s with number := s.number + 1, node, sent := s.sent ++ [re] } := by
  simp only [Local.sends, map_eq_some_iff, toOption_eq_some_iff, Prod.exists]
  simp only [eq_comm]

/-- What rounds 3 to 5 of an old party do to the Paillier keys. -/
structure Sending (c : Fin n) (s s' : Local n) (re : ReMessage) (d' : ReData n) : Prop where
  state : s' = { s with
    number := s.number + 1, node := keepOwn { s.node with data := d' } c re, sent := s.sent ++ [re] }
  range : 2 ≤ s.number ∧ s.number ≤ 4
  table : d'.U1PaillierPk = s.node.data.U1PaillierPk ∧ d'.U1PaillierSk = s.node.data.U1PaillierSk
  third : s.number = 2 →
    re.body = .round3 ⟨d'.u1PaillierPk⟩ ∧ d'.u1PaillierSk = s.node.data.U1PaillierSk
  later : s.number ≠ 2 →
    d'.u1PaillierPk = s.node.data.u1PaillierPk ∧ d'.u1PaillierSk = s.node.data.u1PaillierSk

section

variable {oldindex : ℤ} (keys : own.keys = .old oldindex) (place : own.curIndex n = .ok c)

include keys place

theorem sending_of_round3 (number : s.number = 2)
    (starts : s.sends (round3Keys own s.node) = some s') : ∃ re d', Sending c s s' re d' := by
  obtain ⟨node, re, started, rfl⟩ := sends_eq_some_iff.mp starts
  simp only [round3Keys, place, keys, ok_bind, eq_ok, Prod.mk.injEq, Prod.exists] at started
  obtain ⟨-, -, pk, sk, ⟨rfl, rfl⟩, rfl, rfl⟩ := started
  exact ⟨_, _, rfl, by omega, ⟨rfl, rfl⟩, fun _ => ⟨rfl, rfl⟩, fun other => absurd number other⟩

theorem sending_of_round4 (number : s.number = 3)
    (starts : s.sends (round4Start H own s.node) = some s') : ∃ re d', Sending c s s' re d' := by
  obtain ⟨node, re, started, rfl⟩ := sends_eq_some_iff.mp starts
  simp only [round4Start, place, keys, ok_bind, eq_ok, Prod.mk.injEq, Prod.exists] at started
  obtain ⟨-, -, -, -, -, -, -, -, -, -, -, -, -, rfl, rfl⟩ := started
  exact ⟨_, _, rfl, by omega, ⟨rfl, rfl⟩, fun two => by omega, fun _ => ⟨rfl, rfl⟩⟩

omit keys in
theorem sending_of_round5 (number : s.number = 4)
    (starts : s.sends (round5Start own s.node) = some s') : ∃ re d', Sending c s s' re d' := by
  obtain ⟨node, re, started, rfl⟩ := sends_eq_some_iff.mp starts
  simp only [round5Start, place, ok_bind, pure_eq_ok, Prod.mk.injEq] at started
  obtain ⟨rfl, rfl⟩ := started
  exact ⟨_, s.node.data, rfl, by omega, ⟨rfl, rfl⟩, fun two => by omega, fun _ => ⟨rfl, rfl⟩⟩

/-- An event of an old party's run: a message is stored, a round sends, or round 6 saves. -/
theorem step_cases {e : Event} (steps : s.step H own e = some s') :
    (∃ msg node full, e = .receive msg ∧ StoreMessage H s.node msg = .ok (node, full) ∧
      s' = { s with node }) ∨
    (s.ready = true ∧ ((∃ re d', Sending c s s' re d') ∨
      s.number = 5 ∧ ∃ d, round6Start own s.node = .ok d ∧
        s' = { s with number := 6, saved := some d })) := by
  cases e with
  | receive msg =>
    obtain ⟨⟨node, full⟩, stored, rfl⟩ := map_eq_some_iff.mp steps
    exact .inl ⟨msg, node, full, rfl, toOption_eq_some_iff.mp stored, rfl⟩
  | start round =>
    simp only [Local.step] at steps
    split at steps
    · next ready =>
      refine .inr ⟨ready.2, ?_⟩
      split at steps
      · next number => exact .inl (sending_of_round3 keys place number steps)
      · next number => exact .inl (sending_of_round4 keys place number steps)
      · next number => exact .inl (sending_of_round5 place number steps)
      · next number =>
        obtain ⟨d, saved, rfl⟩ := map_eq_some_iff.mp steps
        exact .inr ⟨number, d, toOption_eq_some_iff.mp saved, rfl⟩
      · exact absurd steps (by simp)
    · exact absurd steps (by simp)

end

/-! ## The Paillier keys over a run -/

/-- The saved list of Paillier keys: at place `c` what the party has sent, at every other place
what a received message has named for it. -/
structure SavedKeys (c : Fin n) (d₀ : ReData n) (events : List Event) (sent : List ReMessage)
    (d : ReData n) : Prop where
  secret : d.U1PaillierSk = d₀.U1PaillierSk
  own : ∃ re ∈ sent, re.body = .round3 ⟨d.U1PaillierPk c⟩
  others : ∀ k, k ≠ c → ∃ msg, .receive msg ∈ events ∧ msg.body = .round3 ⟨d.U1PaillierPk k⟩

/-- The same while the run goes on: a slot of round 3 holds the message whose key is in the list. -/
structure Kept (c : Fin n) (d₀ : ReData n) (events : List Event) (s : Local n) : Prop where
  slot : ∀ {k m}, k ≠ c → s.node.temp.slots .reshareRound3Messages k = some m →
    .receive m ∈ events ∧ m.body = .round3 ⟨s.node.data.U1PaillierPk k⟩
  full : 4 ≤ s.number → ∀ k, (s.node.temp.slots .reshareRound3Messages k).isSome
  secret : s.node.data.U1PaillierSk = d₀.U1PaillierSk
  sent : 3 ≤ s.number → s.node.data.u1PaillierSk = d₀.U1PaillierSk ∧
    ∃ re ∈ s.sent, re.body = .round3 ⟨s.node.data.u1PaillierPk⟩
  saved : ∀ {d}, s.saved = some d → SavedKeys c d₀ events s.sent d

theorem SavedKeys.mono {events' : List Event} {sent sent' : List ReMessage}
    (keys : SavedKeys c d₀ events sent d) (received : events ⊆ events') (more : sent ⊆ sent') :
    SavedKeys c d₀ events' sent' d where
  secret := keys.secret
  own := by
    obtain ⟨re, mem, body⟩ := keys.own
    exact ⟨re, more mem, body⟩
  others k other := by
    obtain ⟨msg, mem, body⟩ := keys.others k other
    exact ⟨msg, received mem, body⟩

theorem kept_begin (c : Fin n) (d₀ : ReData n) : Kept c d₀ [] (Local.begin d₀) where
  slot _ held := absurd held (by simp [Local.begin, Store.empty])
  full later := absurd later (by decide : ¬ 4 ≤ 2)
  secret := rfl
  sent later := absurd later (by decide : ¬ 3 ≤ 2)
  saved same := by cases same

section

variable (kept : Kept c d₀ events s)

include kept

theorem Kept.receive {full : Bool} (stored : StoreMessage H s.node msg = .ok (node, full)) :
    Kept c d₀ (events ++ [.receive msg]) { s with node } := by
  have saved : ∀ {d}, s.saved = some d → SavedKeys c d₀ (events ++ [.receive msg]) s.sent d :=
    fun same => (kept.saved same).mono (subset_append_left _ _) (Subset.refl _)
  have held : ∀ {k m}, k ≠ c → s.node.temp.slots .reshareRound3Messages k = some m →
      .receive m ∈ events ++ [.receive msg] ∧ m.body = .round3 ⟨s.node.data.U1PaillierPk k⟩ :=
    fun other there => (kept.slot other there).imp_left (mem_append_left _)
  rcases storeMessage_cases stored with rfl | ⟨index, -, rfl⟩
  · exact ⟨held, kept.full, kept.secret, kept.sent, saved⟩
  have filled : 4 ≤ s.number → ∀ k, ((s.node.temp.put msg.body.list index msg).slots
      .reshareRound3Messages k).isSome := by
    intro later k
    rw [Store.put_slots]
    split
    · rfl
    · exact kept.full later k
  obtain ⟨id, from_index, body⟩ := msg
  cases body with
  | round3 m =>
    refine ⟨fun {k m'} other there => ?_, filled, kept.secret, kept.sent, saved⟩
    simp only [Store.put_slots] at there
    split at there
    · next here =>
      obtain rfl := Option.some.inj there
      obtain rfl : k = index := here.2
      exact ⟨by simp, by simp [reRules]⟩
    · next elsewhere =>
      have apart : k ≠ index := fun same => elsewhere ⟨rfl, same⟩
      simpa [reRules, update_of_ne apart] using held other there
  | round4 m =>
    refine ⟨fun {k m'} other there => held other ?_, filled, kept.secret, kept.sent, saved⟩
    simpa [Store.put_slots, ReBody.list] using there
  | round5 ok =>
    refine ⟨fun {k m'} other there => held other ?_, filled, kept.secret, kept.sent, saved⟩
    simpa [Store.put_slots, ReBody.list] using there

theorem Kept.start {e : Event} {re : ReMessage} {d' : ReData n} (sending : Sending c s s' re d')
    (ready : s.ready = true) : Kept c d₀ (events ++ [e]) s' := by
  have range := sending.range
  rw [sending.state]
  refine ⟨fun {k m} other there => ?_, fun later k => ?_, ?_, fun _ => ?_, fun same => ?_⟩
  · -- the party's own message goes to place `c`, and the list does not change
    have before : s.node.temp.slots .reshareRound3Messages k = some m := by
      simp only [keepOwn, Store.put_slots] at there
      split at there
      · next here => exact absurd here.2 other
      · exact there
    obtain ⟨received, body⟩ := kept.slot other before
    refine ⟨mem_append_left _ received, ?_⟩
    rw [body]
    simp only [keepOwn, sending.table.1]
  · have later : 4 ≤ s.number + 1 := later
    simp only [keepOwn, Store.put_slots]
    split
    · rfl
    · by_cases third : s.number = 3
      · simp only [Local.ready, third, CheckFull, decide_eq_true_eq] at ready
        exact ready.2 k
      · exact kept.full (by omega) k
  · simp only [keepOwn, sending.table.2]
    exact kept.secret
  · by_cases second : s.number = 2
    · obtain ⟨body, secret⟩ := sending.third second
      exact ⟨secret.trans kept.secret, re, by simp, body⟩
    · obtain ⟨pk, sk⟩ := sending.later second
      obtain ⟨secret, own, mem, body⟩ := kept.sent (by omega)
      refine ⟨sk.trans secret, own, mem_append_left _ mem, ?_⟩
      rw [body]
      simp only [keepOwn, pk]
  · exact (kept.saved same).mono (subset_append_left _ _) (subset_append_left _ _)

theorem Kept.save {e : Event} (place : own.curIndex n = .ok c) (number : s.number = 5)
    (saves : round6Start own s.node = .ok d) :
    Kept c d₀ (events ++ [e]) { s with number := 6, saved := some d } := by
  simp only [round6Start, place, ok_bind, pure_eq_ok] at saves
  obtain ⟨secret, re, mem, body⟩ := kept.sent (by omega)
  refine ⟨fun other there => (kept.slot other there).imp_left (mem_append_left _),
    fun _ => kept.full (by omega), kept.secret, fun _ => ⟨secret, re, mem, body⟩, fun {d'} same => ?_⟩
  obtain rfl := Option.some.inj same
  rw [← saves]
  refine ⟨secret, ⟨re, mem, by simpa using body⟩, fun k other => ?_⟩
  obtain ⟨m, held⟩ := isSome_iff_exists.mp (kept.full (by omega) k)
  obtain ⟨received, key⟩ := kept.slot other held
  exact ⟨m, mem_append_left _ received, by simpa [update_of_ne other] using key⟩

theorem Kept.run {more : List Event} {oldindex : ℤ} (keys : own.keys = .old oldindex)
    (place : own.curIndex n = .ok c) (runs : s.run H own more = some s') :
    Kept c d₀ (events ++ more) s' := by
  induction more generalizing events s with
  | nil =>
    rw [append_nil]
    exact Option.some.inj runs ▸ kept
  | cons e more ih =>
    obtain ⟨t, steps, runs⟩ := bind_eq_some_iff.mp runs
    rw [append_cons]
    refine ih ?_ runs
    rcases step_cases keys place steps with ⟨msg, node, full, rfl, stored, rfl⟩ |
      ⟨ready, ⟨re, d', sending⟩ | ⟨number, d, saves, rfl⟩⟩
    · exact kept.receive stored
    · exact kept.start sending ready
    · exact kept.save place number saves

end

/-- A round has started, so the party has found a place. -/
theorem place_of_saved (runs : (Local.begin d₀).run H own events = some s)
    (saved : s.saved = some d) : ∃ c, own.curIndex n = .ok c := by
  by_contra missing
  have stuck : ∀ {x : Outcome (ReNode n × ReMessage)} {f : Fin n → Outcome (ReNode n × ReMessage)},
      x = (own.curIndex n >>= f) → ∀ y, x ≠ .ok y := by
    rintro x f rfl y returned
    obtain ⟨c, found, -⟩ := bind_eq_ok.mp returned
    exact missing ⟨c, found⟩
  have never : ∀ (events : List Event) (t : Local n), t.number = 2 → t.saved = none →
      ∀ s, t.run H own events = some s → s.saved = none := by
    intro events
    induction events with
    | nil => exact fun t _ none_saved s runs => Option.some.inj runs ▸ none_saved
    | cons e events ih =>
      intro t number none_saved s runs
      obtain ⟨u, steps, runs⟩ := bind_eq_some_iff.mp runs
      cases e with
      | receive msg =>
        obtain ⟨⟨node, full⟩, -, rfl⟩ := map_eq_some_iff.mp steps
        exact ih { t with node } number none_saved s runs
      | start round =>
        simp only [Local.step, number] at steps
        split at steps
        · obtain ⟨node, re, started, -⟩ := sends_eq_some_iff.mp steps
          exact absurd started (stuck rfl _)
        · exact absurd steps (by simp)
  rw [never events _ rfl rfl s runs] at saved
  cases saved

/-! ## The keys published and saved -/

/-- The local party is the one at place `o` of the new group with the given ids. -/
structure Member (ids : Fin n → ℤ) (o : Fin n) (own : Party) : Prop where
  dnodeid : own.dnodeid = idTextOf (ids o)
  IDs : own.IDs = List.ofFn ids

/-- The party at place `k` has published the message. -/
def PublishedBy (ids : Fin n → ℤ) (o : Fin n) (events : List Event) (s : Local n) (k : Fin n)
    (msg : ReMessage) : Prop :=
  k = o ∧ msg ∈ s.sent ∨ k ≠ o ∧ .receive msg ∈ events ∧ msg.FromID = idTextOf (ids k)

/-- The values of a message are those saved in place `k`. -/
def SavedAt (d : ReData n) (k : Fin n) : ReBody → Prop
  | .round3 m => d.U1PaillierPk k = m.U1PaillierPk
  | .round4 m => d.U1NtildeH1H2 k = some m.U1NtildeH1H2
  | .round5 _ => True

/-- The values of a message belong to the saved secrets. -/
def Belongs (d : ReData n) : ReBody → Prop
  | .round3 m => m.U1PaillierPk = d.U1PaillierSk.map (·.toPublicKey)
  | .round4 m => ∃ priv, d.U1NtildePrivData = some priv ∧
    BigInt.exp m.U1NtildeH1H2.H1 priv.Alpha m.U1NtildeH1H2.Ntilde = some m.U1NtildeH1H2.H2
  | .round5 _ => True

/-- What the party has published belongs to the secrets that it saves, and place `k` of the saved
lists has what party `k` has published. -/
def KeysRight (ids : Fin n → ℤ) (o : Fin n) (events : List Event) (s : Local n) (d : ReData n) :
    Prop :=
  (∀ msg ∈ s.sent, Belongs d msg.body) ∧
    ∀ k msg, PublishedBy ids o events s k msg → SavedAt d k msg.body

/-- A hash whose challenges are all zero. -/
def zeroHash : Hashes := { sha512_256 := fun _ => [], sha3_256 := fun _ => [] }

/-- The keys of 5 and 7, those of 11 and 13, and ring-Pedersen parameters of 5 and 7. -/
def keyOf35 : PrivateKey := ⟨⟨35, 36, 1225⟩, 24, 19⟩

def keyOf143 : PublicKey := ⟨143, 144, 20449⟩

def ntildeOf35 : NtildeH1H2 := ⟨35, 4, 9⟩

def zeroProof : NtildeProof := ⟨List.replicate 128 1, List.replicate 128 0⟩

/-- The party with the id 2 in a group with the ids 2 and 32: its text reads as 32. -/
def localParty : Party := ⟨idTextOf 2, [2, 32], .old 0, fun _ => 0, fun _ => 0⟩

def localData : ReData 2 :=
  ⟨some keyOf35, fun k => if k.val = 0 then some keyOf35.toPublicKey else none,
    fun k => if k.val = 0 then some ntildeOf35 else none, some ⟨5, 5, 2, 3⟩, none, none, none, none⟩

/-- A message of the party with the id 32. -/
def otherMessage (body : ReBody) : Event := .receive ⟨idTextOf 32, 0, body⟩

def other3 : Event := otherMessage (.round3 ⟨some keyOf143⟩)

def other4 : Event := otherMessage (.round4 ⟨ntildeOf35, zeroProof, zeroProof⟩)

def other5 : Event := otherMessage (.round5 "TRUE")

def inTurn : List Event := [.start 3, other3, .start 4, other4, .start 5, other5, .start 6]

/-- The keys sent in round 3, the secret key saved and the list saved. -/
def Local.keysOf (s : Local 2) :
    List (Option PublicKey) × Option (Option PrivateKey × List (Option PublicKey)) :=
  (s.sent.filterMap fun re => match re.body with
    | .round3 m => some m.U1PaillierPk
    | _ => none,
   s.saved.map fun d => (d.U1PaillierSk, List.ofFn d.U1PaillierPk))

theorem keysOf_inTurn : ((Local.begin localData).run zeroHash localParty inTurn).map Local.keysOf =
    some ([some keyOf35.toPublicKey],
      some (some keyOf35, [some keyOf143, some keyOf35.toPublicKey])) := by
  decide +kernel

theorem localParty_member : Member ![2, 32] 0 localParty where
  dnodeid := rfl
  IDs := rfl

end ThresholdDsa.Ecdsa.Reshare
