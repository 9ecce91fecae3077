/-
# Round messages that arrive before their node has started

`Call` runs once for every text from the network, in a goroutine of its own.  A
round message goes to the queue `SmpcMsg` of its session's worker if the worker is
there and its node has started, and is parked in `C1Data` otherwise.  A message
wrapped for one peer is first looked up among those the worker has seen.  When the
node has started, its goroutine replays the parked messages: `HandleC1Data` reads
`C1Data` at the keys it expects and hands on what it finds.

The calls, the assignment of the worker, the start and any number of replays are
interleaved step by step.  `early_delivered`: every message gets into the queue in
the runs in which a wrapped message finds its worker, a message is parked only
under a key that the replay reads, and no message is about to be parked under the
key that the replay is reading.  `early_lost`: without any one of these a message
stays behind.
-/
import ThresholdDsa.Smpc.C1Data

namespace ThresholdDsa.Smpc.EarlyMessages

open GoText Parking Function List

/-! ## Sessions -/

/-- What `Call` reads from a text: whether it is wrapped for this node, the fields of the message,
and the text for the worker. -/
structure Received where
  wrapped : Bool
  (FromID msgtype s : Text)

/-- A session: the texts that arrive, in any number, and the argument of `HandleC1Data`, which is
absent in resharing. -/
structure Session where
  E : Env
  key : Text
  arrives : ℕ → Text
  read : Text → Received
  ac : Option AcceptReqAddrData

namespace Session

variable (S : Session)

def message (i : ℕ) : Received := S.read (S.arrives i)

/-- The key in `C1Data` under which the message is parked. -/
def c1Key (i : ℕ) : Text := roundKey S.E S.key (S.message i).FromID (S.message i).msgtype

/-- The keys that a replay reads; in resharing it looks for approvals only. -/
def replayKeys : List Text :=
  match S.ac with
  | some ac => roundKeys S.E S.key ac.GroupID
  | none => []

def findmsg2peer (Msg2Peer : List Text) (msg : Text) : Bool :=
  msg = [] || Msg2Peer.any fun v => S.E.folding.EqualFold v msg

end Session

/-! ## Steps -/

/-- The next thing a call does.  `dropped` and `duplicate` are the returns for a wrapped message. -/
inductive CallAt where
  | arrived
  | findmsg2peer
  | append
  | find
  | test
  | send
  | park
  | returned
  | dropped
  | duplicate
  deriving DecidableEq

/-- The next thing a replay does: `Handle` for the next key looks for the worker, reads the map,
tests the node and sends. -/
inductive ReplayAt where
  | idle
  | handle (rest : List Text)
  | read (c1data : Text) (rest : List Text)
  | test (c1data val : Text) (rest : List Text)
  | send (c1data val : Text) (rest : List Text)
  deriving DecidableEq

/-- `worker` says whether `FindWorker` finds the worker, `started` whether its node has a round.
`SmpcMsg` is all that has been put into the queue. -/
structure State where
  (worker started : Bool)
  C1Data : Text → Option Text
  (SmpcMsg Msg2Peer deletes : List Text)
  calls : ℕ → CallAt
  replays : ℕ → ReplayAt

def State.initial : State where
  worker := false
  started := false
  C1Data _ := none
  SmpcMsg := []
  Msg2Peer := []
  deletes := []
  calls _ := .arrived
  replays _ := .idle

def State.call (st : State) (i : ℕ) (next : CallAt) : State :=
  { st with calls := update st.calls i next }

def State.replay (st : State) (j : ℕ) (next : ReplayAt) : State :=
  { st with replays := update st.replays j next }

inductive Action where
  | assign
  | start
  | call (i : ℕ)
  | replay (j : ℕ)
  | delete (c1data : Text)

section

variable (S : Session) (st : State)

/-- `FindWorker`, and what follows if it fails. -/
def findWorker : CallAt := if st.worker then .test else .park

def callStep (i : ℕ) : State :=
  match st.calls i with
  | .arrived =>
    if (S.message i).wrapped then st.call i (if st.worker then .findmsg2peer else .dropped)
    else st.call i (findWorker st)
  | .findmsg2peer =>
    st.call i (if S.findmsg2peer st.Msg2Peer (S.arrives i) then .duplicate else .append)
  | .append => { st.call i .find with Msg2Peer := st.Msg2Peer ++ [S.arrives i] }
  | .find => st.call i (findWorker st)
  | .test => st.call i (if st.started then .send else .park)
  | .send => { st.call i .returned with SmpcMsg := st.SmpcMsg ++ [(S.message i).s] }
  | .park =>
    { st.call i .returned with
      C1Data := update st.C1Data (S.c1Key i) (some (S.message i).s) }
  | .returned => st
  | .dropped => st
  | .duplicate => st

/-- Replay 0 is that of the node's own goroutine, which begins when the node has started; the other
calls of `HandleC1Data` come at any time. -/
def replayStep (j : ℕ) : State :=
  match st.replays j with
  | .idle =>
    if j = 0 ∧ st.started = false then st
    else st.replay j (.handle (if st.worker then S.replayKeys else []))
  | .handle [] => st
  | .handle (c1data :: rest) => st.replay j (if st.worker then .read c1data rest else .handle rest)
  | .read c1data rest =>
    match st.C1Data c1data with
    | some val => st.replay j (.test c1data val rest)
    | none => st.replay j (.handle rest)
  | .test c1data val rest => st.replay j (if st.started then .send c1data val rest else .handle rest)
  | .send c1data val rest =>
    { st.replay j (.handle rest) with
      SmpcMsg := st.SmpcMsg ++ [val]
      deletes := st.deletes ++ [c1data] }

def step : Action → State
  | .assign => { st with worker := true }
  | .start => { st with started := st.started || st.worker }
  | .call i => callStep S st i
  | .replay j => replayStep S st j
  | .delete c1data =>
    if c1data ∈ st.deletes then
      { st with
        C1Data := update st.C1Data c1data none
        deletes := st.deletes.erase c1data }
    else st

/-- A wrapped message finds its worker; a message is parked only under a key that the replay reads;
and none is about to be parked under the key that replay 0 is reading. -/
structure Careful (action : Action) : Prop where
  found : ∀ i, action = .call i → st.calls i = .arrived → (S.message i).wrapped → st.worker
  replayed : ∀ i, action = .call i → st.calls i = .park → S.c1Key i ∈ S.replayKeys
  undisturbed : ∀ c rest, action = .replay 0 → st.replays 0 = .read c rest →
    ∀ i, st.calls i = .park → S.c1Key i ≠ c

inductive CarefulRun : State → Prop
  | start : CarefulRun .initial
  | step {st : State} (run : CarefulRun st) (action : Action) (careful : Careful S st action) :
      CarefulRun (step S st action)

def steps (actions : List Action) : State := actions.foldl (step S) st

/-- One message for each sender and type, and no two wrapped texts that differ in letter case
only. -/
structure OneOfEach : Prop where
  c1Key : ∀ i k, S.c1Key i = S.c1Key k → (S.message i).s = (S.message k).s
  wrapped : ∀ i k, (S.message i).wrapped → (S.message k).wrapped →
    S.E.folding.EqualFold (S.arrives i) (S.arrives k) → (S.message i).s = (S.message k).s
  nonempty : ∀ i, S.arrives i ≠ []

/-- Every call that has begun is over, and so is the node's replay. -/
structure Over : Prop where
  calls : ∀ i, st.calls i = .arrived ∨ st.calls i = .returned ∨ st.calls i = .dropped ∨
    st.calls i = .duplicate
  replay : st.replays 0 = .handle []

end

/-! ## The invariant -/

/-- The keys a replay has not read yet. -/
def ReplayAt.unread (keys : List Text) : ReplayAt → List Text
  | .idle => keys
  | .handle rest => rest
  | .read c1data rest => c1data :: rest
  | .test _ _ rest => rest
  | .send _ _ rest => rest

/-- The entry a replay has read and not sent. -/
def ReplayAt.held : ReplayAt → Option (Text × Text)
  | .test c1data val _ => some (c1data, val)
  | .send c1data val _ => some (c1data, val)
  | _ => none

/-- A wrapped message past the list of those seen. -/
def CallAt.passed : CallAt → Bool
  | .find => true
  | .test => true
  | .send => true
  | .park => true
  | .returned => true
  | _ => false

def CallAt.wrappedOnly : CallAt → Bool
  | .findmsg2peer => true
  | .append => true
  | .duplicate => true
  | _ => false

section

variable (S : Session)

/-- A message that `Call` has finished with is in the queue, or parked where the node's replay will
read it, or in the hands of that replay. -/
def Delivered (st : State) (i : ℕ) : Prop :=
  (S.message i).s ∈ st.SmpcMsg ∨
    (st.C1Data (S.c1Key i) = some (S.message i).s ∧
      S.c1Key i ∈ (st.replays 0).unread S.replayKeys) ∨
    (st.replays 0).held = some (S.c1Key i, (S.message i).s)

structure Inv (st : State) : Prop where
  worker : st.started = true → st.worker = true
  begun : st.replays 0 ≠ .idle → st.started = true
  values : ∀ i v, st.C1Data (S.c1Key i) = some v → (S.message i).s = v
  held : ∀ j i v, (st.replays j).held = some (S.c1Key i, v) → (S.message i).s = v
  removed : ∀ i, S.c1Key i ∈ st.deletes → (S.message i).s ∈ st.SmpcMsg
  parking : ∀ i, st.calls i = .park → S.c1Key i ∈ S.replayKeys →
    S.c1Key i ∈ (st.replays 0).unread S.replayKeys
  returned : ∀ i, st.calls i = .returned → Delivered S st i
  kept : ∀ i, st.calls i ≠ .dropped
  wrapped : ∀ i, (st.calls i).wrappedOnly = true → (S.message i).wrapped = true
  seen : ∀ msg ∈ st.Msg2Peer, ∃ k, S.arrives k = msg ∧ (S.message k).wrapped = true ∧
    (st.calls k).passed = true
  duplicate : ∀ i, st.calls i = .duplicate → ∃ k, (S.message k).wrapped = true ∧
    S.E.folding.EqualFold (S.arrives k) (S.arrives i) = true ∧ (st.calls k).passed = true

variable {S} {st : State}

theorem inv_initial : Inv S .initial where
  worker started := by cases started
  begun awake := absurd rfl awake
  values i v found := by cases found
  held j i v holds := by cases holds
  removed i deleted := absurd deleted not_mem_nil
  parking i parks := by cases parks
  returned i done := by cases done
  kept i dropped := by cases dropped
  wrapped i only := by cases only
  seen msg member := absurd member not_mem_nil
  duplicate i again := by cases again

variable (inv : Inv S st)

include inv

theorem Inv.assign : Inv S { st with worker := true } :=
  { inv with worker := fun _ => rfl }

theorem Inv.start : Inv S { st with started := st.started || st.worker } :=
  { inv with
    worker := fun started => by
      rcases Bool.or_eq_true_iff.mp started with already | worker
      · exact inv.worker already
      · exact worker
    begun := fun awake => by simp [inv.begun awake] }

variable {i j : ℕ}

omit inv in
/-- The queue grows. -/
theorem Delivered.mono {st st' : State} (delivered : Delivered S st i)
    (queue : ∀ s ∈ st.SmpcMsg, s ∈ st'.SmpcMsg)
    (parked : st.C1Data (S.c1Key i) = some (S.message i).s →
      st'.C1Data (S.c1Key i) = some (S.message i).s ∨ (S.message i).s ∈ st'.SmpcMsg)
    (replay : st'.replays 0 = st.replays 0) : Delivered S st' i := by
  rcases delivered with sent | ⟨stored, unread⟩ | holds
  · exact .inl (queue _ sent)
  · rcases parked stored with still | sent
    · exact .inr (.inl ⟨still, replay ▸ unread⟩)
    · exact .inl sent
  · exact .inr (.inr (replay ▸ holds))

theorem Inv.delete {c : Text} (pending : c ∈ st.deletes) :
    Inv S { st with
      C1Data := update st.C1Data c none
      deletes := st.deletes.erase c } :=
  { inv with
    values := fun i v found => by
      by_cases same : S.c1Key i = c
      · simp only [same, update_self] at found
        cases found
      · simp only [update_of_ne same] at found
        exact inv.values i v found
    removed := fun i deleted => inv.removed i (mem_of_mem_erase deleted)
    returned := fun i done => by
      refine (inv.returned i done).mono (fun s member => member) (fun stored => ?_) rfl
      by_cases same : S.c1Key i = c
      · exact .inr (inv.removed i (same ▸ pending))
      · refine .inl ?_
        simp only [update_of_ne same]
        exact stored }

/-! ### Calls -/

theorem Inv.call {next : CallAt}
    (parks : next = .park → S.c1Key i ∈ S.replayKeys → S.c1Key i ∈ (st.replays 0).unread S.replayKeys)
    (returns : next = .returned → Delivered S st i) (kept : next ≠ .dropped)
    (wrapped : next.wrappedOnly = true → (S.message i).wrapped = true)
    (passes : (st.calls i).passed = true → next.passed = true)
    (again : next = .duplicate → ∃ k, (S.message k).wrapped = true ∧
      S.E.folding.EqualFold (S.arrives k) (S.arrives i) = true ∧ (st.calls k).passed = true) :
    Inv S (st.call i next) := by
  have at_call : ∀ k, (k = i ∧ (st.call i next).calls k = next) ∨
      (k ≠ i ∧ (st.call i next).calls k = st.calls k) := by
    intro k
    by_cases same : k = i
    · exact .inl ⟨same, by rw [same]; exact update_self _ _ _⟩
    · exact .inr ⟨same, update_of_ne same _ _⟩
  have still_passed : ∀ k, (st.calls k).passed = true → ((st.call i next).calls k).passed = true := by
    intro k passed
    rcases at_call k with ⟨rfl, now⟩ | ⟨-, now⟩
    · rw [now]
      exact passes passed
    · rw [now]
      exact passed
  refine { inv with
    parking := fun k parking => ?_
    returned := fun k returned => ?_
    kept := fun k dropped => ?_
    wrapped := fun k only => ?_
    seen := fun msg member => ?_
    duplicate := fun k twice => ?_ }
  · rcases at_call k with ⟨rfl, now⟩ | ⟨-, now⟩
    · exact parks (now.symm.trans parking)
    · exact inv.parking k (now.symm.trans parking)
  · rcases at_call k with ⟨rfl, now⟩ | ⟨-, now⟩
    · exact returns (now.symm.trans returned)
    · exact inv.returned k (now.symm.trans returned)
  · rcases at_call k with ⟨rfl, now⟩ | ⟨-, now⟩
    · exact kept (now.symm.trans dropped)
    · exact inv.kept k (now.symm.trans dropped)
  · rcases at_call k with ⟨rfl, now⟩ | ⟨-, now⟩
    · exact wrapped (now ▸ only)
    · exact inv.wrapped k (now ▸ only)
  · obtain ⟨k, arrives, own, passed⟩ := inv.seen msg member
    exact ⟨k, arrives, own, still_passed k passed⟩
  · have earlier : ∃ k', (S.message k').wrapped = true ∧
        S.E.folding.EqualFold (S.arrives k') (S.arrives k) = true ∧ (st.calls k').passed = true := by
      rcases at_call k with ⟨rfl, now⟩ | ⟨-, now⟩
      · exact again (now.symm.trans twice)
      · exact inv.duplicate k (now.symm.trans twice)
    obtain ⟨k', own, equal, passed⟩ := earlier
    exact ⟨k', own, equal, still_passed k' passed⟩

/-- A call that goes on to a point with no obligations. -/
theorem Inv.callOn {next : CallAt} (goes : next.passed = true)
    (not_park : next ≠ .park) (not_returned : next ≠ .returned) : Inv S (st.call i next) := by
  refine inv.call (fun parks => absurd parks not_park) (fun returns => absurd returns not_returned)
    ?_ ?_ (fun _ => goes) ?_
  · rintro rfl
    cases goes
  · intro only
    cases next <;> first | cases only; done | cases goes
  · rintro rfl
    cases goes

/-- A call that has found no started node. -/
theorem Inv.callParks (asleep : st.started = false) : Inv S (st.call i .park) := by
  have idle : st.replays 0 = .idle := by
    by_contra awake
    rw [inv.begun awake] at asleep
    cases asleep
  refine inv.call (fun _ read => ?_) (by simp) (by simp) (by simp [CallAt.wrappedOnly])
    (fun _ => rfl) (by simp)
  rw [idle]
  exact read

theorem Inv.findWorker : Inv S (st.call i (findWorker st)) := by
  unfold EarlyMessages.findWorker
  split
  · exact inv.callOn rfl (by simp) (by simp)
  · rename_i absent
    refine inv.callParks (Bool.eq_false_iff.mpr fun started => absent (inv.worker started))

theorem Inv.queue (msg : Text) : Inv S { st with SmpcMsg := st.SmpcMsg ++ [msg] } :=
  { inv with
    removed := fun i deleted => mem_append_left _ (inv.removed i deleted)
    returned := fun i done => (inv.returned i done).mono
      (fun _ member => mem_append_left _ member) (fun stored => .inl stored) rfl }

theorem Inv.store (one : OneOfEach S) (i : ℕ) :
    Inv S { st with C1Data := update st.C1Data (S.c1Key i) (some (S.message i).s) } :=
  { inv with
    values := fun k v found => by
      by_cases same : S.c1Key k = S.c1Key i
      · simp only [same, update_self] at found
        cases found
        exact one.c1Key k i same
      · simp only [update_of_ne same] at found
        exact inv.values k v found
    returned := fun k done => by
      refine (inv.returned k done).mono (fun s member => member) (fun stored => .inl ?_) rfl
      by_cases same : S.c1Key k = S.c1Key i
      · simp [same, one.c1Key k i same]
      · simp only [update_of_ne same]
        exact stored }

theorem Inv.callStep (one : OneOfEach S) (careful : Careful S st (.call i)) :
    Inv S (callStep S st i) := by
  unfold EarlyMessages.callStep
  split
  · rename_i arrived
    have fresh : ¬ (st.calls i).passed = true := by
      rw [arrived]
      simp [CallAt.passed]
    split
    · rename_i wrapped
      rw [if_pos (careful.found i rfl arrived wrapped)]
      exact inv.call (by simp) (by simp) (by simp) (fun _ => wrapped)
        (fun passed => absurd passed fresh) (by simp)
    · exact inv.findWorker
  · rename_i looking
    have own : (S.message i).wrapped = true := inv.wrapped i (by rw [looking]; rfl)
    have fresh : ¬ (st.calls i).passed = true := by
      rw [looking]
      simp [CallAt.passed]
    split
    · rename_i found
      refine inv.call (by simp) (by simp) (by simp) (fun _ => own)
        (fun passed => absurd passed fresh) fun _ => ?_
      simp only [Session.findmsg2peer, one.nonempty i, decide_false, Bool.false_or,
        any_eq_true] at found
      obtain ⟨msg, member, equal⟩ := found
      obtain ⟨k, rfl, wrapped, passed⟩ := inv.seen msg member
      exact ⟨k, wrapped, equal, passed⟩
    · exact inv.call (by simp) (by simp) (by simp) (fun _ => own)
        (fun passed => absurd passed fresh) (by simp)
  · rename_i appending
    have own : (S.message i).wrapped = true := inv.wrapped i (by rw [appending]; rfl)
    have called : Inv S (st.call i .find) := inv.callOn rfl (by simp) (by simp)
    refine { called with seen := fun msg member => ?_ }
    rcases mem_append.mp member with before | now
    · exact called.seen msg before
    · refine ⟨i, (mem_singleton.mp now).symm, own, ?_⟩
      simp [State.call, CallAt.passed]
  · exact inv.findWorker
  · split
    · exact inv.callOn rfl (by simp) (by simp)
    · rename_i asleep
      exact inv.callParks (Bool.eq_false_iff.mpr asleep)
  · exact (inv.queue (S.message i).s).call (by simp)
      (fun _ => .inl (mem_append_right _ (mem_singleton_self _))) (by simp)
      (by simp [CallAt.wrappedOnly]) (fun _ => rfl) (by simp)
  · rename_i parking
    have read := inv.parking i parking (careful.replayed i rfl parking)
    exact (inv.store one i).call (by simp)
      (fun _ => .inr (.inl ⟨update_self _ _ _, read⟩)) (by simp)
      (by simp [CallAt.wrappedOnly]) (fun _ => rfl) (by simp)
  · exact inv
  · exact inv
  · exact inv

/-! ### Replays -/

/-- A replay of another handler. -/
theorem Inv.replayOther {next : ReplayAt} (other : j ≠ 0)
    (holds : ∀ i v, next.held = some (S.c1Key i, v) → (S.message i).s = v) :
    Inv S (st.replay j next) := by
  have first : (st.replay j next).replays 0 = st.replays 0 := update_of_ne other.symm _ _
  refine { inv with
    begun := fun awake => inv.begun (first ▸ awake)
    held := fun k i v held => ?_
    parking := fun i parking read => first ▸ inv.parking i parking read
    returned := fun i done => (inv.returned i done).mono (fun _ member => member)
      (fun stored => .inl stored) first }
  by_cases same : k = j
  · have now : (st.replay j next).replays k = next := by
      rw [same]
      exact update_self _ _ _
    exact holds i v (now ▸ held)
  · have now : (st.replay j next).replays k = st.replays k := update_of_ne same _ _
    exact inv.held k i v (now ▸ held)

/-- The node's replay: what it takes from the keys not read yet is in its hands or was not
parked. -/
theorem Inv.replayOwn {next : ReplayAt} (awake : st.started = true)
    (holds : ∀ i v, next.held = some (S.c1Key i, v) → (S.message i).s = v)
    (parking : ∀ i, st.calls i = .park → S.c1Key i ∈ (st.replays 0).unread S.replayKeys →
      S.c1Key i ∈ next.unread S.replayKeys)
    (unread : ∀ i, st.C1Data (S.c1Key i) = some (S.message i).s →
      S.c1Key i ∈ (st.replays 0).unread S.replayKeys →
      S.c1Key i ∈ next.unread S.replayKeys ∨ next.held = some (S.c1Key i, (S.message i).s))
    (handed : ∀ i, (st.replays 0).held = some (S.c1Key i, (S.message i).s) →
      next.held = some (S.c1Key i, (S.message i).s) ∨ (S.message i).s ∈ st.SmpcMsg) :
    Inv S (st.replay 0 next) := by
  have first : (st.replay 0 next).replays 0 = next := by simp [State.replay]
  refine { inv with
    begun := fun _ => awake
    held := fun k i v held => ?_
    parking := fun i parks read => ?_
    returned := fun i done => ?_ }
  · by_cases same : k = 0
    · have now : (st.replay 0 next).replays k = next := same ▸ first
      exact holds i v (now ▸ held)
    · have now : (st.replay 0 next).replays k = st.replays k := update_of_ne same _ _
      exact inv.held k i v (now ▸ held)
  · rw [first]
    exact parking i parks (inv.parking i parks read)
  unfold Delivered
  rw [first]
  rcases inv.returned i done with sent | ⟨stored, waits⟩ | holding
  · exact .inl sent
  · rcases unread i stored waits with still | now
    · exact .inr (.inl ⟨stored, still⟩)
    · exact .inr (.inr now)
  · rcases handed i holding with now | sent
    · exact .inr (.inr now)
    · exact .inl sent

/-- An entry is sent and its removal begins. -/
theorem Inv.sent {c v : Text} {rest : List Text} (sending : st.replays j = .send c v rest) :
    Inv S { st with SmpcMsg := st.SmpcMsg ++ [v], deletes := st.deletes ++ [c] } :=
  { inv.queue v with
    removed := fun i deleted => by
      rcases mem_append.mp deleted with before | now
      · exact mem_append_left _ (inv.removed i before)
      · have own : (st.replays j).held = some (S.c1Key i, v) := by
          rw [sending, mem_singleton.mp now]
          rfl
        rw [inv.held j i v own]
        exact mem_append_right _ (mem_singleton_self _) }

theorem Inv.replayStep (careful : Careful S st (.replay j)) : Inv S (replayStep S st j) := by
  by_cases own : j = 0
  · subst own
    unfold EarlyMessages.replayStep
    split
    · rename_i idle
      split
      · exact inv
      rename_i awake
      have started : st.started = true := by simpa using awake
      rw [if_pos (inv.worker started)]
      refine inv.replayOwn started (fun i v held => by cases held) (fun i _ read => ?_)
        (fun i _ read => .inl ?_) fun i held => ?_
      · rwa [idle] at read
      · rwa [idle] at read
      · rw [idle] at held
        cases held
    · exact inv
    · rename_i c rest handling
      have started : st.started = true := inv.begun (by rw [handling]; simp)
      rw [if_pos (inv.worker started)]
      refine inv.replayOwn started (fun i v held => by cases held) (fun i _ read => ?_)
        (fun i _ read => .inl ?_) fun i held => ?_
      · rwa [handling] at read
      · rwa [handling] at read
      · rw [handling] at held
        cases held
    · rename_i c rest reading
      have started : st.started = true := inv.begun (by rw [reading]; simp)
      have undisturbed := careful.undisturbed c rest rfl reading
      have parking : ∀ i, st.calls i = .park → S.c1Key i ∈ (st.replays 0).unread S.replayKeys →
          S.c1Key i ∈ rest := by
        intro i parks read
        rw [reading] at read
        rcases mem_cons.mp read with here | later
        · exact absurd here (undisturbed i parks)
        · exact later
      split
      · rename_i val found
        refine inv.replayOwn started (fun i v held => ?_) parking (fun i stored read => ?_)
          fun i held => ?_
        · cases held
          exact inv.values i val found
        · rw [reading] at read
          rcases mem_cons.mp read with here | later
          · refine .inr ?_
            rw [here, found] at stored
            cases stored
            rw [here]
            rfl
          · exact .inl later
        · rw [reading] at held
          cases held
      · rename_i absent
        refine inv.replayOwn started (fun i v held => by cases held) parking
          (fun i stored read => .inl ?_) fun i held => ?_
        · rw [reading] at read
          rcases mem_cons.mp read with here | later
          · rw [here, absent] at stored
            cases stored
          · exact later
        · rw [reading] at held
          cases held
    · rename_i c val rest testing
      have started : st.started = true := inv.begun (by rw [testing]; simp)
      rw [if_pos started]
      refine inv.replayOwn started (fun i v held => inv.held 0 i v (by rw [testing]; exact held))
        (fun i _ read => ?_) (fun i _ read => .inl ?_) fun i held => .inl ?_
      · rwa [testing] at read
      · rwa [testing] at read
      · rwa [testing] at held
    · rename_i c val rest sending
      have started : st.started = true := inv.begun (by rw [sending]; simp)
      refine (inv.sent sending).replayOwn started (fun i v held => by cases held)
        (fun i _ read => ?_) (fun i _ read => .inl ?_) fun i held => .inr ?_
      · simp only [sending] at read
        exact read
      · simp only [sending] at read
        exact read
      · simp only [sending] at held
        cases held
        exact mem_append_right _ (mem_singleton_self _)
  · unfold EarlyMessages.replayStep
    split
    · rw [if_neg fun first => own first.1]
      exact inv.replayOther own fun i v held => by cases held
    · exact inv
    · refine inv.replayOther own fun i v held => ?_
      split at held <;> cases held
    · split
      · rename_i val found
        refine inv.replayOther own fun i v held => ?_
        cases held
        exact inv.values i val found
      · exact inv.replayOther own fun i v held => by cases held
    · rename_i c val rest testing
      refine inv.replayOther own fun i v held => ?_
      split at held
      · exact inv.held j i v (by rw [testing]; exact held)
      · cases held
    · rename_i c val rest sending
      exact (inv.sent sending).replayOther own fun i v held => by cases held

theorem Inv.step (one : OneOfEach S) {action : Action}
    (careful : Careful S st action) : Inv S (step S st action) := by
  cases action with
  | assign => exact inv.assign
  | start => exact inv.start
  | call i => exact inv.callStep one careful
  | replay j => exact inv.replayStep careful
  | delete c =>
    simp only [EarlyMessages.step]
    split
    · rename_i pending
      exact inv.delete pending
    · exact inv

omit inv

theorem inv_of_run (one : OneOfEach S) (run : CarefulRun S st) : Inv S st := by
  induction run with
  | start => exact inv_initial
  | step _ action careful ih => exact ih.step one careful

end

/-! ## Delivery -/

theorem Inv.delivered {S : Session} {st : State} (inv : Inv S st) (ended : Over st) {i : ℕ}
    (returned : st.calls i = .returned) : (S.message i).s ∈ st.SmpcMsg := by
  rcases inv.returned i returned with sent | ⟨-, unread⟩ | held
  · exact sent
  · rw [ended.replay] at unread
    exact absurd unread not_mem_nil
  · rw [ended.replay] at held
    cases held

/-- Every message of a session that has arrived is in the queue of the worker once the calls and the
node's replay are over, in every careful run. -/
theorem early_delivered (S : Session) (one : OneOfEach S) (st : State) (run : CarefulRun S st)
    (ended : Over st) (i : ℕ) (came : st.calls i ≠ .arrived) : (S.message i).s ∈ st.SmpcMsg := by
  have inv := inv_of_run one run
  rcases ended.calls i with arrived | returned | dropped | duplicate
  · exact absurd arrived came
  · exact inv.delivered ended returned
  · exact absurd dropped (inv.kept i)
  obtain ⟨k, wrapped, equal, passed⟩ := inv.duplicate i duplicate
  have own := inv.wrapped i (by rw [duplicate]; rfl)
  rw [← one.wrapped k i wrapped own equal]
  rcases ended.calls k with arrived | returned | dropped | again
  · rw [arrived] at passed
    cases passed
  · exact inv.delivered ended returned
  · exact absurd dropped (inv.kept k)
  · rw [again] at passed
    cases passed

/-! ## Runs of one message

A group of one node, whose UID is 1, and one message, which may come often. -/

section

variable {S : Session}

/-- The actions concern no other call than the first. -/
def FirstOnly (actions : List Action) : Prop := ∀ i, .call i ∈ actions → i = 0

variable {st : State} {actions : List Action}

theorem calls_step_of_ne {action : Action} {i : ℕ} (other : action ≠ .call i) :
    (step S st action).calls i = st.calls i := by
  cases action with
  | assign => rfl
  | start => rfl
  | call k =>
    have apart : i ≠ k := fun same => other (by rw [same])
    have moved : ∀ next, (st.call k next).calls i = st.calls i :=
      fun next => update_of_ne apart _ _
    simp only [step, callStep]
    split <;> (try split) <;> first | rfl | exact moved _
  | replay j =>
    simp only [step, replayStep]
    split <;> (try split) <;> rfl
  | delete c =>
    simp only [step]
    split <;> rfl

theorem calls_steps_of_ne (first : FirstOnly actions) {i : ℕ} (other : i ≠ 0) :
    (steps S st actions).calls i = st.calls i := by
  induction actions generalizing st with
  | nil => rfl
  | cons action rest ih =>
    have later : FirstOnly rest := fun k member => first k (mem_cons_of_mem _ member)
    refine (ih later).trans (calls_step_of_ne fun same => other ?_)
    exact first i (by rw [same]; exact mem_cons_self)

theorem over_steps (first : FirstOnly actions)
    (calls : (steps S .initial actions).calls 0 = .returned ∨ (steps S .initial actions).calls 0 = .dropped)
    (replay : (steps S .initial actions).replays 0 = .handle []) :
    Over (steps S .initial actions) where
  calls i := by
    by_cases same : i = 0
    · rw [same]
      exact .inr (calls.elim .inl fun dropped => .inr (.inl dropped))
    · exact .inl (calls_steps_of_ne first same)
  replay := replay

/-- The conditions of a careful step, for the first call. -/
def checks (S : Session) (st : State) : Action → Bool
  | .call i => i = 0 ∧ (st.calls 0 = .arrived → (S.message 0).wrapped → st.worker) ∧
      (st.calls 0 = .park → S.c1Key 0 ∈ S.replayKeys)
  | .replay 0 =>
    match st.replays 0 with
    | .read c _ => st.calls 0 = .park → S.c1Key 0 ≠ c
    | _ => true
  | _ => true

theorem careful_of_checks {action : Action} (others : ∀ i ≠ 0, st.calls i = .arrived)
    (passes : checks S st action = true) : Careful S st action := by
  have first : ∀ i, st.calls i = .park → i = 0 := by
    intro i parks
    by_contra other
    rw [others i other] at parks
    cases parks
  refine ⟨fun i called arrived wrapped => ?_, fun i called parks => ?_,
    fun c rest replayed reading i parks => ?_⟩
  · rw [called] at passes
    simp only [checks, decide_eq_true_eq] at passes
    rw [passes.1] at arrived wrapped
    exact passes.2.1 arrived wrapped
  · rw [called] at passes
    simp only [checks, decide_eq_true_eq] at passes
    rw [passes.1] at parks ⊢
    exact passes.2.2 parks
  · rw [replayed] at passes
    simp only [checks, reading, decide_eq_true_eq] at passes
    obtain rfl := first i parks
    exact passes parks

/-- All steps pass. -/
def checksAll (S : Session) : State → List Action → Bool
  | _, [] => true
  | st, action :: rest => checks S st action && checksAll S (step S st action) rest

theorem carefulRun_steps (run : CarefulRun S st) (others : ∀ i ≠ 0, st.calls i = .arrived)
    (passes : checksAll S st actions = true) :
    CarefulRun S (steps S st actions) := by
  induction actions generalizing st with
  | nil => exact run
  | cons action rest ih =>
    obtain ⟨here, later⟩ := Bool.and_eq_true_iff.mp passes
    refine ih (run.step action (careful_of_checks others here)) (fun i other => ?_) later
    refine (calls_step_of_ne fun same => ?_).trans (others i other)
    rw [same] at here
    simp only [checks, decide_eq_true_eq] at here
    exact other here.1

end

namespace OneNode

def node : Enode := List.replicate 128 'a'

def env : Env where
  folding := lowerFolding
  ToLower := List.map Char.toLower
  Keccak256Hash := id
  digest _ _ := 0
  groups _ := [node]
  enode_length := by simp [node]
  decode _ := none
  curEnode := node
  MaxAcceptTime := 0

def record : AcceptReqAddrData where
  Account := ['x']
  GroupID := List.replicate 128 '0'
  LimitNum := ['1', '/', '1']
  Mode := mode0
  Sigs := []

/-- A message of the node, of the first round of its protocol. -/
def session (wrapped : Bool) (msgtype : Text) (ac : Option AcceptReqAddrData) : Session where
  E := env
  key := ['k']
  arrives _ := ['m']
  read _ := ⟨wrapped, ['3', '1'], msgtype, ['s']⟩
  ac

def keygen (wrapped : Bool) : Session := session wrapped "KGRound0Message".toList (some record)

def reshare : Session := session false "ReRound0Message".toList none

theorem oneOfEach (wrapped : Bool) : OneOfEach (keygen wrapped) where
  c1Key _ _ _ := rfl
  wrapped _ _ _ _ _ := rfl
  nonempty _ := by simp [keygen, session]

/-- The message is parked, the node starts, and its replay runs to the end. -/
def parkedFirst : List Action :=
  [.call 0, .call 0, .assign, .start] ++ List.replicate 100 (.replay 0)

/-- The node starts and its replay runs to the end between the test of the call and its write. -/
def parkedLate : List Action :=
  [.assign, .call 0, .call 0, .start] ++ List.replicate 100 (.replay 0) ++ [.call 0]

theorem firstOnly_parkedFirst : FirstOnly parkedFirst := by
  intro i member
  simpa [parkedFirst] using member

theorem firstOnly_parkedLate : FirstOnly parkedLate := by
  intro i member
  simpa [parkedLate] using member

theorem early_delivered_parked :
    let S := keygen false
    let st := steps S .initial parkedFirst
    (OneOfEach S ∧ CarefulRun S st ∧ Over st ∧ st.calls 0 ≠ .arrived) ∧
      (S.message 0).s ∈ st.SmpcMsg := by
  intro S st
  have run : CarefulRun S st :=
    carefulRun_steps .start (fun _ _ => rfl) (by decide +kernel)
  have ended : Over st := over_steps firstOnly_parkedFirst (by decide +kernel) (by decide +kernel)
  have came : st.calls 0 ≠ .arrived := by decide +kernel
  exact ⟨⟨oneOfEach _, run, ended, came⟩, early_delivered S (oneOfEach _) st run ended 0 came⟩

/-- A message that is parked after the replay, a wrapped one that comes before its worker, and one of
a resharing that is parked: each stays behind. -/
theorem early_lost :
    (let S := keygen false
      let st := steps S .initial parkedLate
      Over st ∧ st.calls 0 ≠ .arrived ∧ (S.message 0).s ∉ st.SmpcMsg) ∧
    (let S := keygen true
      let st := steps S .initial parkedFirst
      Over st ∧ st.calls 0 ≠ .arrived ∧ (S.message 0).s ∉ st.SmpcMsg) ∧
    (let S := reshare
      let st := steps S .initial parkedFirst
      Over st ∧ st.calls 0 ≠ .arrived ∧ (S.message 0).s ∉ st.SmpcMsg) := by
  refine ⟨⟨?_, ?_, ?_⟩, ⟨?_, ?_, ?_⟩, ⟨?_, ?_, ?_⟩⟩
  · exact over_steps firstOnly_parkedLate (by decide +kernel) (by decide +kernel)
  · decide +kernel
  · decide +kernel
  · exact over_steps firstOnly_parkedFirst (by decide +kernel) (by decide +kernel)
  · decide +kernel
  · decide +kernel
  · exact over_steps firstOnly_parkedFirst (by decide +kernel) (by decide +kernel)
  · decide +kernel
  · decide +kernel

end OneNode

end ThresholdDsa.Smpc.EarlyMessages
