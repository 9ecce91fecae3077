/-
# The runs of one ED25519 command

`signED` signs the hashes of a command one after the other.  Each run has a DNode of
its own, but all of them use the session key of the command, the worker and its queue
`SmpcMsg`, and a round message does not say which hash it is for.  `hash` and `maker`
of a message are not in the program: they name the DNode that made it.

A message that arrives goes to the queue when the worker's DNode has a round, which
the DNode of an ended run also has, and is kept in `C1Data` otherwise.  A run may end
at any time, with a signature, an error or a timeout, and be repeated.

Nothing keeps a faster node from starting the run of the next hash.  If a node makes
the DNode of a hash only when no node is at an earlier hash and no message for an
earlier hash is still bound for it, all messages a DNode is given are for its hash
(`hashes_isolated`).  Otherwise the DNode of a hash drops messages for the next one
(`next_hash_message_dropped`).
-/
import ThresholdDsa.Rounds.Provenance
import ThresholdDsa.Lib.GoText

namespace ThresholdDsa.Smpc.EdSignRuns

open Outcome SlotStore Rounds GoText Function List Option

variable {n : ℕ}

/-! ## Messages and rounds -/

inductive EdList where
  | SignRound1Message | SignRound2Message | SignRound3Message | SignRound4Message
  | SignRound5Message | SignRound6Message
  deriving DecidableEq, Repr

structure EdMessage (n : ℕ) where
  hash : ℕ
  maker : Fin n
  Type' : EdList
  FromID : Text
  FromIndex : ℤ
  content : List UInt8
  deriving DecidableEq

def roundList : ℕ → Option EdList
  | 1 => some .SignRound1Message
  | 2 => some .SignRound2Message
  | 3 => some .SignRound3Message
  | 4 => some .SignRound4Message
  | 5 => some .SignRound5Message
  | 6 => some .SignRound6Message
  | _ => none

/-- `StoreMessage` and the rounds; all messages are broadcasts. -/
def edSignProtocol (n : ℕ) : Protocol (EdMessage n) EdList Text Unit n where
  kind m := some m.Type'
  id m := m.FromID
  index m := m.FromIndex
  check _ := .ok ()
  keep _ _ d := d
  first := 1
  final := 7
  lists r := [roundList r].filter (·.isSome)
  CanAccept r m := some m.Type' = roundList r

/-- The ids of the nodes, and what they write into the messages of a hash and a round. -/
structure Senders (n : ℕ) where
  ID : Fin n → Text
  content : ℕ → ℕ → Fin n → List UInt8

/-- The rounds for a hash. -/
def Senders.script (c : Senders n) (hash : ℕ) : Script (EdMessage n) EdList Unit n where
  message r list i _ _ :=
    { hash, maker := i, Type' := list.getD .SignRound1Message, FromID := c.ID i, FromIndex := i.val,
      content := c.content hash r i }
  save _ _ node := node.data

abbrev EdDNode (n : ℕ) := DNode (EdMessage n) EdList Unit n

def NewLocalDNode (c : Senders n) (i : Fin n) : EdDNode n := ⟨c.ID i, none, ⟨Store.empty, ()⟩, []⟩

/-! ## Workers -/

structure Worker (n : ℕ) where
  /-- The hash that is being signed, or that is next. -/
  hash : ℕ
  /-- `SignED` is at work. -/
  running : Bool
  /-- `EdSignProcessInboundMessages` is at work. -/
  listening : Bool
  dnode : Option (EdDNode n)
  SmpcMsg : List (EdMessage n)
  /-- Messages kept by sender and type, the last one of each. -/
  C1Data : Text → EdList → Option (EdMessage n)
  /-- Entries that are handed over and not yet deleted. -/
  deleting : List (Text × EdList)

structure Sys (n : ℕ) where
  workers : Fin n → Worker n
  /-- Messages on their way to each node. -/
  sent : Fin n → List (EdMessage n)

def Sys.initial (n : ℕ) : Sys n where
  workers _ := ⟨0, false, false, none, [], fun _ _ => none, []⟩
  sent _ := []

def Sys.set (N : Sys n) (i : Fin n) (w : Worker n) : Sys n :=
  { N with workers := update N.workers i w }

def Sys.post (N : Sys n) (out : Out (EdMessage n) n) : Sys n :=
  { N with sent := fun j => N.sent j ++ (out.filter (·.1 = j)).map Prod.snd }

@[simp] theorem Sys.set_self (N : Sys n) (i : Fin n) (w : Worker n) : (N.set i w).workers i = w := by
  simp [set]

theorem Sys.set_other (N : Sys n) {i j : Fin n} (other : j ≠ i) (w : Worker n) :
    (N.set i w).workers j = N.workers j := by
  simp [set, other]

@[simp] theorem Sys.set_sent (N : Sys n) (i : Fin n) (w : Worker n) : (N.set i w).sent = N.sent := rfl

@[simp] theorem Sys.post_workers (N : Sys n) (out : Out (EdMessage n) n) :
    (N.post out).workers = N.workers := rfl

inductive Action (n : ℕ) where
  | create (i : Fin n)
  | start (i : Fin n)
  | arrive (i : Fin n) (k : ℕ)
  | handle (i : Fin n) (from' : Text) (type : EdList)
  | delete (i : Fin n) (from' : Text) (type : EdList)
  | process (i : Fin n)
  | stop (i : Fin n) (again : Bool)

/-- `w.DNode != nil && w.DNode.Round() != nil`. -/
def Worker.hasRound (w : Worker n) : Bool := w.dnode.any fun p => p.rnd.isSome

/-- The entry of a sender and a type. -/
def setC1 (data : Text → EdList → Option (EdMessage n)) (from' : Text) (type : EdList)
    (m : Option (EdMessage n)) : Text → EdList → Option (EdMessage n) :=
  update data from' (update (data from') type m)

/-- One step; `hashes` is the number of hashes of the command. -/
def Sys.act (c : Senders n) (hashes fuel : ℕ) (N : Sys n) : Action n → Option (Sys n)
  | .create i =>
    let w := N.workers i
    if w.running ∨ hashes ≤ w.hash then none
    else some (N.set i { w with running := true, listening := true,
                                dnode := some (NewLocalDNode c i) })
  | .start i =>
    let w := N.workers i
    if w.running then
      match w.dnode.map (BaseStart (edSignProtocol n) (c.script w.hash) i) with
      | some (.ok (p, out)) => some ((N.set i { w with dnode := some p }).post out)
      | _ => none
    else none
  | .arrive i k =>
    let w := N.workers i
    match (N.sent i)[k]? with
    | none => none
    | some m =>
      let N := { N with sent := update N.sent i ((N.sent i).eraseIdx k) }
      if w.hasRound then some (N.set i { w with SmpcMsg := w.SmpcMsg ++ [m] })
      else some (N.set i { w with C1Data := setC1 w.C1Data m.FromID m.Type' (some m) })
  | .handle i from' type =>
    let w := N.workers i
    match w.C1Data from' type with
    | none => none
    | some m =>
      if w.hasRound then
        some (N.set i { w with SmpcMsg := w.SmpcMsg ++ [m],
                               deleting := (from', type) :: w.deleting })
      else none
  | .delete i from' type =>
    let w := N.workers i
    if (from', type) ∈ w.deleting then
      some (N.set i { w with deleting := w.deleting.erase (from', type),
                             C1Data := setC1 w.C1Data from' type none })
    else none
  | .process i =>
    let w := N.workers i
    if w.running ∧ w.listening then
      match w.SmpcMsg, w.dnode with
      | m :: rest, some p =>
        match BaseUpdate (edSignProtocol n) (c.script w.hash) i fuel p m with
        | some (.ok (p, out)) => some ((N.set i { w with SmpcMsg := rest, dnode := some p }).post out)
        | some (.error _) => some (N.set i { w with SmpcMsg := rest, listening := false })
        | none => none
      | _, _ => none
    else none
  | .stop i again =>
    let w := N.workers i
    if w.running then
      some (N.set i { w with running := false, listening := false,
                             hash := if again then w.hash else w.hash + 1 })
    else none

/-! ## Runs in step -/

/-- A message that can still be given to a DNode of node `i`. -/
def Sys.Bound (N : Sys n) (i : Fin n) (m : EdMessage n) : Prop :=
  m ∈ N.sent i ∨ m ∈ (N.workers i).SmpcMsg ∨ ∃ from' type, (N.workers i).C1Data from' type = some m

/-- No node is at an earlier hash than node `i`, and no message for an earlier hash is bound for
it. -/
def Sys.InTurn (N : Sys n) (i : Fin n) : Prop :=
  (∀ j, (N.workers i).hash ≤ (N.workers j).hash) ∧
    ∀ m, N.Bound i m → (N.workers i).hash ≤ m.hash

/-- The condition on a step: a DNode is made only in turn. -/
def Meets (N : Sys n) : Action n → Prop
  | .create i => N.InTurn i
  | _ => True

/-- Reachable by steps that all meet the condition. -/
inductive InStep (c : Senders n) (hashes fuel : ℕ) : Sys n → Prop
  | initial : InStep c hashes fuel (Sys.initial n)
  | step {N N' : Sys n} {a : Action n} (before : InStep c hashes fuel N) (meets : Meets N a)
      (acted : N.act c hashes fuel a = some N') : InStep c hashes fuel N'

/-- Made by a DNode of its sender for `hash`. -/
def MadeFor (c : Senders n) (hash : ℕ) (m : EdMessage n) : Prop :=
  m.hash = hash ∧ m.FromID = c.ID m.maker

theorem makes_madeFor (c : Senders n) (hash : ℕ) (i : Fin n) :
    Makes (c.script hash) i (MadeFor c hash) := fun _ _ _ _ => ⟨rfl, rfl⟩

structure Isolated (c : Senders n) (N : Sys n) : Prop where
  below : ∀ {i m}, N.Bound i m → ∀ j, m.hash ≤ (N.workers j).hash
  above : ∀ {i m}, (N.workers i).running = true → N.Bound i m → (N.workers i).hash ≤ m.hash
  first : ∀ {i}, (N.workers i).running = true → ∀ j, (N.workers i).hash ≤ (N.workers j).hash
  stored : ∀ {i p}, (N.workers i).running = true → (N.workers i).dnode = some p →
    Holds (MadeFor c (N.workers i).hash) p.node.temp
  named : ∀ {i m}, N.Bound i m → m.FromID = c.ID m.maker

section

variable {c : Senders n} {N N' : Sys n} {i : Fin n} {m : EdMessage n} {w : Worker n} {j : Fin n}

theorem Isolated.bound_eq (isolated : Isolated c N) (running : (N.workers i).running = true)
    (bound : N.Bound i m) : MadeFor c (N.workers i).hash m :=
  ⟨le_antisymm (isolated.below bound i) (isolated.above running bound), isolated.named bound⟩

/-- What a step of node `i` may change. -/
theorem Isolated.change (isolated : Isolated c N)
    (others : ∀ j, j ≠ i → N'.workers j = N.workers j)
    (bound : ∀ {j m}, N'.Bound j m → N.Bound j m ∨
      (N.workers i).running = true ∧ MadeFor c (N.workers i).hash m)
    (later : (N.workers i).hash ≤ (N'.workers i).hash)
    (runs : (N'.workers i).running = true → (N'.workers i).hash = (N.workers i).hash ∧
      ((N.workers i).running = true ∨ N.InTurn i))
    (stored : ∀ {p}, (N'.workers i).running = true → (N'.workers i).dnode = some p →
      Holds (MadeFor c (N'.workers i).hash) p.node.temp) : Isolated c N' := by
  have mono : ∀ j, (N.workers j).hash ≤ (N'.workers j).hash := by
    intro j
    by_cases own : j = i
    · rw [own]
      exact later
    · rw [others j own]
  constructor
  case below =>
    intro k m bound' j
    refine le_trans ?_ (mono j)
    rcases bound bound' with old | ⟨running, made⟩
    · exact isolated.below old j
    · rw [made.1]
      exact isolated.first running j
  case above =>
    intro k m running' bound'
    by_cases own : k = i
    · subst own
      obtain ⟨same, was⟩ := runs running'
      rw [same]
      rcases bound bound' with old | ⟨-, made⟩
      · exact was.elim (fun running => isolated.above running old) fun turn => turn.2 m old
      · exact made.1.ge
    · rw [others k own] at running' ⊢
      rcases bound bound' with old | ⟨running, made⟩
      · exact isolated.above running' old
      · rw [made.1]
        exact isolated.first running' i
  case first =>
    intro k running' j
    refine le_trans ?_ (mono j)
    by_cases own : k = i
    · subst own
      obtain ⟨same, was⟩ := runs running'
      rw [same]
      exact was.elim (fun running => isolated.first running j) fun turn => turn.1 j
    · rw [others k own] at running' ⊢
      exact isolated.first running' j
  case stored =>
    intro k p running' dnode
    by_cases own : k = i
    · subst own
      exact stored running' dnode
    · rw [others k own] at running' dnode ⊢
      exact isolated.stored running' dnode
  case named =>
    intro k m bound'
    rcases bound bound' with old | ⟨-, made⟩
    · exact isolated.named old
    · exact made.2

variable {sent : Fin n → List (EdMessage n)}

/-- A worker whose messages were bound for it before. -/
theorem bound_of_set (fewer : ∀ j, ∀ m ∈ sent j, m ∈ N.sent j)
    (queued : ∀ m ∈ w.SmpcMsg, N.Bound i m)
    (kept : ∀ {from' type m}, w.C1Data from' type = some m → N.Bound i m)
    (bound : (Sys.set { N with sent } i w).Bound j m) : N.Bound j m := by
  rcases bound with sent_mem | queue_mem | ⟨from', type, entry⟩
  · exact .inl (fewer j m sent_mem)
  · by_cases own : j = i
    · subst own
      rw [Sys.set_self] at queue_mem
      exact queued m queue_mem
    · rw [Sys.set_other _ own] at queue_mem
      exact .inr (.inl queue_mem)
  · by_cases own : j = i
    · subst own
      rw [Sys.set_self] at entry
      exact kept entry
    · rw [Sys.set_other _ own] at entry
      exact .inr (.inr ⟨from', type, entry⟩)

theorem bound_of_set_kept (queue_eq : w.SmpcMsg = (N.workers i).SmpcMsg)
    (kept_eq : w.C1Data = (N.workers i).C1Data) (bound : (N.set i w).Bound j m) : N.Bound j m := by
  refine bound_of_set (fun _ _ mem => mem) (fun m mem => ?_) (fun entry => ?_) bound
  · exact .inr (.inl (queue_eq ▸ mem))
  · exact .inr (.inr ⟨_, _, kept_eq ▸ entry⟩)

variable {out : Out (EdMessage n) n}

theorem bound_of_post (bound : (N.post out).Bound j m) :
    N.Bound j m ∨ (j, m) ∈ out := by
  rcases bound with sent | queue | entry
  · rcases mem_append.mp sent with old | new
    · exact .inl (.inl old)
    · obtain ⟨⟨j', m'⟩, mem, rfl⟩ := mem_map.mp new
      obtain ⟨posted, same⟩ := mem_filter.mp mem
      obtain rfl : j' = j := decide_eq_true_eq.mp same
      exact .inr posted
  · exact .inl (.inr (.inl queue))
  · exact .inl (.inr (.inr entry))

theorem setC1_eq_some {data : Text → EdList → Option (EdMessage n)} {from' from'' : Text}
    {type type' : EdList} {entry : Option (EdMessage n)}
    (found : setC1 data from' type entry from'' type' = some m) :
    entry = some m ∨ data from'' type' = some m := by
  unfold setC1 at found
  by_cases same : from'' = from'
  · subst same
    rw [update_self] at found
    by_cases same' : type' = type
    · subst same'
      rw [update_self] at found
      exact .inl found
    · rw [update_of_ne same'] at found
      exact .inr found
  · rw [update_of_ne same] at found
    exact .inr found

/-- A step that leaves the hash, the flag and the DNode of the worker alone and gives it no new
message. -/
theorem Isolated.move (isolated : Isolated c N)
    (fewer : ∀ j, ∀ m ∈ sent j, m ∈ N.sent j) (queued : ∀ m ∈ w.SmpcMsg, N.Bound i m)
    (kept : ∀ {from' type m}, w.C1Data from' type = some m → N.Bound i m)
    (hash_eq : w.hash = (N.workers i).hash) (running_eq : w.running = (N.workers i).running)
    (dnode_eq : w.dnode = (N.workers i).dnode) : Isolated c (Sys.set { N with sent } i w) := by
  refine isolated.change (i := i) (fun j other => Sys.set_other _ other w)
    (fun bound => .inl (bound_of_set fewer queued kept bound)) ?_ ?_ ?_
  · rw [Sys.set_self, hash_eq]
  · rw [Sys.set_self, hash_eq, running_eq]
    exact fun running => ⟨rfl, .inl running⟩
  · rw [Sys.set_self, hash_eq, running_eq, dnode_eq]
    exact fun running dnode => isolated.stored running dnode

/-- A step in which the DNode of a running worker becomes `p` and sends `out`. -/
theorem Isolated.advance (isolated : Isolated c N) {p : EdDNode n}
    (running : (N.workers i).running = true) (queued : ∀ m ∈ w.SmpcMsg, N.Bound i m)
    (kept : w.C1Data = (N.workers i).C1Data) (hash_eq : w.hash = (N.workers i).hash)
    (dnode_eq : w.dnode = some p) (after : After (MadeFor c (N.workers i).hash) p out) :
    Isolated c ((N.set i w).post out) := by
  refine isolated.change (i := i) (fun j other => Sys.set_other _ other w) ?_ ?_ ?_ ?_
  · intro j m bound
    rcases bound_of_post bound with old | new
    · refine .inl (bound_of_set (fun _ _ mem => mem) queued (fun entry => ?_) old)
      rw [kept] at entry
      exact .inr (.inr ⟨_, _, entry⟩)
    · exact .inr ⟨running, after.2 _ new⟩
  · rw [Sys.post_workers, Sys.set_self, hash_eq]
  · rw [Sys.post_workers, Sys.set_self, hash_eq]
    exact fun _ => ⟨rfl, .inl running⟩
  · rw [Sys.post_workers, Sys.set_self, hash_eq, dnode_eq]
    rintro q - same
    obtain rfl := Option.some.inj same
    exact after.1

theorem Isolated.step (isolated : Isolated c N) {hashes fuel : ℕ} {a : Action n} (meets : Meets N a)
    (acted : N.act c hashes fuel a = some N') : Isolated c N' := by
  have same_queue : ∀ i, ∀ m ∈ (N.workers i).SmpcMsg, N.Bound i m := fun i m mem => .inr (.inl mem)
  have same_kept : ∀ i {from' type m}, (N.workers i).C1Data from' type = some m → N.Bound i m :=
    fun i _ _ _ entry => .inr (.inr ⟨_, _, entry⟩)
  cases a with
  | create i =>
    simp only [Sys.act] at acted
    split at acted
    · cases acted
    obtain rfl := Option.some.inj acted
    refine isolated.change (i := i) (fun j other => Sys.set_other _ other _)
      (fun bound => .inl (bound_of_set_kept (by rfl) (by rfl) bound))
      ?_ ?_ ?_
    · rw [Sys.set_self]
    · rw [Sys.set_self]
      exact fun _ => ⟨rfl, .inr meets⟩
    · rw [Sys.set_self]
      rintro p - same
      obtain rfl := Option.some.inj same
      exact holds_empty
  | start i =>
    simp only [Sys.act] at acted
    split at acted
    · rename_i running
      split at acted
      · rename_i p out started
        obtain rfl := Option.some.inj acted
        obtain ⟨q, dnode, started⟩ := map_eq_some_iff.mp started
        exact isolated.advance running (same_queue i) rfl rfl rfl
          (baseStart_holds (isolated.stored running dnode) (makes_madeFor c _ i) started)
      · cases acted
    · cases acted
  | arrive i k =>
    simp only [Sys.act] at acted
    split at acted
    · cases acted
    rename_i m at_k
    have bound : N.Bound i m := .inl (mem_of_getElem? at_k)
    have fewer : ∀ j, ∀ m ∈ update N.sent i ((N.sent i).eraseIdx k) j, m ∈ N.sent j := by
      intro j v mem
      by_cases own : j = i
      · subst own
        rw [update_self] at mem
        exact mem_of_mem_eraseIdx mem
      · rwa [update_of_ne own] at mem
    split at acted
    · obtain rfl := Option.some.inj acted
      refine isolated.move fewer (fun v mem => ?_) (same_kept i) rfl rfl rfl
      rcases mem_append.mp mem with old | new
      · exact same_queue i v old
      · rwa [mem_singleton.mp new]
    · obtain rfl := Option.some.inj acted
      refine isolated.move fewer (same_queue i) (fun entry => ?_) rfl rfl rfl
      rcases setC1_eq_some entry with new | old
      · rwa [← Option.some.inj new]
      · exact same_kept i old
  | handle i from' type =>
    simp only [Sys.act] at acted
    split at acted
    · cases acted
    rename_i m entry
    split at acted
    · obtain rfl := Option.some.inj acted
      refine isolated.move (fun _ _ mem => mem) (fun v mem => ?_) (same_kept i) rfl rfl rfl
      rcases mem_append.mp mem with old | new
      · exact same_queue i v old
      · rw [mem_singleton.mp new]
        exact same_kept i entry
    · cases acted
  | delete i =>
    simp only [Sys.act] at acted
    split at acted
    · obtain rfl := Option.some.inj acted
      refine isolated.move (fun _ _ mem => mem) (same_queue i) (fun entry => ?_) rfl rfl rfl
      rcases setC1_eq_some entry with none_eq | old
      · cases none_eq
      · exact same_kept i old
    · cases acted
  | process i =>
    simp only [Sys.act] at acted
    split at acted
    · rename_i active
      split at acted
      · rename_i m rest p queue dnode
        have given := isolated.bound_eq active.1 (same_queue i m (by simp [queue]))
        have rest_queue : ∀ v ∈ rest, N.Bound i v := fun v mem =>
          same_queue i v (by simp [queue, mem])
        split at acted
        · rename_i q out updated
          obtain rfl := Option.some.inj acted
          exact isolated.advance active.1 rest_queue rfl rfl rfl
            (baseUpdate_holds (isolated.stored active.1 dnode) given (makes_madeFor c _ i) updated)
        · obtain rfl := Option.some.inj acted
          exact isolated.move (fun _ _ mem => mem) rest_queue (same_kept i) rfl rfl rfl
        · cases acted
      · cases acted
    · cases acted
  | stop i again =>
    simp only [Sys.act] at acted
    split at acted
    · obtain rfl := Option.some.inj acted
      refine isolated.change (i := i) (fun j other => Sys.set_other _ other _)
        (fun bound => .inl (bound_of_set_kept (by rfl) (by rfl) bound))
        ?_ ?_ ?_
      · rw [Sys.set_self]
        simp only
        split <;> omega
      · rw [Sys.set_self]
        exact fun running => absurd running Bool.false_ne_true
      · rw [Sys.set_self]
        exact fun running => absurd running Bool.false_ne_true
    · cases acted

theorem isolated_initial (c : Senders n) : Isolated c (Sys.initial n) where
  below bound := by
    rcases bound with sent | queue | ⟨_, _, entry⟩
    · cases sent
    · cases queue
    · cases entry
  above running := absurd running Bool.false_ne_true
  first running := absurd running Bool.false_ne_true
  stored running := absurd running Bool.false_ne_true
  named bound := by
    rcases bound with sent | queue | ⟨_, _, entry⟩
    · cases sent
    · cases queue
    · cases entry

end

variable {c : Senders n} {hashes fuel : ℕ} {N : Sys n}

theorem isolated_of_inStep (reached : InStep c hashes fuel N) : Isolated c N := by
  induction reached with
  | initial => exact isolated_initial c
  | step _ meets acted ih => exact ih.step meets acted

/-- **The runs of different hashes are isolated** when the nodes keep in step.  All that a DNode has
stored was made by a DNode of the sender for the same hash; all that it will be given is for the
same hash too, so that a message is dropped only for one of the same run. -/
theorem hashes_isolated {c : Senders n} {hashes fuel : ℕ} {N : Sys n}
    (reached : InStep c hashes fuel N) {i : Fin n} {p : EdDNode n}
    (running : (N.workers i).running = true) (dnode : (N.workers i).dnode = some p) :
    (∀ list, ∀ m ∈ p.node.temp.entries list, MadeFor c (N.workers i).hash m) ∧
    ∀ m ∈ (N.workers i).SmpcMsg, m.hash = (N.workers i).hash ∧
      ∀ list, ∀ v ∈ p.node.temp.entries list, v.Type' = m.Type' → v.FromID = m.FromID →
        v.hash = m.hash := by
  have isolated := isolated_of_inStep reached
  have stored := isolated.stored running dnode
  refine ⟨stored, fun m mem => ?_⟩
  have given := isolated.bound_eq running (.inr (.inl mem))
  exact ⟨given.1, fun list v v_mem _ _ => (stored list v v_mem).1.trans given.1.symm⟩

/-! ## Two nodes out of step -/

/-- Reachable by any steps. -/
inductive Reachable (c : Senders n) (hashes fuel : ℕ) : Sys n → Prop
  | initial : Reachable c hashes fuel (Sys.initial n)
  | step {N N' : Sys n} {a : Action n} (before : Reachable c hashes fuel N)
      (acted : N.act c hashes fuel a = some N') : Reachable c hashes fuel N'

def Sys.exec (c : Senders n) (hashes fuel : ℕ) (N : Sys n) (actions : List (Action n)) :
    Option (Sys n) :=
  actions.foldlM (fun N a => N.act c hashes fuel a) N

variable {actions : List (Action n)}

theorem Reachable.exec {N' : Sys n}
    (reached : Reachable c hashes fuel N) (run : N.exec c hashes fuel actions = some N') :
    Reachable c hashes fuel N' := by
  induction actions generalizing N with
  | nil => exact Option.some.inj run ▸ reached
  | cons a actions ih =>
    rw [Sys.exec, foldlM_cons, bind_eq_bind, bind_eq_some_iff] at run
    obtain ⟨N₁, acted, rest⟩ := run
    exact ih (.step reached acted) rest

def pair : Senders 2 where
  ID i := itoa (i.val + 1)
  content _ _ _ := []

def slow : Fin 2 := ⟨0, Nat.succ_pos 1⟩

def fast : Fin 2 := Fin.last 1

/-- Each node is given the next message of the other one. -/
def exchange : List (Action 2) := [.arrive slow 0, .process slow, .arrive fast 0, .process fast]

/-- Both nodes sign the first hash; the fast one ends and starts the next hash while the slow one
still listens. -/
def overtaking : List (Action 2) :=
  [.create slow, .start slow, .create fast, .start fast] ++ exchange ++ exchange ++ exchange ++
    exchange ++ exchange ++ [.arrive fast 0, .process fast, .stop fast false, .create fast,
      .start fast, .arrive slow 0, .arrive slow 0, .process slow]

/-- The first message of a node for a hash. -/
def firstMessage (i : Fin 2) (hash : ℕ) : EdMessage 2 where
  hash := hash
  maker := i
  Type' := .SignRound1Message
  FromID := itoa (i.val + 1)
  FromIndex := i.val
  content := []

/-- What the slow node has in its queue and in the first list of its DNode. -/
def Sys.slowView (N : Sys 2) : Bool × ℕ × List (EdMessage 2) × Option (List (EdMessage 2)) :=
  let w := N.workers slow
  (w.running, w.hash, w.SmpcMsg,
    w.dnode.map fun p => p.node.temp.entries (some .SignRound1Message))

/-- The DNode of the slow node for the first hash is given the fast node's message for the second
hash, and drops it for that node's message for the first. -/
theorem next_hash_message_dropped :
    ∃ N N' : Sys 2, Reachable pair 2 10 N ∧ N.act pair 2 10 (.process slow) = some N' ∧
      N.slowView = (true, 0, [firstMessage fast 1],
        some [firstMessage slow 0, firstMessage fast 0]) ∧
      N'.slowView = (true, 0, [], some [firstMessage slow 0, firstMessage fast 0]) := by
  have before : ((Sys.initial 2).exec pair 2 10 overtaking).map Sys.slowView =
      some (true, 0, [firstMessage fast 1], some [firstMessage slow 0, firstMessage fast 0]) := by
    decide +kernel
  have after : (((Sys.initial 2).exec pair 2 10 overtaking).bind fun N =>
      N.act pair 2 10 (.process slow)).map Sys.slowView =
      some (true, 0, [], some [firstMessage slow 0, firstMessage fast 0]) := by
    decide +kernel
  obtain ⟨N, run, view⟩ := map_eq_some_iff.mp before
  rw [run, bind_some] at after
  obtain ⟨N', acted, view'⟩ := map_eq_some_iff.mp after
  exact ⟨N, N', Reachable.initial.exec run, acted, view, view'⟩

/-- A DNode is made when no message is under way, and a message arrives when there is a round. -/
def Sys.settled (N : Sys n) : Action n → Bool
  | .create i => (∀ j, (N.workers i).hash ≤ (N.workers j).hash) ∧ N.sent i = [] ∧
      (N.workers i).SmpcMsg = []
  | .arrive i _ => (N.workers i).hasRound
  | _ => true

def Sys.execSettled (c : Senders n) (hashes fuel : ℕ) (N : Sys n) (actions : List (Action n)) :
    Option (Sys n) :=
  actions.foldlM (fun N a => if N.settled a then N.act c hashes fuel a else none) N

/-- No message is kept for a later DNode. -/
def Sys.NoneKept (N : Sys n) : Prop := ∀ i, (N.workers i).C1Data = fun _ _ => none

theorem Sys.NoneKept.act {N' : Sys n} {a : Action n} (kept : N.NoneKept) (settled : N.settled a)
    (acted : N.act c hashes fuel a = some N') : N'.NoneKept := by
  have set : ∀ {i w}, w.C1Data = (fun _ _ => none) → (N.set i w).NoneKept := by
    intro i w same j
    by_cases here : j = i
    · rw [here, set_self, same]
    · rw [set_other N here, kept j]
  cases a with
  | arrive i k =>
    simp only [Sys.settled] at settled
    simp only [Sys.act, settled, if_true] at acted
    split at acted <;> cases acted
    exact set (kept i)
  | handle i from' type => simp [Sys.act, kept i] at acted
  | delete i from' type =>
    simp only [Sys.act] at acted
    split at acted <;> cases acted
    exact set (by simp [setC1, kept i])
  | _ i =>
    simp only [Sys.act] at acted
    repeat' split at acted
    all_goals cases acted
    all_goals exact set (kept i)

theorem InStep.execSettled {N' : Sys n} (reached : InStep c hashes fuel N) (kept : N.NoneKept)
    (run : N.execSettled c hashes fuel actions = some N') : InStep c hashes fuel N' := by
  induction actions generalizing N with
  | nil => exact Option.some.inj run ▸ reached
  | cons a actions ih =>
    rw [Sys.execSettled, foldlM_cons, bind_eq_bind, bind_eq_some_iff] at run
    obtain ⟨N₁, acted, rest⟩ := run
    split at acted
    · next settled =>
      refine ih (.step reached ?_ acted) (kept.act settled acted) rest
      cases a with
      | create i =>
        obtain ⟨first, no_sent, no_queue⟩ := of_decide_eq_true settled
        refine ⟨first, fun m bound => ?_⟩
        simp [Sys.Bound, no_sent, no_queue, kept i] at bound
      | _ => trivial
    · cases acted

/-- Both nodes at the second hash; the slow one has been given the first message of the other. -/
theorem hashes_isolated_pair :
    ∃ (N : Sys 2) (p : EdDNode 2), (N.workers slow).dnode = some p ∧ (N.workers slow).hash = 1 ∧
      (firstMessage fast 1 ∈ p.node.temp.entries (some .SignRound1Message) ∧
        ∀ list, ∀ m ∈ p.node.temp.entries list, MadeFor pair (N.workers slow).hash m) := by
  have view : ((Sys.initial 2).execSettled pair 2 10 ([.create slow, .create fast, .start slow,
      .start fast] ++ exchange ++ exchange ++ exchange ++ exchange ++ exchange ++ exchange ++
      [.stop slow false, .stop fast false, .create slow, .create fast, .start slow, .start fast] ++
      exchange)).map Sys.slowView =
      some (true, 1, [], some [firstMessage slow 1, firstMessage fast 1]) := by
    decide +kernel
  obtain ⟨N, run, view⟩ := map_eq_some_iff.mp view
  obtain ⟨running, view⟩ := Prod.mk.inj view
  obtain ⟨hash, view⟩ := Prod.mk.inj view
  obtain ⟨p, dnode, entries⟩ := map_eq_some_iff.mp (congrArg Prod.snd view)
  have reached := InStep.initial.execSettled (fun _ => rfl) run
  refine ⟨N, p, dnode, hash, ?_, (hashes_isolated reached running dnode).1⟩
  rw [entries]
  simp

end ThresholdDsa.Smpc.EdSignRuns
