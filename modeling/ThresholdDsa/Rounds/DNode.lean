/-
# The round machine of a node

`BaseStart` and `BaseUpdate` drive the rounds of every protocol.  `BaseUpdate`
stores a message and does nothing more unless the message completed its list.  It
then asks whether the current round has all its messages, and if so starts the
next round and, when the messages of that round have already come, the one after
it.  It ends by calling itself with the same message, which is then a duplicate;
`fuel` bounds these calls.

What differs between protocols is a `Protocol`: how messages are stored, the first
and the last round, and for each round the lists that its `Update` goes through
and the messages it accepts.  What `Start` computes is a `Script`: for each list
of the round the message for each node, the one for the node itself being stored
at once.  `log` is not in the program: it lists the rounds that were started, and
whether all messages of the round before were stored.
-/
import ThresholdDsa.Lib.SlotStore

namespace ThresholdDsa.Rounds

open Outcome SlotStore

variable {M K I D : Type} {n : ℕ}

structure Protocol (M K I D : Type) (n : ℕ) extends Rules M K I D n where
  (first final : ℕ)
  lists : ℕ → List (Option K)
  CanAccept : ℕ → M → Bool

/-- `message r list i j` is the message of node `i` for node `j` in a list of round `r`, `save` what
`Start` leaves in the save data. -/
structure Script (M K D : Type) (n : ℕ) where
  message : ℕ → Option K → Fin n → Fin n → Node M K D n → M
  save : ℕ → Fin n → Node M K D n → D

structure Round (n : ℕ) where
  number : ℕ
  started : Bool
  ok : Fin n → Bool

structure Started where
  number : ℕ
  stored : Bool

structure DNode (M K D : Type) (n : ℕ) where
  DNodeID : List Char
  rnd : Option (Round n)
  node : Node M K D n
  log : List Started

/-- Messages on their way, with their receivers. -/
abbrev Out (M : Type) (n : ℕ) := List (Fin n × M)

/-! ## Rounds -/

/-- The message at a place of a list. -/
def entry (s : Store M K n) (j : Fin n) : Option K → Option M
  | none => s.queue[j.val]?
  | some k => s.slots k j

/-- The loop of `Update`, which stops at the first place that is not `present`. -/
def updateLoop (present : Fin n → Bool) : List (Fin n) → (Fin n → Bool) → Fin n → Bool
  | [], ok => ok
  | j :: js, ok =>
    if ok j then updateLoop present js ok
    else if present j then updateLoop present js (Function.update ok j true)
    else ok

def Round.CanProceed (r : Round n) : Bool := r.started ∧ ∀ j, r.ok j

def Round.ResetOK (r : Round n) : Round n := { r with ok := fun _ => false }

def putOwn (i : Fin n) [DecidableEq K] (s : Store M K n) (list : Option K) (msg : M) : Store M K n :=
  match list with
  | none => { s with queue := s.queue ++ [msg] }
  | some k => s.put k i msg

section

variable [DecidableEq K] [DecidableEq I] (P : Protocol M K I D n) (S : Script M K D n)

def Round.present (r : Round n) (s : Store M K n) (j : Fin n) : Bool :=
  (P.lists r.number).all fun list => (entry s j list).any (P.CanAccept r.number)

/-- The last round has nothing to wait for, and never proceeds. -/
def Round.Update (r : Round n) (s : Store M K n) : Round n :=
  if r.number = P.final then r
  else { r with ok := updateLoop (r.present P s) (List.finRange n) r.ok }

def Round.NextRound (r : Round n) : Option (Round n) :=
  if r.number = P.final then none else some { r with number := r.number + 1, started := false }

/-- Whether all messages of a round are stored. -/
def complete (s : Store M K n) (r : ℕ) : Bool :=
  (P.lists r).all fun list => ∀ j, (entry s j list).isSome

/-! ## Nodes -/

variable (i : Fin n) (p : DNode M K D n)

/-- `p.Round().Start()`. -/
def DNode.Start : Outcome (DNode M K D n × Out M n) :=
  match p.rnd with
  | none => .error .panic
  | some r =>
    if r.started then .error (.error "round already started")
    else
      let lists := P.lists r.number
      let own s list := putOwn i s list (S.message r.number list i i p.node)
      let others := (List.finRange n).filter (· ≠ i)
      pure
        ({ DNodeID := p.DNodeID
           rnd := some { r with started := true, ok := fun _ => false }
           node := ⟨lists.foldl own p.node.temp, S.save r.number i p.node⟩
           log := p.log ++ [⟨r.number, complete P p.node.temp (r.number - 1)⟩] },
          lists.flatMap fun list => others.map fun j =>
            (j, S.message r.number list i j p.node))

def BaseStart : Outcome (DNode M K D n × Out M n) :=
  if p.DNodeID = [] then
    .error (.error "could not start. this smpc node has an invalid DNodeID: ")
  else if p.rnd.isSome then
    .error (.error "could not start. this smpc node is in an unexpected state. use the constructor and Start()")
  else { p with rnd := some ⟨P.first, false, fun _ => false⟩ }.Start P S i

/-- `p.Round().Update()`. -/
def DNode.update : Outcome (DNode M K D n) := do
  let r ← deref p.rnd
  pure { p with rnd := some (r.Update P p.node.temp) }

/-- `p.Round().CanProceed()`. -/
def DNode.canProceed : Outcome Bool := do
  let r ← deref p.rnd
  pure r.CanProceed

def DNode.advance : Outcome (DNode M K D n) := do
  let r ← deref p.rnd
  pure { p with rnd := r.NextRound P }

/-- `p.Round().ResetOK()`. -/
def DNode.resetOK : Outcome (DNode M K D n) := do
  let r ← deref p.rnd
  pure { p with rnd := some r.ResetOK }

/-- `advance`, and `Start` if there is a next round. -/
def DNode.enter : Outcome (DNode M K D n × Out M n) := do
  let p ← p.advance P
  if p.rnd.isSome then p.Start P S i else pure (p, [])

/-- The round after the current one, and the one after that if its messages are there. -/
def DNode.proceed : Outcome (DNode M K D n × Out M n) := do
  let (p, out) ← p.enter P S i
  if p.rnd.isSome then do
    let p ← p.update P
    let again ← p.canProceed
    let (p, more) ← if again then p.enter P S i else pure (p, [])
    let p ← p.resetOK
    pure (p, out ++ more)
  else pure (p, out)

/-- `BaseUpdate` up to the call of itself, and whether it makes it. -/
def updateOnce (msg : M) :
    Outcome (DNode M K D n × Out M n × Bool) := do
  if p.rnd.isSome then do
    let (node, completed) ← P.store p.node msg
    let p := { p with node }
    if completed then do
      let p ← p.update P
      let go ← p.canProceed
      if go then do
        let (p, out) ← p.proceed P S i
        pure (p, out, true)
      else pure (p, [], false)
    else pure (p, [], false)
  else pure (p, [], false)

def BaseUpdate (i : Fin n) : ℕ → DNode M K D n → M → Option (Outcome (DNode M K D n × Out M n))
  | 0, _, _ => none
  | fuel + 1, p, msg =>
    match updateOnce P S i p msg with
    | .error fault => some (.error fault)
    | .ok (p, out, false) => some (.ok (p, out))
    | .ok (p, out, true) =>
      (BaseUpdate i fuel p msg).map fun
        | .error fault => .error fault
        | .ok (p, more) => .ok (p, out ++ more)

end

end ThresholdDsa.Rounds
