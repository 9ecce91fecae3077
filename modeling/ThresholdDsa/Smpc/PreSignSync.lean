/-
# Whether all nodes have the pre-sign data

At the end of a PreSign request every node tells the others whether it has stored
its data.  `SynchronizePreSignData` puts the node's own report into the list
`msgsyncpresign` of the worker, `Call` those that arrive; a report is taken up
while the list is shorter than the group and holds no equal text.  When the list is
as long as the group, a token ends the wait, and the answer is true if no report
in the list says `fail`.

The texts are counted, not the nodes: neither path looks at who sent a report.
`synchronized`: the answer is true only if every node of the group has reported
success, in the runs in which every peer that sends a report is a node of the
group and sends only one, none is taken up before the threshold is set, and no two
calls put equal texts into the list at once.  `one_peer_suffices`: otherwise one
peer makes up for a silent node.
-/
import ThresholdDsa.Smpc.Approval

namespace ThresholdDsa.Smpc.PreSignSync

open GoText Quorum Function List

/-! ## Reports -/

structure SyncPreSign where
  MsgPrex : Text
  EnodeID : Enode
  Msg : Text
  deriving DecidableEq

def success : Text := ['s', 'u', 'c', 'c', 'e', 's', 's']
def fail : Text := ['f', 'a', 'i', 'l']

/-- A node's request, and the reports that peers deliver to it.  `read` is the JSON of a text; `own`
is the text of the node's own report. -/
structure Session where
  E : Env
  read : Text → Option SyncPreSign
  read_nil : read [] = none
  (nonce groupid : Text)
  stored : Bool
  own : Text
  read_own : read own = some ⟨nonce, E.curEnode, if stored then success else fail⟩
  delivered : ℕ → Enode × Text

namespace Session

variable (S : Session)

/-- The nodes of the group; `w.ThresHold` is their number. -/
def nodes : List Enode := GetGroup S.E S.groupid

/-- The texts that go into the list; `none` stands for the node's own. -/
def text : Option ℕ → Text
  | none => S.own
  | some i => (S.delivered i).2

def peer : Option ℕ → Enode
  | none => S.E.curEnode
  | some i => (S.delivered i).1

/-- The report that is counted.  One that arrives has to name the request, for `FindWorker` to find
the worker. -/
def report : Option ℕ → Option SyncPreSign
  | none => S.read S.own
  | some i => (S.read (S.delivered i).2).filter fun sps =>
    sps.MsgPrex ≠ [] ∧ S.E.folding.EqualFold sps.MsgPrex S.nonce

/-- Whether the wait goes on after a text of the list. -/
def passes (val : Text) : Bool :=
  match S.read val with
  | none => false
  | some sps => !S.E.folding.EqualFold sps.Msg fail

end Session

/-! ## Steps -/

/-- The next thing a call does.  `entered` is only for the node's own, which sets the threshold
before. -/
inductive CallAt where
  | entered
  | arrived
  | find
  | push
  | count
  | send
  | returned
  deriving DecidableEq

inductive WaitAt where
  | waiting
  | checking (next : ℕ)
  | answered (reply : Bool)
  deriving DecidableEq

structure State where
  ThresHold : ℕ
  msgsyncpresign : List Text
  bsyncpresign : Bool
  calls : Option ℕ → CallAt
  wait : WaitAt

/-- A cleared worker, to which the request has just been assigned. -/
def State.initial : State where
  ThresHold := 5
  msgsyncpresign := []
  bsyncpresign := false
  calls
    | none => .entered
    | some _ => .arrived
  wait := .waiting

def State.call (st : State) (i : Option ℕ) (next : CallAt) : State :=
  { st with calls := update st.calls i next }

inductive Action where
  | call (i : Option ℕ)
  | wait
  | timeout

section

variable (S : Session)

/-- A send to the full channel blocks. -/
def callStep (st : State) (i : Option ℕ) : State :=
  match st.calls i with
  | .entered => { st.call i .arrived with ThresHold := S.nodes.length }
  | .arrived =>
    st.call i (if (S.report i).isSome ∧ st.msgsyncpresign.length < st.ThresHold then .find else .returned)
  | .find => st.call i (if Find S.E st.msgsyncpresign (S.text i) then .returned else .push)
  | .push => { st.call i .count with msgsyncpresign := st.msgsyncpresign ++ [S.text i] }
  | .count => st.call i (if st.msgsyncpresign.length = st.ThresHold then .send else .returned)
  | .send => if st.bsyncpresign then st else { st.call i .returned with bsyncpresign := true }
  | .returned => st

/-- The wait begins when the node's own report has been dealt with. -/
def waitStep (st : State) : State :=
  match st.wait with
  | .waiting =>
    if st.calls none = .returned ∧ st.bsyncpresign then
      { st with bsyncpresign := false, wait := .checking 0 }
    else st
  | .checking next =>
    match st.msgsyncpresign[next]? with
    | none => { st with wait := .answered true }
    | some val => { st with wait := if S.passes val then .checking (next + 1) else .answered false }
  | .answered _ => st

def step (st : State) : Action → State
  | .call i => callStep S st i
  | .wait => waitStep S st
  | .timeout =>
    if st.calls none = .returned ∧ st.wait = .waiting then { st with wait := .answered false } else st

def steps (st : State) (actions : List Action) : State := actions.foldl (step S) st

/-- A report is taken up only once the threshold is set, and put into the list only while no equal
text is there. -/
structure Careful (st : State) (action : Action) : Prop where
  counted : ∀ i, action = .call (some i) → st.calls (some i) = .arrived →
    st.ThresHold = S.nodes.length
  fresh : ∀ i, action = .call i → st.calls i = .push → Find S.E st.msgsyncpresign (S.text i) = false

inductive CarefulRun : State → Prop
  | start : CarefulRun .initial
  | step {st : State} (run : CarefulRun st) (action : Action) (careful : Careful S st action) :
      CarefulRun (step S st action)

/-- Every peer that reports on this request is a node of the group, reports success or failure, and
does so in one text. -/
structure OneReport : Prop where
  member : ∀ i sps, S.report i = some sps → S.peer i ∈ S.nodes
  genuine : ∀ i sps, S.report i = some sps → sps.Msg = success ∨ sps.Msg = fail
  single : ∀ i j sps sps', S.report i = some sps → S.report j = some sps' → S.peer i = S.peer j →
    S.E.folding.EqualFold (S.text i) (S.text j) = true

end

/-! ## What holds in every careful run -/

/-- Past the test of the length, and not returned. -/
def CallAt.busy : CallAt → Bool
  | .find => true
  | .push => true
  | .count => true
  | .send => true
  | _ => false

def CallAt.begun : CallAt → Bool
  | .entered => false
  | .arrived => false
  | _ => true

section

variable (S : Session)

/-- There is a report for every node, if no two are of one node. -/
def Full (st : State) : Prop := S.nodes.length ≤ st.msgsyncpresign.length

/-- The first `n` reports of the list do not say `fail`. -/
def Checked (l : List Text) (n : ℕ) : Prop := n ≤ l.length ∧ ∀ t ∈ l.take n, S.passes t = true

structure Inv (st : State) : Prop where
  threshold : st.calls none ≠ .entered → st.ThresHold = S.nodes.length
  busy : ∀ i, (st.calls i).busy = true → (S.report i).isSome ∧ st.ThresHold = S.nodes.length
  entries : ∀ t ∈ st.msgsyncpresign,
    ∃ i, S.text i = t ∧ (S.report i).isSome ∧ (st.calls i).begun = true
  distinct : (st.msgsyncpresign.map (List.map S.E.folding.fold)).Nodup
  sends : ∀ i, st.calls i = .send → Full S st
  token : st.bsyncpresign = true → Full S st
  checking : ∀ k, st.wait = .checking k → Full S st ∧ Checked S st.msgsyncpresign k
  answered : st.wait = .answered true → ∃ n, S.nodes.length ≤ n ∧ Checked S st.msgsyncpresign n

theorem inv_initial : Inv S .initial where
  threshold entered := absurd rfl entered
  busy i := by cases i <;> exact nofun
  entries _ := nofun
  distinct := nodup_nil
  sends i := by cases i <;> exact nofun
  token := nofun
  checking _ := nofun
  answered := nofun

variable {S} {st : State} {i : Option ℕ}

/-- A call goes on and leaves the list and the channel as they are. -/
theorem Inv.call {next : CallAt} (inv : Inv S st) (past : next.begun = true)
    (set : st.ThresHold = S.nodes.length) (reports : next.busy = true → (S.report i).isSome)
    (full : next = .send → Full S st) : Inv S (st.call i next) := by
  have at_next : ∀ j, (st.call i next).calls j = if j = i then next else st.calls j :=
    fun j => update_apply st.calls i next j
  refine { inv with
    threshold := fun _ => set
    busy := fun j => ?_
    entries := fun t mem => ?_
    sends := fun j => ?_ }
  · rw [at_next]
    split
    · rename_i same
      rw [same]
      exact fun busy => ⟨reports busy, set⟩
    · exact inv.busy j
  · obtain ⟨j, text, reported, begun⟩ := inv.entries t mem
    refine ⟨j, text, reported, ?_⟩
    rw [at_next]
    split
    · exact past
    · exact begun
  · rw [at_next]
    split
    · exact full
    · exact inv.sends j

/-- The list gets longer. -/
theorem Full.append {t : Text} {calls : Option ℕ → CallAt} (full : Full S st) :
    Full S { st with calls := calls, msgsyncpresign := st.msgsyncpresign ++ [t] } :=
  full.trans (by simp)

theorem Checked.append {l : List Text} {n : ℕ} (checked : Checked S l n) (t : Text) :
    Checked S (l ++ [t]) n := by
  refine ⟨checked.1.trans (by simp), ?_⟩
  rw [take_append_of_le_length checked.1]
  exact checked.2

theorem read_of_report {sps : SyncPreSign} (report : S.report i = some sps) :
    S.read (S.text i) = some sps := by
  cases i with
  | none => exact report
  | some i => exact (Option.filter_eq_some_iff.mp report).1

theorem text_ne_nil (reports : (S.report i).isSome) : S.text i ≠ [] := by
  intro empty
  obtain ⟨sps, report⟩ := Option.isSome_iff_exists.mp reports
  have read := read_of_report report
  rw [empty, S.read_nil] at read
  cases read

theorem Inv.push (inv : Inv S st) (pushes : st.calls i = .push)
    (fresh : Find S.E st.msgsyncpresign (S.text i) = false) :
    Inv S { st.call i .count with msgsyncpresign := st.msgsyncpresign ++ [S.text i] } := by
  obtain ⟨reports, set⟩ := inv.busy i (by rw [pushes]; rfl)
  have moved : Inv S (st.call i .count) := inv.call rfl set (fun _ => reports) nofun
  refine { moved with
    entries := fun t mem => ?_
    distinct := ?_
    sends := fun j send => (moved.sends j send).append
    token := fun token => (moved.token token).append
    checking := fun k wait => ?_
    answered := fun wait => ?_ }
  · rcases mem_append.mp mem with before | new
    · exact moved.entries t before
    · refine ⟨i, (mem_singleton.mp new).symm, reports, ?_⟩
      show (update st.calls i CallAt.count i).begun = true
      rw [update_self]
      rfl
  · rw [map_append, map_singleton]
    refine List.Nodup.append inv.distinct (nodup_singleton _) ?_
    simp only [disjoint_singleton, mem_map, not_exists, not_and]
    intro t mem same
    obtain ⟨j, text, reported, -⟩ := inv.entries t mem
    have found : Find S.E st.msgsyncpresign (S.text i) = true := by
      simp only [Find, decide_eq_true_eq, any_eq_true]
      exact ⟨text_ne_nil reports, t, mem, text ▸ text_ne_nil reported,
        Folding.equalFold_iff.mpr same⟩
    rw [fresh] at found
    cases found
  · obtain ⟨full, checked⟩ := inv.checking k wait
    exact ⟨full.append, checked.append _⟩
  · obtain ⟨n, enough, checked⟩ := inv.answered wait
    exact ⟨n, enough, checked.append _⟩

theorem Inv.enter (inv : Inv S st) (entered : st.calls i = .entered) :
    Inv S { st.call i .arrived with ThresHold := S.nodes.length } := by
  have at_next : ∀ j, (st.call i .arrived).calls j = if j = i then .arrived else st.calls j :=
    fun j => update_apply st.calls i .arrived j
  refine { inv with
    threshold := fun _ => rfl
    busy := fun j busy => ⟨?_, rfl⟩
    entries := fun t mem => ?_
    sends := fun j send => ?_ }
  · rw [at_next] at busy
    split at busy
    · cases busy
    · exact (inv.busy j busy).1
  · obtain ⟨j, text, reported, begun⟩ := inv.entries t mem
    refine ⟨j, text, reported, ?_⟩
    rw [at_next, if_neg]
    · exact begun
    · rintro rfl
      rw [entered] at begun
      cases begun
  · rw [at_next] at send
    split at send
    · cases send
    · exact inv.sends j send

theorem Inv.callStep (inv : Inv S st) (careful : Careful S st (.call i)) :
    Inv S (callStep S st i) := by
  unfold PreSignSync.callStep
  split
  · rename_i entered
    exact inv.enter entered
  · rename_i arrived
    have set : st.ThresHold = S.nodes.length := by
      cases i with
      | none => exact inv.threshold (by rw [arrived]; exact nofun)
      | some i => exact careful.counted i rfl arrived
    split
    · rename_i taken
      exact inv.call rfl set (fun _ => taken.1) nofun
    · exact inv.call rfl set nofun nofun
  · rename_i finds
    obtain ⟨reports, set⟩ := inv.busy i (by rw [finds]; rfl)
    split
    · exact inv.call rfl set nofun nofun
    · exact inv.call rfl set (fun _ => reports) nofun
  · rename_i pushes
    exact inv.push pushes (careful.fresh i rfl pushes)
  · rename_i counts
    obtain ⟨reports, set⟩ := inv.busy i (by rw [counts]; rfl)
    split
    · rename_i equal
      exact inv.call rfl set (fun _ => reports) fun _ => (equal.trans set).ge
    · exact inv.call rfl set nofun nofun
  · rename_i sends
    obtain ⟨reports, set⟩ := inv.busy i (by rw [sends]; rfl)
    split
    · exact inv
    · have moved : Inv S (st.call i .returned) := inv.call rfl set nofun nofun
      exact { moved with token := fun _ => inv.sends i sends }
  · exact inv

theorem Inv.waitStep (inv : Inv S st) : Inv S (waitStep S st) := by
  unfold PreSignSync.waitStep
  split
  · split
    · rename_i ready
      have checked : Checked S st.msgsyncpresign 0 := ⟨Nat.zero_le _, by simp⟩
      refine { inv with token := nofun, checking := fun k wait => ?_, answered := nofun }
      cases wait
      exact ⟨inv.token ready.2, checked⟩
    · exact inv
  · rename_i next at_next
    obtain ⟨full, bound, passed⟩ := inv.checking next at_next
    split
    · rename_i missing
      have all : st.msgsyncpresign.length ≤ next := List.getElem?_eq_none_iff.mp missing
      refine { inv with checking := nofun, answered := fun _ => ⟨next, ?_, bound, passed⟩ }
      exact full.trans all
    · rename_i val here
      obtain ⟨inside, rfl⟩ := List.getElem?_eq_some_iff.mp here
      split
      · rename_i passes
        refine { inv with checking := fun k wait => ?_, answered := nofun }
        cases wait
        refine ⟨full, inside, fun t mem => ?_⟩
        rw [take_succ_eq_append_getElem inside] at mem
        rcases mem_append.mp mem with before | last
        · exact passed t before
        · rw [mem_singleton.mp last]
          exact passes
      · exact { inv with checking := nofun, answered := nofun }
  · exact inv

theorem Inv.step (inv : Inv S st) {action : Action} (careful : Careful S st action) :
    Inv S (step S st action) := by
  cases action with
  | call i => exact inv.callStep careful
  | wait => exact inv.waitStep
  | timeout =>
    show Inv S (if _ then _ else _)
    split
    · exact { inv with checking := nofun, answered := nofun }
    · exact inv

theorem inv_of_run (run : CarefulRun S st) : Inv S st := by
  induction run with
  | start => exact inv_initial S
  | step _ action careful ih => exact ih.step careful

end

/-- The answer is true only if every node of the group has reported success. -/
theorem synchronized (S : Session) (one : OneReport S) (st : State) (run : CarefulRun S st)
    (reply : st.wait = .answered true) :
    ∀ node ∈ S.nodes, ∃ i sps, (st.calls i).begun = true ∧ S.peer i = node ∧
      S.report i = some sps ∧ sps.Msg = success := by
  intro node mem
  have inv := inv_of_run run
  obtain ⟨n, enough, inside, passed⟩ := inv.answered reply
  let votes := st.msgsyncpresign.take n
  let Holds (t : Text) (node : Enode) : Prop :=
    ∃ i, S.text i = t ∧ (S.report i).isSome ∧ (st.calls i).begun = true ∧ S.peer i = node
  have distinct : (votes.map (List.map S.E.folding.fold)).Nodup :=
    inv.distinct.sublist ((take_sublist n _).map _)
  have seated : ∀ t ∈ votes, ∃ node ∈ S.nodes, Holds t node := by
    intro t t_mem
    obtain ⟨i, text, reported, begun⟩ := inv.entries t (mem_of_mem_take t_mem)
    obtain ⟨sps, report⟩ := Option.isSome_iff_exists.mp reported
    exact ⟨S.peer i, one.member i sps report, i, text, reported, begun, rfl⟩
  have single : ∀ {t t' node}, Holds t node → Holds t' node →
      t.map S.E.folding.fold = t'.map S.E.folding.fold := by
    rintro t t' node ⟨i, rfl, reported, -, here⟩ ⟨j, rfl, reported', -, here'⟩
    obtain ⟨sps, report⟩ := Option.isSome_iff_exists.mp reported
    obtain ⟨sps', report'⟩ := Option.isSome_iff_exists.mp reported'
    exact Folding.equalFold_iff.mp (one.single i j sps sps' report report' (here.trans here'.symm))
  have long : S.nodes.length ≤ votes.length := by
    rw [length_take, Nat.min_eq_left inside]
    exact enough
  obtain ⟨t, t_mem, i, text, reported, begun, here⟩ :=
    every_seat_voted Holds distinct seated single long mem
  obtain ⟨sps, report⟩ := Option.isSome_iff_exists.mp reported
  refine ⟨i, sps, begun, here, report, ?_⟩
  rcases one.genuine i sps report with succeeded | failed
  · exact succeeded
  · have goes_on := passed t t_mem
    rw [← text, Session.passes, read_of_report report] at goes_on
    simp [failed, Folding.equalFold_refl] at goes_on

/-! ## Runs by schedule -/

section

variable (S : Session)

/-- The two conditions of a careful step, as a test. -/
def checks (st : State) : Action → Bool
  | .call i =>
    (st.calls i ≠ .arrived ∨ i = none ∨ st.ThresHold = S.nodes.length) ∧
      (st.calls i ≠ .push ∨ Find S.E st.msgsyncpresign (S.text i) = false)
  | _ => true

def checksAll (st : State) : List Action → Bool
  | [] => true
  | action :: rest => checks S st action && checksAll (step S st action) rest

variable {S}

theorem careful_of_checks {st : State} {action : Action} (checked : checks S st action = true) :
    Careful S st action := by
  refine ⟨fun i called arrived => ?_, fun i called pushes => ?_⟩
  · subst called
    simpa [checks, arrived] using checked
  · subst called
    simpa [checks, pushes] using checked

theorem carefulRun_steps {st : State} (run : CarefulRun S st) {actions : List Action}
    (checked : checksAll S st actions = true) : CarefulRun S (steps S st actions) := by
  induction actions generalizing st with
  | nil => exact run
  | cons action rest ih =>
    obtain ⟨here, there⟩ := Bool.and_eq_true_iff.mp checked
    exact ih (run.step action (careful_of_checks here)) there

end

/-! ## A group of three -/

namespace ThreeNodes

def node (c : Char) : Enode := List.replicate 128 c

theorem node_length (_ : Text) : ∀ n ∈ [node 'a', node 'b', node 'c'], n.length = 128 := by
  simp [node]

def env : Env where
  folding := lowerFolding
  ToLower := List.map Char.toLower
  Keccak256Hash := id
  digest _ _ := 0
  groups _ := [node 'a', node 'b', node 'c']
  enode_length := node_length
  decode _ := none
  curEnode := node 'a'
  MaxAcceptTime := 0

/-- A node and a sign; blanks between them do not count, as in JSON. -/
def read (t : Text) : Option SyncPreSign :=
  match t.filter (· ≠ ' ') with
  | [c, sign] => some ⟨['n'], node c, if sign = '+' then success else fail⟩
  | _ => none

theorem read_empty : read [] = none := rfl

theorem read_plus : read ['a', '+'] = some ⟨['n'], node 'a', success⟩ := rfl

def session (delivered : ℕ → Enode × Text) : Session where
  E := env
  read := read
  read_nil := read_empty
  nonce := ['n']
  groupid := List.replicate 128 '0'
  stored := true
  own := ['a', '+']
  read_own := read_plus
  delivered

/-- Each of the others reports its success. -/
def honest : Session := session fun i => if i = 0 then (node 'b', ['b', '+']) else (node 'c', ['c', '+'])

/-- One peer reports twice, with a blank more; the other reports its failure. -/
def twice : Session := session fun i =>
  if i = 0 then (node 'c', ['c', '+']) else if i = 1 then (node 'c', ['c', ' ', '+'])
  else (node 'b', ['b', '-'])

/-- The node's own report, two that arrive, one more, and the wait. -/
def schedule : List Action :=
  List.replicate 5 (.call none) ++ List.replicate 4 (.call (some 0)) ++
    List.replicate 5 (.call (some 1)) ++ [.call (some 2)] ++ List.replicate 5 .wait

theorem honest_reports (i : Option ℕ) :
    (honest.peer i = node 'a' ∧ honest.text i = ['a', '+']) ∨
      (honest.peer i = node 'b' ∧ honest.text i = ['b', '+']) ∨
      (honest.peer i = node 'c' ∧ honest.text i = ['c', '+']) := by
  match i with
  | none => exact .inl ⟨rfl, rfl⟩
  | some 0 => exact .inr (.inl ⟨rfl, rfl⟩)
  | some (_ + 1) => exact .inr (.inr ⟨rfl, rfl⟩)

theorem honest_oneReport : OneReport honest := by
  have nodes : honest.nodes = [node 'a', node 'b', node 'c'] := by decide +kernel
  refine ⟨fun i _ _ => ?_, fun i sps report => .inl ?_, fun i j _ _ _ _ same => ?_⟩
  · rw [nodes]
    rcases honest_reports i with ⟨peer, -⟩ | ⟨peer, -⟩ | ⟨peer, -⟩ <;> simp [peer]
  · have read := read_of_report report
    rcases honest_reports i with ⟨-, text⟩ | ⟨-, text⟩ | ⟨-, text⟩ <;>
    · rw [text] at read
      cases read
      rfl
  · have apart : node 'a' ≠ node 'b' ∧ node 'a' ≠ node 'c' ∧ node 'b' ≠ node 'c' := by decide +kernel
    have texts : honest.text i = honest.text j := by
      rcases honest_reports i with ⟨peer, text⟩ | ⟨peer, text⟩ | ⟨peer, text⟩ <;>
        rcases honest_reports j with ⟨peer', text'⟩ | ⟨peer', text'⟩ | ⟨peer', text'⟩ <;>
        rw [peer, peer'] at same <;> grind
    rw [texts]
    exact Folding.equalFold_refl _ _

theorem synchronized_honest :
    (OneReport honest ∧ CarefulRun honest (steps honest .initial schedule) ∧
      (steps honest .initial schedule).wait = .answered true) ∧
    ∀ node ∈ honest.nodes, ∃ i sps, ((steps honest .initial schedule).calls i).begun = true ∧
      honest.peer i = node ∧ honest.report i = some sps ∧ sps.Msg = success := by
  have run : CarefulRun honest (steps honest .initial schedule) :=
    carefulRun_steps .start (by decide +kernel)
  have reply : (steps honest .initial schedule).wait = .answered true := by decide +kernel
  exact ⟨⟨honest_oneReport, run, reply⟩, synchronized honest honest_oneReport _ run reply⟩

/-- Two reports of one peer and the node's own fill the list: the answer is true, though all that the
third node reports is its failure. -/
theorem one_peer_suffices :
    node 'b' ∈ twice.nodes ∧ (steps twice .initial schedule).wait = .answered true ∧
      ((steps twice .initial schedule).calls (some 2)).begun = true ∧
      twice.peer (some 2) = node 'b' ∧
      ∀ i sps, twice.peer i = node 'b' → twice.report i = some sps → sps.Msg = fail := by
  refine ⟨by decide +kernel, by decide +kernel, by decide +kernel, rfl, fun i sps here report => ?_⟩
  match i with
  | none => exact absurd here (by decide +kernel)
  | some 0 => exact absurd here (by decide +kernel)
  | some 1 => exact absurd here (by decide +kernel)
  | some (_ + 2) =>
    cases read_of_report report
    rfl

end ThreeNodes

end ThresholdDsa.Smpc.PreSignSync
