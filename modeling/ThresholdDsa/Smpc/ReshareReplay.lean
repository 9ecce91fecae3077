/-
# How often a RESHARE transaction starts a run

A node with any number of RESHARE commands in the hands of its workers.  Whenever a
RESHARE transaction is delivered and passes `CheckRaw`, `DoReq` saves a new record
under its key and a new wait begins.  `DoReq` asks neither for the nonce of the
transaction (`SetReShareNonce` is never called) nor for a record under its key, and
the key does not contain the nonce.

One wait starts at most one run.  `reshare_starts_once`: as long as a transaction is
delivered again only after all its earlier waits have been refused, it starts at
most one run.  `reshare_starts_again`: the same transaction and the same approval,
delivered twice, start two runs.
-/
import ThresholdDsa.Smpc.ReshareAgreement

namespace ThresholdDsa.Smpc.ReshareApproval

open Outcome GoText AcceptStatus List

/-! ## The node -/

/-- The records by key, and the commands with their workers. -/
structure Node where
  dbs : Text → Places
  jobs : List (Command × Job)

/-- A RESHARE transaction is handed to `DoReq`, or something happens at the worker of a command. -/
inductive Action where
  | deliver (raw : Text) (sender : Enode) (workid : ℤ)
  | act (i : ℕ) (e : Event)

/-- The events of other workers are events of their own here. -/
def Event.local : Event → Bool
  | .resaved _ => false
  | .updated _ => false
  | _ => true

section Histories

variable (E : ReshareEnv) (s : Node)

def Node.next : Action → Node
  | .deliver raw sender workid =>
    match DoReq E raw sender workid with
    | .ok (c, ac) =>
      { dbs := Function.update s.dbs c.key (save (s.dbs c.key) ac)
        jobs := s.jobs ++ [(c, Job.initial)] }
    | .error _ => s
  | .act i e =>
    match s.jobs[i]? with
    | some (c, j) =>
      if e.local then
        { dbs := Function.update s.dbs c.key (step E c (s.dbs c.key) j e).1
          jobs := s.jobs.set i (c, (step E c (s.dbs c.key) j e).2) }
      else s
    | none => s

def Node.runs (actions : List Action) : Node := actions.foldl (Node.next E) s

variable {E}

/-- The runs that a transaction has started. -/
def startedRuns (raw : Text) : ℕ :=
  s.jobs.countP fun p => p.1.raw = raw ∧ p.2.phase = .started

/-- The waits of a transaction that go on or have started a run. -/
def openRuns (raw : Text) : ℕ :=
  s.jobs.countP fun p => p.1.raw = raw ∧ p.2.phase ≠ .refused

/-- Every earlier wait of a delivered transaction has been refused. -/
def Renewed : Action → Prop
  | .deliver raw _ _ => ∀ p ∈ s.jobs, p.1.raw = raw → p.2.phase = .refused
  | .act _ _ => True

/-- Every action of a history meets the condition in the state before it. -/
def AllRenewed (E : ReshareEnv) (s : Node) : List Action → Prop
  | [] => True
  | a :: rest => Renewed s a ∧ AllRenewed E (s.next E a) rest

theorem startedRuns_le_openRuns (raw : Text) : startedRuns s raw ≤ openRuns s raw := by
  apply countP_mono_left
  intro p _ started
  simp only [decide_eq_true_eq] at started ⊢
  refine ⟨started.1, ?_⟩
  rw [started.2]
  decide

/-- A refused wait stays refused. -/
theorem step_refused {c : Command} {db : Places} {j : Job} {e : Event} (refused : j.phase = .refused) :
    (step E c db j e).2.phase = .refused := by
  by_cases token : e = .token
  · simp [token, step, refused]
  · by_cases timeout : e = .timeout
    · simp [timeout, step, refused]
    · exact (step_phase token timeout).trans refused

theorem raw_of_doReq {raw : Text} {sender : Enode} {workid : ℤ} {c : Command} {ac : AcceptReShareData}
    (accepted : DoReq E raw sender workid = .ok (c, ac)) : c.raw = raw := by
  simp only [DoReq, bind_eq_ok, Prod.exists] at accepted
  obtain ⟨-, -, key, ⟨sender, nonce, data⟩, -, rest⟩ := accepted
  cases data with
  | acceptReShare => cases rest
  | reShare rh =>
    simp only [eq_ok, Prod.exists, Prod.mk.injEq] at rest
    obtain ⟨sigs, -, limit, nodecnt, -, command_eq, -⟩ := rest
    rw [← command_eq]

/-- What happens at a worker opens no wait. -/
theorem openRuns_act (i : ℕ) (e : Event) (raw : Text) :
    openRuns (s.next E (.act i e)) raw ≤ openRuns s raw := by
  simp only [Node.next]
  split
  · rename_i c j at_i
    split
    · obtain ⟨i_lt, at_i⟩ := List.getElem?_eq_some_iff.mp at_i
      simp only [openRuns]
      rw [countP_set i_lt, at_i]
      have kept : c.raw = raw ∧ (step E c (s.dbs c.key) j e).2.phase ≠ .refused →
          c.raw = raw ∧ j.phase ≠ .refused :=
        fun open' => ⟨open'.1, fun refused => open'.2 (step_refused refused)⟩
      have counted : c.raw = raw ∧ j.phase ≠ .refused →
          0 < s.jobs.countP fun p => p.1.raw = raw ∧ p.2.phase ≠ .refused := by
        intro open'
        rw [countP_pos_iff]
        refine ⟨(c, j), ?_, by simpa using open'⟩
        rw [← at_i]
        exact getElem_mem i_lt
      simp only [decide_eq_true_eq]
      split
      · rename_i before
        have := counted before
        split <;> omega
      · rename_i before
        rw [if_neg fun after => before (kept after)]
        omega
    · exact le_refl _
  · exact le_refl _

/-- A delivery opens one wait of its transaction, and none of another. -/
theorem openRuns_deliver (raw' : Text) (sender : Enode) (workid : ℤ) (raw : Text) :
    openRuns (s.next E (.deliver raw' sender workid)) raw ≤
      openRuns s raw + if raw' = raw then 1 else 0 := by
  simp only [Node.next]
  split
  · rename_i c ac accepted
    simp only [openRuns, countP_append, raw_of_doReq accepted, countP_singleton,
      decide_eq_true_eq]
    by_cases same : raw' = raw
    · rw [if_pos same]
      split <;> omega
    · rw [if_neg fun both => same both.1, if_neg same]
  · omega

theorem openRuns_next {s : Node} {a : Action} (renewed : Renewed s a) {raw : Text}
    (once : openRuns s raw ≤ 1) : openRuns (s.next E a) raw ≤ 1 := by
  cases a with
  | act i e => exact (openRuns_act s i e raw).trans once
  | deliver raw' sender workid =>
    have delivered := openRuns_deliver (E := E) s raw' sender workid raw
    by_cases same : raw' = raw
    · have none_open : openRuns s raw = 0 := by
        rw [openRuns, countP_eq_zero]
        intro p mem
        simp only [decide_eq_true_eq, not_and, not_not]
        exact fun of_raw => renewed p mem (of_raw.trans same.symm)
      rw [none_open, if_pos same] at delivered
      exact delivered
    · rw [if_neg same] at delivered
      omega

theorem openRuns_runs {s : Node} {actions : List Action} (renewed : AllRenewed E s actions) {raw : Text}
    (once : openRuns s raw ≤ 1) : openRuns (s.runs E actions) raw ≤ 1 := by
  induction actions generalizing s with
  | nil => exact once
  | cons a rest ih => exact ih renewed.2 (openRuns_next renewed.1 once)

end Histories

/-- In every history of a node in which each RESHARE transaction is delivered again only when all its
earlier waits have been refused, every transaction starts at most one run. -/
theorem reshare_starts_once (E : ReshareEnv) (dbs : Text → Places) (actions : List Action)
    (renewed : AllRenewed E ⟨dbs, []⟩ actions) (raw : Text) :
    startedRuns (Node.runs E ⟨dbs, []⟩ actions) raw ≤ 1 :=
  (startedRuns_le_openRuns _ raw).trans (openRuns_runs renewed (Nat.zero_le 1))

namespace TwoNodes

/-- The command is delivered, the other node agrees, and the wait of worker `i` ends. -/
def round (i : ℕ) : List Action :=
  [.deliver ['r'] (Smpc.TwoNodes.node 'a') 0, .act i .own, .act i (.reply ['y']),
    .act i (.settle ['y']), .act i .token]

/-- The first wait runs out, and the transaction is delivered again. -/
def renewed : List Action :=
  .deliver ['r'] (Smpc.TwoNodes.node 'a') 0 :: .act 0 .timeout :: round 1

def empty : Node := ⟨fun _ _ => none, []⟩

end TwoNodes

theorem reshare_starts_once_delivered :
    startedRuns (Node.runs TwoNodes.env TwoNodes.empty TwoNodes.renewed) ['r'] = 1 ∧
    startedRuns (Node.runs TwoNodes.env TwoNodes.empty TwoNodes.renewed) ['r'] ≤ 1 := by
  refine ⟨by decide +kernel, reshare_starts_once TwoNodes.env (fun _ _ => none) TwoNodes.renewed
    ⟨fun _ mem => absurd mem not_mem_nil, trivial, ?_, trivial, trivial, trivial, trivial, trivial⟩ _⟩
  show ∀ p ∈ _, _ → _
  decide +kernel

/-- The transaction and its approval are delivered a second time. -/
theorem reshare_starts_again :
    (DoReq TwoNodes.env ['r'] (Smpc.TwoNodes.node 'a') 0).isOk = true ∧
    startedRuns (Node.runs TwoNodes.env TwoNodes.empty (TwoNodes.round 0 ++ TwoNodes.round 1)) ['r'] =
      2 := by
  decide +kernel

end ThresholdDsa.Smpc.ReshareApproval
