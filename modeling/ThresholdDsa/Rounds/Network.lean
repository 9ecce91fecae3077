/-
# Honest nodes exchanging the messages of their rounds

The nodes of a group, the messages sent to each of them and those it has been
given.  A step is a `BaseStart`, or a `BaseUpdate` of a started node with a message
that was sent to it; a message may be given in any order and any number of times.

`Synced` is the invariant: it relates what a node has to what the others have
sent, so that the rounds of the nodes form a `LockStep.State`.  `synchronised`
collects what follows for every reachable state.
-/
import ThresholdDsa.Lib.LockStep
import ThresholdDsa.Rounds.Machine

namespace ThresholdDsa.Rounds

set_option linter.unusedSectionVars false

open Outcome SlotStore Function List

variable {M K I D : Type} {n : ℕ}

structure Net (M K D : Type) (n : ℕ) where
  nodes : Fin n → DNode M K D n
  (sent delivered : Fin n → List M)

def Net.initial (id : Fin n → List Char) (node : Fin n → Node M K D n) : Net M K D n where
  nodes i := ⟨id i, none, node i, []⟩
  sent _ := []
  delivered _ := []

/-- Node `i` has become `p` and sent `out`. -/
def Net.put (N : Net M K D n) (i : Fin n) (p : DNode M K D n) (out : Out M n) : Net M K D n :=
  { N with
    nodes := update N.nodes i p
    sent := fun j => N.sent j ++ (out.filter (·.1 = j)).map Prod.snd }

def Net.give (N : Net M K D n) (i : Fin n) (m : M) : Net M K D n :=
  { N with delivered := update N.delivered i (N.delivered i ++ [m]) }

section

variable [DecidableEq K] [DecidableEq I] (P : Protocol M K I D n) (S : Script M K D n)

inductive Net.Step (N : Net M K D n) : Net M K D n → Prop
  | start {i : Fin n} {p : DNode M K D n} {out : Out M n}
      (started : BaseStart P S i (N.nodes i) = .ok (p, out)) : Net.Step N (N.put i p out)
  | deliver {i : Fin n} {m : M} {fuel : ℕ} {p : DNode M K D n} {out : Out M n}
      (awake : (N.nodes i).rnd.isSome) (sent : m ∈ N.sent i)
      (updated : BaseUpdate P S i fuel (N.nodes i) m = some (.ok (p, out))) :
      Net.Step N ((N.put i p out).give i m)

/-- Reachable in one or more steps, the nodes having no messages at first. -/
inductive Net.Reachable (id : Fin n → List Char) (node : Fin n → Node M K D n) : Net M K D n → Prop
  | first {N : Net M K D n} (step : (Net.initial id node).Step P S N) : Net.Reachable id node N
  | next {N N' : Net M K D n} (reached : Net.Reachable id node N) (step : N.Step P S N') :
      Net.Reachable id node N'

end

variable {N : Net M K D n}

theorem Net.mem_sent_put {i j : Fin n} {p : DNode M K D n} {out : Out M n}
    {m : M} : m ∈ (N.put i p out).sent j ↔ m ∈ N.sent j ∨ (j, m) ∈ out := by
  simp only [put, mem_append, mem_map, mem_filter, decide_eq_true_eq, Prod.exists]
  constructor
  · rintro (old | ⟨j', m', ⟨mem, rfl⟩, rfl⟩)
    · exact .inl old
    · exact .inr mem
  · rintro (old | mem)
    · exact .inl old
    · exact .inr ⟨j, m, ⟨mem, rfl⟩, rfl⟩

/-! ## The invariant -/

/-- What holds between two steps; `round` is the round of each started node. -/
structure Synced (P : Protocol M K I D n) (ID : Fin n → I) (round : Fin n → Option ℕ)
    (N : Net M K D n) : Prop where
  asleep : ∀ {i}, round i = none → Asleep P ID (N.nodes i)
  awake : ∀ {i r}, round i = some r → InRound P ID i (N.nodes i) r
  waits : ∀ {i r}, round i = some r → r < P.final → ∃ j, ¬ held P ID (N.nodes i).node.temp r j
  sent : ∀ {i m}, m ∈ N.sent i →
    ∃ j, j ≠ i ∧ From P ID j m ∧ ∃ q r, P.kind m ∈ P.lists q ∧ round j = some r ∧ q ≤ r
  every : ∀ {i j q r list}, round j = some r → q ≤ r → list ∈ P.lists q → i ≠ j →
    ∃ m ∈ N.sent i, From P ID j m ∧ P.kind m = list
  source : ∀ {i j q list}, list ∈ P.lists q → has P ID (N.nodes i).node.temp list j →
    ∃ r, round j = some r ∧ q ≤ r
  delivered : ∀ {i j m}, m ∈ N.delivered i → From P ID j m →
    has P ID (N.nodes i).node.temp (P.kind m) j

section

variable {P : Protocol M K I D n} {ID : Fin n → I} {round : Fin n → Option ℕ} {N : Net M K D n}

def lockState (P : Protocol M K I D n) (ID : Fin n → I) (round : Fin n → Option ℕ)
    (N : Net M K D n) : LockStep.State (Fin n) where
  round := round
  got i q j := held P ID (N.nodes i).node.temp q j

theorem Synced.coherent (lawful : Lawful P) (synced : Synced P ID round N) :
    LockStep.Coherent P.first P.final (lockState P ID round N) where
  bounds at_round := ⟨(synced.awake at_round).lower, (synced.awake at_round).upper⟩
  sent {i q j} above below got := by
    obtain ⟨list, mem⟩ := exists_mem_of_ne_nil _ (lawful.nonempty above below)
    exact synced.source mem (got list mem)
  passed at_round _ below j := (synced.awake at_round).passed below j
  waits at_round below := synced.waits at_round below

/-- Node `i` has come to round `r`, sending its messages of the rounds from `lo` on; those of the
rounds before had been sent. -/
theorem Synced.move (synced : Synced P ID round N) {i : Fin n} {p : DNode M K D n} {lo r : ℕ}
    {out : Out M n} (inRound : InRound P ID i p r)
    (waits : r < P.final → ∃ j, ¬ held P ID p.node.temp r j)
    (later : ∀ {r'}, round i = some r' → r' ≤ r)
    (early : ∀ {q list}, q < lo → list ∈ P.lists q → ∃ r', round i = some r' ∧ q ≤ r')
    (sends : Sends P ID i lo (r + 1) out)
    (mono : ∀ {list j}, has P ID (N.nodes i).node.temp list j → has P ID p.node.temp list j)
    (source : ∀ {j q list}, list ∈ P.lists q → has P ID p.node.temp list j →
      j = i ∨ ∃ r', round j = some r' ∧ q ≤ r') :
    Synced P ID (update round i (some r)) (N.put i p out) := by
  -- rounds only grow
  have reached : ∀ {j q r'}, round j = some r' → q ≤ r' →
      ∃ r'', update round i (some r) j = some r'' ∧ q ≤ r'' := by
    intro j q r' at_j le
    by_cases same : j = i
    · rw [same] at at_j ⊢
      exact ⟨r, update_self _ _ _, le.trans (later at_j)⟩
    · rw [update_of_ne same]
      exact ⟨r', at_j, le⟩
  constructor
  case asleep =>
    intro j none_j
    by_cases same : j = i
    · rw [same, update_self] at none_j
      cases none_j
    · rw [update_of_ne same] at none_j
      simp only [Net.put, update_of_ne same]
      exact synced.asleep none_j
  case awake =>
    intro j r' at_j
    by_cases same : j = i
    · rw [same, update_self] at at_j
      cases at_j
      rw [same]
      simp only [Net.put, update_self]
      exact inRound
    · rw [update_of_ne same] at at_j
      simp only [Net.put, update_of_ne same]
      exact synced.awake at_j
  case waits =>
    intro j r' at_j below
    by_cases same : j = i
    · rw [same, update_self] at at_j
      cases at_j
      rw [same]
      simp only [Net.put, update_self]
      exact waits below
    · rw [update_of_ne same] at at_j
      simp only [Net.put, update_of_ne same]
      exact synced.waits at_j below
  case sent =>
    intro j m mem
    rcases Net.mem_sent_put.mp mem with old | new
    · obtain ⟨x, other, sender, q, r', kind_mem, at_x, le⟩ := synced.sent old
      obtain ⟨r'', at_x, le⟩ := reached at_x le
      exact ⟨x, other, sender, q, r'', kind_mem, at_x, le⟩
    · obtain ⟨other, sender, q, -, below, kind_mem⟩ := sends.honest new
      exact ⟨i, other.symm, sender, q, r, kind_mem, update_self _ _ _, by omega⟩
  case every =>
    intro j x q r' list at_x le mem other
    by_cases same : x = i
    · rw [same, update_self] at at_x
      cases at_x
      rw [same] at other ⊢
      by_cases old : q < lo
      · obtain ⟨r₀, at_i, le₀⟩ := early old mem
        obtain ⟨m, sent, sender, kind_eq⟩ := synced.every at_i le₀ mem other
        exact ⟨m, Net.mem_sent_put.mpr (.inl sent), sender, kind_eq⟩
      · obtain ⟨m, sent, kind_eq⟩ := sends.every (not_lt.mp old) (by omega) mem other
        exact ⟨m, Net.mem_sent_put.mpr (.inr sent), (sends.honest sent).2.1, kind_eq⟩
    · rw [update_of_ne same] at at_x
      obtain ⟨m, sent, sender, kind_eq⟩ := synced.every at_x le mem other
      exact ⟨m, Net.mem_sent_put.mpr (.inl sent), sender, kind_eq⟩
  case source =>
    intro j x q list mem there
    by_cases same : j = i
    · rw [same] at there
      simp only [Net.put, update_self] at there
      rcases source mem there with rfl | ⟨r', at_x, le⟩
      · refine ⟨r, update_self _ _ _, not_lt.mp fun ahead => ?_⟩
        exact inRound.ahead ahead list mem there
      · exact reached at_x le
    · simp only [Net.put, update_of_ne same] at there
      obtain ⟨r', at_x, le⟩ := synced.source mem there
      exact reached at_x le
  case delivered =>
    intro j x m mem sender
    have there := synced.delivered mem sender
    by_cases same : j = i
    · rw [same] at there ⊢
      simp only [Net.put, update_self]
      exact mono there
    · simp only [Net.put, update_of_ne same]
      exact there

theorem Synced.give (synced : Synced P ID round N) {i : Fin n} {m : M}
    (there : ∀ {j}, From P ID j m → has P ID (N.nodes i).node.temp (P.kind m) j) :
    Synced P ID round (N.give i m) := by
  refine { synced with delivered := ?_ }
  intro x j m' mem sender
  by_cases same : x = i
  · rw [same] at mem ⊢
    simp only [Net.give, update_self, mem_append, mem_singleton] at mem
    rcases mem with old | rfl
    · exact synced.delivered old sender
    · exact there sender
  · simp only [Net.give, update_of_ne same] at mem
    exact synced.delivered mem sender

end

/-! ## Steps and runs -/

section

variable [DecidableEq K] [DecidableEq I] {P : Protocol M K I D n} {S : Script M K D n}
  {ID : Fin n → I} {round : Fin n → Option ℕ} {N N' : Net M K D n} {id : Fin n → List Char}
  {node : Fin n → Node M K D n} {i : Fin n} {p : DNode M K D n}
  {result : Outcome (DNode M K D n × Out M n)}

theorem baseUpdate_succ {fuel : ℕ} {m : M} (updated : BaseUpdate P S i fuel p m = some result) :
    BaseUpdate P S i (fuel + 1) p m = some result := by
  induction fuel generalizing p result with
  | zero => cases updated
  | succ fuel ih =>
    rw [BaseUpdate] at updated ⊢
    split at updated
    · exact updated
    · exact updated
    · rename_i p' out once
      obtain ⟨inner, again, rfl⟩ := Option.map_eq_some_iff.mp updated
      rw [ih again]
      rfl

theorem baseUpdate_two {fuel : ℕ} {m : M} (updated : BaseUpdate P S i fuel p m = some result) :
    BaseUpdate P S i (fuel + 2) p m = some result :=
  baseUpdate_succ (baseUpdate_succ updated)

/-- `BaseUpdate` with any message that was sent. -/
theorem Synced.handles (lawful : Lawful P) (honest : Honest P ID S) (synced : Synced P ID round N)
    {r : ℕ} (at_i : round i = some r) {m : M} (sent : m ∈ N.sent i) :
    ∃ j p r' out, (∀ fuel, BaseUpdate P S i (fuel + 2) (N.nodes i) m = some (.ok (p, out))) ∧
      Handled P ID i j m (N.nodes i) r p r' out ∧ From P ID j m ∧
      ∃ q r'', P.kind m ∈ P.lists q ∧ round j = some r'' ∧ q ≤ r'' := by
  obtain ⟨j, other, sender, q, r'', kind_mem, at_j, le⟩ := synced.sent sent
  have coherent := synced.coherent lawful
  have near := coherent.le_succ at_i at_j
  obtain ⟨p, out, r', updated, handled⟩ := baseUpdate_spec (m := m) lawful honest
    (synced.awake at_i) (synced.waits at_i) sender other (by
      intro far
      have missing := coherent.not_got_two_ahead at_i far j
      simp only [lockState, held] at missing
      push Not at missing
      obtain ⟨list, mem, missing⟩ := missing
      refine ⟨j, other, list, mem, fun same => ?_, missing⟩
      rw [same] at mem
      have := lawful.apart mem kind_mem
      omega)
  exact ⟨j, p, r', out, updated, handled, sender, q, r'', kind_mem, at_j, le⟩

theorem Synced.step (two : 2 ≤ n) (lawful : Lawful P) (honest : Honest P ID S)
    (synced : Synced P ID round N) (step : N.Step P S N') :
    ∃ i r', Synced P ID (update round i (some r')) N' ∧
      ∀ {r}, round i = some r → r ≤ r' := by
  cases step with
  | @start i p out started =>
    cases at_i : round i with
    | some r =>
      -- a started node refuses to be started again
      obtain ⟨ok, at_round, -, -⟩ := (synced.awake at_i).rnd
      rw [BaseStart, at_round] at started
      split at started
      · cases started
      · cases started
    | none =>
      have asleep := synced.asleep at_i
      have named : (N.nodes i).DNodeID ≠ [] := by
        intro unnamed
        rw [BaseStart, if_pos unnamed] at started
        cases started
      obtain ⟨p', out', started', inRound, grew, sends⟩ :=
        baseStart_spec (i := i) lawful honest asleep named
      cases started.symm.trans started'
      have later : ∀ {r}, round i = some r → r ≤ P.first :=
        fun at_i' => by cases at_i.symm.trans at_i'
      refine ⟨i, P.first, synced.move inRound ?_ later ?_ sends ?_ ?_, later⟩
      · -- only the node's own messages are there
        intro below
        have : Nontrivial (Fin n) := Fin.nontrivial_iff_two_le.mpr two
        obtain ⟨j, other⟩ := exists_ne i
        obtain ⟨list, mem⟩ := exists_mem_of_ne_nil _ (lawful.nonempty le_rfl below)
        refine ⟨j, fun there => ?_⟩
        rcases (grew list j).mp (there list mem) with old | ⟨same, -⟩
        · exact asleep.empty list j old
        · exact other same
      · intro q list early mem
        have := (lawful.within mem).1
        omega
      · exact fun there => absurd there (asleep.empty _ _)
      · intro j q list mem there
        rcases (grew list j).mp there with old | ⟨same, -⟩
        · exact absurd old (asleep.empty list j)
        · exact .inl same
  | @deliver i m fuel p out awake sent updated =>
    obtain ⟨r, at_i⟩ : ∃ r, round i = some r := by
      cases at_i : round i with
      | some r => exact ⟨r, rfl⟩
      | none =>
        rw [(synced.asleep at_i).rnd] at awake
        cases awake
    obtain ⟨j, p', r', out', updated', handled, sender, q, r'', kind_mem, at_j, le⟩ :=
      synced.handles lawful honest at_i sent
    cases (baseUpdate_two updated).symm.trans (updated' fuel)
    have there : has P ID p.node.temp (P.kind m) j :=
      (handled.has_iff _ j).mpr (.inl (.inr ⟨rfl, rfl⟩))
    have later : ∀ {r}, round i = some r → r ≤ r' := by
      intro r₀ at_i'
      cases at_i.symm.trans at_i'
      exact handled.le
    refine ⟨i, r', (synced.move handled.inRound handled.waits later ?_ handled.sends ?_ ?_).give ?_,
      later⟩
    · exact fun early _ => ⟨r, at_i, by omega⟩
    · exact fun old => (handled.has_iff _ _).mpr (.inl (.inl old))
    · intro x q' list mem there
      rcases (handled.has_iff list x).mp there with (old | ⟨rfl, rfl⟩) | ⟨same, -⟩
      · exact .inr (synced.source mem old)
      · rw [lawful.apart mem kind_mem]
        exact .inr ⟨r'', at_j, le⟩
      · exact .inl same
    · intro x sender'
      rw [honest.distinct (sender'.id.symm.trans sender.id)]
      simp only [Net.put, update_self]
      exact there

theorem Synced.initial (empty : ∀ i, (node i).temp = Store.empty) :
    Synced P ID (fun _ => none) (Net.initial id node) := by
  have nothing : ∀ i list j, ¬ has P ID (node i).temp list j := by
    intro i list j there
    obtain ⟨m, mem, -⟩ := there
    rw [empty i] at mem
    cases list with
    | none => exact not_mem_nil mem
    | some k =>
      obtain ⟨x, held⟩ := Store.mem_entries_some.mp mem
      cases held
  constructor
  case asleep =>
    intro i _
    refine ⟨rfl, rfl, ?_, nothing i⟩
    have orderly : Orderly P ID (Store.empty : Store M K n) := by
      constructor
      · intro list m mem
        cases list with
        | none => cases mem
        | some k =>
          obtain ⟨x, held⟩ := Store.mem_entries_some.mp mem
          cases held
      · exact fun held => by cases held
      · exact fun m mem => by cases mem
      · exact nodup_nil
    rw [← empty i] at orderly
    exact orderly
  case awake => exact fun at_i => by cases at_i
  case waits => exact fun at_i => by cases at_i
  case sent => exact fun mem => by cases mem
  case every => exact fun at_j => by cases at_j
  case source => exact fun _ there => absurd there (nothing _ _ _)
  case delivered => exact fun mem => by cases mem

theorem Synced.reachable (two : 2 ≤ n) (lawful : Lawful P) (honest : Honest P ID S)
    (empty : ∀ i, (node i).temp = Store.empty) (reached : Net.Reachable P S id node N) :
    ∃ round, Synced P ID round N ∧ ∃ i r, round i = some r := by
  induction reached with
  | first step =>
    obtain ⟨i, r, synced, -⟩ := (Synced.initial empty).step two lawful honest step
    exact ⟨_, synced, i, r, update_self _ _ _⟩
  | next _ step ih =>
    obtain ⟨round, synced, -⟩ := ih
    obtain ⟨i, r, synced, -⟩ := synced.step two lawful honest step
    exact ⟨_, synced, i, r, update_self _ _ _⟩

theorem Synced.all_final (lawful : Lawful P) (synced : Synced P ID round N)
    (began : ∃ i r, round i = some r) (all_delivered : ∀ i, ∀ m ∈ N.sent i, m ∈ N.delivered i)
    (i : Fin n) : round i = some P.final := by
  have arrived : ∀ {i j q r list}, round j = some r → q ≤ r → list ∈ P.lists q → i ≠ j →
      has P ID (N.nodes i).node.temp list j := by
    intro i j q r list at_j le mem other
    obtain ⟨m, sent, sender, kind_eq⟩ := synced.every at_j le mem other
    have there := synced.delivered (all_delivered i m sent) sender
    rwa [kind_eq] at there
  refine (synced.coherent lawful).all_final ?_ ?_ i
  · -- a node that was given a message of the one that began is not asleep
    intro j
    obtain ⟨i, r, at_i⟩ := began
    by_cases same : j = i
    · exact ⟨r, by rw [same]; exact at_i⟩
    · obtain ⟨list, mem⟩ := exists_mem_of_ne_nil _ (lawful.nonempty le_rfl lawful.order)
      have there := arrived at_i (synced.awake at_i).lower mem same
      cases at_j : round j with
      | some r' => exact ⟨r', at_j⟩
      | none => exact absurd there ((synced.asleep at_j).empty list i)
  · intro i j q r at_j _ le _ list mem
    by_cases same : i = j
    · rw [same]
      exact (synced.awake at_j).own le list mem
    · exact arrived at_j le mem same

/-- Whatever is delivered when: once a node has left the first round, every node has started and is
at most one round behind it. -/
theorem at_most_one_behind (two : 2 ≤ n) (lawful : Lawful P) (honest : Honest P ID S)
    (empty : ∀ i, (node i).temp = Store.empty) (reached : Net.Reachable P S id node N) {r : Round n}
    (at_i : (N.nodes i).rnd = some r) (left : P.first < r.number) (j : Fin n) :
    ∃ r', (N.nodes j).rnd = some r' ∧ r.number ≤ r'.number + 1 := by
  obtain ⟨round, synced, -⟩ := Synced.reachable two lawful honest empty reached
  cases round_i : round i with
  | none =>
    rw [(synced.asleep round_i).rnd] at at_i
    cases at_i
  | some q =>
    obtain ⟨ok, at_q, -⟩ := (synced.awake round_i).rnd
    cases at_i.symm.trans at_q
    change P.first < q at left
    have coherent := synced.coherent lawful
    obtain ⟨-, upper⟩ := coherent.bounds round_i
    -- the node has what node `j` sent in the round before
    have got := coherent.passed (q := q - 1) round_i (by omega) (by omega) j
    obtain ⟨q', round_j, sent⟩ := coherent.sent (by omega) (by omega) got
    obtain ⟨ok', at_j, -⟩ := (synced.awake round_j).rnd
    exact ⟨_, at_j, show q ≤ q' + 1 by omega⟩

end

/-! ## What holds in every reachable state -/

/-- The rounds of every node were started one after the other, each when all messages of the round
before were stored, and no step takes one back; every call that can be made returns; and when
everything sent has been delivered, all nodes are in the last round. -/
structure Synchronised [DecidableEq K] [DecidableEq I] (P : Protocol M K I D n)
    (S : Script M K D n) (N : Net M K D n) : Prop where
  rounds : ∀ {i r}, (N.nodes i).rnd = some r →
    (N.nodes i).log.map Started.number = List.range' P.first (r.number + 1 - P.first)
  advances : ∀ {N'}, N.Step P S N' → ∀ i,
    (N.nodes i).log.map Started.number <+: (N'.nodes i).log.map Started.number
  stored : ∀ {i}, ∀ e ∈ (N.nodes i).log, e.number ≠ P.first → e.stored = true
  starts : ∀ {i}, (N.nodes i).rnd = none → (N.nodes i).DNodeID ≠ [] →
    ∃ p out, BaseStart P S i (N.nodes i) = .ok (p, out)
  updates : ∀ {i}, (N.nodes i).rnd.isSome → ∀ m ∈ N.sent i,
    ∃ p out, ∀ fuel, BaseUpdate P S i (fuel + 2) (N.nodes i) m = some (.ok (p, out))
  finishes : (∀ i, ∀ m ∈ N.sent i, m ∈ N.delivered i) →
    ∀ i, ∃ r, (N.nodes i).rnd = some r ∧ r.number = P.final ∧ r.started = true

theorem synchronised [DecidableEq K] [DecidableEq I] {P : Protocol M K I D n}
    {S : Script M K D n} {ID : Fin n → I} {id : Fin n → List Char} {node : Fin n → Node M K D n}
    (two : 2 ≤ n) (lawful : Lawful P) (honest : Honest P ID S)
    (empty : ∀ i, (node i).temp = Store.empty) (reached : Net.Reachable P S id node N) :
    Synchronised P S N := by
  obtain ⟨round, synced, began⟩ := Synced.reachable two lawful honest empty reached
  have awake : ∀ {i}, (N.nodes i).rnd ≠ none → ∃ r, round i = some r := by
    intro i some_round
    cases at_i : round i with
    | some r => exact ⟨r, rfl⟩
    | none => exact absurd (synced.asleep at_i).rnd some_round
  constructor
  case rounds =>
    intro i r at_round
    obtain ⟨r', at_i⟩ := awake (i := i) (by rw [at_round]; simp)
    have inRound := synced.awake at_i
    obtain ⟨ok, at_round', -, -⟩ := inRound.rnd
    cases at_round.symm.trans at_round'
    exact inRound.log
  case advances =>
    intro N' step j
    cases at_j : round j with
    | none =>
      rw [(synced.asleep at_j).log]
      exact nil_prefix
    | some r =>
      obtain ⟨i, r', synced', later⟩ := synced.step two lawful honest step
      obtain ⟨r'', at_j', le⟩ : ∃ r'', update round i (some r') j = some r'' ∧ r ≤ r'' := by
        by_cases same : j = i
        · rw [same] at at_j ⊢
          exact ⟨r', update_self _ _ _, later at_j⟩
        · rw [update_of_ne same]
          exact ⟨r, at_j, le_rfl⟩
      rw [(synced.awake at_j).log, (synced'.awake at_j').log,
        show r'' + 1 - P.first = (r + 1 - P.first) + (r'' - r) by
          have := (synced.awake at_j).lower
          omega]
      rw [← List.range'_append_1]
      exact prefix_append _ _
  case stored =>
    intro i e mem later
    cases at_i : round i with
    | some r => exact (synced.awake at_i).stored e mem later
    | none =>
      rw [(synced.asleep at_i).log] at mem
      cases mem
  case starts =>
    intro i not_started named
    cases at_i : round i with
    | some r =>
      obtain ⟨ok, at_round, -, -⟩ := (synced.awake at_i).rnd
      rw [at_round] at not_started
      cases not_started
    | none =>
      obtain ⟨p, out, started, -⟩ := baseStart_spec (i := i) lawful honest (synced.asleep at_i) named
      exact ⟨p, out, started⟩
  case updates =>
    intro i started m sent
    obtain ⟨r, at_i⟩ := awake (i := i) (Option.isSome_iff_ne_none.mp started)
    obtain ⟨j, p, r', out, updated, -⟩ := synced.handles lawful honest at_i sent
    exact ⟨p, out, updated⟩
  case finishes =>
    intro all_delivered i
    have inRound := synced.awake (synced.all_final lawful began all_delivered i)
    obtain ⟨ok, at_round, -, -⟩ := inRound.rnd
    exact ⟨_, at_round, rfl, rfl⟩

end ThresholdDsa.Rounds
