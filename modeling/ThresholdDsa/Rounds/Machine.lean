/-
# What one call of the round machine does

`InRound P ID i p r` is what node `p`, at place `i`, looks like in round `r`: its
own messages of the rounds up to `r` are stored and no later ones, those of all
nodes of the rounds before `r` are stored, and the rounds were started one after
the other.  `enter_spec` and `proceed_spec` say how a node changes rounds, and
`updateOnce_spec` what `BaseUpdate` does with an honest message.  A node that has
all messages of its round leaves it at once, provided nobody is more than one
round ahead; that proviso is discharged in `Rounds.Network`.
-/
import ThresholdDsa.Rounds.Sheets

namespace ThresholdDsa.Rounds

set_option linter.unusedSectionVars false

open Outcome SlotStore Function List

variable {M K I D : Type} {n : ℕ}

/-- Every round but the last waits for lists of its own, and accepts what they hold. -/
structure Lawful (P : Protocol M K I D n) : Prop where
  order : P.first < P.final
  within : ∀ {r list}, list ∈ P.lists r → P.first ≤ r ∧ r < P.final
  nonempty : ∀ {r}, P.first ≤ r → r < P.final → P.lists r ≠ []
  nodup : ∀ r, (P.lists r).Nodup
  apart : ∀ {r r' list}, list ∈ P.lists r → list ∈ P.lists r' → r = r'
  accepts : ∀ {r m}, P.kind m ∈ P.lists r → P.CanAccept r m = true

/-- The messages of a script carry the kind of their list and name their sender. -/
structure Honest (P : Protocol M K I D n) (ID : Fin n → I) (S : Script M K D n) : Prop where
  distinct : Injective ID
  kind : ∀ {r list}, list ∈ P.lists r → ∀ i j node, P.kind (S.message r list i j node) = list
  sender : ∀ {r list}, list ∈ P.lists r → ∀ i j node, From P ID i (S.message r list i j node)

/-- All messages of node `j` of round `q` are stored. -/
def held (P : Protocol M K I D n) (ID : Fin n → I) (s : Store M K n) (q : ℕ) (j : Fin n) : Prop :=
  ∀ list ∈ P.lists q, has P ID s list j

/-! ## The loop of `Update` -/

variable {js : List (Fin n)} {ok present : Fin n → Bool}

theorem updateLoop_sound
    {j : Fin n} (set : updateLoop present js ok j = true) : ok j = true ∨ present j = true := by
  induction js generalizing ok with
  | nil => exact .inl set
  | cons top rest ih =>
    rw [updateLoop] at set
    split at set
    · exact ih set
    split at set
    · rename_i there
      rcases ih set with old | new
      · by_cases same : j = top
        · rw [same]
          exact .inr there
        · rw [update_of_ne same] at old
          exact .inl old
      · exact .inr new
    · exact .inl set

/-- The loop sets every flag if no place stops it. -/
theorem updateLoop_all (all : ∀ j ∈ js, ok j = true ∨ present j = true) {j : Fin n}
    (mem : j ∈ js ∨ ok j = true) : updateLoop present js ok j = true := by
  induction js generalizing ok with
  | nil => exact mem.resolve_left not_mem_nil
  | cons top rest ih =>
    have tail : ∀ j ∈ rest, ok j = true ∨ present j = true :=
      fun j mem => all j (mem_cons_of_mem _ mem)
    have grown : ∀ {j}, ok j = true → update ok top true j = true := by
      intro j set
      by_cases same : j = top
      · rw [same, update_self]
      · rw [update_of_ne same]
        exact set
    rw [updateLoop]
    split
    · rename_i set
      refine ih tail ?_
      rcases mem with mem | old
      · rcases mem_cons.mp mem with rfl | later
        · exact .inr set
        · exact .inl later
      · exact .inr old
    · rename_i unset
      rw [if_pos ((all top mem_cons_self).resolve_left unset)]
      refine ih (fun j mem => (tail j mem).imp_left grown) ?_
      rcases mem with mem | old
      · rcases mem_cons.mp mem with rfl | later
        · exact .inr (update_self _ _ _)
        · exact .inl later
      · exact .inr (grown old)

/-! ## Lists and flags -/

variable {P : Protocol M K I D n} {ID : Fin n → I} {s : Store M K n} {p : DNode M K D n}
  {S : Script M K D n}

section

variable [DecidableEq K] [DecidableEq I] {r : Round n} (at_round : p.rnd = some r)

include at_round

theorem update_eq : p.update P = .ok { p with rnd := some (r.Update P p.node.temp) } := by
  simp only [DNode.update, at_round]
  rfl

theorem canProceed_eq : p.canProceed = .ok r.CanProceed := by
  simp only [DNode.canProceed, at_round]
  rfl

theorem advance_eq : p.advance P = .ok { p with rnd := r.NextRound P } := by
  simp only [DNode.advance, at_round]
  rfl

theorem resetOK_eq : p.resetOK = .ok { p with rnd := some r.ResetOK } := by
  simp only [DNode.resetOK, at_round]
  rfl

omit at_round

/-- A flag is set only where every list of the round has an entry. -/
def Sound (P : Protocol M K I D n) (s : Store M K n) (r : ℕ) (ok : Fin n → Bool) : Prop :=
  ∀ j, ok j = true → ∀ list ∈ P.lists r, (entry s j list).isSome

theorem complete_iff (distinct : Injective ID) (orderly : Orderly P ID s) {r : ℕ} :
    complete P s r = true ↔ ∀ j, held P ID s r j := by
  simp only [complete, all_eq_true, decide_eq_true_eq, entries_iff distinct orderly]
  exact ⟨fun all j list mem => all list mem j, fun all list mem j => all j list mem⟩

theorem present_iff (lawful : Lawful P) (orderly : Orderly P ID s) {j : Fin n} :
    r.present P s j = true ↔ ∀ list ∈ P.lists r.number, (entry s j list).isSome := by
  simp only [Round.present, all_eq_true]
  refine forall₂_congr fun list mem => ?_
  rw [Option.isSome_iff_exists, Option.any_eq_true]
  refine exists_congr fun m => and_iff_left_of_imp fun found => lawful.accepts ?_
  rw [kind_of_entry orderly found]
  exact mem

/-- `Update` before the last round: all flags are set exactly when all messages of the round are
stored. -/
theorem update_spec (lawful : Lawful P) (distinct : Injective ID) {r : ℕ}
    (at_round : p.rnd = some ⟨r, true, ok⟩) (below : r < P.final)
    (orderly : Orderly P ID p.node.temp) (sound : Sound P p.node.temp r ok) :
    ∃ ok', p.update P = .ok { p with rnd := some ⟨r, true, ok'⟩ } ∧ Sound P p.node.temp r ok' ∧
      ((∀ j, ok' j = true) ↔ ∀ j, held P ID p.node.temp r j) := by
  let round : Round n := ⟨r, true, ok⟩
  have present : ∀ j, round.present P p.node.temp j = true ↔
      ∀ list ∈ P.lists r, (entry p.node.temp j list).isSome := fun j => present_iff lawful orderly
  refine ⟨updateLoop (round.present P p.node.temp) (List.finRange n) ok, ?_, ?_, ?_⟩
  · have open_round : ¬ r = P.final := by omega
    rw [update_eq at_round, Round.Update, if_neg open_round]
  · intro j set
    rcases updateLoop_sound set with old | new
    · exact sound j old
    · exact (present j).mp new
  · rw [← complete_iff distinct orderly]
    simp only [complete, all_eq_true, decide_eq_true_eq]
    constructor
    · intro set list mem j
      rcases updateLoop_sound (set j) with old | new
      · exact sound j old list mem
      · exact (present j).mp new list mem
    · intro all j
      refine updateLoop_all (fun j _ => .inr ?_) (.inl (mem_finRange j))
      exact (present j).mpr fun list mem => all list mem j

/-- Storing a message empties no place. -/
theorem entry_store {p p' : Node M K D n} {m : M} {full : Bool}
    (stored : P.store p m = .ok (p', full)) {j : Fin n} {list : Option K}
    (there : (entry p.temp j list).isSome) : (entry p'.temp j list).isSome := by
  rcases store_cases stored with ⟨-, rfl⟩ | ⟨-, ⟨-, -, rfl⟩ | ⟨-, -, temp_eq⟩ | ⟨k, i, -, -, -, temp_eq⟩⟩
  · exact there
  · exact there
  · rw [temp_eq]
    cases list with
    | some k => exact there
    | none =>
      simp only [entry, isSome_getElem?, length_append] at there ⊢
      omega
  · rw [temp_eq]
    cases list with
    | none => exact there
    | some k' =>
      simp only [entry, Store.put_slots] at there ⊢
      split
      · rfl
      · exact there

end

/-! ## Changing rounds -/

/-- A node in a round, between two calls. -/
structure InRound (P : Protocol M K I D n) (ID : Fin n → I) (i : Fin n) (p : DNode M K D n)
    (r : ℕ) : Prop where
  lower : P.first ≤ r
  upper : r ≤ P.final
  rnd : ∃ ok, p.rnd = some ⟨r, true, ok⟩ ∧ Sound P p.node.temp r ok ∧
    (r = P.final → ∀ j, ok j = false)
  orderly : Orderly P ID p.node.temp
  own : ∀ {q}, q ≤ r → held P ID p.node.temp q i
  ahead : ∀ {q}, r < q → ∀ list ∈ P.lists q, ¬ has P ID p.node.temp list i
  passed : ∀ {q}, q < r → ∀ j, held P ID p.node.temp q j
  log : p.log.map Started.number = List.range' P.first (r + 1 - P.first)
  stored : ∀ e ∈ p.log, e.number ≠ P.first → e.stored = true

/-- The lists have grown by the node's own messages of the rounds from `lo` to before `hi`. -/
def Grew (P : Protocol M K I D n) (ID : Fin n → I) (i : Fin n) (lo hi : ℕ) (s s' : Store M K n) :
    Prop :=
  ∀ list j, has P ID s' list j ↔
    has P ID s list j ∨ j = i ∧ ∃ q, lo ≤ q ∧ q < hi ∧ list ∈ P.lists q

/-- What is sent: to every other node a message for each list of the rounds from `lo` to before
`hi`, and nothing else. -/
structure Sends (P : Protocol M K I D n) (ID : Fin n → I) (i : Fin n) (lo hi : ℕ) (out : Out M n) :
    Prop where
  honest : ∀ {j m}, (j, m) ∈ out →
    j ≠ i ∧ From P ID i m ∧ ∃ q, lo ≤ q ∧ q < hi ∧ P.kind m ∈ P.lists q
  every : ∀ {q list j}, lo ≤ q → q < hi → list ∈ P.lists q → j ≠ i →
    ∃ m, (j, m) ∈ out ∧ P.kind m = list

section

variable {i : Fin n} {r lo hi : ℕ} {ok : Fin n → Bool}

theorem Sends.nil : Sends P ID i lo lo [] where
  honest mem := absurd mem not_mem_nil
  every above below := absurd below (not_lt.mpr above)

theorem Sends.append {mid : ℕ} {out more : Out M n} (le : lo ≤ mid) (le' : mid ≤ hi)
    (sends : Sends P ID i lo mid out) (sends' : Sends P ID i mid hi more) :
    Sends P ID i lo hi (out ++ more) where
  honest {j m} mem := by
    rcases mem_append.mp mem with old | new
    · obtain ⟨other, sender, q, above, below, kind_mem⟩ := sends.honest old
      exact ⟨other, sender, q, above, by omega, kind_mem⟩
    · obtain ⟨other, sender, q, above, below, kind_mem⟩ := sends'.honest new
      exact ⟨other, sender, q, by omega, below, kind_mem⟩
  every {q list j} above below mem other := by
    by_cases early : q < mid
    · obtain ⟨m, sent, kind_eq⟩ := sends.every above early mem other
      exact ⟨m, mem_append_left _ sent, kind_eq⟩
    · obtain ⟨m, sent, kind_eq⟩ := sends'.every (not_lt.mp early) below mem other
      exact ⟨m, mem_append_right _ sent, kind_eq⟩

variable {s' : Store M K n}

theorem Grew.trans {mid : ℕ} {s'' : Store M K n} (le : lo ≤ mid) (le' : mid ≤ hi)
    (grew : Grew P ID i lo mid s s') (grew' : Grew P ID i mid hi s' s'') :
    Grew P ID i lo hi s s'' := by
  intro list j
  rw [grew' list j, grew list j]
  constructor
  · rintro ((old | ⟨rfl, q, above, below, mem⟩) | ⟨rfl, q, above, below, mem⟩)
    · exact .inl old
    · exact .inr ⟨rfl, q, above, by omega, mem⟩
    · exact .inr ⟨rfl, q, by omega, below, mem⟩
  · rintro (old | ⟨rfl, q, above, below, mem⟩)
    · exact .inl (.inl old)
    · by_cases early : q < mid
      · exact .inl (.inr ⟨rfl, q, above, early, mem⟩)
      · exact .inr ⟨rfl, q, not_lt.mp early, below, mem⟩

theorem Grew.mono (grew : Grew P ID i lo hi s s') {q : ℕ} {j : Fin n}
    (there : held P ID s q j) : held P ID s' q j :=
  fun list mem => (grew list j).mpr (.inl (there list mem))

variable [DecidableEq K] [DecidableEq I]

/-- `Start` of a round whose lists have none of the node's messages. -/
theorem start_spec (lawful : Lawful P) (honest : Honest P ID S)
    (at_round : p.rnd = some ⟨r, false, ok⟩) (orderly : Orderly P ID p.node.temp)
    (missing : ∀ list ∈ P.lists r, ¬ has P ID p.node.temp list i) :
    ∃ p' out, p.Start P S i = .ok (p', out) ∧ p'.rnd = some ⟨r, true, fun _ => false⟩ ∧
      Orderly P ID p'.node.temp ∧ Grew P ID i r (r + 1) p.node.temp p'.node.temp ∧
      p'.log = p.log ++ [⟨r, complete P p.node.temp (r - 1)⟩] ∧ Sends P ID i r (r + 1) out := by
  obtain ⟨ordered, has_iff⟩ := foldl_putOwn honest.distinct orderly
    (fun list mem => honest.kind mem i i p.node)
    (fun list mem => (honest.sender mem i i p.node).id) (lawful.nodup r) missing
  refine ⟨_, _, by simp only [DNode.Start, at_round]; rfl, rfl, ordered, ?_, rfl, ?_⟩
  · intro list j
    rw [has_iff list j]
    constructor
    · rintro (old | ⟨mem, rfl⟩)
      · exact .inl old
      · exact .inr ⟨rfl, r, le_rfl, by omega, mem⟩
    · rintro (old | ⟨rfl, q, above, below, mem⟩)
      · exact .inl old
      · obtain rfl : q = r := by omega
        exact .inr ⟨mem, rfl⟩
  · constructor
    · intro j m mem
      simp only [mem_flatMap, mem_map, mem_filter, Prod.mk.injEq,
        decide_eq_true_eq] at mem
      obtain ⟨list, list_mem, j', ⟨-, other⟩, rfl, rfl⟩ := mem
      refine ⟨other, honest.sender list_mem i j' p.node, r, le_rfl, by omega, ?_⟩
      rw [honest.kind list_mem]
      exact list_mem
    · intro q list j above below list_mem other
      obtain rfl : q = r := by omega
      refine ⟨S.message q list i j p.node, ?_, honest.kind list_mem i j p.node⟩
      simp only [mem_flatMap, mem_map, mem_filter, Prod.mk.injEq,
        decide_eq_true_eq]
      exact ⟨list, list_mem, j, ⟨mem_finRange j, other⟩, rfl, rfl⟩

theorem Lawful.held_early (lawful : Lawful P) {q : ℕ} (early : q < P.first) (j : Fin n) :
    held P ID s q j := by
  intro list mem
  have := (lawful.within mem).1
  omega

/-- A node before its `BaseStart`. -/
structure Asleep (P : Protocol M K I D n) (ID : Fin n → I) (p : DNode M K D n) : Prop where
  rnd : p.rnd = none
  log : p.log = []
  orderly : Orderly P ID p.node.temp
  empty : ∀ list j, ¬ has P ID p.node.temp list j

theorem baseStart_spec (lawful : Lawful P) (honest : Honest P ID S) (asleep : Asleep P ID p)
    (named : p.DNodeID ≠ []) :
    ∃ p' out, BaseStart P S i p = .ok (p', out) ∧ InRound P ID i p' P.first ∧
      Grew P ID i P.first (P.first + 1) p.node.temp p'.node.temp ∧
      Sends P ID i P.first (P.first + 1) out := by
  let p₀ : DNode M K D n := { p with rnd := some ⟨P.first, false, fun _ => false⟩ }
  have orderly₀ : Orderly P ID p₀.node.temp := asleep.orderly
  obtain ⟨p', out, started, at_round, orderly, grew, log_eq, sends⟩ :=
    start_spec (p := p₀) lawful honest rfl orderly₀ (fun list _ => asleep.empty list i)
  have log_eq : p'.log = [⟨P.first, complete P p₀.node.temp (P.first - 1)⟩] := by
    rw [log_eq, show p₀.log = [] from asleep.log, nil_append]
  refine ⟨p', out, ?_, ?_, grew, sends⟩
  · rw [BaseStart, if_neg named, asleep.rnd]
    exact started
  refine ⟨le_rfl, lawful.order.le, ⟨_, at_round, by simp [Sound], fun _ _ => rfl⟩, orderly,
    ?_, ?_, fun early => lawful.held_early early, ?_, ?_⟩
  · intro q le
    rcases Nat.lt_or_eq_of_le le with early | rfl
    · exact lawful.held_early early i
    · exact fun list mem => (grew list i).mpr (.inr ⟨rfl, P.first, le_rfl, by omega, mem⟩)
  · intro q later list mem there
    rcases (grew list i).mp there with old | ⟨-, q', above, below, mem'⟩
    · exact asleep.empty list i old
    · have := lawful.apart mem mem'
      omega
  · rw [log_eq, Nat.add_sub_cancel_left]
    rfl
  · intro e mem later
    rw [log_eq, mem_singleton] at mem
    rw [mem] at later
    exact absurd rfl later

theorem InRound.succ (lawful : Lawful P) (distinct : Injective ID) {p' : DNode M K D n}
    (inRound : InRound P ID i p r) (below : r < P.final) (all : ∀ j, held P ID p.node.temp r j)
    (at_round : p'.rnd = some ⟨r + 1, true, fun _ => false⟩) (orderly : Orderly P ID p'.node.temp)
    (grew : Grew P ID i (r + 1) (r + 2) p.node.temp p'.node.temp)
    (log_eq : p'.log = p.log ++ [⟨r + 1, complete P p.node.temp r⟩]) :
    InRound P ID i p' (r + 1) where
  lower := by
    have := inRound.lower
    omega
  upper := below
  rnd := ⟨_, at_round, by simp [Sound], fun _ _ => rfl⟩
  orderly := orderly
  own {q} le := by
    rcases Nat.lt_or_eq_of_le le with early | rfl
    · exact grew.mono (inRound.own (by omega))
    · exact fun list mem => (grew list i).mpr (.inr ⟨rfl, r + 1, le_rfl, by omega, mem⟩)
  ahead {q} later list mem there := by
    rcases (grew list i).mp there with old | ⟨-, q', above, below', mem'⟩
    · exact inRound.ahead (by omega) list mem old
    · have := lawful.apart mem mem'
      omega
  passed {q} early j := by
    rcases Nat.lt_or_eq_of_le (Nat.le_of_lt_succ early) with earlier | rfl
    · exact grew.mono (inRound.passed earlier j)
    · exact grew.mono (all j)
  log := by
    have := inRound.lower
    rw [log_eq, map_append, inRound.log, show r + 1 + 1 - P.first = (r + 1 - P.first) + 1 by omega,
      List.range'_1_concat]
    simp only [map_cons, map_nil]
    congr 2
    omega
  stored e mem later := by
    rw [log_eq, mem_append, mem_singleton] at mem
    rcases mem with old | rfl
    · exact inRound.stored e old later
    · exact (complete_iff distinct inRound.orderly).mpr all

/-- A node that has all messages of its round starts the next one. -/
theorem enter_spec (lawful : Lawful P) (honest : Honest P ID S) (inRound : InRound P ID i p r)
    (below : r < P.final) (all : ∀ j, held P ID p.node.temp r j) :
    ∃ p' out, p.enter P S i = .ok (p', out) ∧ InRound P ID i p' (r + 1) ∧
      p'.rnd = some ⟨r + 1, true, fun _ => false⟩ ∧
      Grew P ID i (r + 1) (r + 2) p.node.temp p'.node.temp ∧ Sends P ID i (r + 1) (r + 2) out := by
  obtain ⟨ok, at_round, -, -⟩ := inRound.rnd
  have open_round : ¬ r = P.final := by omega
  let p₁ : DNode M K D n := { p with rnd := some ⟨r + 1, false, ok⟩ }
  have advanced : p.advance P = .ok p₁ := by
    rw [advance_eq at_round, Round.NextRound, if_neg open_round]
  have orderly₁ : Orderly P ID p₁.node.temp := inRound.orderly
  obtain ⟨p', out, started, at_next, orderly, grew, log_eq, sends⟩ :=
    start_spec (p := p₁) lawful honest rfl orderly₁ (inRound.ahead (Nat.lt_succ_self r))
  refine ⟨p', out, ?_, ?_, at_next, grew, sends⟩
  · simp only [DNode.enter, advanced]
    exact started
  · exact inRound.succ lawful honest.distinct below all at_next orderly grew log_eq

/-- Only the flags of the round differ. -/
theorem InRound.withFlags (inRound : InRound P ID i p r) (sound : Sound P p.node.temp r ok)
    (idle : r = P.final → ∀ j, ok j = false) :
    InRound P ID i { p with rnd := some ⟨r, true, ok⟩ } r :=
  { inRound with rnd := ⟨ok, rfl, sound, idle⟩ }

theorem canProceed_iff :
    (⟨r, true, ok⟩ : Round n).CanProceed = true ↔ ∀ j, ok j = true := by
  simp [Round.CanProceed]

/-- From a round all of whose messages are stored `proceed` comes to one that misses a message, if
the round after the next does. -/
theorem proceed_spec (lawful : Lawful P) (honest : Honest P ID S) (inRound : InRound P ID i p r)
    (below : r < P.final) (all : ∀ j, held P ID p.node.temp r j)
    (two_ahead : r + 2 < P.final → ∃ j, j ≠ i ∧ ¬ held P ID p.node.temp (r + 2) j) :
    ∃ p' out r', p.proceed P S i = .ok (p', out) ∧ r < r' ∧ InRound P ID i p' r' ∧
      Grew P ID i (r + 1) (r' + 1) p.node.temp p'.node.temp ∧ Sends P ID i (r + 1) (r' + 1) out ∧
      (r' < P.final → ∃ j, ¬ held P ID p'.node.temp r' j) := by
  obtain ⟨p₁, out, entered, inRound₁, at₁, grew₁, sends₁⟩ :=
    enter_spec lawful honest inRound below all
  have reset : ∀ {p : DNode M K D n} {r : ℕ}, InRound P ID i p r →
      ∃ p', p.resetOK = .ok p' ∧ p'.node = p.node ∧ InRound P ID i p' r := by
    intro p r inRound
    obtain ⟨ok, at_round, -, -⟩ := inRound.rnd
    exact ⟨_, resetOK_eq at_round, rfl, inRound.withFlags (by simp [Sound]) fun _ _ => rfl⟩
  by_cases last : r + 1 = P.final
  · -- the last round: `Update` does nothing, and no flag is set
    have updated : p₁.update P = .ok p₁ := by
      rw [update_eq at₁, Round.Update, if_pos last, ← at₁]
    have stops : ¬ (⟨r + 1, true, fun _ => false⟩ : Round n).CanProceed = true := by
      rw [canProceed_iff]
      exact fun set => Bool.false_ne_true (set i)
    obtain ⟨p₂, reset_eq, node_eq, inRound₂⟩ := reset inRound₁
    refine ⟨p₂, out, r + 1, ?_, Nat.lt_succ_self r, inRound₂, by rw [node_eq]; exact grew₁, sends₁,
      fun open_round => absurd last (by omega)⟩
    simp only [DNode.proceed, entered, ok_bind, at₁, Option.isSome_some, if_true, updated,
      canProceed_eq at₁, if_neg stops, reset_eq, pure_bind, append_nil]
    rfl
  · have below₁ : r + 1 < P.final := by omega
    obtain ⟨ok₁, updated, sound₁, flags⟩ := update_spec lawful honest.distinct at₁ below₁
      inRound₁.orderly (by simp [Sound])
    have inRound₂ := inRound₁.withFlags sound₁ (fun last => absurd last (by omega))
    have asked : ({ p₁ with rnd := some ⟨r + 1, true, ok₁⟩ } : DNode M K D n).canProceed =
        .ok (⟨r + 1, true, ok₁⟩ : Round n).CanProceed := canProceed_eq rfl
    by_cases go : (⟨r + 1, true, ok₁⟩ : Round n).CanProceed = true
    · have all₁ := flags.mp (canProceed_iff.mp go)
      obtain ⟨p₃, more, entered₃, inRound₃, at₃, grew₃, sends₃⟩ :=
        enter_spec lawful honest inRound₂ below₁ all₁
      obtain ⟨p₄, reset_eq, node_eq, inRound₄⟩ := reset inRound₃
      have grew : Grew P ID i (r + 1) (r + 3) p.node.temp p₄.node.temp := by
        rw [node_eq]
        exact grew₁.trans (by omega) (by omega) grew₃
      refine ⟨p₄, out ++ more, r + 2, ?_, by omega, inRound₄, grew,
        sends₁.append (by omega) (by omega) sends₃, ?_⟩
      · simp only [DNode.proceed, entered, ok_bind, at₁, Option.isSome_some, if_true, updated,
          asked, go, entered₃, reset_eq]
        rfl
      · intro open_round
        obtain ⟨j, other, missing⟩ := two_ahead open_round
        refine ⟨j, fun there => missing fun list mem => ?_⟩
        rcases (grew list j).mp (there list mem) with old | ⟨same, -⟩
        · exact old
        · exact absurd same other
    · have waits : ∃ j, ¬ held P ID p₁.node.temp (r + 1) j := by
        by_contra none_missing
        push Not at none_missing
        exact go (canProceed_iff.mpr (flags.mpr none_missing))
      obtain ⟨p₃, reset_eq, node_eq, inRound₃⟩ := reset inRound₂
      refine ⟨p₃, out, r + 1, ?_, Nat.lt_succ_self r, inRound₃, by rw [node_eq]; exact grew₁,
        sends₁, fun _ => by rw [node_eq]; exact waits⟩
      simp only [DNode.proceed, entered, ok_bind, at₁, Option.isSome_some, if_true, updated,
        asked, if_neg go, reset_eq, pure_bind, append_nil]
      rfl

end

/-! ## `BaseUpdate` -/

/-- What `BaseUpdate` does with a message of node `j` at a node in round `r`. -/
structure Handled (P : Protocol M K I D n) (ID : Fin n → I) (i j : Fin n) (m : M)
    (p : DNode M K D n) (r : ℕ) (p' : DNode M K D n) (r' : ℕ) (out : Out M n) : Prop where
  le : r ≤ r'
  inRound : InRound P ID i p' r'
  has_iff : ∀ list x, has P ID p'.node.temp list x ↔
    (has P ID p.node.temp list x ∨ list = P.kind m ∧ x = j) ∨
      x = i ∧ ∃ q, r + 1 ≤ q ∧ q < r' + 1 ∧ list ∈ P.lists q
  sends : Sends P ID i (r + 1) (r' + 1) out
  waits : r' < P.final → ∃ x, ¬ held P ID p'.node.temp r' x

section

variable [DecidableEq K] [DecidableEq I] {i j : Fin n} {m : M} {r : ℕ} {node : Node M K D n}

/-- A message of another node is stored. -/
theorem InRound.store (inRound : InRound P ID i p r) (other : j ≠ i)
    {full : Bool} (stored : P.store p.node m = .ok (node, full)) (orderly : Orderly P ID node.temp)
    (has_iff : ∀ list x, has P ID node.temp list x ↔
      has P ID p.node.temp list x ∨ list = P.kind m ∧ x = j) :
    InRound P ID i { p with node } r := by
  have mono : ∀ {q x}, held P ID p.node.temp q x → held P ID node.temp q x :=
    fun there list mem => (has_iff list _).mpr (.inl (there list mem))
  obtain ⟨ok, at_round, sound, idle⟩ := inRound.rnd
  refine
    { inRound with
      rnd := ⟨ok, at_round, ?_, idle⟩
      orderly := orderly
      own := ?_
      ahead := ?_
      passed := ?_ }
  · exact fun x set list mem => entry_store stored (sound x set list mem)
  · exact fun le => mono (inRound.own le)
  · intro q later list mem there
    rcases (has_iff list i).mp there with old | ⟨-, same⟩
    · exact inRound.ahead later list mem old
    · exact other same.symm
  · exact fun early x => mono (inRound.passed early x)

/-- The message that completes a round is one that completes its list. -/
theorem waits_of_not_full {full : Bool} (waits : r < P.final → ∃ x, ¬ held P ID p.node.temp r x)
    (has_iff : ∀ list x, has P ID node.temp list x ↔
      has P ID p.node.temp list x ∨ list = P.kind m ∧ x = j) (full_iff : full = true ↔
      ¬ has P ID p.node.temp (P.kind m) j ∧ ∀ x, has P ID node.temp (P.kind m) x)
    (not_full : ¬ full = true) : r < P.final → ∃ x, ¬ held P ID node.temp r x := by
  intro below
  by_contra all
  push Not at all
  obtain ⟨x, missing⟩ := waits below
  apply missing
  intro list mem
  rcases (has_iff list x).mp (all x list mem) with old | ⟨rfl, rfl⟩
  · exact old
  · by_contra new
    exact not_full (full_iff.mpr ⟨new, fun y => all y _ mem⟩)

/-- The node stays in its round. -/
theorem Handled.stay {p' : DNode M K D n} (inRound : InRound P ID i p' r)
    (has_iff : ∀ list x, has P ID p'.node.temp list x ↔
      has P ID p.node.temp list x ∨ list = P.kind m ∧ x = j)
    (waits : r < P.final → ∃ x, ¬ held P ID p'.node.temp r x) :
    Handled P ID i j m p r p' r [] where
  le := le_rfl
  inRound := inRound
  has_iff list x := by
    rw [has_iff list x]
    refine ⟨.inl, fun there => there.resolve_right ?_⟩
    rintro ⟨-, q, above, below, -⟩
    omega
  sends := .nil
  waits := waits

theorem updateOnce_duplicate (distinct : Injective ID) (inRound : InRound P ID i p r)
    (waits : r < P.final → ∃ x, ¬ held P ID p.node.temp r x) (sender : From P ID j m)
    (other : j ≠ i) (there : has P ID p.node.temp (P.kind m) j) :
    ∃ p', updateOnce P S i p m = .ok (p', [], false) ∧ Handled P ID i j m p r p' r [] := by
  obtain ⟨node, full, stored, orderly, has_iff, full_iff⟩ :=
    store_spec distinct inRound.orderly sender
  have not_full : ¬ full = true := fun set => (full_iff.mp set).1 there
  refine ⟨{ p with node }, ?_, .stay (inRound.store other stored orderly has_iff) has_iff
    (waits_of_not_full waits has_iff full_iff not_full)⟩
  obtain ⟨ok, at_round, -, -⟩ := inRound.rnd
  simp only [updateOnce, at_round, Option.isSome_some, if_true, stored, ok_bind, if_neg not_full]
  rfl

variable (lawful : Lawful P) (honest : Honest P ID S) (inRound : InRound P ID i p r)
  (waits : r < P.final → ∃ x, ¬ held P ID p.node.temp r x) (sender : From P ID j m) (other : j ≠ i)

include lawful honest inRound waits sender other

/-- One pass of `BaseUpdate`.  A round is left if the message completed it; somebody's messages of
the round after the next have to be missing. -/
theorem updateOnce_spec
    (two_ahead : r + 2 < P.final → ∃ x, x ≠ i ∧ ∃ list ∈ P.lists (r + 2),
      list ≠ P.kind m ∧ ¬ has P ID p.node.temp list x) :
    ∃ p' out again r', updateOnce P S i p m = .ok (p', out, again) ∧
      Handled P ID i j m p r p' r' out := by
  obtain ⟨node, full, stored, orderly, has_iff, full_iff⟩ :=
    store_spec honest.distinct inRound.orderly sender
  obtain ⟨p₁, p₁_eq⟩ : ∃ p₁, p₁ = ({ p with node } : DNode M K D n) := ⟨_, rfl⟩
  have node_eq : p₁.node = node := by rw [p₁_eq]
  have kept : InRound P ID i p₁ r := by
    rw [p₁_eq]
    exact inRound.store other stored orderly has_iff
  rw [← node_eq] at has_iff full_iff
  obtain ⟨ok, at_round, sound, idle⟩ := kept.rnd
  have awake : p.rnd.isSome = true := by
    rw [p₁_eq] at at_round
    simp only at at_round
    rw [at_round]
    rfl
  by_cases completed : full = true
  swap
  · refine ⟨p₁, [], false, r, ?_, .stay kept has_iff
      (waits_of_not_full waits has_iff full_iff completed)⟩
    simp only [updateOnce, awake, if_true, stored, ok_bind, if_neg completed, p₁_eq]
    rfl
  by_cases last : r = P.final
  · -- nothing moves a node out of the last round
    have updated : p₁.update P = .ok p₁ := by
      rw [update_eq at_round, Round.Update, if_pos last, ← at_round]
    have stops : ¬ (⟨r, true, ok⟩ : Round n).CanProceed = true := by
      rw [canProceed_iff]
      exact fun set => Bool.false_ne_true ((idle last i).symm.trans (set i))
    refine ⟨p₁, [], false, r, ?_, .stay kept has_iff fun below => absurd last (by omega)⟩
    simp only [updateOnce, awake, if_true, stored, ok_bind, completed, ← p₁_eq, updated,
      canProceed_eq at_round, if_neg stops]
    rfl
  have below : r < P.final := by
    have := inRound.upper
    omega
  obtain ⟨ok₂, updated, sound₂, flags⟩ :=
    update_spec lawful honest.distinct at_round below kept.orderly sound
  have kept₂ := kept.withFlags sound₂ (fun eq => absurd eq last)
  have asked : ({ p₁ with rnd := some ⟨r, true, ok₂⟩ } : DNode M K D n).canProceed =
      .ok (⟨r, true, ok₂⟩ : Round n).CanProceed := canProceed_eq rfl
  by_cases go : (⟨r, true, ok₂⟩ : Round n).CanProceed = true
  · obtain ⟨p₃, out, r', proceeded, later, inRound₃, grew, sends, waits₃⟩ :=
      proceed_spec lawful honest kept₂ below (flags.mp (canProceed_iff.mp go)) (by
        intro far
        obtain ⟨x, x_other, list, mem, not_new, missing⟩ := two_ahead far
        refine ⟨x, x_other, fun there => missing ?_⟩
        exact ((has_iff list x).mp (there list mem)).resolve_right fun new => not_new new.1)
    refine ⟨p₃, out, true, r', ?_, later.le, inRound₃, ?_, sends, waits₃⟩
    · simp only [updateOnce, awake, if_true, stored, ok_bind, completed, ← p₁_eq, updated, asked, go,
        proceeded]
      rfl
    · intro list x
      rw [grew list x, has_iff list x]
  · refine ⟨{ p₁ with rnd := some ⟨r, true, ok₂⟩ }, [], false, r, ?_, .stay kept₂ has_iff fun _ => ?_⟩
    · simp only [updateOnce, awake, if_true, stored, ok_bind, completed, ← p₁_eq, updated, asked,
        if_neg go]
      rfl
    · by_contra all
      push Not at all
      exact go (canProceed_iff.mpr (flags.mpr all))

/-- `BaseUpdate` returns, after at most one call of itself. -/
theorem baseUpdate_spec
    (two_ahead : r + 2 < P.final → ∃ x, x ≠ i ∧ ∃ list ∈ P.lists (r + 2),
      list ≠ P.kind m ∧ ¬ has P ID p.node.temp list x) :
    ∃ p' out r', (∀ fuel, BaseUpdate P S i (fuel + 2) p m = some (.ok (p', out))) ∧
      Handled P ID i j m p r p' r' out := by
  obtain ⟨p₁, out, again, r', once, handled⟩ :=
    updateOnce_spec lawful honest inRound waits sender other two_ahead
  cases again with
  | false => exact ⟨p₁, out, r', fun fuel => by simp only [BaseUpdate, once], handled⟩
  | true =>
    have there : has P ID p₁.node.temp (P.kind m) j :=
      (handled.has_iff _ j).mpr (.inl (.inr ⟨rfl, rfl⟩))
    obtain ⟨p₂, twice, handled₂⟩ := updateOnce_duplicate (S := S) honest.distinct handled.inRound
      handled.waits sender other there
    refine ⟨p₂, out, r', fun fuel => ?_, handled.le, handled₂.inRound, ?_, handled.sends,
      handled₂.waits⟩
    · simp [BaseUpdate, once, twice]
    intro list x
    rw [handled₂.has_iff list x, handled.has_iff list x]
    constructor
    · rintro (((old | own) | new) | ⟨-, q, above, below, -⟩)
      · exact .inl old
      · exact .inr own
      · exact .inl (.inr new)
      · omega
    · exact fun there => .inl (.inl there)

end

end ThresholdDsa.Rounds
