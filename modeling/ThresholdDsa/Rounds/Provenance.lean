/-
# Where the messages of a node come from

A property of messages that holds of all a node has stored, of the message it is
given and of all that its `Script` makes, holds of all it has stored and of all it
sends after a `BaseStart` (`baseStart_holds`) or a `BaseUpdate` (`baseUpdate_holds`).
Nothing is assumed of the protocol.
-/
import ThresholdDsa.Rounds.DNode

namespace ThresholdDsa.Rounds

open Outcome SlotStore List

variable {M K I D : Type} {n : ℕ}

/-- All messages in the lists have the property. -/
def Holds (Q : M → Prop) (s : Store M K n) : Prop := ∀ list, ∀ m ∈ s.entries list, Q m

/-- All messages that the rounds of node `i` make have the property. -/
def Makes (S : Script M K D n) (i : Fin n) (Q : M → Prop) : Prop :=
  ∀ r list j node, Q (S.message r list i j node)

section

variable {Q : M → Prop} {s : Store M K n}

theorem holds_empty : Holds Q (Store.empty : Store M K n) := by
  intro list m mem
  cases list <;> simp [Store.empty, Store.entries] at mem

theorem Holds.append (holds : Holds Q s) {m : M} (new : Q m) :
    Holds Q { s with queue := s.queue ++ [m] } := by
  intro list v mem
  cases list with
  | none =>
    rcases mem_append.mp mem with old | rfl_mem
    · exact holds none v old
    · rwa [mem_singleton.mp rfl_mem]
  | some k => exact holds (some k) v mem

variable [DecidableEq K]

theorem Holds.put (holds : Holds Q s) {m : M} (new : Q m) (k : K) (i : Fin n) :
    Holds Q (s.put k i m) := by
  intro list v mem
  cases list with
  | none => exact holds none v mem
  | some k' =>
    obtain ⟨i', at_slot⟩ := Store.mem_entries_some.mp mem
    rw [Store.put_slots] at at_slot
    split at at_slot
    · cases at_slot
      exact new
    · exact holds (some k') v (Store.mem_entries_some.mpr ⟨i', at_slot⟩)

theorem Holds.putOwn (holds : Holds Q s) {m : M} (new : Q m) (i : Fin n) (list : Option K) :
    Holds Q (putOwn i s list m) := by
  cases list with
  | none => exact holds.append new
  | some k => exact holds.put new k i

theorem Holds.foldl_putOwn (holds : Holds Q s) {message : Option K → M} (new : ∀ list, Q (message list))
    (i : Fin n) (lists : List (Option K)) :
    Holds Q (lists.foldl (fun s list => Rounds.putOwn i s list (message list)) s) := by
  induction lists generalizing s with
  | nil => exact holds
  | cons list lists ih => exact ih (holds.putOwn (new list) i list)

theorem Holds.store [DecidableEq I] {R : Rules M K I D n} {p p' : Node M K D n} {msg : M} {full : Bool}
    (holds : Holds Q p.temp) (new : Q msg) (stored : R.store p msg = .ok (p', full)) :
    Holds Q p'.temp := by
  rcases store_cases stored with ⟨-, rfl⟩ | ⟨-, ⟨-, -, rfl⟩ | ⟨-, -, appended⟩ | ⟨k, index, -, -, -, placed⟩⟩
  · exact holds
  · exact holds
  · rw [appended]
    exact holds.append new
  · rw [placed]
    exact holds.put new k index

end

section

variable [DecidableEq K] [DecidableEq I] {P : Protocol M K I D n} {S : Script M K D n} {i : Fin n}
  {Q : M → Prop} {p p' : DNode M K D n} {out : Out M n}

/-- What a node has after a call, and what it sent, has the property. -/
def After (Q : M → Prop) (p' : DNode M K D n) (out : Out M n) : Prop :=
  Holds Q p'.node.temp ∧ ∀ x ∈ out, Q x.2

variable (holds : Holds Q p.node.temp)

include holds

omit [DecidableEq I] in
theorem start_holds (makes : Makes S i Q)
    (started : p.Start P S i = .ok (p', out)) : After Q p' out := by
  unfold DNode.Start at started
  split at started
  · cases started
  · split at started
    · cases started
    · obtain ⟨rfl, rfl⟩ := Prod.mk.inj (pure_eq_ok.mp started)
      refine ⟨holds.foldl_putOwn (fun list => makes _ list i p.node) i _, fun x mem => ?_⟩
      obtain ⟨list, -, sent⟩ := mem_flatMap.mp mem
      obtain ⟨j, -, rfl⟩ := mem_map.mp sent
      exact makes _ list j p.node

omit [DecidableEq I] in
theorem baseStart_holds (makes : Makes S i Q)
    (started : BaseStart P S i p = .ok (p', out)) : After Q p' out := by
  unfold BaseStart at started
  split at started
  · cases started
  · split at started
    · cases started
    · refine start_holds ?_ makes started
      exact holds

omit [DecidableEq I] in
theorem enter_holds (makes : Makes S i Q)
    (entered : p.enter P S i = .ok (p', out)) : After Q p' out := by
  simp only [DNode.enter, DNode.advance, eq_ok] at entered
  obtain ⟨q, ⟨r, -, rfl⟩, entered⟩ := entered
  split at entered
  · refine start_holds ?_ makes entered
    exact holds
  · obtain ⟨rfl, rfl⟩ := Prod.mk.inj (pure_eq_ok.mp entered)
    exact ⟨holds, by simp⟩

omit [DecidableEq I] in
theorem proceed_holds (makes : Makes S i Q)
    (proceeded : p.proceed P S i = .ok (p', out)) : After Q p' out := by
  simp only [DNode.proceed, bind_eq_ok] at proceeded
  obtain ⟨⟨q, first⟩, entered, proceeded⟩ := proceeded
  obtain ⟨q_holds, first_holds⟩ := enter_holds holds makes entered
  split at proceeded
  · simp only [DNode.update, DNode.resetOK, eq_ok] at proceeded
    obtain ⟨q', ⟨r, -, rfl⟩, again, -, proceeded⟩ := proceeded
    split at proceeded
    · simp only [eq_ok, Prod.mk.injEq] at proceeded
      obtain ⟨⟨q'', more⟩, second, q3, ⟨r', -, rfl⟩, rfl, rfl⟩ := proceeded
      obtain ⟨holds', more_holds⟩ := enter_holds (by exact q_holds) makes second
      exact ⟨holds', fun x mem => (mem_append.mp mem).elim (first_holds x) (more_holds x)⟩
    · simp only [eq_ok, Prod.mk.injEq] at proceeded
      obtain ⟨⟨q'', more⟩, ⟨rfl, rfl⟩, q3, ⟨r', -, rfl⟩, rfl, rfl⟩ := proceeded
      exact ⟨q_holds, by simpa using first_holds⟩
  · obtain ⟨rfl, rfl⟩ := Prod.mk.inj (pure_eq_ok.mp proceeded)
    exact ⟨q_holds, first_holds⟩

theorem updateOnce_holds {msg : M} {again : Bool} (new : Q msg)
    (makes : Makes S i Q) (updated : updateOnce P S i p msg = .ok (p', out, again)) :
    After Q p' out := by
  unfold updateOnce at updated
  split at updated
  · simp only [bind_eq_ok] at updated
    obtain ⟨⟨node, completed⟩, stored, updated⟩ := updated
    have stored_holds : Holds Q node.temp := holds.store new stored
    split at updated
    · simp only [DNode.update, eq_ok] at updated
      obtain ⟨q, ⟨r, -, rfl⟩, go, -, updated⟩ := updated
      split at updated
      · simp only [eq_ok, Prod.mk.injEq] at updated
        obtain ⟨⟨q', sent⟩, proceeded, rfl, rfl, -⟩ := updated
        exact proceed_holds (by exact stored_holds) makes proceeded
      · simp only [pure_eq_ok, Prod.mk.injEq] at updated
        obtain ⟨rfl, rfl, -⟩ := updated
        exact ⟨stored_holds, by simp⟩
    · simp only [pure_eq_ok, Prod.mk.injEq] at updated
      obtain ⟨rfl, rfl, -⟩ := updated
      exact ⟨stored_holds, by simp⟩
  · simp only [pure_eq_ok, Prod.mk.injEq] at updated
    obtain ⟨rfl, rfl, -⟩ := updated
    exact ⟨holds, by simp⟩

theorem baseUpdate_holds {msg : M} {fuel : ℕ} (new : Q msg)
    (makes : Makes S i Q) (updated : BaseUpdate P S i fuel p msg = some (.ok (p', out))) :
    After Q p' out := by
  induction fuel generalizing p p' out with
  | zero => cases updated
  | succ fuel ih =>
    rw [BaseUpdate] at updated
    split at updated
    · cases updated
    · rename_i q sent once
      obtain ⟨rfl, rfl⟩ := Prod.mk.inj (Except.ok.inj (Option.some.inj updated))
      exact updateOnce_holds holds new makes once
    rename_i q sent once
    obtain ⟨q_holds, sent_holds⟩ := updateOnce_holds holds new makes once
    obtain ⟨result, rest, result_eq⟩ := Option.map_eq_some_iff.mp updated
    cases result with
    | error fault => cases result_eq
    | ok reached =>
      obtain ⟨q', more⟩ := reached
      obtain ⟨rfl, rfl⟩ := Prod.mk.inj (Except.ok.inj result_eq)
      obtain ⟨holds', more_holds⟩ := ih q_holds rest
      exact ⟨holds', fun x mem => (mem_append.mp mem).elim (sent_holds x) (more_holds x)⟩

end

end ThresholdDsa.Rounds
