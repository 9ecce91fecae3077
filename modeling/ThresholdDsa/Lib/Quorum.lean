/-
# Counting votes against seats

Votes are kept in a list, at most one for each voter.  If every voter holds a
seat, no seat has two holders, and there are as many votes as seats, then every
seat has voted (`every_seat_voted`).  `latest` is the last entry of a log that
satisfies a test, with the two rules for a log that grows at its end.
-/
import Mathlib

namespace ThresholdDsa.Quorum

open List

variable {Vote Seat Voter : Type}

/-- `Holds v s`: the vote `v` was cast by a holder of the seat `s`. -/
theorem every_seat_voted {votes : List Vote} {seats : List Seat} {voter : Vote → Voter}
    (Holds : Vote → Seat → Prop) (distinct : (votes.map voter).Nodup)
    (seated : ∀ v ∈ votes, ∃ s ∈ seats, Holds v s)
    (single : ∀ {v w s}, Holds v s → Holds w s → voter v = voter w)
    (enough : seats.length ≤ votes.length) {s : Seat} (mem : s ∈ seats) :
    ∃ v ∈ votes, Holds v s := by
  have : Nonempty Seat := ⟨s⟩
  choose! seat seat_mem held using seated
  have seats_distinct : (votes.map seat).Nodup := by
    refine List.Nodup.map_on ?_ (List.Nodup.of_map voter distinct)
    intro v v_mem w w_mem same
    refine inj_on_of_nodup_map distinct v_mem w_mem ?_
    exact single (held v v_mem) (same ▸ held w w_mem)
  have inside : votes.map seat ⊆ seats := by
    intro t t_mem
    obtain ⟨v, v_mem, rfl⟩ := mem_map.mp t_mem
    exact seat_mem v v_mem
  have all : (votes.map seat).Perm seats :=
    (subperm_of_subset seats_distinct inside).perm_of_length_le (by simpa using enough)
  obtain ⟨v, v_mem, rfl⟩ := mem_map.mp (all.mem_iff.mpr mem)
  exact ⟨v, v_mem, held v v_mem⟩

/-! ## The latest entry of a log -/

def latest (test : Vote → Bool) (log : List Vote) : Option Vote := log.reverse.find? test

variable {test : Vote → Bool} {log : List Vote} {v : Vote}

theorem latest_append :
    latest test (log ++ [v]) = if test v then some v else latest test log := by
  rw [latest, reverse_append, reverse_singleton, singleton_append, find?_cons]
  cases test v <;> rfl

theorem latest_of_mem (mem : v ∈ log) (holds : test v) : ∃ w, latest test log = some w := by
  have found : (log.reverse.find? test).isSome :=
    find?_isSome.mpr ⟨v, mem_reverse.mpr mem, holds⟩
  exact Option.isSome_iff_exists.mp found

theorem mem_of_latest (found : latest test log = some v) : v ∈ log ∧ test v :=
  ⟨mem_reverse.mp (mem_of_find?_eq_some found), find?_some found⟩

end ThresholdDsa.Quorum
