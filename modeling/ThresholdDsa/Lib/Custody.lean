/-
# Tokens that are in one place at a time

Tokens lie in places.  They are `Apart` when no token lies twice in a place or in two
places.  That survives a new token (`Apart.enter`), tokens that go (`Apart.leave`) and a
token that moves from one place to another (`Apart.move`), which lay somewhere before
(`exists_mem_of_move`).
-/
import Mathlib.Data.List.Perm.Basic
import Mathlib.Data.List.Nodup

namespace ThresholdDsa.Custody

open Function List

variable {P τ : Type*} {held held' : P → List τ}

structure Apart (held : P → List τ) : Prop where
  nodup : ∀ p, (held p).Nodup
  disjoint : ∀ {p q x}, x ∈ held p → x ∈ held q → p = q

theorem Apart.enter (apart : Apart held) {k : τ} {q : P} (fresh : ∀ p, k ∉ held p)
    (enters : List.Perm (held' q) (k :: held q)) (others : ∀ p, p ≠ q → held' p = held p) :
    Apart held' := by
  have only : ∀ {p}, k ∈ held' p → p = q := by
    intro p mem
    by_contra elsewhere
    rw [others p elsewhere] at mem
    exact fresh p mem
  have before : ∀ {p x}, x ∈ held' p → x ≠ k → x ∈ held p := by
    intro p x mem ne
    by_cases at_q : p = q
    · subst at_q
      exact mem_of_ne_of_mem ne (enters.mem_iff.mp mem)
    · rwa [others p at_q] at mem
  refine ⟨fun p => ?_, fun {p p' x} mem mem' => ?_⟩
  · by_cases at_q : p = q
    · subst at_q
      exact enters.nodup_iff.mpr (nodup_cons.mpr ⟨fresh p, apart.nodup p⟩)
    · rw [others p at_q]
      exact apart.nodup p
  · by_cases same : x = k
    · subst same
      rw [only mem, only mem']
    · exact apart.disjoint (before mem same) (before mem' same)

theorem Apart.leave (apart : Apart held) {p : P} (nodup : (held' p).Nodup)
    (subset : held' p ⊆ held p) (others : ∀ r, r ≠ p → held' r = held r) : Apart held' := by
  have kept : ∀ r, held' r ⊆ held r := by
    intro r
    by_cases at_p : r = p
    · rw [at_p]
      exact subset
    · rw [others r at_p]
      exact List.Subset.refl _
  refine ⟨fun r => ?_, fun {r r' x} mem mem' => apart.disjoint (kept r mem) (kept r' mem')⟩
  by_cases at_p : r = p
  · rw [at_p]
    exact nodup
  · rw [others r at_p]
    exact apart.nodup r

theorem Apart.move (apart : Apart held) {k : τ} {p q : P} (ne : p ≠ q)
    (leaves : List.Perm (held p) (k :: held' p)) (enters : List.Perm (held' q) (k :: held q))
    (others : ∀ r, r ≠ p → r ≠ q → held' r = held r) : Apart held' := by
  classical
  obtain ⟨gone, nodup⟩ := nodup_cons.mp (leaves.nodup_iff.mp (apart.nodup p))
  have there : k ∈ held p := leaves.mem_iff.mpr mem_cons_self
  -- the token leaves its place, and is nowhere before it enters the other one
  have out : Apart (update held p (held' p)) := by
    refine apart.leave (p := p) ?_ ?_ fun r at_p => update_of_ne at_p _ _
    · rwa [update_self]
    · rw [update_self]
      exact fun x mem => leaves.mem_iff.mpr (mem_cons_of_mem _ mem)
  refine out.enter (k := k) (q := q) (fun r mem => ?_) ?_ fun r at_q => ?_
  · by_cases at_p : r = p
    · rw [at_p, update_self] at mem
      exact gone mem
    · rw [update_of_ne at_p] at mem
      exact at_p (apart.disjoint mem there)
  · rw [update_of_ne ne.symm]
    exact enters
  · by_cases at_p : r = p
    · rw [at_p, update_self]
    · rw [update_of_ne at_p, others r at_p at_q]

theorem exists_mem_of_move {k x : τ} {p q r : P} (leaves : List.Perm (held p) (k :: held' p))
    (enters : List.Perm (held' q) (k :: held q)) (others : ∀ r, r ≠ p → r ≠ q → held' r = held r)
    (mem : x ∈ held' r) : ∃ r', x ∈ held r' := by
  by_cases at_q : r = q
  · rw [at_q, enters.mem_iff] at mem
    rcases mem_cons.mp mem with rfl | mem
    · exact ⟨p, leaves.mem_iff.mpr mem_cons_self⟩
    · exact ⟨q, mem⟩
  by_cases at_p : r = p
  · exact ⟨p, leaves.mem_iff.mpr (mem_cons_of_mem _ (at_p ▸ mem))⟩
  · exact ⟨r, others r at_p at_q ▸ mem⟩

end ThresholdDsa.Custody
