/-
# Folding a list into one digest

The digest of a list is computed from left to right: the hash of the first
element, then the hash of the digest so far and the next element.  The empty list
has no digest.  A hash that tells its inputs apart tells the lists apart
(`chain_injective`).
-/
import Mathlib.Data.List.Induction

namespace ThresholdDsa.HashChain

variable {α δ : Type}

/-- The hash of an element, after the digest so far if there is one. -/
def chain (hash : Option δ → α → δ) (xs : List α) : Option δ :=
  xs.foldl (fun digest x => some (hash digest x)) none

variable {hash : Option δ → α → δ}

@[simp] theorem chain_nil : chain hash [] = none := rfl

@[simp] theorem chain_concat (xs : List α) (x : α) :
    chain hash (xs ++ [x]) = some (hash (chain hash xs) x) := by
  simp [chain]

theorem chain_injective
    (injective : ∀ d d' x x', hash d x = hash d' x' → d = d' ∧ x = x') {xs ys : List α}
    (same : chain hash xs = chain hash ys) : xs = ys := by
  induction xs using List.reverseRecOn generalizing ys with
  | nil =>
    rcases List.eq_nil_or_concat ys with rfl | ⟨ys, y, rfl⟩
    · rfl
    · simp at same
  | append_singleton xs x ih =>
    rcases List.eq_nil_or_concat ys with rfl | ⟨ys, y, rfl⟩
    · simp at same
    · simp only [List.concat_eq_append, chain_concat, Option.some.injEq] at same ⊢
      obtain ⟨digest_eq, rfl⟩ := injective _ _ _ _ same
      rw [ih digest_eq]

end ThresholdDsa.HashChain
