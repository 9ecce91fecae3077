/-
# Which transcripts share a Fiat-Shamir challenge

`Sha512_256` of `int.go` writes the number of its arguments and then each argument
with a `$` behind it.  The bytes of an argument may contain `$` too (36), so the
delimiter does not say where an argument ends.  The bytes of a number never start with
a zero byte, and that is all a reader has to go by: `hashInput_unique_iff` says for
which argument lists no other list is hashed alike.
-/
import ThresholdDsa.Ec2.Hash
import ThresholdDsa.Lib.Delimited

namespace ThresholdDsa.Ec2

open Delimited List

/-- The arguments of a call: a slice of non-negative numbers, whose length is an `int`. -/
structure Transcript where
  args : List ℤ
  nonneg : ∀ x ∈ args, 0 ≤ x
  length_int : args.length < 2 ^ 63

/-! ## The argument count -/

theorem putUint64_inj {m n : ℕ} (m_small : m < 2 ^ 63) (n_small : n < 2 ^ 63)
    (same : putUint64 m = putUint64 n) : m = n := by
  have digit : ∀ i < 8, m / 256 ^ i % 256 = n / 256 ^ i % 256 := by
    intro i small
    have bytes := map_inj_left.mp same i (mem_range.mpr small)
    have := congrArg UInt8.toNat bytes
    simpa using this
  have := digit 0 (by decide)
  have := digit 1 (by decide)
  have := digit 2 (by decide)
  have := digit 3 (by decide)
  have := digit 4 (by decide)
  have := digit 5 (by decide)
  have := digit 6 (by decide)
  have := digit 7 (by decide)
  norm_num at *
  omega

/-- Two calls hash the same bytes exactly if they agree in the number of arguments and in what
is written of them. -/
theorem hashInput_eq_iff (xs ys : Transcript) : hashInput ys.args = hashInput xs.args ↔
    ys.args.length = xs.args.length ∧
      ended hashInputDelimiter (ys.args.map intBytes) =
        ended hashInputDelimiter (xs.args.map intBytes) := by
  have written : ∀ args : List ℤ, hashInput args =
      putUint64 args.length ++ ended hashInputDelimiter (args.map intBytes) := by
    intro args
    rw [hashInput, ended, flatMap_map]
  have eight : ∀ n, (putUint64 n).length = 8 := by
    intro n
    simp [putUint64]
  rw [written, written]
  constructor
  · intro same
    obtain ⟨counts, bodies⟩ := append_inj same ((eight _).trans (eight _).symm)
    exact ⟨putUint64_inj ys.length_int xs.length_int counts, bodies⟩
  · rintro ⟨lengths, bodies⟩
    rw [lengths, bodies]

/-! ## The arguments -/

theorem plain_intBytes (args : List ℤ) : Plain 0 (args.map intBytes) := by
  intro word mem
  obtain ⟨x, -, rfl⟩ := mem_map.mp mem
  exact head_intBytes x

/-- Words that do not start with a zero byte are the bytes of numbers. -/
theorem exists_args {words : List (List UInt8)} (plain : Plain 0 words) :
    ∃ args : List ℤ, (∀ x ∈ args, 0 ≤ x) ∧ args.map intBytes = words := by
  refine ⟨words.map setBytes, ?_, ?_⟩
  · intro x mem
    obtain ⟨word, -, rfl⟩ := mem_map.mp mem
    rw [setBytes_eq]
    exact Int.natCast_nonneg _
  · rw [map_map]
    refine (map_congr_left fun word mem => ?_).trans (map_id words)
    exact (intBytes_setBytes_iff word).mpr (plain word mem)

/-- **The hashed bytes determine the arguments** exactly if there is at most one argument, or
every `$` among the bytes of an argument is followed by a zero byte. -/
theorem hashInput_unique_iff (xs : Transcript) :
    (∀ ys : Transcript, hashInput ys.args = hashInput xs.args → ys.args = xs.args) ↔
      xs.args.length ≤ 1 ∨ ∀ x ∈ xs.args, ∀ before after,
        intBytes x = before ++ hashInputDelimiter :: after → after.head? = some 0 := by
  have readings := ended_unique_iff (d := hashInputDelimiter) (by decide) (plain_intBytes xs.args)
  rw [length_map, forall_mem_map] at readings
  refine Iff.trans ?_ readings
  constructor
  · intro unique words plain lengths same
    obtain ⟨args, nonneg, rfl⟩ := exists_args plain
    rw [length_map] at lengths
    let ys : Transcript := ⟨args, nonneg, by rw [lengths]; exact xs.length_int⟩
    exact congrArg (List.map intBytes) (unique ys ((hashInput_eq_iff xs ys).mpr ⟨lengths, same⟩))
  · intro unique ys same
    obtain ⟨lengths, bodies⟩ := (hashInput_eq_iff xs ys).mp same
    have words := unique (ys.args.map intBytes) (plain_intBytes ys.args) (by simpa using lengths) bodies
    exact map_intBytes_inj ys.nonneg xs.nonneg words

/-- The lists `[36, 0]` and `[0, 36]` are both written as `$$$`. -/
theorem transcripts_collide : hashInput [36, 0] = hashInput [0, 36] ∧
    ∀ H : Hashes, H.Sha512_256 [36, 0] = H.Sha512_256 [0, 36] := by
  have same : hashInput [36, 0] = hashInput [0, 36] := by decide +kernel
  exact ⟨same, fun H => congrArg (fun bytes => setBytes (H.sha512_256 bytes)) same⟩

end ThresholdDsa.Ec2
