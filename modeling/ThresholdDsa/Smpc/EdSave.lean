/-
# What EdDSA key generation saves

`processKeyGenEDDSA` saves raw bytes, separated by a word, and `SignED` reads the parts by position.
They are what was saved exactly if no part contains the word (`edSave_reads_iff`).
-/
import ThresholdDsa.Lib.Framing
import ThresholdDsa.Smpc.SignED

namespace ThresholdDsa.Smpc.SaveString

open Outcome GoText Framing Ed EdSign List

def Sep11 : Text := "smpcsep11".toList

theorem unbordered_sep11 : Unbordered Sep11 := unbordered_of_drop (by decide)

/-- The string of `processKeyGenEDDSA`. -/
def edSave (Pk TSk FinalPkBytes : Bytes32) : Text :=
  "XXX".toList ++ Sep11 ++ byteText (slice Pk) ++ Sep11 ++ byteText (slice TSk) ++ Sep11 ++
    byteText (slice FinalPkBytes)

/-- The bytes that `SignED` copies from a part, `[]byte(mm[i])[:32]`. -/
def part32 (save : Text) (i : ℕ) : Outcome Text := do
  let va ← deref (split Sep11 save)[i]?
  if va.length < 32 then .error .panic else pure (va.take 32)

/-- The parts of the string are the bytes that were saved. -/
def EdReadsBack (Pk TSk FinalPkBytes : Bytes32) : Prop :=
  (split Sep11 (edSave Pk TSk FinalPkBytes))[1]? = some (byteText (slice Pk)) ∧
    part32 (edSave Pk TSk FinalPkBytes) 2 = .ok (byteText (slice TSk)) ∧
    part32 (edSave Pk TSk FinalPkBytes) 3 = .ok (byteText (slice FinalPkBytes))

/-- **The saved bytes are read back** exactly if no part has the separator in it. -/
theorem edSave_reads_iff (Pk TSk FinalPkBytes : Bytes32) : EdReadsBack Pk TSk FinalPkBytes ↔
    ∀ b ∈ [Pk, TSk, FinalPkBytes], ¬ Sep11 <:+: byteText (slice b) := by
  have part : ∀ {i t}, part32 (edSave Pk TSk FinalPkBytes) i = .ok t → ¬ Sep11 <:+: t := by
    intro i t read
    simp only [part32, bind_eq_ok, deref_eq_ok] at read
    obtain ⟨va, va_at, taken⟩ := read
    split at taken
    · cases taken
    · obtain rfl := pure_eq_ok.mp taken
      exact fun inside => not_infix_of_mem_split (by decide) (mem_of_getElem? va_at)
        (inside.trans ⟨[], va.drop 32, take_append_drop 32 va⟩)
  constructor
  · rintro ⟨pk, tsk, finalPk⟩ b mem
    simp only [mem_cons, not_mem_nil, or_false] at mem
    rcases mem with rfl | rfl | rfl
    · exact not_infix_of_mem_split (by decide) (mem_of_getElem? pk)
    · exact part tsk
    · exact part finalPk
  · intro free
    have cut : split Sep11 (edSave Pk TSk FinalPkBytes) =
        ["XXX".toList, byteText (slice Pk), byteText (slice TSk), byteText (slice FinalPkBytes)] := by
      have as_words : edSave Pk TSk FinalPkBytes =
          (["XXX".toList, byteText (slice Pk), byteText (slice TSk)].flatMap fun word =>
            word ++ Sep11) ++ byteText (slice FinalPkBytes) := by
        simp [edSave]
      rw [as_words, split_words unbordered_sep11 ?_ (free _ (by simp))]
      · rfl
      · simp only [forall_mem_cons]
        exact ⟨by decide, free _ (by simp), free _ (by simp), by simp⟩
    have read : ∀ {i : ℕ} {b : Bytes32},
        (split Sep11 (edSave Pk TSk FinalPkBytes))[i]? = some (byteText (slice b)) →
        part32 (edSave Pk TSk FinalPkBytes) i = .ok (byteText (slice b)) := by
      intro i b at_i
      have whole : (byteText (slice b)).length = 32 := by simp [byteText]
      rw [part32, deref_eq_ok.mpr at_i, ok_bind, if_neg (by omega),
        take_of_length_le whole.le]
      rfl
    exact ⟨by rw [cut]; rfl, read (by rw [cut]; rfl), read (by rw [cut]; rfl)⟩

/-- A key share that begins with the letters of the separator is not read back. -/
theorem edSave_cut_share :
    ¬ EdReadsBack (fun _ => 0) (fun i => (textBytes Sep11).getD i 0) (fun _ => 0) := by
  rintro ⟨-, tsk, -⟩
  exact absurd tsk (by decide +kernel)

end ThresholdDsa.Smpc.SaveString
