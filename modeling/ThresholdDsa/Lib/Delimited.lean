/-
# Words ended by a delimiter that they may contain

A list of words is written as one string with the delimiter `d` after each word.  A
reader that knows how many words there are has to choose the delimiters that end them.
Where no word starts with the letter `z`, a delimiter that is followed by `z` ends no
word; `cuts` counts the others.  The string has one reading exactly if there is nothing
to choose: at most one word, or every delimiter inside a word is followed by `z`
(`ended_unique_iff`).
-/
import Mathlib.Data.List.Infix

namespace ThresholdDsa.Delimited

open List

variable {α : Type*}

/-- The words one after the other, each with the delimiter after it. -/
def ended (d : α) (words : List (List α)) : List α := words.flatMap fun word => word ++ [d]

/-- No word starts with `z`. -/
def Plain (z : α) (words : List (List α)) : Prop := ∀ word ∈ words, word.head? ≠ some z

/-- Every delimiter inside the word is followed by `z`. -/
def Guarded (d z : α) (word : List α) : Prop :=
  ∀ before after, word = before ++ d :: after → after.head? = some z

variable {d z : α}

@[simp] theorem ended_nil : ended d [] = [] := rfl

@[simp] theorem ended_cons (word : List α) (words : List (List α)) :
    ended d (word :: words) = word ++ d :: ended d words := by
  simp [ended]

theorem ended_append (words words' : List (List α)) :
    ended d (words ++ words') = ended d words ++ ended d words' := by
  simp [ended]

variable {words words' : List (List α)} {word : List α}

theorem plain_cons :
    Plain z (word :: words) ↔ word.head? ≠ some z ∧ Plain z words :=
  forall_mem_cons

theorem plain_append :
    Plain z (words ++ words') ↔ Plain z words ∧ Plain z words' :=
  forall_mem_append

/-- A word with the delimiter behind it starts as the word does, or with the delimiter. -/
theorem head_before_delimiter (differ : d ≠ z) (plain : word.head? ≠ some z) (rest : List α) :
    (word ++ d :: rest).head? ≠ some z := by
  cases word with
  | nil => simpa using differ
  | cons => simpa using plain

theorem head_ended (differ : d ≠ z) (plain : Plain z words) :
    (ended d words).head? ≠ some z := by
  cases words with
  | nil => simp
  | cons =>
    rw [ended_cons]
    exact head_before_delimiter differ (plain_cons.mp plain).1 _

theorem Guarded.tail {letter : α} (guarded : Guarded d z (letter :: word)) :
    Guarded d z word := by
  intro before after split
  exact guarded (letter :: before) after (by rw [split, cons_append])

/-! ## Counting the delimiters that can end a word -/

section

variable [DecidableEq α]

/-- The delimiters that are not followed by `z`. -/
def cuts (d z : α) : List α → ℕ
  | [] => 0
  | letter :: rest => (if letter = d ∧ rest.head? ≠ some z then 1 else 0) + cuts d z rest

theorem cuts_le_append (word rest : List α) : cuts d z rest ≤ cuts d z (word ++ rest) := by
  induction word with
  | nil => exact le_rfl
  | cons =>
    rw [cons_append, cuts]
    omega

theorem cuts_delimiter {rest : List α} (plain : rest.head? ≠ some z) :
    cuts d z (d :: rest) = 1 + cuts d z rest := by
  rw [cuts, if_pos ⟨rfl, plain⟩]

/-- A guarded word has no delimiter that could end it. -/
theorem cuts_guarded (differ : d ≠ z) (guarded : Guarded d z word) (rest : List α) :
    cuts d z (word ++ d :: rest) = cuts d z (d :: rest) := by
  induction word with
  | nil => rfl
  | cons letter word ih =>
    have kept : ¬(letter = d ∧ (word ++ d :: rest).head? ≠ some z) := by
      rintro ⟨rfl, free⟩
      have followed : word.head? = some z := guarded [] word rfl
      rw [head?_append, followed] at free
      exact free rfl
    rw [cons_append, cuts, if_neg kept, Nat.zero_add, ih guarded.tail]

theorem length_le_cuts (differ : d ≠ z) (plain : Plain z words) :
    words.length ≤ cuts d z (ended d words) := by
  induction words with
  | nil => exact Nat.zero_le _
  | cons word words ih =>
    obtain ⟨-, rest⟩ := plain_cons.mp plain
    have more := cuts_le_append (d := d) (z := z) word (d :: ended d words)
    rw [cuts_delimiter (head_ended differ rest)] at more
    have := ih rest
    rw [ended_cons, length_cons]
    omega

theorem cuts_ended_guarded (differ : d ≠ z) (plain : Plain z words)
    (guarded : ∀ word ∈ words, Guarded d z word) : cuts d z (ended d words) = words.length := by
  induction words with
  | nil => rfl
  | cons word words ih =>
    obtain ⟨-, rest⟩ := plain_cons.mp plain
    obtain ⟨first, others⟩ := forall_mem_cons.mp guarded
    rw [ended_cons, cuts_guarded differ first, cuts_delimiter (head_ended differ rest), ih rest others,
      length_cons, Nat.add_comm]

end

/-! ## One reading -/

variable (differ : d ≠ z)

include differ

/-- Guarded words are read in one way by a reader that knows their number. -/
theorem ended_inj_of_guarded (plain : Plain z words) (plain' : Plain z words')
    (guarded : ∀ word ∈ words, Guarded d z word) (length : words'.length = words.length)
    (same : ended d words' = ended d words) :
    words' = words := by
  classical
  induction words generalizing words' with
  | nil => exact length_eq_zero_iff.mp length
  | cons word words ih =>
    obtain _ | ⟨word', words'⟩ := words'
    · exact absurd length (by simp)
    obtain ⟨-, rest⟩ := plain_cons.mp plain
    obtain ⟨-, rest'⟩ := plain_cons.mp plain'
    obtain ⟨first, others⟩ := forall_mem_cons.mp guarded
    rw [ended_cons, ended_cons] at same
    have lengths : words'.length = words.length := by simpa using length
    rcases append_eq_append_iff.mp same with ⟨more, word_eq, tail⟩ | ⟨more, word_eq, tail⟩
    · cases more with
      | nil =>
        rw [append_nil] at word_eq
        rw [word_eq, ih rest rest' others lengths (List.cons.inj tail).2]
      | cons letter more =>
        -- the delimiter read as the end of the first word is followed by `z`
        obtain ⟨rfl, rest_eq⟩ := List.cons.inj tail
        have followed : more.head? = some z := first word' more word_eq
        refine absurd ?_ (head_ended differ rest')
        rw [rest_eq, append_eq, head?_append, followed, Option.some_or]
    · cases more with
      | nil =>
        rw [append_nil] at word_eq
        rw [← word_eq, ih rest rest' others lengths (List.cons.inj tail).2.symm]
      | cons letter more =>
        -- the first word read is too long: too few delimiters remain for the others
        obtain ⟨rfl, rest_eq⟩ := List.cons.inj tail
        have available := cuts_ended_guarded differ rest others
        have needed := length_le_cuts differ rest'
        have further := cuts_le_append (d := d) (z := z) more (d :: ended d words')
        rw [← append_eq, ← rest_eq, available, cuts_delimiter (head_ended differ rest')] at further
        omega

/-- Two words with a free delimiter between or inside them can be divided elsewhere. -/
theorem divide_elsewhere {before after : List α}
    (plain : (before ++ d :: after).head? ≠ some z) (free : after.head? ≠ some z)
    (plain' : word.head? ≠ some z) :
    before.head? ≠ some z ∧ (after ++ d :: word).head? ≠ some z ∧
      (word ++ d :: before).head? ≠ some z := by
  refine ⟨?_, head_before_delimiter differ free word, head_before_delimiter differ plain' before⟩
  cases before with
  | nil => simp
  | cons => simpa using plain

/-- A free delimiter inside one of several words gives the string another reading. -/
theorem exists_other {before after : List α}
    (plain : Plain z (words ++ (before ++ d :: after) :: words')) (free : after.head? ≠ some z)
    (several : words ≠ [] ∨ words' ≠ []) :
    ∃ other, Plain z other ∧ other.length = (words ++ (before ++ d :: after) :: words').length ∧
      ended d other = ended d (words ++ (before ++ d :: after) :: words') ∧
      other ≠ words ++ (before ++ d :: after) :: words' := by
  obtain ⟨plain_left, plain_right⟩ := plain_append.mp plain
  obtain ⟨plain_word, plain_right⟩ := plain_cons.mp plain_right
  have shorter : ∀ (u v : List α), u ≠ u ++ d :: v := by
    intro u v same
    simpa using congrArg List.length same
  obtain _ | ⟨next, words'⟩ := words'
  · obtain ⟨words, last, rfl⟩ : ∃ init last, words = init ++ [last] := by
      rcases eq_nil_or_concat words with rfl | concat
      · exact absurd several (by simp)
      · simpa using concat
    obtain ⟨plain_left, plain_last⟩ := plain_append.mp plain_left
    obtain ⟨-, -, joined⟩ := divide_elsewhere differ plain_word free (plain_cons.mp plain_last).1
    refine ⟨words ++ [last ++ d :: before, after], ?_, by simp, by simp [ended_append], ?_⟩
    · exact plain_append.mpr ⟨plain_left, plain_cons.mpr ⟨joined, plain_cons.mpr ⟨free, plain_right⟩⟩⟩
    · intro same
      rw [append_assoc] at same
      exact shorter last before (List.cons.inj (append_cancel_left same)).1.symm
  · obtain ⟨plain_next, plain_right⟩ := plain_cons.mp plain_right
    obtain ⟨start, joined, -⟩ := divide_elsewhere differ plain_word free plain_next
    refine ⟨words ++ before :: (after ++ d :: next) :: words', ?_, by simp,
      by simp [ended_append], ?_⟩
    · exact plain_append.mpr ⟨plain_left, plain_cons.mpr ⟨start, plain_cons.mpr ⟨joined, plain_right⟩⟩⟩
    · intro same
      exact shorter before after (List.cons.inj (append_cancel_left same)).1

/-- **The string has one reading** for a reader that knows the number of words exactly if there
is at most one word or all words are guarded. -/
theorem ended_unique_iff (plain : Plain z words) :
    (∀ words', Plain z words' → words'.length = words.length → ended d words' = ended d words →
      words' = words) ↔ words.length ≤ 1 ∨ ∀ word ∈ words, Guarded d z word := by
  constructor
  · intro unique
    by_contra! free
    obtain ⟨several, word, mem, unguarded⟩ := free
    obtain ⟨left, right, rfl⟩ := append_of_mem mem
    simp only [Guarded, not_forall] at unguarded
    obtain ⟨before, after, rfl, free⟩ := unguarded
    have neighbours : left ≠ [] ∨ right ≠ [] := by
      by_contra! alone
      obtain ⟨rfl, rfl⟩ := alone
      simp at several
    obtain ⟨other, other_plain, length, same, differs⟩ := exists_other differ plain free neighbours
    exact differs (unique other other_plain length same)
  · rintro (short | guarded) words' plain' length same
    · obtain _ | ⟨word, _ | ⟨next, words⟩⟩ := words
      · exact length_eq_zero_iff.mp length
      · obtain ⟨word', rfl⟩ := length_eq_one_iff.mp length
        simpa using same
      · exact absurd short (by simp)
    · exact ended_inj_of_guarded differ plain plain' guarded length same

end ThresholdDsa.Delimited
