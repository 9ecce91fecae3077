/-
# Words framed by a marker

A list of words is written as one string by putting a marker before and after each
word, without lengths.  The string says where the words end in two cases: when their
lengths are known (`framed_inj_of_length`), and when the marker overlaps itself in no way
and occurs in none of the words (`framed_inj`).  `split` reads words that one marker
separates: it gives back words without it (`split_words`), and no others
(`not_infix_of_mem_split`).
-/
import Mathlib.Data.List.Infix

namespace ThresholdDsa.Framing

open List

variable {α : Type*} {m : List α}

/-- The words one after the other, each between two markers. -/
def frames (m : List α) (words : List (List α)) : List α :=
  words.flatMap fun word => m ++ word ++ m

@[simp] theorem frames_nil : frames m [] = [] := rfl

@[simp] theorem frames_cons (word : List α) (words : List (List α)) :
    frames m (word :: words) = m ++ (word ++ (m ++ frames m words)) := by
  simp [frames]

/-- Two occurrences of the marker overlap only where they are the same. -/
def Unbordered (m : List α) : Prop :=
  ∀ a b c : List α, m = a ++ b → m = b ++ c → a = [] ∨ b = []

theorem unbordered_of_drop (apart : ∀ n < m.length, m.drop n <+: m → n = 0) : Unbordered m := by
  intro a b c m_eq m_eq'
  by_cases b_nil : b = []
  · exact .inr b_nil
  have inside : a.length < m.length := by
    rw [m_eq, length_append]
    have := length_pos_iff.mpr b_nil
    omega
  have ends : m.drop a.length = b := by
    conv_lhs => rw [m_eq]
    exact drop_left
  exact .inl (length_eq_zero_iff.mp (apart _ inside ⟨c, ends ▸ m_eq'.symm⟩))

/-! ## Words of known lengths -/

variable {words words' : List (List α)}

theorem frames_inj_of_length (lengths : words.map List.length = words'.map List.length)
    (same : frames m words = frames m words') : words = words' := by
  induction words generalizing words' with
  | nil =>
    rw [map_nil, eq_comm, map_eq_nil_iff] at lengths
    exact lengths.symm
  | cons word words ih =>
    obtain _ | ⟨word', words'⟩ := words'
    · exact absurd lengths (by simp)
    · obtain ⟨length, lengths⟩ := List.cons.inj lengths
      rw [frames_cons, frames_cons, append_cancel_left_eq] at same
      obtain ⟨same_word, same⟩ := append_inj same length
      rw [append_cancel_left_eq] at same
      rw [same_word, ih lengths same]

/-- A string that starts with a word and goes on with framed words is read in one way by
readers that know all the lengths. -/
theorem framed_inj_of_length {first first' : List α} (length : first.length = first'.length)
    (lengths : words.map List.length = words'.map List.length)
    (same : first ++ frames m words = first' ++ frames m words') :
    first = first' ∧ words = words' := by
  obtain ⟨same_first, same⟩ := append_inj same length
  exact ⟨same_first, frames_inj_of_length lengths same⟩

/-! ## Words without the marker -/

variable (unbordered : Unbordered m)

include unbordered

theorem eq_nil_of_marker_append {a v v' : List α}
    (free : ¬ m <:+: a) (same : m ++ v = a ++ (m ++ v')) : a = [] := by
  obtain ⟨b, a_eq, -⟩ | ⟨b, m_eq, rest⟩ := append_eq_append_iff.mp same
  · exact absurd ⟨[], b, by rw [a_eq, nil_append]⟩ free
  obtain ⟨c, b_eq, -⟩ | ⟨c, m_eq', -⟩ := append_eq_append_iff.mp rest
  · -- the marker would be a proper part of itself
    have length := congrArg List.length (m_eq.trans (congrArg (a ++ ·) b_eq))
    simp only [length_append] at length
    exact length_eq_zero_iff.mp (by omega)
  · obtain a_nil | b_nil := unbordered a b c m_eq m_eq'
    · exact a_nil
    · rw [b_nil, append_nil] at m_eq
      exact absurd (m_eq ▸ infix_rfl) free

/-- Before the first marker stands one word only. -/
theorem append_marker_inj {u u' v v' : List α}
    (free : ¬ m <:+: u) (free' : ¬ m <:+: u') (same : u ++ (m ++ v) = u' ++ (m ++ v')) :
    u = u' ∧ v = v' := by
  have same_word : u = u' := by
    obtain ⟨a, u'_eq, rest⟩ | ⟨a, u_eq, rest⟩ := append_eq_append_iff.mp same
    · have free_a : ¬ m <:+: a := fun inside =>
        free' (u'_eq ▸ inside.trans (suffix_append u a).isInfix)
      rw [u'_eq, eq_nil_of_marker_append unbordered free_a rest, append_nil]
    · have free_a : ¬ m <:+: a := fun inside =>
        free (u_eq ▸ inside.trans (suffix_append u' a).isInfix)
      rw [u_eq, eq_nil_of_marker_append unbordered free_a rest, append_nil]
  rw [same_word, append_cancel_left_eq, append_cancel_left_eq] at same
  exact ⟨same_word, same⟩

theorem frames_inj (free : ∀ word ∈ words, ¬ m <:+: word)
    (free' : ∀ word ∈ words', ¬ m <:+: word) (same : frames m words = frames m words') :
    words = words' := by
  -- a marker that is not empty tells a list of words from the empty one
  have ends : ∀ {word : List α} {rest : List (List α)}, ¬ m <:+: word →
      frames m (word :: rest) ≠ [] := by
    intro word rest free_word empty
    rw [frames_cons, append_eq_nil_iff] at empty
    exact free_word (empty.1 ▸ nil_infix)
  induction words generalizing words' with
  | nil =>
    obtain _ | ⟨word', words'⟩ := words'
    · rfl
    · exact absurd same.symm (ends (free' word' (by simp)))
  | cons word words ih =>
    obtain _ | ⟨word', words'⟩ := words'
    · exact absurd same (ends (free word (by simp)))
    · rw [frames_cons, frames_cons, append_cancel_left_eq] at same
      obtain ⟨same_word, same⟩ :=
        append_marker_inj unbordered (free word (by simp)) (free' word' (by simp)) same
      rw [same_word, ih (fun w mem => free w (mem_cons_of_mem _ mem))
        (fun w mem => free' w (mem_cons_of_mem _ mem)) same]

/-- A string that starts with a word and goes on with framed words is read in one way where
no word holds the marker. -/
theorem framed_inj {first first' : List α} (free_first : ¬ m <:+: first)
    (free_first' : ¬ m <:+: first') (free : ∀ word ∈ words, ¬ m <:+: word)
    (free' : ∀ word ∈ words', ¬ m <:+: word)
    (same : first ++ frames m words = first' ++ frames m words') :
    first = first' ∧ words = words' := by
  have inside : ∀ {u v w : List α}, w = u ++ (m ++ v) → m <:+: w := by
    intro u v w w_eq
    exact ⟨u, v, by rw [w_eq, append_assoc]⟩
  obtain _ | ⟨word, rest⟩ := words <;> obtain _ | ⟨word', rest'⟩ := words'
  · simpa using same
  · rw [frames_nil, append_nil, frames_cons] at same
    exact absurd (inside same) free_first
  · rw [frames_nil, append_nil, frames_cons] at same
    exact absurd (inside same.symm) free_first'
  · rw [frames_cons, frames_cons] at same
    obtain ⟨same_first, same⟩ := append_marker_inj unbordered free_first free_first' same
    refine ⟨same_first, frames_inj unbordered free free' ?_⟩
    rw [frames_cons, frames_cons, same]

omit unbordered

/-! ## Splitting at the marker -/

section

variable [DecidableEq α]

/-- The string from a place on, cut at the occurrences of `m`; `skip` characters still belong to an
occurrence, `word` is what was read of the current word, last character first. -/
def splitFrom (m : List α) : ℕ → List α → List α → List (List α)
  | _, word, [] => [word.reverse]
  | skip + 1, word, _ :: rest => splitFrom m skip word rest
  | 0, word, c :: rest =>
    if m <+: c :: rest then word.reverse :: splitFrom m (m.length - 1) [] rest
    else splitFrom m 0 (c :: word) rest

/-- The words between the occurrences of a nonempty marker, found from left to right. -/
def split (m s : List α) : List (List α) := splitFrom m 0 [] s

theorem splitFrom_of_not_infix {word s : List α} (free : ¬ m <:+: s) :
    splitFrom m 0 word s = [word.reverse ++ s] := by
  induction s generalizing word with
  | nil => simp [splitFrom]
  | cons c rest ih =>
    have here : ¬ m <+: c :: rest := fun here => free here.isInfix
    have later : ¬ m <:+: rest := fun later => free (later.trans (suffix_cons c rest).isInfix)
    rw [splitFrom, if_neg here, ih later, reverse_cons, append_assoc, singleton_append]

/-- A string without the marker is one word. -/
theorem split_of_not_infix {s : List α} (free : ¬ m <:+: s) : split m s = [s] :=
  splitFrom_of_not_infix free

theorem splitFrom_skip (word u s : List α) :
    splitFrom m u.length word (u ++ s) = splitFrom m 0 word s := by
  induction u with
  | nil => rfl
  | cons c u ih => exact ih

/-- Up to the first marker stands a word without it. -/
theorem splitFrom_word (unbordered : Unbordered m) {u : List α} (free : ¬ m <:+: u)
    (word s : List α) :
    splitFrom m 0 word (u ++ (m ++ s)) = (word.reverse ++ u) :: splitFrom m 0 [] s := by
  induction u generalizing word with
  | nil =>
    obtain _ | ⟨c, m'⟩ := m
    · exact absurd nil_infix free
    · have here : c :: m' <+: c :: (m' ++ s) := ⟨s, rfl⟩
      rw [nil_append, cons_append, splitFrom, if_pos here, append_nil]
      exact congrArg _ (splitFrom_skip [] m' s)
  | cons c u ih =>
    have here : ¬ m <+: c :: (u ++ (m ++ s)) := by
      rintro ⟨v, same⟩
      exact cons_ne_nil c u (eq_nil_of_marker_append unbordered free same)
    have later : ¬ m <:+: u := fun later => free (later.trans (suffix_cons c u).isInfix)
    rw [cons_append, splitFrom, if_neg here, ih later, reverse_cons, append_assoc,
      singleton_append]

/-- Words that are each followed by the marker, and a last one, are read back. -/
theorem split_words (unbordered : Unbordered m) {last : List α}
    (free : ∀ word ∈ words, ¬ m <:+: word) (free_last : ¬ m <:+: last) :
    split m ((words.flatMap fun word => word ++ m) ++ last) = words ++ [last] := by
  induction words with
  | nil => exact split_of_not_infix free_last
  | cons word words ih =>
    rw [flatMap_cons, append_assoc, append_assoc, split,
      splitFrom_word unbordered (free word (by simp)), reverse_nil, nil_append,
      cons_append]
    exact congrArg _ (ih fun w mem => free w (mem_cons_of_mem _ mem))

/-- So are words with the marker between them. -/
theorem split_intercalate (unbordered : Unbordered m) (ne : words ≠ [])
    (free : ∀ word ∈ words, ¬ m <:+: word) : split m (m.intercalate words) = words := by
  induction words with
  | nil => exact absurd rfl ne
  | cons word words ih =>
    obtain ⟨free_word, free_words⟩ := forall_mem_cons.mp free
    obtain _ | ⟨next, words⟩ := words
    · rw [intercalate_singleton]
      exact split_of_not_infix free_word
    · rw [intercalate_cons_cons, append_assoc, split, splitFrom_word unbordered free_word,
        reverse_nil, nil_append]
      exact congrArg _ (ih (cons_ne_nil _ _) free_words)

/-- No word has the marker in it. -/
theorem not_infix_of_mem_split (ne : m ≠ []) {s w : List α} (mem : w ∈ split m s) : ¬ m <:+: w := by
  -- at no place of the word read so far does the marker start
  have loop : ∀ (s word : List α) (skip : ℕ),
      (∀ a b, word.reverse = a ++ b → b ≠ [] → skip = 0 → ¬ m <+: b ++ s) →
      (skip ≠ 0 → word = []) → ∀ w ∈ splitFrom m skip word s, ¬ m <:+: w := by
    have closed : ∀ {word s : List α}, (∀ a b, word = a ++ b → b ≠ [] → ¬ m <+: b ++ s) →
        ¬ m <:+: word := by
      rintro word s clear ⟨a, b, rfl⟩
      refine clear a (m ++ b) (append_assoc _ _ _) (by simp [ne]) ⟨b ++ s, by simp⟩
    intro s
    induction s with
    | nil =>
      intro word skip clear fresh w mem
      obtain rfl : w = word.reverse := by cases skip <;> simpa [splitFrom] using mem
      by_cases zero : skip = 0
      · exact closed fun a b split b_ne => clear a b split b_ne zero
      · rw [fresh zero]
        simpa using ne
    | cons c rest ih =>
      intro word skip clear fresh w mem
      cases skip with
      | succ skip =>
        rw [fresh (by simp)] at mem
        exact ih [] skip (by simp) (fun _ => rfl) w mem
      | zero =>
        rw [splitFrom] at mem
        split at mem
        · rcases mem_cons.mp mem with rfl | mem
          · exact closed fun a b split b_ne => clear a b split b_ne rfl
          · exact ih [] _ (by simp) (fun _ => rfl) w mem
        rename_i here
        refine ih (c :: word) 0 (fun a b split b_ne _ starts => ?_) (by simp) w mem
        rw [reverse_cons] at split
        obtain ⟨b', rfl⟩ : ∃ b', b = b' ++ [c] := by
          obtain ⟨b', d, rfl⟩ := eq_nil_or_concat b |>.resolve_left b_ne
          simp only [concat_eq_append, ← append_assoc] at split
          obtain ⟨-, same⟩ := append_inj' split rfl
          exact ⟨b', by rw [concat_eq_append, same]⟩
        rw [append_assoc, singleton_append] at starts
        by_cases b'_nil : b' = []
        · exact here (by simpa [b'_nil] using starts)
        · rw [← append_assoc] at split
          exact clear a b' (append_inj' split rfl).1 b'_nil rfl starts
  exact loop s [] 0 (by simp) (by simp) w mem

end

/-- What stands in joined words stands in one of them, or it is the separator. -/
theorem mem_intercalate {sep c : α} (mem : c ∈ [sep].intercalate words) :
    c = sep ∨ ∃ word ∈ words, c ∈ word := by
  induction words with
  | nil => simp at mem
  | cons first rest ih =>
    cases rest with
    | nil => exact .inr ⟨first, by simp, by simpa using mem⟩
    | cons =>
      rw [intercalate_cons_cons, append_assoc, mem_append, mem_append,
        mem_singleton] at mem
      rcases mem with inside | same | later
      · exact .inr ⟨first, by simp, inside⟩
      · exact .inl same
      · rcases ih later with same | ⟨word, word_mem, inside⟩
        · exact .inl same
        · exact .inr ⟨word, mem_cons_of_mem first word_mem, inside⟩

end ThresholdDsa.Framing
