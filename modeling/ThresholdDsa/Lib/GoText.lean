/-
# Numbers, hexadecimal and case folding in text

`hex.DecodeString` and `(*big.Int).SetString` in base ten, on texts as lists of
characters; `none` is the error or the nil result.  `hexEncode` and `itoa` write
such texts, and reading gives back what was written (`hexDecode_hexEncode`,
`setString10_itoa`).  The hexadecimal form of a number's text, read in decimal, is
another number (`setString10_hexEncode_intText_ne`).

`strings.EqualFold` compares texts up to a folding of characters.  The folding is
a parameter; decimal digits fold to themselves only and distinct lower-case
hexadecimal digits fold apart (`Folding`).
-/
import Mathlib

namespace ThresholdDsa.GoText

open List

/-- A Go string, as its list of characters. -/
abbrev Text := List Char

instance lawfulBEq_text : LawfulBEq (List Char) := inferInstance

def decimalDigit (c : Char) : Option ℕ :=
  if '0' ≤ c ∧ c ≤ '9' then some (c.toNat - '0'.toNat) else none

def hexDigit (c : Char) : Option ℕ :=
  if '0' ≤ c ∧ c ≤ '9' then some (c.toNat - '0'.toNat)
  else if 'a' ≤ c ∧ c ≤ 'f' then some (c.toNat - 'a'.toNat + 10)
  else if 'A' ≤ c ∧ c ≤ 'F' then some (c.toNat - 'A'.toNat + 10)
  else none

/-- `hex.DecodeString`: two digits a byte, an odd length is an error. -/
def hexDecode : List Char → Option (List Char)
  | [] => some []
  | [_] => none
  | high :: low :: rest => do
    let h ← hexDigit high
    let l ← hexDigit low
    let bytes ← hexDecode rest
    pure (Char.ofNat (16 * h + l) :: bytes)

/-- What `hex.DecodeString` returns beside its error: the bytes before the first bad pair. -/
def hexDecodeBytes : List Char → List Char
  | high :: low :: rest =>
    match hexDigit high, hexDigit low with
    | some h, some l => Char.ofNat (16 * h + l) :: hexDecodeBytes rest
    | _, _ => []
  | _ => []

def digits : List Char → Option ℕ
  | [] => none
  | text => text.foldlM (fun acc c => (decimalDigit c).map (10 * acc + ·)) 0

/-- `new(big.Int).SetString(text, 10)`: an optional sign and at least one digit. -/
def setString10 : List Char → Option ℤ
  | '-' :: rest => (digits rest).map fun n => -(n : ℤ)
  | '+' :: rest => (digits rest).map fun n => (n : ℤ)
  | text => (digits text).map fun n => (n : ℤ)

/-- `strconv.Atoi`: a decimal number in the range of a 64-bit `int`. -/
def Atoi (text : List Char) : Option ℤ :=
  (setString10 text).filter fun n => -2 ^ 63 ≤ n ∧ n < 2 ^ 63

/-- The number `strconv.Atoi` returns beside its error: zero for what is no number, the nearest
bound for one out of range. -/
def atoiValue (text : List Char) : ℤ :=
  ((setString10 text).map fun n => max (-2 ^ 63) (min n (2 ^ 63 - 1))).getD 0

example : (hexDecode ['3', '1', '3', '2']).bind setString10 = some 12 := by decide

/-! ## Writing -/

def itoa (n : ℕ) : List Char := Nat.toDigits 10 n

/-- `hex.EncodeToString`: two lower-case digits for each byte. -/
def hexEncode (bytes : List Char) : List Char :=
  bytes.flatMap fun c => [Nat.digitChar (c.toNat / 16), Nat.digitChar (c.toNat % 16)]

variable {c d : Char} {text bytes : List Char} {n : ℕ}

theorem decimalDigit_of_isDigit (digit : c.isDigit) :
    decimalDigit c = some (c.toNat - '0'.toNat) := by
  simp only [Char.isDigit, ge_iff_le, Bool.and_eq_true, decide_eq_true_eq] at digit
  exact if_pos digit

theorem foldlM_decimalDigit (digits : ∀ c ∈ text, c.isDigit) (acc : ℕ) :
    text.foldlM (fun acc c => (decimalDigit c).map (10 * acc + ·)) acc =
      some (Nat.ofDigitChars 10 text acc) := by
  induction text generalizing acc with
  | nil => rfl
  | cons c text ih =>
    rw [foldlM_cons, decimalDigit_of_isDigit (digits c mem_cons_self),
      Nat.ofDigitChars_cons]
    exact ih (fun d mem => digits d (mem_cons_of_mem c mem)) _

theorem itoa_isDigit (mem : c ∈ itoa n) : c.isDigit :=
  Nat.isDigit_of_mem_toDigits (by decide) (by decide) mem

theorem digits_itoa (n : ℕ) : digits (itoa n) = some n := by
  have digit : ∀ c ∈ itoa n, c.isDigit := fun _ mem => itoa_isDigit mem
  have written := foldlM_decimalDigit digit 0
  rw [itoa, Nat.ofDigitChars_ten_toDigits] at written
  rw [digits]
  · exact written
  · exact Nat.toDigits_ne_nil

theorem setString10_itoa (n : ℕ) : setString10 (itoa n) = some (n : ℤ) := by
  unfold setString10
  split
  · rename_i rest written
    exact absurd (itoa_isDigit (n := n) (written ▸ mem_cons_self)) (by decide)
  · rename_i rest written
    exact absurd (itoa_isDigit (n := n) (written ▸ mem_cons_self)) (by decide)
  · rw [digits_itoa]
    rfl

/-- The decimal text of a `*big.Int`. -/
def intText (n : ℤ) : List Char := if n < 0 then '-' :: itoa n.natAbs else itoa n.natAbs

theorem setString10_intText (n : ℤ) : setString10 (intText n) = some n := by
  unfold intText
  split
  · rename_i negative
    rw [setString10, digits_itoa]
    show some (-(n.natAbs : ℤ)) = some n
    rw [Option.some.injEq]
    omega
  · rw [setString10_itoa, Option.some.injEq]
    omega

theorem hexDigit_digitChar (small : n < 16) : hexDigit (Nat.digitChar n) = some n := by
  interval_cases n <;> decide

theorem hexDecode_hexEncode (small : ∀ c ∈ bytes, c.toNat < 256) :
    hexDecode (hexEncode bytes) = some bytes := by
  induction bytes with
  | nil => rfl
  | cons c bytes ih =>
    have byte := small c mem_cons_self
    have rest := ih fun d mem => small d (mem_cons_of_mem c mem)
    have whole : 16 * (c.toNat / 16) + c.toNat % 16 = c.toNat := Nat.div_add_mod c.toNat 16
    rw [hexEncode, flatMap_cons, cons_append, cons_append, nil_append,
      hexDecode, hexDigit_digitChar (by omega), hexDigit_digitChar (Nat.mod_lt _ (by decide))]
    rw [hexEncode] at rest
    simp [rest, whole]

def lowerHex : List Char := (List.range 16).map Nat.digitChar

theorem hexEncode_lowerHex (small : ∀ c ∈ bytes, c.toNat < 256) (mem : c ∈ hexEncode bytes) :
    c ∈ lowerHex := by
  obtain ⟨b, mem_bytes, mem⟩ := mem_flatMap.mp mem
  have byte := small b mem_bytes
  have each : ∀ d < 16, Nat.digitChar d ∈ lowerHex := fun d lt =>
    mem_map_of_mem (mem_range.mpr lt)
  rcases mem_pair.mp mem with rfl | rfl
  · exact each _ (by omega)
  · exact each _ (Nat.mod_lt _ (by decide))

theorem toNat_byteChar (b : UInt8) : (Char.ofNat b.toNat).toNat = b.toNat := by
  have small := UInt8.toNat_lt b
  have valid : b.toNat.isValidChar := Or.inl (by omega)
  rw [Char.ofNat, dif_pos valid]
  rfl

/-! ## The hexadecimal form of a number, read in decimal -/

theorem hexEncode_itoa_isDigit (mem : c ∈ hexEncode (itoa n)) : c.isDigit := by
  obtain ⟨d, d_mem, c_mem⟩ := mem_flatMap.mp mem
  have digit := itoa_isDigit d_mem
  simp only [Char.isDigit, ge_iff_le, Bool.and_eq_true, decide_eq_true_eq] at digit
  have low : 48 ≤ d.toNat := UInt32.le_iff_toNat_le.mp digit.1
  have high : d.toNat ≤ 57 := UInt32.le_iff_toNat_le.mp digit.2
  have each : ∀ x < 10, (Nat.digitChar x).isDigit := by decide
  rcases mem_pair.mp c_mem with rfl | rfl
  · exact each _ (by omega)
  · exact each _ (by omega)

/-- The number that the hexadecimal form of a decimal text reads as. -/
def textNumber (n : ℕ) : ℕ := Nat.ofDigitChars 10 (hexEncode (itoa n)) 0

theorem setString10_hexEncode_itoa (n : ℕ) :
    setString10 (hexEncode (itoa n)) = some (textNumber n : ℤ) := by
  have digit : ∀ c ∈ hexEncode (itoa n), c.isDigit := fun _ mem => hexEncode_itoa_isDigit mem
  have text_ne : hexEncode (itoa n) ≠ [] := by
    intro empty
    obtain ⟨c, mem⟩ := exists_mem_of_ne_nil (itoa n) Nat.toDigits_ne_nil
    exact absurd (flatMap_eq_nil_iff.mp empty c mem) (by simp)
  have value : digits (hexEncode (itoa n)) = some (textNumber n) := by
    rw [digits]
    · exact foldlM_decimalDigit digit 0
    · exact text_ne
  unfold setString10
  split
  · rename_i rest written
    exact absurd (digit '-' (written ▸ mem_cons_self)) (by decide)
  · rename_i rest written
    exact absurd (digit '+' (written ▸ mem_cons_self)) (by decide)
  · rw [value]
    rfl

theorem textNumber_of_lt (small : n < 10) : textNumber n = 30 + n := by
  interval_cases n <;> rfl

/-- One more decimal digit is two more digits of the text. -/
theorem textNumber_of_le (large : 10 ≤ n) :
    textNumber n = 100 * textNumber (n / 10) + (30 + n % 10) := by
  have last : ∀ d < 10, ∀ acc,
      Nat.ofDigitChars 10 (hexEncode [Nat.digitChar d]) acc = 100 * acc + (30 + d) := by
    intro d small acc
    interval_cases d <;> simp [hexEncode, Nat.digitChar, Nat.ofDigitChars_cons] <;> omega
  have split : hexEncode (itoa n) =
      hexEncode (itoa (n / 10)) ++ hexEncode [Nat.digitChar (n % 10)] := by
    rw [itoa, Nat.toDigits_of_base_le (by decide) large, hexEncode, flatMap_append]
    rfl
  rw [textNumber, split, Nat.ofDigitChars_append, last _ (Nat.mod_lt _ (by decide))]
  rfl

theorem le_textNumber (n : ℕ) : 30 ≤ textNumber n := by
  by_cases small : n < 10
  · rw [textNumber_of_lt small]
    omega
  · rw [textNumber_of_le (by omega)]
    omega

theorem textNumber_strictMono : StrictMono textNumber := by
  intro u v less
  induction v using Nat.strong_induction_on generalizing u with
  | _ v ih =>
    by_cases v_small : v < 10
    · rw [textNumber_of_lt v_small, textNumber_of_lt (by omega)]
      omega
    have v_eq := textNumber_of_le (Nat.not_lt.mp v_small)
    by_cases u_small : u < 10
    · have := le_textNumber (v / 10)
      rw [textNumber_of_lt u_small, v_eq]
      omega
    · have u_eq := textNumber_of_le (Nat.not_lt.mp u_small)
      rcases Nat.lt_or_ge (u / 10) (v / 10) with lower | same
      · have := ih (v / 10) (by omega) lower
        omega
      · have equal : u / 10 = v / 10 := by omega
        rw [u_eq, v_eq, equal]
        omega

theorem lt_textNumber (n : ℕ) : n < textNumber n := by
  have grows := textNumber_strictMono.add_le_nat n 0
  rw [Nat.add_zero] at grows
  have := le_textNumber 0
  omega

/-- No number is read back from the hexadecimal form of its decimal text: that of a negative one
has a letter, that of another one reads as a larger number. -/
theorem setString10_hexEncode_intText_ne (n : ℤ) : setString10 (hexEncode (intText n)) ≠ some n := by
  unfold intText
  split
  · have letter : ∀ rest, setString10 ('2' :: 'd' :: rest) = none := fun rest => by
      simp [setString10, digits, decimalDigit]
    have written : hexEncode ('-' :: itoa n.natAbs) = '2' :: 'd' :: hexEncode (itoa n.natAbs) := rfl
    rw [written, letter]
    simp
  · have := lt_textNumber n.natAbs
    rw [setString10_hexEncode_itoa, Ne, Option.some.injEq]
    omega

/-! ## Case folding -/

/-- The folding of characters behind `strings.EqualFold`. -/
structure Folding where
  fold : Char → Char
  digit : ∀ {c d : Char}, d.isDigit → fold c = fold d → c = d
  lowerHex : ∀ {c d : Char}, c ∈ GoText.lowerHex → d ∈ GoText.lowerHex → fold c = fold d → c = d

namespace Folding

variable (F : Folding)

def EqualFold (s t : List Char) : Bool := s.map F.fold = t.map F.fold

variable {s t : List Char}

variable {F} in
theorem equalFold_iff : F.EqualFold s t = true ↔ s.map F.fold = t.map F.fold := by
  simp [EqualFold]

variable {F} in
theorem equalFold_symm (equal : F.EqualFold s t) : F.EqualFold t s :=
  equalFold_iff.mpr (equalFold_iff.mp equal).symm

variable {F} in
theorem equalFold_trans {u : List Char} (first : F.EqualFold s t) (second : F.EqualFold t u) :
    F.EqualFold s u :=
  equalFold_iff.mpr ((equalFold_iff.mp first).trans (equalFold_iff.mp second))

theorem equalFold_refl (s : List Char) : F.EqualFold s s := equalFold_iff.mpr rfl

variable {F} in
theorem length_eq_of_equalFold (equal : F.EqualFold s t) : s.length = t.length := by
  simpa using congrArg List.length (equalFold_iff.mp equal)

theorem eq_of_equalFold (apart : ∀ c ∈ s, ∀ d ∈ t, F.fold c = F.fold d → c = d)
    (equal : F.EqualFold s t) : s = t := by
  simp only [EqualFold, decide_eq_true_eq] at equal
  induction s generalizing t with
  | nil => exact (map_eq_nil_iff.mp equal.symm).symm
  | cons c s ih =>
    cases t with
    | nil => exact absurd equal (by simp)
    | cons d t =>
      obtain ⟨head, tail⟩ := List.cons.inj equal
      rw [apart c mem_cons_self d mem_cons_self head,
        ih (fun c c_mem d d_mem => apart c (mem_cons_of_mem _ c_mem) d
          (mem_cons_of_mem _ d_mem)) tail]

end Folding

/-- A character before the letters is its own lower case, and that of no other one. -/
theorem toLower_eq_iff_of_lt (low : d.val < 'A'.val) : c.toLower = d ↔ c = d := by
  have low_nat : d.val.toNat < 65 := UInt32.lt_iff_toNat_lt.mp low
  constructor
  · intro same
    by_cases upper : c.val ≥ 'A'.val ∧ c.val ≤ 'Z'.val
    · have value : c.val + ('a'.val - 'A'.val) = d.val := by
        rw [← same, Char.toLower, dif_pos upper]
      have shifted : c.val.toNat + 32 = d.val.toNat := by
        have top : c.val.toNat ≤ 90 := UInt32.le_iff_toNat_le.mp upper.2
        rw [← value, UInt32.toNat_add]
        have step : ('a'.val - 'A'.val).toNat = 32 := by decide
        omega
      have from_A : 65 ≤ c.val.toNat := UInt32.le_iff_toNat_le.mp upper.1
      omega
    · rwa [Char.toLower, dif_neg upper] at same
  · rintro rfl
    rw [Char.toLower, dif_neg]
    rintro ⟨letter, -⟩
    have from_A : 65 ≤ c.val.toNat := UInt32.le_iff_toNat_le.mp letter
    omega

theorem lt_A_of_isDigit (digit : d.isDigit) : d.val < 'A'.val := by
  simp only [Char.isDigit, ge_iff_le, Bool.and_eq_true, decide_eq_true_eq] at digit
  exact UInt32.lt_of_le_of_lt digit.2 (by decide)

/-- Digits and the separator of fields are kept by the lower case, and have no other preimage. -/
theorem toLower_eq_iff_of_kept (c d : Char) (kept : d.isDigit ∨ d = ':') : c.toLower = d ↔ c = d := by
  apply toLower_eq_iff_of_lt
  rcases kept with digit | rfl
  · exact lt_A_of_isDigit digit
  · decide

theorem toLower_digit (digit : d.isDigit) (same : c.toLower = d.toLower) : c = d := by
  have low := lt_A_of_isDigit digit
  rwa [(toLower_eq_iff_of_lt (c := d) low).mpr rfl, toLower_eq_iff_of_lt low] at same

/-- ASCII letters fold to lower case. -/
def lowerFolding : Folding where
  fold := Char.toLower
  digit := toLower_digit
  lowerHex {c d} c_mem d_mem same := by
    have fixed : GoText.lowerHex.all fun c => c.toLower = c := by decide +kernel
    simp only [all_eq_true, decide_eq_true_eq] at fixed
    rwa [fixed c c_mem, fixed d d_mem] at same

/-! ## Fields -/

/-- A field ends at the first separator. -/
theorem append_sep_inj {sep : Char} {a b x y : List Char} (a_free : sep ∉ a) (b_free : sep ∉ b)
    (same : a ++ sep :: x = b ++ sep :: y) : a = b ∧ x = y := by
  obtain ⟨more, rfl, rest⟩ | ⟨more, rfl, rest⟩ := append_eq_append_iff.mp same <;>
    cases more <;> simp_all

/-- A map that takes only the separator to itself keeps the fields apart. -/
theorem map_append_sep_inj {sep : Char} {f : Char → Char} (plain : ∀ c, f c = sep ↔ c = sep)
    {a b x y : List Char} (a_free : sep ∉ a) (b_free : sep ∉ b)
    (same : (a ++ sep :: x).map f = (b ++ sep :: y).map f) :
    a.map f = b.map f ∧ x.map f = y.map f := by
  simp only [map_append, map_cons, (plain sep).mpr rfl] at same
  exact append_sep_inj (by simpa [plain] using a_free) (by simpa [plain] using b_free) same

theorem isSome_hexDigit_of_hexDecode (decoded : hexDecode text = some bytes) (mem : c ∈ text) :
    (hexDigit c).isSome := by
  induction text using hexDecode.induct generalizing bytes with
  | case1 => simp at mem
  | case2 c => simp [hexDecode] at decoded
  | case3 high low rest ih =>
    simp only [hexDecode, Option.bind_eq_bind, Option.bind_eq_some_iff] at decoded
    obtain ⟨h, h_eq, l, l_eq, tail, tail_eq, -⟩ := decoded
    simp only [mem_cons] at mem
    rcases mem with rfl | rfl | later
    · simp [h_eq]
    · simp [l_eq]
    · exact ih tail_eq later

theorem isSome_decimalDigit_of_digits (read : digits text = some n) (mem : c ∈ text) :
    (decimalDigit c).isSome := by
  have fold : ∀ (text : List Char) (acc m : ℕ),
      text.foldlM (fun acc c => (decimalDigit c).map (10 * acc + ·)) acc = some m →
      ∀ c ∈ text, (decimalDigit c).isSome := by
    intro text
    induction text with
    | nil => simp
    | cons d text ih =>
      intro acc m folded c mem
      simp only [foldlM_cons, Option.bind_eq_bind, Option.bind_eq_some_iff,
        Option.map_eq_some_iff] at folded
      obtain ⟨_, ⟨value, value_eq, rfl⟩, rest⟩ := folded
      rcases mem_cons.mp mem with rfl | later
      · simp [value_eq]
      · exact ih _ _ rest c later
  cases text with
  | nil => simp at mem
  | cons d text => exact fold _ _ _ read c mem

theorem colon_notMem_of_hexDecode (decoded : hexDecode text = some bytes) :
    ':' ∉ text := by
  intro mem
  have digit := isSome_hexDigit_of_hexDecode decoded mem
  revert digit
  decide

/-- A number is written with digits and a sign. -/
theorem notMem_of_setString10 (not_digit : decimalDigit c = none)
    (not_sign : c ≠ '-' ∧ c ≠ '+') {n : ℤ} (read : setString10 text = some n) : c ∉ text := by
  have free : ∀ {text : List Char} {m : ℕ}, digits text = some m → c ∉ text := by
    intro text m read mem
    have digit := isSome_decimalDigit_of_digits read mem
    rw [not_digit] at digit
    cases digit
  unfold setString10 at read
  split at read
  · next rest =>
    cases digits_eq : digits rest with
    | none => simp [digits_eq] at read
    | some m => simpa [not_sign] using free digits_eq
  · next rest =>
    cases digits_eq : digits rest with
    | none => simp [digits_eq] at read
    | some m => simpa [not_sign] using free digits_eq
  · cases digits_eq : digits text with
    | none => simp [digits_eq] at read
    | some m => exact free digits_eq

theorem colon_notMem_of_setString10 {n : ℤ} (read : setString10 text = some n) : ':' ∉ text :=
  notMem_of_setString10 (by decide) (by decide) read

end ThresholdDsa.GoText
